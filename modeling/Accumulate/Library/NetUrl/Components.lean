import Accumulate.Library.NetUrl.Host

/-!
# The components of a URL

A URL with a scheme and an authority is cut at its first number sign, then at its first question
mark, then at its first slash; each part is then read on its own.
-/

namespace Accumulate.Library
namespace NetUrl

/-- The text of a URL after its scheme, cut into its components. -/
structure Components where
  authority : List UInt8
  path : List UInt8
  query : List UInt8
  fragment : List UInt8

def beforeFragment (x : List UInt8) : List UInt8 := (cut hash x).1

def beforeQuery (x : List UInt8) : List UInt8 := (cut question (beforeFragment x)).1

def components (x : List UInt8) : Components where
  authority := (beforeQuery x).takeWhile (· ≠ slash)
  path := (beforeQuery x).dropWhile (· ≠ slash)
  query := (cut question (beforeFragment x)).2
  fragment := (cut hash x).2

theorem cut_literal {c : UInt8} (literal : List UInt8) (h : c ∉ literal) (x : List UInt8) :
    cut c (literal ++ x) = (literal ++ (cut c x).1, (cut c x).2) := by
  have hall : ∀ d ∈ literal, (decide (d ≠ c)) = true := by
    intro d hd
    rw [decide_eq_true_iff]
    rintro rfl
    exact h hd
  unfold cut
  rw [List.takeWhile_append_of_pos hall, List.dropWhile_append_of_pos hall]

theorem parseRest_acc (y : List UInt8) : parseRest (ascii "acc://" ++ y) =
    if y.any isControl then .error .controlCharacter
    else parseHierarchy (ascii "acc") (ascii "//" ++ (cut question y).1) (cut question y).2 := by
  have hcut := cut_literal (c := question) (ascii "//") (by decide) y
  show (if y.any isControl then _ else
    parseHierarchy (ascii "acc") (cut question (ascii "//" ++ y)).1
    (cut question (ascii "//" ++ y)).2) = _
  rw [hcut]

theorem parse_acc_eq_ok {x : List UInt8} {url : URL} : parse (ascii "acc://" ++ x) = .ok url ↔
    (beforeFragment x).any isControl = false ∧
    parseAuthority (components x).authority = .ok (url.user, url.host) ∧
    Unescapes .path (components x).path url.path ∧
    Unescapes .fragment (components x).fragment url.fragment ∧
    url.scheme = ascii "acc" ∧ url.opaqueText = [] ∧ url.rawQuery = (components x).query := by
  show (parseRest (ascii "acc://" ++ beforeFragment x) >>= _) = _ ↔ _
  rw [parseRest_acc]
  constructor
  · intro h
    obtain ⟨v, hv, h⟩ := bind_eq_ok.1 h
    obtain ⟨fragment, hfragment, h⟩ := bind_eq_ok.1 h
    split at hv
    · cases hv
    next hcontrol =>
      obtain ⟨⟨user, host⟩, hauthority, hv⟩ := bind_eq_ok.1 hv
      obtain ⟨path, hpath, hv⟩ := bind_eq_ok.1 hv
      cases hv
      cases h
      exact ⟨by simpa using hcontrol, hauthority, unescape_eq_ok_iff.1 hpath,
        unescape_eq_ok_iff.1 hfragment, rfl, rfl, rfl⟩
  · rintro ⟨hcontrol, hauthority, hpath, hfragment, hscheme, hopaque, hquery⟩
    obtain ⟨scheme, opaqueText, user, host, path, rawQuery, fragment⟩ := url
    cases hscheme
    cases hopaque
    cases hquery
    rw [hcontrol]
    refine bind_eq_ok.2 ⟨_, bind_eq_ok.2 ⟨(user, host), hauthority, bind_eq_ok.2 ⟨path, ?_, rfl⟩⟩,
      bind_eq_ok.2 ⟨fragment, ?_, rfl⟩⟩
    · exact unescape_eq_ok_iff.2 hpath
    · exact unescape_eq_ok_iff.2 hfragment

theorem getScheme_subset {rawURL scheme rest : List UInt8}
    (h : getScheme rawURL = .ok (scheme, rest)) : rest ⊆ rawURL := by
  unfold getScheme at h
  dsimp only at h
  have hdrop := (List.dropWhile_suffix isSchemeByte (l := rawURL)).subset
  split at h
  · next c tail htail =>
      rw [htail] at hdrop
      split at h
      · cases h
        exact List.Subset.refl _
      split at h
      · cases h
      split at h
      · cases h
        exact fun d hd => hdrop (List.mem_cons_of_mem _ hd)
      · cases h
        exact List.Subset.refl _
  · cases h
    exact List.Subset.refl _

theorem cut_subset (c : UInt8) (s : List UInt8) :
    (∀ d ∈ (cut c s).1, d ∈ s ∧ d ≠ c) ∧ (cut c s).2 ⊆ s := by
  refine ⟨fun d hd => ?_, fun d hd => ?_⟩
  · exact ⟨(List.takeWhile_prefix _).subset hd, by simpa using List.mem_takeWhile_imp hd⟩
  · exact (List.dropWhile_suffix _).subset (List.mem_of_mem_tail hd)

theorem parse_host {s : List UInt8} {url : URL} (h : parse s = .ok url) (hhost : url.host ≠ []) :
    (∃ authority, parseAuthority authority = .ok (url.user, url.host)) ∧
    (∃ p, Unescapes .path p url.path ∧ ∀ c ∈ p.head?, c = slash) ∧
    ∀ c ∈ url.rawQuery, c ≠ hash ∧ isControl c = false := by
  obtain ⟨v, hv, h⟩ := bind_eq_ok.1 h
  obtain ⟨fragment, -, h⟩ := bind_eq_ok.1 h
  cases h
  unfold parseRest at hv
  split at hv
  · cases hv
  next hcontrol =>
    split at hv
    · cases hv
      exact absurd rfl hhost
    obtain ⟨⟨scheme, rest⟩, hscheme, hv⟩ := bind_eq_ok.1 hv
    have hquery : ∀ c ∈ (cut question rest).2, c ≠ hash ∧ isControl c = false := by
      intro c hc
      have hmem := getScheme_subset hscheme ((cut_subset question rest).2 hc)
      refine ⟨((cut_subset hash s).1 c hmem).2, ?_⟩
      simp only [List.any_eq_true, not_exists, not_and] at hcontrol
      simpa using hcontrol c hmem
    dsimp only at hv
    unfold parseHierarchy at hv
    split at hv
    · cases hv
      exact absurd rfl hhost
    split at hv
    · cases hv
    split at hv
    · obtain ⟨⟨user, host⟩, hauthority, hv⟩ := bind_eq_ok.1 hv
      obtain ⟨path, hpath, hv⟩ := bind_eq_ok.1 hv
      cases hv
      refine ⟨⟨_, hauthority⟩, ⟨_, unescape_eq_ok_iff.1 hpath, fun c hc => ?_⟩, hquery⟩
      have := List.head?_dropWhile_not (· ≠ slash) (((cut question rest).1).drop 2)
      rw [hc] at this
      simpa using this
    · obtain ⟨path, hpath, hv⟩ := bind_eq_ok.1 hv
      cases hv
      exact absurd rfl hhost

end NetUrl
end Accumulate.Library
