import Mathlib.Data.List.TakeWhile
import Accumulate.Library.NetUrl.Escape

/-!
# Hosts and user information

A host is an address in brackets or a name, and an optional port.  Parsing a host that has been
parsed gives the same host, unless it has a percent sign.  User information is read as the text it
was made from if it is written with the characters of user information and has no escapes.
-/

namespace Accumulate.Library
namespace NetUrl

variable {c : UInt8} {s : List UInt8} {p q : List UInt8}

theorem cutLast_eq_none : cutLast c s = none ↔ c ∉ s := by
  induction s with
  | nil => simp [cutLast]
  | cons d s ih =>
    rw [cutLast, List.mem_cons, not_or, ← ih]
    cases cutLast c s with
    | some r => simp
    | none => simp [eq_comm]

theorem cutLast_append (p : List UInt8) (hq : c ∉ q) : cutLast c (p ++ c :: q) = some (p, q) := by
  induction p with
  | nil => rw [List.nil_append, cutLast, cutLast_eq_none.2 hq, if_pos rfl]
  | cons d p ih => rw [List.cons_append, cutLast, ih]

theorem eq_of_cutLast (h : cutLast c s = some (p, q)) : s = p ++ c :: q ∧ c ∉ q := by
  induction s generalizing p with
  | nil => cases h
  | cons d s ih =>
    rw [cutLast] at h
    cases hs : cutLast c s with
    | some r =>
      rw [hs] at h
      obtain ⟨rfl, rfl⟩ := Prod.mk.inj (Option.some.inj h)
      obtain ⟨rfl, hq⟩ := ih hs
      exact ⟨rfl, hq⟩
    | none =>
      rw [hs] at h
      dsimp only at h
      split at h
      · next hd =>
        obtain ⟨rfl, rfl⟩ := Prod.mk.inj (Option.some.inj h)
        exact ⟨by rw [hd]; rfl, cutLast_eq_none.1 hs⟩
      · cases h

/-- The port of a host, which comes after the address or after the last colon. -/
def PortValid (host : List UInt8) : Prop :=
  if host.head? = some opening then
    ∃ literal port, host = literal ++ closing :: port ∧ closing ∉ port ∧
      validOptionalPort port = true
  else ∀ before port, host = before ++ colon :: port → colon ∉ port →
    validOptionalPort (colon :: port) = true

theorem cutZone_eq_some {before after : List UInt8} (h : cutZone s = some (before, after)) :
    ∃ rest, s = before ++ after ∧ after = ascii "%25" ++ rest := by
  induction s generalizing before with
  | nil => cases h
  | cons c s ih =>
    rw [cutZone] at h
    split at h
    · next hzone =>
      obtain ⟨rfl, rfl⟩ := Prod.mk.inj (Option.some.inj h)
      obtain ⟨rest, hrest⟩ := List.isPrefixOf_iff_prefix.1 hzone
      exact ⟨rest, rfl, hrest.symm⟩
    · cases hs : cutZone s with
      | none =>
        rw [hs] at h
        cases h
      | some r =>
        rw [hs] at h
        obtain ⟨rfl, rfl⟩ := Prod.mk.inj (Option.some.inj h)
        obtain ⟨rest, rfl, hafter⟩ := ih hs
        exact ⟨rest, rfl, hafter⟩

theorem cutZone_eq_none (h : percent ∉ s) : cutZone s = none := by
  cases hs : cutZone s with
  | none => rfl
  | some r =>
    obtain ⟨rest, rfl, hafter⟩ := cutZone_eq_some hs
    refine absurd ?_ h
    rw [hafter]
    simp [ascii, percent]

variable {host t : List UInt8} {u : Userinfo}

theorem parseHost_cases (h : parseHost host = .ok t) :
    (Unescapes .host host t ∧ PortValid host) ∨
    ∃ address zone last t₁ t₂ t₃, host = address ++ (ascii "%25" ++ zone) ++ last ∧
      Unescapes .host address t₁ ∧ Unescapes .zone (ascii "%25" ++ zone) t₂ ∧
      Unescapes .host last t₃ ∧ t = t₁ ++ t₂ ++ t₃ := by
  unfold parseHost at h
  by_cases hhead : host.head? = some opening
  · rw [if_pos hhead] at h
    cases hcut : cutLast closing host with
    | none =>
      rw [hcut] at h
      cases h
    | some r =>
      obtain ⟨literal, port⟩ := r
      rw [hcut] at h
      dsimp only at h
      obtain ⟨heq, hport⟩ := eq_of_cutLast hcut
      split at h
      · next hvalid =>
        cases hzone : cutZone literal with
        | none =>
          rw [hzone] at h
          refine .inl ⟨unescape_eq_ok_iff.1 h, ?_⟩
          rw [PortValid, if_pos hhead]
          exact ⟨literal, port, heq, hport, hvalid⟩
        | some z =>
          obtain ⟨address, zone⟩ := z
          rw [hzone] at h
          obtain ⟨rest, rfl, rfl⟩ := cutZone_eq_some hzone
          obtain ⟨t₁, h₁, h⟩ := bind_eq_ok.1 h
          obtain ⟨t₂, h₂, h⟩ := bind_eq_ok.1 h
          obtain ⟨t₃, h₃, h⟩ := bind_eq_ok.1 h
          exact .inr ⟨address, rest, _, t₁, t₂, t₃, heq, unescape_eq_ok_iff.1 h₁,
            unescape_eq_ok_iff.1 h₂, unescape_eq_ok_iff.1 h₃, (Except.ok.inj h).symm⟩
      · cases h
  · rw [if_neg hhead] at h
    left
    cases hcut : cutLast colon host with
    | none =>
      rw [hcut] at h
      refine ⟨unescape_eq_ok_iff.1 h, ?_⟩
      rw [PortValid, if_neg hhead]
      rintro before port rfl
      exact absurd (by simp) (cutLast_eq_none.1 hcut)
    | some r =>
      rw [hcut] at h
      dsimp only at h
      split at h
      · next hvalid =>
        refine ⟨unescape_eq_ok_iff.1 h, ?_⟩
        rw [PortValid, if_neg hhead]
        rintro before port rfl hport
        rw [cutLast_append before hport] at hcut
        obtain ⟨-, rfl⟩ := Prod.mk.inj (Option.some.inj hcut)
        exact hvalid
      · cases h

theorem parseHost_self (hplain : ∀ c ∈ host, Plain .host c) (hport : PortValid host) :
    parseHost host = .ok host := by
  have hself : unescape .host host = .ok host := unescape_eq_ok_iff.2 (unescapes_of_plain hplain)
  unfold PortValid at hport
  unfold parseHost
  by_cases hhead : host.head? = some opening
  · rw [if_pos hhead] at hport ⊢
    obtain ⟨literal, port, heq, hclosing, hvalid⟩ := hport
    have hzone : cutZone literal = none := by
      refine cutZone_eq_none fun hmem => (hplain percent ?_).1 rfl
      rw [heq]
      exact List.mem_append_left _ hmem
    have hcut : cutLast closing host = some (literal, port) := by
      rw [heq, cutLast_append literal hclosing]
    rw [hcut]
    dsimp only
    rw [if_pos hvalid, hzone]
    exact hself
  · rw [if_neg hhead] at hport ⊢
    cases hcut : cutLast colon host with
    | none => exact hself
    | some r =>
      obtain ⟨before, port⟩ := r
      obtain ⟨heq, hcolon⟩ := eq_of_cutLast hcut
      dsimp only
      rw [if_pos (hport before port heq hcolon)]
      exact hself

theorem mem_of_zone {zone : List UInt8} (h : Unescapes .zone (ascii "%25" ++ zone) t) :
    percent ∈ t := by
  cases h with
  | plain hc => exact absurd rfl hc.1
  | escape ha hb _ _ =>
    cases ha
    cases hb
    exact List.mem_cons_self

theorem plain_of_isDigit : ∀ c, isDigit c = true → Plain .host c := by
  unfold Plain
  decide +kernel

theorem plain_of_port {port : List UInt8} (hport : validOptionalPort port = true) :
    ∀ c ∈ port, Plain .host c := by
  cases port with
  | nil => simp
  | cons d port =>
    rw [validOptionalPort, Bool.and_eq_true, beq_iff_eq, List.all_eq_true] at hport
    obtain ⟨rfl, hdigits⟩ := hport
    refine List.forall_mem_cons.2 ⟨by unfold Plain; decide, fun d hd => ?_⟩
    exact plain_of_isDigit d (hdigits d hd)

/-- An ASCII byte of a host other than the percent sign was written as it is. -/
theorem Unescapes.head_iff (hc : c.toNat < 0x80) (hpercent : c ≠ percent)
    (h : Unescapes .host s t) :
    s.head? = some c ↔ t.head? = some c := by
  cases h with
  | nil => rfl
  | plain => rfl
  | @escape a b high low s t ha hb hallowed =>
    have hvalue : high * 16 + low ≠ c := by
      rintro rfl
      rw [escapeAllowed, Bool.or_eq_true, beq_iff_eq, decide_eq_true_iff] at hallowed
      rcases hallowed with hhigh | hvalue
      · rw [toNat_escape ha hb] at hc
        have : 8 ≤ high.toNat := hhigh
        omega
      · exact hpercent hvalue
    simp [hpercent.symm, hvalue]

theorem Unescapes.mem_of_mem (hc : c.toNat < 0x80) (hpercent : c ≠ percent)
    (h : Unescapes .host s t) (hmem : c ∈ t) : c ∈ s := by
  induction h with
  | nil => exact hmem
  | plain _ _ ih =>
    rcases List.mem_cons.1 hmem with rfl | hmem
    · exact List.mem_cons_self
    · exact List.mem_cons_of_mem _ (ih hmem)
  | @escape a b high low s t ha hb hallowed hrest ih =>
    rcases List.mem_cons.1 hmem with rfl | hmem
    · have hhead := (Unescapes.escape ha hb hallowed hrest).head_iff hc hpercent
      simp [hpercent.symm] at hhead
    · exact List.mem_cons_of_mem _ (List.mem_cons_of_mem _ (List.mem_cons_of_mem _ (ih hmem)))

theorem PortValid.unescapes (hport : PortValid host) (h : Unescapes .host host t) :
    PortValid t := by
  have hopening := h.head_iff (c := opening) (by decide) (by decide)
  unfold PortValid at hport ⊢
  by_cases hhead : host.head? = some opening
  · rw [if_pos hhead] at hport
    rw [if_pos (hopening.1 hhead)]
    obtain ⟨literal, port, rfl, hclosing, hvalid⟩ := hport
    obtain ⟨t₁, t₂, -, h₂, rfl⟩ := h.of_append (by decide)
    have hlast : t₂ = closing :: port :=
      h₂.eq_of_plain (List.forall_mem_cons.2 ⟨by unfold Plain; decide, plain_of_port hvalid⟩)
    exact ⟨t₁, port, by rw [hlast], hclosing, hvalid⟩
  · rw [if_neg hhead] at hport
    rw [if_neg fun h' => hhead (hopening.2 h')]
    rintro before port rfl hcolon
    -- the last colon of the host is where the port of the unescaped host starts
    have hmem : colon ∈ host := h.mem_of_mem (by decide) (by decide) (by simp)
    cases hcut : cutLast colon host with
    | none => exact absurd hmem (cutLast_eq_none.1 hcut)
    | some r =>
      obtain ⟨before', port'⟩ := r
      obtain ⟨rfl, hcolon'⟩ := eq_of_cutLast hcut
      have hvalid := hport before' port' rfl hcolon'
      obtain ⟨t₁, t₂, -, h₂, heq⟩ := h.of_append (by decide)
      rw [h₂.eq_of_plain (plain_of_port hvalid)] at heq
      have hsame := cutLast_append before hcolon
      rw [heq, cutLast_append t₁ hcolon'] at hsame
      obtain ⟨-, rfl⟩ := Prod.mk.inj (Option.some.inj hsame)
      exact hvalid

theorem parseHost_again (h : parseHost host = .ok t) (ht : percent ∉ t) : parseHost t = .ok t := by
  rcases parseHost_cases h with ⟨hhost, hport⟩ | ⟨_, _, _, t₁, t₂, t₃, -, -, hzone, -, rfl⟩
  · refine parseHost_self (fun c hc => ?_) (hport.unescapes hhost)
    rcases hhost.hostByte c hc with rfl | hplain
    · exact absurd hc ht
    · exact hplain
  · refine absurd ?_ ht
    exact List.mem_append_left _ (List.mem_append_right _ (mem_of_zone hzone))

theorem not_mem_percent_of_parseHost_self (h : parseHost host = .ok host) : percent ∉ host := by
  rcases parseHost_cases h with ⟨hhost, -⟩ | ⟨address, zone, last, t₁, t₂, t₃, heq, h₁, h₂, h₃, ht⟩
  · exact fun hmem => (unescapes_self_iff.1 hhost percent hmem).1 rfl
  have hcount : 0 < (ascii "%25" ++ zone).count percent :=
    List.count_pos_iff.2 (List.mem_append_left _ (by decide))
  have hlength := congrArg List.length (heq.symm.trans ht)
  have hle₁ := h₁.length_le
  have hle₂ := h₂.length_eq
  have hle₃ := h₃.length_le
  simp only [List.length_append] at hlength hle₂
  omega

theorem hostByte_of_parseHost (h : parseHost host = .ok t) : ∀ c ∈ t, HostByte c := by
  have hplain : ∀ {s t : List UInt8}, Unescapes .host s t → ∀ c ∈ t, HostByte c := by
    intro s t hs c hc
    rcases hs.hostByte c hc with h | h
    · exact .inl h
    · exact .inr (.inr h)
  rcases parseHost_cases h with ⟨hhost, -⟩ | ⟨_, _, _, t₁, t₂, t₃, -, h₁, h₂, h₃, rfl⟩
  · exact hplain hhost
  intro c hc
  rcases List.mem_append.1 hc with hc | hc
  · rcases List.mem_append.1 hc with hc | hc
    · exact hplain h₁ c hc
    · exact h₂.zoneByte c hc
  · exact hplain h₃ c hc

/-! ## User information -/

/-- The text of user information, without an empty password. -/
def Userinfo.text (u : Userinfo) : List UInt8 :=
  match u.password with
  | some (c :: password) => u.username ++ colon :: c :: password
  | _ => u.username

theorem cut_append (hp : c ∉ p) (q : List UInt8) : cut c (p ++ c :: q) = (p, q) := by
  have hall : ∀ d ∈ p, (decide (d ≠ c)) = true := by
    intro d hd
    rw [decide_eq_true_iff]
    rintro rfl
    exact hp hd
  unfold cut
  rw [List.takeWhile_append_of_pos hall, List.dropWhile_append_of_pos hall]
  simp

theorem parseUserinfo_cases (h : parseUserinfo s = .ok u) :
    (∀ c ∈ s, isUserinfoByte c = true) ∧
    ((colon ∉ s ∧ ∃ t, Unescapes .userPassword s t ∧ u = ⟨t, none⟩) ∨
      ∃ p q p' q', s = p ++ colon :: q ∧ colon ∉ p ∧ Unescapes .userPassword p p' ∧
        Unescapes .userPassword q q' ∧ u = ⟨p', some q'⟩) := by
  unfold parseUserinfo at h
  split at h
  · cases h
  next hvalid =>
    refine ⟨by simpa using hvalid, ?_⟩
    split at h
    · next hmem =>
      right
      obtain ⟨p, q, rfl, hp⟩ := List.eq_append_cons_of_mem hmem
      rw [cut_append hp] at h
      obtain ⟨p', h₁, h⟩ := bind_eq_ok.1 h
      obtain ⟨q', h₂, h⟩ := bind_eq_ok.1 h
      exact ⟨p, q, p', q', rfl, hp, unescape_eq_ok_iff.1 h₁, unescape_eq_ok_iff.1 h₂,
        (Except.ok.inj h).symm⟩
    · next hmem =>
      left
      obtain ⟨t, ht, h⟩ := bind_eq_ok.1 h
      exact ⟨hmem, t, unescape_eq_ok_iff.1 ht, (Except.ok.inj h).symm⟩

theorem Userinfo.length_text_le (username password : List UInt8) :
    (Userinfo.text ⟨username, some password⟩).length ≤ username.length + 1 + password.length := by
  cases password with
  | nil => simp [Userinfo.text]
  | cons c password => simp [Userinfo.text]; omega

theorem parseUserinfo_length (h : parseUserinfo s = .ok u) : u.text.length ≤ s.length := by
  obtain ⟨-, ⟨-, t, ht, rfl⟩ | ⟨p, q, p', q', rfl, -, hp, hq, rfl⟩⟩ := parseUserinfo_cases h
  · exact ht.length_le
  have htext := Userinfo.length_text_le p' q'
  have hp' := hp.length_le
  have hq' := hq.length_le
  rw [List.length_append, List.length_cons]
  omega

/-- The texts that are read as themselves. -/
def UserinfoText (s : List UInt8) : Prop :=
  (∀ c ∈ s, isUserinfoByte c = true ∧ c ≠ percent) ∧ ∀ p, s = p ++ [colon] → colon ∈ p

theorem plain_userPassword : Plain .userPassword c ↔ c ≠ percent := by
  simp [Plain]

theorem parseUserinfo_self_iff : (∃ u, parseUserinfo s = .ok u ∧ u.text = s) ↔ UserinfoText s := by
  constructor
  · rintro ⟨u, h, htext⟩
    obtain ⟨hvalid, ⟨hcolon, t, ht, rfl⟩ | ⟨p, q, p', q', rfl, hcolon, hp, hq, rfl⟩⟩ :=
      parseUserinfo_cases h
    · obtain rfl : t = s := htext
      refine ⟨fun c hc => ⟨hvalid c hc, plain_userPassword.1 (unescapes_self_iff.1 ht c hc)⟩, ?_⟩
      rintro p rfl
      exact absurd (by simp) hcolon
    · have hp' := hp.length_le
      have hq' := hq.length_le
      cases q' with
      | nil =>
        have hlength := congrArg List.length htext
        simp only [Userinfo.text, List.length_append, List.length_cons] at hlength
        omega
      | cons d q' =>
        have hlength := congrArg List.length htext
        simp only [Userinfo.text, List.length_append, List.length_cons] at hlength hq'
        have hname : p'.length = p.length := by omega
        obtain ⟨rfl, hrest⟩ := List.append_inj htext hname
        obtain ⟨-, rfl⟩ := List.cons.inj hrest
        refine ⟨fun c hc => ⟨hvalid c hc, ?_⟩, fun r hr => ?_⟩
        · rcases List.mem_append.1 hc with hc | hc
          · exact plain_userPassword.1 (unescapes_self_iff.1 hp c hc)
          · rcases List.mem_cons.1 hc with rfl | hc
            · decide
            · exact plain_userPassword.1 (unescapes_self_iff.1 hq c hc)
        · -- the last byte belongs to the password
          have hdrop := congrArg List.dropLast hr
          rw [List.dropLast_concat] at hdrop
          rw [← hdrop]
          simp
  · rintro ⟨hvalid, hlast⟩
    have hall : (!s.all isUserinfoByte) = false := by
      simpa using fun c hc => (hvalid c hc).1
    have hself : ∀ {p : List UInt8}, p ⊆ s → unescape .userPassword p = .ok p := fun hp =>
      unescape_eq_ok_iff.2 (unescapes_of_plain fun c hc =>
        plain_userPassword.2 (hvalid c (hp hc)).2)
    unfold parseUserinfo
    rw [hall]
    by_cases hmem : colon ∈ s
    · obtain ⟨p, q, rfl, hp⟩ := List.eq_append_cons_of_mem hmem
      refine ⟨⟨p, some q⟩, ?_, ?_⟩
      · rw [if_pos hmem, cut_append hp]
        dsimp only
        rw [hself (List.subset_append_left p _),
          hself fun c hc => List.mem_append_right p (List.mem_cons_of_mem colon hc)]
        rfl
      · cases q with
        | nil => exact absurd (hlast p rfl) hp
        | cons c q => rfl
    · refine ⟨⟨s, none⟩, ?_, rfl⟩
      rw [if_neg hmem, hself (List.Subset.refl s)]
      rfl

end NetUrl
end Accumulate.Library
