import Accumulate.Library.NetUrl.Parse

/-!
# Escaped texts

How a component may be written: each byte as it is, where the component allows that, or escaped.
A text that is unescaped gets shorter with each escape, so that it stands for itself only if it has
none; a text that has been escaped stands for what it was made from.
-/

namespace Accumulate.Library
namespace NetUrl

/-- A byte that may stand in a component as it is. -/
def Plain (mode : Mode) (c : UInt8) : Prop :=
  c ≠ percent ∧ ((mode = .host || mode = .zone) && c < 0x80 && shouldEscape c mode) = false

/-- The first text is a way to write the second in a component. -/
inductive Unescapes (mode : Mode) : List UInt8 → List UInt8 → Prop where
  | nil : Unescapes mode [] []
  | plain {c : UInt8} {s t : List UInt8} : Plain mode c → Unescapes mode s t →
      Unescapes mode (c :: s) (c :: t)
  | escape {a b high low : UInt8} {s t : List UInt8} : unhex? a = some high →
      unhex? b = some low → escapeAllowed mode high (high * 16 + low) = true →
      Unescapes mode s t → Unescapes mode (percent :: a :: b :: s) ((high * 16 + low) :: t)

variable {mode : Mode} {c : UInt8}

theorem unescape_plain (hc : Plain mode c) (s : List UInt8) :
    unescape mode (c :: s) = (unescape mode s).map (c :: ·) := by
  conv_lhs => unfold unescape
  rw [if_neg hc.1, hc.2]
  rfl

variable {a high : UInt8} {b low : UInt8}

theorem unescape_percent (ha : unhex? a = some high) (hb : unhex? b = some low)
    (hallowed : escapeAllowed mode high (high * 16 + low) = true) (s : List UInt8) :
    unescape mode (percent :: a :: b :: s) = (unescape mode s).map ((high * 16 + low) :: ·) := by
  rw [unescape, if_pos rfl]
  simp only [ha, hb]
  rw [if_pos hallowed]

theorem bind_eq_ok {α β : Type} {x : Except Error α} {f : α → Except Error β} {b : β} :
    x >>= f = .ok b ↔ ∃ a, x = .ok a ∧ f a = .ok b := by
  constructor
  · intro h
    cases x with
    | error e => cases h
    | ok a => exact ⟨a, rfl, h⟩
  · rintro ⟨a, rfl, h⟩
    exact h

variable {t : List UInt8}

theorem map_cons_eq_ok {r : Except Error (List UInt8)} (h : r.map (c :: ·) = .ok t) :
    ∃ t', r = .ok t' ∧ t = c :: t' := by
  cases r with
  | error e => cases h
  | ok t' => exact ⟨t', rfl, (Except.ok.inj h).symm⟩

variable {s : List UInt8} {r : List UInt8}

theorem unescapes_of_unescape (h : unescape mode s = .ok t) : Unescapes mode s t := by
  fun_induction unescape mode s generalizing t with
  | case1 =>
    cases h
    exact .nil
  | case2 a b s high low hb ha hallowed ih =>
    obtain ⟨t', ht, rfl⟩ := map_cons_eq_ok h
    exact .escape ha hb hallowed (ih ht)
  | case7 c s hpercent hhost ih =>
    obtain ⟨t', ht, rfl⟩ := map_cons_eq_ok h
    exact .plain ⟨hpercent, by simpa using hhost⟩ (ih ht)
  | case3 | case4 | case5 | case6 => cases h

theorem unescape_eq_ok_iff : unescape mode s = .ok t ↔ Unescapes mode s t := by
  refine ⟨unescapes_of_unescape, fun h => ?_⟩
  induction h with
  | nil => rfl
  | plain hc _ ih => rw [unescape_plain hc, ih]; rfl
  | escape ha hb hallowed _ ih => rw [unescape_percent ha hb hallowed, ih]; rfl

theorem Unescapes.unique {t' : List UInt8} (h : Unescapes mode s t)
    (h' : Unescapes mode s t') : t = t' :=
  Except.ok.inj ((unescape_eq_ok_iff.2 h).symm.trans (unescape_eq_ok_iff.2 h'))

namespace Unescapes

variable {mode : Mode} {s t : List UInt8}

section

variable (h : Unescapes mode s t)

include h

theorem length_eq : t.length + 2 * s.count percent ≤ s.length := by
  induction h with
  | nil => simp
  | @plain c s t hc _ ih =>
    rw [List.count_cons_of_ne hc.1, List.length_cons, List.length_cons]
    omega
  | @escape a b high low s t ha hb _ _ ih =>
    have ha' : a ≠ percent := by rintro rfl; cases ha
    have hb' : b ≠ percent := by rintro rfl; cases hb
    rw [List.count_cons_self, List.count_cons_of_ne ha', List.count_cons_of_ne hb',
      List.length_cons, List.length_cons, List.length_cons, List.length_cons]
    omega

theorem length_le : t.length ≤ s.length := by
  have := h.length_eq
  omega

theorem plain_of_not_mem (hs : percent ∉ s) : t = s ∧ ∀ c ∈ s, Plain mode c := by
  induction h with
  | nil => simp
  | plain hc _ ih =>
    obtain ⟨rfl, hplain⟩ := ih fun hmem => hs (List.mem_cons_of_mem _ hmem)
    exact ⟨rfl, List.forall_mem_cons.2 ⟨hc, hplain⟩⟩
  | escape => exact absurd List.mem_cons_self hs

theorem eq_of_plain (hs : ∀ c ∈ s, Plain mode c) : t = s :=
  (h.plain_of_not_mem fun hmem => (hs percent hmem).1 rfl).1

end

end Unescapes

theorem unescapes_of_plain (hs : ∀ c ∈ s, Plain mode c) : Unescapes mode s s := by
  induction s with
  | nil => exact .nil
  | cons c s ih =>
    exact .plain (hs c List.mem_cons_self) (ih fun d hd => hs d (List.mem_cons_of_mem _ hd))

theorem unescapes_self_iff : Unescapes mode s s ↔ ∀ c ∈ s, Plain mode c := by
  refine ⟨fun h => (h.plain_of_not_mem fun hmem => ?_).2, unescapes_of_plain⟩
  have hlength := h.length_eq
  have hcount := List.count_pos_iff.2 hmem
  omega

theorem Unescapes.append {q : List UInt8} (h : Unescapes mode s t) (h' : Unescapes mode r q) :
    Unescapes mode (s ++ r) (t ++ q) := by
  induction h with
  | nil => exact h'
  | plain hc _ ih => exact .plain hc ih
  | escape ha hb hallowed _ ih => exact .escape ha hb hallowed ih

theorem Unescapes.of_append (hc : unhex? c = none) (h : Unescapes mode (s ++ c :: r) t) :
    ∃ t₁ t₂, Unescapes mode s t₁ ∧ Unescapes mode (c :: r) t₂ ∧ t = t₁ ++ t₂ := by
  generalize hw : s ++ c :: r = w at h
  induction h generalizing s with
  | nil => cases s <;> cases hw
  | @plain d w t hd hrest ih =>
    cases s with
    | nil =>
      obtain ⟨rfl, rfl⟩ := List.cons.inj hw
      exact ⟨[], c :: t, .nil, .plain hd hrest, rfl⟩
    | cons x s =>
      obtain ⟨rfl, hs⟩ := List.cons.inj hw
      obtain ⟨t₁, t₂, h₁, h₂, rfl⟩ := ih hs
      exact ⟨x :: t₁, t₂, .plain hd h₁, h₂, rfl⟩
  | @escape a b high low w t ha hb hallowed hrest ih =>
    match s, hw with
    | [], hw =>
      obtain ⟨rfl, rfl⟩ := List.cons.inj hw
      exact ⟨[], _, .nil, .escape ha hb hallowed hrest, rfl⟩
    | [x], hw =>
      obtain ⟨rfl, -⟩ := List.cons.inj (List.cons.inj hw).2
      rw [hc] at ha
      cases ha
    | [x, y], hw =>
      obtain ⟨rfl, -⟩ := List.cons.inj (List.cons.inj (List.cons.inj hw).2).2
      rw [hc] at hb
      cases hb
    | x :: y :: z :: s, hw =>
      obtain ⟨rfl, hw₁⟩ := List.cons.inj hw
      obtain ⟨rfl, hw₂⟩ := List.cons.inj hw₁
      obtain ⟨rfl, hw₃⟩ := List.cons.inj hw₂
      obtain ⟨t₁, t₂, h₁, h₂, rfl⟩ := ih hw₃
      exact ⟨_ :: t₁, t₂, .escape ha hb hallowed h₁, h₂, rfl⟩

theorem unhex?_lt (h : unhex? a = some high) : high.toNat < 16 := by
  have hall : ∀ a : UInt8, (unhex? a).all (·.toNat < 16) = true := by
    decide +kernel
  simpa [h] using hall a

theorem toNat_escape (ha : unhex? a = some high) (hb : unhex? b = some low) :
    (high * 16 + low).toNat = high.toNat * 16 + low.toNat := by
  have hhigh := unhex?_lt ha
  have hlow := unhex?_lt hb
  have hsixteen : (16 : UInt8).toNat = 16 := rfl
  rw [UInt8.toNat_add, UInt8.toNat_mul, hsixteen]
  omega

/-- The bytes of a host: those that may stand there, and the percent sign and the space of a
zone. -/
def HostByte (c : UInt8) : Prop := c = percent ∨ c = space ∨ Plain .host c

theorem plain_of_not_ascii (hc : 0x80 ≤ c.toNat) : Plain mode c := by
  have hlt : ¬ c < 0x80 := by rw [UInt8.lt_iff_toNat_lt]; exact Nat.not_lt.2 hc
  refine ⟨?_, by simp [hlt]⟩
  rintro rfl
  revert hc
  decide

theorem shouldEscape_zone : ∀ c, shouldEscape c .zone = shouldEscape c .host := by
  decide +kernel

theorem Unescapes.hostByte (h : Unescapes .host s t) : ∀ c ∈ t, c = percent ∨ Plain .host c := by
  induction h with
  | nil => simp
  | plain hc _ ih => exact List.forall_mem_cons.2 ⟨.inr hc, ih⟩
  | @escape a b high low s t ha hb hallowed _ ih =>
    refine List.forall_mem_cons.2 ⟨?_, ih⟩
    rw [escapeAllowed, Bool.or_eq_true, beq_iff_eq, decide_eq_true_iff] at hallowed
    rcases hallowed with hhigh | hpercent
    · right
      apply plain_of_not_ascii
      rw [toNat_escape ha hb]
      have : 8 ≤ high.toNat := hhigh
      omega
    · exact .inl hpercent

theorem Unescapes.zoneByte (h : Unescapes .zone s t) : ∀ c ∈ t, HostByte c := by
  induction h with
  | nil => simp
  | @plain c s t hc _ ih =>
    refine List.forall_mem_cons.2 ⟨.inr (.inr ⟨hc.1, ?_⟩), ih⟩
    simpa [shouldEscape_zone] using hc.2
  | @escape a b high low s t ha hb hallowed _ ih =>
    refine List.forall_mem_cons.2 ⟨?_, ih⟩
    rw [escapeAllowed, Bool.or_eq_true, Bool.or_eq_true, beq_iff_eq, beq_iff_eq,
      Bool.not_eq_true'] at hallowed
    rcases hallowed with (hpercent | hspace) | hescape
    · exact .inl hpercent
    · exact .inr (.inl hspace)
    refine .inr (.inr ⟨?_, by simp [hescape]⟩)
    rintro hpercent
    rw [hpercent] at hescape
    revert hescape
    decide

/-! ## Escaping -/

theorem unhex?_upperhex : ∀ c : UInt8, unhex? (upperhex (c / 16)) = some (c / 16) ∧
    unhex? (upperhex (c % 16)) = some (c % 16) ∧ c / 16 * 16 + c % 16 = c := by
  decide +kernel

theorem ne_percent_of_not_shouldEscape (h : shouldEscape c mode = false) : c ≠ percent := by
  rintro rfl
  revert h
  cases mode <;> decide

theorem Unescapes.escapeByte {mode' : Mode} (hhost : mode ≠ .host) (hzone : mode ≠ .zone)
    (c : UInt8) : Unescapes mode (escapeByte mode' c) [c] := by
  unfold NetUrl.escapeByte
  split
  · obtain ⟨hhigh, hlow, hvalue⟩ := unhex?_upperhex c
    have hescape : Unescapes mode [percent, upperhex (c / 16), upperhex (c % 16)]
        [c / 16 * 16 + c % 16] := by
      refine .escape hhigh hlow ?_ .nil
      cases mode <;> first | rfl | exact absurd rfl hhost | exact absurd rfl hzone
    rwa [hvalue] at hescape
  · next hplain =>
    refine .plain ⟨ne_percent_of_not_shouldEscape (by simpa using hplain), ?_⟩ .nil
    simp [hhost, hzone]

theorem Unescapes.flatMap {f : UInt8 → List UInt8} (h : ∀ c ∈ s, Unescapes mode (f c) [c]) :
    Unescapes mode (s.flatMap f) s := by
  induction s with
  | nil => exact .nil
  | cons c s ih =>
    exact (h c List.mem_cons_self).append (ih fun d hd => h d (List.mem_cons_of_mem _ hd))

end NetUrl
end Accumulate.Library
