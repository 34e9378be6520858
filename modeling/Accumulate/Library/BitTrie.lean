import Mathlib.Data.List.Infix

/-!
# Digests of maps over bit strings

A map from words of a fixed width is seen as a binary tree: a place in the tree is a bit string,
the words below it are those that begin with it.  The digest of a place combines the digests of
its two halves, and is the one of the other half if one half is empty.  So the digest of a place
with a single word below it is the value of that word, however long the way down is.
-/

namespace Accumulate.Library

variable {α : Type} {w : Nat}

/-! ## Words as bit strings -/

/-- The bits of a word, the most significant one first. -/
def bits (k : BitVec w) : List Bool := (List.range w).map k.getMsbD

def ofBits (w : Nat) (p : List Bool) : BitVec w :=
  if h : p.length = w then (BitVec.ofBoolListBE p).cast h else 0

@[simp] theorem length_bits (k : BitVec w) : (bits k).length = w := by
  simp [bits]

variable {k : BitVec w}

theorem getElem?_bits {i : Nat} (h : i < w) : (bits k)[i]? = some (k.getMsbD i) := by
  simp [bits, h]

variable {p : List Bool}

theorem getMsbD_ofBits (h : p.length = w) (i : Nat) :
    (ofBits w p).getMsbD i = p[i]?.getD false := by
  unfold ofBits
  rw [dif_pos h, BitVec.getMsbD_cast, BitVec.getMsbD_ofBoolListBE, List.getD_eq_getElem?_getD]

@[simp] theorem ofBits_bits (k : BitVec w) : ofBits w (bits k) = k := by
  apply BitVec.eq_of_getMsbD_eq
  intro i hi
  rw [getMsbD_ofBits (length_bits k), getElem?_bits hi, Option.getD_some]

theorem bits_ofBits (h : p.length = w) : bits (ofBits w p) = p := by
  apply List.ext_getElem?
  intro i
  by_cases hi : i < w
  · rw [getElem?_bits hi, getMsbD_ofBits h, List.getElem?_eq_getElem (by omega), Option.getD_some]
  · rw [List.getElem?_eq_none (by simp; omega), List.getElem?_eq_none (by omega)]

/-! ## Places -/

/-- The word lies below the place. -/
def Below (p : List Bool) (k : BitVec w) : Prop := p <+: bits k

instance (p : List Bool) (k : BitVec w) : Decidable (Below p k) :=
  inferInstanceAs (Decidable (p <+: bits k))

theorem below_nil (k : BitVec w) : Below [] k := List.nil_prefix

theorem Below.length_le (h : Below p k) : p.length ≤ w := by
  have hle := List.IsPrefix.length_le h
  rwa [length_bits] at hle

theorem Below.of_extends {q : List Bool} (h : Below q k) (hp : p <+: q) : Below p k :=
  hp.trans h

theorem below_concat_iff (h : p.length < w) (b : Bool) :
    Below (p ++ [b]) k ↔ Below p k ∧ k.getMsbD p.length = b := by
  unfold Below
  rw [List.prefix_iff_eq_take, List.prefix_iff_eq_take, List.length_append, List.length_singleton,
    List.take_add_one, getElem?_bits h, Option.toList_some]
  constructor
  · intro heq
    have hlength : p.length = ((bits k).take p.length).length := by simp; omega
    obtain ⟨hp, hb⟩ := List.append_inj heq hlength
    exact ⟨hp, (List.singleton_inj.1 hb).symm⟩
  · rintro ⟨hp, hb⟩
    rw [← hp, hb]

theorem Below.concat (h : Below p k) (hlength : p.length < w) :
    Below (p ++ [k.getMsbD p.length]) k :=
  (below_concat_iff hlength _).2 ⟨h, rfl⟩

theorem Below.eq_ofBits (h : Below p k) (hlength : p.length = w) : k = ofBits w p := by
  have heq : p = bits k := List.IsPrefix.eq_of_length h (by rw [hlength, length_bits])
  rw [heq, ofBits_bits]

theorem below_ofBits (h : p.length = w) : Below p (ofBits w p) := by
  unfold Below
  rw [bits_ofBits h]

/-! ## Digests -/

section Digest

variable (combine : α → α → α)

def join : Option α → Option α → Option α
  | some l, some r => some (combine l r)
  | some l, none => some l
  | none, r => r

/-- The digest of the place, with the given number of bits to go. -/
def digestFrom (m : BitVec w → Option α) : Nat → List Bool → Option α
  | 0, p => m (ofBits w p)
  | n + 1, p => join combine (digestFrom m n (p ++ [true])) (digestFrom m n (p ++ [false]))

def digest (m : BitVec w → Option α) (p : List Bool) : Option α :=
  digestFrom combine m (w - p.length) p

variable {combine} {m m' : BitVec w → Option α} {p : List Bool}

theorem digest_of_length_lt (h : p.length < w) :
    digest combine m p =
      join combine (digest combine m (p ++ [true])) (digest combine m (p ++ [false])) := by
  unfold digest
  obtain ⟨n, hn⟩ : ∃ n, w - p.length = n + 1 := ⟨w - p.length - 1, by omega⟩
  have hn' : ∀ b, w - (p ++ [b]).length = n := by
    intro b
    rw [List.length_append, List.length_singleton]
    omega
  rw [hn, hn', hn', digestFrom]

theorem digest_of_length_eq (h : p.length = w) : digest combine m p = m (ofBits w p) := by
  unfold digest
  rw [h, Nat.sub_self, digestFrom]

theorem place_induction {motive : (p : List Bool) → p.length ≤ w → Prop}
    (word : ∀ p (h : p.length = w), motive p h.le)
    (halves : ∀ p (h : p.length < w), (∀ hl, motive (p ++ [true]) hl) →
      (∀ hr, motive (p ++ [false]) hr) → motive p h.le)
    (p : List Bool) (h : p.length ≤ w) : motive p h := by
  obtain ⟨n, hn⟩ : ∃ n, p.length + n = w := ⟨w - p.length, by omega⟩
  induction n generalizing p with
  | zero => exact word p hn
  | succ n ih =>
    have hb : ∀ (b : Bool) (hle : (p ++ [b]).length ≤ w), motive (p ++ [b]) hle := fun b hle =>
      ih (p ++ [b]) hle (by simp; omega)
    exact halves p (by omega) (hb true) (hb false)

theorem digest_congr (hp : p.length ≤ w) (h : ∀ k, Below p k → m k = m' k) :
    digest combine m p = digest combine m' p := by
  induction p, hp using place_induction with
  | word p hp => rw [digest_of_length_eq hp, digest_of_length_eq hp, h _ (below_ofBits hp)]
  | halves p hp hl hr =>
    have hhalf : ∀ b k, Below (p ++ [b]) k → m k = m' k := fun b k hk =>
      h k (hk.of_extends (List.prefix_append p [b]))
    have hle : ∀ b : Bool, (p ++ [b]).length ≤ w := fun b => by simp; omega
    rw [digest_of_length_lt hp, digest_of_length_lt hp, hl (hle _) (hhalf true),
      hr (hle _) (hhalf false)]

theorem digest_eq_none_iff (hp : p.length ≤ w) :
    digest combine m p = none ↔ ∀ k, Below p k → m k = none := by
  induction p, hp using place_induction with
  | word p hp =>
    rw [digest_of_length_eq hp]
    constructor
    · intro h k hk
      rw [hk.eq_ofBits hp, h]
    · intro h
      exact h _ (below_ofBits hp)
  | halves p hp hl hr =>
    rw [digest_of_length_lt hp]
    have hjoin : ∀ x y : Option α, join combine x y = none ↔ x = none ∧ y = none := by
      intro x y
      cases x <;> cases y <;> simp [join]
    have hle : ∀ b : Bool, (p ++ [b]).length ≤ w := fun b => by simp; omega
    rw [hjoin, hl (hle _), hr (hle _)]
    constructor
    · rintro ⟨hleft, hright⟩ k hk
      cases hbit : k.getMsbD p.length with
      | true => exact hleft k ((below_concat_iff hp true).2 ⟨hk, hbit⟩)
      | false => exact hright k ((below_concat_iff hp false).2 ⟨hk, hbit⟩)
    · intro h
      exact ⟨fun k hk => h k (hk.of_extends (List.prefix_append p _)),
        fun k hk => h k (hk.of_extends (List.prefix_append p _))⟩

theorem digest_of_single (hk : Below p k)
    (hother : ∀ k', Below p k' → k' ≠ k → m k' = none) : digest combine m p = m k := by
  have hlength := hk.length_le
  induction p, hlength using place_induction with
  | word p hp => rw [digest_of_length_eq hp, ← hk.eq_ofBits hp]
  | halves p hp hl hr =>
    have hhalf : ∀ b k', Below (p ++ [b]) k' → k' ≠ k → m k' = none := fun b k' hk' =>
      hother k' (hk'.of_extends (List.prefix_append p [b]))
    have hempty : ∀ b, k.getMsbD p.length = !b → digest combine m (p ++ [b]) = none := by
      intro b hb
      rw [digest_eq_none_iff (by simp; omega)]
      intro k' hk'
      apply hhalf b k' hk'
      rintro rfl
      have hbit := ((below_concat_iff hp b).1 hk').2
      rw [hb] at hbit
      cases b <;> contradiction
    rw [digest_of_length_lt hp]
    cases hbit : k.getMsbD p.length with
    | true =>
      have hbelow := (below_concat_iff hp true).2 ⟨hk, hbit⟩
      rw [hl hbelow.length_le hbelow (hhalf true), hempty false hbit]
      cases m k <;> rfl
    | false =>
      have hbelow := (below_concat_iff hp false).2 ⟨hk, hbit⟩
      rw [hr hbelow.length_le hbelow (hhalf false), hempty true hbit]
      rfl

end Digest

end Accumulate.Library
