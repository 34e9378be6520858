import Mathlib.Algebra.Group.Nat.Defs
import Mathlib.Data.List.Basic
import Mathlib.Data.Nat.Log

/-!
# Forests of perfect trees

A sequence of leaves that grows at its end is kept as a forest of perfect binary trees, one
for each digit of the number of leaves in binary.  `node` is the root of a perfect tree,
`pairs` the sequence of the roots of height one, and `IsForest` says that a list of optional
roots, lowest first, is the forest of the first `n` leaves.

`IsForest` descends to the next height with the sequence of pairs, so that a procedure that
walks along the list is followed by an induction on the list; `IsForest.slot` gives the
root at a height in closed form.

`perfectRoot` and `dagRoot` say the same of a list of leaves, without the forest: the root of
a list is that of its largest perfect tree combined with the root of what follows it.
-/

namespace Accumulate.Library

variable {α : Type} (combine : α → α → α)

/-- The sequence of leaves combined two by two. -/
def pairs (leaf : Nat → α) (i : Nat) : α := combine (leaf (2 * i)) (leaf (2 * i + 1))

theorem combine_eq_pairs (leaf : Nat → α) {n : Nat} (hodd : n % 2 = 1) :
    combine (leaf (n - 1)) (leaf n) = pairs combine leaf (n / 2) := by
  have hleft : 2 * (n / 2) = n - 1 := by omega
  have hright : n - 1 + 1 = n := by omega
  rw [pairs, hleft, hright]

/-- The root of the perfect tree of height `h` with index `i` among those of its height. -/
def node (leaf : Nat → α) : Nat → Nat → α
  | 0, i => leaf i
  | h + 1, i => combine (node leaf h (2 * i)) (node leaf h (2 * i + 1))

@[simp] theorem node_zero (leaf : Nat → α) (i : Nat) : node combine leaf 0 i = leaf i := rfl

theorem node_succ (leaf : Nat → α) (h i : Nat) :
    node combine leaf (h + 1) i =
      combine (node combine leaf h (2 * i)) (node combine leaf h (2 * i + 1)) := rfl

theorem node_pairs (leaf : Nat → α) (h i : Nat) :
    node combine (pairs combine leaf) h i = node combine leaf (h + 1) i := by
  induction h generalizing i with
  | zero => rfl
  | succ h ih =>
    rw [node_succ, ih, ih]
    rfl

/-- The list consists of the roots of the forest of the first `n` leaves, lowest first. -/
def IsForest : (Nat → α) → Nat → List (Option α) → Prop
  | _, n, [] => n = 0
  | leaf, n, v :: rest =>
    v = (if n % 2 = 1 then some (leaf (n - 1)) else none) ∧
      IsForest (pairs combine leaf) (n / 2) rest

namespace IsForest

variable {combine}

variable {leaf : Nat → α} {n : Nat} {l : List (Option α)} {h : Nat} {v : Option α}

theorem congr {leaf' : Nat → α} (h : IsForest combine leaf n l) (heq : ∀ i < n, leaf i = leaf' i) :
    IsForest combine leaf' n l := by
  induction l generalizing leaf leaf' n with
  | nil => exact h
  | cons v rest ih =>
    obtain ⟨hv, hrest⟩ := h
    refine ⟨?_, ih hrest fun i hi => ?_⟩
    · rw [hv]
      split
      · rw [heq (n - 1) (by omega)]
      · rfl
    · have hleft : leaf (2 * i) = leaf' (2 * i) := heq _ (by omega)
      have hright : leaf (2 * i + 1) = leaf' (2 * i + 1) := heq _ (by omega)
      simp only [pairs, hleft, hright]

/-- The root at height `h`: there is one if the digit of the number of leaves is set. -/
theorem slot (hl : IsForest combine leaf n l) (hv : l[h]? = some v) :
    v = if n / 2 ^ h % 2 = 1 then some (node combine leaf h (n / 2 ^ h - 1)) else none := by
  induction l generalizing leaf n h with
  | nil => cases hv
  | cons w rest ih =>
    obtain ⟨hw, hrest⟩ := hl
    cases h with
    | zero =>
      obtain rfl : w = v := Option.some.inj hv
      simpa using hw
    | succ h =>
      have hnext := ih hrest hv
      have hdiv : n / 2 / 2 ^ h = n / 2 ^ (h + 1) := by
        rw [Nat.div_div_eq_div_mul, Nat.pow_succ, Nat.mul_comm]
      rw [hdiv, node_pairs] at hnext
      exact hnext

theorem lt_two_pow (hl : IsForest combine leaf n l) : n < 2 ^ l.length := by
  induction l generalizing leaf n with
  | nil =>
    have hn : n = 0 := hl
    simp [hn]
  | cons w rest ih =>
    have hrest := ih hl.2
    rw [List.length_cons]
    omega

theorem getElem?_of_digit (hl : IsForest combine leaf n l) (hdigit : n / 2 ^ h % 2 = 1) :
    l[h]? = some (some (node combine leaf h (n / 2 ^ h - 1))) := by
  have hlen : h < l.length := by
    by_contra hge
    have hpow : 2 ^ l.length ≤ 2 ^ h := Nat.pow_le_pow_right (by omega) (by omega)
    have hsmall : n / 2 ^ h = 0 := Nat.div_eq_of_lt (Nat.lt_of_lt_of_le hl.lt_two_pow hpow)
    omega
  have hget : l[h]? = some l[h] := List.getElem?_eq_getElem hlen
  rw [hget, hl.slot hget, if_pos hdigit]

/-- Without its last slot the list is the forest of the leaves that follow the trees of that
height. -/
theorem init (hl : IsForest combine leaf n (l ++ [v])) :
    IsForest combine (fun i => leaf (i + n / 2 ^ l.length * 2 ^ l.length)) (n % 2 ^ l.length)
      l := by
  induction l generalizing leaf n with
  | nil => exact Nat.mod_one n
  | cons w rest ih =>
    obtain ⟨hw, hrest⟩ := hl
    have hpow : 2 ^ (rest.length + 1) = 2 * 2 ^ rest.length := by
      rw [Nat.pow_succ, Nat.mul_comm]
    have hdiv : n / 2 / 2 ^ rest.length = n / (2 * 2 ^ rest.length) :=
      Nat.div_div_eq_div_mul _ _ _
    have hsplit := Nat.mod_add_div n (2 * 2 ^ rest.length)
    have hparity : n % (2 * 2 ^ rest.length) % 2 = n % 2 :=
      Nat.mod_mod_of_dvd n (Nat.dvd_mul_right _ _)
    have hcomm : n / (2 * 2 ^ rest.length) * (2 * 2 ^ rest.length) =
        2 * 2 ^ rest.length * (n / (2 * 2 ^ rest.length)) := Nat.mul_comm _ _
    rw [List.length_cons, hpow]
    constructor
    · rw [hw, hparity]
      by_cases hodd : n % 2 = 1
      · have hindex : n % (2 * 2 ^ rest.length) - 1 +
            n / (2 * 2 ^ rest.length) * (2 * 2 ^ rest.length) = n - 1 := by omega
        dsimp only
        rw [hindex]
      · rw [if_neg hodd, if_neg hodd]
    · have hcount : n % (2 * 2 ^ rest.length) / 2 = n / 2 % 2 ^ rest.length :=
        Nat.mod_mul_right_div_self n 2 (2 ^ rest.length)
      rw [hcount]
      refine (ih hrest).congr fun i _ => ?_
      have hshift : 2 * (n / 2 / 2 ^ rest.length * 2 ^ rest.length) =
          n / (2 * 2 ^ rest.length) * (2 * 2 ^ rest.length) := by
        rw [hdiv, Nat.mul_left_comm]
      simp only [pairs, Nat.mul_add, hshift, Nat.add_right_comm _ _ 1]

end IsForest

/-! ## Roots of lists -/

theorem exists_leaf {l : List α} (hne : l ≠ []) :
    ∃ leaf : Nat → α, ∀ i v, l[i]? = some v → leaf i = v := by
  refine ⟨fun i => l.getD i (l.head hne), fun i v hv => ?_⟩
  show l.getD i (l.head hne) = v
  rw [List.getD_eq_getElem?_getD, hv]
  rfl

/-- The root of the perfect tree of height `h` over a list of `2 ^ h` leaves. -/
def perfectRoot : Nat → List α → Option α
  | 0, [v] => some v
  | 0, _ => none
  | h + 1, l =>
    match perfectRoot h (l.take (2 ^ h)), perfectRoot h (l.drop (2 ^ h)) with
    | some left, some right => some (combine left right)
    | _, _ => none

/-- The root of a list of leaves: its largest perfect tree from the left, combined with the
root of the leaves that are left. -/
def dagRoot (l : List α) : Option α :=
  if l = [] then none
  else
    let h := Nat.log 2 l.length
    match perfectRoot combine h (l.take (2 ^ h)), dagRoot (l.drop (2 ^ h)) with
    | some left, some right => some (combine left right)
    | left, none => left
    | none, _ => none
termination_by l.length
decreasing_by
  have hpow : 0 < 2 ^ Nat.log 2 l.length := Nat.two_pow_pos _
  have hlen : l.length ≠ 0 := by simpa using ‹¬ l = []›
  rw [List.length_drop]
  omega

section

variable {combine}

theorem perfectRoot_eq_node {leaf : Nat → α} {l : List α}
    (hleaf : ∀ i v, l[i]? = some v → leaf i = v) {h i : Nat} (hlen : (i + 1) * 2 ^ h ≤ l.length) :
    perfectRoot combine h ((l.drop (i * 2 ^ h)).take (2 ^ h)) = some (node combine leaf h i) := by
  induction h generalizing i with
  | zero =>
    rw [Nat.pow_zero, Nat.mul_one] at hlen
    have hget : l[i]? = some l[i] := List.getElem?_eq_getElem hlen
    rw [Nat.pow_zero, Nat.mul_one, List.take_one, List.head?_drop, hget, node_zero,
      hleaf i _ hget]
    rfl
  | succ h ih =>
    have hpos : 0 < 2 ^ h := Nat.two_pow_pos h
    have hpow : 2 ^ (h + 1) = 2 ^ h + 2 ^ h := by rw [Nat.pow_succ, Nat.mul_two]
    have hleft : i * 2 ^ (h + 1) = 2 * i * 2 ^ h := by
      rw [Nat.pow_succ, Nat.mul_comm (2 ^ h) 2, ← Nat.mul_assoc, Nat.mul_comm i 2]
    have hright : i * 2 ^ (h + 1) + 2 ^ h = (2 * i + 1) * 2 ^ h := by
      rw [hleft, Nat.add_mul, Nat.one_mul]
    have hend : (2 * i + 1) * 2 ^ h + 2 ^ h ≤ l.length := by
      rw [Nat.add_mul] at hlen
      omega
    have hmin : min (2 ^ h) (2 ^ (h + 1)) = 2 ^ h := by omega
    have hfirst := @ih (2 * i) (by rw [Nat.add_mul]; omega)
    have hsecond := @ih (2 * i + 1) (by rw [Nat.add_mul _ 1, Nat.one_mul]; exact hend)
    rw [perfectRoot, List.take_take, hmin, List.drop_take, List.drop_drop,
      hright, hleft, hpow, Nat.add_sub_cancel, hfirst, hsecond]
    rfl

@[simp] theorem dagRoot_nil : dagRoot combine [] = none := by
  rw [dagRoot, if_pos rfl]

/-- The root of a list whose largest perfect tree has height `h`. -/
theorem dagRoot_eq {leaf : Nat → α} {l : List α} (hleaf : ∀ i v, l[i]? = some v → leaf i = v)
    {h : Nat} (hle : 2 ^ h ≤ l.length) (hlt : l.length < 2 ^ (h + 1)) :
    dagRoot combine l = some (match dagRoot combine (l.drop (2 ^ h)) with
      | some right => combine (node combine leaf h 0) right
      | none => node combine leaf h 0) := by
  have hne : l ≠ [] := by
    rintro rfl
    exact absurd hle (by rw [List.length_nil]; omega)
  have hlog : Nat.log 2 l.length = h :=
    (Nat.log_eq_iff (.inr ⟨by omega, by omega⟩)).2 ⟨hle, hlt⟩
  have hroot := @perfectRoot_eq_node α combine leaf l hleaf h 0 (by omega)
  rw [Nat.zero_mul, List.drop_zero] at hroot
  rw [dagRoot, if_neg hne, hlog]
  dsimp only
  rw [hroot]
  cases dagRoot combine (l.drop (2 ^ h)) <;> rfl

theorem dagRoot_eq_none {l : List α} (h : dagRoot combine l = none) : l = [] := by
  by_contra hne
  obtain ⟨leaf, hleaf⟩ := exists_leaf hne
  have hsome := @dagRoot_eq α combine leaf l hleaf (Nat.log 2 l.length)
    (Nat.pow_log_le_self 2 (by simpa using hne)) (Nat.lt_pow_succ_log_self (by omega) _)
  rw [h] at hsome
  cases hsome

end

/-! ## The hashes of a tree -/

/-- A hash is the root of a tree over a list of leaves, in which these pairs are combined. -/
inductive MadeOf : List α → List (α × α) → α → Prop where
  | leaf (a : α) : MadeOf [a] [] a
  | node {l l' : List α} {P Q : List (α × α)} {a b : α} (ha : MadeOf l P a) (hb : MadeOf l' Q b) :
    MadeOf (l ++ l') ((a, b) :: (P ++ Q)) (combine a b)

/-- A hash is a leaf or a combination of one of the pairs. -/
def Occurs (l : List α) (P : List (α × α)) (a : α) : Prop :=
  a ∈ l ∨ ∃ p ∈ P, combine p.1 p.2 = a

/-- A pair is combined to a leaf, or to the same hash as another pair. -/
def Clashes (l : List α) (P : List (α × α)) (p : α × α) : Prop :=
  combine p.1 p.2 ∈ l ∨ ∃ q ∈ P, q ≠ p ∧ combine q.1 q.2 = combine p.1 p.2

variable {combine} {l l' : List α} {P Q : List (α × α)} {a b x : α}

theorem Occurs.mono (h : Occurs combine l P a) (hl : l ⊆ l') (hP : P ⊆ Q) :
    Occurs combine l' Q a :=
  h.imp (@hl a) fun ⟨p, hp, ha⟩ => ⟨p, hP hp, ha⟩

theorem MadeOf.occurs (h : MadeOf combine l P a) : Occurs combine l P a := by
  cases h with
  | leaf => exact .inl (List.mem_singleton_self a)
  | node => exact .inr ⟨_, List.mem_cons_self, rfl⟩

theorem MadeOf.parts (h : MadeOf combine l P x) :
    ∀ p ∈ P, Occurs combine l P p.1 ∧ Occurs combine l P p.2 := by
  induction h with
  | leaf => exact nofun
  | @node l l' P Q a b ha hb iha ihb =>
    have hP : P ⊆ (a, b) :: (P ++ Q) := fun p hp => by simp [hp]
    have hQ : Q ⊆ (a, b) :: (P ++ Q) := fun p hp => by simp [hp]
    have hl : l ⊆ l ++ l' := List.subset_append_left l l'
    have hl' : l' ⊆ l ++ l' := List.subset_append_right l l'
    intro p hp
    rcases List.mem_cons.1 hp with rfl | hp
    · exact ⟨ha.occurs.mono hl hP, hb.occurs.mono hl' hQ⟩
    rcases List.mem_append.1 hp with hp | hp
    · exact (iha p hp).imp (·.mono hl hP) (·.mono hl hP)
    · exact (ihb p hp).imp (·.mono hl' hQ) (·.mono hl' hQ)

/-- If the combination of two hashes occurs in a tree, so do the two hashes, unless the pair
clashes with what is in the tree. -/
theorem MadeOf.occurs_of_combine (h : MadeOf combine l P x)
    (hab : Occurs combine l P (combine a b)) :
    Clashes combine l P (a, b) ∨ Occurs combine l P a ∧ Occurs combine l P b := by
  rcases hab with hleaf | ⟨p, hp, heq⟩
  · exact .inl (.inl hleaf)
  · by_cases hpair : p = (a, b)
    · rw [hpair] at hp
      exact .inr (h.parts _ hp)
    · exact .inl (.inr ⟨p, hp, hpair, heq⟩)

theorem madeOf_perfectRoot {h : Nat} (hroot : perfectRoot combine h l = some a) :
    ∃ P, MadeOf combine l P a := by
  fun_induction perfectRoot combine h l generalizing a with
  | case1 v =>
    cases hroot
    exact ⟨[], .leaf v⟩
  | case3 l h left right hright hleft ihl ihr =>
    cases hroot
    obtain ⟨P, hP⟩ := ihl hleft
    obtain ⟨Q, hQ⟩ := ihr hright
    have hnode := hP.node hQ
    rw [List.take_append_drop] at hnode
    exact ⟨_, hnode⟩
  | _ => cases hroot

theorem madeOf_dagRoot (hroot : dagRoot combine l = some a) : ∃ P, MadeOf combine l P a := by
  fun_induction dagRoot combine l generalizing a with
  | case2 l hne h left right hright hleft =>
    rename_i ih
    cases hroot
    obtain ⟨P, hP⟩ := madeOf_perfectRoot hleft
    obtain ⟨Q, hQ⟩ := ih hright
    have hnode := hP.node hQ
    rw [List.take_append_drop] at hnode
    exact ⟨_, hnode⟩
  | case3 l hne h hnone =>
    -- nothing is left, so the perfect tree is the whole
    have hdrop := dagRoot_eq_none hnone
    have htake := List.take_append_drop (2 ^ h) l
    rw [hdrop, List.append_nil] at htake
    rw [htake] at hroot
    exact madeOf_perfectRoot hroot
  | _ => cases hroot

end Accumulate.Library
