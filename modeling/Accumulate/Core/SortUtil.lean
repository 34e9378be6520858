import Mathlib.Algebra.Order.Group.Int
import Accumulate.Library.Search

/-!
# Sorted slices

`Search`, `BinaryInsert` and `RemoveAt` of `internal/sortutil`.  A slice is the list of its
entries and a pointer to an entry is its position.  Insertion appends an empty entry, which
may move the slice, and then shifts a part of the slice within itself; removal shifts back
and cuts the last entry off.
-/

namespace Accumulate.SortUtil

open Library

variable {α : Type}

/-- The order a number returned by a comparison function stands for. -/
def order (cmp : α → Int) (entry : α) : Ordering := compare (cmp entry) 0

def search (l : List α) (cmp : α → Int) : Nat × Bool :=
  (Library.search l (order cmp), found l (order cmp))

/-- `copy(l[i:], src)`: as many entries as there are in the source and room for in the
slice. -/
def copyTo (l : List α) (i : Nat) (src : List α) : List α :=
  l.take i ++ src.take (l.length - i) ++ l.drop (i + src.length)

/-- `BinaryInsert`: the slice, the position of the entry and whether it was added. -/
def binaryInsert (zero : α) (l : List α) (cmp : α → Int) : List α × Nat × Bool :=
  let i := (search l cmp).1
  if (search l cmp).2 then (l, i, false)
  else
    let l := l ++ [zero]
    if l.length ≤ i then (l, i, true)
    else ((copyTo l (i + 1) (l.drop i)).set i zero, i, true)

/-- `RemoveAt`: a position that is not in the slice is a panic. -/
def removeAt (l : List α) (i : Nat) : Option (List α) :=
  if i + 1 ≤ l.length then some ((copyTo l i (l.drop (i + 1))).take (l.length - 1)) else none

/-- The signs of the comparisons do not go down along the slice. -/
def Sorted (cmp : α → Int) (l : List α) : Prop := l.Pairwise fun a b => (cmp a).sign ≤ (cmp b).sign

variable {cmp : α → Int} {l : List α}

theorem order_eq_sign (cmp : α → Int) : order cmp = fun e => compare (cmp e).sign 0 := by
  funext e
  rcases lt_trichotomy (cmp e) 0 with h | h | h
  · rw [order, Int.sign_eq_neg_one_of_neg h, compare_lt_iff_lt.2 h]
    rfl
  · rw [order, h]
    rfl
  · rw [order, Int.sign_eq_one_of_pos h, compare_gt_iff_gt.2 h]
    rfl

theorem search_lt_iff (hl : Sorted cmp l) {k : Nat} {e : α} (he : l[k]? = some e) :
    k < (search l cmp).1 ↔ cmp e < 0 := by
  obtain ⟨hbefore, hfrom⟩ := search_spec hl
  unfold search
  rw [order_eq_sign]
  constructor
  · intro hk
    exact Int.sign_neg_iff.1 (hbefore k e hk he)
  · intro hneg
    by_contra hk
    exact absurd (Int.sign_nonneg_iff.1 (hfrom k e (not_lt.1 hk) he)) (not_le.2 hneg)

theorem search_snd_iff (hl : Sorted cmp l) : (search l cmp).2 = true ↔ ∃ e ∈ l, cmp e = 0 := by
  unfold search
  rw [order_eq_sign, found_iff hl]
  simp only [Int.sign_eq_zero_iff_zero]

theorem set_slot (zero x : α) {i : Nat} (hi : i ≤ l.length) :
    ((copyTo (l ++ [zero]) (i + 1) ((l ++ [zero]).drop i)).set i zero).set i x =
      l.take i ++ x :: l.drop i := by
  obtain ⟨a, b, rfl, rfl⟩ : ∃ a b, l = a ++ b ∧ i = a.length :=
    ⟨l.take i, l.drop i, by simp, by simp [hi]⟩
  have hsrc : ((a ++ b ++ [zero]).drop a.length).take
      ((a ++ b ++ [zero]).length - (a.length + 1)) = b := by
    have hlength : (a ++ b ++ [zero]).length - (a.length + 1) = b.length := by simp; omega
    rw [hlength, List.append_assoc, List.drop_left, List.take_left]
  obtain ⟨y, hy⟩ : ∃ y, (a ++ b ++ [zero]).take (a.length + 1) = a ++ [y] := by
    rw [List.append_assoc, List.take_length_add_append]
    cases b with
    | nil => exact ⟨zero, rfl⟩
    | cons e b => exact ⟨e, rfl⟩
  rw [List.set_set, copyTo, hsrc, hy, List.drop_eq_nil_of_le (by simp)]
  simp

theorem removeAt_eq (l : List α) {i : Nat} (hi : i < l.length) :
    removeAt l i = some (l.eraseIdx i) := by
  obtain ⟨a, e, b, rfl, rfl⟩ : ∃ a e b, l = a ++ e :: b ∧ i = a.length :=
    ⟨l.take i, l[i], l.drop (i + 1), by simp, by simp; omega⟩
  rw [removeAt, if_pos (Nat.succ_le_of_lt hi), copyTo,
    List.eraseIdx_append_of_length_le (Nat.le_refl _)]
  simp [List.take_append, List.take_of_length_le]

/-- The slice with an entry in its slot: it is in any order that the comparison follows. -/
theorem pairwise_stored {R : α → α → Prop} {x : α} (hl : Sorted cmp l)
    (hnew : ¬ ∃ e ∈ l, cmp e = 0) (hR : l.Pairwise R) (hlow : ∀ a ∈ l, cmp a < 0 → R a x)
    (hhigh : ∀ a ∈ l, 0 < cmp a → R x a) :
    (l.take (search l cmp).1 ++ x :: l.drop (search l cmp).1).Pairwise R := by
  have hbefore : ∀ a ∈ l.take (search l cmp).1, R a x := by
    intro a ha
    obtain ⟨k, hk, rfl⟩ := List.mem_take_iff_getElem.1 ha
    exact hlow _ (List.getElem_mem _)
      ((search_lt_iff hl (List.getElem?_eq_getElem (by omega))).1 (by omega))
  have hafter : ∀ a ∈ l.drop (search l cmp).1, R x a := by
    intro a ha
    obtain ⟨k, hk, rfl⟩ := List.mem_drop_iff_getElem.1 ha
    have hge : ¬ cmp l[(search l cmp).1 + k] < 0 :=
      mt (search_lt_iff hl (List.getElem?_eq_getElem _)).2 (by omega)
    have hne : cmp l[(search l cmp).1 + k] ≠ 0 := fun h => hnew ⟨_, List.getElem_mem _, h⟩
    exact hhigh _ (List.getElem_mem _) (lt_of_le_of_ne (not_lt.1 hge) hne.symm)
  exact pairwise_slot hR hbefore hafter

/-- In a slice that is sorted with respect to the comparison, the search finds the first
entry that is not less than the target and tells whether an entry is equal to it; insertion
finds the equal entry, or makes a slot in which an equal entry can be stored so that it is
in order; and removal takes out one entry. -/
theorem search_insert_remove (zero : α) (l : List α) (cmp : α → Int) (hl : Sorted cmp l) :
    ((search l cmp).1 ≤ l.length ∧
      (∀ k e, l[k]? = some e → (k < (search l cmp).1 ↔ cmp e < 0)) ∧
      ((search l cmp).2 = true ↔ ∃ e ∈ l, cmp e = 0)) ∧
    ((∃ e ∈ l, cmp e = 0) →
      binaryInsert zero l cmp = (l, (search l cmp).1, false) ∧
        ∃ e, l[(search l cmp).1]? = some e ∧ cmp e = 0) ∧
    ((¬ ∃ e ∈ l, cmp e = 0) → ∃ l', binaryInsert zero l cmp = (l', (search l cmp).1, true) ∧
      ∀ x, cmp x = 0 →
        l'.set (search l cmp).1 x = l.take (search l cmp).1 ++ x :: l.drop (search l cmp).1 ∧
        Sorted cmp (l'.set (search l cmp).1 x) ∧
        ∀ R : α → α → Prop, l.Pairwise R → (∀ a ∈ l, cmp a < 0 → R a x) →
          (∀ a ∈ l, 0 < cmp a → R x a) → (l'.set (search l cmp).1 x).Pairwise R) ∧
    ∀ k, k < l.length → removeAt l k = some (l.eraseIdx k) := by
  have hle : (search l cmp).1 ≤ l.length := search_le l (order cmp)
  refine ⟨⟨hle, fun k e => search_lt_iff hl, search_snd_iff hl⟩, fun hfound => ?_, fun hnew => ?_,
    fun k => removeAt_eq l⟩
  · have hsnd := (search_snd_iff hl).2 hfound
    obtain ⟨e, he, hcmp⟩ := found_get hsnd
    exact ⟨if_pos hsnd, e, he, compare_eq_iff_eq.1 hcmp⟩
  · have hsnd := mt (search_snd_iff hl).1 hnew
    refine ⟨_, by rw [binaryInsert, if_neg hsnd, if_neg (by simp; omega)], fun x hx => ?_⟩
    rw [set_slot zero x hle]
    refine ⟨rfl, pairwise_stored hl hnew hl ?_ ?_, fun R hR => pairwise_stored hl hnew hR⟩
    · intro a _ ha
      rw [Int.sign_eq_neg_one_of_neg ha, hx]
      decide
    · intro a _ ha
      rw [Int.sign_eq_one_of_pos ha, hx]
      decide

theorem search_insert_remove_three :
    Sorted (fun e : Int => e - 2) [1, 3] ∧
      ∃ l', binaryInsert 0 [1, 3] (fun e : Int => e - 2) = (l', 1, true) ∧
        l'.set 1 2 = [1, 2, 3] := by
  have hsorted : Sorted (fun e : Int => e - 2) [1, 3] := by
    rw [Sorted]
    decide
  obtain ⟨-, -, hadd, -⟩ := search_insert_remove 0 [1, 3] (fun e : Int => e - 2) hsorted
  obtain ⟨l', hinsert, hstore⟩ := hadd (by decide)
  exact ⟨hsorted, l', hinsert, (hstore 2 rfl).1⟩

end Accumulate.SortUtil
