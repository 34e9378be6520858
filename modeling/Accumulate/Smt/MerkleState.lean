import Accumulate.Library.Forest
import Mathlib.Data.List.Induction

/-!
# Merkle states

`MerkleState` of `smt/managed/merklestate.go`: the roots of the perfect subtrees
a Merkle tree under construction consists of, lowest first.  Adding a hash is
like incrementing a binary counter, with a combination of hashes for each carry.

The pending list of a state is the forest of the hashes that have been added
(`isForest_pendingOf`), from which follows what `GetIntermediate` and `GetMDRoot` return.
-/

namespace Accumulate.Smt

open Library

structure MerkleState (α : Type) where
  count : Nat
  pending : List (Option α)
  hashList : List α
deriving Repr

namespace MerkleState

variable {α : Type} (combine : α → α → α)

def empty : MerkleState α := ⟨0, [], []⟩

/-- `PadPending`: make sure that the pending list ends in a nil. -/
def padPending (pending : List (Option α)) : List (Option α) :=
  match pending.getLast? with
  | none => pending ++ [none]
  | some (some _) => pending ++ [none]
  | some none => pending

def trim (m : MerkleState α) : MerkleState α :=
  { m with pending := (m.pending.reverse.dropWhile (·.isNone)).reverse }

/-- The loop of `AddToMerkleTree`: put the hash into the first empty slot,
combining it with the full slots before it. -/
def carry : List (Option α) → α → List (Option α)
  | [], _ => []
  | none :: rest, hash => some hash :: rest
  | some v :: rest, hash => none :: carry rest (combine v hash)

def addToMerkleTree (m : MerkleState α) (hash : α) : MerkleState α :=
  { count := m.count + 1
    pending := carry combine (padPending m.pending) hash
    hashList := m.hashList ++ [hash] }

def fold (root : Option α) (v : Option α) : Option α :=
  match root, v with
  | none, v => v
  | some r, some v => some (combine v r)
  | some r, none => some r

def getMDRoot (m : MerkleState α) : Option α :=
  if m.count = 0 then none else m.pending.foldl (fold combine) none

/-- The loop of `GetIntermediate`, at index `i`. -/
def intermediate (height : Nat) : Nat → List (Option α) → α → Option (α × α)
  | _, [], _ => none
  | _, none :: _, _ => none
  | i, some v :: rest, hash =>
    if i + 1 = height then some (v, hash)
    else intermediate height (i + 1) rest (combine v hash)

/-- `GetIntermediate`: the last two hashes that are combined at the given height
when `hash` is added. -/
def getIntermediate (m : MerkleState α) (hash : α) (height : Nat) : Option (α × α) :=
  intermediate combine height 0 (padPending m.pending) hash

/-! ## The pending list -/

def addPending (pending : List (Option α)) (hash : α) : List (Option α) :=
  carry combine (padPending pending) hash

def pendingOf (l : List α) : List (Option α) := l.foldl (addPending combine) []

variable (l : List α) (m : MerkleState α)

@[simp] theorem addToMerkleTree_count (hash : α) :
    (m.addToMerkleTree combine hash).count = m.count + 1 := rfl

@[simp] theorem addToMerkleTree_pending (hash : α) :
    (m.addToMerkleTree combine hash).pending = addPending combine m.pending hash := rfl

@[simp] theorem addToMerkleTree_hashList (hash : α) :
    (m.addToMerkleTree combine hash).hashList = m.hashList ++ [hash] := rfl

theorem foldl_addToMerkleTree_pending :
    (l.foldl (addToMerkleTree combine) m).pending = l.foldl (addPending combine) m.pending := by
  induction l generalizing m with
  | nil => rfl
  | cons hash l ih => exact ih _

theorem foldl_addToMerkleTree_empty_pending :
    (l.foldl (addToMerkleTree combine) MerkleState.empty).pending = pendingOf combine l :=
  foldl_addToMerkleTree_pending combine l MerkleState.empty

theorem foldl_addToMerkleTree_count :
    (l.foldl (addToMerkleTree combine) m).count = m.count + l.length := by
  induction l generalizing m with
  | nil => rfl
  | cons hash l ih =>
    rw [List.foldl_cons, ih, addToMerkleTree_count, List.length_cons]
    omega

@[simp] theorem pendingOf_append (l' : List α) :
    pendingOf combine (l ++ l') = l'.foldl (addPending combine) (pendingOf combine l) :=
  List.foldl_append

section Forest

variable {combine} {n : Nat} {l : List α} {leaf : Nat → α}

theorem none_mem_padPending (pending : List (Option α)) : none ∈ padPending pending := by
  unfold padPending
  split
  · simp
  · simp
  · rename_i h
    exact List.mem_of_getLast? h

theorem isForest_append_none {l : List (Option α)}
    (h : IsForest combine leaf n l) : IsForest combine leaf n (l ++ [none]) := by
  induction l generalizing leaf n with
  | nil =>
    have hn : n = 0 := h
    subst hn
    exact ⟨rfl, rfl⟩
  | cons v rest ih => exact ⟨h.1, ih h.2⟩

theorem isForest_padPending {l : List (Option α)}
    (h : IsForest combine leaf n l) : IsForest combine leaf n (padPending l) := by
  unfold padPending
  split
  · exact isForest_append_none h
  · exact isForest_append_none h
  · exact h

theorem isForest_carry {l : List (Option α)} (h : IsForest combine leaf n l) (hroom : none ∈ l) :
    IsForest combine leaf (n + 1) (carry combine l (leaf n)) := by
  induction l generalizing leaf n with
  | nil => cases hroom
  | cons v rest ih =>
    obtain ⟨hv, hrest⟩ := h
    by_cases hodd : n % 2 = 1
    · rw [if_pos hodd] at hv
      subst hv
      have hroom' : none ∈ rest := by simpa using hroom
      have hnext := ih hrest hroom'
      rw [← combine_eq_pairs combine leaf hodd] at hnext
      have heven : (n + 1) % 2 ≠ 1 := by omega
      have hhalf : (n + 1) / 2 = n / 2 + 1 := by omega
      refine ⟨(if_neg heven).symm, ?_⟩
      rw [hhalf]
      exact hnext
    · rw [if_neg hodd] at hv
      subst hv
      have hodd' : (n + 1) % 2 = 1 := by omega
      have hhalf : (n + 1) / 2 = n / 2 := by omega
      refine ⟨?_, ?_⟩
      · rw [if_pos hodd', Nat.add_sub_cancel]
      · rw [hhalf]
        exact hrest

theorem isForest_addPending {l : List (Option α)} (h : IsForest combine leaf n l) :
    IsForest combine leaf (n + 1) (addPending combine l (leaf n)) :=
  isForest_carry (isForest_padPending h) (none_mem_padPending l)

theorem isForest_pendingOf (hleaf : ∀ i v, l[i]? = some v → leaf i = v) :
    IsForest combine leaf l.length (pendingOf combine l) := by
  induction l using List.reverseRecOn with
  | nil => rfl
  | append_singleton l hash ih =>
    have hinit : ∀ i v, l[i]? = some v → leaf i = v := by
      intro i v hv
      refine hleaf i v ?_
      rw [List.getElem?_append_left (List.getElem?_eq_some_iff.1 hv).1]
      exact hv
    have hlast : leaf l.length = hash := hleaf _ _ (by simp)
    rw [pendingOf_append, List.length_append, ← hlast]
    exact isForest_addPending (ih hinit)

/-- The loop of `GetIntermediate`: the two hashes exist if all digits up to the height are
set, and are then the last two roots below it. -/
theorem intermediate_eq {leaf : Nat → α} {n i k : Nat} {l : List (Option α)}
    (h : IsForest combine leaf n l) :
    intermediate combine (i + k + 1) i l (leaf n) =
      if (n + 1) % 2 ^ (k + 1) = 0 then
        some (node combine leaf k (n / 2 ^ k - 1), node combine leaf k (n / 2 ^ k))
      else none := by
  induction l generalizing leaf n i k with
  | nil =>
    have hn : n = 0 := h
    have hpow : 1 < 2 ^ (k + 1) := Nat.one_lt_two_pow (by omega)
    rw [if_neg]
    · rfl
    · rw [hn, Nat.mod_eq_of_lt hpow]
      omega
  | cons v rest ih =>
    obtain ⟨hv, hrest⟩ := h
    have hdvd : 2 ^ (k + 1) = 2 * 2 ^ k := by rw [Nat.pow_succ, Nat.mul_comm]
    by_cases hodd : n % 2 = 1
    · rw [if_pos hodd] at hv
      subst hv
      cases k with
      | zero =>
        have heven : (n + 1) % 2 = 0 := by omega
        simp [intermediate, heven]
      | succ k =>
        have hne : ¬ i + 1 = i + (k + 1) + 1 := by omega
        rw [intermediate, if_neg hne, combine_eq_pairs combine leaf hodd,
          show i + (k + 1) + 1 = i + 1 + k + 1 by omega, ih hrest, node_pairs, node_pairs]
        have hdiv : n / 2 / 2 ^ k = n / 2 ^ (k + 1) := by
          rw [Nat.div_div_eq_div_mul, Nat.pow_succ, Nat.mul_comm]
        have hmod : (n + 1) % (2 * 2 ^ (k + 1)) = 2 * ((n / 2 + 1) % 2 ^ (k + 1)) := by
          rw [← Nat.mul_mod_mul_left]
          congr 1
          omega
        rw [hdiv, hdvd]
        by_cases hz : (n / 2 + 1) % 2 ^ (k + 1) = 0
        · rw [if_pos hz, if_pos (by omega)]
        · rw [if_neg hz, if_neg (by omega)]
    · rw [if_neg hodd] at hv
      subst hv
      have hne : (n + 1) % 2 ^ (k + 1) ≠ 0 := by
        intro hz
        have htwo : 2 ∣ n + 1 := Nat.dvd_trans ⟨_, hdvd⟩ (Nat.dvd_of_mod_eq_zero hz)
        omega
      rw [if_neg hne]
      rfl

theorem getIntermediate_eq {k : Nat} {m : MerkleState α} (h : IsForest combine leaf n m.pending) :
    m.getIntermediate combine (leaf n) (k + 1) =
      if (n + 1) % 2 ^ (k + 1) = 0 then
        some (node combine leaf k (n / 2 ^ k - 1), node combine leaf k (n / 2 ^ k))
      else none := by
  have hi := @intermediate_eq α combine leaf n 0 k _ (isForest_padPending h)
  rw [Nat.zero_add] at hi
  exact hi

/-! ## The Merkle root -/

/-- The loop of `GetMDRoot` over a forest: the last slot holds the largest tree, and the slots
before it are the forest of the leaves that follow that tree. -/
theorem foldl_fold_eq_dagRoot {pending : List (Option α)}
    (hleaf : ∀ i v, l[i]? = some v → leaf i = v) (h : IsForest combine leaf l.length pending) :
    pending.foldl (fold combine) none = dagRoot combine l := by
  induction pending using List.reverseRecOn generalizing leaf l with
  | nil =>
    have hl : l = [] := List.length_eq_zero_iff.1 h
    rw [hl, dagRoot_nil]
    rfl
  | append_singleton pending v ih =>
    have hv := h.slot (h := pending.length) (v := v) (by simp)
    have hinit := h.init
    have hlen := h.lt_two_pow
    rw [List.length_append, List.length_singleton] at hlen
    rw [List.foldl_append]
    by_cases hsmall : l.length < 2 ^ pending.length
    · -- the last slot is empty
      rw [Nat.div_eq_of_lt hsmall] at hv hinit
      rw [Nat.mod_eq_of_lt hsmall] at hinit
      have hsame := ih hleaf (hinit.congr fun i _ => by rw [Nat.zero_mul, Nat.add_zero])
      rw [hv, ← hsame]
      cases pending.foldl (fold combine) none <;> rfl
    · have hone : l.length / 2 ^ pending.length = 1 :=
        Nat.div_eq_of_lt_le (by omega) (by omega)
      have hmod : l.length % 2 ^ pending.length = l.length - 2 ^ pending.length := by
        have hsplit := Nat.mod_add_div l.length (2 ^ pending.length)
        rw [hone] at hsplit
        omega
      have hdrop : ∀ i w, (l.drop (2 ^ pending.length))[i]? = some w →
          leaf (i + 2 ^ pending.length) = w := by
        intro i w hw
        rw [List.getElem?_drop, Nat.add_comm] at hw
        exact hleaf _ _ hw
      rw [hone, hmod, Nat.one_mul, ← List.length_drop] at hinit
      have hrest := ih hdrop hinit
      rw [hone] at hv
      rw [dagRoot_eq hleaf (by omega) hlen, hv, hrest]
      cases dagRoot combine (l.drop (2 ^ pending.length)) <;> rfl

/-- The block of elements that the binary digit `i` of their number stands for: the blocks of
the higher digits come before it. -/
def block (l : List α) (i : Nat) : List α :=
  (l.drop (l.length / 2 ^ (i + 1) * 2 ^ (i + 1))).take (2 ^ i)

theorem perfectRoot_block {i : Nat}
    (hleaf : ∀ i v, l[i]? = some v → leaf i = v) (hdigit : l.length / 2 ^ i % 2 = 1) :
    perfectRoot combine i (block l i) = some (node combine leaf i (l.length / 2 ^ i - 1)) := by
  have hhalf : l.length / 2 ^ (i + 1) = l.length / 2 ^ i / 2 := by
    rw [Nat.div_div_eq_div_mul, Nat.pow_succ]
  have hindex : l.length / 2 ^ (i + 1) * 2 ^ (i + 1) = (l.length / 2 ^ i - 1) * 2 ^ i := by
    have heven : 2 * (l.length / 2 ^ i / 2) = l.length / 2 ^ i - 1 := by omega
    rw [hhalf, Nat.pow_succ, Nat.mul_comm (2 ^ i) 2, ← Nat.mul_assoc,
      Nat.mul_comm (l.length / 2 ^ i / 2) 2, heven]
  have hfits : (l.length / 2 ^ i - 1 + 1) * 2 ^ i ≤ l.length := by
    have hpos : l.length / 2 ^ i ≠ 0 := by
      intro h
      rw [h] at hdigit
      exact absurd hdigit (by decide)
    rw [Nat.sub_add_cancel (Nat.pos_of_ne_zero hpos)]
    exact Nat.div_mul_le_self _ _
  rw [block, hindex]
  exact perfectRoot_eq_node hleaf hfits

/-- The state after some hashes have been added to an empty one, in order. -/
def addAll (combine : α → α → α) (l : List α) : MerkleState α :=
  l.foldl (addToMerkleTree combine) MerkleState.empty

/-- Adding hashes one by one counts them in binary: a slot is filled exactly if its digit of
the count is set, then with the Merkle root of its block of hashes, and `GetMDRoot` is the
root of the list of all hashes. -/
theorem foldl_addToMerkleTree_roots (combine : α → α → α) (l : List α) :
    (addAll combine l).count = l.length ∧
      (∀ i, (∃ v, (addAll combine l).pending[i]? = some (some v)) ↔
        (addAll combine l).count.testBit i = true) ∧
      (∀ i v, (addAll combine l).pending[i]? = some (some v) →
        perfectRoot combine i (block l i) = some v) ∧
      (addAll combine l).getMDRoot combine = dagRoot combine l := by
  have hcount : (addAll combine l).count = l.length := by
    show (l.foldl (addToMerkleTree combine) MerkleState.empty).count = l.length
    rw [foldl_addToMerkleTree_count]
    exact Nat.zero_add _
  have hpending : (addAll combine l).pending = pendingOf combine l :=
    foldl_addToMerkleTree_empty_pending combine l
  rw [getMDRoot, hcount, hpending]
  by_cases hl : l = []
  · subst hl
    simp [pendingOf]
  obtain ⟨leaf, hleaf⟩ := exists_leaf hl
  have hforest : IsForest combine leaf l.length (pendingOf combine l) := isForest_pendingOf hleaf
  have hne : l.length ≠ 0 := fun h => hl (List.length_eq_zero_iff.1 h)
  -- a filled slot has its digit set, and holds the node of that digit
  have hfilled : ∀ i v, (pendingOf combine l)[i]? = some (some v) →
      l.length / 2 ^ i % 2 = 1 ∧ v = node combine leaf i (l.length / 2 ^ i - 1) := by
    intro i v hv
    have hslot := hforest.slot hv
    split at hslot
    · exact ⟨‹_›, Option.some.inj hslot⟩
    · cases hslot
  refine ⟨rfl, ?_, ?_, ?_⟩
  · intro i
    rw [Nat.testBit_eq_decide_div_mod_eq, decide_eq_true_eq]
    constructor
    · rintro ⟨v, hv⟩
      exact (hfilled i v hv).1
    · intro hdigit
      exact ⟨_, hforest.getElem?_of_digit hdigit⟩
  · intro i v hv
    obtain ⟨hdigit, rfl⟩ := hfilled i v hv
    exact perfectRoot_block hleaf hdigit
  · rw [if_neg hne]
    exact foldl_fold_eq_dagRoot hleaf hforest

end Forest

end MerkleState

end Accumulate.Smt
