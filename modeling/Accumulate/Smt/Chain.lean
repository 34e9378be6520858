import Accumulate.Smt.MerkleState
import Accumulate.Smt.Receipt

/-!
# Chains

The chain manager of `smt/managed/merklemanager.go` and the chain operations of
`internal/database/chain.go`.  A chain keeps its head state, its elements, the
first index of each element, and the Merkle state at every mark point; any other
state is rebuilt from the mark point before it.
-/

namespace Accumulate.Smt

open MerkleState

/-- `managed.Chain`: the stored records of a chain. -/
structure Chain (α : Type) where
  markPower : Nat
  head : MerkleState α
  elements : List α
  elementIndex : α → Option Nat
  states : Nat → Option (MerkleState α)

namespace Chain

variable {α : Type} (combine : α → α → α)

def new (markPower : Nat) : Chain α :=
  { markPower := markPower, head := MerkleState.empty, elements := []
    elementIndex := fun _ => none, states := fun _ => none }

def markFreq (c : Chain α) : Nat := 2 ^ c.markPower

def append (c : Chain α) (hash : α) : Chain α :=
  let elements := c.elements ++ [hash]
  if (c.head.count + 1) % c.markFreq = 0 then
    -- the end of a mark set: keep the state
    let head := c.head.addToMerkleTree combine hash
    { c with
      elements := elements
      head := head
      states := fun i => if i = head.count - 1 then some head else c.states i }
  else if (c.head.count + 1) % c.markFreq = 1 then
    -- the first element of a mark set: start a new hash list
    { c with
      elements := elements
      head := { c.head with hashList := [] }.addToMerkleTree combine hash }
  else
    { c with elements := elements, head := c.head.addToMerkleTree combine hash }

/-- `AddHash`: add a hash, unless it has to be unique and is not. -/
def addHash [DecidableEq α] (c : Chain α) (hash : α) (unique : Bool) : Chain α :=
  match c.elementIndex hash with
  | some _ => if unique then c else c.append combine hash
  | none =>
    { c.append combine hash with
      elementIndex := fun h => if h = hash then some c.head.count else c.elementIndex h }

def addHashes [DecidableEq α] (c : Chain α) (calls : List (α × Bool)) : Chain α :=
  calls.foldl (fun c call => c.addHash combine call.1 call.2) c

def height (c : Chain α) : Nat := c.head.count

def anchor (c : Chain α) : Option α := c.head.getMDRoot combine

def heightOf (c : Chain α) (hash : α) : Option Nat := c.elementIndex hash

/-- `GetState`: the state stored for an element.  The empty chain answers with a
fresh state to which, when there is no such element, a nil hash has been added (it
is in the hash list of that state too, which holds hashes only here). -/
def getState (c : Chain α) (element : Int) : Option (MerkleState α) :=
  if c.head.count = 0 then some ⟨1, [none], []⟩
  else if element < 0 then none
  else c.states element.toNat

/-- The loop of `GetAnyState` over the hash list of the next mark point. -/
def replay (element : Int) : List α → MerkleState α → MerkleState α
  | [], s => s
  | v :: rest, s =>
    if element + 1 = s.count then s else replay element rest (s.addToMerkleTree combine v)

/-- The last part of `GetAnyState`, with the states at the mark points around the element. -/
def replayFrom (c : Chain α) (element : Int) :
    (previous next : Option (MerkleState α)) → Option (MerkleState α)
  | some previous, some next =>
    let s := replay combine element next.hashList { previous with hashList := [] }
    some (if s.count % c.markFreq = 0 then { s with hashList := [] } else s)
  | _, _ => none

/-- `GetAnyState`: the state after the given element, stored or not. -/
def getAnyState (c : Chain α) (element : Int) : Option (MerkleState α) :=
  if element = -1 then some MerkleState.empty
  else
    match c.getState element with
    | some s => some s
    | none =>
      if element ≥ c.head.count then none
      else
        let mark := element / c.markFreq * c.markFreq
        let previous := if mark - 1 < 0 then some MerkleState.empty else c.getState (mark - 1)
        let next :=
          if mark - 1 + c.markFreq ≥ c.head.count then some c.head
          else c.getState (mark - 1 + c.markFreq)
        c.replayFrom combine element previous next

/-- `GetIntermediate` of the chain manager. -/
def getIntermediate (c : Chain α) (element height : Nat) : Option (α × α) :=
  match c.elements[element]?, c.getAnyState combine (element - 1 : Int) with
  | some hash, some s => s.getIntermediate combine hash height
  | _, _ => none

/-- The progress of the first loop of `BuildReceiptWith`. -/
structure ReceiptLoop (α : Type) where
  idx : Nat
  height : Nat
  stay : Bool
  entries : List (ReceiptEntry α)

/-- The first loop of `BuildReceiptWith`: collect the hashes up to the highest
subtree between the start and the end.  Each round moves to a later element or to
a greater height; `none` means that the fuel ran out. -/
def climb (getIntermediate : Nat → Nat → Option (α × α)) (endIndex : Nat) :
    Nat → ReceiptLoop α → Option (ReceiptLoop α)
  | 0, _ => none
  | fuel + 1, s =>
    if s.idx ≤ endIndex then
      if s.idx % 2 = 0 then
        climb getIntermediate endIndex fuel { s with idx := s.idx + 1, stay := false }
      else
        match getIntermediate s.idx s.height with
        | none =>
          climb getIntermediate endIndex fuel
            { s with idx := s.idx + 2 ^ (s.height - 1), stay := false }
        | some (lHash, rHash) =>
          let entry := if s.stay then ⟨false, lHash⟩ else ⟨true, rHash⟩
          climb getIntermediate endIndex fuel
            { s with stay := true, height := s.height + 1, entries := s.entries ++ [entry] }
    else some s

/-- The progress of the second loop of `BuildReceiptWith`. -/
structure AnchorLoop (α : Type) where
  intermediateHash : Option α
  stay : Bool
  entries : List (ReceiptEntry α)

def anchorStep (height i : Nat) (v : Option α) (s : AnchorLoop α) : AnchorLoop α :=
  match v, s.intermediateHash with
  | none, _ => s
  | some v, none =>
    { s with intermediateHash := some v, stay := s.stay || (height - 1 = i) }
  | some v, some lastIH =>
    let s := { s with intermediateHash := some (combine v lastIH) }
    if i < height - 1 then s
    else if s.stay then
      if i ≥ height then { s with entries := s.entries ++ [⟨false, v⟩] } else s
    else { s with entries := s.entries ++ [⟨true, lastIH⟩], stay := true }

/-- The second loop of `BuildReceiptWith`, from slot `i` on. -/
def anchorLoop (height : Nat) : Nat → List (Option α) → AnchorLoop α → AnchorLoop α
  | _, [], s => s
  | i, v :: rest, s => anchorLoop height (i + 1) rest (anchorStep combine height i v s)

def buildReceipt (c : Chain α) (startHash endHash : α) (start stop : Nat) : Option (Receipt α) :=
  match climb (c.getIntermediate combine) stop (2 * stop + 4) ⟨start, 1, true, []⟩,
      c.getAnyState combine stop with
  | some s, some state =>
    let a := anchorLoop combine s.height 0 state.trim.pending ⟨none, false, s.entries⟩
    match a.intermediateHash with
    | some anchor => some ⟨startHash, start, endHash, stop, anchor, a.entries⟩
    | none => none
  | _, _ => none

def receipt (c : Chain α) (start stop : Nat) : Option (Receipt α) :=
  match c.elements[start]?, c.elements[stop]? with
  | some startHash, some endHash =>
    if start > stop then none
    else if start = 0 ∧ stop = 0 then
      some ⟨startHash, start, endHash, stop, startHash, []⟩
    else c.buildReceipt combine startHash endHash start stop
  | _, _ => none

/-! ## Well-formed chains -/

section WellFormed

def rootAt (c : Chain α) (n : Nat) : Option α :=
  (pendingOf combine (c.elements.take n)).foldl (fold combine) none

/-- The stored state for a mark point. -/
def markState (c : Chain α) (m : Nat) : MerkleState α :=
  { count := m + 1
    pending := pendingOf combine (c.elements.take (m + 1))
    hashList := (c.elements.take (m + 1)).drop (m / c.markFreq * c.markFreq) }

/-- The stored records are those of a chain that was built by adding its elements. -/
structure WellFormed (c : Chain α) : Prop where
  markPower : 0 < c.markPower
  count : c.head.count = c.elements.length
  pending : c.head.pending = pendingOf combine c.elements
  hashList : c.head.hashList = c.elements.drop ((c.elements.length - 1) / c.markFreq * c.markFreq)
  states : ∀ m, c.states m =
    if m < c.elements.length ∧ (m + 1) % c.markFreq = 0 then some (c.markState combine m) else none
  index : ∀ h i, c.elementIndex h = some i → c.elements[i]? = some h
  fresh : ∀ h, c.elementIndex h = none → h ∉ c.elements

theorem wellFormed_new {markPower : Nat} (h : 0 < markPower) :
    WellFormed combine (new markPower : Chain α) where
  markPower := h
  count := rfl
  pending := rfl
  hashList := List.drop_nil.symm
  states := by
    intro m
    have hempty : ¬ (m < 0 ∧ (m + 1) % 2 ^ markPower = 0) := fun hm => absurd hm.1 (by omega)
    exact (if_neg hempty).symm
  index := nofun
  fresh := fun h _ hm => by cases hm

variable {combine}

variable {c : Chain α}

/-- What `append` does to the fields, case by case. -/
theorem append_elements (c : Chain α) (hash : α) :
    (c.append combine hash).elements = c.elements ++ [hash] := by
  unfold append
  split
  · rfl
  · split <;> rfl

theorem append_markPower (c : Chain α) (hash : α) :
    (c.append combine hash).markPower = c.markPower := by
  unfold append
  split
  · rfl
  · split <;> rfl

theorem addHash_markPower [DecidableEq α] (c : Chain α) (hash : α) (unique : Bool) :
    (c.addHash combine hash unique).markPower = c.markPower := by
  unfold addHash
  split
  · split
    · rfl
    · exact append_markPower c hash
  · exact append_markPower c hash

theorem addHashes_markPower [DecidableEq α] (c : Chain α) (calls : List (α × Bool)) :
    (c.addHashes combine calls).markPower = c.markPower := by
  induction calls generalizing c with
  | nil => rfl
  | cons call calls ih => exact (ih _).trans (addHash_markPower c call.1 call.2)

theorem addHashes_elements [DecidableEq α] (c : Chain α) (hashes : List α) :
    (c.addHashes combine (hashes.map fun h => (h, false))).elements = c.elements ++ hashes := by
  induction hashes generalizing c with
  | nil => exact (List.append_nil _).symm
  | cons hash hashes ih =>
    have hstep : (c.addHash combine hash false).elements = c.elements ++ [hash] := by
      unfold addHash
      split
      · rw [if_neg Bool.false_ne_true, append_elements]
      · exact append_elements c hash
    refine (ih _).trans ?_
    rw [hstep, List.append_assoc]
    rfl

theorem append_elementIndex (c : Chain α) (hash : α) :
    (c.append combine hash).elementIndex = c.elementIndex := by
  unfold append
  split
  · rfl
  · split <;> rfl

theorem append_count (c : Chain α) (hash : α) :
    (c.append combine hash).head.count = c.head.count + 1 := by
  unfold append
  split
  · rfl
  · split <;> rfl

theorem append_pending (c : Chain α) (hash : α) :
    (c.append combine hash).head.pending = addPending combine c.head.pending hash := by
  unfold append
  split
  · rfl
  · split <;> rfl

/-- The state at a mark point of a chain with the elements `all`, whose hash lists start at `n₀`. -/
def stateAfter (combine : α → α → α) (all : List α) (n₀ freq m : Nat) : MerkleState α :=
  { count := m + 1
    pending := pendingOf combine (all.take (m + 1))
    hashList := (all.take (m + 1)).drop (max n₀ (m / freq * freq)) }

/-- The head and the states are those of a chain that has the elements `all`, the first `n₀` of
which were there, without any records, when its head was restored. -/
structure Follows (combine : α → α → α) (all : List α) (n₀ : Nat) (c : Chain α) : Prop where
  markPower : 0 < c.markPower
  le : n₀ ≤ all.length
  count : c.head.count = all.length
  pending : c.head.pending = pendingOf combine all
  hashList : c.head.hashList = all.drop (max n₀ ((all.length - 1) / c.markFreq * c.markFreq))
  states : ∀ m, c.states m =
    if n₀ ≤ m ∧ m < all.length ∧ (m + 1) % c.markFreq = 0 then
      some (stateAfter combine all n₀ c.markFreq m)
    else none

theorem WellFormed.follows (hc : c.WellFormed combine) : Follows combine c.elements 0 c where
  markPower := hc.markPower
  le := Nat.zero_le _
  count := hc.count
  pending := hc.pending
  hashList := by rw [hc.hashList, Nat.zero_max]
  states m := by
    simp only [hc.states, markState, stateAfter, Nat.zero_le, true_and, Nat.zero_max]

variable {all : List α} {n₀ : Nat} {old : List α}

section

variable (hc : Follows combine all n₀ c)

include hc

theorem Follows.two_le_markFreq : 2 ≤ c.markFreq := by
  have hone : 2 ^ 1 ≤ 2 ^ c.markPower := Nat.pow_le_pow_right (by omega) hc.markPower
  exact hone

theorem Follows.append_hashList (hash : α) :
    (c.append combine hash).head.hashList =
      (all ++ [hash]).drop (max n₀ (all.length / c.markFreq * c.markFreq)) := by
  have htwo := hc.two_le_markFreq
  have hle : all.length / c.markFreq * c.markFreq ≤ all.length := Nat.div_mul_le_self _ _
  have hsplit := Nat.div_add_mod all.length c.markFreq
  have hmod := Nat.mod_lt all.length (by omega : 0 < c.markFreq)
  rw [List.drop_append_of_le_length (Nat.max_le.2 ⟨hc.le, hle⟩)]
  -- within a mark set the list goes on; the first element of a mark set starts a new one
  by_cases hfirst : all.length % c.markFreq = 0
  · have hone : (c.head.count + 1) % c.markFreq = 1 := by
      rw [hc.count, Nat.add_mod, hfirst, Nat.zero_add, Nat.mod_mod, Nat.mod_eq_of_lt (by omega)]
    have hall : all.length / c.markFreq * c.markFreq = all.length := by
      rw [Nat.mul_comm]
      omega
    rw [hall, Nat.max_eq_right hc.le, List.drop_length, append, if_neg (by omega), if_pos hone]
    rfl
  · have hsame : (all.length - 1) / c.markFreq = all.length / c.markFreq := by
      refine Nat.div_eq_of_lt_le ?_ ?_
      · rw [Nat.mul_comm]
        omega
      · rw [Nat.add_mul, Nat.mul_comm]
        omega
    rw [← hsame, ← hc.hashList, append]
    split
    · rfl
    have hne : (c.head.count + 1) % c.markFreq ≠ 1 := by
      intro hone
      rw [hc.count, Nat.add_mod, Nat.mod_eq_of_lt (by omega : 1 < c.markFreq)] at hone
      by_cases hlast : all.length % c.markFreq + 1 = c.markFreq
      · rw [hlast, Nat.mod_self] at hone
        omega
      · rw [Nat.mod_eq_of_lt (by omega)] at hone
        omega
    rw [if_neg hne]
    rfl

theorem Follows.append_states (hash : α) (m : Nat) :
    (c.append combine hash).states m =
      if m = all.length ∧ (m + 1) % c.markFreq = 0 then some (c.append combine hash).head
      else c.states m := by
  unfold append
  rw [hc.count]
  split
  · rename_i hmark
    dsimp only
    rw [addToMerkleTree_count, Nat.add_sub_cancel, hc.count]
    by_cases hm : m = all.length
    · subst hm
      rw [if_pos rfl, if_pos ⟨rfl, hmark⟩]
    · rw [if_neg hm, if_neg fun h => hm h.1]
  · rename_i hmark
    have hno : ¬ (m = all.length ∧ (m + 1) % c.markFreq = 0) := by
      rintro ⟨rfl, h⟩
      exact hmark h
    split <;> rfl

theorem Follows.append (hash : α) : Follows combine (all ++ [hash]) n₀ (c.append combine hash) := by
  have hfreq : (c.append combine hash).markFreq = c.markFreq := by
    rw [markFreq, markFreq, append_markPower]
  have hcount : (c.append combine hash).head.count = (all ++ [hash]).length := by
    rw [append_count, hc.count, List.length_append, List.length_singleton]
  have hpending : (c.append combine hash).head.pending = pendingOf combine (all ++ [hash]) := by
    rw [append_pending, hc.pending, pendingOf_append]
    rfl
  have hhead : (c.append combine hash).head =
      stateAfter combine (all ++ [hash]) n₀ c.markFreq all.length := by
    have hall : (all ++ [hash]).take (all.length + 1) = all ++ [hash] :=
      List.take_of_length_le (by simp)
    rw [stateAfter, hall, ← hc.append_hashList, ← hpending, ← hc.count, ← append_count]
  have hlength : (all ++ [hash]).length = all.length + 1 := by simp
  refine ⟨?_, by have hle := hc.le; omega, hcount, hpending, ?_, fun m => ?_⟩
  · rw [append_markPower]
    exact hc.markPower
  · rw [hc.append_hashList, hfreq, hlength, Nat.add_sub_cancel]
  rw [hc.append_states, hfreq, hc.states]
  by_cases hm : m = all.length
  · have hle : n₀ ≤ m := hm ▸ hc.le
    by_cases hmark : (m + 1) % c.markFreq = 0
    · rw [if_pos ⟨hm, hmark⟩, if_pos ⟨hle, by omega, hmark⟩, hhead, hm]
    · simp [hmark]
  · have htake (hlt : m < all.length) :
        stateAfter combine (all ++ [hash]) n₀ c.markFreq m =
          stateAfter combine all n₀ c.markFreq m := by
      rw [stateAfter, stateAfter, List.take_append_of_le_length (by omega)]
    rw [if_neg fun h => hm h.1]
    by_cases hold : n₀ ≤ m ∧ m < all.length ∧ (m + 1) % c.markFreq = 0
    · rw [if_pos hold, if_pos ⟨hold.1, by omega, hold.2.2⟩, htake hold.2.1]
    · rw [if_neg hold, if_neg fun h => hold ⟨h.1, by omega, h.2.2⟩]

end

theorem addHash_cases [DecidableEq α] (combine : α → α → α) (c : Chain α) (hash : α)
    (unique : Bool) :
    c.addHash combine hash unique = c ∨
      ∃ index, c.addHash combine hash unique =
        { c.append combine hash with elementIndex := index } := by
  unfold addHash
  split
  · cases unique with
    | true => exact .inl rfl
    | false => exact .inr ⟨_, rfl⟩
  · exact .inr ⟨_, rfl⟩

theorem Follows.addHash [DecidableEq α] (hc : Follows combine (old ++ c.elements) n₀ c)
    (hash : α) (unique : Bool) :
    Follows combine (old ++ (c.addHash combine hash unique).elements) n₀
      (c.addHash combine hash unique) := by
  rcases addHash_cases combine c hash unique with h | ⟨index, h⟩
  · rw [h]
    exact hc
  have happend := hc.append hash
  rw [h]
  rw [append_elements, ← List.append_assoc]
  exact ⟨happend.markPower, happend.le, happend.count, happend.pending, happend.hashList,
    happend.states⟩

/-- Any sequence of `AddHash` calls goes on with what the records follow. -/
theorem Follows.addHashes [DecidableEq α]
    (hc : Follows combine (old ++ c.elements) n₀ c) (calls : List (α × Bool)) :
    Follows combine (old ++ (c.addHashes combine calls).elements) n₀
      (c.addHashes combine calls) := by
  induction calls generalizing c with
  | nil => exact hc
  | cons call calls ih => exact ih (hc.addHash call.1 call.2)

theorem WellFormed.addHash [DecidableEq α] (hc : c.WellFormed combine) (hash : α) (unique : Bool) :
    (c.addHash combine hash unique).WellFormed combine := by
  have hf : Follows combine (c.addHash combine hash unique).elements 0
      (c.addHash combine hash unique) :=
    Follows.addHash (show Follows combine ([] ++ c.elements) 0 c from hc.follows) hash unique
  have hindex : ∀ h i, c.elementIndex h = some i →
      (c.append combine hash).elements[i]? = some h := by
    intro h i hi
    have hget := hc.index h i hi
    rw [append_elements, List.getElem?_append_left (List.getElem?_eq_some_iff.1 hget).1, hget]
  refine ⟨hf.markPower, hf.count, hf.pending, ?_, ?_, ?_, ?_⟩
  · rw [hf.hashList, Nat.zero_max]
  · intro m
    simp only [hf.states, markState, stateAfter, Nat.zero_le, true_and, Nat.zero_max]
  · intro h i hi
    unfold Chain.addHash at hi ⊢
    split at hi
    · cases unique with
      | true => exact hc.index h i hi
      | false => exact hindex h i (by rwa [if_neg Bool.false_ne_true, append_elementIndex] at hi)
    · dsimp only at hi ⊢
      split at hi
      · rename_i heq
        cases hi
        rw [append_elements, hc.count, heq]
        simp
      · exact hindex h i hi
  · intro h hh
    unfold Chain.addHash at hh ⊢
    split at hh
    · rename_i i hi
      cases unique with
      | true => exact hc.fresh h hh
      | false =>
        rw [if_neg Bool.false_ne_true, append_elementIndex] at hh
        rw [if_neg Bool.false_ne_true, append_elements, List.mem_append, List.mem_singleton]
        rintro (hmem | rfl)
        · exact hc.fresh h hh hmem
        · exact nomatch hi.symm.trans hh
    · dsimp only at hh ⊢
      split at hh
      · cases hh
      rename_i hne
      rw [append_elements, List.mem_append, List.mem_singleton]
      rintro (hmem | heq)
      · exact hc.fresh h hh hmem
      · exact hne heq

theorem WellFormed.addHashes [DecidableEq α] (hc : c.WellFormed combine) (calls : List (α × Bool)) :
    (c.addHashes combine calls).WellFormed combine := by
  induction calls generalizing c with
  | nil => exact hc
  | cons call calls ih => exact ih (hc.addHash call.1 call.2)

end WellFormed

end Chain

end Accumulate.Smt
