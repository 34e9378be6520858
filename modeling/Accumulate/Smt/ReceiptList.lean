import Accumulate.Smt.BuildReceipt

/-!
# Receipt lists

The lists of `smt/managed/receiptlist.go`: a state, the elements that follow it and a
receipt for the last of them.  The receipt is found by the value of the last element, so it
is one for the index the chain has recorded for that value.
-/

namespace Accumulate.Smt

open MerkleState

/-- `ReceiptList`, of hashes of 32 bytes. -/
structure ReceiptList (α : Type) where
  merkleState : MerkleState α
  elements : List α
  receipt : Receipt α
  continuedReceipt : Option (Receipt α)

namespace ReceiptList

variable {α : Type} [DecidableEq α] (combine : α → α → α)

def validate (r : ReceiptList α) : Bool :=
  match r.elements.getLast?, (r.elements.foldl (addToMerkleTree combine) r.merkleState).getMDRoot
      combine with
  | some lastElement, some anchor =>
    lastElement = r.receipt.start && r.receipt.anchor = anchor && r.receipt.validate combine &&
      match r.continuedReceipt with
      | none => true
      | some continued => anchor = continued.start && continued.validate combine
  | _, _ => false

end ReceiptList

namespace Chain

variable {α : Type} (combine : α → α → α)

def getReceipt (c : Chain α) (element anchor : α) : Option (Receipt α) :=
  match c.elementIndex element, c.elementIndex anchor with
  | some start, some stop =>
    if start > stop ∨ start > c.head.count then none
    else if start = 0 ∧ stop = 0 then some ⟨element, start, anchor, stop, element, []⟩
    else c.buildReceipt combine element anchor start stop
  | _, _ => none

def getElements (c : Chain α) : Nat → Nat → Option (List α)
  | _, 0 => some []
  | i, n + 1 => do
      let h ← c.elements[i]?
      let rest ← getElements c (i + 1) n
      return h :: rest

def getReceiptList (c : Chain α) (start stop : Nat) : Option (ReceiptList α) :=
  if start > stop then none
  else if c.head.count ≤ stop then none
  else do
    let elements ← c.getElements start (stop + 1 - start)
    let merkleState ← c.getAnyState combine (start - 1 : Int)
    let lastElement ← elements.getLast?
    let receipt ← c.getReceipt combine lastElement lastElement
    return ⟨merkleState, elements, receipt, none⟩

variable {combine} {c : Chain α} {start stop i n : Nat} {element anchor : α}

theorem getElements_eq (h : i + n ≤ c.elements.length) :
    c.getElements i n = some ((c.elements.drop i).take n) := by
  induction n generalizing i with
  | zero => rfl
  | succ n ih =>
    have hi : i < c.elements.length := by omega
    rw [getElements, List.getElem?_eq_getElem hi, ih (by omega), List.drop_eq_getElem_cons hi]
    rfl

namespace WellFormed

theorem getReceipt (hc : c.WellFormed combine) (hstart : c.elementIndex element = some start)
    (hstop : c.elementIndex anchor = some stop) :
    c.getReceipt combine element anchor = c.receipt combine start stop := by
  have hlt : start < c.elements.length :=
    (List.getElem?_eq_some_iff.1 (hc.index _ _ hstart)).1
  have hcount : ¬ start > c.head.count := by
    rw [hc.count]
    omega
  unfold Chain.getReceipt Chain.receipt
  rw [hstart, hstop, hc.index _ _ hstart, hc.index _ _ hstop]
  simp only [hcount, or_false]

/-- The elements from one to another, with a receipt for the index that is recorded for the
last of them. -/
theorem getReceiptList [DecidableEq α] (hc : c.WellFormed combine) (hle : start ≤ stop)
    (hstop : stop < c.elements.length) :
    ∃ r i, c.getReceiptList combine start stop = some r ∧
      r.elements = (c.elements.take (stop + 1)).drop start ∧
      c.elements[stop]?.bind c.elementIndex = some i ∧
      (r.validate combine = true ↔ c.rootAt combine (i + 1) = c.rootAt combine (stop + 1)) := by
  obtain ⟨s, hs, hcount, hpending⟩ := hc.getAnyState_pred (n := start) (by omega)
  -- the list ends with the element at `stop`
  have hlist : (c.elements.drop start).take (stop + 1 - start) =
      (c.elements.take (stop + 1)).drop start := (List.drop_take).symm
  have hlast : ((c.elements.take (stop + 1)).drop start).getLast? = some c.elements[stop] := by
    rw [List.getLast?_drop, if_neg (by rw [List.length_take]; omega), List.getLast?_take]
    simp [hstop]
  have hmem : c.elements[stop] ∈ c.elements := List.getElem_mem hstop
  obtain ⟨i, hi⟩ : ∃ i, c.elementIndex c.elements[stop] = some i := by
    by_contra hnone
    exact hc.fresh _ (Option.eq_none_iff_forall_not_mem.2 fun i hi => hnone ⟨i, hi⟩) hmem
  have hindex := hc.index _ _ hi
  obtain ⟨receipt, hreceipt, hfirst, hvalid, hroot⟩ :=
    hc.receipt (Nat.le_refl i) (List.getElem?_eq_some_iff.1 hindex).1
  refine ⟨⟨s, _, receipt, none⟩, i, ?_, rfl, ?_, ?_⟩
  · unfold Chain.getReceiptList
    rw [if_neg (by omega), if_neg (by rw [hc.count]; omega), getElements_eq (by omega), hlist]
    simp [hs, hlast, hc.getReceipt hi hi, hreceipt]
  · rw [List.getElem?_eq_getElem hstop]
    exact hi
  -- walking the state along the elements gives the root at the last one
  have hanchor : (((c.elements.take (stop + 1)).drop start).foldl (addToMerkleTree combine)
      s).getMDRoot combine = c.rootAt combine (stop + 1) := by
    have htake : c.elements.take start = (c.elements.take (stop + 1)).take start := by
      rw [List.take_take, Nat.min_eq_left (by omega)]
    rw [getMDRoot, if_neg (by simp [foldl_addToMerkleTree_count]; omega),
      foldl_addToMerkleTree_pending, hpending, htake, ← pendingOf_append, List.take_append_drop,
      rootAt]
  have hstart : c.elements[stop] = receipt.start :=
    Option.some.inj (hindex.symm.trans hfirst)
  have hreceiptValid : receipt.validate combine = true := decide_eq_true hvalid
  unfold ReceiptList.validate
  rw [hlast, hanchor, hroot]
  cases c.rootAt combine (stop + 1) with
  | none => simp
  | some root => simp [hstart, hreceiptValid]

end WellFormed

section Built

variable [DecidableEq α] (combine)

/-- The chain that adding the hashes, unique or not, gives. -/
def ofHashes (markPower : Nat) (hashes : List α) : Chain α :=
  (new markPower).addHashes combine (hashes.map fun h => (h, false))

/-- **The receipt list of a chain** has the elements it was asked for, and it is valid exactly
if the root at the index that is recorded for the last of them is the root at that element. -/
theorem receiptList_valid_iff (markPower : Nat) (hpower : 0 < markPower) (hashes : List α)
    (start stop : Nat) (hle : start ≤ stop) (hstop : stop < hashes.length) :
    ∃ r i, (ofHashes combine markPower hashes).getReceiptList combine start stop = some r ∧
      r.elements = (hashes.take (stop + 1)).drop start ∧
      hashes[stop]?.bind (ofHashes combine markPower hashes).elementIndex = some i ∧
      (r.validate combine = true ↔
        (ofHashes combine markPower hashes).rootAt combine (i + 1) =
          (ofHashes combine markPower hashes).rootAt combine (stop + 1)) := by
  have hc : (ofHashes combine markPower hashes).WellFormed combine :=
    (wellFormed_new combine hpower).addHashes _
  have helements : (ofHashes combine markPower hashes).elements = hashes :=
    addHashes_elements _ hashes
  obtain ⟨r, i, hr, hlist, hi, hvalid⟩ := hc.getReceiptList hle (by rwa [helements])
  rw [helements] at hlist hi
  exact ⟨r, i, hr, hlist, hi, hvalid⟩

theorem receiptList_valid_iff_three :
    ∃ r i, (ofHashes (fun l r => 2 * l + 3 * r) 1 [5, 7, 9]).getReceiptList
        (fun l r => 2 * l + 3 * r) 1 2 = some r ∧
      r.elements = ([5, 7, 9].take (2 + 1)).drop 1 ∧
      ([5, 7, 9] : List Nat)[2]?.bind
        (ofHashes (fun l r => 2 * l + 3 * r) 1 [5, 7, 9]).elementIndex = some i ∧
      (r.validate (fun l r => 2 * l + 3 * r) = true ↔
        (ofHashes (fun l r => 2 * l + 3 * r) 1 [5, 7, 9]).rootAt (fun l r => 2 * l + 3 * r)
          (i + 1) =
          (ofHashes (fun l r => 2 * l + 3 * r) 1 [5, 7, 9]).rootAt (fun l r => 2 * l + 3 * r)
            (2 + 1)) :=
  receiptList_valid_iff (fun l r : Nat => 2 * l + 3 * r) 1 (by decide) [5, 7, 9] 1 2 (by decide)
    (by decide)

theorem receiptList_repeated :
    ((ofHashes (fun l r => 2 * l + 3 * r) 1 [5, 5]).getReceiptList (fun l r => 2 * l + 3 * r) 0
        1).map (fun r : ReceiptList Nat => (r.elements, r.validate fun l r => 2 * l + 3 * r)) =
      some ([5, 5], false) := by
  decide

end Built

end Chain

end Accumulate.Smt
