import Accumulate.Library.Proc
import Accumulate.Library.Varint
import Accumulate.Smt.MerkleState

/-!
# Merkle states as bytes

`Marshal` and `UnMarshal` of `smt/managed/merklestate.go`, with the lists of `smt/managed/hash.go`
and the helpers of `internal/encoding/utils.go`.  A pending hash is written for each set bit of the
count, and the reader advances by sizes it computes from what it has read.
-/

namespace Accumulate.Smt.MerkleState

open Library

abbrev Bytes := List UInt8

/-- `binary.Uvarint`, with what follows the number. -/
def uvarint (b : Bytes) : Outcome String (Nat × Bytes) :=
  match readUvarint b with
  | (.ok v, rest) => .ok (v, rest)
  | (.error .overflow, rest) =>
    -- ten bytes that all announce another one are an incomplete number
    if rest = [] ∧ b.all (128 ≤ ·.toNat) then .error "not enough data" else .error "overflow"
  | (.error _, _) => .error "not enough data"

def bytesMarshalBinary (b : Bytes) : Bytes := putUvarint b.length ++ b

/-- The check of the length is one of signed numbers. -/
def bytesUnmarshalBinary (b : Bytes) : Outcome String Bytes := do
  let (l, rest) ← (uvarint b).mapError ("error decoding length: " ++ ·)
  if l = 0 then return []
  else if 2 ^ 63 ≤ l then .panic "slice bounds out of range"
  else if rest.length < l then .error "not enough data"
  else return rest.take l

namespace SparseHashList

def binarySize : Nat → List (Option Bytes) → Nat
  | _, [] => 0
  | height, h :: rest =>
    (if height % 2 = 1 then (bytesMarshalBinary (h.getD [])).length else 0) +
      binarySize (height / 2) rest

def marshalBinary : Nat → List (Option Bytes) → Outcome String Bytes
  | 0, _ => .ok []
  | _ + 1, [] => .error "missing hash"
  | height + 1, h :: rest => do
    let data ← marshalBinary ((height + 1) / 2) rest
    return (if (height + 1) % 2 = 1 then bytesMarshalBinary (h.getD []) else []) ++ data

/-- The loop makes a slot for each bit up to the highest one that is set. -/
def unmarshalBinary (height : Nat) (data : Bytes) :
    Outcome String (List (Option Bytes)) :=
  if height = 0 then .ok []
  else if height % 2 = 0 then do
    let rest ← unmarshalBinary (height / 2) data
    return none :: rest
  else do
    let h ← bytesUnmarshalBinary data
    let rest ← unmarshalBinary (height / 2) (data.drop (bytesMarshalBinary h).length)
    return (if h = [] then none else some h) :: rest
termination_by height

end SparseHashList

namespace HashList

def marshalBinary (l : List Bytes) : Bytes :=
  putUvarint l.length ++ l.flatMap bytesMarshalBinary

def readHashes : Nat → Bytes → Outcome String (List Bytes)
  | 0, _ => .ok []
  | n + 1, b => do
    let h ← bytesUnmarshalBinary b
    let rest ← readHashes n (b.drop (bytesMarshalBinary h).length)
    return h :: rest

def unmarshalBinary (b : Bytes) : Outcome String (List Bytes) := do
  let (n, _) ← uvarint b
  readHashes n (b.drop (putUvarint n).length)

end HashList

def marshal (m : MerkleState Bytes) : Outcome String Bytes := do
  let pending ← SparseHashList.marshalBinary m.count m.pending
  return putUvarint (zigzag m.count) ++ (pending ++ HashList.marshalBinary m.hashList)

/-- `UnMarshal`: the count, the pending list and the hash list. -/
def unMarshal (b : Bytes) :
    Outcome String (Int × List (Option Bytes) × List Bytes) := do
  let (ux, _) ← uvarint b
  let count := unzigzag ux
  let b := b.drop (putUvarint (zigzag count)).length
  let bits := (count % 2 ^ 64).toNat
  let pending ← SparseHashList.unmarshalBinary bits b
  let hashList ← HashList.unmarshalBinary (b.drop (SparseHashList.binarySize bits pending))
  return (count, pending, hashList)

/-! ## The round trip -/

theorem uvarint_put {v : Nat} (hv : v < 2 ^ 64) (rest : Bytes) :
    uvarint (putUvarint v ++ rest) = .ok (v, rest) := by
  rw [uvarint, readUvarint_putUvarint hv]

theorem bytesUnmarshalBinary_marshal {b : Bytes} (hb : b.length = 32) (rest : Bytes) :
    bytesUnmarshalBinary (bytesMarshalBinary b ++ rest) = .ok b := by
  rw [bytesUnmarshalBinary, bytesMarshalBinary, List.append_assoc, uvarint_put (by omega)]
  simp [hb]

theorem readHashes_marshal {l : List Bytes} (hl : ∀ h ∈ l, h.length = 32) :
    HashList.readHashes l.length (l.flatMap bytesMarshalBinary) = .ok l := by
  induction l with
  | nil => rfl
  | cons h l ih =>
    obtain ⟨hh, hl⟩ := List.forall_mem_cons.1 hl
    simp [HashList.readHashes, bytesUnmarshalBinary_marshal hh, ih hl]

section Forest

variable {combine : Bytes → Bytes → Bytes}

/-- The pending hashes are written and read along the digits of the count.  What is read ends with
the highest digit. -/
theorem unmarshalPending (hcombine : ∀ a b, (combine a b).length = 32) {leaf : Nat → Bytes}
    {n : Nat} {l : List (Option Bytes)} (hleaf : ∀ i, (leaf i).length = 32)
    (h : IsForest combine leaf n l) :
    ∃ data l' k, SparseHashList.marshalBinary n l = .ok data ∧
      (∀ rest, SparseHashList.unmarshalBinary n (data ++ rest) = .ok l') ∧
      SparseHashList.binarySize n l' = data.length ∧ l = l' ++ List.replicate k none := by
  induction l generalizing leaf n with
  | nil =>
    have hn : n = 0 := h
    subst hn
    refine ⟨[], [], 0, rfl, fun rest => ?_, rfl, rfl⟩
    rw [SparseHashList.unmarshalBinary, if_pos rfl]
  | cons v l ih =>
    obtain ⟨hv, hrest⟩ := h
    have hpairs : ∀ i, (pairs combine leaf i).length = 32 := fun i => hcombine _ _
    obtain ⟨data, l', k, hmarshal, hread, hsize, rfl⟩ := ih hpairs hrest
    cases n with
    | zero =>
      -- only empty slots are left
      have hempty := hread []
      rw [SparseHashList.unmarshalBinary, if_pos rfl] at hempty
      cases hempty
      refine ⟨[], [], k + 1, rfl, fun rest => ?_, rfl, ?_⟩
      · rw [SparseHashList.unmarshalBinary, if_pos rfl]
      · rw [hv]
        rfl
    | succ n =>
      by_cases hodd : (n + 1) % 2 = 1
      · rw [if_pos hodd] at hv
        have hb := hleaf (n + 1 - 1)
        generalize leaf (n + 1 - 1) = b at hv hb
        subst hv
        have hne : b ≠ [] := List.ne_nil_of_length_pos (by omega)
        refine ⟨bytesMarshalBinary b ++ data, some b :: l', k, ?_, fun rest => ?_, ?_, rfl⟩
        · simp [SparseHashList.marshalBinary, hmarshal, hodd]
        · rw [SparseHashList.unmarshalBinary, if_neg (Nat.succ_ne_zero n), if_neg (by omega),
            List.append_assoc, bytesUnmarshalBinary_marshal hb]
          simp [hread, hne]
        · simp [SparseHashList.binarySize, hodd, hsize]
      · rw [if_neg hodd] at hv
        subst hv
        refine ⟨data, none :: l', k, ?_, fun rest => ?_, ?_, rfl⟩
        · simp [SparseHashList.marshalBinary, hmarshal, hodd]
        · rw [SparseHashList.unmarshalBinary, if_neg (Nat.succ_ne_zero n), if_pos (by omega)]
          simp [hread]
        · simp [SparseHashList.binarySize, hodd, hsize]

/-- The states that are reached by adding hashes of 32 bytes and clearing the hash list. -/
inductive Reachable (combine : Bytes → Bytes → Bytes) :
    MerkleState Bytes → Prop
  | empty : Reachable combine .empty
  | add {m : MerkleState Bytes} {hash : Bytes} (h : Reachable combine m)
      (hhash : hash.length = 32) : Reachable combine (m.addToMerkleTree combine hash)
  | clear {m : MerkleState Bytes} (h : Reachable combine m) :
      Reachable combine { m with hashList := [] }

theorem Reachable.forest {m : MerkleState Bytes} (h : Reachable combine m) :
    (∃ leaf : Nat → Bytes, (∀ i, (leaf i).length = 32) ∧
      IsForest combine leaf m.count m.pending) ∧
    m.hashList.length ≤ m.count ∧ ∀ hash ∈ m.hashList, hash.length = 32 := by
  induction h with
  | empty => exact ⟨⟨fun _ => List.replicate 32 0, fun _ => rfl, rfl⟩, le_refl _, nofun⟩
  | clear _ ih => exact ⟨ih.1, Nat.zero_le _, nofun⟩
  | @add m hash _ hhash ih =>
    obtain ⟨⟨leaf, hleaf, hforest⟩, hlength, hhashes⟩ := ih
    have hbefore : IsForest combine (fun i => if i = m.count then hash else leaf i) m.count
        m.pending := hforest.congr fun i hi => by rw [if_neg (Nat.ne_of_lt hi)]
    have hafter := isForest_addPending hbefore
    rw [if_pos rfl] at hafter
    refine ⟨⟨_, fun i => ?_, hafter⟩, ?_, ?_⟩
    · split
      · exact hhash
      · exact hleaf i
    · simpa using hlength
    · simpa [or_imp, forall_and, hhash] using hhashes

/-- **Merkle states are read back.**  For a count that fits its type the state is written and read,
with the same pending list up to trailing nils. -/
theorem unMarshal_marshal (hcombine : ∀ a b, (combine a b).length = 32)
    {m : MerkleState Bytes} (hm : Reachable combine m) (hcount : m.count < 2 ^ 63) :
    ∃ b pending k, m.marshal = .ok b ∧ unMarshal b = .ok (m.count, pending, m.hashList) ∧
      m.pending = pending ++ List.replicate k none := by
  obtain ⟨⟨leaf, hleaf, hforest⟩, hlength, hhashes⟩ := hm.forest
  obtain ⟨data, pending, k, hmarshal, hread, hsize, hpending⟩ :=
    unmarshalPending hcombine hleaf hforest
  have hzigzag : zigzag m.count < 2 ^ 64 := zigzag_lt (by omega) (by omega)
  have hbits : ((m.count : Int) % 2 ^ 64).toNat = m.count := by omega
  refine ⟨_, pending, k, by rw [marshal, hmarshal]; rfl, ?_, hpending⟩
  have hlist : HashList.unmarshalBinary (HashList.marshalBinary m.hashList) = .ok m.hashList := by
    rw [HashList.unmarshalBinary, HashList.marshalBinary, uvarint_put (by omega)]
    simp [readHashes_marshal hhashes]
  rw [unMarshal, uvarint_put hzigzag]
  simp [-Int.reducePow, unzigzag_zigzag, hbits, hread, hsize, hlist]

end Forest

theorem unMarshal_marshal_three :
    ∃ m : MerkleState Bytes, m.count = 3 ∧ m.hashList.length = 1 ∧
      ∃ b pending k, m.marshal = .ok b ∧ unMarshal b = .ok (m.count, pending, m.hashList) ∧
        m.pending = pending ++ List.replicate k none := by
  have hhash (i : UInt8) : (List.replicate 32 i).length = 32 := rfl
  have hm : Reachable (fun a b => List.replicate 32 (a.headD 0 + b.headD 0)) _ :=
    .add (.clear (.add (.add .empty (hhash 1)) (hhash 2))) (hhash 3)
  exact ⟨_, rfl, rfl, unMarshal_marshal (fun _ _ => rfl) hm (by decide)⟩

end Accumulate.Smt.MerkleState
