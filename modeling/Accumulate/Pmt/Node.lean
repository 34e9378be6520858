import Accumulate.Library.Octets
import Accumulate.Protocol.Signature

/-!
# Nodes of the binary Patricia tree

The entries of `smt/pmt`: nodes, values, and the stubs that stand for entries that have not been
loaded.  A node at height `h` branches on bit `h` of the keys.  The nodes whose height is a
multiple of eight are border nodes: what is below a border node, down to the next border nodes, is
a byte block and is kept under the node key of the border node.

The nodes of the source point to their parents.  Here a parent is the node one step up, and a
function that is called with a pointer to a node gives back the node it leaves behind.  A panic is
an error with the text of the panic.
-/

namespace Accumulate.Pmt

open Library
open Protocol (Hash)

/-- What the run time says about an index or a slice that is out of range. -/
def indexOutOfRange : String := "index out of range"

/-! ## Keys -/

/-- `GetNodeKey`: as many bits of the key as the node is high, and an end bit. -/
def getNodeKey (height : Nat) (key : Hash) : Hash × Bool :=
  if height > 254 then (0, false)
  else
    let byteCnt := height >>> 3
    let bitCnt := height &&& 7
    let lastByte := (toBytes key)[byteCnt]?.getD 0
    let shift := UInt8.ofNat (7 - bitCnt)
    let lastByte := ((lastByte >>> shift) ||| 1) <<< shift
    let nk := (toBytes key).take byteCnt ++ [lastByte]
    (ofBytes (nk ++ List.replicate (32 - nk.length) 0), true)

/-- The test of `Get` and `insertAtNode`: the way to the key goes left. -/
def goesLeft (height : Nat) (key : Hash) : Bool :=
  let bit := (0x80 : UInt8) >>> UInt8.ofNat (height &&& 7)
  bit &&& (toBytes key)[height >>> 3]?.getD 0 != 0

def pathKey (p : List Bool) : Hash :=
  ofBits 256 (p ++ true :: List.replicate (255 - p.length) false)

variable {height : Nat} {hash : Hash} {p : List Bool}

theorem goesLeft_eq (h : height < 256) (key : Hash) : goesLeft height key = key.getMsbD height := by
  have hbyte : ∀ (x : BitVec 8) (j : Fin 8),
      ((0x80 : UInt8) >>> UInt8.ofNat j &&& UInt8.ofBitVec x != 0) = x.getMsbD j := by
    decide +kernel
  have hand : height &&& 7 = height % 8 := Nat.and_two_pow_sub_one_eq_mod height 3
  have hshift : height >>> 3 = height / 8 := Nat.shiftRight_eq_div_pow height 3
  unfold goesLeft
  rw [hand, hshift]
  have hbit := hbyte ((toBytes key)[height / 8]?.getD 0).toBitVec ⟨height % 8, by omega⟩
  rw [getMsbD_toBytes (by omega) (by omega), Nat.div_add_mod] at hbit
  exact hbit

theorem getMsbD_pathKey (h : p.length ≤ 255) {i : Nat} (hi : i < 256) :
    (pathKey p).getMsbD i = if i < p.length then p[i]?.getD false else decide (i = p.length) := by
  unfold pathKey
  rw [getMsbD_ofBits (by simp; omega)]
  by_cases hlt : i < p.length
  · rw [if_pos hlt, List.getElem?_append_left hlt]
  obtain ⟨j, rfl⟩ : ∃ j, i = p.length + j := ⟨i - p.length, by omega⟩
  cases j with
  | zero => simp
  | succ j => simp [show j < 255 - p.length by omega]

theorem pathKey_injective {q : List Bool} (hp : p.length ≤ 255) (hq : q.length ≤ 255)
    (h : pathKey p = pathKey q) : p = q := by
  have hbit : ∀ i, i < 256 →
      (if i < p.length then p[i]?.getD false else decide (i = p.length)) =
        if i < q.length then q[i]?.getD false else decide (i = q.length) := by
    intro i hi
    rw [← getMsbD_pathKey hp hi, ← getMsbD_pathKey hq hi, h]
  -- The end bit is the last one that is set.
  have hlength : p.length = q.length := by
    rcases Nat.lt_trichotomy p.length q.length with hlt | heq | hgt
    · have hend := hbit q.length (by omega)
      rw [if_neg (by omega), if_neg (by omega)] at hend
      simp only [decide_eq_decide, iff_true] at hend
      exact hend.symm
    · exact heq
    · have hend := hbit p.length (by omega)
      rw [if_neg (by omega), if_neg (by omega)] at hend
      simp only [true_iff, decide_eq_decide] at hend
      exact hend
  apply List.ext_getElem hlength
  intro i hi hi'
  have hend := hbit i (by omega)
  rw [if_pos hi, if_pos hi', List.getElem?_eq_getElem hi, List.getElem?_eq_getElem hi'] at hend
  exact hend

theorem getNodeKey_eq (h : height ≤ 254) (key : Hash) :
    (getNodeKey height key).1 = pathKey ((bits key).take height) := by
  have hbyte : ∀ (x : BitVec 8) (c j : Fin 8),
      (((UInt8.ofBitVec x >>> UInt8.ofNat (7 - c.val)) ||| 1) <<<
        UInt8.ofNat (7 - c.val)).toBitVec.getMsbD
          j = if j < c then x.getMsbD j else decide (j = c) := by
    decide +kernel
  have hand : height &&& 7 = height % 8 := Nat.and_two_pow_sub_one_eq_mod height 3
  have hshift : height >>> 3 = height / 8 := Nat.shiftRight_eq_div_pow height 3
  have htake : ((bits key).take height).length = height := by simp; omega
  unfold getNodeKey
  rw [if_neg (by omega)]
  rw [hand, hshift]
  apply BitVec.eq_of_getMsbD_eq
  intro i hi
  rw [getMsbD_pathKey (by omega) hi, htake]
  obtain ⟨a, j, hj, rfl⟩ : ∃ a j, j < 8 ∧ i = 8 * a + j :=
    ⟨i / 8, i % 8, by omega, (Nat.div_add_mod i 8).symm⟩
  rw [getMsbD_ofBytes (by simp; omega) (by omega) hj]
  have hkey : ∀ n, n < 256 → n < height →
      ((bits key).take height)[n]?.getD false = key.getMsbD n := by
    intro n hn hlt
    rw [List.getElem?_take_of_lt hlt, getElem?_bits hn, Option.getD_some]
  rcases Nat.lt_trichotomy a (height / 8) with hlt | heq | hgt
  · -- a byte of the key
    rw [if_pos (by omega), hkey _ hi (by omega), List.getElem?_append_left (by simp; omega),
      List.getElem?_append_left (by simp; omega), List.getElem?_take_of_lt hlt,
      getMsbD_toBytes (by omega) hj]
  · -- the byte with the end bit
    subst heq
    have hindex : ((toBytes key).take (height / 8)).length = height / 8 := by simp; omega
    rw [List.getElem?_append_left (by simp; omega), List.getElem?_append_right hindex.le, hindex,
      Nat.sub_self]
    have hlast := hbyte ((toBytes key)[height / 8]?.getD 0).toBitVec ⟨height % 8, by omega⟩ ⟨j, hj⟩
    rw [getMsbD_toBytes (by omega) hj] at hlast
    refine hlast.trans ?_
    by_cases hless : j < height % 8
    · rw [if_pos (by exact hless), if_pos (by omega), hkey _ hi (by omega)]
    · rw [if_neg (by exact hless), if_neg (by omega)]
      simp only [Fin.mk.injEq, decide_eq_decide]
      omega
  · -- the bytes after it
    rw [if_neg (by omega), List.getElem?_append_right (by simp; omega), List.getElem?_replicate,
      if_pos (by simp; omega)]
    have hne : 8 * a + j ≠ height := by omega
    simp [hne]

/-! ## Entries -/

/-- `Entry`: nothing, a `BptNode`, a `Value` or a `NotLoaded`. -/
inductive Entry where
  | null
  | node (height : Nat) (nodeKey hash : Hash) (left right : Entry)
  | value (key hash : Hash)
  | notLoaded
deriving DecidableEq, Repr

structure BptNode where
  height : Nat
  nodeKey : Hash
  hash : Hash
  left : Entry
  right : Entry
deriving DecidableEq, Repr

variable {n : BptNode}

namespace BptNode

/-- A node as an entry of its parent. -/
def entry (n : BptNode) : Entry := .node n.height n.nodeKey n.hash n.left n.right

def child (n : BptNode) (left : Bool) : Entry := if left then n.left else n.right

def setChild (n : BptNode) (left : Bool) (e : Entry) : BptNode :=
  if left then { n with left := e } else { n with right := e }

end BptNode

def getHash : Entry → Option Hash
  | .node _ _ hash _ _ => some hash
  | .value _ hash => some hash
  | .null | .notLoaded => none

def getNodeHash (combine : Hash → Hash → Hash) (n : BptNode) : Except String BptNode :=
  match getHash n.left, getHash n.right with
  | some l, some r => .ok { n with hash := combine l r }
  | some l, none => .ok { n with hash := l }
  | none, some r => .ok { n with hash := r }
  | none, none => .error "dead nodes should not exist"

theorem getNodeHash_eq {combine : Hash → Hash → Hash}
    (h : join combine (getHash n.left) (getHash n.right) = some hash) :
    getNodeHash combine n = .ok { n with hash := hash } := by
  unfold getNodeHash
  cases hl : getHash n.left <;> cases hr : getHash n.right <;> rw [hl, hr] at h <;>
    simp [join] at h <;> simp [h]

/-! ## Byte blocks -/

def tNil : UInt8 := 1
def tNode : UInt8 := 2
def tValue : UInt8 := 3
def tNotLoaded : UInt8 := 4

def marshalNode (height : Nat) (nodeKey hash : Hash) : List UInt8 :=
  toBytes nodeKey ++ [UInt8.ofNat height] ++ toBytes hash

/-- `MarshalEntry`: the entries of a border node are in another byte block. -/
def marshalEntry (mask : Nat) : Entry → List UInt8
  | .null => [tNil]
  | .value key hash => [tValue] ++ (toBytes key ++ toBytes hash)
  | .node height nodeKey hash left right =>
    if height &&& mask = 0 then
      [tNode] ++ marshalNode height nodeKey hash ++ [tNotLoaded] ++ [tNotLoaded]
    else
      [tNode] ++ marshalNode height nodeKey hash ++ marshalEntry mask left ++
        marshalEntry mask right
  | .notLoaded => [tNotLoaded]

def marshalByteBlock (mask : Nat) (borderNode : BptNode) : Except String (List UInt8) :=
  if borderNode.height &&& mask ≠ 0 then
    .error "cannot call MarshalByteBlock on non-boarder nodes"
  else .ok (marshalEntry mask borderNode.left ++ marshalEntry mask borderNode.right)

def takeHash (data : List UInt8) : Except String (Hash × List UInt8) :=
  if data.length < 32 then .error indexOutOfRange
  else .ok (ofBytes (data.take 32), data.drop 32)

def takeByte : List UInt8 → Except String (UInt8 × List UInt8)
  | [] => .error indexOutOfRange
  | b :: data => .ok (b, data)

/-- `UnMarshalEntry`, for a parent of the given height.  Every call takes a byte. -/
def unmarshalEntry (mask : Nat) : (fuel parentHeight : Nat) → List UInt8 →
    Except String (Entry × List UInt8)
  | 0, _, _ => .error indexOutOfRange
  | fuel + 1, parentHeight, data => do
      let (nodeType, data) ← takeByte data
      if nodeType = tNil then
        pure (.null, data)
      else if nodeType = tValue then
        let (key, data) ← takeHash data
        let (hash, data) ← takeHash data
        pure (.value key hash, data)
      else if nodeType = tNotLoaded then
        if parentHeight &&& mask ≠ 0 then
          .error "writing a TNotLoaded node on a non-boundary node"
        else
          pure (.notLoaded, data)
      else if nodeType = tNode then
        let (nodeKey, data) ← takeHash data
        let (height, data) ← takeByte data
        let (hash, data) ← takeHash data
        let (left, data) ← unmarshalEntry mask fuel height.toNat data
        let (right, data) ← unmarshalEntry mask fuel height.toNat data
        pure (.node height.toNat nodeKey hash left right, data)
      else
        .error "failure to decode the ByteBlock"

def unmarshalByteBlock (mask : Nat) (borderNode : BptNode) (data : List UInt8) :
    Except String BptNode :=
  if borderNode.height &&& mask ≠ 0 then
    .error "cannot call UnMarshalByteBlock on non-boarder nodes"
  else do
    let (left, data) ← unmarshalEntry mask (data.length + 1) borderNode.height data
    let (right, _) ← unmarshalEntry mask (data.length + 1) borderNode.height data
    pure { borderNode with left := left, right := right }

/-- What a byte block keeps of an entry: the entries of border nodes are not loaded. -/
def Entry.stub (mask : Nat) : Entry → Entry
  | .node height nodeKey hash left right =>
    if height &&& mask = 0 then .node height nodeKey hash .notLoaded .notLoaded
    else .node height nodeKey hash (left.stub mask) (right.stub mask)
  | e => e

/-- The entry can be written below a node of the given height: heights fit a byte, and only border
nodes have entries that are not loaded. -/
def Entry.Storable (mask : Nat) : Nat → Entry → Prop
  | _, .node height _ _ left right =>
    height < 256 ∧ (height &&& mask ≠ 0 → left.Storable mask height ∧ right.Storable mask height)
  | parentHeight, .notLoaded => parentHeight &&& mask = 0
  | _, _ => True

@[simp] theorem takeHash_append (k : Hash) (rest : List UInt8) :
    takeHash (toBytes k ++ rest) = .ok (k, rest) := by
  unfold takeHash
  rw [if_neg (by simp), List.take_left' (length_toBytes k), List.drop_left' (length_toBytes k),
    ofBytes_toBytes]

@[simp] theorem ok_bind {α β : Type} (a : α) (f : α → Except String β) :
    ((Except.ok a : Except String α) >>= f) = f a := rfl

variable {mask parentHeight : Nat} {fuel : Nat}

theorem unmarshalEntry_node {nodeKey : Hash} {l r rest : List UInt8}
    {left right : Entry} (hheight : height < 256)
    (hl : unmarshalEntry mask fuel height (l ++ (r ++ rest)) = .ok (left, r ++ rest))
    (hr : unmarshalEntry mask fuel height (r ++ rest) = .ok (right, rest)) :
    unmarshalEntry mask (fuel + 1) parentHeight
        ([tNode] ++ marshalNode height nodeKey hash ++ l ++ r ++ rest) =
      .ok (.node height nodeKey hash left right, rest) := by
  have hbyte : (UInt8.ofNat height).toNat = height := by
    exact Nat.mod_eq_of_lt hheight
  unfold marshalNode unmarshalEntry
  simp only [List.append_assoc, List.cons_append, List.nil_append, takeByte, ok_bind,
    takeHash_append, hbyte, hl, hr]
  rfl

theorem unmarshalEntry_notLoaded (h : parentHeight &&& mask = 0) (fuel : Nat) (rest : List UInt8) :
    unmarshalEntry mask (fuel + 1) parentHeight ([tNotLoaded] ++ rest) =
      .ok (.notLoaded, rest) := by
  unfold unmarshalEntry
  simp only [h]
  rfl

theorem unmarshalEntry_marshalEntry {e : Entry} (he : e.Storable mask parentHeight)
    (rest : List UInt8) (hfuel : (marshalEntry mask e).length ≤ fuel) :
    unmarshalEntry mask fuel parentHeight (marshalEntry mask e ++ rest) =
      .ok (e.stub mask, rest) := by
  induction e generalizing parentHeight rest fuel with
  | null =>
    obtain ⟨fuel, rfl⟩ : ∃ n, fuel = n + 1 := ⟨fuel - 1, by simp [marshalEntry] at hfuel; omega⟩
    rfl
  | notLoaded =>
    obtain ⟨fuel, rfl⟩ : ∃ n, fuel = n + 1 := ⟨fuel - 1, by simp [marshalEntry] at hfuel; omega⟩
    exact unmarshalEntry_notLoaded he fuel rest
  | value key hash =>
    obtain ⟨fuel, rfl⟩ : ∃ n, fuel = n + 1 := ⟨fuel - 1, by simp [marshalEntry] at hfuel; omega⟩
    unfold marshalEntry unmarshalEntry
    simp only [List.append_assoc, List.cons_append, List.nil_append, takeByte, ok_bind,
      takeHash_append]
    rfl
  | node height nodeKey hash left right ihl ihr =>
    obtain ⟨hheight, hentries⟩ := he
    rw [marshalEntry] at hfuel ⊢
    rw [Entry.stub]
    by_cases hborder : height &&& mask = 0
    · -- The two entries are stubs.
      rw [if_pos hborder] at hfuel ⊢
      rw [if_pos hborder]
      simp only [List.length_append, List.length_singleton] at hfuel
      obtain ⟨fuel, rfl⟩ : ∃ n, fuel = n + 2 := ⟨fuel - 2, by omega⟩
      apply unmarshalEntry_node hheight
      · exact unmarshalEntry_notLoaded hborder fuel _
      · exact unmarshalEntry_notLoaded hborder fuel rest
    · rw [if_neg hborder] at hfuel ⊢
      rw [if_neg hborder]
      simp only [List.length_append, List.length_singleton] at hfuel
      obtain ⟨fuel, rfl⟩ : ∃ n, fuel = n + 1 := ⟨fuel - 1, by omega⟩
      obtain ⟨hl, hr⟩ := hentries hborder
      apply unmarshalEntry_node hheight
      · exact ihl hl _ (by omega)
      · exact ihr hr rest (by omega)

theorem unmarshalByteBlock_eq (hborder : n.height &&& mask = 0) {l r : Entry}
    (hl : l.Storable mask n.height) (hr : r.Storable mask n.height) :
    unmarshalByteBlock mask n (marshalEntry mask l ++ marshalEntry mask r) =
      .ok { n with left := l.stub mask, right := r.stub mask } := by
  unfold unmarshalByteBlock
  rw [if_neg (by simp [hborder]), unmarshalEntry_marshalEntry hl _ (by simp; omega), ok_bind]
  dsimp only
  have hright := unmarshalEntry_marshalEntry hr [] (Nat.le_succ (marshalEntry mask r).length)
  rw [List.append_nil] at hright
  rw [hright]
  rfl

theorem marshalEntry_stub (mask : Nat) (e : Entry) :
    marshalEntry mask (e.stub mask) = marshalEntry mask e := by
  induction e with
  | node height nodeKey hash left right ihl ihr =>
    rw [Entry.stub, marshalEntry]
    split
    · rename_i hborder
      rw [marshalEntry, if_pos hborder]
    · rename_i hborder
      rw [marshalEntry, if_neg hborder, ihl, ihr]
  | _ => rfl

end Accumulate.Pmt
