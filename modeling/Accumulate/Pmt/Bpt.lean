import Accumulate.Pmt.Node
import Mathlib.Data.List.Sort

/-!
# The binary Patricia tree

`BPT` and `Manager` of `smt/pmt`.  Insertions change the tree in memory and note the nodes whose
hash is out of date; `Update` hashes these nodes and what is under them, writes the byte blocks
that have changed, and writes the root.  `NewBPTManager` reads the root again, and the byte blocks
are read when an insertion gets there.

The dirty map of the source is keyed by node keys and holds pointers to nodes.  Here it holds the
place of the node, that is the bits on the way to it.  The nodes at the height of 255 all have the
same node key.  The database holds the settings of the tree and the byte blocks, and does not
fail.
-/

namespace Accumulate.Pmt

open Library
open Protocol (Hash)

/-- The part of the database that belongs to the tree: the settings are under `kBptRoot`, and a
byte block under `kBpt` with the node key of its border node. -/
structure Store where
  settings : Option (List UInt8)
  blocks : Hash → Option (List UInt8)

def Store.empty : Store := ⟨none, fun _ => none⟩

/-- An element of the dirty map: the key of a node and its place. -/
abbrev DirtyNode := Hash × List Bool

/-- A node on the way to a key, as it is noted in the dirty map. -/
def BptNode.dirtyNode (node : BptNode) (key : Hash) : DirtyNode :=
  (node.nodeKey, (bits key).take node.height)

structure Bpt where
  rootHash : Hash
  root : BptNode
  dirtyMap : List DirtyNode
  maxHeight : Nat
  power : Nat
  mask : Nat
  store : Store

namespace Bpt

def newBPT (store : Store) : Bpt where
  rootHash := 0
  root := ⟨0, (getNodeKey 0 0).1, 0, .null, .null⟩
  dirtyMap := []
  maxHeight := 0
  power := 8
  mask := 7
  store := store

def marshal (b : Bpt) : List UInt8 :=
  [UInt8.ofNat b.maxHeight] ++ [UInt8.ofNat (b.power >>> 8), UInt8.ofNat b.power] ++
    [UInt8.ofNat (b.mask >>> 8), UInt8.ofNat b.mask] ++ toBytes b.rootHash

def unmarshal (b : Bpt) (data : List UInt8) : Except String Bpt := do
  let (maxHeight, data) ← takeByte data
  let (powerHigh, data) ← takeByte data
  let (powerLow, data) ← takeByte data
  let (maskHigh, data) ← takeByte data
  let (maskLow, data) ← takeByte data
  let (rootHash, _) ← takeHash data
  pure { b with
    dirtyMap := []
    maxHeight := maxHeight.toNat
    power := (powerHigh.toNat <<< 8) + powerLow.toNat
    mask := (maskHigh.toNat <<< 8) + maskLow.toNat
    rootHash := rootHash }

def newNode (b : Bpt) (key : Hash) (parent : BptNode) : BptNode × Bpt :=
  let height := parent.height + 1
  (⟨height, (getNodeKey height key).1, 0, .null, .null⟩,
    if height > b.maxHeight then { b with maxHeight := height } else b)

def dirty (b : Bpt) : Option DirtyNode → Bpt
  | none => b
  | some node => { b with dirtyMap := node :: b.dirtyMap.filter fun d => d.1 ≠ node.1 }

def clean (b : Bpt) (nodeKey : Hash) : Bpt :=
  { b with dirtyMap := b.dirtyMap.filter fun d => d.1 ≠ nodeKey }

def getDirtyList (b : Bpt) (order : List DirtyNode → List DirtyNode) : List DirtyNode :=
  (order b.dirtyMap).insertionSort fun d d' => d'.2.length ≤ d.2.length

variable (combine : Hash → Hash → Hash)

def loadNode (b : Bpt) (node : BptNode) : Except String BptNode :=
  if node.height &&& b.mask ≠ 0 then
    .error "load should not be called on a node that is not a border node"
  else
    match b.store.blocks node.nodeKey with
    | none => .error "Should have a Byte Block for any persisted BPT"
    | some data => do
        let node ← unmarshalByteBlock b.mask node data
        getNodeHash combine node

def loadNext (b : Bpt) (node : BptNode) : Except String BptNode :=
  if node.left = .notLoaded ∨ node.right = .notLoaded then do
    let node ← b.loadNode combine node
    if node.left = .notLoaded ∨ node.right = .notLoaded then
      .error "We didn't load the node"
    else
      pure node
  else pure node

/-- `insertAtNode`.  The key has no bit at the height of 256. -/
def insertAtNode : (fuel : Nat) → Bpt → BptNode → (key hash : Hash) → Except String (BptNode × Bpt)
  | 0, _, _, _, _ => .error indexOutOfRange
  | fuel + 1, b, node, key, hash => do
      let left := goesLeft node.height key
      let node ← b.loadNext combine node
      match node.child left with
      | .null =>
        pure (node.setChild left (.value key hash), b.dirty (some (node.dirtyNode key)))
      | .node h nk x l r =>
        let (n, b) ← insertAtNode fuel b ⟨h, nk, x, l, r⟩ key hash
        pure (node.setChild left n.entry, b)
      | .value k x =>
        if key = k then
          if x ≠ hash then
            pure (node.setChild left (.value k hash), b.dirty (some (node.dirtyNode key)))
          else
            pure (node, b)
        else
          -- A node takes the place of the value, and both values are inserted there.
          let (nn, b) := b.newNode key node
          let (nn, b) ← insertAtNode fuel b nn key hash
          let (nn, b) ← insertAtNode fuel b nn k x
          pure (node.setChild left nn.entry, b)
      | .notLoaded => .error "interface conversion: pmt.Entry is *pmt.NotLoaded, not *pmt.Value"

def insert (b : Bpt) (key hash : Hash) : Except String Bpt := do
  let (root, b) ← insertAtNode combine 256 b b.root key hash
  pure { b with root := root }

def flushNode (b : Bpt) (node : BptNode) : Except String Bpt :=
  if node.height &&& 7 = 0 then do
    let data ← marshalByteBlock b.mask node
    let store := { b.store with blocks := Function.update b.store.blocks node.nodeKey (some data) }
    if node.height = 0 then
      pure { b with store := { store with settings := some b.marshal } }
    else
      pure { b with store := store }
  else pure b

/-- `Update` writes the byte block of a border node. -/
def flushBorder (b : Bpt) (n : BptNode) : Except String Bpt :=
  if n.height &&& b.mask = 0 then b.flushNode n else pure b

def refresh (b : Bpt) (n : BptNode) (parent : Option DirtyNode) :
    Except String (BptNode × Bpt) := do
  let b ← b.flushBorder n
  let n ← getNodeHash combine n
  pure (n, (b.clean n.nodeKey).dirty parent)

/-- The node at a place, with its parent. -/
def refreshAt (place : List Bool) : Entry → Option DirtyNode → Bpt → Except String (Entry × Bpt)
  | .node h nk hash l r, parent, b =>
    if h = place.length then do
      let (n, b) ← b.refresh combine ⟨h, nk, hash, l, r⟩ parent
      pure (n.entry, b)
    else if place[h]?.getD false then do
      let (l, b) ← refreshAt place l (some (nk, place.take h)) b
      pure (.node h nk hash l r, b)
    else do
      let (r, b) ← refreshAt place r (some (nk, place.take h)) b
      pure (.node h nk hash l r, b)
  | _, _, _ => .error "invalid memory address or nil pointer dereference"

def refreshDirty (b : Bpt) (d : DirtyNode) : Except String Bpt := do
  let (e, b) ← refreshAt combine d.2 b.root.entry none b
  match e with
  | .node h nk hash l r => pure { b with root := ⟨h, nk, hash, l, r⟩ }
  | _ => pure b

/-- One pass of `Update`: the nodes at the greatest height. -/
def updatePass (h : Nat) : List DirtyNode → Bpt → Except String Bpt
  | [], b => pure b
  | d :: list, b =>
    if d.2.length ≠ h then pure b
    else do
      let b ← b.refreshDirty combine d
      updatePass h list b

/-- The loop of `Update`.  The greatest height gets smaller with each pass. -/
def updateLoop (order : List DirtyNode → List DirtyNode) :
    (fuel : Nat) → Bpt → Except String Bpt
  | 0, b => pure b
  | fuel + 1, b =>
    match b.getDirtyList order with
    | [] => pure b
    | d :: list => do
        let b ← updatePass combine d.2.length (d :: list) b
        updateLoop order fuel b

def update (b : Bpt) (order : List DirtyNode → List DirtyNode) : Except String Bpt := do
  let b ← updateLoop combine order 256 b
  let b := { b with rootHash := b.root.hash }
  let b ← b.flushNode b.root
  pure { b with rootHash := b.root.hash }

def newBPTManager (store : Store) : Except String Bpt :=
  let b := newBPT store
  match store.settings with
  | none => pure b
  | some data => do
      let b ← b.unmarshal data
      let root ← b.loadNode combine b.root
      pure { b with root := root }

end Bpt

/-- What can be done with a tree.  An update iterates over a map, in some order. -/
inductive Op where
  | insert (key hash : Hash)
  | update (order : List DirtyNode → List DirtyNode)
  | reload

def Op.run (combine : Hash → Hash → Hash) (b : Bpt) : Op → Except String Bpt
  | .insert key hash => b.insert combine key hash
  | .update order => b.update combine order
  | .reload => Bpt.newBPTManager combine b.store

end Accumulate.Pmt
