import Accumulate.Pmt.Canonical

/-!
# Looking up keys

`Get` and `GetReceipt` follow the bits of a key from the root and load byte blocks on the way.  Both
are determined by the map the tree stands for.  A tree that has been written can be opened again,
unless it is empty: the root of an empty tree has no entries to take its hash from.
-/

namespace Accumulate.Pmt

open Library Smt
open Protocol (Hash)

namespace Bpt

variable (combine : Hash → Hash → Hash)

/-- `Get`: the last node on the way, the entry there, and whether that is the value of the key. -/
def get : (fuel : Nat) → Bpt → BptNode → (key : Hash) →
    Except String (BptNode × BptNode × Option Entry × Bool)
  | 0, _, _, _ => .error indexOutOfRange
  | fuel + 1, b, node, key => do
      let left := goesLeft node.height key
      let node ← b.loadNext combine node
      match node.child left with
      | .null => pure (node, node, none, false)
      | .node h nk x l r =>
        let (n, found) ← get fuel b ⟨h, nk, x, l, r⟩ key
        pure (node.setChild left n.entry, found)
      | .value k x => pure (node, node, some (.value k x), k = key)
      | .notLoaded => .error "Should never reach this point"

/-- `CollectReceipt` loads the entries of a node. -/
def loadEntries (b : Bpt) (node : BptNode) : Except String BptNode :=
  if node.left = .notLoaded ∨ node.right = .notLoaded then b.loadNode combine node else pure node

/-- The bit after the one given by a byte index and a mask. -/
def nextBit (bIdx : Nat) (bit : UInt8) : Nat × UInt8 :=
  if bit >>> 1 = 0 then (bIdx + 1, 0x80) else (bIdx, bit >>> 1)

def addOther (left : Bool) (other : Entry) (receipt : Receipt Hash) : Receipt Hash :=
  match getHash other with
  | some hash => { receipt with entries := receipt.entries ++ [⟨left, hash⟩] }
  | none => receipt

def collectReceipt : (fuel : Nat) → Bpt → Nat × UInt8 → BptNode → (key : Hash) →
    Receipt Hash → Except String (BptNode × Receipt Hash × Option Hash)
  | 0, _, _, _, _, _ => .error indexOutOfRange
  | fuel + 1, b, (bIdx, bit), node, key, receipt => do
      let node ← b.loadEntries combine node
      let left := bit &&& (toBytes key)[bIdx]?.getD 0 != 0
      let other := node.child !left
      match node.child left with
      | .value k x =>
        if k = key then pure (node, addOther left other { receipt with start := x }, some node.hash)
        else pure (node, receipt, none)
      | .node h nk x l r =>
        let (n, receipt, childhash) ←
          collectReceipt fuel b (nextBit bIdx bit) ⟨h, nk, x, l, r⟩ key receipt
        let node := node.setChild left n.entry
        match childhash with
        | none => pure (node, receipt, none)
        | some _ => pure (node, addOther left other receipt, some node.hash)
      | _ => pure (node, receipt, none)

def getReceipt (b : Bpt) (chainID : Hash) : Except String (Bpt × Option (Receipt Hash)) := do
  let (root, receipt, anchor) ←
    collectReceipt combine 256 b (0, 0x80) b.root chainID ⟨0, 0, 0, 0, 0, []⟩
  pure ({ b with root := root }, anchor.map fun anchor => { receipt with anchor := anchor })

end Bpt

section Lookup

variable {combine : Hash → Hash → Hash} {m : Hash → Option Hash} {D : List (List Bool)}
  {p : List Bool} {n : BptNode} {b : Bpt} {key : Hash}

/-- What a lookup finds is what the map has for the key. -/
def Answers (m : Hash → Option Hash) (key : Hash) (entry : Option Entry) (found : Bool) : Prop :=
  found = (m key).isSome ∧ ∀ x, m key = some x → entry = some (.value key x)

theorem get_spec {fuel : Nat} (hfuel : fuel + p.length = 256) (hp : p.length ≤ 254)
    (hmask : b.mask = 7) (hn : NodeAt combine b.store.blocks m D p n) (hkey : Below p key) :
    ∃ n' highest entry found, Bpt.get combine fuel b n key = .ok (n', highest, entry, found) ∧
      Answers m key entry found := by
  induction fuel generalizing p n with
  | zero => omega
  | succ fuel ih =>
    obtain ⟨n₁, hload, -, hopen⟩ := hn.loadNext hmask hp
    have hside := hkey.concat (show p.length < 256 by omega)
    have hchild := hopen.child (key.getMsbD p.length)
    have hlength : (p ++ [key.getMsbD p.length]).length = p.length + 1 := by simp
    rw [Bpt.get, hn.height, goesLeft_eq (by omega), hload, ok_bind]
    cases hentry : n₁.child (key.getMsbD p.length) with
    | notLoaded => exact absurd hentry hchild.ne_notLoaded
    | null =>
      rw [hentry] at hchild
      cases hchild with
      | null _ hnone => exact ⟨_, _, _, _, rfl, by simp [Answers, hnone key hside]⟩
    | value k x =>
      rw [hentry] at hchild
      cases hchild with
      | value _ hk hx hother =>
        refine ⟨_, _, _, _, rfl, ?_⟩
        by_cases hsame : k = key
        · subst hsame
          simp [Answers, hx]
        · simp [Answers, hsame, hother key hside (Ne.symm hsame)]
    | node h nk x l r =>
      rw [hentry] at hchild
      obtain ⟨hle, hnode⟩ := hchild.nodeAt
      obtain ⟨n', highest, entry, found, hrun, hanswers⟩ := ih (by omega) hle hnode hside
      dsimp only
      rw [hrun]
      exact ⟨_, highest, entry, found, rfl, hanswers⟩

/-! ## Receipts -/

def bitMask (height : Nat) : UInt8 := 0x80 >>> UInt8.ofNat (height &&& 7)

theorem nextBit_bitMask (height : Nat) :
    Bpt.nextBit (height >>> 3) (bitMask height) = ((height + 1) >>> 3, bitMask (height + 1)) := by
  have hmask : ∀ j : Fin 8, ((0x80 : UInt8) >>> UInt8.ofNat j >>> 1 = 0 ↔ j.val = 7) ∧
      (j.val ≠ 7 → (0x80 : UInt8) >>> UInt8.ofNat j >>> 1 = 0x80 >>> UInt8.ofNat (j + 1)) := by
    decide
  obtain ⟨hzero, hshift⟩ := hmask ⟨height % 8, by omega⟩
  unfold Bpt.nextBit bitMask
  rw [height_and_seven, height_and_seven, Nat.shiftRight_eq_div_pow, Nat.shiftRight_eq_div_pow]
  by_cases hlast : height % 8 = 7
  · rw [if_pos (hzero.2 hlast), (by omega : (height + 1) % 8 = 0),
      (by omega : (height + 1) / 2 ^ 3 = height / 2 ^ 3 + 1)]
    rfl
  · rw [if_neg (mt hzero.1 hlast), hshift hlast, (by omega : (height + 1) % 8 = height % 8 + 1),
      (by omega : (height + 1) / 2 ^ 3 = height / 2 ^ 3)]

theorem loadEntries_of_loadNext {n' : BptNode} (h : b.loadNext combine n = .ok n') :
    b.loadEntries combine n = .ok n' := by
  unfold Bpt.loadNext at h
  unfold Bpt.loadEntries
  split at h
  · rename_i hcond
    rw [if_pos hcond]
    cases hload : b.loadNode combine n with
    | error e => rw [hload] at h; cases h
    | ok n₁ =>
      rw [hload, ok_bind] at h
      split at h
      · cases h
      · exact h
  · rename_i hcond
    rwa [if_neg hcond]

theorem digest_of_side (hp : p.length < 256) (c : Bool) {y : Hash}
    (hy : digest combine m (p ++ [c]) = some y) :
    digest combine m p = some (match digest combine m (p ++ [!c]) with
      | some z => ReceiptEntry.apply combine ⟨c, z⟩ y
      | none => y) := by
  rw [digest_of_length_lt hp]
  cases c <;> cases hz : digest combine m (p ++ [!_]) <;>
    simp_all [join, ReceiptEntry.apply]

theorem addOther_spec (combine : Hash → Hash → Hash) (left : Bool) (other : Entry)
    (receipt : Receipt Hash) :
    (Bpt.addOther left other receipt).start = receipt.start ∧
      ∃ es, (Bpt.addOther left other receipt).entries = receipt.entries ++ es ∧
        ∀ y, applyEntries combine es y = match getHash other with
          | some z => ReceiptEntry.apply combine ⟨left, z⟩ y
          | none => y := by
  unfold Bpt.addOther
  cases getHash other with
  | none => exact ⟨rfl, [], (List.append_nil _).symm, fun _ => rfl⟩
  | some z => exact ⟨rfl, [⟨left, z⟩], rfl, fun _ => rfl⟩

theorem collectReceipt_spec {fuel : Nat} (hfuel : fuel + p.length = 256) (hp : p.length ≤ 254)
    (hmask : b.mask = 7) (hn : NodeAt combine b.store.blocks m [] p n) (hkey : Below p key)
    (hhash : ∀ y, digest combine m p = some y → n.hash = y) (receipt : Receipt Hash) :
    ∃ n' r anchor,
      Bpt.collectReceipt combine fuel b (p.length >>> 3, bitMask p.length) n key receipt =
        .ok (n', r, anchor) ∧ n'.hash = n.hash ∧ (m key = none → anchor = none) ∧
      ∀ x, m key = some x → anchor = some n.hash ∧ r.start = x ∧
        ∃ es, r.entries = receipt.entries ++ es ∧ applyEntries combine es x = n.hash := by
  induction fuel generalizing p n receipt with
  | zero => omega
  | succ fuel ih =>
    obtain ⟨n₁, hload, hsame, hopen⟩ := hn.loadNext hmask hp
    have hclean : ∀ p, CleanAt [] p := nofun
    have hside := hkey.concat (show p.length < 256 by omega)
    have hchild := hopen.child (key.getMsbD p.length)
    have hother := (hopen.child (!key.getMsbD p.length)).getHash_eq (by simp; omega) (hclean _)
    have hlength : (p ++ [key.getMsbD p.length]).length = p.length + 1 := by simp
    have hgoes : (bitMask p.length &&& (toBytes key)[p.length >>> 3]?.getD 0 != 0) =
        key.getMsbD p.length := goesLeft_eq (by omega) key
    rw [Bpt.collectReceipt, loadEntries_of_loadNext hload, ok_bind, hgoes]
    dsimp only
    generalize key.getMsbD p.length = c at *
    cases hentry : n₁.child c with
    | notLoaded => exact absurd hentry hchild.ne_notLoaded
    | null =>
      rw [hentry] at hchild
      cases hchild with
      | null _ hnone =>
        exact ⟨_, _, _, rfl, hsame, fun _ => rfl, fun x hx => by simp [hnone key hside] at hx⟩
    | value k x =>
      rw [hentry] at hchild
      have hy := hchild.getHash_eq (by omega) (hclean _)
      cases hchild with
      | value _ hk hx hnone =>
        dsimp only
        by_cases hsame' : k = key
        · subst hsame'
          have hdigest := hhash _ (digest_of_side (by omega) c hy.symm)
          rw [if_pos rfl]
          refine ⟨_, _, _, rfl, hsame, fun h => by simp [h] at hx, ?_⟩
          intro x' hx'
          obtain rfl : x = x' := Option.some.inj (hx.symm.trans hx')
          obtain ⟨hstart, es, hentries, hes⟩ := addOther_spec combine c (n₁.child !c)
            { receipt with start := x }
          exact ⟨by rw [hsame], hstart, es, hentries, by rw [hes, hother, hdigest]⟩
        · rw [if_neg hsame']
          have habsent := hnone key hside (Ne.symm hsame')
          exact ⟨_, _, _, rfl, hsame, fun _ => rfl, fun x' hx' => by simp [habsent] at hx'⟩
    | node h nk x l r =>
      rw [hentry] at hchild
      obtain ⟨hle, hnode⟩ := hchild.nodeAt
      have hy := (hchild.upToDate (hclean _)).1
      have hdigest := hhash _ (digest_of_side (by omega) c hy)
      obtain ⟨n', r', anchor, hrun, hhash', habsent, hfound⟩ :=
        ih (by omega) hle hnode hside (fun y hy' => Option.some.inj (hy.symm.trans hy')) receipt
      rw [hlength] at hrun
      dsimp only
      rw [nextBit_bitMask, hrun, ok_bind]
      dsimp only
      cases hkey : m key with
      | none =>
        rw [habsent hkey]
        exact ⟨_, _, _, rfl, by rw [setChild_hash, hsame], fun _ => rfl, nofun⟩
      | some x' =>
        obtain ⟨rfl, hstart', es', hentries', hes'⟩ := hfound x' hkey
        obtain ⟨hstart, es, hentries, hes⟩ := addOther_spec combine c (n₁.child !c) r'
        refine ⟨_, _, _, rfl, by rw [setChild_hash, hsame], nofun, ?_⟩
        rintro _ ⟨⟩
        refine ⟨by rw [setChild_hash, hsame], hstart.trans hstart', es' ++ es, ?_, ?_⟩
        · rw [hentries, hentries', List.append_assoc]
        · rw [applyEntries_append, hes', hes, hother, hdigest]

/-! ## Runs -/

variable {ops : List Op} {order : List DirtyNode → List DirtyNode}

theorem Holds.get {K : List Hash} {c : Contents} (h : Holds combine K b c) (key : Hash) :
    ∃ root highest entry found,
      b.get combine 256 b.root key = .ok (root, highest, entry, found) ∧
        Answers c.current key entry found := by
  obtain ⟨D, hstands⟩ := h.tree
  exact get_spec rfl (Nat.zero_le _) hstands.mask (.opened hstands.root) (below_nil key)

/-- What an operation means for the hash that was inserted last for a key. -/
def Op.last (key : Hash) (last : Option Hash) : Op → Option Hash
  | .insert k hash => if k = key then some hash else last
  | _ => last

/-- The hash of the last insertion of a key. -/
def lastInsert (ops : List Op) (key : Hash) : Option Hash := ops.foldl (Op.last key) none

/-- Nothing has been inserted between the last update and a reload. -/
def Settled : Contents → List Op → Prop
  | _, [] => True
  | c, op :: ops => (op = .reload → c.current = c.saved) ∧ Settled (op.apply c) ops

theorem current_of_settled {c : Contents} (h : Settled c ops) (key : Hash) :
    (ops.foldl Op.apply c).current key = ops.foldl (Op.last key) (c.current key) := by
  induction ops generalizing c with
  | nil => rfl
  | cons op ops ih =>
    have hop : (op.apply c).current key = op.last key (c.current key) := by
      cases op with
      | insert k hash => simp [Op.apply, Op.last, Function.update_apply, eq_comm]
      | update order => rfl
      | reload => exact (congrFun (h.1 rfl) key).symm
    rw [List.foldl_cons, List.foldl_cons, ih h.2, hop]

/-- `Get` finds the hash of the last insertion. -/
theorem get_eq_lastInsert (hkeys : SeparatedKeys (insertedKeys ops))
    (hops : Admissible Contents.empty ops) (hsettled : Settled Contents.empty ops) (key : Hash) :
    ∃ b root highest entry found, run combine ops = .ok b ∧
      b.get combine 256 b.root key = .ok (root, highest, entry, found) ∧
        found = (lastInsert ops key).isSome ∧
          ∀ hash, lastInsert ops key = some hash → entry = some (.value key hash) := by
  obtain ⟨b, hrun, h⟩ := (holds_empty combine (insertedKeys ops)).run hkeys (fun _ hk => hk) hops
  obtain ⟨root, highest, entry, found, hget, hanswers⟩ := h.get key
  unfold Answers at hanswers
  rw [current_of_settled hsettled] at hanswers
  exact ⟨b, root, highest, entry, found, hrun, hget, hanswers⟩

theorem Saved.eq_null {blocks : Hash → Option (List UInt8)} {e : Entry}
    (h : Saved combine blocks m p e) (hm : ∀ k, m k = none) : e = .null := by
  cases h with
  | null => rfl
  | value _ hx => rw [hm] at hx; cases hx
  | node hlength _ hx | border hlength _ hx =>
    obtain ⟨k, -, hk⟩ := exists_ne_none hlength hx
    exact absurd (hm k) hk

theorem newBPTManager_empty {store : Store} {b₀ : Bpt} (hmask : b₀.mask = 7)
    (hsettings : store.settings = some b₀.marshal) (hblock : BlockSaved combine store.blocks m [])
    (hm : ∀ k, m k = none) :
    Bpt.newBPTManager combine store = .error "dead nodes should not exist" := by
  obtain ⟨b₁, hrun, hmask₁, -, hroot, hstore, -⟩ := unmarshal_marshal hmask (Bpt.newBPT store)
  obtain ⟨l, r, hdata, hl, hr⟩ := hblock
  rw [hl.eq_null hm, hr.eq_null hm] at hdata
  have hdata' : b₁.store.blocks b₁.root.nodeKey =
      some (marshalEntry 7 .null ++ marshalEntry 7 .null) := by
    rw [hstore, hroot, newBPT_nodeKey]
    exact hdata
  have hborder : b₁.root.height &&& 7 = 0 := by rw [hroot]; exact Nat.zero_and 7
  unfold Bpt.newBPTManager
  rw [hsettings]
  dsimp only
  rw [hrun, ok_bind, Bpt.loadNode, hmask₁, if_neg (not_not.2 hborder), hdata']
  dsimp only
  rw [unmarshalByteBlock_eq (l := .null) (r := .null) hborder trivial trivial]
  rfl

theorem newBPTManager_rootHash {store : Store} {b₀ b' : Bpt} (hmask : b₀.mask = 7)
    (hsettings : store.settings = some b₀.marshal)
    (h : Bpt.newBPTManager combine store = .ok b') : b'.rootHash = b₀.rootHash := by
  obtain ⟨b₁, hrun, -, -, -, -, hhash⟩ := unmarshal_marshal hmask (Bpt.newBPT store)
  unfold Bpt.newBPTManager at h
  rw [hsettings] at h
  dsimp only at h
  rw [hrun, ok_bind] at h
  cases hload : b₁.loadNode combine b₁.root with
  | error e => rw [hload] at h; cases h
  | ok root =>
    rw [hload] at h
    cases h
    exact hhash

/-- Two trees give the same answer for every key. -/
def SameGet (combine : Hash → Hash → Hash) (b b' : Bpt) : Prop :=
  ∀ key, ∃ root root' highest highest' entry entry' found,
    b.get combine 256 b.root key = .ok (root, highest, entry, found) ∧
      b'.get combine 256 b'.root key = .ok (root', highest', entry', found) ∧
        (found = true → entry = entry')

/-- After an update there is a receipt for every key of the tree, and for no other key. -/
theorem receipt_of_update (hkeys : SeparatedKeys (insertedKeys ops))
    (hops : Admissible Contents.empty ops) (horder : ∀ l, (order l).Perm l) (key : Hash) :
    ∃ b b' receipt, run combine (ops ++ [.update order]) = .ok b ∧
      b.getReceipt combine key = .ok (b', receipt) ∧
        match (ops.foldl Op.apply Contents.empty).current key with
        | none => receipt = none
        | some hash => ∃ r, receipt = some r ∧ r.validate combine = true ∧ r.start = hash ∧
            r.anchor = b.rootHash := by
  obtain ⟨b₀, hrun, h⟩ := (holds_empty combine (insertedKeys ops)).run hkeys (fun _ hk => hk) hops
  obtain ⟨D, hstands⟩ := h.tree
  obtain ⟨b, hupdate, hb, hroot, -⟩ := hstands.update horder
  have hhash := hb.rootHash rfl
  obtain ⟨n, r, anchor, hcollect, -, habsent, hfound⟩ := collectReceipt_spec rfl
    (Nat.zero_le _) hb.mask (.opened hb.root) (below_nil key)
    (fun y hy => by rw [hhash, hy]; rfl) ⟨0, 0, 0, 0, 0, []⟩
  have hget : b.getReceipt combine key =
      .ok ({ b with root := n }, anchor.map fun anchor => { r with anchor := anchor }) := by
    unfold Bpt.getReceipt
    rw [show Bpt.collectReceipt combine 256 b (0, 0x80) b.root key _ = _ from hcollect]
    rfl
  refine ⟨b, _, _, run_update hrun hupdate, hget, ?_⟩
  cases hkey : (ops.foldl Op.apply Contents.empty).current key with
  | none =>
    rw [habsent hkey]
    rfl
  | some x =>
    obtain ⟨rfl, hstart, es, hentries, hes⟩ := hfound x hkey
    refine ⟨_, rfl, ?_, hstart, hhash.trans hroot.symm⟩
    simp [Receipt.validate, hentries, hstart, hes]

end Lookup

/-- Two keys that go into one node, with a reload between the insertions. -/
def twoKeyOps : List Op :=
  [.insert (sampleKey 0xff) 1, .update id, .reload, .insert (sampleKey 0xfe) 2,
    .insert (sampleKey 0xff) 4]

/-- What `Get` finds for a key after these operations. -/
def Finds (key : Hash) (value : Option Hash) : Prop :=
  ∃ b root highest entry found, run (fun l r => l + 3 * r) twoKeyOps = .ok b ∧
    b.get (fun l r => l + 3 * r) 256 b.root key = .ok (root, highest, entry, found) ∧
      found = value.isSome ∧ ∀ hash, value = some hash → entry = some (.value key hash)

theorem get_eq_lastInsert_two :
    Finds (sampleKey 0xff) (some 4) ∧ Finds (sampleKey 0xfe) (some 2) ∧
      Finds (sampleKey 5) none := by
  have hsubset : insertedKeys twoKeyOps ⊆ insertedKeys sampleOps := by decide +kernel
  have hkeys : SeparatedKeys (insertedKeys twoKeyOps) := fun k hk k' hk' =>
    separatedKeys_sampleOps k (hsubset hk) k' (hsubset hk')
  have hlast : lastInsert twoKeyOps (sampleKey 0xff) = some 4 ∧
      lastInsert twoKeyOps (sampleKey 0xfe) = some 2 ∧
        lastInsert twoKeyOps (sampleKey 5) = none := by
    decide +kernel
  have hget : ∀ key, Finds key (lastInsert twoKeyOps key) := get_eq_lastInsert hkeys
    ⟨trivial, List.Perm.refl, ⟨sampleKey 0xff, by simp [Op.apply]⟩, trivial, trivial, trivial⟩
    ⟨nofun, nofun, fun _ => rfl, nofun, nofun, trivial⟩
  exact ⟨hlast.1 ▸ hget _, hlast.2.1 ▸ hget _, hlast.2.2 ▸ hget _⟩

theorem receipt_of_update_sample :
    ∃ b b' r, run (fun l r => l + 3 * r) (sampleOps ++ [.update id]) = .ok b ∧
      b.getReceipt (fun l r => l + 3 * r) (sampleKey 0xff) = .ok (b', some r) ∧ r.start = 4 := by
  obtain ⟨b, b', receipt, hrun, hget, hreceipt⟩ := receipt_of_update separatedKeys_sampleOps
    admissible_sampleOps (fun l => List.Perm.refl (id l)) (sampleKey 0xff)
  simp only [sampleOps, List.foldl_cons, List.foldl_nil, Op.apply, Function.update_self] at hreceipt
  obtain ⟨r, rfl, -, hstart, -⟩ := hreceipt
  exact ⟨b, b', r, hrun, hget, hstart⟩

end Accumulate.Pmt
