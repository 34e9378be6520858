import Accumulate.Pmt.Update

/-!
# The root hash is canonical

Whatever is done with a tree (insertions, updates and reloads from the database, in any order), the
root hash after an update is the digest of the map from keys to hashes.
-/

namespace Accumulate.Pmt

open Library
open Protocol (Hash)

/-! ## The map behind a tree -/

/-- The map of the tree in memory, and the one of the tree in the database. -/
structure Contents where
  current : Hash → Option Hash
  saved : Hash → Option Hash

def Contents.empty : Contents := ⟨fun _ => none, fun _ => none⟩

/-- What an operation means for the maps: a reload goes back to the last update. -/
def Op.apply (c : Contents) : Op → Contents
  | .insert key hash => { c with current := Function.update c.current key (some hash) }
  | .update _ => { c with saved := c.current }
  | .reload => { c with current := c.saved }

/-- The hash of a map; it is zero for the empty map. -/
def reference (combine : Hash → Hash → Hash) (m : Hash → Option Hash) : Hash :=
  (digest combine m []).getD 0

/-- An update iterates over all of the map, and a reload follows an update of a tree that was not
empty. -/
def Op.Admissible (c : Contents) : Op → Prop
  | .insert _ _ => True
  | .update order => ∀ l, (order l).Perm l
  | .reload => ∃ k, c.saved k ≠ none

def Admissible : Contents → List Op → Prop
  | _, [] => True
  | c, op :: ops => op.Admissible c ∧ Admissible (op.apply c) ops

def insertedKeys : List Op → List Hash
  | [] => []
  | .insert key _ :: ops => key :: insertedKeys ops
  | .update _ :: ops => insertedKeys ops
  | .reload :: ops => insertedKeys ops

def run (combine : Hash → Hash → Hash) (ops : List Op) : Except String Bpt := do
  let b ← Bpt.newBPTManager combine Store.empty
  ops.foldlM (Op.run combine) b

section Canonical

variable {combine : Hash → Hash → Hash} {b : Bpt} {c : Contents} {K : List Hash} {ops : List Op}
  {order : List DirtyNode → List DirtyNode}

/-- The keys differ in one of their first 255 bits. -/
def SeparatedKeys (K : List Hash) : Prop :=
  ∀ k ∈ K, ∀ k' ∈ K, (bits k).take 255 = (bits k').take 255 → k = k'

/-- The tree and the database stand for the maps. -/
structure Holds (combine : Hash → Hash → Hash) (K : List Hash) (b : Bpt) (c : Contents) : Prop where
  tree : ∃ D, Stands combine b c.current D
  database : (∃ k, c.saved k ≠ none) → BlockSaved combine b.store.blocks c.saved [] ∧
    ∃ b₀ : Bpt, b₀.mask = 7 ∧ b.store.settings = some b₀.marshal
  currentKeys : ∀ k, c.current k ≠ none → k ∈ K
  savedKeys : ∀ k, c.saved k ≠ none → k ∈ K

theorem newBPT_nodeKey (store : Store) : (Bpt.newBPT store).root.nodeKey = pathKey [] := by
  have hkey := getNodeKey_eq (Nat.zero_le 254) 0
  rw [List.take_zero] at hkey
  simp only [Bpt.newBPT, hkey]

theorem holds_empty (combine : Hash → Hash → Hash) (K : List Hash) :
    Holds combine K (Bpt.newBPT Store.empty) Contents.empty := by
  have hclean : ∀ p, CleanAt [] p := nofun
  have hnone : digest combine (fun _ : Hash => none) [] = none :=
    (digest_eq_none_iff (Nat.zero_le _)).2 fun _ _ => rfl
  refine ⟨⟨[], rfl, rfl, List.nodup_nil, nofun,
    ⟨rfl, newBPT_nodeKey _, ?_, ?_⟩, fun _ => ?_, fun h => ?_⟩,
    ?_, fun k hk => absurd rfl hk, fun k hk => absurd rfl hk⟩
  · exact .null (hclean _) fun _ _ => rfl
  · exact .null (hclean _) fun _ _ => rfl
  · show (0 : Hash) = (digest combine (fun _ : Hash => none) []).getD 0
    rw [hnone, Option.getD_none]
  · exact absurd rfl h
  · rintro ⟨k, hk⟩
    exact absurd rfl hk

/-! ## Steps -/

theorem Holds.insert (h : Holds combine K b c) (hK : SeparatedKeys K) {key : Hash} (hkey : key ∈ K)
    (hash : Hash) : ∃ b', b.insert combine key hash = .ok b' ∧
      Holds combine K b' ((Op.insert key hash).apply c) := by
  obtain ⟨D, hstands⟩ := h.tree
  have hkeys : ∀ k, Function.update c.current key (some hash) k ≠ none → k ∈ K := by
    intro k hk
    by_cases heq : k = key
    · rwa [heq]
    · rw [Function.update_of_ne heq] at hk
      exact h.currentKeys k hk
  have hsep : Separated (Function.update c.current key (some hash)) := fun k k' hk hk' =>
    hK k (hkeys k hk) k' (hkeys k' hk')
  obtain ⟨n', b', D', hrun, hins⟩ := insertAtNode_spec rfl (Nat.zero_le _) hstands.mask
    hstands.dirtyMap hstands.length_le (.opened hstands.root) (below_nil key) hsep
  have hstore : b'.store = b.store := by rw [hins.same]
  refine ⟨{ b' with root := n' }, ?_, ⟨D', ?_⟩, ?_, hkeys, h.savedKeys⟩
  · unfold Bpt.insert
    rw [hrun]
    rfl
  · constructor
    · rw [hins.same, hstands.mask]
    · exact hins.dirtyMap
    · exact hins.nodup hstands.nodup
    · exact fun q hq => (hins.new q hq).elim (hstands.length_le q) And.right
    · rw [hstore]
      exact hins.node
    · -- Nothing is dirty only if nothing has changed.
      rintro rfl
      rcases hins.change with ⟨hD, hsame⟩ | ⟨q, hq, -⟩
      · have hmap : ((Op.insert key hash).apply c).current = c.current := by
          show Function.update c.current key (some hash) = c.current
          rw [← hsame, Function.update_eq_self]
        rw [hmap, hins.hash_eq, hstands.rootHash hD.symm]
      · contradiction
    · intro _
      refine ⟨key, ?_⟩
      show Function.update c.current key (some hash) key ≠ none
      rw [Function.update_self]
      exact Option.some_ne_none hash
  · rw [hstore]
    exact h.database

theorem Holds.update (h : Holds combine K b c) (horder : ∀ l, (order l).Perm l) :
    ∃ b', b.update combine order = .ok b' ∧ b'.rootHash = reference combine c.current ∧
      Holds combine K b' ((Op.update order).apply c) := by
  obtain ⟨D, hstands⟩ := h.tree
  obtain ⟨b', hrun, hstands', hroot, hblock, b₀, hmask, -, hsettings⟩ := hstands.update horder
  exact ⟨b', hrun, hroot, ⟨[], hstands'⟩, fun _ => ⟨hblock, b₀, hmask, hsettings⟩, h.currentKeys,
    h.currentKeys⟩

theorem unmarshal_marshal {b₀ : Bpt} (hmask : b₀.mask = 7) (b : Bpt) :
    ∃ b', b.unmarshal b₀.marshal = .ok b' ∧ b'.mask = 7 ∧ b'.dirtyMap = [] ∧ b'.root = b.root ∧
      b'.store = b.store ∧ b'.rootHash = b₀.rootHash := by
  have hhash := takeHash_append b₀.rootHash []
  rw [List.append_nil] at hhash
  unfold Bpt.unmarshal Bpt.marshal
  simp only [hmask, List.cons_append, List.nil_append, takeByte, ok_bind, hhash]
  exact ⟨_, rfl, rfl, rfl, rfl, rfl, rfl⟩

theorem Holds.reload (h : Holds combine K b c) (hne : ∃ k, c.saved k ≠ none) :
    ∃ b', Bpt.newBPTManager combine b.store = .ok b' ∧ Holds combine K b' (Op.reload.apply c) := by
  obtain ⟨hblock, b₀, hmask, hsettings⟩ := h.database hne
  have hclean : ∀ p, CleanAt [] p := nofun
  obtain ⟨x, hx⟩ : ∃ x, digest combine c.saved [] = some x := by
    obtain ⟨k, hk⟩ := hne
    rw [← Option.ne_none_iff_exists']
    intro hnone
    exact hk ((digest_eq_none_iff (Nat.zero_le _)).1 hnone k (below_nil k))
  obtain ⟨b₁, hrun, hmask₁, hdirty, hroot, hstore, -⟩ :=
    unmarshal_marshal hmask (Bpt.newBPT b.store)
  have hstore : b₁.store = b.store := hstore
  have hheight : b₁.root.height = ([] : List Bool).length := by rw [hroot]; rfl
  have hnode : b₁.root.nodeKey = pathKey [] := by rw [hroot, newBPT_nodeKey]
  rw [← hstore] at hblock
  obtain ⟨l, r, hload, hl, hr⟩ := loadNode_eq hmask₁ (Nat.zero_le _) rfl hheight hnode (hclean [])
    hx hblock
  refine ⟨{ b₁ with root := ⟨b₁.root.height, b₁.root.nodeKey, x, l, r⟩ }, ?_, ⟨[], ?_⟩, ?_,
    h.savedKeys, h.savedKeys⟩
  · unfold Bpt.newBPTManager
    rw [hsettings]
    dsimp only
    rw [hrun, ok_bind, hload]
    rfl
  · refine ⟨hmask₁, hdirty, List.nodup_nil, nofun, ⟨hheight, hnode, hl, hr⟩, fun _ => ?_,
      fun h => absurd rfl h⟩
    show x = (digest combine c.saved []).getD 0
    rw [hx, Option.getD_some]
  · intro _
    refine ⟨hblock, b₀, hmask, ?_⟩
    rw [hstore, hsettings]

/-! ## Runs -/

theorem Holds.run (h : Holds combine K b c) (hK : SeparatedKeys K)
    (hkeys : ∀ k ∈ insertedKeys ops, k ∈ K) (hops : Admissible c ops) :
    ∃ b', ops.foldlM (Op.run combine) b = .ok b' ∧ Holds combine K b' (ops.foldl Op.apply c) := by
  induction ops generalizing b c with
  | nil => exact ⟨b, rfl, h⟩
  | cons op ops ih =>
    obtain ⟨hop, hops⟩ := hops
    obtain ⟨b₁, hrun, h₁⟩ : ∃ b₁, op.run combine b = .ok b₁ ∧ Holds combine K b₁ (op.apply c) := by
      cases op with
      | insert key hash => exact h.insert hK (hkeys key List.mem_cons_self) hash
      | update order =>
        obtain ⟨b₁, hrun, -, h₁⟩ := h.update hop
        exact ⟨b₁, hrun, h₁⟩
      | reload => exact h.reload hop
    have hrest : ∀ k ∈ insertedKeys ops, k ∈ K := by
      intro k hk
      apply hkeys
      cases op with
      | insert key hash => exact List.mem_cons_of_mem key hk
      | update order | reload => exact hk
    obtain ⟨b', hrest', h'⟩ := ih h₁ hrest hops
    refine ⟨b', ?_, h'⟩
    rw [List.foldlM_cons, hrun]
    exact hrest'

theorem run_update {b' : Bpt} (hrun : run combine ops = .ok b)
    (hupdate : b.update combine order = .ok b') :
    run combine (ops ++ [.update order]) = .ok b' := by
  have hnew : ∀ ops, run combine ops = ops.foldlM (Op.run combine) (Bpt.newBPT Store.empty) :=
    fun _ => rfl
  rw [hnew] at hrun ⊢
  rw [List.foldlM_append, hrun]
  show (b.update combine order >>= _) = _
  rw [hupdate]
  rfl

/-- After an update the root hash is the reference hash of the map. -/
theorem run_update_rootHash {ops : List Op} (hkeys : SeparatedKeys (insertedKeys ops))
    (hops : Admissible Contents.empty ops) {order : List DirtyNode → List DirtyNode}
    (horder : ∀ l, (order l).Perm l) :
    ∃ b, run combine (ops ++ [.update order]) = .ok b ∧
      b.rootHash = reference combine (ops.foldl Op.apply Contents.empty).current := by
  obtain ⟨b, hrun, h⟩ := (holds_empty combine (insertedKeys ops)).run hkeys (fun _ hk => hk) hops
  obtain ⟨b', hupdate, hroot, -⟩ := h.update horder
  exact ⟨b', run_update hrun hupdate, hroot⟩

end Canonical

def sampleKey (byte : Nat) : Hash := BitVec.ofNat 256 (byte * 2 ^ 248)

/-- Two keys that go into one node, an update and a reload between them, and a key whose insertion
is lost in a reload. -/
def sampleOps : List Op :=
  [.insert (sampleKey 0xff) 1, .update id, .reload, .insert (sampleKey 0xfe) 2,
    .update List.reverse, .insert (sampleKey 5) 3, .reload, .insert (sampleKey 0xff) 4]

theorem getMsbD_of_take_eq {k k' : Hash} (h : (bits k).take 255 = (bits k').take 255) {i : Nat}
    (hi : i < 255) : k.getMsbD i = k'.getMsbD i := by
  have hget : ((bits k).take 255)[i]? = ((bits k').take 255)[i]? := by rw [h]
  rw [List.getElem?_take_of_lt hi, List.getElem?_take_of_lt hi, getElem?_bits (by omega),
    getElem?_bits (by omega)] at hget
  exact Option.some_inj.1 hget

theorem separatedKeys_sampleOps : SeparatedKeys (insertedKeys sampleOps) := by
  -- The first and the eighth bit tell the keys apart.
  have hbits : ∀ i j : Fin (insertedKeys sampleOps).length,
      ((insertedKeys sampleOps).get i).getMsbD 0 = ((insertedKeys sampleOps).get j).getMsbD 0 →
      ((insertedKeys sampleOps).get i).getMsbD 7 = ((insertedKeys sampleOps).get j).getMsbD 7 →
        (insertedKeys sampleOps).get i = (insertedKeys sampleOps).get j := by
    decide +kernel
  intro k hk k' hk' htake
  obtain ⟨i, rfl⟩ := List.mem_iff_get.1 hk
  obtain ⟨j, rfl⟩ := List.mem_iff_get.1 hk'
  exact hbits i j (getMsbD_of_take_eq htake (by omega)) (getMsbD_of_take_eq htake (by omega))

theorem admissible_sampleOps : Admissible Contents.empty sampleOps := by
  refine ⟨trivial, List.Perm.refl, ⟨sampleKey 0xff, ?_⟩, trivial, List.reverse_perm, trivial,
    ⟨sampleKey 0xfe, ?_⟩, trivial, trivial⟩
  · simp [Op.apply]
  · simp [Op.apply]

theorem run_update_rootHash_sample :
    ∃ b, run (fun l r => l + 3 * r) (sampleOps ++ [.update List.reverse]) = .ok b ∧
      b.rootHash = reference (fun l r => l + 3 * r)
        (sampleOps.foldl Op.apply Contents.empty).current :=
  run_update_rootHash separatedKeys_sampleOps admissible_sampleOps List.reverse_perm

end Accumulate.Pmt
