import Accumulate.Pmt.Tree

/-!
# Insertion

Inserting a value into a tree changes the map the tree stands for at one key.  The nodes that are
marked dirty are at or below the node where the insertion starts, and something is marked dirty
unless the key had the hash before.
-/

namespace Accumulate.Pmt

open Library
open Protocol (Hash)

section Insert

variable (combine : Hash → Hash → Hash) (blocks : Hash → Option (List UInt8))
  (m : Hash → Option Hash) (D : List (List Bool))

/-- A node whose entries are loaded. -/
structure OpenNode (p : List Bool) (n : BptNode) : Prop where
  height : n.height = p.length
  nodeKey : n.nodeKey = pathKey p
  left : Loaded combine blocks m D (p ++ [true]) n.left
  right : Loaded combine blocks m D (p ++ [false]) n.right

/-- A node whose entries are loaded or are in the database. -/
inductive NodeAt : List Bool → BptNode → Prop where
  | opened {p : List Bool} {n : BptNode} (h : OpenNode combine blocks m D p n) : NodeAt p n
  | stub {p : List Bool} {x : Hash} (hborder : p.length % 8 = 0)
      (hclean : CleanAt D p) (hx : digest combine m p = some x)
      (hblock : BlockSaved combine blocks m p) :
      NodeAt p ⟨p.length, pathKey p, x, .notLoaded, .notLoaded⟩

variable {combine blocks m D} {blocks' : Hash → Option (List UInt8)} {m' : Hash → Option Hash}
  {D' : List (List Bool)} {p : List Bool} {n : BptNode} {b : Bpt} {key hash : Hash}

variable {x : Hash} {h : Nat} {nk : Hash} {l r : Entry}

theorem Loaded.nodeAt (hloaded : Loaded combine blocks m D p (.node h nk x l r)) :
    p.length ≤ 254 ∧ NodeAt combine blocks m D p ⟨h, nk, x, l, r⟩ := by
  cases hloaded with
  | node hlength _ _ hl hr => exact ⟨hlength, .opened ⟨rfl, rfl, hl, hr⟩⟩
  | stub hlength hborder hclean hx hblock => exact ⟨hlength, .stub hborder hclean hx hblock⟩

theorem Loaded.upToDate
    (hloaded : Loaded combine blocks m D p (.node h nk x l r)) (hclean : CleanAt D p) :
    digest combine m p = some x ∧ (p.length % 8 = 0 → BlockSaved combine blocks m p) := by
  cases hloaded with
  | node _ _ hx => exact hx hclean
  | stub _ _ _ hx hblock => exact ⟨hx, fun _ => hblock⟩

theorem NodeAt.height (h : NodeAt combine blocks m D p n) : n.height = p.length := by
  cases h with
  | opened h => exact h.height
  | stub => rfl

theorem OpenNode.child (h : OpenNode combine blocks m D p n) (c : Bool) :
    Loaded combine blocks m D (p ++ [c]) (n.child c) := by
  cases c with
  | true => exact h.left
  | false => exact h.right

variable {c : Bool} {b' : Bpt} {k : Hash} {e : Entry} {q : List Bool}

/-- Replace one of the entries of a node, where only things below that entry change. -/
theorem OpenNode.setChild (h : OpenNode combine blocks m D p n)
    (he : Loaded combine blocks' m' D' (p ++ [c]) e) (hm : ∀ k, Below (p ++ [!c]) k → m k = m' k)
    (hblocks : SameBlocks blocks blocks' (p ++ [!c])) (hdirty : SameDirty D D' (p ++ [!c])) :
    OpenNode combine blocks' m' D' p (n.setChild c e) := by
  have hother := (h.child (!c)).congr hm hblocks hdirty
  cases c with
  | true => exact ⟨h.height, h.nodeKey, he, hother⟩
  | false => exact ⟨h.height, h.nodeKey, hother, he⟩

theorem setChild_hash (n : BptNode) (c : Bool) (e : Entry) : (n.setChild c e).hash = n.hash := by
  cases c <;> rfl

/-! ## Loading -/

theorem loadNode_eq (hmask : b.mask = 7) (hlength : p.length ≤ 254) (hborder : p.length % 8 = 0)
    (hheight : n.height = p.length) (hkey : n.nodeKey = pathKey p) (hclean : CleanAt D p)
    (hx : digest combine m p = some x) (hblock : BlockSaved combine b.store.blocks m p) :
    ∃ l r, b.loadNode combine n = .ok ⟨n.height, n.nodeKey, x, l, r⟩ ∧
      Loaded combine b.store.blocks m D (p ++ [true]) l ∧
      Loaded combine b.store.blocks m D (p ++ [false]) r := by
  obtain ⟨l, r, hdata, hl, hr⟩ := hblock
  have hl' := hl.loaded (hclean.concat true)
  have hr' := hr.loaded (hclean.concat false)
  have hand : n.height &&& 7 = 0 := by rw [height_and_seven, hheight, hborder]
  refine ⟨l, r, ?_, hl', hr'⟩
  unfold Bpt.loadNode
  rw [hmask, if_neg (by simp [hand]), hkey, hdata]
  dsimp only
  rw [unmarshalByteBlock_eq hand (hl.storable _) (hr.storable _), ok_bind, hl.stub_eq, hr.stub_eq]
  have hjoin : join combine (getHash l) (getHash r) = some x := by
    rw [hl'.getHash_eq (by simp; omega) (hclean.concat true),
      hr'.getHash_eq (by simp; omega) (hclean.concat false), ← digest_of_length_lt (by omega), hx]
  rw [getNodeHash_eq hjoin, hkey]

theorem NodeAt.loadNext (h : NodeAt combine b.store.blocks m D p n) (hmask : b.mask = 7)
    (hlength : p.length ≤ 254) :
    ∃ n', b.loadNext combine n = .ok n' ∧ n'.hash = n.hash ∧
      OpenNode combine b.store.blocks m D p n' := by
  cases h with
  | opened h =>
    refine ⟨n, ?_, rfl, h⟩
    unfold Bpt.loadNext
    rw [if_neg (by simp [h.left.ne_notLoaded, h.right.ne_notLoaded])]
    rfl
  | @stub x hborder hclean hx hblock =>
    obtain ⟨l, r, hload, hl, hr⟩ :=
      loadNode_eq (n := ⟨p.length, pathKey p, x, .notLoaded, .notLoaded⟩)
      hmask hlength hborder rfl rfl hclean hx hblock
    refine ⟨⟨p.length, pathKey p, x, l, r⟩, ?_, rfl, ⟨rfl, rfl, hl, hr⟩⟩
    unfold Bpt.loadNext
    rw [if_pos (.inl rfl), hload, ok_bind, if_neg (by simp [hl.ne_notLoaded, hr.ne_notLoaded])]
    rfl

/-! ## Dirty places -/

def tag (q : List Bool) : DirtyNode := (pathKey q, q)

def addPlace (D : List (List Bool)) (p : List Bool) : List (List Bool) := p :: D.filter (· ≠ p)

theorem mem_addPlace : q ∈ addPlace D p ↔ q = p ∨ q ∈ D := by
  unfold addPlace
  by_cases h : q = p <;> simp [h]

theorem nodup_addPlace (h : D.Nodup) : (addPlace D p).Nodup := by
  unfold addPlace
  rw [List.nodup_cons]
  exact ⟨by simp, h.filter _⟩

theorem filter_tag (hD : ∀ q ∈ D, q.length ≤ 254) (hp : p.length ≤ 254) :
    (D.map tag).filter (fun d => d.1 ≠ pathKey p) = (D.filter (· ≠ p)).map tag := by
  rw [List.filter_map]
  congr 1
  apply List.filter_congr
  intro q hq
  have hiff : pathKey q = pathKey p ↔ q = p :=
    ⟨fun h => pathKey_injective (by have := hD q hq; omega) (by omega) h, fun h => by rw [h]⟩
  simp [tag, hiff]

theorem dirty_dirtyMap (hb : b.dirtyMap = D.map tag) (hD : ∀ q ∈ D, q.length ≤ 254)
    (hp : p.length ≤ 254) : (b.dirty (some (tag p))).dirtyMap = (addPlace D p).map tag := by
  show tag p :: b.dirtyMap.filter (fun d => d.1 ≠ pathKey p) = _
  rw [hb, filter_tag hD hp]
  rfl

/-! ## Inserting -/

/-- The keys of the map differ in one of their first 255 bits. -/
def Separated (m : Hash → Option Hash) : Prop :=
  ∀ k k', m k ≠ none → m k' ≠ none → (bits k).take 255 = (bits k').take 255 → k = k'

theorem Separated.mono (h : Separated m) (hm : ∀ k, m' k ≠ none → m k ≠ none) : Separated m' :=
  fun k k' hk hk' => h k k' (hm k hk) (hm k' hk')

theorem Separated.length_le (h : Separated m) {k' : Hash} (hk : m k ≠ none) (hk' : m k' ≠ none)
    (hne : k ≠ k') (hp : Below p k) (hp' : Below p k') : p.length ≤ 254 := by
  by_contra hlong
  apply hne
  apply h k k' hk hk'
  have htake : ∀ {k : Hash}, Below p k → (bits k).take 255 = p.take 255 := by
    intro k hk
    rw [List.prefix_iff_eq_take.1 hk, List.take_take, min_eq_left (by omega)]
  rw [htake hp, htake hp']

/-- What an insertion of a key does to a node and to the tree it belongs to. -/
structure Inserted (combine : Hash → Hash → Hash) (b : Bpt) (m : Hash → Option Hash)
    (D : List (List Bool)) (p : List Bool) (n : BptNode) (key hash : Hash) (n' : BptNode) (b' : Bpt)
    (D' : List (List Bool)) : Prop where
  same : b' = { b with dirtyMap := b'.dirtyMap, maxHeight := b'.maxHeight }
  dirtyMap : b'.dirtyMap = D'.map tag
  hash_eq : n'.hash = n.hash
  node : OpenNode combine b.store.blocks (Function.update m key (some hash)) D' p n'
  mono : ∀ q ∈ D, q ∈ D'
  new : ∀ q ∈ D', q ∈ D ∨ p <+: q ∧ q.length ≤ 254
  nodup : D.Nodup → D'.Nodup
  change : D' = D ∧ m key = some hash ∨ ∃ q ∈ D', p <+: q

theorem not_extends_concat (h : p ++ [c] <+: q) : ¬ p ++ [!c] <+: q := by
  intro h'
  have heq := List.prefix_of_prefix_length_le h h' (by simp)
  simp at heq

/-- The dirty places of the other half are the same if the new ones are at the node or in one
half. -/
theorem sameDirty_other (hmono : ∀ q ∈ D, q ∈ D')
    (hnew : ∀ q ∈ D', q ∈ D ∨ q = p ∨ p ++ [c] <+: q) :
    SameDirty D D' (p ++ [!c]) := by
  intro q hq
  refine ⟨hmono q, fun h => ?_⟩
  rcases hnew q h with hold | rfl | hnew
  · exact hold
  · have hle := hq.length_le
    simp at hle
  · exact absurd hq (not_extends_concat hnew)

theorem update_other (hkey : Below (p ++ [c]) key) (v : Option Hash) :
    ∀ k, Below (p ++ [!c]) k → m k = Function.update m key v k := by
  intro k hk
  have hne : k ≠ key := by
    rintro rfl
    exact not_extends_concat hkey hk
  rw [Function.update_of_ne hne]

theorem inserted_value (hb : b.dirtyMap = D.map tag) (hD : ∀ q ∈ D, q.length ≤ 254)
    (hp : p.length ≤ 254) (hn : OpenNode combine b.store.blocks m D p n)
    (hkey : Below p key) (hclean : CleanAt D (p ++ [key.getMsbD p.length]))
    (hother : ∀ k, Below (p ++ [key.getMsbD p.length]) k → k ≠ key → m k = none) (hash : Hash) :
    Inserted combine b m D p n key hash
      (n.setChild (key.getMsbD p.length) (.value key hash)) (b.dirty (some (n.dirtyNode key)))
      (addPlace D p) := by
  have hside := hkey.concat (show p.length < 256 by omega)
  have htag : n.dirtyNode key = tag p := by
    rw [BptNode.dirtyNode, hn.nodeKey, hn.height, ← List.prefix_iff_eq_take.1 hkey]
    rfl
  have hmono : ∀ q ∈ D, q ∈ addPlace D p := fun q hq => mem_addPlace.2 (.inr hq)
  rw [htag]
  constructor
  · rfl
  · exact dirty_dirtyMap hb hD hp
  · exact setChild_hash n _ _
  · apply hn.setChild
    · apply Loaded.value
      · intro q hq hpre
        rcases mem_addPlace.1 hq with rfl | hq
        · have hle := hpre.length_le
          simp at hle
        · exact hclean q hq hpre
      · exact hside
      · exact Function.update_self ..
      · intro k hk hne
        rw [Function.update_of_ne hne]
        exact hother k hk hne
    · exact update_other hside _
    · exact fun _ _ _ => rfl
    · exact sameDirty_other hmono fun q hq =>
        (mem_addPlace.1 hq).elim (fun h => .inr (.inl h)) .inl
  · exact hmono
  · intro q hq
    rcases mem_addPlace.1 hq with rfl | hq
    · exact .inr ⟨List.prefix_refl q, hp⟩
    · exact .inl hq
  · exact nodup_addPlace
  · exact .inr ⟨p, mem_addPlace.2 (.inl rfl), List.prefix_refl p⟩

theorem inserted_child {n₁ : BptNode} (hn : OpenNode combine b.store.blocks m D p n₁)
    (hhash : n₁.hash = n.hash) (hside : Below (p ++ [c]) key)
    (he : Loaded combine b.store.blocks (Function.update m key (some hash)) D' (p ++ [c]) e)
    (same : b' = { b with dirtyMap := b'.dirtyMap, maxHeight := b'.maxHeight })
    (dirtyMap : b'.dirtyMap = D'.map tag) (mono : ∀ q ∈ D, q ∈ D')
    (new : ∀ q ∈ D', q ∈ D ∨ p ++ [c] <+: q ∧ q.length ≤ 254) (nodup : D.Nodup → D'.Nodup)
    (change : D' = D ∧ m key = some hash ∨ ∃ q ∈ D', p ++ [c] <+: q) :
    Inserted combine b m D p n key hash (n₁.setChild c e) b' D' := by
  have hup : ∀ {q : List Bool}, p ++ [c] <+: q → p <+: q := (List.prefix_append p [c]).trans
  constructor
  · exact same
  · exact dirtyMap
  · rw [setChild_hash, hhash]
  · apply hn.setChild he
    · exact update_other hside _
    · exact fun _ _ _ => rfl
    · exact sameDirty_other mono fun q hq => (new q hq).imp_right fun h => .inr h.1
  · exact mono
  · exact fun q hq => (new q hq).imp_right fun h => ⟨hup h.1, h.2⟩
  · exact nodup
  · exact change.imp_right fun ⟨q, hq, hpre⟩ => ⟨q, hq, hup hpre⟩

theorem Inserted.loaded {n' : BptNode} (h : Inserted combine b m D p n key hash n' b' D')
    (hlength : p.length ≤ 254) (hkey : Below p key)
    (hn : Loaded combine b.store.blocks m D p n.entry ∨ m key ≠ some hash) :
    Loaded combine b.store.blocks (Function.update m key (some hash)) D' p n'.entry := by
  have hentry : n'.entry = .node p.length (pathKey p) n.hash n'.left n'.right := by
    rw [BptNode.entry, h.node.height, h.node.nodeKey, h.hash_eq]
  rw [hentry]
  apply Loaded.node hlength
  · refine ⟨key, hkey, ?_⟩
    rw [Function.update_self]
    exact Option.some_ne_none hash
  · intro hclean
    rcases h.change with ⟨rfl, hsame⟩ | ⟨q, hq, hpre⟩
    · -- Nothing has changed, so that the hash is the one the entry had before.
      have hmap : Function.update m key (some hash) = m := by rw [← hsame, Function.update_eq_self]
      rw [hmap]
      exact (hn.resolve_right (not_not.2 hsame)).upToDate hclean
    · exact absurd hpre (hclean q hq)
  · exact h.node.left
  · exact h.node.right

/-- A new node takes the place of a value: it stands for a map without the two keys, which have not
been inserted. -/
theorem exists_openNode_new (combine : Hash → Hash → Hash) (b : Bpt) (hne : key ≠ k)
    (hx : m k = some x) (hside : Below (p ++ [c]) key) (hp : p.length + 1 ≤ 254)
    (hn : n.height = p.length) (hclean : CleanAt D (p ++ [c]))
    (hother : ∀ k', Below (p ++ [c]) k' → k' ≠ k → m k' = none) (hash : Hash) :
    ∃ m₀, (m₀ key = none ∧ m₀ k = none) ∧
      (∀ k', Function.update m₀ key (some hash) k' ≠ none →
        Function.update m key (some hash) k' ≠ none) ∧
      Function.update (Function.update m₀ key (some hash)) k (some x) =
        Function.update m key (some hash) ∧
      OpenNode combine b.store.blocks m₀ D (p ++ [c]) (b.newNode key n).1 := by
  have hk : ∀ k', (if k' = key ∨ k' = k then none else m k') = none ∨
      k' ≠ key ∧ k' ≠ k ∧ (if k' = key ∨ k' = k then none else m k') = m k' := by
    intro k'
    by_cases h : k' = key ∨ k' = k
    · exact .inl (if_pos h)
    · exact .inr ⟨fun h' => h (.inl h'), fun h' => h (.inr h'), if_neg h⟩
  refine ⟨fun k' => if k' = key ∨ k' = k then none else m k', ?_, ?_, ?_, ?_⟩
  · simp
  · intro k'
    by_cases hkey : k' = key
    · simp [hkey]
    rw [Function.update_of_ne hkey, Function.update_of_ne hkey]
    rcases hk k' with hnone | ⟨_, _, hsame⟩
    · simp
    · rw [hsame]
      exact id
  · funext k'
    by_cases hk' : k' = k
    · rw [hk', Function.update_self, Function.update_of_ne (Ne.symm hne), hx]
    by_cases hkey : k' = key
    · rw [hkey, Function.update_of_ne hne, Function.update_self, Function.update_self]
    · rw [Function.update_of_ne hk', Function.update_of_ne hkey, Function.update_of_ne hkey,
        if_neg (by simp [hk', hkey])]
  · have hhalf : ∀ c', Loaded combine b.store.blocks
        (fun k' => if k' = key ∨ k' = k then none else m k') D (p ++ [c] ++ [c']) .null := by
      intro c'
      refine .null (hclean.concat c') fun k' hk' => ?_
      rcases hk k' with hnone | ⟨_, hne', hsame⟩
      · exact hnone
      · exact hsame.trans (hother k' (hk'.of_extends (List.prefix_append (p ++ [c]) [c'])) hne')
    have hheight : n.height + 1 = (p ++ [c]).length := by rw [hn]; simp
    refine ⟨hheight, ?_, hhalf true, hhalf false⟩
    show (getNodeKey (n.height + 1) key).1 = _
    rw [hheight, getNodeKey_eq (by simp; omega), ← List.prefix_iff_eq_take.1 hside]

theorem newNode_same (b : Bpt) (key : Hash) (n : BptNode) :
    (b.newNode key n).2 = { b with maxHeight := (b.newNode key n).2.maxHeight } := by
  unfold Bpt.newNode
  dsimp only
  split <;> rfl

theorem insertAtNode_spec {fuel : Nat} (hfuel : fuel + p.length = 256) (hp : p.length ≤ 254)
    (hmask : b.mask = 7) (hb : b.dirtyMap = D.map tag) (hD : ∀ q ∈ D, q.length ≤ 254)
    (hn : NodeAt combine b.store.blocks m D p n) (hkey : Below p key)
    (hsep : Separated (Function.update m key (some hash))) :
    ∃ n' b' D', Bpt.insertAtNode combine fuel b n key hash = .ok (n', b') ∧
      Inserted combine b m D p n key hash n' b' D' := by
  induction fuel generalizing p n b m D key hash with
  | zero => omega
  | succ fuel ih =>
    obtain ⟨n₁, hload, hhash, hopen⟩ := hn.loadNext hmask hp
    have hgoes : goesLeft n.height key = key.getMsbD p.length := by
      rw [hn.height, goesLeft_eq (by omega)]
    have hside := hkey.concat (show p.length < 256 by omega)
    have hchild := hopen.child (key.getMsbD p.length)
    have hlength : (p ++ [key.getMsbD p.length]).length = p.length + 1 := by simp
    rw [Bpt.insertAtNode]
    rw [hgoes, hload, ok_bind]
    cases hentry : n₁.child (key.getMsbD p.length) with
    | notLoaded => exact absurd hentry hchild.ne_notLoaded
    | null =>
      rw [hentry] at hchild
      cases hchild with
      | null hclean hnone =>
        have hinserted := inserted_value hb hD hp hopen hkey hclean
          (fun k hk _ => hnone k hk) hash
        exact ⟨_, _, _, rfl, { hinserted with hash_eq := hinserted.hash_eq.trans hhash }⟩
    | node h nk x l r =>
      rw [hentry] at hchild
      obtain ⟨hle, hnode⟩ := hchild.nodeAt
      obtain ⟨n₂, b₂, D₂, hrun, hinserted⟩ :=
        ih (by omega) hle hmask hb hD hnode hside hsep
      dsimp only
      rw [hrun]
      refine ⟨_, _, D₂, rfl, ?_⟩
      exact inserted_child hopen hhash hside (hinserted.loaded hle hside (.inl hchild))
        hinserted.same hinserted.dirtyMap hinserted.mono hinserted.new hinserted.nodup
        hinserted.change
    | value k x =>
      rw [hentry] at hchild
      cases hchild with
      | value hclean hk hx hother =>
        dsimp only
        by_cases hsame : key = k
        · subst hsame
          rw [if_pos rfl]
          by_cases hvalue : x = hash
          · subst hvalue
            rw [if_neg (by simp)]
            have hmap : Function.update m key (some x) = m := by
              rw [← hx, Function.update_eq_self]
            refine ⟨_, _, D, rfl, rfl, hb, hhash, ?_, fun _ h => h, fun _ h => .inl h, id,
              .inl ⟨rfl, hx⟩⟩
            rw [hmap]
            exact hopen
          · rw [if_pos hvalue]
            have hinserted := inserted_value hb hD hp hopen hkey hclean hother hash
            exact ⟨_, _, _, rfl, { hinserted with hash_eq := hinserted.hash_eq.trans hhash }⟩
        · -- Both values are inserted into a new node, the new one first.
          rw [if_neg hsame]
          have hne : Function.update m key (some hash) k ≠ none := by
            rw [Function.update_of_ne (Ne.symm hsame), hx]
            exact Option.some_ne_none x
          have hle := hsep.length_le (by simp) hne hsame hside hk
          obtain ⟨m₀, hkey₀, hm₁, hm₂, hnew⟩ := exists_openNode_new combine b hsame hx hside
            (by omega) hopen.height hclean hother hash
          have hsame₀ := newNode_same b key n₁
          generalize b.newNode key n₁ = new at hnew hsame₀
          obtain ⟨nn, b₀⟩ := new
          dsimp only at hnew hsame₀ ⊢
          have hstore₀ : b₀.store = b.store := by rw [hsame₀]
          rw [← hstore₀] at hnew
          obtain ⟨nn₁, b₁, D₁, hrun₁, h₁⟩ : ∃ nn₁ b₁ D₁,
              Bpt.insertAtNode combine fuel b₀ nn key hash = .ok (nn₁, b₁) ∧
                Inserted combine b₀ m₀ D _ nn key hash nn₁ b₁ D₁ :=
            ih (by omega) hle (by rw [hsame₀, hmask]) (by rw [hsame₀, hb]) hD (.opened hnew)
              hside (hsep.mono hm₁)
          have hstore₁ : b₁.store = b₀.store := by rw [h₁.same]
          have hD₁ : ∀ q ∈ D₁, q.length ≤ 254 := fun q hq =>
            (h₁.new q hq).elim (hD q) And.right
          have hnode₁ := h₁.node
          rw [← hstore₁] at hnode₁
          obtain ⟨nn₂, b₂, D₂, hrun₂, h₂⟩ : ∃ nn₂ b₂ D₂,
              Bpt.insertAtNode combine fuel b₁ nn₁ k x = .ok (nn₂, b₂) ∧
                Inserted combine b₁ _ D₁ _ nn₁ k x nn₂ b₂ D₂ :=
            ih (by omega) hle (by rw [h₁.same, hsame₀, hmask]) h₁.dirtyMap hD₁
              (.opened hnode₁) hk (hm₂ ▸ hsep)
          rw [hrun₁, ok_bind]
          rw [hrun₂]
          obtain ⟨q, hq, hpre⟩ := h₁.change.resolve_left (by simp [hkey₀])
          refine ⟨_, b₂, D₂, rfl, ?_⟩
          apply inserted_child hopen hhash hside
          · have hfresh : Function.update m₀ key (some hash) k ≠ some x := by
              rw [Function.update_of_ne (Ne.symm hsame), hkey₀.2]
              exact nofun
            have hentry₂ := h₂.loaded hle hk (.inr hfresh)
            rw [hm₂, hstore₁, hstore₀] at hentry₂
            exact hentry₂
          · rw [h₂.same, h₁.same, hsame₀]
          · exact h₂.dirtyMap
          · exact fun q hq => h₂.mono q (h₁.mono q hq)
          · exact fun q hq => (h₂.new q hq).elim (h₁.new q) .inr
          · exact h₂.nodup ∘ h₁.nodup
          · exact .inr ⟨q, h₂.mono q hq, hpre⟩

end Insert

end Accumulate.Pmt
