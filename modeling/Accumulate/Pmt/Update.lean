import Accumulate.Pmt.Insert

/-!
# Updating the hashes

`Update` takes the dirty nodes at the greatest height, hashes them and makes their parents dirty
instead.  Nothing below these nodes is dirty, so that their hashes are the digests of their places,
and the byte blocks that are written for the border nodes among them are up to date.  The greatest
height gets smaller until the root is reached.
-/

namespace Accumulate.Pmt

open Library
open Protocol (Hash)

section Update

variable {combine : Hash → Hash → Hash} {m : Hash → Option Hash} {D : List (List Bool)}
  {p q : List Bool} {n : BptNode} {b : Bpt}

/-! ## One node -/

/-- The dirty places after a node has been hashed. -/
def refreshed (D : List (List Bool)) (q : List Bool) : List (List Bool) :=
  if q = [] then D.filter (· ≠ q) else addPlace (D.filter (· ≠ q)) q.dropLast

theorem mem_refreshed {r : List Bool} :
    r ∈ refreshed D q ↔ r ∈ D ∧ r ≠ q ∨ q ≠ [] ∧ r = q.dropLast := by
  unfold refreshed
  split
  · rename_i h
    simp [h]
  · rename_i h
    rw [mem_addPlace]
    simp [h, or_comm]

theorem nodup_refreshed (h : D.Nodup) : (refreshed D q).Nodup := by
  unfold refreshed
  split
  · exact h.filter _
  · exact nodup_addPlace (h.filter _)

/-- What hashing a dirty node does to the tree, apart from its nodes. -/
structure Refreshed (b : Bpt) (D : List (List Bool)) (q : List Bool) (b' : Bpt) : Prop where
  same : b' = { b with dirtyMap := b'.dirtyMap, store := b'.store }
  dirtyMap : b'.dirtyMap = (refreshed D q).map tag
  blocks : ∀ k, k ≠ pathKey q → b.store.blocks k = b'.store.blocks k

theorem flushNode_eq (hmask : b.mask = 7) (hborder : n.height % 8 = 0) :
    ∃ store, b.flushNode n = .ok { b with store := store } ∧
      store.blocks = Function.update b.store.blocks n.nodeKey
        (some (marshalEntry 7 n.left ++ marshalEntry 7 n.right)) ∧
      (n.height = 0 → store.settings = some b.marshal) := by
  have hand : n.height &&& 7 = 0 := by rw [height_and_seven, hborder]
  unfold Bpt.flushNode marshalByteBlock
  rw [if_pos hand, hmask, if_neg (by simp [hand]), ok_bind]
  by_cases hzero : n.height = 0
  · rw [if_pos hzero]
    exact ⟨_, rfl, rfl, fun _ => rfl⟩
  · rw [if_neg hzero]
    exact ⟨_, rfl, rfl, fun h => absurd h hzero⟩

variable {blocks : Hash → Option (List UInt8)} {height : Nat} {x : Hash} {l r : Entry}
  {s : List Bool}

theorem sameBlocks_of_ne {blocks' : Hash → Option (List UInt8)} (hq : q.length ≤ 254)
    (h : ∀ k, k ≠ pathKey q → blocks k = blocks' k) (hp : ¬ p <+: q) :
    SameBlocks blocks blocks' p := by
  intro r hr hlength
  apply h
  intro heq
  have hrq := pathKey_injective (by omega) (by omega) heq
  exact hp (hrq ▸ hr)

theorem cleanAt_concat_of_length_le (hD : ∀ r ∈ D, r.length ≤ p.length) (c : Bool) :
    CleanAt D (p ++ [c]) := by
  intro r hr hpre
  have hle := hpre.length_le
  have hle' := hD r hr
  simp at hle
  omega

def parentOf (p : List Bool) : Option DirtyNode := if p = [] then none else some (tag p.dropLast)

theorem refreshed_dirtyMap (hb : b.dirtyMap = D.map tag) (hD : ∀ r ∈ D, r.length ≤ 254)
    (hp : p.length ≤ 254) :
    ((b.clean (pathKey p)).dirty (parentOf p)).dirtyMap = (refreshed D p).map tag := by
  have hclean : (b.clean (pathKey p)).dirtyMap = (D.filter (· ≠ p)).map tag := by
    show b.dirtyMap.filter (fun d => d.1 ≠ pathKey p) = _
    rw [hb, filter_tag hD hp]
  unfold parentOf refreshed
  by_cases hroot : p = []
  · rw [if_pos hroot, if_pos hroot]
    exact hclean
  · rw [if_neg hroot, if_neg hroot]
    exact dirty_dirtyMap hclean (fun r hr => hD r (List.mem_of_mem_filter hr)) (by simp; omega)

theorem refresh_spec (hmask : b.mask = 7) (hb : b.dirtyMap = D.map tag)
    (hD : ∀ r ∈ D, r.length ≤ p.length) (hp : p.length ≤ 254)
    (hn : OpenNode combine b.store.blocks m D p n) (hne : ∃ k, Below p k ∧ m k ≠ none) :
    ∃ n' b', b.refresh combine n (parentOf p) = .ok (n', b') ∧ Refreshed b D p b' ∧
      OpenNode combine b'.store.blocks m (refreshed D p) p n' ∧
      digest combine m p = some n'.hash ∧
      (p.length % 8 = 0 → BlockSaved combine b'.store.blocks m p) := by
  have hleft := cleanAt_concat_of_length_le hD true
  have hright := cleanAt_concat_of_length_le hD false
  obtain ⟨x, hx⟩ : ∃ x, digest combine m p = some x := by
    obtain ⟨k, hk, hvalue⟩ := hne
    rw [← Option.ne_none_iff_exists']
    intro hnone
    exact hvalue ((digest_eq_none_iff (by omega)).1 hnone k hk)
  have hjoin : join combine (getHash n.left) (getHash n.right) = some x := by
    rw [hn.left.getHash_eq (by simp; omega) hleft, hn.right.getHash_eq (by simp; omega) hright,
      ← digest_of_length_lt (by omega), hx]
  -- The byte block of a border node is written first.
  obtain ⟨store, hflush, hother, hsaved⟩ : ∃ store,
      b.flushBorder n = .ok { b with store := store } ∧
      (∀ k, k ≠ pathKey p → b.store.blocks k = store.blocks k) ∧
      (p.length % 8 = 0 → store.blocks (pathKey p) =
        some (marshalEntry 7 n.left ++ marshalEntry 7 n.right)) := by
    have hiff : n.height &&& b.mask = 0 ↔ p.length % 8 = 0 := by
      rw [hmask, height_and_seven, hn.height]
    unfold Bpt.flushBorder
    by_cases hborder : p.length % 8 = 0
    · rw [if_pos (hiff.2 hborder)]
      obtain ⟨store, hflush, hblocks, -⟩ := flushNode_eq hmask (by rw [hn.height, hborder])
      rw [hn.nodeKey] at hblocks
      refine ⟨store, hflush, fun k hk => ?_, fun _ => ?_⟩
      · rw [hblocks, Function.update_of_ne hk]
      · rw [hblocks, Function.update_self]
    · rw [if_neg fun h => hborder (hiff.1 h)]
      exact ⟨b.store, rfl, fun _ _ => rfl, fun h => absurd h hborder⟩
  have hhalf : ∀ c, SameBlocks b.store.blocks store.blocks (p ++ [c]) := fun c =>
    sameBlocks_of_ne hp hother fun hpre => by have := hpre.length_le; simp at this
  have hdirty : ∀ c, SameDirty D (refreshed D p) (p ++ [c]) := by
    intro c r hpre
    have hle := hpre.length_le
    rw [List.length_append, List.length_singleton] at hle
    rw [mem_refreshed]
    refine ⟨fun hr => absurd (hD r hr) (by omega), ?_⟩
    rintro (⟨hr, -⟩ | ⟨-, rfl⟩)
    · exact hr
    · rw [List.length_dropLast] at hle
      omega
  have hl := hn.left.congr (fun _ _ => rfl) (hhalf true) (hdirty true)
  have hr := hn.right.congr (fun _ _ => rfl) (hhalf false) (hdirty false)
  refine ⟨{ n with hash := x },
    (({ b with store := store } : Bpt).clean (pathKey p)).dirty (parentOf p), ?_, ?_⟩
  · unfold Bpt.refresh
    rw [hflush, getNodeHash_eq hjoin]
    rw [hn.nodeKey]
    rfl
  generalize hb' : (({ b with store := store } : Bpt).clean (pathKey p)).dirty (parentOf p) = b'
  have hmap := refreshed_dirtyMap (b := { b with store := store }) hb
    (fun r hr => (hD r hr).trans hp) hp
  have hstore : b'.store = store := by
    rw [← hb']
    cases parentOf p <;> rfl
  have hsame : b' = { b with dirtyMap := b'.dirtyMap, store := b'.store } := by
    rw [← hb']
    cases parentOf p <;> rfl
  rw [hb'] at hmap
  refine ⟨⟨hsame, hmap, ?_⟩, ⟨hn.height, hn.nodeKey, ?_, ?_⟩, hx, ?_⟩
  · rw [hstore]
    exact hother
  · rw [hstore]
    exact hl
  · rw [hstore]
    exact hr
  rw [hstore]
  intro hborder
  refine ⟨_, _, ?_, hl.saved ((hdirty true).cleanAt hleft),
    hr.saved ((hdirty false).cleanAt hright)⟩
  rw [marshalEntry_stub, marshalEntry_stub, hsaved hborder]

/-! ## The way to a node -/

theorem refreshAt_concat {nk : Hash} {parent : Option DirtyNode} {c : Bool} :
    Bpt.refreshAt combine (p ++ c :: s) (.node p.length nk x l r) parent b =
      Bpt.refreshAt combine (p ++ c :: s) ((⟨p.length, nk, x, l, r⟩ : BptNode).child c)
          (some (nk, p)) b >>=
        fun result =>
          .ok (((⟨p.length, nk, x, l, r⟩ : BptNode).setChild c result.1).entry, result.2) := by
  rw [Bpt.refreshAt, if_neg (by simp), List.take_left']
  · cases c <;> simp <;> rfl
  · rfl

theorem OpenNode.entry_eq (h : OpenNode combine blocks m D p n) :
    OpenNode combine blocks m D p ⟨p.length, pathKey p, n.hash, n.left, n.right⟩ ∧
      n.entry = .node p.length (pathKey p) n.hash n.left n.right := by
  refine ⟨⟨rfl, rfl, h.left, h.right⟩, ?_⟩
  rw [BptNode.entry, h.height, h.nodeKey]

theorem Loaded.exists_openNode {e : Entry} (h : Loaded combine blocks m D p e)
    (hdirty : ¬ CleanAt D p) :
    ∃ x l r, e = .node p.length (pathKey p) x l r ∧
      OpenNode combine blocks m D p ⟨p.length, pathKey p, x, l, r⟩ ∧
      ∃ k, Below p k ∧ m k ≠ none := by
  cases h with
  | null hclean | value hclean | stub _ _ hclean => exact absurd hclean hdirty
  | node _ hne _ hl hr => exact ⟨_, _, _, rfl, ⟨rfl, rfl, hl, hr⟩, hne⟩

theorem prefix_dropLast (h : p <+: q) (hlt : p.length < q.length) : p <+: q.dropLast :=
  List.prefix_of_prefix_length_le h (List.dropLast_prefix q) (by simp; omega)

theorem refreshAt_spec (hmask : b.mask = 7) (hb : b.dirtyMap = D.map tag)
    (hD : ∀ t ∈ D, t.length ≤ (p ++ s).length) (hlength : (p ++ s).length ≤ 254) (hmem : p ++ s ∈ D)
    (hn : OpenNode combine b.store.blocks m D p ⟨p.length, pathKey p, x, l, r⟩)
    (hne : ∃ k, Below p k ∧ m k ≠ none) :
    ∃ x' l' r' b',
      Bpt.refreshAt combine (p ++ s) (.node p.length (pathKey p) x l r) (parentOf p) b =
        .ok (.node p.length (pathKey p) x' l' r', b') ∧
      Refreshed b D (p ++ s) b' ∧
      OpenNode combine b'.store.blocks m (refreshed D (p ++ s)) p
        ⟨p.length, pathKey p, x', l', r'⟩ ∧
      (s = [] → digest combine m p = some x' ∧
        (p.length % 8 = 0 → BlockSaved combine b'.store.blocks m p)) := by
  induction s generalizing p x l r with
  | nil =>
    rw [List.append_nil] at hD hlength ⊢
    obtain ⟨n', b', hrun, hrefreshed, hopen, hdigest, hblock⟩ :=
      refresh_spec hmask hb hD hlength hn hne
    obtain ⟨height, nodeKey, x', l', r'⟩ := n'
    obtain rfl : height = p.length := hopen.height
    obtain rfl : nodeKey = pathKey p := hopen.nodeKey
    refine ⟨x', l', r', b', ?_, hrefreshed, hopen, fun _ => ⟨hdigest, hblock⟩⟩
    rw [Bpt.refreshAt, if_pos rfl, hrun]
    rfl
  | cons c s ih =>
    have hq : p ++ c :: s = (p ++ [c]) ++ s := by simp
    have hup : p ++ [c] <+: p ++ c :: s := ⟨s, hq.symm⟩
    obtain ⟨x₁, l₁, r₁, hentry, hopen₁, hne₁⟩ :=
      (hn.child c).exists_openNode fun hclean => hclean _ hmem hup
    have hparent : parentOf (p ++ [c]) = some (pathKey p, p) := by
      unfold parentOf
      rw [if_neg (by simp), List.dropLast_concat]
      rfl
    obtain ⟨x', l', r', b', hrun, hrefreshed, hopen', hdone⟩ :=
      ih (hq ▸ hD) (hq ▸ hlength) (hq ▸ hmem) hopen₁ hne₁
    rw [← hq] at hrun hrefreshed hopen'
    have hchild : Loaded combine b'.store.blocks m (refreshed D (p ++ c :: s)) (p ++ [c])
        (.node (p ++ [c]).length (pathKey (p ++ [c])) x' l' r') := by
      apply Loaded.node
      · simp at hlength ⊢
        omega
      · exact hne₁
      · -- Either this node has been hashed, or its child on the way is dirty now.
        intro hclean
        cases s with
        | nil => exact hdone rfl
        | cons d s =>
          have hparent' : (p ++ c :: d :: s).dropLast ∈ refreshed D (p ++ c :: d :: s) :=
            mem_refreshed.2 (.inr ⟨by simp, rfl⟩)
          exact absurd (prefix_dropLast hup (by simp)) (hclean _ hparent')
      · exact hopen'.left
      · exact hopen'.right
    have hset : OpenNode combine b'.store.blocks m (refreshed D (p ++ c :: s)) p
        ((⟨p.length, pathKey p, x, l, r⟩ : BptNode).setChild c
          (.node (p ++ [c]).length (pathKey (p ++ [c])) x' l' r')) := by
      apply hn.setChild hchild
      · exact fun _ _ => rfl
      · exact sameBlocks_of_ne hlength hrefreshed.blocks (not_extends_concat hup)
      intro t ht
      have hne' : ¬ p ++ [!c] <+: p ++ c :: s := not_extends_concat hup
      rw [mem_refreshed]
      constructor
      · intro hmem'
        exact .inl ⟨hmem', fun heq => hne' (heq ▸ ht)⟩
      · rintro (⟨hmem', -⟩ | ⟨-, rfl⟩)
        · exact hmem'
        · exact absurd (ht.trans (List.dropLast_prefix _)) hne'
    have hrun' : Bpt.refreshAt combine (p ++ c :: s) (.node p.length (pathKey p) x l r)
        (parentOf p) b =
          .ok (((⟨p.length, pathKey p, x, l, r⟩ : BptNode).setChild c
            (.node (p ++ [c]).length (pathKey (p ++ [c])) x' l' r')).entry, b') := by
      rw [refreshAt_concat, hentry, ← hparent, hrun, ok_bind]
    generalize (⟨p.length, pathKey p, x, l, r⟩ : BptNode).setChild c
      (.node (p ++ [c]).length (pathKey (p ++ [c])) x' l' r') = n' at hset hrun'
    obtain ⟨height, nodeKey, x₂, l₂, r₂⟩ := n'
    obtain rfl : height = p.length := hset.height
    obtain rfl : nodeKey = pathKey p := hset.nodeKey
    exact ⟨x₂, l₂, r₂, b', hrun', hrefreshed, hset, nofun⟩

/-! ## The whole tree -/

/-- The tree stands for the map, with the given dirty places. -/
structure Stands (combine : Hash → Hash → Hash) (b : Bpt) (m : Hash → Option Hash)
    (D : List (List Bool)) : Prop where
  mask : b.mask = 7
  dirtyMap : b.dirtyMap = D.map tag
  nodup : D.Nodup
  length_le : ∀ q ∈ D, q.length ≤ 254
  root : OpenNode combine b.store.blocks m D [] b.root
  rootHash : D = [] → b.root.hash = (digest combine m []).getD 0
  nonempty : D ≠ [] → ∃ k, m k ≠ none

theorem Stands.refreshDirty (h : Stands combine b m D) (hq : q ∈ D)
    (hmax : ∀ t ∈ D, t.length ≤ q.length) :
    ∃ b', b.refreshDirty combine (tag q) = .ok b' ∧ Stands combine b' m (refreshed D q) := by
  have hlength := h.length_le q hq
  obtain ⟨hroot, hentry⟩ := h.root.entry_eq
  obtain ⟨k, hk⟩ := h.nonempty (List.ne_nil_of_mem hq)
  obtain ⟨x, l, r, b₁, hrun, hrefreshed, hopen, hdone⟩ :=
    refreshAt_spec (p := []) h.mask h.dirtyMap hmax hlength hq hroot ⟨k, below_nil k, hk⟩
  refine ⟨{ b₁ with root := ⟨0, pathKey [], x, l, r⟩ }, ?_, ?_⟩
  · unfold Bpt.refreshDirty
    rw [hentry]
    have hrun : Bpt.refreshAt combine (tag q).2
        (.node ([] : List Bool).length (pathKey []) b.root.hash b.root.left b.root.right) none b =
          .ok (.node ([] : List Bool).length (pathKey []) x l r, b₁) := hrun
    rw [hrun]
    rfl
  · constructor
    · rw [hrefreshed.same, h.mask]
    · exact hrefreshed.dirtyMap
    · exact nodup_refreshed h.nodup
    · intro t ht
      rcases mem_refreshed.1 ht with ⟨ht, -⟩ | ⟨-, rfl⟩
      · exact h.length_le t ht
      · rw [List.length_dropLast]
        omega
    · exact hopen
    · intro hempty
      have hnil : q = [] := by
        by_contra hne
        have hmem : q.dropLast ∈ refreshed D q := mem_refreshed.2 (.inr ⟨hne, rfl⟩)
        rw [hempty] at hmem
        contradiction
      rw [(hdone hnil).1, Option.getD_some]
    · exact fun _ => ⟨k, hk⟩

theorem Stands.updatePass {T : List (List Bool)} (h : Stands combine b m D)
    (hmax : ∀ q ∈ D, q.length ≤ height) (hall : ∀ q ∈ D, q.length = height → q ∈ T)
    (hdirty : ∀ q ∈ T, q.length = height → q ∈ D) (hnodup : T.Nodup)
    (hsorted : T.Pairwise fun q q' => q'.length ≤ q.length) (hT : ∀ q ∈ T, q.length ≤ height) :
    ∃ b' D', Bpt.updatePass combine height (T.map tag) b = .ok b' ∧ Stands combine b' m D' ∧
      ∀ q ∈ D', q.length < height := by
  induction T generalizing b D with
  | nil =>
    refine ⟨b, D, rfl, h, fun q hq => ?_⟩
    have hle := hmax q hq
    have hne : q.length ≠ height := fun heq => nomatch hall q hq heq
    omega
  | cons q T ih =>
    rw [List.pairwise_cons] at hsorted
    rw [List.nodup_cons] at hnodup
    rw [List.map_cons, Bpt.updatePass]
    by_cases hheight : q.length = height
    · -- The node is hashed, and its parent is not at this height.
      have hq := hdirty q List.mem_cons_self hheight
      obtain ⟨b₁, hrun, h₁⟩ := h.refreshDirty hq (hheight ▸ hmax)
      have hsnd : ¬ (tag q).2.length ≠ height := not_not.2 hheight
      rw [if_neg hsnd, hrun]
      have hstep : ∀ t ∈ refreshed D q, t ∈ D ∧ t ≠ q ∨ t.length < height := by
        intro t ht
        rcases mem_refreshed.1 ht with hold | ⟨hne, rfl⟩
        · exact .inl hold
        have hpos := List.length_pos_of_ne_nil hne
        right
        rw [List.length_dropLast]
        omega
      apply ih h₁
      · intro t ht
        rcases hstep t ht with ⟨ht, -⟩ | hlt
        · exact hmax t ht
        · omega
      · intro t ht heq
        rcases hstep t ht with ⟨ht, hne⟩ | hlt
        · exact (List.mem_cons.1 (hall t ht heq)).resolve_left hne
        · omega
      · intro t ht heq
        refine mem_refreshed.2 (.inl ⟨hdirty t (List.mem_cons_of_mem q ht) heq, ?_⟩)
        rintro rfl
        exact hnodup.1 ht
      · exact hnodup.2
      · exact hsorted.2
      · exact fun t ht => hT t (List.mem_cons_of_mem q ht)
    · -- The list is sorted, so that there is no node left at this height.
      have hlt : q.length < height := by
        have hle := hT q List.mem_cons_self
        omega
      refine ⟨b, D, if_pos hheight, h, fun t ht => ?_⟩
      have hle := hmax t ht
      by_contra hge
      rcases List.mem_cons.1 (hall t ht (by omega)) with rfl | hmem
      · omega
      · have hle' := hsorted.1 t hmem
        omega

variable {order : List DirtyNode → List DirtyNode}

theorem exists_dirtyList (horder : ∀ l, (order l).Perm l) (h : Stands combine b m D) :
    ∃ T : List (List Bool), b.getDirtyList order = T.map tag ∧ T.Perm D ∧
      T.Pairwise fun q q' => q'.length ≤ q.length := by
  have hperm : (b.getDirtyList order).Perm (D.map tag) := by
    rw [← h.dirtyMap]
    exact (List.perm_insertionSort _ _).trans (horder _)
  have hsorted : (b.getDirtyList order).Pairwise fun d d' => d'.2.length ≤ d.2.length := by
    exact List.pairwise_insertionSort _ _
  have htag : ((b.getDirtyList order).map Prod.snd).map tag = b.getDirtyList order := by
    have hid : ∀ d ∈ b.getDirtyList order, (tag ∘ Prod.snd) d = id d := by
      intro d hd
      obtain ⟨q, -, rfl⟩ := List.mem_map.1 (hperm.mem_iff.1 hd)
      rfl
    rw [List.map_map, List.map_congr_left hid, List.map_id]
  refine ⟨(b.getDirtyList order).map Prod.snd, htag.symm, ?_, List.pairwise_map.2 hsorted⟩
  have hmap := hperm.map Prod.snd
  rwa [List.map_map, show Prod.snd ∘ tag = id from rfl, List.map_id] at hmap

theorem Stands.updateLoop (horder : ∀ l, (order l).Perm l) {fuel : Nat} (h : Stands combine b m D)
    (hfuel : ∀ q ∈ D, q.length < fuel) :
    ∃ b', Bpt.updateLoop combine order fuel b = .ok b' ∧ Stands combine b' m [] := by
  induction fuel generalizing b D with
  | zero =>
    obtain rfl : D = [] := List.eq_nil_iff_forall_not_mem.2 fun q hq => nomatch hfuel q hq
    exact ⟨b, rfl, h⟩
  | succ fuel ih =>
    obtain ⟨T, hlist, hperm, hsorted⟩ := exists_dirtyList horder h
    rw [Bpt.updateLoop, hlist]
    cases T with
    | nil =>
      obtain rfl : D = [] := hperm.symm.eq_nil
      exact ⟨b, rfl, h⟩
    | cons q T =>
      have hq := hfuel q (hperm.mem_iff.1 List.mem_cons_self)
      have hT : ∀ t ∈ q :: T, t.length ≤ q.length := by
        intro t ht
        rcases List.mem_cons.1 ht with rfl | ht
        · exact Nat.le_refl _
        · exact (List.pairwise_cons.1 hsorted).1 t ht
      obtain ⟨b₁, D₁, hrun, h₁, hless⟩ := h.updatePass
        (fun t ht => hT t (hperm.mem_iff.2 ht)) (fun t ht _ => hperm.mem_iff.2 ht)
        (fun t ht _ => hperm.mem_iff.1 ht) (hperm.nodup_iff.2 h.nodup) hsorted hT
      obtain ⟨b', hloop, h'⟩ := ih h₁ fun t ht => by have := hless t ht; omega
      refine ⟨b', ?_, h'⟩
      rw [List.map_cons] at hrun ⊢
      show Bpt.updatePass combine q.length (tag q :: T.map tag) b >>= _ = _
      rw [hrun]
      exact hloop

theorem Stands.update (horder : ∀ l, (order l).Perm l) (h : Stands combine b m D) :
    ∃ b', b.update combine order = .ok b' ∧ Stands combine b' m [] ∧
      b'.rootHash = (digest combine m []).getD 0 ∧ BlockSaved combine b'.store.blocks m [] ∧
      ∃ b₀ : Bpt, b₀.mask = 7 ∧ b₀.rootHash = b'.rootHash ∧
        b'.store.settings = some b₀.marshal := by
  obtain ⟨b₁, hloop, h₁⟩ := h.updateLoop horder fun q hq => by
    have := h.length_le q hq
    exact (by omega : q.length < 256)
  obtain ⟨store, hflush, hblocks, hsettings⟩ := flushNode_eq
    (b := { b₁ with rootHash := b₁.root.hash }) h₁.mask (by rw [h₁.root.height]; rfl)
  rw [h₁.root.nodeKey] at hblocks
  have hclean : ∀ p, CleanAt [] p := nofun
  have hother : ∀ c, SameBlocks b₁.store.blocks store.blocks ([] ++ [c]) := fun c => by
    apply sameBlocks_of_ne (q := []) (Nat.zero_le _)
    · intro k hk
      rw [hblocks, Function.update_of_ne hk]
    · simp
  have hl := h₁.root.left.congr (fun _ _ => rfl) (hother true) fun _ _ => Iff.rfl
  have hr := h₁.root.right.congr (fun _ _ => rfl) (hother false) fun _ _ => Iff.rfl
  refine ⟨{ b₁ with rootHash := b₁.root.hash, store := store }, ?_, ?_, ?_, ?_, ?_⟩
  · unfold Bpt.update
    rw [hloop, ok_bind]
    dsimp only
    rw [hflush]
    rfl
  · exact ⟨h₁.mask, h₁.dirtyMap, h₁.nodup, h₁.length_le,
      ⟨h₁.root.height, h₁.root.nodeKey, hl, hr⟩, h₁.rootHash, h₁.nonempty⟩
  · exact h₁.rootHash rfl
  · refine ⟨_, _, ?_, hl.saved (hclean _), hr.saved (hclean _)⟩
    rw [marshalEntry_stub, marshalEntry_stub]
    rw [hblocks, Function.update_self]
  · exact ⟨{ b₁ with rootHash := b₁.root.hash }, h₁.mask, rfl,
      hsettings (by rw [h₁.root.height]; rfl)⟩

end Update

end Accumulate.Pmt
