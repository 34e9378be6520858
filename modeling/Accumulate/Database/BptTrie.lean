import Accumulate.Database.BptEntries
import Accumulate.Pmt.Lookup

/-!
# Entries and the Patricia trie

`commitBpt` of `bpt.go`: the entries of a root batch are inserted, in the order of a map, into the
trie that is loaded from the database.  The trie then holds the latest entry of every account, and
`BptRoot` is the digest of these entries, after any number of batches.
-/

namespace Accumulate.Database
namespace Records

open Library Protocol

variable {combine : Hash → Hash → Hash} {keyOf : Url → Hash} {accounts : List Url}
  {bpt inserts : List (Url × Hash)}
  {m : Hash → Option Hash} {store : Pmt.Store}

/-- The accounts of the database have keys that differ, in the part that the trie uses. -/
structure AccountKeys (keyOf : Url → Hash) (accounts : List Url) : Prop where
  injOn : ∀ u ∈ accounts, ∀ v ∈ accounts, keyOf u = keyOf v → u = v
  separated : Pmt.SeparatedKeys (accounts.map keyOf)

/-- The entries of a root batch as its map gives them, and the order in which `Update` iterates over
the dirty nodes. -/
structure BptBatch where
  inserts : List (Url × Hash)
  order : List Pmt.DirtyNode → List Pmt.DirtyNode

/-- The entries are those of a map over the accounts. -/
structure MapEntries (accounts : List Url) (inserts : List (Url × Hash)) : Prop where
  nodup : (inserts.map (·.1)).Nodup
  mem : ∀ e ∈ inserts, e.1 ∈ accounts

/-- The batch iterates over maps. -/
structure BptBatch.Sound (accounts : List Url) (b : BptBatch) : Prop where
  inserts : MapEntries accounts b.inserts
  order : ∀ l, (b.order l).Perm l

/-- The insertions that `commitBpt` makes. -/
def insertOps (keyOf : Url → Hash) (inserts : List (Url × Hash)) : List Pmt.Op :=
  inserts.map fun e => .insert (keyOf e.1) e.2

def commitBpt (combine : Hash → Hash → Hash) (keyOf : Url → Hash) (store : Pmt.Store)
    (batch : BptBatch) : Except String Pmt.Store :=
  if batch.inserts = [] then .ok store
  else do
    let b ← Pmt.Bpt.newBPTManager combine store
    let b ← (insertOps keyOf batch.inserts).foldlM (Pmt.Op.run combine) b
    let b ← b.update combine batch.order
    pure b.store

def bptRoot (combine : Hash → Hash → Hash) (store : Pmt.Store) : Except String Hash := do
  let b ← Pmt.Bpt.newBPTManager combine store
  pure b.rootHash

/-- The trie that is loaded from the store stands for a map with the entries of the accounts. -/
def StoreHolds (combine : Hash → Hash → Hash) (keyOf : Url → Hash) (accounts : List Url)
    (store : Pmt.Store) (m : Hash → Option Hash) (bpt : List (Url × Hash)) : Prop :=
  (∃ b, Pmt.Bpt.newBPTManager combine store = .ok b ∧
    Pmt.Holds combine (accounts.map keyOf) b ⟨m, m⟩ ∧ b.rootHash = Pmt.reference combine m) ∧
  ∀ u ∈ accounts, m (keyOf u) = entryOf bpt u

theorem insertedKeys_insertOps :
    Pmt.insertedKeys (insertOps keyOf inserts) = inserts.map fun e => keyOf e.1 := by
  induction inserts with
  | nil => rfl
  | cons e inserts ih => exact congrArg (keyOf e.1 :: ·) ih

theorem admissible_insertOps (c : Pmt.Contents) : Pmt.Admissible c (insertOps keyOf inserts) := by
  induction inserts generalizing c with
  | nil => trivial
  | cons e inserts ih => exact ⟨trivial, ih _⟩

theorem entryOf_append_eq (u : Url) :
    entryOf (inserts ++ bpt) u = (entryOf inserts u).or (entryOf bpt u) := by
  unfold entryOf
  rw [List.find?_append]
  cases inserts.find? fun e => e.1 = u <;> simp

section Commit

variable (hkeys : AccountKeys keyOf accounts)
include hkeys

theorem foldl_insertOps_current (h : MapEntries accounts inserts) (c : Pmt.Contents) {u : Url}
    (hu : u ∈ accounts) :
    ((insertOps keyOf inserts).foldl Pmt.Op.apply c).current (keyOf u) =
      (entryOf inserts u).or (c.current (keyOf u)) := by
  induction inserts generalizing c with
  | nil => rfl
  | cons e inserts ih =>
    obtain ⟨hnodup, hmem⟩ := h
    rw [List.map_cons, List.nodup_cons] at hnodup
    rw [List.forall_mem_cons] at hmem
    show ((insertOps keyOf inserts).foldl Pmt.Op.apply _).current (keyOf u) = _
    rw [ih ⟨hnodup.2, hmem.2⟩]
    by_cases hv : e.1 = u
    · -- the account is inserted once, so it keeps the hash
      have hnone : (inserts.find? fun e => e.1 = u) = none := by
        rw [List.find?_eq_none]
        intro e' he' heq
        exact hnodup.1 (List.mem_map.2 ⟨e', he', by simpa [hv] using heq⟩)
      simp [entryOf, hnone, hv, Pmt.Op.apply]
    · have hne : keyOf u ≠ keyOf e.1 := fun heq => hv (hkeys.injOn u hu e.1 hmem.1 heq).symm
      simp [entryOf, hv, Pmt.Op.apply, hne]

theorem StoreHolds.commitBpt (h : StoreHolds combine keyOf accounts store m bpt)
    {batch : BptBatch} (hbatch : batch.Sound accounts) :
    ∃ store' m', commitBpt combine keyOf store batch = .ok store' ∧
      StoreHolds combine keyOf accounts store' m' (batch.inserts ++ bpt) := by
  obtain ⟨inserts, order⟩ := batch
  obtain ⟨hinserts, horder⟩ := hbatch
  unfold Records.commitBpt
  dsimp only at hinserts horder ⊢
  by_cases hnil : inserts = []
  · subst hnil
    exact ⟨store, m, rfl, h⟩
  obtain ⟨⟨b, hload, hb, -⟩, hm⟩ := h
  have hinserted : ∀ k ∈ Pmt.insertedKeys (insertOps keyOf inserts), k ∈ accounts.map keyOf := by
    rw [insertedKeys_insertOps, List.forall_mem_map]
    exact fun e he => List.mem_map_of_mem (hinserts.mem e he)
  obtain ⟨b₁, hrun, h₁⟩ := hb.run hkeys.separated hinserted (admissible_insertOps _)
  obtain ⟨D, hstands⟩ := h₁.tree
  obtain ⟨b₂, hupdate, -, hroot, -, b₀, hmask, hsame, hsettings⟩ := hstands.update horder
  obtain ⟨b₂', hupdate', -, h₂⟩ := h₁.update horder
  obtain rfl : b₂ = b₂' := Except.ok.inj (hupdate.symm.trans hupdate')
  have hentries : ∀ u ∈ accounts, ((insertOps keyOf inserts).foldl Pmt.Op.apply ⟨m, m⟩).current
      (keyOf u) = entryOf (inserts ++ bpt) u := by
    intro u hu
    rw [foldl_insertOps_current hkeys hinserts _ hu, entryOf_append_eq, ← hm u hu]
  -- the trie is not empty, so the store has its settings
  obtain ⟨b₃, hreload, h₃⟩ := h₂.reload (by
    obtain ⟨e, rest, rfl⟩ := List.exists_cons_of_ne_nil hnil
    refine ⟨keyOf e.1, ?_⟩
    show (List.foldl Pmt.Op.apply _ _).current (keyOf e.1) ≠ none
    rw [hentries e.1 (hinserts.mem e List.mem_cons_self)]
    simp [entryOf])
  refine ⟨b₂.store, _, ?_, ⟨b₃, hreload, h₃, ?_⟩, hentries⟩
  · rw [if_neg hnil, hload, Pmt.ok_bind, hrun, Pmt.ok_bind, hupdate]
    rfl
  · exact (Pmt.newBPTManager_rootHash hmask hsettings hreload).trans (hsame.trans hroot)

theorem StoreHolds.commitBatches (h : StoreHolds combine keyOf accounts store m bpt)
    {batches : List BptBatch} (hbatches : ∀ b ∈ batches, b.Sound accounts) :
    ∃ store' m', batches.foldlM (Records.commitBpt combine keyOf) store = .ok store' ∧
      StoreHolds combine keyOf accounts store' m'
        (batches.reverse.flatMap BptBatch.inserts ++ bpt) := by
  induction batches generalizing store m bpt with
  | nil => exact ⟨store, m, rfl, h⟩
  | cons b batches ih =>
    rw [List.forall_mem_cons] at hbatches
    obtain ⟨store₁, m₁, hcommit, h₁⟩ := h.commitBpt hkeys hbatches.1
    rw [List.foldlM_cons, hcommit, List.reverse_cons, List.flatMap_append, List.flatMap_singleton,
      List.append_assoc]
    exact ih h₁ hbatches.2

end Commit

/-- **The trie follows the accounts.**  After any number of root batches, the root hash is the
digest of the map that has the latest entry of every account and nothing else. -/
theorem commitBatches_bptRoot (combine : Hash → Hash → Hash) (hkeys : AccountKeys keyOf accounts)
    (batches : List BptBatch) (hbatches : ∀ b ∈ batches, b.Sound accounts) :
    ∃ store m, batches.foldlM (commitBpt combine keyOf) Pmt.Store.empty = .ok store ∧
      bptRoot combine store = .ok (Pmt.reference combine m) ∧
      (∀ u ∈ accounts, m (keyOf u) = entryOf (batches.reverse.flatMap BptBatch.inserts) u) ∧
      ∀ k ∉ accounts.map keyOf, m k = none := by
  have hempty : StoreHolds combine keyOf accounts Pmt.Store.empty (fun _ => none) [] := by
    refine ⟨⟨_, rfl, Pmt.holds_empty combine _, ?_⟩, fun _ _ => rfl⟩
    rw [Pmt.reference, (digest_eq_none_iff (Nat.zero_le _)).2 fun _ _ => rfl]
    rfl
  obtain ⟨store, m, hrun, ⟨b, hload, hb, hroot⟩, hm⟩ := hempty.commitBatches hkeys hbatches
  rw [List.append_nil] at hm
  refine ⟨store, m, hrun, ?_, hm, fun k hk => by_contra fun hne => hk (hb.currentKeys k hne)⟩
  rw [bptRoot, hload, ← hroot]
  rfl

def acmeBatches : List BptBatch :=
  [⟨[(acmeUrl, 1), (dnUrl, 3)], id⟩, ⟨[(acmeUrl, 2)], List.reverse⟩]

theorem commitBatches_bptRoot_acme : ∃ store m,
    acmeBatches.foldlM (commitBpt (· + ·) fun u => if u = dnUrl then 0 else 4) Pmt.Store.empty =
        .ok store ∧
      bptRoot (· + ·) store = .ok (Pmt.reference (· + ·) m) ∧ m 4 = some 2 ∧ m 0 = some 3 := by
  have hkeys : AccountKeys (fun u => if u = dnUrl then 0 else 4) [acmeUrl, dnUrl] := by
    constructor
    · decide
    · have hbit : (bits 4#256).take 255 ≠ (bits 0#256).take 255 := by decide +kernel
      simp [Pmt.SeparatedKeys, dnUrl, acmeUrl, hbit, hbit.symm]
  have hsound : ∀ b ∈ acmeBatches, b.Sound [acmeUrl, dnUrl] := by
    simp only [acmeBatches, List.forall_mem_cons]
    exact ⟨⟨⟨by decide, by decide⟩, List.Perm.refl⟩, ⟨⟨by decide, by decide⟩, List.reverse_perm⟩,
      nofun⟩
  obtain ⟨store, m, hrun, hroot, hm, -⟩ := commitBatches_bptRoot (· + ·) hkeys acmeBatches hsound
  exact ⟨store, m, hrun, hroot, hm acmeUrl (by decide), hm dnUrl (by decide)⟩

end Records
end Accumulate.Database
