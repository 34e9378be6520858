import Mathlib.Logic.Equiv.List
import Mathlib.Tactic.DeriveCountable
import Accumulate.Snapshot.Visit

/-!
# Accounts that come back

An account is collected with the history of its chains, marshalled, unmarshalled and restored into
an empty database.  This succeeds and gives the same chains if and only if no part of the account
is too large for the encoding and no transaction is pending: the writer refuses the encoding of a
chain with more than some 30 thousand entries, and the transactions that are pending have to be
there before the account can be hashed.
-/

namespace Accumulate
namespace Snapshot

open Library Protocol Record Database Database.Records

def readChain (lower : String → String) (u : Url) (name : String) :
    RecordM (Smt.MerkleState Hash × List Hash) := do
  let (chain, state) ← getChainByName lower u name
  let entries ← chainEntries u chain state.count 0 state.count
  return (state, entries)

/-- The account has the same chains in both databases, with the same heads and entries. -/
def SameChains (lower : String → String) (u : Url) (w w' : View) : Prop :=
  ∃ index : ChainIndex, w (.account u .chains) = .ok index ∧ w' (.account u .chains) = .ok index ∧
    ∀ c ∈ index.1, ∃ chain v v', exec (readChain lower u c.name) w = .ok (chain, v) ∧
      exec (readChain lower u c.name) w' = .ok (chain, v')

/-! ## The chains of the snapshot -/

theorem chainName_ne_empty (c : Chain2) : c.name ≠ "" := by
  have hne : ∀ name : ChainName, chainName name ≠ "" := by
    intro name
    cases name with
    | syntheticSequence p =>
      intro h
      exact absurd (String.append_eq_empty_iff.1 (String.append_eq_empty_iff.1 h).1).1 (by decide)
    | anchorRoot p
    | anchorBpt p => exact fun h => absurd (String.append_eq_empty_iff.1 h).2 (by decide)
    | _ => decide
  unfold Chain2.name
  split
  · exact fun h => absurd (String.append_eq_empty_iff.1 h).2 (by decide)
  · exact hne c.chain

section Snapshot

variable {enc : Encoding} {u : Url} {a : Contents}

theorem isHistory_snapshot : ∀ c ∈ (a.snapshot enc u true).chains, c.IsHistory := by
  intro c hc
  obtain ⟨d, -, rfl⟩ := List.mem_map.1 hc
  exact ⟨chainName_ne_empty d, rfl, rfl⟩

theorem setEntries_of_not_mem {m : List (String × List Hash)} {name : String}
    (h : name ∉ m.map Prod.fst) (entries : List Hash) :
    setEntries m name entries = m ++ [(name, entries)] := by
  unfold setEntries
  rw [List.filter_eq_self.2]
  intro p hp
  refine decide_eq_true fun hname => h ?_
  exact List.mem_map.2 ⟨p, hp, hname⟩

theorem chainsWithEntries_eq {chains : List Chain} (hnodup : (chains.map (·.name)).Nodup) :
    chainsWithEntries chains =
      (chains.filter fun c => c.entries ≠ []).map fun c => (c.name, c.entries) := by
  have hfold : ∀ (l : List Chain) (m : List (String × List Hash)), (l.map (·.name)).Nodup →
      (∀ c ∈ l, c.name ∉ m.map Prod.fst) →
        l.foldl (fun m c => if c.entries = [] then m else setEntries m c.name c.entries) m =
          m ++ (l.filter fun c => c.entries ≠ []).map fun c => (c.name, c.entries) := by
    intro l
    induction l with
    | nil => exact fun m _ _ => (List.append_nil m).symm
    | cons c l ih =>
      intro m hl hm
      obtain ⟨hc, hrest⟩ := List.forall_mem_cons.1 hm
      obtain ⟨hfresh, hl⟩ := List.nodup_cons.1 hl
      rw [List.foldl_cons]
      by_cases hempty : c.entries = []
      · rw [if_pos hempty, ih m hl hrest, List.filter_cons_of_neg (by simp [hempty])]
      rw [if_neg hempty, setEntries_of_not_mem hc, ih _ hl ?_,
        List.filter_cons_of_pos (by simp [hempty]), List.map_cons, List.append_assoc,
        List.singleton_append]
      intro d hd hmem
      rw [List.map_append, List.mem_append] at hmem
      rcases hmem with hmem | hmem
      · exact hrest d hd hmem
      · have hname : d.name = c.name := by simpa using hmem
        exact hfresh (List.mem_map.2 ⟨d, hd, hname⟩)
  have h := hfold chains [] hnodup fun _ _ => nofun
  rwa [List.nil_append] at h

theorem remaining_snapshot (enc : Encoding) (u : Url) {lower : String → String}
    (hnamed : a.Named lower) :
    Remaining a.index (fun c => (a.chain enc c).elements) (fun _ => [])
      (chainsWithEntries (a.snapshot enc u true).chains) := by
  have hnames : (a.snapshot enc u true).chains.map (·.name) = a.index.1.map (·.name) := by
    show (a.index.1.map _).map _ = _
    rw [List.map_map]
    rfl
  have hnodup : (a.index.1.map (·.name)).Nodup := by
    rw [List.nodup_iff_pairwise_ne, List.pairwise_map]
    exact a.index.2.imp fun hlt => ne_of_lt hlt
  have hmem : ∀ name entries, (name, entries) ∈ chainsWithEntries (a.snapshot enc u true).chains ↔
      ∃ c ∈ a.index.1, c.name = name ∧ (a.chain enc c).elements = entries ∧ entries ≠ [] := by
    intro name entries
    rw [chainsWithEntries_eq (hnames ▸ hnodup), List.mem_map]
    constructor
    · rintro ⟨s, hs, heq⟩
      obtain ⟨hs, hne⟩ := List.mem_filter.1 hs
      obtain ⟨c, hc, rfl⟩ := List.mem_map.1 hs
      obtain ⟨hname, hentries⟩ := Prod.mk.inj heq
      exact ⟨c, hc, hname, hentries, hentries ▸ of_decide_eq_true hne⟩
    · rintro ⟨c, hc, rfl, rfl, hne⟩
      exact ⟨snapshotOf c true (a.chain enc c), List.mem_filter.2
        ⟨List.mem_map.2 ⟨c, hc, rfl⟩, decide_eq_true hne⟩, rfl⟩
  refine ⟨?_, ?_, ?_, ?_⟩
  · rintro ⟨name, entries⟩ hp
    obtain ⟨c, hc, hname, -, -⟩ := (hmem name entries).1 hp
    exact ⟨c, hc, hname⟩
  · rw [chainsWithEntries_eq (hnames ▸ hnodup), List.map_map]
    refine List.Nodup.sublist ?_ (hnames ▸ hnodup)
    exact List.Sublist.map _ List.filter_sublist
  · intro c hc entries hin
    obtain ⟨d, hd, hname, hentries, -⟩ := (hmem _ _).1 hin
    obtain rfl : d = c := Except.ok.inj ((hnamed d hd).symm.trans (hname ▸ hnamed c hc))
    exact hentries.symm
  · intro c hc hnot
    by_contra hne
    exact hnot (List.mem_map.2 ⟨(c.name, (a.chain enc c).elements),
      (hmem _ _).2 ⟨c, hc, rfl, rfl, fun hempty => hne hempty.symm⟩, rfl⟩)

end Snapshot

/-! ## Restoring -/

section Restore

variable {enc : Encoding} {lower : String → String} {rt : Runtime} {u : Url} {a : Contents}
  {v : RestoreVisitor} {i : Nat} {hash : Hash}

/-- What `VisitAccount` is given. -/
def restored (enc : Encoding) (u : Url) (full : Bool) (a : Contents) (hash : Hash) : Account :=
  { a.snapshot enc u full with hash := hash }

theorem visitedChains_eq (v : RestoreVisitor) (full : Bool) :
    (if v.compressChains then (restored enc u full a hash).chains.map (compressChain enc.combine)
      else (restored enc u full a hash).chains) =
        (a.snapshot enc u (full && !v.compressChains)).chains := by
  cases v.compressChains with
  | false =>
    rw [if_neg Bool.false_ne_true, Bool.not_false, Bool.and_true]
    rfl
  | true =>
    rw [if_pos rfl, Bool.not_true, Bool.and_false]
    refine List.map_map.trans (List.map_congr_left fun c _ => ?_)
    exact compressChain_snapshotOf c full (a.calls c)

theorem index_eq {index index' : ChainIndex} (h : ∀ c, c ∈ index.1 ↔ c ∈ index'.1) :
    index = index' := by
  have hnodup : ∀ i : ChainIndex, i.1.Nodup := fun i =>
    i.2.imp fun {x y} hlt heq => absurd (heq ▸ hlt) (lt_irrefl y.name)
  have hperm : index.1.Perm index'.1 :=
    (List.perm_ext_iff_of_nodup (hnodup index) (hnodup index')).2 h
  refine Subtype.ext (hperm.eq_of_pairwise ?_ index.2 index'.2)
  intro x y _ _ hxy hyx
  exact absurd (hxy.trans hyx) (lt_irrefl _)

theorem run_puts_ne_none {α : Type} {p : RecordM α} {r : Except Error α} {below : View}
    {L L' : DbLayer} {k : Key} (hrun : p.run (Layer.machine below) L = (r, L'))
    (h : L.puts k ≠ none) : L'.puts k ≠ none := by
  have hkept : (p.run (Layer.machine below) L).2.puts k ≠ none := Layer.run_puts_ne_none p h
  rwa [hrun] at hkept

/-- The first part of `VisitAccount` on an empty database: everything but the entries. -/
theorem visit_heads (rt : Runtime) (v : RestoreVisitor) (i : Nat) (hnamed : a.Named lower)
    (hsorted : a.Sorted) (henc : Encodes enc u a) (full kept force : Bool) :
    ∃ s₁ s₂ s₃ b L, visit enc rt v i 10000 force emptyState = .ok ((), s₁) ∧
      onBatch enc (restoreAccount (restored enc u full a hash)) s₁ = .ok ((), s₂) ∧
      onBatch enc (restoreHeads lower u (a.snapshot enc u kept).chains) s₂ = .ok ((), s₃) ∧
      s₃.batch = some b ∧ Represents enc.schema s₃.db b [L] ∧
      L.puts (.account u .pending) ≠ none ∧ Changes enc u a L ∧
      Progress u a a.index (fun c => .ofHead ⟨(snapshotOf c kept (a.chain enc c)).count,
        (snapshotOf c kept (a.chain enc c)).pending, []⟩)
        (L.contents (enc.schema.fetch s₃.db)) := by
  have hvisit : visit enc rt v i 10000 force emptyState =
      .ok ((), ⟨some (.root (.new true)), fun _ => none, []⟩) := by
    refine VisitM.bind_eq_ok.2 ⟨emptyState, emptyState, rfl, ?_⟩
    rw [show (force || emptyState.batch.isNone ||
      (decide (i % 10000 = 0) && !v.disableWriteBatching)) = true by simp [emptyState]]
    rfl
  obtain ⟨L₁, hrun₁, hput₁, hchanges₁, hprogress₁⟩ := run_restoreAccount henc hsorted full hash
  have hrep : Represents enc.schema (fun _ => none) (.root (.new true) : DbBatch) [.new true] :=
    .root (levelOf_new true) fun _ _ => rfl
  obtain ⟨b₁, hrep₁, hon₁⟩ := onBatch_eq
    (s := ⟨some (.root (.new true)), fun _ => none, []⟩) rfl hrep hrun₁
  have hnone : ∀ d ∈ (⟨[], .nil⟩ : ChainIndex).1, ∀ c ∈ a.index.1, d.name < c.name :=
    fun _ hd => absurd hd nofun
  obtain ⟨L₂, index, hrun₂, hchanges₂, hprogress₂, hmem⟩ :=
    run_restoreHeads (snapshotOf_name · kept _) (fun _ hc => hc) hnamed a.index.2 hnone hchanges₁
      hprogress₁
  obtain ⟨b₂, hrep₂, hon₂⟩ := onBatch_eq (s := ⟨some b₁, fun _ => none, []⟩) rfl hrep₁ hrun₂
  have hput₂ : L₂.puts (.account u .pending) ≠ none := run_puts_ne_none hrun₂ hput₁
  obtain rfl : index = a.index := index_eq fun c => (hmem c).trans (by simp)
  exact ⟨_, _, _, b₂, L₂, hvisit, hon₁, hon₂, rfl, hrep₂, hput₂, hchanges₂, hprogress₂⟩

/-- A batch with a pending transaction that is missing cannot be committed. -/
theorem refreshBatch_fails {s s' : DbState} {b : DbBatch} {L : DbLayer} {r : Chain2 → ChainRecords}
    (hrt : rt.Restores u) (hpending : a.pending ≠ []) (hb : s.batch = some b)
    (hrep : Represents enc.schema s.db b [L]) (hput : L.puts (.account u .pending) ≠ none)
    (hchanges : Changes enc u a L)
    (h : Progress u a a.index r (L.contents (enc.schema.fetch s.db))) :
    refreshBatch enc rt s ≠ .ok ((), s') := by
  intro hrefresh
  have hfinite : {k | b.isDirty k = true}.Finite := by
    rw [dirty_eq hrep]
    exact hchanges.finite
  obtain ⟨fields, hopened, hfields⟩ := hrt.opened b hfinite
  obtain ⟨_, s₁, hcommit, -⟩ := VisitM.bind_eq_ok.1 hrefresh
  have hroot := (commitBatch_eq_ok hb hopened).1 hcommit
  have hprepares : L.Prepares (enc.schema.fetch s.db) [(Opened.account u fields).part enc] := by
    refine (hrep.commit_root hchanges.writable ?_ ?_ hroot).2.2.1
    · simpa using putsIn_part enc (.account u fields)
    · exact fun k hk => ⟨_, List.mem_singleton.2 rfl, mem_keys_of_changes hrep hchanges hfields hk⟩
  obtain ⟨new, hprepared, hnew⟩ := prepared_commitAccount hprepares.1
  have hmem : AccountField.pending ∈ fields := by
    refine hfields _ ?_
    have hdirty : Key.account u .pending ∈ {k | b.isDirty k = true} := by
      rw [dirty_eq hrep]
      exact hput
    exact hdirty
  obtain ⟨hash, hin⟩ := hnew .pending hmem hput
  exact h.hashOf_error hpending hash (hprepared.hashes _ hin)

theorem addRounds_heads {s : DbState} :
    addRounds enc lower rt u (chainsWithEntries (a.snapshot enc u false).chains) s =
      .ok ((), s) := by
  have hnone : ∀ cs : List Chain2, chainsWithEntries
      (cs.map fun c => snapshotOf c false (a.chain enc c)) = [] := by
    intro cs
    induction cs with
    | nil => rfl
    | cons c cs ih => exact ih
  rw [show chainsWithEntries (a.snapshot enc u false).chains = [] from hnone _]
  unfold addRounds
  rfl

theorem visitAccount_ok (hrt : rt.Restores u) (v : RestoreVisitor) (full : Bool)
    (hnamed : a.Named lower) (hsorted : a.Sorted) (hchecked : a.Checked enc)
    (henc : Encodes enc u a)
    {w : View} (hw : HasAccount enc w u a) (hhash : hashOf enc w u = .ok hash)
    (hpending : a.pending = []) :
    ∃ s b, visitAccount enc lower rt v (some (restored enc u full a hash)) i emptyState =
        .ok ((), s) ∧ s.batch = some b ∧
      Progress u a a.index (fun c => (snapshotOf c (full && !v.compressChains)
        (a.chain enc c)).records enc.combine) (valuesOf enc s.db b) := by
  generalize hkept : (full && !v.compressChains) = kept
  obtain ⟨s₁, s₂, s₃, b, L, hvisit, haccount, hheads, hb, hrep, -, hchanges, hprogress⟩ :=
    visit_heads rt v i hnamed hsorted henc full kept
      ((a.snapshot enc u kept).chains.any fun c => 0 < c.entries.length)
  -- the entries are added
  obtain ⟨s₄, b₄, L₄, hrounds, hb₄, hrep₄, hprogress₄⟩ : ∃ s₄ b₄ L₄,
      addRounds enc lower rt u (chainsWithEntries (a.snapshot enc u kept).chains) s₃ =
        .ok ((), s₄) ∧
      s₄.batch = some b₄ ∧ Represents enc.schema s₄.db b₄ [L₄] ∧
      Progress u a a.index (fun c => (snapshotOf c kept (a.chain enc c)).records enc.combine)
        (L₄.contents (enc.schema.fetch s₄.db)) := by
    cases kept with
    | false => exact ⟨s₃, b, L, addRounds_heads, hb, hrep, hprogress⟩
    | true =>
      obtain ⟨s₄, done, hrounds, ⟨b₄, L₄, hb₄, hrep₄, -, hprogress₄⟩, htotal⟩ :=
        Visiting.addRounds hrt henc hchecked hpending hnamed (remaining_snapshot enc u hnamed)
          ⟨b, L, hb, hrep, hchanges, hprogress⟩
      refine ⟨s₄, b₄, L₄, hrounds, hb₄, hrep₄, { hprogress₄ with chain := fun c hc => ?_ }⟩
      have hchain := hprogress₄.chain c hc
      rw [htotal c hc] at hchain
      exact hchain
  -- the hash is the one of the snapshot
  have hsame : hashOf enc (L₄.contents (enc.schema.fetch s₄.db)) u = .ok hash := by
    rw [← hhash, hashOf_eq hw.main hw.directory hw.chains (fun c hc => (hw.chain c hc).head)
      (hpending ▸ hw.pending), hashOf_eq hprogress₄.main hprogress₄.directory hprogress₄.chains
      (fun c hc => (hprogress₄.chain c hc).head) (hpending ▸ hprogress₄.pending)]
    exact accountHash_congr fun c _ => (sameHead_records c kept (a.calls c)).symm
  have hverify : (verifyHash enc u hash).run (Layer.machine (enc.schema.fetch s₄.db)) L₄ =
      (.ok (), L₄) := by
    unfold verifyHash
    rw [Script.run_bind, run_hashState, hsame]
    dsimp only
    rw [if_pos rfl]
    rfl
  obtain ⟨b₅, hrep₅, hon₅⟩ := onBatch_eq hb₄ hrep₄ hverify
  refine ⟨{ s₄ with batch := some b₅ }, b₅, ?_, rfl, ?_⟩
  · unfold visitAccount
    dsimp only
    rw [visitedChains_eq, hkept]
    exact VisitM.bind_eq_ok.2 ⟨(), s₁, hvisit, VisitM.bind_eq_ok.2 ⟨(), s₂, haccount,
      VisitM.bind_eq_ok.2 ⟨(), s₃, hheads, VisitM.bind_eq_ok.2 ⟨(), s₄, hrounds, hon₅⟩⟩⟩⟩
  · rw [valuesOf_eq hrep₅]
    exact hprogress₄

theorem visitAccount_fails (hrt : rt.Restores u) (hv : v.compressChains = false)
    (hnamed : a.Named lower) (hsorted : a.Sorted) (henc : Encodes enc u a)
    (hpending : a.pending ≠ []) (s : DbState) :
    visitAccount enc lower rt v (some (restored enc u true a hash)) i emptyState ≠ .ok ((), s) := by
  intro hrun
  obtain ⟨s₁, s₂, s₃, b, L, hvisit, haccount, hheads, hb, hrep, hput, hchanges, hprogress⟩ :=
    visit_heads rt v i hnamed hsorted henc true true
      ((a.snapshot enc u true).chains.any fun c => 0 < c.entries.length)
  unfold visitAccount at hrun
  dsimp only at hrun
  rw [visitedChains_eq, hv, Bool.not_false, Bool.and_true] at hrun
  obtain ⟨_, t₁, ht₁, hrun⟩ := VisitM.bind_eq_ok.1 hrun
  obtain ⟨-, rfl⟩ := Prod.mk.inj (Except.ok.inj (hvisit.symm.trans ht₁))
  obtain ⟨_, t₂, ht₂, hrun⟩ := VisitM.bind_eq_ok.1 hrun
  obtain ⟨-, rfl⟩ := Prod.mk.inj (Except.ok.inj (haccount.symm.trans ht₂))
  obtain ⟨_, t₃, ht₃, hrun⟩ := VisitM.bind_eq_ok.1 hrun
  obtain ⟨-, rfl⟩ := Prod.mk.inj (Except.ok.inj (hheads.symm.trans ht₃))
  obtain ⟨_, t₄, ht₄, hrun⟩ := VisitM.bind_eq_ok.1 hrun
  have hremaining := remaining_snapshot enc u hnamed
  unfold addRounds at ht₄
  split at ht₄
  · -- without entries the batch is not committed, and hashing fails in the end
    cases ht₄
    have herror : ∃ e, (verifyHash enc u hash).run (Layer.machine (enc.schema.fetch s₃.db)) L =
        (.error e, L) := by
      unfold verifyHash
      rw [Script.run_bind, run_hashState]
      cases hhash : hashOf enc (L.contents (enc.schema.fetch s₃.db)) u with
      | ok h => exact absurd hhash (hprogress.hashOf_error hpending h)
      | error e => exact ⟨e, rfl⟩
    obtain ⟨e, he⟩ := herror
    obtain ⟨b', -, hon⟩ := onBatch_eq hb hrep he
    exact absurd (hon.symm.trans hrun) nofun
  · obtain ⟨_, t₅, ht₅, hrest⟩ := VisitM.bind_eq_ok.1 ht₄
    obtain ⟨_, t₆, ht₆, -⟩ := VisitM.bind_eq_ok.1 hrest
    have horder := hrt.order (chainsWithEntries (a.snapshot enc u true).chains)
    have hprogress : Progress u a a.index (fun _ => entriesOf enc []) _ := hprogress
    obtain ⟨L', done', hround, hchanges', hprogress', -, -⟩ := run_addRound hnamed
      (fun p hp => hremaining.names p (horder.mem_iff.1 hp))
      ((horder.map Prod.fst).nodup_iff.2 hremaining.nodup) hchanges hprogress
    obtain ⟨b', hrep', hon⟩ := onBatch_eq hb hrep hround
    obtain ⟨-, rfl⟩ := Prod.mk.inj (Except.ok.inj (hon.symm.trans ht₅))
    exact refreshBatch_fails (s := { s₃ with batch := some b' }) hrt hpending rfl hrep'
      (run_puts_ne_none hround hput) hchanges' hprogress' ht₆

end Restore

/-! ## The round trip -/

section Chains

variable {enc : Encoding} {lower : String → String} {u : Url} {a : Contents} {w w' : View}
  {c : Chain2} {index : ChainIndex}

theorem exec_readChain (hname : chainByName lower c.name = .ok c)
    (hindex : w (.account u .chains) = .ok index) (hc : c ∈ index.1) {calls : List (Hash × Bool)}
    (h : HasChain w u c (.ofChain (builtChain enc.combine calls))) :
    ∃ v, exec (readChain lower u c.name) w =
      .ok (((builtChain enc.combine calls).head, (builtChain enc.combine calls).elements), v) := by
  have hget := run_getChainByName_mem (L := .new true) hindex hname hc h
  refine ⟨(Layer.new true : DbLayer).contents w, exec_eq_ok ?_⟩
  unfold readChain
  rw [Script.run_bind, hget]
  show (chainEntries u c (builtChain enc.combine calls).head.count 0
    (builtChain enc.combine calls).head.count >>= _).run _ _ = _
  rw [Script.run_bind, run_entries (L := .new true) h (wellFormed_builtChain enc.combine calls)
    (builtChain_markPower calls)]
  rfl

theorem sameChains_of_progress (hnamed : a.Named lower) (hw : HasAccount enc w u a)
    (h : Progress u a a.index
      (fun c => (snapshotOf c true (a.chain enc c)).records enc.combine) w') :
    SameChains lower u w w' := by
  refine ⟨a.index, hw.chains, h.chains, fun c hc => ?_⟩
  obtain ⟨v, hread⟩ := exec_readChain (hnamed c hc) hw.chains hc (hw.chain c hc)
  have hchain : HasChain w' u c (.ofChain (rebuiltChain enc.combine (a.chain enc c).elements)) :=
    entriesOf_eq enc _ ▸ h.chain c hc
  obtain ⟨v', hread'⟩ := exec_readChain (hnamed c hc) h.chains hc hchain
  refine ⟨_, v, v', hread, hread'.trans ?_⟩
  have hhead : (rebuiltChain enc.combine (a.chain enc c).elements).head = (a.chain enc c).head :=
    rebuiltChain_head (a.calls c)
  have helements : (rebuiltChain enc.combine (a.chain enc c).elements).elements =
      (a.chain enc c).elements := rebuiltChain_elements _
  exact congrArg Except.ok (congrArg (·, v') (Prod.ext hhead helements))

end Chains

def mainChain : Chain2 := ⟨.main, false, nofun⟩

def oneChain (c : Chain2) (entries : List Hash) : Contents where
  main := none
  pending := []
  directory := []
  index := ⟨[c], List.pairwise_singleton _ _⟩
  calls := fun _ => entries.map fun e => (e, false)

theorem exists_oneChain (enc : Encoding) (u : Url) {c : Chain2} (entries : List Hash)
    (hnamed : (oneChain c entries).Named id) :
    ∃ w, HasAccount enc w u (oneChain c entries) ∧ ∃ hash, hashOf enc w u = .ok hash := by
  have hempty : Progress u (oneChain c entries) ⟨[], .nil⟩ (fun _ => .ofHead ⟨0, [], []⟩)
      ((Layer.new true : DbLayer).contents (emptyView enc)) := progress_empty rfl rfl rfl
  have hnone : ∀ d ∈ (⟨[], .nil⟩ : ChainIndex).1, ∀ e ∈ [c], d.name < e.name :=
    fun _ hd => absurd hd nofun
  obtain ⟨L₁, index, -, hchanges₁, hprogress₁, hmem⟩ :=
    run_restoreHeads (s := fun d => ⟨d.name, .transaction, 0, [], []⟩) (fun _ => rfl)
      (fun _ hc => hc) hnamed (oneChain c entries).index.2 hnone changes_new hempty
  obtain rfl : index = (oneChain c entries).index :=
    index_eq fun d => (hmem d).trans (or_iff_right nofun)
  have hprogress₁ : Progress u _ (oneChain c entries).index (fun _ => entriesOf enc []) _ :=
    hprogress₁
  have hc : c ∈ (oneChain c entries).index.1 := List.mem_singleton.2 rfl
  obtain ⟨L₂, -, -, hprogress₂⟩ := run_restoreEntries_progress hc entries hchanges₁ hprogress₁
  refine ⟨_, ⟨hprogress₂.main, hprogress₂.pending, hprogress₂.directory, hprogress₂.chains,
    List.forall_mem_singleton.2 ?_⟩, hprogress₂.hashOf_ok nofun rfl⟩
  have hchain := hprogress₂.chain c hc
  rw [entriesOf_eq, Function.update_self] at hchain
  exact hchain

def longAccount : Contents := oneChain mainChain (List.replicate 30841 7)

def plainFormat : Format where
  marshalMain := fun _ => .error "not marshalled"
  unmarshalMain := fun _ => .error "not unmarshalled"
  urlString := fun u => stringBytes (String.ofList u.toChars)
  parseUrl := fun b =>
    if b = stringBytes (String.ofList aliceUrl.toChars) then .ok aliceUrl else .error "not parsed"
  txidString := fun t => hashBytes t.hash
  parseTxID := fun _ => .error "not parsed"

section Countable

instance countableString : Countable String := by
  have hchar : Countable Char := Function.Injective.countable (f := Char.toNat) fun _ _ h =>
    Char.ext (UInt32.toNat_inj.1 h)
  exact Function.Injective.countable (f := String.toList) fun _ _ h => String.toList_inj.1 h

instance : Countable Hash :=
  Function.Injective.countable (f := BitVec.toNat) fun _ _ h => BitVec.eq_of_toNat_eq h

deriving instance Countable for Host, Url, TxID, ChainName, Chain2, Smt.MerkleState

theorem exists_encoding : ∃ enc : Encoding, ∀ k, Countable k.Value → ∀ v, enc.Stores k v := by
  classical
  have hnumber : ∀ k : Key, ∃ g : k.Value → Nat, Countable k.Value → Function.Injective g := by
    intro k
    by_cases hk : Countable k.Value
    · obtain ⟨g, hg⟩ := hk.exists_injective_nat
      exact ⟨g, fun _ => hg⟩
    · exact ⟨fun _ => 0, fun h => absurd h hk⟩
  choose g hg using hnumber
  refine ⟨{ zeroEncoding with
    marshal := fun k v => .ok (List.replicate (g k v + 1) 0)
    unmarshal := fun k b =>
      match Function.partialInv (g k) (b.length - 1) with
      | some v => .ok v
      | none => .error errNotEncoded }, fun k hk v => ⟨_, rfl, List.cons_ne_nil _ _, ?_⟩⟩
  dsimp only
  rw [List.length_replicate, Nat.add_sub_cancel, Function.partialInv_left (hg k hk)]

theorem exists_runtime (u : Url) : ∃ rt : Runtime, rt.Restores u := by
  have hfields : ∀ b : DbBatch, ∃ fields : List AccountField,
      {k | b.isDirty k = true}.Finite → ∀ f, b.isDirty (.account u f) = true → f ∈ fields := by
    intro b
    by_cases hb : {k | b.isDirty k = true}.Finite
    · have hinj : Function.Injective (Key.account u) := fun _ _ h => (Key.account.inj h).2
      refine ⟨(hb.preimage hinj.injOn).toFinset.toList, fun _ f hf => ?_⟩
      rw [Finset.mem_toList, Set.Finite.mem_toFinset]
      exact hf
    · exact ⟨[], fun h => absurd h hb⟩
  choose fields hfields using hfields
  exact ⟨⟨id, fun b => [.account u (fields b)]⟩, fun l => List.Perm.refl l,
    fun b hb => ⟨fields b, rfl, hfields b hb⟩⟩

end Countable

theorem exists_encodes (u : Url) :
    ∃ enc, ∀ c entries, Encodes enc u (oneChain c entries) := by
  obtain ⟨enc, hstores⟩ := exists_encoding
  refine ⟨enc, fun c entries => ⟨hstores _ (inferInstanceAs (Countable Url)) _, nofun,
    hstores _ (inferInstanceAs (Countable (List Url))) _,
    hstores _ (inferInstanceAs (Countable (List TxID))) _,
    hstores _ (inferInstanceAs (Countable ChainIndex)) _, fun _ _ _ _ _ _ f v _ => hstores _ ?_ v⟩⟩
  cases f with
  | head | states i => exact inferInstanceAs (Countable (Smt.MerkleState Hash))
  | elementIndex h => exact inferInstanceAs (Countable Nat)
  | element i => exact inferInstanceAs (Countable Hash)

end Snapshot
end Accumulate
