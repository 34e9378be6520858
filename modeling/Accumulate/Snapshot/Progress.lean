import Accumulate.Snapshot.Collect

/-!
# How far an account has been restored

`Progress` says which part of an account the records hold while it is being restored: the main
state, the directory and the pending transactions, the chains of the index, and the records of
each chain. The programs of the visitor extend it and a commit keeps it.
-/

namespace Accumulate.Snapshot

open Library Protocol Record Database Database.Records

/-! ## Changes -/

def ChainKey (u : Url) (a : Contents) : Key → Prop
  | .account v .chains => v = u
  | .account v (.chain c _) => v = u ∧ c ∈ a.index.1
  | _ => False

/-- The records that are written when the account is restored. -/
def RestoredKey (u : Url) (a : Contents) : Key → Prop
  | .account _ (.syntheticForAnchor _) => False
  | .account v (.chain c _) => v = u ∧ c ∈ a.index.1
  | .account v _ => v = u
  | _ => False

/-- The chain with the given entries, as the visitor adds them. -/
def entriesOf (enc : Encoding) (entries : List Hash) : ChainRecords :=
  ChainRecords.empty.addHashes enc.combine (entries.map fun e => (e, false))

/-- The records that are written when the account is restored can be written and read back: for a
chain, those that hold some of its first entries. -/
structure Encodes (enc : Encoding) (u : Url) (a : Contents) : Prop where
  url : enc.Stores (.account u .url) u
  main : ∀ m, a.main = some m → enc.Stores (.account u .main) m
  directory : enc.Stores (.account u .directory) a.directory
  pending : enc.Stores (.account u .pending) a.pending
  chains : enc.Stores (.account u .chains) a.index
  chain : ∀ c ∈ a.index.1, ∀ done, done <+: (a.chain enc c).elements → ∀ w,
    HasChain w u c (entriesOf enc done) → ∀ f v, w (.account u (.chain c f)) = .ok v →
      enc.Stores (.account u (.chain c f)) v

/-- The changes of a batch are finitely many, of the account, and can be stored if they are none of
chains. -/
structure Changes (enc : Encoding) (u : Url) (a : Contents) (L : DbLayer) : Prop where
  writable : L.writable = true
  finite : {k | L.puts k ≠ none}.Finite
  keys : ∀ k, L.puts k ≠ none → RestoredKey u a k
  stores : ∀ k v, L.puts k = some v → ChainKey u a k ∨ enc.Stores k v

abbrev emptyView (enc : Encoding) : View := enc.schema.fetch fun _ => none

section Changes

variable {enc : Encoding} {u : Url} {a : Contents} {L : DbLayer} {below : View}

theorem changes_new : Changes enc u a (.new true) where
  writable := rfl
  finite := by
    have hnone : {k | (Layer.new true : DbLayer).puts k ≠ none} = ∅ :=
      Set.eq_empty_of_forall_notMem fun _ hk => hk rfl
    rw [hnone]
    exact Set.finite_empty
  keys := fun _ hk => absurd rfl hk
  stores := fun _ _ hk => absurd hk nofun

theorem Changes.put (h : Changes enc u a L) {k : Key} {v : k.Value} (hk : RestoredKey u a k)
    (hv : ChainKey u a k ∨ enc.Stores k v) : Changes enc u a (L.put k v) where
  writable := h.writable
  finite := by
    refine (h.finite.insert k).subset fun j hj => ?_
    by_cases hjk : j = k
    · exact .inl hjk
    · simpa [Layer.put, hjk] using hj
  keys := by
    intro j hj
    by_cases hjk : j = k
    · exact hjk ▸ hk
    · refine h.keys j ?_
      simpa [Layer.put, hjk] using hj
  stores := by
    intro j w hj
    by_cases hjk : j = k
    · subst hjk
      obtain rfl : v = w := by simpa [Layer.put] using hj
      exact hv
    · refine h.stores j w ?_
      simpa [Layer.put, hjk] using hj

theorem Changes.run {α : Type} {p : RecordM α} {L' : DbLayer} {r : Except Error α}
    (h : Changes enc u a L) (hp : p.PutsIn (ChainKey u a) fun _ => True)
    (hrun : p.run (Layer.machine below) L = (r, L')) : Changes enc u a L' := by
  suffices hafter : Changes enc u a (p.run (Layer.machine below) L).2 by rwa [hrun] at hafter
  refine Script.run_keeps (R := fun L' : DbLayer => Changes enc u a L') (fun _ _ h => h) ?_
    (fun _ _ _ h => ⟨h.writable, h.finite, h.keys, h.stores⟩) hp h
  intro k v L' hk h'
  refine h'.put ?_ (.inl hk)
  cases k with
  | account v f => cases f <;> first | exact hk | exact hk.elim
  | _ => exact hk.elim

end Changes

/-! ## Progress -/

theorem entriesOf_append (enc : Encoding) (l m : List Hash) :
    (entriesOf enc l).addHashes enc.combine (m.map fun e => (e, false)) =
      entriesOf enc (l ++ m) := by
  unfold entriesOf ChainRecords.addHashes
  rw [List.map_append, List.foldl_append]

theorem entriesOf_eq (enc : Encoding) (entries : List Hash) :
    entriesOf enc entries = .ofChain (rebuiltChain enc.combine entries) :=
  (ofChain_builtChain enc.combine _).symm

/-- The records hold the main state, the directory and the pending transactions of the account, and
the chains of the index as far as they have been restored. -/
structure Progress (u : Url) (a : Contents) (index : ChainIndex) (r : Chain2 → ChainRecords)
    (w : View) : Prop where
  main : Reads (w (.account u .main)) a.main
  pending : w (.account u .pending) = .ok a.pending
  directory : w (.account u .directory) = .ok a.directory
  chains : w (.account u .chains) = .ok index
  chain : ∀ c ∈ index.1, HasChain w u c (r c)
  absent : ∀ c, c ∉ index.1 → HasChain w u c .empty
  url : UrlReadable w u
  transaction : ∀ h, ∃ e, w (.transaction h .main) = .error e

/-- The record is of the account, but it is none of its chains. -/
def PlainKey (u : Url) : Key → Prop
  | .account v .main => v = u
  | .account v .pending => v = u
  | .account v .directory => v = u
  | .account v .url => v = u
  | .transaction _ .main => True
  | _ => False

theorem not_chainKey_of_plainKey {u : Url} {a : Contents} {k : Key} (h : PlainKey u k) :
    ¬ ChainKey u a k := by
  cases k with
  | account v f => cases f <;> first | exact fun hk => hk | exact h.elim
  | _ => exact fun hk => hk

section Progress

variable {u : Url} {a : Contents} {index index' : ChainIndex} {r r' : Chain2 → ChainRecords}
  {w w' : View}

theorem Progress.extend (h : Progress u a index r w) (hplain : ∀ k, PlainKey u k → w' k = w k)
    (hchains : w' (.account u .chains) = .ok index')
    (hchain : ∀ c ∈ index'.1, HasChain w' u c (r' c))
    (habsent : ∀ c, c ∉ index'.1 → HasChain w' u c .empty) : Progress u a index' r' w' where
  main := by
    rw [hplain (.account u .main) rfl]
    exact h.main
  pending := (hplain (.account u .pending) rfl).trans h.pending
  directory := (hplain (.account u .directory) rfl).trans h.directory
  chains := hchains
  chain := hchain
  absent := habsent
  url := by
    intro e he
    rw [hplain (.account u .url) rfl] at he
    exact h.url e he
  transaction := by
    intro hash
    rw [hplain (.transaction hash .main) trivial]
    exact h.transaction hash

theorem Progress.congr (h : Progress u a index r w) (hurl : UrlReadable w' u)
    (hsame : ∀ k, k ≠ .account u .url → w' k = w k) : Progress u a index r w' where
  main := by
    rw [hsame (.account u .main) (by simp)]
    exact h.main
  pending := (hsame _ (by simp)).trans h.pending
  directory := (hsame _ (by simp)).trans h.directory
  chains := (hsame _ (by simp)).trans h.chains
  chain := fun c hc => (h.chain c hc).congr fun k hk => hsame k (by rintro rfl; exact hk)
  absent := fun c hc => (h.absent c hc).congr fun k hk => hsame k (by rintro rfl; exact hk)
  url := hurl
  transaction := by
    intro hash
    rw [hsame (.transaction hash .main) (by simp)]
    exact h.transaction hash

end Progress

/-! ## The programs of the visitor -/

structure Contents.Sorted (a : Contents) : Prop where
  directory : a.directory.Pairwise fun x y => (Url.compare x y).isLE
  pending : a.pending.Pairwise fun x y => (compareTxID x y).isLE

theorem sortSet_eq {α : Type} {compare : α → α → Ordering} {l : List α}
    (h : l.Pairwise fun x y => (compare x y).isLE) : sortSet compare l = l :=
  List.mergeSort_of_pairwise h

section Run

variable {enc : Encoding} {lower : String → String} {u : Url} {a : Contents} {index : ChainIndex}
  {r : Chain2 → ChainRecords} {below : View} {L : DbLayer}

theorem progress_empty (hmain : a.main = none) (hpending : a.pending = [])
    (hdirectory : a.directory = []) :
    Progress u a ⟨[], .nil⟩ r (emptyView enc) where
  main := by
    rw [hmain]
    exact ⟨_, rfl, rfl⟩
  pending := by
    rw [hpending]
    rfl
  directory := by
    rw [hdirectory]
    rfl
  chains := rfl
  chain := nofun
  absent := fun _ _ => hasChain_fetch fun _ _ => rfl
  url := by
    intro e he
    obtain rfl := Except.error.inj he
    rfl
  transaction := fun _ => ⟨_, rfl⟩

theorem run_restoreAccount (henc : Encodes enc u a) (hsorted : a.Sorted) (full : Bool)
    (hash : Hash) :
    ∃ L', (restoreAccount { a.snapshot enc u full with hash := hash }).run
        (Layer.machine (emptyView enc)) (.new true) = (.ok (), L') ∧
      L'.puts (.account u .pending) ≠ none ∧ Changes enc u a L' ∧
      Progress u a ⟨[], .nil⟩ r (L'.contents (emptyView enc)) := by
  have hempty : Progress u ⟨none, [], [], a.index, a.calls⟩ ⟨[], .nil⟩ r (emptyView enc) :=
    progress_empty rfl rfl rfl
  -- the layer after the main state
  obtain ⟨L₁, hmain, hchanges, hread, hrest⟩ : ∃ L₁ : DbLayer,
      (saveMain u a.main).run (Layer.machine (emptyView enc)) (.new true) =
          (.ok (), L₁) ∧ Changes enc u a L₁ ∧
        Reads (L₁.contents (emptyView enc) (.account u .main)) a.main ∧
        ∀ k, k ≠ .account u .main → L₁.contents (emptyView enc) k =
          emptyView enc k := by
    cases hm : a.main with
    | none => exact ⟨_, rfl, changes_new, hempty.main, fun _ _ => rfl⟩
    | some m =>
      refine ⟨_, rfl, changes_new.put rfl (.inr (henc.main m hm)), ?_, fun k hk => ?_⟩
      · exact contents_put_self (k := .account u .main) m
      · exact contents_put_of_ne hk
  refine ⟨(L₁.put (.account u .directory) a.directory).put (.account u .pending) a.pending, ?_,
    by simp [Layer.put], (hchanges.put (k := .account u .directory) rfl (.inr henc.directory)).put
      (k := .account u .pending) rfl (.inr henc.pending), ?_⟩
  · show (saveMain u a.main >>= fun _ =>
      put (.account u .directory) (sortSet Url.compare a.directory) >>=
      fun _ => put (.account u .pending) (sortSet compareTxID a.pending)).run _ _ = _
    rw [Script.run_bind, hmain, sortSet_eq hsorted.directory, sortSet_eq hsorted.pending]
    rfl
  · -- the other records are those of the empty database
    have hother : ∀ k, k ≠ .account u .main → k ≠ .account u .directory → k ≠ .account u .pending →
        ((L₁.put (.account u .directory) a.directory).put (.account u .pending) a.pending).contents
          (emptyView enc) k = emptyView enc k := by
      intro k hk₁ hk₂ hk₃
      rw [contents_put_of_ne hk₃, contents_put_of_ne hk₂, hrest k hk₁]
    refine ⟨?_, ?_, ?_, ?_, fun _ hc => absurd hc List.not_mem_nil, fun c hc => ?_, ?_,
      fun hash => ?_⟩
    · rw [contents_put_of_ne (by simp), contents_put_of_ne (by simp)]
      exact hread
    · exact contents_put_self (k := .account u .pending) a.pending
    · rw [contents_put_of_ne (by simp)]
      exact contents_put_self (k := .account u .directory) a.directory
    · rw [hother _ (by simp) (by simp) (by simp)]
      exact hempty.chains
    · refine (hempty.absent c hc).congr fun k hk => hother k ?_ ?_ ?_ <;>
        · rintro rfl
          exact hk
    · intro e he
      rw [hother _ (by simp) (by simp) (by simp)] at he
      exact hempty.url e he
    · rw [hother _ (by simp) (by simp) (by simp)]
      exact hempty.transaction hash

/-! ### Heads -/

theorem putsIn_getChainByName {P : Url × Hash → Prop} (name : String) :
    (getChainByName lower u name).PutsIn (ChainKey u a) P := by
  have hchains : ChainKey u a (.account u .chains) := rfl
  unfold getChainByName
  cases chainByName lower name with
  | error e => exact putsIn_throw e
  | ok c => exact (putsIn_openChain hchains c).bind fun _ => putsIn_pure _

variable {c : Chain2}

theorem mem_add {d : Chain2} (hnot : ¬ found index.1 (compareChain c.name) = true) :
    d ∈ (index.add c).1 ↔ d ∈ index.1 ∨ d = c := by
  show d ∈ (upsert index.1 (compareChain c.name) c).1 ↔ _
  unfold upsert
  rw [if_neg hnot]
  rw [List.mem_insertIdx (search_le _ _), or_comm]

theorem not_found_of_lt (h : ∀ d ∈ index.1, d.name < c.name) :
    ¬ found index.1 (compareChain c.name) = true := by
  intro hfound
  have hle : index.1.Pairwise fun x y => x.name ≤ y.name := index.2.imp fun hxy => le_of_lt hxy
  obtain ⟨d, hd, hname⟩ := (found_iff hle).1 hfound
  exact absurd (hname ▸ h d hd) (lt_irrefl _)

theorem run_restoreHeads {s : Chain2 → Chain} (hs : ∀ c, (s c).name = c.name) {cs : List Chain2}
    (hcs : ∀ c ∈ cs, c ∈ a.index.1) (hnamed : ∀ c ∈ cs, chainByName lower c.name = .ok c)
    (hsorted : cs.Pairwise fun x y => x.name < y.name)
    (hbefore : ∀ d ∈ index.1, ∀ c ∈ cs, d.name < c.name) (hchanges : Changes enc u a L)
    (h : Progress u a index (fun c => .ofHead ⟨(s c).count, (s c).pending, []⟩)
      (L.contents below)) :
    ∃ L' index', (restoreHeads lower u (cs.map s)).run (Layer.machine below) L = (.ok (), L') ∧
      Changes enc u a L' ∧
      Progress u a index' (fun c => .ofHead ⟨(s c).count, (s c).pending, []⟩) (L'.contents below) ∧
      ∀ d, d ∈ index'.1 ↔ d ∈ index.1 ∨ d ∈ cs := by
  induction cs generalizing L index with
  | nil => exact ⟨L, index, rfl, hchanges, h, fun d => by simp⟩
  | cons c cs ih =>
    obtain ⟨hc, hcs⟩ := List.forall_mem_cons.1 hcs
    obtain ⟨hname, hnames⟩ := List.forall_mem_cons.1 hnamed
    obtain ⟨hfirst, hrest⟩ := List.pairwise_cons.1 hsorted
    have hlt : ∀ d ∈ index.1, d.name < c.name := fun d hd => hbefore d hd c List.mem_cons_self
    have hnot : ¬ found index.1 (compareChain c.name) = true := not_found_of_lt hlt
    have hempty := h.absent c fun hmem => lt_irrefl _ (hlt c hmem)
    -- the chain is entered into the index
    obtain ⟨L₁, index₁, hopen, hindex₁, heq, hkept⟩ := run_openChain hempty h.chains
    rw [if_neg hnot] at heq
    subst heq
    have hget : (getChainByName lower u (s c).name).run (Layer.machine below) L =
        (.ok (c, .empty), L₁) := by
      unfold getChainByName
      rw [hs, hname]
      rw [Script.run_bind, hopen]
      rfl
    have hchanges₁ : Changes enc u a L₁ := hchanges.run (putsIn_getChainByName _) hget
    -- its head is put
    have hhead : Progress u a (index.add c) (fun c => .ofHead ⟨(s c).count, (s c).pending, []⟩)
        ((L₁.put (.account u (.chain c .head)) (⟨(s c).count, (s c).pending, []⟩ :
          Smt.MerkleState Hash)).contents below) := by
      have hother : ∀ {d r}, d ≠ c → HasChain (L.contents below) u d r → HasChain
          ((L₁.put (.account u (.chain c .head)) (⟨(s c).count, (s c).pending, []⟩ :
            Smt.MerkleState Hash)).contents below) u d r := by
        intro d r hdc hd
        refine hd.congr fun k hk => (contents_put_of_ne ?_).trans
          (hkept k (not_ofChain_chains k hk))
        rintro rfl
        exact hdc hk.2.symm
      refine h.extend (fun k hk => ?_) ?_ (fun d hd => ?_) fun d hd => ?_
      · rw [contents_put_of_ne (by rintro rfl; exact hk)]
        exact hkept k (by rintro rfl; exact hk)
      · exact (contents_put_of_ne (by simp)).trans hindex₁
      · by_cases hdc : d = c
        · subst hdc
          exact (hempty.congr fun k hk => hkept k (not_ofChain_chains k hk)).put_head _
        · exact hother hdc (h.chain d (((mem_add hnot).1 hd).resolve_right hdc))
      · rw [mem_add hnot, not_or] at hd
        exact hother hd.2 (h.absent d hd.1)
    have hchanges₂ := hchanges₁.put (k := .account u (.chain c .head))
      (v := ⟨(s c).count, (s c).pending, []⟩) ⟨rfl, hc⟩ (.inl ⟨rfl, hc⟩)
    have hbefore₂ : ∀ d ∈ (index.add c).1, ∀ e ∈ cs, d.name < e.name := by
      intro d hd e he
      rcases (mem_add hnot).1 hd with hd | rfl
      · exact hbefore d hd e (List.mem_cons_of_mem c he)
      · exact hfirst e he
    obtain ⟨L', index', hrun, hchanges', hprogress, hmem⟩ :=
      ih hcs hnames hrest hbefore₂ hchanges₂ hhead
    refine ⟨L', index', ?_, hchanges', hprogress, fun d => ?_⟩
    · show (getChainByName lower u (s c).name >>= fun p => put (.account u (.chain p.1 .head))
        (⟨(s c).count, (s c).pending, []⟩ : Smt.MerkleState Hash) >>= fun _ =>
          restoreHeads lower u (cs.map s)).run _ _ = _
      rw [Script.run_bind, hget]
      exact hrun
    · rw [hmem, mem_add hnot, List.mem_cons, or_assoc]

/-! ### Entries -/

theorem chainKey_of_ofChain (hc : c ∈ a.index.1) {k : Key} (h : OfChain u c k) :
    ChainKey u a k := by
  cases k with
  | account v f =>
    cases f with
    | chain d field => exact ⟨h.1, h.2 ▸ hc⟩
    | _ => exact h.elim
  | _ => exact h.elim

variable {done : Chain2 → List Hash}

theorem run_restoreEntries_progress (hc : c ∈ a.index.1) (entries : List Hash)
    (hchanges : Changes enc u a L)
    (h : Progress u a a.index (fun c => entriesOf enc (done c)) (L.contents below)) :
    ∃ L', (restoreEntries enc u c entries).run (Layer.machine below) L = (.ok (), L') ∧
      Changes enc u a L' ∧
      Progress u a a.index (fun d => entriesOf enc (Function.update done c (done c ++ entries) d))
        (L'.contents below) := by
  obtain ⟨L', hrun, hchain⟩ := run_restoreEntries enc (h.chain c hc) entries
  have hputs : (restoreEntries enc u c entries).PutsIn (OfChain u c) fun _ => True :=
    putsIn_restoreEntries enc c entries
  have hkept : ∀ k, ¬ OfChain u c k → L'.contents below k = L.contents below k := by
    intro k hk
    have hsame : ((restoreEntries enc u c entries).run (Layer.machine below) L).2.puts k =
        L.puts k :=
      Layer.run_puts hputs hk
    rw [hrun] at hsame
    exact contents_eq hsame
  have hchanges' : Changes enc u a L' :=
    hchanges.run (hputs.mono (fun _ => chainKey_of_ofChain hc) fun _ h => h) hrun
  have hother : ∀ {d r}, d ≠ c → HasChain (L.contents below) u d r →
      HasChain (L'.contents below) u d r := by
    intro d r hdc hd
    refine hd.congr fun k hk => hkept k fun hof => ?_
    cases k with
    | account v f =>
      cases f with
      | chain e field => exact hdc (hk.2.symm.trans hof.2)
      | _ => exact hk.elim
    | _ => exact hk.elim
  refine ⟨L', hrun, hchanges', h.extend (fun k hk => hkept k fun hof =>
    not_chainKey_of_plainKey hk (chainKey_of_ofChain hc hof)) ((hkept _ id).trans h.chains)
    (fun d hd => ?_) fun d hd => hother (by rintro rfl; exact hd hc) (h.absent d hd)⟩
  by_cases hdc : d = c
  · subst hdc
    rw [Function.update_self, ← entriesOf_append]
    exact hchain
  · rw [Function.update_of_ne hdc]
    exact hother hdc (h.chain d hd)

theorem run_addRound (hnamed : a.Named lower) {l : List (String × List Hash)}
    (hnames : ∀ p ∈ l, ∃ c ∈ a.index.1, c.name = p.1) (hnodup : (l.map Prod.fst).Nodup)
    (hchanges : Changes enc u a L)
    (h : Progress u a a.index (fun c => entriesOf enc (done c)) (L.contents below)) :
    ∃ (L' : DbLayer) (done' : Chain2 → List Hash),
      (addRound lower enc u l).run (Layer.machine below) L = (.ok (), L') ∧ Changes enc u a L' ∧
      Progress u a a.index (fun c => entriesOf enc (done' c)) (L'.contents below) ∧
      (∀ c ∈ a.index.1, ∀ entries, (c.name, entries) ∈ l →
        done' c = done c ++ entries.take chainEntryBatchSize) ∧
      ∀ c, c.name ∉ l.map Prod.fst → done' c = done c := by
  induction l generalizing L done with
  | nil => exact ⟨L, done, rfl, hchanges, h, fun _ _ _ hmem => absurd hmem nofun, fun _ _ => rfl⟩
  | cons p rest ih =>
    obtain ⟨name, entries⟩ := p
    obtain ⟨⟨c, hc, rfl⟩, hothers⟩ := List.forall_mem_cons.1 hnames
    obtain ⟨hfresh, hrest⟩ := List.nodup_cons.1 hnodup
    have hget := run_getChainByName_mem h.chains (hnamed c hc) hc (h.chain c hc)
    obtain ⟨L₁, hadd, hchanges₁, h₁⟩ := run_restoreEntries_progress hc
      (entries.take chainEntryBatchSize) hchanges h
    obtain ⟨L', done', hrun, hchanges', h', hdone, hkept⟩ := ih hothers hrest hchanges₁ h₁
    refine ⟨L', done', ?_, hchanges', h', fun d hd more hmem => ?_, fun d hd => ?_⟩
    · unfold addRound
      rw [Script.run_bind, hget]
      dsimp only
      rw [Script.run_bind, hadd]
      exact hrun
    · rcases List.mem_cons.1 hmem with heq | hin
      · -- the chain is not in the rest of the list
        obtain ⟨hname, rfl⟩ := Prod.mk.inj heq
        obtain rfl : d = c := Except.ok.inj ((hnamed d hd).symm.trans (hname ▸ hnamed c hc))
        rw [hkept d hfresh, Function.update_self]
      · have hdc : d ≠ c := by
          rintro rfl
          exact hfresh (List.mem_map.2 ⟨(d.name, more), hin, rfl⟩)
        rw [hdone d hd more hin, Function.update_of_ne hdc]
    · have hdc : d ≠ c := by
        rintro rfl
        exact hd List.mem_cons_self
      rw [hkept d fun hmem => hd (List.mem_cons_of_mem _ hmem), Function.update_of_ne hdc]

end Run

end Accumulate.Snapshot
