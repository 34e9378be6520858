import Accumulate.Snapshot.Progress

/-!
# The visitor restores an account

Every batch that the visitor commits on its way is committed without an error, and what is stored
then holds the same part of the account.  Round by round, the entries of all chains are added.
-/

namespace Accumulate.Snapshot

open Library Protocol Record Database Database.Records

/-! ## Hashing -/

section Hash

variable {enc : Encoding} {u : Url} {w : View} {index : ChainIndex}

def mainHash (enc : Encoding) (u : Url) : Option Protocol.Account → Except Error Hash
  | none => .ok 0
  | some m => (enc.marshal (.account u .main) m).map enc.sha256

/-- The hash of an account without pending transactions: it is made of its main state, its
directory, and the heads of the chains of its index. -/
def accountHash (enc : Encoding) (u : Url) (main : Option Protocol.Account) (directory : List Url)
    (heads : List (Smt.MerkleState Hash)) : Except Error Hash := do
  let main ← mainHash enc u main
  return enc.merkleHash [main, enc.merkleHash [enc.merkleHash (directory.map enc.urlHash)],
    enc.merkleHash (heads.map fun head =>
      if head.count = 0 then 0 else (head.getMDRoot enc.combine).getD 0), enc.merkleHash []]

theorem accountHash_congr {main : Option Protocol.Account} {directory : List Url} {cs : List Chain2}
    {r r' : Chain2 → ChainRecords} (h : ∀ c ∈ cs, (r c).SameHead (r' c)) :
    accountHash enc u main directory (cs.map fun c => (r c).head) =
      accountHash enc u main directory (cs.map fun c => (r' c).head) := by
  have hroots : (cs.map fun c => (r c).head).map (fun head : Smt.MerkleState Hash =>
      if head.count = 0 then 0 else (head.getMDRoot enc.combine).getD 0) =
        (cs.map fun c => (r' c).head).map fun head =>
          if head.count = 0 then 0 else (head.getMDRoot enc.combine).getD 0 := by
    rw [List.map_map, List.map_map]
    refine List.map_congr_left fun c hc => ?_
    obtain ⟨hcount, hpending⟩ := h c hc
    simp only [Function.comp_apply, Smt.MerkleState.getMDRoot, hcount, hpending]
  rw [accountHash, hroots]
  rfl

theorem eval_hashEach {α : Type} {f : α → RecordM (List Hash)} {g : α → Hash} {l : List α}
    (h : ∀ x ∈ l, (f x).eval w = .ok [g x]) : (hashEach f l).eval w = .ok (l.map g) := by
  induction l with
  | nil => rfl
  | cons x l ih =>
    obtain ⟨hx, hrest⟩ := List.forall_mem_cons.1 h
    exact Script.eval_bind_eq_ok.2 ⟨[g x], hx, Script.eval_bind_eq_ok.2 ⟨l.map g, ih hrest, rfl⟩⟩

theorem eval_openChain {c : Chain2} {head : Smt.MerkleState Hash}
    (hindex : w (.account u .chains) = .ok index)
    (hhead : w (.account u (.chain c .head)) = .ok head) : (openChain u c).eval w = .ok head := by
  unfold openChain
  rw [Script.eval_bind, eval_get, hindex]
  dsimp only
  split
  · rw [eval_get, hhead]
  · show (get (.account u (.chain c .head))).eval w = _
    rw [eval_get, hhead]

theorem hashOf_eq {main : Option Protocol.Account} {directory : List Url}
    {heads : Chain2 → Smt.MerkleState Hash} (hmain : Reads (w (.account u .main)) main)
    (hdirectory : w (.account u .directory) = .ok directory)
    (hindex : w (.account u .chains) = .ok index)
    (hheads : ∀ c ∈ index.1, w (.account u (.chain c .head)) = .ok (heads c))
    (hpending : w (.account u .pending) = .ok ([] : List TxID)) :
    hashOf enc w u = accountHash enc u main directory (index.1.map heads) := by
  have hmainHash : (hashMain enc u).eval w = mainHash enc u main := by
    have hget : (tryGet (.account u .main)).eval w = .ok (w (.account u .main)) := rfl
    unfold hashMain
    rw [Script.eval_bind, hget]
    cases main with
    | none =>
      obtain ⟨e, he, hmissing⟩ := hmain
      rw [he]
      dsimp only
      rw [if_pos hmissing]
      rfl
    | some m =>
      rw [show w (.account u .main) = .ok m from hmain]
      dsimp only
      rw [hashValue, mainHash]
      cases enc.marshal (.account u .main) m <;> rfl
  have hsecondary : (hashSecondaryState enc u).eval w =
      .ok (enc.merkleHash [enc.merkleHash (directory.map enc.urlHash)]) := by
    rw [hashSecondaryState, Script.eval_bind, eval_get, hdirectory]
    rfl
  have hchains : (hashChains enc u).eval w = .ok (enc.merkleHash (index.1.map fun c =>
      if (heads c).count = 0 then 0 else ((heads c).getMDRoot enc.combine).getD 0)) := by
    rw [hashChains, Script.eval_bind, eval_get, hindex]
    refine Script.eval_bind_eq_ok.2 ⟨_, eval_hashEach fun c hc => ?_, rfl⟩
    rw [hashChain, Script.eval_bind, eval_openChain hindex (hheads c hc)]
    dsimp only
    split <;> rfl
  have htransactions : (hashTransactions enc u).eval w = .ok (enc.merkleHash []) := by
    rw [hashTransactions, Script.eval_bind, eval_get, hpending]
    rfl
  rw [hashOf, hashState, accountHash, List.map_map]
  simp only [Script.eval_bind, hmainHash, hsecondary, hchains, htransactions]
  cases mainHash enc u main <;> rfl

variable {a : Contents} {index : ChainIndex} {r : Chain2 → ChainRecords}

theorem Progress.hashOf_ok (h : Progress u a index r w)
    (hmain : ∀ m, a.main = some m → enc.Stores (.account u .main) m) (hpending : a.pending = []) :
    ∃ hash, hashOf enc w u = .ok hash := by
  rw [hashOf_eq h.main h.directory h.chains (fun c hc => (h.chain c hc).head)
    (hpending ▸ h.pending)]
  cases hm : a.main with
  | none => exact ⟨_, rfl⟩
  | some m =>
    obtain ⟨b, hb, -⟩ := hmain m hm
    rw [accountHash, mainHash, hb]
    exact ⟨_, rfl⟩

theorem Progress.hashOf_error (h : Progress u a index r w) (hpending : a.pending ≠ []) :
    ∀ hash, hashOf enc w u ≠ .ok hash := by
  have htransactions : ∃ e, (hashTransactions enc u).eval w = .error e := by
    obtain ⟨id, rest, hlist⟩ := List.exists_cons_of_ne_nil hpending
    obtain ⟨e, he⟩ := h.transaction id.hash
    refine ⟨e, ?_⟩
    unfold hashTransactions
    rw [Script.eval_bind, eval_get, h.pending, hlist]
    dsimp only
    unfold hashEach hashTransaction
    rw [Script.eval_bind, Script.eval_bind, Script.eval_bind, eval_get, he]
  obtain ⟨e, he⟩ := htransactions
  intro hash hok
  obtain ⟨main, -, hok⟩ := Script.eval_bind_eq_ok.1 hok
  obtain ⟨secondary, -, hok⟩ := Script.eval_bind_eq_ok.1 hok
  obtain ⟨chains, -, hok⟩ := Script.eval_bind_eq_ok.1 hok
  obtain ⟨transactions, hok, -⟩ := Script.eval_bind_eq_ok.1 hok
  rw [he] at hok
  exact absurd hok nofun

end Hash

/-! ## Committing -/

/-- The main state passes the checks of a commit. -/
def Contents.Checked (enc : Encoding) (a : Contents) : Prop :=
  ∀ m, a.main = some m → (Protocol.Account.url m).stringLength ≤ accountUrlMaxLength ∧
    isValidAccountPath enc.isWord (Protocol.Account.url m).path = true

section Commit

variable {enc : Encoding} {u : Url} {a : Contents} {index : ChainIndex}
  {r : Chain2 → ChainRecords} {below : View} {L : DbLayer}

theorem run_indexAnchors (hchanges : Changes enc u a L) (fields : List AccountField) :
    (indexAnchors u fields).run (Layer.machine below) L = (.ok (), L) := by
  induction fields with
  | nil => rfl
  | cons f fields ih =>
    cases f with
    | syntheticForAnchor anchor =>
      have hclean : L.puts (.account u (.syntheticForAnchor anchor)) = none := by
        by_contra hput
        exact hchanges.keys _ hput
      unfold indexAnchors
      rw [Script.run_bind, run_isDirty, hclean]
      exact ih
    | _ => exact ih

theorem run_checkMain (hchecked : a.Checked enc)
    (h : Progress u a index r (L.contents below)) :
    (checkMain enc u).run (Layer.machine below) L = (.ok (), L) := by
  have hread := h.main
  unfold checkMain
  rw [Script.run_bind, run_isDirty]
  dsimp only
  split
  · rw [Script.run_bind, run_tryGet]
    cases hm : a.main with
    | none =>
      rw [hm] at hread
      obtain ⟨e, he, hmissing⟩ := hread
      rw [he]
      dsimp only
      rw [if_pos hmissing]
      rfl
    | some m =>
      rw [hm] at hread
      obtain ⟨hlength, hpath⟩ := hchecked m hm
      rw [show L.contents below (.account u .main) = .ok m from hread]
      dsimp only
      rw [if_neg (Nat.not_lt.2 hlength), if_pos hpath]
      rfl
  · rfl

theorem run_commitAccount (henc : Encodes enc u a) (hchecked : a.Checked enc)
    (hpending : a.pending = []) (fields : List AccountField) (hchanges : Changes enc u a L)
    (h : Progress u a index r (L.contents below)) :
    ∃ L', (commitAccount enc u fields).run (Layer.machine below) L = (.ok (), L') ∧
      Changes enc u a L' ∧ Progress u a index r (L'.contents below) := by
  unfold commitAccount
  rw [Script.run_bind, run_accountIsDirty]
  cases accountChanged u fields L.puts with
  | false => exact ⟨L, rfl, hchanges, h⟩
  | true =>
    dsimp only
    rw [if_pos rfl, Script.run_bind, run_checkMain hchecked h]
    dsimp only
    rw [Script.run_bind, run_indexAnchors hchanges]
    dsimp only
    cases hurl : L.contents below (.account u .url) with
    | ok v =>
      obtain ⟨hash, hhash⟩ := h.hashOf_ok henc.main hpending
      rw [run_putBpt_ok hurl, hhash]
      exact ⟨_, rfl, ⟨hchanges.writable, hchanges.finite, hchanges.keys, hchanges.stores⟩, h⟩
    | error e =>
      have hread : UrlReadable ((L.put (.account u .url) u).contents below) u := by
        intro e he
        rw [contents_put_self (k := .account u .url) u] at he
        exact absurd he nofun
      have h' : Progress u a index r ((L.put (.account u .url) u).contents below) :=
        h.congr hread fun k hk => contents_put_of_ne hk
      have hchanges' := hchanges.put (k := .account u .url) rfl (.inr henc.url)
      obtain ⟨hash, hhash⟩ := h'.hashOf_ok henc.main hpending
      unfold putBpt
      rw [Script.run_bind, run_populateUrl_missing hurl (h.url e hurl)]
      dsimp only
      rw [Script.run_bind, run_hashState, hhash]
      exact ⟨_, rfl, ⟨hchanges'.writable, hchanges'.finite, hchanges'.keys, hchanges'.stores⟩, h'⟩

theorem Progress.stores {done : Chain2 → List Hash} (henc : Encodes enc u a)
    (hdone : ∀ c ∈ a.index.1, done c <+: (a.chain enc c).elements) (hchanges : Changes enc u a L)
    (h : Progress u a a.index (fun c => entriesOf enc (done c)) (L.contents below)) (k : Key)
    (v : k.Value) (hput : L.puts k = some v) : enc.Stores k v := by
  have hvalue : L.contents below k = .ok v := by rw [Layer.contents, hput]
  rcases hchanges.stores k v hput with hk | hstores
  · cases k with
    | account _ f =>
      cases f with
      | chains =>
        obtain rfl := hk
        obtain rfl := Except.ok.inj (h.chains.symm.trans hvalue)
        exact henc.chains
      | chain c f =>
        obtain ⟨rfl, hc⟩ := hk
        exact henc.chain c hc _ (hdone c hc) _ (h.chain c hc) f v hvalue
      | _ => exact hk.elim
    | _ => exact hk.elim
  · exact hstores

end Commit

/-! ## The batch of the visitor -/

theorem VisitM.bind_eq_ok {α β : Type} {x : VisitM α} {f : α → VisitM β} {s s' : DbState} {b : β} :
    (x >>= f) s = .ok (b, s') ↔ ∃ a t, x s = .ok (a, t) ∧ f a t = .ok (b, s') := by
  show (x s >>= fun p => f p.1 p.2) = .ok (b, s') ↔ _
  cases x s with
  | error e => simp [bind, Except.bind]
  | ok p =>
    constructor
    · exact fun h => ⟨p.1, p.2, rfl, h⟩
    · rintro ⟨a, t, hx, h⟩
      cases hx
      exact h

/-- The visitor has a batch in which the account is restored, and of its chains the entries that are
done. -/
def Visiting (enc : Encoding) (u : Url) (a : Contents) (done : Chain2 → List Hash) (s : DbState) :
    Prop :=
  ∃ b L, s.batch = some b ∧ Represents enc.schema s.db b [L] ∧ Changes enc u a L ∧
    Progress u a a.index (fun c => entriesOf enc (done c)) (L.contents (enc.schema.fetch s.db))

/-- A map is iterated over in some order.  A batch has no other record than the account, and this
one has opened every field that has been changed. -/
structure Runtime.Restores (rt : Runtime) (u : Url) : Prop where
  order : ∀ l, (rt.order l).Perm l
  opened : ∀ b : DbBatch, {k | b.isDirty k = true}.Finite →
    ∃ fields, rt.opened b = [.account u fields] ∧ ∀ f, b.isDirty (.account u f) = true → f ∈ fields

section Visitor

variable {enc : Encoding} {lower : String → String} {rt : Runtime} {u : Url} {a : Contents}
  {done : Chain2 → List Hash} {s : DbState}

variable {b : DbBatch} {L : DbLayer}

theorem onBatch_eq {α : Type} {p : RecordM α} {r : Except Error α} {L' : DbLayer}
    (hb : s.batch = some b) (hrep : Represents enc.schema s.db b [L])
    (hrun : p.run (Layer.machine (enc.schema.fetch s.db)) L = (r, L')) :
    ∃ b', Represents enc.schema s.db b' [L'] ∧
      onBatch enc p s = r.map fun x => (x, { s with batch := some b' }) := by
  obtain ⟨hsame, hrep'⟩ := (represents_simulates enc.schema s.db []).run p.putsIn_true hrep
  rw [show p.run (Layer.machine (view enc.schema s.db ([] : List DbLayer))) L = _ from hrun]
    at hsame hrep'
  refine ⟨_, hrep', ?_⟩
  unfold onBatch
  rw [hb, show r = _ from hsame.symm]
  dsimp only
  rcases p.run (Batch.machine enc.schema s.db) b with ⟨_ | x, b'⟩ <;> rfl

theorem commitBatch_eq_ok {fields : List AccountField} {s' : DbState} (hb : s.batch = some b)
    (hopened : rt.opened b = [.account u fields]) :
    commitBatch enc rt s = .ok ((), s') ↔
      State.commit enc.schema [(Opened.account u fields).part enc] b { s with batch := some b } =
        (.ok (), s') := by
  have hstate : s = { s with batch := some b } := by
    cases s
    cases hb
    rfl
  unfold commitBatch
  rw [hb]
  dsimp only
  rw [hopened, List.map_singleton, ← hstate]
  rcases State.commit enc.schema [(Opened.account u fields).part enc] b s with ⟨_ | _, s₂⟩ <;> simp

theorem dirty_eq (hrep : Represents enc.schema s.db b [L]) :
    {k | b.isDirty k = true} = {k | L.puts k ≠ none} := by
  ext k
  show (b.level.values k).isDirty = true ↔ _
  rw [hrep.levelOf.isDirty, Option.isSome_iff_ne_none]
  rfl

theorem mem_keys_of_changes {fields : List AccountField} (hrep : Represents enc.schema s.db b [L])
    (hchanges : Changes enc u a L) (hfields : ∀ f, b.isDirty (.account u f) = true → f ∈ fields)
    {k : Key} (hk : L.puts k ≠ none) : k ∈ ((Opened.account u fields).part enc).keys := by
  have hdirty : k ∈ {k | b.isDirty k = true} := by
    rw [dirty_eq hrep]
    exact hk
  have hkey := hchanges.keys k hk
  cases k with
  | account v f =>
    obtain rfl : v = u := by cases f <;> first | exact hkey | exact hkey.1 | exact hkey.elim
    exact Opened.mem_keys (r := .account v fields)
      (List.mem_map.2 ⟨f, hfields f hdirty, rfl⟩)
  | _ => exact hkey.elim

theorem Visiting.refreshBatch (hrt : rt.Restores u) (henc : Encodes enc u a)
    (hchecked : a.Checked enc) (hpending : a.pending = [])
    (hdone : ∀ c ∈ a.index.1, done c <+: (a.chain enc c).elements) (h : Visiting enc u a done s) :
    ∃ s', refreshBatch enc rt s = .ok ((), s') ∧ Visiting enc u a done s' := by
  obtain ⟨b, L, hb, hrep, hchanges, hprogress⟩ := h
  have hfinite : {k | b.isDirty k = true}.Finite := by
    rw [dirty_eq hrep]
    exact hchanges.finite
  obtain ⟨fields, hopened, hfields⟩ := hrt.opened b hfinite
  obtain ⟨L', hrun, hchanges', hprogress'⟩ :=
    run_commitAccount henc hchecked hpending fields hchanges hprogress
  have hcover : ∀ k, L.puts k ≠ none → k ∈ ((Opened.account u fields).part enc).keys :=
    fun _ hk => mem_keys_of_changes hrep hchanges hfields hk
  have hputs := putsIn_part enc (.account u fields)
  have hstores := hprogress'.stores henc hdone hchanges'
  obtain ⟨s₁, hcommit, hclosed⟩ := hrep.commit_part hchanges.writable hputs hcover hrun
    fun k v hput => (hstores k v hput).imp fun _ hb => hb.1
  have hdb : s₁.db = (L.prepare (enc.schema.fetch s.db)
      [(Opened.account u fields).part enc]).overStore enc.schema s.db := by
    refine (hrep.commit_root hchanges.writable ?_ ?_ hcommit).1
    · simpa using hputs
    · exact fun k hk => ⟨_, List.mem_singleton.2 rfl, hcover k hk⟩
  have hprepare : L.prepare (enc.schema.fetch s.db) [(Opened.account u fields).part enc] = L' :=
    congrArg Prod.snd hrun
  rw [hprepare] at hdb
  have hstored : enc.schema.fetch s₁.db = L'.contents (enc.schema.fetch s.db) := by
    rw [hdb]
    exact fetch_overStore hstores
  refine ⟨{ s₁ with batch := some (.root (.new true)) }, VisitM.bind_eq_ok.2
    ⟨(), s₁, (commitBatch_eq_ok hb hopened).2 hcommit, rfl⟩, .root (.new true), .new true, rfl,
    .root (levelOf_new true) fun _ _ => rfl, changes_new, ?_⟩
  rw [hstored]
  exact hprogress'

/-! ## Rounds -/

/-- What has been done and what is left are all the entries. -/
structure Remaining (index : ChainIndex) (total done : Chain2 → List Hash)
    (chains : List (String × List Hash)) : Prop where
  names : ∀ p ∈ chains, ∃ c ∈ index.1, c.name = p.1
  nodup : (chains.map Prod.fst).Nodup
  left : ∀ c ∈ index.1, ∀ entries, (c.name, entries) ∈ chains → done c ++ entries = total c
  complete : ∀ c ∈ index.1, c.name ∉ chains.map Prod.fst → done c = total c

variable {chains : List (String × List Hash)} {index : ChainIndex}

theorem mem_nextChains {name : String} {rest : List Hash} :
    (name, rest) ∈ nextChains chains ↔ ∃ entries, (name, entries) ∈ chains ∧
      chainEntryBatchSize < entries.length ∧ rest = entries.drop chainEntryBatchSize := by
  unfold nextChains
  rw [List.mem_filterMap]
  constructor
  · rintro ⟨⟨name', entries⟩, hmem, hsome⟩
    split at hsome
    · rename_i hlong
      cases hsome
      exact ⟨entries, hmem, hlong, rfl⟩
    · exact absurd hsome nofun
  · rintro ⟨entries, hmem, hlong, rfl⟩
    exact ⟨(name, entries), hmem, if_pos hlong⟩

theorem nextChains_names (chains : List (String × List Hash)) :
    ((nextChains chains).map Prod.fst).Sublist (chains.map Prod.fst) := by
  induction chains with
  | nil => exact .slnil
  | cons p rest ih =>
    unfold nextChains at ih ⊢
    rw [List.filterMap_cons]
    by_cases hlong : p.2.length > chainEntryBatchSize
    · rw [if_pos hlong]
      exact ih.cons_cons p.1
    · rw [if_neg hlong]
      exact ih.cons p.1

theorem Remaining.next {total done' : Chain2 → List Hash} {order : List (String × List Hash)}
    (h : Remaining index total done chains) (horder : order.Perm chains)
    (hdone : ∀ c ∈ index.1, ∀ entries, (c.name, entries) ∈ order →
      done' c = done c ++ entries.take chainEntryBatchSize)
    (hkept : ∀ c, c.name ∉ order.map Prod.fst → done' c = done c) :
    Remaining index total done' (nextChains chains) where
  names := by
    rintro ⟨name, rest⟩ hp
    obtain ⟨entries, hmem, -, -⟩ := mem_nextChains.1 hp
    exact h.names (name, entries) hmem
  nodup := h.nodup.sublist (nextChains_names chains)
  left := by
    intro c hc rest hrest
    obtain ⟨entries, hmem, -, rfl⟩ := mem_nextChains.1 hrest
    rw [hdone c hc entries (horder.mem_iff.2 hmem), List.append_assoc, List.take_append_drop]
    exact h.left c hc entries hmem
  complete := by
    intro c hc hnot
    by_cases hin : c.name ∈ chains.map Prod.fst
    · -- the last entries of the chain have been added
      obtain ⟨⟨name, entries⟩, hmem, rfl⟩ := List.mem_map.1 hin
      have hshort : entries.length ≤ chainEntryBatchSize := by
        by_contra hlong
        exact hnot (List.mem_map.2 ⟨_, mem_nextChains.2 ⟨entries, hmem, by omega, rfl⟩, rfl⟩)
      rw [hdone c hc entries (horder.mem_iff.2 hmem), List.take_of_length_le hshort]
      exact h.left c hc entries hmem
    · rw [hkept c fun hmem => hin ((horder.map Prod.fst).mem_iff.1 hmem)]
      exact h.complete c hc hin

theorem Remaining.done_prefix {total : Chain2 → List Hash} (h : Remaining index total done chains) :
    ∀ c ∈ index.1, done c <+: total c := by
  intro c hc
  by_cases hin : c.name ∈ chains.map Prod.fst
  · obtain ⟨⟨name, entries⟩, hmem, rfl⟩ := List.mem_map.1 hin
    exact ⟨entries, h.left c hc entries hmem⟩
  · rw [h.complete c hc hin]

theorem Visiting.addRounds (hrt : rt.Restores u) (henc : Encodes enc u a) (hchecked : a.Checked enc)
    (hpending : a.pending = []) (hnamed : a.Named lower)
    (hremaining : Remaining a.index (fun c => (a.chain enc c).elements) done chains)
    (h : Visiting enc u a done s) :
    ∃ s' done', addRounds enc lower rt u chains s = .ok ((), s') ∧ Visiting enc u a done' s' ∧
      ∀ c ∈ a.index.1, done' c = (a.chain enc c).elements := by
  induction hn : workLeft chains using Nat.strongRecOn generalizing chains done s with
  | ind n ih =>
    unfold Snapshot.addRounds
    split
    · rename_i hempty
      subst hempty
      exact ⟨s, done, rfl, h, fun c hc => hremaining.complete c hc nofun⟩
    · rename_i hne
      have horder := hrt.order chains
      obtain ⟨b, L, hb, hrep, hchanges, hprogress⟩ := h
      obtain ⟨L', done', hrun, hchanges', hprogress', hdone, hkept⟩ := run_addRound hnamed
        (fun p hp => hremaining.names p (horder.mem_iff.1 hp))
        ((horder.map Prod.fst).nodup_iff.2 hremaining.nodup) hchanges hprogress
      obtain ⟨b', hrep', hon⟩ := onBatch_eq hb hrep hrun
      have hafter : Visiting enc u a done' { s with batch := some b' } :=
        ⟨b', L', rfl, hrep', hchanges', hprogress'⟩
      have hnext := hremaining.next horder hdone hkept
      obtain ⟨s₂, hrefresh, h₂⟩ := hafter.refreshBatch hrt henc hchecked hpending hnext.done_prefix
      obtain ⟨s', done'', hrest, h', htotal⟩ := ih _ (hn ▸ workLeft_nextChains_lt hne) hnext h₂ rfl
      exact ⟨s', done'', VisitM.bind_eq_ok.2 ⟨(), _, hon, VisitM.bind_eq_ok.2
        ⟨(), s₂, hrefresh, hrest⟩⟩, h', htotal⟩

end Visitor

end Accumulate.Snapshot
