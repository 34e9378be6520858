import Mathlib.Data.List.Sort
import Accumulate.Chain.Tokens
import Accumulate.Core.Globals
import Accumulate.Database.SignatureSet

/-!
# Anchors

`internal/chain/partition_anchor.go` and the parts of `directory_anchor.go` it shares: the
executor of an anchor that a partition sends to the directory.  It returns the burnt ACME to
the supply, records the anchor and, unless the anchor completes a major block, schedules the
synthetic transactions that have been waiting for it.
-/

namespace Accumulate

open Library Protocol Database Accumulate.Core

namespace Chain

/-! ## Transactions that wait for an anchor -/

/-- The loop of `getSyntheticSignature` over the signatures of a transaction: the sequence
number of the first partition signature. -/
def findSyntheticSignature (db : Database) : List SigSetEntry → Outcome Error Nat
  | [] => .error (.new .internalError "cannot find synthetic signature")
  | entry :: rest =>
    match db.getTransaction entry.signatureHash with
    | .error e => .error (.format .unknownError "load signature" e)
    | .panic m => .panic m
    | .ok state =>
      match state.signature with
      | some (.partition _ _ sequenceNumber _) => .ok sequenceNumber
      | _ => findSyntheticSignature db rest

/-- `getSyntheticSignature`, of which only the sequence number is used. -/
def getSyntheticSignature (db : Database) (hash : Hash) : Outcome Error Nat :=
  findSyntheticSignature db
    ((db.transaction hash).status.signers.flatMap fun signer =>
      db.readSignaturesForSigner hash signer)

/-- `int(n)` for an unsigned 64-bit number. -/
def goInt (n : Nat) : Int := Int.bmod n (2 ^ 64)

def loadSynthTxns (db : Database) (deliver : TxID → Delivery) :
    List TxID → Outcome Error (List (Int × Delivery))
  | [] => .ok []
  | txid :: rest => do
      let sequenceNumber ← getSyntheticSignature db txid.hash
      let deliveries ← loadSynthTxns db deliver rest
      return (goInt sequenceNumber, deliver txid) :: deliveries

/-- The deliveries in order.  The source sorts with `sort.Slice`, which leaves the order of
deliveries with equal numbers open. -/
def sortDeliveries (deliveries : List (Int × Delivery)) : List Delivery :=
  (deliveries.insertionSort fun a b => a.1 ≤ b.1).map (·.2)

def StateManager.submitDeliveries (deliveries : List (Int × Delivery)) (st : StateManager) :
    StateManager :=
  { st with
    state := (sortDeliveries deliveries).foldl
      ProcessTransactionState.processAdditionalTransaction st.state }

/-- Add the anchor and its state tree to the chains of the anchor pool. -/
def StateManager.recordAnchor (c : Crypto) (name : String) (body : PartitionAnchor)
    (st : StateManager) : StateManager :=
  let r := ChainUpdates.addChainEntry c.combine st.batch st.state.chainUpdates st.originUrl
    (.anchorRoot name) body.rootChainAnchor
  let status := (r.1.transaction st.txHash).status
  let st := { st.touch st.originUrl with
    batch := r.1
    state := { st.state with chainUpdates := r.2.1 }.didReceiveAnchor ⟨name, body, r.2.2, status⟩ }
  st.addChainEntry c st.originUrl (.anchorBpt name) body.stateTreeAnchor

/-! ## Anchors of partitions -/

namespace PartitionAnchor

variable (c : Crypto) (describe : Describe)

/-- Return the ACME burnt by buying credits to the supply. -/
def returnBurnt (acmeBurnt : Int) : Proc StateManager Error Unit := do
  let st ← Proc.get
  match (st.batch.account acmeUrl).main with
  | some (.tokenIssuer u auth symbol precision issued supplyLimit) =>
    Proc.mapError (fun _ => .plain "failed to update issuer state") (StateManager.update c
      (.tokenIssuer u auth symbol precision (issued - acmeBurnt) supplyLimit))
  | _ => Proc.throw (.plain "unable to load acme ledger")

/-- The partition has completed a major block.  When it is the last one, the directory makes
a major block too. -/
def completeMajorBlock (source : Url) (ledger : AnchorLedger) : Proc StateManager Error Unit :=
  if source ∉ ledger.pendingMajorBlockAnchors then
    Proc.throw (.new .internalError "partition is not in the pending list")
  else do
    let ledger := { ledger with
      pendingMajorBlockAnchors := ledger.pendingMajorBlockAnchors.erase source }
    Proc.modify fun st => { st with origin := some (.anchorLedger ledger) }
    StateManager.update c (.anchorLedger ledger)
    if ledger.pendingMajorBlockAnchors = [] then
      Proc.modify fun st =>
        { st with state := { st.state with makeMajorBlock := ledger.majorBlockIndex } }

def scheduleWaiting (d : Delivery) (body : PartitionAnchor) : Proc StateManager Error Unit := do
  let st ← Proc.get
  let deliveries ← Proc.lift (loadSynthTxns st.batch
    (fun txid => d.newChild (remoteTransaction txid.hash) [])
    ((st.batch.account describe.ledger).syntheticForAnchor body.rootChainAnchor))
  Proc.modify (StateManager.submitDeliveries deliveries)

/-- `PartitionAnchor.Validate` once the source is known. -/
def receive (d : Delivery) (source : Url) (name : String) (body : PartitionAnchor)
    (acmeBurnt : Int) (ledger : AnchorLedger) :
    Proc StateManager Error (Option TransactionResult) := do
  returnBurnt c acmeBurnt
  Proc.modify (StateManager.recordAnchor c name body)
  if body.majorBlockIndex > 0 then
    completeMajorBlock c source ledger
    return none
  else
    scheduleWaiting describe d body
    return none

def execute (d : Delivery) : Proc StateManager Error (Option TransactionResult) := do
  match d.transaction.body with
  | .payload (.blockValidatorAnchor body acmeBurnt) =>
    let st ← Proc.get
    match st.origin with
    | none => Proc.abort "nil account"
    | some (.anchorLedger ledger) =>
      match body.source with
      | none => Proc.abort "nil URL"
      | some source =>
        match parsePartitionUrl source with
        | none => Proc.throw (.plain "invalid source: not a BVN or the DN")
        | some name => receive c describe d source name body acmeBurnt ledger
    | some _ => Proc.throw (.plain "invalid principal: want anchorLedger")
  | _ => Proc.throw (.plain "invalid payload")

end PartitionAnchor

/-! ## Errors -/

section Errors

theorem raises_findSyntheticSignature (db : Database) (l : List SigSetEntry) :
    Outcome.Raises Error.Failing (findSyntheticSignature db l) := by
  induction l with
  | nil => exact .error rfl
  | cons entry rest ih =>
    unfold findSyntheticSignature
    cases hstate : db.getTransaction entry.signatureHash with
    | error e => exact .error ((raises_getTransaction _ hstate).format _)
    | panic m => exact .panic m
    | ok state =>
      simp only
      split
      · exact .ok _
      · exact ih

theorem raises_loadSynthTxns (db : Database) (deliver : TxID → Delivery) (l : List TxID) :
    Outcome.Raises Error.Failing (loadSynthTxns db deliver l) := by
  induction l with
  | nil => exact .ok _
  | cons txid rest ih =>
    exact (raises_findSyntheticSignature db _).bind fun _ => ih.bind fun _ => .ok _

variable (c : Crypto) (describe : Describe)

theorem PartitionAnchor.raises_execute (d : Delivery) :
    Proc.Raises Error.Failing (execute c describe d) := by
  have hburnt : ∀ acmeBurnt, Proc.Raises Error.Failing (returnBurnt c acmeBurnt) := by
    intro acmeBurnt
    refine .bind .get fun st => ?_
    split
    · exact .mapError (StateManager.raises_createOrUpdate c true _)
        fun _ _ => rfl
    · exact .throw rfl
  have hmajor :
      ∀ source ledger, Proc.Raises Error.Failing (completeMajorBlock c source ledger) := by
    intro source ledger
    refine .ite (fun _ => .throw rfl) fun _ => ?_
    refine .bind (.modify _) fun _ => ?_
    refine .bind (StateManager.raises_createOrUpdate c true _) fun _ => ?_
    exact .ite (fun _ => .modify _) fun _ => .pure _
  have hwaiting : ∀ body, Proc.Raises Error.Failing (scheduleWaiting describe d body) := by
    intro body
    refine .bind .get fun st => ?_
    exact .bind (.lift (raises_loadSynthTxns _ _ _)) fun _ =>
      .modify _
  unfold execute
  split
  · refine .bind .get fun st => ?_
    split
    · exact .abort _
    · split
      · exact .abort _
      · split
        · exact .throw rfl
        · refine .bind (hburnt _) fun _ => ?_
          refine .bind (.modify _) fun _ => ?_
          refine .ite (fun _ => ?_) fun _ => ?_
          · exact .bind (hmajor _ _) fun _ => .pure _
          · exact .bind (hwaiting _) fun _ => .pure _
    · exact .throw rfl
  · exact .throw rfl

def PartitionAnchor.executor : TransactionExecutor :=
  .plain (execute c describe) (raises_execute c describe)

end Errors

/-! ## What is scheduled -/

namespace StateManager

/-- What an executor schedules, and what it reads to decide that, have not changed. -/
structure SameWaiting (st st' : StateManager) : Prop where
  additional : st'.state.additionalTransactions = st.state.additionalTransactions
  operations : st'.operations = st.operations
  transaction : st'.batch.transaction = st.batch.transaction
  waiting : ∀ u, (st'.batch.account u).syntheticForAnchor = (st.batch.account u).syntheticForAnchor

instance : Std.Refl SameWaiting := ⟨fun _ => ⟨rfl, rfl, rfl, fun _ => rfl⟩⟩

instance : IsTrans StateManager SameWaiting where
  trans _ _ _ hab hbc := ⟨hbc.additional.trans hab.additional,
    hbc.operations.trans hab.operations, hbc.transaction.trans hab.transaction,
    fun u => (hbc.waiting u).trans (hab.waiting u)⟩

variable (c : Crypto) (st : StateManager)

theorem waiting_updateAccount (db : Database) (u : Url) {f : AccountRecord → AccountRecord}
    (hf : ∀ r, (f r).syntheticForAnchor = r.syntheticForAnchor) (v : Url) :
    ((db.updateAccount u f).account v).syntheticForAnchor =
      (db.account v).syntheticForAnchor := by
  rw [updateAccount_account]
  split
  · rename_i hv
    rw [hf, hv]
  · rfl

theorem waiting_addChainEntry (combine : Hash → Hash → Hash) (db : Database) (cu : ChainUpdates)
    (u : Url) (name : ChainName) (entry : Hash) :
    (ChainUpdates.addChainEntry combine db cu u name entry).1.transaction = db.transaction ∧
      ∀ v,
        ((ChainUpdates.addChainEntry combine db cu u name entry).1.account v).syntheticForAnchor =
        (db.account v).syntheticForAnchor := by
  refine ⟨ChainUpdates.addChainEntry_transaction combine db cu u name entry, fun v => ?_⟩
  unfold ChainUpdates.addChainEntry
  split
  · rfl
  simp only [addEntry]
  apply waiting_updateAccount
  exact fun _ => rfl

theorem sameWaiting_addChainEntry (u : Url) (name : ChainName) (entry : Hash) :
    SameWaiting st (st.addChainEntry c u name entry) := by
  obtain ⟨htransaction, hwaiting⟩ :=
    waiting_addChainEntry c.combine st.batch st.state.chainUpdates u name entry
  exact ⟨rfl, rfl, htransaction, hwaiting⟩

theorem sameWaiting_recordAnchor (name : String) (body : PartitionAnchor) :
    SameWaiting st (st.recordAnchor c name body) := by
  obtain ⟨htransaction, hwaiting⟩ := waiting_addChainEntry c.combine st.batch
    st.state.chainUpdates st.originUrl (.anchorRoot name) body.rootChainAnchor
  apply trans_of SameWaiting _ (sameWaiting_addChainEntry c _ _ _ _)
  exact ⟨rfl, rfl, htransaction, hwaiting⟩

theorem sameWaiting_update (a : Account) : Proc.Keeps SameWaiting (update c a) := by
  refine keeps_update (keeps_putState fun st => ⟨rfl, rfl, rfl, ?_⟩) fun st =>
    sameWaiting_addChainEntry c st _ _ _
  exact waiting_updateAccount st.batch a.url (f := fun r => { r with main := some a }) fun _ => rfl

end StateManager

theorem loadSynthTxns_congr {db db' : Database}
    (h : ∀ hash, (db'.transaction hash).main = (db.transaction hash).main ∧
      (db'.transaction hash).signatures = (db.transaction hash).signatures ∧
      (db'.transaction hash).status.signers = (db.transaction hash).status.signers)
    (deliver : TxID → Delivery) (l : List TxID) :
    loadSynthTxns db' deliver l = loadSynthTxns db deliver l := by
  have hfind : ∀ entries,
      findSyntheticSignature db' entries = findSyntheticSignature db entries := by
    intro entries
    induction entries with
    | nil => rfl
    | cons entry rest ih =>
      unfold findSyntheticSignature getTransaction
      rw [(h entry.signatureHash).1, ih]
  have hget : ∀ hash, getSyntheticSignature db' hash = getSyntheticSignature db hash := by
    intro hash
    unfold getSyntheticSignature readSignaturesForSigner
    rw [hfind, (h hash).2.1, (h hash).2.2]
  induction l with
  | nil => rfl
  | cons txid rest ih =>
    unfold loadSynthTxns
    rw [hget, ih]

theorem loadSynthTxns_eq_ok {db : Database} {deliver : TxID → Delivery} {waiting : List TxID}
    {l : List (Int × Delivery)} (h : loadSynthTxns db deliver waiting = .ok l) :
    ∃ k : List (Nat × TxID), k.map (·.2) = waiting ∧
      (∀ p ∈ k, getSyntheticSignature db p.2.hash = .ok p.1) ∧
      l = k.map fun p => (goInt p.1, deliver p.2) := by
  induction waiting generalizing l with
  | nil =>
    cases h
    exact ⟨[], rfl, List.forall_mem_nil _, rfl⟩
  | cons txid rest ih =>
    obtain ⟨n, hn, h⟩ := Outcome.bind_eq_ok.1 h
    obtain ⟨l', hl', h⟩ := Outcome.bind_eq_ok.1 h
    cases h
    obtain ⟨k, hk, hnumbers, rfl⟩ := ih hl'
    refine ⟨(n, txid) :: k, by rw [List.map_cons, hk], fun p hp => ?_, rfl⟩
    rcases List.mem_cons.1 hp with rfl | hp
    · exact hn
    · exact hnumbers p hp

theorem additional_submitDeliveries (l : List (Int × Delivery)) (st : StateManager) :
    (st.submitDeliveries l).state.additionalTransactions =
      st.state.additionalTransactions ++ sortDeliveries l := by
  have hfold : ∀ (ds : List Delivery) (s : ProcessTransactionState),
      (ds.foldl ProcessTransactionState.processAdditionalTransaction s).additionalTransactions =
        s.additionalTransactions ++ ds := by
    intro ds
    induction ds with
    | nil => exact fun s => (List.append_nil _).symm
    | cons d rest ih =>
      intro s
      rw [List.foldl_cons, ih]
      simp [ProcessTransactionState.processAdditionalTransaction]
  exact hfold _ _

namespace PartitionAnchor

variable {c : Crypto} {describe : Describe} {d : Delivery} {body : PartitionAnchor}
variable {acmeBurnt : Int} {st st' : StateManager} {r : Option TransactionResult}

/-- What the execution of an anchor schedules: nothing if it completes a major block, and else
what has been waiting for it.  It queues no operation. -/
def Schedules (describe : Describe) (d : Delivery) (body : PartitionAnchor)
    (st st' : StateManager) : Prop :=
  st'.operations = st.operations ∧
    (0 < body.majorBlockIndex ∧
        st'.state.additionalTransactions = st.state.additionalTransactions ∨
      body.majorBlockIndex = 0 ∧ ∃ l, loadSynthTxns st.batch
          (fun txid => d.newChild (remoteTransaction txid.hash) [])
          ((st.batch.account describe.ledger).syntheticForAnchor body.rootChainAnchor) = .ok l ∧
        st'.state.additionalTransactions = st.state.additionalTransactions ++ sortDeliveries l)

section Keeps

variable {R : StateManager → StateManager → Prop} [Std.Refl R] [IsTrans StateManager R]
  (hupdate : ∀ a, Proc.Keeps R (StateManager.update c a))

include hupdate

theorem keeps_returnBurnt (acmeBurnt : Int) : Proc.Keeps R (returnBurnt c acmeBurnt) := by
  refine .bind .get fun st => ?_
  split
  · exact .mapError (hupdate _)
  · exact .throw _

theorem keeps_completeMajorBlock (horigin : ∀ st a, R st { st with origin := some a })
    (hmajor : ∀ st n, R st { st with state := { st.state with makeMajorBlock := n } })
    (source : Url) (ledger : AnchorLedger) :
    Proc.Keeps R (completeMajorBlock c source ledger) := by
  refine .ite (.throw _) ?_
  refine .bind (.modify fun st => horigin st _) fun _ => ?_
  refine .bind (hupdate _) fun _ => ?_
  exact .ite (.modify fun st => hmajor st _) (.pure _)

end Keeps

theorem receive_schedules {source : Url} {name : String} {ledger : AnchorLedger}
    (h : receive c describe d source name body acmeBurnt ledger st = (.ok r, st')) :
    Schedules describe d body st st' := by
  obtain ⟨_, st₁, hburnt, h⟩ := Proc.bind_eq_ok.1 h
  have hsame₁ := (keeps_returnBurnt (StateManager.sameWaiting_update c) acmeBurnt).run hburnt
  rw [Proc.modify_bind_run] at h
  have hsame := trans_of StateManager.SameWaiting hsame₁
    (StateManager.sameWaiting_recordAnchor c st₁ name body)
  split at h
  · rename_i hmajor
    obtain ⟨_, st₂, hcomplete, h⟩ := Proc.bind_eq_ok.1 h
    cases h
    have hsame₂ := (keeps_completeMajorBlock (StateManager.sameWaiting_update c)
      (fun _ _ => ⟨rfl, rfl, rfl, fun _ => rfl⟩) (fun _ _ => ⟨rfl, rfl, rfl, fun _ => rfl⟩)
      source ledger).run hcomplete
    have hboth := trans_of StateManager.SameWaiting hsame hsame₂
    exact ⟨hboth.operations, .inl ⟨hmajor, hboth.additional⟩⟩
  · rename_i hmajor
    obtain ⟨_, st₂, hschedule, h⟩ := Proc.bind_eq_ok.1 h
    cases h
    obtain ⟨l, hl, hsubmit⟩ := Proc.lift_bind_eq_ok.1 hschedule
    cases hsubmit
    have hcongr : ∀ deliver waiting, loadSynthTxns (st₁.recordAnchor c name body).batch deliver
        waiting = loadSynthTxns st.batch deliver waiting :=
      loadSynthTxns_congr fun hash => by
        rw [hsame.transaction]
        exact ⟨rfl, rfl, rfl⟩
    rw [hsame.waiting, hcongr] at hl
    refine ⟨hsame.operations, .inr ⟨Nat.eq_zero_of_not_pos hmajor, l, hl, ?_⟩⟩
    rw [additional_submitDeliveries, hsame.additional]

theorem execute_schedules
    (hbody : d.transaction.body = .payload (.blockValidatorAnchor body acmeBurnt))
    (h : execute c describe d st = (.ok r, st')) :
    Schedules describe d body st st' := by
  unfold execute at h
  simp only [hbody] at h
  rw [Proc.get_bind_run] at h
  cases horigin : st.origin with
  | none => simp [horigin] at h
  | some a =>
    rw [horigin] at h
    cases a with
    | anchorLedger ledger =>
      cases hsource : body.source with
      | none => simp [hsource] at h
      | some source =>
        simp only [hsource] at h
        cases hname : parsePartitionUrl source with
        | none => simp [hname] at h
        | some name =>
          simp only [hname] at h
          exact receive_schedules h
    | _ => cases h

end PartitionAnchor

end Chain
end Accumulate
