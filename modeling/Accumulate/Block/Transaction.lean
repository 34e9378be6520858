import Accumulate.Block.Ready

/-!
# Executing one transaction

`ProcessTransaction` of `internal/block/transaction.go` and the post-processing of
network accounts of `internal/block/network_accounts.go`.

`ProcessTransaction` runs on a batch of its own.  The pending globals are not part
of that batch: they belong to the executor and survive whatever happens to the
batch.  The two together are the state of a `Stage`.
-/

namespace Accumulate

open Library Protocol Database Accumulate.Core Chain

/-- The batch a transaction is processed in and the executor's pending globals. -/
structure Stage where
  batch : Database
  pending : GlobalValues

namespace Stage

def onBatch {α : Type} (p : Proc Database Error α) : Proc Stage Error α :=
  Proc.zoom Stage.batch (fun db s => { s with batch := db }) p

def onPending {α : Type} (p : Proc GlobalValues Error α) : Proc Stage Error α :=
  Proc.zoom Stage.pending (fun g s => { s with pending := g }) p

@[simp] theorem onBatch_run {α : Type} (p : Proc Database Error α) (s : Stage) :
    onBatch p s = ((p s.batch).1, { s with batch := (p s.batch).2 }) := rfl

@[simp] theorem onPending_run {α : Type} (p : Proc GlobalValues Error α) (s : Stage) :
    onPending p s = ((p s.pending).1, { s with pending := (p s.pending).2 }) := rfl

end Stage

namespace Executor

variable (x : Executor)

/-! ## Network accounts -/

/-- Decode an entry written to a network account and assign the pending global it
stands for.  The result tells whether the account holds a network variable. -/
def parseNetworkVariable (path : List String) (entry : Option DataEntry) :
    Proc GlobalValues Error Bool :=
  match path with
  | ["oracle"] => do GlobalValues.parseOracle x.decoders entry; return true
  | ["globals"] => do GlobalValues.parseGlobals x.decoders entry; return true
  | ["network"] => do GlobalValues.parseNetwork x.decoders entry; return true
  | ["routing"] => do GlobalValues.parseRouting x.decoders entry; return true
  | ["votes"] => Proc.throw (.new .badRequest "account cannot be updated directly")
  | ["evidence"] => Proc.throw (.new .badRequest "account cannot be updated directly")
  | _ => return false

/-- The first half of `processNetworkAccountUpdates`: check the update of a network
account.  The result is the name under which the update is pushed to the other
partitions, or `none` when there is nothing to push. -/
def checkNetworkAccountUpdate (body : TransactionBody) (principal : Account) :
    Proc GlobalValues Error (Option String) := do
  let path := principal.url.path
  let targetName := String.intercalate "/" path
  match body with
  | .payload (.updateKeyPage _) =>
    if path = ["operators", "1"] then
      match principal with
      | .keyPage page =>
        if page.acceptThreshold ≠ x.operatorThreshold page.keys.length then
          Proc.throw (.new .badRequest "invalid update: incorrect accept threshold")
        else return some "operators"
      | _ => Proc.throw (.new .internalError "account is not a key page")
    else return some targetName
  | .payload (.updateAccountAuth _) =>
    Proc.throw (.new .badRequest "the authority set of a network account cannot be updated")
  | .payload (.writeData entry _ writeToState) =>
    let isVariable ← x.parseNetworkVariable path entry
    if !isVariable then return none
    else if !writeToState then Proc.throw (.new .badRequest "updates must write to state")
    else return some targetName
  | _ => return some targetName

/-- The second half of `processNetworkAccountUpdates`: the directory network keeps
the update in its ledger, any other partition only accepts what it has been pushed. -/
def pushNetworkAccountUpdate (delivery : Delivery) (targetName : String) :
    Proc Database Error Unit := do
  if x.describe.networkType ≠ .directory then
    if !delivery.wasProducedByPushedUpdate then
      Proc.throw (.new .badRequest "account cannot be updated directly")
  else
    let ledger ← Proc.query fun db => (db.getStateAs x.describe.ledger asSystemLedger).mapError
      (.format .unknownError "load ledger")
    let update : NetworkAccountUpdate := ⟨targetName, delivery.transaction.body⟩
    let ledger := { ledger with pendingUpdates := ledger.pendingUpdates ++ [update] }
    Proc.mapError (.format .unknownError "store ledger")
      (putState x.describe.ledger (.systemLedger ledger))

def processNetworkAccountUpdates (delivery : Delivery) (principal : Option Account) :
    Proc Stage Error Unit :=
  match principal with
  | none => return ()
  | some principal =>
    if !(x.describe.nodeUrl []).prefixOf principal.url ∨ delivery.type.isSystem then return ()
    else do
      match ← Stage.onPending (x.checkNetworkAccountUpdate delivery.transaction.body principal) with
      | none => return ()
      | some targetName => Stage.onBatch (x.pushNetworkAccountUpdate delivery targetName)

/-! ## Recording the outcome -/

/-- The ledger that keeps track of a sequenced transaction. -/
def sequenceLedgerUrl (t : TransactionType) : Url :=
  if t.isSystem then x.describe.anchorPool else x.describe.synthetic

/-- The second half of `recordTransaction`: update the synthetic or anchor ledger
and, if the next transaction of the sequence is waiting, have it executed. -/
def recordSequence (delivery : Delivery) (status : TransactionStatus)
    (state : ProcessTransactionState) : Proc Database Error ProcessTransactionState := do
  let db ← Proc.get
  match db.getState (x.sequenceLedgerUrl delivery.type) with
  | .panic m => Proc.abort m
  | .error e => Proc.throw (.format .unknownError "load synthetic transaction ledger" e)
  | .ok ledger =>
    match ledger.exchange, delivery.sourceNetwork with
    | none, _ => Proc.throw (.format .unknownError "load synthetic transaction ledger"
        errCannotAssign)
    | some _, none => Proc.abort "nil URL"
    | some exchange, some source =>
      let partLedger := partitionLedger exchange source
      if status.pending ∧ delivery.sequenceNumber ≤ partLedger.delivered then
        Proc.throw (.new .fatalError "synthetic transactions executed out of order")
      else
        let (partLedger, dirty) ← Proc.lift (partLedger.add x.sliceLimit (!status.pending)
          delivery.sequenceNumber (x.crypto.id delivery.transaction))
        if dirty then
          putState ledger.url
            (ledger.withExchange (setPartitionLedger exchange partLedger))
        match ← Proc.lift (partLedger.get (delivery.sequenceNumber + 1)) with
        | some next =>
          let d := delivery.newSyntheticFromSequence next.hash
          return state.processAdditionalTransaction d
        | none => return state

def recordTransaction (delivery : Delivery) (state : ProcessTransactionState)
    (updateStatus : TransactionStatus → TransactionStatus) :
    Proc Database Error (TransactionStatus × ProcessTransactionState) := do
  let hash := x.getHash delivery.transaction
  Proc.modify fun db => db.putTransaction hash ⟨some delivery.transaction, none, none⟩
  let db ← Proc.get
  let status := normalizeStatus (updateStatus
    { (db.transaction hash).status with txID := some (x.crypto.id delivery.transaction) })
  putStatus hash status
  if delivery.type.isUser ∨ delivery.type.isUnsequenced then return (status, state)
  else
    let state ← x.recordSequence delivery status state
    return (status, state)

def recordPendingTransaction (delivery : Delivery) (principalUrl : Url) :
    Proc Database Error (TransactionStatus × ProcessTransactionState) := do
  let (status, state) ← x.recordTransaction delivery .new fun s => { s with code := .pending }
  if delivery.type.isSystem then return (status, state)
  else if delivery.type.isUser then
    Proc.modify fun db => db.addPending principalUrl (x.crypto.id delivery.transaction)
    return (status, state)
  else
    match status.proof with
    | none => return (status, state)
    | some proof =>
      Proc.modify fun db => db.addSyntheticForAnchor x.describe.ledger proof.anchor
        (x.crypto.id delivery.transaction)
      return (status, state)

def selectTargetChain : TransactionBody → ChainName
  | .payload (.writeData _ true _) => .scratch
  | _ => .main

def recordSuccessfulTransaction (delivery : Delivery) (principalUrl : Url)
    (state : ProcessTransactionState) (result : Option TransactionResult) :
    Proc Database Error (TransactionStatus × ProcessTransactionState) := do
  let (status, state) ← x.recordTransaction delivery state fun s =>
    { s with code := .delivered, result := some (result.getD .empty) }
  if delivery.type.isSystem ∧ !delivery.type.isAnchor then return (status, state)
  else
    Proc.modify fun db => db.removePending principalUrl (x.crypto.id delivery.transaction)
    let db ← Proc.get
    let (db, chainUpdates, _) := state.chainUpdates.addChainEntry x.crypto.combine db
      principalUrl (selectTargetChain delivery.transaction.body)
      (x.getHash delivery.transaction)
    Proc.modify fun _ => db
    return (status, { state with chainUpdates := chainUpdates })

/-- The refund of a failed user transaction: what was paid beyond the fee for
failed transactions. -/
def failureRefund (delivery : Delivery) (status : TransactionStatus) :
    Outcome Error (Option (Url × Fee)) :=
  match status.initiator with
  | none => .ok none
  | some initiator =>
    if !delivery.type.isUser then .ok none
    else
      match computeTransactionFee x.crypto x.active.globals.feeSchedule delivery.transaction with
      | .panic m => .panic m
      | .error e => .error (.plainWrap "compute fee" e)
      | .ok paid =>
        if paid ≤ feeFailedMaximum then .ok none
        else .ok (some (initiator, paid - feeFailedMaximum))

def refundBody (amount : Fee) : TransactionBody :=
  .payload (.syntheticDepositCredits .empty amount none false)

def originRefund (body : TransactionBody) (state : ProcessTransactionState) :
    ProcessTransactionState :=
  match body.origin with
  | some origin =>
    if origin.feeRefund > 0 then state.didProduceTxn origin.initiator (refundBody origin.feeRefund)
    else state
  | none => state

def recordFailedTransaction (delivery : Delivery) (principalUrl : Url) (failure : Error) :
    Proc Database Error (TransactionStatus × ProcessTransactionState) := do
  let (status, state) ← x.recordTransaction delivery .new fun s => s.set failure
  let state := originRefund delivery.transaction.body state
  let state ←
    match (x.executors delivery.type).bind (·.didFail) with
    | some didFail => Proc.lift (didFail state delivery.transaction)
    | none => pure state
  Proc.modify fun db => db.removePending principalUrl (x.crypto.id delivery.transaction)
  match ← Proc.lift (x.failureRefund delivery status) with
  | some (initiator, amount) =>
    return (status, state.didProduceTxn (some initiator) (refundBody amount))
  | none => return (status, state)

/-! ## The stages of a transaction -/

/-- The beginning of `ProcessTransaction`: load the status and make sure that it
has a transaction ID. -/
def loadStatus (transaction : Transaction) : Proc Database Error TransactionStatus := do
  let hash := x.getHash transaction
  let db ← Proc.get
  let status := (db.transaction hash).status
  if status.txID.isNone ∧ transaction.header.principal.isSome then
    let status := normalizeStatus { status with txID := some (x.crypto.id transaction) }
    putStatus hash status
    return status
  else return status

def checkSynthetic (db : Database) (delivery : Delivery) (status : TransactionStatus) :
    Outcome Error Unit :=
  if delivery.type.isSynthetic then
    processSyntheticTransaction db delivery.transaction status
  else .ok ()

def runExecutor (db : Database) (delivery : Delivery) (status : TransactionStatus)
    (principal : Option Account) (principalUrl : Url) :
    Outcome Error (Option TransactionResult × StateManager) := do
  checkSynthetic db delivery status
  let st ← StateManager.load x.crypto db principal principalUrl delivery.transaction status
  match x.executors delivery.type with
  | none => .error (.new .internalError "missing executor")
  | some executor =>
    -- the executor is given the transaction but not the signatures
    let r := executor.execute (.new delivery.transaction []) st
    let result ← r.1.mapError Error.wrap
    return (result, r.2)

def commitState (st : StateManager) : Proc Database Error ProcessTransactionState :=
  Proc.mapError (.plainWrap "commit") (st.commit x.crypto x.commitOrder)

/-- Execution: run the executor, merge its batch and post-process network
accounts.  Each of the three can fail, and what was merged before stays merged. -/
def executeStages (delivery : Delivery) (status : TransactionStatus)
    (principal : Option Account) (principalUrl : Url) :
    Proc Stage Error (Option TransactionResult × ProcessTransactionState) := do
  let (result, st) ← Stage.onBatch
    (Proc.query fun db => x.runExecutor db delivery status principal principalUrl)
  let state ← Stage.onBatch (x.commitState st)
  x.processNetworkAccountUpdates delivery st.origin
  return (result, state)

/-- `ProcessTransaction` once the status has been loaded.  A failure is recorded in
the status and is not an error; the exception is a synthetic transaction that has
been executed before, which leaves no trace. -/
def processLoaded (delivery : Delivery) (status : TransactionStatus) (principalUrl : Url) :
    Proc Stage Error (TransactionStatus × ProcessTransactionState) := do
  let s ← Proc.get
  let principal := (s.batch.account principalUrl).main
  match x.transactionIsReady s.batch delivery status principal with
  | .panic m => Proc.abort m
  | .error e =>
    if e.is .delivered then return (status, .new)
    else Stage.onBatch (x.recordFailedTransaction delivery principalUrl e)
  | .ok false => Stage.onBatch (x.recordPendingTransaction delivery principalUrl)
  | .ok true =>
    match ← Proc.attempt (x.executeStages delivery status principal principalUrl) with
    | .error e => Stage.onBatch (x.recordFailedTransaction delivery principalUrl e)
    | .ok (result, state) =>
      Stage.onBatch (x.recordSuccessfulTransaction delivery principalUrl state result)

def processTransaction (delivery : Delivery) :
    Proc Stage Error (TransactionStatus × ProcessTransactionState) := do
  let status ← Stage.onBatch (x.loadStatus delivery.transaction)
  match delivery.transaction.header.principal with
  | none => Proc.abort "nil URL"
  | some principalUrl => x.processLoaded delivery status principalUrl

variable {db : Database} {d : Delivery} {status : TransactionStatus} {u : Url}
  {result : Option TransactionResult}

theorem runExecutor_eq_ok {principal : Option Account}
    {st : StateManager} (h : x.runExecutor db d status principal u = .ok (result, st)) :
    ∃ executor, x.executors d.type = some executor ∧
      executor.execute (.new d.transaction [])
        (.new x.crypto db principal u d.transaction) = (.ok result, st) := by
  obtain ⟨_, -, h⟩ := Outcome.bind_eq_ok.1 h
  obtain ⟨st₁, hload, h⟩ := Outcome.bind_eq_ok.1 h
  obtain rfl := StateManager.load_eq_ok hload
  cases hexecutor : x.executors d.type with
  | none => simp [hexecutor] at h
  | some executor =>
    simp only [hexecutor] at h
    obtain ⟨result', hexec, h⟩ := Outcome.bind_eq_ok.1 h
    cases h
    exact ⟨executor, rfl, Prod.ext (Outcome.mapError_eq_ok.1 hexec) rfl⟩

/-! ### What recording does -/

variable {state state' : ProcessTransactionState} {db' : Database}

/-- The ledger of a sequenced transaction is updated, and the transaction that has been
waiting for it, if there is one, is to be executed next. -/
theorem recordSequence_eq_ok (h : x.recordSequence d status state db = (.ok state', db')) :
    ∃ ledger exchange source partLedger dirty next,
      db.getState (x.sequenceLedgerUrl d.type) = .ok ledger ∧
      ledger.exchange = some exchange ∧ d.sourceNetwork = some source ∧
      (partitionLedger exchange source).add x.sliceLimit (!status.pending) d.sequenceNumber
        (x.crypto.id d.transaction) = .ok (partLedger, dirty) ∧
      db' = (if dirty then db.setMain ledger.url
        (ledger.withExchange (setPartitionLedger exchange partLedger)) else db) ∧
      partLedger.get (d.sequenceNumber + 1) = .ok next ∧
      state' = (match next with
        | some next => state.processAdditionalTransaction (d.newSyntheticFromSequence next.hash)
        | none => state) := by
  unfold recordSequence at h
  rw [Proc.get_bind_run] at h
  cases hledger : db.getState (x.sequenceLedgerUrl d.type) with
  | panic m | error e => simp [hledger] at h
  | ok ledger =>
    cases hexchange : ledger.exchange with
    | none => simp [hledger, hexchange] at h
    | some exchange =>
      cases hsource : d.sourceNetwork with
      | none => simp [hledger, hexchange, hsource] at h
      | some source =>
        simp only [hledger, hexchange, hsource] at h
        split at h
        · cases h
        obtain ⟨⟨partLedger, dirty⟩, hadd, h⟩ := Proc.lift_bind_eq_ok.1 h
        refine ⟨ledger, exchange, source, partLedger, dirty, ?_⟩
        -- a ledger has no authorities, so that storing it succeeds
        have hput : putState ledger.url
            (ledger.withExchange (setPartitionLedger exchange partLedger)) db =
            (.ok (), db.setMain ledger.url
              (ledger.withExchange (setPartitionLedger exchange partLedger))) := by
          cases ledger <;>
            simp_all [Account.exchange, putState, Account.withExchange, Account.url,
              Account.fullAuth]
        cases dirty with
        | true =>
          simp only [if_true] at h
          rw [Proc.bind_run_of_ok hput] at h
          obtain ⟨next, hnext, h⟩ := Proc.lift_bind_eq_ok.1 h
          refine ⟨next, rfl, hexchange, rfl, hadd, ?_, hnext, ?_⟩
          all_goals cases next <;> cases h <;> rfl
        | false =>
          obtain ⟨next, hnext, h⟩ := Proc.lift_bind_eq_ok.1 h
          refine ⟨next, rfl, hexchange, rfl, hadd, ?_, hnext, ?_⟩
          all_goals cases next <;> cases h <;> rfl

theorem recordSequence_producedTxns (h : x.recordSequence d status state db = (.ok state', db')) :
    state'.producedTxns = state.producedTxns := by
  obtain ⟨_, _, _, _, _, next, -, -, -, -, -, -, rfl⟩ := x.recordSequence_eq_ok h
  cases next <;> rfl

theorem recordTransaction_producedTxns {f : TransactionStatus → TransactionStatus}
    (h : x.recordTransaction d state f db = (.ok (status, state'), db')) :
    state'.producedTxns = state.producedTxns := by
  unfold recordTransaction at h
  rw [Proc.modify_bind_run, Proc.get_bind_run] at h
  obtain ⟨_, db₁, -, h⟩ := Proc.bind_eq_ok.1 h
  split at h
  · cases h
    rfl
  · obtain ⟨state₁, db₂, hsequence, h⟩ := Proc.bind_eq_ok.1 h
    cases h
    exact x.recordSequence_producedTxns hsequence

/-- A success is recorded.  The transaction is no longer pending then, and it is added to the
target chain of its principal. -/
theorem recordSuccessfulTransaction_eq_ok
    (h : x.recordSuccessfulTransaction d u state result db = (.ok (status, state'), db')) :
    ∃ state₁ db₁, x.recordTransaction d state (fun s =>
        { s with code := .delivered, result := some (result.getD .empty) }) db =
          (.ok (status, state₁), db₁) ∧
      state'.producedTxns = state₁.producedTxns ∧
      state'.additionalTransactions = state₁.additionalTransactions ∧
      (db' = db₁ ∨ db' = (state₁.chainUpdates.addChainEntry x.crypto.combine
        (db₁.removePending u (x.crypto.id d.transaction)) u
        (selectTargetChain d.transaction.body) (x.getHash d.transaction)).1) := by
  obtain ⟨⟨status₁, state₁⟩, db₁, hrecord, h⟩ := Proc.bind_eq_ok.1 h
  simp only at h
  split at h
  · cases h
    exact ⟨_, _, hrecord, rfl, rfl, .inl rfl⟩
  · cases h
    exact ⟨_, _, hrecord, rfl, rfl, .inr rfl⟩

theorem recordSuccessfulTransaction_producedTxns
    (h : x.recordSuccessfulTransaction d u state result db = (.ok (status, state'), db')) :
    state'.producedTxns = state.producedTxns := by
  obtain ⟨_, _, hrecord, hproduced, -⟩ := x.recordSuccessfulTransaction_eq_ok h
  rw [hproduced, x.recordTransaction_producedTxns hrecord]

end Executor
end Accumulate
