import Accumulate.Block.Processing
import Accumulate.Chain.WriteData

/-!
# What a failed transaction leaves behind

A failed user transaction is meant to change its own transaction record, the
pending list of its principal and the list of produced refunds, and nothing else.
Recording a failure does just that.  The writes of the executor, however, are
merged into the batch before the last checks are made: an account that is refused
while they are merged, and the checks of network accounts after that, turn the
transaction into a failed one without taking the merged accounts back.

* `Database.FailureFrame` is the intended frame.
* `keeps_loadStatus`, `keeps_recordFailedTransaction`: the parts of
  `ProcessTransaction` outside the execution stages stay within it.
* `Executor.Contained` says when the execution stages stay within it, too.
-/

namespace Accumulate

open Library Protocol Database Accumulate.Core Chain

/-! ## The frame -/

/-- The record of account `v` has not changed, apart from the pending list when it
is the principal `u`. -/
def Database.AccountRecord.Framed (u v : Url) (before after : AccountRecord) : Prop :=
  after = { before with pending := after.pending } ∧
    (v ≠ u → after.pending = before.pending)

/-- What a failed transaction with hash `h` and principal `u` may do to the
database. -/
structure Database.FailureFrame (u : Url) (h : Hash) (before after : Database) : Prop where
  account : ∀ v, AccountRecord.Framed u v (before.account v) (after.account v)
  transaction : ∀ k, k ≠ h → after.transaction k = before.transaction k
  index : after.syntheticIndexIndex = before.syntheticIndexIndex

theorem Database.AccountRecord.Framed.refl (u v : Url) (a : AccountRecord) :
    AccountRecord.Framed u v a a :=
  ⟨rfl, fun _ => rfl⟩

variable {u : Url} {v : Url} {a b : AccountRecord}

theorem Database.AccountRecord.Framed.trans {c : AccountRecord} (hab : AccountRecord.Framed u v a b)
    (hbc : AccountRecord.Framed u v b c) : AccountRecord.Framed u v a c := by
  obtain ⟨hb, hbp⟩ := hab
  obtain ⟨hc, hcp⟩ := hbc
  refine ⟨?_, fun hv => (hcp hv).trans (hbp hv)⟩
  rw [hc, hb]

theorem Database.AccountRecord.Framed.symm
    (hab : AccountRecord.Framed u v a b) : AccountRecord.Framed u v b a := by
  obtain ⟨hb, hbp⟩ := hab
  refine ⟨?_, fun hv => (hbp hv).symm⟩
  rw [hb]

instance (u : Url) (h : Hash) : Std.Refl (Database.FailureFrame u h) where
  refl _ := ⟨fun v => .refl u v _, fun _ _ => rfl, rfl⟩

instance (u : Url) (h : Hash) : IsTrans Database (Database.FailureFrame u h) where
  trans _ _ _ hab hbc :=
    ⟨fun v => (hab.account v).trans (hbc.account v),
      fun k hk => (hbc.transaction k hk).trans (hab.transaction k hk),
      hbc.index.trans hab.index⟩

theorem Database.FailureFrame.symm {h : Hash} {a b : Database}
    (hab : Database.FailureFrame u h a b) :
    Database.FailureFrame u h b a :=
  ⟨fun v => (hab.account v).symm, fun k hk => (hab.transaction k hk).symm, hab.index.symm⟩

/-! ## Recording stays within the frame -/

section Recording

variable (x : Executor) (u : Url) (h : Hash)

theorem frame_updateTransaction (db : Database) (f : TransactionRecord → TransactionRecord) :
    Database.FailureFrame u h db (db.updateTransaction h f) :=
  ⟨fun v => .refl u v _, fun k hk => db.updateTransaction_transaction_of_ne h k f hk, rfl⟩

theorem frame_putTransaction (db : Database) (v : SigOrTxn) :
    Database.FailureFrame u h db (db.putTransaction h v) :=
  frame_updateTransaction u h db _

theorem frame_setStatus (db : Database) (s : TransactionStatus) :
    Database.FailureFrame u h db (db.setStatus h s) :=
  frame_updateTransaction u h db _

theorem frame_removePending (db : Database) (id : TxID) :
    Database.FailureFrame u h db (db.removePending u id) := by
  refine ⟨fun v => ?_, fun _ _ => rfl, rfl⟩
  by_cases hv : v = u
  · subst hv
    exact ⟨by simp [removePending], fun hne => absurd rfl hne⟩
  · rw [removePending, updateAccount_account_of_ne _ _ _ _ hv]
    exact .refl u v _

theorem keeps_loadStatus (t : Transaction) :
    Proc.Keeps (Database.FailureFrame u (x.getHash t)) (x.loadStatus t) := by
  refine .bind .get fun db => ?_
  refine .ite ?_ (.pure _)
  exact .bind (keeps_putStatus fun db => frame_setStatus u _ db _) fun _ => .pure _

theorem origin_of_isUser {body : TransactionBody} (hu : body.type.isUser = true) :
    body.origin = none := by
  cases body with
  | payload p => cases p <;> first | rfl | exact absurd hu Bool.false_ne_true
  | directoryAnchor => rfl
  | syntheticForwardTransaction => rfl

def Executor.refundState (refund : Option (Url × Fee)) : ProcessTransactionState :=
  match refund with
  | none => .new
  | some (initiator, amount) =>
    ProcessTransactionState.new.didProduceTxn (some initiator) (refundBody amount)

def Executor.recordedFailure (d : Delivery) (e : Error) (db : Database) : Database :=
  ((db.putTransaction (x.getHash d.transaction) ⟨some d.transaction, none, none⟩).setStatus
    (x.getHash d.transaction) (x.recordedStatus d (·.set e) db)).removePending u
      (x.crypto.id d.transaction)

variable {d : Delivery}

/-- Recording the failure of a user transaction: the only way it can go wrong is
that the fee to be refunded cannot be computed. -/
theorem recordFailedTransaction_user (hu : d.type.isUser = true) (e : Error) (db : Database) :
    x.recordFailedTransaction d u e db =
      (((x.failureRefund d (db.transaction (x.getHash d.transaction)).status).bind fun r =>
          .ok (x.recordedStatus d (·.set e) db, Executor.refundState r)),
        x.recordedFailure u d e db) := by
  have hfail : (x.executors d.type).bind (·.didFail) = none := by
    cases hx : x.executors d.type with
    | none => rfl
    | some ex => exact x.didFail_user _ _ hx hu
  have hrefund : x.failureRefund d (x.recordedStatus d (·.set e) db) =
      x.failureRefund d (db.transaction (x.getHash d.transaction)).status := rfl
  unfold Executor.recordFailedTransaction
  rw [Proc.bind_run, recordTransaction_user x hu]
  simp only [hfail, Executor.originRefund, origin_of_isUser hu, hrefund]
  cases x.failureRefund d (db.transaction (x.getHash d.transaction)).status with
  | ok r => cases r <;> rfl
  | error e' => rfl
  | panic m => rfl

theorem frame_recordedFailure (d : Delivery) (e : Error) (db : Database) :
    Database.FailureFrame u (x.getHash d.transaction) db (x.recordedFailure u d e db) := by
  have hput := frame_putTransaction u (x.getHash d.transaction) db ⟨some d.transaction, none, none⟩
  have hset := frame_setStatus u (x.getHash d.transaction)
    (db.putTransaction (x.getHash d.transaction) ⟨some d.transaction, none, none⟩)
    (x.recordedStatus d (·.set e) db)
  exact trans_of _ (trans_of _ hput hset) (frame_removePending u _ _ _)

end Recording

/-! ## When failures are contained -/

namespace Executor

variable (x : Executor) (d : Delivery) (s : Stage)

/-- What is produced for a failed transaction are refunds, and there is no other
effect outside the database. -/
def OnlyRefunds (state : ProcessTransactionState) : Prop :=
  state = { ProcessTransactionState.new with producedTxns := state.producedTxns } ∧
    ∀ t ∈ state.producedTxns, ∃ amount, t.body = refundBody amount

/-- If the transaction is given a failed status, nothing has changed but its own
record, the pending list of its principal and the list of produced refunds. -/
def FailsCleanly : Prop :=
  ∀ u status state s', d.transaction.header.principal = some u →
    x.processTransaction d s = (.ok (status, state), s') → status.failed = true →
      Database.FailureFrame u (x.getHash d.transaction) s.batch s'.batch ∧ OnlyRefunds state

/-- The transaction is executed and its executor succeeds: `db` is the batch the
writes are about to be merged into, `st` the state manager that holds them, and
`principal` the principal as the executor left it. -/
def Executes (u : Url) (db : Database) (principal : Option Account) (st : StateManager) : Prop :=
  d.transaction.header.principal = some u ∧
    ∃ status result st₀,
      x.loadStatus d.transaction s.batch = (.ok status, db) ∧
      x.transactionIsReady db d status (db.account u).main = .ok true ∧
      x.runExecutor db d status (db.account u).main u = .ok (result, st₀) ∧
      st₀.origin = principal ∧
      StateManager.executeOperations x.crypto st₀.operations st₀ = (.ok (), st)

/-- The fee of the transaction can be computed, or is not needed because nobody
gets a refund. -/
def CanRefund (db : Database) : Prop :=
  ∃ r, x.failureRefund d (db.transaction (x.getHash d.transaction)).status = .ok r

/-- The executor has left the records in its batch as they are, but for what a failed
transaction may change. -/
structure LeavesFramed (u : Url) (db : Database) (st : StateManager) : Prop where
  account : ∀ v ∈ st.touched, AccountRecord.Framed u v (db.account v) (st.batch.account v)
  transaction : ∀ k, k ≠ x.getHash d.transaction → st.batch.transaction k = db.transaction k
  index : st.batch.syntheticIndexIndex = db.syntheticIndexIndex

/-- The executor does not change anything that a later stage would have to take
back: of the accounts it writes none is merged, with a new value, before one that
is refused; and it changes nothing at all if the update of a network account is rejected,
with the ledger as it was unless the executor writes it. -/
structure Contained : Prop where
  commit : ∀ u db principal st, x.Executes d s u db principal st → x.CanRefund d db →
    ∀ visited v rest, x.commitOrder st.touched = visited ++ v :: rest →
      (∀ w ∈ visited, st.checkAccount x.crypto w = none) →
      (st.checkAccount x.crypto v).isSome = true →
      ∀ w ∈ visited, AccountRecord.Framed u w (db.account w) (st.batch.account w)
  network : ∀ u db a st, x.Executes d s u db (some a) st →
    (∀ v ∈ st.touched, st.checkAccount x.crypto v = none) →
    x.RejectsUpdateOf d a s.pending
      ((if x.describe.ledger ∈ st.touched then st.batch else db).account x.describe.ledger).main →
    x.CanRefund d st.batch → x.LeavesFramed d u db st

variable {x d s}

theorem mergeAll_account {st : StateManager} {db : Database} (v : Url) :
    (st.mergeAll (x.commitOrder st.touched) db).account v =
      (if v ∈ st.touched then st.batch else db).account v := by
  simp only [StateManager.mergeAll, StateManager.mergeAccounts, x.mem_commitOrder]
  split <;> rfl

theorem frame_mergeAll_iff {u : Url} {st : StateManager} {db : Database} :
    Database.FailureFrame u (x.getHash d.transaction) db
      (st.mergeAll (x.commitOrder st.touched) db) ↔ x.LeavesFramed d u db st := by
  constructor
  · intro h
    refine ⟨fun v hv => ?_, h.transaction, h.index⟩
    have hacc := h.account v
    rwa [mergeAll_account, if_pos hv] at hacc
  · intro h
    refine ⟨fun v => ?_, h.transaction, h.index⟩
    rw [mergeAll_account]
    split
    · exact h.account v ‹_›
    · exact .refl u v _

theorem onlyRefunds_refundState (refund : Option (Url × Fee)) :
    OnlyRefunds (refundState refund) := by
  cases refund with
  | none => exact ⟨rfl, nofun⟩
  | some r =>
    refine ⟨rfl, fun t ht => ⟨r.2, ?_⟩⟩
    rw [List.mem_singleton.1 ht]

theorem recordSuccessfulTransaction_user (hu : d.type.isUser = true) (u : Url)
    (state : ProcessTransactionState) (result : Option TransactionResult) (db : Database) :
    ∃ status state' db',
      x.recordSuccessfulTransaction d u state result db = (.ok (status, state'), db') ∧
        status.code = .delivered := by
  have hsys := TransactionType.isSystem_of_isUser hu
  unfold recordSuccessfulTransaction
  rw [Proc.bind_run, recordTransaction_user x hu]
  simp only [hsys]
  exact ⟨_, _, _, rfl, rfl⟩

section Run

variable {u : Url} {status : TransactionStatus} {db : Database} {g : GlobalValues}

theorem processTransaction_loaded (hp : d.transaction.header.principal = some u)
    (hload : x.loadStatus d.transaction s.batch = (.ok status, db)) :
    x.processTransaction d s = x.processLoaded d status u ⟨db, s.pending⟩ := by
  unfold processTransaction
  rw [Proc.bind_run, Stage.onBatch_run, hload]
  simp only [hp]

theorem processLoaded_failed {e : Error} {s₂ : Stage}
    (hready : x.transactionIsReady db d status (db.account u).main = .ok true)
    (hexec : x.executeStages d status (db.account u).main u ⟨db, g⟩ = (.error e, s₂)) :
    x.processLoaded d status u ⟨db, g⟩ =
      Stage.onBatch (x.recordFailedTransaction d u e) s₂ := by
  unfold processLoaded
  simp only [Proc.bind_run, Proc.get_run, hready, Proc.attempt, hexec]

end Run

variable {u : Url} {status : TransactionStatus} {e : Error} {s' s₂ : Stage}
  {state : ProcessTransactionState}

theorem recordFailedTransaction_inv (hu : d.type.isUser = true) {db db' : Database}
    (h : x.recordFailedTransaction d u e db = (.ok (status, state), db')) :
    Database.FailureFrame u (x.getHash d.transaction) db db' ∧ OnlyRefunds state ∧
      x.CanRefund d db := by
  rw [recordFailedTransaction_user x u hu] at h
  obtain ⟨hout, rfl⟩ := Prod.mk.inj h
  obtain ⟨r, hr, hout⟩ := Outcome.bind_eq_ok.1 hout
  cases hout
  exact ⟨frame_recordedFailure x u d e db, onlyRefunds_refundState r, r, hr⟩

/-- A failure in the execution stages, with a code that says so, shows in the status
that is returned; and what the stages left in the batch is still there. -/
theorem FailsCleanly.frame_of_error (hclean : x.FailsCleanly d s) (hu : d.type.isUser = true)
    {db : Database} (hp : d.transaction.header.principal = some u)
    (hload : x.loadStatus d.transaction s.batch = (.ok status, db))
    (hready : x.transactionIsReady db d status (db.account u).main = .ok true)
    (hexec : x.executeStages d status (db.account u).main u ⟨db, s.pending⟩ = (.error e, s₂))
    (he : e.Failing) (hrefund : x.CanRefund d s₂.batch) :
    Database.FailureFrame u (x.getHash d.transaction) db s₂.batch := by
  obtain ⟨r, hr⟩ := hrefund
  have hrun : x.processTransaction d s =
      (.ok (x.recordedStatus d (·.set e) s₂.batch, refundState r),
        { s₂ with batch := x.recordedFailure u d e s₂.batch }) := by
    rw [processTransaction_loaded hp hload, processLoaded_failed hready hexec,
      Stage.onBatch_run, recordFailedTransaction_user x u hu, hr]
    rfl
  have hfailed : (x.recordedStatus d (·.set e) s₂.batch).failed = true := by
    rw [recordedStatus, normalizeStatus_failed]
    exact TransactionStatus.set_failed he.code
  obtain ⟨hframe, -⟩ := hclean u _ _ _ hp hrun hfailed
  -- undo the loading of the status before, and the recording of the failure after
  have hloaded : Database.FailureFrame u (x.getHash d.transaction) s.batch db := by
    have hkeep := keeps_loadStatus x u d.transaction s.batch
    rwa [hload] at hkeep
  exact trans_of _ (trans_of _ hloaded.symm hframe)
    (frame_recordedFailure x u d e s₂.batch).symm

theorem Contained.of_failsCleanly (hu : d.type.isUser = true) (hclean : x.FailsCleanly d s) :
    x.Contained d s where
  commit := by
    rintro u db principal st ⟨hp, status, result, st₀, hload, hready, hrun, -, hops⟩ hrefund
      visited v rest horder hvisited hv w hw
    obtain ⟨e, he⟩ := Option.isSome_iff_exists.1 hv
    have hframe := hclean.frame_of_error hu hp hload hready
      (executeStages_refused hrun hops horder hvisited he)
      ((StateManager.checkAccount_failing he).plainWrap _) hrefund
    have hacc := hframe.account w
    simpa [StateManager.mergeAccounts, hw] using hacc
  network := by
    rintro u db a st ⟨hp, status, result, st₀, hload, hready, hrun, horigin, hops⟩ hall hreject
      hrefund
    rw [← mergeAll_account (x := x)] at hreject
    obtain ⟨e, herror⟩ := (processNetworkAccountUpdates_error_iff
      (s := ⟨st.mergeAll (x.commitOrder st.touched) db, s.pending⟩)).2 ⟨a, rfl, hreject⟩
    obtain ⟨s', hnet⟩ : ∃ s', x.processNetworkAccountUpdates d (some a)
      ⟨st.mergeAll (x.commitOrder st.touched) db, s.pending⟩ = (.error e, s') :=
        ⟨_, Prod.ext herror rfl⟩
    obtain ⟨he, hbatch⟩ := processNetworkAccountUpdates_error x hnet
    have hall' : ∀ v ∈ x.commitOrder st.touched, st.checkAccount x.crypto v = none :=
      fun v hv => hall v ((x.mem_commitOrder _ v).1 hv)
    have hexec : x.executeStages d status (db.account u).main u ⟨db, s.pending⟩ =
        (.error e, s') := by
      rw [executeStages_merged hrun hops hall', Proc.bind_run, horigin, hnet]
    have hframe := hclean.frame_of_error hu hp hload hready hexec he (by rwa [hbatch])
    rwa [hbatch, frame_mergeAll_iff] at hframe

theorem FailsCleanly.of_contained (hu : d.type.isUser = true) (hc : x.Contained d s) :
    x.FailsCleanly d s := by
  intro u status state s' hp hrun hfailed
  have hloaded : ∀ {status₀ : TransactionStatus} {db : Database},
      x.loadStatus d.transaction s.batch = (.ok status₀, db) →
        Database.FailureFrame u (x.getHash d.transaction) s.batch db := by
    intro status₀ db hload
    have hkeep := keeps_loadStatus x u d.transaction s.batch
    rwa [hload] at hkeep
  cases x.processTransaction_processing hrun with
  | repeated hp' hload hready he =>
    rw [(x.transactionIsReady_failing hu hready).not_is rfl] at he
    cases he
  | waiting hp' hload hready hrecord =>
    have hcode := (recordPendingTransaction_status hrecord).1
    exact absurd hfailed (by simp [TransactionStatus.failed, hcode, Status.success, Status.code])
  | executed hp' hload hready hexec hrecord =>
    have hcode := recordSuccessfulTransaction_status hrecord
    exact absurd hfailed (by simp [TransactionStatus.failed, hcode, Status.success, Status.code])
  | refused hp' hload hready he hnew hrecord =>
    obtain rfl := Option.some.inj (hp.symm.trans hp')
    obtain ⟨hframe, honly, -⟩ := recordFailedTransaction_inv hu hrecord
    exact ⟨trans_of _ (hloaded hload) hframe, honly⟩
  | @failed _ status₀ _ db _ _ e s₂ hp' hload hready hexec he hrecord =>
    obtain rfl := Option.some.inj (hp.symm.trans hp')
    obtain ⟨hframe, honly, hrefund⟩ := recordFailedTransaction_inv hu hrecord
    refine ⟨trans_of _ (trans_of _ (hloaded hload) ?_) hframe, honly⟩
    rcases executeStages_error hexec with rfl | ⟨result, st₀, st, hexecute, hops, hcase⟩
    · exact refl_of _ db
    have hexecutes : x.Executes d s u db st₀.origin st :=
      ⟨hp, status₀, result, st₀, hload, hready, hexecute, rfl, hops⟩
    rcases hcase with ⟨visited, v, rest, horder, hvisited, hv, rfl⟩ | ⟨hall, hnet⟩
    · have hmerged := hc.commit u db _ st hexecutes hrefund visited v rest horder hvisited hv
      refine ⟨fun w => ?_, fun _ _ => rfl, rfl⟩
      by_cases hw : w ∈ visited
      · simpa [StateManager.mergeAccounts, hw] using hmerged w hw
      · simpa [StateManager.mergeAccounts, hw] using AccountRecord.Framed.refl u w (db.account w)
    · obtain ⟨-, hbatch⟩ := processNetworkAccountUpdates_error x hnet
      rw [hbatch] at hrefund ⊢
      have hall' : ∀ v ∈ st.touched, st.checkAccount x.crypto v = none :=
        fun v hv => hall v ((x.mem_commitOrder _ v).2 hv)
      obtain ⟨a, horigin, hreject⟩ :=
        processNetworkAccountUpdates_error_iff.1 ⟨e, congrArg Prod.fst hnet⟩
      rw [horigin] at hexecutes
      rw [mergeAll_account] at hreject
      exact frame_mergeAll_iff.2 (hc.network u db a st hexecutes hall' hreject hrefund)

/-- **When a failed user transaction leaves everything else alone.**  It does so
exactly if the later stages of its execution have nothing to take back. -/
theorem failsCleanly_iff_contained (x : Executor) (d : Delivery) (s : Stage)
    (hu : d.type.isUser = true) : x.FailsCleanly d s ↔ x.Contained d s :=
  ⟨Contained.of_failsCleanly hu, FailsCleanly.of_contained hu⟩

theorem not_failsCleanly_of_main {α : Type} (f : Option Account → α) (v : Url)
    (hp : d.transaction.header.principal = some u)
    (hrun : x.processTransaction d s = (.ok (status, state), s')) (hfailed : status.failed = true)
    (hmain : f (s'.batch.account v).main ≠ f (s.batch.account v).main) : ¬ x.FailsCleanly d s := by
  intro hclean
  obtain ⟨hframe, -⟩ := hclean u _ _ _ hp hrun hfailed
  have hsame : (s'.batch.account v).main = (s.batch.account v).main := by
    rw [(hframe.account v).1]
  exact hmain (by rw [hsame])

/-! ### A direct write to the oracle of a BVN -/

def oracleUrl : Url := ⟨.bvn "x", ["oracle"]⟩

def oraclePage : Account :=
  .keyPage ⟨⟨.bvn "x", ["operators", "1"]⟩, 100, 1, 1, [⟨[1], 0, none⟩], none⟩

def oracleWrite : Transaction :=
  ⟨⟨some oracleUrl, 7, "", []⟩, .payload (.writeData (some ⟨.accumulate, [[1, 2, 3]]⟩) false true)⟩

def oracleBvn : Executor :=
  toy ⟨.blockValidator, "x"⟩
    (fun t => if t = .writeData then some (WriteData.executor toyCrypto) else none) (by
      intro t e he _
      split at he
      · cases he
        rfl
      · cases he)

def oracleStage : Stage where
  batch :=
    let h := toyCrypto.getHash oracleWrite
    ((((Database.empty.setMain oracleUrl
      (.dataAccount oracleUrl [⟨⟨.bvn "x", ["operators"]⟩, false⟩] none)).setMain oraclePage.url
      oraclePage).setStatus h { TransactionStatus.new with
        initiator := some oraclePage.url, signers := [oraclePage] })).updateTransaction h fun r =>
          { r with signatures := fun u =>
              if u = oraclePage.url then ⟨1, [⟨.ed25519, 0, 5, none⟩]⟩ else r.signatures u }
  pending := toyGlobals

def dataEntry : Option Account → Option DataEntry
  | some (.dataAccount _ _ entry) => entry
  | _ => none

def oracleOutcome : Option (Bool × Option DataEntry) :=
  match oracleBvn.processTransaction (.new oracleWrite []) oracleStage with
  | (.ok (status, _), s') => some (status.failed, dataEntry (s'.batch.account oracleUrl).main)
  | _ => none

/-- The write is merged into the batch before it is found that a BVN does not accept
direct updates of its network accounts: the transaction fails, and the oracle has
the new entry. -/
theorem oracleWrite_not_failsCleanly :
    oracleWrite.type.isUser = true ∧
      ¬ oracleBvn.FailsCleanly (.new oracleWrite []) oracleStage := by
  refine ⟨rfl, ?_⟩
  have hout : oracleOutcome = some (true, some ⟨.accumulate, [[1, 2, 3]]⟩) := by decide +kernel
  unfold oracleOutcome at hout
  split at hout
  · rename_i status state s' hrun
    simp only [Option.some.injEq, Prod.mk.injEq] at hout
    refine not_failsCleanly_of_main dataEntry oracleUrl rfl hrun hout.1 ?_
    rw [hout.2]
    decide
  · cases hout

theorem oracleWrite_failsCleanly_iff :
    oracleWrite.type.isUser = true ∧
      (oracleBvn.FailsCleanly (.new oracleWrite []) oracleStage ↔
        oracleBvn.Contained (.new oracleWrite []) oracleStage) :=
  ⟨rfl, failsCleanly_iff_contained oracleBvn (.new oracleWrite []) oracleStage rfl⟩

end Executor

end Accumulate
