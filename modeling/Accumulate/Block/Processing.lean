import Accumulate.Block.Transaction

/-!
# The ways a transaction is processed

`ProcessTransaction` has five ways to end without an error.  `Processing` lists them, with
everything that led there, for transactions of any type; results about whole runs split on
it and never look into `ProcessTransaction` again.
-/

namespace Accumulate

open Library Protocol Database Accumulate.Core Chain

variable (x : Executor)

/-! ## Recording -/

/-- The status `recordTransaction` stores. -/
def Executor.recordedStatus (d : Delivery) (f : TransactionStatus → TransactionStatus)
    (db : Database) : TransactionStatus :=
  normalizeStatus (f { (db.transaction (x.getHash d.transaction)).status with
    txID := some (x.crypto.id d.transaction) })

variable {d : Delivery}

theorem recordTransaction_user (hu : d.type.isUser = true) (state : ProcessTransactionState)
    (f : TransactionStatus → TransactionStatus) (db : Database) :
    x.recordTransaction d state f db =
      (.ok (x.recordedStatus d f db, state),
        (db.putTransaction (x.getHash d.transaction) ⟨some d.transaction, none, none⟩).setStatus
          (x.getHash d.transaction) (x.recordedStatus d f db)) := by
  unfold Executor.recordTransaction
  simp only [Proc.bind_run, Proc.modify_run, Proc.get_run]
  -- the transaction has just been stored, so that even a pending status finds it
  rw [putStatus_run (by simp)]
  simp only [hu, putTransaction_status]
  rfl

/-- Recording any transaction stores the transaction and its status; a sequenced transaction
is noted in its ledger after that. -/
theorem recordTransaction_eq_ok {state state' : ProcessTransactionState}
    {f : TransactionStatus → TransactionStatus} {status : TransactionStatus} {db db' : Database}
    (h : x.recordTransaction d state f db = (.ok (status, state'), db')) :
    status = x.recordedStatus d f db ∧
      (state' = state ∧ db' = (db.putTransaction (x.getHash d.transaction)
          ⟨some d.transaction, none, none⟩).setStatus (x.getHash d.transaction) status ∨
        x.recordSequence d status state ((db.putTransaction (x.getHash d.transaction)
          ⟨some d.transaction, none, none⟩).setStatus (x.getHash d.transaction) status) =
            (.ok state', db')) := by
  unfold Executor.recordTransaction at h
  rw [Proc.modify_bind_run, Proc.get_bind_run] at h
  obtain ⟨_, db₁, hput, h⟩ := Proc.bind_eq_ok.1 h
  rw [putStatus_run (by simp)] at hput
  obtain rfl := (Prod.mk.inj hput).2
  split at h
  · cases h
    exact ⟨by simp [Executor.recordedStatus], .inl ⟨rfl, rfl⟩⟩
  · obtain ⟨state₁, db₂, hsequence, h⟩ := Proc.bind_eq_ok.1 h
    cases h
    exact ⟨by simp [Executor.recordedStatus], .inr hsequence⟩

/-! ## Errors -/

theorem raises_parseNetworkVariable (path : List String) (entry : Option DataEntry) :
    Proc.Raises Error.Failing (x.parseNetworkVariable path entry) := by
  unfold Executor.parseNetworkVariable
  split
  · exact .bind (GlobalValues.raises_parseOracle _ _) fun _ => .pure _
  · exact .bind (GlobalValues.raises_parseGlobals _ _) fun _ => .pure _
  · exact .bind (GlobalValues.raises_parseNetwork _ _) fun _ => .pure _
  · exact .bind (GlobalValues.raises_parseRouting _ _) fun _ => .pure _
  · exact .throw rfl
  · exact .throw rfl
  · exact .pure _

theorem raises_checkNetworkAccountUpdate (body : TransactionBody) (principal : Account) :
    Proc.Raises Error.Failing (x.checkNetworkAccountUpdate body principal) := by
  unfold Executor.checkNetworkAccountUpdate
  split
  · refine .ite (fun _ => ?_) fun _ => .pure _
    split
    · exact .ite (fun _ => .throw rfl) fun _ => .pure _
    · exact .throw rfl
  · exact .throw rfl
  · refine .bind (raises_parseNetworkVariable x _ _) fun isVariable => ?_
    refine .ite (fun _ => .pure _) fun _ => ?_
    exact .ite (fun _ => .throw rfl) fun _ => .pure _
  · exact .pure _

theorem aborts_pushNetworkAccountUpdate (d : Delivery) (name : String) :
    Proc.Aborts Error.Failing (x.pushNetworkAccountUpdate d name) := by
  refine .ite (fun _ => ?_) fun _ => ?_
  · exact .ite (fun _ => .throw rfl) fun _ => .pure _
  refine .query_bind ?_ fun ledger => ?_
  · exact fun db => Outcome.Raises.mapError raises_getStateAs fun e he => he.format _
  · exact .mapError (aborts_putState _ _) fun e he => he.format _

theorem onBatch_eq_ok {s s' : Stage} {α : Type} {p : Proc Database Error α} {a : α} :
    Stage.onBatch p s = (.ok a, s') ↔
      ∃ db, p s.batch = (.ok a, db) ∧ s' = { s with batch := db } := by
  constructor
  · intro h
    obtain ⟨hval, hs⟩ := Prod.mk.inj h
    exact ⟨(p s.batch).2, Prod.ext hval rfl, hs.symm⟩
  · rintro ⟨db, hp, rfl⟩
    rw [Stage.onBatch_run, hp]

theorem processNetworkAccountUpdates_error {d : Delivery} {principal : Option Account}
    {s s' : Stage} {e : Error} (h : x.processNetworkAccountUpdates d principal s = (.error e, s')) :
    e.Failing ∧ s'.batch = s.batch := by
  unfold Executor.processNetworkAccountUpdates at h
  cases principal with
  | none => cases h
  | some principal =>
    simp only at h
    split at h
    · cases h
    rcases Proc.bind_eq_error h with h | ⟨name, s₁, hcheck, h⟩
    · obtain ⟨he, rfl⟩ := Prod.mk.inj h
      exact ⟨raises_checkNetworkAccountUpdate x _ _ s.pending e he, rfl⟩
    · obtain ⟨-, rfl⟩ := Prod.mk.inj hcheck
      cases name with
      | none => cases h
      | some name =>
        obtain ⟨he, rfl⟩ := Prod.mk.inj h
        exact aborts_pushNetworkAccountUpdate x d name _ _ _ (Prod.ext he rfl)

/-- The update of a network account is not accepted: it has not been pushed by the directory, or the
directory has no ledger to keep it in. -/
def Executor.RefusesPush (d : Delivery) (ledger : Option Account) : Prop :=
  x.describe.networkType ≠ .directory ∧ d.wasProducedByPushedUpdate = false ∨
    x.describe.networkType = .directory ∧
      ∀ l, ledger = some (.systemLedger l) → l.url ≠ x.describe.ledger

/-- The check of network accounts rejects a transaction that leaves its principal as `a`. -/
def Executor.RejectsUpdateOf (d : Delivery) (a : Account) (g : GlobalValues)
    (ledger : Option Account) : Prop :=
  (x.describe.nodeUrl []).prefixOf a.url = true ∧ d.type.isSystem = false ∧
    ((∃ e, (x.checkNetworkAccountUpdate d.transaction.body a g).1 = .error e) ∨
      (∃ name, (x.checkNetworkAccountUpdate d.transaction.body a g).1 = .ok (some name)) ∧
        x.RefusesPush d ledger)

section Network

variable {x} {d : Delivery}

theorem pushNetworkAccountUpdate_error_iff {name : String} {db : Database} :
    (∃ e, (x.pushNetworkAccountUpdate d name db).1 = .error e) ↔
      x.RefusesPush d (db.account x.describe.ledger).main := by
  unfold Executor.pushNetworkAccountUpdate Executor.RefusesPush
  by_cases hnet : x.describe.networkType = .directory
  · simp only [hnet, ne_eq, not_true_eq_false, if_false, false_and, false_or, true_and,
      Proc.bind_run, Proc.query_run]
    cases hmain : (db.account x.describe.ledger).main with
    | none => simp [getStateAs, getState, hmain]
    | some a =>
      cases a with
      | systemLedger l =>
        have hload : db.getStateAs x.describe.ledger asSystemLedger = .ok l := by
          simp [getStateAs, getState, hmain, asSystemLedger]
        by_cases hurl : l.url = x.describe.ledger
        · simp [hload, putState, Account.url, Account.fullAuth, hurl]
        · simp [hload, putState, Account.url, hurl, Ne.symm hurl]
      | _ => simp [getStateAs, getState, hmain, asSystemLedger]
  · cases d.wasProducedByPushedUpdate <;> simp [hnet, Proc.throw]

theorem processNetworkAccountUpdates_error_iff {principal : Option Account} {s : Stage} :
    (∃ e, (x.processNetworkAccountUpdates d principal s).1 = .error e) ↔
      ∃ a, principal = some a ∧
        x.RejectsUpdateOf d a s.pending (s.batch.account x.describe.ledger).main := by
  unfold Executor.processNetworkAccountUpdates Executor.RejectsUpdateOf
  cases principal with
  | none => simp
  | some a =>
    cases hnode : (x.describe.nodeUrl []).prefixOf a.url with
    | false => simp [hnode]
    | true =>
      cases hsys : d.type.isSystem with
      | true => simp
      | false =>
        simp only [hnode, Bool.not_true, Bool.false_eq_true, or_self, if_false, Proc.bind_run,
          Stage.onPending_run, Option.some.injEq, exists_eq_left', true_and]
        rcases x.checkNetworkAccountUpdate d.transaction.body a s.pending with
          ⟨(_ | name) | e | m, g⟩
        · simp
        · simpa using pushNetworkAccountUpdate_error_iff
        · simp
        · simp

end Network

/-! ## The execution stages -/

section Stages

variable {x : Executor} {d : Delivery} {status : TransactionStatus} {principal : Option Account}
variable {u v : Url} {db : Database} {g : GlobalValues}
variable {result : Option TransactionResult} {st₀ st : StateManager} {e : Error} {s' : Stage}

/-- An account that is refused ends the execution; the accounts merged before it
stay in the batch. -/
theorem executeStages_refused {visited rest : List Url}
    (hrun : x.runExecutor db d status principal u = .ok (result, st₀))
    (hops : StateManager.executeOperations x.crypto st₀.operations st₀ = (.ok (), st))
    (horder : x.commitOrder st.touched = visited ++ v :: rest)
    (hvisited : ∀ w ∈ visited, st.checkAccount x.crypto w = none)
    (hv : st.checkAccount x.crypto v = some e) :
    x.executeStages d status principal u ⟨db, g⟩ =
      (.error (.plainWrap "commit" e), ⟨st.mergeAccounts visited db, g⟩) := by
  unfold Executor.executeStages Executor.commitState
  simp only [Proc.bind_run, Stage.onBatch_run, Proc.query_run, hrun, Proc.mapError_run,
    StateManager.commit_refused hops horder hvisited hv, Outcome.mapError_error]

theorem executeStages_merged (hrun : x.runExecutor db d status principal u = .ok (result, st₀))
    (hops : StateManager.executeOperations x.crypto st₀.operations st₀ = (.ok (), st))
    (hall : ∀ v ∈ x.commitOrder st.touched, st.checkAccount x.crypto v = none) :
    x.executeStages d status principal u ⟨db, g⟩ =
      (x.processNetworkAccountUpdates d st₀.origin >>= fun _ => pure (result, st.state))
        ⟨st.mergeAll (x.commitOrder st.touched) db, g⟩ := by
  unfold Executor.executeStages Executor.commitState
  simp only [Proc.bind_run, Stage.onBatch_run, Proc.query_run, hrun, Proc.mapError_run,
    StateManager.commit_ok hops hall, Outcome.mapError_ok]

/-- The ways the execution can fail: before anything has been merged, at an account
that is refused, or in the network account checks. -/
theorem executeStages_error (h : x.executeStages d status principal u ⟨db, g⟩ = (.error e, s')) :
    s' = ⟨db, g⟩ ∨
      ∃ result st₀ st, x.runExecutor db d status principal u = .ok (result, st₀) ∧
        StateManager.executeOperations x.crypto st₀.operations st₀ = (.ok (), st) ∧
        ((∃ visited v rest, x.commitOrder st.touched = visited ++ v :: rest ∧
            (∀ w ∈ visited, st.checkAccount x.crypto w = none) ∧
            (st.checkAccount x.crypto v).isSome = true ∧
            s' = ⟨st.mergeAccounts visited db, g⟩) ∨
          ((∀ v ∈ x.commitOrder st.touched, st.checkAccount x.crypto v = none) ∧
            x.processNetworkAccountUpdates d st₀.origin
              ⟨st.mergeAll (x.commitOrder st.touched) db, g⟩ = (.error e, s'))) := by
  rcases Proc.bind_eq_error h with h | ⟨⟨result, st₀⟩, s₁, hquery, h⟩
  · exact .inl (Prod.mk.inj h).2.symm
  obtain ⟨hrun, rfl⟩ := Prod.mk.inj hquery
  rcases Proc.bind_eq_error h with h | ⟨state, s₂, hstage, h⟩
  · obtain ⟨hcommit, rfl⟩ := Prod.mk.inj h
    obtain ⟨e', hcommit, -⟩ := Outcome.mapError_eq_error.1 hcommit
    rcases StateManager.commit_error (Prod.ext hcommit rfl) with
      ⟨-, -, hdb⟩ | ⟨st, visited, v, rest, hops, horder, hvisited, hv, hdb⟩
    · exact .inl (congrArg (Stage.mk · g) hdb)
    · exact .inr ⟨result, st₀, st, hrun, hops, .inl ⟨visited, v, rest, horder, hvisited,
        by rw [hv]; rfl, congrArg (Stage.mk · g) hdb⟩⟩
  obtain ⟨db', hcommit, rfl⟩ := onBatch_eq_ok.1 hstage
  obtain ⟨st, hops, hall, rfl, rfl⟩ := StateManager.commit_eq_ok (Proc.mapError_eq_ok.1 hcommit)
  rcases Proc.bind_eq_error h with hnet | ⟨_, s₃, -, h⟩
  · exact .inr ⟨result, st₀, st, hrun, hops, .inr ⟨hall, hnet⟩⟩
  · cases h

theorem executeStages_eq_ok {state : ProcessTransactionState}
    (h : x.executeStages d status principal u ⟨db, g⟩ = (.ok (result, state), s')) :
    ∃ st₀ st, x.runExecutor db d status principal u = .ok (result, st₀) ∧
      StateManager.executeOperations x.crypto st₀.operations st₀ = (.ok (), st) ∧
      (∀ v ∈ x.commitOrder st.touched, st.checkAccount x.crypto v = none) ∧
      state = st.state ∧
      x.processNetworkAccountUpdates d st₀.origin
        ⟨st.mergeAll (x.commitOrder st.touched) db, g⟩ = (.ok (), s') := by
  obtain ⟨⟨result', st₀⟩, s₁, hquery, h⟩ := Proc.bind_eq_ok.1 h
  obtain ⟨hrun, rfl⟩ := Prod.mk.inj hquery
  obtain ⟨state', s₂, hstage, h⟩ := Proc.bind_eq_ok.1 h
  obtain ⟨db', hcommit, rfl⟩ := onBatch_eq_ok.1 hstage
  obtain ⟨st, hops, hall, rfl, rfl⟩ := StateManager.commit_eq_ok (Proc.mapError_eq_ok.1 hcommit)
  obtain ⟨_, s₃, hnet, h⟩ := Proc.bind_eq_ok.1 h
  cases h
  exact ⟨st₀, st, hrun, hops, hall, rfl, hnet⟩

end Stages

namespace Executor

variable {s s' : Stage} {d : Delivery} {u : Url}

theorem raises_runExecutor {db : Database} {status : TransactionStatus}
    {principal : Option Account} :
    Outcome.Raises Error.Failing (x.runExecutor db d status principal u) := by
  refine .bind (.ite raises_processSyntheticTransaction (.ok _)) fun _ => ?_
  refine .bind StateManager.raises_load fun st => ?_
  split
  · exact .error rfl
  · rename_i executor _
    refine .bind (.mapError (executor.execute_failing _ st) fun e he => he.wrap) fun result => .ok _

theorem raises_executeStages (d : Delivery) (status : TransactionStatus)
    (principal : Option Account) (u : Url) :
    Proc.Raises Error.Failing (x.executeStages d status principal u) := by
  refine .bind (.zoom (.query fun _ => x.raises_runExecutor)) fun r => ?_
  refine .bind (.zoom (.mapError
    (StateManager.raises_commit _ _ _) fun e he => he.plainWrap _)) fun state => ?_
  refine .bind ?_ fun _ => .pure _
  intro s e h
  exact (processNetworkAccountUpdates_error x (Prod.ext h rfl)).1

/-! ## The ways -/

/-- The ways to process a delivery without an error.  In each of them the status has been
loaded into `status₀`, which may have added an ID to it.

* `repeated`: a sequenced transaction that has been executed before leaves no trace.
* `waiting`: the transaction is not ready.
* `refused`: the transaction can never be executed.
* `failed`: its execution failed, and what had been merged by then stays in `s₂`.
* `executed`: its execution succeeded. -/
inductive Processing (d : Delivery) (s : Stage) :
    TransactionStatus → ProcessTransactionState → Stage → Prop where
  | repeated {u : Url} {status₀ : TransactionStatus} {db : Database} {e : Error}
      (hp : d.transaction.header.principal = some u)
      (hload : x.loadStatus d.transaction s.batch = (.ok status₀, db))
      (hready : x.transactionIsReady db d status₀ (db.account u).main = .error e)
      (he : e.is .delivered = true) :
      Processing d s status₀ .new ⟨db, s.pending⟩
  | waiting {u : Url} {status₀ status : TransactionStatus} {db db' : Database}
      {state : ProcessTransactionState}
      (hp : d.transaction.header.principal = some u)
      (hload : x.loadStatus d.transaction s.batch = (.ok status₀, db))
      (hready : x.transactionIsReady db d status₀ (db.account u).main = .ok false)
      (hrecord : x.recordPendingTransaction d u db = (.ok (status, state), db')) :
      Processing d s status state ⟨db', s.pending⟩
  | refused {u : Url} {status₀ status : TransactionStatus} {db db' : Database}
      {state : ProcessTransactionState} {e : Error}
      (hp : d.transaction.header.principal = some u)
      (hload : x.loadStatus d.transaction s.batch = (.ok status₀, db))
      (hready : x.transactionIsReady db d status₀ (db.account u).main = .error e)
      (he : e.Failing) (hnew : e.is .delivered = false)
      (hrecord : x.recordFailedTransaction d u e db = (.ok (status, state), db')) :
      Processing d s status state ⟨db', s.pending⟩
  | failed {u : Url} {status₀ status : TransactionStatus} {db db' : Database}
      {state : ProcessTransactionState} {e : Error} {s₂ : Stage}
      (hp : d.transaction.header.principal = some u)
      (hload : x.loadStatus d.transaction s.batch = (.ok status₀, db))
      (hready : x.transactionIsReady db d status₀ (db.account u).main = .ok true)
      (hexec : x.executeStages d status₀ (db.account u).main u ⟨db, s.pending⟩ = (.error e, s₂))
      (he : e.Failing)
      (hrecord : x.recordFailedTransaction d u e s₂.batch = (.ok (status, state), db')) :
      Processing d s status state ⟨db', s₂.pending⟩
  | executed {u : Url} {status₀ status : TransactionStatus} {db db' : Database}
      {state₀ state : ProcessTransactionState} {result : Option TransactionResult} {s₂ : Stage}
      (hp : d.transaction.header.principal = some u)
      (hload : x.loadStatus d.transaction s.batch = (.ok status₀, db))
      (hready : x.transactionIsReady db d status₀ (db.account u).main = .ok true)
      (hexec : x.executeStages d status₀ (db.account u).main u ⟨db, s.pending⟩ =
        (.ok (result, state₀), s₂))
      (hrecord : x.recordSuccessfulTransaction d u state₀ result s₂.batch =
        (.ok (status, state), db')) :
      Processing d s status state ⟨db', s₂.pending⟩

theorem processTransaction_processing {status : TransactionStatus}
    {state : ProcessTransactionState} (h : x.processTransaction d s = (.ok (status, state), s')) :
    Processing x d s status state s' := by
  obtain ⟨status₀, s₁, hstage, h⟩ := Proc.bind_eq_ok.1 h
  obtain ⟨db, hload, rfl⟩ := onBatch_eq_ok.1 hstage
  cases hp : d.transaction.header.principal with
  | none => simp [hp] at h
  | some u =>
    simp only [hp] at h
    unfold processLoaded at h
    rw [Proc.get_bind_run] at h
    cases hready : x.transactionIsReady db d status₀ (db.account u).main with
    | panic m => simp [hready] at h
    | error e =>
      simp only [hready] at h
      split at h
      · rename_i hdelivered
        cases h
        exact .repeated hp hload hready hdelivered
      · rename_i hdelivered
        obtain ⟨db', hrecord, rfl⟩ := onBatch_eq_ok.1 h
        exact .refused hp hload hready
          ((x.transactionIsReady_error hready).resolve_left hdelivered)
          (by simpa using hdelivered) hrecord
    | ok ready =>
      cases ready with
      | false =>
        simp only [hready] at h
        obtain ⟨db', hrecord, rfl⟩ := onBatch_eq_ok.1 h
        exact .waiting hp hload hready hrecord
      | true =>
        simp only [hready, Proc.bind_run, Proc.attempt] at h
        match hexec : x.executeStages d status₀ (db.account u).main u ⟨db, s.pending⟩ with
        | (.panic m, s₂) => simp [hexec] at h
        | (.error e, s₂) =>
          rw [hexec] at h
          obtain ⟨db', hrecord, rfl⟩ := onBatch_eq_ok.1 h
          have he := x.raises_executeStages d status₀ (db.account u).main u
            ⟨db, s.pending⟩ e (by rw [hexec])
          exact .failed hp hload hready hexec he hrecord
        | (.ok (result, state₀), s₂) =>
          rw [hexec] at h
          obtain ⟨db', hrecord, rfl⟩ := onBatch_eq_ok.1 h
          exact .executed hp hload hready hexec hrecord

/-! ## What the records say -/

section Records

variable {x} {d : Delivery} {u : Url} {db db' : Database} {status : TransactionStatus}
variable {state : ProcessTransactionState} {e : Error} {t : Transaction}

theorem loadStatus_cases (h : x.loadStatus t db = (.ok status, db')) :
    ((status = (db.transaction (x.getHash t)).status ∧ db' = db) ∨
      status = normalizeStatus { (db.transaction (x.getHash t)).status with
        txID := some (x.crypto.id t) } ∧ db' = db.setStatus (x.getHash t) status) := by
  unfold loadStatus at h
  rw [Proc.get_bind_run] at h
  split at h
  · obtain ⟨_, db₁, hput, h⟩ := Proc.bind_eq_ok.1 h
    cases h
    exact .inr ⟨rfl, putStatus_eq_ok hput⟩
  · cases h
    exact .inl ⟨rfl, rfl⟩

theorem delivered_loadStatus (h : x.loadStatus t db = (.ok status, db')) :
    status.delivered = (db.transaction (x.getHash t)).status.delivered := by
  rcases loadStatus_cases h with ⟨rfl, -⟩ | ⟨rfl, -⟩
  · rfl
  · rfl

theorem loadStatus_eq_ok (h : x.loadStatus t db = (.ok status, db')) :
    db'.account = db.account ∧ ∀ hash,
      (db'.transaction hash).main = (db.transaction hash).main ∧
      (db'.transaction hash).signatures = (db.transaction hash).signatures ∧
      (db'.transaction hash).status.signers = (db.transaction hash).status.signers := by
  rcases loadStatus_cases h with ⟨-, rfl⟩ | ⟨rfl, rfl⟩
  · exact ⟨rfl, fun _ => ⟨rfl, rfl, rfl⟩⟩
  refine ⟨rfl, fun hash => ?_⟩
  rw [setStatus, updateTransaction_transaction]
  split
  · rename_i hhash
    subst hhash
    exact ⟨rfl, rfl, rfl⟩
  · exact ⟨rfl, rfl, rfl⟩

theorem recordPendingTransaction_eq_ok
    (h : x.recordPendingTransaction d u db = (.ok (status, state), db')) :
    ∃ db₁, x.recordTransaction d .new (fun s => { s with code := .pending }) db =
        (.ok (status, state), db₁) ∧
      (db' = db₁ ∨ ∃ v f, db' = db₁.updateAccount v f ∧ ∀ r, (f r).main = r.main) := by
  obtain ⟨⟨status₁, state₁⟩, db₁, hrecord, h⟩ := Proc.bind_eq_ok.1 h
  simp only at h
  split at h
  · cases h
    exact ⟨_, hrecord, .inl rfl⟩
  split at h
  · cases h
    exact ⟨_, hrecord, .inr ⟨_, _, rfl, fun _ => rfl⟩⟩
  cases hproof : status₁.proof with
  | none =>
    rw [hproof] at h
    cases h
    exact ⟨_, hrecord, .inl rfl⟩
  | some proof =>
    rw [hproof] at h
    cases h
    exact ⟨_, hrecord, .inr ⟨_, _, rfl, fun _ => rfl⟩⟩

theorem recordPendingTransaction_status
    (h : x.recordPendingTransaction d u db = (.ok (status, state), db')) :
    status.code = .pending ∧ state.producedTxns = [] := by
  obtain ⟨_, hrecord, -⟩ := recordPendingTransaction_eq_ok h
  refine ⟨?_, x.recordTransaction_producedTxns hrecord⟩
  rw [(recordTransaction_eq_ok x hrecord).1]
  rfl

theorem recordSuccessfulTransaction_status {state₀ : ProcessTransactionState}
    {result : Option TransactionResult}
    (h : x.recordSuccessfulTransaction d u state₀ result db = (.ok (status, state), db')) :
    status.code = .delivered := by
  obtain ⟨_, _, hrecord, -⟩ := x.recordSuccessfulTransaction_eq_ok h
  rw [(recordTransaction_eq_ok x hrecord).1]
  rfl

/-- A failure is recorded, then the executor may clean up, and what is refunded to the
initiator comes last. -/
theorem recordFailedTransaction_eq_ok
    (h : x.recordFailedTransaction d u e db = (.ok (status, state), db')) :
    ∃ state₁ state₂ db₁ r,
      x.recordTransaction d .new (·.set e) db = (.ok (status, state₁), db₁) ∧
      (match (x.executors d.type).bind (·.didFail) with
        | some didFail =>
          didFail (originRefund d.transaction.body state₁) d.transaction = .ok state₂
        | none => originRefund d.transaction.body state₁ = state₂) ∧
      db' = db₁.removePending u (x.crypto.id d.transaction) ∧
      x.failureRefund d status = .ok r ∧
      state = (match r with
        | some (initiator, amount) => state₂.didProduceTxn (some initiator) (refundBody amount)
        | none => state₂) := by
  obtain ⟨⟨status₁, state₁⟩, db₁, hrecord, h⟩ := Proc.bind_eq_ok.1 h
  cases hfail : (x.executors d.type).bind (·.didFail) with
  | none =>
    simp only [hfail] at h
    rw [Proc.pure_bind_run] at h
    obtain ⟨r, hr, h⟩ := Proc.lift_bind_eq_ok.1 h
    cases r with
    | none =>
      cases h
      exact ⟨state₁, _, db₁, none, hrecord, rfl, rfl, hr, rfl⟩
    | some refund =>
      cases h
      exact ⟨state₁, _, db₁, some refund, hrecord, rfl, rfl, hr, rfl⟩
  | some didFail =>
    simp only [hfail] at h
    obtain ⟨state₂, hdid, h⟩ := Proc.lift_bind_eq_ok.1 h
    obtain ⟨r, hr, h⟩ := Proc.lift_bind_eq_ok.1 h
    cases r with
    | none =>
      cases h
      exact ⟨state₁, _, db₁, none, hrecord, hdid, rfl, hr, rfl⟩
    | some refund =>
      cases h
      exact ⟨state₁, state₂, db₁, some refund, hrecord, hdid, rfl, hr, rfl⟩

theorem recordFailedTransaction_status (he : e.Failing)
    (h : x.recordFailedTransaction d u e db = (.ok (status, state), db')) :
    status.failed = true := by
  obtain ⟨_, _, _, _, hrecord, -⟩ := recordFailedTransaction_eq_ok h
  rw [(recordTransaction_eq_ok x hrecord).1, recordedStatus, normalizeStatus_failed]
  exact TransactionStatus.set_failed he.code

variable {state₀ : ProcessTransactionState}

theorem recordTransaction_record {f : TransactionStatus → TransactionStatus}
    (h : x.recordTransaction d state₀ f db = (.ok (status, state), db')) :
    (db'.transaction (x.getHash d.transaction)).status = status ∧
      (db'.transaction (x.getHash d.transaction)).main = some ⟨some d.transaction, none, none⟩ := by
  obtain ⟨hstatus, hdb⟩ := recordTransaction_eq_ok x h
  have hnormal : normalizeStatus status = status := by
    rw [hstatus]
    rfl
  have hrecord : ∀ db₁ : Database, db₁.transaction = ((db.putTransaction
      (x.getHash d.transaction) ⟨some d.transaction, none, none⟩).setStatus
        (x.getHash d.transaction) status).transaction →
      (db₁.transaction (x.getHash d.transaction)).status = status ∧
        (db₁.transaction (x.getHash d.transaction)).main =
          some ⟨some d.transaction, none, none⟩ := by
    intro db₁ hdb₁
    rw [hdb₁, setStatus_status_self, hnormal, setStatus_main, putTransaction_main_self]
    exact ⟨rfl, rfl⟩
  rcases hdb with ⟨-, rfl⟩ | hsequence
  · exact hrecord _ rfl
  -- the ledger is an account
  obtain ⟨_, _, _, _, dirty, _, -, -, -, -, rfl, -, -⟩ := x.recordSequence_eq_ok hsequence
  apply hrecord
  cases dirty <;> rfl

theorem recordPendingTransaction_record
    (h : x.recordPendingTransaction d u db = (.ok (status, state), db')) :
    (db'.transaction (x.getHash d.transaction)).status = status ∧
      (db'.transaction (x.getHash d.transaction)).main = some ⟨some d.transaction, none, none⟩ ∧
      status = x.recordedStatus d (fun s => { s with code := .pending }) db := by
  obtain ⟨_, hrecord, rfl | ⟨v, f, rfl, -⟩⟩ := recordPendingTransaction_eq_ok h
  all_goals
    obtain ⟨hstatus, hmain⟩ := recordTransaction_record hrecord
    exact ⟨hstatus, hmain, (recordTransaction_eq_ok x hrecord).1⟩

theorem recordSuccessfulTransaction_record {result : Option TransactionResult}
    (h : x.recordSuccessfulTransaction d u state₀ result db = (.ok (status, state), db')) :
    (db'.transaction (x.getHash d.transaction)).status = status := by
  obtain ⟨_, _, hrecord, -, -, rfl | rfl⟩ := x.recordSuccessfulTransaction_eq_ok h
  · exact (recordTransaction_record hrecord).1
  rw [ChainUpdates.addChainEntry_transaction]
  exact (recordTransaction_record hrecord).1

theorem recordFailedTransaction_record
    (h : x.recordFailedTransaction d u e db = (.ok (status, state), db')) :
    (db'.transaction (x.getHash d.transaction)).status = status := by
  obtain ⟨_, _, _, _, hrecord, -, rfl, -, -⟩ := recordFailedTransaction_eq_ok h
  exact (recordTransaction_record hrecord).1

/-- **What a delivered transaction has gone through.**  It was ready, all stages of its
execution succeeded, and this has been recorded. -/
theorem processTransaction_delivered {s s' : Stage} (hu : d.type.isUser = true)
    (h : x.processTransaction d s = (.ok (status, state), s')) (hcode : status.code = .delivered) :
    ∃ u status₀ db result state₀ s₂, d.transaction.header.principal = some u ∧
      x.loadStatus d.transaction s.batch = (.ok status₀, db) ∧
      x.transactionIsReady db d status₀ (db.account u).main = .ok true ∧
      x.executeStages d status₀ (db.account u).main u ⟨db, s.pending⟩ =
        (.ok (result, state₀), s₂) ∧
      Stage.onBatch (x.recordSuccessfulTransaction d u state₀ result) s₂ =
        (.ok (status, state), s') := by
  cases x.processTransaction_processing h with
  | repeated hp hload hready he =>
    rw [(x.transactionIsReady_failing hu hready).not_is rfl] at he
    cases he
  | waiting hp hload hready hrecord =>
    rw [(recordPendingTransaction_status hrecord).1] at hcode
    cases hcode
  | refused hp hload hready he hnew hrecord | failed hp hload hready hexec he hrecord =>
    exact absurd hcode
      (TransactionStatus.code_ne_delivered (recordFailedTransaction_status he hrecord))
  | executed hp hload hready hexec hrecord =>
    exact ⟨_, _, _, _, _, _, hp, hload, hready, hexec, onBatch_eq_ok.2 ⟨_, hrecord, rfl⟩⟩

end Records

end Executor

end Accumulate
