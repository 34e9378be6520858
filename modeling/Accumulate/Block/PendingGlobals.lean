import Accumulate.Block.Failure

/-!
# The pending globals over a block

Writes to the oracle, globals, network and routing accounts of a partition take
effect on the globals that become active at the end of the block.  These pending
globals are not part of any batch.  They are assigned while a write is being
checked, so a write that is rejected by one of the remaining checks has been
assigned all the same.

* `Executor.updateGlobals` is what a write to a network account is meant to do.
* `processNetworkAccountUpdates_pending`: the checks of network accounts do just
  that, whether they accept the write or not.
* `Executor.appliedGlobals` is the meaning of a sequence of transactions: those
  that have been delivered are applied in order.
-/

namespace Accumulate

open Library Protocol Database Accumulate.Core Chain

/-- Every account is stored under its own URL, as `PutState` makes sure. -/
def Database.WellKeyed (db : Database) : Prop :=
  ∀ u a, (db.account u).main = some a → a.url = u

theorem Database.wellKeyed_empty : Database.empty.WellKeyed := by
  intro u a h
  cases h

theorem Database.WellKeyed.setMain {db : Database} (h : db.WellKeyed) {u : Url} {a : Account}
    (ha : a.url = u) : (db.setMain u a).WellKeyed := by
  intro v b hb
  by_cases hv : v = u
  · subst hv
    simp only [Database.setMain, updateAccount_account_self, Option.some.injEq] at hb
    rw [← hb, ha]
  · simp only [Database.setMain, updateAccount_account_of_ne _ _ _ _ hv] at hb
    exact h v b hb

namespace Executor

variable (x : Executor)

/-! ## The meaning of a write -/

/-- The pending globals with the variable at the given path set to the value an entry
encodes, if it encodes one. -/
def assignVariable (path : List String) (entry : Option DataEntry) (g : GlobalValues) :
    GlobalValues :=
  match path with
  | ["oracle"] =>
    match parseEntryAs x.decoders.oracle entry with
    | .ok value => { g with oracle := value }
    | _ => g
  | ["globals"] =>
    match parseEntryAs x.decoders.globals entry with
    | .ok value => { g with globals := value }
    | _ => g
  | ["network"] =>
    match parseEntryAs x.decoders.network entry with
    | .ok value => { g with network := value }
    | _ => g
  | ["routing"] =>
    match parseEntryAs x.decoders.routing entry with
    | .ok value => { g with routing := value }
    | _ => g
  | _ => g

/-- What a transaction does to the pending globals: a data write to a network account
of the partition sets the variable of the account. -/
def updateGlobals (t : Transaction) (g : GlobalValues) : GlobalValues :=
  match t.body, t.header.principal with
  | .payload (.writeData entry _ _), some u =>
    if (x.describe.nodeUrl []).prefixOf u then x.assignVariable u.path entry g else g
  | _, _ => g

/-! ## The checks of network accounts -/

theorem parseNetworkVariable_pending (path : List String) (entry : Option DataEntry)
    (g : GlobalValues) :
    (x.parseNetworkVariable path entry g).2 = x.assignVariable path entry g := by
  unfold parseNetworkVariable assignVariable
  split
  · simp only [GlobalValues.parseOracle]
    cases parseEntryAs x.decoders.oracle entry <;> rfl
  · simp only [GlobalValues.parseGlobals]
    cases parseEntryAs x.decoders.globals entry <;> rfl
  · simp only [Proc.bind_run, GlobalValues.parseNetwork]
    cases parseEntryAs x.decoders.network entry with
    | ok value =>
      by_cases hv : value.version ≤ g.network.version
      · simp [hv]
      · simp [hv]
    | error e => rfl
    | panic m => rfl
  · simp only [GlobalValues.parseRouting]
    cases parseEntryAs x.decoders.routing entry <;> rfl
  · rfl
  · rfl
  · split <;> first | rfl | simp_all

def NotWriteData (body : TransactionBody) : Prop :=
  ∀ entry scratch writeToState, body ≠ .payload (.writeData entry scratch writeToState)

theorem checkNetworkAccountUpdate_pending_of_ne {body : TransactionBody}
    (hbody : NotWriteData body) (principal : Account) (g : GlobalValues) :
    (x.checkNetworkAccountUpdate body principal g).2 = g := by
  have hkeep : Proc.Keeps Eq (x.checkNetworkAccountUpdate body principal) := by
    unfold checkNetworkAccountUpdate
    split
    · refine .ite ?_ (.pure _)
      split
      · exact .ite (.throw _) (.pure _)
      · exact .throw _
    · exact .throw _
    · exact absurd rfl (hbody _ _ _)
    · exact .pure _
  exact (hkeep g).symm

theorem checkNetworkAccountUpdate_pending (entry : Option DataEntry)
    (scratch writeToState : Bool) (principal : Account) (g : GlobalValues) :
    (x.checkNetworkAccountUpdate (.payload (.writeData entry scratch writeToState)) principal
      g).2 = x.assignVariable principal.url.path entry g := by
  have hparse := x.parseNetworkVariable_pending principal.url.path entry g
  unfold checkNetworkAccountUpdate
  simp only [Proc.bind_run]
  rw [← hparse]
  match x.parseNetworkVariable principal.url.path entry g with
  | (.ok isVariable, g') =>
    simp only
    split
    · rfl
    · split <;> rfl
  | (.error e, g') => rfl
  | (.panic m, g') => rfl

theorem updateGlobals_of_ne {t : Transaction} (hbody : NotWriteData t.body) (g : GlobalValues) :
    x.updateGlobals t g = g := by
  unfold updateGlobals
  split
  · rename_i entry scratch writeToState u hb hp
    exact absurd hb (hbody entry scratch writeToState)
  · rfl

variable {d : Delivery} {u : Url}

theorem processNetworkAccountUpdates_snd_pending (principal : Account) (s : Stage) :
    (x.processNetworkAccountUpdates d (some principal) s).2.pending =
      if !(x.describe.nodeUrl []).prefixOf principal.url ∨ d.type.isSystem then s.pending
      else (x.checkNetworkAccountUpdate d.transaction.body principal s.pending).2 := by
  unfold processNetworkAccountUpdates
  simp only
  split
  · rfl
  simp only [Proc.bind_run, Stage.onPending_run]
  match x.checkNetworkAccountUpdate d.transaction.body principal s.pending with
  | (.ok none, g) => rfl
  | (.ok (some name), g) => rfl
  | (.error e, g) => rfl
  | (.panic m, g) => rfl

theorem processNetworkAccountUpdates_pending_of_ne (hbody : NotWriteData d.transaction.body)
    (principal : Option Account) (s : Stage) :
    (x.processNetworkAccountUpdates d principal s).2.pending = s.pending := by
  cases principal with
  | none => rfl
  | some principal =>
    rw [processNetworkAccountUpdates_snd_pending,
      x.checkNetworkAccountUpdate_pending_of_ne hbody principal s.pending, ite_self]

/-- The post-processing of network accounts updates the pending globals, whether or
not it accepts the write. -/
theorem processNetworkAccountUpdates_pending {entry : Option DataEntry}
    {scratch writeToState : Bool} {principal : Account}
    (hbody : d.transaction.body = .payload (.writeData entry scratch writeToState))
    (hp : d.transaction.header.principal = some u) (hurl : principal.url = u) (s : Stage) :
    (x.processNetworkAccountUpdates d (some principal) s).2.pending =
      x.updateGlobals d.transaction s.pending := by
  have hsys : d.type.isSystem = false := by
    change d.transaction.body.type.isSystem = false
    rw [hbody]
    rfl
  have hcheck := x.checkNetworkAccountUpdate_pending entry scratch writeToState principal s.pending
  rw [processNetworkAccountUpdates_snd_pending, hbody, hcheck, hsys, hurl]
  unfold updateGlobals
  by_cases hnode : (x.describe.nodeUrl []).prefixOf u = true <;> simp [hbody, hp, hnode]

/-! ## One transaction -/

/-- The pending globals after a transaction has been processed.  A panic stops the
node, and with it goes what it has in memory. -/
def globalsAfter (d : Delivery) (s : Stage) : GlobalValues :=
  match x.processTransaction d s with
  | (.panic _, _) => s.pending
  | (_, s') => s'.pending

def isDelivered : Outcome Error (TransactionStatus × ProcessTransactionState) → Bool
  | .ok (status, _) => status.code = .delivered
  | _ => false

def deliveredAfter (d : Delivery) (s : Stage) : Bool := isDelivered (x.processTransaction d s).1

/-- The transaction has the effect on the pending globals it is meant to have. -/
def StepsAsMeant (d : Delivery) (s : Stage) : Prop :=
  x.globalsAfter d s =
    if x.deliveredAfter d s then x.updateGlobals d.transaction s.pending else s.pending

/-- If the transaction is rejected by the checks of network accounts, it does not
encode anything new. -/
def Settled (d : Delivery) (s : Stage) : Prop :=
  ∀ u db principal st, x.Executes d s u db principal st →
    (∀ v ∈ st.touched, st.checkAccount x.crypto v = none) →
    ∀ e s', x.processNetworkAccountUpdates d principal
        ⟨st.mergeAll (x.commitOrder st.touched) db, s.pending⟩ = (.error e, s') →
      x.updateGlobals d.transaction s.pending = s.pending

def SamePending (s s' : Stage) : Prop := s'.pending = s.pending

instance : Std.Refl SamePending := ⟨fun _ => rfl⟩

instance : IsTrans Stage SamePending := ⟨fun _ _ _ hab hbc => hbc.trans hab⟩

theorem keeps_onBatch {α : Type} (p : Proc Database Error α) :
    Proc.Keeps SamePending (Stage.onBatch p) :=
  fun _ => rfl

theorem keeps_processTransaction_of_ne (hbody : NotWriteData d.transaction.body) :
    Proc.Keeps SamePending (x.processTransaction d) := by
  have hstages : ∀ status principal u,
      Proc.Keeps SamePending (x.executeStages d status principal u) := by
    intro status principal u
    refine .bind (keeps_onBatch _) fun r => .bind (keeps_onBatch _) fun state =>
      .bind ?_ fun _ => .pure _
    exact fun s => x.processNetworkAccountUpdates_pending_of_ne hbody _ s
  refine .bind (keeps_onBatch _) fun status => ?_
  split
  · exact .abort _
  refine .bind .get fun s => ?_
  dsimp only
  split
  · exact .abort _
  · exact .ite (.pure _) (keeps_onBatch _)
  · exact keeps_onBatch _
  · refine .bind (.attempt (hstages _ _ _)) fun r => ?_
    split <;> exact keeps_onBatch _

theorem stepsAsMeant_of_ne (hbody : NotWriteData d.transaction.body) (s : Stage) :
    x.StepsAsMeant d s := by
  have hkeep := x.keeps_processTransaction_of_ne hbody s
  unfold StepsAsMeant globalsAfter
  rw [x.updateGlobals_of_ne hbody, ite_self]
  split
  · rfl
  · rename_i hrun
    rwa [hrun] at hkeep

/-! ### Data writes -/

section WriteData

variable {x}

variable {u : Url}

theorem not_prefixOf_of_parsePartitionUrl (h : parsePartitionUrl u = none) :
    (x.describe.nodeUrl []).prefixOf u = false := by
  have hhost : (x.describe.nodeUrl []).host ≠ u.host := by
    intro heq
    have hnode : parsePartitionUrl (x.describe.nodeUrl []) ≠ none := by
      unfold Describe.nodeUrl partitionUrl
      split <;> simp [Url.joinPath, dnUrl, parsePartitionUrl]
    apply hnode
    unfold parsePartitionUrl at h ⊢
    rw [heq]
    exact h
  simp [Url.prefixOf, hhost]

variable {d : Delivery} {s : Stage} {db : Database} {entry : Option DataEntry}
  {scratch writeToState : Bool} {st : StateManager} {principal : Option Account}

/-- When the executor of a data write has succeeded, the checks of network accounts
look at the account the transaction names. -/
theorem Executes.pending
    (hx : x.executors .writeData = some (WriteData.executor x.crypto)) (hkeyed : s.batch.WellKeyed)
    (hbody : d.transaction.body = .payload (.writeData entry scratch writeToState))
    (h : x.Executes d s u db principal st) (s₁ : Stage) :
    (x.processNetworkAccountUpdates d principal s₁).2.pending =
      x.updateGlobals d.transaction s₁.pending := by
  obtain ⟨hp, status, result, st₀, hload, -, hrun, rfl, -⟩ := h
  have htype : d.type = .writeData := by
    change d.transaction.body.type = .writeData
    rw [hbody]
    rfl
  obtain ⟨executor, hexecutor, hexec⟩ := x.runExecutor_eq_ok hrun
  rw [htype, hx] at hexecutor
  cases hexecutor
  obtain ⟨hurl, hlite⟩ := WriteData.validate_origin x.crypto hexec
  have hmain : (db.account u).main = (s.batch.account u).main := by
    have hkeep := (keeps_loadStatus x u d.transaction s.batch).account u
    rw [hload] at hkeep
    rw [hkeep.1]
  simp only [hmain] at hurl hlite
  cases hacc : (s.batch.account u).main with
  | none =>
    rw [hacc] at hurl hlite
    have hnone : st₀.origin = none := Option.map_eq_none_iff.1 hurl
    have hnode := not_prefixOf_of_parsePartitionUrl (x := x)
      (parsePartitionUrl_of_lite (u := u) (hlite rfl))
    rw [hnone]
    simp [processNetworkAccountUpdates, updateGlobals, hbody, hp, hnode]
  | some a =>
    rw [hacc] at hurl
    obtain ⟨p, hporigin, hpurl⟩ := Option.map_eq_some_iff.1 hurl
    rw [hporigin]
    exact x.processNetworkAccountUpdates_pending hbody hp
      (hpurl.trans (hkeyed u a hacc)) s₁

variable {e : Error}

theorem not_isDelivered_recordFailed (hu : d.type.isUser = true) (he : e.Failing) (s : Stage) :
    isDelivered (Stage.onBatch (x.recordFailedTransaction d u e) s).1 = false := by
  rw [Stage.onBatch_run, recordFailedTransaction_user x u hu]
  cases x.failureRefund d (s.batch.transaction (x.getHash d.transaction)).status with
  | error e' => rfl
  | panic m => rfl
  | ok r =>
    have hfailed : (x.recordedStatus d (·.set e) s.batch).failed = true := by
      rw [recordedStatus, normalizeStatus_failed]
      exact TransactionStatus.set_failed he.code
    exact decide_eq_false (TransactionStatus.code_ne_delivered hfailed)

variable {status : TransactionStatus} {s' : Stage}

theorem failureRefund_returns (hp : d.transaction.header.principal = some u)
    (status : TransactionStatus) : (x.failureRefund d status).Returns := by
  have hfee := computeTransactionFee_returns x.crypto x.active.globals.feeSchedule hp
  unfold failureRefund
  split
  · exact trivial
  split
  · exact trivial
  split
  · rename_i m hm
    rw [hm] at hfee
    exact hfee.elim
  · exact trivial
  · split <;> exact trivial

theorem globals_recordFailed (hu : d.type.isUser = true)
    (hp : d.transaction.header.principal = some u) (e : Error) (s : Stage) (g : GlobalValues) :
    (match Stage.onBatch (x.recordFailedTransaction d u e) s with
      | (.panic _, _) => g
      | (_, s') => s'.pending) = s.pending := by
  have hrefund := failureRefund_returns (x := x) hp
    (s.batch.transaction (x.getHash d.transaction)).status
  rw [Stage.onBatch_run, recordFailedTransaction_user x u hu]
  cases hr : x.failureRefund d (s.batch.transaction (x.getHash d.transaction)).status with
  | error e' => rfl
  | ok r => rfl
  | panic m =>
    rw [hr] at hrefund
    exact hrefund.elim

theorem Executes.executeStages
    (h : x.Executes d s u db principal st)
    (hall : ∀ v ∈ st.touched, st.checkAccount x.crypto v = none)
    (hnet : x.processNetworkAccountUpdates d principal
      ⟨st.mergeAll (x.commitOrder st.touched) db, s.pending⟩ = (.error e, s')) :
    ∃ status, d.transaction.header.principal = some u ∧
      x.loadStatus d.transaction s.batch = (.ok status, db) ∧
      x.transactionIsReady db d status (db.account u).main = .ok true ∧
      x.executeStages d status (db.account u).main u ⟨db, s.pending⟩ = (.error e, s') := by
  obtain ⟨hp, status, result, st₀, hload, hready, hrun, rfl, hops⟩ := h
  refine ⟨status, hp, hload, hready, ?_⟩
  have hall' : ∀ v ∈ x.commitOrder st.touched, st.checkAccount x.crypto v = none :=
    fun v hv => hall v ((x.mem_commitOrder _ v).1 hv)
  rw [executeStages_merged hrun hops hall', Proc.bind_run, hnet]

theorem stepsAsMeant_iff_of_failed {s₂ : Stage} (hu : d.type.isUser = true)
    (hp : d.transaction.header.principal = some u) (he : e.Failing)
    (hrun : x.processTransaction d s = Stage.onBatch (x.recordFailedTransaction d u e) s₂) :
    x.StepsAsMeant d s ↔ s₂.pending = s.pending := by
  have hdelivered : x.deliveredAfter d s = false := by
    unfold deliveredAfter
    rw [hrun]
    exact not_isDelivered_recordFailed hu he s₂
  have hglobals : x.globalsAfter d s = s₂.pending := by
    unfold globalsAfter
    rw [hrun]
    exact globals_recordFailed hu hp e s₂ s.pending
  unfold StepsAsMeant
  rw [hglobals, hdelivered]
  rfl

theorem stepsAsMeant_of_unchanged (h : isDelivered (x.processTransaction d s).1 = false ∧
    (x.processTransaction d s).2.pending = s.pending) : x.StepsAsMeant d s := by
  unfold StepsAsMeant globalsAfter deliveredAfter
  rw [h.1]
  split
  · rfl
  · rename_i hrun
    have hpending := h.2
    rwa [hrun] at hpending

section

variable (hx : x.executors .writeData = some (WriteData.executor x.crypto))
  (hkeyed : s.batch.WellKeyed)
  (hbody : d.transaction.body = .payload (.writeData entry scratch writeToState))
  (hu : d.type.isUser = true)

include hx hkeyed hbody hu

theorem stepsAsMeant_iff_of_rejected (h : x.Executes d s u db principal st)
    (hall : ∀ v ∈ st.touched, st.checkAccount x.crypto v = none)
    (hnet : x.processNetworkAccountUpdates d principal
      ⟨st.mergeAll (x.commitOrder st.touched) db, s.pending⟩ = (.error e, s')) :
    x.StepsAsMeant d s ↔ x.updateGlobals d.transaction s.pending = s.pending := by
  obtain ⟨status, hp, hload, hready, hexec⟩ := h.executeStages hall hnet
  have hpending := h.pending hx hkeyed hbody
    ⟨st.mergeAll (x.commitOrder st.touched) db, s.pending⟩
  rw [hnet] at hpending
  rw [← hpending]
  exact stepsAsMeant_iff_of_failed hu hp (processNetworkAccountUpdates_error x hnet).1
    ((processTransaction_loaded hp hload).trans (processLoaded_failed hready hexec))

theorem stepsAsMeant_of_not_rejected (hno : ∀ u db principal st, x.Executes d s u db principal st →
      (∀ v ∈ st.touched, st.checkAccount x.crypto v = none) →
      ∀ e s', x.processNetworkAccountUpdates d principal
        ⟨st.mergeAll (x.commitOrder st.touched) db, s.pending⟩ ≠ (.error e, s')) :
    x.StepsAsMeant d s := by
  match hload : x.loadStatus d.transaction s.batch with
  | (.error e, db) | (.panic m, db) =>
    exact stepsAsMeant_of_unchanged
      (by simp [processTransaction, Proc.bind_run, hload, isDelivered])
  | (.ok status, db) =>
    cases hp : d.transaction.header.principal with
    | none =>
      exact stepsAsMeant_of_unchanged
        (by simp [processTransaction, Proc.bind_run, hload, hp, isDelivered])
    | some u =>
      have hrun := processTransaction_loaded hp hload
      cases hready : x.transactionIsReady db d status (db.account u).main with
      | panic m =>
        exact stepsAsMeant_of_unchanged
          (by simp [hrun, processLoaded, Proc.bind_run, hready, isDelivered])
      | error e =>
        have he : e.Failing := x.transactionIsReady_failing hu hready
        have hnot : e.is .delivered = false := he.not_is rfl
        have hfailed : x.processTransaction d s =
            Stage.onBatch (x.recordFailedTransaction d u e) ⟨db, s.pending⟩ := by
          simp [hrun, processLoaded, Proc.bind_run, hready, hnot]
        exact (stepsAsMeant_iff_of_failed hu hp he hfailed).2 rfl
      | ok ready =>
        cases ready with
        | false =>
          apply stepsAsMeant_of_unchanged
          simp only [hrun, processLoaded, Proc.bind_run, Proc.get_run, hready, Stage.onBatch_run]
          match hrecord : x.recordPendingTransaction d u db with
          | (.ok (status', state), db') =>
            simp [isDelivered, (recordPendingTransaction_status hrecord).1]
          | (.error e, db') | (.panic m, db') => exact ⟨rfl, trivial⟩
        | true =>
          match hexec : x.executeStages d status (db.account u).main u ⟨db, s.pending⟩ with
          | (.panic m, s₂) =>
            simp [StepsAsMeant, globalsAfter, deliveredAfter, isDelivered, hrun, processLoaded,
              Proc.bind_run, Proc.attempt, hready, hexec]
          | (.error e, s₂) =>
            have he := x.raises_executeStages d status (db.account u).main u ⟨db, s.pending⟩ e
              (by rw [hexec])
            refine (stepsAsMeant_iff_of_failed hu hp he
              (hrun.trans (processLoaded_failed hready hexec))).2 ?_
            rcases executeStages_error hexec with rfl | ⟨result, st₀, st, hexecute, hops, hcase⟩
            · rfl
            rcases hcase with ⟨visited, v, rest, -, -, -, rfl⟩ | ⟨hall, hnet⟩
            · rfl
            · exact absurd hnet (hno u db _ st
                ⟨hp, status, result, st₀, hload, hready, hexecute, rfl, hops⟩
                (fun v hv => hall v ((x.mem_commitOrder _ v).2 hv)) e s₂)
          | (.ok (result, state), s₂) =>
            -- the checks have accepted the write, so what they assigned is what was meant
            obtain ⟨status', state', db', hrecord, hcode⟩ :=
              recordSuccessfulTransaction_user (x := x) hu u state result s₂.batch
            obtain ⟨st₀, st, hexecute, hops, -, -, hnet⟩ := executeStages_eq_ok hexec
            have hexecutes : x.Executes d s u db st₀.origin st :=
              ⟨hp, status, result, st₀, hload, hready, hexecute, rfl, hops⟩
            have hpending := hexecutes.pending hx hkeyed hbody
              ⟨st.mergeAll (x.commitOrder st.touched) db, s.pending⟩
            rw [hnet] at hpending
            simpa [StepsAsMeant, globalsAfter, deliveredAfter, isDelivered, hrun, processLoaded,
              Proc.bind_run, Proc.attempt, hready, hexec, hrecord, hcode] using hpending

end

/-- **One data write.**  It has the meant effect on the pending globals exactly if the
checks of network accounts do not reject it after having assigned something new. -/
theorem stepsAsMeant_iff_settled_of_writeData
    (hx : x.executors .writeData = some (WriteData.executor x.crypto)) (hkeyed : s.batch.WellKeyed)
    (hbody : d.transaction.body = .payload (.writeData entry scratch writeToState)) :
    x.StepsAsMeant d s ↔ x.Settled d s := by
  have hu : d.type.isUser = true := by
    change d.transaction.body.type.isUser = true
    rw [hbody]
    rfl
  constructor
  · intro hsteps u db principal st h hall e s' hnet
    exact (stepsAsMeant_iff_of_rejected hx hkeyed hbody hu h hall hnet).1 hsteps
  · intro hsettled
    by_contra hsteps
    refine hsteps (stepsAsMeant_of_not_rejected hx hkeyed hbody hu ?_)
    intro u db principal st h hall e s' hnet
    exact hsteps ((stepsAsMeant_iff_of_rejected hx hkeyed hbody hu h hall hnet).2
      (hsettled u db principal st h hall e s' hnet))

end WriteData

/-- **One transaction.** -/
theorem stepsAsMeant_iff_settled {s : Stage}
    (hx : x.executors .writeData = some (WriteData.executor x.crypto))
    (hkeyed : s.batch.WellKeyed) :
    x.StepsAsMeant d s ↔ x.Settled d s := by
  by_cases hbody : NotWriteData d.transaction.body
  · refine iff_of_true (x.stepsAsMeant_of_ne hbody s) ?_
    intro u db principal st _ _ e s' _
    exact x.updateGlobals_of_ne hbody s.pending
  · simp only [NotWriteData, not_forall, not_not] at hbody
    obtain ⟨entry, scratch, writeToState, hbody⟩ := hbody
    exact stepsAsMeant_iff_settled_of_writeData hx hkeyed hbody

/-! ## A whole block -/

/-- The pending globals after a sequence of transactions.  Each comes with the batch it
is executed on: what happens to the batch in between is of no concern here. -/
def runGlobals : List (Delivery × Database) → GlobalValues → GlobalValues
  | [], g => g
  | (d, db) :: steps, g => runGlobals steps (x.globalsAfter d ⟨db, g⟩)

/-- The values `v`, updated in order by the transactions of a run from the pending globals
`g` that are delivered. -/
def appliedGlobals : List (Delivery × Database) → GlobalValues → GlobalValues → GlobalValues
  | [], _, v => v
  | (d, db) :: steps, g, v =>
    appliedGlobals steps (x.globalsAfter d ⟨db, g⟩)
      (if x.deliveredAfter d ⟨db, g⟩ then x.updateGlobals d.transaction v else v)

def AllSettled : List (Delivery × Database) → GlobalValues → Prop
  | [], _ => True
  | (d, db) :: steps, g => x.Settled d ⟨db, g⟩ ∧ AllSettled steps (x.globalsAfter d ⟨db, g⟩)

/-- **The pending globals over a block.**  After every transaction of a block they are
the initial ones updated by the transactions that have been delivered, exactly if
every transaction is settled. -/
theorem runGlobals_eq_appliedGlobals_iff (steps : List (Delivery × Database)) (g : GlobalValues)
    (hx : x.executors .writeData = some (WriteData.executor x.crypto))
    (hkeyed : ∀ step ∈ steps, step.2.WellKeyed) :
    (∀ n, x.runGlobals (steps.take n) g = x.appliedGlobals (steps.take n) g g) ↔
      x.AllSettled steps g := by
  induction steps generalizing g with
  | nil => simp [runGlobals, appliedGlobals, AllSettled]
  | cons step steps ih =>
    obtain ⟨d, db⟩ := step
    have hstep := x.stepsAsMeant_iff_settled (d := d) (s := ⟨db, g⟩) hx
      (hkeyed (d, db) List.mem_cons_self)
    have hrest := ih (x.globalsAfter d ⟨db, g⟩) fun step hmem =>
      hkeyed step (List.mem_cons_of_mem _ hmem)
    constructor
    · intro h
      -- the prefix of length one says what the first transaction does
      have hfirst : x.StepsAsMeant d ⟨db, g⟩ := h 1
      refine ⟨hstep.1 hfirst, hrest.1 fun n => ?_⟩
      have hn := h (n + 1)
      simp only [List.take_succ_cons, appliedGlobals] at hn
      rwa [← show _ = ite _ _ _ from hfirst] at hn
    · rintro ⟨hsettled, hsteps⟩ n
      cases n with
      | zero => rfl
      | succ n =>
        simp only [List.take_succ_cons, appliedGlobals]
        rw [← show _ = ite _ _ _ from hstep.2 hsettled]
        exact hrest.2 hsteps n

/-! ### A rejected write to the oracle of a BVN -/

theorem wellKeyed_oracleStage : oracleStage.batch.WellKeyed :=
  (wellKeyed_empty.setMain (u := oracleUrl) rfl).setMain rfl

/-- The direct write to the oracle fails, and its price is pending all the same. -/
theorem oracleWrite_not_applied :
    oracleBvn.executors .writeData = some (WriteData.executor oracleBvn.crypto) ∧
      oracleStage.batch.WellKeyed ∧
      oracleBvn.runGlobals [(.new oracleWrite [], oracleStage.batch)] toyGlobals ≠
        oracleBvn.appliedGlobals [(.new oracleWrite [], oracleStage.batch)] toyGlobals
          toyGlobals := by
  refine ⟨rfl, wellKeyed_oracleStage, fun h => ?_⟩
  have hprice := congrArg (·.oracle) h
  revert hprice
  decide +kernel

theorem oracleWrite_applied_iff :
    oracleStage.batch.WellKeyed ∧
      ((∀ n, oracleBvn.runGlobals
          (([(.new oracleWrite [], oracleStage.batch)] : List (Delivery × Database)).take n)
            toyGlobals =
          oracleBvn.appliedGlobals
            (([(.new oracleWrite [], oracleStage.batch)] : List (Delivery × Database)).take n)
            toyGlobals toyGlobals) ↔
        oracleBvn.AllSettled [(.new oracleWrite [], oracleStage.batch)] toyGlobals) := by
  refine ⟨wellKeyed_oracleStage, runGlobals_eq_appliedGlobals_iff oracleBvn _ _ rfl ?_⟩
  intro step hstep
  obtain rfl := List.mem_singleton.1 hstep
  exact wellKeyed_oracleStage

end Executor
end Accumulate
