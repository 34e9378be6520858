import Accumulate.Block.Execute

/-!
# The ways a delivery is executed

`executeEnvelope` has many ways to end, and unlike `ProcessTransaction` it may end with an
error and still leave something behind.  `Delivering` and `Executing` list them with what is
left; results about whole runs split on these and never look into `executeEnvelope` again.
-/

namespace Accumulate

open Library Protocol Database Accumulate.Core Chain

/-- The batch and the produced transactions of a block are the same; the pending globals and
the counters may differ. -/
def Block.SameOutput (b b' : Block) : Prop :=
  b'.batch = b.batch ∧ b'.state.producedTxns = b.state.producedTxns

namespace Executor

variable (x : Executor)

/-- The ways to execute a delivery whose signatures have been accepted.

* `stopped`: the transaction could not be processed, and its batch is discarded.
* `unforwarded`: the signatures to be forwarded could not be found.
* `unproduced`: a transaction could not be sent.  The batch is discarded, but the state of
  the block holds what was to be produced.
* `executed`: nothing went wrong. -/
inductive Executing (d : Delivery) (status : TransactionStatus) (shouldProcess : Bool)
    (b : Block) : Outcome Error (TransactionStatus × List Delivery) → Block → Prop where
  | stopped {r : Outcome Error (TransactionStatus × List Delivery)} {b' : Block}
      (hr : ∀ v, r ≠ .ok v) (hsame : Block.SameOutput b b') :
      Executing d status shouldProcess b r b'
  | unforwarded {status' : TransactionStatus} {state : ProcessTransactionState} {b₁ : Block}
      {r : Outcome Error (TransactionStatus × List Delivery)}
      (hprocess : x.processDelivery d status shouldProcess b = (.ok (status', state), b₁))
      (hremote : ∀ s, x.processRemoteSignatures b₁.batch d state ≠ .ok s)
      (hr : ∀ v, r ≠ .ok v) : Executing d status shouldProcess b r b₁
  | unproduced {status' : TransactionStatus} {state state' : ProcessTransactionState} {b₁ : Block}
      {o : Outcome Error Unit} {produced : List Transaction} {db : Database}
      {r : Outcome Error (TransactionStatus × List Delivery)}
      (hprocess : x.processDelivery d status shouldProcess b = (.ok (status', state), b₁))
      (hremote : x.processRemoteSignatures b₁.batch d state = .ok state')
      (hproduce : x.produceSynthetic d.transaction state'.producedTxns b₁.batch =
        (o, produced, db)) (ho : o ≠ .ok ()) (hr : ∀ v, r ≠ .ok v) :
      Executing d status shouldProcess b r
        { b₁ with state := b₁.state.mergeTransaction { state' with producedTxns := produced } }
  | executed {status' : TransactionStatus} {state state' : ProcessTransactionState} {b₁ : Block}
      {produced : List Transaction} {db : Database}
      (hprocess : x.processDelivery d status shouldProcess b = (.ok (status', state), b₁))
      (hremote : x.processRemoteSignatures b₁.batch d state = .ok state')
      (hproduce : x.produceSynthetic d.transaction state'.producedTxns b₁.batch =
        (.ok (), produced, db)) :
      Executing d status shouldProcess b (.ok (status', state'.additionalTransactions))
        { b₁ with
          batch := db
          state := b₁.state.mergeTransaction { state' with producedTxns := produced } }

/-- The ways to execute a delivery.

* `stopped`: it could not be loaded, or a signature brought its processing to an end.
* `repeated`: the transaction has been executed before.
* `rejected`: a signature was rejected.
* `signed`: all the signatures were accepted. -/
inductive Delivering (d : Delivery) (b : Block) :
    Outcome Error (Hash × TransactionStatus × List Delivery) → Block → Prop where
  | stopped {r : Outcome Error (Hash × TransactionStatus × List Delivery)} {b' : Block}
      (hr : ∀ v, r ≠ .ok v) (hsame : Block.SameOutput b b') : Delivering d b r b'
  | repeated {loaded : Delivery} {status : TransactionStatus}
      (hload : d.loadTransaction x.crypto b.batch = .ok (loaded, status, true)) :
      Delivering d b
        (.ok (x.getHash loaded.transaction, { status with code := .delivered }, [])) b
  | rejected {loaded d' : Delivery} {status : TransactionStatus} {e : Error} {b' : Block}
      (hload : d.loadTransaction x.crypto b.batch = .ok (loaded, status, false))
      (hmetadata : loaded.loadSyntheticMetadata status = .ok d')
      (hsignatures : x.processSignatureBatch d' b = (.ok (.error e), b')) (he : e.Failing)
      (hsame : Block.SameOutput b b') :
      Delivering d b (.ok (x.getHash loaded.transaction, rejectedStatus e, [])) b'
  | signed {loaded d' : Delivery} {status : TransactionStatus} {shouldProcess : Bool}
      {b₁ b' : Block} {r : Outcome Error (TransactionStatus × List Delivery)}
      (hload : d.loadTransaction x.crypto b.batch = .ok (loaded, status, false))
      (hmetadata : loaded.loadSyntheticMetadata status = .ok d')
      (hsignatures : x.processSignatureBatch d' b = (.ok (.ok shouldProcess), b₁))
      (hexecute : Executing x d' status shouldProcess b₁ r b') :
      Delivering d b (r >>= fun v => .ok (x.getHash loaded.transaction, v)) b'

section Inversion

variable {x} {d : Delivery} {b b' : Block} {p q shouldProcess : Bool} {e : Error}
  {status : TransactionStatus}

theorem processSignatures_producedTxns (d : Delivery) (l : List Signature) (p : Bool) (b : Block) :
    (x.processSignatures d l p b).2.state.producedTxns = b.state.producedTxns := by
  have hkeeps : Proc.Keeps (fun b b' : Block => b'.state.producedTxns = b.state.producedTxns)
      (x.processSignatures d l p) := by
    induction l generalizing p with
    | nil => exact .pure _
    | cons s rest ih =>
      refine .bind (.lift _) fun isLocal => ?_
      refine .bind (.attempt fun b => rfl) fun r => ?_
      cases r with
      | error e =>
        exact .ite (.pure _) (.throw _)
      | ok u => exact .bind (.modify fun _ => rfl) fun _ => ih _
  exact hkeeps b

theorem processSignatures_cons_cases {s : Signature} {rest : List Signature}
    {r : Except Error Bool} (h : x.processSignatures d (s :: rest) p b = (.ok r, b')) :
    (∃ isLocal db, isLocalSignature d s = .ok isLocal ∧
      x.processSignature d s b.batch = (.ok (), db) ∧
      x.processSignatures d rest (p || isLocal)
        { b with batch := db, state := b.state.mergeSignature } = (.ok r, b')) ∨
      ∃ e, r = .error e ∧ (x.processSignature d s b.batch).1 = .error e := by
  obtain ⟨isLocal, hlocal, h⟩ := Proc.lift_bind_eq_ok.1 h
  obtain ⟨_, b₁, hattempt, h⟩ := Proc.bind_eq_ok.1 h
  unfold Proc.attempt at hattempt
  rw [Block.onBatch_run] at hattempt
  match hrun : (x.processSignature d s b.batch).1 with
  | .ok () =>
    rw [hrun] at hattempt
    cases hattempt
    exact .inl ⟨isLocal, _, hlocal, Prod.ext hrun rfl, h⟩
  | .error e =>
    rw [hrun] at hattempt
    cases hattempt
    dsimp only at h
    split at h
    · cases h
      exact .inr ⟨e, rfl, rfl⟩
    · cases h
  | .panic m => simp [hrun] at hattempt

theorem processSignatures_cons_eq_ok {s : Signature} {rest : List Signature}
    (h : x.processSignatures d (s :: rest) p b = (.ok (.ok q), b')) :
    ∃ isLocal db, isLocalSignature d s = .ok isLocal ∧
      x.processSignature d s b.batch = (.ok (), db) ∧
      x.processSignatures d rest (p || isLocal)
        { b with batch := db, state := b.state.mergeSignature } = (.ok (.ok q), b') := by
  rcases processSignatures_cons_cases h with h | ⟨e, he, -⟩
  · exact h
  · cases he

theorem processSignatures_rejects {l : List Signature}
    (h : x.processSignatures d l p b = (.ok (.error e), b')) : e.Failing := by
  induction l generalizing p b with
  | nil => cases h
  | cons s rest ih =>
    rcases processSignatures_cons_cases h with ⟨isLocal, db, -, -, h⟩ | ⟨e, he, hrun⟩
    · exact ih h
    · cases he
      exact x.raises_processSignature d s b.batch _ hrun

theorem processSignatureBatch_cases {o : Outcome Error (Except Error Bool)}
    (h : x.processSignatureBatch d b = (o, b')) :
    (∃ q, o = .ok (.ok q) ∧
      x.processSignatures d d.signatures (!d.type.isUser) b = (.ok (.ok q), b')) ∨
      ∃ b₁, x.processSignatures d d.signatures (!d.type.isUser) b = (o, b₁) ∧
        b' = { b₁ with batch := b.batch } ∧ ∀ q, o ≠ .ok (.ok q) := by
  unfold processSignatureBatch at h
  match hrun : x.processSignatures d d.signatures (!d.type.isUser) b with
  | (.ok (.ok q), b₁) =>
    rw [hrun] at h
    cases h
    exact .inl ⟨q, rfl, rfl⟩
  | (.ok (.error e), b₁) | (.error e, b₁) | (.panic m, b₁) =>
    rw [hrun] at h
    cases h
    exact .inr ⟨b₁, rfl, rfl, nofun⟩

theorem processSignatureBatch_rejects
    (h : x.processSignatureBatch d b = (.ok (.error e), b')) : e.Failing := by
  rcases processSignatureBatch_cases h with ⟨q, hq, -⟩ | ⟨b₁, hrun, -, -⟩
  · cases hq
  · exact processSignatures_rejects hrun

theorem processSignatureBatch_sameOutput {o : Outcome Error (Except Error Bool)}
    (h : x.processSignatureBatch d b = (o, b')) (ho : ∀ q, o ≠ .ok (.ok q)) :
    Block.SameOutput b b' := by
  have hproduced := processSignatures_producedTxns d d.signatures (!d.type.isUser) b (x := x)
  rcases processSignatureBatch_cases h with ⟨q, hq, -⟩ | ⟨b₁, hrun, rfl, -⟩
  · exact absurd hq (ho q)
  · rw [hrun] at hproduced
    exact ⟨rfl, hproduced⟩

theorem processSignatureBatch_eq_ok (h : x.processSignatureBatch d b = (.ok (.ok q), b')) :
    x.processSignatures d d.signatures (!d.type.isUser) b = (.ok (.ok q), b') := by
  rcases processSignatureBatch_cases h with ⟨q', hq, hrun⟩ | ⟨b₁, -, -, hne⟩
  · cases hq
    exact hrun
  · exact absurd rfl (hne q)

theorem processDelivery_sameOutput
    (h : ∀ v, (x.processDelivery d status shouldProcess b).1 ≠ .ok v) :
    Block.SameOutput b (x.processDelivery d status shouldProcess b).2 := by
  unfold processDelivery at h ⊢
  split at h
  · rename_i hprocess
    rw [if_pos hprocess]
    unfold Block.inBatch Proc.transaction at h ⊢
    rw [Block.onStage_run] at h ⊢
    match hrun : (x.processTransaction d ⟨b.batch, b.pending⟩).1 with
    | .ok v =>
      rw [hrun] at h
      exact absurd rfl (h v)
    | .error e | .panic m => exact ⟨rfl, rfl⟩
  · exact absurd rfl (h _)

/-- What has been produced is merged into the state of the block in any case. -/
theorem mergeAndProduce_cases {source : Transaction} {state : ProcessTransactionState}
    {o : Outcome Error Unit} {produced : List Transaction} {db : Database}
    (hproduce : x.produceSynthetic source state.producedTxns b.batch = (o, produced, db)) :
    o = .ok () ∧ x.mergeAndProduce source state b = (.ok (), { b with
        batch := db
        state := b.state.mergeTransaction { state with producedTxns := produced } }) ∨
      o ≠ .ok () ∧ (∀ v, (x.mergeAndProduce source state b).1 ≠ .ok v) ∧
        (x.mergeAndProduce source state b).2 = { b with
          state := b.state.mergeTransaction { state with producedTxns := produced } } := by
  unfold mergeAndProduce
  rw [hproduce]
  cases o with
  | ok u => exact .inl ⟨rfl, rfl⟩
  | error e | panic m => exact .inr ⟨nofun, nofun, rfl⟩

theorem executeSigned_executing {r : Outcome Error (TransactionStatus × List Delivery)}
    (h : x.executeSigned d status shouldProcess b = (r, b')) :
    Executing x d status shouldProcess b r b' := by
  rcases Proc.bind_cases h with ⟨⟨status', state⟩, b₁, hprocess, h⟩ | ⟨hr, hstop, rfl⟩
  · simp only at h
    rw [Proc.get_bind_run] at h
    rcases Proc.bind_cases h with ⟨state', b₂, hlift, h⟩ | ⟨hr, hstop, rfl⟩
    · obtain ⟨hremote, rfl⟩ := Prod.mk.inj hlift
      obtain ⟨o, produced, db, hproduce⟩ : ∃ o produced db,
          x.produceSynthetic d.transaction state'.producedTxns b₁.batch = (o, produced, db) :=
        ⟨_, _, _, rfl⟩
      rcases mergeAndProduce_cases hproduce with ⟨rfl, hmerge⟩ | ⟨ho, hstop, hmerge⟩
      · rw [Proc.bind_run_of_ok hmerge] at h
        cases h
        exact .executed hprocess hremote hproduce
      · rcases Proc.bind_cases h with ⟨_, _, hok, -⟩ | ⟨hr, -, rfl⟩
        · rw [hok] at hstop
          exact absurd rfl (hstop _)
        · rw [hmerge]
          exact .unproduced hprocess hremote hproduce ho hr
    · exact .unforwarded hprocess hstop hr
  · exact .stopped hr (processDelivery_sameOutput hstop)

/-- **The ways a delivery is executed.** -/
theorem executeEnvelopeOnce_delivering
    {r : Outcome Error (Hash × TransactionStatus × List Delivery)}
    (h : x.executeEnvelopeOnce d b = (r, b')) : Delivering x d b r b' := by
  unfold executeEnvelopeOnce at h
  rw [Proc.get_bind_run] at h
  rcases Proc.bind_cases h with ⟨⟨loaded, status, delivered⟩, b₁, hlift, h⟩ | ⟨hr, -, rfl⟩
  · obtain ⟨hload, rfl⟩ := Prod.mk.inj hlift
    have hload := Outcome.mapError_eq_ok.1 hload
    cases delivered with
    | true =>
      cases h
      exact .repeated hload
    | false =>
      simp only [Bool.false_eq_true, if_false] at h
      match hexec : x.executeLoaded loaded status b with
      | (o, b₂) =>
        obtain ⟨rfl, rfl⟩ :
            r = (o >>= fun v => .ok (x.getHash loaded.transaction, v)) ∧ b' = b₂ := by
          rw [Proc.bind_run, hexec] at h
          cases o <;> cases h <;> exact ⟨rfl, rfl⟩
        have hstopped : (∀ v, o ≠ .ok v) →
            ∀ v, (o >>= fun v => .ok (x.getHash loaded.transaction, v)) ≠ .ok v := by
          intro ho v hv
          obtain ⟨w, hw, -⟩ := Outcome.bind_eq_ok.1 hv
          exact ho w hw
        rcases Proc.bind_cases hexec with ⟨d', b₃, hlift, hexec⟩ | ⟨ho, -, rfl⟩
        · obtain ⟨hmetadata, rfl⟩ := Prod.mk.inj hlift
          have hmetadata := Outcome.mapError_eq_ok.1 hmetadata
          rcases Proc.bind_cases hexec with ⟨accepted, b₃, hsignatures, hexec⟩ | ⟨ho, hstop, rfl⟩
          · cases accepted with
            | error e =>
              cases hexec
              exact .rejected hload hmetadata hsignatures
                (processSignatureBatch_rejects hsignatures)
                (processSignatureBatch_sameOutput hsignatures nofun)
            | ok shouldProcess =>
              exact .signed hload hmetadata hsignatures (executeSigned_executing hexec)
          · exact .stopped (hstopped ho)
              (processSignatureBatch_sameOutput rfl fun q hq => hstop _ hq)
        · exact .stopped (hstopped ho) ⟨rfl, rfl⟩
  · exact .stopped hr ⟨rfl, rfl⟩

end Inversion

end Executor
end Accumulate
