import Accumulate.Block.Delivering

/-!
# Rejected and repeated deliveries

Two ways `ExecuteEnvelope` comes to store a status it has not computed from the stored one.

* A signature of the delivery is rejected with an `*errors.Error`.  The batch of the
  signatures is discarded, but the status that is returned is a fresh one with the code of
  the error, and since it has never been received it is stored.  The code of a failure
  counts as delivered, so the transaction is closed (`executeEnvelope_rejected`).
* The transaction has been executed before.  The status that is returned is a copy with the
  code of a success, and it is stored if the transaction has never been received itself
  (`executeEnvelope_redelivered`).
-/

namespace Accumulate

open Library Protocol Database Accumulate.Core Chain

namespace Database

/-- The transaction that is stored under a hash, if there is one, has that hash. -/
def HashedAt (c : Crypto) (db : Database) (hash : Hash) : Prop :=
  ∀ v t, (db.transaction hash).main = some v → v.transaction = some t → c.getHash t = hash

end Database

namespace Chain

/-- A loaded delivery has the signatures and the hash of the submitted one, and its status
is the stored one. -/
theorem Delivery.loadTransaction_eq_ok {c : Crypto} {db : Database} {d loaded : Delivery}
    {status : TransactionStatus} {delivered : Bool}
    (h : d.loadTransaction c db = .ok (loaded, status, delivered))
    (hdb : db.HashedAt c (c.getHash d.transaction)) :
    c.getHash loaded.transaction = c.getHash d.transaction ∧
      status = (db.transaction (c.getHash d.transaction)).status ∧
      delivered = status.delivered := by
  obtain ⟨hstatus, ⟨-, rfl⟩ | ⟨v, t, hmain, ht, rfl⟩⟩ := loadTransaction_cases h
  · exact ⟨rfl, hstatus⟩
  · exact ⟨hdb v t hmain ht, hstatus⟩

end Chain

namespace Executor

variable (x : Executor)

/-! ## A rejected signature -/

section Rejected

variable {b : Block} {p q : Bool} {b' : Block} {d : Delivery}

theorem processSignatures_append {first rest : List Signature}
    (h : x.processSignatures d first p b = (.ok (.ok q), b')) :
    x.processSignatures d (first ++ rest) p b = x.processSignatures d rest q b' := by
  induction first generalizing p b with
  | nil =>
    obtain ⟨h₁, h₂⟩ := Prod.mk.inj h
    cases h₁
    cases h₂
    rfl
  | cons s first ih =>
    obtain ⟨isLocal, db, hlocal, hrun, h⟩ := processSignatures_cons_eq_ok h
    have hattempt : Proc.attempt (Block.onBatch (x.processSignature d s)) b =
        (.ok (.ok ()), { b with batch := db }) := by
      simp only [Proc.attempt, Block.onBatch_run, hrun]
    rw [List.cons_append, processSignatures, hlocal]
    exact (Proc.bind_run_of_ok hattempt).trans (ih h)

/-- Accepted signatures are counted in the state of the block, and change nothing else
outside the batch. -/
theorem processSignatures_accepted {l : List Signature}
    (h : x.processSignatures d l p b = (.ok (.ok q), b')) :
    b' = { b with
      batch := b'.batch
      state := { b.state with signed := b.state.signed + l.length } } := by
  induction l generalizing p b with
  | nil =>
    cases h
    rfl
  | cons s l ih =>
    obtain ⟨isLocal, db, -, -, h⟩ := processSignatures_cons_eq_ok h
    rw [ih h, List.length_cons, Nat.add_comm l.length 1, ← Nat.add_assoc]
    rfl

/-- In block `b` the delivery is loaded, its first `k` signatures are accepted, and
`ProcessSignature` returns `e`, an `*errors.Error`, for the next one. -/
structure RejectsAt (b : Block) (delivery : Delivery) (k : Nat) (e : Error) : Prop where
  direct : delivery.type ≠ .systemWriteData
  typed : e.typed = true
  rejected : ∃ loaded status ready shouldProcess b' signature isLocal db',
    delivery.loadTransaction x.crypto b.batch = .ok (loaded, status, false) ∧
    loaded.loadSyntheticMetadata status = .ok ready ∧
    x.processSignatures ready (ready.signatures.take k) (!ready.type.isUser) b =
      (.ok (.ok shouldProcess), b') ∧
    ready.signatures[k]? = some signature ∧
    isLocalSignature ready signature = .ok isLocal ∧
    x.processSignature ready signature b'.batch = (.error e, db')

variable {x}

variable {delivery : Delivery} {k : Nat} {e : Error}

theorem RejectsAt.failing (h : x.RejectsAt b delivery k e) : e.Failing := by
  obtain ⟨_, _, ready, _, b', signature, _, db', -, -, -, -, -, hrun⟩ := h.rejected
  exact x.raises_processSignature ready signature b'.batch e (congrArg Prod.fst hrun)

theorem rejectedStatus_delivered (he : e.Failing) (received : Nat) :
    ({ rejectedStatus e with received := received }).delivered = true := by
  have hcode : e.code.success = false := he.code
  have hset : e.code ≠ .unset := by
    intro h
    rw [h] at hcode
    cases hcode
  simp [TransactionStatus.delivered, TransactionStatus.failed, rejectedStatus,
    TransactionStatus.set, hset, hcode]

/-- Nothing is left of a rejected delivery but the count of the signatures that were
accepted before. -/
theorem executeEnvelopeOnce_rejected (h : x.RejectsAt b delivery k e)
    (hdb : b.batch.HashedAt x.crypto (x.getHash delivery.transaction)) :
    x.executeEnvelopeOnce delivery b =
      (.ok (x.getHash delivery.transaction, rejectedStatus e, []),
        { b with state := { b.state with signed := b.state.signed + k } }) := by
  obtain ⟨loaded, status, ready, p, b', signature, isLocal, db', hload, hready, hfirst, hsig,
    hlocal, hrun⟩ := h.rejected
  obtain ⟨hk, hget⟩ := List.getElem?_eq_some_iff.1 hsig
  have hsplit : ready.signatures =
      ready.signatures.take k ++ signature :: ready.signatures.drop (k + 1) := by
    rw [← hget, ← List.drop_eq_getElem_cons hk, List.take_append_drop]
  have hstep : x.processSignatures ready (signature :: ready.signatures.drop (k + 1)) p b' =
      (.ok (.error e), { b' with batch := db' }) := by
    rw [processSignatures, hlocal]
    have hattempt : Proc.attempt (Block.onBatch (x.processSignature ready signature)) b' =
        (.ok (.error e), { b' with batch := db' }) := by
      simp only [Proc.attempt, Block.onBatch_run, hrun]
    refine (Proc.bind_run_of_ok hattempt).trans ?_
    simp only [h.typed]
    rfl
  have hloop : x.processSignatures ready ready.signatures (!ready.type.isUser) b =
      (.ok (.error e), { b' with batch := db' }) := by
    conv_lhs => rw [hsplit]
    rw [x.processSignatures_append hfirst, hstep]
  have hbatch : x.processSignatureBatch ready b =
      (.ok (.error e), { b with state := { b.state with signed := b.state.signed + k } }) := by
    have hb' := x.processSignatures_accepted hfirst
    rw [List.length_take, Nat.min_eq_left hk.le] at hb'
    simp only [processSignatureBatch, hloop]
    rw [hb']
  have hhash := (Delivery.loadTransaction_eq_ok hload hdb).1
  have hloaded : x.executeLoaded loaded status b = (.ok (rejectedStatus e, []),
      { b with state := { b.state with signed := b.state.signed + k } }) := by
    unfold executeLoaded
    rw [hready]
    exact (Proc.bind_run_of_ok hbatch).trans rfl
  have hsame : x.getHash loaded.transaction = x.getHash delivery.transaction := hhash
  unfold executeEnvelopeOnce
  rw [Proc.bind_run_of_ok (Proc.get_run b), hload]
  refine (Proc.bind_run_of_ok hloaded).trans ?_
  rw [hsame]
  rfl

theorem recordReceived_run {hash : Hash} {status : TransactionStatus}
    (hreceived : status.received = 0) (hpending : status.pending = false) :
    recordReceived hash status b =
      (.ok (normalizeStatus { status with received := b.index }),
        { b with batch :=
            b.batch.setStatus hash (normalizeStatus { status with received := b.index }) }) := by
  have hput : putStatus hash (normalizeStatus { status with received := b.index }) b.batch =
      (.ok (), b.batch.setStatus hash (normalizeStatus { status with received := b.index })) := by
    refine putStatus_run fun h => ?_
    exact absurd (hpending.symm.trans h) Bool.false_ne_true
  unfold recordReceived
  rw [Proc.bind_run_of_ok (Proc.get_run b), if_pos hreceived]
  have hrun : Proc.mapError Error.wrap (Block.onBatch
      (putStatus hash (normalizeStatus { status with received := b.index }))) b = (.ok (),
        { b with batch :=
            b.batch.setStatus hash (normalizeStatus { status with received := b.index }) }) := by
    rw [Proc.mapError_run, Block.onBatch_run, hput]
    rfl
  exact (Proc.bind_run_of_ok hrun).trans rfl

/-- What a rejected delivery leaves behind: a failed status in the place of the stored one,
and the count of the signatures that were accepted before. -/
theorem executeEnvelope_rejected (h : x.RejectsAt b delivery k e)
    (hdb : b.batch.HashedAt x.crypto (x.getHash delivery.transaction)) (fuel : Nat) :
    x.executeEnvelope fuel delivery b =
      (.ok (normalizeStatus { rejectedStatus e with received := b.index }),
        { b with
          batch := b.batch.setStatus (x.getHash delivery.transaction)
            (normalizeStatus { rejectedStatus e with received := b.index })
          state := { b.state with signed := b.state.signed + k } }) := by
  have hpending : (rejectedStatus e).pending = false := by
    have hdelivered := rejectedStatus_delivered h.failing 0
    by_contra hp
    have hcode : (rejectedStatus e).code = .pending := by
      simpa [TransactionStatus.pending] using hp
    simp [TransactionStatus.delivered, TransactionStatus.failed, hcode, Status.success,
      Status.code] at hdelivered
  have honce : Proc.mapError Error.wrap (x.executeEnvelopeOnce delivery) b =
      (.ok (x.getHash delivery.transaction, rejectedStatus e, []),
        { b with state := { b.state with signed := b.state.signed + k } }) := by
    rw [Proc.mapError_run, executeEnvelopeOnce_rejected h hdb]
    rfl
  unfold executeEnvelope
  rw [if_neg h.direct, Proc.bind_run_of_ok honce]
  refine (Proc.bind_run_of_ok (recordReceived_run rfl hpending)).trans ?_
  cases fuel <;> rfl

/-- The status of a transaction (code, initiator, signers, proof and sequence number) and
the counters of the block are the same in two states. -/
structure Unaffected (hash : Hash) (b b' : Block) : Prop where
  code : (b'.batch.transaction hash).status.code = (b.batch.transaction hash).status.code
  initiator :
    (b'.batch.transaction hash).status.initiator = (b.batch.transaction hash).status.initiator
  signers : (b'.batch.transaction hash).status.signers = (b.batch.transaction hash).status.signers
  proof : (b'.batch.transaction hash).status.proof = (b.batch.transaction hash).status.proof
  sequenceNumber : (b'.batch.transaction hash).status.sequenceNumber =
    (b.batch.transaction hash).status.sequenceNumber
  delivered : b'.state.delivered = b.state.delivered
  signed : b'.state.signed = b.state.signed

/-- A rejected signature never leaves the transaction alone: whatever was stored is replaced
by a failed status, after which every later envelope finds the transaction delivered, and
the signatures that came before it stay counted. -/
theorem rejected_signature_closes_transaction {b : Block} {delivery : Delivery} {k : Nat}
    {e : Error} (h : x.RejectsAt b delivery k e)
    (hdb : b.batch.HashedAt x.crypto (x.getHash delivery.transaction)) (fuel : Nat) :
    ∃ status b', x.executeEnvelope fuel delivery b = (.ok status, b') ∧
      ¬ Unaffected (x.getHash delivery.transaction) b b' ∧
      (b'.batch.transaction (x.getHash delivery.transaction)).status.delivered = true ∧
      b'.state.signed = b.state.signed + k := by
  refine ⟨_, _, executeEnvelope_rejected h hdb fuel, ?_, ?_, rfl⟩
  · intro hsame
    obtain ⟨loaded, status, -, -, -, -, -, -, hload, -⟩ := h.rejected
    obtain ⟨-, hstatus, hflag⟩ := Delivery.loadTransaction_eq_ok hload hdb
    -- delivered is a matter of the code only, and it has changed
    have hbefore : (b.batch.transaction (x.getHash delivery.transaction)).status.delivered =
        false := by
      rw [hflag, hstatus]
      rfl
    have hafter := rejectedStatus_delivered h.failing b.index
    have hcode := hsame.code
    simp only [setStatus_status_self] at hcode
    unfold TransactionStatus.delivered TransactionStatus.failed at hbefore hafter
    rw [← hcode] at hbefore
    exact Bool.false_ne_true (hbefore.symm.trans hafter)
  · simp only [setStatus_status_self]
    exact rejectedStatus_delivered h.failing b.index

end Rejected

/-! ## A repeated delivery -/

section Redelivered

variable {x} {b : Block} {delivery : Delivery}

/-- A transaction that has been executed is not executed again.  Its status is stored, with
the code of a success, if it has never been received. -/
theorem executeEnvelope_redelivered {loaded : Delivery}
    {status : TransactionStatus} (hdirect : delivery.type ≠ .systemWriteData)
    (hload : delivery.loadTransaction x.crypto b.batch = .ok (loaded, status, true))
    (hdb : b.batch.HashedAt x.crypto (x.getHash delivery.transaction)) (fuel : Nat) :
    (x.executeEnvelope fuel delivery b).2 =
      if status.received = 0 then
        { b with
          batch := b.batch.setStatus (x.getHash delivery.transaction)
            (normalizeStatus { status with code := .delivered, received := b.index }) }
      else b := by
  have hhash : x.getHash loaded.transaction = x.getHash delivery.transaction :=
    (Delivery.loadTransaction_eq_ok hload hdb).1
  have honce : Proc.mapError Error.wrap (x.executeEnvelopeOnce delivery) b =
      (.ok (x.getHash delivery.transaction, { status with code := .delivered }, []), b) := by
    rw [Proc.mapError_run]
    unfold executeEnvelopeOnce
    rw [Proc.bind_run_of_ok (Proc.get_run b), hload, ← hhash]
    rfl
  unfold executeEnvelope
  rw [if_neg hdirect, Proc.bind_run_of_ok honce]
  by_cases hreceived : status.received = 0
  · have hrun : recordReceived (x.getHash delivery.transaction)
        { status with code := .delivered } b = _ := recordReceived_run hreceived rfl
    rw [if_pos hreceived]
    refine (congrArg Prod.snd (Proc.bind_run_of_ok hrun)).trans ?_
    cases fuel <;> rfl
  · have hrun : recordReceived (x.getHash delivery.transaction)
        { status with code := .delivered } b = (.ok { status with code := .delivered }, b) := by
      unfold recordReceived
      rw [Proc.bind_run_of_ok (Proc.get_run b), if_neg hreceived]
      rfl
    rw [if_neg hreceived]
    refine (congrArg Prod.snd (Proc.bind_run_of_ok hrun)).trans ?_
    cases fuel <;> rfl

theorem executeEnvelope_not_loaded (hload : ∀ r, delivery.loadTransaction x.crypto b.batch ≠ .ok r)
    (fuel : Nat) : (x.executeEnvelope fuel delivery b).2 = b := by
  unfold executeEnvelope
  split
  · rfl
  have honce : (x.executeEnvelopeOnce delivery b).2 = b ∧
      ∀ r, (x.executeEnvelopeOnce delivery b).1 ≠ .ok r := by
    unfold executeEnvelopeOnce
    rw [Proc.bind_run_of_ok (Proc.get_run b)]
    cases h : delivery.loadTransaction x.crypto b.batch with
    | ok r => exact absurd h (hload r)
    | error e | panic m => exact ⟨rfl, fun r hr => nomatch hr⟩
  obtain ⟨hstate, hnot⟩ := honce
  rw [Proc.bind_run, Proc.mapError_run, hstate]
  cases hrun : (x.executeEnvelopeOnce delivery b).1 with
  | ok r => exact absurd hrun (hnot r)
  | error e => rfl
  | panic m => rfl

/-- The code and the error of an executed transaction survive a later envelope exactly when
that envelope is turned away before the status is looked at, the transaction has been
received itself, or it has succeeded. -/
theorem redelivery_keeps_status_iff {b : Block} {delivery : Delivery} (fuel : Nat)
    (hdb : b.batch.HashedAt x.crypto (x.getHash delivery.transaction))
    (hdelivered : (b.batch.transaction (x.getHash delivery.transaction)).status.delivered = true) :
    ((((x.executeEnvelope fuel delivery b).2.batch.transaction
          (x.getHash delivery.transaction)).status.code =
        (b.batch.transaction (x.getHash delivery.transaction)).status.code) ∧
      ((x.executeEnvelope fuel delivery b).2.batch.transaction
          (x.getHash delivery.transaction)).status.error =
        (b.batch.transaction (x.getHash delivery.transaction)).status.error) ↔
    delivery.type = .systemWriteData ∨
      (∀ r, delivery.loadTransaction x.crypto b.batch ≠ .ok r) ∨
      (b.batch.transaction (x.getHash delivery.transaction)).status.received ≠ 0 ∨
      (b.batch.transaction (x.getHash delivery.transaction)).status.code = .delivered := by
  by_cases hdirect : delivery.type = .systemWriteData
  · have hrun : (x.executeEnvelope fuel delivery b).2 = b := by
      unfold executeEnvelope
      rw [if_pos hdirect]
      rfl
    simp [hrun, hdirect]
  by_cases hload : ∀ r, delivery.loadTransaction x.crypto b.batch ≠ .ok r
  · simp [executeEnvelope_not_loaded hload fuel, hload]
  obtain ⟨⟨loaded, status, flag⟩, hr⟩ := not_forall_not.1 hload
  obtain ⟨-, hstatus, hflag⟩ := Delivery.loadTransaction_eq_ok hr hdb
  have hflag' : flag = true := by
    rw [hflag, hstatus]
    exact hdelivered
  subst hflag'
  have hstatus' : (b.batch.transaction (x.getHash delivery.transaction)).status = status :=
    hstatus.symm
  rw [executeEnvelope_redelivered hdirect hr hdb fuel, hstatus']
  by_cases hreceived : status.received = 0
  · rw [if_pos hreceived]
    simp only [setStatus_status_self]
    constructor
    · rintro ⟨hcode, -⟩
      exact Or.inr (.inr (.inr hcode.symm))
    rintro (h | h | h | h)
    · exact absurd h hdirect
    · exact absurd h hload
    · exact absurd hreceived h
    · exact ⟨h.symm, rfl⟩
  · rw [if_neg hreceived, hstatus']
    exact ⟨fun _ => .inr (.inr (.inl hreceived)), fun _ => ⟨rfl, rfl⟩⟩

end Redelivered

/-! ## A page with one key -/

def soloUrl : Url := ⟨.named "solo", ["book", "1"]⟩

def soloBook : Url := ⟨.named "solo", ["book"]⟩

def soloPage : KeyPage := ⟨soloUrl, 1000000, 1, 1, [⟨[1], 0, none⟩], none⟩

def soloNode : Executor := toyNode

def soloSignature (key : Bytes) : Signature :=
  .key ⟨.ed25519, key, [], some soloUrl, 1, 7, .accept, 0⟩

def soloTxn : Transaction := ⟨⟨some soloUrl, 107, "", []⟩, .payload (.updateKeyPage [])⟩

def soloAccounts : Database :=
  (Database.empty.setMain soloUrl (.keyPage soloPage)).setMain soloBook
    (.keyBook soloBook [⟨soloBook, false⟩] .normal 1)

def soloBlock (status : TransactionStatus) : Block where
  index := 5
  batch := (soloAccounts.putTransaction (soloNode.getHash soloTxn)
    ⟨some soloTxn, none, none⟩).setStatus (soloNode.getHash soloTxn) status
  pending := toyGlobals
  state := .new

def soloPending : Block := soloBlock { TransactionStatus.new with code := .pending }

def soloDelivery : Delivery := .new soloTxn [soloSignature [1], soloSignature [9]]

def soloError : Error := .new .unauthorized "key does not belong to signer"

theorem soloBlock_hashedAt (status : TransactionStatus) :
    (soloBlock status).batch.HashedAt soloNode.crypto (soloNode.getHash soloTxn) := by
  intro v t hv ht
  cases hv
  cases ht
  rfl

theorem soloBlock_load (status : TransactionStatus) (signatures : List Signature) :
    (Delivery.new soloTxn signatures).loadTransaction soloNode.crypto (soloBlock status).batch =
      .ok (.new soloTxn signatures, normalizeStatus status, status.delivered) := by
  rfl

theorem solo_rejects : soloNode.RejectsAt soloPending soloDelivery 1 soloError where
  direct := by decide
  typed := rfl
  rejected :=
    ⟨soloDelivery, normalizeStatus { TransactionStatus.new with code := .pending }, soloDelivery,
      true, (soloNode.processSignatures soloDelivery [soloSignature [1]] false soloPending).2,
      soloSignature [9], true, _, soloBlock_load _ _, rfl,
      Prod.ext (by decide +kernel) rfl, rfl, by decide +kernel,
      Prod.ext (by decide +kernel) rfl⟩

def soloRejected : Block := (soloNode.executeEnvelope 0 soloDelivery soloPending).2

/-- The transaction was pending and has failed since, one signature is counted, and a later
delivery with nothing but the valid signature is of no use. -/
theorem solo_rejected_affected :
    soloNode.RejectsAt soloPending soloDelivery 1 soloError ∧
      (soloPending.batch.transaction (soloNode.getHash soloTxn)).status.code = .pending ∧
      (soloRejected.batch.transaction (soloNode.getHash soloTxn)).status.code = .unauthorized ∧
      soloPending.state.signed = 0 ∧ soloRejected.state.signed = 1 ∧
      ¬ Unaffected (soloNode.getHash soloTxn) soloPending soloRejected ∧
      ((soloNode.executeEnvelope 0 (.new soloTxn [soloSignature [1]])
        soloRejected).2.batch.transaction
        (soloNode.getHash soloTxn)).status.code = .unauthorized := by
  have hafter : (soloRejected.batch.transaction (soloNode.getHash soloTxn)).status.code =
      .unauthorized := by
    decide +kernel
  refine ⟨solo_rejects, by decide +kernel, hafter, rfl, by decide +kernel, ?_, by decide +kernel⟩
  intro h
  have hcode := h.code
  exact absurd hcode (by decide +kernel)

theorem solo_rejected_closes :
    soloNode.RejectsAt soloPending soloDelivery 1 soloError ∧
      soloPending.batch.HashedAt soloNode.crypto (soloNode.getHash soloDelivery.transaction) ∧
      ∃ status b', soloNode.executeEnvelope 0 soloDelivery soloPending = (.ok status, b') ∧
        ¬ Unaffected (soloNode.getHash soloDelivery.transaction) soloPending b' ∧
        (b'.batch.transaction (soloNode.getHash soloDelivery.transaction)).status.delivered =
          true ∧
        b'.state.signed = soloPending.state.signed + 1 :=
  ⟨solo_rejects, soloBlock_hashedAt _,
    rejected_signature_closes_transaction solo_rejects (soloBlock_hashedAt _) 0⟩

/-- The transaction has failed.  It was not received before, as is the case for the ones
that are executed as additional transactions only. -/
def soloFailed (received : Nat) : Block :=
  soloBlock { TransactionStatus.new with
    code := .unauthorized, error := some soloError, received := received }

/-- A later envelope turns the failed transaction into one that has been delivered. -/
theorem solo_redelivered :
    ((soloFailed 0).batch.transaction (soloNode.getHash soloTxn)).status.delivered = true ∧
      ((soloFailed 0).batch.transaction (soloNode.getHash soloTxn)).status.code =
        .unauthorized ∧
      ((soloNode.executeEnvelope 0 (.new soloTxn [soloSignature [1]])
        (soloFailed 0)).2.batch.transaction (soloNode.getHash soloTxn)).status.code =
          .delivered := by
  refine ⟨by decide +kernel, by decide +kernel, by decide +kernel⟩

theorem solo_redelivery_keeps_status :
    (soloFailed 3).batch.HashedAt soloNode.crypto (soloNode.getHash soloDelivery.transaction) ∧
      ((soloFailed 3).batch.transaction
        (soloNode.getHash soloDelivery.transaction)).status.delivered = true ∧
      ((soloNode.executeEnvelope 0 soloDelivery (soloFailed 3)).2.batch.transaction
        (soloNode.getHash soloDelivery.transaction)).status.code =
      ((soloFailed 3).batch.transaction
        (soloNode.getHash soloDelivery.transaction)).status.code := by
  have hdelivered : ((soloFailed 3).batch.transaction
      (soloNode.getHash soloDelivery.transaction)).status.delivered = true := by
    decide +kernel
  have hreceived : ((soloFailed 3).batch.transaction
      (soloNode.getHash soloDelivery.transaction)).status.received ≠ 0 := by
    decide +kernel
  have hkept := (redelivery_keeps_status_iff 0 (soloBlock_hashedAt _) hdelivered).2
    (.inr (.inr (.inl hreceived)))
  exact ⟨soloBlock_hashedAt _, hdelivered, hkept.1⟩

end Executor

end Accumulate
