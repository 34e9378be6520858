import Accumulate.Block.Remote
import Accumulate.Block.Synthetic
import Accumulate.Block.Transaction

/-!
# Executing an envelope

`internal/block/block_execute.go`.  A delivery is loaded, its signatures are processed in
one batch and its transaction in another; both are children of the batch of the block.
What the transaction has produced is merged into the state of the block, which is not part
of any batch, and then recorded in a third batch.

`ExecuteEnvelope` executes a delivery and, round after round, the deliveries this gives
rise to.
-/

namespace Accumulate

open Library Protocol Database Accumulate.Core Chain

/-- `BlockState`.  `anchor` tells whether an anchor is to be prepared and, if so, whether a
major block is to be opened. -/
structure BlockState where
  openedMajorBlock : Bool
  makeMajorBlock : Nat
  delivered : Nat
  signed : Nat
  producedTxns : List Transaction
  chainUpdates : ChainUpdates
  receivedAnchors : List ReceivedAnchor
  anchor : Option Bool

namespace BlockState

def new : BlockState :=
  { openedMajorBlock := false, makeMajorBlock := 0, delivered := 0, signed := 0
    producedTxns := [], chainUpdates := .empty, receivedAnchors := [], anchor := none }

def mergeSignature (s : BlockState) : BlockState := { s with signed := s.signed + 1 }

def mergeTransaction (s : BlockState) (r : ProcessTransactionState) : BlockState :=
  { s with
    delivered := s.delivered + 1
    producedTxns := s.producedTxns ++ r.producedTxns
    chainUpdates := s.chainUpdates.merge r.chainUpdates
    receivedAnchors := s.receivedAnchors ++ r.receivedAnchors
    makeMajorBlock := if r.makeMajorBlock > 0 then r.makeMajorBlock else s.makeMajorBlock }

end BlockState

/-- `Block`, with the pending globals of the executor. -/
structure Block where
  index : Nat
  batch : Database
  pending : GlobalValues
  state : BlockState

namespace Block

variable {α : Type}

def onBatch (p : Proc Database Error α) : Proc Block Error α :=
  Proc.zoom Block.batch (fun db b => { b with batch := db }) p

def onStage (p : Proc Stage Error α) : Proc Block Error α :=
  Proc.zoom (fun b => ⟨b.batch, b.pending⟩)
    (fun s b => { b with batch := s.batch, pending := s.pending }) p

/-- A procedure in a child batch, which is committed when the procedure returns a value and
discarded otherwise. -/
def inBatch (p : Proc Block Error α) : Proc Block Error α :=
  Proc.transaction Block.batch (fun db b => { b with batch := db }) p

@[simp] theorem onBatch_run (p : Proc Database Error α) (b : Block) :
    onBatch p b = ((p b.batch).1, { b with batch := (p b.batch).2 }) := rfl

@[simp] theorem onStage_run (p : Proc Stage Error α) (b : Block) :
    onStage p b = ((p ⟨b.batch, b.pending⟩).1,
      { b with batch := (p ⟨b.batch, b.pending⟩).2.batch
               pending := (p ⟨b.batch, b.pending⟩).2.pending }) := rfl

end Block

namespace Executor

variable (x : Executor)

/-! ## Signatures -/

/-- The signature was made where the principal is.  A system signature has no location. -/
def isLocalSignature (delivery : Delivery) (signature : Signature) : Outcome Error Bool :=
  if signature.isSystem then .ok false
  else do
    let location ← signature.routingLocation
    localTo location delivery.transaction.header.principal

/-- The loop over the signatures of a delivery.  The result tells whether the transaction
should be processed, or is the error a signature was rejected with; an error that is not an
`*errors.Error` is returned. -/
def processSignatures (delivery : Delivery) :
    List Signature → Bool → Proc Block Error (Except Error Bool)
  | [], shouldProcess => return .ok shouldProcess
  | signature :: rest, shouldProcess => do
      let isLocal ← Proc.lift (isLocalSignature delivery signature)
      match ← Proc.attempt (Block.onBatch (x.processSignature delivery signature)) with
      | .error e => if e.typed then return .error e else Proc.throw e
      | .ok () =>
        Proc.modify fun b => { b with state := b.state.mergeSignature }
        processSignatures delivery rest (shouldProcess || isLocal)

/-- The signatures are processed in a batch of their own, which is discarded when one of
them is rejected.  The state of the block is not part of the batch. -/
def processSignatureBatch (delivery : Delivery) : Proc Block Error (Except Error Bool) := fun b =>
  match x.processSignatures delivery delivery.signatures (!delivery.type.isUser) b with
  | (.ok (.ok shouldProcess), b') => (.ok (.ok shouldProcess), b')
  | (r, b') => (r, { b' with batch := b.batch })

/-- The status of a delivery one of whose signatures was rejected. -/
def rejectedStatus (e : Error) : TransactionStatus :=
  { TransactionStatus.new.set e with result := some .empty }

/-! ## The transaction -/

/-- Process the transaction, unless it has to be processed elsewhere.  `status` is the one
that was loaded with the transaction. -/
def processDelivery (delivery : Delivery) (status : TransactionStatus) (shouldProcess : Bool) :
    Proc Block Error (TransactionStatus × ProcessTransactionState) :=
  if delivery.wasProducedInternally ∨ shouldProcess then
    Block.inBatch (Block.onStage (x.processTransaction delivery))
  else
    return (if status.code = .unset then { status with code := .remote } else status, .new)

/-- Merge what the transaction has produced into the state of the block, and produce it in
a batch of its own.  The state of the block holds the transactions as production leaves
them, whether or not it succeeds. -/
def mergeAndProduce (source : Transaction) (state : ProcessTransactionState) :
    Proc Block Error Unit := fun b =>
  let r := x.produceSynthetic source state.producedTxns b.batch
  let merged := b.state.mergeTransaction { state with producedTxns := r.2.1 }
  match r.1 with
  | .ok () => (.ok (), { b with batch := r.2.2, state := merged })
  | .error e => (.error e.wrap, { b with state := merged })
  | .panic m => (.panic m, { b with state := merged })

/-- The second half of `executeEnvelope`, for a delivery whose signatures have been
accepted. -/
def executeSigned (delivery : Delivery) (status : TransactionStatus) (shouldProcess : Bool) :
    Proc Block Error (TransactionStatus × List Delivery) := do
  let (status, state) ← x.processDelivery delivery status shouldProcess
  let b ← Proc.get
  let state ← Proc.lift (x.processRemoteSignatures b.batch delivery state)
  x.mergeAndProduce delivery.transaction state
  return (status, state.additionalTransactions)

def executeLoaded (delivery : Delivery) (status : TransactionStatus) :
    Proc Block Error (TransactionStatus × List Delivery) := do
  let delivery ← Proc.lift ((delivery.loadSyntheticMetadata status).mapError .wrap)
  match ← x.processSignatureBatch delivery with
  | .error e => return (rejectedStatus e, [])
  | .ok shouldProcess => x.executeSigned delivery status shouldProcess

/-- The inner `executeEnvelope`: the hash of the transaction, its status and the deliveries
to be executed next.  A transaction that has been executed before gets a delivered status
whatever its outcome was. -/
def executeEnvelopeOnce (delivery : Delivery) :
    Proc Block Error (Hash × TransactionStatus × List Delivery) := do
  let b ← Proc.get
  let (delivery, status, delivered) ← Proc.lift
    ((delivery.loadTransaction x.crypto b.batch).mapError .wrap)
  let hash := x.getHash delivery.transaction
  if delivered then return (hash, { status with code := .delivered }, [])
  else
    let (status, additional) ← x.executeLoaded delivery status
    return (hash, status, additional)

/-! ## Rounds of additional deliveries -/

def executeRound : List Delivery → Proc Block Error (List Delivery)
  | [] => return []
  | delivery :: rest => do
      let (_, _, additional) ← Proc.mapError .wrap (x.executeEnvelopeOnce delivery)
      let next ← executeRound rest
      return additional ++ next

/-- Execute rounds until none is left.  `fuel` bounds the number of rounds; the source goes
on as long as there are deliveries. -/
def executeAdditional : Nat → List Delivery → Proc Block Error Unit
  | _, [] => return ()
  | 0, _ :: _ => Proc.abort "additional transactions do not end"
  | fuel + 1, deliveries => do
      let next ← x.executeRound deliveries
      executeAdditional fuel next

def recordReceived (hash : Hash) (status : TransactionStatus) :
    Proc Block Error TransactionStatus := do
  let b ← Proc.get
  if status.received = 0 then
    let status := normalizeStatus { status with received := b.index }
    Proc.mapError .wrap (Block.onBatch (putStatus hash status))
    return status
  else return status

def executeEnvelope (fuel : Nat) (delivery : Delivery) : Proc Block Error TransactionStatus :=
  if delivery.type = .systemWriteData then
    Proc.throw (.new .badRequest "a systemWriteData transaction cannot be submitted directly")
  else do
    let (hash, status, additional) ← Proc.mapError .wrap (x.executeEnvelopeOnce delivery)
    let status ← recordReceived hash status
    x.executeAdditional fuel additional
    return status

/-! ## What a delivery leaves behind -/

section Inversion

variable {x} {d : Delivery} {status₀ status : TransactionStatus} {shouldProcess : Bool}
variable {state : ProcessTransactionState} {b b' : Block}

theorem processDelivery_eq_ok
    (h : x.processDelivery d status₀ shouldProcess b = (.ok (status, state), b')) :
    ((d.wasProducedInternally = true ∨ shouldProcess = true) ∧ ∃ s',
        x.processTransaction d ⟨b.batch, b.pending⟩ = (.ok (status, state), s') ∧
        b' = { b with batch := s'.batch, pending := s'.pending }) ∨
      ¬ (d.wasProducedInternally = true ∨ shouldProcess = true) ∧ state = .new ∧ b' = b := by
  unfold processDelivery at h
  split at h
  · rename_i hprocess
    refine .inl ⟨hprocess, (x.processTransaction d ⟨b.batch, b.pending⟩).2, ?_⟩
    unfold Block.inBatch Proc.transaction at h
    rw [Block.onStage_run] at h
    match hrun : (x.processTransaction d ⟨b.batch, b.pending⟩).1 with
    | .error e | .panic m => simp [hrun] at h
    | .ok r =>
      rw [hrun] at h
      cases h
      exact ⟨Prod.ext hrun rfl, rfl⟩
  · rename_i hprocess
    cases h
    exact .inr ⟨hprocess, rfl, rfl⟩

end Inversion

end Executor

end Accumulate
