import Accumulate.Block.Delivering
import Accumulate.Block.Evidence
import Accumulate.Block.Processing
import Accumulate.Chain.DirectoryAnchor

/-!
# Anchors are executed with enough votes only

An anchor is delivered again and again, each time with the signatures of some validators of
its source, until enough of them have signed it and all the anchors before it have been
executed.  In between the validators may change, and anything else may happen to the block.

`Poll` is the state of a block together with every signature of the anchor that has been
accepted so far and the globals it was accepted under.  `anchor_executed_only_if_signed`
says that an anchor whose executor is run has the next number of its source, and that enough
different keys of validators have signed it.
-/

namespace Accumulate

open Library Protocol Database Accumulate.Core Chain

/-- An anchor: its hash, the partition that has sent it and its number there. -/
structure AnchorId where
  hash : Hash
  source : Url
  number : Nat

/-- The transaction is an anchor of the source with the number: no partition signature that
names another source or another number is its initiator. -/
structure AnchorId.Issued (a : AnchorId) (c : Crypto) (t : Transaction) : Prop where
  isAnchor : t.type.isAnchor = true
  initiator : ∀ source destination n,
    c.signatureHash (.partition source destination n 0) = t.header.initiator →
      source = some a.source ∧ n = a.number

/-- An accepted signature, with the globals that were active then. -/
structure Acceptance where
  globals : GlobalValues
  signature : Signature

/-- The state of a block and the signatures of an anchor that have been accepted. -/
structure Poll where
  block : Block
  accepted : List Acceptance

/-- The key hash belongs to an active validator of the partition. -/
def Protocol.NetworkDefinition.IsActiveValidator (n : NetworkDefinition) (partition : String)
    (keyHash : Bytes) : Prop :=
  ∃ v ∈ n.validators, v.publicKeyHash = keyHash ∧ v.isActiveOn partition = true

theorem Protocol.NetworkDefinition.isActiveValidator_of_isSome {n : NetworkDefinition}
    {partition : String} {keyHash : Bytes}
    (h : (n.activeValidator partition keyHash).isSome = true) :
    n.IsActiveValidator partition keyHash := by
  unfold activeValidator at h
  dsimp only at h
  split at h
  · rename_i v hv
    split at h
    · rename_i hactive
      refine ⟨v, List.mem_of_getElem? hv, ?_, hactive.2⟩
      have heq := hactive.1
      rw [Bytes.compare_eq] at heq
      exact Bytes.digits_injective (compare_eq_iff_eq.1 heq)
    · cases h
  · cases h

namespace Executor

variable (x : Executor)

def withActive (g : GlobalValues) : Executor := { x with active := g }

/-- The accepted signature is one of the anchor, made with the given public key, and the key
was one of an active validator of the source. -/
def VotesFor (a : AnchorId) (key : Bytes) (accepted : Acceptance) : Prop :=
  ∃ k ds partition, accepted.signature.keyChain = some (k, ds) ∧ k.publicKey = key ∧
    x.SignedFor accepted.signature k a.hash ∧ parsePartitionUrl a.source = some partition ∧
    accepted.globals.network.IsActiveValidator partition (x.crypto.keyHash k)

/-- The signatures of a delivery that are accepted when it is executed. -/
def acceptedSignatures (d : Delivery) (b : Block) : List Signature :=
  match d.loadTransaction x.crypto b.batch with
  | .ok (loaded, status, false) =>
    match loaded.loadSyntheticMetadata status with
    | .ok d' =>
      match (x.processSignatureBatch d' b).1 with
      | .ok (.ok _) => d'.signatures
      | _ => []
    | _ => []
  | _ => []

/-- When the delivery is executed, the executor of its transaction is run: the transaction
has not been executed before, its signatures are accepted, and it is ready. -/
def RunsExecutor (d : Delivery) (b : Block) : Prop :=
  ∃ loaded status d' shouldProcess b₁ u status₀ db,
    d.loadTransaction x.crypto b.batch = .ok (loaded, status, false) ∧
    loaded.loadSyntheticMetadata status = .ok d' ∧
    x.processSignatureBatch d' b = (.ok (.ok shouldProcess), b₁) ∧
    d'.transaction.header.principal = some u ∧
    x.loadStatus d'.transaction b₁.batch = (.ok status₀, db) ∧
    x.transactionIsReady db d' status₀ (db.account u).main = .ok true

/-- The delivery is one of the anchor, which may be named by its hash only, and not a forwarded
one. -/
structure Carries (a : AnchorId) (d : Delivery) : Prop where
  hash : x.getHash d.transaction = a.hash
  issued : d.transaction.type ≠ .remote → a.Issued x.crypto d.transaction
  unforwarded : d.isForwarded = false

/-- What happens to a block, seen from an anchor.

* `deliver`: the anchor is executed as an additional transaction.
* `receive`: an envelope with the anchor is executed.
* `other`: anything that leaves the record of the anchor as it is. -/
inductive PollStep (a : AnchorId) : Poll → Poll → Prop
  | deliver {p : Poll} {g : GlobalValues} {d : Delivery}
      {r : Outcome Error (Hash × TransactionStatus × List Delivery)} {b' : Block}
      (hd : x.Carries a d) (hrun : (x.withActive g).executeEnvelopeOnce d p.block = (r, b')) :
      PollStep a p ⟨b', p.accepted ++
        ((x.withActive g).acceptedSignatures d p.block).map (⟨g, ·⟩)⟩
  | receive {p : Poll} {g : GlobalValues} {d : Delivery} {hash : Hash}
      {status : TransactionStatus} {additional : List Delivery} {b₁ b' : Block}
      {r : Outcome Error TransactionStatus}
      (hd : x.Carries a d) (hrun : (x.withActive g).executeEnvelopeOnce d p.block =
        (.ok (hash, status, additional), b₁))
      (hreceived : recordReceived hash status b₁ = (r, b')) :
      PollStep a p ⟨b', p.accepted ++
        ((x.withActive g).acceptedSignatures d p.block).map (⟨g, ·⟩)⟩
  | other {p : Poll} {b' : Block}
      (hmain : (b'.batch.transaction a.hash).main = (p.block.batch.transaction a.hash).main)
      (hstatus : (b'.batch.transaction a.hash).status =
        (p.block.batch.transaction a.hash).status) :
      PollStep a p ⟨b', p.accepted⟩

/-! ## The invariant -/

/-- An anchor that has not been executed: what is stored of it was issued by its source, and
every key that is counted belongs to a vote. -/
structure OpenPoll (a : AnchorId) (db : Database) (accepted : List Acceptance) : Prop where
  stored : ∀ v t, (db.transaction a.hash).main = some v → v.transaction = some t →
    x.getHash t = a.hash ∧ a.Issued x.crypto t
  source : ∀ s, (db.evidence a.hash).sourceNetwork = some s →
    s = a.source ∧ (db.evidence a.hash).sequenceNumber = a.number
  sorted : (db.evidence a.hash).anchorSigners.Pairwise fun k l => Bytes.digits k < Bytes.digits l
  voted : ∀ key ∈ (db.evidence a.hash).anchorSigners, ∃ acc ∈ accepted, x.VotesFor a key acc

/-- The anchor has been executed, or its poll is open. -/
def PollInv (a : AnchorId) (p : Poll) : Prop :=
  (p.block.batch.transaction a.hash).status.delivered = true ∨
    x.OpenPoll a p.block.batch p.accepted

section Signatures

variable {x} {a : AnchorId} {g : GlobalValues} {d : Delivery} {db db' : Database}
variable {accepted : List Acceptance}

theorem OpenPoll.of_evidence (h : x.OpenPoll a db accepted)
    (hstored : ∀ v t, (db'.transaction a.hash).main = some v → v.transaction = some t →
      x.getHash t = a.hash ∧ a.Issued x.crypto t)
    (hsource : (db'.evidence a.hash).sourceNetwork = (db.evidence a.hash).sourceNetwork)
    (hnumber : (db'.evidence a.hash).sequenceNumber = (db.evidence a.hash).sequenceNumber)
    (hsigners : (db'.evidence a.hash).anchorSigners = (db.evidence a.hash).anchorSigners) :
    x.OpenPoll a db' accepted := by
  refine ⟨hstored, ?_, ?_, ?_⟩
  · rw [hsource, hnumber]
    exact h.source
  · rw [hsigners]
    exact h.sorted
  · rw [hsigners]
    exact h.voted

theorem OpenPoll.congr (h : x.OpenPoll a db accepted)
    (hmain : (db'.transaction a.hash).main = (db.transaction a.hash).main)
    (hevidence : db'.evidence a.hash = db.evidence a.hash) : x.OpenPoll a db' accepted := by
  refine h.of_evidence ?_ (by rw [hevidence]) (by rw [hevidence]) (by rw [hevidence])
  rw [hmain]
  exact h.stored

theorem sorted_upsert {l : List Bytes}
    (h : l.Pairwise fun k l => Bytes.digits k < Bytes.digits l) (key : Bytes) :
    (upsert l (fun k => compare k key) key).1.Pairwise
      fun k l => Bytes.digits k < Bytes.digits l := by
  rw [upsert_congr fun k _ => Bytes.compare_eq k key]
  exact pairwise_upsert h rfl

theorem type_of_isAnchor {t : TransactionType} (h : t.isAnchor = true) :
    t.isUser = false ∧ t.isSynthetic = false ∧ t.isSystem = true ∧ t.isUnsequenced = false := by
  cases t with
  | directoryAnchor | blockValidatorAnchor => decide
  | _ => cases h

/-- An accepted signature is one more acceptance.  A partition signature that is accepted
names the source and the number of the anchor. -/
theorem OpenPoll.signature {s : Signature} (h : x.OpenPoll a db accepted)
    (hhash : x.getHash d.transaction = a.hash) (hissued : a.Issued x.crypto d.transaction)
    (hforwarded : d.isForwarded = false)
    (hrun : (x.withActive g).processSignature d s db = (.ok (), db')) :
    x.OpenPoll a db' (accepted ++ [⟨g, s⟩]) ∧ db'.account = db.account ∧
      (db'.evidence a.hash).code = (db.evidence a.hash).code ∧
      ∀ source destination n hash, s = .partition source destination n hash →
        source = some a.source ∧ n = a.number := by
  have huser : d.type.isUser = false := (type_of_isAnchor hissued.isAnchor).1
  obtain ⟨hrecorded, md, hmd, hattests⟩ := processSignature_attests huser hforwarded hrun
  have hhash' : (x.withActive g).getHash d.transaction = a.hash := hhash
  rw [hhash'] at hattests
  have hstored : ∀ v t, (db'.transaction a.hash).main = some v → v.transaction = some t →
      x.getHash t = a.hash ∧ a.Issued x.crypto t := by
    intro v t hv ht
    rcases hrecorded.main a.hash v hv with hold | hnone | ⟨-, hself⟩
    · exact h.stored v t hold ht
    · rw [hnone] at ht
      cases ht
    · rw [hself] at ht
      cases ht
      exact ⟨hhash, hissued⟩
  have hvoted : ∀ key ∈ (db.evidence a.hash).anchorSigners,
      ∃ acc ∈ accepted ++ [⟨g, s⟩], x.VotesFor a key acc := by
    intro key hkey
    obtain ⟨acc, hacc, hvotes⟩ := h.voted key hkey
    exact ⟨acc, List.mem_append_left _ hacc, hvotes⟩
  have hopen : ∀ {e : Evidence}, db'.evidence a.hash = e →
      (∀ s, e.sourceNetwork = some s → s = a.source ∧ e.sequenceNumber = a.number) →
      e.anchorSigners.Pairwise (fun k l => Bytes.digits k < Bytes.digits l) →
      (∀ key ∈ e.anchorSigners, ∃ acc ∈ accepted ++ [⟨g, s⟩], x.VotesFor a key acc) →
      x.OpenPoll a db' (accepted ++ [⟨g, s⟩]) := by
    rintro e rfl hsource hsorted hvoted
    exact ⟨hstored, hsource, hsorted, hvoted⟩
  refine ⟨?_, hrecorded.account, hattests.code, ?_⟩
  · have hsource := h.source
    have hsorted := h.sorted
    generalize db.evidence a.hash = e at hattests hsource hsorted hvoted
    generalize hnew : db'.evidence a.hash = e' at hattests
    cases hattests with
    | partition hnested hinitiator =>
      have hpartition := hissued.initiator _ _ _ (signatureMetadata_partition hmd hinitiator)
      refine hopen hnew (fun s hs => ?_) hsorted hvoted
      exact ⟨Option.some.inj (hs.symm.trans hpartition.1), hpartition.2⟩
    | receipt hnested hvalid hmerge
    | internal hnested hinternal => exact hopen hnew hsource hsorted hvoted
    | @vote _ k ds _ source partition hchain hnetwork hpartition hactive hverified =>
      have hanchor : d.type.isAnchor = true := hissued.isAnchor
      rw [if_pos hanchor] at hnew
      refine hopen hnew hsource (sorted_upsert hsorted _) fun key hkey => ?_
      rcases mem_upsert hkey with rfl | hold
      · have hsigned := hverified (signatureMetadata_eq_ok hmd).1
        rw [hhash'] at hsigned
        refine ⟨⟨g, s⟩, List.mem_append_right _ List.mem_cons_self, k, ds, partition, hchain, rfl,
          hsigned, ?_, NetworkDefinition.isActiveValidator_of_isSome hactive⟩
        rw [← (hsource source hnetwork).1]
        exact hpartition
      · exact hvoted key hold
  · rintro source destination n hash rfl
    generalize db.evidence a.hash = e at hattests
    generalize db'.evidence a.hash = e' at hattests
    cases hattests with
    | partition hnested hinitiator =>
      exact hissued.initiator _ _ _ (signatureMetadata_partition hmd hinitiator)
    | vote hchain => cases hchain

theorem OpenPoll.signatures {l : List Signature} {p q : Bool} {b b' : Block}
    (h : x.OpenPoll a b.batch accepted) (hhash : x.getHash d.transaction = a.hash)
    (hissued : a.Issued x.crypto d.transaction) (hforwarded : d.isForwarded = false)
    (hrun : (x.withActive g).processSignatures d l p b = (.ok (.ok q), b')) :
    x.OpenPoll a b'.batch (accepted ++ l.map (⟨g, ·⟩)) ∧ b'.batch.account = b.batch.account ∧
      (b'.batch.evidence a.hash).code = (b.batch.evidence a.hash).code ∧
      (p = true → q = true) ∧ ∀ source destination n hash,
        .partition source destination n hash ∈ l → source = some a.source ∧ n = a.number := by
  induction l generalizing p b accepted with
  | nil =>
    cases hrun
    refine ⟨by simpa using h, rfl, rfl, id, fun _ _ _ _ hmem => ?_⟩
    exact absurd hmem List.not_mem_nil
  | cons s rest ih =>
    obtain ⟨isLocal, db₁, -, hprocess, hrun⟩ := processSignatures_cons_eq_ok hrun
    obtain ⟨hopen, haccount, hcode, hpartition⟩ := h.signature hhash hissued hforwarded hprocess
    obtain ⟨hrest, haccounts, hcodes, hlocal, hpartitions⟩ := ih hopen hrun
    refine ⟨?_, haccounts.trans haccount, hcodes.trans hcode, ?_, ?_⟩
    · rw [List.append_assoc] at hrest
      exact hrest
    · rintro rfl
      exact hlocal rfl
    intro source destination n hash hmem
    rcases List.mem_cons.1 hmem with rfl | hmem
    · exact hpartition source destination n hash rfl
    · exact hpartitions source destination n hash hmem

end Signatures

/-! ## The transaction -/

section Records

variable {x} {d : Delivery} {u : Url} {db db' : Database} {status : TransactionStatus}
variable {state state' : ProcessTransactionState}

theorem loadStatus_evidence (h : x.loadStatus d.transaction db = (.ok status, db')) :
    db'.evidence (x.getHash d.transaction) = db.evidence (x.getHash d.transaction) ∧
      status.evidence = db.evidence (x.getHash d.transaction) := by
  rcases loadStatus_cases h with ⟨rfl, rfl⟩ | ⟨hstatus, rfl⟩
  · exact ⟨rfl, rfl⟩
  · rw [evidence_setStatus, hstatus]
    exact ⟨rfl, rfl⟩

end Records

/-- Anchors are executed by the executors of `internal/chain`. -/
structure RunsAnchors : Prop where
  partition : x.executors .blockValidatorAnchor =
    some (PartitionAnchor.executor x.crypto x.describe)
  directory : x.executors .directoryAnchor = some (DirectoryAnchor.executor x.crypto x.describe)

section Transaction

variable {x} {a : AnchorId} {g : GlobalValues} {d : Delivery} {accepted : List Acceptance}

theorem RunsAnchors.executor (h : x.RunsAnchors) {t : TransactionType} (ht : t.isAnchor = true) :
    ∃ e, x.executors t = some e ∧ e.didFail = none ∧
      ∀ d, Proc.Keeps StateManager.SameTransactions (e.execute d) := by
  cases t with
  | blockValidatorAnchor =>
    exact ⟨_, h.partition, rfl, PartitionAnchor.keeps_sameTransactions_execute _ _⟩
  | directoryAnchor =>
    exact ⟨_, h.directory, rfl, DirectoryAnchor.keeps_sameTransactions_execute _ _⟩
  | _ => cases ht

theorem origin_of_isAnchor {body : TransactionBody} (h : body.type.isAnchor = true) :
    body.origin = none := by
  cases body with
  | payload p => cases p <;> first | rfl | cases h
  | directoryAnchor => rfl
  | syntheticForwardTransaction => rfl

variable {state : ProcessTransactionState} {u : Url} {db : Database} {status : TransactionStatus}

theorem recordFailedTransaction_anchor (hx : x.RunsAnchors) (hanchor : d.type.isAnchor = true)
    {e : Error} {db' : Database}
    (h : x.recordFailedTransaction d u e db = (.ok (status, state), db')) :
    state.producedTxns = [] := by
  obtain ⟨state₁, state₂, db₁, r, hrecord, hfail, -, hrefund, rfl⟩ :=
    recordFailedTransaction_eq_ok h
  have hproduced : state₁.producedTxns = [] := x.recordTransaction_producedTxns hrecord
  obtain ⟨executor, hexecutor, hdid, -⟩ := hx.executor hanchor
  have hnone : (x.executors d.type).bind (·.didFail) = none := by
    rw [hexecutor]
    exact hdid
  rw [hnone] at hfail
  have horigin : originRefund d.transaction.body state₁ = state₁ := by
    unfold originRefund
    rw [origin_of_isAnchor hanchor]
  have hstate : state₁ = state₂ := horigin.symm.trans hfail
  have hr : r = none := by
    unfold failureRefund at hrefund
    rw [(type_of_isAnchor hanchor).1] at hrefund
    split at hrefund
    · cases hrefund
      rfl
    · cases hrefund
      rfl
  rw [hr, ← hstate]
  exact hproduced

theorem executeStages_anchor (hx : x.RunsAnchors) (hanchor : d.type.isAnchor = true)
    {status₀ : TransactionStatus} {pending : GlobalValues} {s₂ : Stage}
    {principal : Option Account} {result : Option TransactionResult}
    (h : x.executeStages d status₀ principal u ⟨db, pending⟩ = (.ok (result, state), s₂)) :
    state.producedTxns = [] := by
  obtain ⟨st₀, st, hrun, hops, -, rfl, -⟩ := executeStages_eq_ok h
  obtain ⟨executor, hexecutor, hexecute⟩ := x.runExecutor_eq_ok hrun
  obtain ⟨executor', hexecutor', -, hkeeps⟩ := hx.executor hanchor
  obtain rfl := Option.some.inj (hexecutor.symm.trans hexecutor')
  have hsame := trans_of StateManager.SameTransactions ((hkeeps _).run hexecute)
    ((StateManager.keeps_sameTransactions_executeOperations x.crypto _).run hops)
  exact hsame.produced

/-- **Processing an anchor.**  It waits, and its poll stays open, or it is done with. -/
theorem OpenPoll.transaction {s s' : Stage} (h : x.OpenPoll a s.batch accepted) (hx : x.RunsAnchors)
    (hhash : x.getHash d.transaction = a.hash) (hissued : a.Issued x.crypto d.transaction)
    (hrun : (x.withActive g).processTransaction d s = (.ok (status, state), s')) :
    state.producedTxns = [] ∧
      (status.delivered = true ∧ (s'.batch.transaction a.hash).status.delivered = true ∨
        x.OpenPoll a s'.batch accepted ∧ status.evidence = s'.batch.evidence a.hash) := by
  have hanchor : d.type.isAnchor = true := hissued.isAnchor
  have hx' : (x.withActive g).RunsAnchors := ⟨hx.partition, hx.directory⟩
  have hhash' : (x.withActive g).getHash d.transaction = a.hash := hhash
  -- loading the status may give it an ID
  have hloaded : ∀ {status₀ : TransactionStatus} {db : Database},
      (x.withActive g).loadStatus d.transaction s.batch = (.ok status₀, db) →
        x.OpenPoll a db accepted ∧ status₀.evidence = db.evidence a.hash := by
    intro status₀ db hload
    obtain ⟨hevidence, hstatus⟩ := loadStatus_evidence hload
    rw [hhash'] at hevidence hstatus
    exact ⟨h.congr ((loadStatus_eq_ok hload).2 a.hash).1 hevidence, hstatus.trans hevidence.symm⟩
  -- what has failed has been delivered
  have hfailed : ∀ {u : Url} {e : Error} {db db' : Database}, e.Failing →
      (x.withActive g).recordFailedTransaction d u e db = (.ok (status, state), db') →
        state.producedTxns = [] ∧ status.delivered = true ∧
          (db'.transaction a.hash).status.delivered = true := by
    intro u e db db' he hrecord
    have hdelivered : status.delivered = true := by
      rw [TransactionStatus.delivered, recordFailedTransaction_status he hrecord, Bool.or_true]
    refine ⟨recordFailedTransaction_anchor hx' hanchor hrecord, hdelivered, ?_⟩
    have hrecorded := recordFailedTransaction_record hrecord
    rw [hhash'] at hrecorded
    rw [hrecorded, hdelivered]
  cases (x.withActive g).processTransaction_processing hrun with
  | repeated hp hload hready he => exact ⟨rfl, .inr (hloaded hload)⟩
  | @waiting u status₀ _ db db' _ hp hload hready hrecord =>
    refine ⟨(recordPendingTransaction_status hrecord).2, .inr ?_⟩
    obtain ⟨hstatus, hmain, hrecorded⟩ := recordPendingTransaction_record hrecord
    rw [hhash'] at hstatus hmain
    have hevidence : status.evidence = db'.evidence a.hash := by
      rw [evidence, hstatus]
    have hsame : status.evidence = { db.evidence a.hash with code := .pending } := by
      rw [hrecorded, recordedStatus, hhash']
      rfl
    refine ⟨(hloaded hload).1.of_evidence (fun v t hv ht => ?_) ?_ ?_ ?_, hevidence⟩
    · rw [hmain] at hv
      cases hv
      cases ht
      exact ⟨hhash, hissued⟩
    · rw [← hevidence, hsame]
    · rw [← hevidence, hsame]
    · rw [← hevidence, hsame]
  | refused hp hload hready he hnew hrecord | failed hp hload hready hexec he hrecord =>
    obtain ⟨hproduced, hdelivered⟩ := hfailed he hrecord
    exact ⟨hproduced, .inl hdelivered⟩
  | executed hp hload hready hexec hrecord =>
    have hdelivered : status.delivered = true := by
      rw [TransactionStatus.delivered, recordSuccessfulTransaction_status hrecord]
      rfl
    refine ⟨?_, .inl ⟨hdelivered, ?_⟩⟩
    · rw [recordSuccessfulTransaction_producedTxns _ hrecord,
        executeStages_anchor hx' hanchor hexec]
    · have hrecorded := recordSuccessfulTransaction_record hrecord
      rw [hhash'] at hrecorded
      rw [hrecorded, hdelivered]

end Transaction

/-! ## Deliveries -/

section Deliveries

variable {x} {a : AnchorId} {g : GlobalValues} {d loaded : Delivery} {b b' : Block}
variable {accepted : List Acceptance} {status : TransactionStatus}

variable {db : Database} {delivered : Bool} {hash : Hash} {p : Poll} {c : Crypto}
  {r : Outcome Error TransactionStatus}

theorem OpenPoll.append (h : x.OpenPoll a db accepted) (l : List Acceptance) :
    x.OpenPoll a db (accepted ++ l) := by
  refine ⟨h.stored, h.source, h.sorted, fun key hkey => ?_⟩
  obtain ⟨acc, hacc, hvotes⟩ := h.voted key hkey
  exact ⟨acc, List.mem_append_left l hacc, hvotes⟩

theorem PollInv.append (h : x.PollInv a ⟨b, accepted⟩) (l : List Acceptance)
    (hbatch : b'.batch = b.batch) : x.PollInv a ⟨b', accepted ++ l⟩ := by
  unfold PollInv at h ⊢
  rw [hbatch]
  exact h.imp id fun hopen => hopen.append l

/-- The metadata of a sequenced delivery come from its first signature or from the status. -/
theorem loadSyntheticMetadata_eq_ok {d' : Delivery} (h : d.loadSyntheticMetadata status = .ok d') :
    d'.transaction = d.transaction ∧ d'.signatures = d.signatures ∧
      d'.isForwarded = d.isForwarded ∧
      (d.type.isUser = false → d.type.isUnsequenced = false →
        (∃ destination n hash, .partition d'.sourceNetwork destination n hash ∈ d.signatures) ∨
          d'.sourceNetwork = status.sourceNetwork) := by
  unfold Delivery.loadSyntheticMetadata at h
  split at h
  · rename_i hkind
    cases h
    refine ⟨rfl, rfl, rfl, fun huser hsequenced => ?_⟩
    rcases hkind with hkind | hkind
    · rw [huser] at hkind
      cases hkind
    · rw [hsequenced] at hkind
      cases hkind
  · split at h
    · rename_i source destination n hash rest hsignatures
      cases h
      refine ⟨rfl, rfl, rfl, fun _ _ => .inl ⟨destination, n, hash, ?_⟩⟩
      rw [hsignatures]
      exact List.mem_cons_self
    · split at h
      · cases h
      · cases h
        exact ⟨rfl, rfl, rfl, fun _ _ => .inr rfl⟩

theorem recordReceived_batch (h : recordReceived hash status b = (r, b')) :
    b'.batch = b.batch ∨ ∃ n, b'.batch = b.batch.setStatus hash { status with received := n } := by
  unfold recordReceived at h
  rw [Proc.get_bind_run] at h
  split at h
  · right
    refine ⟨b.index, ?_⟩
    rcases Proc.bind_cases h with ⟨_, b₁, hrun, h⟩ | ⟨-, -, rfl⟩
    · cases h
      obtain ⟨-, rfl⟩ := Prod.mk.inj hrun
      exact putStatus_snd _
    · exact putStatus_snd _
  · cases h
    exact .inl rfl

theorem PollInv.receive (h : x.PollInv a ⟨b, accepted⟩)
    (hstatus : hash = a.hash → status.delivered = true ∨ status.evidence = b.batch.evidence a.hash)
    (hrun : recordReceived hash status b = (r, b')) : x.PollInv a ⟨b', accepted⟩ := by
  unfold PollInv at h ⊢
  rcases recordReceived_batch hrun with hbatch | ⟨n, hbatch⟩
  · rw [hbatch]
    exact h
  rw [hbatch]
  by_cases hhash : hash = a.hash
  · subst hhash
    rw [setStatus_status_self]
    rcases hstatus rfl with hdelivered | hevidence
    · exact .inl hdelivered
    refine h.imp (fun hdelivered => ?_) fun hopen => ?_
    · have hcode : status.code = (b.batch.transaction a.hash).status.code :=
        congrArg Evidence.code hevidence
      rw [TransactionStatus.delivered, TransactionStatus.failed] at hdelivered ⊢
      rw [← hcode] at hdelivered
      exact hdelivered
    · have hsame : (b.batch.setStatus a.hash { status with received := n }).evidence a.hash =
          b.batch.evidence a.hash := by
        rw [evidence_setStatus, ← hevidence]
        rfl
      exact hopen.congr (setStatus_main _ _ _ _) hsame
  · have hother : ((b.batch.setStatus hash { status with received := n }).transaction a.hash) =
        b.batch.transaction a.hash :=
      updateTransaction_transaction_of_ne _ _ _ _ (Ne.symm hhash)
    refine h.imp (fun hdelivered => by rwa [hother]) fun hopen => ?_
    have hsame : (b.batch.setStatus hash { status with received := n }).evidence a.hash =
        b.batch.evidence a.hash := by
      rw [evidence, hother, evidence]
    exact hopen.congr (by rw [hother]) hsame

section Delivery

variable (hx : x.RunsAnchors) (hd : x.Carries a d)

include hd

theorem PollInv.openPoll (h : x.PollInv a ⟨b, accepted⟩)
    (hload : d.loadTransaction x.crypto b.batch = .ok (loaded, status, false)) :
    x.OpenPoll a b.batch accepted := by
  refine h.resolve_left fun hdelivered => ?_
  obtain ⟨⟨hstatus, hfalse⟩, -⟩ := Delivery.loadTransaction_cases hload
  have hcrypto : x.crypto.getHash d.transaction = a.hash := hd.hash
  rw [hcrypto] at hstatus
  rw [hstatus, hdelivered] at hfalse
  cases hfalse

theorem OpenPoll.load (h : x.OpenPoll a db accepted)
    (hload : d.loadTransaction x.crypto db = .ok (loaded, status, delivered)) :
    x.getHash loaded.transaction = a.hash ∧ a.Issued x.crypto loaded.transaction ∧
      loaded.isForwarded = d.isForwarded := by
  obtain ⟨-, ⟨hremote, rfl⟩ | ⟨v, t, hmain, ht, rfl⟩⟩ := Delivery.loadTransaction_cases hload
  · exact ⟨hd.hash, hd.issued hremote, rfl⟩
  · have hhash' : x.crypto.getHash d.transaction = a.hash := hd.hash
    rw [hhash'] at hmain
    obtain ⟨hstored, hissued⟩ := h.stored v t hmain ht
    exact ⟨hstored, hissued, rfl⟩

theorem OpenPoll.signed {d' : Delivery} {shouldProcess : Bool} {b₁ : Block}
    (h : x.OpenPoll a b.batch accepted)
    (hload : d.loadTransaction x.crypto b.batch = .ok (loaded, status, false))
    (hmetadata : loaded.loadSyntheticMetadata status = .ok d')
    (hsignatures : (x.withActive g).processSignatureBatch d' b = (.ok (.ok shouldProcess), b₁)) :
    x.getHash d'.transaction = a.hash ∧ a.Issued x.crypto d'.transaction ∧
      shouldProcess = true ∧ b₁.batch.account = b.batch.account ∧
      (b₁.batch.evidence a.hash).code = (b.batch.evidence a.hash).code ∧
      (∀ s, d'.sourceNetwork = some s → s = a.source) ∧
      x.OpenPoll a b₁.batch (accepted ++
        ((x.withActive g).acceptedSignatures d b).map (⟨g, ·⟩)) := by
  obtain ⟨hhash₁, hissued₁, hforwarded₁⟩ := h.load hd hload
  obtain ⟨htransaction, hsigs, hforwarded₂, hsource⟩ := loadSyntheticMetadata_eq_ok hmetadata
  have hhash' : x.getHash d'.transaction = a.hash := by rw [htransaction, hhash₁]
  have hissued : a.Issued x.crypto d'.transaction := by rwa [htransaction]
  have hkind := type_of_isAnchor hissued₁.isAnchor
  have huser : d'.type.isUser = false := (type_of_isAnchor hissued.isAnchor).1
  have hforwarded' : d'.isForwarded = false := by rw [hforwarded₂, hforwarded₁, hd.unforwarded]
  have haccepted : (x.withActive g).acceptedSignatures d b = d'.signatures := by
    unfold acceptedSignatures
    have hload' : d.loadTransaction (x.withActive g).crypto b.batch =
      .ok (loaded, status, false) := hload
    simp only [hload', hmetadata, hsignatures]
  have hrun := processSignatureBatch_eq_ok hsignatures
  rw [huser] at hrun
  obtain ⟨hopen, haccount, hcode, hlocal, hpartitions⟩ :=
    h.signatures hhash' hissued hforwarded' hrun
  rw [haccepted]
  refine ⟨hhash', hissued, hlocal rfl, haccount, hcode, fun s hs => ?_, hopen⟩
  rcases hsource hkind.1 hkind.2.2.2 with ⟨destination, n, hash, hmem⟩ | hstatus
  · rw [← hsigs] at hmem
    have hnamed := (hpartitions _ destination n hash hmem).1
    rw [hs] at hnamed
    exact Option.some.inj hnamed
  · have hloaded := (Delivery.loadTransaction_cases hload).1.1
    have hhash₀ : x.crypto.getHash d.transaction = a.hash := hd.hash
    rw [hhash₀] at hloaded
    apply (h.source s _).1
    rw [evidence, ← hloaded]
    exact hstatus.symm.trans hs

theorem OpenPoll.runsExecutor {additional : List Delivery} (h : x.OpenPoll a b.batch accepted)
    (hfresh : (b.batch.transaction a.hash).status.delivered = false)
    (hrun : (x.withActive g).executeEnvelopeOnce d b = (.ok (hash, status, additional), b'))
    (hcode : status.code = .delivered) : (x.withActive g).RunsExecutor d b := by
  generalize hr : Outcome.ok (hash, status, additional) = r at hrun
  cases executeEnvelopeOnce_delivering hrun with
  | stopped hstop hsame => exact absurd hr.symm (hstop _)
  | repeated hload =>
    obtain ⟨⟨hstatus, htrue⟩, -⟩ := Delivery.loadTransaction_cases hload
    have hcrypto : (x.withActive g).crypto.getHash d.transaction = a.hash := hd.hash
    rw [hcrypto] at hstatus
    rw [hstatus, hfresh] at htrue
    cases htrue
  | rejected hload hmetadata hsignatures he hsame =>
    cases hr
    have hfailed : (TransactionStatus.new.set _).failed = true :=
      TransactionStatus.set_failed he.code
    exact absurd hcode (TransactionStatus.code_ne_delivered hfailed)
  | signed hload hmetadata hsignatures hexecute =>
    obtain ⟨v, hv, hvalue⟩ := Outcome.bind_eq_ok.1 hr.symm
    cases hvalue
    obtain ⟨hhash₁, -, rfl, -, hsame, -, -⟩ :=
      h.signed hd hload hmetadata hsignatures
    cases hexecute with
    | stopped hstop hsame | unforwarded _ _ hstop
    | unproduced _ _ _ _ hstop => exact absurd hv (hstop _)
    | executed hprocess hremote hproduce =>
      cases hv
      rcases processDelivery_eq_ok hprocess with ⟨-, s', htransaction, -⟩ | ⟨hnot, -, -⟩
      · cases (x.withActive g).processTransaction_processing htransaction with
        | repeated hp hstatus hready he =>
          -- neither the signatures nor loading the status change its code
          have hloaded := (loadStatus_evidence hstatus).2
          have hhash' : (x.withActive g).getHash _ = a.hash := hhash₁
          rw [hhash'] at hloaded
          have hsame' : status.code = (b.batch.transaction a.hash).status.code :=
            (congrArg Evidence.code hloaded).trans hsame
          rw [hcode] at hsame'
          rw [TransactionStatus.delivered, ← hsame'] at hfresh
          cases hfresh
        | waiting hp hstatus hready hrecord =>
          rw [(recordPendingTransaction_status hrecord).1] at hcode
          cases hcode
        | refused hp hstatus hready he hnew hrecord | failed hp hstatus hready hexec he hrecord =>
          exact absurd hcode
            (TransactionStatus.code_ne_delivered (recordFailedTransaction_status he hrecord))
        | executed hp hstatus hready hexec hrecord =>
          exact ⟨_, _, _, _, _, _, _, _, hload, hmetadata, hsignatures, hp, hstatus, hready⟩
      · exact absurd (.inr rfl) hnot

include hx

/-- **One delivery of an anchor.**  The status that is returned for the anchor is a final one
or the one that is stored. -/
theorem PollInv.deliver {r : Outcome Error (Hash × TransactionStatus × List Delivery)}
    (h : x.PollInv a ⟨b, accepted⟩)
    (hrun : (x.withActive g).executeEnvelopeOnce d b = (r, b')) :
    x.PollInv a ⟨b', accepted ++ ((x.withActive g).acceptedSignatures d b).map (⟨g, ·⟩)⟩ ∧
      ∀ v, r = .ok v → v.1 = a.hash →
        v.2.1.delivered = true ∨ v.2.1.evidence = b'.batch.evidence a.hash := by
  cases executeEnvelopeOnce_delivering hrun with
  | stopped hr hsame =>
    exact ⟨h.append _ hsame.1, fun v hv => absurd hv (hr v)⟩
  | repeated hload =>
    refine ⟨h.append _ rfl, ?_⟩
    rintro v hv -
    cases hv
    exact .inl rfl
  | rejected hload hmetadata hsignatures he hsame =>
    refine ⟨h.append _ hsame.1, ?_⟩
    rintro v hv -
    cases hv
    left
    have hfailed : (TransactionStatus.new.set _).failed = true :=
      TransactionStatus.set_failed he.code
    exact Bool.or_eq_true_iff.2 (.inr hfailed)
  | @signed loaded d' status shouldProcess b₁ _ r₁ hload hmetadata hsignatures hexecute =>
    obtain ⟨hhash₁, hissued, rfl, -, -, -, hopen₁⟩ :=
      (h.openPoll hd hload).signed hd hload hmetadata hsignatures
    have huser : d'.type.isUser = false := (type_of_isAnchor hissued.isAnchor).1
    have hnone : ∀ db state, (x.withActive g).processRemoteSignatures db d' state = .ok state := by
      intro db state
      exact if_pos (.inl (by rw [huser]; rfl))
    cases hexecute with
    | stopped hr hsame =>
      refine ⟨.inr ?_, fun v hv => ?_⟩
      · rw [hsame.1]
        exact hopen₁
      · obtain ⟨w, hw, -⟩ := Outcome.bind_eq_ok.1 hv
        exact absurd hw (hr w)
    | unforwarded hprocess hremote hr =>
      exact absurd (hnone _ _) (hremote _)
    | unproduced hprocess hremote hproduce ho hr =>
      cases (hnone _ _).symm.trans hremote
      rcases processDelivery_eq_ok hprocess with ⟨-, s', htransaction, -⟩ | ⟨hnot, -, -⟩
      · have hproduced := (hopen₁.transaction hx hhash₁ hissued htransaction).1
        rw [hproduced] at hproduce
        cases hproduce
        exact absurd rfl ho
      · exact absurd (.inr rfl) hnot
    | @executed status' state state' b₂ produced db hprocess hremote hproduce =>
      cases (hnone _ _).symm.trans hremote
      rcases processDelivery_eq_ok hprocess with ⟨-, s', htransaction, rfl⟩ | ⟨hnot, -, -⟩
      · obtain ⟨hproduced, hafter⟩ := hopen₁.transaction hx hhash₁ hissued htransaction
        rw [hproduced] at hproduce
        cases hproduce
        refine ⟨hafter.imp And.right And.left, ?_⟩
        rintro v hv -
        cases hv
        exact hafter.imp And.left And.right
      · exact absurd (.inr rfl) hnot

end Delivery

theorem PollInv.step {p' : Poll} (h : x.PollInv a p) (hx : x.RunsAnchors)
    (hstep : x.PollStep a p p') : x.PollInv a p' := by
  cases hstep with
  | deliver hd hrun => exact (h.deliver hx hd hrun).1
  | receive hd hrun hreceived =>
    obtain ⟨hinv, hstatus⟩ := h.deliver hx hd hrun
    exact hinv.receive (hstatus _ rfl) hreceived
  | other hmain hstatus =>
    unfold PollInv at h ⊢
    rw [hstatus]
    exact h.imp id fun hopen => hopen.congr hmain (congrArg TransactionStatus.evidence hstatus)

theorem pollInv_of_run {b₀ : Block} (hx : x.RunsAnchors)
    (hnew : b₀.batch.transaction a.hash = .empty)
    (hrun : Relation.ReflTransGen (x.PollStep a) ⟨b₀, []⟩ p) : x.PollInv a p := by
  induction hrun with
  | refl =>
    right
    refine ⟨fun v t hv => ?_, fun s hs => ?_, ?_, fun key hkey => ?_⟩
    · rw [hnew] at hv
      cases hv
    · rw [evidence, hnew] at hs
      cases hs
    · rw [evidence, hnew]
      exact List.Pairwise.nil
    · rw [evidence, hnew] at hkey
      cases hkey
  | tail _ hstep ih => exact ih.step hx hstep

end Deliveries

/-! ## Execution -/

section Execution

variable {x} {a : AnchorId} {g : GlobalValues} {d : Delivery} {b b' : Block}
  {status : TransactionStatus}

theorem systemTransactionIsReady_eq_true {db : Database}
    {principal : Option Account} (hsequenced : d.type.isUnsequenced = false)
    (h : x.systemTransactionIsReady db d status principal = .ok true) :
    ∃ source partition ledger source', status.sourceNetwork = some source ∧
      parsePartitionUrl source = some partition ∧
      x.validatorThreshold partition ≤ status.anchorSigners.length ∧
      db.getStateAs x.describe.anchorPool asAnchorLedger = .ok ledger ∧
      d.sourceNetwork = some source' ∧
      (partitionLedger ledger.exchange source').delivered + 1 = status.sequenceNumber := by
  unfold systemTransactionIsReady at h
  rw [hsequenced, if_neg Bool.false_ne_true] at h
  split at h
  · cases h
  rename_i source hsource
  split at h
  · cases h
  rename_i partition hpartition
  split at h
  · cases h
  rename_i hthreshold
  split at h
  · cases h
  · cases h
  rename_i ledger hledger
  split at h
  · cases h
  rename_i source' hsource'
  split at h
  · cases h
  · rename_i hnumber
    exact ⟨source, partition, ledger, source', hsource, hpartition,
      Nat.le_of_not_lt hthreshold, hledger, hsource', not_not.1 hnumber⟩

/-- **An anchor is executed with enough votes only.**  Whatever envelopes and additional
deliveries of the anchor have been executed, outside of forwarded transactions, and whatever
has happened in between: when the executor of the anchor is run, its number is the next one
of its source in the anchor ledger, and at least as many different public keys as the
threshold asks for have signed it, each of them the key of an active validator of the source
at the time its signature was accepted.  What is delivered under the hash of the anchor is the
anchor: no other transaction of the run has its hash. -/
theorem anchor_executed_only_if_signed {b₀ : Block} {p : Poll} (hx : x.RunsAnchors)
    (hnew : b₀.batch.transaction a.hash = .empty)
    (hrun : Relation.ReflTransGen (x.PollStep a) ⟨b₀, []⟩ p)
    (hd : x.Carries a d) (hexec : (x.withActive g).RunsExecutor d p.block) :
    ∃ ledger partition, ∃ keys : List Bytes,
      p.block.batch.getStateAs x.describe.anchorPool asAnchorLedger = .ok ledger ∧
      (partitionLedger ledger.exchange a.source).delivered + 1 = a.number ∧
      parsePartitionUrl a.source = some partition ∧
      (x.withActive g).validatorThreshold partition ≤ keys.length ∧ keys.Nodup ∧
      ∀ key ∈ keys, ∃ acc ∈ p.accepted ++
        ((x.withActive g).acceptedSignatures d p.block).map (⟨g, ·⟩), x.VotesFor a key acc := by
  obtain ⟨loaded, status, d', shouldProcess, b₁, u, status₀, db, hload, hmetadata, hsignatures,
    hp, hstatus, hready⟩ := hexec
  have hopen := (pollInv_of_run hx hnew hrun).openPoll hd hload
  obtain ⟨hhash₁, hissued, -, haccount, -, hsource, hopen₁⟩ :=
    hopen.signed hd hload hmetadata hsignatures
  obtain ⟨huser, hsynthetic, -, hsequenced⟩ := type_of_isAnchor hissued.isAnchor
  -- the readiness that was checked is that of a system transaction
  have hsystem : (x.withActive g).systemTransactionIsReady db d' status₀ (db.account u).main =
      .ok true := by
    unfold transactionIsReady at hready
    have huser' : d'.type.isUser = false := huser
    have hsynthetic' : d'.type.isSynthetic = false := hsynthetic
    simp only [huser', hsynthetic'] at hready
    split at hready
    · cases hready
    · exact hready
  obtain ⟨source, partition, ledger, source', hnetwork, hpartition, hthreshold, hledger, hnamed,
    hnumber⟩ := systemTransactionIsReady_eq_true hsequenced hsystem
  have hevidence := (loadStatus_evidence hstatus).2
  have hhash' : (x.withActive g).getHash d'.transaction = a.hash := hhash₁
  rw [hhash'] at hevidence
  have hsigners : status₀.anchorSigners = (b₁.batch.evidence a.hash).anchorSigners :=
    congrArg Evidence.anchorSigners hevidence
  have hnetwork₁ : (b₁.batch.evidence a.hash).sourceNetwork = some source :=
    (congrArg Evidence.sourceNetwork hevidence).symm.trans hnetwork
  have hnumber₁ : status₀.sequenceNumber = (b₁.batch.evidence a.hash).sequenceNumber :=
    congrArg Evidence.sequenceNumber hevidence
  obtain ⟨rfl, hsequence⟩ := hopen₁.source source hnetwork₁
  obtain rfl := hsource source' hnamed
  refine ⟨ledger, partition, status₀.anchorSigners, ?_, ?_, hpartition, hthreshold, ?_, ?_⟩
  · -- neither the signatures nor loading the status have touched the ledger
    have haccounts : db.account = p.block.batch.account :=
      (loadStatus_eq_ok hstatus).1.trans haccount
    have hledger' : db.getStateAs x.describe.anchorPool asAnchorLedger = .ok ledger := hledger
    unfold getStateAs getState at hledger' ⊢
    rw [haccounts] at hledger'
    exact hledger'
  · rw [hnumber, hnumber₁, hsequence]
  · rw [hsigners]
    exact hopen₁.sorted.imp fun hlt heq => absurd (congrArg Bytes.digits heq) (ne_of_lt hlt)
  · rw [hsigners]
    exact hopen₁.voted

end Execution

/-! ### Two validators that sign one after the other -/

def voteSource : Url := ⟨.bvn "y", []⟩

/-- Hash functions under which the anchor of the partition with number 1 is the only
transaction with the hash 7, and its partition signature the only one with the hash 11. -/
def voteCrypto : Crypto :=
  { toyCrypto with
    transactionHash := fun t => if t.type.isAnchor && t.header.initiator = 11 then 7 else 8
    signatureHash := fun s =>
      match s with
      | .partition source _ n _ => if source = some voteSource ∧ n = 1 then 11 else 12
      | .key k => BitVec.ofNat 256 (100 + k.timestamp)
      | _ => 98 }

def voteGlobals : GlobalValues :=
  { toyGlobals with
    network := ⟨1, [⟨[1], [("y", true)]⟩, ⟨[2], [("y", true)]⟩]⟩ }

def voteExecutors : TransactionType → Option TransactionExecutor
  | .blockValidatorAnchor => some (PartitionAnchor.executor voteCrypto ⟨.directory, directory⟩)
  | .directoryAnchor => some (DirectoryAnchor.executor voteCrypto ⟨.directory, directory⟩)
  | _ => none

theorem voteExecutors_didFail (t : TransactionType) (e : TransactionExecutor)
    (h : voteExecutors t = some e) (huser : t.isUser = true) : e.didFail = none := by
  cases t with
  | blockValidatorAnchor | directoryAnchor => cases huser
  | _ => cases h

def voteNode : Executor :=
  { toy ⟨.directory, directory⟩ voteExecutors voteExecutors_didFail with crypto := voteCrypto }

def voteDelivery (signatures : List Signature) : Delivery :=
  Delivery.new ⟨⟨some (dnUrl.joinPath ["anchors"]), 11, "", []⟩,
    .payload (.blockValidatorAnchor ⟨some voteSource, 0, 5, 0, 77, 78, []⟩ 0)⟩ signatures

def voteOrigin : Signature := .partition (some voteSource) (some dnUrl) 1 7

def voteOf (key : Bytes) : Signature :=
  .key ⟨.ed25519, key, [], some dnUrl, 1, 1, .accept, 7⟩

def voteStart : Block where
  index := 5
  batch := (Database.empty.setMain (dnUrl.joinPath ["anchors"]) (.anchorLedger
      ⟨dnUrl.joinPath ["anchors"], 0, [], []⟩)).setMain acmeUrl
      (.tokenIssuer acmeUrl [⟨dnUrl.joinPath ["operators"], false⟩] "ACME" 8 1000 none)
  pending := toyGlobals
  state := .new

def voteFirst : Delivery := voteDelivery [voteOrigin, voteOf [1]]

def voteSecond : Delivery := voteDelivery [voteOf [2]]

def voteId : AnchorId := ⟨7, voteSource, 1⟩

theorem voteDelivery_carries (signatures : List Signature) :
    voteNode.Carries voteId (voteDelivery signatures) := by
  have hhash : voteNode.getHash (voteDelivery []).transaction = voteId.hash := by
    decide +kernel
  refine ⟨hhash, fun _ => ⟨rfl, fun source destination n hsignature => ?_⟩, rfl⟩
  change (if source = some voteSource ∧ n = 1 then (11 : Hash) else 12) = 11 at hsignature
  split at hsignature
  · rename_i hsource
    exact hsource
  · exact absurd hsignature (by decide)

/-- With the signature of one validator the anchor waits; with the signature of the other it
is executed. -/
theorem voteSecond_signed :
    ∃ p ledger partition, ∃ keys : List Bytes,
      Relation.ReflTransGen (voteNode.PollStep voteId) ⟨voteStart, []⟩ p ∧
      (p.block.batch.transaction voteId.hash).status.code = .pending ∧
      (voteNode.withActive voteGlobals).RunsExecutor voteSecond p.block ∧
      p.block.batch.getStateAs voteNode.describe.anchorPool asAnchorLedger = .ok ledger ∧
      (partitionLedger ledger.exchange voteSource).delivered + 1 = 1 ∧
      parsePartitionUrl voteSource = some partition ∧
      (voteNode.withActive voteGlobals).validatorThreshold partition ≤ keys.length ∧ keys.Nodup ∧
      ∀ key ∈ keys, ∃ acc ∈ p.accepted ++
        ((voteNode.withActive voteGlobals).acceptedSignatures voteSecond p.block).map
          (⟨voteGlobals, ·⟩), voteNode.VotesFor voteId key acc := by
  have hx : voteNode.RunsAnchors := ⟨rfl, rfl⟩
  have hrun := Relation.ReflTransGen.single
    (PollStep.deliver (x := voteNode) (a := voteId) (p := ⟨voteStart, []⟩) (g := voteGlobals)
      (d := voteFirst) (voteDelivery_carries _) rfl)
  have hpending : ((((voteNode.withActive voteGlobals).executeEnvelopeOnce voteFirst
      voteStart).2).batch.transaction voteId.hash).status.code = .pending := by
    decide +kernel
  have hyields : ((voteNode.withActive voteGlobals).executeEnvelopeOnce voteSecond
      ((voteNode.withActive voteGlobals).executeEnvelopeOnce voteFirst voteStart).2).1.Yields
        fun r => r.2.1.code = .delivered := by
    decide +kernel
  obtain ⟨⟨hash, status, additional⟩, hok, hcode⟩ := hyields.exists_ok
  have hfresh : ((((voteNode.withActive voteGlobals).executeEnvelopeOnce voteFirst
      voteStart).2).batch.transaction voteId.hash).status.delivered = false := by
    rfl
  have hexec : (voteNode.withActive voteGlobals).RunsExecutor voteSecond
      ((voteNode.withActive voteGlobals).executeEnvelopeOnce voteFirst voteStart).2 := by
    rcases pollInv_of_run hx rfl hrun with hdelivered | hopen
    · exact absurd (hfresh.symm.trans hdelivered) Bool.false_ne_true
    · exact hopen.runsExecutor (voteDelivery_carries _) hfresh (Prod.ext hok rfl) hcode
  obtain ⟨ledger, partition, keys, hvotes⟩ :=
    anchor_executed_only_if_signed hx rfl hrun (voteDelivery_carries _) hexec
  exact ⟨_, ledger, partition, keys, hrun, hpending, hexec, hvotes⟩

end Executor
end Accumulate
