import Accumulate.Block.SignatureSafety

/-!
# What the signatures of a sequenced transaction establish

A synthetic transaction or an anchor is sequenced and proven by its signatures: a partition
signature names its source and its number, a receipt extends its proof, and the signatures of
validators are counted for an anchor.  `Evidence` is the part of the status that keeps this.

* `Recorded`: a signature writes to the record of its own transaction only.
* `Attests` lists what an accepted signature adds to the evidence, and
  `processSignature_attests` says that there is nothing else.
-/

namespace Accumulate

open Library Protocol Database Accumulate.Core Chain

/-! ## Evidence -/

/-- What is known about a sequenced transaction. -/
structure Evidence where
  code : Status
  anchorSigners : List Bytes
  sourceNetwork : Option Url
  sequenceNumber : Nat
  gotDirectoryReceipt : Bool
  proof : Option Receipt

def Protocol.TransactionStatus.evidence (s : TransactionStatus) : Evidence :=
  ⟨s.code, s.anchorSigners, s.sourceNetwork, s.sequenceNumber, s.gotDirectoryReceipt, s.proof⟩

def Database.evidence (db : Database) (h : Hash) : Evidence := (db.transaction h).status.evidence

namespace Database

variable (s : TransactionStatus)

@[simp] theorem evidence_normalizeStatus : (normalizeStatus s).evidence = s.evidence := rfl

theorem evidence_addSigner (signer : Signer) : (s.addSigner signer).evidence = s.evidence := by
  unfold TransactionStatus.addSigner
  dsimp only
  split
  · split
    · rfl
    · rfl
  · rfl

theorem evidence_addAnchorSigner (key : Bytes) :
    (s.addAnchorSigner key).evidence =
      { s.evidence with
        anchorSigners := (upsert s.evidence.anchorSigners (fun k => compare k key) key).1 } := rfl

@[simp] theorem evidence_setStatus (db : Database) (h : Hash) :
    (db.setStatus h s).evidence h = s.evidence := by
  rw [evidence, setStatus_status_self, evidence_normalizeStatus]

@[simp] theorem evidence_putTransaction (db : Database) (h k : Hash) (v : SigOrTxn) :
    (db.putTransaction k v).evidence h = db.evidence h := by
  rw [evidence, putTransaction_status, evidence]

end Database

namespace Executor

variable (x : Executor)

/-! ## Frames -/

/-- Signatures of a transaction that is not a user transaction change no account, and of all
statuses only the one of the transaction.  What they store is signatures and the transaction
itself. -/
structure Recorded (t : Transaction) (db db' : Database) : Prop where
  account : db'.account = db.account
  status : ∀ h, h ≠ x.getHash t → (db'.transaction h).status = (db.transaction h).status
  main : ∀ h v, (db'.transaction h).main = some v → (db.transaction h).main = some v ∨
    v.transaction = none ∨ h = x.getHash t ∧ v.transaction = some t

variable {t : Transaction}

instance : Std.Refl (x.Recorded t) :=
  ⟨fun _ => ⟨rfl, fun _ _ => rfl, fun _ _ h => Or.inl h⟩⟩

instance : IsTrans Database (x.Recorded t) where
  trans _ _ _ hab hbc := by
    refine ⟨hbc.account.trans hab.account, fun h hne => (hbc.status h hne).trans (hab.status h hne),
      fun h v hv => ?_⟩
    rcases hbc.main h v hv with hold | hnew
    · exact hab.main h v hold
    · exact Or.inr hnew

theorem recorded_setStatus (db : Database) (s : TransactionStatus) :
    x.Recorded t db (db.setStatus (x.getHash t) s) := by
  refine ⟨rfl, fun h hne => ?_, fun h v hv => .inl ?_⟩
  · rw [setStatus, updateTransaction_transaction_of_ne _ _ _ _ hne]
  · rwa [setStatus_main] at hv

theorem recorded_putTransaction (db : Database) {h : Hash} {v : SigOrTxn}
    (hv : v.transaction = none ∨ h = x.getHash t ∧ v.transaction = some t) :
    x.Recorded t db (db.putTransaction h v) := by
  refine ⟨rfl, fun k _ => putTransaction_status db h k v, fun k w hw => ?_⟩
  rw [putTransaction, updateTransaction_transaction] at hw
  split at hw
  · rename_i hk
    cases hw
    rw [hk]
    exact .inr hv
  · exact .inl hw

theorem keeps_recorded_putStatus (s : TransactionStatus) :
    Proc.Keeps (x.Recorded t) (putStatus (x.getHash t) s) :=
  keeps_putStatus fun db => x.recorded_setStatus db s

theorem keeps_recorded_addSignature (signer : Signer) (i : Nat) (s : Signature) :
    Proc.Keeps (x.Recorded t) (addSignature x.crypto (x.getHash t) signer i s) := by
  refine .bind .get fun db => ?_
  refine .ite (.bind (x.keeps_recorded_putStatus _) fun _ => ?_)
    (.pure _)
  refine .modify fun db => ⟨rfl, fun h hne => ?_, fun h v hv => .inl ?_⟩
  · rw [updateTransaction_transaction_of_ne _ _ _ _ hne]
  rw [updateTransaction_transaction] at hv
  split at hv
  · rename_i hh
    rw [hh]
    exact hv
  · exact hv

/-! ## Recording a signature -/

section Recording

variable {x} {d : Delivery} {md : SignatureValidationMetadata} {db db' : Database}

variable {signer : Signer} {signature : Signature} {delegate : Option Account}

theorem addSignature_evidence {h : Hash} {i : Nat} {s : Signature}
    (hadd : addSignature x.crypto h signer i s db = (.ok (), db')) :
    db'.evidence h = db.evidence h := by
  unfold addSignature at hadd
  rw [Proc.get_bind_run] at hadd
  dsimp only at hadd
  split at hadd
  · obtain ⟨_, db₁, hput, hadd⟩ := Proc.bind_eq_ok.1 hadd
    cases hadd
    obtain rfl := putStatus_eq_ok hput
    rw [evidence, updateTransaction_transaction_self, setStatus_status_self,
      evidence_normalizeStatus, evidence_addSigner, evidence]
  · cases hadd
    rfl

theorem storeSignature_eq_ok {sigToStore : Signature}
    {isLocalTxn : Bool} (huser : d.type.isUser = false)
    (h : x.storeSignature d signature sigToStore md signer delegate isLocalTxn db = (.ok (), db')) :
    x.Recorded d.transaction db db' ∧
      db'.evidence (x.getHash d.transaction) = db.evidence (x.getHash d.transaction) := by
  unfold storeSignature at h
  rw [Proc.modify_bind_run] at h
  obtain ⟨_, db₁, hchains, h⟩ := Proc.bind_eq_ok.1 h
  have hnone : x.addToSignatureChains d signer md isLocalTxn (x.crypto.signatureHash signature) =
      pure () := by
    unfold addToSignatureChains
    rw [if_pos (.inl (by rw [huser]; rfl))]
  rw [hnone] at hchains
  cases hchains
  constructor
  · have hput : x.Recorded d.transaction db (db.putTransaction (x.crypto.signatureHash signature)
        ⟨none, some sigToStore, some (x.crypto.id d.transaction)⟩) :=
      x.recorded_putTransaction db (.inl rfl)
    exact trans_of _ hput ((x.keeps_recorded_addSignature _ _ _).run h)
  · rw [addSignature_evidence h, evidence_putTransaction]

/-- Recording a signature that is not one of a user transaction: the evidence is what
`captureSignature` makes of it. -/
theorem recordSignature_evidence {r : Option Signer} (huser : d.type.isUser = false)
    (h : x.recordSignature d signature md signer delegate db = (.ok r, db')) :
    x.Recorded d.transaction db db' ∧ ∃ status,
      x.captureSignature (x.getHash d.transaction)
        (db.transaction (x.getHash d.transaction)).status signature = .ok status ∧
      db'.evidence (x.getHash d.transaction) = status.evidence := by
  obtain ⟨isLocal, db₁, status, stored, -, -, hdb, hcapture, hstored, h⟩ :=
    x.recordSignature_eq_ok h
  have hrecorded : x.Recorded d.transaction db db₁ := by
    rcases hdb with rfl | rfl
    · exact refl_of _ _
    · exact x.recorded_putTransaction db (.inr ⟨rfl, rfl⟩)
  have hstatus : (db₁.transaction (x.getHash d.transaction)).status =
      (db.transaction (x.getHash d.transaction)).status := by
    rcases hdb with rfl | rfl
    · rfl
    · exact putTransaction_status _ _ _ _
  -- a signature that is not stored, or does not make the status dirty, adds nothing
  have hsame : isStatusDirty signature md = false ∨ stored = none →
      status = (db.transaction (x.getHash d.transaction)).status := by
    rintro (hclean | rfl)
    · cases signature with
      | partition | receipt => simp [isStatusDirty] at hclean
      | _ => exact (Outcome.ok.inj hcapture).symm
    · cases signature with
      | delegated inner delegator => exact (Outcome.ok.inj hcapture).symm
      | _ => simp [signatureToStore] at hstored
  cases stored with
  | none =>
    cases h
    refine ⟨hrecorded, status, hcapture, ?_⟩
    rw [evidence, hstatus, hsame (.inr rfl)]
  | some sigToStore =>
    obtain ⟨status', hinitiator, h⟩ := Proc.lift_bind_eq_ok.1 h
    obtain ⟨_, db₂, hput, h⟩ := Proc.bind_eq_ok.1 h
    obtain ⟨_, db₃, hstore, h⟩ := Proc.bind_eq_ok.1 h
    cases h
    obtain ⟨hstored₂, hevidence⟩ := storeSignature_eq_ok huser hstore
    have hput₂ : x.Recorded d.transaction db₁ db₂ :=
      (Proc.Keeps.when _ (Proc.Keeps.mapError (x.keeps_recorded_putStatus _))).run hput
    refine ⟨trans_of _ hrecorded
      (trans_of _ hput₂ hstored₂), status, hcapture, ?_⟩
    rw [hevidence]
    have hinit : status'.evidence = status.evidence := by
      unfold recordInitiator at hinitiator
      split at hinitiator
      · cases hinitiator
        rfl
      obtain ⟨initUrl, -, hinitiator⟩ := Outcome.bind_eq_ok.1 hinitiator
      split at hinitiator
      · cases hinitiator
      · cases hinitiator
        rfl
    unfold Proc.when at hput
    split at hput
    · obtain rfl := putStatus_eq_ok (Proc.mapError_eq_ok.1 hput)
      rw [evidence_setStatus, hinit]
    · rename_i hclean
      cases hput
      rw [evidence, hstatus, hsame (.inl (by simpa using hclean))]

end Recording

/-! ## What an accepted signature adds -/

/-- The key signature within `s` has been made for the transaction with the given hash.  What
is signed is the hash together with the metadata of the outermost signature. -/
def SignedFor (s : Signature) (k : KeySignature) (h : Hash) : Prop :=
  ∃ metadata, s.metadata = .ok metadata ∧
    x.crypto.verify k (x.crypto.signatureHash metadata) h = true

/-- What an accepted signature adds to the evidence for its transaction, which is not a user
transaction. -/
inductive Attests (d : Delivery) (md : SignatureValidationMetadata) :
    Signature → Evidence → Evidence → Prop
  | partition {source destination : Option Url} {n : Nat} {h : Hash} {e : Evidence}
      (hnested : md.nested = false) (hinitiator : md.isInitiator = true) :
      Attests d md (.partition source destination n h) e
        { e with sourceNetwork := source, sequenceNumber := n }
  | receipt {source : Option Url} {proof merged : Receipt} {h : Hash} {e : Evidence}
      (hnested : md.nested = false) (hvalid : proof.validate x.crypto.combine = true)
      (hmerge : x.mergeReceipt (x.getHash d.transaction) e.proof proof = .ok merged) :
      Attests d md (.receipt source proof h) e
        { e with
          gotDirectoryReceipt := e.gotDirectoryReceipt || source = some dnUrl
          proof := some merged }
  | internal {cause h : Hash} {e : Evidence} (hnested : md.nested = false)
      (hinternal : d.wasProducedInternally = true) : Attests d md (.internal cause h) e e
  | vote {s : Signature} {k : KeySignature} {ds : List (Option Url)} {e : Evidence}
      {source : Url} {partition : String} (hchain : s.keyChain = some (k, ds))
      (hsource : e.sourceNetwork = some source)
      (hpartition : parsePartitionUrl source = some partition)
      (hactive : (x.active.network.activeValidator partition (x.crypto.keyHash k)).isSome = true)
      (hverified : md.nested = false → x.SignedFor s k (x.getHash d.transaction)) :
      Attests d md s e
        { e with
          anchorSigners := if d.type.isAnchor then
            (upsert e.anchorSigners (fun key => compare key k.publicKey) k.publicKey).1
            else e.anchorSigners }

section Attests

variable {x} {d : Delivery} {md : SignatureValidationMetadata} {db db' : Database}
  {k : KeySignature}

theorem processPartitionSignature_eq_ok {signer : Signer}
    (h : x.processPartitionSignature t k db = (.ok signer, db')) :
    ∃ source partition, (db.evidence (x.getHash t)).sourceNetwork = some source ∧
      parsePartitionUrl source = some partition ∧
      (x.active.network.activeValidator partition (x.crypto.keyHash k)).isSome = true ∧
      x.Recorded t db db' ∧
      db'.evidence (x.getHash t) =
        { db.evidence (x.getHash t) with
          anchorSigners := if t.type.isAnchor then
            (upsert (db.evidence (x.getHash t)).anchorSigners
              (fun key => compare key k.publicKey) k.publicKey).1
            else (db.evidence (x.getHash t)).anchorSigners } := by
  obtain ⟨signer', hsigner, h⟩ := Proc.lift_bind_eq_ok.1 h
  obtain ⟨_, db₁, hput, h⟩ := Proc.bind_eq_ok.1 h
  cases h
  obtain rfl := putStatus_eq_ok (Proc.mapError_eq_ok.1 hput)
  unfold validatePartitionSignature at hsigner
  split at hsigner
  · cases hsigner
  rename_i source hsource
  split at hsigner
  · cases hsigner
  rename_i partition hpartition
  dsimp only at hsigner
  split at hsigner
  · rename_i hactive
    refine ⟨source, partition, hsource, hpartition, hactive, x.recorded_setStatus db _, ?_⟩
    rw [evidence_setStatus]
    have hadd := evidence_addSigner (db.transaction (x.getHash t)).status signer
    by_cases hanchor : t.type.isAnchor = true
    · simp only [hanchor, if_true]
      rw [evidence_addAnchorSigner, hadd]
      rfl
    · simp only [hanchor]
      exact hadd
  · cases hsigner

variable {s : Signature}

theorem Attests.code {e e' : Evidence} (h : x.Attests d md s e e') : e'.code = e.code := by
  cases h <;> rfl

theorem processDelegator_eq_ok {signature : Signature} {inner : Option Signature}
    {delegator : Option Url} {s r : Option Signer} (huser : d.type.isUser = false)
    (hsignature : signature = .delegated inner delegator)
    (h : x.processDelegator d signature inner delegator md s db = (.ok r, db')) :
    x.Recorded d.transaction db db' ∧
      db'.evidence (x.getHash d.transaction) = db.evidence (x.getHash d.transaction) ∧
      (md.nested = false → ∃ metadata, signature.metadata = .ok metadata ∧
        x.crypto.verifyDelegated (x.crypto.signatureHash metadata) (x.getHash d.transaction)
          inner = true) := by
  obtain ⟨verified, hverified, h⟩ := Proc.lift_bind_eq_ok.1 h
  have hmetadata : verified = true → md.nested = false → ∃ metadata,
      signature.metadata = .ok metadata ∧ x.crypto.verifyDelegated
        (x.crypto.signatureHash metadata) (x.getHash d.transaction) inner = true := by
    rintro rfl hnested
    unfold verifyOutermost at hverified
    rw [hnested] at hverified
    obtain ⟨metadata, hmetadata, hverified⟩ := Outcome.bind_eq_ok.1 hverified
    exact ⟨metadata, hmetadata, Outcome.ok.inj hverified⟩
  cases verified with
  | false => cases h
  | true =>
    obtain ⟨isLocal, -, h⟩ := Proc.lift_bind_eq_ok.1 h
    split at h
    · cases h
      exact ⟨refl_of _ _, rfl, hmetadata rfl⟩
    obtain ⟨signer, -, h⟩ := Proc.query_bind_eq_ok.1 h
    obtain ⟨delegate, -, h⟩ := Proc.lift_bind_eq_ok.1 h
    obtain ⟨hrecorded, status, hcapture, hevidence⟩ := recordSignature_evidence huser h
    subst hsignature
    cases hcapture
    exact ⟨hrecorded, hevidence, hmetadata rfl⟩

/-- **What an accepted signature does.** -/
theorem processSignatureAt_attests (huser : d.type.isUser = false)
    (hforwarded : d.isForwarded = false) :
    ∀ (s : Signature) {md : SignatureValidationMetadata} {r : Option Signer} {db db' : Database},
      x.processSignatureAt d s md db = (.ok r, db') →
      x.Recorded d.transaction db db' ∧
        x.Attests d md s (db.evidence (x.getHash d.transaction))
          (db'.evidence (x.getHash d.transaction))
  | .key k, md, r, db, db', h => by
      unfold processSignatureAt processKey at h
      split at h
      · cases h
      rename_i hverify
      rw [if_neg (by rw [huser]; exact Bool.false_ne_true)] at h
      obtain ⟨signer, db₁, hsigner, h⟩ := Proc.bind_eq_ok.1 h
      obtain ⟨source, partition, hsource, hpartition, hactive, hrecorded₁, hevidence₁⟩ :=
        processPartitionSignature_eq_ok (Proc.mapError_eq_ok.1 hsigner)
      obtain ⟨hrecorded, status, hcapture, hevidence⟩ := recordSignature_evidence huser h
      cases hcapture
      refine ⟨trans_of _ hrecorded₁ hrecorded, ?_⟩
      rw [hevidence]
      show x.Attests d md (.key k) _ (db₁.evidence (x.getHash d.transaction))
      rw [hevidence₁]
      refine .vote rfl hsource hpartition hactive fun hnested => ⟨.key k.metadata, rfl, ?_⟩
      by_contra hbad
      exact hverify ⟨by rw [hnested]; rfl, by simpa [Crypto.verifyKeySignature] using hbad⟩
  | .partition source destination n hash, md, r, db, db', h => by
      obtain ⟨_, hverify, h⟩ := Proc.lift_bind_eq_ok.1 h
      obtain ⟨hrecorded, status, hcapture, hevidence⟩ := recordSignature_evidence huser h
      cases hcapture
      rw [hevidence]
      simp only [verifyPartitionSignature, Outcome.ite_error_eq_ok] at hverify
      exact ⟨hrecorded, .partition (by simpa using hverify.1) (by simpa using hverify.2.2.1)⟩
  | .receipt source proof hash, md, r, db, db', h => by
      obtain ⟨_, hverify, h⟩ := Proc.lift_bind_eq_ok.1 h
      obtain ⟨hrecorded, status, hcapture, hevidence⟩ := recordSignature_evidence huser h
      obtain ⟨merged, hmerge, hcapture⟩ := Outcome.bind_eq_ok.1 hcapture
      cases hcapture
      rw [hevidence]
      simp only [verifyReceiptSignature, Outcome.ite_error_eq_ok] at hverify
      exact ⟨hrecorded, .receipt (by simpa using hverify.1) (by simpa using hverify.2.2.2.1) hmerge⟩
  | .internal cause hash, md, r, db, db', h => by
      obtain ⟨_, hverify, h⟩ := Proc.lift_bind_eq_ok.1 h
      obtain ⟨hrecorded, status, hcapture, hevidence⟩ := recordSignature_evidence huser h
      cases hcapture
      rw [hevidence]
      simp only [verifyInternalSignature, Outcome.ite_error_eq_ok] at hverify
      exact ⟨hrecorded, .internal (by simpa using hverify.1) (by simpa using hverify.2.1)⟩
  | .set vote signer hash signatures, md, r, db, db', h => by
      unfold processSignatureAt processSet at h
      rw [hforwarded] at h
      cases h
  | .remote destination inner, md, r, db, db', h => by
      unfold processSignatureAt at h
      rw [hforwarded] at h
      split at h
      · cases h
      · cases h
  | .delegated none delegator, md, r, db, db', h => by
      cases h
  | .delegated (some inner) delegator, md, r, db, db', h => by
      obtain ⟨s, db₁, hinner, h⟩ := Proc.bind_eq_ok.1 h
      obtain ⟨hrecorded₁, hattests⟩ :=
        processSignatureAt_attests huser hforwarded inner (Proc.mapError_eq_ok.1 hinner)
      obtain ⟨hrecorded, hevidence, hverified⟩ := processDelegator_eq_ok huser rfl h
      refine ⟨trans_of _ hrecorded₁ hrecorded, ?_⟩
      rw [hevidence]
      -- only a key signature can be within a delegation
      have hnested : md.setDelegated.nested ≠ false := by
        simp [SignatureValidationMetadata.setDelegated, SignatureValidationMetadata.nested]
      generalize db.evidence (x.getHash d.transaction) = e at hattests ⊢
      generalize db₁.evidence (x.getHash d.transaction) = e' at hattests ⊢
      cases hattests with
      | partition hn _ | receipt hn _ _ | internal hn _ => exact absurd hn hnested
      | vote hchain hsource hpartition hactive _ =>
        refine .vote (by rw [Signature.keyChain, hchain]; rfl) hsource hpartition hactive
          fun hn => ?_
        obtain ⟨metadata, hmetadata, hverify⟩ := hverified hn
        exact ⟨metadata, hmetadata, by rwa [verifyDelegated_eq hchain] at hverify⟩

theorem signatureMetadata_eq_ok (h : x.signatureMetadata d s = .ok md) :
    md.nested = false ∧
      x.crypto.signatureDidInitiate s d.transaction.header.initiator = .ok md.isInitiator := by
  obtain ⟨isInitiator, hdid, h⟩ := Outcome.bind_eq_ok.1 h
  split at h
  · cases h
    exact ⟨rfl, hdid⟩
  · obtain ⟨location, -, h⟩ := Outcome.bind_eq_ok.1 h
    cases h
    exact ⟨rfl, hdid⟩

theorem signatureMetadata_partition {source destination : Option Url} {n : Nat} {h : Hash}
    (hmd : x.signatureMetadata d (.partition source destination n h) = .ok md)
    (hinitiator : md.isInitiator = true) :
    x.crypto.signatureHash (.partition source destination n 0) =
      d.transaction.header.initiator := by
  have hdid := (signatureMetadata_eq_ok hmd).2
  rw [hinitiator] at hdid
  by_contra hne
  -- the initiator hash of a partition signature cannot be computed
  have hfalse : x.crypto.signatureDidInitiate (.partition source destination n h)
      d.transaction.header.initiator = .ok false := by
    simp only [Crypto.signatureDidInitiate, unpackSignature, Crypto.didInitiate,
      Signature.metadata, Signature.initiator, Outcome.ok_bind, if_neg hne]
    rfl
  rw [hfalse] at hdid
  cases hdid

theorem processSignature_attests (huser : d.type.isUser = false)
    (hforwarded : d.isForwarded = false) (h : x.processSignature d s db = (.ok (), db')) :
    x.Recorded d.transaction db db' ∧ ∃ md, x.signatureMetadata d s = .ok md ∧
      x.Attests d md s (db.evidence (x.getHash d.transaction))
        (db'.evidence (x.getHash d.transaction)) := by
  obtain ⟨_, -, h⟩ := Proc.lift_bind_eq_ok.1 h
  obtain ⟨md, hmd, h⟩ := Proc.lift_bind_eq_ok.1 h
  obtain ⟨r, db₁, hprocess, h⟩ := Proc.bind_eq_ok.1 h
  cases h
  obtain ⟨hrecorded, hattests⟩ := processSignatureAt_attests huser hforwarded s hprocess
  exact ⟨hrecorded, md, hmd, hattests⟩

end Attests

end Executor
end Accumulate
