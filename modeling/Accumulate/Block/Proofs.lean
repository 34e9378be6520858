import Accumulate.Block.Evidence
import Accumulate.Block.Repetition

/-!
# Proofs of synthetic transactions

The status of a synthetic transaction holds a receipt that is extended by the receipts that arrive
with receipt signatures.  A receipt that is already part of it is left alone.

A receipt signature whose receipt can be merged is accepted (`processSignature_receipt`).  If the
receipts of a chain are processed in order, the proof has the entries of those that have been
processed (`Proves`), whatever receipts arrive again (`captures_receipts`).
-/

namespace Accumulate.Executor

open Library Protocol Database Smt Accumulate.Chain

/-- Signatures with the receipts of `rs` in order, the first `k` of which have been processed
before. Receipts that have been processed may be repeated; `m` have been processed in the end. -/
inductive Delivers (rs : List Protocol.Receipt) : Nat → List Signature → Nat → Prop
  | done {k} : Delivers rs k [] k
  | repeated {k m i r source hash sigs} (hi : i < k) (hr : rs[i]? = some r)
    (hsigs : Delivers rs k sigs m) : Delivers rs k (.receipt source r hash :: sigs) m
  | next {k m r source hash sigs} (hr : rs[k]? = some r) (hsigs : Delivers rs (k + 1) sigs m) :
    Delivers rs k (.receipt source r hash :: sigs) m

variable (x : Executor) (hash : Hash) (rs : List Protocol.Receipt)

/-- The receipt stands for the first `k` receipts of the chain. -/
structure Proves (k : Nat) (proof : Protocol.Receipt) : Prop where
  start : proof.start = hash
  entries : proof.entries = joined (rs.take k)
  anchor : proof.anchor = applyEntries x.crypto.combine (joined (rs.take k)) hash

def ProofOf (k : Nat) (proof : Option Protocol.Receipt) : Prop :=
  match k, proof with
  | 0, none => True
  | k + 1, some proof => x.Proves hash rs (k + 1) proof
  | _, _ => False

variable {x hash rs} {k i m : Nat} {r proof : Protocol.Receipt}

/-! ## Receipt signatures -/

section Receipt

variable {d : Delivery} {source : Option Url} {txHash : Hash} {db : Database}
  (hhash : x.getHash d.transaction = hash)
  (hmerge : x.mergeReceipt hash (db.transaction hash).status.proof r = .ok proof)
  (hdb : db.TakesSignature hash none)

include hhash hmerge hdb

theorem recordSignature_receipt {md : SignatureValidationMetadata} {signer : Signer}
    (huser : d.type.isUser = false) (hinitiator : md.isInitiator = false) :
    Proc.Succeeds (· = db) (x.recordSignature d (.receipt source r txHash) md signer none)
      fun _ => TakesSignature hash none := by
  subst hhash
  have hinitial : validateInitialSignature (.receipt source r txHash) md = .ok () := rfl
  have hlocal : isLocalTransaction d.transaction (.receipt source r txHash) md = .ok false := rfl
  have hstored : x.signatureToStore db d.transaction signer none md.location
      (.receipt source r txHash) = .ok (some (.receipt source r txHash)) := rfl
  have hend : Proc.Succeeds (TakesSignature (x.getHash d.transaction) none)
      (x.storeSignature d (.receipt source r txHash) (.receipt source r txHash) md signer none false
        >>= fun _ => pure (some signer))
      fun _ => TakesSignature (x.getHash d.transaction) none := by
    have hnot : d.type.isUser = true → md.location = some dnUrl := by
      rw [huser]
      exact nofun
    exact .bind (storeSignature_succeeds rfl rfl hnot) fun _ => .pure fun _ h => h
  apply Proc.Succeeds.lift_bind hinitial
  apply Proc.Succeeds.lift_bind hlocal
  apply Proc.Succeeds.bind (R := fun _ => (· = db)) (Proc.Succeeds.pure fun _ h => h)
  intro _
  apply Proc.Succeeds.get_bind
  rintro db rfl
  apply Proc.Succeeds.lift_bind (b := { (db.transaction (x.getHash d.transaction)).status with
    gotDirectoryReceipt := (db.transaction (x.getHash d.transaction)).status.gotDirectoryReceipt ||
      source = some dnUrl
    proof := some proof })
  · dsimp only [captureSignature]
    rw [hmerge]
    rfl
  apply Proc.Succeeds.lift_bind hstored
  apply Proc.Succeeds.lift_bind (show x.recordInitiator _ _ md _ = .ok _ by
    rw [recordInitiator, hinitiator]; rfl)
  have hdirty : isStatusDirty (.receipt source r txHash) md = true := by simp [isStatusDirty]
  rw [hdirty]
  exact Proc.Succeeds.bind (Proc.Succeeds.mapError (hdb.putStatus rfl (.inl rfl))) fun _ => hend

/-- A receipt signature of a synthetic transaction is accepted if its receipt can be merged. -/
theorem processSignature_receipt (hsynthetic : d.type.isSynthetic = true)
    (hinitiator : x.crypto.signatureHash (.receipt source r 0) ≠ d.transaction.header.initiator)
    (hvalid : r.validate x.crypto.combine = true) :
    ∃ db', x.processSignature d (.receipt source r txHash) db = (.ok (), db') ∧
      db'.TakesSignature hash none ∧ (db'.transaction hash).status.proof = some proof := by
  have huser : d.type.isUser = false := by
    by_contra hu
    rw [TransactionType.isSynthetic_of_isUser (by simpa using hu)] at hsynthetic
    cases hsynthetic
  have hrouting : x.checkRouting d (.receipt source r txHash) = .ok () := by
    rw [checkRouting, if_pos (.inl rfl)]
  have hmd : x.signatureMetadata d (.receipt source r txHash) =
      .ok ⟨none, false, false, false⟩ := by
    simp only [signatureMetadata, Crypto.signatureDidInitiate, unpackSignature, Crypto.didInitiate,
      Signature.metadata, Signature.initiator, Outcome.ok_bind, if_neg hinitiator]
    rfl
  have hverify : x.verifyReceiptSignature d.transaction r ⟨none, false, false, false⟩ = .ok () := by
    have htype : d.transaction.type.isSynthetic = true := hsynthetic
    simp [verifyReceiptSignature, htype, hvalid, SignatureValidationMetadata.nested]
  obtain ⟨a, db', hrecord, hroom⟩ : ∃ a db', x.recordSignature d (.receipt source r txHash)
      ⟨none, false, false, false⟩ (x.networkSigner x.describe.partitionId) none db = (.ok a, db') ∧
        db'.TakesSignature hash none :=
    recordSignature_receipt hhash hmerge hdb huser rfl db rfl
  refine ⟨db', ?_, hroom, ?_⟩
  · simp only [processSignature, processSignatureAt, Proc.bind_run, Proc.lift_run, hrouting, hmd,
      hverify, hrecord]
    rfl
  · obtain ⟨-, status, hcapture, hevidence⟩ := recordSignature_evidence huser hrecord
    dsimp only [captureSignature] at hcapture
    rw [hhash, hmerge] at hcapture
    cases hcapture
    rw [hhash] at hevidence
    exact congrArg Evidence.proof hevidence

end Receipt

/-! ## Chains of receipts -/

section Chain

variable (hchain : Chained x.crypto.combine hash rs)
  (hnodup : (pathHashes x.crypto.combine (joined rs) hash).Nodup)

include hchain hnodup

/-- Whether the proof contains a receipt of the chain is seen from where that receipt starts. -/
theorem Proves.contains (h : x.Proves hash rs k proof) (hr : rs[i]? = some r)
    {rest : List (ReceiptEntry Hash)} (hrest : joined (rs.take k) = joined (rs.take i) ++ rest) :
    proof.contains x.crypto.combine r =
      Receipt.follows x.crypto.combine rest r.start r.entries r.start := by
  have hpath : (pathHashes x.crypto.combine (joined (rs.take i)) hash).Nodup := by
    refine hnodup.sublist ?_
    have hsplit : joined rs = joined (rs.take i) ++ joined (rs.drop i) := by
      rw [joined, ← List.take_append_drop i rs, List.flatMap_append, List.take_append_drop]
      rfl
    rw [hsplit]
    exact pathHashes_append_sublist _ _ _ _
  rw [Receipt.contains, h.start, h.entries, hrest]
  exact Receipt.containsFrom_eq hpath (hchain.get hr).1 rest

theorem Proves.mergeReceipt_again (h : x.Proves hash rs k proof) (hr : rs[i]? = some r)
    (hi : i < k) : x.mergeReceipt hash (some proof) r = .ok proof := by
  obtain ⟨rest, hrest⟩ := exists_joined_take hr hi
  have hcontains := h.contains hchain hnodup hr hrest
  rw [Receipt.follows_self] at hcontains
  exact if_pos hcontains

theorem Proves.mergeReceipt_next (h : x.Proves hash rs k proof) (hr : rs[k]? = some r) :
    ∃ proof', x.mergeReceipt hash (some proof) r = .ok proof' ∧
      x.Proves hash rs (k + 1) proof' := by
  obtain ⟨hstart, hanchor⟩ := hchain.get hr
  have hcontains := h.contains hchain hnodup hr (List.append_nil _).symm
  have hjoined := joined_take_succ hr
  unfold mergeReceipt
  cases hentries : r.entries with
  | nil =>
    rw [hentries] at hcontains
    rw [hentries, List.append_nil] at hjoined
    refine ⟨proof, if_pos hcontains, h.start, ?_, ?_⟩
    · rw [hjoined, h.entries]
    · rw [hjoined, h.anchor]
  | cons n ns =>
    rw [hentries] at hcontains
    have hnot : ¬ proof.contains x.crypto.combine r = true := by
      rw [hcontains]
      exact Bool.false_ne_true
    have hmeets : proof.anchor = r.start := h.anchor.trans hstart.symm
    refine ⟨{ proof with anchor := r.anchor, entries := proof.entries ++ r.entries }, ?_,
      h.start, ?_, hanchor⟩
    · dsimp only
      rw [if_neg hnot, Receipt.combineWith, if_pos hmeets]
    · rw [hjoined, ← h.entries]

theorem ProofOf.mergeReceipt_again {old : Option Protocol.Receipt} (h : x.ProofOf hash rs k old)
    (hi : i < k) (hr : rs[i]? = some r) :
    ∃ proof, x.mergeReceipt hash old r = .ok proof ∧ x.ProofOf hash rs k (some proof) := by
  obtain ⟨k, rfl⟩ : ∃ n, k = n + 1 := ⟨k - 1, by omega⟩
  cases old with
  | none => exact h.elim
  | some proof => exact ⟨proof, Proves.mergeReceipt_again hchain hnodup h hr hi, h⟩

theorem ProofOf.mergeReceipt_next {old : Option Protocol.Receipt} (h : x.ProofOf hash rs k old)
    (hr : rs[k]? = some r) :
    ∃ proof, x.mergeReceipt hash old r = .ok proof ∧ x.ProofOf hash rs (k + 1) (some proof) := by
  cases old with
  | none =>
    cases k with
    | succ k => exact h.elim
    | zero =>
      obtain ⟨hstart, hanchor⟩ := hchain.get hr
      have hentries : r.entries = joined (rs.take 1) := by
        rw [joined_take_succ hr]
        rfl
      exact ⟨r, if_pos hstart.symm, hstart, hentries, hanchor⟩
  | some proof =>
    cases k with
    | zero => exact h.elim
    | succ k => exact Proves.mergeReceipt_next hchain hnodup h hr

/-- The signatures are processed one after the other, and each of them is accepted. -/
theorem Delivers.succeeds {d : Delivery} {sigs : List Signature}
    (hhash : x.getHash d.transaction = hash) (hsynthetic : d.type.isSynthetic = true)
    (hinitiator : ∀ source, ∀ r ∈ rs,
      x.crypto.signatureHash (.receipt source r 0) ≠ d.transaction.header.initiator)
    (hsigs : Delivers rs k sigs m) :
    Proc.Succeeds
      (fun db => db.TakesSignature hash none ∧
        x.ProofOf hash rs k (db.transaction hash).status.proof)
      (sigs.forM (x.processSignature d))
      fun _ db => db.TakesSignature hash none ∧
        x.ProofOf hash rs m (db.transaction hash).status.proof := by
  -- one signature, whose receipt can be merged
  have hstep : ∀ {k k' i : Nat} {source r txHash}, rs[i]? = some r →
      (∀ {old}, x.ProofOf hash rs k old → ∃ proof, x.mergeReceipt hash old r = .ok proof ∧
        x.ProofOf hash rs k' (some proof)) →
      Proc.Succeeds
        (fun db => db.TakesSignature hash none ∧
          x.ProofOf hash rs k (db.transaction hash).status.proof)
        (x.processSignature d (.receipt source r txHash))
        fun _ db => db.TakesSignature hash none ∧
          x.ProofOf hash rs k' (db.transaction hash).status.proof := by
    rintro k k' i source r txHash hr hmerges db ⟨hdb, hold⟩
    obtain ⟨proof, hmerge, hproof⟩ := hmerges hold
    obtain ⟨db', hrun, hdb', hproof'⟩ := processSignature_receipt hhash hmerge hdb hsynthetic
      (hinitiator source r (List.mem_of_getElem? hr)) (hchain.validate hr)
    exact ⟨(), db', hrun, hdb', hproof' ▸ hproof⟩
  induction hsigs with
  | done => exact .pure fun _ h => h
  | repeated hi hr _ ih =>
    exact .bind (hstep hr fun h => h.mergeReceipt_again hchain hnodup hi hr) fun _ => ih
  | next hr _ ih => exact .bind (hstep hr fun h => h.mergeReceipt_next hchain hnodup hr) fun _ => ih

end Chain

theorem Delivers.le {sigs : List Signature} (h : Delivers rs k sigs m) :
    k ≤ m ∧ (k ≤ rs.length → m ≤ rs.length) := by
  induction h with
  | done => exact ⟨Nat.le_refl _, id⟩
  | repeated _ _ _ ih => exact ih
  | next hr _ ih =>
    have hlt := (List.getElem?_eq_some_iff.1 hr).1
    exact ⟨Nat.le_of_succ_le ih.1, fun _ => ih.2 hlt⟩

/-- **The proof of a synthetic transaction.**  If the receipts of a chain that starts at the hash
of the transaction are processed in order, with any repetitions, nothing fails, and the proof is a
valid receipt from that hash to the anchor of the last receipt that was new. -/
theorem captures_receipts (x : Executor) (d : Delivery) (hash : Hash) (rs : List Protocol.Receipt)
    (hsynthetic : d.type.isSynthetic = true) (hhash : x.getHash d.transaction = hash)
    (hchain : Chained x.crypto.combine hash rs)
    (hnodup : (pathHashes x.crypto.combine (joined rs) hash).Nodup)
    (hinitiator : ∀ source, ∀ r ∈ rs,
      x.crypto.signatureHash (.receipt source r 0) ≠ d.transaction.header.initiator)
    (sigs : List Signature) (m : Nat) (hsigs : Delivers rs 0 sigs m) (db : Database)
    (hstored : (db.transaction hash).status.pending = true →
      (db.transaction hash).main.isSome = true)
    (hnew : (db.transaction hash).status.proof = none) :
    ∃ db', sigs.forM (x.processSignature d) db = (.ok (), db') ∧
      (sigs ≠ [] → ∃ last proof, rs[m - 1]? = some last ∧
        (db'.transaction hash).status.proof = some proof ∧
        proof.validate x.crypto.combine = true ∧ proof.start = hash ∧
        proof.anchor = last.anchor) := by
  have hnone : x.ProofOf hash rs 0 (db.transaction hash).status.proof := by
    rw [hnew]
    trivial
  obtain ⟨_, db', hrun, -, hproof⟩ :=
    hsigs.succeeds hchain hnodup hhash hsynthetic hinitiator db ⟨⟨hstored, nofun⟩, hnone⟩
  refine ⟨db', hrun, fun hne => ?_⟩
  obtain ⟨m, rfl⟩ : ∃ n, m = n + 1 := by
    cases hsigs with
    | done => exact absurd rfl hne
    | repeated hi => exact absurd hi (Nat.not_lt_zero _)
    | next _ hrest => exact ⟨m - 1, by have hle := hrest.le.1; omega⟩
  obtain ⟨last, hlast⟩ : ∃ last, rs[m]? = some last :=
    ⟨_, List.getElem?_eq_getElem (hsigs.le.2 (Nat.zero_le _))⟩
  cases hproof' : (db'.transaction hash).status.proof with
  | none =>
    rw [hproof'] at hproof
    exact hproof.elim
  | some proof =>
    rw [hproof'] at hproof
    obtain ⟨hstart, hentries, hanchor⟩ : x.Proves hash rs (m + 1) proof := hproof
    refine ⟨last, proof, hlast, rfl, ?_, hstart, hanchor.trans (hchain.get hlast).2.symm⟩
    rw [Receipt.validate, hentries, hstart, hanchor]
    exact decide_eq_true rfl

/-- A receipt with one entry, where hashes are combined by adding them. -/
def plusReceipt (start entry : Hash) : Protocol.Receipt :=
  ⟨start, 0, start, 0, start + entry, [⟨true, entry⟩]⟩

def plusDelivery : Delivery :=
  .new ⟨⟨none, 0, "", []⟩, .payload (.syntheticDepositCredits .empty 1 none false)⟩ []

theorem captures_receipts_again :
    ∃ db', [Signature.receipt none (plusReceipt 7000 2) 1, .receipt none (plusReceipt 7002 4) 1,
        .receipt none (plusReceipt 7000 2) 1].forM (toyNode.processSignature plusDelivery)
          Database.empty = (.ok (), db') ∧
      ∃ proof, (db'.transaction 7000).status.proof = some proof ∧ proof.start = 7000 ∧
        proof.anchor = 7006 := by
  have hsigs : Delivers [plusReceipt 7000 2, plusReceipt 7002 4] 0
      [.receipt none (plusReceipt 7000 2) 1, .receipt none (plusReceipt 7002 4) 1,
        .receipt none (plusReceipt 7000 2) 1] 2 :=
    .next rfl (.next rfl (.repeated (by decide : 0 < 2) rfl .done))
  obtain ⟨db', hrun, hproof⟩ := captures_receipts toyNode plusDelivery 7000
    [plusReceipt 7000 2, plusReceipt 7002 4] rfl (by decide)
    ⟨rfl, by decide, rfl, by decide, trivial⟩ (by decide)
    (fun _ _ _ => show (99 : Hash) ≠ 0 by decide) _ 2 hsigs Database.empty nofun rfl
  obtain ⟨last, proof, hlast, hstored, -, hstart, hanchor⟩ := hproof nofun
  cases hlast
  exact ⟨db', hrun, proof, hstored, hstart, hanchor⟩

end Accumulate.Executor
