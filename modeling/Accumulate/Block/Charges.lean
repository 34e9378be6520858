import Mathlib.Tactic.IntervalCases
import Accumulate.Block.Ballot

/-!
# What a transaction costs

The initiating signature of a transaction pays the fee of the transaction, every other
signature a small fee of its own.  If the transaction fails, what was paid beyond the
fee of failed transactions is given back.

* `processKeySignature_debits` says how much an accepted signature costs its signer,
  `recordFailedTransaction_refunds` how much a failed transaction gives back.
* `refund_le_debit_iff` compares the two.
-/

namespace Accumulate

open Library Protocol Database Accumulate.Core Chain

/-! ## Credits -/

def Protocol.Account.credits : Account → Nat
  | .liteIdentity _ balance _ => balance
  | .keyPage p => p.creditBalance
  | _ => 0

def Database.credits (db : Database) (u : Url) : Nat :=
  ((db.account u).main.map Account.credits).getD 0

def Protocol.Transaction.creditDeposit (t : Transaction) : Nat :=
  match t.body with
  | .payload (.syntheticDepositCredits _ amount _ _) => amount.toNat
  | _ => 0

theorem Database.credits_setMain_self (db : Database) (u : Url) (a : Account) :
    (db.setMain u a).credits u = a.credits := by
  simp [credits, setMain]

namespace Executor

variable (x : Executor)

/-! ## The charge -/

variable {fee : Fee} {signer : Account}

theorem credits_charged (h : signer.canDebitCredits fee.toNat = true) (i : Nat)
    (k : KeySignature) : (charged signer fee i k).credits + fee.toNat = signer.credits := by
  cases signer with
  | keyPage page =>
    have hle : fee.toNat ≤ page.creditBalance := by simpa [Account.canDebitCredits] using h
    unfold charged
    split <;> exact Nat.sub_add_cancel hle
  | liteIdentity u balance t =>
    have hle : fee.toNat ≤ balance := by simpa [Account.canDebitCredits] using h
    unfold charged
    split <;> exact Nat.sub_add_cancel hle
  | _ => cases h

variable {db : Database} {u : Url} {a : Account}

theorem main_of_findSigner {signerUrl location : Option Url}
    (hkeyed : db.WellKeyed) (h : x.findSigner db signerUrl location = .ok signer) {keyHash : Bytes}
    {i : Nat} (hkey : (Signer.account signer).entryByKeyHash x.crypto keyHash = some i) :
    (db.account signer.url).main = some signer := by
  obtain ⟨u, -, hmain, -⟩ := x.findSigner_eq_ok h hkey
  rw [hkeyed _ _ hmain]
  exact hmain

variable {k : KeySignature} {checkAuthz : Bool} {failure : Error} {d : Delivery} {db' : Database}
  {t : Transaction} {status : TransactionStatus} {state : ProcessTransactionState}
  {md : SignatureValidationMetadata}

theorem processKeySignature_debits (hkeyed : db.WellKeyed)
    (hu : t.type.isUser = true) (h : x.processKeySignature t k md checkAuthz db = (.ok a, db')) :
    ∃ fee, x.computeSignerFee t k md = .ok fee ∧
      db'.credits a.url + fee.toNat = db.credits a.url := by
  obtain ⟨signer, i, fee, db₁, hvalid, hentry, hfee, hpay, rfl, hkeep, rfl⟩ :=
    x.processKeySignature_user hu h
  have hmain := x.main_of_findSigner hkeyed (x.findSigner_of_validateSigner hvalid)
    (x.validateKeyEntry_eq_ok hentry).2.1
  have hbefore : db.credits signer.url = signer.credits := by
    rw [credits, hmain]
    rfl
  refine ⟨fee, hfee, ?_⟩
  rw [url_charged, credits_setMain_self, hbefore]
  exact credits_charged hpay i k

theorem computeSignatureFee_key {c : Crypto} (h : computeSignatureFee c (.key k) = .ok fee) :
    fee.toNat = dataCount (c.signatureSize (.key k)) ∧ fee.toNat ≤ 4 := by
  unfold computeSignatureFee at h
  dsimp only at h
  split at h
  · cases h
  cases h
  have hcount : dataCount (c.signatureSize (.key k)) ≤ 4 := by
    unfold dataCount signatureSizeMax at *
    split <;> omega
  have hfee : (feeSignature + feeSignature * lessOne (dataCount (c.signatureSize (.key k))) +
      feeSignature * UInt64.ofNat (delegationDepth (.key k))).toNat =
        dataCount (c.signatureSize (.key k)) := by
    generalize dataCount (c.signatureSize (.key k)) = count at hcount ⊢
    interval_cases count <;> rfl
  rw [hfee]
  exact ⟨rfl, hcount⟩

/-- What the initiating signature pays: nothing for the signers of a partition, otherwise
the fee of the transaction with what the signature takes beyond its first chunk. -/
theorem computeSignerFee_initiator
    (hinit : md.isInitiator = true) (h : x.computeSignerFee t k md = .ok fee) :
    ((k.signer.bind parsePartitionUrl).isSome = true ∧ fee = 0) ∨
      (k.signer.bind parsePartitionUrl = none ∧ ∃ sigFee paid,
        computeSignatureFee x.crypto (.key k) = .ok sigFee ∧
        computeTransactionFee x.crypto x.active.globals.feeSchedule t = .ok paid ∧
        fee = sigFee + (paid - feeSignature)) := by
  unfold computeSignerFee at h
  split at h
  · cases h
  rename_i u hsigner
  rw [hsigner]
  split at h
  · rename_i hpartition
    cases h
    exact .inl ⟨hpartition, rfl⟩
  · rename_i hpartition
    obtain ⟨sigFee, hsig, h⟩ := Outcome.bind_eq_ok.1 h
    rw [hinit] at h
    obtain ⟨paid, hpaid, h⟩ := Outcome.bind_eq_ok.1 h
    cases h
    right
    constructor
    · simpa using hpartition
    · exact ⟨sigFee, paid, Outcome.mapError_eq_ok.1 hsig, Outcome.mapError_eq_ok.1 hpaid, rfl⟩

/-! ## The refund -/

theorem recordFailedTransaction_refunds
    (hu : d.type.isUser = true) (hinit : status.initiator.isSome = true)
    (h : x.recordFailedTransaction d u failure db = (.ok (status, state), db')) :
    ∃ paid, computeTransactionFee x.crypto x.active.globals.feeSchedule d.transaction = .ok paid ∧
      (state.producedTxns.map Transaction.creditDeposit).sum =
        if paid ≤ feeFailedMaximum then 0 else (paid - feeFailedMaximum).toNat := by
  rw [recordFailedTransaction_user x u hu] at h
  obtain ⟨refund, hrefund, h⟩ := Outcome.bind_eq_ok.1 (Prod.mk.inj h).1
  cases h
  obtain ⟨initiator, hinitiator⟩ := Option.isSome_iff_exists.1 hinit
  have hinitiator : (db.transaction (x.getHash d.transaction)).status.initiator =
      some initiator := hinitiator
  unfold failureRefund at hrefund
  rw [hinitiator] at hrefund
  simp only [hu, Bool.not_true, Bool.false_eq_true, if_false] at hrefund
  split at hrefund
  · cases hrefund
  · cases hrefund
  rename_i paid hpaid
  refine ⟨paid, hpaid, ?_⟩
  split at hrefund
  · rename_i hsmall
    cases hrefund
    rw [if_pos hsmall]
    rfl
  · rename_i hlarge
    cases hrefund
    rw [if_neg hlarge]
    simp [refundState, ProcessTransactionState.didProduceTxn, ProcessTransactionState.new,
      refundBody, Transaction.creditDeposit]

/-! ## The comparison -/

/-- What the initiating signature is charged for covers the refund: there is nothing to
give back, or the signer is not exempt from fees and the charge does not exceed 64 bits. -/
def RefundCovered (t : Transaction) (k : KeySignature) : Prop :=
  ∀ paid, computeTransactionFee x.crypto x.active.globals.feeSchedule t = .ok paid →
    paid ≤ feeFailedMaximum ∨
      (k.signer.bind parsePartitionUrl = none ∧
        dataCount (x.crypto.signatureSize (.key k)) + paid.toNat ≤ 2 ^ 64)

/-- The refund of a failed transaction is at most what its initiating signature has paid,
if and only if the refund is covered. -/
theorem refund_le_debit_iff {k : KeySignature} {md : SignatureValidationMetadata}
    {checkAuthz : Bool} {signer : Account} {d : Delivery} {u : Url} {failure : Error}
    {status : TransactionStatus} {state : ProcessTransactionState} {db₁ db₂ db₃ db₄ : Database}
    (hkeyed : db₁.WellKeyed) (hu : d.type.isUser = true) (hinit : md.isInitiator = true)
    (hsign : x.processKeySignature d.transaction k md checkAuthz db₁ = (.ok signer, db₂))
    (hinitiator : status.initiator.isSome = true)
    (hfail : x.recordFailedTransaction d u failure db₃ = (.ok (status, state), db₄)) :
    (state.producedTxns.map Transaction.creditDeposit).sum ≤
        db₁.credits signer.url - db₂.credits signer.url ↔
      x.RefundCovered d.transaction k := by
  obtain ⟨fee, hfee, hdebit⟩ := x.processKeySignature_debits hkeyed hu hsign
  obtain ⟨paid, hpaid, hrefund⟩ := x.recordFailedTransaction_refunds hu hinitiator hfail
  have hcovered : x.RefundCovered d.transaction k ↔ paid ≤ feeFailedMaximum ∨
      (k.signer.bind parsePartitionUrl = none ∧
        dataCount (x.crypto.signatureSize (.key k)) + paid.toNat ≤ 2 ^ 64) := by
    unfold RefundCovered
    rw [hpaid]
    simp
  rw [hcovered, hrefund, Nat.sub_eq_of_eq_add' hdebit.symm]
  -- nothing to give back, or the refund is a positive number that does not wrap around
  by_cases hsmall : paid ≤ feeFailedMaximum
  · simp [hsmall]
  have hlarge : 100 < paid.toNat := by
    have hlt := UInt64.not_le.1 hsmall
    exact UInt64.lt_iff_toNat_lt.1 hlt
  have hamount : (paid - feeFailedMaximum).toNat = paid.toNat - 100 :=
    UInt64.toNat_sub_of_le _ _ (UInt64.le_iff_toNat_le.2 (Nat.le_of_lt hlarge))
  rw [if_neg hsmall, or_iff_right hsmall]
  rcases x.computeSignerFee_initiator hinit hfee with
    ⟨hpartition, rfl⟩ | ⟨hpartition, sigFee, paid', hsig, hpaid', rfl⟩
  · -- an exempt signer pays nothing
    have hzero : (0 : Fee).toNat = 0 := rfl
    constructor
    · omega
    · intro hcovered
      rw [hcovered.1] at hpartition
      cases hpartition
  · obtain rfl := Outcome.ok.inj (hpaid.symm.trans hpaid')
    obtain ⟨hcount, hfour⟩ := computeSignatureFee_key hsig
    have hless : (paid - feeSignature).toNat = paid.toNat - 1 :=
      UInt64.toNat_sub_of_le _ _
        (UInt64.le_iff_toNat_le.2 (Nat.lt_of_le_of_lt (by decide) hlarge).le)
    rw [UInt64.toNat_add]
    constructor
    · intro hle
      constructor
      · exact hpartition
      · by_contra hwrap
        omega
    · omega

/-! ### The operators as issuers -/

def issuerPage (host : Host) : KeyPage :=
  ⟨⟨host, ["operators", "1"]⟩, 1000, 1, 1, [⟨[1], 0, none⟩], none⟩

def issuerDelivery : Delivery :=
  .new ⟨⟨some acmeUrl, 101, "", []⟩,
    .payload (.issueTokens none 0 [⟨some ⟨.named "far", []⟩, 1⟩])⟩ []

def issuerSignature (host : Host) : KeySignature :=
  ⟨.ed25519, [1], [], some (issuerPage host).url, 1, 1, .accept, 0⟩

def issuerStart (host : Host) : Database :=
  (Database.empty.setMain (issuerPage host).url (.keyPage (issuerPage host))).setMain acmeUrl
    (.tokenIssuer acmeUrl [⟨⟨host, ["operators"]⟩, false⟩] "ACME" 8 0 none)

def issuerNode : Executor := toyNode

def issuerSigned (host : Host) : Database :=
  (issuerNode.processSignature issuerDelivery (.key (issuerSignature host)) (issuerStart host)).2

def issuerCharge (host : Host) : Outcome Error Account × Database :=
  issuerNode.processKeySignature issuerDelivery.transaction (issuerSignature host)
    ⟨some (issuerPage host).url, true, false, false⟩ true (issuerStart host)

def issuerFailure (host : Host) :
    Outcome Error (TransactionStatus × ProcessTransactionState) × Database :=
  issuerNode.recordFailedTransaction issuerDelivery acmeUrl errMissingPrincipal
    (issuerSigned host)

/-- The page of the operators pays nothing, and it gets a refund of 200 credits. -/
theorem operators_refund_exceeds_debit :
    ∃ signer db₂ status state db₄, issuerCharge .directory = (.ok signer, db₂) ∧
      issuerFailure .directory = (.ok (status, state), db₄) ∧
      status.initiator = some (issuerPage .directory).url ∧
      ¬ (state.producedTxns.map Transaction.creditDeposit).sum ≤
        (issuerStart .directory).credits signer.url - db₂.credits signer.url := by
  have hcharge : (issuerCharge .directory).1.Yields fun signer =>
      (issuerStart .directory).credits signer.url -
        (issuerCharge .directory).2.credits signer.url = 0 := by
    decide +kernel
  have hfailure : (issuerFailure .directory).1.Yields fun r =>
      r.1.initiator = some (issuerPage .directory).url ∧
        (r.2.producedTxns.map Transaction.creditDeposit).sum = 200 := by
    decide +kernel
  obtain ⟨signer, hsigner, hdebit⟩ := hcharge.exists_ok
  obtain ⟨⟨status, state⟩, hstatus, hinitiator, hrefund⟩ := hfailure.exists_ok
  refine ⟨signer, _, status, state, _, Prod.ext hsigner rfl, Prod.ext hstatus rfl, hinitiator, ?_⟩
  rw [hdebit, hrefund]
  decide

theorem issuer_refund_le_debit :
    ∃ signer db₂ status state db₄, issuerCharge (.named "corp") = (.ok signer, db₂) ∧
      issuerFailure (.named "corp") = (.ok (status, state), db₄) ∧
      (state.producedTxns.map Transaction.creditDeposit).sum ≤
        (issuerStart (.named "corp")).credits signer.url - db₂.credits signer.url := by
  have hcharge : (issuerCharge (.named "corp")).1.Yields fun _ => True := by decide +kernel
  have hfailure : (issuerFailure (.named "corp")).1.Yields fun r =>
      r.1.initiator.isSome = true := by
    decide +kernel
  obtain ⟨signer, hsigner, -⟩ := hcharge.exists_ok
  obtain ⟨⟨status, state⟩, hstatus, hinitiator⟩ := hfailure.exists_ok
  refine ⟨signer, _, status, state, _, Prod.ext hsigner rfl, Prod.ext hstatus rfl, ?_⟩
  apply (issuerNode.refund_le_debit_iff _ rfl rfl (Prod.ext hsigner rfl) hinitiator
    (Prod.ext hstatus rfl)).2
  · intro paid hpaid
    cases hpaid
    exact .inr ⟨rfl, by decide⟩
  · exact (wellKeyed_empty.setMain (u := (issuerPage (.named "corp")).url) rfl).setMain
      rfl

end Executor
end Accumulate
