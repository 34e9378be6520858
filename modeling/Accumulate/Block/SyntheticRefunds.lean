import Mathlib.Algebra.Order.BigOperators.Group.List
import Accumulate.Block.Processing
import Accumulate.Block.Remote
import Accumulate.Block.Synthetic
import Accumulate.Chain.Tokens

/-!
# Credit refunds of synthetic transactions

Every synthetic transaction that a user transaction produces carries a refund, which is
paid out should it fail.  The refund is computed from the type of the user transaction and
from the number of its outputs.  A transfer or an issue may have many outputs, and its fee
grows with the number of recipients in its list.

`refunds_le_fee` says that the refunds of any of the outputs together stay below what was
paid beyond the fee of a failed transaction.  The bound is met by an issue to one recipient
that is not in the list.
-/

namespace Accumulate

open Library Protocol Database Accumulate.Core Chain

namespace Protocol

def TransactionBody.recipients : TransactionBody → List TokenRecipient
  | .payload (.sendTokens recipients) => recipients
  | .payload (.issueTokens _ _ recipients) => recipients
  | _ => []

def TransactionBody.feeRefund (body : TransactionBody) : Nat :=
  match body.origin with
  | some origin => origin.feeRefund.toNat
  | none => 0

theorem TransactionBody.origin_withOrigin (f : SyntheticOrigin → SyntheticOrigin)
    (body : TransactionBody) : (body.withOrigin f).origin = body.origin.map f := by
  cases body with
  | payload p => cases p <;> rfl
  | directoryAnchor => rfl
  | syntheticForwardTransaction => rfl

/-! ## The fee of a transfer -/

theorem toNat_feeData {count : Nat} (hpos : 1 ≤ count) (hcount : count ≤ 2 ^ 32) :
    (feeData * lessOne count).toNat = 10 * (count - 1) := by
  have hone : (1 : UInt64) ≤ UInt64.ofNat count := by
    rw [UInt64.le_iff_toNat_le]
    simp
    omega
  rw [lessOne, UInt64.toNat_mul, UInt64.toNat_sub_of_le _ _ hone]
  simp [feeData]
  omega

/-- The fee of a transfer or an issue in terms of the length `n` of its list.  The list may
be empty: the extra fee, which is negative then, is taken from the basic one. -/
theorem toNat_transferFee {n count : Nat} (hn : n ≤ 2 ^ 32) (hpos : 1 ≤ count)
    (hcount : count ≤ 2 ^ 32) :
    (feeTransferTokens + feeTransferTokensExtra * lessOne n + feeData * lessOne count).toNat =
      200 + 100 * n + 10 * (count - 1) := by
  have hextra : feeTransferTokens + feeTransferTokensExtra * lessOne n =
      200 + 100 * UInt64.ofNat n := by
    unfold lessOne feeTransferTokens feeTransferTokensExtra
    grind
  rw [hextra, UInt64.toNat_add, toNat_feeData hpos hcount]
  simp
  omega

theorem dataCount_bounds {size : Nat} (hpos : 0 < size) (hsize : size ≤ transactionSizeMax) :
    1 ≤ dataCount size ∧ dataCount size ≤ 2 ^ 32 := by
  unfold transactionSizeMax at hsize
  unfold dataCount
  split <;> omega

def TransactionType.hasOutputs (t : TransactionType) : Bool := t = .sendTokens || t = .issueTokens

theorem bodyFee_of_hasOutputs {p : Payload} (h : p.type.hasOutputs = true)
    (s : Option FeeSchedule) (count : Nat) :
    FeeSchedule.bodyFee s count p = .ok (feeTransferTokens +
      feeTransferTokensExtra * lessOne (TransactionBody.payload p).recipients.length +
      feeData * lessOne count) := by
  cases p with
  | sendTokens => rfl
  | issueTokens => rfl
  | _ => cases h

variable {s : Option FeeSchedule} {paid : Fee} {c : Crypto} {t : Transaction}

/-- The fee of a transfer or an issue that is not free leaves 100 for each recipient in the
list and for one more.  The marshalled transaction has a byte for each of them, so that the
number of recipients is small. -/
theorem outputs_le_fee
    (htype : t.type.hasOutputs = true) (hsize : t.body.recipients.length < c.transactionSize t)
    (hfee : computeTransactionFee c s t = .ok paid) (hpaid : feeFailedMaximum < paid) :
    100 * (t.body.recipients.length + 1) ≤ (paid - feeFailedMaximum).toNat := by
  have hle : feeFailedMaximum ≤ paid := UInt64.le_of_lt hpaid
  rw [UInt64.toNat_sub_of_le _ _ hle]
  unfold computeTransactionFee at hfee
  split at hfee
  · cases hfee
  split at hfee
  · cases hfee
    exact absurd hpaid (by decide)
  split at hfee
  · cases hfee
    exact absurd hpaid (by decide)
  split at hfee
  · cases hfee
  rename_i hmax
  have hmax := not_lt.1 hmax
  obtain ⟨hpos, hcount⟩ := dataCount_bounds (Nat.zero_lt_of_lt hsize) hmax
  have hlen : t.body.recipients.length ≤ 2 ^ 32 := by
    unfold transactionSizeMax at hmax
    omega
  have hlimit : feeFailedMaximum.toNat = 100 := rfl
  cases hbody : t.body with
  | payload p =>
    rw [TransactionOf.type, hbody] at htype
    rw [hbody] at hfee hlen
    simp only at hfee
    rw [bodyFee_of_hasOutputs htype] at hfee
    cases hfee
    rw [toNat_transferFee hlen hpos hcount]
    omega
  | _ =>
    rw [TransactionOf.type, hbody] at htype
    cases htype

theorem computeSyntheticRefund_eq_ok
    {n : Nat} {refund : Fee} (hfee : computeTransactionFee c s t = .ok paid)
    (h : computeSyntheticRefund c s t n = .ok refund) :
    paid ≤ feeFailedMaximum ∧ refund = 0 ∨ feeFailedMaximum < paid ∧
      (t.type.hasOutputs = true ∧ refund = feeTransferTokensExtra ∨
        n ≤ 1 ∧ refund = paid - feeFailedMaximum) := by
  unfold computeSyntheticRefund at h
  rw [hfee, Outcome.ok_bind] at h
  split at h
  · rename_i hpaid
    cases h
    exact .inl ⟨hpaid, rfl⟩
  · rename_i hpaid
    refine .inr ⟨UInt64.not_le.1 hpaid, ?_⟩
    split at h
    · rename_i hbody
      cases h
      exact .inl ⟨by simp [TransactionOf.type, hbody, TransactionBody.type, Payload.type,
        TransactionType.hasOutputs], rfl⟩
    · rename_i hbody
      cases h
      exact .inl ⟨by simp [TransactionOf.type, hbody, TransactionBody.type, Payload.type,
        TransactionType.hasOutputs], rfl⟩
    · split at h
      · cases h
      · rename_i hn
        cases h
        exact .inr ⟨not_lt.1 hn, rfl⟩

end Protocol

namespace Executor

variable (x : Executor) {anchorPool : Url} {s s' : Stage} {d : Delivery} {db : Database}
  {l produced : List Transaction} {status : TransactionStatus} {state : ProcessTransactionState}

/-- Setting the origin leaves the number of transactions with an origin alone, and gives
each of them the same refund. -/
theorem feeRefund_withRefund (initiator : Option Url) (refund : Fee) (t : Transaction) :
    (withRefund initiator refund t).body.feeRefund =
      if t.body.origin.isSome then refund.toNat else 0 := by
  unfold withRefund TransactionBody.feeRefund
  simp only [TransactionBody.origin_withOrigin]
  cases t.body.origin <;> rfl

theorem origin_withCause (source t : Transaction) :
    (x.withCause source t).body.origin.isSome = t.body.origin.isSome := by
  simp [withCause, TransactionBody.origin_withOrigin]

theorem countP_withCause (source : Transaction) (l : List Transaction) :
    (l.map (x.withCause source)).countP (·.body.origin.isSome) =
      l.countP (·.body.origin.isSome) := by
  rw [List.countP_map]
  exact List.countP_congr fun t _ => by simp [origin_withCause]

theorem sum_feeRefund_withRefund (initiator : Option Url) (refund : Fee) (l : List Transaction) :
    ((l.map (withRefund initiator refund)).map (·.body.feeRefund)).sum =
      l.countP (·.body.origin.isSome) * refund.toNat := by
  induction l with
  | nil => simp
  | cons t rest ih =>
    rw [List.map_cons, List.map_cons, List.sum_cons, ih, feeRefund_withRefund, List.countP_cons]
    cases t.body.origin.isSome
    · simp
    · simp only [if_true]
      ring

theorem sum_feeRefund_of_countP
    (h : l.countP (·.body.origin.isSome) = 0) : (l.map (·.body.feeRefund)).sum = 0 := by
  rw [List.countP_eq_zero] at h
  refine List.sum_eq_zero fun n hn => ?_
  obtain ⟨t, ht, rfl⟩ := List.mem_map.1 hn
  have hnone := h t ht
  unfold TransactionBody.feeRefund
  cases horigin : t.body.origin with
  | none => rfl
  | some o => simp [horigin] at hnone

theorem setSyntheticOrigin_refunds {source : Transaction}
    (h : x.setSyntheticOrigin db source l = (.ok (), produced)) :
    (produced.map (·.body.feeRefund)).sum = 0 ∨
      ∃ refund, computeSyntheticRefund x.crypto x.active.globals.feeSchedule source
          (l.countP (·.body.origin.isSome)) = .ok refund ∧
        (produced.map (·.body.feeRefund)).sum =
          l.countP (·.body.origin.isSome) * refund.toNat := by
  unfold setSyntheticOrigin at h
  simp only [countP_withCause] at h
  split at h
  · rename_i hcount
    refine .inl (sum_feeRefund_of_countP ?_)
    rw [← (Prod.mk.inj h).2, countP_withCause, hcount]
  · split at h
    · cases h
    · cases h
    · rename_i refund hrefund
      refine .inr ⟨refund, hrefund, ?_⟩
      rw [← (Prod.mk.inj h).2, sum_feeRefund_withRefund, countP_withCause]

/-! ## The number of outputs -/

theorem countP_deposits (token : Url) (isIssuer : Bool) (l : List TokenRecipient) :
    (Tokens.deposits token isIssuer l).countP (·.body.origin.isSome) = l.length := by
  rw [Tokens.deposits, List.countP_map]
  exact List.countP_eq_length.2 fun _ _ => rfl

theorem countP_forwards (t : Transaction) (l : List (Url × List Signature)) :
    (l.map (forwardTransaction t)).countP (·.body.origin.isSome) = 0 := by
  rw [List.countP_map, List.countP_eq_zero]
  intro _ _ h
  cases h

/-- What a delivered user transaction has submitted comes from its executor, which has run
on the principal. -/
theorem producedTxns_of_delivered (hu : d.type.isUser = true)
    (h : x.processTransaction d s = (.ok (status, state), s')) (hcode : status.code = .delivered) :
    ∃ u db result st₀ st executor, x.executors d.type = some executor ∧
      executor.execute (.new d.transaction [])
        (.new x.crypto db (db.account u).main u d.transaction) = (.ok result, st₀) ∧
      StateManager.executeOperations x.crypto st₀.operations st₀ = (.ok (), st) ∧
      state.producedTxns = st.state.producedTxns := by
  obtain ⟨u, status₀, db, result, state₀, s₂, -, -, -, hexec, hrecord⟩ :=
    x.processTransaction_delivered hu h hcode
  obtain ⟨st₀, st, hrun, hops, -, rfl, -⟩ := executeStages_eq_ok hexec
  obtain ⟨executor, hexecutor, hrun⟩ := x.runExecutor_eq_ok hrun
  refine ⟨u, db, result, st₀, st, executor, hexecutor, hrun, hops, ?_⟩
  exact x.recordSuccessfulTransaction_producedTxns (Prod.ext (Prod.mk.inj hrecord).1 rfl)

theorem outputs_le
    (hsend : x.executors .sendTokens = some (SendTokens.executor x.crypto anchorPool))
    (hissue : x.executors .issueTokens = some (IssueTokens.executor x.crypto))
    (htype : d.type.hasOutputs = true) (h : x.processTransaction d s = (.ok (status, state), s'))
    (hcode : status.code = .delivered) :
    state.producedTxns.countP (·.body.origin.isSome) ≤
      d.transaction.body.recipients.length + 1 := by
  have hcases : d.type = .sendTokens ∨ d.type = .issueTokens := by
    simpa [TransactionType.hasOutputs] using htype
  have hu : d.type.isUser = true := by
    rcases hcases with h | h <;> rw [h] <;> rfl
  obtain ⟨u, db, result, st₀, st, executor, hexecutor, hrun, hops, hproduced⟩ :=
    x.producedTxns_of_delivered hu h hcode
  -- neither executor queues an operation
  have hst : st₀.operations = [] → state.producedTxns = st₀.state.producedTxns := by
    intro hnil
    rw [hnil] at hops
    rw [hproduced, ← (Prod.mk.inj hops).2]
  rcases hcases with ht | ht
  · rw [ht, hsend] at hexecutor
    cases hexecutor
    obtain ⟨recipients, account, token, balance, hbody, -, -, -, heffect⟩ :=
      SendTokens.execute_eq_ok hrun
    have hbody : d.transaction.body = .payload (.sendTokens recipients) := hbody
    rw [hst heffect.operations, heffect.produced, hbody]
    change List.countP _ ([] ++ Tokens.deposits token false recipients) ≤ recipients.length + 1
    rw [List.nil_append, countP_deposits]
    omega
  · rw [ht, hissue] at hexecutor
    cases hexecutor
    obtain ⟨recipient, amount, rest, account, issued, hbody, -, -, -, heffect⟩ :=
      IssueTokens.execute_eq_ok hrun
    have hbody : d.transaction.body = .payload (.issueTokens recipient amount rest) := hbody
    rw [hst heffect.operations, heffect.produced, hbody]
    change List.countP _ ([] ++ Tokens.deposits account.url true _) ≤ rest.length + 1
    rw [List.nil_append, countP_deposits]
    cases recipient with
    | none => exact Nat.le_succ _
    | some u => exact le_of_eq (List.length_cons)

/-- **Refunds never exceed the fee.**  For every transaction that has been executed
successfully, and whichever of the transactions it has produced fail, the credits that are
refunded for them are at most what was paid beyond the fee of a failed transaction, and
none if no more than that was paid.  `hsize` is a fact about the encoding: a transaction
takes at least one byte for every recipient in its list and one more. -/
theorem refunds_le_fee {d : Delivery} {s s' : Stage} {db : Database} {status : TransactionStatus}
    {state state' : ProcessTransactionState} {anchorPool : Url} {paid : Fee}
    {produced failing : List Transaction}
    (hsend : x.executors .sendTokens = some (SendTokens.executor x.crypto anchorPool))
    (hissue : x.executors .issueTokens = some (IssueTokens.executor x.crypto))
    (hsize : d.transaction.body.recipients.length < x.crypto.transactionSize d.transaction)
    (h : x.processTransaction d s = (.ok (status, state), s')) (hcode : status.code = .delivered)
    (hremote : x.processRemoteSignatures s'.batch d state = .ok state')
    (hset : x.setSyntheticOrigin db d.transaction state'.producedTxns = (.ok (), produced))
    (hfee : computeTransactionFee x.crypto x.active.globals.feeSchedule d.transaction = .ok paid)
    (hfailing : failing.Sublist produced) :
    (failing.map (·.body.feeRefund)).sum ≤
      if feeFailedMaximum < paid then (paid - feeFailedMaximum).toNat else 0 := by
  have hsub : (failing.map (·.body.feeRefund)).sum ≤ (produced.map (·.body.feeRefund)).sum :=
    (hfailing.map _).sum_le_sum fun _ _ => Nat.zero_le _
  refine hsub.trans ?_
  obtain ⟨l, hforwards⟩ := x.processRemoteSignatures_eq_ok hremote
  have hcount : state'.producedTxns.countP (·.body.origin.isSome) =
      state.producedTxns.countP (·.body.origin.isSome) := by
    rw [hforwards, List.countP_append, countP_forwards, Nat.add_zero]
  rcases x.setSyntheticOrigin_refunds hset with hzero | ⟨refund, hrefund, hsum⟩
  · rw [hzero]
    exact Nat.zero_le _
  rw [hsum, hcount]
  rw [hcount] at hrefund
  rcases computeSyntheticRefund_eq_ok hfee hrefund with
    ⟨hpaid, rfl⟩ | ⟨hpaid, ⟨htype, rfl⟩ | ⟨hone, rfl⟩⟩
  · exact Nat.zero_le _
  · rw [if_pos hpaid]
    calc state.producedTxns.countP (·.body.origin.isSome) * feeTransferTokensExtra.toNat
        ≤ (d.transaction.body.recipients.length + 1) * 100 :=
          Nat.mul_le_mul_right 100 (x.outputs_le hsend hissue htype h hcode)
      _ = 100 * (d.transaction.body.recipients.length + 1) := Nat.mul_comm _ _
      _ ≤ (paid - feeFailedMaximum).toNat := outputs_le_fee htype hsize hfee hpaid
  · rw [if_pos hpaid]
    calc state.producedTxns.countP (·.body.origin.isSome) * (paid - feeFailedMaximum).toNat
        ≤ 1 * (paid - feeFailedMaximum).toNat := Nat.mul_le_mul_right _ hone
      _ = (paid - feeFailedMaximum).toNat := Nat.one_mul _

/-! ### An issue to one recipient -/

def mintPage : KeyPage :=
  ⟨⟨.named "mint", ["book", "1"]⟩, 1000, 1, 1, [⟨[1], 0, none⟩], none⟩

def mintUrl : Url := ⟨.named "mint", ["coin"]⟩

/-- Five coins are issued to one recipient, who is not in the list. -/
def mintDelivery : Delivery :=
  .new ⟨⟨some mintUrl, 101, "", []⟩,
    .payload (.issueTokens (some ⟨.named "alice", ["coins"]⟩) 5 [])⟩ []

def mintNode : Executor :=
  toy ⟨.blockValidator, "y"⟩ (Tokens.executors toyCrypto ⟨.bvn "y", ["anchors"]⟩ fun _ => false)
    Tokens.didFail_user

def mintStart : Database :=
  (Database.empty.setMain mintPage.url (.keyPage mintPage)).setMain mintUrl
    (.tokenIssuer mintUrl [⟨⟨.named "mint", ["book"]⟩, false⟩] "COIN" 0 0 none)

def mintSigned : Database :=
  (mintNode.processSignature mintDelivery
    (.key ⟨.ed25519, [1], [], some mintPage.url, 1, 1, .accept, 0⟩) mintStart).2

def mintExecuted : Outcome Error (TransactionStatus × ProcessTransactionState) × Stage :=
  mintNode.processTransaction mintDelivery ⟨mintSigned, toyGlobals⟩

/-- The fee is 200 credits.  The one deposit that is produced carries a refund of 100, which
is all that the bound allows. -/
theorem mint_refunds_le_fee :
    ∃ status state produced, mintExecuted.1 = .ok (status, state) ∧
      mintNode.setSyntheticOrigin mintExecuted.2.batch mintDelivery.transaction
        state.producedTxns = (.ok (), produced) ∧
      (produced.map (·.body.feeRefund)).sum = 100 ∧
      (produced.map (·.body.feeRefund)).sum ≤ 100 := by
  have hrun : mintExecuted.1.Yields fun r => r.1.code = .delivered ∧
      (mintNode.setSyntheticOrigin mintExecuted.2.batch mintDelivery.transaction
        r.2.producedTxns).1 = .ok () ∧
      ((mintNode.setSyntheticOrigin mintExecuted.2.batch mintDelivery.transaction
        r.2.producedTxns).2.map (·.body.feeRefund)).sum = 100 := by
    decide +kernel
  obtain ⟨⟨status, state⟩, hok, hcode, hset, hsum⟩ := hrun.exists_ok
  refine ⟨status, state, _, hok, Prod.ext hset rfl, hsum, ?_⟩
  have hsend : mintNode.executors .sendTokens =
      some (SendTokens.executor mintNode.crypto ⟨.bvn "y", ["anchors"]⟩) := rfl
  exact mintNode.refunds_le_fee hsend rfl (by decide) (Prod.ext hok rfl) hcode rfl
    (Prod.ext hset rfl) rfl (List.Sublist.refl _)

end Executor

end Accumulate
