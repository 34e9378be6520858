import Accumulate.Protocol.Crypto

/-!
# Fees

`protocol/fee_schedule.go`.  A fee is a 64-bit number, and so is the result of
every intermediate step.
-/

namespace Accumulate.Protocol

open Library

abbrev Fee := UInt64

structure FeeSchedule where
  createIdentitySliding : List Fee
deriving DecidableEq, Repr

def feeFailedMaximum : Fee := 100
def feeSignature : Fee := 1
def feeCreateIdentity : Fee := 50000
def feeCreateAccount : Fee := 2500
def feeTransferTokens : Fee := 300
def feeTransferTokensExtra : Fee := 100
def feeCreateToken : Fee := 500000
def feeGeneralSmall : Fee := 10
def feeCreateKeyPage : Fee := 10000
def feeCreateKeyPageExtra : Fee := 100
def feeData : Fee := 10
def feeScratchData : Fee := 1
def feeUpdateAuth : Fee := 300
def feeUpdateAuthExtra : Fee := 100

def transactionSizeMax : Nat := 20480

def signatureSizeMax : Nat := 1024

/-- `dataCount`: the number of 256-byte chunks, the last one started or not. -/
def dataCount (size : Nat) : Nat := size / 256 + if size % 256 ≠ 0 then 1 else 0

/-- `Fee(n-1)` for a length `n`: for an empty list it wraps around. -/
def lessOne (n : Nat) : Fee := UInt64.ofNat n - 1

def delegationDepth : Signature → Nat
  | .delegated (some s) _ => delegationDepth s + 1
  | .delegated none _ => 1
  | _ => 0

def computeSignatureFee (c : Crypto) (sig : Signature) : Outcome Error Fee :=
  let size := c.signatureSize sig
  if size > signatureSizeMax then
    .error (.new .badRequest "signature size exceeds 1024 byte entry limit")
  else
    .ok (feeSignature + feeSignature * lessOne (dataCount size) +
      feeSignature * UInt64.ofNat (delegationDepth sig))

/-- The name of a root identity below `.acme`, when it is one. -/
def acmeName (u : Url) : Option (List Char) :=
  let authority := u.host.toChars
  let tld := ".acme".toList
  if u.path = [] ∧ tld <:+ authority then some (authority.take (authority.length - tld.length))
  else none

/-- The part of the fee of `CreateIdentity` that depends on the name. -/
def FeeSchedule.identityFee (s : Option FeeSchedule) (u : Option Url) : Fee :=
  match s, u.bind acmeName with
  | some s, some name =>
    let length := (name.map Char.utf8Size).sum
    if length = 0 then feeCreateIdentity
    else s.createIdentitySliding[length - 1]?.getD feeCreateIdentity
  | _, _ => feeCreateIdentity

/-- The fee of a body, given the number of chunks the transaction takes. -/
def FeeSchedule.bodyFee (s : Option FeeSchedule) (count : Nat) : Payload → Outcome Error Fee
  | .createToken .. => .ok (feeCreateToken + feeData * lessOne count)
  | .createIdentity u _ _ _ => .ok (feeData * lessOne count + identityFee s u)
  | .createTokenAccount .. => .ok (feeCreateAccount + feeData * lessOne count)
  | .createDataAccount .. => .ok (feeCreateAccount + feeData * lessOne count)
  | .sendTokens recipients => .ok (feeTransferTokens +
      feeTransferTokensExtra * lessOne recipients.length + feeData * lessOne count)
  | .issueTokens _ _ recipients => .ok (feeTransferTokens +
      feeTransferTokensExtra * lessOne recipients.length + feeData * lessOne count)
  | .createLiteTokenAccount => .ok (feeTransferTokens + feeData * lessOne count)
  | .createKeyBook .. => .ok (feeCreateKeyPage + feeData * lessOne count)
  | .createKeyPage keys => .ok (feeCreateKeyPage +
      feeCreateKeyPageExtra * lessOne keys.length + feeData * lessOne count)
  | .updateKeyPage operation => .ok (feeUpdateAuth +
      feeUpdateAuthExtra * lessOne operation.length + feeData * lessOne count)
  | .updateAccountAuth operations => .ok (feeUpdateAuth +
      feeUpdateAuthExtra * lessOne operations.length + feeData * lessOne count)
  | .updateKey _ => .ok (feeUpdateAuth + feeData * lessOne count)
  | .burnTokens _ => .ok (feeGeneralSmall + feeData * lessOne count)
  | .lockAccount _ => .ok (feeGeneralSmall + feeData * lessOne count)
  | .writeData _ scratch writeToState =>
    let fee := UInt64.ofNat count * if scratch then feeScratchData else feeData
    .ok (if writeToState then fee * 2 else fee)
  | .writeDataTo .. => .ok (feeData * UInt64.ofNat count)
  | .addCredits .. => .ok 0
  | .acmeFaucet .. => .ok 0
  | _ => .error (.new .internalError "unknown transaction type")

def computeTransactionFee (c : Crypto) (s : Option FeeSchedule) (tx : Transaction) :
    Outcome Error Fee :=
  match tx.header.principal with
  | none => .panic "nil URL"
  | some principal =>
    if (parsePartitionUrl principal).isSome then .ok 0
    else if !tx.type.isUser then .ok 0
    else if c.transactionSize tx > transactionSizeMax then
      .error (.new .badRequest "transaction size exceeds 20480 byte entry limit")
    else
      match tx.body with
      | .payload p => FeeSchedule.bodyFee s (dataCount (c.transactionSize tx)) p
      | _ => .error (.new .internalError "unknown transaction type")

def computeSyntheticRefund (c : Crypto) (s : Option FeeSchedule) (txn : Transaction)
    (synthCount : Nat) : Outcome Error Fee := do
  let paid ← computeTransactionFee c s txn
  if paid ≤ feeFailedMaximum then return 0
  match txn.body with
  | .payload (.sendTokens _) => return feeTransferTokensExtra
  | .payload (.issueTokens ..) => return feeTransferTokensExtra
  | _ =>
    if synthCount > 1 then
      .error (.new .unknownError "a transaction of this type cannot have multiple outputs")
    else return paid - feeFailedMaximum

theorem computeTransactionFee_returns (c : Crypto) (s : Option FeeSchedule) {tx : Transaction}
    {u : Url} (hp : tx.header.principal = some u) : (computeTransactionFee c s tx).Returns := by
  unfold computeTransactionFee
  rw [hp]
  simp only
  split
  · exact trivial
  split
  · exact trivial
  split
  · exact trivial
  split
  · rename_i p _
    cases p <;> exact trivial
  · exact trivial

theorem raises_computeTransactionFee (c : Crypto) (s : Option FeeSchedule) (tx : Transaction) :
    Outcome.Raises Error.Failing (computeTransactionFee c s tx) := by
  unfold computeTransactionFee
  split
  · exact .panic _
  refine .ite (.ok _) (.ite (.ok _)
    (.ite (.error rfl) ?_))
  split
  · rename_i p _
    cases p <;> first | exact .ok _ | exact .error rfl
  · exact .error rfl

theorem raises_computeSignatureFee (c : Crypto) (sig : Signature) :
    Outcome.Raises Error.Failing (computeSignatureFee c sig) :=
  .ite (.error rfl) (.ok _)

end Accumulate.Protocol
