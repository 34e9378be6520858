import Accumulate.Block.Signature

/-!
# Validating signatures

`ValidateSignature` of `internal/block/validate.go`, which runs before a block and
changes nothing but the temporary status it is given.
-/

namespace Accumulate

open Library Protocol Database Accumulate.Core Chain

def Protocol.delegationDepthLimit : Nat := 20

def Protocol.Error.wrapUnauthenticated (e : Error) : Error :=
  .format .unauthenticated e.message e

namespace Executor

variable (x : Executor)

def validateKeySignature (db : Database) (transaction : Transaction) (signature : KeySignature)
    (md : SignatureValidationMetadata) (checkAuthz : Bool) : Outcome Error Account := do
  let signer ← (x.validateSigner db transaction signature.signer signature.signer checkAuthz
    md).mapError .wrap
  let _ ← (x.validateKeyEntry transaction signer signature).mapError .wrap
  if !transaction.type.isUser then return signer
  else
    let fee ← (x.computeSignerFee transaction signature md).mapError .wrap
    if signer.canDebitCredits fee.toNat then return signer else .error errInsufficientCredits

def validateKey (db : Database) (delivery : Delivery) (k : KeySignature)
    (md : SignatureValidationMetadata) (status : TransactionStatus) : Outcome Error Signer :=
  if !md.nested ∧ !x.crypto.verifyKeySignature k (x.getHash delivery.transaction) then
    .error (.new .badRequest "invalid")
  else if delivery.type.isUser then do
    let checkAuthz ← checkAuthorization delivery.transaction md
    let signer ← (x.validateKeySignature db delivery.transaction k md checkAuthz).mapError
      .wrapUnauthenticated
    return .account signer
  else (x.validatePartitionSignature k status).mapError .wrapUnauthenticated

def validateDelegator (db : Database) (delivery : Delivery) (signature : Signature)
    (inner : Option Signature) (delegator : Option Url) (md : SignatureValidationMetadata)
    (s : Option Signer) : Outcome Error (Option Signer) := do
  let verified ← x.verifyOutermost delivery.transaction signature inner md
  if !verified then .error (.new .badRequest "invalid signature")
  else
    let isLocal ← localTo delegator md.location
    if !isLocal then return none
    else
      let signer ← (x.validateSigner db delivery.transaction delegator md.location false
        md).mapError .wrap
      let _ ← verifyDelegation signer s
      return some (.account signer)

def validatePreamble (delivery : Delivery) (signature : Signature)
    (md : SignatureValidationMetadata) : Outcome Error Unit := do
  x.checkRouting delivery signature
  (validateInitialSignature signature md).mapError .wrap

def validateSignatureAt (db : Database) (delivery : Delivery) :
    Signature → SignatureValidationMetadata → Proc TransactionStatus Error (Option Signer)
  | .partition source destination n h, md => do
      Proc.lift (x.validatePreamble delivery (.partition source destination n h) md)
      Proc.modify fun status =>
        if status.sourceNetwork.isSome then status
        else
          { status with
            sourceNetwork := source, destinationNetwork := destination, sequenceNumber := n }
      Proc.lift ((x.verifyPartitionSignature delivery.transaction destination md).mapError
        .wrapUnauthenticated)
      return some (x.networkSigner x.describe.partitionId)
  | .receipt source proof h, md => do
      Proc.lift (x.validatePreamble delivery (.receipt source proof h) md)
      Proc.lift ((x.verifyReceiptSignature delivery.transaction proof md).mapError
        .wrapUnauthenticated)
      return some (x.networkSigner x.describe.partitionId)
  | .remote destination s, md => do
      Proc.lift (x.validatePreamble delivery (.remote destination s) md)
      Proc.throw (.new .badRequest
        "a remote signature is not allowed outside of a forwarded transaction")
  | .set vote signer h signatures, md => do
      Proc.lift (x.validatePreamble delivery (.set vote signer h signatures) md)
      Proc.throw (.new .badRequest
        "a signature set is not allowed outside of a forwarded transaction")
  | .internal cause h, md => do
      Proc.lift (x.validatePreamble delivery (.internal cause h) md)
      Proc.throw (.new .badRequest "unknown signature type")
  | .key k, md => do
      Proc.lift (x.validatePreamble delivery (.key k) md)
      let signer ← Proc.query (x.validateKey db delivery k md)
      return some signer
  | .delegated (some inner) delegator, md => do
      Proc.lift (x.validatePreamble delivery (.delegated (some inner) delegator) md)
      if !md.nested ∧
          delegationDepth (.delegated (some inner) delegator) > delegationDepthLimit then
        Proc.throw (.new .badRequest "delegated signature exceeded the depth limit")
      else
        let s ← Proc.mapError (.format .unknownError "validate delegated signature")
          (validateSignatureAt db delivery inner md.setDelegated)
        Proc.lift (x.validateDelegator db delivery (.delegated (some inner) delegator)
          (some inner) delegator md s)
  | .delegated none delegator, md => do
      Proc.lift (x.validatePreamble delivery (.delegated none delegator) md)
      Proc.abort Signature.nilSignature

def validateSignature (db : Database) (delivery : Delivery) (signature : Signature) :
    Proc TransactionStatus Error Unit := do
  let md ← Proc.lift (x.signatureMetadata delivery signature)
  let _ ← Proc.mapError .wrap (x.validateSignatureAt db delivery signature md)

end Executor

end Accumulate
