import Accumulate.Block.Ready

/-!
# Processing signatures

`internal/block/signature.go`: a signature is checked against the signer it names,
the signer pays for it, and it is recorded with the transaction.

Delegated and remote signatures hold another signature, and the inner one is
processed first.  What the recursion finds out is the signer; what is done with
it, `recordSignature`, is the same for every kind of signature up to the points
where the source looks at the kind again.
-/

namespace Accumulate

open Library Protocol Database Accumulate.Core Chain

/-! ## Signers -/

namespace Protocol.Account

def canDebitCredits (amount : Nat) : Account → Bool
  | .liteIdentity _ balance _ => amount ≤ balance
  | .keyPage p => amount ≤ p.creditBalance
  | _ => false

def debitCredits (amount : Nat) : Account → Account
  | .liteIdentity u balance t => .liteIdentity u (balance - amount) t
  | .keyPage p => .keyPage { p with creditBalance := p.creditBalance - amount }
  | a => a

def lastUsedOn (i : Nat) : Account → Nat
  | .liteIdentity _ _ t => t
  | .keyPage p => ((p.keys[i]?).map (·.lastUsedOn)).getD 0
  | _ => 0

def setLastUsedOn (i timestamp : Nat) : Account → Account
  | .liteIdentity u balance _ => .liteIdentity u balance timestamp
  | .keyPage p => .keyPage
      { p with keys := p.keys.modify i fun k => { k with lastUsedOn := timestamp } }
  | a => a

end Protocol.Account

namespace Executor

variable (x : Executor)

def loadSigner (db : Database) (signerUrl : Url) : Outcome Error Account := do
  let account ← (db.getState signerUrl).mapError (.format .unknownError "load signer")
  if account.isSigner then return account
  else .error (.new .badRequest "invalid signer: cannot sign transactions")

def verifyPageIsAuthorized (db : Database) (transaction : Transaction) (signer : Account) :
    Outcome Error Unit :=
  match transaction.header.principal with
  | none => .panic "nil URL"
  | some u => do
      let principal ← (db.getState u).mapError (.format .unknownError "load principal")
      let auth ← (getAccountAuthoritySet db principal).mapError .wrap
      match parseKeyPageUrl signer.url with
      | none => .error (.new .internalError "invalid key page URL")
      | some (signerBook, _) =>
        if auth.hasAuthority signerBook then return ()
        else if auth.authDisabled ∧ !transaction.type.requireAuthorization then return ()
        else .error (.new .unauthorized "not authorized to sign transactions")

/-- The page must not be barred from signing this type of transaction. -/
def isBlacklisted (page : KeyPage) (type : TransactionType) : Bool :=
  match type.allowedTransactionBit, page.transactionBlacklist with
  | some bit, some list => list.testBit bit
  | _, _ => false

def signerIsAuthorized (db : Database) (transaction : Transaction) (signer : Account)
    (checkAuthz : Bool) : Outcome Error Unit :=
  match signer with
  | .liteIdentity u _ _ =>
    match transaction.header.principal with
    | none => .panic "nil URL"
    | some principal =>
      if u = principal.rootIdentity then .ok ()
      else .error (.new .unauthorized "not authorized to sign transactions")
  | .keyPage page =>
    if isBlacklisted page transaction.type then
      .error (.new .unauthorized "page is not authorized to sign")
    else if !checkAuthz then .ok ()
    else (verifyPageIsAuthorized db transaction signer).mapError .wrap
  | .unknownSigner .. =>
    if !checkAuthz then .ok ()
    else (verifyPageIsAuthorized db transaction signer).mapError .wrap
  | _ => .error (.new .internalError "unknown signer type")

/-- Let the transaction executor decide whether the signer is authorized; the result
tells whether it leaves the decision to the general rule. -/
def delegatedIsAuthorized (db : Database) (transaction : Transaction) (signer : Account)
    (md : SignatureValidationMetadata) : Outcome Error Bool :=
  match (x.executors transaction.type).bind (·.signerIsAuthorized) with
  | none => .ok true
  | some isAuthorized => (isAuthorized db transaction signer md).mapError .wrap

/-- The signer a URL names: a lite token address stands for its identity, and a signer
of another identity is not known here. -/
def findSigner (db : Database) (signerUrl location : Option Url) : Outcome Error Account :=
  match signerUrl, location with
  | some signerUrl, some location =>
    let signerUrl :=
      if x.crypto.isLiteTokenAddress signerUrl then signerUrl.rootIdentity else signerUrl
    if !signerUrl.localTo location then .ok (.unknownSigner signerUrl 0)
    else (loadSigner db signerUrl).mapError .wrap
  | _, _ => .panic "nil URL"

def validateSigner (db : Database) (transaction : Transaction) (signerUrl location : Option Url)
    (checkAuthz : Bool) (md : SignatureValidationMetadata) : Outcome Error Account := do
  let signer ← x.findSigner db signerUrl location
  let fallback ← x.delegatedIsAuthorized db transaction signer md
  if !fallback ∨ !transaction.type.isUser then return signer
  else
    (signerIsAuthorized db transaction signer checkAuthz).mapError .wrap
    return signer

/-! ## Key signatures -/

/-- `validateKeySignature`: the key is an entry of the signer and the signature is new.
Returns the position of the entry. -/
def validateKeyEntry (transaction : Transaction) (signer : Account) (signature : KeySignature) :
    Outcome Error Nat :=
  if transaction.type.isUser ∧ signature.signerVersion ≠ (Signer.account signer).version then
    .error (.new .badSignerVersion "invalid version")
  else
    match (Signer.account signer).entryByKeyHash x.crypto (x.crypto.keyHash signature) with
    | none => .error (.new .unauthorized "key does not belong to signer")
    | some i =>
      if transaction.type ≠ .acmeFaucet ∧ signature.timestamp ≠ 0 ∧
          signature.timestamp ≤ signer.lastUsedOn i then
        .error (.new .badTimestamp "invalid timestamp")
      else .ok i

def computeSignerFee (transaction : Transaction) (signature : KeySignature)
    (md : SignatureValidationMetadata) : Outcome Error Fee :=
  match signature.signer with
  | none => .panic "nil URL"
  | some signer =>
    if (parsePartitionUrl signer).isSome then .ok 0
    else do
      let fee ← (computeSignatureFee x.crypto (.key signature)).mapError .wrap
      if !md.isInitiator then return fee
      else
        let txnFee ← (computeTransactionFee x.crypto x.active.globals.feeSchedule
          transaction).mapError .wrap
        return fee + (txnFee - feeSignature)

def errInsufficientCredits : Error := .new .insufficientCredits "insufficient credits"

/-- `processSigner`: validate the signer and, where the principal is local, remember it
in the status of the transaction. -/
def processSigner (transaction : Transaction) (signer : Option Url)
    (md : SignatureValidationMetadata) (checkAuthz : Bool) : Proc Database Error Account := do
  let signer ← Proc.query fun db =>
    (x.validateSigner db transaction signer md.location checkAuthz md).mapError .wrap
  let isLocal ← Proc.lift (localTo transaction.header.principal md.location)
  if !isLocal then return signer
  else
    let db ← Proc.get
    let hash := x.getHash transaction
    Proc.mapError .wrap
      (putStatus hash ((db.transaction hash).status.addSigner (.account signer)))
    return signer

/-- `processKeySignature`: validate the signature, charge the fee and update the
timestamp of the key. -/
def processKeySignature (transaction : Transaction) (signature : KeySignature)
    (md : SignatureValidationMetadata) (checkAuthz : Bool) : Proc Database Error Account := do
  let signer ← Proc.mapError .wrap (x.processSigner transaction signature.signer md checkAuthz)
  let i ← Proc.lift ((x.validateKeyEntry transaction signer signature).mapError .wrap)
  if !transaction.type.isUser then return signer
  else
    let fee ← Proc.lift ((x.computeSignerFee transaction signature md).mapError
      (.format .badRequest "calculating fee"))
    if !signer.canDebitCredits fee.toNat then Proc.throw errInsufficientCredits
    else
      let paid := signer.debitCredits fee.toNat
      let signer :=
        if signature.timestamp ≠ 0 then paid.setLastUsedOn i signature.timestamp else paid
      Proc.mapError (.format .unknownError "store signer") (putState signer.url signer)
      return signer

/-- `validatePartitionSignature`: the key is an active validator of the source. -/
def validatePartitionSignature (signature : KeySignature) (status : TransactionStatus) :
    Outcome Error Signer :=
  match status.sourceNetwork with
  | none => .error (.new .badRequest "missing partition signature")
  | some source =>
    match parsePartitionUrl source with
    | none => .error (.new .badRequest "partition signature source is not a partition")
    | some partition =>
      let signer := x.networkSigner partition
      if (signer.entryByKeyHash x.crypto (x.crypto.keyHash signature)).isSome then .ok signer
      else .error (.new .unauthorized "key is not an active validator")

def processPartitionSignature (transaction : Transaction) (signature : KeySignature) :
    Proc Database Error Signer := do
  let db ← Proc.get
  let hash := x.getHash transaction
  let status := (db.transaction hash).status
  let signer ← Proc.lift ((x.validatePartitionSignature signature status).mapError .wrap)
  let status := status.addSigner signer
  let status :=
    if transaction.type.isAnchor then status.addAnchorSigner signature.publicKey else status
  Proc.mapError .wrap (putStatus hash status)
  return signer

/-! ## System signatures -/

def verifyPartitionSignature (transaction : Transaction) (destinationNetwork : Option Url)
    (md : SignatureValidationMetadata) : Outcome Error Unit :=
  if md.nested then
    .error (.new .badRequest "partition signatures cannot be nested within another signature")
  else if !transaction.type.isSynthetic ∧ !transaction.type.isSystem then
    .error (.plain "partition signatures are not valid for this transaction type")
  else if !md.isInitiator then .error (.plain "partition signatures must be the initiator")
  else if some (x.describe.nodeUrl []) ≠ destinationNetwork then
    .error (.plain "wrong destination network: not this network")
  else .ok ()

def verifyReceiptSignature (transaction : Transaction) (proof : Receipt)
    (md : SignatureValidationMetadata) : Outcome Error Unit :=
  if md.nested then
    .error (.new .badRequest "a receipt signature cannot be nested within another signature")
  else if !transaction.type.isSynthetic ∧ !transaction.type.isSystem then
    .error (.plain "receipt signatures are not valid for this transaction type")
  else if md.isInitiator then .error (.plain "receipt signatures must not be the initiator")
  else if !proof.validate x.crypto.combine then .error (.plain "invalid receipt")
  else .ok ()

def verifyInternalSignature (delivery : Delivery) (md : SignatureValidationMetadata) :
    Outcome Error Unit :=
  if md.nested then
    .error (.new .badRequest "internal signatures cannot be nested within another signature")
  else if !delivery.wasProducedInternally then
    .error (.new .badRequest
      "internal signatures can only be used for transactions produced by a system transaction")
  else if delivery.isForwarded then
    .error (.new .badRequest "internal signatures cannot be forwarded")
  else .ok ()

def checkRouting (delivery : Delivery) (signature : Signature) : Outcome Error Unit :=
  if signature.isSystem ∨ !delivery.type.isUser then .ok ()
  else do
    let location ← signature.routingLocation
    let partition ← (x.router.routeAccount location).mapError .wrap
    if partition = x.describe.partitionId then return ()
    else .error (.new .badRequest "signature submitted to the wrong partition")

def validateInitialSignature (signature : Signature) (md : SignatureValidationMetadata) :
    Outcome Error Unit :=
  match signature with
  | .key k =>
    if md.isInitiator ∧ k.timestamp = 0 then
      .error (.new .badTimestamp "initial signature does not have a timestamp")
    else .ok ()
  | _ => .ok ()

/-- Whether the signer of a key signature or a set has to be authorized: it has, unless
it signs for somebody else or somewhere else. -/
def checkAuthorization (transaction : Transaction) (md : SignatureValidationMetadata) :
    Outcome Error Bool :=
  if md.delegated then .ok false else localTo transaction.header.principal md.location

def verifyOutermost (transaction : Transaction) (signature : Signature)
    (inner : Option Signature) (md : SignatureValidationMetadata) : Outcome Error Bool :=
  if md.nested then .ok true
  else do
    let metadata ← signature.metadata
    return x.crypto.verifyDelegated (x.crypto.signatureHash metadata) (x.getHash transaction) inner

/-- The delegate is an account, and the signer delegates to it. -/
def verifyDelegation (signer : Account) : Option Signer → Outcome Error Account
  | some (.account delegate) =>
    match (Signer.account signer).entryByDelegate delegate.url with
    | some _ => .ok delegate
    | none => .error (.new .unauthorized "not authorized to sign for the delegator")
  | _ => .error (.new .internalError "delegate is not an account")

/-- The metadata `ProcessSignature` and `ValidateSignature` start with. -/
def signatureMetadata (delivery : Delivery) (signature : Signature) :
    Outcome Error SignatureValidationMetadata := do
  let isInitiator ← x.crypto.signatureDidInitiate signature
    delivery.transaction.header.initiator
  let location ← if signature.isSystem then .ok none else signature.routingLocation
  return { location := location, isInitiator := isInitiator, delegated := false
           forwarded := false }

/-! ## Recording a signature -/

/-- The receipt a status holds after another one has arrived. -/
def mergeReceipt (hash : Hash) (old : Option Receipt) (receipt : Receipt) : Outcome Error Receipt :=
  match old with
  | none =>
    if hash = receipt.start then .ok receipt
    else .error (.new .unauthorized "receipt does not match transaction")
  | some proof =>
    if proof.contains x.crypto.combine receipt then .ok proof
    else
      match proof.combineWith receipt with
      | some combined => .ok combined
      | none => .error (.format .unauthorized "combine receipts"
          (.plain "receipts cannot be combined: anchor doesn't match root merkle tree"))

def captureSignature (hash : Hash) (status : TransactionStatus) :
    Signature → Outcome Error TransactionStatus
  | .partition source destination sequenceNumber _ =>
    .ok { status with
      sourceNetwork := source
      destinationNetwork := destination
      sequenceNumber := sequenceNumber }
  | .receipt source proof _ => do
      let merged ← x.mergeReceipt hash status.proof proof
      return { status with
        gotDirectoryReceipt := status.gotDirectoryReceipt || source = some dnUrl
        proof := some merged }
  | _ => .ok status

/-- The signature as it is stored: a delegation by a local signer who is satisfied holds
the full set of the delegate's signatures.  `none` means that the delegate is not
satisfied yet and nothing more is done. -/
def signatureToStore (db : Database) (transaction : Transaction) (signer : Signer)
    (delegate : Option Account) (location : Option Url) (signature : Signature) :
    Outcome Error (Option Signature) :=
  match signature, delegate with
  | .delegated _ delegator, some delegate => do
      let isLocal ← localTo (some delegate.url) location
      if !isLocal then return some signature
      else if !x.signerIsSatisfied db transaction delegate then return none
      else
        let signatures ← (db.getSignaturesForSigner (x.getHash transaction) delegate).mapError .wrap
        return some (.delegated
          (some (.set .accept (some signer.url) (x.getHash transaction) signatures)) delegator)
  | _, _ => .ok (some signature)

def initiatorUrl (signer : Signer) (signature : Signature) : Outcome Error Url :=
  if signature.isSystem then .ok signer.url
  else do
    match ← signature.getSigner with
    | none => .panic "nil URL"
    | some u => return if x.crypto.isLiteTokenAddress u then u.rootIdentity else u

def recordInitiator (signer : Signer) (signature : Signature) (md : SignatureValidationMetadata)
    (status : TransactionStatus) : Outcome Error TransactionStatus :=
  if !md.isInitiator then .ok status
  else do
    let initUrl ← x.initiatorUrl signer signature
    if status.initiator.isSome ∧ status.initiator ≠ some initUrl then
      .error (.new .internalError "initiator is already set and does not match the signature")
    else return { status with initiator := some initUrl }

/-- The position of the signer's entry a signature stands for. -/
def keyEntryIndex (signer : Signer) (delegate : Option Account) : Signature → Nat
  | .delegated _ _ => ((delegate.map (·.url)).bind signer.entryByDelegate).getD 0
  | .key k => (signer.entryByKeyHash x.crypto (x.crypto.keyHash k)).getD 0
  | _ => 0

/-- The signature changes the status of its transaction. -/
def isStatusDirty (signature : Signature) (md : SignatureValidationMetadata) : Bool :=
  md.isInitiator ||
    match signature with
    | .partition .. | .receipt .. => true
    | _ => false

def addToSignatureChain (u : Url) (sigHash : Hash) (db : Database) : Database :=
  db.addEntry x.crypto.combine u .signature sigHash true

/-- The signature is added to the chains of its signer and of the principal, as far as
they are local.  The signatures of synthetic and internal transactions are not. -/
def addToSignatureChains (delivery : Delivery) (signer : Signer) (md : SignatureValidationMetadata)
    (isLocalTxn : Bool) (sigHash : Hash) : Proc Database Error Unit :=
  if !delivery.type.isUser ∨ delivery.wasProducedInternally then pure ()
  else do
    let signerIsLocal ← Proc.lift (localTo (some signer.url) md.location)
    Proc.when signerIsLocal (Proc.modify (x.addToSignatureChain signer.url sigHash))
    match delivery.transaction.header.principal with
    | some principal =>
      Proc.when isLocalTxn (Proc.modify (x.addToSignatureChain principal sigHash))
    | none => pure ()

def storeSignature (delivery : Delivery) (signature sigToStore : Signature)
    (md : SignatureValidationMetadata) (signer : Signer) (delegate : Option Account)
    (isLocalTxn : Bool) : Proc Database Error Unit := do
  let transaction := delivery.transaction
  let sigHash := x.crypto.signatureHash signature
  Proc.modify fun db => db.putTransaction sigHash
    ⟨none, some sigToStore, some (x.crypto.id transaction)⟩
  x.addToSignatureChains delivery signer md isLocalTxn sigHash
  addSignature x.crypto (x.getHash transaction) signer (x.keyEntryIndex signer delegate signature)
    signature

/-- The transaction is local to the signature.  A system signature has no location. -/
def isLocalTransaction (transaction : Transaction) (signature : Signature)
    (md : SignatureValidationMetadata) : Outcome Error Bool :=
  if signature.isSystem then .ok false
  else localTo transaction.header.principal md.location

def recordStatus (delivery : Delivery) (signature : Signature)
    (md : SignatureValidationMetadata) (signer : Signer) (delegate : Option Account)
    (isLocalTxn : Bool) (status : TransactionStatus) :
    Option Signature → Proc Database Error (Option Signer)
  | none => pure (some signer)
  | some sigToStore => do
      let status ← Proc.lift (x.recordInitiator signer signature md status)
      Proc.when (isStatusDirty signature md)
        (Proc.mapError .wrap (putStatus (x.getHash delivery.transaction) status))
      x.storeSignature delivery signature sigToStore md signer delegate isLocalTxn
      return some signer

def recordSignature (delivery : Delivery) (signature : Signature)
    (md : SignatureValidationMetadata) (signer : Signer) (delegate : Option Account) :
    Proc Database Error (Option Signer) := do
  let transaction := delivery.transaction
  let hash := x.getHash transaction
  Proc.lift (validateInitialSignature signature md)
  let isLocalTxn ← Proc.lift (isLocalTransaction transaction signature md)
  Proc.when (isLocalTxn && transaction.type ≠ .remote)
    (Proc.modify fun db => db.putTransaction hash ⟨some transaction, none, none⟩)
  let db ← Proc.get
  let status ← Proc.lift (x.captureSignature hash (db.transaction hash).status signature)
  let stored ← Proc.lift
    (x.signatureToStore db transaction signer delegate md.location signature)
  x.recordStatus delivery signature md signer delegate isLocalTxn status stored

theorem recordSignature_eq_ok {d : Delivery} {sig : Signature} {md : SignatureValidationMetadata}
    {signer : Signer} {delegate : Option Account} {r : Option Signer} {db db' : Database}
    (h : x.recordSignature d sig md signer delegate db = (.ok r, db')) :
    ∃ isLocal db₁ status stored, validateInitialSignature sig md = .ok () ∧
      isLocalTransaction d.transaction sig md = .ok isLocal ∧
      (db₁ = db ∨
        db₁ = db.putTransaction (x.getHash d.transaction) ⟨some d.transaction, none, none⟩) ∧
      x.captureSignature (x.getHash d.transaction)
        (db.transaction (x.getHash d.transaction)).status sig = .ok status ∧
      x.signatureToStore db₁ d.transaction signer delegate md.location sig = .ok stored ∧
      x.recordStatus d sig md signer delegate isLocal status stored db₁ = (.ok r, db') := by
  obtain ⟨_, hvalid, h⟩ := Proc.lift_bind_eq_ok.1 h
  obtain ⟨isLocal, hlocal, h⟩ := Proc.lift_bind_eq_ok.1 h
  obtain ⟨_, db₁, hput, h⟩ := Proc.bind_eq_ok.1 h
  obtain ⟨status, hcapture, h⟩ := Proc.lift_bind_eq_ok.1 h
  obtain ⟨stored, hstored, h⟩ := Proc.lift_bind_eq_ok.1 h
  refine ⟨isLocal, db₁, status, stored, hvalid, hlocal, ?_⟩
  unfold Proc.when at hput
  split at hput
  · cases hput
    rw [putTransaction_status] at hcapture
    exact ⟨.inr rfl, hcapture, hstored, h⟩
  · cases hput
    exact ⟨.inl rfl, hcapture, hstored, h⟩

/-! ## Processing a signature -/

def processKey (delivery : Delivery) (k : KeySignature) (md : SignatureValidationMetadata) :
    Proc Database Error (Option Signer) :=
  if !md.nested ∧ !x.crypto.verifyKeySignature k (x.getHash delivery.transaction) then
    Proc.throw (.new .badRequest "invalid signature")
  else if delivery.type.isUser then do
    let checkAuthz ← Proc.lift (checkAuthorization delivery.transaction md)
    let signer ← x.processKeySignature delivery.transaction k md checkAuthz
    if md.forwarded ∧ md.delegated then return some (.account signer)
    else x.recordSignature delivery (.key k) md (.account signer) none
  else do
    let signer ← Proc.mapError .wrap (x.processPartitionSignature delivery.transaction k)
    x.recordSignature delivery (.key k) md signer none

def processSet (delivery : Delivery) (signature : Signature) (signer : Option Url)
    (md : SignatureValidationMetadata) : Proc Database Error (Option Signer) :=
  if !delivery.isForwarded then
    Proc.throw (.new .badRequest
      "a signature set is not allowed outside of a forwarded transaction")
  else if !md.forwarded then
    Proc.throw (.new .badRequest "a signature set must be nested within another signature")
  else do
    let checkAuthz ← Proc.lift (checkAuthorization delivery.transaction md)
    let signer ← x.processSigner delivery.transaction signer md checkAuthz
    if md.delegated then return some (.account signer)
    else x.recordSignature delivery signature md (.account signer) none

def processDelegator (delivery : Delivery) (signature : Signature) (inner : Option Signature)
    (delegator : Option Url) (md : SignatureValidationMetadata) (s : Option Signer) :
    Proc Database Error (Option Signer) := do
  let verified ← Proc.lift (x.verifyOutermost delivery.transaction signature inner md)
  if !verified then Proc.throw (.new .badRequest "invalid signature")
  else
    let isLocal ← Proc.lift (localTo delegator md.location)
    if !isLocal then return none
    else
      let signer ← Proc.query fun db =>
        (x.validateSigner db delivery.transaction delegator md.location false md).mapError .wrap
      let delegate ← Proc.lift (verifyDelegation signer s)
      x.recordSignature delivery signature md (.account signer) (some delegate)

def processSignatureAt (delivery : Delivery) :
    Signature → SignatureValidationMetadata → Proc Database Error (Option Signer)
  | .key k, md => x.processKey delivery k md
  | .partition source destination n h, md => do
      Proc.lift (x.verifyPartitionSignature delivery.transaction destination md)
      x.recordSignature delivery (.partition source destination n h) md
        (x.networkSigner x.describe.partitionId) none
  | .receipt source proof h, md => do
      Proc.lift (x.verifyReceiptSignature delivery.transaction proof md)
      x.recordSignature delivery (.receipt source proof h) md
        (x.networkSigner x.describe.partitionId) none
  | .internal cause h, md => do
      Proc.lift (verifyInternalSignature delivery md)
      x.recordSignature delivery (.internal cause h) md
        (x.networkSigner x.describe.partitionId) none
  | .set vote signer h signatures, md =>
    x.processSet delivery (.set vote signer h signatures) signer md
  | .remote _ inner, md =>
    if md.nested then
      Proc.throw (.new .badRequest
        "a remote signature cannot be nested within another signature")
    else if !delivery.isForwarded then
      Proc.throw (.new .badRequest
        "a remote signature is not allowed outside of a forwarded transaction")
    else
      match inner with
      | some s => processSignatureAt delivery s md.setForwarded
      | none => Proc.abort Signature.nilSignature
  | .delegated (some inner) delegator, md => do
      let s ← Proc.mapError (.format .unknownError "process delegated signature")
        (processSignatureAt delivery inner md.setDelegated)
      x.processDelegator delivery (.delegated (some inner) delegator) (some inner) delegator md s
  | .delegated none _, _ => Proc.abort Signature.nilSignature

def processSignature (delivery : Delivery) (signature : Signature) :
    Proc Database Error Unit := do
  Proc.lift (x.checkRouting delivery signature)
  let md ← Proc.lift (x.signatureMetadata delivery signature)
  let _ ← x.processSignatureAt delivery signature md

/-! ## Errors

Whatever a signature is rejected with is a failure. -/

section Errors

variable (d : Delivery) (db : Database) (t : Transaction) (k : KeySignature) (signer : Signer)
  (s : Signature) (md : SignatureValidationMetadata) (checkAuthz : Bool)

theorem raises_loadSigner (u : Url) : Outcome.Raises Error.Failing (loadSigner db u) := by
  refine .bind
    (.mapError raises_getState fun e he => he.format _) fun a => ?_
  exact .ite (.ok _) (.error rfl)

theorem raises_verifyPageIsAuthorized (signer : Account) :
    Outcome.Raises Error.Failing (verifyPageIsAuthorized db t signer) := by
  unfold verifyPageIsAuthorized
  split
  · exact .panic _
  refine .bind (.mapError raises_getState
    fun e he => he.format _) fun principal => ?_
  refine .bind (.mapError (raises_accountAuthoritySet _ _)
    fun e he => he.wrap) fun auth => ?_
  split
  · exact .error rfl
  · exact .ite (.ok _)
      (Outcome.Raises.ite (Outcome.Raises.ok _) (Outcome.Raises.error rfl))

theorem raises_signerIsAuthorized (signer : Account) (checkAuthz : Bool) :
    Outcome.Raises Error.Failing (signerIsAuthorized db t signer checkAuthz) := by
  have hpage := Outcome.Raises.mapError (raises_verifyPageIsAuthorized db t signer)
    fun e he => he.wrap
  unfold signerIsAuthorized
  split
  · split
    · exact Outcome.Raises.panic _
    · exact .ite (.ok _) (.error rfl)
  · exact .ite (.error rfl)
      (.ite (.ok _) hpage)
  · exact .ite (.ok _) hpage
  · exact .error rfl

theorem raises_findSigner (u v : Option Url) :
    Outcome.Raises Error.Failing (x.findSigner db u v) := by
  unfold findSigner
  split
  · exact .ite (.ok _)
      (.mapError (raises_loadSigner _ _) fun e he => he.wrap)
  · exact .panic _

theorem raises_validateSigner (u v : Option Url) :
    Outcome.Raises Error.Failing (x.validateSigner db t u v checkAuthz md) := by
  refine .bind (x.raises_findSigner db u v) fun signer => ?_
  refine .bind ?_ fun fallback => ?_
  · unfold delegatedIsAuthorized
    split
    · exact .ok _
    rename_i f hf
    obtain ⟨executor, -, hexecutor⟩ := Option.bind_eq_some_iff.1 hf
    exact .mapError
      (fun e h => executor.signerIsAuthorized_failing f hexecutor _ _ _ _ e h)
      fun e he => he.wrap
  · refine .ite (.ok _) (.bind ?_ fun _ =>
      .ok _)
    exact .mapError (raises_signerIsAuthorized _ _ _ _) fun e he => he.wrap

theorem raises_validateKeyEntry (signer : Account) :
    Outcome.Raises Error.Failing (x.validateKeyEntry t signer k) := by
  refine .ite (.error rfl) ?_
  split
  · exact .error rfl
  · exact .ite (.error rfl) (.ok _)

theorem raises_computeSignerFee : Outcome.Raises Error.Failing (x.computeSignerFee t k md) := by
  unfold computeSignerFee
  split
  · exact .panic _
  refine .ite (.ok _) (.bind
    (.mapError (raises_computeSignatureFee _ _) fun e he => he.wrap) fun fee => ?_)
  refine .ite (.ok _) (.bind
    (.mapError (raises_computeTransactionFee _ _ _) fun e he => he.wrap) fun fee => ?_)
  exact .ok _

theorem raises_processSigner (u : Option Url) :
    Proc.Raises Error.Failing (x.processSigner t u md checkAuthz) := by
  refine .bind (.query fun db => ?_) fun signer => ?_
  · exact Outcome.Raises.mapError (x.raises_validateSigner _ _ _ _ _ _) fun e he => he.wrap
  refine .bind (.lift (raises_localTo _ _)) fun isLocal => ?_
  refine .ite (fun _ => .pure _) fun _ =>
    .bind .get fun db => .bind ?_ fun _ => .pure _
  exact .mapError (raises_putStatus _ _) fun e he => he.wrap

theorem raises_processKeySignature :
    Proc.Raises Error.Failing (x.processKeySignature t k md checkAuthz) := by
  refine .bind (.mapError (x.raises_processSigner _ _ _ _)
    fun e he => he.wrap) fun signer => ?_
  refine .bind (.lift
    (Outcome.Raises.mapError (x.raises_validateKeyEntry _ _ _) fun e he => he.wrap)) fun i => ?_
  refine .ite (fun _ => .pure _) fun _ => ?_
  refine .bind (.lift
    (Outcome.Raises.mapError (x.raises_computeSignerFee _ _ _) fun e he => he.formatAs rfl _))
    fun fee => ?_
  refine .ite (fun _ => .throw rfl) fun _ => ?_
  exact .bind (.mapError (raises_putState _ _) fun e he => he.format _)
    fun _ => .pure _

theorem raises_processPartitionSignature :
    Proc.Raises Error.Failing (x.processPartitionSignature t k) := by
  refine .bind .get fun db => ?_
  refine Proc.Raises.bind (Proc.Raises.lift (Outcome.Raises.mapError ?_ fun e he => he.wrap))
    fun signer => ?_
  · unfold validatePartitionSignature
    split
    · exact Outcome.Raises.error rfl
    · split
      · exact .error rfl
      · exact .ite (.ok _) (.error rfl)
  · exact Proc.Raises.bind (Proc.Raises.mapError (raises_putStatus _ _) fun e he => he.wrap)
      fun _ => .pure _

theorem raises_checkAuthorization : Outcome.Raises Error.Failing (checkAuthorization t md) :=
  .ite (.ok _) (raises_localTo _ _)

theorem raises_checkRouting : Outcome.Raises Error.Failing (x.checkRouting d s) := by
  refine .ite (.ok _) (.bind
    (fun e h => absurd h (s.routingLocation_ne_error e)) fun location => ?_)
  refine .bind (.mapError (Routing.raises_routeAccount _ _)
    fun e he => he.wrap) fun partition => ?_
  exact .ite (.ok _) (.error rfl)

theorem raises_signatureMetadata : Outcome.Raises Error.Failing (x.signatureMetadata d s) := by
  refine .bind (.bind (fun e h => absurd h (x.crypto.didInitiate_ne_error _ e)) fun _ => .ok _)
    fun isInitiator => ?_
  refine .ite (.ok _) ?_
  exact .bind (fun e h => absurd h (s.routingLocation_ne_error e))
    fun location => .ok _

theorem raises_captureSignature (hash : Hash) (status : TransactionStatus) :
    Outcome.Raises Error.Failing (x.captureSignature hash status s) := by
  unfold captureSignature
  split
  · exact .ok _
  · refine .bind ?_ fun merged => .ok _
    unfold mergeReceipt
    split
    · exact .ite (.ok _) (.error rfl)
    refine .ite (.ok _) ?_
    split
    · exact .ok _
    · exact .error rfl
  · exact .ok _

theorem raises_signatureToStore (delegate : Option Account) (location : Option Url) :
    Outcome.Raises Error.Failing (x.signatureToStore db t signer delegate location s) := by
  unfold signatureToStore
  split
  · refine .bind (raises_localTo _ _) fun isLocal => ?_
    refine .ite (.ok _) (.ite (.ok _) ?_)
    exact .bind (.mapError raises_loadSignatures
      fun e he => he.wrap) fun _ => .ok _
  · exact .ok _

theorem raises_recordInitiator (status : TransactionStatus) :
    Outcome.Raises Error.Failing (x.recordInitiator signer s md status) := by
  refine .ite (.ok _) (.bind ?_ fun initUrl =>
    .ite (.error rfl) (.ok _))
  refine .ite (.ok _) (.bind
    (fun e h => absurd h (s.getSigner_ne_error e)) fun u => ?_)
  split
  · exact .panic _
  · exact .ok _

theorem raises_addToSignatureChains (isLocalTxn : Bool) (sigHash : Hash) :
    Proc.Raises Error.Failing (x.addToSignatureChains d signer md isLocalTxn sigHash) := by
  refine .ite (fun _ => .pure _) fun _ => ?_
  refine .bind (.lift (raises_localTo _ _)) fun _ => ?_
  refine .bind (.when _ (.modify _)) fun _ => ?_
  split
  · exact .when _ (.modify _)
  · exact .pure _

theorem raises_recordSignature (delegate : Option Account) :
    Proc.Raises Error.Failing (x.recordSignature d s md signer delegate) := by
  refine .bind (.lift ?_) fun _ => ?_
  · unfold validateInitialSignature
    split
    · exact Outcome.Raises.ite (Outcome.Raises.error rfl) (Outcome.Raises.ok _)
    · exact Outcome.Raises.ok _
  refine Proc.Raises.bind (Proc.Raises.lift (Outcome.Raises.ite (Outcome.Raises.ok _)
    (raises_localTo _ _))) fun isLocalTxn => ?_
  refine .bind (.when _ (.modify _)) fun _ => ?_
  refine .bind .get fun db => ?_
  refine .bind (.lift (x.raises_captureSignature _ _ _)) fun status => ?_
  refine .bind (.lift (x.raises_signatureToStore _ _ _ _ _ _))
    fun stored => ?_
  cases stored with
  | none => exact .pure _
  | some sigToStore =>
    refine .bind (.lift (x.raises_recordInitiator _ _ _ _)) fun status => ?_
    refine .bind (.when _ (.mapError (raises_putStatus _ _)
      fun e he => he.wrap)) fun _ => ?_
    refine .bind ?_ fun _ => .pure _
    refine .bind (.modify _) fun _ => ?_
    exact .bind (x.raises_addToSignatureChains _ _ _ _ _) fun _ =>
      raises_addSignature _ _ _ _ _

theorem raises_processKey : Proc.Raises Error.Failing (x.processKey d k md) := by
  refine .ite (fun _ => .throw rfl) fun _ => .ite ?_ ?_
  · intro _
    refine .bind (.lift (raises_checkAuthorization _ _)) fun checkAuthz => ?_
    refine .bind (x.raises_processKeySignature _ _ _ _) fun signer => ?_
    exact .ite (fun _ => .pure _) fun _ => x.raises_recordSignature _ _ _ _ _
  · intro _
    refine .bind (.mapError (x.raises_processPartitionSignature _ _)
      fun e he => he.wrap) fun signer => ?_
    exact x.raises_recordSignature _ _ _ _ _

theorem raises_processSet (signer : Option Url) :
    Proc.Raises Error.Failing (x.processSet d s signer md) := by
  refine .ite (fun _ => .throw rfl) fun _ =>
    .ite (fun _ => .throw rfl) fun _ => ?_
  refine .bind (.lift (raises_checkAuthorization _ _)) fun checkAuthz => ?_
  refine .bind (x.raises_processSigner _ _ _ _) fun signer => ?_
  exact .ite (fun _ => .pure _) fun _ => x.raises_recordSignature _ _ _ _ _

theorem raises_processDelegator (inner : Option Signature)
    (delegator : Option Url) (signer : Option Signer) :
    Proc.Raises Error.Failing (x.processDelegator d s inner delegator md signer) := by
  refine .bind (.lift ?_) fun verified => ?_
  · refine Outcome.Raises.ite (Outcome.Raises.ok _) (Outcome.Raises.bind
      (fun e h => absurd h (s.metadata_ne_error e)) fun _ => .ok _)
  refine .ite (fun _ => .throw rfl) fun _ => ?_
  refine .bind (.lift (raises_localTo _ _)) fun isLocal => ?_
  refine .ite (fun _ => .pure _) fun _ => ?_
  refine Proc.Raises.bind (Proc.Raises.query fun db => Outcome.Raises.mapError
    (x.raises_validateSigner _ _ _ _ _ _) fun e he => he.wrap) fun signer => ?_
  refine .bind (.lift ?_) fun delegate => x.raises_recordSignature _ _ _ _ _
  unfold verifyDelegation
  split
  · split
    · exact Outcome.Raises.ok _
    · exact Outcome.Raises.error rfl
  · exact Outcome.Raises.error rfl

theorem raises_verifyPartitionSignature (destination : Option Url) :
    Outcome.Raises Error.Failing (x.verifyPartitionSignature t destination md) :=
  .ite (.error rfl) (.ite (.error rfl)
    (.ite (.error rfl)
      (.ite (.error rfl) (.ok _))))

theorem raises_verifyReceiptSignature (proof : Receipt) :
    Outcome.Raises Error.Failing (x.verifyReceiptSignature t proof md) :=
  .ite (.error rfl) (.ite (.error rfl)
    (.ite (.error rfl)
      (.ite (.error rfl) (.ok _))))

theorem raises_verifyInternalSignature :
    Outcome.Raises Error.Failing (verifyInternalSignature d md) :=
  .ite (.error rfl) (.ite (.error rfl)
    (.ite (.error rfl) (.ok _)))

/-- Whatever the signature and whatever is around it, it is rejected with a failure. -/
theorem raises_processSignatureAt (d : Delivery) :
    ∀ (s : Signature) (md : SignatureValidationMetadata),
      Proc.Raises Error.Failing (x.processSignatureAt d s md)
  | .key k, md => x.raises_processKey d k md
  | .partition .., _ =>
    .bind (.lift (x.raises_verifyPartitionSignature _ _ _)) fun _ =>
      x.raises_recordSignature _ _ _ _ _
  | .receipt .., _ =>
    .bind (.lift (x.raises_verifyReceiptSignature _ _ _)) fun _ =>
      x.raises_recordSignature _ _ _ _ _
  | .internal .., _ =>
    .bind (.lift (raises_verifyInternalSignature _ _)) fun _ =>
      x.raises_recordSignature _ _ _ _ _
  | .set .., md => x.raises_processSet d _ md _
  | .remote _ (some s), md =>
    .ite (fun _ => .throw rfl) fun _ =>
      .ite (fun _ => .throw rfl) fun _ =>
        raises_processSignatureAt d s md.setForwarded
  | .remote _ none, _ =>
    .ite (fun _ => .throw rfl) fun _ =>
      .ite (fun _ => .throw rfl) fun _ => .abort _
  | .delegated (some s) _, md =>
    .bind (.mapError (raises_processSignatureAt d s md.setDelegated)
      fun _ he => he.format _) fun _ => x.raises_processDelegator _ _ _ _ _ _
  | .delegated none _, _ => .abort _

theorem raises_processSignature : Proc.Raises Error.Failing (x.processSignature d s) := by
  refine .bind (.lift (x.raises_checkRouting _ _)) fun _ => ?_
  refine .bind (.lift (x.raises_signatureMetadata _ _)) fun md => ?_
  exact .bind (x.raises_processSignatureAt d s md) fun _ => .pure _

end Errors

end Executor

end Accumulate
