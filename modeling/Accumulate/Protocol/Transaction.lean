import Accumulate.Protocol.Signature

/-!
# Transactions

Transaction types, bodies, headers and statuses of `protocol`.

The bodies that hold other bodies (an anchor that pushes updates, a forwarded
transaction) make the type recursive.  Everything else is collected in
`Payload`, which has decidable equality; `TransactionBody.equal` is the `Equal`
method of the generated code.
-/

namespace Accumulate.Protocol

open Library

inductive TransactionType where
  | createIdentity
  | createTokenAccount
  | sendTokens
  | createDataAccount
  | writeData
  | writeDataTo
  | acmeFaucet
  | createToken
  | issueTokens
  | burnTokens
  | createLiteTokenAccount
  | createKeyPage
  | createKeyBook
  | addCredits
  | updateKeyPage
  | lockAccount
  | updateAccountAuth
  | updateKey
  | remote
  | syntheticCreateIdentity
  | syntheticWriteData
  | syntheticDepositTokens
  | syntheticDepositCredits
  | syntheticBurnTokens
  | syntheticForwardTransaction
  | systemGenesis
  | directoryAnchor
  | blockValidatorAnchor
  | systemWriteData
deriving DecidableEq, Repr

namespace TransactionType

def enumValue : TransactionType → Nat
  | .createIdentity => 1
  | .createTokenAccount => 2
  | .sendTokens => 3
  | .createDataAccount => 4
  | .writeData => 5
  | .writeDataTo => 6
  | .acmeFaucet => 7
  | .createToken => 8
  | .issueTokens => 9
  | .burnTokens => 10
  | .createLiteTokenAccount => 11
  | .createKeyPage => 12
  | .createKeyBook => 13
  | .addCredits => 14
  | .updateKeyPage => 15
  | .lockAccount => 16
  | .updateAccountAuth => 21
  | .updateKey => 22
  | .remote => 48
  | .syntheticCreateIdentity => 49
  | .syntheticWriteData => 50
  | .syntheticDepositTokens => 51
  | .syntheticDepositCredits => 52
  | .syntheticBurnTokens => 53
  | .syntheticForwardTransaction => 54
  | .systemGenesis => 96
  | .directoryAnchor => 97
  | .blockValidatorAnchor => 98
  | .systemWriteData => 99

def maxUser : Nat := 48

def maxSynthetic : Nat := 95

def maxSystem : Nat := 255

def isUser (t : TransactionType) : Bool := 0 < t.enumValue && t.enumValue ≤ maxUser

def isSynthetic (t : TransactionType) : Bool :=
  maxUser < t.enumValue && t.enumValue ≤ maxSynthetic

def isSystem (t : TransactionType) : Bool :=
  maxSynthetic < t.enumValue && t.enumValue ≤ maxSystem

def isAnchor : TransactionType → Bool
  | .directoryAnchor | .blockValidatorAnchor => true
  | _ => false

def requireAuthorization : TransactionType → Bool
  | .updateAccountAuth => true
  | _ => false

def allowedTransactionBit : TransactionType → Option Nat
  | .updateKeyPage => some 1
  | .updateAccountAuth => some 2
  | _ => none

/-- Genesis and system writes, which are neither sequenced nor proven. -/
def isUnsequenced : TransactionType → Bool
  | .systemGenesis | .systemWriteData => true
  | _ => false

theorem user_or_synthetic_or_system (t : TransactionType) :
    t.isUser = true ∧ t.isSynthetic = false ∧ t.isSystem = false ∨
    t.isUser = false ∧ t.isSynthetic = true ∧ t.isSystem = false ∨
    t.isUser = false ∧ t.isSynthetic = false ∧ t.isSystem = true := by
  cases t <;> decide

variable {t : TransactionType}

theorem isSystem_of_isUser (h : t.isUser = true) : t.isSystem = false := by
  rcases t.user_or_synthetic_or_system with ht | ht | ht
  · exact ht.2.2
  · exact ht.2.2
  · exact absurd h (by simp [ht.1])

theorem isSynthetic_of_isUser (h : t.isUser = true) : t.isSynthetic = false := by
  rcases t.user_or_synthetic_or_system with ht | ht | ht
  · exact ht.2.1
  · exact absurd h (by simp [ht.1])
  · exact ht.2.1

end TransactionType

/-! ## Bodies -/

structure TxID where
  account : Url
  hash : Hash
deriving DecidableEq, Repr

inductive DataEntryType where
  | factom
  | accumulate
deriving DecidableEq, Repr

structure DataEntry where
  type : DataEntryType
  data : List Bytes
deriving DecidableEq, Repr

structure TokenRecipient where
  url : Option Url
  amount : Int
deriving DecidableEq, Repr

structure KeySpecParams where
  keyHash : Bytes
  delegate : Option Url
deriving DecidableEq, Repr

inductive KeyPageOperation where
  | add (entry : KeySpecParams)
  | remove (entry : KeySpecParams)
  | update (oldEntry newEntry : KeySpecParams)
  | setThreshold (threshold : Nat)
  | updateAllowed (allow deny : List TransactionType)
deriving DecidableEq, Repr

inductive AccountAuthOperation where
  | enable (authority : Option Url)
  | disable (authority : Option Url)
  | addAuthority (authority : Option Url)
  | removeAuthority (authority : Option Url)
deriving DecidableEq, Repr

structure SyntheticOrigin where
  cause : Option TxID
  initiator : Option Url
  feeRefund : UInt64
deriving DecidableEq, Repr

/-- The origin of a synthetic transaction that has not been produced yet. -/
def SyntheticOrigin.empty : SyntheticOrigin := ⟨none, none, 0⟩

/-- `TransactionExchangeLedger`: what has been exchanged with one partition. -/
structure TransactionExchangeLedger where
  url : Url
  produced : Nat
  acknowledged : Nat
  received : Nat
  delivered : Nat
  pending : List (Option TxID)
deriving DecidableEq, Repr

/-- The part common to the two anchor bodies, `PartitionAnchor`. -/
structure PartitionAnchor where
  source : Option Url
  majorBlockIndex : Nat
  minorBlockIndex : Nat
  rootChainIndex : Nat
  rootChainAnchor : Hash
  stateTreeAnchor : Hash
  synthetic : List TransactionExchangeLedger
deriving DecidableEq, Repr

structure PartitionAnchorReceipt where
  anchor : PartitionAnchor
  sequenceNumber : Nat
  rootChainReceipt : Receipt
deriving DecidableEq, Repr

/-- The transaction bodies that do not hold other bodies.  A list of authorities with a missing URL,
which the executors refuse, cannot be written down. -/
inductive Payload where
  | createIdentity (url : Option Url) (keyHash : Bytes) (keyBookUrl : Option Url)
      (authorities : List Url)
  | createTokenAccount (url tokenUrl : Option Url) (authorities : List Url)
  | sendTokens (recipients : List TokenRecipient)
  | createDataAccount (url : Option Url) (authorities : List Url)
  | writeData (entry : Option DataEntry) (scratch writeToState : Bool)
  | writeDataTo (recipient : Option Url) (entry : Option DataEntry)
  | acmeFaucet (url : Option Url)
  | createToken (url : Option Url) (symbol : String) (precision : Nat) (supplyLimit : Option Int)
      (authorities : List Url)
  | issueTokens (recipient : Option Url) (amount : Int) (recipients : List TokenRecipient)
  | burnTokens (amount : Int)
  | createLiteTokenAccount
  | createKeyPage (keys : List KeySpecParams)
  | createKeyBook (url : Option Url) (publicKeyHash : Bytes) (authorities : List Url)
  | addCredits (recipient : Option Url) (amount : Int) (oracle : Nat)
  | updateKeyPage (operation : List KeyPageOperation)
  | lockAccount (height : Nat)
  | updateAccountAuth (operations : List AccountAuthOperation)
  | updateKey (newKeyHash : Bytes)
  | remote (hash : Hash)
  | syntheticCreateIdentity (origin : SyntheticOrigin) (accounts : List Bytes)
  | syntheticWriteData (origin : SyntheticOrigin) (entry : Option DataEntry)
  | syntheticDepositTokens (origin : SyntheticOrigin) (token : Option Url) (amount : Int)
      (isIssuer isRefund : Bool)
  | syntheticDepositCredits (origin : SyntheticOrigin) (amount : UInt64)
      (acmeRefundAmount : Option Int) (isRefund : Bool)
  | syntheticBurnTokens (origin : SyntheticOrigin) (amount : Int) (isRefund : Bool)
  | systemGenesis
  | blockValidatorAnchor (anchor : PartitionAnchor) (acmeBurnt : Int)
  | systemWriteData (entry : Option DataEntry) (writeToState : Bool)
deriving DecidableEq, Repr

structure TransactionHeader where
  principal : Option Url
  initiator : Hash
  memo : String
  metadata : Bytes
deriving DecidableEq, Repr

/-- `NetworkAccountUpdate`, over the type of bodies. -/
structure NetworkAccountUpdateOf (β : Type) where
  name : String
  body : β

/-- `Transaction`, over the type of bodies. -/
structure TransactionOf (β : Type) where
  header : TransactionHeader
  body : β

inductive TransactionBody where
  | payload (p : Payload)
  | directoryAnchor (anchor : PartitionAnchor)
      (updates : List (NetworkAccountUpdateOf TransactionBody))
      (receipts : List PartitionAnchorReceipt) (makeMajorBlock : Nat)
  | syntheticForwardTransaction (signatures : List Signature)
      (transaction : Option (TransactionOf TransactionBody))

abbrev NetworkAccountUpdate := NetworkAccountUpdateOf TransactionBody

abbrev Transaction := TransactionOf TransactionBody

/-- The type of a body that holds no other body. -/
def Payload.type : Payload → TransactionType
  | .createIdentity .. => .createIdentity
  | .createTokenAccount .. => .createTokenAccount
  | .sendTokens .. => .sendTokens
  | .createDataAccount .. => .createDataAccount
  | .writeData .. => .writeData
  | .writeDataTo .. => .writeDataTo
  | .acmeFaucet .. => .acmeFaucet
  | .createToken .. => .createToken
  | .issueTokens .. => .issueTokens
  | .burnTokens .. => .burnTokens
  | .createLiteTokenAccount => .createLiteTokenAccount
  | .createKeyPage .. => .createKeyPage
  | .createKeyBook .. => .createKeyBook
  | .addCredits .. => .addCredits
  | .updateKeyPage .. => .updateKeyPage
  | .lockAccount .. => .lockAccount
  | .updateAccountAuth .. => .updateAccountAuth
  | .updateKey .. => .updateKey
  | .remote .. => .remote
  | .syntheticCreateIdentity .. => .syntheticCreateIdentity
  | .syntheticWriteData .. => .syntheticWriteData
  | .syntheticDepositTokens .. => .syntheticDepositTokens
  | .syntheticDepositCredits .. => .syntheticDepositCredits
  | .syntheticBurnTokens .. => .syntheticBurnTokens
  | .systemGenesis => .systemGenesis
  | .blockValidatorAnchor .. => .blockValidatorAnchor
  | .systemWriteData .. => .systemWriteData

def TransactionBody.type : TransactionBody → TransactionType
  | .payload p => p.type
  | .directoryAnchor .. => .directoryAnchor
  | .syntheticForwardTransaction .. => .syntheticForwardTransaction

def TransactionOf.type (t : Transaction) : TransactionType := t.body.type

/-- A transaction that only names another transaction by its hash. -/
def remoteTransaction (hash : Hash) : Transaction :=
  { header := ⟨none, 0, "", []⟩, body := .payload (.remote hash) }

/-- The body is a `SynthTxnWithOrigin`; get its origin. -/
def TransactionBody.origin : TransactionBody → Option SyntheticOrigin
  | .payload (.syntheticCreateIdentity o _) => some o
  | .payload (.syntheticWriteData o _) => some o
  | .payload (.syntheticDepositTokens o _ _ _ _) => some o
  | .payload (.syntheticDepositCredits o _ _ _) => some o
  | .payload (.syntheticBurnTokens o _ _) => some o
  | _ => none

/-- `SetCause` and `SetRefund` of a `SynthTxnWithOrigin`. -/
def TransactionBody.withOrigin (f : SyntheticOrigin → SyntheticOrigin) :
    TransactionBody → TransactionBody
  | .payload (.syntheticCreateIdentity o a) => .payload (.syntheticCreateIdentity (f o) a)
  | .payload (.syntheticWriteData o e) => .payload (.syntheticWriteData (f o) e)
  | .payload (.syntheticDepositTokens o t a i r) =>
    .payload (.syntheticDepositTokens (f o) t a i r)
  | .payload (.syntheticDepositCredits o a c r) =>
    .payload (.syntheticDepositCredits (f o) a c r)
  | .payload (.syntheticBurnTokens o a r) => .payload (.syntheticBurnTokens (f o) a r)
  | body => body

theorem TransactionBody.withOrigin_withOrigin (f g : SyntheticOrigin → SyntheticOrigin)
    (body : TransactionBody) :
    (body.withOrigin f).withOrigin g = body.withOrigin fun o => g (f o) := by
  cases body with
  | payload p => cases p <;> rfl
  | _ => rfl

/-! ## Equality -/

mutual

def Signature.equal : Signature → Signature → Bool
  | .key a, .key b => a = b
  | .partition s d n h, .partition s' d' n' h' => s = s' && d = d' && n = n' && h = h'
  | .receipt s p h, .receipt s' p' h' => s = s' && p = p' && h = h'
  | .internal c h, .internal c' h' => c = c' && h = h'
  | .set v s h l, .set v' s' h' l' => v = v' && s = s' && h = h' && Signature.equalList l l'
  | .remote d s, .remote d' s' => d = d' && Signature.equalOption s s'
  | .delegated s d, .delegated s' d' => Signature.equalOption s s' && d = d'
  | _, _ => false

def Signature.equalOption : Option Signature → Option Signature → Bool
  | none, none => true
  | some s, some s' => Signature.equal s s'
  | _, _ => false

def Signature.equalList : List Signature → List Signature → Bool
  | [], [] => true
  | s :: l, s' :: l' => Signature.equal s s' && Signature.equalList l l'
  | _, _ => false

end

mutual

def TransactionBody.equal : TransactionBody → TransactionBody → Bool
  | .payload a, .payload b => a = b
  | .directoryAnchor a u r m, .directoryAnchor a' u' r' m' =>
    a = a' && TransactionBody.equalUpdates u u' && r = r' && m = m'
  | .syntheticForwardTransaction s t, .syntheticForwardTransaction s' t' =>
    Signature.equalList s s' && TransactionBody.equalTransaction t t'
  | _, _ => false

def TransactionBody.equalUpdates :
    List (NetworkAccountUpdateOf TransactionBody) →
      List (NetworkAccountUpdateOf TransactionBody) → Bool
  | [], [] => true
  | ⟨n, b⟩ :: l, ⟨n', b'⟩ :: l' =>
    n = n' && TransactionBody.equal b b' && TransactionBody.equalUpdates l l'
  | _, _ => false

def TransactionBody.equalTransaction :
    Option (TransactionOf TransactionBody) → Option (TransactionOf TransactionBody) → Bool
  | none, none => true
  | some ⟨h, b⟩, some ⟨h', b'⟩ => h = h' && TransactionBody.equal b b'
  | _, _ => false

end

def TransactionOf.equal (t u : Transaction) : Bool :=
  t.header = u.header && t.body.equal u.body

/-! ## Statuses -/

/-- `TransactionResult`; the contents of a result are not looked at. -/
inductive TransactionResult where
  | empty
  | writeData (entryHash : Hash) (accountUrl : Url)
  | encoded (data : Bytes)
deriving DecidableEq, Repr

/-! ## Envelopes -/

/-- The transaction hash an envelope may carry. -/
inductive EnvelopeHash where
  | missing
  | hash (h : Hash)
  | badLength (n : Nat)
deriving DecidableEq, Repr

/-- `Envelope`.  The decoder does not let a signature be missing at the top level,
and a transaction may be without a body. -/
structure Envelope where
  signatures : List Signature
  txHash : EnvelopeHash
  transaction : List (TransactionOf (Option TransactionBody))

end Accumulate.Protocol
