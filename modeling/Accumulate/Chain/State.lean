import Accumulate.Database.Batch

/-!
# Deliveries and the state manager

What `internal/chain` hands to a transaction executor and gets back from it: the
delivery being executed, the effects a transaction has outside the database
(`ProcessTransactionState`), and the state manager, which collects the writes of
an executor in a batch of its own and commits them when the executor succeeds.
-/

namespace Accumulate.Chain

open Library Protocol Database

/-! ## Deliveries -/

/-- `Delivery`.  Of the parent only the transaction type is ever read; the
accumulated state of a delivery is passed explicitly. -/
structure Delivery where
  parentType : Option TransactionType
  internal : Bool
  signatures : List Signature
  transaction : Transaction
  sequenceNumber : Nat
  sourceNetwork : Option Url

namespace Delivery

def new (transaction : Transaction) (signatures : List Signature) : Delivery :=
  { parentType := none, internal := false, signatures := signatures
    transaction := transaction, sequenceNumber := 0, sourceNetwork := none }

def type (d : Delivery) : TransactionType := d.transaction.type

def newChild (d : Delivery) (transaction : Transaction) (signatures : List Signature) : Delivery :=
  { new transaction signatures with parentType := some d.type }

/-- `NewInternal`: the initiator of the transaction is the metadata hash of an
internal signature caused by the parent. -/
def newInternal (c : Crypto) (d : Delivery) (transaction : Transaction) : Outcome Error Delivery :=
  if d.type.isSystem then
    let cause := c.getHash d.transaction
    let initiator := c.signatureHash (.internal cause 0)
    let txn := { transaction with
      header := { transaction.header with initiator := initiator } }
    .ok { d.newChild txn [.internal cause (c.getHash txn)] with internal := true }
  else
    .panic "illegal attempt to produce an internal transaction outside of a system transaction"

def newSyntheticReceipt (d : Delivery) (hash : Hash) (source : Url) (receipt : Receipt) :
    Delivery :=
  d.newChild (remoteTransaction hash) [.receipt (some source) receipt hash]

def newSyntheticFromSequence (d : Delivery) (hash : Hash) : Delivery :=
  d.newChild (remoteTransaction hash) []

def wasProducedInternally (d : Delivery) : Bool := d.parentType.isSome && d.internal

def wasProducedByPushedUpdate (d : Delivery) : Bool :=
  d.internal && d.parentType = some .directoryAnchor

def isForwarded (d : Delivery) : Bool :=
  d.parentType = some .syntheticForwardTransaction

/-- The first half of `LoadTransaction`: a reference to a transaction is replaced by the
transaction that is stored under the hash, and a transaction has to be the stored one. -/
def resolveTransaction (d : Delivery) : Option SigOrTxn → Outcome Error Delivery
  | some txState =>
    match txState.transaction with
    | some transaction =>
      if d.type = .remote then .ok { d with transaction := transaction }
      else if transaction.equal d.transaction then .ok d
      else .error (.new .internalError
        "submitted transaction does not match the locally stored transaction")
    | none => .panic "nil transaction"
  | none =>
    if d.type = .remote then
      .error (.format .unknownError "load transaction" (.notFound "transaction not found"))
    else .ok d

/-- `LoadTransaction`: find the stored transaction and status.  The source reports a
transaction that has already been executed as an error next to the status; here it is a
flag. -/
def loadTransaction (c : Crypto) (db : Database) (d : Delivery) :
    Outcome Error (Delivery × TransactionStatus × Bool) := do
  let hash := c.getHash d.transaction
  let d ← d.resolveTransaction (db.transaction hash).main
  let status := (db.transaction hash).status
  return (d, status, status.delivered)

/-- `LoadSyntheticMetadata`: the sequence number and source come from the first
signature, or else from the status. -/
def loadSyntheticMetadata (d : Delivery) (status : TransactionStatus) : Outcome Error Delivery :=
  if d.type.isUser ∨ d.type.isUnsequenced then .ok d
  else
    match d.signatures with
    | .partition source _ sequenceNumber _ :: _ =>
      .ok { d with sequenceNumber := sequenceNumber, sourceNetwork := source }
    | _ =>
      if status.sequenceNumber = 0 then
        .error (.new .internalError "synthetic transaction sequence number is missing")
      else
        .ok { d with
          sequenceNumber := status.sequenceNumber, sourceNetwork := status.sourceNetwork }

/-- A delivery is loaded with the stored status, as it is or with the stored transaction. -/
theorem loadTransaction_cases {c : Crypto} {db : Database} {d loaded : Delivery}
    {status : TransactionStatus} {delivered : Bool}
    (h : d.loadTransaction c db = .ok (loaded, status, delivered)) :
    (status = (db.transaction (c.getHash d.transaction)).status ∧ delivered = status.delivered) ∧
      (d.type ≠ .remote ∧ loaded = d ∨
        ∃ v t, (db.transaction (c.getHash d.transaction)).main = some v ∧
          v.transaction = some t ∧ loaded = { d with transaction := t }) := by
  obtain ⟨d', hresolve, h⟩ := Outcome.bind_eq_ok.1 h
  cases h
  refine ⟨⟨rfl, rfl⟩, ?_⟩
  cases hmain : (db.transaction (c.getHash d.transaction)).main with
  | none =>
    rw [hmain, resolveTransaction] at hresolve
    split at hresolve
    · cases hresolve
    · rename_i hremote
      cases hresolve
      exact .inl ⟨hremote, rfl⟩
  | some v =>
    rw [hmain, resolveTransaction] at hresolve
    split at hresolve
    · rename_i t ht
      split at hresolve
      · cases hresolve
        exact .inr ⟨v, t, rfl, ht, rfl⟩
      · rename_i hremote
        split at hresolve
        · cases hresolve
          exact .inl ⟨hremote, rfl⟩
        · cases hresolve
    · cases hresolve

theorem loadTransaction_self {c : Crypto} {db : Database} {d loaded : Delivery}
    {status : TransactionStatus} {delivered : Bool} (hremote : d.type ≠ .remote)
    (h : d.loadTransaction c db = .ok (loaded, status, delivered)) : loaded = d := by
  obtain ⟨d', hresolve, h⟩ := Outcome.bind_eq_ok.1 h
  cases h
  unfold resolveTransaction at hresolve
  simp only [hremote, if_false] at hresolve
  split at hresolve
  · split at hresolve
    · split at hresolve
      · exact (Outcome.ok.inj hresolve).symm
      · cases hresolve
    · cases hresolve
  · exact (Outcome.ok.inj hresolve).symm

end Delivery

/-! ## Effects outside the database -/

structure BlockEntry where
  account : Url
  chain : ChainName
  index : Nat
deriving DecidableEq, Repr

structure SynthTxnEntry where
  account : Url
  transaction : Hash
  chainEntry : Nat
deriving DecidableEq, Repr

structure ChainUpdates where
  entries : List BlockEntry
  synthEntries : List SynthTxnEntry
deriving DecidableEq, Repr

namespace ChainUpdates

def empty : ChainUpdates := ⟨[], []⟩

def merge (c d : ChainUpdates) : ChainUpdates :=
  ⟨c.entries ++ d.entries, c.synthEntries ++ d.synthEntries⟩

/-- The account is the synthetic ledger of some partition. -/
def isSyntheticLedgerUrl (u : Url) : Bool :=
  match parsePartitionUrl u with
  | some partition => (partitionUrl partition).joinPath ["synthetic"] = u
  | none => false

def didAddChainEntry (c : ChainUpdates) (u : Url) (name : ChainName) (entry : Hash)
    (index : Nat) : ChainUpdates :=
  { entries := c.entries ++ [⟨u, name, index⟩]
    synthEntries :=
      if name = .main ∧ isSyntheticLedgerUrl u then c.synthEntries ++ [⟨u, entry, index⟩]
      else c.synthEntries }

/-- `AddChainEntry2`: entries are always added uniquely, whatever the caller asks
for; a duplicate is not recorded.  Returns the index of the entry. -/
def addChainEntry (combine : Hash → Hash → Hash) (db : Database) (c : ChainUpdates) (u : Url)
    (name : ChainName) (entry : Hash) : Database × ChainUpdates × Nat :=
  match (db.chain u name).heightOf entry with
  | some index => (db, c, index)
  | none =>
    (db.addEntry combine u name entry true,
      c.didAddChainEntry u name entry (db.chain u name).height,
      (db.chain u name).height)

theorem addChainEntry_transaction (combine : Hash → Hash → Hash) (db : Database)
    (c : ChainUpdates) (u : Url) (name : ChainName) (entry : Hash) :
    (addChainEntry combine db c u name entry).1.transaction = db.transaction := by
  unfold addChainEntry
  split <;> rfl

end ChainUpdates

structure ReceivedAnchor where
  partition : String
  body : PartitionAnchor
  index : Nat
  status : TransactionStatus

/-- `ProcessTransactionState`.  The time of a major block is left out. -/
structure ProcessTransactionState where
  producedTxns : List Transaction
  additionalTransactions : List Delivery
  chainUpdates : ChainUpdates
  makeMajorBlock : Nat
  receivedAnchors : List ReceivedAnchor

namespace ProcessTransactionState

def new : ProcessTransactionState :=
  { producedTxns := [], additionalTransactions := [], chainUpdates := .empty
    makeMajorBlock := 0, receivedAnchors := [] }

def didProduceTxn (s : ProcessTransactionState) (u : Option Url) (body : TransactionBody) :
    ProcessTransactionState :=
  { s with producedTxns := s.producedTxns ++ [⟨⟨u, 0, "", []⟩, body⟩] }

def didReceiveAnchor (s : ProcessTransactionState) (a : ReceivedAnchor) : ProcessTransactionState :=
  { s with receivedAnchors := s.receivedAnchors ++ [a] }

def processAdditionalTransaction (s : ProcessTransactionState) (d : Delivery) :
    ProcessTransactionState :=
  { s with additionalTransactions := s.additionalTransactions ++ [d] }

end ProcessTransactionState

end Accumulate.Chain
