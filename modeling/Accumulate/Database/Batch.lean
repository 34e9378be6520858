import Accumulate.Protocol.Account
import Accumulate.Smt.Chain

/-!
# Batches

The records of `internal/database`: the state of accounts, their pending lists,
chains and indices, and the state, status and signature sets of transactions.

A batch is modelled by the values its records have.  A child batch starts from
the values of its parent; committing it is passing its values on and discarding
it is keeping those of the parent.  The binary Patricia trie and the list of
chains of an account are derived from these values and are left out.
-/

namespace Accumulate.Database

open Library Protocol

/-! ## Records -/

/-- The chains of an account.  A partition name is in lower case. -/
inductive ChainName where
  | main
  | scratch
  | signature
  | root
  | anchorSequence
  | majorBlock
  | syntheticSequence (partition : String)
  | anchorRoot (partition : String)
  | anchorBpt (partition : String)
deriving DecidableEq, Repr

inductive ChainType where
  | transaction
  | anchor
  | index
deriving DecidableEq, Repr

def ChainName.type : ChainName → ChainType
  | .main | .signature | .scratch | .anchorSequence | .syntheticSequence _ => .transaction
  | .root | .anchorRoot _ | .anchorBpt _ => .anchor
  | .majorBlock => .index

/-- `IndexEntry`.  The block time is left out: nothing that is modelled reads it
back. -/
structure IndexEntry where
  source : Nat
  anchor : Nat
  blockIndex : Nat
  rootIndexIndex : Nat
deriving DecidableEq, Repr

def markPower : Nat := 8

structure AccountRecord where
  main : Option Account
  pending : List TxID
  syntheticForAnchor : Hash → List TxID
  directory : List Url
  chains : ChainName → Smt.Chain Hash
  /-- The index chain of a chain.  Its entries are encoded index entries; they are
  kept decoded. -/
  index : ChainName → List IndexEntry
  dataEntries : List Hash
  dataTransaction : Hash → Option Hash

def AccountRecord.empty : AccountRecord :=
  { main := none, pending := [], syntheticForAnchor := fun _ => [], directory := []
    chains := fun _ => Smt.Chain.new markPower, index := fun _ => []
    dataEntries := [], dataTransaction := fun _ => none }

structure SigOrTxn where
  transaction : Option Transaction
  signature : Option Signature
  txid : Option TxID

structure SigSetEntry where
  type : SignatureType
  keyEntryIndex : Nat
  signatureHash : Hash
  validatorKeyHash : Option Bytes
deriving DecidableEq, Repr

structure SigSetData where
  version : Nat
  entries : List SigSetEntry
deriving DecidableEq, Repr

structure TransactionRecord where
  main : Option SigOrTxn
  status : TransactionStatus
  produced : List TxID
  signatures : Url → SigSetData

def TransactionRecord.empty : TransactionRecord :=
  { main := none, status := .new, produced := [], signatures := fun _ => ⟨0, []⟩ }

end Database

/-- `database.Batch`. -/
structure Database where
  account : Protocol.Url → Database.AccountRecord
  transaction : Protocol.Hash → Database.TransactionRecord
  /-- The synthetic index chain index of each block, `SystemData.SyntheticIndexIndex`. -/
  syntheticIndexIndex : Nat → Option Nat

namespace Database

open Library Protocol

def empty : Database :=
  { account := fun _ => .empty, transaction := fun _ => .empty
    syntheticIndexIndex := fun _ => none }

def updateAccount (db : Database) (u : Url) (f : AccountRecord → AccountRecord) : Database :=
  { db with account := fun v => if v = u then f (db.account u) else db.account v }

def updateTransaction (db : Database) (h : Hash) (f : TransactionRecord → TransactionRecord) :
    Database :=
  { db with transaction := fun k => if k = h then f (db.transaction h) else db.transaction k }

section Update

variable (db : Database) (u v : Url) (h k : Hash)
variable (f : AccountRecord → AccountRecord) (g : TransactionRecord → TransactionRecord)

@[simp] theorem updateAccount_account_self :
    (db.updateAccount u f).account u = f (db.account u) := by
  simp [updateAccount]

theorem updateAccount_account :
    (db.updateAccount u f).account v = if v = u then f (db.account u) else db.account v := rfl

theorem updateAccount_account_of_ne (hv : v ≠ u) :
    (db.updateAccount u f).account v = db.account v := by
  simp [updateAccount, hv]

@[simp] theorem updateTransaction_transaction_self :
    (db.updateTransaction h g).transaction h = g (db.transaction h) := by
  simp [updateTransaction]

theorem updateTransaction_transaction :
    (db.updateTransaction h g).transaction k =
      if k = h then g (db.transaction h) else db.transaction k := rfl

theorem updateTransaction_transaction_of_ne (hk : k ≠ h) :
    (db.updateTransaction h g).transaction k = db.transaction k := by
  simp [updateTransaction, hk]

end Update

/-! ## Account state -/

def getState (db : Database) (u : Url) : Outcome Error Account :=
  match (db.account u).main with
  | some a => .ok a
  | none => .error (.notFound "account main state not found")

/-- The error of `encoding.SetPtr` for a value of another type. -/
def errCannotAssign : Error := .wrap (.plain "cannot assign")

/-- `Account.GetStateAs`: load the state and coerce it. -/
def getStateAs {α : Type} (db : Database) (u : Url) (as : Account → Option α) :
    Outcome Error α := do
  let a ← db.getState u
  match as a with
  | some v => return v
  | none => .error errCannotAssign

def asSigner (a : Account) : Option Account := if a.isSigner then some a else none

def asSyntheticLedger : Account → Option SyntheticLedger
  | .syntheticLedger l => some l
  | _ => none

def asAnchorLedger : Account → Option AnchorLedger
  | .anchorLedger l => some l
  | _ => none

def asSystemLedger : Account → Option SystemLedger
  | .systemLedger l => some l
  | _ => none

def asKeyPage : Account → Option KeyPage
  | .keyPage p => some p
  | _ => none

def setMain (db : Database) (u : Url) (a : Account) : Database :=
  db.updateAccount u fun r => { r with main := some a }

def putState (u : Url) (a : Account) : Proc Database Error Unit := do
  if u ≠ a.url then
    Proc.throw (.plain "mismatched url")
  else
    match a.fullAuth with
    | some [] => Proc.throw (.plain "missing key book")
    | _ => Proc.modify fun db => db.setMain u a

variable {db : Database} {e : Error} {u : Url} {a : Account}

theorem getState_eq_ok : db.getState u = .ok a ↔ (db.account u).main = some a := by
  unfold getState
  cases (db.account u).main <;> simp

theorem getStateAs_eq_ok {α : Type} {as : Account → Option α} {v : α} :
    db.getStateAs u as = .ok v ↔ ∃ a, (db.account u).main = some a ∧ as a = some v := by
  simp only [getStateAs, Outcome.bind_eq_ok, getState_eq_ok]
  refine exists_congr fun a => and_congr_right fun _ => ?_
  cases as a <;> simp

theorem raises_getState : Outcome.Raises Error.Failing (db.getState u) := by
  unfold getState
  split
  · exact .ok _
  · exact .error rfl

theorem raises_getStateAs {α : Type} {as : Account → Option α} :
    Outcome.Raises Error.Failing (db.getStateAs u as) := by
  refine .bind raises_getState fun a => ?_
  split
  · exact .ok _
  · exact .error rfl

theorem putState_cases (u : Url) (a : Account) (db : Database) :
    (u = a.url ∧ a.fullAuth ≠ some [] ∧ putState u a db = (.ok (), db.setMain u a)) ∨
      (u = a.url → a.fullAuth = some []) ∧
        ∃ e, Error.Failing e ∧ putState u a db = (.error e, db) := by
  unfold putState
  split
  · rename_i hu
    exact .inr ⟨fun h => absurd h hu, .plain "mismatched url", rfl, rfl⟩
  rename_i hu
  match a.fullAuth with
  | some [] => exact .inr ⟨fun _ => rfl, .plain "missing key book", rfl, rfl⟩
  | none | some (entry :: rest) => exact .inl ⟨not_not.1 hu, nofun, rfl⟩

theorem putState_eq_ok {db' : Database} (h : putState u a db = (.ok (), db')) :
    u = a.url ∧ a.fullAuth ≠ some [] ∧ db' = db.setMain u a := by
  rcases putState_cases u a db with ⟨hu, hauth, hput⟩ | ⟨-, e, -, hput⟩
  · rw [hput] at h
    cases h
    exact ⟨hu, hauth, rfl⟩
  · rw [hput] at h
    cases h

theorem aborts_putState (u : Url) (a : Account) : Proc.Aborts Error.Failing (putState u a) := by
  intro db e db' h
  rcases putState_cases u a db with ⟨-, -, hput⟩ | ⟨-, e', he, hput⟩
  · rw [hput] at h
    cases h
  · rw [hput] at h
    cases h
    exact ⟨he, rfl⟩

theorem raises_putState (u : Url) (a : Account) : Proc.Raises Error.Failing (putState u a) := by
  intro db e h
  exact (aborts_putState u a db e _ (Prod.ext h rfl)).1

/-! ## Sets -/

def compareTxID (x y : TxID) : Ordering :=
  if x.hash ≠ y.hash then compare x.hash.toNat y.hash.toNat else x.account.compare y.account

def addTxID (l : List TxID) (id : TxID) : List TxID := (upsert l (compareTxID · id) id).1

def removeTxID (l : List TxID) (id : TxID) : List TxID :=
  if found l (compareTxID · id) then l.eraseIdx (search l (compareTxID · id)) else l

def addPending (db : Database) (u : Url) (id : TxID) : Database :=
  db.updateAccount u fun r => { r with pending := addTxID r.pending id }

def removePending (db : Database) (u : Url) (id : TxID) : Database :=
  db.updateAccount u fun r => { r with pending := removeTxID r.pending id }

def addSyntheticForAnchor (db : Database) (u : Url) (anchor : Hash) (id : TxID) : Database :=
  db.updateAccount u fun r =>
    { r with
      syntheticForAnchor := fun h =>
        if h = anchor then addTxID (r.syntheticForAnchor anchor) id else r.syntheticForAnchor h }

/-! ## Chains -/

def updateChain (db : Database) (u : Url) (name : ChainName)
    (f : Smt.Chain Hash → Smt.Chain Hash) : Database :=
  db.updateAccount u fun r =>
    { r with chains := fun n => if n = name then f (r.chains name) else r.chains n }

def chain (db : Database) (u : Url) (name : ChainName) : Smt.Chain Hash :=
  (db.account u).chains name

def addEntry (combine : Hash → Hash → Hash) (db : Database) (u : Url) (name : ChainName)
    (entry : Hash) (unique : Bool) : Database :=
  db.updateChain u name fun c => c.addHash combine entry unique

/-- `addIndexChainEntry`: the new entry's index is the old length of the index
chain. -/
def addIndexChainEntry (db : Database) (u : Url) (name : ChainName) (entry : IndexEntry) :
    Database :=
  db.updateAccount u fun r =>
    { r with index := fun n => if n = name then r.index name ++ [entry] else r.index n }

/-! ## Transactions -/

def getTransaction (db : Database) (h : Hash) : Outcome Error SigOrTxn :=
  match (db.transaction h).main with
  | some v => .ok v
  | none => .error (.notFound "transaction not found")

def putTransaction (db : Database) (h : Hash) (v : SigOrTxn) : Database :=
  db.updateTransaction h fun r => { r with main := some v }

/-- `PutStatus` sets the result to the empty result when it is not set. -/
def normalizeStatus (s : TransactionStatus) : TransactionStatus :=
  { s with result := some (s.result.getD .empty) }

def setStatus (db : Database) (h : Hash) (s : TransactionStatus) : Database :=
  db.updateTransaction h fun r => { r with status := normalizeStatus s }

section Status

variable (db : Database) (h k : Hash) (v : SigOrTxn) (s : TransactionStatus)

@[simp] theorem normalizeStatus_failed : (normalizeStatus s).failed = s.failed := rfl

@[simp] theorem normalizeStatus_pending : (normalizeStatus s).pending = s.pending := rfl

@[simp] theorem putTransaction_main_self :
    ((db.putTransaction h v).transaction h).main = some v := by
  simp [putTransaction]

@[simp] theorem putTransaction_status :
    ((db.putTransaction h v).transaction k).status = (db.transaction k).status := by
  simp only [putTransaction, updateTransaction_transaction]
  split <;> simp_all

@[simp] theorem setStatus_status_self :
    ((db.setStatus h s).transaction h).status = normalizeStatus s := by
  simp [setStatus]

@[simp] theorem setStatus_main :
    ((db.setStatus h s).transaction k).main = (db.transaction k).main := by
  simp only [setStatus, updateTransaction_transaction]
  split <;> simp_all

@[simp] theorem setStatus_signatures :
    ((db.setStatus h s).transaction k).signatures = (db.transaction k).signatures := by
  simp only [setStatus, updateTransaction_transaction]
  split <;> simp_all

end Status

/-- `Transaction.PutStatus`: for a pending status the transaction itself is
loaded, to find the principal's entry in the Patricia trie. -/
def putStatus (h : Hash) (s : TransactionStatus) : Proc Database Error Unit := do
  Proc.modify fun db => db.setStatus h s
  if s.pending then
    let db ← Proc.get
    let _ ← Proc.lift (db.getTransaction h)
    return ()

variable {h : Hash} {s : TransactionStatus}

theorem raises_getTransaction : Outcome.Raises Error.Failing (db.getTransaction h) := by
  unfold getTransaction
  split
  · exact .ok _
  · exact .error rfl

theorem raises_putStatus (h : Hash) (s : TransactionStatus) :
    Proc.Raises Error.Failing (putStatus h s) := by
  refine .bind (.modify _) fun _ => .ite (fun _ => ?_)
    fun _ => .pure _
  exact .bind .get fun db => .bind (.lift raises_getTransaction) fun _ => .pure _

theorem putStatus_run (hmain : s.pending = true → ((db.transaction h).main).isSome = true) :
    putStatus h s db = (.ok (), db.setStatus h s) := by
  unfold putStatus
  rw [Proc.bind_run]
  simp only [Proc.modify_run]
  split
  · rename_i hp
    obtain ⟨v, hv⟩ := Option.isSome_iff_exists.1 (hmain hp)
    have hget : (db.setStatus h s).getTransaction h = .ok v := by
      simp [getTransaction, hv]
    simp only [Proc.bind_run, Proc.get_run, Proc.lift_run, hget, Proc.pure_run]
  · rfl

theorem putStatus_snd (db : Database) : (putStatus h s db).2 = db.setStatus h s := by
  unfold putStatus
  rw [Proc.modify_bind_run]
  split
  · rw [Proc.get_bind_run]
    cases (db.setStatus h s).getTransaction h <;> rfl
  · rfl

theorem keeps_putStatus {R : Database → Database → Prop} (hR : ∀ db, R db (db.setStatus h s)) :
    Proc.Keeps R (putStatus h s) := by
  intro db
  rw [putStatus_snd]
  exact hR db

theorem putStatus_eq_ok {db' : Database} {u : Unit}
    (hput : putStatus h s db = (.ok u, db')) : db' = db.setStatus h s := by
  rw [← putStatus_snd, hput]

def addSyntheticTxns (db : Database) (h : Hash) (ids : List TxID) : Database :=
  db.updateTransaction h fun r => { r with produced := ids.foldl addTxID r.produced }

end Accumulate.Database
