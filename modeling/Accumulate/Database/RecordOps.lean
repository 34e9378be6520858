import Accumulate.Database.Batches
import Accumulate.Database.HashState

/-!
# Operations on accounts and transactions

The operations of `account.go`, `chain.go` and `transaction.go` as programs of the records.  All
that an operation on an account does is to write records of that account.  An operation on a
transaction writes records of the transaction; storing a pending status also puts the entry of the
principal into the Patricia trie.
-/

namespace Accumulate.Database
namespace Records

open Library Protocol Record

/-! ## Accounts -/

def putState (u : Url) (a : Account) : RecordM Unit :=
  if u ≠ a.url then throw (.plain "mismatched url")
  else
    match a.fullAuth with
    | some [] => throw (.plain "missing key book")
    | _ => put (.account u .main) a

def addPending (u : Url) (id : TxID) : RecordM Unit := do
  let l ← get (.account u .pending)
  put (.account u .pending) (addTxID l id)

/-- `Account.RemovePending`: nothing is put if the transaction is not there. -/
def removePending (u : Url) (id : TxID) : RecordM Unit := do
  let l : List TxID ← get (.account u .pending)
  if found l (compareTxID · id) then put (.account u .pending) (removeTxID l id) else pure ()

def addSyntheticForAnchor (u : Url) (anchor : Hash) (id : TxID) : RecordM Unit := do
  let l ← get (.account u (.syntheticForAnchor anchor))
  put (.account u (.syntheticForAnchor anchor)) (addTxID l id)

def addDirectory (u v : Url) : RecordM Unit := do
  let l : List Url ← get (.account u .directory)
  put (.account u .directory) (upsert l (·.compare v) v).1

/-- The part of `MerkleManager.AddHash` that appends the hash. -/
def appendHash (enc : Encoding) (u : Url) (c : Chain2) (head : Smt.MerkleState Hash) (hash : Hash) :
    RecordM Unit := do
  put (.account u (.chain c (.element head.count))) hash
  if (head.count + 1) % 2 ^ markPower = 0 then
    -- the end of a mark set: keep the state
    let head := head.addToMerkleTree enc.combine hash
    put (.account u (.chain c (.states (head.count - 1)))) head
    put (.account u (.chain c .head)) head
  else if (head.count + 1) % 2 ^ markPower = 1 then
    -- the first element of a mark set: start a new hash list
    put (.account u (.chain c .head))
      ({ head with hashList := [] }.addToMerkleTree enc.combine hash)
  else put (.account u (.chain c .head)) (head.addToMerkleTree enc.combine hash)

def addHash (enc : Encoding) (u : Url) (c : Chain2) (hash : Hash) (unique : Bool) :
    RecordM Unit := do
  let head ← get (.account u (.chain c .head))
  match ← tryGet (.account u (.chain c (.elementIndex hash))) with
  | .ok _ => if unique then pure () else appendHash enc u c head hash
  | .error e =>
    if e.is .notFound then do
      put (.account u (.chain c (.elementIndex hash))) (Smt.MerkleState.count head)
      appendHash enc u c head hash
    else throw e

def addChainEntry (enc : Encoding) (u : Url) (c : Chain2) (entry : Hash) (unique : Bool) :
    RecordM Unit := do
  let _ ← openChain u c
  addHash enc u c entry unique

/-! ## Transactions -/

/-- The panic of a nil pointer, which ends the operation. -/
def errNilPointer : Error := .plain "nil pointer dereference"

def putStatus (enc : Encoding) (h : Hash) (s : TransactionStatus) : RecordM Unit := do
  put (.transaction h .status) (normalizeStatus s)
  if s.pending then
    let txn : SigOrTxn ← get (.transaction h .main)
    match txn.transaction.bind fun t => t.header.principal with
    | some u => putBpt enc u
    | none => throw errNilPointer
  else pure ()

def loadSigner (signer : Url) : RecordM Signer := do
  match ← tryGet (.account signer .main) with
  | .ok a => if Account.isSigner a then pure (.account a) else throw errCannotAssign
  | .error e =>
    if e.is .notFound then pure (.account (.unknownSigner signer 0))
    else throw (.plainWrap "load signer" e)

def storeSignature (enc : Encoding) (h : Hash) (signer : Signer) (set : SigSetData) :
    RecordM Unit := do
  -- ensureSigner
  let status : TransactionStatus ← get (.transaction h .status)
  putStatus enc h (status.addSigner signer)
  put (.transaction h (.signatures signer.url)) set

def addSignature (enc : Encoding) (c : Crypto) (h : Hash) (signer : Url) (keyEntryIndex : Nat)
    (newSignature : Signature) : RecordM Unit := do
  let signer ← loadSigner signer
  let stored : SigSetData ← get (.transaction h (.signatures signer.url))
  let opened := if stored.version ≠ signer.version then stored.reset signer.version else stored
  let added := opened.add (newSigSetEntry c keyEntryIndex newSignature) newSignature
  if added.2 then storeSignature enc h signer added.1 else pure ()

/-! ## Operations -/

inductive RecordOp where
  | putState (u : Url) (a : Account)
  | addPending (u : Url) (id : TxID)
  | removePending (u : Url) (id : TxID)
  | addSyntheticForAnchor (u : Url) (anchor : Hash) (id : TxID)
  | addDirectory (u v : Url)
  | addChainEntry (u : Url) (c : Chain2) (entry : Hash) (unique : Bool)
  /-- `Put` of a record of an account. -/
  | putAccount (u : Url) (field : AccountField) (v : field.Value)
  | putTransaction (h : Hash) (v : SigOrTxn)
  | putStatus (h : Hash) (s : TransactionStatus)
  | addSignature (h : Hash) (signer : Url) (keyEntryIndex : Nat) (newSignature : Signature)
  | putProduced (h : Hash) (ids : List TxID)
  | putChains (h : Hash) (entries : List TransactionChainEntry)

def RecordOp.program (enc : Encoding) (c : Crypto) : RecordOp → RecordM Unit
  | .putState u a => Records.putState u a
  | .addPending u id => Records.addPending u id
  | .removePending u id => Records.removePending u id
  | .addSyntheticForAnchor u anchor id => Records.addSyntheticForAnchor u anchor id
  | .addDirectory u v => Records.addDirectory u v
  | .addChainEntry u chain entry unique => Records.addChainEntry enc u chain entry unique
  | .putAccount u field v => put (.account u field) v
  | .putTransaction h v => put (.transaction h .main) v
  | .putStatus h s => Records.putStatus enc h s
  | .addSignature h signer i sig => Records.addSignature enc c h signer i sig
  | .putProduced h ids => put (.transaction h .produced) ids
  | .putChains h entries => put (.transaction h .chains) entries

def RecordOp.account? : RecordOp → Option Url
  | .putState u _ | .addPending u _ | .removePending u _ | .addSyntheticForAnchor u _ _
  | .addDirectory u _ | .addChainEntry u _ _ _ | .putAccount u _ _ => some u
  | _ => none

def OfAccount (u : Url) : Key → Prop
  | .account v _ => v = u
  | _ => False

section PutsIn

variable {P : Url × Hash → Prop} {u : Url} (enc : Encoding)

theorem putsIn_appendHash (c : Chain2) (head : Smt.MerkleState Hash) (hash : Hash) :
    (appendHash enc u c head hash).PutsIn (OfAccount u) P := by
  have hK : ∀ f, OfAccount u (.account u f) := fun _ => rfl
  refine (putsIn_put _ (hK _)).bind fun _ => ?_
  refine putsIn_ite ?_ (putsIn_ite (putsIn_put _ (hK _)) (putsIn_put _ (hK _)))
  exact (putsIn_put _ (hK _)).bind fun _ => putsIn_put _ (hK _)

theorem putsIn_addChainEntry (c : Chain2) (entry : Hash) (unique : Bool) :
    (addChainEntry enc u c entry unique).PutsIn (OfAccount u) P := by
  have happend : ∀ head, (appendHash enc u c head entry).PutsIn (OfAccount u) P :=
    fun head => putsIn_appendHash enc c head entry
  have hK : ∀ f, OfAccount u (.account u f) := fun _ => rfl
  refine (putsIn_openChain (hK _) c).bind fun _ => ?_
  refine (putsIn_get _).bind fun head => ?_
  refine (putsIn_tryGet _).bind fun r => ?_
  cases r with
  | ok i => exact putsIn_ite (putsIn_pure _) (happend head)
  | error e =>
    exact putsIn_ite ((putsIn_put _ (hK _)).bind fun _ => happend head) (putsIn_throw e)

theorem RecordOp.putsIn_account {op : RecordOp} (c : Crypto) (h : op.account? = some u) :
    (op.program enc c).PutsIn (OfAccount u) P := by
  cases op with
  | putState v a =>
    cases h
    refine putsIn_ite (putsIn_throw _) ?_
    split
    · exact putsIn_throw _
    · exact putsIn_put _ rfl
  | addPending v id | addSyntheticForAnchor v anchor id | addDirectory v w =>
    cases h
    exact (putsIn_get _).bind fun _ => putsIn_put _ rfl
  | removePending v id =>
    cases h
    exact (putsIn_get _).bind fun _ => putsIn_ite (putsIn_put _ rfl) (putsIn_pure _)
  | addChainEntry v chain entry unique =>
    cases h
    exact putsIn_addChainEntry enc chain entry unique
  | putAccount v field value =>
    cases h
    exact putsIn_put _ rfl
  | _ => cases h

end PutsIn

end Records
end Accumulate.Database
