import Mathlib.Data.String.Basic
import Accumulate.Database.SignatureSet
import Accumulate.Record.Refine

/-!
# The records of the database

The records of `internal/database/model_gen.go`, with their keys, the values they hold and what
they do when they are committed.  An account that has been changed checks its main state, brings
the index of its synthetic anchors up to date and puts its entry for the Patricia trie, which is a
hash of its main state, its directory, its chains and its pending transactions (`bpt_account.go`).

The records are programs over values with keys; the batches of `Record` say what these programs do.
-/

namespace Accumulate.Database
namespace Records

open Library Protocol Record

/-! ## Keys -/

/-- The name of a chain, as in the index of the chains of an account. -/
def chainName : ChainName → String
  | .main => "main"
  | .scratch => "scratch"
  | .signature => "signature"
  | .root => "root"
  | .anchorSequence => "anchor-sequence"
  | .majorBlock => "major-block"
  | .syntheticSequence partition => "synthetic-sequence(" ++ partition ++ ")"
  | .anchorRoot partition => "anchor(" ++ partition ++ ")-root"
  | .anchorBpt partition => "anchor(" ++ partition ++ ")-bpt"

/-- `Chain2`: a chain of an account, or its index chain.  `Index` panics for an index chain. -/
structure Chain2 where
  chain : ChainName
  isIndex : Bool
  hasIndex : isIndex = true → chain.type ≠ .index
deriving DecidableEq

def Chain2.name (c : Chain2) : String :=
  if c.isIndex then chainName c.chain ++ "-index" else chainName c.chain

inductive ChainField where
  | head
  | states (index : Nat)
  | elementIndex (hash : Hash)
  | element (index : Nat)
deriving DecidableEq, Repr

inductive AccountField where
  | url
  | main
  | pending
  | syntheticForAnchor (anchor : Hash)
  | directory
  | chain (chain : Chain2) (field : ChainField)
  | chains
  | syntheticAnchors
  | dataEntry
  | dataEntryAt (index : Nat)
  | dataTransaction (entryHash : Hash)
deriving DecidableEq

inductive TransactionField where
  | main
  | status
  | produced
  | signatures (signer : Url)
  | chains
deriving DecidableEq, Repr

inductive Key where
  | account (url : Url) (field : AccountField)
  | transaction (hash : Hash) (field : TransactionField)
  | systemData (partition : String) (block : Nat)
deriving DecidableEq

/-! ## Values -/

/-- `Account.Chains`: the chains of an account that have been opened, ordered by their names.  The
set is only written sorted. -/
abbrev ChainIndex : Type := { l : List Chain2 // l.Pairwise fun a b => a.name < b.name }

structure TransactionChainEntry where
  account : Url
  chain : String
  chainIndex : Nat
  anchorIndex : Nat
deriving DecidableEq, Repr

abbrev ChainField.Value : ChainField → Type
  | .head => Smt.MerkleState Hash
  | .states _ => Smt.MerkleState Hash
  | .elementIndex _ => Nat
  | .element _ => Hash

abbrev AccountField.Value : AccountField → Type
  | .url => Url
  | .main => Account
  | .pending => List TxID
  | .syntheticForAnchor _ => List TxID
  | .directory => List Url
  | .chain _ field => field.Value
  | .chains => ChainIndex
  | .syntheticAnchors => List Hash
  | .dataEntry => Nat
  | .dataEntryAt _ => Hash
  | .dataTransaction _ => Hash

abbrev TransactionField.Value : TransactionField → Type
  | .main => SigOrTxn
  | .status => TransactionStatus
  | .produced => List TxID
  | .signatures _ => SigSetData
  | .chains => List TransactionChainEntry

abbrev Key.Value : Key → Type
  | .account _ field => field.Value
  | .transaction _ field => field.Value
  | .systemData _ _ => Nat

structure Encoding where
  marshal : (k : Key) → k.Value → Except Error Bytes
  unmarshal : (k : Key) → Bytes → Except Error k.Value
  /-- SHA-256. -/
  sha256 : Bytes → Hash
  /-- SHA-256 of two concatenated hashes. -/
  combine : Hash → Hash → Hash
  /-- SHA-256 of the string of a URL. -/
  urlHash : Url → Hash
  /-- Go's test for a Unicode letter, number, mark, dash or connector. -/
  isWord : Char → Bool

/-- The labels of the records, without the URL or the hash. -/
def Key.label : Key → String
  | .account _ .url => "account url"
  | .account _ .main => "account main"
  | .account _ .pending => "account pending"
  | .account _ (.syntheticForAnchor _) => "account synthetic for anchor"
  | .account _ .directory => "account directory"
  | .account _ (.chain _ .head) => "account chain head"
  | .account _ (.chain _ (.states _)) => "account chain states"
  | .account _ (.chain _ (.elementIndex _)) => "account chain element index"
  | .account _ (.chain _ (.element _)) => "account chain element"
  | .account _ .chains => "account chains"
  | .account _ .syntheticAnchors => "account synthetic anchors"
  | .account _ .dataEntry => "account data entry"
  | .account _ (.dataEntryAt _) => "account data entry"
  | .account _ (.dataTransaction _) => "account data transaction"
  | .transaction _ .main => "transaction main"
  | .transaction _ .status => "transaction status"
  | .transaction _ .produced => "transaction produced"
  | .transaction _ (.signatures _) => "transaction signatures"
  | .transaction _ .chains => "transaction chains"
  | .systemData _ _ => "system data synthetic index index"

/-- What a missing record is read as.  `NewSet` and the values with `allowMissing` give an empty
value. -/
def Key.new : (k : Key) → Option k.Value
  | .account _ .url => none
  | .account _ .main => none
  | .account _ .pending => some []
  | .account _ (.syntheticForAnchor _) => some []
  | .account _ .directory => some []
  | .account _ (.chain _ .head) => some .empty
  | .account _ (.chain _ (.states _)) => none
  | .account _ (.chain _ (.elementIndex _)) => none
  | .account _ (.chain _ (.element _)) => none
  | .account _ .chains => some ⟨[], .nil⟩
  | .account _ .syntheticAnchors => some []
  | .account _ .dataEntry => some (0 : Nat)
  | .account _ (.dataEntryAt _) => none
  | .account _ (.dataTransaction _) => none
  | .transaction _ .main => none
  | .transaction _ .status => some .new
  | .transaction _ .produced => some []
  | .transaction _ (.signatures _) => some ⟨0, []⟩
  | .transaction _ .chains => some []
  | .systemData _ _ => none

def Encoding.schema (enc : Encoding) : Schema Key Key.Value where
  name := Key.label
  new := Key.new
  marshal := enc.marshal
  unmarshal := enc.unmarshal

/-! ## Programs -/

/-- A program of the records.  An entry for the Patricia trie is the account with its hash. -/
abbrev RecordM (α : Type) : Type := Script Key Key.Value (Url × Hash) Error α

def tryGet (k : Key) : RecordM (Except Error k.Value) := .get k .done

def get (k : Key) : RecordM k.Value :=
  .get k fun
    | .ok v => .done v
    | .error e => .fail e

def put (k : Key) (v : k.Value) : RecordM Unit := .put k v (.done ())

def isDirty (k : Key) : RecordM Bool := .isDirty k .done

def throw {α : Type} (e : Error) : RecordM α := .fail e

def putBptEntry (u : Url) (hash : Hash) : RecordM Unit := .note (u, hash) (.done ())

/-- Compare by name, as the sets of chains do. -/
def compareChain (name : String) (c : Chain2) : Ordering := compare c.name name

def ChainIndex.add (index : ChainIndex) (c : Chain2) : ChainIndex :=
  ⟨(upsert index.1 (compareChain c.name) c).1, pairwise_upsert index.2 rfl⟩

def openChain (u : Url) (c : Chain2) : RecordM (Smt.MerkleState Hash) := do
  let index ← get (.account u .chains)
  if found index.1 (compareChain c.name) then get (.account u (.chain c .head))
  else do
    put (.account u .chains) (ChainIndex.add index c)
    get (.account u (.chain c .head))

section Hash

variable (enc : Encoding)

def Encoding.merkleHash (hashes : List Hash) : Hash :=
  if hashes = [] then 0
  else ((hashes.foldl (Smt.MerkleState.addToMerkleTree enc.combine) .empty).getMDRoot
    enc.combine).getD 0

/-- `hashState` for a value that is encoded. -/
def hashValue (k : Key) (v : k.Value) : RecordM Hash :=
  match enc.marshal k v with
  | .ok b => pure (enc.sha256 b)
  | .error e => throw e

def hashEach {α : Type} (f : α → RecordM (List Hash)) : List α → RecordM (List Hash)
  | [] => pure []
  | a :: rest => do
      let hashes ← f a
      let others ← hashEach f rest
      return hashes ++ others

/-- The hash of the main state, zero if there is none. -/
def hashMain (u : Url) : RecordM Hash := do
  match ← tryGet (.account u .main) with
  | .ok a => hashValue enc (.account u .main) a
  | .error e => if e.is .notFound then pure 0 else throw e

def hashSecondaryState (u : Url) : RecordM Hash := do
  let directory ← get (.account u .directory)
  return enc.merkleHash [enc.merkleHash (List.map enc.urlHash directory)]

def hashChain (u : Url) (c : Chain2) : RecordM (List Hash) := do
  let head ← openChain u c
  if head.count = 0 then return [0] else return [(head.getMDRoot enc.combine).getD 0]

def hashChains (u : Url) : RecordM Hash := do
  let index ← get (.account u .chains)
  let hashes ← hashEach (hashChain enc u) index.1
  return enc.merkleHash hashes

def hashTransaction (txid : TxID) : RecordM (List Hash) := do
  let state ← get (.transaction txid.hash .main)
  let stateHash ← hashValue enc (.transaction txid.hash .main) state
  let status ← get (.transaction txid.hash .status)
  let statusHash ← hashValue enc (.transaction txid.hash .status) status
  return [stateHash, statusHash]

def hashTransactions (u : Url) : RecordM Hash := do
  let pending ← get (.account u .pending)
  let hashes ← hashEach (hashTransaction enc) pending
  return enc.merkleHash hashes

def hashState (u : Url) : RecordM Hash := do
  let main ← hashMain enc u
  let secondary ← hashSecondaryState enc u
  let chains ← hashChains enc u
  let transactions ← hashTransactions enc u
  return enc.merkleHash [main, secondary, chains, transactions]

def populateUrl (u : Url) : RecordM Unit := do
  match ← tryGet (.account u .url) with
  | .ok _ => pure ()
  | .error e => if e.is .notFound then put (.account u .url) u else throw e.wrap

def putBpt (u : Url) : RecordM Unit := do
  populateUrl u
  let hash ← hashState enc u
  putBptEntry u hash

/-! ## Committing records -/

/-- `IsDirty` of a field of an account.  `Counted.IsDirty` gives true for every list of data entries
that has been opened. -/
def fieldIsDirty (u : Url) : AccountField → RecordM Bool
  | .dataEntry => pure true
  | field => isDirty (.account u field)

def accountIsDirty (u : Url) : List AccountField → RecordM Bool
  | [] => pure false
  | field :: rest => do
      if ← fieldIsDirty u field then pure true else accountIsDirty u rest

/-- The checks of `Account.Commit` on a main state that has been changed. -/
def checkMain (u : Url) : RecordM Unit := do
  if ← isDirty (.account u .main) then
    match ← tryGet (.account u .main) with
    | .ok a =>
      if accountUrlMaxLength < (Account.url a).stringLength then
        throw (.new .badUrlLength "url specified exceeds maximum character length")
      else if isValidAccountPath enc.isWord (Account.url a).path then pure ()
      else throw (.new .badRequest "invalid path")
    | .error e => if e.is .notFound then pure () else throw e.wrap
  else pure ()

def indexAnchors (u : Url) : List AccountField → RecordM Unit
  | [] => pure ()
  | .syntheticForAnchor anchor :: rest => do
      if ← isDirty (.account u (.syntheticForAnchor anchor)) then
        let anchors ← get (.account u .syntheticAnchors)
        put (.account u .syntheticAnchors)
          (upsert anchors (fun h : Hash => compare h.toNat anchor.toNat) anchor).1
      indexAnchors u rest
  | _ :: rest => indexAnchors u rest

def commitAccount (u : Url) (fields : List AccountField) : RecordM Unit := do
  if ← accountIsDirty u fields then
    checkMain enc u
    indexAnchors u fields
    putBpt enc u
  else pure ()

end Hash

end Records
end Accumulate.Database
