import Accumulate.Database.Batch

/-!
# Signature sets

`internal/database/signature_set.go`: the signatures a transaction has received,
one set per signer.  An entry stands for the signer's key entry with a certain
index; adding a signature for an index that is already there replaces the entry
in memory but is not stored.
-/

namespace Accumulate.Database

open Library Protocol

/-- `sigSetData.Reset`: system and validator signatures survive a version change. -/
def SigSetData.reset (s : SigSetData) (version : Nat) : SigSetData :=
  { version := version
    entries := s.entries.filter fun e => e.type.isSystem || e.validatorKeyHash.isSome }

/-- `SigSetEntry.Compare`: system signatures first, by signature hash, then
validator signatures, by key hash, then the others, by key entry index. -/
def SigSetEntry.compare (s t : SigSetEntry) : Ordering :=
  match s.type.isSystem, t.type.isSystem with
  | true, true => Ord.compare s.signatureHash.toNat t.signatureHash.toNat
  | true, false => .lt
  | false, true => .gt
  | false, false =>
    match s.validatorKeyHash, t.validatorKeyHash with
    | some k, some l => Ord.compare k l
    | some _, none => .lt
    | none, some _ => .gt
    | none, none => Ord.compare s.keyEntryIndex t.keyEntryIndex

/-- `sigSetData.Add`: the set after the insertion and whether an entry was added.
A key signature has to name the signer version the set belongs to, unless it is a
validator's. -/
def SigSetData.add (s : SigSetData) (newEntry : SigSetEntry) (newSignature : Signature) :
    SigSetData × Bool :=
  let rejected :=
    match newSignature with
    | .key k => newEntry.validatorKeyHash.isNone && s.version ≠ k.signerVersion
    | _ => false
  if rejected then (s, false)
  else
    let r := upsert s.entries (·.compare newEntry) newEntry
    ({ s with entries := r.1 }, r.2)

/-- The signature set of a signer as `newSigSet` opens it for writing: an outdated
set is reset. -/
def openSigSet (db : Database) (h : Hash) (signer : Signer) : SigSetData :=
  let s := (db.transaction h).signatures signer.url
  if s.version ≠ signer.version then s.reset signer.version else s

/-- The entry `SignatureSet.Add` makes for a signature.  A key signature whose
signer is the network is a validator's. -/
def newSigSetEntry (c : Crypto) (keyEntryIndex : Nat) (newSignature : Signature) : SigSetEntry :=
  { type := newSignature.type
    keyEntryIndex := keyEntryIndex
    signatureHash := c.signatureHash newSignature
    validatorKeyHash :=
      match newSignature with
      | .key k => if k.signer = some Signer.networkUrl then some (c.keyHash k) else none
      | _ => none }

def addSignature (c : Crypto) (h : Hash) (signer : Signer) (keyEntryIndex : Nat)
    (newSignature : Signature) : Proc Database Error Unit := do
  let db ← Proc.get
  let (s, isNew) := (db.openSigSet h signer).add (newSigSetEntry c keyEntryIndex newSignature)
    newSignature
  if isNew then
    putStatus h ((db.transaction h).status.addSigner signer)
    Proc.modify fun db =>
      db.updateTransaction h fun r =>
        { r with signatures := fun u => if u = signer.url then s else r.signatures u }

/-- `newSigSet` with a URL: a signer that does not exist has version zero. -/
def loadSigSetSigner (db : Database) (u : Url) : Outcome Error Signer :=
  match db.getStateAs u asSigner with
  | .ok a => .ok (.account a)
  | .error e =>
    if e.is .notFound then .ok (.account (.unknownSigner u 0))
    else .error (.plainWrap "load signer" e)
  | .panic m => .panic m

def readSignatures (db : Database) (h : Hash) (signer : Url) :
    Outcome Error (List SigSetEntry) := do
  let signer ← db.loadSigSetSigner signer
  return ((db.transaction h).signatures signer.url).entries

def readSignaturesForSigner (db : Database) (h : Hash) (signer : Account) : List SigSetEntry :=
  ((db.transaction h).signatures signer.url).entries

def loadSignatures (db : Database) : List SigSetEntry → Outcome Error (List Signature)
  | [] => .ok []
  | e :: rest => do
      let state ← (db.getTransaction e.signatureHash).mapError (.plainWrap "load signature entry")
      let signatures ← loadSignatures db rest
      return state.signature.toList ++ signatures

def getSignaturesForSigner (db : Database) (h : Hash) (signer : Account) :
    Outcome Error (List Signature) :=
  loadSignatures db (db.readSignaturesForSigner h signer)

theorem raises_addSignature (c : Crypto) (h : Hash) (signer : Signer) (i : Nat) (s : Signature) :
    Proc.Raises Error.Failing (addSignature c h signer i s) := by
  refine .bind .get fun db => ?_
  refine .ite (fun _ => ?_) fun _ => .pure _
  exact .bind (raises_putStatus _ _) fun _ => .modify _

variable {db : Database} {u : Url}

theorem raises_loadSigSetSigner : Outcome.Raises Error.Failing (db.loadSigSetSigner u) := by
  unfold loadSigSetSigner
  split
  · exact .ok _
  · rename_i he
    exact .ite (.ok _) (.error ((raises_getStateAs _ he).plainWrap _))
  · exact .panic _

theorem raises_readSignatures {k : Hash} : Outcome.Raises Error.Failing (db.readSignatures k u) :=
  .bind raises_loadSigSetSigner fun _ => .ok _

theorem raises_loadSignatures {l : List SigSetEntry} :
    Outcome.Raises Error.Failing (db.loadSignatures l) := by
  induction l with
  | nil => exact .ok _
  | cons entry rest ih =>
    refine .bind (.mapError raises_getTransaction fun e he => he.plainWrap _) fun state => ?_
    exact ih.bind fun signatures => .ok _

end Accumulate.Database
