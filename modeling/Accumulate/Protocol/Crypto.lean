import Accumulate.Protocol.Transaction

/-!
# Hashing, verification and encoding

The functions the protocol takes from SHA-256, the signature schemes and the
generated binary encoding.  They are collected in one record.  Nothing is assumed of
them; a result that needs an assumption states it.
-/

namespace Accumulate.Protocol

open Library

/-- The cryptographic and encoding functions the protocol is built on. -/
structure Crypto where
  /-- `Signature.Hash`: SHA-256 of the marshalled signature. -/
  signatureHash : Signature → Hash
  /-- `Hasher.MerkleHash` of an initiator. -/
  initiatorHash : List InitiatorItem → Hash
  /-- `GetPublicKeyHash`. -/
  publicKeyHash : KeySignatureType → Bytes → Bytes
  /-- `Verify` of a key signature, given the hash of the signature metadata. -/
  verify : KeySignature → Hash → Hash → Bool
  /-- SHA-256 of two concatenated hashes. -/
  combine : Hash → Hash → Hash
  /-- The hash of a transaction that is not just a reference to another one. -/
  transactionHash : Transaction → Hash
  /-- `ParseLiteTokenAddress(u)` finds a key: the host is a key hash with a valid
  checksum and the path is not empty. -/
  isLiteTokenAddress : Url → Bool
  /-- The key hash in the host of a lite identity is the beginning of the given
  key hash. -/
  liteIdentityHasKey : Url → Bytes → Bool
  /-- `len(tx.MarshalBinary())`. -/
  transactionSize : Transaction → Nat
  /-- `len(sig.MarshalBinary())`. -/
  signatureSize : Signature → Nat
  /-- `len(entry.MarshalBinary())`. -/
  dataEntrySize : DataEntry → Nat
  /-- `DataEntry.Hash`. -/
  entryHash : DataEntry → Hash
  /-- The address of the lite data account an entry can create. -/
  liteDataAddress : DataEntry → Url
  /-- Go's test for a Unicode letter, number, mark, dash or connector. -/
  isWord : Char → Bool

namespace Crypto

variable (c : Crypto)

/-- The loop of `SignatureDidInitiate` over the unpacked signatures, with the one it reports. -/
def didInitiate (txnInitHash : Hash) : List (Option Signature) → Outcome Error (Option Signature)
  | [] => .ok none
  | none :: _ => .panic Signature.nilSignature
  | some s :: rest => do
      let metadata ← s.metadata
      if c.signatureHash metadata = txnInitHash then return some s
      match s.initiator with
      | .error _ => return none
      | .panic m => .panic m
      | .ok items =>
        if c.initiatorHash items = txnInitHash then return some s
        didInitiate txnInitHash rest

def signatureDidInitiate (sig : Signature) (txnInitHash : Hash) : Outcome Error Bool := do
  let initiator ← c.didInitiate txnInitHash (unpackSignature sig)
  return initiator.isSome

theorem didInitiate_ne_error {txnInitHash : Hash} (l : List (Option Signature)) (e : Error) :
    c.didInitiate txnInitHash l ≠ .error e := by
  intro h
  induction l with
  | nil => cases h
  | cons s rest ih =>
    cases s with
    | none => cases h
    | some s =>
      rcases Outcome.bind_eq_error.1 h with h | ⟨metadata, -, h⟩
      · exact s.metadata_ne_error e h
      split at h
      · cases h
      split at h
      · cases h
      · cases h
      · split at h
        · cases h
        · exact ih h

def keyHash (k : KeySignature) : Bytes := c.publicKeyHash k.type k.publicKey

def verifyKeySignature (k : KeySignature) (txnHash : Hash) : Bool :=
  c.verify k (c.signatureHash (.key k.metadata)) txnHash

/-- `DelegatedSignature.Verify`: the innermost key signature is verified against
the metadata hash of the outermost delegated signature. -/
def verifyDelegated (sigMdHash txnHash : Hash) : Option Signature → Bool
  | some (.key k) => c.verify k sigMdHash txnHash
  | some (.delegated inner _) => verifyDelegated sigMdHash txnHash inner
  | _ => false

def getHash (t : Transaction) : Hash :=
  match t.body with
  | .payload (.remote hash) => hash
  | _ => c.transactionHash t

def id (t : Transaction) : TxID :=
  { account := t.header.principal.getD ⟨.named "unknown", []⟩, hash := c.getHash t }

end Crypto

end Accumulate.Protocol
