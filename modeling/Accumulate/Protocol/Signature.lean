import Accumulate.Library.Proc
import Accumulate.Protocol.Errors
import Accumulate.Protocol.Url
import Accumulate.Smt.Receipt

/-!
# Signatures

The signature kinds of `protocol/signature.go`.  Every field the binary decoder
leaves optional is an `Option`: a signature can arrive without a signer, without
a destination, and a wrapper can arrive without the signature it wraps.

Several methods of the source are partial.  `ReceiptSignature` and
`InternalSignature` panic when asked for a signer or a routing location,
`PartitionSignature` when asked for a signer, sets and remote signatures when
asked for their metadata, and a wrapper forwards to an inner signature that may
be missing.  The methods below return an `Outcome` so that these panics are
visible.
-/

namespace Accumulate.Protocol

open Library

abbrev Hash := BitVec 256

abbrev Bytes := List UInt8

def Bytes.digits (b : Bytes) : List Nat := b.map UInt8.toNat

theorem Bytes.compare_eq (a b : Bytes) :
    compare a b = @compare _ List.instLinearOrder.toOrd a.digits b.digits := by
  apply compare_list_map
  intro a b
  show compareOfLessAndEq a b = compareOfLessAndEq a.toNat b.toNat
  unfold compareOfLessAndEq
  simp [UInt8.lt_iff_toNat_lt, UInt8.toNat_inj]

theorem Bytes.digits_injective : Function.Injective Bytes.digits :=
  List.map_injective_iff.2 fun _ _ => UInt8.toNat_inj.1

/-- `managed.Receipt` over 32-byte hashes. -/
abbrev Receipt := Smt.Receipt Hash

inductive VoteType where
  | accept
  | reject
  | abstain
  | suggest
deriving DecidableEq, Repr

inductive SignatureType where
  | legacyED25519
  | ed25519
  | rcd1
  | btc
  | btcLegacy
  | eth
  | partition
  | receipt
  | internal
  | set
  | remote
  | delegated
deriving DecidableEq, Repr

def SignatureType.isSystem : SignatureType → Bool
  | .partition | .receipt | .internal => true
  | _ => false

/-- The six kinds of private-key signatures. -/
inductive KeySignatureType where
  | legacyED25519
  | ed25519
  | rcd1
  | btc
  | btcLegacy
  | eth
deriving DecidableEq, Repr

def KeySignatureType.type : KeySignatureType → SignatureType
  | .legacyED25519 => .legacyED25519
  | .ed25519 => .ed25519
  | .rcd1 => .rcd1
  | .btc => .btc
  | .btcLegacy => .btcLegacy
  | .eth => .eth

@[simp] theorem KeySignatureType.isSystem_type (t : KeySignatureType) :
    t.type.isSystem = false := by
  cases t <;> rfl

@[simp] theorem KeySignatureType.type_ne_set (t : KeySignatureType) : t.type ≠ .set := by
  cases t <;> simp [KeySignatureType.type]

/-- `Metadata` of the Bitcoin and Ethereum signatures keeps the transaction hash;
the other key signatures clear it. -/
def KeySignatureType.metadataKeepsTransactionHash : KeySignatureType → Bool
  | .btc | .btcLegacy | .eth => true
  | .legacyED25519 | .ed25519 | .rcd1 => false

/-- The fields shared by the key signatures. -/
structure KeySignature where
  type : KeySignatureType
  publicKey : Bytes
  signature : Bytes
  signer : Option Url
  signerVersion : Nat
  timestamp : Nat
  vote : VoteType
  transactionHash : Hash
deriving DecidableEq, Repr

/-- `Metadata` of a key signature: the signature value is cleared and, for some
kinds, the transaction hash. -/
def KeySignature.metadata (k : KeySignature) : KeySignature :=
  { k with
    signature := []
    transactionHash := if k.type.metadataKeepsTransactionHash then k.transactionHash else 0 }

inductive Signature where
  | key (sig : KeySignature)
  | partition (sourceNetwork destinationNetwork : Option Url) (sequenceNumber : Nat)
      (transactionHash : Hash)
  | receipt (sourceNetwork : Option Url) (proof : Receipt) (transactionHash : Hash)
  | internal (cause transactionHash : Hash)
  | set (vote : VoteType) (signer : Option Url) (transactionHash : Hash)
      (signatures : List Signature)
  | remote (destination : Option Url) (signature : Option Signature)
  | delegated (signature : Option Signature) (delegator : Option Url)

def localTo (u v : Option Url) : Outcome Error Bool :=
  match u, v with
  | some u, some v => .ok (u.localTo v)
  | _, _ => .panic "nil URL"

theorem raises_localTo (u v : Option Url) : Outcome.Raises Error.Failing (localTo u v) := by
  unfold localTo
  split
  · exact .ok _
  · exact .panic _

/-- One item of the hash list of an initiator. -/
inductive InitiatorItem where
  | bytes (b : Bytes)
  | url (u : Url)
  | uint (n : Nat)
deriving DecidableEq, Repr

namespace Signature

def type : Signature → SignatureType
  | .key k => k.type.type
  | .partition .. => .partition
  | .receipt .. => .receipt
  | .internal .. => .internal
  | .set .. => .set
  | .remote .. => .remote
  | .delegated .. => .delegated

def isSystem (s : Signature) : Bool := s.type.isSystem

@[simp] theorem isSystem_key (k : KeySignature) : (key k).isSystem = false :=
  k.type.isSystem_type

/-- Calling a method of a missing signature is a nil dereference. -/
def nilSignature : String := "nil signature"

def getTransactionHash : Signature → Outcome Error Hash
  | .key k => .ok k.transactionHash
  | .partition _ _ _ h => .ok h
  | .receipt _ _ h => .ok h
  | .internal _ h => .ok h
  | .set _ _ h _ => .ok h
  | .remote _ (some s) => s.getTransactionHash
  | .remote _ none => .panic nilSignature
  | .delegated (some s) _ => s.getTransactionHash
  | .delegated none _ => .panic nilSignature

def routingLocation : Signature → Outcome Error (Option Url)
  | .key k => .ok k.signer
  | .partition _ destination _ _ => .ok destination
  | .receipt .. => .panic "a receipt signature does not have a routing location"
  | .internal .. => .panic "a receipt signature does not have a routing location"
  | .set _ signer _ _ => .ok signer
  | .remote destination _ => .ok destination
  | .delegated (some s) _ => s.routingLocation
  | .delegated none _ => .panic nilSignature

def getSigner : Signature → Outcome Error (Option Url)
  | .key k => .ok k.signer
  | .partition .. => .panic "a synthetic signature does not have a signer"
  | .receipt .. => .panic "a receipt signature does not have a signer"
  | .internal .. => .panic "a receipt signature does not have a signer"
  | .set _ signer _ _ => .ok signer
  | .remote _ (some s) => s.getSigner
  | .remote _ none => .panic nilSignature
  | .delegated (some s) _ => s.getSigner
  | .delegated none _ => .panic nilSignature

def metadata : Signature → Outcome Error Signature
  | .key k => .ok (.key k.metadata)
  | .partition source destination n _ => .ok (.partition source destination n 0)
  | .receipt source proof _ => .ok (.receipt source proof 0)
  | .internal cause _ => .ok (.internal cause 0)
  | .set .. => .panic "not supported"
  | .remote .. => .panic "not supported"
  | .delegated (some s) delegator => do
      let inner ← s.metadata
      return .delegated (some inner) delegator
  | .delegated none _ => .panic nilSignature

def errCannotInitiate : Error :=
  .new .badRequest "signature cannot initiate a transaction: values are missing"

/-- `Initiator`: the items whose Merkle hash identifies the initiator. -/
def initiator : Signature → Outcome Error (List InitiatorItem)
  | .key k =>
    match k.signer with
    | some signer =>
      if k.publicKey = [] ∨ k.signerVersion = 0 ∨ k.timestamp = 0 then
        .error errCannotInitiate
      else
        .ok [.bytes k.publicKey, .url signer, .uint k.signerVersion, .uint k.timestamp]
    | none => .error errCannotInitiate
  | .partition .. => .error (.new .badRequest
      "use of the initiator hash for a synthetic signature is not supported")
  | .receipt .. => .error (.plain "a receipt signature cannot initiate a transaction")
  | .internal .. => .error (.new .badRequest
      "use of the initiator hash for an internal signature is not supported")
  | .set .. => .error (.plain "cannot initate a transaction")
  | .remote .. => .error (.plain "cannot initate a transaction")
  | .delegated _ none => .error errCannotInitiate
  | .delegated (some s) (some delegator) => do
      let items ← s.initiator
      return items ++ [.url delegator]
  | .delegated none (some _) => .panic nilSignature

theorem metadata_ne_error : ∀ (s : Signature) (e : Error), s.metadata ≠ .error e
  | .key _, _ | .partition .., _ | .receipt .., _ | .internal .., _
  | .set .., _ | .remote .., _ | .delegated none _, _ => by simp [metadata]
  | .delegated (some s) _, e => by
      intro h
      rcases Outcome.bind_eq_error.1 h with h | ⟨_, -, h⟩
      · exact metadata_ne_error s e h
      · cases h

theorem routingLocation_ne_error : ∀ (s : Signature) (e : Error), s.routingLocation ≠ .error e
  | .key _, _ | .partition .., _ | .receipt .., _ | .internal .., _
  | .set .., _ | .remote .., _ => by simp [routingLocation]
  | .delegated (some s) _, e => routingLocation_ne_error s e
  | .delegated none _, _ => by simp [routingLocation]

theorem getSigner_ne_error : ∀ (s : Signature) (e : Error), s.getSigner ≠ .error e
  | .key _, _ | .partition .., _ | .receipt .., _ | .internal .., _
  | .set .., _ | .remote _ none, _ => by simp [getSigner]
  | .remote _ (some s), e => getSigner_ne_error s e
  | .delegated none _, _ => by simp [getSigner]
  | .delegated (some s) _, e => getSigner_ne_error s e

end Signature

mutual

/-- `unpackSignature`: the signatures within sets and remote signatures, each
wrapped again in the delegations around it.  A missing inner signature is passed
on as it is. -/
def unpackSignature : Signature → List (Option Signature)
  | .set _ _ _ signatures => unpackSignatures signatures
  | .remote _ (some s) => unpackSignature s
  | .remote _ none => [none]
  | .delegated (some s) delegator =>
    (unpackSignature s).map fun inner => some (.delegated inner delegator)
  | .delegated none delegator => [some (.delegated none delegator)]
  | s => [some s]

/-- The loop of `unpackSignature` over the members of a set. -/
def unpackSignatures : List Signature → List (Option Signature)
  | [] => []
  | s :: rest => unpackSignature s ++ unpackSignatures rest

end

end Accumulate.Protocol
