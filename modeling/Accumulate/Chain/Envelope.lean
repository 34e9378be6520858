import Accumulate.Chain.State

/-!
# Envelopes

`NormalizeEnvelope` of `internal/chain/delivery.go`: an envelope is split into
deliveries, one per transaction, and every signature is handed to the delivery of the
transaction it names.
-/

namespace Accumulate.Chain

open Library Protocol

variable (c : Crypto)

/-- The transactions of an envelope, as deliveries without signatures.  `GetHash` gives 32 bytes for
every transaction, also for a remote one without a hash, so the hash of the envelope is not used. -/
def envelopeDeliveries : List (TransactionOf (Option TransactionBody)) →
    Outcome Error (List Delivery)
  | [] => .ok []
  | ⟨header, some body⟩ :: rest => do
      let deliveries ← envelopeDeliveries rest
      return .new ⟨header, body⟩ [] :: deliveries
  | ⟨_, none⟩ :: _ => .error (.plain "transaction: nil body")

/-- Give a signature to the delivery with the given hash.  The map of the source holds
the last one if there are several. -/
def attachSignature (hash : Hash) (sig : Signature) : List Delivery → Option (List Delivery)
  | [] => none
  | d :: rest =>
    match attachSignature hash sig rest with
    | some rest' => some (d :: rest')
    | none =>
      if c.getHash d.transaction = hash then
        some ({ d with signatures := d.signatures ++ [sig] } :: rest)
      else none

/-- The hash of the transaction a signature is for: its own, or the envelope's, or that
of the only transaction there is. -/
def signatureTarget (envTxHash : Option Hash) (deliveries : List Delivery) (hash : Hash) :
    Outcome Error Hash :=
  if hash ≠ 0 then .ok hash
  else
    match envTxHash, (deliveries.map fun d => c.getHash d.transaction).dedup with
    | some h, _ => .ok h
    | none, [h] => .ok h
    | none, _ => .error (.plain "multi-transaction envelope: signature: missing hash")

def attachSignatures (envTxHash : Option Hash) :
    List Signature → List Delivery → Outcome Error (List Delivery)
  | [], deliveries => .ok deliveries
  | sig :: rest, deliveries => do
      let own ← sig.getTransactionHash
      let hash ← signatureTarget c envTxHash deliveries own
      match attachSignature c hash sig deliveries with
      | some deliveries => attachSignatures envTxHash rest deliveries
      | none =>
        attachSignatures envTxHash rest (deliveries ++ [.new (remoteTransaction hash) [sig]])

def validateTxHash : EnvelopeHash → Outcome Error (Option Hash)
  | .missing => .ok none
  | .hash h => .ok (some h)
  | .badLength _ => .error (.plain "invalid hash length: want 32")

def normalizeEnvelope (envelope : Envelope) : Outcome Error (List Delivery) := do
  let envTxHash ← validateTxHash envelope.txHash
  let deliveries ← envelopeDeliveries envelope.transaction
  let deliveries ← attachSignatures c envTxHash envelope.signatures deliveries
  if deliveries.any (·.signatures.isEmpty) then
    .error (.new .badRequest "the envelope does not contain any signatures matching transaction")
  else return deliveries

end Accumulate.Chain
