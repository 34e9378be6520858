import Accumulate.Core.Globals

/-!
# The initiator of a transaction

`SignatureDidInitiate` of `protocol/signature.go` goes through the signatures unpacked from a
signature and compares the metadata hash and the Merkle hash of the initiator of each with the
initiator hash of the transaction.  It gives up at the first signature that has no initiator,
so a signature behind it is not found (`signatureDidInitiate_iff`), and the answer depends on
the order of the members of a set (`signatureDidInitiate_order`).
-/

namespace Accumulate

open Library Protocol

/-- `Initiator` returns without an error. -/
def Protocol.canInitiate : Option Signature → Bool
  | none => false
  | some s =>
    match s.initiator with
    | .ok _ => true
    | _ => false

/-- The metadata hash or the hash of the initiator is the given one. -/
def Protocol.Crypto.identifies (c : Crypto) (txnInitHash : Hash) : Option Signature → Bool
  | none => false
  | some s =>
    (match s.metadata with
      | .ok metadata => decide (c.signatureHash metadata = txnInitHash)
      | _ => false) ||
    (match s.initiator with
      | .ok items => decide (c.initiatorHash items = txnInitHash)
      | _ => false)

/-- A signature that cannot initiate stands before all signatures with the hash. -/
def Protocol.Crypto.hidesInitiator (c : Crypto) (txnInitHash : Hash)
    (signatures : List (Option Signature)) : Bool :=
  match signatures.dropWhile canInitiate with
  | [] => false
  | s :: rest =>
    !(signatures.takeWhile canInitiate ++ [s]).any (c.identifies txnInitHash) &&
      rest.any (c.identifies txnInitHash)

namespace Block
namespace Initiator

variable (c : Crypto) (h : Hash)

theorem metadata_of_initiator : ∀ {s : Signature} {items : List InitiatorItem},
    s.initiator = .ok items → ∃ metadata, s.metadata = .ok metadata
  | .key k, _, _ => ⟨_, rfl⟩
  | .partition .., _, h | .receipt .., _, h | .internal .., _, h | .set .., _, h
  | .remote .., _, h => by cases h
  | .delegated _ none, _, h => by simp [Signature.initiator] at h
  | .delegated none (some _), _, h => by cases h
  | .delegated (some s) (some delegator), _, h => by
      obtain ⟨items, hitems, -⟩ := Outcome.bind_eq_ok.1 h
      obtain ⟨metadata, hmetadata⟩ := metadata_of_initiator hitems
      exact ⟨.delegated (some metadata) (some delegator), by simp [Signature.metadata, hmetadata]⟩

variable {c h} {s : Option Signature} (rest : List (Option Signature))

theorem didInitiate_of_identifies (hs : c.identifies h s = true) :
    ∃ t, c.didInitiate h (s :: rest) = .ok (some t) := by
  cases s with
  | none => cases hs
  | some s =>
    cases hmetadata : s.metadata with
    | ok metadata =>
      by_cases hmatch : c.signatureHash metadata = h
      · simp [Crypto.didInitiate, hmetadata, hmatch]
      cases hinit : s.initiator with
      | ok items =>
        have hitems : c.initiatorHash items = h := by
          simpa [Crypto.identifies, hmetadata, hmatch, hinit] using hs
        simp [Crypto.didInitiate, hmetadata, hinit, hitems]
      | error e | panic m => simp [Crypto.identifies, hmetadata, hmatch, hinit] at hs
    | error e => exact absurd hmetadata (s.metadata_ne_error e)
    | panic m =>
      -- without metadata there is no initiator either
      cases hinit : s.initiator with
      | ok items =>
        obtain ⟨metadata, hok⟩ := metadata_of_initiator hinit
        rw [hok] at hmetadata
        cases hmetadata
      | error e | panic m => simp [Crypto.identifies, hmetadata, hinit] at hs

theorem didInitiate_of_canInitiate (hs : c.identifies h s = false)
    (hcan : canInitiate s = true) : c.didInitiate h (s :: rest) = c.didInitiate h rest := by
  cases s with
  | none => cases hcan
  | some s =>
    cases hinit : s.initiator with
    | ok items =>
      obtain ⟨metadata, hmetadata⟩ := metadata_of_initiator hinit
      have hother : c.signatureHash metadata ≠ h ∧ c.initiatorHash items ≠ h := by
        simpa [Crypto.identifies, hmetadata, hinit] using hs
      simp [Crypto.didInitiate, hmetadata, hinit, hother.1, hother.2]
    | error e | panic m => simp [canInitiate, hinit] at hcan

theorem didInitiate_of_not_canInitiate (hs : c.identifies h s = false)
    (hcan : canInitiate s = false) (t : Signature) :
    c.didInitiate h (s :: rest) ≠ .ok (some t) := by
  intro hdid
  cases s with
  | none => cases hdid
  | some s =>
    obtain ⟨metadata, hmetadata, hdid⟩ := Outcome.bind_eq_ok.1 hdid
    have hother : c.signatureHash metadata ≠ h := by
      intro hmatch
      simp [Crypto.identifies, hmetadata, hmatch] at hs
    rw [if_neg hother] at hdid
    cases hinit : s.initiator with
    | ok items => simp [canInitiate, hinit] at hcan
    | error e | panic m => simp [hinit] at hdid

theorem didInitiate_eq_some_iff (signatures : List (Option Signature)) :
    (∃ t, c.didInitiate h signatures = .ok (some t)) ↔
      signatures.any (c.identifies h) = true ∧ c.hidesInitiator h signatures = false := by
  induction signatures with
  | nil => simp [Crypto.didInitiate]
  | cons s rest ih =>
    cases hs : c.identifies h s with
    | true =>
      simp only [didInitiate_of_identifies rest hs, true_iff]
      cases hcan : canInitiate s with
      | true =>
        have hseen : c.hidesInitiator h (s :: rest) = false := by
          unfold Crypto.hidesInitiator
          split
          · rfl
          · simp [hcan, hs]
        simp [hs, hseen]
      | false => simp [Crypto.hidesInitiator, hcan, hs]
    | false =>
      cases hcan : canInitiate s with
      | true =>
        have hnext : c.hidesInitiator h (s :: rest) = c.hidesInitiator h rest := by
          simp [Crypto.hidesInitiator, hcan, hs]
        rw [didInitiate_of_canInitiate rest hs hcan, ih, hnext, List.any_cons, hs,
          Bool.false_or]
      | false =>
        have hhides : c.hidesInitiator h (s :: rest) = rest.any (c.identifies h) := by
          simp [Crypto.hidesInitiator, hcan, hs]
        constructor
        · rintro ⟨t, hdid⟩
          exact absurd hdid (didInitiate_of_not_canInitiate rest hs hcan t)
        rintro ⟨hany, hnot⟩
        rw [List.any_cons, hs, Bool.false_or] at hany
        rw [hhides, hany] at hnot
        cases hnot

/-- `SignatureDidInitiate` says whether one of the unpacked signatures has the initiator hash,
exactly if no signature that cannot initiate hides the one that has. -/
theorem signatureDidInitiate_iff (c : Crypto) (sig : Signature) (h : Hash) :
    (c.signatureDidInitiate sig h = .ok true ↔
        ∃ s ∈ unpackSignature sig, c.identifies h s = true) ↔
      c.hidesInitiator h (unpackSignature sig) = false := by
  have hdid : c.signatureDidInitiate sig h = .ok true ↔
      ∃ t, c.didInitiate h (unpackSignature sig) = .ok (some t) := by
    rw [Crypto.signatureDidInitiate]
    rcases c.didInitiate h (unpackSignature sig) with (_ | t) | e | m <;> simp
  rw [hdid, didInitiate_eq_some_iff, ← List.any_eq_true]
  constructor
  · intro hiff
    by_contra hhides
    rw [Bool.not_eq_false] at hhides
    have hany : (unpackSignature sig).any (c.identifies h) = true := by
      unfold Crypto.hidesInitiator at hhides
      split at hhides
      · cases hhides
      rename_i s rest hdrop
      obtain ⟨t, ht, hid⟩ := List.any_eq_true.1 (Bool.and_eq_true_iff.1 hhides).2
      have hmem : t ∈ (unpackSignature sig).dropWhile canInitiate := by
        rw [hdrop]
        exact List.mem_cons_of_mem s ht
      exact List.any_eq_true.2 ⟨t, (List.dropWhile_sublist _).subset hmem, hid⟩
    have hnot := (hiff.2 hany).2
    rw [hhides] at hnot
    cases hnot
  · intro hhides
    exact ⟨And.left, fun hany => ⟨hany, hhides⟩⟩

def signedAt (timestamp : Nat) : Signature :=
  .key ⟨.ed25519, [1], [2], some ⟨.named "alice", ["book", "1"]⟩, 1, timestamp, .accept, 0⟩

/-- Two signatures of which only the second has a timestamp, and so an initiator: in this order
the set did not initiate the transaction, in the other order it did. -/
theorem signatureDidInitiate_order :
    Executor.toyCrypto.signatureDidInitiate
        (.set .accept (some ⟨.named "alice", ["book", "1"]⟩) 0 [signedAt 0, signedAt 5]) 105 =
      .ok false ∧
    Executor.toyCrypto.signatureDidInitiate
        (.set .accept (some ⟨.named "alice", ["book", "1"]⟩) 0 [signedAt 5, signedAt 0]) 105 =
      .ok true ∧
    ∃ s ∈ unpackSignature
        (.set .accept (some ⟨.named "alice", ["book", "1"]⟩) 0 [signedAt 0, signedAt 5]),
      Executor.toyCrypto.identifies 105 s = true :=
  ⟨rfl, rfl, some (signedAt 5), by simp [unpackSignature, unpackSignatures, signedAt], rfl⟩

end Initiator
end Block
end Accumulate
