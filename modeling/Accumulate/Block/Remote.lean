import Mathlib.Data.List.Nodup
import Accumulate.Block.Signature

/-!
# Forwarding signatures

`internal/block/remote.go`: the signatures of a user transaction that were made by
signers of another identity are forwarded to the partition of the principal or of the
delegator, as soon as the signer is satisfied.
-/

namespace Accumulate.Executor

open Library Protocol Database Accumulate.Core Chain

/-- A signature to be forwarded: its destination and what is sent there. -/
structure Forward where
  destination : Url
  signature : Signature

variable (x : Executor) {d : Delivery} {db : Database} {fwds : List Forward}
  {state state' : ProcessTransactionState} {transactions : List (Url × List Signature)}

/-- The second half of `shouldForwardSignature`, for the signer the signature names.
`seen` are the signers that have been looked at. -/
def forwardSigner (db : Database) (transaction : Transaction) (signerUrl destination : Option Url)
    (seen : List Url) : Outcome Error (Option Forward × List Url) :=
  match signerUrl, destination with
  | some signerUrl, some destination =>
    let signerUrl :=
      if x.crypto.isLiteTokenAddress signerUrl then signerUrl.rootIdentity else signerUrl
    if signerUrl.localTo destination ∨ signerUrl ∈ seen then .ok (none, seen)
    else do
      let signer ← (loadSigner db signerUrl).mapError (.format .unknownError "load signer")
      if !x.signerIsSatisfied db transaction signer then return (none, signerUrl :: seen)
      else
        let sigset ← (db.getSignaturesForSigner (x.getHash transaction) signer).mapError .wrap
        let set := Signature.set .accept (some signerUrl) (x.getHash transaction) sigset
        return (some ⟨destination, set⟩, signerUrl :: seen)
  | _, _ => .panic "nil URL"

/-- `shouldForwardSignature`.  The delegations around a forwarded signature are forwarded
with it. -/
def shouldForwardSignature (db : Database) (transaction : Transaction) :
    Signature → Option Url → List Url → Outcome Error (Option Forward × List Url)
  | .delegated (some inner) delegator, destination, seen => do
      let (fwd, seen) ← (shouldForwardSignature db transaction inner delegator seen).mapError .wrap
      match fwd with
      | some fwd =>
        return (some { fwd with signature := .delegated (some fwd.signature) delegator }, seen)
      | none => x.forwardSigner db transaction delegator destination seen
  | .remote _ (some inner), destination, seen =>
    shouldForwardSignature db transaction inner destination seen
  | .set .., _, seen => .ok (none, seen)
  | .key k, destination, seen => x.forwardSigner db transaction k.signer destination seen
  | _, _, _ => .panic "nil URL"

def appendForward (fwd : Forward) :
    List (Url × List Signature) → List (Url × List Signature)
  | [] => []
  | (u, sigs) :: rest =>
    if u = fwd.destination ∧ rest.all (·.1 ≠ fwd.destination) then
      (u, sigs ++ [.remote (some fwd.destination) (some fwd.signature)]) :: rest
    else (u, sigs) :: appendForward fwd rest

/-- The transactions for a destination after another signature for it: the signature is
added to the one that is there, and a new one is made all the same. -/
def addForward (transactions : List (Url × List Signature)) (fwd : Forward) :
    List (Url × List Signature) :=
  appendForward fwd transactions ++
    [(fwd.destination, [.remote (some fwd.destination) (some fwd.signature)])]

def forwardSignatures (db : Database) (transaction : Transaction) :
    List Signature → List Url → List (Url × List Signature) →
      Outcome Error (List (Url × List Signature))
  | [], _, transactions => .ok transactions
  | signature :: rest, seen, transactions => do
      let (fwd, seen) ← (x.shouldForwardSignature db transaction signature
        transaction.header.principal seen).mapError .wrap
      match fwd with
      | none => forwardSignatures db transaction rest seen transactions
      | some fwd => forwardSignatures db transaction rest seen (addForward transactions fwd)

def processRemoteSignatures (db : Database) (delivery : Delivery)
    (state : ProcessTransactionState) : Outcome Error ProcessTransactionState :=
  if !delivery.type.isUser ∨ delivery.wasProducedInternally then .ok state
  else do
    let transactions ← x.forwardSignatures db delivery.transaction delivery.signatures [] []
    return transactions.foldl (fun state (destination, signatures) =>
      state.didProduceTxn (some destination)
        (.syntheticForwardTransaction signatures (some delivery.transaction))) state

/-! ## What is forwarded -/

def Forward.remote (fwd : Forward) : Signature :=
  .remote (some fwd.destination) (some fwd.signature)

/-- The forwards that `shouldForwardSignature` returns for a list of signatures, in
order. -/
def forwards (db : Database) (transaction : Transaction) :
    List Signature → List Url → Outcome Error (List Forward)
  | [], _ => .ok []
  | signature :: rest, seen => do
      let (fwd, seen) ← (x.shouldForwardSignature db transaction signature
        transaction.header.principal seen).mapError .wrap
      let fwds ← forwards db transaction rest seen
      return fwd.toList ++ fwds

theorem forwardSignatures_eq (db : Database) (transaction : Transaction)
    (signatures : List Signature) (seen : List Url) (transactions : List (Url × List Signature)) :
    x.forwardSignatures db transaction signatures seen transactions =
      (x.forwards db transaction signatures seen).bind fun fwds =>
        .ok (fwds.foldl addForward transactions) := by
  induction signatures generalizing seen transactions with
  | nil => rfl
  | cons signature rest ih =>
    rw [forwardSignatures, forwards]
    cases (x.shouldForwardSignature db transaction signature transaction.header.principal
        seen).mapError Error.wrap with
    | error e => rfl
    | panic m => rfl
    | ok result =>
      obtain ⟨fwd, seen'⟩ := result
      -- the forward, if there is one, is the first that the rest of the loop starts with
      cases fwd with
      | none =>
        show x.forwardSignatures db transaction rest seen' transactions =
          ((x.forwards db transaction rest seen').bind fun fwds => .ok fwds).bind _
        rw [ih]
        cases x.forwards db transaction rest seen' <;> rfl
      | some fwd =>
        show x.forwardSignatures db transaction rest seen' (addForward transactions fwd) =
          ((x.forwards db transaction rest seen').bind fun fwds => .ok (fwd :: fwds)).bind _
        rw [ih]
        cases x.forwards db transaction rest seen' <;> rfl

theorem map_fst_appendForward (fwd : Forward) (transactions : List (Url × List Signature)) :
    (appendForward fwd transactions).map Prod.fst = transactions.map Prod.fst := by
  induction transactions with
  | nil => rfl
  | cons entry rest ih =>
    rw [appendForward]
    split
    · rfl
    · simp only [List.map_cons, ih]

theorem appendForward_of_not_mem {fwd : Forward} (h : fwd.destination ∉ transactions.map Prod.fst) :
    appendForward fwd transactions = transactions := by
  induction transactions with
  | nil => rfl
  | cons entry rest ih =>
    rw [List.map_cons, List.mem_cons, not_or] at h
    rw [appendForward, if_neg fun hu => h.1 hu.1.symm, ih h.2]

theorem map_fst_foldl_addForward (fwds : List Forward)
    (transactions : List (Url × List Signature)) :
    (fwds.foldl addForward transactions).map Prod.fst =
      transactions.map Prod.fst ++ fwds.map (·.destination) := by
  induction fwds generalizing transactions with
  | nil => simp
  | cons fwd rest ih =>
    rw [List.foldl_cons, ih, addForward, List.map_append, map_fst_appendForward]
    simp

theorem foldl_addForward_of_nodup
    (h : (transactions.map Prod.fst ++ fwds.map (·.destination)).Nodup) :
    fwds.foldl addForward transactions =
      transactions ++ fwds.map fun fwd => (fwd.destination, [fwd.remote]) := by
  induction fwds generalizing transactions with
  | nil => simp
  | cons fwd rest ih =>
    have hnew : fwd.destination ∉ transactions.map Prod.fst := by
      intro hmem
      exact (List.nodup_append.1 h).2.2 _ hmem _ (List.mem_map_of_mem List.mem_cons_self) rfl
    have hadd :
        addForward transactions fwd = transactions ++ [(fwd.destination, [fwd.remote])] := by
      rw [addForward, appendForward_of_not_mem hnew]
      rfl
    rw [List.foldl_cons, hadd, ih (by simpa using h)]
    simp

def forwardedSignatures (t : Transaction) : List (Option Url × Signature) :=
  match t.body with
  | .syntheticForwardTransaction signatures _ => signatures.map (t.header.principal, ·)
  | _ => []

/-- The transactions carry every forward exactly once, addressed to its destination, and
no two of them have the same principal. -/
def SentOnce (fwds : List Forward) (transactions : List Transaction) : Prop :=
  (transactions.flatMap forwardedSignatures).Perm
      (fwds.map fun fwd => (some fwd.destination, fwd.remote)) ∧
    (transactions.map (·.header.principal)).Nodup

def forwardTransaction (transaction : Transaction) (entry : Url × List Signature) : Transaction :=
  ⟨⟨some entry.1, 0, "", []⟩, .syntheticForwardTransaction entry.2 (some transaction)⟩

theorem producedTxns_foldl_forward (t : Transaction) (l : List (Url × List Signature))
    (s : ProcessTransactionState) :
    (l.foldl (fun state (destination, signatures) =>
      state.didProduceTxn (some destination)
        (.syntheticForwardTransaction signatures (some t))) s).producedTxns =
      s.producedTxns ++ l.map (forwardTransaction t) := by
  induction l generalizing s with
  | nil => simp
  | cons entry rest ih =>
    rw [List.foldl_cons, ih]
    simp [ProcessTransactionState.didProduceTxn, forwardTransaction]

theorem processRemoteSignatures_eq_ok (hrun : x.processRemoteSignatures db d state = .ok state') :
    ∃ l : List (Url × List Signature),
      state'.producedTxns = state.producedTxns ++ l.map (forwardTransaction d.transaction) := by
  unfold processRemoteSignatures at hrun
  split at hrun
  · cases hrun
    exact ⟨[], by simp⟩
  · obtain ⟨l, -, hrun⟩ := Outcome.bind_eq_ok.1 hrun
    cases hrun
    exact ⟨l, producedTxns_foldl_forward _ _ _⟩

/-- What `ProcessRemoteSignatures` adds to the produced transactions. -/
theorem processRemoteSignatures_producedTxns (huser : d.type.isUser = true)
    (hint : d.wasProducedInternally = false)
    (hfwds : x.forwards db d.transaction d.signatures [] = .ok fwds)
    (hrun : x.processRemoteSignatures db d state = .ok state') :
    state'.producedTxns = state.producedTxns ++
      (fwds.foldl addForward []).map (forwardTransaction d.transaction) := by
  rw [processRemoteSignatures, if_neg (by simp [huser, hint]), forwardSignatures_eq, hfwds] at hrun
  cases hrun
  exact producedTxns_foldl_forward _ _ _

/-- Every forward is sent exactly once, and every destination gets at most one
transaction, if and only if no two signatures of the delivery are forwarded to the same
destination. -/
theorem forwarded_once_iff_destinations_distinct {db : Database} {d : Delivery}
    {state state' : ProcessTransactionState} {fwds : List Forward} (huser : d.type.isUser = true)
    (hint : d.wasProducedInternally = false)
    (hfwds : x.forwards db d.transaction d.signatures [] = .ok fwds)
    (hrun : x.processRemoteSignatures db d state = .ok state') :
    SentOnce fwds (state'.producedTxns.drop state.producedTxns.length) ↔
      (fwds.map (·.destination)).Nodup := by
  rw [x.processRemoteSignatures_producedTxns huser hint hfwds hrun, List.drop_left]
  have hprincipals : ((fwds.foldl addForward []).map (forwardTransaction d.transaction)).map
      (·.header.principal) = (fwds.map (·.destination)).map some := by
    have h := map_fst_foldl_addForward fwds []
    rw [List.map_nil, List.nil_append] at h
    rw [← h, List.map_map, List.map_map]
    rfl
  constructor
  · intro h
    have hnodup := h.2
    rw [hprincipals] at hnodup
    exact List.Nodup.of_map some hnodup
  · intro h
    refine ⟨?_, ?_⟩
    · rw [foldl_addForward_of_nodup (by simpa using h)]
      simp only [List.nil_append, List.flatMap_map, forwardTransaction,
        forwardedSignatures, List.map_cons, List.map_nil]
      rw [List.map_eq_flatMap]
    · rw [hprincipals]
      exact List.Nodup.map (Option.some_injective _) h

/-! ### Two identities that sign for a third one -/

def farPage (name : String) : KeyPage :=
  ⟨⟨.named name, ["book", "1"]⟩, 1000000, 1, 1, [⟨[1], 0, none⟩], none⟩

def farSignature (name : String) (timestamp : Nat) : Signature :=
  .key ⟨.ed25519, [1], [], some (farPage name).url, 1, timestamp, .accept, 0⟩

def farDelivery (signatures : List Signature) : Delivery :=
  .new ⟨⟨some ⟨.named "near", []⟩, 101, "", []⟩,
    .payload (.writeData (some ⟨.accumulate, []⟩) false false)⟩ signatures

def farNode : Executor := toyNode

def farSigned : Database :=
  (farNode.processSignature (farDelivery []) (farSignature "eve" 2)
    (farNode.processSignature (farDelivery []) (farSignature "bob" 1)
      ((Database.empty.setMain (farPage "bob").url (.keyPage (farPage "bob"))).setMain
        (farPage "eve").url (.keyPage (farPage "eve")))).2).2

/-- The second forward to the principal is added to the transaction that is there, and it
is sent once more by itself. -/
theorem far_forwarded_twice : ∃ fwds state',
    farNode.forwards farSigned (farDelivery []).transaction
        [farSignature "bob" 1, farSignature "eve" 2] [] = .ok fwds ∧
      farNode.processRemoteSignatures farSigned
        (farDelivery [farSignature "bob" 1, farSignature "eve" 2]) .new = .ok state' ∧
      ¬ SentOnce fwds state'.producedTxns := by
  have hfwds : (farNode.forwards farSigned (farDelivery []).transaction
      [farSignature "bob" 1, farSignature "eve" 2] []).Yields fun fwds => fwds.length = 2 := by
    decide +kernel
  have hrun : (farNode.processRemoteSignatures farSigned
      (farDelivery [farSignature "bob" 1, farSignature "eve" 2]) .new).Yields fun s =>
        (s.producedTxns.flatMap forwardedSignatures).length = 3 := by
    decide +kernel
  obtain ⟨fwds, hfwds, htwo⟩ := hfwds.exists_ok
  obtain ⟨state', hrun, hthree⟩ := hrun.exists_ok
  refine ⟨fwds, state', hfwds, hrun, fun h => ?_⟩
  have hlength := h.1.length_eq
  rw [List.length_map, htwo, hthree] at hlength
  exact absurd hlength (by decide)

def farSignatures : List Signature :=
  [farSignature "bob" 1, .delegated (some (farSignature "eve" 2)) (some (farPage "far").url)]

theorem far_forwarded_once : ∃ fwds state',
    farNode.forwards farSigned (farDelivery []).transaction farSignatures [] = .ok fwds ∧
      farNode.processRemoteSignatures farSigned (farDelivery farSignatures) .new = .ok state' ∧
      fwds.length = 2 ∧ SentOnce fwds state'.producedTxns := by
  have hfwds : (farNode.forwards farSigned (farDelivery []).transaction
      farSignatures []).Yields fun fwds =>
        fwds.length = 2 ∧ (fwds.map (·.destination)).Nodup := by
    decide +kernel
  have hrun : (farNode.processRemoteSignatures farSigned
      (farDelivery farSignatures) .new).Yields fun _ => True := by
    decide +kernel
  obtain ⟨fwds, hfwds, htwo, hnodup⟩ := hfwds.exists_ok
  obtain ⟨state', hrun, -⟩ := hrun.exists_ok
  exact ⟨fwds, state', hfwds, hrun, htwo,
    (farNode.forwarded_once_iff_destinations_distinct rfl rfl hfwds hrun).2 hnodup⟩

end Accumulate.Executor
