import Accumulate.Block.Validate
import Accumulate.Chain.CreateKeys
import Accumulate.Chain.Envelope
import Accumulate.Chain.WriteData

/-!
# Signatures that cannot bring a node down

A panic is fatal to the node.  The methods of signatures are partial and wrappers
forward to the signature they hold, so whether an envelope can be normalized, routed
and validated without a panic depends on the shape of its signatures.

* `Guarded` is the shape that is safe, for a signature of a given transaction.
* `neverPanics_iff_guarded`: on a guarded signature no node panics, whatever its state;
  for every other signature there is a node that does.

The delegators around a key signature are walked through from the inside out.  Where
the walk is, and what it meets next, decides how validation ends; `DelegateState`
follows it.
-/

namespace Accumulate

open Library Protocol Database Accumulate.Core Chain

/-! ## The shape of a signature -/

namespace Protocol.Signature

/-- The key signature within a chain of delegations, with the delegators from the
inside out. -/
def keyChain : Signature → Option (KeySignature × List (Option Url))
  | .key k => some (k, [])
  | .delegated (some s) delegator => s.keyChain.map fun c => (c.1, c.2 ++ [delegator])
  | _ => none

/-- Induction along a chain of delegations, from the key signature out. -/
@[elab_as_elim]
theorem keyChain_induction
    {motive : ∀ (s : Signature) (k : KeySignature) (ds : List (Option Url)),
      s.keyChain = some (k, ds) → Prop}
    (key : ∀ k, motive (.key k) k [] rfl)
    (delegated : ∀ s delegator k ds (hs : s.keyChain = some (k, ds)), motive s k ds hs →
      motive (.delegated (some s) delegator) k (ds ++ [delegator]) (by simp [keyChain, hs])) :
    ∀ {s : Signature} {k : KeySignature} {ds : List (Option Url)} (h : s.keyChain = some (k, ds)),
      motive s k ds h
  | .key k, _, _, h => by
      cases h
      exact key k
  | .delegated (some s) delegator, _, _, h => by
      obtain ⟨⟨k, ds⟩, hs, heq⟩ := Option.map_eq_some_iff.1 h
      cases heq
      exact delegated s delegator k ds hs (keyChain_induction key delegated hs)
  | .delegated none _, _, _, h | .partition .., _, _, h | .receipt .., _, _, h
  | .internal .., _, _, h | .set .., _, _, h | .remote .., _, _, h => by cases h

end Protocol.Signature

/-- What the validation of a chain of delegations knows of the last signer: it is an
account of this identity, or of another one, or the chain has been rejected; or there
is no delegator where one has to be. -/
inductive DelegateState where
  | here
  | elsewhere
  | rejected
  | missing
deriving DecidableEq, Repr

/-- The next delegator.  A local delegator cannot be checked against a delegate that is
not local. -/
def DelegateState.step (location : Url) : DelegateState → Option Url → DelegateState
  | .rejected, _ => .rejected
  | .missing, _ => .missing
  | .here, none => .missing
  | .elsewhere, none => .missing
  | .here, some d => if d.localTo location then .here else .elsewhere
  | .elsewhere, some d => if d.localTo location then .rejected else .elsewhere

def DelegateState.run (location : Url) (ds : List (Option Url)) : DelegateState :=
  ds.foldl (step location) .here

@[simp] theorem DelegateState.run_append (location : Url) (ds : List (Option Url))
    (d : Option Url) : run location (ds ++ [d]) = (run location ds).step location d := by
  simp [run]

/-- The unpacked members can be asked for their metadata, up to the first one that
cannot have initiated a transaction. -/
def InitiatesSafely : List (Option Signature) → Prop
  | [] => True
  | none :: _ => False
  | some s :: rest =>
    s.metadata.Returns ∧ ∀ items, s.initiator = .ok items → InitiatesSafely rest

/-- The executor of the transaction can be asked about a signer: the identity to be created has a
URL, and there is an entry to be written, unless the principal is no lite data account or `P`. -/
def Protocol.Transaction.Checkable (t : Transaction) (P : Url → Prop) : Prop :=
  match t.body with
  | .payload (.createIdentity none ..) => False
  | .payload (.writeData none ..) =>
    ∀ p, t.header.principal = some p → isLiteDataAddress p = true → P p
  | _ => True

/-- The executor can be asked on a node with the given database. -/
def Protocol.Transaction.CheckableIn (t : Transaction) (db : Database) : Prop :=
  t.Checkable fun p => (db.account p).main ≠ none

/-- The shape of a signature that is safe to receive with the given transaction. -/
structure Guarded (t : Transaction) (sig : Signature) : Prop where
  /-- Every wrapper on the way to the transaction hash holds a signature. -/
  hash : sig.getTransactionHash.Returns
  /-- The signature has a routing location.  If it can be routed at all and it is a key
  signature within a chain of delegations that is not too long, then the transaction has
  a principal, its executor can be asked about the signer, where a lite data account that
  signs is there, and the walk along the delegators does not meet a missing one. -/
  location : ∃ u, sig.routingLocation = .ok (some u) ∧
    (isUnknown u = false → ∀ k ds, sig.keyChain = some (k, ds) →
      ds.length ≤ delegationDepthLimit →
        t.header.principal.isSome = true ∧ t.Checkable (u = ·) ∧
          DelegateState.run u ds ≠ .missing)
  initiator : InitiatesSafely (unpackSignature sig)

namespace Executor

variable (x : Executor) {sig : Signature} {t : Transaction} {l : List (Option Signature)}

/-- The parts of a node that do not depend on the signature do not panic: the routing
table is complete, and the transaction's own signer validation returns where the executors
of the source do. -/
structure Sturdy (t : Transaction) : Prop where
  route : ∀ tree, x.router = some tree → ∀ u, (tree.route u).Returns
  authorize : ∀ db a md, t.header.principal.isSome = true → md.location.isSome = true →
    t.CheckableIn db → (x.delegatedIsAuthorized db t a md).Returns

def envelopeOf (t : Transaction) (h : EnvelopeHash) (sig : Signature) : Envelope :=
  ⟨[sig], h, [⟨t.header, some t.body⟩]⟩

/-- Normalizing, routing and validating the envelope returns on this node. -/
def Survives (db : Database) (status : TransactionStatus) (t : Transaction) (h : EnvelopeHash)
    (sig : Signature) : Prop :=
  (normalizeEnvelope x.crypto (envelopeOf t h sig)).Returns ∧
    (Routing.routeEnvelopes x.router [envelopeOf t h sig]).Returns ∧
    (x.validateSignature db (.new t [sig]) sig status).1.Returns

def NeverPanics (t : Transaction) (sig : Signature) : Prop :=
  ∀ (x : Executor) db status h, x.Sturdy t → x.Survives db status t h sig

/-! ## Guarded signatures -/

theorem initiator_returns : ∀ {s : Signature}, s.metadata.Returns → s.initiator.Returns
  | .key k, _ => by
      unfold Signature.initiator
      split
      · split <;> trivial
      · trivial
  | .partition .., _ => trivial
  | .receipt .., _ => trivial
  | .internal .., _ => trivial
  | .set .., _ => trivial
  | .remote .., _ => trivial
  | .delegated none none, _ => trivial
  | .delegated none (some _), h => h.elim
  | .delegated (some _) none, _ => trivial
  | .delegated (some _) (some _), h =>
    (initiator_returns h.of_bind).bind fun _ _ => trivial

theorem didInitiate_returns (c : Crypto) (h : Hash)
    (hl : InitiatesSafely l) : (c.didInitiate h l).Returns := by
  induction l with
  | nil => trivial
  | cons s rest ih =>
    cases s with
    | none => exact hl.elim
    | some s =>
      obtain ⟨hmetadata, hrest⟩ := hl
      refine hmetadata.bind fun metadata _ => ?_
      split
      · trivial
      cases hinit : s.initiator with
      | ok items =>
        simp only
        split
        · trivial
        · exact ih (hrest items hinit)
      | error e => trivial
      | panic m =>
        have hreturns := initiator_returns hmetadata
        rw [hinit] at hreturns
        exact hreturns.elim

section KeyChain

variable {s : Signature} {k : KeySignature} {ds : List (Option Url)}

section

variable (h : s.keyChain = some (k, ds))

include h

theorem metadata_returns_of_keyChain : s.metadata.Returns := by
  induction h using Signature.keyChain_induction with
  | key k => trivial
  | delegated s delegator k ds hs ih => exact ih.bind fun _ _ => trivial

theorem metadata_returns_delegated (delegator : Option Url) :
    (Signature.delegated (some s) delegator).metadata.Returns :=
  (metadata_returns_of_keyChain h).bind fun _ _ => trivial

theorem delegationDepth_of_keyChain : delegationDepth s = ds.length := by
  induction h using Signature.keyChain_induction with
  | key k => simp [delegationDepth]
  | delegated s delegator k ds hs ih => simp [delegationDepth, ih]

theorem unpackSignature_of_keyChain : unpackSignature s = [some s] := by
  induction h using Signature.keyChain_induction with
  | key k => simp [unpackSignature]
  | delegated s delegator k ds hs ih => simp [unpackSignature, ih]

/-- The signature at the end of a chain of delegations is verified with the metadata of the
outermost one. -/
theorem verifyDelegated_eq {c : Crypto} (a b : Hash) :
    c.verifyDelegated a b (some s) = c.verify k a b := by
  induction h using Signature.keyChain_induction with
  | key k => rw [Crypto.verifyDelegated]
  | delegated s delegator k ds hs ih => rw [Crypto.verifyDelegated, ih]

end

end KeyChain

theorem isSystem_of_keyChain {s : Signature} {c : KeySignature × List (Option Url)}
    (h : s.keyChain = some c) : s.isSystem = false := by
  cases s with
  | key k => exact Signature.isSystem_key k
  | delegated inner delegator => rfl
  | _ => cases h

section Returns

variable {x} {t : Transaction} {u : Url} {sig : Signature} {k : KeySignature} {d : Delivery}
  {md : SignatureValidationMetadata} (db : Database) (status : TransactionStatus)

theorem getState_returns (u : Url) : (db.getState u).Returns := by
  unfold getState
  split <;> trivial

theorem accountAuthoritySet_returns (fuel : Nat) (a : Account) :
    (accountAuthoritySet db fuel a).Returns := by
  induction fuel generalizing a with
  | zero => cases a <;> trivial
  | succ fuel ih =>
    cases a with
    | keyPage p =>
      rw [accountAuthoritySet]
      split
      · exact (getState_returns db _).bind fun a _ => ih a
      · trivial
    | _ => trivial

theorem verifyPageIsAuthorized_returns (hp : t.header.principal.isSome = true)
    (a : Account) : (verifyPageIsAuthorized db t a).Returns := by
  obtain ⟨u, hu⟩ := Option.isSome_iff_exists.1 hp
  unfold verifyPageIsAuthorized
  rw [hu]
  refine (getState_returns db u).mapError.bind fun p _ => ?_
  refine (accountAuthoritySet_returns db _ p).mapError.bind fun auth _ => ?_
  split
  · trivial
  · split
    · trivial
    · split <;> trivial

theorem signerIsAuthorized_returns (hp : t.header.principal.isSome = true)
    (a : Account) (checkAuthz : Bool) : (signerIsAuthorized db t a checkAuthz).Returns := by
  obtain ⟨u, hu⟩ := Option.isSome_iff_exists.1 hp
  unfold signerIsAuthorized
  split
  · rw [hu]
    simp only
    split <;> trivial
  · split
    · trivial
    · split
      · trivial
      · exact (verifyPageIsAuthorized_returns db hp _).mapError
  · split
    · trivial
    · exact (verifyPageIsAuthorized_returns db hp _).mapError
  · trivial

theorem findSigner_returns (signer location : Url) :
    (x.findSigner db (some signer) (some location)).Returns := by
  unfold findSigner
  dsimp only
  generalize (if x.crypto.isLiteTokenAddress signer then signer.rootIdentity else signer) = v
  split
  · trivial
  · rw [Outcome.returns_mapError]
    refine (getState_returns db _).mapError.bind fun a _ => ?_
    split <;> trivial

theorem computeSignerFee_returns (hp : t.header.principal.isSome = true) (hk : k.signer = some u) :
    (x.computeSignerFee t k md).Returns := by
  obtain ⟨v, hv⟩ := Option.isSome_iff_exists.1 hp
  unfold computeSignerFee
  rw [hk]
  simp only
  split
  · trivial
  refine .bind (.mapError ?_) fun fee _ => ?_
  · unfold computeSignatureFee
    dsimp only
    split <;> trivial
  · split
    · trivial
    · exact (computeTransactionFee_returns _ _ hv).mapError.bind fun _ _ => trivial

theorem validateKeyEntry_returns (a : Account) (k : KeySignature) :
    (x.validateKeyEntry t a k).Returns := by
  unfold validateKeyEntry
  split
  · trivial
  · split
    · trivial
    · split <;> trivial

theorem validateSignatureAt_of_preamble {e : Error} (h : x.validatePreamble d sig md = .error e) :
    (x.validateSignatureAt db d sig md status).1 = .error e := by
  match sig with
  | .key _ | .partition .. | .receipt .. | .internal .. | .set .. | .remote ..
  | .delegated (some _) _ | .delegated none _ =>
    simp [validateSignatureAt, Proc.bind_run, h]

theorem checkRouting_unknown (hu : d.type.isUser = true) (hsys : sig.isSystem = false)
    (hloc : sig.routingLocation = .ok (some u)) (hunknown : isUnknown u = true) :
    ∃ e, x.checkRouting d sig = .error e := by
  unfold checkRouting Routing.Router.routeAccount
  simp only [hsys, hu, hloc, hunknown,
    Outcome.ok_bind]
  cases x.router with
  | none | some tree => exact ⟨_, rfl⟩

theorem checkableIn_of_findSigner (hcheck : t.Checkable (u = ·)) {a : Account}
    (h : x.findSigner db (some u) (some u) = .ok a) : t.CheckableIn db := by
  have hmain : isLiteDataAddress u = true → (db.account u).main ≠ none := by
    intro hlite hnone
    have hpath : u.rootIdentity = u := by
      unfold isLiteDataAddress at hlite
      split at hlite
      · simp only [Bool.and_eq_true, decide_eq_true_eq] at hlite
        rw [Url.rootIdentity, ← hlite.1.1]
      · cases hlite
    simp [findSigner, hpath, loadSigner, getState, hnone, Url.localTo] at h
  unfold Transaction.CheckableIn Transaction.Checkable at *
  split at hcheck
  · exact hcheck
  · rename_i hbody
    intro p hp hlite
    obtain rfl := hcheck p hp hlite
    exact hmain hlite
  · trivial

/-- The result of validating a chain of delegations fits the state of the walk along its
delegators: it is an error, or it is the signer if the signer is known here, and then the executor
of the transaction can be asked. -/
def Fits (db : Database) (t : Transaction) (state : DelegateState)
    (o : Outcome Error (Option Signer)) : Prop :=
  o.Returns ∧ ∀ s, o = .ok s → t.CheckableIn db ∧
    (state = .here ∧ s.isSome = true ∨ state = .elsewhere ∧ s = none)

theorem fits_error (state : DelegateState) (e : Error) : Fits db t state (.error e) := by
  refine ⟨trivial, fun s h => ?_⟩
  cases h

/-! ### Chains of delegations -/

section Sturdy

variable (hx : x.Sturdy t)

include hx

theorem routeAccount_returns (u : Url) :
    (x.router.routeAccount (some u)).Returns := by
  unfold Routing.Router.routeAccount
  cases hr : x.router with
  | none => trivial
  | some tree =>
    simp only
    split
    · trivial
    · exact hx.route tree hr u

theorem validateSigner_returns (hp : t.header.principal.isSome = true) (signer location : Url)
    (checkAuthz : Bool) (hmd : md.location = some u)
    (hcheck : ∀ a, x.findSigner db (some signer) (some location) = .ok a → t.CheckableIn db) :
    (x.validateSigner db t (some signer) (some location) checkAuthz md).Returns := by
  refine (findSigner_returns db signer location).bind fun a ha => ?_
  refine (hx.authorize db a md hp (by rw [hmd]; rfl) (hcheck a ha)).bind fun fallback _ => ?_
  split
  · trivial
  · exact (signerIsAuthorized_returns db hp a checkAuthz).mapError.bind fun _ _ => trivial

theorem validateKey_returns (hp : t.header.principal.isSome = true)
    (hcheck : t.Checkable (u = ·)) (hd : d.transaction = t) (hk : k.signer = some u)
    (hmd : md.location = some u) : (x.validateKey db d k md status).Returns := by
  obtain ⟨v, hv⟩ := Option.isSome_iff_exists.1 hp
  subst hd
  unfold validateKey
  split
  · trivial
  split
  · refine .bind ?_ fun checkAuthz _ => ?_
    · unfold checkAuthorization
      split
      · trivial
      · simp [localTo, hv, hmd]
    · refine .bind (.mapError ?_) fun _ _ => trivial
      unfold validateKeySignature
      rw [hk]
      refine (validateSigner_returns db hx hp u u checkAuthz hmd fun a ha =>
        checkableIn_of_findSigner db hcheck ha).mapError.bind fun a _ => ?_
      refine (validateKeyEntry_returns a k).mapError.bind fun _ _ => ?_
      split
      · trivial
      · refine (computeSignerFee_returns hp hk).mapError.bind fun fee _ => ?_
        split <;> trivial
  · unfold validatePartitionSignature
    split
    · trivial
    split
    · trivial
    · dsimp only
      split <;> trivial

omit hx in
theorem findSigner_of_validateKey {s : Signer} (hu : d.transaction.type.isUser = true)
    (hk : k.signer = some u) (h : x.validateKey db d k md status = .ok s) :
    ∃ a, x.findSigner db (some u) (some u) = .ok a := by
  have htype : d.type.isUser = true := hu
  unfold validateKey at h
  split at h
  · cases h
  obtain ⟨checkAuthz, -, h⟩ := Outcome.bind_eq_ok.1 h
  obtain ⟨a, h, -⟩ := Outcome.bind_eq_ok.1 h
  obtain ⟨a, h, -⟩ := Outcome.bind_eq_ok.1 (Outcome.mapError_eq_ok.1 h)
  obtain ⟨a, h, -⟩ := Outcome.bind_eq_ok.1 (Outcome.mapError_eq_ok.1 h)
  exact ⟨a, hk ▸ h⟩

theorem Fits.validateDelegator (hp : t.header.principal.isSome = true)
    (hd : d.transaction = t) (hmd : md.location = some u) {signature : Signature}
    {inner : Option Signature}
    (hmetadata : signature.metadata.Returns) {state : DelegateState} {s : Option Signer}
    (hs : Fits db t state (.ok s)) {delegator : Option Url}
    (hstate : state.step u delegator ≠ .missing) :
    Fits db t (state.step u delegator)
      (x.validateDelegator db d signature inner delegator md s) := by
  subst hd
  obtain ⟨hcheck, hvalid⟩ := hs.2 s rfl
  unfold validateDelegator
  have hverify : (x.verifyOutermost d.transaction signature inner md).Returns := by
    unfold verifyOutermost
    split
    · trivial
    · exact hmetadata.bind fun _ _ => trivial
  rcases hverify.cases with ⟨verified, hv⟩ | ⟨e, hv⟩
  · rw [hv]
    cases verified with
    | false => exact fits_error db _ _
    | true =>
      cases delegator with
      | none =>
        -- a delegator that is missing has been excluded in both states
        rcases hvalid with ⟨rfl, -⟩ | ⟨rfl, -⟩
        · exact absurd rfl hstate
        · exact absurd rfl hstate
      | some v =>
        simp only [Outcome.ok_bind, localTo, hmd]
        by_cases hlocal : v.localTo u = true
        · simp only [hlocal, Bool.not_true, Bool.false_eq_true, if_false]
          rcases (validateSigner_returns db hx hp v u false hmd fun _ _ => hcheck).cases with
            ⟨signer, hsig⟩ | ⟨e, hsig⟩
          · simp only [hsig, Outcome.mapError_ok, Outcome.ok_bind]
            rcases hvalid with ⟨rfl, hsome⟩ | ⟨rfl, rfl⟩
            · -- the delegate is known: the delegation holds or it is refused
              unfold verifyDelegation
              split
              · split
                · refine ⟨trivial, fun s' hs' => ⟨hcheck, .inl ?_⟩⟩
                  cases hs'
                  exact ⟨by simp [DelegateState.step, hlocal], rfl⟩
                · exact fits_error db _ _
              · exact fits_error db _ _
            · exact fits_error db _ _
          · rw [hsig]
            exact fits_error db _ _
        · simp only [hlocal]
          refine ⟨trivial, fun s' hs' => ⟨hcheck, .inr ?_⟩⟩
          cases hs'
          rcases hvalid with ⟨rfl, -⟩ | ⟨rfl, -⟩
          · exact ⟨by simp [DelegateState.step, hlocal], rfl⟩
          · exact ⟨by simp [DelegateState.step, hlocal], rfl⟩
  · rw [hv]
    exact fits_error db _ e

section Located

variable (hloc : sig.routingLocation = .ok (some u))

include hloc

theorem checkRouting_returns : (x.checkRouting d sig).Returns := by
  unfold checkRouting
  split
  · trivial
  rw [hloc, Outcome.ok_bind]
  refine (routeAccount_returns hx u).mapError.bind fun partition _ => ?_
  split <;> trivial

theorem preamble_cases (d : Delivery) (md : SignatureValidationMetadata) :
    x.validatePreamble d sig md = .ok () ∨
      ∃ e, (x.validateSignatureAt db d sig md status).1 = .error e := by
  have hreturns : (x.validatePreamble d sig md).Returns := by
    refine (checkRouting_returns hx hloc).bind fun _ _ => ?_
    unfold validateInitialSignature
    split
    · split <;> trivial
    · trivial
  rcases hreturns.cases with ⟨_, hpre⟩ | ⟨e, hpre⟩
  · exact .inl hpre
  · exact .inr ⟨e, validateSignatureAt_of_preamble db status hpre⟩

theorem fits_validateSignatureAt (hp : t.header.principal.isSome = true)
    (hcheck : t.Checkable (u = ·)) (hd : d.transaction = t) (ht : t.type.isUser = true)
    {ds : List (Option Url)} (hchain : sig.keyChain = some (k, ds)) (hmd : md.location = some u)
    (hstate : DelegateState.run u ds ≠ .missing) :
    Fits db t (.run u ds) (x.validateSignatureAt db d sig md status).1 := by
  induction hchain using Signature.keyChain_induction generalizing md with
  | key k =>
    have hk : k.signer = some u := by
      simpa [Signature.routingLocation] using hloc
    rcases preamble_cases db status hx hloc d md with hpre | ⟨e, he⟩
    · simp only [validateSignatureAt, Proc.bind_run, Proc.lift_run, Proc.query_run, hpre]
      rcases (validateKey_returns db status hx hp hcheck hd hk hmd).cases with
        ⟨signer, hkey⟩ | ⟨e, hkey⟩
      · rw [hkey]
        refine ⟨trivial, fun s hs => ⟨?_, .inl ⟨rfl, ?_⟩⟩⟩
        · obtain ⟨a, ha⟩ := findSigner_of_validateKey db status (hd ▸ ht) hk hkey
          exact checkableIn_of_findSigner db hcheck ha
        · cases hs
          rfl
      · rw [hkey]
        exact fits_error db _ e
    · rw [he]
      exact fits_error db _ e
  | delegated inner delegator k ds hinner ih =>
    rw [DelegateState.run_append] at hstate ⊢
    have hstate' : DelegateState.run u ds ≠ .missing := by
      intro h
      rw [h] at hstate
      exact hstate rfl
    have ih : Fits db t (.run u ds) (x.validateSignatureAt db d inner md.setDelegated status).1 :=
      ih hloc hmd hstate'
    rcases preamble_cases db status hx hloc d md with hpre | ⟨e, he⟩
    · simp only [validateSignatureAt, Proc.bind_run, Proc.lift_run, hpre]
      split
      · exact fits_error db _ _
      simp only [Proc.bind_run, Proc.mapError_run]
      rcases hrun : x.validateSignatureAt db d inner md.setDelegated status with ⟨s | e | m, s'⟩
      · rw [hrun] at ih
        exact ih.validateDelegator db hx hp hd hmd
          (metadata_returns_delegated hinner delegator) hstate
      · exact fits_error db _ _
      · rw [hrun] at ih
        exact ih.1.elim
    · rw [he]
      exact fits_error db _ e

theorem validateSignatureAt_tooLong {ds : List (Option Url)}
    (hchain : sig.keyChain = some (k, ds)) (hlong : delegationDepthLimit < ds.length)
    (hmd : md.nested = false) : (x.validateSignatureAt db d sig md status).1.Returns := by
  rcases preamble_cases db status hx hloc d md with hpre | ⟨e, he⟩
  · induction hchain using Signature.keyChain_induction with
    | key k => exact absurd hlong (Nat.not_lt_zero _)
    | delegated inner delegator k ds hinner _ =>
      simp only [validateSignatureAt, hpre]
      rw [if_pos]
      · trivial
      · refine ⟨by simp [hmd], ?_⟩
        rw [delegationDepth, delegationDepth_of_keyChain hinner]
        simpa using hlong
  · rw [he]
    trivial

theorem routeEnvelopes_returns (h : EnvelopeHash) :
    (Routing.routeEnvelopes x.router [envelopeOf t h sig]).Returns := by
  have hroute := routeAccount_returns hx u
  simp only [Routing.routeEnvelopes, Routing.routeEnvelopesFrom, Routing.routeSignatures,
    envelopeOf, hloc]
  refine .bind (hroute.bind fun route _ => trivial) fun _ _ => trivial

end Located

/-- Of the signatures that have a routing location, only key signatures within
delegations are accepted for a user transaction. -/
theorem validateSignatureAt_rejects (hu : d.type.isUser = true) :
    ∀ {sig : Signature} (md : SignatureValidationMetadata), sig.keyChain = none →
      sig.routingLocation = .ok (some u) →
      ∃ e, (x.validateSignatureAt db d sig md status).1 = .error e
  | .partition source destination n h, md, _, hloc => by
      have hsynth := TransactionType.isSynthetic_of_isUser hu
      have hsys := TransactionType.isSystem_of_isUser hu
      obtain ⟨e, he⟩ : ∃ e, x.verifyPartitionSignature d.transaction destination md =
          .error e := by
        unfold verifyPartitionSignature
        split
        · exact ⟨_, rfl⟩
        rw [if_pos]
        · exact ⟨_, rfl⟩
        · change (!d.type.isSynthetic) = true ∧ (!d.type.isSystem) = true
          rw [hsynth, hsys]
          exact ⟨rfl, rfl⟩
      refine (preamble_cases db status hx hloc d md).elim (fun hpre => ?_) id
      simp only [validateSignatureAt, hpre, he]
      exact ⟨_, rfl⟩
  | .set vote signer h signatures, md, _, hloc | .remote destination inner, md, _, hloc => by
      refine (preamble_cases db status hx hloc d md).elim (fun hpre => ?_) id
      simp only [validateSignatureAt, hpre]
      exact ⟨_, rfl⟩
  | .delegated (some inner) delegator, md, hchain, hloc => by
      have hinner : inner.keyChain = none := Option.map_eq_none_iff.1 hchain
      obtain ⟨e, he⟩ := validateSignatureAt_rejects hu md.setDelegated hinner hloc
      rcases preamble_cases db status hx hloc d md with hpre | he'
      · simp only [validateSignatureAt, Proc.bind_run, Proc.lift_run, hpre]
        split
        · exact ⟨_, rfl⟩
        · simp only [Proc.bind_run, Proc.mapError_run, he]
          exact ⟨_, rfl⟩
      · exact he'
  | .key _, _, h, _ | .delegated none _, _, _, h | .receipt .., _, _, h
  | .internal .., _, _, h => by cases h

theorem validateSignature_returns (hu : t.type.isUser = true) (hsig : Guarded t sig) :
    (x.validateSignature db (.new t [sig]) sig status).1.Returns := by
  obtain ⟨u, hloc, hsafe⟩ := hsig.location
  have hd : (Delivery.new t [sig]).type.isUser = true := hu
  have hinit : (x.crypto.signatureDidInitiate sig t.header.initiator).Returns :=
    (didInitiate_returns x.crypto t.header.initiator hsig.initiator).bind fun _ _ => trivial
  refine Proc.returns_bind ?_ fun md s hmd => ?_
  · refine hinit.bind fun _ _ => ?_
    rw [hloc]
    split <;> trivial
  · refine Proc.returns_bind ?_ fun _ _ _ => trivial
    simp only [Proc.mapError_run, Outcome.returns_mapError]
    simp only [Proc.lift_run, Prod.mk.injEq] at hmd
    obtain ⟨isInitiator, -, hmd⟩ := Outcome.bind_eq_ok.1 hmd.1
    cases hchain : sig.keyChain with
    | none =>
      obtain ⟨e, he⟩ := validateSignatureAt_rejects db s hx hd md hchain hloc
      rw [he]
      trivial
    | some c =>
      obtain ⟨k, ds⟩ := c
      have hsys := isSystem_of_keyChain hchain
      simp only [hsys, hloc] at hmd
      cases hmd
      by_cases hunknown : isUnknown u = true
      · obtain ⟨e, he⟩ := checkRouting_unknown (x := x) hd hsys hloc hunknown
        rw [validateSignatureAt_of_preamble (e := e)]
        · trivial
        · simp [validatePreamble, he]
      · by_cases hlong : delegationDepthLimit < ds.length
        · exact validateSignatureAt_tooLong db s hx hloc hchain hlong rfl
        · obtain ⟨hp, hcheck, hstate⟩ := hsafe (by simpa using hunknown) k ds hchain (by omega)
          exact (fits_validateSignatureAt db s hx hloc hp hcheck rfl hu hchain rfl hstate).1

end Sturdy

theorem normalizeEnvelope_returns_iff (c : Crypto) (t : Transaction) (sig : Signature) :
    (∀ h, (normalizeEnvelope c (envelopeOf t h sig)).Returns) ↔ sig.getTransactionHash.Returns := by
  constructor
  · intro h
    have hreturns := h .missing
    simp only [normalizeEnvelope, validateTxHash, envelopeOf, envelopeDeliveries, Outcome.ok_bind,
      Outcome.pure_eq_ok] at hreturns
    exact hreturns.of_bind.of_bind
  · intro hhash h
    have hloop : ∀ envTxHash ds, (attachSignatures c envTxHash [sig] ds).Returns := by
      intro envTxHash ds
      refine hhash.bind fun own _ => .bind ?_ fun target _ => ?_
      · unfold signatureTarget
        split
        · trivial
        · split <;> trivial
      · split <;> trivial
    refine .bind ?_ fun envTxHash _ => ?_
    · cases h <;> trivial
    · refine .bind trivial fun ds _ => (hloop envTxHash ds).bind fun ds' _ => ?_
      split <;> trivial

theorem NeverPanics.of_guarded (hu : t.type.isUser = true) (hsig : Guarded t sig) :
    NeverPanics t sig := by
  intro x db status h hx
  obtain ⟨u, hloc, -⟩ := hsig.location
  exact ⟨(normalizeEnvelope_returns_iff x.crypto t sig).2 hsig.hash h,
    routeEnvelopes_returns hx hloc h, validateSignature_returns db status hx hu hsig⟩

end Returns

/-! ## Signatures that are not guarded

For every other shape there is a node that panics.  Its hash functions never give the
hash a transaction says it was initiated with, it accepts every key, and all accounts
are key pages that delegate to each other, or else lite identities. -/

def otherHash (h : Hash) : Hash := if h = 0 then 1 else 0

theorem otherHash_ne (h : Hash) : otherHash h ≠ h := by
  unfold otherHash
  split
  · rename_i h0
    rw [h0]
    decide
  · rename_i h0
    exact fun h' => h0 h'.symm

def openNode (initiator : Hash) : Executor :=
  { toyNode with
    crypto := { toyCrypto with
      signatureHash := fun _ => otherHash initiator
      initiatorHash := fun _ => otherHash initiator } }

theorem sturdy_openNode (initiator : Hash) (t : Transaction) : (openNode initiator).Sturdy t where
  route := by
    intro tree htree u
    cases htree
    trivial
  authorize := fun _ _ _ _ _ _ => trivial

def openNode.withExecutor (initiator : Hash) (e : TransactionExecutor) (he : e.didFail = none) :
    Executor :=
  { openNode initiator with
    executors := fun _ => some e
    didFail_user := fun _ _ h _ => Option.some.inj h ▸ he }

theorem sturdy_withExecutor {initiator : Hash} {e : TransactionExecutor} {he : e.didFail = none}
    (h : ∀ db a md, t.CheckableIn db →
      ((openNode.withExecutor initiator e he).delegatedIsAuthorized db t a md).Returns) :
    (openNode.withExecutor initiator e he).Sturdy t :=
  ⟨(sturdy_openNode initiator t).route, fun db a md _ _ hcheck => h db a md hcheck⟩

def identityExecutor : TransactionExecutor :=
  { TransactionExecutor.plain (fun _ => Proc.throw (.plain "")) fun _ => .throw rfl with
    signerIsAuthorized := some fun db t a _ => CreateIdentity.signerIsAuthorized
      ⟨signerIsAuthorized, fun _ _ _ _ => .ok true, raises_signerIsAuthorized, fun _ _ _ _ => .ok _⟩
      db t a
    signerIsAuthorized_failing := by
      rintro f ⟨⟩ db t a md
      exact CreateIdentity.raises_signerIsAuthorized _ db t a }

def everywhere (f : Url → Account) : Database :=
  { Database.empty with account := fun v => { AccountRecord.empty with main := some (f v) } }

theorem location_of_routeEnvelopes {initiator : Hash} {h : EnvelopeHash}
    (hroute : (Routing.routeEnvelopes (openNode initiator).router [envelopeOf t h sig]).Returns) :
    ∃ u, sig.routingLocation = .ok (some u) := by
  simp only [Routing.routeEnvelopes, Routing.routeEnvelopesFrom, Routing.routeSignatures,
    envelopeOf] at hroute
  cases hloc : sig.routingLocation with
  | panic m => simp [hloc] at hroute
  | error e => exact absurd hloc (Signature.routingLocation_ne_error sig e)
  | ok location =>
    cases location with
    | some u => exact ⟨u, rfl⟩
    | none =>
      rw [hloc] at hroute
      exact hroute.elim

theorem initiatesSafely_of_returns {c : Crypto} {h : Hash} (hsig : ∀ s, c.signatureHash s ≠ h)
    (hinit : ∀ items, c.initiatorHash items ≠ h)
    (hl : (c.didInitiate h l).Returns) : InitiatesSafely l := by
  induction l with
  | nil => trivial
  | cons s rest ih =>
    cases s with
    | none => exact hl.elim
    | some s =>
      refine ⟨hl.of_bind, fun items hitems => ih ?_⟩
      cases hmetadata : s.metadata with
      | panic m => simp [Crypto.didInitiate, hmetadata] at hl
      | error e => exact absurd hmetadata (Signature.metadata_ne_error s e)
      | ok metadata =>
        simpa [Crypto.didInitiate, hmetadata, hsig, hitems, hinit] using hl

section Pages

variable {initiator : Hash} {t : Transaction} {u : Url} {k : KeySignature} {us : List Url}

def openPage (k : KeySignature) (us : List Url) (v : Url) : Account :=
  .keyPage
    { url := v
      creditBalance := 2 ^ 64 - 1
      acceptThreshold := 1
      version := k.signerVersion
      keys := us.map fun d => ⟨k.publicKey, 0, some (KeyPage.delegateBook d.path.length d)⟩
      transactionBlacklist := none }

variable {v : Url}

theorem entryByDelegate_openPage {w : Url} (hw : w ∈ us) :
    ∃ i, (Signer.account (openPage k us v)).entryByDelegate w = some i := by
  refine Option.isSome_iff_exists.1 ?_
  simp only [openPage, Signer.entryByDelegate, KeyPage.entryByDelegate, List.findIdx?_isSome,
    List.any_map, List.any_eq_true]
  exact ⟨w, hw, by simp⟩

theorem entryByKeyHash_openPage (hu : u ∈ us) :
    (Signer.account (openPage k us v)).entryByKeyHash (openNode initiator).crypto
      ((openNode initiator).crypto.keyHash k) = some 0 := by
  have heq : ∀ ks ∈ us.map fun d : Url =>
      (⟨k.publicKey, 0, some (KeyPage.delegateBook d.path.length d)⟩ : KeySpec),
      compare ks.publicKeyHash k.publicKey = .eq := by
    intro ks hks
    obtain ⟨d, -, rfl⟩ := List.mem_map.1 hks
    exact Std.ReflCmp.compare_self
  have hne : (us.map fun d : Url =>
      (⟨k.publicKey, 0, some (KeyPage.delegateBook d.path.length d)⟩ : KeySpec)) ≠ [] := by
    simpa using List.ne_nil_of_mem hu
  change KeyPage.entryByKeyHash _ k.publicKey = some 0
  simp [KeyPage.entryByKeyHash, found_of_forall_eq heq hne, search_of_forall_eq heq]

theorem validateSigner_openPage (hv : v.localTo u = true) (md : SignatureValidationMetadata) :
    (openNode initiator).validateSigner (everywhere (openPage k us)) t (some v) (some u) false md =
      .ok (openPage k us v) := by
  have hfind : (openNode initiator).findSigner (everywhere (openPage k us)) (some v) (some u) =
      .ok (openPage k us v) := by
    simp [findSigner, openNode, toyCrypto, hv, loadSigner, getState, everywhere, openPage,
      Account.isSigner]
  have hauth : signerIsAuthorized (everywhere (openPage k us)) t (openPage k us v) false =
      .ok () := by
    unfold signerIsAuthorized openPage isBlacklisted
    cases t.type.allowedTransactionBit <;> simp
  unfold validateSigner
  rw [hfind]
  change (if _ then _ else _) = _
  simp [hauth]

variable {d : Delivery} {md : SignatureValidationMetadata} {delegator : Option Url}
  {c : KeySignature × List (Option Url)}

theorem validatePreamble_openNode (hloc : sig.routingLocation = .ok (some u))
    (hknown : isUnknown u = false) (hmd : md.isInitiator = false) :
    (openNode initiator).validatePreamble d sig md = .ok () := by
  have hrouting : (openNode initiator).checkRouting d sig = .ok () := by
    unfold checkRouting
    split
    · rfl
    · rw [hloc]
      simp [openNode, toyNode, toy, Routing.Router.routeAccount, hknown, Routing.RouteTree.route,
        Routing.PrefixTree.route]
  have hinitial : validateInitialSignature sig md = .ok () := by
    unfold validateInitialSignature
    split
    · simp [hmd]
    · rfl
  simp [validatePreamble, hrouting, hinitial]

theorem validateKey_openNode (hd : d.transaction = t) (ht : t.type.isUser = true)
    (hk : k.signer = some u) (hu : u ∈ us) (hmd : md.isInitiator = false)
    (hdelegated : md.delegated = true) (status : TransactionStatus) :
    (openNode initiator).validateKey (everywhere (openPage k us)) d k md status =
      .ok (.account (openPage k us u)) := by
  subst hd
  have hsigner : (openNode initiator).validateSigner (everywhere (openPage k us)) d.transaction
      k.signer k.signer false md = .ok (openPage k us u) := by
    rw [hk]
    exact validateSigner_openPage (by simp) md
  have hentry : (openNode initiator).validateKeyEntry d.transaction (openPage k us u) k =
      .ok 0 := by
    unfold validateKeyEntry
    rw [entryByKeyHash_openPage hu]
    have hversion : (Signer.account (openPage k us u)).version = k.signerVersion := rfl
    have hlast : (openPage k us u).lastUsedOn 0 = 0 := by
      cases us with
      | nil => cases hu
      | cons w ws => rfl
    simp [hversion, hlast]
  have hfee : ∃ fee, (openNode initiator).computeSignerFee d.transaction k md = .ok fee := by
    unfold computeSignerFee
    rw [hk]
    simp only
    split
    · exact ⟨_, rfl⟩
    · simp [hmd, computeSignatureFee, openNode, toyCrypto, signatureSizeMax]
  obtain ⟨fee, hfee⟩ := hfee
  have hpay : (openPage k us u).canDebitCredits fee.toNat = true := by
    have hlt := fee.toNat_lt
    simp only [openPage, Account.canDebitCredits, decide_eq_true_eq]
    omega
  have htype : d.type.isUser = true := ht
  unfold validateKey
  simp [SignatureValidationMetadata.nested, hdelegated, htype, checkAuthorization,
    validateKeySignature, hsigner, hentry, hfee, hpay]

/-- What the walk along the delegators makes of the validation on the open node. -/
def Reaches (us : List Url) : DelegateState → Outcome Error (Option Signer) → Prop
  | .here, o => ∃ a, o = .ok (some (.account a)) ∧ a.url ∈ us
  | .elsewhere, o => o = .ok none
  | .rejected, _ => True
  | .missing, o => ∃ m, o = .panic m

theorem Reaches.validateDelegator (hd : d.transaction = t) (hmd : md.location = some u)
    {signature : Signature} {inner : Option Signature}
    (hverify : (openNode initiator).verifyOutermost t signature inner md = .ok true)
    {state : DelegateState} {s : Option Signer} (hs : Reaches us state (.ok s))
    (hmem : ∀ v, delegator = some v → v ∈ us) :
    Reaches us (state.step u delegator)
      ((openNode initiator).validateDelegator (everywhere (openPage k us)) d signature inner
        delegator md s) := by
  subst hd
  unfold validateDelegator
  simp only [hverify]
  cases state with
  | rejected => trivial
  | missing =>
    obtain ⟨m, hm⟩ := hs
    cases hm
  | here =>
    obtain ⟨a, ha, hurl⟩ := hs
    cases ha
    cases delegator with
    | none => exact ⟨_, rfl⟩
    | some v =>
      by_cases hlocal : v.localTo u = true
      · obtain ⟨i, hi⟩ := entryByDelegate_openPage (k := k) (v := v) hurl
        simp only [DelegateState.step, hlocal]
        refine ⟨openPage k us v, ?_, hmem v rfl⟩
        simp [localTo, hmd, hlocal, validateSigner_openPage hlocal, verifyDelegation, hi]
      · simp [DelegateState.step, Reaches, localTo, hmd, hlocal]
  | elsewhere =>
    cases delegator with
    | none => exact ⟨_, rfl⟩
    | some v =>
      by_cases hlocal : v.localTo u = true
      · simp [DelegateState.step, hlocal, Reaches]
      · simp [DelegateState.step, Reaches, localTo, hmd, hlocal]

theorem verifyOutermost_openNode {inner : Signature} (hc : inner.keyChain = some c)
    (md : SignatureValidationMetadata) :
    (openNode initiator).verifyOutermost t (.delegated (some inner) delegator) (some inner) md =
      .ok true := by
  unfold verifyOutermost
  split
  · rfl
  rcases (metadata_returns_delegated hc delegator).cases with ⟨metadata, hmetadata⟩ | ⟨e, hmetadata⟩
  · simp [hmetadata, verifyDelegated_eq hc, openNode, toyCrypto]
  · exact absurd hmetadata (Signature.metadata_ne_error _ e)

theorem not_tooDeep {inner : Signature} {ds : List (Option Url)}
    (hinner : inner.keyChain = some (k, ds))
    (hdepth : md.nested = true ∨ (ds ++ [delegator]).length ≤ delegationDepthLimit) :
    ¬ ((!md.nested) = true ∧
      delegationDepth (.delegated (some inner) delegator) > delegationDepthLimit) := by
  rintro ⟨hnested, hlong⟩
  rw [delegationDepth, delegationDepth_of_keyChain hinner] at hlong
  rcases hdepth with h | h
  · simp [h] at hnested
  · exact absurd hlong (Nat.not_lt.2 (by simpa using h))

/-- Only a walk that has been rejected or has met a missing delegator ends without a signer. -/
theorem Reaches.step_of_not_ok {state : DelegateState} {o : Outcome Error (Option Signer)}
    (h : Reaches us state o) (ho : ∀ s, o ≠ .ok s) :
    state = .rejected ∨ state = .missing ∧ ∃ m, o = .panic m := by
  cases state with
  | here =>
    obtain ⟨a, ha, -⟩ := h
    exact absurd ha (ho _)
  | elsewhere => exact absurd h (ho _)
  | rejected => exact .inl rfl
  | missing => exact .inr ⟨rfl, h⟩

theorem reaches_validateSignatureAt (hd : d.transaction = t) (ht : t.type.isUser = true)
    (hknown : isUnknown u = false) (hu : u ∈ us) {ds : List (Option Url)}
    (status : TransactionStatus) (hchain : sig.keyChain = some (k, ds))
    (hloc : sig.routingLocation = .ok (some u)) (hmd : md.location = some u)
    (hinit : md.isInitiator = false) (hdelegated : md.delegated = true ∨ ds ≠ [])
    (hdepth : md.nested = true ∨ ds.length ≤ delegationDepthLimit)
    (hmem : ∀ v, some v ∈ ds → v ∈ us) :
    Reaches us (.run u ds)
      ((openNode initiator).validateSignatureAt (everywhere (openPage k us)) d sig md
        status).1 := by
  induction hchain using Signature.keyChain_induction generalizing md with
  | key k =>
    have hk : k.signer = some u := by
      simpa [Signature.routingLocation] using hloc
    have hdel : md.delegated = true := hdelegated.resolve_right fun h => h rfl
    refine ⟨openPage k us u, ?_, hu⟩
    simp [validateSignatureAt, Proc.bind_run, validatePreamble_openNode hloc hknown hinit,
      validateKey_openNode hd ht hk hu hinit hdel]
  | delegated inner delegator k ds hinner ih =>
    have ih : Reaches us (.run u ds) ((openNode initiator).validateSignatureAt
        (everywhere (openPage k us)) d inner md.setDelegated status).1 :=
      ih hloc hmd hinit (.inl rfl) (.inl rfl) fun v hv => hmem v (List.mem_append_left _ hv)
    rw [DelegateState.run_append]
    simp only [validateSignatureAt, Proc.bind_run, Proc.lift_run,
      validatePreamble_openNode hloc hknown hinit, if_neg (not_tooDeep hinner hdepth),
      Proc.mapError_run]
    rcases hrun : (openNode initiator).validateSignatureAt (everywhere (openPage k us)) d inner
        md.setDelegated status with ⟨s | e | m, s'⟩
    · rw [hrun] at ih
      refine ih.validateDelegator hd hmd (verifyOutermost_openNode hinner md) ?_
      rintro v rfl
      exact hmem v (List.mem_append_right _ List.mem_cons_self)
    · rw [hrun] at ih
      rcases ih.step_of_not_ok (by rintro _ ⟨⟩) with hstate | ⟨-, m, hm⟩
      · rw [hstate]
        trivial
      · cases hm
    · rw [hrun] at ih
      rcases ih.step_of_not_ok (by rintro _ ⟨⟩) with hstate | ⟨hstate, -⟩
      · rw [hstate]
        trivial
      · rw [hstate]
        exact ⟨m, rfl⟩

def liteIdentities : Database := everywhere fun v => .liteIdentity v 0 0

/-- If the key signature cannot be validated without a panic, neither can the delegations around
it. -/
theorem panics_of_validateKey {x : Executor} {db : Database} {status : TransactionStatus}
    (hpreamble : ∀ {sig : Signature} {md}, sig.routingLocation = .ok (some u) →
      md.isInitiator = false → x.validatePreamble d sig md = .ok ())
    {ds : List (Option Url)} (hchain : sig.keyChain = some (k, ds))
    (hkey : k.signer = some u → ∀ md, md.location = some u →
      ∃ m, x.validateKey db d k md status = .panic m)
    (hloc : sig.routingLocation = .ok (some u)) (hmd : md.location = some u)
    (hinit : md.isInitiator = false)
    (hdepth : md.nested = true ∨ ds.length ≤ delegationDepthLimit) :
    ∃ m, (x.validateSignatureAt db d sig md status).1 = .panic m := by
  induction hchain using Signature.keyChain_induction generalizing md with
  | key k =>
    obtain ⟨m, hm⟩ := hkey (by simpa [Signature.routingLocation] using hloc) md hmd
    simp [validateSignatureAt, Proc.bind_run, hpreamble hloc hinit, hm]
  | delegated inner delegator k ds hinner ih =>
    obtain ⟨m, ih⟩ : ∃ m, (x.validateSignatureAt db d inner md.setDelegated status).1 =
      .panic m := ih hkey hloc hmd hinit (.inl rfl)
    refine ⟨m, ?_⟩
    simp only [validateSignatureAt, Proc.bind_run, Proc.lift_run, hpreamble hloc hinit,
      if_neg (not_tooDeep hinner hdepth), Proc.mapError_run, ih]
    rfl

theorem findSigner_open {x : Executor} {db : Database} {a : Account}
    (hx : x.crypto.isLiteTokenAddress = fun _ => false) (hmain : (db.account u).main = some a)
    (ha : a.isSigner = true) : x.findSigner db (some u) (some u) = .ok a := by
  simp [findSigner, hx, loadSigner, getState, hmain, ha]

theorem validateKey_no_principal (hd : d.type.isUser = true)
    (hp : d.transaction.header.principal = none) (hk : k.signer = some u)
    (status : TransactionStatus) :
    ∃ m, (openNode initiator).validateKey liteIdentities d k md status = .panic m := by
  have hverify : (openNode initiator).crypto.verifyKeySignature k
      ((openNode initiator).getHash d.transaction) = true := rfl
  unfold validateKey
  by_cases hdel : md.delegated = true
  · have hfind : (openNode initiator).findSigner liteIdentities (some u) (some u) =
        .ok (.liteIdentity u 0 0) := findSigner_open rfl rfl rfl
    have hauth : (openNode initiator).delegatedIsAuthorized liteIdentities d.transaction
        (.liteIdentity u 0 0) md = .ok true := rfl
    have hu : d.transaction.type.isUser = true := hd
    simp [hverify, hd, hu, checkAuthorization, hdel, validateKeySignature, validateSigner,
      hk, hfind, hauth, signerIsAuthorized, hp]
  · simp [hverify, hd, checkAuthorization, hdel, localTo, hp]

theorem validateKey_not_checkable {e : TransactionExecutor} {he : e.didFail = none}
    (hd : d.type.isUser = true) (hp : d.transaction.header.principal = some v)
    (hk : k.signer = some u) (hmd : md.location = some u) {db : Database}
    (hmain : (db.account u).main = some (.liteIdentity u 0 0)) {m : String}
    (hauth : (openNode.withExecutor initiator e he).delegatedIsAuthorized db d.transaction
      (.liteIdentity u 0 0) md = .panic m) (status : TransactionStatus) :
    ∃ m, (openNode.withExecutor initiator e he).validateKey db d k md status = .panic m := by
  have hverify : (openNode.withExecutor initiator e he).crypto.verifyKeySignature k
      ((openNode.withExecutor initiator e he).getHash d.transaction) = true := rfl
  have hfind : (openNode.withExecutor initiator e he).findSigner db (some u) (some u) =
      .ok (.liteIdentity u 0 0) := findSigner_open rfl hmain rfl
  have hauthz : ∃ b, checkAuthorization d.transaction md = .ok b := by
    unfold checkAuthorization
    split
    · exact ⟨_, rfl⟩
    · simp [localTo, hp, hmd]
  obtain ⟨b, hb⟩ := hauthz
  simp [validateKey, hverify, hd, hb, validateKeySignature, validateSigner, hk, hfind, hauth]

theorem signatureMetadata_openNode (hd : d.transaction.header.initiator = initiator)
    (hchain : sig.keyChain = some c) (hloc : sig.routingLocation = .ok (some u)) :
    (openNode initiator).signatureMetadata d sig = .ok ⟨some u, false, false, false⟩ := by
  have hmetadata := metadata_returns_of_keyChain hchain
  have hinitiator := initiator_returns hmetadata
  have hdid : (openNode initiator).crypto.signatureDidInitiate sig initiator = .ok false := by
    have hsig : ∀ s, (openNode initiator).crypto.signatureHash s ≠ initiator := fun _ =>
      otherHash_ne initiator
    have hinit : ∀ items, (openNode initiator).crypto.initiatorHash items ≠ initiator := fun _ =>
      otherHash_ne initiator
    rw [Crypto.signatureDidInitiate, unpackSignature_of_keyChain hchain]
    rcases hmetadata.cases with ⟨metadata, hm⟩ | ⟨e, hm⟩
    · rcases hinitiator.cases with ⟨items, hi⟩ | ⟨e, hi⟩
      · simp [Crypto.didInitiate, hm, hi, hsig, hinit]
      · simp [Crypto.didInitiate, hm, hi, hsig]
    · exact absurd hm (Signature.metadata_ne_error sig e)
  simp [signatureMetadata, hd, hdid, isSystem_of_keyChain hchain, hloc]

end Pages

/-- If the executor of the transaction cannot be asked about the signer, there is a node with an
executor and a database on which the key signature cannot be validated. -/
theorem exists_panic_of_not_checkable (ht : t.type.isUser = true)
    (hp : t.header.principal.isSome = true) (h : ¬ t.Checkable (u = ·)) (initiator : Hash)
    (status : TransactionStatus) :
    ∃ (e : TransactionExecutor) (he : e.didFail = none) (db : Database),
      (openNode.withExecutor initiator e he).Sturdy t ∧
        ∀ d k md, d.transaction = t → k.signer = some u → md.location = some u →
          ∃ m, (openNode.withExecutor initiator e he).validateKey db d k md status = .panic m := by
  obtain ⟨v, hv⟩ := Option.isSome_iff_exists.1 hp
  unfold Transaction.Checkable at h
  split at h
  · rename_i hbody
    refine ⟨identityExecutor, rfl, liteIdentities, sturdy_withExecutor fun db a md hcheck => ?_, ?_⟩
    · simp [Transaction.CheckableIn, Transaction.Checkable, hbody] at hcheck
    · rintro d k md rfl hk hmd
      refine validateKey_not_checkable ht hv hk hmd rfl (m := "nil URL") ?_ status
      simp [delegatedIsAuthorized, openNode.withExecutor, identityExecutor,
        CreateIdentity.signerIsAuthorized, hbody]
  · rename_i hbody
    simp only [hv, Option.some.injEq, forall_eq', not_forall, exists_prop] at h
    obtain ⟨hlite, hne⟩ := h
    refine ⟨WriteData.executor toyCrypto, rfl, liteIdentities.updateAccount v fun _ => .empty,
      sturdy_withExecutor fun db a md hcheck => ?_, ?_⟩
    · have hmain : (db.account v).main ≠ none := by
        simp only [Transaction.CheckableIn, Transaction.Checkable, hbody] at hcheck
        exact hcheck v hv hlite
      obtain ⟨b, hb⟩ := Option.ne_none_iff_exists'.1 hmain
      change ((WriteData.signerIsAuthorized toyCrypto db t).mapError .wrap).Returns
      rw [Outcome.returns_mapError, WriteData.signerIsAuthorized,
        WriteData.isWriteToLiteDataAccount, hbody, hv]
      simp only [hlite, hb]
      cases b <;> trivial
    · rintro d k md rfl hk hmd
      refine validateKey_not_checkable ht hv hk hmd ?_ (m := "nil data entry") ?_ status
      · rw [updateAccount_account_of_ne _ _ _ _ hne]
        rfl
      · simp [delegatedIsAuthorized, openNode.withExecutor, WriteData.executor,
          WriteData.signerIsAuthorized, WriteData.isWriteToLiteDataAccount, hbody, hv, hlite,
          AccountRecord.empty]
  · exact absurd trivial h

theorem Guarded.of_neverPanics (ht : t.type.isUser = true)
    (h : NeverPanics t sig) : Guarded t sig := by
  have hnode : ∀ db status h', (openNode t.header.initiator).Survives db status t h' sig :=
    fun db status h' => h _ db status h' (sturdy_openNode _ t)
  obtain ⟨u, hloc⟩ := location_of_routeEnvelopes (hnode .empty .new .missing).2.1
  -- validation on an open node starts with metadata that say nothing
  have hvalidate : ∀ (x : Executor) db c, x.Sturdy t →
      x.signatureMetadata = (openNode t.header.initiator).signatureMetadata →
      sig.keyChain = some c →
      (x.validateSignatureAt db (.new t [sig]) sig
        ⟨some u, false, false, false⟩ .new).1.Returns := by
    intro x db c hx hx' hchain
    have hinitiator : (Delivery.new t [sig]).transaction.header.initiator = t.header.initiator :=
      rfl
    have hmetadata := signatureMetadata_openNode hinitiator hchain hloc
    have hsurvives := (h x db .new .missing hx).2.2
    rw [validateSignature, hx', hmetadata,
      Proc.bind_run_of_ok (Proc.lift_run (.ok _) TransactionStatus.new)] at hsurvives
    exact Outcome.returns_mapError.1 (Proc.returns_of_bind hsurvives)
  refine ⟨?_, ⟨u, hloc, fun hknown k ds hchain hlength => ?_⟩, ?_⟩
  · exact (normalizeEnvelope_returns_iff _ t sig).1 fun h' => (hnode .empty .new h').1
  · -- the key signature can be validated on every open node
    have hkey : ∀ (x : Executor) db, x.Sturdy t →
        x.signatureMetadata = (openNode t.header.initiator).signatureMetadata →
        x.validatePreamble = (openNode t.header.initiator).validatePreamble →
        ¬ (k.signer = some u → ∀ md, md.location = some u →
          ∃ m, x.validateKey db (.new t [sig]) k md .new = .panic m) := by
      intro x db hx hx' hpreamble hkey
      let md : SignatureValidationMetadata := ⟨some u, false, false, false⟩
      obtain ⟨m, hm⟩ := panics_of_validateKey
        (fun hloc hinit => hpreamble ▸ validatePreamble_openNode hloc hknown hinit) hchain hkey hloc
        (rfl : md.location = _) rfl (.inr hlength)
      have hreturns := hvalidate x db _ hx hx' hchain
      rw [hm] at hreturns
      exact hreturns
    have hp : t.header.principal.isSome = true := by
      by_contra hp
      exact hkey _ liteIdentities (sturdy_openNode _ t) rfl rfl fun hk md _ =>
        validateKey_no_principal (d := .new t [sig]) ht (Option.not_isSome_iff_eq_none.1 hp) hk .new
    refine ⟨hp, ?_, fun hmissing => ?_⟩
    · by_contra hcheck
      obtain ⟨e, he, db, hsturdy, hpanic⟩ :=
        exists_panic_of_not_checkable ht hp hcheck t.header.initiator .new
      exact hkey _ db hsturdy rfl rfl fun hk md hmd => hpanic _ k md rfl hk hmd
    · have hne : ds ≠ [] := by
        rintro rfl
        cases hmissing
      have hreach : Reaches (u :: ds.filterMap id) (.run u ds)
          ((openNode t.header.initiator).validateSignatureAt
            (everywhere (openPage k (u :: ds.filterMap id))) (.new t [sig]) sig
            ⟨some u, false, false, false⟩ .new).1 :=
        reaches_validateSignatureAt rfl ht hknown List.mem_cons_self .new hchain hloc rfl rfl
          (.inr hne) (.inr hlength)
          fun v hv => List.mem_cons_of_mem _ (List.mem_filterMap.2 ⟨some v, hv, rfl⟩)
      rw [hmissing] at hreach
      obtain ⟨m, hm⟩ := hreach
      have hreturns := hvalidate _ (everywhere (openPage k (u :: ds.filterMap id))) _
        (sturdy_openNode _ t) rfl hchain
      rw [hm] at hreturns
      exact hreturns
  · have hsurvives := (hnode .empty .new .missing).2.2
    have hmetadata := Proc.returns_of_bind hsurvives
    exact initiatesSafely_of_returns (fun _ => otherHash_ne _) (fun _ => otherHash_ne _)
      hmetadata.of_bind.of_bind

def transfer : Transaction :=
  ⟨⟨some ⟨.named "a", []⟩, 0, "", []⟩, .payload (.sendTokens [])⟩

def delegatedReceipt : Signature :=
  .delegated (some (.receipt none ⟨0, 0, 0, 0, 0, []⟩ 0)) (some ⟨.named "a", []⟩)

end Executor

end Accumulate
