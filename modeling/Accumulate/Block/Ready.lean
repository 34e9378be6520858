import Accumulate.Core.Globals
import Accumulate.Database.SignatureSet
import Accumulate.Protocol.Ledger

/-!
# Readiness

Whether a transaction can be executed: `TransactionIsReady` of
`internal/block/transaction.go` with the three cases of user, synthetic and system
transactions.  Nothing here writes to the database.
-/

namespace Accumulate.Executor

open Library Protocol Database Accumulate.Core Chain

variable (x : Executor)

/-! ## Authorities -/

/-- `GetAccountAuthoritySet`: a key page is governed by the authorities of its book.
The book of a page has a shorter path, so the path length bounds the recursion. -/
def accountAuthoritySet (db : Database) : Nat → Account → Outcome Error AccountAuth
  | fuel + 1, .keyPage p =>
    match parseKeyPageUrl p.url with
    | some (book, _) => do
        let a ← db.getState book
        accountAuthoritySet db fuel a
    | none => .error (.new .internalError "invalid key page URL")
  | 0, .keyPage _ => .error (.new .internalError "invalid key page URL")
  | _, .liteIdentity u _ _ => .ok [⟨u, false⟩]
  | _, .liteTokenAccount u _ _ _ => .ok [⟨u.rootIdentity, false⟩]
  | _, a => .ok (a.fullAuth.getD [])

def getAccountAuthoritySet (db : Database) (a : Account) : Outcome Error AccountAuth :=
  accountAuthoritySet db (a.url.path.length + 1) a

/-- `SignerIsSatisfied`: a completed set of signatures has been received, or as many
signatures as the threshold asks for. -/
def signerIsSatisfied (db : Database) (transaction : Transaction) (signer : Account) : Bool :=
  let signatures := db.readSignaturesForSigner (x.getHash transaction) signer
  signatures.any (·.type = .set) ||
    (Signer.account signer).signatureThreshold ≤ signatures.length

def authorityIsSatisfied (db : Database) (transaction : Transaction)
    (status : TransactionStatus) (authUrl : Url) : Bool :=
  (status.findSigners authUrl).any fun signer => x.signerIsSatisfied db transaction signer

/-! ## User transactions -/

def errMissingPrincipal : Error := .notFound "missing principal: not found"

/-- The last part of `userTransactionIsReady`: every authority that counts is
satisfied and there is at least one signer. -/
def authoritiesAreSatisfied (db : Database) (transaction : Transaction)
    (status : TransactionStatus) (auth : AccountAuth) : Bool :=
  auth.all (fun entry =>
    (entry.disabled && !transaction.type.requireAuthorization) ||
      x.authorityIsSatisfied db transaction status entry.url) &&
    status.signers ≠ []

/-- An update of a key needs one signature, and it has to be the initiator's. -/
def updateKeyIsReady (db : Database) (transaction : Transaction) (initiator : Url) :
    Outcome Error Bool := do
  let initSigs ← (db.readSignatures (x.getHash transaction) initiator).mapError
    (.plainWrap "load initiator signatures")
  if initSigs = [] then .error (.plain "missing initiator signature") else return true

/-- The general rule: every authority of the principal is satisfied. -/
def generalIsReady (db : Database) (transaction : Transaction) (status : TransactionStatus)
    (principal : Option Account) : Outcome Error Bool :=
  match principal with
  | none => .error errMissingPrincipal
  | some principal => do
      let auth ← (getAccountAuthoritySet db principal).mapError
        (.plainWrap "unable to load authority")
      return x.authoritiesAreSatisfied db transaction status auth

/-- The transaction executor decides whether the transaction is ready, or leaves it
to the general rule. -/
def delegatedIsReady (db : Database) (transaction : Transaction) (status : TransactionStatus)
    (principal : Option Account) : Outcome Error Bool :=
  match (x.executors transaction.type).bind (·.transactionIsReady) with
  | none => x.generalIsReady db transaction status principal
  | some isReady => do
      let (ready, fallback) ← isReady db transaction status
      if fallback then x.generalIsReady db transaction status principal else return ready

def userTransactionIsReady (db : Database) (delivery : Delivery) (status : TransactionStatus)
    (principal : Option Account) : Outcome Error Bool :=
  match status.initiator with
  | none => .ok false
  | some initiator =>
    if principal.isNone ∧ !x.allowMissingPrincipal delivery.transaction then
      .error errMissingPrincipal
    else if delivery.wasProducedInternally then .ok true
    else if delivery.type = .updateKey then
      x.updateKeyIsReady db delivery.transaction initiator
    else x.delegatedIsReady db delivery.transaction status principal

variable {db : Database} {e : Error}

theorem raises_accountAuthoritySet (fuel : Nat) (a : Account) :
    Outcome.Raises Error.Failing (accountAuthoritySet db fuel a) := by
  induction fuel generalizing a with
  | zero =>
    cases a with
    | keyPage p => exact .error rfl
    | _ => exact .ok _
  | succ fuel ih =>
    cases a with
    | keyPage p =>
      rw [accountAuthoritySet]
      split
      · exact .bind raises_getState fun book => ih book
      · exact .error rfl
    | _ => exact .ok _

variable {t : Transaction}

theorem raises_updateKeyIsReady {initiator : Url} :
    Outcome.Raises Error.Failing (x.updateKeyIsReady db t initiator) :=
  .bind (.mapError raises_readSignatures fun e he => he.plainWrap _) fun _ =>
    .ite (.error rfl) (.ok _)

variable {status : TransactionStatus} {principal : Option Account}

theorem raises_generalIsReady :
    Outcome.Raises Error.Failing (x.generalIsReady db t status principal) := by
  unfold generalIsReady
  split
  · exact .error rfl
  · exact .bind (.mapError (raises_accountAuthoritySet _ _) fun e he => he.plainWrap _) fun _ =>
      .ok _

theorem raises_delegatedIsReady :
    Outcome.Raises Error.Failing (x.delegatedIsReady db t status principal) := by
  unfold delegatedIsReady
  split
  · exact x.raises_generalIsReady
  rename_i isReady hsome
  obtain ⟨ex, -, hex⟩ := Option.bind_eq_some_iff.1 hsome
  refine .bind (ex.transactionIsReady_failing isReady hex db t status) fun r => ?_
  exact .ite x.raises_generalIsReady (.ok _)

variable {d : Delivery}

theorem raises_userTransactionIsReady :
    Outcome.Raises Error.Failing (x.userTransactionIsReady db d status principal) := by
  unfold userTransactionIsReady
  split
  · exact .ok _
  · exact .ite (.error rfl) (.ite (.ok _)
      (.ite x.raises_updateKeyIsReady x.raises_delegatedIsReady))

/-- The readiness of a transaction is left to the general rule: its executor is no
`SignerValidator`, or it falls back. -/
def DecidedByAuthorities (db : Database) (transaction : Transaction)
    (status : TransactionStatus) : Prop :=
  ∀ isReady, (x.executors transaction.type).bind (·.transactionIsReady) = some isReady →
    (isReady db transaction status).Yields fun r => r.2 = true

/-- An authority has signed: a signer that is the authority or a child of it has a
completed set of signatures or as many signatures as it needs. -/
def AuthoritySigned (db : Database) (transaction : Transaction) (status : TransactionStatus)
    (authority : Url) : Prop :=
  ∃ signer ∈ status.signers,
    (signer.url.compare authority = .eq ∨ authority.parentOf signer.url = true) ∧
      ((∃ e ∈ db.readSignaturesForSigner (x.getHash transaction) signer, e.type = .set) ∨
        (Signer.account signer).signatureThreshold ≤
          (db.readSignaturesForSigner (x.getHash transaction) signer).length)

theorem authoritySigned_of_satisfied {authority : Url} (hsorted : status.SignersSorted)
    (hchildren : ∀ a ∈ status.signers, authority.Below a.url → authority.parentOf a.url = true)
    (h : x.authorityIsSatisfied db t status authority = true) :
    x.AuthoritySigned db t status authority := by
  obtain ⟨signer, hfound, hsatisfied⟩ := List.any_eq_true.1 h
  obtain ⟨hmem, hurl⟩ := TransactionStatus.findSigners_sound hsorted hchildren hfound
  refine ⟨signer, hmem, hurl, ?_⟩
  simpa [signerIsSatisfied] using hsatisfied

/-- A user transaction whose authorities decide is ready only if it is `generalIsReady`. -/
theorem generalIsReady_of_ready (hint : d.wasProducedInternally = false)
    (htype : d.type ≠ .updateKey) (hdecided : x.DecidedByAuthorities db d.transaction status)
    (h : x.userTransactionIsReady db d status principal = .ok true) :
    x.generalIsReady db d.transaction status principal = .ok true := by
  unfold userTransactionIsReady at h
  split at h
  · cases h
  split at h
  · cases h
  rw [hint, if_neg Bool.false_ne_true] at h
  unfold delegatedIsReady at h
  split at h
  · exact h
  rename_i isReady hsome
  obtain ⟨⟨ready, fallback⟩, hready, hfallback⟩ := (hdecided isReady hsome).exists_ok
  rw [hready] at h
  subst hfallback
  exact h

/-- A user transaction that is ready by the general rule has a signer, and every authority
of its principal that counts has signed.  `FindSigners` relies on the order of the signers,
which `AddSigner` keeps, and on signers below an authority being its children. -/
theorem authorities_signed_of_ready {db : Database} {d : Delivery} {status : TransactionStatus}
    {principal : Option Account} (hint : d.wasProducedInternally = false)
    (htype : d.type ≠ .updateKey) (hdecided : x.DecidedByAuthorities db d.transaction status)
    (hsorted : status.SignersSorted)
    (hchildren : ∀ a auth, principal = some a → getAccountAuthoritySet db a = .ok auth →
      ∀ entry ∈ auth, ∀ signer ∈ status.signers,
        entry.url.Below signer.url → entry.url.parentOf signer.url = true)
    (h : x.userTransactionIsReady db d status principal = .ok true) :
    status.signers ≠ [] ∧ ∃ a auth, principal = some a ∧ getAccountAuthoritySet db a = .ok auth ∧
      ∀ entry ∈ auth, entry.disabled = false ∨ d.type.requireAuthorization = true →
        x.AuthoritySigned db d.transaction status entry.url := by
  have hgeneral := x.generalIsReady_of_ready hint htype hdecided h
  unfold generalIsReady at hgeneral
  split at hgeneral
  · cases hgeneral
  rename_i a
  obtain ⟨auth, hauth, hready⟩ := Outcome.bind_eq_ok.1 hgeneral
  have hauth := Outcome.mapError_eq_ok.1 hauth
  have hready : x.authoritiesAreSatisfied db d.transaction status auth = true :=
    Outcome.ok.inj hready
  unfold authoritiesAreSatisfied at hready
  rw [Bool.and_eq_true, List.all_eq_true, decide_eq_true_eq] at hready
  refine ⟨hready.2, a, auth, rfl, hauth, fun entry hentry hcounts => ?_⟩
  apply x.authoritySigned_of_satisfied hsorted (hchildren a auth rfl hauth entry hentry)
  have hentry := hready.1 entry hentry
  rcases hcounts with henabled | hrequired
  · simpa [henabled] using hentry
  · have hrequired : d.transaction.type.requireAuthorization = true := hrequired
    simpa [hrequired] using hentry

/-! ### A signer below a child of an authority -/

def deepBook : Url := ⟨.named "deep", ["book"]⟩

def deepPage (path : List String) : Account :=
  .keyPage ⟨deepBook.joinPath path, 0, 1, 1, [⟨[1], 0, none⟩], none⟩

def deepPrincipal : Account := .dataAccount ⟨.named "deep", ["data"]⟩ [⟨deepBook, false⟩] none

def deepDelivery : Delivery :=
  .new ⟨⟨some deepPrincipal.url, 0, "", []⟩,
    .payload (.writeData (some ⟨.accumulate, []⟩) false false)⟩ []

def deepStatus (signers : List (List String)) : TransactionStatus :=
  { TransactionStatus.new with
    initiator := some (deepBook.joinPath ["1"])
    signers := signers.map deepPage }

def deepNode : Executor := toyNode

def deepSigned (path : List String) : Database :=
  (addSignature toyCrypto (deepNode.getHash deepDelivery.transaction)
    (.account (deepPage path)) 0
    (.key ⟨.ed25519, [1], [], some (deepBook.joinPath path), 1, 1, .accept, 0⟩) .empty).2

/-- The signers are in order, but the one that has signed is below a child of the
authority: the end of the range is searched for with a test that is not monotone. -/
theorem deep_ready_not_signed :
    deepNode.userTransactionIsReady (deepSigned ["1", "2"]) deepDelivery
        (deepStatus [["1"], ["1", "2"], ["2"], ["3"]]) (some deepPrincipal) = .ok true ∧
      deepDelivery.wasProducedInternally = false ∧ deepDelivery.type ≠ .updateKey ∧
      deepNode.DecidedByAuthorities (deepSigned ["1", "2"]) deepDelivery.transaction
        (deepStatus [["1"], ["1", "2"], ["2"], ["3"]]) ∧
      getAccountAuthoritySet (deepSigned ["1", "2"]) deepPrincipal = .ok [⟨deepBook, false⟩] ∧
      ¬ deepNode.AuthoritySigned (deepSigned ["1", "2"]) deepDelivery.transaction
        (deepStatus [["1"], ["1", "2"], ["2"], ["3"]]) deepBook := by
  refine ⟨by decide +kernel, rfl, by decide, (nofun), rfl, ?_⟩
  unfold AuthoritySigned
  decide +kernel

theorem deep_ready_signed :
    (deepStatus [["1"], ["2"]]).signers ≠ [] ∧ ∃ a auth, some deepPrincipal = some a ∧
      getAccountAuthoritySet (deepSigned ["2"]) a = .ok auth ∧
      ∀ entry ∈ auth, entry.disabled = false ∨ deepDelivery.type.requireAuthorization = true →
        deepNode.AuthoritySigned (deepSigned ["2"]) deepDelivery.transaction
          (deepStatus [["1"], ["2"]]) entry.url := by
  apply deepNode.authorities_signed_of_ready rfl (by decide) (nofun)
  · unfold TransactionStatus.SignersSorted
    decide +kernel
  · intro a auth ha hauth
    cases ha
    cases hauth
    decide +kernel
  · decide +kernel

/-! ## Synthetic and system transactions -/

/-- The end of both `synthTransactionIsReady` and `systemTransactionIsReady`: the
principal has to exist, or to be dispensable. -/
def principalIsReady (delivery : Delivery) (principal : Option Account) : Outcome Error Bool :=
  if principal.isSome ∨ x.allowMissingPrincipal delivery.transaction then .ok true
  else .error errMissingPrincipal

def synthTransactionIsReady (db : Database) (delivery : Delivery) (status : TransactionStatus)
    (principal : Option Account) : Outcome Error Bool :=
  match status.proof with
  | none => .ok false
  | some proof =>
    if !status.gotDirectoryReceipt then .ok false
    else if ((db.chain x.describe.anchorPool (.anchorRoot directory)).heightOf
        proof.anchor).isNone then .ok false
    else
      match db.getStateAs x.describe.synthetic asSyntheticLedger with
      | .error e => .error (.format .unknownError "load synthetic transaction ledger" e)
      | .panic m => .panic m
      | .ok ledger =>
        match status.sourceNetwork with
        | none => .panic "nil URL"
        | some source =>
          let delivered := (partitionLedger ledger.exchange source).delivered
          if status.sequenceNumber ≤ delivered then
            .error (.new .delivered "synthetic transaction has been delivered")
          else if delivered + 1 ≠ status.sequenceNumber then .ok false
          else x.principalIsReady delivery principal

def systemTransactionIsReady (db : Database) (delivery : Delivery) (status : TransactionStatus)
    (principal : Option Account) : Outcome Error Bool :=
  if delivery.type.isUnsequenced then .ok true
  else
    match status.sourceNetwork with
    | none => .panic "nil URL"
    | some source =>
      match parsePartitionUrl source with
      | none => .error (.new .badRequest "source is not a partition")
      | some partition =>
        if status.anchorSigners.length < x.validatorThreshold partition then .ok false
        else
          match db.getStateAs x.describe.anchorPool asAnchorLedger with
          | .error e => .error (.format .unknownError "load anchor ledger" e)
          | .panic m => .panic m
          | .ok ledger =>
            match delivery.sourceNetwork with
            | none => .panic "nil URL"
            | some source =>
              if (partitionLedger ledger.exchange source).delivered + 1 ≠
                  status.sequenceNumber then .ok false
              else x.principalIsReady delivery principal

def transactionIsReady (db : Database) (delivery : Delivery) (status : TransactionStatus)
    (principal : Option Account) : Outcome Error Bool :=
  let ready :=
    if delivery.type.isUser then x.userTransactionIsReady db delivery status principal
    else if delivery.type.isSynthetic then
      x.synthTransactionIsReady db delivery status principal
    else x.systemTransactionIsReady db delivery status principal
  match ready with
  | .error e => .error e.wrap
  | r => r

theorem transactionIsReady_failing (hu : d.type.isUser = true)
    (h : x.transactionIsReady db d status principal = .error e) : e.Failing := by
  unfold transactionIsReady at h
  simp only [hu] at h
  split at h
  · rename_i e' he'
    cases h
    exact (x.raises_userTransactionIsReady _ he').wrap
  · rename_i hne
    exact absurd h (hne e)

/-! ## Signatures of synthetic transactions -/

def anyKeySignature (db : Database) : List SigSetEntry → Outcome Error Bool
  | [] => .ok false
  | e :: rest =>
    match db.getTransaction e.signatureHash with
    | .error err => .error (.plainWrap "load signature entry" err)
    | .panic m => .panic m
    | .ok state =>
      match state.signature with
      | some (.key _) => .ok true
      | _ => anyKeySignature db rest

def hasKeySignature (db : Database) (status : TransactionStatus) : Outcome Error Bool :=
  match status.txID with
  | none => .panic "nil transaction ID"
  | some id => anyKeySignature db
      (status.signers.flatMap fun signer => db.readSignaturesForSigner id.hash signer)

/-- `processSyntheticTransaction`: check that a synthetic transaction has all the
right signatures. -/
def processSyntheticTransaction (db : Database) (transaction : Transaction)
    (status : TransactionStatus) : Outcome Error Unit := do
  if status.sourceNetwork.isNone then
    .error (.new .unauthenticated "missing partition signature")
  else
    let hasKeySig ← hasKeySignature db status
    if !hasKeySig then .error (.new .unauthenticated "missing key signature")
    else if transaction.type.isAnchor then return ()
    else if status.proof.isNone then
      .error (.new .unauthenticated "missing synthetic transaction receipt")
    else return ()

/-! ### Errors of any transaction -/

theorem raises_principalIsReady : Outcome.Raises Error.Failing (x.principalIsReady d principal) :=
  .ite (.ok _) (.error rfl)

theorem raises_synthTransactionIsReady :
    Outcome.Raises (fun e => e.is .delivered = true ∨ e.Failing)
      (x.synthTransactionIsReady db d status principal) := by
  unfold synthTransactionIsReady
  split
  · exact .ok _
  refine .ite (.ok _) (.ite (.ok _) ?_)
  split
  · rename_i hledger
    exact .error (.inr ((raises_getStateAs _ hledger).format _))
  · exact .panic _
  · split
    · exact .panic _
    · exact .ite (.error (.inl rfl)) (.ite (.ok _)
        fun e h => .inr (x.raises_principalIsReady e h))

theorem raises_systemTransactionIsReady :
    Outcome.Raises Error.Failing (x.systemTransactionIsReady db d status principal) := by
  unfold systemTransactionIsReady
  refine .ite (.ok _) ?_
  split
  · exact .panic _
  split
  · exact .error rfl
  refine .ite (.ok _) ?_
  split
  · rename_i hledger
    exact .error ((raises_getStateAs _ hledger).format _)
  · exact .panic _
  · split
    · exact .panic _
    · exact .ite (.ok _) x.raises_principalIsReady

/-- If the readiness of a transaction cannot be decided, the transaction fails, unless it has
been executed before. -/
theorem transactionIsReady_error (h : x.transactionIsReady db d status principal = .error e) :
    e.is .delivered = true ∨ e.Failing := by
  unfold transactionIsReady at h
  simp only at h
  split at h
  · rename_i e' he'
    cases h
    split at he'
    · exact .inr (x.raises_userTransactionIsReady _ he').wrap
    split at he'
    · refine (x.raises_synthTransactionIsReady _ he').imp (fun hdelivered => ?_) fun hf => hf.wrap
      unfold Error.is at hdelivered ⊢
      rcases Bool.or_eq_true_iff.1 hdelivered with hcode | hcause
      · simp_all
      · simp_all [Error.wrap]
    · exact .inr (x.raises_systemTransactionIsReady _ he').wrap
  · rename_i hne
    exact absurd h (hne e)

theorem raises_anyKeySignature {l : List SigSetEntry} :
    Outcome.Raises Error.Failing (anyKeySignature db l) := by
  induction l with
  | nil => exact .ok _
  | cons entry rest ih =>
    unfold anyKeySignature
    split
    · rename_i hload
      exact .error ((raises_getTransaction _ hload).plainWrap _)
    · exact .panic _
    · split
      · exact .ok _
      · exact ih

theorem raises_processSyntheticTransaction :
    Outcome.Raises Error.Failing (processSyntheticTransaction db t status) := by
  refine .ite (.error rfl) (.bind ?_ fun hasKeySig => ?_)
  · unfold hasKeySignature
    split
    · exact .panic _
    · exact raises_anyKeySignature
  · exact .ite (.error rfl) (.ite (.ok _) (.ite (.error rfl) (.ok _)))

end Accumulate.Executor
