import Accumulate.Chain.StateManager
import Accumulate.Database.SignatureSet

/-!
# Updating a key

The `UpdateKey` executor of `internal/chain/update_key.go`.  The entry of the key page
that belongs to the initiator gets another key hash.  The page is kept in the order of
its key hashes, so the entry moves; the version of the page stays the same.
-/

namespace Accumulate

open Library Protocol Database

namespace Protocol

def KeyPage.findEntry (page : KeyPage) (search : KeySpecParams) : Option Nat :=
  let byKeyHash := if search.keyHash = [] then none else page.entryByKeyHash search.keyHash
  match byKeyHash, search.delegate with
  | some i, _ => some i
  | none, some delegate => page.entryByDelegate delegate
  | none, none => none

def KeySpecParams.isEmpty (p : KeySpecParams) : Bool := p.keyHash = [] && p.delegate.isNone

end Protocol

namespace Chain
namespace UpdateKey

variable (c : Crypto)

def verifyIsNotPage (auth : AccountAuth) (account : Url) : Outcome Error Unit :=
  match parseKeyPageUrl account with
  | none => .ok ()
  | some (book, _) =>
    if auth.hasAuthority book then
      .error (.new .badRequest "a key page is not a valid authority")
    else .ok ()

/-- The checks `updateKey` makes of a new delegate. -/
def checkDelegate (page : KeyPage) (auth : AccountAuth) : Option Url → Outcome Error Unit
  | none => .ok ()
  | some delegate =>
    if delegate.parentOf page.url then .error (.plain "self-delegation is not allowed")
    else (verifyIsNotPage auth delegate).mapError (.format .unknownError "invalid delegate")

/-- The entry with its new key hash and, unless it is to be preserved, delegate. -/
def replaceEntry (entry : KeySpec) (new : KeySpecParams) (preserveDelegate : Bool) : KeySpec :=
  { entry with
    publicKeyHash := new.keyHash
    delegate := if new.delegate.isSome ∨ !preserveDelegate then new.delegate else entry.delegate }

/-- The last part of `updateKey`: the entry is changed, removed and added again. -/
def relocate (page : KeyPage) (oldPos : Nat) (entry : KeySpec) (new : KeySpecParams)
    (preserveDelegate : Bool) : KeyPage :=
  (page.removeKeySpecAt oldPos).addKeySpec (replaceEntry entry new preserveDelegate)

def updateKey (page : KeyPage) (auth : AccountAuth) (old new : KeySpecParams)
    (preserveDelegate : Bool) : Outcome Error KeyPage :=
  if new.isEmpty then .error (.plain "cannot add an empty entry")
  else do
    checkDelegate page auth new.delegate
    match page.findEntry old with
    | none => .error (.plain "entry to be updated not found on the key page")
    | some oldPos =>
      match page.keys[oldPos]? with
      | none => .error (.plain "entry to be updated not found on the key page")
      | some entry =>
        match page.findEntry new with
        | some newPos =>
          if oldPos ≠ newPos then
            .error (.plain "cannot have duplicate entries on key page")
          else .ok (relocate page oldPos entry new preserveDelegate)
        | none => .ok (relocate page oldPos entry new preserveDelegate)

def validate (d : Delivery) (st : StateManager) : Outcome Error (Bytes × KeyPage × AccountAuth) :=
  match d.transaction.body with
  | .payload (.updateKey newKeyHash) =>
    if newKeyHash.length = 0 then .error (.new .badRequest "public key hash is missing")
    else if newKeyHash.length ≠ 32 then
      .error (.new .badRequest "public key hash length is invalid")
    else
      match st.origin with
      | none => .panic "nil account"
      | some (.keyPage page) =>
        match parseKeyPageUrl st.originUrl with
        | none => .error (.plain "invalid principal: page url is invalid")
        | some (bookUrl, _) =>
          match (st.batch.account bookUrl).main with
          | some (.keyBook _ auth bookType _) =>
            if bookType = .validator then
              .error (.plain
                "UpdateKey cannot be used to modify the validator key book")
            else .ok (newKeyHash, page, auth)
          | _ => .error (.plain "invalid key book")
      | some _ => .error (.plain "invalid principal: want account type keyPage")
  | _ => .error (.plain "invalid payload")

def findAmong (txnInitHash : Hash) : List Signature → Outcome Error (Option Signature)
  | [] => .ok none
  | sig :: rest => do
      match ← c.didInitiate txnInitHash (unpackSignature sig) with
      | some initiator => return some initiator
      | none => findAmong txnInitHash rest

def findInitiator (db : Database) (txHash txnInitHash : Hash) :
    List Account → Outcome Error (Option Signature)
  | [] => .ok none
  | signer :: rest => do
      let sigs ← (db.getSignaturesForSigner txHash signer).mapError
        (.plainWrap "load signatures")
      match ← findAmong c txnInitHash sigs with
      | some initiator => return some initiator
      | none => findInitiator db txHash txnInitHash rest

def initiatorParams : Signature → Outcome Error KeySpecParams
  | .key k => .ok ⟨c.keyHash k, none⟩
  | .delegated inner delegator => do
      let signer ← (Signature.delegated inner delegator).getSigner
      match inner with
      | some (.key _) => return ⟨[], signer⟩
      | _ => .error (.plain "cannot UpdateKey with a multi-level delegated signature")
  | _ => .error (.new .internalError "updateKey does not support this signature")

def oldParams (d : Delivery) (db : Database) : Outcome Error KeySpecParams := do
  let hash := c.getHash d.transaction
  match ← findInitiator c db hash d.transaction.header.initiator
      (db.transaction hash).status.signers with
  | none => .error (.new .internalError "unable to locate initiator signature")
  | some initiator => initiatorParams c initiator

/-- The page an update leads to, without storing it. -/
def updatedPage (d : Delivery) (st : StateManager) : Outcome Error KeyPage := do
  let (newKeyHash, page, auth) ← validate d st
  let old ← oldParams c d st.batch
  updateKey page auth old ⟨newKeyHash, none⟩ true

def execute (d : Delivery) : Proc StateManager Error (Option TransactionResult) := do
  let page ← Proc.query (updatedPage c d)
  Proc.modify fun st => { st with origin := some (.keyPage page) }
  Proc.mapError (fun _ => .plain "failed to update") (StateManager.update c (.keyPage page))
  return none

/-! ### Errors -/

variable {c}

variable {txnInitHash : Hash}

theorem raises_findAmong {l : List Signature} :
    Outcome.Raises Error.Failing (findAmong c txnInitHash l) := by
  induction l with
  | nil => exact .ok _
  | cons s rest ih =>
    refine .bind (fun e h => absurd h (c.didInitiate_ne_error _ e)) fun r => ?_
    split
    · exact .ok _
    · exact ih

variable {db : Database}

theorem raises_findInitiator {txHash : Hash} {l : List Account} :
    Outcome.Raises Error.Failing (findInitiator c db txHash txnInitHash l) := by
  induction l with
  | nil => exact .ok _
  | cons signer rest ih =>
    refine .bind (.mapError raises_loadSignatures fun e he => he.plainWrap _) fun sigs => ?_
    refine .bind raises_findAmong fun r => ?_
    split
    · exact .ok _
    · exact ih

variable {page : KeyPage} {auth : AccountAuth} {preserveDelegate : Bool} {new old : KeySpecParams}

theorem raises_checkDelegate {delegate : Option Url} :
    Outcome.Raises Error.Failing (checkDelegate page auth delegate) := by
  unfold checkDelegate
  split
  · exact .ok _
  refine .ite (.error rfl) (.mapError ?_ fun e he => he.format _)
  unfold verifyIsNotPage
  split
  · exact .ok _
  · exact .ite (.error rfl) (.ok _)

theorem raises_updateKey :
    Outcome.Raises Error.Failing (updateKey page auth old new preserveDelegate) := by
  refine .ite (.error rfl) (.bind raises_checkDelegate fun _ => ?_)
  split
  · exact .error rfl
  split
  · exact .error rfl
  split
  · exact .ite (.error rfl) (.ok _)
  · exact .ok _

/-- An update that succeeds has moved an entry, and no other entry has been found for what
the entry becomes. -/
theorem updateKey_eq_ok {page' : KeyPage}
    (h : updateKey page auth old new preserveDelegate = .ok page') :
    ∃ oldPos entry, page.findEntry old = some oldPos ∧ page.keys[oldPos]? = some entry ∧
      (∀ newPos, page.findEntry new = some newPos → newPos = oldPos) ∧
      page' = relocate page oldPos entry new preserveDelegate := by
  unfold updateKey at h
  split at h
  · cases h
  obtain ⟨_, -, h⟩ := Outcome.bind_eq_ok.1 h
  split at h
  · cases h
  rename_i oldPos hold
  split at h
  · cases h
  rename_i entry hentry
  split at h
  · rename_i newPos hnew
    obtain ⟨hpos, h⟩ := Outcome.ite_error_eq_ok.1 h
    cases h
    refine ⟨oldPos, entry, hold, hentry, fun pos hfound => ?_, rfl⟩
    cases hnew.symm.trans hfound
    exact (not_not.1 hpos).symm
  · rename_i hnew
    cases h
    exact ⟨oldPos, entry, hold, hentry, fun pos hfound => by simp [hnew] at hfound, rfl⟩

variable {d : Delivery} {st : StateManager}

theorem raises_validate : Outcome.Raises Error.Failing (validate d st) := by
  unfold validate
  split
  · refine .ite (.error rfl) (.ite (.error rfl) ?_)
    split
    · exact .panic _
    · split
      · exact .error rfl
      split
      · exact .ite (.error rfl) (.ok _)
      · exact .error rfl
    · exact .error rfl
  · exact .error rfl

/-- The new key hash comes from the body of the transaction and is not empty, and the page
is the principal. -/
theorem validate_eq_ok {newKeyHash : Bytes} (h : validate d st = .ok (newKeyHash, page, auth)) :
    d.transaction.body = .payload (.updateKey newKeyHash) ∧ newKeyHash ≠ [] ∧
      st.origin = some (.keyPage page) := by
  unfold validate at h
  split at h
  · rename_i hbody
    obtain ⟨hlength, h⟩ := Outcome.ite_error_eq_ok.1 h
    replace h := (Outcome.ite_error_eq_ok.1 h).2
    split at h
    · cases h
    · rename_i horigin
      split at h
      · cases h
      split at h
      · cases (Outcome.ite_error_eq_ok.1 h).2
        exact ⟨hbody, fun hnil => hlength (by rw [hnil]; rfl), horigin⟩
      · cases h
    · cases h
  · cases h

theorem raises_initiatorParams {initiator : Signature} :
    Outcome.Raises Error.Failing (initiatorParams c initiator) := by
  unfold initiatorParams
  split
  · exact .ok _
  · refine .bind (fun e h => absurd h (Signature.getSigner_ne_error _ e)) fun signer => ?_
    split
    · exact .ok _
    · exact .error rfl
  · exact .error rfl

theorem raises_oldParams : Outcome.Raises Error.Failing (oldParams c d db) := by
  refine .bind raises_findInitiator fun r => ?_
  split
  · exact .error rfl
  · exact raises_initiatorParams

theorem raises_updatedPage : Outcome.Raises Error.Failing (updatedPage c d st) :=
  .bind raises_validate fun _ => .bind raises_oldParams fun _ => raises_updateKey

variable (c)

theorem raises_execute (d : Delivery) : Proc.Raises Error.Failing (execute c d) := by
  refine .bind (.query fun _ => raises_updatedPage) fun page => ?_
  refine .bind (.modify _) fun _ => ?_
  refine .bind (.mapError (StateManager.raises_createOrUpdate c true _)
    fun e _ => rfl) fun _ => .pure _

def executor : TransactionExecutor := .plain (execute c) (raises_execute c)

end UpdateKey
end Chain
end Accumulate
