import Accumulate.Chain.UpdateKeyPage

/-!
# Creating key books and key pages

The `CreateKeyBook` and `CreateKeyPage` executors of `internal/chain/create_key_book.go` and
`internal/chain/create_key_page.go`.  A new book has one page with one key; further pages get a
list of keys.

`CreateKeyPage` only looks at the key hashes of the entries it is given: their delegates are
dropped, and an entry without a key hash is put on the page without anything in it.
-/

namespace Accumulate

open Library Protocol Database

def Protocol.formatKeyPageUrl (keyBook : Url) (pageIndex : Nat) : Url :=
  keyBook.joinPath [toString ((pageIndex + 1) % 2 ^ 64)]

def Protocol.AccountAuth.addAuthority (a : AccountAuth) (entry : Url) : AccountAuth :=
  if a.hasAuthority entry then a
  else (upsert a (fun e => e.url.compare entry) ⟨entry, false⟩).1

def Database.asKeyBook : Account → Option AccountAuth
  | .keyBook _ auth _ _ => some auth
  | _ => none

namespace Chain

/-! ## Authorities of new accounts -/

namespace StateManager

/-- `StateManager.AddAuthority`: an authority of the same identity has to be a key book. -/
def addAuthority (st : StateManager) (account : Url) (auth : AccountAuth) (authority : Url) :
    Outcome Error AccountAuth :=
  if account.localTo authority then do
    let _ ← (st.batch.getStateAs authority asKeyBook).mapError (.format .unknownError "load")
    return auth.addAuthority authority
  else .ok (auth.addAuthority authority)

def addAuthorities (st : StateManager) (account : Url) :
    AccountAuth → List Url → Outcome Error AccountAuth
  | auth, [] => .ok auth
  | auth, authority :: rest => do
      let auth ← (st.addAuthority account auth authority).mapError .wrap
      addAuthorities st account auth rest

def inheritAuth (st : StateManager) (account : Url) : Outcome Error AccountAuth :=
  if account.rootIdentity ≠ st.originUrl.rootIdentity then
    .error (.new .badRequest
      "cannot inherit from principal: belongs to a different root identity")
  else
    match st.origin.bind Account.fullAuth with
    | none => .error (.new .badRequest "cannot inherit from principal: not a full account")
    | some auth => .ok auth

/-- `SetAuth`: the authorities given, those the account already has, or else those of the
principal. -/
def setAuth (st : StateManager) (account : Url) (auth : AccountAuth) (authorities : List Url) :
    Outcome Error AccountAuth :=
  if authorities ≠ [] then st.addAuthorities account auth authorities
  else if auth ≠ [] then .ok auth
  else (st.inheritAuth account).mapError .wrap

def checkCreateAdiAccount (st : StateManager) (account : Url) : Outcome Error Unit :=
  match st.origin with
  | none => .panic "nil account"
  | some (.adi ..) =>
    if account.identity = st.originUrl then .ok ()
    else .error (.new .badRequest "invalid principal: cannot create as a child")
  | some _ => .error (.new .badRequest "invalid principal: want account type identity")

end StateManager

/-- `additionalAuthorities.SignerIsAuthorized`: a page of a book that becomes an authority may
sign. -/
def additionalAuthorities (delegate : AuthDelegate) (authorities : List Url) (db : Database)
    (t : Transaction) (signer : Account) : Outcome Error Bool :=
  match parseKeyPageUrl signer.url with
  | some (signerBook, _) => do
      if signerBook ∈ authorities then
        delegate.signerIsAuthorized db t signer false
        return false
      else return true
  | none => .ok true

/-- Anyone may sign for a root identity. -/
def CreateIdentity.signerIsAuthorized (delegate : AuthDelegate) (db : Database) (t : Transaction)
    (signer : Account) : Outcome Error Bool :=
  match t.body with
  | .payload (.createIdentity none ..) => .panic "nil URL"
  | .payload (.createIdentity (some url) _ _ authorities) =>
    if url.path = [] then .ok false else additionalAuthorities delegate authorities db t signer
  | _ => .error (.new .internalError "invalid payload")

theorem CreateIdentity.raises_signerIsAuthorized (delegate : AuthDelegate) (db : Database)
    (t : Transaction) (signer : Account) :
    Outcome.Raises Error.Failing (signerIsAuthorized delegate db t signer) := by
  unfold signerIsAuthorized additionalAuthorities
  split
  · exact .panic _
  · refine .ite (.ok _) ?_
    split
    · exact .ite (.bind (delegate.signerIsAuthorized_failing _ _ _ _) fun _ => .ok _) (.ok _)
    · exact .ok _
  · exact .error rfl

/-! ## Key books -/

namespace CreateKeyBook

variable (c : Crypto)

def firstPage (book : Url) (publicKeyHash : Bytes) : KeyPage where
  url := formatKeyPageUrl book 0
  creditBalance := 0
  acceptThreshold := 0
  version := 1
  keys := [⟨publicKeyHash, 0, none⟩]
  transactionBlacklist := none

def created (d : Delivery) (st : StateManager) : Outcome Error (Account × KeyPage) :=
  match d.transaction.body with
  | .payload (.createKeyBook none ..) => .error (.new .badRequest "account URL is missing")
  | .payload (.createKeyBook (some url) publicKeyHash authorities) => do
      st.checkCreateAdiAccount url
      if publicKeyHash.length = 0 then .error (.new .badRequest "public key hash is missing")
      else if publicKeyHash.length ≠ 32 then
        .error (.new .badRequest "public key hash length is invalid")
      else do
        let auth ← st.setAuth url (AccountAuth.addAuthority [] url) authorities
        return (.keyBook url auth .normal 1, firstPage url publicKeyHash)
  | _ => .error (.plain "invalid payload")

def execute (d : Delivery) : Proc StateManager Error (Option TransactionResult) := do
  let (book, page) ← Proc.query (created d)
  Proc.mapError (.plainWrap "failed to create") do
    StateManager.create c book
    StateManager.create c (.keyPage page)
  return none

end CreateKeyBook

/-! ## Key pages -/

namespace CreateKeyPage

variable (c : Crypto)

/-- The loop that checks for duplicate key hashes.  An entry without a key hash is passed over. -/
def checkKeys : List Bytes → List KeySpecParams → Outcome Error Unit
  | _, [] => .ok ()
  | uniqueKeys, key :: rest =>
    if key.keyHash.length = 0 then checkKeys uniqueKeys rest
    else if key.keyHash.length = 32 then
      if key.keyHash ∈ uniqueKeys then
        .error (.plain "duplicate keys: signing keys of a keypage must be unique")
      else checkKeys (key.keyHash :: uniqueKeys) rest
    else .error (.new .badRequest "public key hash length is invalid")

def emptyPage (book : Url) (pageCount : Nat) : KeyPage where
  url := formatKeyPageUrl book pageCount
  creditBalance := 0
  acceptThreshold := 1
  version := 1
  keys := []
  transactionBlacklist := none

/-- The loop that fills the page: only the key hashes are taken over. -/
def addKeys (page : KeyPage) (keys : List KeySpecParams) : KeyPage :=
  keys.foldl (fun page key => page.addKeySpec ⟨key.keyHash, 0, none⟩) page

def created (d : Delivery) (st : StateManager) : Outcome Error (Account × KeyPage) :=
  match st.origin with
  | none => .panic "nil account"
  | some (.keyBook url auth bookType pageCount) =>
    match d.transaction.body with
    | .payload (.createKeyPage keys) =>
      if keys = [] then .error (.plain "cannot create empty sig spec")
      else do
        checkKeys [] keys
        return (.keyBook url auth bookType ((pageCount + 1) % 2 ^ 64),
          addKeys (emptyPage url pageCount) keys)
    | _ => .error (.plain "invalid payload")
  | some _ => .error (.plain "invalid principal: want account type keyBook")

def execute (d : Delivery) : Proc StateManager Error (Option TransactionResult) := do
  let (book, page) ← Proc.query (created d)
  Proc.modify fun st => { st with origin := some book }
  Proc.mapError (.plainWrap "failed to update") (StateManager.update c book)
  Proc.mapError (.plainWrap "failed to create") (StateManager.create c (.keyPage page))
  return none

end CreateKeyPage
end Chain
end Accumulate
