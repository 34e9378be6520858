import Accumulate.Chain.UpdateKey

/-!
# Updating a key page

The `UpdateKeyPage` executor of `internal/chain/update_key_page.go`.  A list of operations is
applied to the page; afterwards the page has a new version, and none of its keys has been
used with it.

`KeyPage.DistinctKeys` says that a page is sorted and that its key hashes are distinct.
`executeOperations_operated`: the operations keep it so.
-/

namespace Accumulate

open Library Protocol Database

namespace Chain

/-- `AuthDelegate`: what an executor asks the block executor about authorities. -/
structure AuthDelegate where
  signerIsAuthorized : Database → Transaction → Account → Bool → Outcome Error Unit
  authorityIsSatisfied : Database → Transaction → TransactionStatus → Url → Outcome Error Bool
  signerIsAuthorized_failing : ∀ db t a checkAuthz,
    Outcome.Raises Error.Failing (signerIsAuthorized db t a checkAuthz)
  authorityIsSatisfied_failing : ∀ db t status u,
    Outcome.Raises Error.Failing (authorityIsSatisfied db t status u)

namespace UpdateKeyPage

variable (c : Crypto) (delegate : AuthDelegate)

/-! ## The operations -/

def addKey (page : KeyPage) (auth : AccountAuth) (entry : KeySpecParams) : Outcome Error KeyPage :=
  if entry.isEmpty then .error (.plain "cannot add an empty entry")
  else do
    UpdateKey.checkDelegate page auth entry.delegate
    if (page.findEntry entry).isSome then
      .error (.plain "cannot have duplicate entries on key page")
    else return page.addKeySpec ⟨entry.keyHash, 0, entry.delegate⟩

def removeKey (page : KeyPage) (entry : KeySpecParams) : Outcome Error KeyPage :=
  match page.findEntry entry with
  | none => .error (.plain "entry to be removed not found on the key page")
  | some index =>
    match parseKeyPageUrl page.url with
    | none => .error (.new .internalError "principal is not a key page")
    | some (_, pageIndex) =>
      if page.keys.length = 1 ∧ pageIndex = 1 then
        .error (.plain "cannot delete last key of the highest priority page of a key book")
      else
        let page := page.removeKeySpecAt index
        .ok { page with acceptThreshold := min page.acceptThreshold page.keys.length }

def setThreshold (page : KeyPage) (m : Nat) : Outcome Error KeyPage :=
  if m ≤ page.keys.length ∧ 0 < m then .ok { page with acceptThreshold := m }
  else if m = 0 then .error (.plain "cannot require 0 signatures on a key page")
  else .error (.plain
    s!"cannot require {m} signatures on a key page with {page.keys.length} keys")

def changeBits (change : Nat → Nat → Nat) : Nat → List TransactionType → Outcome Error Nat
  | list, [] => .ok list
  | list, txn :: rest =>
    match txn.allowedTransactionBit with
    | none => .error (.plain "transaction type cannot be (dis)allowed")
    | some bit => changeBits change (change list bit) rest

def clearBit (list bit : Nat) : Nat := if list.testBit bit then list ^^^ 2 ^ bit else list

def setBit (list bit : Nat) : Nat := list ||| 2 ^ bit

def updateAllowed (page : KeyPage) (allow deny : List TransactionType) :
    Outcome Error KeyPage := do
  let list ← changeBits clearBit (page.transactionBlacklist.getD 0) allow
  let list ← changeBits setBit list deny
  return { page with transactionBlacklist := if list = 0 then none else some list }

def executeOperation (auth : AccountAuth) (page : KeyPage) :
    KeyPageOperation → Outcome Error KeyPage
  | .add entry => addKey page auth entry
  | .remove entry => removeKey page entry
  | .update oldEntry newEntry => UpdateKey.updateKey page auth oldEntry newEntry false
  | .setThreshold threshold => setThreshold page threshold
  | .updateAllowed allow deny => updateAllowed page allow deny

def executeOperations (auth : AccountAuth) :
    KeyPage → List KeyPageOperation → Outcome Error KeyPage
  | page, [] => .ok page
  | page, op :: rest => do
      let page ← executeOperation auth page op
      executeOperations auth page rest

/-- `didUpdateKeyPage`: the version is a 64-bit number. -/
def didUpdateKeyPage (page : KeyPage) : KeyPage :=
  { page with
    version := (page.version + 1) % 2 ^ 64
    keys := page.keys.map fun key => { key with lastUsedOn := 0 } }

/-! ## The executor -/

/-- The principal, the authorities of its book and the operations. -/
def validate (d : Delivery) (st : StateManager) :
    Outcome Error (KeyPage × AccountAuth × List KeyPageOperation) :=
  match d.transaction.body with
  | .payload (.updateKeyPage operation) =>
    match st.origin with
    | none => .panic "nil account"
    | some (.keyPage page) =>
      match parseKeyPageUrl st.originUrl with
      | none => .error (.plain "invalid principal: page url is invalid")
      | some (bookUrl, _) =>
        match (st.batch.account bookUrl).main with
        | some (.keyBook _ auth bookType _) =>
          if bookType = .validator then
            .error (.plain
              "UpdateKeyPage cannot be used to modify the validator key book")
          else .ok (page, auth, operation)
        | _ => .error (.plain "invalid key book")
    | some _ => .error (.plain "invalid principal: want account type keyPage")
  | _ => .error (.plain "invalid payload")

/-- The page an update leads to, without storing it. -/
def updatedPage (d : Delivery) (st : StateManager) : Outcome Error KeyPage := do
  let (page, auth, operation) ← validate d st
  let page ← executeOperations auth page operation
  return didUpdateKeyPage page

def execute (d : Delivery) : Proc StateManager Error (Option TransactionResult) := do
  let page ← Proc.query (updatedPage d)
  Proc.modify fun st => { st with origin := some (.keyPage page) }
  Proc.mapError (fun _ => .plain "failed to update") (StateManager.update c (.keyPage page))
  return none

/-! ## Authorization -/

/-- The operation brings in a delegate that has to agree. -/
def newOwner (page : KeyPage) : KeyPageOperation → Option Url
  | .add entry => entry.delegate
  | .update oldEntry newEntry =>
    match newEntry.delegate, (page.findEntry oldEntry).bind (page.keys[·]?) with
    | some new, some entry => if entry.delegate = some new then none else some new
    | new, _ => new
  | _ => none

def getNewOwners (db : Database) (transaction : Transaction) : Outcome Error (List Url) :=
  match transaction.body, transaction.header.principal with
  | .payload (.updateKeyPage _), none => .panic "nil URL"
  | .payload (.updateKeyPage operation), some principal => do
      let page ← (db.getStateAs principal asKeyPage).mapError
        (.format .unknownError "load principal")
      return operation.filterMap (newOwner page)
  | _, _ => .error (.plain "invalid payload")

/-- The checks of `SignerIsAuthorized` for a page of the principal's own book. -/
def checkOwnPage (transaction : Transaction) (principalIdx signerIdx : Nat) : Outcome Error Unit :=
  if signerIdx > principalIdx then
    .error (.new .unauthorized "signer is lower priority than the principal")
  else
    match transaction.body with
    | .payload (.updateKeyPage operation) =>
      let changesAllowed := operation.any fun op =>
        match op with
        | .updateAllowed .. => true
        | _ => false
      if changesAllowed ∧ signerIdx = principalIdx then
        .error (.new .unauthorized "page cannot modify its own allowed operations")
      else .ok ()
    | _ => .error (.new .badRequest "invalid payload")

/-- The last part of `SignerIsAuthorized`: the pages of new delegates may sign. -/
def checkNewOwners (db : Database) (transaction : Transaction) (signer : Account)
    (signerBook : Url) : Outcome Error Bool := do
  let newOwners ← (getNewOwners db transaction).mapError .wrap
  if signerBook ∈ newOwners then do
    delegate.signerIsAuthorized db transaction signer false
    return false
  else return true

def signerIsAuthorized (db : Database) (transaction : Transaction) (signer : Account)
    (md : SignatureValidationMetadata) : Outcome Error Bool :=
  match transaction.header.principal with
  | none => .panic "nil URL"
  | some principal =>
    match parseKeyPageUrl principal with
    | none => .error (.new .badRequest "principal is not a key page")
    | some (principalBook, principalIdx) =>
      match parseKeyPageUrl signer.url with
      | none => .ok true
      | some (signerBook, signerIdx) => do
          if principalBook = signerBook then checkOwnPage transaction principalIdx signerIdx
          let isLocal ← localTo md.location (some principal)
          if !isLocal then return true
          else checkNewOwners delegate db transaction signer signerBook

/-- The loop over the new delegates, all of which must have signed. -/
def ownersAreSatisfied (db : Database) (transaction : Transaction) (status : TransactionStatus) :
    List Url → Outcome Error Bool
  | [] => .ok true
  | owner :: rest => do
      let ok ← delegate.authorityIsSatisfied db transaction status owner
      if !ok then return false else ownersAreSatisfied db transaction status rest

/-- `UpdateKeyPage.TransactionIsReady`: whether the transaction is ready, and whether the
general rule is to decide. -/
def transactionIsReady (db : Database) (transaction : Transaction) (status : TransactionStatus) :
    Outcome Error (Bool × Bool) := do
  let newOwners ← (getNewOwners db transaction).mapError .wrap
  let satisfied ← ownersAreSatisfied delegate db transaction status newOwners
  return (false, satisfied)

/-! ## Errors -/

variable (db : Database) (auth : AccountAuth) (page : KeyPage) (transaction : Transaction)

theorem raises_addKey (entry : KeySpecParams) :
    Outcome.Raises Error.Failing (addKey page auth entry) := by
  refine .ite (.error rfl) ?_
  refine .bind UpdateKey.raises_checkDelegate fun _ => ?_
  exact .ite (.error rfl) (.ok _)

theorem raises_removeKey (entry : KeySpecParams) :
    Outcome.Raises Error.Failing (removeKey page entry) := by
  unfold removeKey
  split
  · exact .error rfl
  · split
    · exact .error rfl
    · exact .ite (.error rfl) (.ok _)

theorem raises_changeBits (change : Nat → Nat → Nat) (list : Nat) (txns : List TransactionType) :
    Outcome.Raises Error.Failing (changeBits change list txns) := by
  induction txns generalizing list with
  | nil => exact .ok _
  | cons txn rest ih =>
    unfold changeBits
    split
    · exact .error rfl
    · exact ih _

theorem raises_executeOperation (op : KeyPageOperation) :
    Outcome.Raises Error.Failing (executeOperation auth page op) := by
  cases op with
  | add entry => exact raises_addKey auth page entry
  | remove entry => exact raises_removeKey page entry
  | update oldEntry newEntry => exact UpdateKey.raises_updateKey
  | setThreshold threshold =>
    exact .ite (.ok _)
      (.ite (.error rfl) (.error rfl))
  | updateAllowed allow deny =>
    refine .bind (raises_changeBits _ _ _) fun list => ?_
    exact .bind (raises_changeBits _ _ _) fun _ => .ok _

theorem raises_executeOperations (l : List KeyPageOperation) :
    Outcome.Raises Error.Failing (executeOperations auth page l) := by
  induction l generalizing page with
  | nil => exact .ok _
  | cons op rest ih =>
    exact .bind (raises_executeOperation auth page op) fun page => ih page

theorem raises_validate (d : Delivery) (st : StateManager) :
    Outcome.Raises Error.Failing (validate d st) := by
  unfold validate
  split
  · split
    · exact .panic _
    · split
      · exact .error rfl
      · split
        · exact .ite (.error rfl) (.ok _)
        · exact .error rfl
    · exact .error rfl
  · exact .error rfl

theorem raises_updatedPage (d : Delivery) (st : StateManager) :
    Outcome.Raises Error.Failing (updatedPage d st) := by
  refine .bind (raises_validate d st) fun ⟨page, auth, operation⟩ => ?_
  exact .bind (raises_executeOperations _ _ _) fun _ => .ok _

theorem raises_execute (d : Delivery) : Proc.Raises Error.Failing (execute c d) := by
  refine .bind (.query (raises_updatedPage d)) fun page => ?_
  refine .bind (.modify _) fun _ => ?_
  exact .bind (.mapError (StateManager.raises_createOrUpdate c true _)
    fun e _ => rfl) fun _ => .pure _

theorem raises_getNewOwners : Outcome.Raises Error.Failing (getNewOwners db transaction) := by
  unfold getNewOwners
  split
  · exact .panic _
  · refine .bind
      (.mapError raises_getStateAs fun e he => he.format _) fun page => ?_
    exact .ok _
  · exact .error rfl

theorem raises_checkOwnPage (principalIdx signerIdx : Nat) :
    Outcome.Raises Error.Failing (checkOwnPage transaction principalIdx signerIdx) := by
  refine .ite (.error rfl) ?_
  split
  · exact .ite (.error rfl) (.ok _)
  · exact .error rfl

theorem raises_checkNewOwners (signer : Account) (signerBook : Url) :
    Outcome.Raises Error.Failing (checkNewOwners delegate db transaction signer signerBook) := by
  refine .bind
    (.mapError (raises_getNewOwners _ _) fun e he => he.wrap) fun newOwners => ?_
  refine .ite (.bind ?_ fun _ => .ok _)
    (.ok _)
  exact delegate.signerIsAuthorized_failing _ _ _ _

theorem raises_signerIsAuthorized (signer : Account) (md : SignatureValidationMetadata) :
    Outcome.Raises Error.Failing (signerIsAuthorized delegate db transaction signer md) := by
  unfold signerIsAuthorized
  split
  · exact .panic _
  split
  · exact .error rfl
  split
  · exact .ok _
  split
  · refine .bind (raises_checkOwnPage _ _ _) fun _ => ?_
    refine .bind (raises_localTo _ _) fun isLocal => ?_
    exact .ite (.ok _) (raises_checkNewOwners _ _ _ _ _)
  · refine .bind (raises_localTo _ _) fun isLocal => ?_
    exact .ite (.ok _) (raises_checkNewOwners _ _ _ _ _)

theorem raises_ownersAreSatisfied (status : TransactionStatus) (l : List Url) :
    Outcome.Raises Error.Failing (ownersAreSatisfied delegate db transaction status l) := by
  induction l with
  | nil => exact .ok _
  | cons owner rest ih =>
    refine .bind (delegate.authorityIsSatisfied_failing _ _ _ _) fun ok => ?_
    exact .ite (.ok _) ih

theorem raises_transactionIsReady (status : TransactionStatus) :
    Outcome.Raises Error.Failing (transactionIsReady delegate db transaction status) := by
  refine .bind
    (.mapError (raises_getNewOwners _ _) fun e he => he.wrap) fun newOwners => ?_
  exact .bind (raises_ownersAreSatisfied _ _ _ _ _) fun _ => .ok _

/-- The `UpdateKeyPage` executor, which is also a `SignerValidator`. -/
def executor : TransactionExecutor where
  execute := execute c
  allowMissingPrincipal := none
  signerIsAuthorized := some (signerIsAuthorized delegate)
  transactionIsReady := some (transactionIsReady delegate)
  didFail := none
  execute_failing := raises_execute c
  signerIsAuthorized_failing := by
    rintro f hf db t a md e h
    cases hf
    exact raises_signerIsAuthorized delegate db t a md e h
  transactionIsReady_failing := by
    rintro f hf db t s e h
    cases hf
    exact raises_transactionIsReady delegate db t s e h

end UpdateKeyPage
end Chain

/-! ## The entries of a page -/

namespace Protocol

/-- The order of the key hashes on a page.  Only the entries of delegates, which may be
without a key, have the same key hash. -/
def KeyOrder (a b : Bytes) : Prop := a.digits < b.digits ∨ a = [] ∧ b = []

instance : IsTrans Bytes KeyOrder where
  trans a b c hab hbc := by
    rcases hab with hab | ⟨rfl, rfl⟩
    · rcases hbc with hbc | ⟨rfl, rfl⟩
      · exact Or.inl (hab.trans hbc)
      · exact Or.inl hab
    · exact hbc

theorem KeyOrder.le {a b : Bytes} (h : KeyOrder a b) : a.digits ≤ b.digits := by
  rcases h with hlt | ⟨rfl, rfl⟩
  · exact hlt.le
  · exact le_refl _

/-- The entries of the page are sorted by key hash, and their key hashes are distinct. -/
def KeyPage.DistinctKeys (p : KeyPage) : Prop :=
  p.keys.Pairwise fun a b => KeyOrder a.publicKeyHash b.publicKeyHash

namespace KeyPage

variable {p : KeyPage} {hash : Bytes} {i : Nat}

theorem entryByKeyHash_eq_some (h : p.entryByKeyHash hash = some i) :
    ∃ entry, p.keys[i]? = some entry ∧ entry.publicKeyHash = hash := by
  unfold entryByKeyHash at h
  dsimp only at h
  split at h
  · rename_i hfound
    cases h
    obtain ⟨entry, hentry, heq⟩ := found_get hfound
    rw [Bytes.compare_eq] at heq
    exact ⟨entry, hentry, Bytes.digits_injective (compare_eq_iff_eq.1 heq)⟩
  · cases h

theorem compareKeySpec_cases (k e : KeySpec) :
    e.publicKeyHash = k.publicKeyHash ∨
      (compareKeySpec k e = .lt ∧ e.publicKeyHash.digits < k.publicKeyHash.digits) ∨
      (compareKeySpec k e = .gt ∧ k.publicKeyHash.digits < e.publicKeyHash.digits) := by
  unfold compareKeySpec
  cases hhash : compare e.publicKeyHash k.publicKeyHash with
  | lt =>
    rw [Bytes.compare_eq] at hhash
    exact .inr (.inl ⟨rfl, compare_lt_iff_lt.1 hhash⟩)
  | gt =>
    rw [Bytes.compare_eq] at hhash
    exact .inr (.inr ⟨rfl, compare_gt_iff_gt.1 hhash⟩)
  | eq =>
    rw [Bytes.compare_eq] at hhash
    exact .inl (Bytes.digits_injective (compare_eq_iff_eq.1 hhash))

theorem findEntry_of_entryByKeyHash {search : KeySpecParams} (hne : search.keyHash ≠ [])
    (h : p.entryByKeyHash search.keyHash = some i) : p.findEntry search = some i := by
  simp [findEntry, hne, h]

namespace DistinctKeys

section

variable (hp : p.DistinctKeys)

include hp

theorem entryByKeyHash_eq_none (h : p.entryByKeyHash hash = none)
    {entry : KeySpec} (hentry : entry ∈ p.keys) : entry.publicKeyHash ≠ hash := by
  intro heq
  have hsorted : p.keys.Pairwise fun a b => a.publicKeyHash.digits ≤ b.publicKeyHash.digits :=
    List.Pairwise.imp KeyOrder.le hp
  have hfound : found p.keys (fun ks => compare ks.publicKeyHash hash) = true := by
    simp only [Bytes.compare_eq]
    exact (found_iff hsorted).2 ⟨entry, hentry, congrArg Bytes.digits heq⟩
  simp [entryByKeyHash, hfound] at h

theorem unique {j : Nat} {a b : KeySpec} (ha : p.keys[i]? = some a) (hb : p.keys[j]? = some b)
    (heq : a.publicKeyHash = b.publicKeyHash) (hne : a.publicKeyHash ≠ []) : i = j := by
  have hpair := List.pairwise_iff_getElem.1 hp
  obtain ⟨hi, rfl⟩ := List.getElem?_eq_some_iff.1 ha
  obtain ⟨hj, rfl⟩ := List.getElem?_eq_some_iff.1 hb
  have hlt : ∀ {m n : Nat} (hm : m < p.keys.length) (hn : n < p.keys.length), m < n →
      p.keys[m].publicKeyHash ≠ [] → p.keys[m].publicKeyHash ≠ p.keys[n].publicKeyHash := by
    intro m n hm hn hmn hempty hsame
    rcases hpair m n hm hn hmn with hless | ⟨hnil, -⟩
    · rw [hsame] at hless
      exact lt_irrefl _ hless
    · exact hempty hnil
  rcases Nat.lt_trichotomy i j with hij | hij | hij
  · exact absurd heq (hlt hi hj hij hne)
  · exact hij
  · exact absurd heq.symm (hlt hj hi hij (heq ▸ hne))

theorem congr {q : KeyPage}
    (h : q.keys.map (·.publicKeyHash) = p.keys.map (·.publicKeyHash)) : q.DistinctKeys := by
  have hmap := List.pairwise_map.2 hp
  rw [← h] at hmap
  exact List.pairwise_map.1 hmap

theorem removeKeySpecAt (i : Nat) : (p.removeKeySpecAt i).DistinctKeys :=
  List.Pairwise.sublist (List.eraseIdx_sublist _ _) hp

theorem addKeySpec {k : KeySpec}
    (hnew : k.publicKeyHash ≠ [] → ∀ e ∈ p.keys, e.publicKeyHash ≠ k.publicKeyHash) :
    (p.addKeySpec k).DistinctKeys := by
  have hempty : ∀ e ∈ p.keys, e.publicKeyHash = k.publicKeyHash → k.publicKeyHash = [] := by
    intro e he heq
    by_contra hne
    exact hnew hne e he heq
  have hboth : ∀ e ∈ p.keys, e.publicKeyHash = k.publicKeyHash →
      e.publicKeyHash = [] ∧ k.publicKeyHash = [] :=
    fun e he heq => ⟨heq.trans (hempty e he heq), hempty e he heq⟩
  apply pairwise_upsert_of_trans hp
  · intro e he h
    rcases compareKeySpec_cases k e with heq | ⟨hlt, -⟩ | ⟨hgt, -⟩
    · exact heq
    · cases h.symm.trans hlt
    · cases h.symm.trans hgt
  · intro e he h
    rcases compareKeySpec_cases k e with heq | ⟨-, hless⟩ | ⟨hgt, -⟩
    · exact .inr (hboth e he heq)
    · exact .inl hless
    · cases h.symm.trans hgt
  · intro e he h
    rcases compareKeySpec_cases k e with heq | ⟨hlt, -⟩ | ⟨-, hless⟩
    · exact .inr (hboth e he heq).symm
    · cases h.symm.trans hlt
    · exact .inl hless

end

end DistinctKeys

end KeyPage
end Protocol

namespace Chain

open KeyPage

theorem UpdateKey.updateKey_distinctKeys {page page' : KeyPage} {auth : AccountAuth}
    {old new : KeySpecParams} {preserveDelegate : Bool} (hp : page.DistinctKeys)
    (h : updateKey page auth old new preserveDelegate = .ok page') : page'.DistinctKeys := by
  obtain ⟨oldPos, entry, -, hentry, honly, rfl⟩ := updateKey_eq_ok h
  apply (hp.removeKeySpecAt oldPos).addKeySpec
  intro hne e he heq
  obtain ⟨j, hj, hget⟩ := List.mem_eraseIdx_iff_getElem?.1 he
  cases hfound : page.entryByKeyHash new.keyHash with
  | none => exact hp.entryByKeyHash_eq_none hfound (List.mem_of_getElem? hget) heq
  | some newPos =>
    -- the entry with the new key hash is the one that is updated
    have hold := honly newPos (findEntry_of_entryByKeyHash hne hfound)
    obtain ⟨e', hget', heq'⟩ := entryByKeyHash_eq_some hfound
    have hpos := hp.unique hget' hget (heq'.trans heq.symm) (by rw [heq']; exact hne)
    exact hj (hpos.symm.trans hold)

namespace UpdateKeyPage

/-- What the operations leave as it is. -/
structure Operated (p q : KeyPage) : Prop where
  url : q.url = p.url
  version : q.version = p.version
  distinctKeys : p.DistinctKeys → q.DistinctKeys

variable {auth : AccountAuth} {page page' : KeyPage} {d : Delivery} {st : StateManager}

theorem addKey_eq_ok {entry : KeySpecParams} (h : addKey page auth entry = .ok page') :
    ¬ entry.isEmpty = true ∧ page.findEntry entry = none ∧
      page' = page.addKeySpec ⟨entry.keyHash, 0, entry.delegate⟩ := by
  obtain ⟨hempty, h⟩ := Outcome.ite_error_eq_ok.1 h
  obtain ⟨_, -, h⟩ := Outcome.bind_eq_ok.1 h
  obtain ⟨hnone, h⟩ := Outcome.ite_error_eq_ok.1 h
  cases h
  exact ⟨hempty, by simpa using hnone, rfl⟩

theorem removeKey_eq_ok {entry : KeySpecParams} (h : removeKey page entry = .ok page') :
    ∃ index threshold, page' =
      { page.removeKeySpecAt index with acceptThreshold := threshold } := by
  unfold removeKey at h
  split at h
  · cases h
  split at h
  · cases h
  cases (Outcome.ite_error_eq_ok.1 h).2
  exact ⟨_, _, rfl⟩

theorem executeOperation_operated {op : KeyPageOperation}
    (h : executeOperation auth page op = .ok page') : Operated page page' := by
  cases op with
  | add entry =>
    obtain ⟨-, hnone, rfl⟩ := addKey_eq_ok h
    refine ⟨rfl, rfl, fun hp => hp.addKeySpec fun hne e he => ?_⟩
    apply hp.entryByKeyHash_eq_none ?_ he
    cases hfound : page.entryByKeyHash entry.keyHash with
    | none => rfl
    | some i => simp [findEntry_of_entryByKeyHash hne hfound] at hnone
  | remove entry =>
    obtain ⟨index, threshold, rfl⟩ := removeKey_eq_ok h
    exact ⟨rfl, rfl, fun hp => hp.removeKeySpecAt index⟩
  | update oldEntry newEntry =>
    obtain ⟨oldPos, entry, -, -, -, hpage⟩ := UpdateKey.updateKey_eq_ok h
    refine ⟨?_, ?_, fun hp => UpdateKey.updateKey_distinctKeys hp h⟩
    · rw [hpage]
      rfl
    · rw [hpage]
      rfl
  | setThreshold threshold =>
    change setThreshold page threshold = .ok page' at h
    unfold setThreshold at h
    split at h
    · cases h
      exact ⟨rfl, rfl, id⟩
    · split at h <;> cases h
  | updateAllowed allow deny =>
    obtain ⟨list, -, h⟩ := Outcome.bind_eq_ok.1 h
    obtain ⟨list', -, h⟩ := Outcome.bind_eq_ok.1 h
    cases h
    exact ⟨rfl, rfl, id⟩

theorem executeOperations_operated {l : List KeyPageOperation}
    (h : executeOperations auth page l = .ok page') : Operated page page' := by
  induction l generalizing page with
  | nil =>
    cases h
    exact ⟨rfl, rfl, id⟩
  | cons op rest ih =>
    obtain ⟨page₁, hop, h⟩ := Outcome.bind_eq_ok.1 h
    have hfirst := executeOperation_operated hop
    have hrest := ih h
    exact ⟨hrest.url.trans hfirst.url, hrest.version.trans hfirst.version,
      fun hp => hrest.distinctKeys (hfirst.distinctKeys hp)⟩

theorem validate_eq_ok {operation : List KeyPageOperation}
    (h : validate d st = .ok (page, auth, operation)) :
    d.transaction.body = .payload (.updateKeyPage operation) ∧
      st.origin = some (.keyPage page) := by
  unfold validate at h
  split at h
  · rename_i hbody
    split at h
    · cases h
    · rename_i origin horigin
      split at h
      · cases h
      split at h
      · cases (Outcome.ite_error_eq_ok.1 h).2
        exact ⟨hbody, horigin⟩
      · cases h
    · cases h
  · cases h

theorem updatedPage_eq_ok (h : updatedPage d st = .ok page') :
    ∃ page, st.origin = some (.keyPage page) ∧ page'.url = page.url ∧
      page'.version = (page.version + 1) % 2 ^ 64 ∧
      (page.DistinctKeys → page'.DistinctKeys) := by
  obtain ⟨⟨page, auth, operation⟩, hvalid, h⟩ := Outcome.bind_eq_ok.1 h
  obtain ⟨page₁, hoperations, h⟩ := Outcome.bind_eq_ok.1 h
  cases h
  obtain ⟨hurl, hversion, hdistinct⟩ := executeOperations_operated hoperations
  refine ⟨page, (validate_eq_ok hvalid).2, hurl, ?_, fun hp => ?_⟩
  · change (page₁.version + 1) % 2 ^ 64 = _
    rw [hversion]
  apply (hdistinct hp).congr
  change (page₁.keys.map _).map _ = _
  rw [List.map_map]
  rfl

end UpdateKeyPage
end Chain
end Accumulate
