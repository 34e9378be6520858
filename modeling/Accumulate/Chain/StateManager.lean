import Accumulate.Chain.State

/-!
# The state manager

A transaction executor works on a batch of its own.  `Update` and `Create` write
account states into that batch, `UpdateData` queues operations, and `Commit` runs
the queue and merges the batch into the one it was opened on.

Merging goes account by account, in the iteration order of a Go map, and an
account whose URL is too long or whose path is not acceptable stops it.  The
accounts merged before that point stay merged.
-/

namespace Accumulate.Chain

open Library Protocol Database

structure AddDataEntry where
  url : Url
  liteStateRec : Option Account
  hash : Hash

/-- `StateManager`.  `written` are the accounts whose main state has been put into
the batch and `touched` those with any change at all; a Go batch knows both from
the records it has loaded. -/
structure StateManager where
  origin : Option Account
  originUrl : Url
  txType : TransactionType
  txHash : Hash
  state : ProcessTransactionState
  batch : Database
  written : List Url
  touched : List Url
  operations : List AddDataEntry

namespace StateManager

def new (c : Crypto) (batch : Database) (principal : Option Account) (principalUrl : Url)
    (transaction : Transaction) : StateManager :=
  { origin := principal, originUrl := principalUrl, txType := transaction.type
    txHash := c.getHash transaction, state := .new, batch := batch, written := []
    touched := [], operations := [] }

/-- `LoadStateManager`: a user transaction needs an initiator that exists or, when
it belongs to another identity, is among the signers. -/
def load (c : Crypto) (batch : Database) (principal : Option Account) (principalUrl : Url)
    (transaction : Transaction) (status : TransactionStatus) : Outcome Error StateManager :=
  if transaction.type.isUser then
    match status.initiator with
    | none => .panic "nil URL"
    | some initiator =>
      match batch.getStateAs initiator asSigner with
      | .ok _ => .ok (new c batch principal principalUrl transaction)
      | .panic m => .panic m
      | .error e =>
        if !e.is .notFound then .error (.plainWrap "load signer" e)
        else if principalUrl.localTo initiator then .error (.plainWrap "load signer" e)
        else
          match status.getSigner initiator with
          | some _ => .ok (new c batch principal principalUrl transaction)
          | none => .error (.plain "transaction signer set does not include the initiator")
  else .ok (new c batch principal principalUrl transaction)

def touch (st : StateManager) (u : Url) : StateManager := { st with touched := st.touched ++ [u] }

def addChainEntry (c : Crypto) (st : StateManager) (u : Url) (name : ChainName) (entry : Hash) :
    StateManager :=
  let r := ChainUpdates.addChainEntry c.combine st.batch st.state.chainUpdates u name entry
  { st.touch u with batch := r.1, state := { st.state with chainUpdates := r.2.1 } }

def putState (u : Url) (a : Account) : Proc StateManager Error Unit := fun st =>
  match Database.putState u a st.batch with
  | (.ok (), batch) =>
    (.ok (), { st with
      batch := batch, written := st.written ++ [u], touched := st.touched ++ [u] })
  | (.error e, _) => (.error e, st)
  | (.panic m, _) => (.panic m, st)

def createOrUpdate (c : Crypto) (isUpdate : Bool) (a : Account) :
    Proc StateManager Error Unit := do
  if a.url.stringLength > accountUrlMaxLength then
    Proc.throw (.new .badUrlLength "url specified exceeds maximum character length")
  else
    let st ← Proc.get
    let exists_ := (st.batch.account a.url).main.isSome
    if exists_ ∧ !isUpdate then
      Proc.throw (.new .conflict "account already exists")
    else if !exists_ ∧ isUpdate ∧ !st.txType.isSynthetic ∧ !st.txType.isSystem then
      Proc.throw (.new .conflict "account does not exist")
    else
      Proc.mapError (.format .unknownError "failed to update state") (putState a.url a)
      Proc.modify fun st => st.addChainEntry c a.url .main st.txHash
      if !isUpdate then
        Proc.modify fun st =>
          { st.touch a.url.identity with
            batch := st.batch.updateAccount a.url.identity fun r =>
              { r with directory := (upsert r.directory (·.compare a.url) a.url).1 } }

def update (c : Crypto) (a : Account) : Proc StateManager Error Unit := createOrUpdate c true a

def create (c : Crypto) (a : Account) : Proc StateManager Error Unit := createOrUpdate c false a

def updateData (st : StateManager) (record : Account) (entryHash : Hash) : StateManager :=
  let stateRec :=
    match record with
    | .liteDataAccount u => some (Account.liteDataAccount u)
    | _ => none
  { st with operations := st.operations ++ [⟨record.url, stateRec, entryHash⟩] }

/-- The first part of `addDataEntry.Execute`: a lite data account that does not exist
is stored. -/
def storeLiteState (op : AddDataEntry) : Proc StateManager Error Unit := do
  let st ← Proc.get
  match op.liteStateRec, (st.batch.account op.url).main with
  | some a, none => putState op.url a
  | _, _ => pure ()

def executeAddDataEntry (c : Crypto) (op : AddDataEntry) : Proc StateManager Error Unit := do
  storeLiteState op
  Proc.modify fun st =>
    { st.touch op.url with
      batch := st.batch.updateAccount op.url fun r =>
        { r with
          dataEntries := r.dataEntries ++ [op.hash]
          dataTransaction := fun h =>
            if h = op.hash then some st.txHash else r.dataTransaction h } }
  Proc.modify fun st => st.addChainEntry c op.url .main st.txHash

def executeOperations (c : Crypto) : List AddDataEntry → Proc StateManager Error Unit
  | [] => pure ()
  | op :: rest => do
      executeAddDataEntry c op
      executeOperations c rest

/-- `Account.Commit` of the database: the check of an account whose main state has
been written. -/
def checkAccount (c : Crypto) (st : StateManager) (u : Url) : Option Error :=
  if u ∈ st.written then
    match (st.batch.account u).main with
    | none => none
    | some a =>
      if a.url.stringLength > accountUrlMaxLength then
        some (.new .badUrlLength "url specified exceeds maximum character length")
      else if isValidAccountPath c.isWord a.url.path then none
      else some (.new .badRequest "invalid path")
  else none

/-- The loop of `Batch.Commit`: the accounts are merged into the parent one after
another until one is refused, and then, if none was, the other records. -/
def mergeInto (c : Crypto) (st : StateManager) : List Url → Proc Database Error Unit
  | [] => Proc.modify fun db =>
    { db with
      transaction := st.batch.transaction
      syntheticIndexIndex := st.batch.syntheticIndexIndex }
  | u :: rest =>
    match st.checkAccount c u with
    | some e => Proc.throw e
    | none => do
        Proc.modify fun db => db.updateAccount u fun _ => st.batch.account u
        mergeInto c st rest

/-- `Commit`, on the batch the state manager was opened on.  `order` is the order
in which the accounts are visited. -/
def commit (c : Crypto) (order : List Url → List Url) (st : StateManager) :
    Proc Database Error ProcessTransactionState := do
  match executeOperations c st.operations st with
  | (.panic m, _) => Proc.abort m
  | (.error e, _) => Proc.throw e
  | (.ok (), st) =>
    mergeInto c st (order st.touched)
    return st.state

/-! ### Errors -/

theorem putState_cases (u : Url) (a : Account) (st : StateManager) :
    (u = a.url ∧ a.fullAuth ≠ some [] ∧ putState u a st = (.ok (), { st with
        batch := st.batch.setMain u a, written := st.written ++ [u],
        touched := st.touched ++ [u] })) ∨
      (u = a.url → a.fullAuth = some []) ∧
        ∃ e, Error.Failing e ∧ putState u a st = (.error e, st) := by
  rcases Database.putState_cases u a st.batch with ⟨hu, hauth, hput⟩ | ⟨hwhy, e, he, hput⟩
  · exact .inl ⟨hu, hauth, by rw [putState, hput]⟩
  · exact .inr ⟨hwhy, e, he, by rw [putState, hput]⟩

theorem raises_putState (u : Url) (a : Account) : Proc.Raises Error.Failing (putState u a) := by
  intro st e h
  rcases putState_cases u a st with ⟨-, -, hput⟩ | ⟨-, e', he, hput⟩
  · rw [hput] at h
    cases h
  · rw [hput] at h
    cases h
    exact he

section Keeps

variable {R : StateManager → StateManager → Prop} [Std.Refl R] {a : Account}

theorem keeps_putState {u : Url} (h : ∀ st, R st { st with
      batch := st.batch.setMain u a, written := st.written ++ [u], touched := st.touched ++ [u] }) :
    Proc.Keeps R (putState u a) := by
  intro st
  rcases putState_cases u a st with ⟨-, -, hput⟩ | ⟨-, e, -, hput⟩
  · rw [hput]
    exact h st
  · rw [hput]
    exact refl_of R st

theorem keeps_update [IsTrans StateManager R] {c : Crypto} (hput : Proc.Keeps R (putState a.url a))
    (hadd : ∀ st, R st (addChainEntry c st a.url .main st.txHash)) : Proc.Keeps R (update c a) := by
  refine .ite (.throw _) ?_
  refine .bind .get fun st => ?_
  refine .ite (.throw _) (.ite (.throw _) ?_)
  refine .bind (.mapError hput) fun _ => ?_
  exact .bind (.modify hadd) fun _ => .pure _

end Keeps

theorem update_eq_ok {c : Crypto} {a : Account} {st st' : StateManager}
    (h : update c a st = (.ok (), st')) :
    a.url.stringLength ≤ accountUrlMaxLength ∧ a.fullAuth ≠ some [] ∧
      st' = addChainEntry c { st with
        batch := st.batch.setMain a.url a, written := st.written ++ [a.url],
        touched := st.touched ++ [a.url] } a.url .main st.txHash := by
  unfold update createOrUpdate at h
  split at h
  · cases h
  rename_i hlength
  rw [Proc.get_bind_run] at h
  split at h
  · cases h
  split at h
  · cases h
  obtain ⟨_, st₁, hput, h⟩ := Proc.bind_eq_ok.1 h
  rw [Proc.modify_bind_run] at h
  cases h
  have hput := Proc.mapError_eq_ok.1 hput
  rcases putState_cases a.url a st with ⟨-, hauth, hrun⟩ | ⟨-, e, -, hrun⟩
  · rw [hrun] at hput
    cases hput
    exact ⟨not_lt.1 hlength, hauth, rfl⟩
  · rw [hrun] at hput
    cases hput

theorem raises_createOrUpdate (c : Crypto) (isUpdate : Bool) (a : Account) :
    Proc.Raises Error.Failing (createOrUpdate c isUpdate a) := by
  refine .ite (fun _ => .throw rfl) fun _ => ?_
  refine .bind .get fun st => ?_
  refine .ite (fun _ => .throw rfl) fun _ => ?_
  refine .ite (fun _ => .throw rfl) fun _ => ?_
  refine .bind (.mapError (raises_putState _ _) fun e he => he.format _)
    fun _ => ?_
  refine .bind (.modify _) fun _ => ?_
  exact .ite (fun _ => .modify _) fun _ => .pure _

/-- The principal and its URL are the same before and after. -/
def SameOrigin (st st' : StateManager) : Prop :=
  st'.origin = st.origin ∧ st'.originUrl = st.originUrl

instance : Std.Refl SameOrigin := ⟨fun _ => ⟨rfl, rfl⟩⟩

instance : IsTrans StateManager SameOrigin :=
  ⟨fun _ _ _ hab hbc => ⟨hbc.1.trans hab.1, hbc.2.trans hab.2⟩⟩

theorem keeps_origin_createOrUpdate (c : Crypto) (isUpdate : Bool) (a : Account) :
    Proc.Keeps SameOrigin (createOrUpdate c isUpdate a) := by
  refine .ite (.throw _) ?_
  refine .bind .get fun st => ?_
  refine .ite (.throw _) (.ite (.throw _) ?_)
  refine .bind (.mapError (keeps_putState fun _ => ⟨rfl, rfl⟩)) fun _ => ?_
  refine .bind (.modify fun _ => ⟨rfl, rfl⟩) fun _ => ?_
  exact .ite (.modify fun _ => ⟨rfl, rfl⟩) (.pure _)

theorem raises_executeOperations (c : Crypto) (ops : List AddDataEntry) :
    Proc.Raises Error.Failing (executeOperations c ops) := by
  induction ops with
  | nil => exact .pure _
  | cons op rest ih =>
    refine .bind ?_ fun _ => ih
    refine .bind ?_ fun _ =>
      .bind (.modify _) fun _ => .modify _
    refine .bind .get fun st => ?_
    split
    · exact raises_putState _ _
    · exact .pure _

variable {principal : Option Account} {status : TransactionStatus}

theorem load_eq_ok {c : Crypto} {db : Database} {u : Url} {t : Transaction} {st : StateManager}
    (h : load c db principal u t status = .ok st) : st = new c db principal u t := by
  unfold load at h
  -- every branch fails or returns the new state manager
  repeat' split at h
  all_goals
    cases h
    try rfl

theorem raises_load {c : Crypto} {db : Database} {u : Url} {t : Transaction} :
    Outcome.Raises Error.Failing (load c db principal u t status) := by
  refine .ite ?_ (.ok _)
  split
  · exact .panic _
  split
  · exact .ok _
  · exact .panic _
  · rename_i he
    have hwrap := (raises_getStateAs _ he).plainWrap "load signer"
    refine .ite (.error hwrap) (.ite (.error hwrap) ?_)
    split
    · exact .ok _
    · exact .error rfl

/-! ### What merging does -/

section Merge

variable {c : Crypto} {st : StateManager} {db : Database}

def mergeAccounts (st : StateManager) (l : List Url) (db : Database) : Database :=
  { db with account := fun v => if v ∈ l then st.batch.account v else db.account v }

def mergeAll (st : StateManager) (l : List Url) (db : Database) : Database :=
  { st.mergeAccounts l db with
    transaction := st.batch.transaction
    syntheticIndexIndex := st.batch.syntheticIndexIndex }

theorem mergeAccounts_cons (u : Url) (l : List Url) :
    st.mergeAccounts l (db.updateAccount u fun _ => st.batch.account u) =
      st.mergeAccounts (u :: l) db := by
  unfold mergeAccounts updateAccount
  congr 1
  funext v
  by_cases hvl : v ∈ l
  · simp [hvl]
  · by_cases hvu : v = u
    · simp [hvu]
    · simp [hvu]

theorem mergeInto_ok {l : List Url} (hl : ∀ u ∈ l, st.checkAccount c u = none) :
    st.mergeInto c l db = (.ok (), st.mergeAll l db) := by
  induction l generalizing db with
  | nil =>
    simp [mergeInto, mergeAll, mergeAccounts]
  | cons u l ih =>
    have hu := hl u List.mem_cons_self
    have hrest : ∀ v ∈ l, st.checkAccount c v = none :=
      fun v hv => hl v (List.mem_cons_of_mem u hv)
    simp only [mergeInto, hu, Proc.bind_run, Proc.modify_run]
    rw [ih hrest, mergeAll, mergeAll, mergeAccounts_cons]

variable {u : Url} {e : Error} {rest visited : List Url}

/-- The first account that is refused ends the merge; those before it are merged. -/
theorem mergeInto_error
    (hvisited : ∀ v ∈ visited, st.checkAccount c v = none) (hu : st.checkAccount c u = some e) :
    st.mergeInto c (visited ++ u :: rest) db = (.error e, st.mergeAccounts visited db) := by
  induction visited generalizing db with
  | nil => simp [mergeInto, hu, mergeAccounts]
  | cons v visited ih =>
    have hv := hvisited v List.mem_cons_self
    have hrest : ∀ w ∈ visited, st.checkAccount c w = none :=
      fun w hw => hvisited w (List.mem_cons_of_mem v hw)
    simp only [List.cons_append, mergeInto, hv, Proc.bind_run, Proc.modify_run]
    rw [ih hrest, mergeAccounts_cons]

theorem checkAccount_cases (c : Crypto) (st : StateManager) (l : List Url) :
    (∀ u ∈ l, st.checkAccount c u = none) ∨
      ∃ visited u rest e, l = visited ++ u :: rest ∧
        (∀ v ∈ visited, st.checkAccount c v = none) ∧ st.checkAccount c u = some e := by
  induction l with
  | nil => exact .inl nofun
  | cons u l ih =>
    cases hu : st.checkAccount c u with
    | some e => exact .inr ⟨[], u, l, e, rfl, nofun, hu⟩
    | none =>
      rcases ih with hl | ⟨visited, w, rest, e, hsplit, hvisited, hw⟩
      · exact .inl (List.forall_mem_cons.2 ⟨hu, hl⟩)
      · exact .inr ⟨u :: visited, w, rest, e, by rw [hsplit]; rfl,
          List.forall_mem_cons.2 ⟨hu, hvisited⟩, hw⟩

theorem checkAccount_failing (h : st.checkAccount c u = some e) : e.Failing := by
  unfold checkAccount at h
  split at h
  · split at h
    · exact absurd h (by simp)
    · split at h
      · cases h
        rfl
      · split at h
        · exact absurd h (by simp)
        · cases h
          rfl
  · exact absurd h (by simp)

variable {order : List Url → List Url} {st' : StateManager} {db' : Database}

theorem commit_ok (hops : executeOperations c st.operations st = (.ok (), st'))
    (hcheck : ∀ u ∈ order st'.touched, st'.checkAccount c u = none) :
    st.commit c order db = (.ok st'.state, st'.mergeAll (order st'.touched) db) := by
  unfold commit
  rw [hops]
  simp only [Proc.bind_run, mergeInto_ok hcheck, Proc.pure_run]

theorem commit_refused (hops : executeOperations c st.operations st = (.ok (), st'))
    (horder : order st'.touched = visited ++ u :: rest)
    (hvisited : ∀ v ∈ visited, st'.checkAccount c v = none) (hu : st'.checkAccount c u = some e) :
    st.commit c order db = (.error e, st'.mergeAccounts visited db) := by
  unfold commit
  rw [hops]
  simp only [Proc.bind_run, horder, mergeInto_error hvisited hu]

/-- A commit that returns an error failed in a queued operation, without any effect
on the database, or at an account that was refused. -/
theorem commit_error (h : st.commit c order db = (.error e, db')) :
    (∃ st', executeOperations c st.operations st = (.error e, st') ∧ db' = db) ∨
      ∃ st' visited u rest, executeOperations c st.operations st = (.ok (), st') ∧
        order st'.touched = visited ++ u :: rest ∧
        (∀ v ∈ visited, st'.checkAccount c v = none) ∧ st'.checkAccount c u = some e ∧
        db' = st'.mergeAccounts visited db := by
  match hops : executeOperations c st.operations st with
  | (.panic m, st') =>
    simp [commit, hops] at h
  | (.error e', st') =>
    simp only [commit, hops] at h
    cases h
    exact .inl ⟨st', rfl, rfl⟩
  | (.ok (), st') =>
    rcases checkAccount_cases c st' (order st'.touched) with
      hall | ⟨visited, u, rest, e', hsplit, hvisited, hu⟩
    · rw [commit_ok hops hall] at h
      cases h
    · rw [commit_refused hops hsplit hvisited hu] at h
      cases h
      exact .inr ⟨st', visited, u, rest, rfl, hsplit, hvisited, hu, rfl⟩

theorem raises_commit (c : Crypto) (order : List Url → List Url) (st : StateManager) :
    Proc.Raises Error.Failing (st.commit c order) := by
  intro db e h
  rcases commit_error (Prod.ext h rfl) with ⟨st', hops, -⟩ | ⟨st', visited, u, rest, -, -, -, hu, -⟩
  · exact raises_executeOperations c st.operations st e (by rw [hops])
  · exact checkAccount_failing hu

theorem commit_eq_ok {state : ProcessTransactionState}
    (h : st.commit c order db = (.ok state, db')) :
    ∃ st', executeOperations c st.operations st = (.ok (), st') ∧
      (∀ u ∈ order st'.touched, st'.checkAccount c u = none) ∧ state = st'.state ∧
      db' = st'.mergeAll (order st'.touched) db := by
  match hops : executeOperations c st.operations st with
  | (.panic m, st') | (.error e', st') => simp [commit, hops] at h
  | (.ok (), st') =>
    rcases checkAccount_cases c st' (order st'.touched) with
      hall | ⟨visited, u, rest, e', hsplit, hvisited, hu⟩
    · rw [commit_ok hops hall] at h
      cases h
      exact ⟨st', rfl, hall, rfl, rfl⟩
    · rw [commit_refused hops hsplit hvisited hu] at h
      cases h

end Merge

end StateManager

structure SignatureValidationMetadata where
  location : Option Url
  isInitiator : Bool
  delegated : Bool
  forwarded : Bool
deriving DecidableEq, Repr

def SignatureValidationMetadata.setDelegated (d : SignatureValidationMetadata) :
    SignatureValidationMetadata := { d with delegated := true }

def SignatureValidationMetadata.setForwarded (d : SignatureValidationMetadata) :
    SignatureValidationMetadata := { d with forwarded := true }

def SignatureValidationMetadata.nested (d : SignatureValidationMetadata) : Bool :=
  d.delegated || d.forwarded

/-- A transaction executor with the optional interfaces it implements: a
`PrincipalValidator`, a `SignerValidator` (two methods, which come together) and a
`TransactionExecutorCleanup`.  Whatever an executor reports as an error has the code
of a failure. -/
structure TransactionExecutor where
  execute : Delivery → Proc StateManager Error (Option TransactionResult)
  allowMissingPrincipal : Option (Transaction → Bool)
  signerIsAuthorized : Option (Database → Transaction → Account →
    SignatureValidationMetadata → Outcome Error Bool)
  transactionIsReady : Option (Database → Transaction → TransactionStatus →
    Outcome Error (Bool × Bool))
  didFail : Option (ProcessTransactionState → Transaction →
    Outcome Error ProcessTransactionState)
  execute_failing : ∀ d, Proc.Raises Error.Failing (execute d)
  signerIsAuthorized_failing : ∀ f, signerIsAuthorized = some f →
    ∀ db t a md e, f db t a md = .error e → e.Failing
  transactionIsReady_failing : ∀ f, transactionIsReady = some f →
    ∀ db t s e, f db t s = .error e → e.Failing

def TransactionExecutor.plain
    (execute : Delivery → Proc StateManager Error (Option TransactionResult))
    (h : ∀ d, Proc.Raises Error.Failing (execute d)) : TransactionExecutor where
  execute := execute
  allowMissingPrincipal := none
  signerIsAuthorized := none
  transactionIsReady := none
  didFail := none
  execute_failing := h
  signerIsAuthorized_failing := fun _ h => nomatch h
  transactionIsReady_failing := fun _ h => nomatch h

end Accumulate.Chain
