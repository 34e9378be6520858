import Accumulate.Chain.StateManager
import Accumulate.Protocol.Fees

/-!
# Writing data

The `WriteData` executor of `internal/chain/write_data.go`.
-/

namespace Accumulate.Chain
namespace WriteData

open Library Protocol Database

variable (c : Crypto) {e : Error} {entry : DataEntry} {st st' : StateManager}
  {r : Option TransactionResult}

def checkDataEntrySize (entry : DataEntry) : Outcome Error Unit :=
  if c.dataEntrySize entry > transactionSizeMax then
    .error (.plain "data amount exceeds 20480 byte entry limit")
  else if c.dataEntrySize entry = 0 then .error (.plain "no data provided for WriteData")
  else .ok ()

def isWriteToLiteDataAccount (db : Database) (t : Transaction) : Outcome Error Bool :=
  match t.body, t.header.principal with
  | .payload (.writeData entry _ _), some principal =>
    if !isLiteDataAddress principal then .ok false
    else
      match (db.account principal).main, entry with
      | some (.liteDataAccount _), _ => .ok true
      | some _, _ => .ok false
      | none, some entry => .ok (c.liteDataAddress entry = principal)
      | none, none => .panic "nil data entry"
  | .payload (.writeData ..), none => .panic "nil URL"
  | _, _ => .error (.new .internalError "invalid payload")

def executeWriteLiteDataAccount (entry : DataEntry) :
    Proc StateManager Error (Option TransactionResult) := do
  let st ← Proc.get
  match st.origin with
  | some (.liteDataAccount u) =>
    Proc.modify fun st => st.updateData (.liteDataAccount u) (c.entryHash entry)
    return some (.writeData (c.entryHash entry) st.originUrl)
  | some _ => Proc.throw (.plain "invalid principal: want chain type liteDataAccount")
  | none =>
    let u := c.liteDataAddress entry
    if st.originUrl ≠ u then Proc.throw (.plain "first entry doesnt match chain id")
    else
      Proc.modify fun st => st.updateData (.liteDataAccount u) (c.entryHash entry)
      return some (.writeData (c.entryHash entry) u)

/-- `executeWriteFullDataAccount`, for a principal that is a data account.  Writing to
the state changes the principal itself, which is then queued for storage. -/
def writeDataAccount (target u : Url) (auth : AccountAuth) (old : Option DataEntry)
    (entry : DataEntry)
    (scratch writeToState : Bool) : Proc StateManager Error (Option TransactionResult) := do
  if writeToState then
    if scratch then
      Proc.throw (.new .badRequest "writing scratch data to the account state is not permitted")
    else
      let account := Account.dataAccount u auth (some entry)
      Proc.modify fun st => { st with origin := some account }
      Proc.mapError (.format .unknownError "store account") (StateManager.update c account)
      Proc.modify fun st => st.updateData account (c.entryHash entry)
      return some (.writeData (c.entryHash entry) target)
  else
    Proc.modify fun st => st.updateData (.dataAccount u auth old) (c.entryHash entry)
    return some (.writeData (c.entryHash entry) target)

def executeWriteFullDataAccount (entry : DataEntry) (scratch writeToState : Bool) :
    Proc StateManager Error (Option TransactionResult) := do
  let st ← Proc.get
  match st.origin with
  | none => Proc.throw (.notFound "account not found")
  | some (.dataAccount u auth old) =>
    writeDataAccount c st.originUrl u auth old entry scratch writeToState
  | some _ => Proc.throw (.new .badRequest "invalid principal: want dataAccount")

def validate (d : Delivery) : Proc StateManager Error (Option TransactionResult) := do
  match d.transaction.body with
  | .payload (.writeData none _ _) => Proc.throw (.new .badRequest "entry is missing")
  | .payload (.writeData (some entry) scratch writeToState) =>
    Proc.lift (checkDataEntrySize c entry)
    let st ← Proc.get
    if isLiteDataAddress st.originUrl then
      if writeToState then
        Proc.throw (.new .badRequest
          "cannot write data to the state of a lite data account")
      else executeWriteLiteDataAccount c entry
    else executeWriteFullDataAccount c entry scratch writeToState
  | _ => Proc.throw (.new .internalError "invalid payload")

theorem raises_checkDataEntrySize : Outcome.Raises Error.Failing (checkDataEntrySize c entry) := by
  unfold checkDataEntrySize
  split
  · exact .error rfl
  · exact .ite (.error rfl) (.ok _)

theorem raises_isWriteToLiteDataAccount {db : Database} {t : Transaction} :
    Outcome.Raises Error.Failing (isWriteToLiteDataAccount c db t) := by
  unfold isWriteToLiteDataAccount
  split
  · refine .ite (.ok _) ?_
    split
    iterate 3 exact .ok _
    exact .panic _
  · exact .panic _
  · exact .error rfl

theorem raises_executeWriteLiteDataAccount (entry : DataEntry) :
    Proc.Raises Error.Failing (executeWriteLiteDataAccount c entry) := by
  refine .bind .get fun st => ?_
  split
  · exact .bind (.modify _) fun _ => .pure _
  · exact .throw rfl
  · refine .ite (fun _ => .throw rfl) fun _ => ?_
    exact .bind (.modify _) fun _ => .pure _

theorem raises_writeDataAccount (target u : Url) (auth : AccountAuth) (old : Option DataEntry)
    (entry : DataEntry) (scratch writeToState : Bool) :
    Proc.Raises Error.Failing
      (writeDataAccount c target u auth old entry scratch writeToState) := by
  refine .ite (fun _ => ?_) fun _ =>
    .bind (.modify _) fun _ => .pure _
  refine .ite (fun _ => .throw rfl) fun _ => ?_
  refine .bind (.modify _) fun _ => ?_
  refine .bind (.mapError
    (StateManager.raises_createOrUpdate c true _) fun e he => he.format _) fun _ => ?_
  exact .bind (.modify _) fun _ => .pure _

theorem raises_executeWriteFullDataAccount (entry : DataEntry) (scratch writeToState : Bool) :
    Proc.Raises Error.Failing (executeWriteFullDataAccount c entry scratch writeToState) := by
  refine .bind .get fun st => ?_
  split
  · exact .throw rfl
  · exact raises_writeDataAccount c _ _ _ _ _ _ _
  · exact .throw rfl

theorem raises_validate (d : Delivery) : Proc.Raises Error.Failing (validate c d) := by
  unfold validate
  split
  · exact .throw rfl
  · refine .bind (.lift (raises_checkDataEntrySize c)) fun _ => ?_
    refine .bind .get fun st => ?_
    refine .ite (fun _ => ?_) fun _ => raises_executeWriteFullDataAccount c _ _ _
    exact .ite (fun _ => .throw rfl)
      fun _ => raises_executeWriteLiteDataAccount c _
  · exact .throw rfl

/-! ### The principal after a write -/

/-- A principal with the given URL is still one afterwards. -/
def KeepsOriginAt (u : Url) (st st' : StateManager) : Prop :=
  st.origin.map Account.url = some u → st'.origin.map Account.url = some u

instance (u : Url) : Std.Refl (KeepsOriginAt u) := ⟨fun _ h => h⟩

instance (u : Url) : IsTrans StateManager (KeepsOriginAt u) := ⟨fun _ _ _ hab hbc h => hbc (hab h)⟩

theorem keeps_writeDataAccount (target u : Url) (auth : AccountAuth) (old : Option DataEntry)
    (entry : DataEntry) (scratch writeToState : Bool) :
    Proc.Keeps (KeepsOriginAt u)
      (writeDataAccount c target u auth old entry scratch writeToState) := by
  have hqueue : ∀ a, Proc.Keeps (KeepsOriginAt u)
      (Proc.modify fun st => st.updateData a (c.entryHash entry) : Proc StateManager Error Unit) :=
    fun a => .modify fun st h => h
  refine .ite (.ite (.throw _) ?_)
    (.bind (hqueue _) fun _ => .pure _)
  refine .bind (.modify fun st _ => rfl) fun _ => ?_
  refine .bind (.mapError ?_) fun _ =>
    .bind (hqueue _) fun _ => .pure _
  intro st h
  have hsame : (StateManager.update c (.dataAccount u auth (some entry)) st).2.origin = st.origin :=
    (StateManager.keeps_origin_createOrUpdate c true _ st).1
  rw [hsame]
  exact h

theorem keeps_executeWriteLiteDataAccount (entry : DataEntry) :
    Proc.Keeps StateManager.SameOrigin (executeWriteLiteDataAccount c entry) := by
  refine .bind .get fun st => ?_
  split
  · exact .bind (.modify fun _ => ⟨rfl, rfl⟩) fun _ => .pure _
  · exact .throw _
  · refine .ite (.throw _) ?_
    exact .bind (.modify fun _ => ⟨rfl, rfl⟩) fun _ => .pure _

theorem executeWriteFullDataAccount_origin {scratch writeToState : Bool}
    (h : executeWriteFullDataAccount c entry scratch writeToState st = (.ok r, st')) :
    st'.origin.map Account.url = st.origin.map Account.url ∧ st.origin ≠ none := by
  unfold executeWriteFullDataAccount at h
  rw [Proc.bind_run, Proc.get_run] at h
  cases horigin : st.origin with
  | none => simp [horigin] at h
  | some a =>
    cases a with
    | dataAccount u auth old =>
      simp only [horigin] at h
      have hkeep := keeps_writeDataAccount c st.originUrl u auth old entry scratch
        writeToState st (by rw [horigin]; rfl)
      rw [h] at hkeep
      exact ⟨hkeep, by simp⟩
    | _ => simp [horigin] at h

/-- A successful write leaves the principal with the URL it had; only a lite data
account may be missing. -/
theorem validate_origin {d : Delivery} (h : validate c d st = (.ok r, st')) :
    st'.origin.map Account.url = st.origin.map Account.url ∧
      (st.origin = none → isLiteDataAddress st.originUrl = true) := by
  unfold validate at h
  cases hbody : d.transaction.body with
  | directoryAnchor | syntheticForwardTransaction => simp [hbody] at h
  | payload p =>
    cases p with
    | writeData entry scratch writeToState =>
      cases entry with
      | none => simp [hbody] at h
      | some entry =>
        simp only [hbody, Proc.bind_run, Proc.lift_run, Proc.get_run] at h
        cases hsize : checkDataEntrySize c entry with
        | error e | panic m => simp [hsize] at h
        | ok _ =>
          rw [hsize] at h
          by_cases hlite : isLiteDataAddress st.originUrl = true
          · simp only [hlite, if_true] at h
            cases writeToState with
            | true => simp at h
            | false =>
              have hkeep := keeps_executeWriteLiteDataAccount c entry st
              simp only [Bool.false_eq_true, if_false] at h
              rw [h] at hkeep
              exact ⟨by rw [hkeep.1], fun _ => hlite⟩
          · simp only [hlite] at h
            obtain ⟨hurl, hsome⟩ := executeWriteFullDataAccount_origin c h
            exact ⟨hurl, fun hnone => absurd hnone hsome⟩
    | _ => simp [hbody] at h

def signerIsAuthorized (db : Database) (t : Transaction) : Outcome Error Bool := do
  let lite ← isWriteToLiteDataAccount c db t
  return !lite

def transactionIsReady (db : Database) (t : Transaction) (status : TransactionStatus) :
    Outcome Error (Bool × Bool) := do
  let lite ← isWriteToLiteDataAccount c db t
  if lite then return (status.signers ≠ [], false)
  else return (false, true)

/-- The `WriteData` executor: a lite data account needs one signature only, and may
be missing. -/
def executor : TransactionExecutor where
  execute := validate c
  allowMissingPrincipal := some fun t =>
    match t.header.principal with
    | some principal => isLiteDataAddress principal
    | none => false
  signerIsAuthorized := some fun db t _ _ => signerIsAuthorized c db t
  transactionIsReady := some (transactionIsReady c)
  didFail := none
  execute_failing := raises_validate c
  signerIsAuthorized_failing := by
    rintro f ⟨⟩ db t a md
    exact Outcome.Raises.bind (raises_isWriteToLiteDataAccount c) fun _ => .ok _
  transactionIsReady_failing := by
    rintro f ⟨⟩ db t s
    exact Outcome.Raises.bind (raises_isWriteToLiteDataAccount c) fun _ => .ite (.ok _) (.ok _)

end WriteData
end Accumulate.Chain
