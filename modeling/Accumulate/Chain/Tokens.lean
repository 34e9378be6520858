import Accumulate.Chain.StateManager

/-!
# Moving tokens

The executors `SendTokens`, `IssueTokens`, `BurnTokens`, `SyntheticDepositTokens` and
`SyntheticBurnTokens` of `internal/chain`, and the methods of token accounts and token
issuers they use.

A transfer debits the principal and produces one deposit per recipient; an issue adds to
the issued amount and produces deposits that are marked as coming from the issuer; a burn
debits the principal and produces a burn at the issuer.  A deposit that fails is sent back:
to the account it came from, or as a burn to the issuer.
-/

namespace Accumulate

open Library Protocol Database

namespace Protocol

/-! ## Token accounts -/

/-- An authority component, read as `ParsePartitionUrl` reads it. -/
def Host.ofString (authority : String) : Host :=
  let a := authority.toList
  if a = "dn.acme".toList then .directory
  else if "bvn-".toList <+: a ∧ ".acme".toList <:+ a then
    .bvn (String.ofList ((a.drop "bvn-".length).take (a.length - "bvn-".length - ".acme".length)))
  else .named authority

/-- The token URL in the path of a lite token address, as `ParseLiteTokenAddress` reads
it. -/
def liteTokenUrl (u : Url) : Option Url :=
  match u.path with
  | [] => none
  | authority :: path => some ⟨Host.ofString authority, path⟩

namespace Account

/-- `AccountWithTokens`: the token and the balance of a token account. -/
def tokens : Account → Option (Url × Int)
  | .liteTokenAccount _ tokenUrl balance _ => some (tokenUrl, balance)
  | .tokenAccount _ _ tokenUrl balance => some (tokenUrl, balance)
  | _ => none

def issued : Account → Option Int
  | .tokenIssuer _ _ _ _ issued _ => some issued
  | _ => none

def withBalance (balance : Int) : Account → Account
  | .liteTokenAccount u tokenUrl _ lockHeight => .liteTokenAccount u tokenUrl balance lockHeight
  | .tokenAccount u auth tokenUrl _ => .tokenAccount u auth tokenUrl balance
  | a => a

def withIssued (issued : Int) : Account → Account
  | .tokenIssuer u auth symbol precision _ supplyLimit =>
    .tokenIssuer u auth symbol precision issued supplyLimit
  | a => a

/-- `LockableAccount.GetLockHeight`; zero for an account that cannot be locked. -/
def lockHeight : Account → Nat
  | .liteTokenAccount _ _ _ lockHeight => lockHeight
  | _ => 0

def creditTokens (a : Account) (balance amount : Int) : Option Account :=
  if amount < 0 then none else some (a.withBalance (balance + amount))

def canDebitTokens (balance amount : Int) : Bool := amount ≤ balance

def debitTokens (a : Account) (balance amount : Int) : Option Account :=
  if canDebitTokens balance amount then some (a.withBalance (balance - amount)) else none

/-- `TokenIssuer.Issue`: the issuer after the amount has been issued, and whether it stays
within the supply limit. -/
def issue (a : Account) (issued amount : Int) (supplyLimit : Option Int) : Account × Bool :=
  (a.withIssued (issued + amount),
    match supplyLimit with
    | none => true
    | some limit => issued + amount ≤ limit)

variable (a : Account)

@[simp] theorem url_withBalance (b : Int) : (a.withBalance b).url = a.url := by
  cases a <;> rfl

@[simp] theorem url_withIssued (n : Int) : (a.withIssued n).url = a.url := by
  cases a <;> rfl

@[simp] theorem fullAuth_withBalance (b : Int) : (a.withBalance b).fullAuth = a.fullAuth := by
  cases a <;> rfl

@[simp] theorem fullAuth_withIssued (n : Int) : (a.withIssued n).fullAuth = a.fullAuth := by
  cases a <;> rfl

@[simp] theorem tokens_withIssued (n : Int) : (a.withIssued n).tokens = a.tokens := by
  cases a <;> rfl

@[simp] theorem issued_withBalance (b : Int) : (a.withBalance b).issued = a.issued := by
  cases a <;> rfl

variable {a : Account} {n : Int}

theorem tokens_withBalance {t : Url} {b : Int} (h : a.tokens = some (t, b)) (b' : Int) :
    (a.withBalance b').tokens = some (t, b') := by
  cases a <;> simp_all [tokens, withBalance]

theorem issued_withIssued (h : a.issued = some n) (n' : Int) :
    (a.withIssued n').issued = some n' := by
  cases a <;> simp_all [issued, withIssued]

theorem issued_of_tokens {p : Url × Int} (h : a.tokens = some p) : a.issued = none := by
  cases a <;> simp_all [tokens, issued]

theorem tokens_of_issued (h : a.issued = some n) : a.tokens = none := by
  cases a <;> simp_all [tokens, issued]

end Account

end Protocol

namespace Chain

/-! ## The state manager -/

namespace StateManager

def submit (u : Option Url) (body : TransactionBody) : Proc StateManager Error Unit := do
  let st ← Proc.get
  if st.txType.isSynthetic then
    Proc.abort "Called stateCache.Submit from a synthetic transaction!"
  else
    match u with
    | none => Proc.abort "No destination URL specified!"
    | some u => Proc.modify fun st => { st with state := st.state.didProduceTxn (some u) body }

def addDirectoryEntry (directory u : Url) (st : StateManager) : StateManager :=
  { st.touch directory with
    batch := st.batch.updateAccount directory fun r =>
      { r with directory := (upsert r.directory (·.compare u) u).1 } }

end StateManager

namespace Tokens

def deposit (token : Url) (isIssuer : Bool) (amount : Int) : TransactionBody :=
  .payload (.syntheticDepositTokens .empty (some token) amount isIssuer false)

/-- The sum of the amounts, none of which may be negative. -/
def totalAmount : List TokenRecipient → Outcome Error Int
  | [] => .ok 0
  | r :: rest =>
    if r.amount < 0 then .error (.plain "amount can't be a negative value")
    else do
      let total ← totalAmount rest
      return r.amount + total

/-- The loop that submits a deposit for every recipient.  `missing` is what happens to a
recipient without a URL and `seen` are the recipients that have had their deposit. -/
def submitDeposits (missing : Outcome Error Unit) (token : Url) (isIssuer : Bool) :
    List Url → List TokenRecipient → Proc StateManager Error Unit
  | _, [] => return ()
  | seen, r :: rest =>
    match r.url with
    | none => Proc.lift missing
    | some u =>
      if u ∈ seen then Proc.throw (.plain "duplicate recipient passed in request")
      else do
        StateManager.submit (some u) (deposit token isIssuer r.amount)
        submitDeposits missing token isIssuer (u :: seen) rest

/-- Change the principal, which the state manager and the executor share, and queue it. -/
def updateOrigin (c : Crypto) (a : Account) : Proc StateManager Error Unit := do
  Proc.modify fun st => { st with origin := some a }
  Proc.mapError (fun _ => .plain "failed to update") (StateManager.update c a)

end Tokens

open Tokens

/-! ## Sending -/

namespace SendTokens

variable (c : Crypto) (anchorPool : Url)

def checkLock (lockHeight : Nat) (db : Database) : Outcome Error Unit :=
  if lockHeight = 0 then .ok ()
  else
    match ((db.account anchorPool).index .majorBlock).getLast? with
    | none => .error (.new .notAllowed "account is locked (currently at 0)")
    | some entry =>
      if entry.blockIndex < lockHeight then .error (.new .notAllowed "account is locked")
      else .ok ()

def send (account : Account) (tokenUrl : Url) (balance : Int) (recipients : List TokenRecipient) :
    Proc StateManager Error (Option TransactionResult) := do
  let total ← Proc.lift (totalAmount recipients)
  match account.debitTokens balance total with
  | none => Proc.throw (.plain "insufficient balance")
  | some debited => do
      updateOrigin c debited
      submitDeposits (.error (.new .badRequest "output is missing recipient URL")) tokenUrl false
        [] recipients
      Proc.query fun st => checkLock anchorPool account.lockHeight st.batch
      return none

def execute (d : Delivery) : Proc StateManager Error (Option TransactionResult) := do
  match d.transaction.body with
  | .payload (.sendTokens recipients) =>
    let st ← Proc.get
    match st.origin with
    | none => Proc.abort "nil account"
    | some account =>
      match account.tokens with
      | some (tokenUrl, balance) => send c anchorPool account tokenUrl balance recipients
      | none => Proc.throw (.plain "invalid principal: want tokenAccount or liteTokenAccount")
  | _ => Proc.throw (.plain "invalid payload")

end SendTokens

/-! ## Issuing -/

namespace IssueTokens

variable (c : Crypto)

/-- The recipients, including the one that stands outside of the list. -/
def normalize (recipient : Option Url) (amount : Int) (recipients : List TokenRecipient) :
    List TokenRecipient :=
  match recipient with
  | none => recipients
  | some u => ⟨some u, amount⟩ :: recipients

def checkRecipients (recipients : List TokenRecipient) : Outcome Error Unit :=
  if recipients.all (·.url.isSome) then .ok ()
  else .error (.new .badRequest "recipient URL is missing")

def issue (account : Account) (issued : Int) (supplyLimit : Option Int)
    (recipients : List TokenRecipient) : Proc StateManager Error (Option TransactionResult) := do
  Proc.lift (checkRecipients recipients)
  let total ← Proc.lift (totalAmount recipients)
  match account.issue issued total supplyLimit with
  | (_, false) => Proc.throw (.plain "cannot exceed supply limit")
  | (account, true) => do
      updateOrigin c account
      submitDeposits (.panic "nil URL") account.url true [] recipients
      return none

def execute (d : Delivery) : Proc StateManager Error (Option TransactionResult) := do
  match d.transaction.body with
  | .payload (.issueTokens recipient amount recipients) =>
    let st ← Proc.get
    match st.origin with
    | none => Proc.abort "nil account"
    | some (.tokenIssuer u auth symbol precision issued supplyLimit) =>
      issue c (.tokenIssuer u auth symbol precision issued supplyLimit) issued supplyLimit
        (normalize recipient amount recipients)
    | some _ => Proc.throw (.plain "invalid principal: want tokenIssuer")
  | _ => Proc.throw (.plain "invalid payload")

end IssueTokens

/-! ## Burning -/

namespace BurnTokens

variable (c : Crypto)

def burn (account : Account) (tokenUrl : Url) (balance amount : Int) :
    Proc StateManager Error (Option TransactionResult) :=
  if amount < 0 then Proc.throw (.plain "amount can't be a negative value")
  else if !Account.canDebitTokens balance amount then
    Proc.throw (.plain "cannot burn more tokens than is available in account")
  else
    match account.debitTokens balance amount with
    | none => Proc.throw (.plain "unable to debit balance from account")
    | some debited => do
        StateManager.submit (some tokenUrl)
          (.payload (.syntheticBurnTokens .empty amount false))
        updateOrigin c debited
        return none

def execute (d : Delivery) : Proc StateManager Error (Option TransactionResult) := do
  match d.transaction.body with
  | .payload (.burnTokens amount) =>
    let st ← Proc.get
    match st.origin with
    | none => Proc.abort "nil account"
    | some account =>
      match account.tokens with
      | some (tokenUrl, balance) => burn c account tokenUrl balance amount
      | none => Proc.throw (.plain "invalid principal: want liteTokenAccount or tokenAccount")
  | _ => Proc.throw (.plain "invalid payload")

end BurnTokens

/-! ## Depositing -/

namespace SyntheticDepositTokens

variable (c : Crypto) (invalidChecksum : Url → Bool)

def allowMissingPrincipal (t : Transaction) : Bool :=
  match t.header.principal with
  | some u => c.isLiteTokenAddress u
  | none => false

def createLiteIdentity (liteIdUrl : Url) : Proc StateManager Error Unit := do
  let st ← Proc.get
  match (st.batch.account liteIdUrl).main with
  | some (.liteIdentity ..) => return ()
  | some _ => Proc.throw errCannotAssign
  | none =>
    Proc.mapError (fun _ => .plain "failed to update")
      (StateManager.update c (.liteIdentity liteIdUrl 0 0))

/-- The lite token account a deposit creates.  `invalidChecksum` tells which addresses
`ParseLiteAddress` reports an error for. -/
def createLite (u : Url) (token : Option Url) : Proc StateManager Error (Account × Url × Int) :=
  if invalidChecksum u then Proc.throw (.plain "invalid lite token account URL")
  else if !c.isLiteTokenAddress u then Proc.throw (.notFound "could not find token account")
  else
    match token with
    | none => Proc.throw (.plain "token URL does not match lite token account URL")
    | some token =>
      if liteTokenUrl u ≠ some token then
        Proc.throw (.plain "token URL does not match lite token account URL")
      else do
        createLiteIdentity c u.rootIdentity
        Proc.modify (StateManager.addDirectoryEntry u.rootIdentity u)
        return (.liteTokenAccount u token 0 0, token, 0)

/-- The account of a deposit, with its token and balance: the principal, or a new lite
token account. -/
def findAccount (token : Option Url) : Proc StateManager Error (Account × Url × Int) := do
  let st ← Proc.get
  match st.origin with
  | none => createLite c invalidChecksum st.originUrl token
  | some account =>
    match account.tokens with
    | none => Proc.throw (.plain "invalid principal: want liteTokenAccount or tokenAccount")
    | some (tokenUrl, balance) =>
      if token ≠ some tokenUrl then Proc.throw (.plain "token type mismatch")
      else return (account, tokenUrl, balance)

/-- The last part of `SyntheticDepositTokens.Validate`.  A new account is not the principal
of the state manager. -/
def credit (account : Account) (balance amount : Int) :
    Proc StateManager Error (Option TransactionResult) :=
  if amount < 0 then Proc.throw (.plain "amount can't be a negative value")
  else
    match account.creditTokens balance amount with
    | none => Proc.throw (.plain "unable to add deposit balance to account")
    | some credited => do
        Proc.modify fun st => { st with origin := st.origin.map fun _ => credited }
        Proc.mapError (fun _ => .plain "failed to update") (StateManager.update c credited)
        return none

def execute (d : Delivery) : Proc StateManager Error (Option TransactionResult) := do
  match d.transaction.body with
  | .payload (.syntheticDepositTokens _ token amount _ _) =>
    let (account, _, balance) ← findAccount c invalidChecksum token
    credit c account balance amount
  | _ => Proc.throw (.plain "invalid payload")

def refund (token : Option Url) (amount : Int) (isIssuer : Bool) : TransactionBody :=
  if isIssuer then .payload (.syntheticBurnTokens .empty amount true)
  else .payload (.syntheticDepositTokens .empty token amount false true)

def didFail (state : ProcessTransactionState) (t : Transaction) :
    Outcome Error ProcessTransactionState :=
  match t.body with
  | .payload (.syntheticDepositTokens origin token amount isIssuer isRefund) =>
    if isRefund then .ok state
    else
      match origin.cause with
      | none => .panic "nil transaction ID"
      | some cause => .ok (state.didProduceTxn (some cause.account) (refund token amount isIssuer))
  | _ => .error (.plain "invalid payload")

end SyntheticDepositTokens

namespace SyntheticBurnTokens

variable (c : Crypto)

def execute (d : Delivery) : Proc StateManager Error (Option TransactionResult) := do
  match d.transaction.body with
  | .payload (.syntheticBurnTokens _ amount _) =>
    let st ← Proc.get
    match st.origin with
    | none => Proc.abort "nil account"
    | some account =>
      match account.issued with
      | none => Proc.throw (.plain "invalid principal: want tokenIssuer")
      | some issued =>
        if amount < 0 then Proc.throw (.plain "amount can't be a negative value")
        else do
          updateOrigin c (account.withIssued (issued - amount))
          return none
  | _ => Proc.throw (.plain "invalid payload")

end SyntheticBurnTokens

/-! ## Errors -/

section Errors

variable (c : Crypto)

theorem Tokens.raises_totalAmount (l : List TokenRecipient) :
    Outcome.Raises Error.Failing (totalAmount l) := by
  induction l with
  | nil => exact .ok _
  | cons r rest ih =>
    exact .ite (.error rfl)
      (ih.bind fun _ => .ok _)

theorem StateManager.raises_submit (u : Option Url) (body : TransactionBody) :
    Proc.Raises Error.Failing (submit u body) := by
  refine .bind .get fun st => ?_
  refine .ite (fun _ => .abort _) fun _ => ?_
  cases u with
  | none => exact .abort _
  | some u => exact .modify _

theorem Tokens.raises_submitDeposits {missing : Outcome Error Unit}
    (hmissing : Outcome.Raises Error.Failing missing) (token : Url) (isIssuer : Bool)
    (l : List TokenRecipient) (seen : List Url) :
    Proc.Raises Error.Failing (submitDeposits missing token isIssuer seen l) := by
  induction l generalizing seen with
  | nil => exact .pure _
  | cons r rest ih =>
    unfold submitDeposits
    split
    · exact .lift hmissing
    · refine .ite (fun _ => .throw rfl) fun _ => ?_
      exact .bind (StateManager.raises_submit _ _) fun _ => ih _

theorem Tokens.raises_failedToUpdate (a : Account) :
    Proc.Raises Error.Failing
      (Proc.mapError (fun _ => Error.plain "failed to update") (StateManager.update c a)) :=
  .mapError (StateManager.raises_createOrUpdate c true a)
    fun _ _ => rfl

theorem Tokens.raises_updateOrigin (a : Account) : Proc.Raises Error.Failing (updateOrigin c a) :=
  .bind (.modify _) fun _ => raises_failedToUpdate c a

theorem SendTokens.raises_checkLock {anchorPool : Url} {lockHeight : Nat} {db : Database} :
    Outcome.Raises Error.Failing (checkLock anchorPool lockHeight db) := by
  unfold checkLock
  refine .ite (.ok _) ?_
  split
  · exact .error rfl
  · exact .ite (.error rfl) (.ok _)

theorem SendTokens.raises_execute (anchorPool : Url) (d : Delivery) :
    Proc.Raises Error.Failing (execute c anchorPool d) := by
  unfold execute
  split
  · refine .bind .get fun st => ?_
    split
    · exact .abort _
    split
    · refine .bind (.lift (raises_totalAmount _)) fun total => ?_
      split
      · exact .throw rfl
      refine .bind (raises_updateOrigin c _) fun _ => ?_
      refine .bind (raises_submitDeposits ?_ _ _ _ _) fun _ => ?_
      · exact .error rfl
      · exact .bind (.query fun _ => raises_checkLock) fun _ => .pure _
    · exact .throw rfl
  · exact .throw rfl

theorem IssueTokens.raises_execute (d : Delivery) : Proc.Raises Error.Failing (execute c d) := by
  unfold execute
  split
  · refine .bind .get fun st => ?_
    split
    · exact .abort _
    · refine Proc.Raises.bind (Proc.Raises.lift (Outcome.Raises.ite (Outcome.Raises.ok _)
        (.error rfl))) fun _ => ?_
      refine .bind (.lift (raises_totalAmount _)) fun total => ?_
      split
      · exact .throw rfl
      · refine .bind (raises_updateOrigin c _) fun _ => ?_
        exact .bind (raises_submitDeposits (.panic _) _ _ _ _)
          fun _ => .pure _
    · exact .throw rfl
  · exact .throw rfl

theorem BurnTokens.raises_execute (d : Delivery) : Proc.Raises Error.Failing (execute c d) := by
  unfold execute
  split
  · refine .bind .get fun st => ?_
    split
    · exact .abort _
    split
    · refine .ite (fun _ => .throw rfl) fun _ => ?_
      refine .ite (fun _ => .throw rfl) fun _ => ?_
      split
      · exact .throw rfl
      · refine .bind (StateManager.raises_submit _ _) fun _ => ?_
        exact .bind (raises_updateOrigin c _) fun _ => .pure _
    · exact .throw rfl
  · exact .throw rfl

theorem SyntheticDepositTokens.raises_createLite (invalidChecksum : Url → Bool) (u : Url)
    (token : Option Url) : Proc.Raises Error.Failing (createLite c invalidChecksum u token) := by
  refine .ite (fun _ => .throw rfl) fun _ => ?_
  refine .ite (fun _ => .throw rfl) fun _ => ?_
  cases token with
  | none => exact .throw rfl
  | some token =>
    refine .ite (fun _ => .throw rfl) fun _ => ?_
    refine .bind (.bind .get fun st => ?_) fun _ => ?_
    · split
      · exact .pure _
      · exact .throw rfl
      · exact raises_failedToUpdate c _
    · exact .bind (.modify _) fun _ => .pure _

theorem SyntheticDepositTokens.raises_execute (invalidChecksum : Url → Bool) (d : Delivery) :
    Proc.Raises Error.Failing (execute c invalidChecksum d) := by
  unfold execute
  split
  · refine .bind (.bind .get fun st => ?_) fun r => ?_
    · split
      · exact raises_createLite c invalidChecksum _ _
      · split
        · exact .throw rfl
        · exact .ite (fun _ => .throw rfl)
            fun _ => .pure _
    · refine .ite (fun _ => .throw rfl) fun _ => ?_
      split
      · exact .throw rfl
      · refine .bind (.modify _) fun _ => ?_
        exact .bind (raises_failedToUpdate c _) fun _ => .pure _
  · exact .throw rfl

theorem SyntheticBurnTokens.raises_execute (d : Delivery) :
    Proc.Raises Error.Failing (execute c d) := by
  unfold execute
  split
  · refine .bind .get fun st => ?_
    split
    · exact .abort _
    split
    · exact .throw rfl
    · refine .ite (fun _ => .throw rfl) fun _ => ?_
      exact .bind (raises_updateOrigin c _) fun _ => .pure _
  · exact .throw rfl

end Errors

/-! ## The executors -/

def SendTokens.executor (c : Crypto) (anchorPool : Url) : TransactionExecutor :=
  .plain (execute c anchorPool) (raises_execute c anchorPool)

def IssueTokens.executor (c : Crypto) : TransactionExecutor := .plain (execute c) (raises_execute c)

def BurnTokens.executor (c : Crypto) : TransactionExecutor := .plain (execute c) (raises_execute c)

def SyntheticDepositTokens.executor (c : Crypto) (invalidChecksum : Url → Bool) :
    TransactionExecutor :=
  { TransactionExecutor.plain (execute c invalidChecksum) (raises_execute c invalidChecksum) with
    allowMissingPrincipal := some (allowMissingPrincipal c)
    didFail := some didFail }

def SyntheticBurnTokens.executor (c : Crypto) : TransactionExecutor :=
  .plain (execute c) (raises_execute c)

def Tokens.executors (c : Crypto) (anchorPool : Url) (invalidChecksum : Url → Bool) :
    TransactionType → Option TransactionExecutor
  | .sendTokens => some (SendTokens.executor c anchorPool)
  | .issueTokens => some (IssueTokens.executor c)
  | .burnTokens => some (BurnTokens.executor c)
  | .syntheticDepositTokens => some (SyntheticDepositTokens.executor c invalidChecksum)
  | .syntheticBurnTokens => some (SyntheticBurnTokens.executor c)
  | _ => none

variable {c : Crypto} {anchorPool : Url} {invalidChecksum : Url → Bool}

theorem Tokens.didFail_user (t : TransactionType)
    (e : TransactionExecutor) (he : executors c anchorPool invalidChecksum t = some e)
    (hu : t.isUser = true) : e.didFail = none := by
  cases t with
  | syntheticDepositTokens => cases hu
  | sendTokens | issueTokens | burnTokens | syntheticBurnTokens =>
    cases he
    rfl
  | _ => cases he

/-! ## What an executor leaves in the state manager -/

namespace StateManager

/-- Between the two states the accounts `l` have been written, the last one first, and the
transactions `p` have been submitted.  Other main states, the kind of the transaction and
the URL of the principal are what they were. -/
structure Effect (st st' : StateManager) (l : List Account) (p : List Transaction) : Prop where
  txType : st'.txType = st.txType
  origin : st'.origin.map Account.url = st.origin.map Account.url
  operations : st'.operations = st.operations
  produced : st'.state.producedTxns = st.state.producedTxns ++ p
  main : ∀ v, (st'.batch.account v).main = (l.find? (·.url = v)).or (st.batch.account v).main
  written : ∀ v, v ∈ st'.written ↔ v ∈ st.written ∨ ∃ a ∈ l, a.url = v
  touched : ∀ v, v ∈ st.touched ∨ (∃ a ∈ l, a.url = v) → v ∈ st'.touched
  auth : ∀ a ∈ l, a.fullAuth ≠ some []
  length : ∀ a ∈ l, a.url.stringLength ≤ accountUrlMaxLength

variable {c : Crypto} {st st' st'' : StateManager} {a : Account}

theorem Effect.of_same (htype : st'.txType = st.txType)
    (horigin : st'.origin.map Account.url = st.origin.map Account.url)
    (hops : st'.operations = st.operations)
    (hproduced : st'.state.producedTxns = st.state.producedTxns)
    (hmain : ∀ v, (st'.batch.account v).main = (st.batch.account v).main)
    (hwritten : st'.written = st.written) (htouched : ∀ v ∈ st.touched, v ∈ st'.touched) :
    Effect st st' [] [] where
  txType := htype
  origin := horigin
  operations := hops
  produced := by rw [hproduced, List.append_nil]
  main := fun v => hmain v
  written := fun v => by simp [hwritten]
  touched := fun v hv => htouched v (hv.resolve_right (by simp))
  auth := nofun
  length := nofun

theorem Effect.refl (st : StateManager) : Effect st st [] [] :=
  .of_same rfl rfl rfl rfl (fun _ => rfl) rfl fun _ hv => hv

theorem Effect.trans {l l' : List Account} {p p' : List Transaction} (h : Effect st st' l p)
    (h' : Effect st' st'' l' p') : Effect st st'' (l' ++ l) (p ++ p') where
  txType := h'.txType.trans h.txType
  origin := h'.origin.trans h.origin
  operations := h'.operations.trans h.operations
  produced := by rw [h'.produced, h.produced, List.append_assoc]
  main := fun v => by rw [h'.main, h.main, List.find?_append, Option.or_assoc]
  written := fun v => by
    rw [h'.written, h.written]
    simp only [List.mem_append, or_and_right, exists_or]
    rw [or_assoc]
    exact or_congr_right or_comm
  touched := fun v hv => by
    simp only [List.mem_append, or_and_right, exists_or] at hv
    rcases hv with hv | hv | hv
    · exact h'.touched v (.inl (h.touched v (.inl hv)))
    · exact h'.touched v (.inr hv)
    · exact h'.touched v (.inl (h.touched v (.inr hv)))
  auth := fun a ha => (List.mem_append.1 ha).elim (h'.auth a) (h.auth a)
  length := fun a ha => (List.mem_append.1 ha).elim (h'.length a) (h.length a)

theorem effect_origin (st : StateManager) {o : Option Account}
    (ho : o.map Account.url = st.origin.map Account.url) :
    Effect st { st with origin := o } [] [] :=
  .of_same rfl ho rfl rfl (fun _ => rfl) rfl fun _ hv => hv

theorem effect_addDirectoryEntry (directory u : Url) (st : StateManager) :
    Effect st (st.addDirectoryEntry directory u) [] [] := by
  refine .of_same rfl rfl rfl rfl (fun v => ?_) rfl fun v hv => List.mem_append_left _ hv
  simp only [addDirectoryEntry, updateAccount_account]
  split
  · rename_i hv
    rw [hv]
  · rfl

theorem main_addChainEntry (combine : Hash → Hash → Hash) (db : Database) (cu : ChainUpdates)
    (u v : Url) (name : ChainName) (entry : Hash) :
    ((ChainUpdates.addChainEntry combine db cu u name entry).1.account v).main =
      (db.account v).main := by
  unfold ChainUpdates.addChainEntry
  split
  · rfl
  simp only [addEntry, updateChain, updateAccount_account]
  split
  · rename_i hv
    rw [hv]
  · rfl

theorem effect_update (h : update c a st = (.ok (), st')) : Effect st st' [a] [] := by
  obtain ⟨hlength, hauth, rfl⟩ := update_eq_ok h
  constructor
  case main =>
    intro v
    refine (main_addChainEntry _ _ _ _ _ _ _).trans ?_
    by_cases hv : a.url = v
    · simp [hv, setMain]
    · simp [hv, setMain, updateAccount_account_of_ne _ _ _ _ (Ne.symm hv)]
  case written =>
    simp [addChainEntry, touch, eq_comm]
  case touched =>
    intro v hv
    simp only [addChainEntry, touch, List.mem_append, List.mem_singleton]
    rcases hv with hv | ⟨b, hb, rfl⟩
    · exact .inl (.inl hv)
    · exact .inr (congrArg Account.url (List.mem_singleton.1 hb))
  case auth =>
    intro b hb
    rwa [List.mem_singleton.1 hb]
  case length =>
    intro b hb
    rwa [List.mem_singleton.1 hb]
  all_goals simp [addChainEntry, touch]

end StateManager

namespace StateManager

variable {c : Crypto} {st st' : StateManager} {u : Option Url} {body : TransactionBody}

theorem submit_eq_ok (h : submit u body st = (.ok (), st')) :
    st' = { st with state := st.state.didProduceTxn u body } := by
  unfold submit at h
  rw [Proc.get_bind_run] at h
  split at h
  · cases h
  cases u with
  | none => cases h
  | some u =>
    cases h
    rfl

theorem effect_submit (h : submit u body st = (.ok (), st')) :
    Effect st st' [] [⟨⟨u, 0, "", []⟩, body⟩] := by
  obtain rfl := submit_eq_ok h
  constructor
  all_goals simp [ProcessTransactionState.didProduceTxn]

end StateManager

open StateManager

namespace Tokens

variable {c : Crypto} {st st' : StateManager} {a : Account} {l : List TokenRecipient}

/-- The deposits for the given recipients, as they are submitted. -/
def deposits (token : Url) (isIssuer : Bool) (recipients : List TokenRecipient) :
    List Transaction :=
  recipients.map fun r => ⟨⟨r.url, 0, "", []⟩, deposit token isIssuer r.amount⟩

theorem totalAmount_eq_ok {total : Int} (h : totalAmount l = .ok total) :
    total = (l.map (·.amount)).sum ∧ ∀ r ∈ l, 0 ≤ r.amount := by
  induction l generalizing total with
  | nil =>
    cases h
    exact ⟨rfl, nofun⟩
  | cons r rest ih =>
    unfold totalAmount at h
    split at h
    · cases h
    rename_i hr
    obtain ⟨total', htotal, h⟩ := Outcome.bind_eq_ok.1 h
    cases h
    obtain ⟨rfl, hrest⟩ := ih htotal
    exact ⟨rfl, List.forall_mem_cons.2 ⟨not_lt.1 hr, hrest⟩⟩

theorem effect_submitDeposits {missing : Outcome Error Unit} (hmissing : ∀ a, missing ≠ .ok a)
    {token : Url} {isIssuer : Bool} {seen : List Url}
    (h : submitDeposits missing token isIssuer seen l st = (.ok (), st')) :
    Effect st st' [] (deposits token isIssuer l) := by
  induction l generalizing seen st with
  | nil =>
    cases h
    exact Effect.refl st'
  | cons r rest ih =>
    unfold submitDeposits at h
    cases hu : r.url with
    | none =>
      rw [hu] at h
      exact absurd (Prod.mk.inj h).1 (hmissing ())
    | some u =>
      simp only [hu] at h
      split at h
      · cases h
      · obtain ⟨_, st₁, hsubmit, h⟩ := Proc.bind_eq_ok.1 h
        rw [deposits, List.map_cons, hu]
        exact (effect_submit hsubmit).trans (ih h)

theorem effect_failedToUpdate
    (h : Proc.mapError (fun _ => Error.plain "failed to update") (StateManager.update c a) st =
      (.ok (), st')) : Effect st st' [a] [] :=
  effect_update (Proc.mapError_eq_ok.1 h)

theorem effect_updateOrigin {account : Account} (horigin : st.origin = some account)
    (hurl : a.url = account.url) (h : updateOrigin c a st = (.ok (), st')) :
    Effect st st' [a] [] := by
  have hset : Effect st { st with origin := some a } [] [] :=
    effect_origin st (by simp [horigin, hurl])
  exact hset.trans (effect_failedToUpdate h)

end Tokens

variable {d : Delivery} {st st' : StateManager} {r : Option TransactionResult} {amount : Int}
  {isRefund : Bool} {account : Account} {origin : SyntheticOrigin}

/-- **A successful transfer** debits the principal and submits a deposit for every
recipient. -/
theorem SendTokens.execute_eq_ok (h : execute c anchorPool d st = (.ok r, st')) :
    ∃ recipients account token balance, d.transaction.body = .payload (.sendTokens recipients) ∧
      st.origin = some account ∧ account.tokens = some (token, balance) ∧
      (∀ r ∈ recipients, 0 ≤ r.amount) ∧
      Effect st st' [account.withBalance (balance - (recipients.map (·.amount)).sum)]
        (deposits token false recipients) := by
  generalize hp : execute c anchorPool d = p at h
  unfold execute at hp
  split at hp
  · rename_i recipients hbody
    subst hp
    rw [Proc.get_bind_run] at h
    cases horigin : st.origin with
    | none => simp [horigin] at h
    | some account =>
      cases htokens : account.tokens with
      | none => simp [horigin, htokens] at h
      | some tokens =>
        obtain ⟨token, balance⟩ := tokens
        simp only [horigin, htokens] at h
        obtain ⟨total, htotal, h⟩ := Proc.lift_bind_eq_ok.1 h
        obtain ⟨rfl, hamounts⟩ := totalAmount_eq_ok htotal
        refine ⟨recipients, account, token, balance, hbody, rfl, htokens, hamounts, ?_⟩
        by_cases hdebit : Account.canDebitTokens balance (recipients.map (·.amount)).sum = true
        · rw [Account.debitTokens, if_pos hdebit] at h
          obtain ⟨_, st₁, hupdate, h⟩ := Proc.bind_eq_ok.1 h
          obtain ⟨_, st₂, hsubmit, h⟩ := Proc.bind_eq_ok.1 h
          obtain ⟨_, -, h⟩ := Proc.query_bind_eq_ok.1 h
          cases h
          exact (effect_updateOrigin horigin (Account.url_withBalance _ _) hupdate).trans
            (effect_submitDeposits (fun _ => by simp) hsubmit)
        · rw [Account.debitTokens, if_neg hdebit] at h
          cases h
  · subst hp
    cases h

/-- **A successful issue** adds to the issued amount and submits a deposit for every
recipient. -/
theorem IssueTokens.execute_eq_ok (h : execute c d st = (.ok r, st')) :
    ∃ recipient amount rest account issued,
      d.transaction.body = .payload (.issueTokens recipient amount rest) ∧
      st.origin = some account ∧ account.issued = some issued ∧
      (∀ r ∈ normalize recipient amount rest, 0 ≤ r.amount) ∧
      Effect st st'
        [account.withIssued (issued + ((normalize recipient amount rest).map (·.amount)).sum)]
        (deposits account.url true (normalize recipient amount rest)) := by
  generalize hp : execute c d = p at h
  unfold execute at hp
  split at hp
  · rename_i recipient amount rest hbody
    subst hp
    rw [Proc.get_bind_run] at h
    cases horigin : st.origin with
    | none => simp [horigin] at h
    | some account =>
      simp only [horigin] at h
      cases account with
      | tokenIssuer u auth symbol precision issued supplyLimit =>
        obtain ⟨_, -, h⟩ := Proc.lift_bind_eq_ok.1 h
        obtain ⟨total, htotal, h⟩ := Proc.lift_bind_eq_ok.1 h
        obtain ⟨rfl, hamounts⟩ := totalAmount_eq_ok htotal
        refine ⟨recipient, amount, rest, _, issued, hbody, rfl, rfl, hamounts, ?_⟩
        match hissue : (Account.tokenIssuer u auth symbol precision issued supplyLimit).issue
            issued ((normalize recipient amount rest).map (·.amount)).sum supplyLimit with
        | (account', false) => simp [hissue] at h
        | (account', true) =>
          rw [hissue] at h
          obtain rfl := (Prod.mk.inj hissue).1
          obtain ⟨_, st₁, hupdate, h⟩ := Proc.bind_eq_ok.1 h
          obtain ⟨_, st₂, hsubmit, h⟩ := Proc.bind_eq_ok.1 h
          cases h
          exact (effect_updateOrigin horigin (Account.url_withIssued _ _) hupdate).trans
            (effect_submitDeposits (fun _ => by simp) hsubmit)
      | _ => cases h
  · subst hp
    cases h

/-- **A successful burn** debits the principal and submits a burn to the issuer of its
token. -/
theorem BurnTokens.execute_eq_ok (h : execute c d st = (.ok r, st')) :
    ∃ amount account token balance, d.transaction.body = .payload (.burnTokens amount) ∧
      st.origin = some account ∧ account.tokens = some (token, balance) ∧ 0 ≤ amount ∧
      Effect st st' [account.withBalance (balance - amount)]
        [⟨⟨some token, 0, "", []⟩, .payload (.syntheticBurnTokens .empty amount false)⟩] := by
  generalize hp : execute c d = p at h
  unfold execute at hp
  split at hp
  · rename_i amount hbody
    subst hp
    rw [Proc.get_bind_run] at h
    cases horigin : st.origin with
    | none => simp [horigin] at h
    | some account =>
      cases htokens : account.tokens with
      | none => simp [horigin, htokens] at h
      | some tokens =>
        obtain ⟨token, balance⟩ := tokens
        simp only [horigin, htokens] at h
        unfold burn at h
        split at h
        · cases h
        rename_i hamount
        refine ⟨amount, account, token, balance, hbody, rfl, htokens, not_lt.1 hamount, ?_⟩
        split at h
        · cases h
        rename_i hdebit
        rw [Bool.not_eq_true, Bool.not_eq_false'] at hdebit
        rw [Account.debitTokens, if_pos hdebit] at h
        obtain ⟨_, st₁, hsubmit, h⟩ := Proc.bind_eq_ok.1 h
        obtain ⟨_, st₂, hupdate, h⟩ := Proc.bind_eq_ok.1 h
        cases h
        have horigin₁ : st₁.origin = some account := by
          rw [submit_eq_ok hsubmit]
          exact horigin
        exact (effect_submit hsubmit).trans
          (effect_updateOrigin horigin₁ (Account.url_withBalance _ _) hupdate)
  · subst hp
    cases h

namespace SyntheticDepositTokens

variable {c : Crypto} {invalidChecksum : Url → Bool} {st st' : StateManager} {balance : Int}

theorem createLiteIdentity_eq_ok {u : Url} (h : createLiteIdentity c u st = (.ok (), st')) :
    Effect st st' [] [] ∨
      (st.batch.account u).main = none ∧ Effect st st' [.liteIdentity u 0 0] [] := by
  unfold createLiteIdentity at h
  rw [Proc.get_bind_run] at h
  cases hmain : (st.batch.account u).main with
  | none =>
    rw [hmain] at h
    exact .inr ⟨rfl, effect_failedToUpdate h⟩
  | some a =>
    rw [hmain] at h
    cases a with
    | liteIdentity =>
      cases h
      exact .inl (Effect.refl _)
    | _ => cases h

/-- The account a deposit goes to is the principal, or a new lite token account whose
identity may be new, too. -/
theorem findAccount_eq_ok {token : Option Url} {tokenUrl : Url}
    (h : findAccount c invalidChecksum token st = (.ok (account, tokenUrl, balance), st')) :
    token = some tokenUrl ∧ account.tokens = some (tokenUrl, balance) ∧ st'.origin = st.origin ∧
      (st.origin = some account ∧ st' = st ∨
        st.origin = none ∧ account = .liteTokenAccount st.originUrl tokenUrl 0 0 ∧
          (Effect st st' [] [] ∨ (st.batch.account st.originUrl.rootIdentity).main = none ∧
            Effect st st' [.liteIdentity st.originUrl.rootIdentity 0 0] [])) := by
  unfold findAccount at h
  rw [Proc.get_bind_run] at h
  cases horigin : st.origin with
  | some a =>
    cases htokens : a.tokens with
    | none => simp [horigin, htokens] at h
    | some tokens =>
      simp only [horigin, htokens] at h
      split at h
      · cases h
      · rename_i htoken
        cases h
        exact ⟨not_not.1 htoken, htokens, horigin, .inl ⟨rfl, rfl⟩⟩
  | none =>
    rw [horigin] at h
    simp only at h
    unfold createLite at h
    split at h
    · cases h
    split at h
    · cases h
    cases token with
    | none => cases h
    | some token =>
      simp only at h
      split at h
      · cases h
      obtain ⟨_, st₁, hid, h⟩ := Proc.bind_eq_ok.1 h
      cases h
      have hdir := effect_addDirectoryEntry st.originUrl.rootIdentity st.originUrl st₁
      -- no effect gives the state manager a principal
      have hkept : ∀ {l p}, Effect st st₁ l p → st₁.origin = none := fun he =>
        Option.map_eq_none_iff.1 (by rw [he.origin, horigin, Option.map_none])
      rcases createLiteIdentity_eq_ok hid with hid | ⟨hnone, hid⟩
      · exact ⟨rfl, rfl, hkept hid, .inr ⟨rfl, rfl, .inl (hid.trans hdir)⟩⟩
      · exact ⟨rfl, rfl, hkept hid, .inr ⟨rfl, rfl, .inr ⟨hnone, hid.trans hdir⟩⟩⟩

theorem credit_eq_ok (horigin : st.origin = none ∨ st.origin = some account)
    (h : credit c account balance amount st = (.ok r, st')) :
    0 ≤ amount ∧ Effect st st' [account.withBalance (balance + amount)] [] := by
  unfold credit at h
  split at h
  · cases h
  rename_i hamount
  rw [Account.creditTokens, if_neg hamount] at h
  simp only at h
  rw [Proc.modify_bind_run] at h
  obtain ⟨_, st₁, hupdate, h⟩ := Proc.bind_eq_ok.1 h
  cases h
  have hset : Effect st
      { st with origin := st.origin.map fun _ => account.withBalance (balance + amount) } [] [] :=
    effect_origin st (by rcases horigin with h | h <;> simp [h])
  exact ⟨not_lt.1 hamount, hset.trans (effect_failedToUpdate hupdate)⟩

/-- **A successful deposit** credits the principal, or a new lite token account. -/
theorem execute_eq_ok (h : execute c invalidChecksum d st = (.ok r, st')) :
    ∃ origin token amount isIssuer isRefund account balance l,
      d.transaction.body =
        .payload (.syntheticDepositTokens origin (some token) amount isIssuer isRefund) ∧
      0 ≤ amount ∧ account.tokens = some (token, balance) ∧
      (st.origin = some account ∧ l = [] ∨
        st.origin = none ∧ account = .liteTokenAccount st.originUrl token 0 0 ∧
          (l = [] ∨ (st.batch.account st.originUrl.rootIdentity).main = none ∧
            l = [.liteIdentity st.originUrl.rootIdentity 0 0])) ∧
      Effect st st' (account.withBalance (balance + amount) :: l) [] := by
  generalize hp : execute c invalidChecksum d = p at h
  unfold execute at hp
  split at hp
  · rename_i origin token amount isIssuer isRefund hbody
    subst hp
    obtain ⟨⟨account, tokenUrl, balance⟩, st₁, hfind, hrest⟩ := Proc.bind_eq_ok.1 h
    obtain ⟨rfl, htokens, horigin, hfound⟩ := findAccount_eq_ok hfind
    rcases hfound with ⟨hst, rfl⟩ | ⟨hst, haccount, heffect⟩
    · obtain ⟨hamount, hcredit⟩ := credit_eq_ok (.inr hst) hrest
      exact ⟨origin, tokenUrl, amount, isIssuer, isRefund, account, balance, [], hbody, hamount,
        htokens, .inl ⟨hst, rfl⟩, hcredit⟩
    · obtain ⟨hamount, hcredit⟩ := credit_eq_ok (.inl (horigin.trans hst)) hrest
      rcases heffect with heffect | ⟨hnone, heffect⟩
      · exact ⟨origin, tokenUrl, amount, isIssuer, isRefund, account, balance, [], hbody, hamount,
          htokens, .inr ⟨hst, haccount, .inl rfl⟩, heffect.trans hcredit⟩
      · exact ⟨origin, tokenUrl, amount, isIssuer, isRefund, account, balance, _, hbody, hamount,
          htokens, .inr ⟨hst, haccount, .inr ⟨hnone, rfl⟩⟩, heffect.trans hcredit⟩
  · subst hp
    cases h

end SyntheticDepositTokens

/-- **A successful burn at the issuer** subtracts from the issued amount. -/
theorem SyntheticBurnTokens.execute_eq_ok (h : execute c d st = (.ok r, st')) :
    ∃ origin amount isRefund account issued,
      d.transaction.body = .payload (.syntheticBurnTokens origin amount isRefund) ∧
      st.origin = some account ∧ account.issued = some issued ∧ 0 ≤ amount ∧
      Effect st st' [account.withIssued (issued - amount)] [] := by
  generalize hp : execute c d = p at h
  unfold execute at hp
  split at hp
  · rename_i origin amount isRefund hbody
    subst hp
    rw [Proc.get_bind_run] at h
    cases horigin : st.origin with
    | none => simp [horigin] at h
    | some account =>
      cases hissued : account.issued with
      | none => simp [horigin, hissued] at h
      | some issued =>
        simp only [horigin, hissued] at h
        split at h
        · cases h
        rename_i hamount
        obtain ⟨_, st₁, hupdate, h⟩ := Proc.bind_eq_ok.1 h
        cases h
        exact ⟨origin, amount, isRefund, account, issued, hbody, rfl, hissued,
          not_lt.1 hamount, effect_updateOrigin horigin (Account.url_withIssued _ _) hupdate⟩
  · subst hp
    cases h

/-! ## What succeeds -/

theorem StateManager.exists_update {a : Account}
    (hlength : a.url.stringLength ≤ accountUrlMaxLength)
    (hexists : (st.batch.account a.url).main.isSome = true) (hauth : a.fullAuth ≠ some []) :
    ∃ st', update c a st = (.ok (), st') := by
  obtain ⟨st₁, hput⟩ : ∃ st₁, putState a.url a st = (.ok (), st₁) := by
    rcases putState_cases a.url a st with ⟨-, -, hput⟩ | ⟨hwhy, -⟩
    · exact ⟨_, hput⟩
    · exact absurd (hwhy rfl) hauth
  refine ⟨st₁.addChainEntry c a.url .main st₁.txHash, ?_⟩
  unfold update createOrUpdate
  rw [if_neg (not_lt.2 hlength), Proc.get_bind_run]
  simp only [hexists, Bool.not_true, Bool.false_eq_true, and_false, false_and, if_false]
  rw [Proc.bind_run_of_ok (Proc.mapError_run_of_ok hput)]
  rfl

theorem SyntheticDepositTokens.exists_execute {token : Url} {balance : Int} {isIssuer : Bool}
    (hbody : d.transaction.body =
      .payload (.syntheticDepositTokens origin (some token) amount isIssuer isRefund))
    (horigin : st.origin = some account) (htokens : account.tokens = some (token, balance))
    (hamount : 0 ≤ amount) (hlength : account.url.stringLength ≤ accountUrlMaxLength)
    (hexists : (st.batch.account account.url).main.isSome = true)
    (hauth : account.fullAuth ≠ some []) :
    ∃ st', execute c invalidChecksum d st = (.ok none, st') := by
  have hfind : findAccount c invalidChecksum (some token) st =
      (.ok (account, token, balance), st) := by
    unfold findAccount
    rw [Proc.get_bind_run]
    simp only [horigin, htokens, ne_eq]
    rfl
  obtain ⟨st', hupdate⟩ : ∃ st', StateManager.update c (account.withBalance (balance + amount))
      { st with origin := st.origin.map fun _ => account.withBalance (balance + amount) } =
        (.ok (), st') :=
    StateManager.exists_update (by rwa [Account.url_withBalance])
      (by rwa [Account.url_withBalance]) (by rwa [Account.fullAuth_withBalance])
  refine ⟨st', ?_⟩
  unfold execute
  simp only [hbody]
  rw [Proc.bind_run_of_ok hfind]
  unfold credit Account.creditTokens
  rw [if_neg (not_lt.2 hamount), if_neg (not_lt.2 hamount)]
  simp only
  rw [Proc.modify_bind_run, Proc.bind_run_of_ok (Proc.mapError_run_of_ok hupdate)]
  rfl

theorem SyntheticBurnTokens.exists_execute {issued : Int}
    (hbody : d.transaction.body = .payload (.syntheticBurnTokens origin amount isRefund))
    (horigin : st.origin = some account) (hissued : account.issued = some issued)
    (hamount : 0 ≤ amount) (hlength : account.url.stringLength ≤ accountUrlMaxLength)
    (hexists : (st.batch.account account.url).main.isSome = true)
    (hauth : account.fullAuth ≠ some []) : ∃ st', execute c d st = (.ok none, st') := by
  obtain ⟨st', hupdate⟩ : ∃ st', StateManager.update c (account.withIssued (issued - amount))
      { st with origin := some (account.withIssued (issued - amount)) } = (.ok (), st') :=
    StateManager.exists_update (by rwa [Account.url_withIssued])
      (by rwa [Account.url_withIssued]) (by rwa [Account.fullAuth_withIssued])
  have horigin' : Tokens.updateOrigin c (account.withIssued (issued - amount)) st =
      (.ok (), st') := by
    exact Proc.mapError_run_of_ok hupdate
  refine ⟨st', ?_⟩
  unfold execute
  simp only [hbody]
  rw [Proc.get_bind_run]
  simp only [horigin, hissued]
  rw [if_neg (not_lt.2 hamount), Proc.bind_run_of_ok horigin']
  rfl

end Chain
end Accumulate
