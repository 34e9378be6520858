import Accumulate.Block.Delivering
import Accumulate.Block.Processing
import Accumulate.Chain.Tokens

/-!
# What a token transaction does to the tokens

`Database.tokenView` is what the database says about tokens: the token and the balance of
every token account, and the issued amount of every issuer.  `TokenMove` says what each of
the five token transactions is meant to do to the view of its principal and what it
produces.

`processTransaction_tokens` is the link to the code: processing a token transaction leaves
the view alone, or makes the move.  The case that should not be there is the late failure,
where the move is made and the transaction fails: the principal is a network account, and
the check of network accounts comes after the executor's batch has been merged.
-/

namespace Accumulate

open Library Protocol Database Accumulate.Core Chain

/-! ## The view -/

/-- The token and balance an account holds, and the amount it has issued. -/
abbrev TokenView := Option (Url × Int) × Option Int

def tokenViewOf : Option Account → TokenView
  | some a => (a.tokens, a.issued)
  | none => (none, none)

namespace Database

/-- What the database says about the tokens of an account. -/
def tokenView (db : Database) (u : Url) : TokenView := tokenViewOf (db.account u).main

/-- Every account is under its own URL and has passed the checks of `PutState` and of the
commit of an account. -/
def Stored (c : Crypto) (db : Database) : Prop :=
  ∀ u a, (db.account u).main = some a → a.url = u ∧ a.fullAuth ≠ some [] ∧
    a.url.stringLength ≤ accountUrlMaxLength ∧ isValidAccountPath c.isWord a.url.path = true

/-- Nothing is said about tokens that was not said before. -/
def KeepsTokens (c : Crypto) (db db' : Database) : Prop :=
  db.Stored c → db'.Stored c ∧ ∀ u, db'.tokenView u = db.tokenView u

variable {c : Crypto} {db db' : Database}

instance : Std.Refl (KeepsTokens c) := ⟨fun _ h => ⟨h, fun _ => rfl⟩⟩

instance : IsTrans Database (KeepsTokens c) where
  trans _ _ _ hab hbc ha :=
    ⟨(hbc (hab ha).1).1, fun u => ((hbc (hab ha).1).2 u).trans ((hab ha).2 u)⟩

theorem keepsTokens_of_main (h : ∀ u, (db'.account u).main = (db.account u).main) :
    KeepsTokens c db db' := by
  intro hstored
  constructor
  · intro u a ha
    rw [h] at ha
    exact hstored u a ha
  · intro u
    rw [tokenView, h, tokenView]

theorem keepsTokens_updateAccount (u : Url) {f : AccountRecord → AccountRecord}
    (hf : (f (db.account u)).main = (db.account u).main) :
    KeepsTokens c db (db.updateAccount u f) := by
  refine keepsTokens_of_main fun v => ?_
  rw [updateAccount_account]
  split
  · rename_i hv
    rw [hf, hv]
  · rfl

variable {u : Url} {a : Account}

theorem Stored.setMain (hstored : db.Stored c) (hurl : a.url = u)
    (hauth : a.fullAuth ≠ some []) (hlength : a.url.stringLength ≤ accountUrlMaxLength)
    (hpath : isValidAccountPath c.isWord a.url.path = true) : (db.setMain u a).Stored c := by
  intro v b hb
  by_cases hv : v = u
  · subst hv
    rw [Database.setMain, updateAccount_account_self] at hb
    cases hb
    exact ⟨hurl, hauth, hlength, hpath⟩
  · rw [Database.setMain, updateAccount_account_of_ne _ _ _ _ hv] at hb
    exact hstored v b hb

theorem tokenView_setMain (db : Database) (u v : Url) (a : Account) :
    (db.setMain u a).tokenView v = if v = u then (a.tokens, a.issued) else db.tokenView v := by
  by_cases hv : v = u
  · subst hv
    rw [if_pos rfl, tokenView, Database.setMain, updateAccount_account_self, tokenViewOf]
  · rw [if_neg hv, tokenView, Database.setMain, updateAccount_account_of_ne _ _ _ _ hv, tokenView]

theorem keepsTokens_setMain {b : Account} (ha : (db.account u).main = some a)
    (hurl : b.url = a.url) (hauth : b.fullAuth ≠ some []) (htokens : b.tokens = a.tokens)
    (hissued : b.issued = a.issued) : KeepsTokens c db (db.setMain u b) := by
  intro hstored
  obtain ⟨hkeyed, -, hlength, hpath⟩ := hstored u a ha
  rw [← hurl] at hkeyed hlength hpath
  refine ⟨hstored.setMain hkeyed hauth hlength hpath, fun v => ?_⟩
  rw [tokenView_setMain]
  split
  · rename_i hv
    rw [hv, tokenView, ha, tokenViewOf, htokens, hissued]
  · rfl

theorem keepsTokens_removePending (u : Url) (id : TxID) :
    KeepsTokens c db (db.removePending u id) :=
  keepsTokens_updateAccount u rfl

theorem keepsTokens_ledger {ledger : Account} {exchange exchange' : List TransactionExchangeLedger}
    (h : db.getState u = .ok ledger) (hexchange : ledger.exchange = some exchange) :
    KeepsTokens c db (db.setMain ledger.url (ledger.withExchange exchange')) := by
  intro hstored
  have hmain := getState_eq_ok.1 h
  rw [(hstored u ledger hmain).1]
  -- a ledger neither holds nor issues tokens
  refine keepsTokens_setMain hmain (Account.withExchange_url _ _) ?_ ?_ ?_ hstored
  all_goals cases ledger <;> simp_all [Account.exchange, Account.withExchange, Account.fullAuth,
    Account.tokens, Account.issued]

end Database

/-! ## The moves -/

/-- What a token transaction with principal `u` is meant to do: the view of the principal
before and after, and the transactions that are submitted. -/
inductive TokenMove (u : Url) :
    TransactionBody → TokenView → TokenView → List Transaction → Prop where
  | send {token : Url} {balance : Int} {recipients : List TokenRecipient}
      (h : ∀ r ∈ recipients, 0 ≤ r.amount) :
      TokenMove u (.payload (.sendTokens recipients)) (some (token, balance), none)
        (some (token, balance - (recipients.map (·.amount)).sum), none)
        (Tokens.deposits token false recipients)
  | issue {issued : Int} {recipient : Option Url} {amount : Int} {rest : List TokenRecipient}
      (h : ∀ r ∈ IssueTokens.normalize recipient amount rest, 0 ≤ r.amount) :
      TokenMove u (.payload (.issueTokens recipient amount rest)) (none, some issued)
        (none, some (issued + ((IssueTokens.normalize recipient amount rest).map (·.amount)).sum))
        (Tokens.deposits u true (IssueTokens.normalize recipient amount rest))
  | burn {token : Url} {balance amount : Int} (h : 0 ≤ amount) :
      TokenMove u (.payload (.burnTokens amount)) (some (token, balance), none)
        (some (token, balance - amount), none)
        [⟨⟨some token, 0, "", []⟩, .payload (.syntheticBurnTokens .empty amount false)⟩]
  | credit {origin : SyntheticOrigin} {token : Url} {balance amount : Int}
      {isIssuer isRefund : Bool} (h : 0 ≤ amount) :
      TokenMove u (.payload (.syntheticDepositTokens origin (some token) amount isIssuer isRefund))
        (some (token, balance), none) (some (token, balance + amount), none) []
  | create {origin : SyntheticOrigin} {token : Url} {amount : Int} {isIssuer isRefund : Bool}
      (h : 0 ≤ amount) :
      TokenMove u (.payload (.syntheticDepositTokens origin (some token) amount isIssuer isRefund))
        (none, none) (some (token, amount), none) []
  | retire {origin : SyntheticOrigin} {issued amount : Int} {isRefund : Bool} (h : 0 ≤ amount) :
      TokenMove u (.payload (.syntheticBurnTokens origin amount isRefund)) (none, some issued)
        (none, some (issued - amount)) []

def Protocol.TransactionType.movesTokens : TransactionType → Bool
  | .sendTokens | .issueTokens | .burnTokens | .syntheticDepositTokens | .syntheticBurnTokens =>
    true
  | _ => false

/-- The executor runs the token transactions as `Chain.Tokens` has them. -/
def Executor.RunsTokens (x : Executor) (invalidChecksum : Url → Bool) : Prop :=
  ∀ t e, Tokens.executors x.crypto x.describe.anchorPool invalidChecksum t = some e →
    x.executors t = some e

section Writes

variable {c : Crypto} {db : Database} {u : Url} {t : Transaction} {st : StateManager}
variable {a : Account} {rest : List Account} {p : List Transaction} {after : Int}

/-- The writes of a token transaction: the principal and, for a new lite token account, its
identity. -/
structure Writes (c : Crypto) (db : Database) (u : Url) (t : Transaction) (st : StateManager)
    (a : Account) (rest : List Account) (p : List Transaction) : Prop where
  url : a.url = u
  known : (db.account u).main = none ∨ db.tokenView u ≠ (none, none)
  rest_eq : rest = [] ∨ (db.account u).main = none ∧ (db.account u.rootIdentity).main = none ∧
    rest = [.liteIdentity u.rootIdentity 0 0]
  effect : (StateManager.new c db (db.account u).main u t).Effect st (a :: rest) p

theorem Writes.of_balance {token : Url} {balance : Int} (hstored : db.Stored c)
    (horigin : (db.account u).main = some a) (htokens : a.tokens = some (token, balance))
    (hmove : TokenMove u t.body (some (token, balance), none) (some (token, after), none) p)
    (heffect : (StateManager.new c db (db.account u).main u t).Effect st [a.withBalance after] p) :
    ∃ a rest p, Writes c db u t st a rest p ∧
      TokenMove u t.body (db.tokenView u) (a.tokens, a.issued) p := by
  have hissued := Account.issued_of_tokens htokens
  have hview : db.tokenView u = (some (token, balance), none) := by
    rw [tokenView, horigin, tokenViewOf, htokens, hissued]
  refine ⟨_, [], _, ⟨?_, .inr ?_, .inl rfl, heffect⟩, ?_⟩
  · rw [Account.url_withBalance, (hstored u a horigin).1]
  · rw [hview]
    exact fun h => nomatch congrArg Prod.fst h
  · rw [hview, Account.tokens_withBalance htokens, Account.issued_withBalance, hissued]
    exact hmove

theorem Writes.of_issued {issued : Int} (hstored : db.Stored c)
    (horigin : (db.account u).main = some a) (hissued : a.issued = some issued)
    (hmove : TokenMove u t.body (none, some issued) (none, some after) p)
    (heffect : (StateManager.new c db (db.account u).main u t).Effect st [a.withIssued after] p) :
    ∃ a rest p, Writes c db u t st a rest p ∧
      TokenMove u t.body (db.tokenView u) (a.tokens, a.issued) p := by
  have htokens := Account.tokens_of_issued hissued
  have hview : db.tokenView u = (none, some issued) := by
    rw [tokenView, horigin, tokenViewOf, htokens, hissued]
  refine ⟨_, [], _, ⟨?_, .inr ?_, .inl rfl, heffect⟩, ?_⟩
  · rw [Account.url_withIssued, (hstored u a horigin).1]
  · rw [hview]
    exact fun h => nomatch congrArg Prod.snd h
  · rw [hview, Account.tokens_withIssued, htokens, Account.issued_withIssued hissued]
    exact hmove

/-- **What an executor does.**  The account of the principal is written with the view the
move leads to.  Only the identity of a new lite token account may be written besides. -/
theorem Chain.Tokens.execute_move {anchorPool : Url} {invalidChecksum : Url → Bool} {d : Delivery}
    {executor : TransactionExecutor} {r : Option TransactionResult}
    (hexecutor : Tokens.executors c anchorPool invalidChecksum d.type = some executor)
    (hstored : db.Stored c)
    (h : executor.execute (.new d.transaction [])
      (.new c db (db.account u).main u d.transaction) = (.ok r, st)) :
    ∃ a rest p, Writes c db u d.transaction st a rest p ∧
      TokenMove u d.transaction.body (db.tokenView u) (a.tokens, a.issued) p := by
  generalize htype : d.type = t at hexecutor
  cases t with
  | sendTokens =>
    cases hexecutor
    obtain ⟨recipients, account, token, balance, hbody, horigin, htokens, hamounts, heffect⟩ :=
      SendTokens.execute_eq_ok h
    have hbody : d.transaction.body = .payload (.sendTokens recipients) := hbody
    exact Writes.of_balance hstored horigin htokens (hbody ▸ .send hamounts) heffect
  | issueTokens =>
    cases hexecutor
    obtain ⟨recipient, amount, rest, account, issued, hbody, horigin, hissued, hamounts,
      heffect⟩ := IssueTokens.execute_eq_ok h
    have hbody : d.transaction.body = .payload (.issueTokens recipient amount rest) := hbody
    rw [(hstored u account horigin).1] at heffect
    exact Writes.of_issued hstored horigin hissued (hbody ▸ .issue hamounts) heffect
  | burnTokens =>
    cases hexecutor
    obtain ⟨amount, account, token, balance, hbody, horigin, htokens, hamount, heffect⟩ :=
      BurnTokens.execute_eq_ok h
    have hbody : d.transaction.body = .payload (.burnTokens amount) := hbody
    exact Writes.of_balance hstored horigin htokens (hbody ▸ .burn hamount) heffect
  | syntheticDepositTokens =>
    cases hexecutor
    obtain ⟨origin, token, amount, isIssuer, isRefund, account, balance, rest, hbody, hamount,
      htokens, hfound, heffect⟩ := SyntheticDepositTokens.execute_eq_ok h
    have hbody : d.transaction.body =
      .payload (.syntheticDepositTokens origin (some token) amount isIssuer isRefund) := hbody
    rcases hfound with ⟨horigin, rfl⟩ | ⟨hnone, rfl, hrest⟩
    · exact Writes.of_balance hstored horigin htokens (hbody ▸ .credit hamount) heffect
    · have hnone : (db.account u).main = none := hnone
      refine ⟨_, rest, _, ⟨rfl, .inl hnone, ?_, heffect⟩, ?_⟩
      · rcases hrest with rfl | ⟨hroot, rfl⟩
        · exact .inl rfl
        · exact .inr ⟨hnone, hroot, rfl⟩
      · have hnew : db.tokenView u = (none, none) := by
          rw [tokenView, hnone, tokenViewOf]
        cases htokens
        rw [hbody, hnew]
        simp only [zero_add]
        exact .create hamount
  | syntheticBurnTokens =>
    cases hexecutor
    obtain ⟨origin, amount, isRefund, account, issued, hbody, horigin, hissued, hamount,
      heffect⟩ := SyntheticBurnTokens.execute_eq_ok h
    have hbody : d.transaction.body = .payload (.syntheticBurnTokens origin amount isRefund) :=
      hbody
    exact Writes.of_issued hstored horigin hissued (hbody ▸ .retire hamount) heffect
  | _ => cases hexecutor

end Writes

/-! ## Merging the writes -/

section Merge

variable {c : Crypto} {db : Database} {u : Url} {t : Transaction} {st : StateManager}
variable {a : Account} {rest : List Account} {p : List Transaction}

section

variable (h : Writes c db u t st a rest p)

include h

theorem Writes.main_self : (st.batch.account u).main = some a := by
  rw [h.effect.main, List.find?_cons_of_pos (by simp [h.url]), Option.some_or]

variable {w : Url}

theorem Writes.main_of_ne (hw : w ≠ u) :
    (st.batch.account w).main = (db.account w).main ∨
      (db.account w).main = none ∧ w = u.rootIdentity ∧
        (st.batch.account w).main = some (.liteIdentity w 0 0) := by
  rw [h.effect.main, List.find?_cons_of_neg (by simpa [h.url] using Ne.symm hw)]
  rcases h.rest_eq with rfl | ⟨-, hroot, rfl⟩
  · exact .inl rfl
  by_cases hwr : w = u.rootIdentity
  · subst hwr
    exact .inr ⟨hroot, rfl, by simp [Account.url]⟩
  · have hne : ¬ (Account.liteIdentity u.rootIdentity 0 0).url = w := Ne.symm hwr
    exact .inl (by simp [hne, StateManager.new])

theorem Writes.mem_written : w ∈ st.written ↔ w = u ∨ w = u.rootIdentity ∧ rest ≠ [] := by
  rw [h.effect.written]
  rcases h.rest_eq with rfl | ⟨-, -, rfl⟩
  · simp [StateManager.new, h.url, eq_comm]
  · have hid : (Account.liteIdentity u.rootIdentity 0 0).url = u.rootIdentity := rfl
    simp [StateManager.new, h.url, hid, eq_comm]

theorem Writes.eq_of_refused (hw : (st.checkAccount c w).isSome = true) : w = u := by
  by_contra hne
  have hwritten : w ∈ st.written := by
    by_contra hnot
    simp [StateManager.checkAccount, hnot] at hw
  obtain ⟨rfl, hrest⟩ := (h.mem_written.1 hwritten).resolve_left hne
  rcases h.main_of_ne hne with hmain | ⟨-, -, hmain⟩
  · rcases h.rest_eq with rfl | ⟨-, hroot, -⟩
    · exact hrest rfl
    · rw [hroot] at hmain
      simp [StateManager.checkAccount, hmain] at hw
  · -- an identity has an empty path, and its URL has been checked before
    have hlength : u.rootIdentity.stringLength ≤ accountUrlMaxLength := by
      rcases h.rest_eq with rfl | ⟨-, -, rfl⟩
      · exact absurd rfl hrest
      · exact h.effect.length (.liteIdentity u.rootIdentity 0 0) (by simp)
    have haccepted : st.checkAccount c u.rootIdentity = none := by
      unfold StateManager.checkAccount
      rw [if_pos hwritten, hmain]
      exact if_neg (not_lt.2 hlength)
    simp [haccepted] at hw

variable {l : List Url}

theorem Writes.merge (hstored : db.Stored c) (hl : ∀ w ∈ l, st.checkAccount c w = none) :
    (st.mergeAccounts l db).Stored c ∧ ∀ w, (st.mergeAccounts l db).tokenView w =
      if w = u ∧ u ∈ l then (a.tokens, a.issued) else db.tokenView w := by
  constructor
  · intro w b hb
    simp only [StateManager.mergeAccounts] at hb
    split at hb
    · rename_i hw
      have hcheck := hl w hw
      by_cases hwu : w = u
      · subst hwu
        rw [h.main_self] at hb
        cases hb
        have hwritten : w ∈ st.written := h.mem_written.2 (.inl rfl)
        have hlength := h.effect.length a List.mem_cons_self
        refine ⟨h.url, h.effect.auth a List.mem_cons_self, hlength, ?_⟩
        by_contra hpath
        simp [StateManager.checkAccount, hwritten, h.main_self, not_lt.2 hlength, hpath] at hcheck
      · rcases h.main_of_ne hwu with hmain | ⟨-, rfl, hmain⟩
        · rw [hmain] at hb
          exact hstored w b hb
        · rw [hmain] at hb
          cases hb
          have hlength : u.rootIdentity.stringLength ≤ accountUrlMaxLength := by
            rcases h.rest_eq with rfl | ⟨-, -, rfl⟩
            · have hsame := h.effect.main u.rootIdentity
              rw [hmain, List.find?_cons_of_neg (by simpa [h.url] using Ne.symm hwu)] at hsame
              exact (hstored _ _ hsame.symm).2.2.1
            · exact h.effect.length (.liteIdentity u.rootIdentity 0 0) (by simp)
          exact ⟨rfl, by simp [Account.fullAuth], hlength, rfl⟩
    · exact hstored w b hb
  · intro w
    simp only [tokenView, StateManager.mergeAccounts]
    by_cases hwl : w ∈ l
    · rw [if_pos hwl]
      by_cases hwu : w = u
      · subst hwu
        rw [if_pos ⟨rfl, hwl⟩, h.main_self, tokenViewOf]
      rw [if_neg (fun hand => hwu hand.1)]
      rcases h.main_of_ne hwu with hmain | ⟨hnone, -, hmain⟩
      · rw [hmain]
      · rw [hmain, hnone]
        rfl
    · have hnot : ¬ (w = u ∧ u ∈ l) := by
        rintro ⟨rfl, hmem⟩
        exact hwl hmem
      rw [if_neg hwl, if_neg hnot]

theorem Writes.mergeAll (hstored : db.Stored c)
    (htouched : ∀ w ∈ st.touched, w ∈ l) (hl : ∀ w ∈ l, st.checkAccount c w = none) :
    (st.mergeAll l db).Stored c ∧ ∀ w, (st.mergeAll l db).tokenView w =
      if w = u then (a.tokens, a.issued) else db.tokenView w := by
  obtain ⟨hmerged, hview⟩ := h.merge hstored hl
  refine ⟨hmerged, fun w => ?_⟩
  have hu : u ∈ l := htouched u (h.effect.touched u (.inr ⟨a, List.mem_cons_self, h.url⟩))
  have hw : (st.mergeAll l db).tokenView w = (st.mergeAccounts l db).tokenView w := rfl
  rw [hw, hview]
  simp only [hu, and_true]

theorem Writes.executeOperations {st' : StateManager}
    (hops : StateManager.executeOperations c st.operations st = (.ok (), st')) : st = st' := by
  rw [h.effect.operations] at hops
  exact (Prod.mk.inj hops).2

theorem Writes.origin_url (hstored : db.Stored c)
    {b : Account} (hb : st.origin = some b) : b.url = u := by
  have horigin : st.origin.map Account.url = (db.account u).main.map Account.url := h.effect.origin
  rw [hb] at horigin
  obtain ⟨m, hm, hurl⟩ := Option.map_eq_some_iff.1 horigin.symm
  rw [← hurl]
  exact (hstored u m hm).1

theorem Writes.main_systemLedger {ledger : SystemLedger}
    (hw : (db.account w).main = some (.systemLedger ledger)) :
    ((st.mergeAll l db).account w).main = some (.systemLedger ledger) := by
  have hwu : w ≠ u := by
    rintro rfl
    rcases h.known with hnone | hview
    · rw [hnone] at hw
      cases hw
    · rw [tokenView, hw] at hview
      exact hview rfl
  change (if w ∈ l then st.batch.account w else db.account w).main = _
  split
  · rcases h.main_of_ne hwu with hmain | ⟨hnone, -, -⟩
    · rw [hmain, hw]
    · rw [hnone] at hw
      cases hw
  · exact hw

end

end Merge

namespace Executor

variable (x : Executor) {a : Account} {g : GlobalValues}

/-! ## Network accounts -/

/-- The check of network accounts rejects a token transaction: the principal is a network
account of the partition and the update has not been pushed by the directory, or the
directory has no ledger to keep the update in. -/
def RejectsUpdate (d : Delivery) (u : Url) (db : Database) : Prop :=
  (x.describe.nodeUrl []).prefixOf u = true ∧
    (x.describe.networkType ≠ .directory ∧ d.wasProducedByPushedUpdate = false ∨
      x.describe.networkType = .directory ∧
        ∀ ledger, (db.account x.describe.ledger).main ≠ some (.systemLedger ledger))

theorem checkNetworkAccountUpdate_token {body : TransactionBody}
    (h : body.type.movesTokens = true) :
    x.checkNetworkAccountUpdate body a g =
      (.ok (some (String.intercalate "/" a.url.path)), g) := by
  cases body with
  | payload p =>
    cases p with
    | sendTokens | issueTokens | burnTokens | syntheticDepositTokens | syntheticBurnTokens => rfl
    | _ => cases h
  | _ => cases h

variable {db : Database} {u : Url}

theorem getStateAs_systemLedger {ledger : SystemLedger}
    (h : db.getStateAs u asSystemLedger = .ok ledger) :
    (db.account u).main = some (.systemLedger ledger) := by
  obtain ⟨a, hmain, has⟩ := getStateAs_eq_ok.1 h
  cases a <;> cases has
  exact hmain

variable {d : Delivery} {db' : Database} {e : Error} {name : String}

theorem pushNetworkAccountUpdate_keeps
    (h : x.pushNetworkAccountUpdate d name db = (.ok (), db')) : KeepsTokens x.crypto db db' := by
  unfold pushNetworkAccountUpdate at h
  split at h
  · split at h
    · cases h
    · cases h
      exact refl_of _ db
  · obtain ⟨ledger, hledger, h⟩ := Proc.query_bind_eq_ok.1 h
    have hmain := getStateAs_systemLedger (Outcome.mapError_eq_ok.1 hledger)
    obtain ⟨-, hauth, rfl⟩ := putState_eq_ok (Proc.mapError_eq_ok.1 h)
    exact keepsTokens_setMain hmain rfl hauth rfl rfl

theorem pushNetworkAccountUpdate_refused (hstored : db.Stored x.crypto)
    (h : x.pushNetworkAccountUpdate d name db = (.error e, db')) :
    x.describe.networkType ≠ .directory ∧ d.wasProducedByPushedUpdate = false ∨
      x.describe.networkType = .directory ∧
        ∀ ledger, (db.account x.describe.ledger).main ≠ some (.systemLedger ledger) :=
  (pushNetworkAccountUpdate_error_iff.1 ⟨e, congrArg Prod.fst h⟩).imp_right
    (.imp_right fun hnone ledger hledger => hnone ledger hledger (hstored _ _ hledger).1)

variable {s' : Stage} {s : Stage}

theorem processNetworkAccountUpdates_token {principal : Option Account}
    {o : Outcome Error Unit} (htype : d.type.movesTokens = true) (hstored : s.batch.Stored x.crypto)
    (h : x.processNetworkAccountUpdates d principal s = (o, s')) :
    (o = .ok () → KeepsTokens x.crypto s.batch s'.batch) ∧
      ∀ e, o = .error e → ∃ a, principal = some a ∧ x.RejectsUpdate d a.url s.batch := by
  unfold processNetworkAccountUpdates at h
  cases principal with
  | none =>
    cases h
    exact ⟨fun _ => refl_of _ _, nofun⟩
  | some a =>
    simp only at h
    split at h
    · cases h
      exact ⟨fun _ => refl_of _ _, nofun⟩
    rename_i hguard
    have hnode : (x.describe.nodeUrl []).prefixOf a.url = true := by
      by_contra hnot
      exact hguard (.inl (by simpa using hnot))
    have hcheck : x.checkNetworkAccountUpdate d.transaction.body a s.pending = _ :=
      x.checkNetworkAccountUpdate_token htype
    rw [Proc.bind_run, Stage.onPending_run, hcheck] at h
    cases h
    constructor
    · intro hok
      exact x.pushNetworkAccountUpdate_keeps (Prod.ext hok rfl)
    · intro e he
      exact ⟨a, rfl, hnode, x.pushNetworkAccountUpdate_refused hstored (Prod.ext he rfl)⟩

variable {x} {p : List Transaction} in
/-- If the check of network accounts fails after the writes of a token transaction have been
merged, it rejects the transaction. -/
theorem rejectsUpdate_of_writes {st : StateManager} {rest : List Account}
    (hwrites : Writes x.crypto db u d.transaction st a rest p) (htype : d.type.movesTokens = true)
    (hstored : db.Stored x.crypto)
    (hall : ∀ v ∈ x.commitOrder st.touched, st.checkAccount x.crypto v = none)
    (hnet : x.processNetworkAccountUpdates d st.origin
      ⟨st.mergeAll (x.commitOrder st.touched) db, g⟩ = (.error e, s')) :
    x.RejectsUpdate d u db := by
  obtain ⟨hmerged, -⟩ :=
    hwrites.mergeAll hstored (fun w hw => (x.mem_commitOrder _ w).2 hw) hall
  obtain ⟨b, hb, hnode, hreject⟩ :=
    (x.processNetworkAccountUpdates_token htype hmerged hnet).2 e rfl
  rw [hwrites.origin_url hstored hb] at hnode
  refine ⟨hnode, hreject.imp_right fun ⟨hdir, hnone⟩ => ⟨hdir, fun ledger hledger => ?_⟩⟩
  exact hnone ledger (hwrites.main_systemLedger hledger)

/-! ## The execution stages -/

section Stages

variable {x} {invalidChecksum : Url → Bool} {d : Delivery} {status : TransactionStatus}
variable {db : Database} {u : Url} {g : GlobalValues} {s' : Stage}
  {result : Option TransactionResult}

def MovedTo (d : Delivery) (u : Url) (db db' : Database) (p : List Transaction) : Prop :=
  ∃ v, TokenMove u d.transaction.body (db.tokenView u) v p ∧
    ∀ w, db'.tokenView w = if w = u then v else db.tokenView w

variable (hx : x.RunsTokens invalidChecksum) (htype : d.type.movesTokens = true)
  (hstored : db.Stored x.crypto)

include hx htype hstored

theorem runExecutor_writes {st : StateManager}
    (h : x.runExecutor db d status (db.account u).main u = .ok (result, st)) :
    ∃ a rest p, Writes x.crypto db u d.transaction st a rest p ∧
      TokenMove u d.transaction.body (db.tokenView u) (a.tokens, a.issued) p := by
  obtain ⟨executor, hexecutor, hrun⟩ := x.runExecutor_eq_ok h
  obtain ⟨e, he⟩ : ∃ e, Tokens.executors x.crypto x.describe.anchorPool invalidChecksum d.type =
      some e := by
    generalize d.type = t at htype
    cases t <;> first | exact ⟨_, rfl⟩ | cases htype
  obtain rfl : e = executor := by
    rw [hx _ e he] at hexecutor
    exact Option.some.inj hexecutor
  exact Tokens.execute_move he hstored hrun

theorem executeStages_move {state : ProcessTransactionState}
    (h : x.executeStages d status (db.account u).main u ⟨db, g⟩ = (.ok (result, state), s')) :
    s'.batch.Stored x.crypto ∧ MovedTo d u db s'.batch state.producedTxns := by
  obtain ⟨st₀, st, hrun, hops, hall, rfl, hnet⟩ := executeStages_eq_ok h
  obtain ⟨a, rest, p, hwrites, hmove⟩ := runExecutor_writes hx htype hstored hrun
  obtain rfl := hwrites.executeOperations hops
  obtain ⟨hmerged, hview⟩ :=
    hwrites.mergeAll hstored (fun w hw => (x.mem_commitOrder _ w).2 hw) hall
  obtain ⟨hs', hsame⟩ := (x.processNetworkAccountUpdates_token htype hmerged hnet).1 rfl hmerged
  refine ⟨hs', (a.tokens, a.issued), ?_, fun w => (hsame w).trans (hview w)⟩
  have hproduced : st₀.state.producedTxns = p := hwrites.effect.produced
  rwa [hproduced]

/-- A token transaction that fails has not moved anything, unless the check of network
accounts has rejected it. -/
theorem executeStages_fails
    (h : x.executeStages d status (db.account u).main u ⟨db, g⟩ = (.error e, s')) :
    s'.batch.Stored x.crypto ∧ ((∀ w, s'.batch.tokenView w = db.tokenView w) ∨
      x.RejectsUpdate d u db ∧ ∃ p, MovedTo d u db s'.batch p) := by
  rcases executeStages_error h with rfl | ⟨result, st₀, st, hrun, hops, hcommit⟩
  · exact ⟨hstored, .inl fun _ => rfl⟩
  obtain ⟨a, rest, p, hwrites, hmove⟩ := runExecutor_writes hx htype hstored hrun
  obtain rfl := hwrites.executeOperations hops
  rcases hcommit with ⟨visited, v, tail, -, hvisited, hv, rfl⟩ | ⟨hall, hnet⟩
  · -- the principal has been refused, so it is not among the accounts that were merged
    obtain rfl := hwrites.eq_of_refused hv
    have hnot : v ∉ visited := fun hmem => by simp [hvisited v hmem] at hv
    obtain ⟨hmerged, hview⟩ := hwrites.merge hstored hvisited
    refine ⟨hmerged, .inl fun w => ?_⟩
    rw [hview, if_neg fun hand => hnot hand.2]
  · obtain ⟨hmerged, hview⟩ :=
      hwrites.mergeAll hstored (fun w hw => (x.mem_commitOrder _ w).2 hw) hall
    have hbatch := (processNetworkAccountUpdates_error x hnet).2
    rw [hbatch]
    exact ⟨hmerged, .inr ⟨rejectsUpdate_of_writes hwrites htype hstored hall hnet, p,
      (a.tokens, a.issued), hmove, hview⟩⟩

end Stages

/-! ## Recording -/

section Recording

variable {x} {d : Delivery} {u : Url} {db db' : Database} {status : TransactionStatus}
variable {state : ProcessTransactionState} {t : Transaction}

theorem keepsTokens_loadStatus
    (h : x.loadStatus t db = (.ok status, db')) : KeepsTokens x.crypto db db' :=
  keepsTokens_of_main fun v => by rw [(loadStatus_eq_ok h).1]

theorem delivered_of_failed (h : status.failed = true) : status.delivered = true := by
  rw [TransactionStatus.delivered, h, Bool.or_true]

variable {state₀ : ProcessTransactionState} {invalidChecksum : Url → Bool}

theorem keepsTokens_recordTransaction {f : TransactionStatus → TransactionStatus}
    (h : x.recordTransaction d state₀ f db = (.ok (status, state), db')) :
    KeepsTokens x.crypto db db' := by
  have hstore : KeepsTokens x.crypto db ((db.putTransaction (x.getHash d.transaction)
      ⟨some d.transaction, none, none⟩).setStatus (x.getHash d.transaction) status) :=
    keepsTokens_of_main fun _ => rfl
  rcases (recordTransaction_eq_ok x h).2 with ⟨-, rfl⟩ | hsequence
  · exact hstore
  obtain ⟨ledger, exchange, source, partLedger, dirty, next, hget, hexchange, -, -, rfl, -, -⟩ :=
    x.recordSequence_eq_ok hsequence
  split
  · exact keepsTokens_ledger hget hexchange
  · exact refl_of (KeepsTokens x.crypto) _

theorem keepsTokens_recordPendingTransaction
    (h : x.recordPendingTransaction d u db = (.ok (status, state), db')) :
    KeepsTokens x.crypto db db' := by
  obtain ⟨_, hrecord, rfl | ⟨v, f, rfl, hf⟩⟩ := recordPendingTransaction_eq_ok h
  · exact keepsTokens_recordTransaction hrecord
  · exact trans_of _ (keepsTokens_recordTransaction hrecord)
      (keepsTokens_updateAccount _ (hf _))

theorem keepsTokens_recordSuccessfulTransaction {result : Option TransactionResult}
    (h : x.recordSuccessfulTransaction d u state₀ result db = (.ok (status, state), db')) :
    KeepsTokens x.crypto db db' := by
  obtain ⟨_, _, hrecord, -, -, rfl | rfl⟩ := x.recordSuccessfulTransaction_eq_ok h
  · exact keepsTokens_recordTransaction hrecord
  refine trans_of _ (keepsTokens_recordTransaction hrecord) ?_
  refine trans_of _ (keepsTokens_removePending u (x.crypto.id d.transaction)) ?_
  exact keepsTokens_of_main fun v => StateManager.main_addChainEntry _ _ _ _ _ _ _

theorem keepsTokens_recordFailedTransaction
    (h : x.recordFailedTransaction d u e db = (.ok (status, state), db')) :
    KeepsTokens x.crypto db db' := by
  obtain ⟨_, _, db₁, _, hrecord, -, rfl, -, -⟩ := recordFailedTransaction_eq_ok h
  exact trans_of _ (keepsTokens_recordTransaction hrecord) (keepsTokens_removePending u _)

/-- What is sent back when a deposit fails. -/
def returned : TransactionBody → List Transaction
  | .payload (.syntheticDepositTokens ⟨some cause, _, _⟩ token amount isIssuer false) =>
    [⟨⟨some cause.account, 0, "", []⟩, SyntheticDepositTokens.refund token amount isIssuer⟩]
  | _ => []

/-- The transaction pays out credits. -/
def IsCreditRefund (t : Transaction) : Prop := ∃ amount, t.body = refundBody amount

theorem didFail_returned {state₁ : ProcessTransactionState}
    (hx : x.RunsTokens invalidChecksum) (htype : d.type.movesTokens = true)
    (h : match (x.executors d.type).bind (·.didFail) with
      | some didFail => didFail state₀ d.transaction = .ok state₁
      | none => state₀ = state₁) :
    state₁.producedTxns = state₀.producedTxns ++ returned d.transaction.body := by
  have hdid : ∀ {e : TransactionExecutor},
      Tokens.executors x.crypto x.describe.anchorPool invalidChecksum d.type = some e →
        (x.executors d.type).bind (·.didFail) = e.didFail := by
    intro e he
    rw [hx _ e he]
    rfl
  change d.transaction.body.type.movesTokens = true at htype
  change ∀ {e : TransactionExecutor}, Tokens.executors x.crypto x.describe.anchorPool
    invalidChecksum d.transaction.body.type = some e → _ at hdid
  cases hbody : d.transaction.body with
  | payload p =>
    rw [hbody] at htype hdid
    cases p with
    | sendTokens | issueTokens | burnTokens | syntheticBurnTokens =>
      rw [hdid rfl] at h
      have hsame : state₀ = state₁ := h
      rw [← hsame]
      exact (List.append_nil _).symm
    | syntheticDepositTokens origin token amount isIssuer isRefund =>
      rw [hdid rfl] at h
      have hret : SyntheticDepositTokens.didFail state₀ d.transaction = .ok state₁ := h
      unfold SyntheticDepositTokens.didFail at hret
      rw [hbody] at hret
      obtain ⟨cause, initiator, feeRefund⟩ := origin
      cases isRefund with
      | true =>
        cases hret
        cases cause <;> exact (List.append_nil _).symm
      | false =>
        cases cause with
        | none => cases hret
        | some cause =>
          cases hret
          rfl
    | _ => cases htype
  | _ =>
    rw [hbody] at htype
    cases htype

/-- **What a failed token transaction produces**: refunds of credits and what is sent back.
A deposit that is to be sent back knows where it came from. -/
theorem recordFailedTransaction_produced
    (hx : x.RunsTokens invalidChecksum) (htype : d.type.movesTokens = true)
    (h : x.recordFailedTransaction d u e db = (.ok (status, state), db')) :
    ∃ l l', state.producedTxns = l ++ returned d.transaction.body ++ l' ∧
      ∀ t ∈ l ++ l', IsCreditRefund t := by
  obtain ⟨state₁, state₂, db₁, r, hrecord, hfail, -, -, rfl⟩ := recordFailedTransaction_eq_ok h
  have hnil : state₁.producedTxns = [] := x.recordTransaction_producedTxns hrecord
  -- the refund of the origin comes first
  obtain ⟨l, hl, hcredits⟩ : ∃ l, (originRefund d.transaction.body state₁).producedTxns = l ∧
      ∀ t ∈ l, IsCreditRefund t := by
    unfold originRefund
    split
    · split
      · refine ⟨_, rfl, fun t ht => ?_⟩
        simp only [ProcessTransactionState.didProduceTxn, hnil, List.nil_append,
          List.mem_singleton] at ht
        exact ⟨_, by rw [ht]⟩
      · exact ⟨[], hnil, List.forall_mem_nil _⟩
    · exact ⟨[], hnil, List.forall_mem_nil _⟩
  have hreturned : state₂.producedTxns = l ++ returned d.transaction.body := by
    rw [← hl]
    exact didFail_returned hx htype hfail
  cases r with
  | none =>
    exact ⟨l, [], by rw [List.append_nil]; exact hreturned, by simpa using hcredits⟩
  | some refund =>
    refine ⟨l, [_], by rw [← hreturned]; rfl, fun t ht => ?_⟩
    rcases List.mem_append.1 ht with ht | ht
    · exact hcredits t ht
    · exact ⟨_, by rw [List.mem_singleton.1 ht]⟩

end Recording

/-! ## What cannot fail -/

/-- A burn that has reached the issuer, or a deposit that has reached an account of its
token. -/
inductive Receivable : TransactionBody → TokenView → Prop where
  | burn {origin : SyntheticOrigin} {issued amount : Int} {isRefund : Bool} (h : 0 ≤ amount) :
      Receivable (.payload (.syntheticBurnTokens origin amount isRefund)) (none, some issued)
  | deposit {origin : SyntheticOrigin} {token : Url} {balance amount : Int}
      {isIssuer isRefund : Bool} (h : 0 ≤ amount) :
      Receivable (.payload (.syntheticDepositTokens origin (some token) amount isIssuer isRefund))
        (some (token, balance), none)

section Receivable

variable {x} {invalidChecksum : Url → Bool} {d : Delivery} {status : TransactionStatus}
variable {db : Database} {u : Url}

theorem Receivable.exists_main {body : TransactionBody} (h : Receivable body (db.tokenView u)) :
    ∃ a, (db.account u).main = some a := by
  cases hmain : (db.account u).main with
  | none =>
    rw [tokenView, hmain] at h
    cases h
  | some a => exact ⟨a, rfl⟩

theorem exists_runExecutor (hx : x.RunsTokens invalidChecksum) (hstored : db.Stored x.crypto)
    (hreceivable : Receivable d.transaction.body (db.tokenView u))
    (hcheck : checkSynthetic db d status = .ok ()) :
    ∃ r, x.runExecutor db d status (db.account u).main u = .ok r := by
  obtain ⟨a, hmain⟩ := hreceivable.exists_main
  rw [hmain]
  rw [tokenView, hmain] at hreceivable
  obtain ⟨rfl, hauth, hlength, -⟩ := hstored u a hmain
  have hexists : (db.account a.url).main.isSome = true := by rw [hmain]; rfl
  have hrun : ∃ executor st, x.executors d.type = some executor ∧ d.type.isUser = false ∧
      executor.execute (.new d.transaction [])
        (.new x.crypto db (some a) a.url d.transaction) = (.ok none, st) := by
    have horigin : (StateManager.new x.crypto db (some a) a.url d.transaction).origin =
        some a := rfl
    generalize hbody : d.transaction.body = body at hreceivable
    generalize hview : tokenViewOf (some a) = view at hreceivable
    cases hreceivable with
    | burn hamount =>
      have htype : d.type = .syntheticBurnTokens := congrArg TransactionBody.type hbody
      obtain ⟨st, hexec⟩ := SyntheticBurnTokens.exists_execute hbody horigin
        (congrArg Prod.snd hview) hamount hlength hexists hauth
      exact ⟨_, st, hx _ _ (by rw [htype]; rfl), by rw [htype]; rfl, hexec⟩
    | deposit hamount =>
      have htype : d.type = .syntheticDepositTokens := congrArg TransactionBody.type hbody
      obtain ⟨st, hexec⟩ := SyntheticDepositTokens.exists_execute hbody horigin
        (congrArg Prod.fst hview) hamount hlength hexists hauth
      exact ⟨_, st, hx _ _ (by rw [htype]; rfl), by rw [htype]; rfl, hexec⟩
  obtain ⟨executor, st, hexecutor, huser, hexec⟩ := hrun
  have hload : StateManager.load x.crypto db (some a) a.url d.transaction status =
      .ok (.new x.crypto db (some a) a.url d.transaction) := by
    unfold StateManager.load
    rw [if_neg (by rw [Bool.not_eq_true]; exact huser)]
  unfold runExecutor
  rw [hcheck, hload]
  simp [hexecutor, hexec]

theorem Receivable.movesTokens {body : TransactionBody} {view : TokenView}
    (h : Receivable body view) : body.type.movesTokens = true := by
  cases h <;> rfl

theorem executeStages_receives (hx : x.RunsTokens invalidChecksum) (hstored : db.Stored x.crypto)
    (hreceivable : Receivable d.transaction.body (db.tokenView u))
    (hcheck : checkSynthetic db d status = .ok ())
    (h : x.executeStages d status (db.account u).main u ⟨db, g⟩ = (.error e, s')) :
    x.RejectsUpdate d u db := by
  have htype : d.type.movesTokens = true := hreceivable.movesTokens
  obtain ⟨⟨result, st⟩, hrun⟩ := exists_runExecutor hx hstored hreceivable hcheck
  obtain ⟨a, rest, p, hwrites, -⟩ := runExecutor_writes hx htype hstored hrun
  have hops : StateManager.executeOperations x.crypto st.operations st = (.ok (), st) := by
    rw [hwrites.effect.operations]
    rfl
  -- the principal has the path it was stored under
  have hprincipal : st.checkAccount x.crypto u = none := by
    have hpath : isValidAccountPath x.crypto.isWord u.path = true := by
      obtain ⟨b, hmain⟩ := hreceivable.exists_main
      obtain ⟨hurl, -, -, hpath⟩ := hstored u b hmain
      rwa [← hurl]
    have hlength := hwrites.effect.length a List.mem_cons_self
    unfold StateManager.checkAccount
    rw [if_pos (hwrites.mem_written.2 (.inl rfl)), hwrites.main_self]
    simp only
    rw [if_neg (not_lt.2 hlength), hwrites.url, if_pos hpath]
  have hall : ∀ v ∈ x.commitOrder st.touched, st.checkAccount x.crypto v = none := by
    intro v _
    by_contra hsome
    have hv : v = u := hwrites.eq_of_refused (Option.isSome_iff_ne_none.2 hsome)
    exact hsome (hv ▸ hprincipal)
  rw [executeStages_merged hrun hops hall] at h
  rcases Proc.bind_eq_error h with hnet | ⟨_, s₂, -, h⟩
  · exact rejectsUpdate_of_writes hwrites htype hstored hall hnet
  · cases h

end Receivable

/-! ## Processing -/

/-- A synthetic transaction has been delivered as it should: if it is ready, it has all the
right signatures, and nothing but an earlier execution keeps it from getting ready. -/
def Verified (d : Delivery) (u : Url) (db : Database) : Prop :=
  ∀ status db', x.loadStatus d.transaction db = (.ok status, db') →
    (∀ e, x.transactionIsReady db' d status (db'.account u).main = .error e →
      e.is .delivered = true) ∧
    (x.transactionIsReady db' d status (db'.account u).main = .ok true →
      checkSynthetic db' d status = .ok ())

/-- What processing a token transaction leads to, in terms of the view, of whether the
transaction counts as executed, and of what it produces. -/
inductive TokenOutcome (d : Delivery) (u : Url) (db : Database) :
    Bool → List Transaction → Database → Prop where
  /-- The transaction has not been executed this time. -/
  | waits {db' : Database} {delivered : Bool}
      (hdelivered : delivered = true →
        (db.transaction (x.getHash d.transaction)).status.delivered = true)
      (hview : ∀ w, db'.tokenView w = db.tokenView w) :
      TokenOutcome d u db delivered [] db'
  /-- The transaction has failed, and nothing has been moved. -/
  | fails {db' : Database} {l l' : List Transaction}
      (hreason : Receivable d.transaction.body (db.tokenView u) → x.Verified d u db →
        x.RejectsUpdate d u db)
      (hview : ∀ w, db'.tokenView w = db.tokenView w)
      (hcredits : ∀ t ∈ l ++ l', IsCreditRefund t) :
      TokenOutcome d u db true (l ++ returned d.transaction.body ++ l') db'
  /-- The transaction has failed after the move was made. -/
  | failsLate {db' : Database} {l l' p : List Transaction}
      (hreject : x.RejectsUpdate d u db) (hmoved : MovedTo d u db db' p)
      (hcredits : ∀ t ∈ l ++ l', IsCreditRefund t) :
      TokenOutcome d u db true (l ++ returned d.transaction.body ++ l') db'
  /-- The transaction has succeeded. -/
  | succeeds {db' : Database} {p : List Transaction} (hmoved : MovedTo d u db db' p) :
      TokenOutcome d u db true p db'

variable {x}

theorem RejectsUpdate.of_main (hmain : ∀ v, (db'.account v).main = (db.account v).main)
    (h : x.RejectsUpdate d u db') : x.RejectsUpdate d u db :=
  ⟨h.1, h.2.imp_right fun ⟨hdir, hnone⟩ => ⟨hdir, fun ledger => by
    rw [← hmain]
    exact hnone ledger⟩⟩

variable {p : List Transaction}

theorem MovedTo.of_view {db₁ db₂ : Database} (hbefore : ∀ w, db₁.tokenView w = db.tokenView w)
    (hafter : ∀ w, db'.tokenView w = db₂.tokenView w) (h : MovedTo d u db₁ db₂ p) :
    MovedTo d u db db' p := by
  obtain ⟨v, hmove, hview⟩ := h
  rw [hbefore] at hmove
  refine ⟨v, hmove, fun w => ?_⟩
  rw [hafter, hview, hbefore]

/-- **Processing a token transaction.** -/
theorem processTransaction_tokens {invalidChecksum : Url → Bool} {status : TransactionStatus}
    {state : ProcessTransactionState} (hx : x.RunsTokens invalidChecksum)
    (htype : d.type.movesTokens = true) (hp : d.transaction.header.principal = some u)
    (hstored : s.batch.Stored x.crypto) (h : x.processTransaction d s = (.ok (status, state), s')) :
    s'.batch.Stored x.crypto ∧
      TokenOutcome x d u s.batch status.delivered state.producedTxns s'.batch := by
  have hprincipal : ∀ {v}, d.transaction.header.principal = some v → v = u := fun hv =>
    Option.some.inj (hv.symm.trans hp)
  cases x.processTransaction_processing h with
  | repeated hp' hload hready he =>
    obtain ⟨hs', hview⟩ := keepsTokens_loadStatus hload hstored
    exact ⟨hs', .waits (fun hdelivered => (delivered_loadStatus hload) ▸ hdelivered) hview⟩
  | waiting hp' hload hready hrecord =>
    obtain ⟨hdb, hload⟩ := keepsTokens_loadStatus hload hstored
    obtain ⟨hs', hview⟩ := keepsTokens_recordPendingTransaction hrecord hdb
    obtain ⟨hcode, hnil⟩ := recordPendingTransaction_status hrecord
    rw [hnil]
    refine ⟨hs', .waits (fun hdelivered => ?_) fun w => (hview w).trans (hload w)⟩
    rw [TransactionStatus.delivered, TransactionStatus.failed, hcode] at hdelivered
    cases hdelivered
  | refused hp' hload hready he hnew hrecord =>
    obtain rfl := hprincipal hp'
    have hverified : ¬ x.Verified d _ s.batch := fun hverified => by
      have hdelivered := (hverified _ _ hload).1 _ hready
      rw [hnew] at hdelivered
      cases hdelivered
    obtain ⟨hdb, hload⟩ := keepsTokens_loadStatus hload hstored
    obtain ⟨hs', hview⟩ := keepsTokens_recordFailedTransaction hrecord hdb
    obtain ⟨l, l', hproduced, hcredits⟩ := recordFailedTransaction_produced hx htype hrecord
    rw [hproduced, delivered_of_failed (recordFailedTransaction_status he hrecord)]
    exact ⟨hs', .fails (fun _ h => absurd h hverified) (fun w => (hview w).trans (hload w))
      hcredits⟩
  | failed hp' hload hready hexec he hrecord =>
    obtain rfl := hprincipal hp'
    have hmain := fun v => congrArg (fun f => (f v).main) (loadStatus_eq_ok hload).1
    have hcheck := fun hverified : x.Verified d _ s.batch => (hverified _ _ hload).2 hready
    obtain ⟨hdb, hload⟩ := keepsTokens_loadStatus hload hstored
    have hreason : Receivable d.transaction.body (s.batch.tokenView _) → x.Verified d _ s.batch →
        x.RejectsUpdate d _ s.batch := fun hreceivable hverified => by
      rw [← hload] at hreceivable
      exact (executeStages_receives hx hdb hreceivable (hcheck hverified) hexec).of_main hmain
    obtain ⟨hs₂, hfailed⟩ := executeStages_fails hx htype hdb hexec
    obtain ⟨hs', hview⟩ := keepsTokens_recordFailedTransaction hrecord hs₂
    obtain ⟨l, l', hproduced, hcredits⟩ := recordFailedTransaction_produced hx htype hrecord
    rw [hproduced, delivered_of_failed (recordFailedTransaction_status he hrecord)]
    rcases hfailed with hsame | ⟨hreject, p, hmoved⟩
    · exact ⟨hs', .fails hreason (fun w => (hview w).trans ((hsame w).trans (hload w)))
        hcredits⟩
    · exact ⟨hs', .failsLate (hreject.of_main hmain) (hmoved.of_view hload hview) hcredits⟩
  | executed hp' hload hready hexec hrecord =>
    obtain rfl := hprincipal hp'
    obtain ⟨hdb, hload⟩ := keepsTokens_loadStatus hload hstored
    obtain ⟨hs₂, hmoved⟩ := executeStages_move hx htype hdb hexec
    obtain ⟨hs', hview⟩ := keepsTokens_recordSuccessfulTransaction hrecord hs₂
    have hcode := recordSuccessfulTransaction_status hrecord
    rw [x.recordSuccessfulTransaction_producedTxns hrecord, TransactionStatus.delivered, hcode]
    exact ⟨hs', .succeeds (hmoved.of_view hload hview)⟩

/-! ## Producing -/

section Producing

variable {source : Transaction} {l l' : List Transaction} {db db' : Database}

theorem productionKeeps_tokens : ProductionKeeps x (KeepsTokens x.crypto) where
  ledger hmain := keepsTokens_setMain hmain rfl nofun rfl rfl
  account _ _ hf := keepsTokens_updateAccount _ (hf _)
  transaction _ _ _ := keepsTokens_of_main fun _ => rfl
  status _ _ _ _ := keepsTokens_of_main fun _ => rfl
  produced _ _ _ := keepsTokens_of_main fun _ => rfl

variable {d : Delivery} {u : Url} {delivered : Bool}

theorem TokenOutcome.of_view {db₁ : Database} (hview : ∀ w, db'.tokenView w = db₁.tokenView w)
    (h : TokenOutcome x d u db delivered p db₁) : TokenOutcome x d u db delivered p db' := by
  cases h with
  | waits hdelivered hsame => exact .waits hdelivered fun w => (hview w).trans (hsame w)
  | fails hreason hsame hcredits =>
    exact .fails hreason (fun w => (hview w).trans (hsame w)) hcredits
  | failsLate hreject hmoved hcredits =>
    exact .failsLate hreject (hmoved.of_view (fun _ => rfl) hview) hcredits
  | succeeds hmoved => exact .succeeds (hmoved.of_view (fun _ => rfl) hview)

theorem TokenOutcome.elsewhere {w : Url} (h : TokenOutcome x d u db delivered p db') (hw : w ≠ u) :
    db'.tokenView w = db.tokenView w := by
  cases h with
  | waits _ hview | fails _ hview _ => exact hview w
  | failsLate _ hmoved _ | succeeds hmoved =>
    obtain ⟨v, -, hview⟩ := hmoved
    rw [hview, if_neg hw]

/-- **Executing a token transaction.**  What it produces is sent, and forwarded signatures
besides. -/
theorem executeSigned_tokens {invalidChecksum : Url → Bool} {status₀ status : TransactionStatus}
    {shouldProcess : Bool} {additional : List Delivery} {b b' : Block}
    (hx : x.RunsTokens invalidChecksum) (htype : d.type.movesTokens = true)
    (hp : d.transaction.header.principal = some u) (hstored : b.batch.Stored x.crypto)
    (h : x.executeSigned d status₀ shouldProcess b = (.ok (status, additional), b')) :
    b'.batch.Stored x.crypto ∧ ∃ delivered p forwards sent,
      TokenOutcome x d u b.batch delivered p b'.batch ∧
      (shouldProcess = true → delivered = status.delivered) ∧
      (∀ t ∈ forwards, t.type.movesTokens = false) ∧
      List.Forall₂ (x.SentAs d.transaction) (p ++ forwards) sent ∧
      b'.state.producedTxns = b.state.producedTxns ++ sent := by
  cases executeSigned_executing h with
  | stopped hr hsame | unforwarded hprocess hremote hr
  | unproduced hprocess hremote hproduce ho hr => exact absurd rfl (hr _)
  | @executed _ state state' b₁ sent db hprocess hremote hproduce =>
    obtain ⟨l, hforwards⟩ := x.processRemoteSignatures_eq_ok hremote
    have hsent := produceSynthetic_eq_ok hproduce
    have hkeeps := productionKeeps_tokens.produceSynthetic hproduce
    have hmoves : ∀ t ∈ l.map (forwardTransaction d.transaction), t.type.movesTokens = false := by
      intro t ht
      obtain ⟨entry, -, rfl⟩ := List.mem_map.1 ht
      rfl
    rw [hforwards] at hsent
    rcases processDelivery_eq_ok hprocess with ⟨-, s', hrun, rfl⟩ | ⟨hnot, rfl, rfl⟩
    · obtain ⟨hs', houtcome⟩ := processTransaction_tokens hx htype hp hstored hrun
      obtain ⟨hb', hview⟩ := hkeeps hs'
      exact ⟨hb', _, _, _, sent, houtcome.of_view hview, fun _ => rfl, hmoves, hsent, rfl⟩
    · obtain ⟨hb', hview⟩ := hkeeps hstored
      refine ⟨hb', false, [], _, sent, .waits (nofun) hview, fun hprocess => ?_,
        hmoves, hsent, rfl⟩
      exact absurd (.inr hprocess) hnot

end Producing

end Executor

end Accumulate
