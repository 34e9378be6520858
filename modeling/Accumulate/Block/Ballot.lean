import Mathlib.Data.Finset.Card
import Accumulate.Block.PendingGlobals
import Accumulate.Block.Signature
import Accumulate.Chain.UpdateKey

/-!
# Counting the signatures of a key page

A transaction is accepted by a key page when as many signatures have been recorded as
the page asks for.  A recorded signature stands for a position in the key list of the
page.  `UpdateKey` moves an entry to another position and keeps the version of the
page, so the records may come to stand for other entries than those that have signed.

* `processSignature_key` says what an accepted key signature does to the page and to
  its signature set, `processTransaction_updateKey` what an update of a key does.
* `Executor.Ballot` follows the identities of the entries through a run of both.
* `Ballot.threshold_le_signed`: as long as updates leave the recorded positions alone,
  a page that is satisfied has been signed by as many different entries as its
  threshold asks for.
-/

namespace Accumulate

open Library Protocol Database Accumulate.Core Chain

/-! ## What is left alone -/

/-- The main states of accounts and the signature sets are the same. -/
structure Database.SameBallots (db db' : Database) : Prop where
  main : ∀ u, (db'.account u).main = (db.account u).main
  signatures : ∀ h, (db'.transaction h).signatures = (db.transaction h).signatures

instance : Std.Refl Database.SameBallots := ⟨fun _ => ⟨fun _ => rfl, fun _ => rfl⟩⟩

instance : IsTrans Database Database.SameBallots :=
  ⟨fun _ _ _ hab hbc => ⟨fun u => (hbc.main u).trans (hab.main u),
    fun h => (hbc.signatures h).trans (hab.signatures h)⟩⟩

namespace Database

theorem sameBallots_setStatus (db : Database) (h : Hash) (s : TransactionStatus) :
    db.SameBallots (db.setStatus h s) :=
  ⟨fun _ => rfl, fun k => setStatus_signatures db h k s⟩

theorem sameBallots_putTransaction (db : Database) (h : Hash) (v : SigOrTxn) :
    db.SameBallots (db.putTransaction h v) := by
  refine ⟨fun _ => rfl, fun k => ?_⟩
  by_cases hk : k = h
  · simp [putTransaction, hk]
  · rw [putTransaction, updateTransaction_transaction_of_ne _ _ _ _ hk]

theorem sameBallots_addEntry (combine : Hash → Hash → Hash) (db : Database) (u : Url)
    (name : ChainName) (entry : Hash) (unique : Bool) :
    db.SameBallots (db.addEntry combine u name entry unique) := by
  refine ⟨fun v => ?_, fun _ => rfl⟩
  by_cases hv : v = u
  · simp [addEntry, updateChain, hv]
  · rw [addEntry, updateChain, updateAccount_account_of_ne _ _ _ _ hv]

theorem sameBallots_removePending (db : Database) (u : Url) (id : TxID) :
    db.SameBallots (db.removePending u id) := by
  refine ⟨fun v => ?_, fun _ => rfl⟩
  by_cases hv : v = u
  · simp [removePending, hv]
  · rw [removePending, updateAccount_account_of_ne _ _ _ _ hv]

theorem sameBallots_addChainEntry (combine : Hash → Hash → Hash) (db : Database)
    (c : ChainUpdates) (u : Url) (name : ChainName) (entry : Hash) :
    db.SameBallots (ChainUpdates.addChainEntry combine db c u name entry).1 := by
  unfold ChainUpdates.addChainEntry
  split
  · exact refl_of _ _
  · exact sameBallots_addEntry _ _ _ _ _ _

theorem keeps_sameBallots_putStatus (h : Hash) (s : TransactionStatus) :
    Proc.Keeps SameBallots (putStatus h s) :=
  keeps_putStatus fun db => sameBallots_setStatus db h s

end Database

/-- The pages differ at most in their credits and in the times their keys were last used. -/
structure Protocol.KeyPage.SamePolicy (p q : KeyPage) : Prop where
  url : q.url = p.url
  acceptThreshold : q.acceptThreshold = p.acceptThreshold
  version : q.version = p.version
  keyHashes : q.keys.map (·.publicKeyHash) = p.keys.map (·.publicKeyHash)

theorem Protocol.KeyPage.entryByKeyHash_lt (p : KeyPage) {keyHash : Bytes} {i : Nat}
    (h : p.entryByKeyHash keyHash = some i) : i < p.keys.length := by
  unfold entryByKeyHash at h
  dsimp only at h
  split at h
  · rename_i hfound
    cases h
    obtain ⟨key, hkey, -⟩ := found_get hfound
    exact (List.getElem?_eq_some_iff.1 hkey).1
  · cases h

namespace Protocol.KeyPage.SamePolicy

variable {p q : KeyPage}

theorem length_keys (h : p.SamePolicy q) : q.keys.length = p.keys.length := by
  have hlen := congrArg List.length h.keyHashes
  simpa using hlen

theorem entryByKeyHash (h : p.SamePolicy q) (keyHash : Bytes) :
    q.entryByKeyHash keyHash = p.entryByKeyHash keyHash := by
  have hform : ∀ r : KeyPage, r.entryByKeyHash keyHash =
      if found (r.keys.map (·.publicKeyHash)) (compare · keyHash) then
        some (search (r.keys.map (·.publicKeyHash)) (compare · keyHash)) else none := by
    intro r
    rw [found_map, search_map]
    rfl
  rw [hform, hform, h.keyHashes]

end Protocol.KeyPage.SamePolicy

namespace Executor

variable (x : Executor)

theorem keeps_sameBallots_loadStatus (t : Transaction) :
    Proc.Keeps SameBallots (x.loadStatus t) := by
  refine .bind .get fun db => .ite ?_ (.pure _)
  exact .bind (keeps_sameBallots_putStatus _ _) fun _ => .pure _

theorem keeps_sameBallots_processSigner (t : Transaction) (signer : Option Url)
    (md : SignatureValidationMetadata) (checkAuthz : Bool) :
    Proc.Keeps SameBallots (x.processSigner t signer md checkAuthz) := by
  refine .bind (.query _) fun signer => ?_
  refine .bind (.lift _) fun isLocal => ?_
  refine .ite (.pure _) (.bind .get fun db => ?_)
  exact .bind (.mapError (keeps_sameBallots_putStatus _ _)) fun _ =>
    .pure _

theorem keeps_sameBallots_addToSignatureChains (d : Delivery) (signer : Signer)
    (md : SignatureValidationMetadata) (isLocalTxn : Bool) (sigHash : Hash) :
    Proc.Keeps SameBallots (x.addToSignatureChains d signer md isLocalTxn sigHash) := by
  have hadd : ∀ u, Proc.Keeps SameBallots
      (Proc.modify (x.addToSignatureChain u sigHash) : Proc Database Error Unit) :=
    fun u => .modify fun db => sameBallots_addEntry _ db u _ _ _
  refine .ite (.pure _) ?_
  refine .bind (.lift _) fun _ => ?_
  refine .bind (.when _ (hadd _)) fun _ => ?_
  split
  · exact .when _ (hadd _)
  · exact .pure _

/-! ## An accepted key signature -/

variable {d : Delivery} {k : KeySignature} {md : SignatureValidationMetadata} {db db' : Database}

/-- Recording a key signature ends with adding it to the signature set; what comes
before leaves accounts and signature sets alone. -/
theorem recordSignature_key {signer : Signer} {r : Option Signer}
    (h : x.recordSignature d (.key k) md signer none db = (.ok r, db')) :
    ∃ db₁, db.SameBallots db₁ ∧
      addSignature x.crypto (x.getHash d.transaction) signer (x.keyEntryIndex signer none (.key k))
        (.key k) db₁ = (.ok (), db') := by
  obtain ⟨isLocal, db₁, status, stored, -, -, hdb, -, hstored, h⟩ := x.recordSignature_eq_ok h
  have k₁ : db.SameBallots db₁ := by
    rcases hdb with rfl | rfl
    · exact refl_of _ _
    · exact sameBallots_putTransaction _ _ _
  obtain rfl : stored = some (.key k) := by simpa [signatureToStore] using hstored.symm
  obtain ⟨status', -, h⟩ := Proc.lift_bind_eq_ok.1 h
  obtain ⟨_, db₂, k₂, h⟩ := Proc.Keeps.bind_eq_ok
    (.when _ (.mapError (keeps_sameBallots_putStatus _ _))) h
  obtain ⟨_, db₃, hstore, h⟩ := Proc.bind_eq_ok.1 h
  obtain ⟨_, db₄, k₄, hstore⟩ := Proc.Keeps.bind_eq_ok
    (.modify fun db => sameBallots_putTransaction db _ _) hstore
  obtain ⟨_, db₅, k₅, hstore⟩ :=
    (x.keeps_sameBallots_addToSignatureChains _ _ _ _ _).bind_eq_ok hstore
  cases h
  exact ⟨db₅, trans_of _ k₁ (trans_of _ k₂ (trans_of _ k₄ k₅)), hstore⟩

variable {t : Transaction} {checkAuthz : Bool} {a : Account} {signerUrl : Option Url}

theorem findSigner_of_validateSigner {location : Option Url}
    (h : x.validateSigner db t signerUrl location checkAuthz md = .ok a) :
    x.findSigner db signerUrl location = .ok a := by
  obtain ⟨signer, hfound, h⟩ := Outcome.bind_eq_ok.1 h
  obtain ⟨fallback, -, h⟩ := Outcome.bind_eq_ok.1 h
  split at h
  · cases h
    exact hfound
  · obtain ⟨_, -, h⟩ := Outcome.bind_eq_ok.1 h
    cases h
    exact hfound

theorem validateSigner_of_processSigner
    (h : x.processSigner t signerUrl md checkAuthz db = (.ok a, db')) :
    x.validateSigner db t signerUrl md.location checkAuthz md = .ok a := by
  obtain ⟨signer, hvalid, h⟩ := Proc.query_bind_eq_ok.1 h
  rw [Outcome.mapError_eq_ok.1 hvalid]
  obtain ⟨isLocal, db₂, -, h⟩ := Proc.bind_eq_ok.1 h
  split at h
  · cases h
    rfl
  obtain ⟨_, db₃, -, h⟩ := Proc.bind_eq_ok.1 h
  obtain ⟨_, db₄, -, h⟩ := Proc.bind_eq_ok.1 h
  cases h
  rfl

/-- The signer after it has paid for a signature. -/
def charged (signer : Account) (fee : Fee) (i : Nat) (k : KeySignature) : Account :=
  if k.timestamp ≠ 0 then (signer.debitCredits fee.toNat).setLastUsedOn i k.timestamp
  else signer.debitCredits fee.toNat

def chargedPage (page : KeyPage) (fee : Fee) (i : Nat) (k : KeySignature) : KeyPage :=
  { page with
    creditBalance := page.creditBalance - fee.toNat
    keys := if k.timestamp = 0 then page.keys
      else page.keys.modify i fun e => { e with lastUsedOn := k.timestamp } }

theorem charged_keyPage (page : KeyPage) (fee : Fee) (i : Nat) (k : KeySignature) :
    charged (.keyPage page) fee i k = .keyPage (chargedPage page fee i k) := by
  unfold charged chargedPage
  by_cases h : k.timestamp = 0
  · simp [h, Account.debitCredits]
  · simp [h, Account.debitCredits, Account.setLastUsedOn]

theorem samePolicy_charged (page : KeyPage) (fee : Fee) (i : Nat) (k : KeySignature) :
    page.SamePolicy (chargedPage page fee i k) := by
  refine ⟨rfl, rfl, rfl, ?_⟩
  unfold chargedPage
  split
  · rfl
  -- only the time of one entry is modified
  apply List.ext_getElem?
  intro j
  simp only [List.getElem?_map, List.getElem?_modify]
  cases page.keys[j]? with
  | none => rfl
  | some key => by_cases hj : i = j <;> simp [hj]

variable {signer : Account} {c : Crypto} {i : Nat} {keyHash : Bytes} {page : KeyPage} {u : Url}
  {location : Option Url}

theorem loadSigner_eq_ok :
    loadSigner db u = .ok a ↔ (db.account u).main = some a ∧ a.isSigner = true := by
  rw [← getState_eq_ok, loadSigner]
  cases db.getState u with
  | ok b =>
    by_cases hb : b.isSigner = true
    · simp only [Outcome.mapError_ok, Outcome.ok_bind, hb, if_true, Outcome.pure_eq_ok]
      exact ⟨fun h => ⟨h, Outcome.ok.inj h ▸ hb⟩, And.left⟩
    · simp only [Outcome.mapError_ok, Outcome.ok_bind, hb]
      exact ⟨nofun, fun h => absurd (Outcome.ok.inj h.1 ▸ h.2) hb⟩
  | error e | panic m => exact ⟨nofun, nofun⟩

/-- A signer with a key is not an unknown one: it is stored at the URL of the signature, or at the
identity of a lite token address. -/
theorem findSigner_eq_ok (h : x.findSigner db signerUrl location = .ok signer)
    (hkey : (Signer.account signer).entryByKeyHash c keyHash = some i) :
    ∃ u, signerUrl = some u ∧
      let v := if x.crypto.isLiteTokenAddress u then u.rootIdentity else u
      (db.account v).main = some signer ∧ signer.isSigner = true ∧
        ∀ db', x.findSigner db' signerUrl location = (loadSigner db' v).mapError .wrap := by
  unfold findSigner at h ⊢
  split at h
  · rename_i u location
    refine ⟨u, rfl, ?_⟩
    dsimp only at h ⊢
    generalize (if x.crypto.isLiteTokenAddress u = true then u.rootIdentity else u) = v at h ⊢
    split at h
    · cases h
      cases hkey
    · rename_i hlocal
      obtain ⟨hmain, hsigns⟩ := loadSigner_eq_ok.1 (Outcome.mapError_eq_ok.1 h)
      exact ⟨hmain, hsigns, fun db' => if_neg hlocal⟩
  · cases h

theorem findSigner_page (hlite : x.crypto.isLiteTokenAddress u = false)
    (hpage : (db.account u).main = some (.keyPage page))
    (hfind : x.findSigner db (some u) location = .ok signer)
    (hkey : (Signer.account signer).entryByKeyHash c keyHash = some i) :
    signer = .keyPage page := by
  obtain ⟨_, hu, hmain, -⟩ := x.findSigner_eq_ok hfind hkey
  cases hu
  rw [hlite, if_neg Bool.false_ne_true, hpage] at hmain
  exact (Option.some.inj hmain).symm

theorem canSign_cases (h : (Signer.account signer).entryByKeyHash c keyHash = some i) :
    (∃ page, signer = .keyPage page) ∨ ∃ u credits t, signer = .liteIdentity u credits t := by
  cases signer with
  | keyPage page => exact .inl ⟨page, rfl⟩
  | liteIdentity u credits t => exact .inr ⟨u, credits, t, rfl⟩
  | _ => cases h

theorem url_charged (signer : Account) (fee : Fee) (i : Nat) (k : KeySignature) :
    (charged signer fee i k).url = signer.url := by
  unfold charged
  split <;> cases signer <;> rfl

theorem putState_charged (hkey : (Signer.account signer).entryByKeyHash c keyHash = some i)
    (fee : Fee) (k : KeySignature) (db : Database) :
    putState (charged signer fee i k).url (charged signer fee i k) db =
      (.ok (), db.setMain signer.url (charged signer fee i k)) := by
  have hauth : (charged signer fee i k).fullAuth = none := by
    unfold charged
    rcases canSign_cases hkey with ⟨page, rfl⟩ | ⟨u, credits, time, rfl⟩
    · split <;> rfl
    · split <;> rfl
  simp [putState, hauth, url_charged]

theorem validateKeyEntry_eq_ok (h : x.validateKeyEntry t signer k = .ok i) :
    (t.type.isUser = true → k.signerVersion = (Signer.account signer).version) ∧
      (Signer.account signer).entryByKeyHash x.crypto (x.crypto.keyHash k) = some i ∧
      (t.type ≠ .acmeFaucet → k.timestamp ≠ 0 → signer.lastUsedOn i < k.timestamp) := by
  unfold validateKeyEntry at h
  obtain ⟨hversion, h⟩ := Outcome.ite_error_eq_ok.1 h
  split at h
  · cases h
  rename_i j hj
  obtain ⟨htime, h⟩ := Outcome.ite_error_eq_ok.1 h
  cases h
  refine ⟨fun hu => ?_, hj, fun htype htimestamp => ?_⟩
  · by_contra hne
    exact hversion ⟨hu, hne⟩
  · by_contra hle
    exact htime ⟨htype, htimestamp, by omega⟩

/-- **What an accepted key signature does to its signer**, for a user transaction: the key
has been found, the fee has been paid and the time of the key has been noted. -/
theorem processKeySignature_user (hu : t.type.isUser = true)
    (h : x.processKeySignature t k md checkAuthz db = (.ok a, db')) :
    ∃ signer i fee db₁,
      x.validateSigner db t k.signer md.location checkAuthz md = .ok signer ∧
      x.validateKeyEntry t signer k = .ok i ∧ x.computeSignerFee t k md = .ok fee ∧
      signer.canDebitCredits fee.toNat = true ∧ a = charged signer fee i k ∧
      db.SameBallots db₁ ∧ db' = db₁.setMain signer.url a := by
  obtain ⟨signer, db₁, hrun, h⟩ := Proc.bind_eq_ok.1 h
  have hrun := Proc.mapError_eq_ok.1 hrun
  obtain ⟨i, hentry, h⟩ := Proc.lift_bind_eq_ok.1 h
  have hentry := Outcome.mapError_eq_ok.1 hentry
  simp only [hu] at h
  obtain ⟨fee, hfee, h⟩ := Proc.lift_bind_eq_ok.1 h
  split at h
  · cases h
  rename_i hpay
  obtain ⟨_, db₂, hput, h⟩ := Proc.bind_eq_ok.1 h
  cases h
  refine ⟨signer, i, fee, db₁, x.validateSigner_of_processSigner hrun, hentry,
    Outcome.mapError_eq_ok.1 hfee, by simpa using hpay, rfl,
    (x.keeps_sameBallots_processSigner _ _ _ _).run hrun, ?_⟩
  have hcharged := putState_charged (x.validateKeyEntry_eq_ok hentry).2.1 fee k db₁
  exact (congrArg Prod.snd (Proc.mapError_eq_ok.1 hput)).symm.trans (congrArg Prod.snd hcharged)

theorem processKeySignature_page (hu : t.type.isUser = true)
    (hsigner : k.signer = some page.url) (hlite : x.crypto.isLiteTokenAddress page.url = false)
    (hpage : (db.account page.url).main = some (.keyPage page))
    (h : x.processKeySignature t k md checkAuthz db = (.ok a, db')) :
    ∃ page' i db₁, a = .keyPage page' ∧ page.SamePolicy page' ∧
      page.entryByKeyHash (x.crypto.keyHash k) = some i ∧ db.SameBallots db₁ ∧
      db' = db₁.setMain page.url (.keyPage page') := by
  obtain ⟨signer, i, fee, db₁, hvalid, hentry, -, -, rfl, hkeep, rfl⟩ :=
    x.processKeySignature_user hu h
  have hkey := (x.validateKeyEntry_eq_ok hentry).2.1
  have hfind := x.findSigner_of_validateSigner hvalid
  rw [hsigner] at hfind
  obtain rfl := x.findSigner_page hlite hpage hfind hkey
  rw [charged_keyPage]
  exact ⟨_, i, db₁, rfl, samePolicy_charged page fee i k, hkey, hkeep, rfl⟩

theorem addSignature_ok {h : Hash} {signer : Signer} {s : Signature}
    (hrun : addSignature c h signer i s db = (.ok (), db')) :
    (∀ u, (db'.account u).main = (db.account u).main) ∧
      (db'.transaction h).signatures signer.url =
        (let r := (db.openSigSet h signer).add (newSigSetEntry c i s) s
         if r.2 then r.1 else (db.transaction h).signatures signer.url) := by
  obtain ⟨_, _, hget, hrun⟩ := Proc.bind_eq_ok.1 hrun
  cases hget
  simp only at hrun ⊢
  split at hrun
  · rename_i hnew
    obtain ⟨_, db₁, hput, hrun⟩ := Proc.bind_eq_ok.1 hrun
    have hkeep := (keeps_sameBallots_putStatus _ _).run hput
    cases hrun
    refine ⟨hkeep.main, ?_⟩
    simp [hnew]
  · rename_i hold
    cases hrun
    refine ⟨fun _ => rfl, ?_⟩
    rw [if_neg hold]

theorem signatureMetadata_key (h : x.signatureMetadata d (.key k) = .ok md) :
    md.location = k.signer ∧ md.delegated = false ∧ md.forwarded = false := by
  obtain ⟨isInitiator, -, h⟩ := Outcome.bind_eq_ok.1 h
  simp only [Signature.isSystem_key, Bool.false_eq_true, if_false, Signature.routingLocation,
    Outcome.ok_bind, Outcome.pure_eq_ok, Outcome.ok.injEq] at h
  subst h
  exact ⟨rfl, rfl, rfl⟩

theorem processSignature_key_user (hu : d.type.isUser = true)
    (h : x.processSignature d (.key k) db = (.ok (), db')) :
    ∃ md checkAuthz a db₁ r, x.checkRouting d (.key k) = .ok () ∧
      x.signatureMetadata d (.key k) = .ok md ∧
      x.crypto.verifyKeySignature k (x.getHash d.transaction) = true ∧
      checkAuthorization d.transaction md = .ok checkAuthz ∧
      x.processKeySignature d.transaction k md checkAuthz db = (.ok a, db₁) ∧
      x.recordSignature d (.key k) md (.account a) none db₁ = (.ok r, db') := by
  obtain ⟨_, hrouting, h⟩ := Proc.lift_bind_eq_ok.1 h
  obtain ⟨md, hmd, h⟩ := Proc.lift_bind_eq_ok.1 h
  obtain ⟨r, db₂, h, hend⟩ := Proc.bind_eq_ok.1 h
  cases hend
  obtain ⟨hlocation, hdelegated, hforwarded⟩ := x.signatureMetadata_key hmd
  change x.processKey d k _ db = _ at h
  unfold processKey at h
  split at h
  · cases h
  rename_i hverify
  obtain ⟨checkAuthz, hauthz, h⟩ := Proc.lift_bind_eq_ok.1 h
  obtain ⟨a, db₁, hkey, h⟩ := Proc.bind_eq_ok.1 h
  simp only [hforwarded] at h
  refine ⟨md, checkAuthz, a, db₁, r, hrouting, hmd, ?_, hauthz, hkey, h⟩
  simpa [SignatureValidationMetadata.nested, hdelegated, hforwarded] using hverify

/-- **An accepted key signature.**  The signer keeps its policy, the key belongs to one of
its entries, and the signature is recorded for the position of that entry. -/
theorem processSignature_key (hu : d.type.isUser = true)
    (hsigner : k.signer = some page.url) (hlite : x.crypto.isLiteTokenAddress page.url = false)
    (hpage : (db.account page.url).main = some (.keyPage page))
    (h : x.processSignature d (.key k) db = (.ok (), db')) :
    ∃ page' i, (db'.account page.url).main = some (.keyPage page') ∧ page.SamePolicy page' ∧
      page.entryByKeyHash (x.crypto.keyHash k) = some i ∧
      (db'.transaction (x.getHash d.transaction)).signatures page.url =
        (let r := (db.openSigSet (x.getHash d.transaction) (.account (.keyPage page))).add
           (newSigSetEntry x.crypto i (.key k)) (.key k)
         if r.2 then r.1 else (db.transaction (x.getHash d.transaction)).signatures page.url) := by
  obtain ⟨md, checkAuthz, a, db₁, r, -, -, -, -, hkey, h⟩ := x.processSignature_key_user hu h
  obtain ⟨page', i, db₀, rfl, hsame, hi, k₀, rfl⟩ :=
    x.processKeySignature_page hu hsigner hlite hpage hkey
  obtain ⟨db₁, k₁, hadd⟩ := x.recordSignature_key h
  obtain ⟨hmain, hset⟩ := addSignature_ok hadd
  have hindex : x.keyEntryIndex (.account (.keyPage page')) none (.key k) = i := by
    change (page'.entryByKeyHash (x.crypto.keyHash k)).getD 0 = i
    rw [hsame.entryByKeyHash, hi]
    rfl
  have hsigs : (db₁.transaction (x.getHash d.transaction)).signatures =
      (db.transaction (x.getHash d.transaction)).signatures :=
    (k₁.signatures _).trans (k₀.signatures _)
  refine ⟨page', i, ?_, hsame, hi, ?_⟩
  · rw [hmain, k₁.main]
    simp [setMain]
  have hurl : (Signer.account (.keyPage page')).url = page.url := hsame.url
  have hopen : db₁.openSigSet (x.getHash d.transaction) (.account (.keyPage page')) =
      db.openSigSet (x.getHash d.transaction) (.account (.keyPage page)) := by
    have hversion : (Signer.account (.keyPage page')).version = page.version := hsame.version
    unfold openSigSet
    rw [hurl, hversion, hsigs]
    rfl
  rw [hurl, hindex, hsigs, hopen] at hset
  exact hset

end Executor

/-! ## A successful update of a key -/

namespace Chain.UpdateKey

variable {c : Crypto}

/-- The page an update is about, the position of the entry, and what the entry becomes. -/
def relocation (c : Crypto) (d : Delivery) (st : StateManager) :
    Outcome Error (KeyPage × Nat × KeySpec) := do
  let (newKeyHash, page, _) ← validate d st
  let old ← oldParams c d st.batch
  match page.findEntry old with
  | none => .error (.plain "entry to be updated not found on the key page")
  | some oldPos =>
    match page.keys[oldPos]? with
    | none => .error (.plain "entry to be updated not found on the key page")
    | some entry => return (page, oldPos, replaceEntry entry ⟨newKeyHash, none⟩ true)

theorem updatedPage_eq_ok {d : Delivery} {st : StateManager} {page' : KeyPage}
    (h : updatedPage c d st = .ok page') :
    ∃ page oldPos entry, relocation c d st = .ok (page, oldPos, entry) ∧
      st.origin = some (.keyPage page) ∧ oldPos < page.keys.length ∧
      page' = (page.removeKeySpecAt oldPos).addKeySpec entry := by
  obtain ⟨⟨newKeyHash, page, auth⟩, hvalid, h⟩ := Outcome.bind_eq_ok.1 h
  obtain ⟨old, hold, h⟩ := Outcome.bind_eq_ok.1 h
  obtain ⟨oldPos, entry, hpos, hentry, -, hpage⟩ := updateKey_eq_ok h
  obtain ⟨hlt, -⟩ := List.getElem?_eq_some_iff.1 hentry
  refine ⟨page, oldPos, _, ?_, (validate_eq_ok hvalid).2.2, hlt, hpage⟩
  simp only [relocation, hvalid, hold, hpos, hentry, Outcome.ok_bind, Outcome.pure_eq_ok]

end Chain.UpdateKey

/-- The executor ends with writing the page it is asked for: it queues no operation and
changes no other account and no signature set. -/
def Chain.WritesPage (execute : Proc StateManager Error (Option TransactionResult))
    (updated : StateManager → Outcome Error KeyPage) : Prop :=
  ∀ st r st', execute st = (.ok r, st') → ∃ page', updated st = .ok page' ∧
    st'.operations = st.operations ∧ page'.url ∈ st'.touched ∧
    (st.batch.setMain page'.url (.keyPage page')).SameBallots st'.batch

theorem Chain.writesPage_update (c : Crypto) (updated : StateManager → Outcome Error KeyPage) :
    WritesPage (do
      let page ← Proc.query updated
      Proc.modify fun st => { st with origin := some (.keyPage page) }
      Proc.mapError (fun _ => .plain "failed to update") (StateManager.update c (.keyPage page))
      return none) updated := by
  intro st r st' h
  obtain ⟨page', hpage, h⟩ := Proc.query_bind_eq_ok.1 h
  rw [Proc.modify_bind_run] at h
  obtain ⟨_, st₃, hupdate, h⟩ := Proc.bind_eq_ok.1 h
  cases h
  obtain ⟨-, -, rfl⟩ := StateManager.update_eq_ok (Proc.mapError_eq_ok.1 hupdate)
  refine ⟨page', hpage, rfl, by simp [StateManager.addChainEntry, StateManager.touch, Account.url],
    ?_⟩
  exact sameBallots_addChainEntry _ _ _ _ _ _

namespace Executor

variable (x : Executor)

variable {d : Delivery} {s s' : Stage} {page : KeyPage} {u : Url}

/-- The update of a network account may be noted in the ledger; key pages and signature sets
stay as they are. -/
theorem processNetworkAccountUpdates_page {principal : Option Account}
    (h : x.processNetworkAccountUpdates d principal s = (.ok (), s'))
    (hpage : (s.batch.account u).main = some (.keyPage page)) :
    (s'.batch.account u).main = some (.keyPage page) ∧
      ∀ k, (s'.batch.transaction k).signatures = (s.batch.transaction k).signatures := by
  unfold processNetworkAccountUpdates at h
  cases principal with
  | none =>
    cases h
    exact ⟨hpage, fun _ => rfl⟩
  | some principal =>
    simp only at h
    split at h
    · cases h
      exact ⟨hpage, fun _ => rfl⟩
    obtain ⟨name, s₁, hcheck, h⟩ := Proc.bind_eq_ok.1 h
    have hbatch : s₁.batch = s.batch := (congrArg Stage.batch (Prod.mk.inj hcheck).2).symm
    cases name with
    | none =>
      cases h
      rw [hbatch]
      exact ⟨hpage, fun _ => rfl⟩
    | some name =>
      obtain ⟨hpush, rfl⟩ := Prod.mk.inj h
      unfold pushNetworkAccountUpdate at hpush ⊢
      rw [hbatch] at hpush ⊢
      by_cases hnet : x.describe.networkType ≠ .directory
      · simp only [hnet, ne_eq, not_false_eq_true, if_true]
        split <;> exact ⟨hpage, fun _ => rfl⟩
      simp only [hnet, if_false] at hpush ⊢
      cases hledger : s.batch.getStateAs x.describe.ledger asSystemLedger with
      | error e | panic m => simp [Proc.bind_run, hledger] at hpush
      | ok ledger =>
        -- a ledger is not a page
        have hne : u ≠ x.describe.ledger := by
          rintro rfl
          simp [getStateAs, getState, hpage, asSystemLedger] at hledger
        simp only [Proc.bind_run, Proc.query_run, hledger, Outcome.mapError_ok,
          Proc.mapError_run, putState]
        split
        · exact ⟨hpage, fun _ => rfl⟩
        · simp only [Account.fullAuth, Proc.modify_run, setMain]
          rw [updateAccount_account_of_ne _ _ _ _ hne]
          exact ⟨hpage, fun _ => rfl⟩

variable {state : ProcessTransactionState} {i oldPos : Nat} {c : Crypto} {entry : KeySpec}
  {ids : List Nat} {k : KeySignature} {status : TransactionStatus}

theorem sameBallots_recordSuccessfulTransaction (hu : d.type.isUser = true)
    {result : Option TransactionResult} {state' : ProcessTransactionState} {db db' : Database}
    (h : x.recordSuccessfulTransaction d u state result db = (.ok (status, state'), db')) :
    db.SameBallots db' := by
  obtain ⟨_, db₁, hrecord, -, -, hdb⟩ := x.recordSuccessfulTransaction_eq_ok h
  have hstore : db.SameBallots db₁ := by
    rw [recordTransaction_user x hu] at hrecord
    rw [← (Prod.mk.inj hrecord).2]
    exact trans_of _ (sameBallots_putTransaction _ _ _) (sameBallots_setStatus _ _ _)
  rcases hdb with rfl | rfl
  · exact hstore
  · exact trans_of _ hstore
      (trans_of _ (sameBallots_removePending _ _ _) (sameBallots_addChainEntry _ _ _ _ _ _))

section Delivered

variable (hp : d.transaction.header.principal = some page.url)
  (hpage : (s.batch.account page.url).main = some (.keyPage page))
  (h : x.processTransaction d s = (.ok (status, state), s')) (hcode : status.code = .delivered)

include hp hpage h hcode

theorem processTransaction_page {e : TransactionExecutor}
    {updated : StateManager → Outcome Error KeyPage} (hx : x.executors d.type = some e)
    (hu : d.type.isUser = true) (hwrites : WritesPage (e.execute (.new d.transaction [])) updated) :
    ∃ status₀ db page', x.loadStatus d.transaction s.batch = (.ok status₀, db) ∧
      updated (.new x.crypto db (some (.keyPage page)) page.url d.transaction) = .ok page' ∧
      (s'.batch.account page'.url).main = some (.keyPage page') ∧
      ∀ k, (s'.batch.transaction k).signatures = (s.batch.transaction k).signatures := by
  obtain ⟨u, status₀, db, result, state₀, s₂, hp', hload, -, hexec, hrecord⟩ :=
    x.processTransaction_delivered hu h hcode
  obtain rfl : page.url = u := Option.some.inj (hp.symm.trans hp')
  have hloaded := (x.keeps_sameBallots_loadStatus d.transaction).run hload
  have hmain : (db.account page.url).main = some (.keyPage page) := by
    rw [hloaded.main, hpage]
  rw [hmain] at hexec
  obtain ⟨st₀, st, hrun, hops, -, -, hnet⟩ := executeStages_eq_ok hexec
  obtain ⟨executor, hexecutor, hrun⟩ := x.runExecutor_eq_ok hrun
  obtain rfl : e = executor := by
    rw [hx] at hexecutor
    exact Option.some.inj hexecutor
  obtain ⟨page', hpage', hop, htouched, hbatch⟩ := hwrites _ _ _ hrun
  -- no operation has been queued, so the state manager is merged as it is
  have hst : st = st₀ := by
    rw [hop] at hops
    exact (Prod.mk.inj hops).2.symm
  subst hst
  have hmerged : ((st.mergeAll (x.commitOrder st.touched) db).account page'.url).main =
      some (.keyPage page') := by
    have hmem : page'.url ∈ x.commitOrder st.touched :=
      (x.mem_commitOrder st.touched page'.url).2 htouched
    simp only [StateManager.mergeAll, StateManager.mergeAccounts, hmem, if_true]
    rw [hbatch.main]
    exact congrArg AccountRecord.main (updateAccount_account_self _ _ _)
  obtain ⟨hkept, hsigs⟩ := x.processNetworkAccountUpdates_page hnet hmerged
  have hrecorded : s₂.batch.SameBallots s'.batch :=
    x.sameBallots_recordSuccessfulTransaction hu
      (Prod.ext (Prod.mk.inj hrecord).1 (congrArg Stage.batch (Prod.mk.inj hrecord).2))
  refine ⟨status₀, db, page', hload, hpage', ?_, fun k => ?_⟩
  · rw [hrecorded.main, hkept]
  · rw [hrecorded.signatures, hsigs]
    exact (hbatch.signatures k).trans (hloaded.signatures k)

/-- **A successful update of a key.**  An entry of the page moves to the place of its new
key hash; no signature set changes. -/
theorem processTransaction_updateKey
    (hx : x.executors .updateKey = some (UpdateKey.executor x.crypto))
    (htype : d.type = .updateKey) :
    ∃ status₀ db oldPos entry,
      x.loadStatus d.transaction s.batch = (.ok status₀, db) ∧
      UpdateKey.relocation x.crypto (.new d.transaction [])
        (.new x.crypto db (some (.keyPage page)) page.url d.transaction) =
          .ok (page, oldPos, entry) ∧
      oldPos < page.keys.length ∧
      (s'.batch.account page.url).main =
        some (.keyPage ((page.removeKeySpecAt oldPos).addKeySpec entry)) ∧
      ∀ k, (s'.batch.transaction k).signatures = (s.batch.transaction k).signatures := by
  rw [← htype] at hx
  obtain ⟨status₀, db, page', hload, hpage', hmain, hsigs⟩ :=
    x.processTransaction_page hp hpage h hcode hx (by rw [htype]; rfl) (writesPage_update _ _)
  obtain ⟨page₀, oldPos, entry, hmoved, horigin, hlt, rfl⟩ := UpdateKey.updatedPage_eq_ok hpage'
  obtain rfl : page = page₀ := by
    simpa [StateManager.new] using horigin
  exact ⟨status₀, db, oldPos, entry, hload, hmoved, hlt, hmain, hsigs⟩

end Delivered

/-! ## Following the entries of a page -/

/-- The identities of the entries of a page after an entry has moved: the identity goes
where the entry goes.  An entry that is already in that place is overwritten. -/
def relocateIds (page : KeyPage) (oldPos : Nat) (entry : KeySpec) (ids : List Nat) : List Nat :=
  let others := (page.removeKeySpecAt oldPos).keys
  let cmp := KeyPage.compareKeySpec entry
  match ids[oldPos]? with
  | none => ids
  | some id =>
    if found others cmp then (ids.eraseIdx oldPos).set (search others cmp) id
    else (ids.eraseIdx oldPos).insertIdx (search others cmp) id

theorem relocateIds_nodup (h : ids.Nodup) : (relocateIds page oldPos entry ids).Nodup := by
  unfold relocateIds
  dsimp only
  split
  · exact h
  rename_i id hid
  obtain ⟨hlt, rfl⟩ := List.getElem?_eq_some_iff.1 hid
  have hcons : (ids[oldPos] :: ids.eraseIdx oldPos).Nodup :=
    (List.getElem_cons_eraseIdx_perm hlt).nodup_iff.2 h
  obtain ⟨hnot, hrest⟩ := List.nodup_cons.1 hcons
  split
  · exact List.Nodup.set hrest hnot
  rcases Nat.lt_or_ge (ids.eraseIdx oldPos).length
      (search (page.removeKeySpecAt oldPos).keys (KeyPage.compareKeySpec entry)) with hgt | hle
  · rwa [List.insertIdx_of_length_lt hgt]
  · exact (List.perm_insertIdx _ _ hle).nodup_iff.2 hcons

theorem length_relocateIds
    (hlen : ids.length = page.keys.length) (hlt : oldPos < page.keys.length) :
    (relocateIds page oldPos entry ids).length =
      ((page.removeKeySpecAt oldPos).addKeySpec entry).keys.length := by
  have hid : ids[oldPos]? = some ids[oldPos] := List.getElem?_eq_getElem _
  have herase : (ids.eraseIdx oldPos).length = (page.removeKeySpecAt oldPos).keys.length := by
    simp only [KeyPage.removeKeySpecAt, List.length_eraseIdx, hlen]
  have hle := search_le (page.removeKeySpecAt oldPos).keys (KeyPage.compareKeySpec entry)
  unfold KeyPage.addKeySpec
  rw [length_upsert]
  simp only [relocateIds, hid]
  split
  · rw [List.length_set, herase]
  · rw [List.length_insertIdx_of_le_length (by omega), herase]

/-- A state of the ledger together with what it does not store: the identities of the
entries of the page, in the order of the page, and the identities that have signed. -/
structure Ballot where
  stage : Stage
  ids : List Nat
  signed : List Nat

def Ballot.recorded (b : Ballot) (h : Hash) (u : Url) : SigSetData :=
  (b.stage.batch.transaction h).signatures u

def Ballot.idOf (b : Ballot) (page : KeyPage) (keyHash : Bytes) : Option Nat :=
  (page.entryByKeyHash keyHash).bind (b.ids[·]?)

def movedIds (u : Url) (d : Delivery) (s : Stage) (ids : List Nat) : List Nat :=
  match x.loadStatus d.transaction s.batch with
  | (.ok _, db) =>
    match UpdateKey.relocation x.crypto (.new d.transaction [])
        (.new x.crypto db (db.account u).main u d.transaction) with
    | .ok (page, oldPos, entry) => relocateIds page oldPos entry ids
    | _ => ids
  | _ => ids

/-- What can happen while the transaction `t` is pending: the page at `u` signs it, a key of
the page is updated, or something else happens that concerns neither the keys of the page
nor its signatures of `t`. -/
inductive Ballot.Step (u : Url) (t : Transaction) : Ballot → Ballot → Prop
  | sign {b : Ballot} {d : Delivery} {k : KeySignature} {page : KeyPage} {db : Database}
      (htxn : d.transaction = t) (hsigner : k.signer = some u)
      (hpage : (b.stage.batch.account u).main = some (.keyPage page))
      (hrun : x.processSignature d (.key k) b.stage.batch = (.ok (), db)) :
      Step u t b
        { stage := { b.stage with batch := db }
          ids := b.ids
          signed := (b.idOf page (x.crypto.keyHash k)).toList ++ b.signed }
  | update {b : Ballot} {d : Delivery} {status : TransactionStatus}
      {state : ProcessTransactionState} {s : Stage} (htype : d.type = .updateKey)
      (hprincipal : d.transaction.header.principal = some u)
      (hrun : x.processTransaction d b.stage = (.ok (status, state), s))
      (hcode : status.code = .delivered) :
      Step u t b { stage := s, ids := x.movedIds u d b.stage b.ids, signed := b.signed }
  | other {b : Ballot} {s : Stage} {page page' : KeyPage}
      (hpage : (b.stage.batch.account u).main = some (.keyPage page))
      (hpage' : (s.batch.account u).main = some (.keyPage page')) (hsame : page.SamePolicy page')
      (hsigs : (s.batch.transaction (x.getHash t)).signatures u = b.recorded (x.getHash t) u) :
      Step u t b { b with stage := s }

/-- The recorded positions hold the same entries before and after the step. -/
def Ballot.Steady (u : Url) (t : Transaction) (b b' : Ballot) : Prop :=
  ∀ e ∈ (b.recorded (x.getHash t) u).entries,
    b'.ids[e.keyEntryIndex]? = b.ids[e.keyEntryIndex]?

def Ballot.SteadyRun (u : Url) (t : Transaction) : Ballot → Ballot → Prop :=
  Relation.ReflTransGen fun b b' => Ballot.Step x u t b b' ∧ Ballot.Steady x u t b b'

/-- The entries of the page have identities of their own, and none has signed. -/
structure Ballot.Initial (u : Url) (t : Transaction) (b : Ballot) : Prop where
  page : ∃ page, (b.stage.batch.account u).main = some (.keyPage page) ∧ page.url = u ∧
    b.ids.length = page.keys.length
  nodup : b.ids.Nodup
  recorded : (b.recorded (x.getHash t) u).entries = []

/-- Records are plain key signatures, sorted by position, and each of them stands for an
entry that has signed. -/
structure Ballot.Records (ids signed : List Nat) (entries : List SigSetEntry) : Prop where
  sorted : entries.Pairwise fun e f => e.keyEntryIndex < f.keyEntryIndex
  plain : ∀ e ∈ entries, e.type.isSystem = false ∧ e.type ≠ .set ∧ e.validatorKeyHash = none
  signed : ∀ e ∈ entries, ∃ id ∈ signed, ids[e.keyEntryIndex]? = some id

/-- **The invariant.**  The entries of the page have identities of their own, and the
records belong to the version of the page. -/
structure Ballot.Inv (u : Url) (t : Transaction) (b : Ballot) (page : KeyPage) : Prop where
  main : (b.stage.batch.account u).main = some (.keyPage page)
  url : page.url = u
  length_ids : b.ids.length = page.keys.length
  nodup : b.ids.Nodup
  version : (b.recorded (x.getHash t) u).entries = [] ∨
    (b.recorded (x.getHash t) u).version = page.version
  records : Ballot.Records b.ids b.signed (b.recorded (x.getHash t) u).entries

theorem compare_newSigSetEntry {e : SigSetEntry} (hnet : k.signer ≠ some Signer.networkUrl)
    (hsys : e.type.isSystem = false) (hval : e.validatorKeyHash = none) :
    e.compare (newSigSetEntry c i (.key k)) = compare e.keyEntryIndex i := by
  have htype : (newSigSetEntry c i (.key k)).type.isSystem = false := k.type.isSystem_type
  have hkey : (newSigSetEntry c i (.key k)).validatorKeyHash = none := by
    simp [newSigSetEntry, hnet]
  simp only [SigSetEntry.compare, hsys, htype, hval, hkey]
  rfl

/-- A key signature that is new to a set of plain signatures has a position of its own. -/
theorem add_key {s : SigSetData} (hnet : k.signer ≠ some Signer.networkUrl)
    (hplain : ∀ e ∈ s.entries, e.type.isSystem = false ∧ e.validatorKeyHash = none)
    (hnew : (s.add (newSigSetEntry c i (.key k)) (.key k)).2 = true) :
    found s.entries (fun e => compare e.keyEntryIndex i) = false ∧
      (s.add (newSigSetEntry c i (.key k)) (.key k)).1 =
        { s with
          entries := s.entries.insertIdx (search s.entries fun e => compare e.keyEntryIndex i)
            (newSigSetEntry c i (.key k)) } := by
  have hcmp : ∀ e ∈ s.entries,
      e.compare (newSigSetEntry c i (.key k)) = compare e.keyEntryIndex i :=
    fun e he => compare_newSigSetEntry hnet (hplain e he).1 (hplain e he).2
  unfold SigSetData.add at hnew ⊢
  dsimp only at hnew ⊢
  split at hnew
  · cases hnew
  rename_i hrejected
  rw [if_neg hrejected]
  rw [upsert_congr hcmp] at hnew ⊢
  unfold upsert at hnew ⊢
  split at hnew
  · cases hnew
  · rename_i hfound
    rw [if_neg hfound]
    exact ⟨by simpa using hfound, rfl⟩

namespace Ballot

variable {x} {u : Url} {t : Transaction} {b b' : Ballot} {page : KeyPage}

theorem Inv.openSigSet (h : Inv x u t b page) :
    b.stage.batch.openSigSet (x.getHash t) (.account (.keyPage page)) =
      ⟨page.version, (b.recorded (x.getHash t) u).entries⟩ := by
  have hurl : (Signer.account (.keyPage page)).url = u := h.url
  unfold Database.openSigSet
  rw [hurl]
  change (if (b.recorded (x.getHash t) u).version ≠ page.version then
    (b.recorded (x.getHash t) u).reset page.version else b.recorded (x.getHash t) u) = _
  by_cases hcurrent : (b.recorded (x.getHash t) u).version = page.version
  · rw [if_neg (not_not.2 hcurrent), ← hcurrent]
  · have hempty := h.version.resolve_right hcurrent
    rw [if_pos hcurrent, SigSetData.reset, hempty]
    rfl

theorem records_nil (ids signed : List Nat) : Records ids signed [] :=
  ⟨List.Pairwise.nil, nofun,
    nofun⟩

variable {ids signed : List Nat} {entries : List SigSetEntry}

theorem Records.mono {signed' : List Nat} (h : Records ids signed entries)
    (hsub : signed ⊆ signed') :
    Records ids signed' entries := by
  refine ⟨h.sorted, h.plain, fun e he => ?_⟩
  obtain ⟨id, hmem, hget⟩ := h.signed e he
  exact ⟨id, hsub hmem, hget⟩

/-- Positions that hold the same entries as before still stand for entries that have signed. -/
theorem Records.moved {ids' : List Nat} (h : Records ids signed entries)
    (hsteady : ∀ e ∈ entries, ids'[e.keyEntryIndex]? = ids[e.keyEntryIndex]?) :
    Records ids' signed entries := by
  refine ⟨h.sorted, h.plain, fun e he => ?_⟩
  rw [hsteady e he]
  exact h.signed e he

theorem Records.insert {id : Nat} (h : Records ids signed entries)
    (hnet : k.signer ≠ some Signer.networkUrl) (hid : ids[i]? = some id) (hmem : id ∈ signed)
    (hnew : found entries (fun e => compare e.keyEntryIndex i) = false) :
    Records ids signed (entries.insertIdx (search entries fun e => compare e.keyEntryIndex i)
      (newSigSetEntry c i (.key k))) := by
  have hsorted := pairwise_upsert h.sorted (x := newSigSetEntry c i (.key k)) (k := i) rfl
  simp only [upsert, hnew] at hsorted
  refine ⟨hsorted, fun e he => ?_, fun e he => ?_⟩
  · rcases List.eq_or_mem_of_mem_insertIdx he with rfl | he
    · exact ⟨k.type.isSystem_type, k.type.type_ne_set, by simp [newSigSetEntry, hnet]⟩
    · exact h.plain e he
  · rcases List.eq_or_mem_of_mem_insertIdx he with rfl | he
    · exact ⟨id, hmem, hid⟩
    · exact h.signed e he

theorem inv_of_initial (h : Initial x u t b) : ∃ page, Inv x u t b page := by
  obtain ⟨page, hmain, hurl, hlen⟩ := h.page
  refine ⟨page, hmain, hurl, hlen, h.nodup, .inl h.recorded, ?_⟩
  rw [h.recorded]
  exact records_nil _ _

variable {d : Delivery} {db : Database} {b₀ : Ballot}

theorem Inv.other (h : Inv x u t b page) {page' : KeyPage}
    (hpage' : (s.batch.account u).main = some (.keyPage page')) (hsame : page.SamePolicy page')
    (hsigs : (s.batch.transaction (x.getHash t)).signatures u = b.recorded (x.getHash t) u) :
    Inv x u t { b with stage := s } page' := by
  have hrecorded : ({ b with stage := s } : Ballot).recorded (x.getHash t) u =
      b.recorded (x.getHash t) u := hsigs
  refine ⟨hpage', hsame.url.trans h.url, h.length_ids.trans hsame.length_keys.symm, h.nodup,
    ?_, ?_⟩
  · rw [hrecorded, hsame.version]
    exact h.version
  · rw [hrecorded]
    exact h.records

section Invariant

variable (hx : x.executors .updateKey = some (UpdateKey.executor x.crypto))
  (huser : t.type.isUser = true) (hlite : x.crypto.isLiteTokenAddress u = false)
  (hnet : u ≠ Signer.networkUrl)

include huser hlite hnet in
/-- A signature of the page adds its position to the records, unless it is there. -/
theorem Inv.sign (h : Inv x u t b page) (htxn : d.transaction = t) (hsigner : k.signer = some u)
    (hrun : x.processSignature d (.key k) b.stage.batch = (.ok (), db)) :
    ∃ page', Inv x u t
      { stage := { b.stage with batch := db }
        ids := b.ids
        signed := (b.idOf page (x.crypto.keyHash k)).toList ++ b.signed } page' := by
  obtain rfl := h.url
  subst htxn
  obtain ⟨page', i, hmain, hsame, hi, hset⟩ :=
    x.processSignature_key huser hsigner hlite h.main hrun
  rw [h.openSigSet] at hset
  have hknet : k.signer ≠ some Signer.networkUrl := by
    rw [hsigner]
    exact fun heq => hnet (Option.some.inj heq)
  -- the entry that signs has an identity
  have hlt : i < b.ids.length := h.length_ids ▸ page.entryByKeyHash_lt hi
  have hid : b.ids[i]? = some b.ids[i] := List.getElem?_eq_getElem _
  have hidOf : b.idOf page (x.crypto.keyHash k) = some b.ids[i] := by
    simp [idOf, hi]
  have hrecords := h.records.mono
    (List.subset_append_right (b.idOf page (x.crypto.keyHash k)).toList b.signed)
  have hlen := h.length_ids.trans hsame.length_keys.symm
  dsimp only at hset
  split at hset
  · rename_i hnew
    obtain ⟨hfound, hadd⟩ := add_key
      (s := ⟨page.version, (b.recorded (x.getHash d.transaction) page.url).entries⟩) hknet
      (fun e he => ⟨(h.records.plain e he).1, (h.records.plain e he).2.2⟩) hnew
    rw [hadd] at hset
    refine ⟨page', hmain, hsame.url, hlen, h.nodup, .inr ?_, ?_⟩
    · exact (congrArg SigSetData.version hset).trans hsame.version.symm
    have hsigned : b.ids[i] ∈ (b.idOf page (x.crypto.keyHash k)).toList ++ b.signed := by
      rw [hidOf]
      exact List.mem_append_left _ (List.mem_singleton.2 rfl)
    have hnext := hrecords.insert (c := x.crypto) hknet hid hsigned hfound
    have hentries : (({ b with stage := { b.stage with batch := db } } : Ballot).recorded
        (x.getHash d.transaction) page.url).entries = _ := congrArg SigSetData.entries hset
    exact hentries ▸ hnext
  · have hsetsame : ({ b with stage := { b.stage with batch := db } } : Ballot).recorded
        (x.getHash d.transaction) page.url = b.recorded (x.getHash d.transaction) page.url := hset
    refine ⟨page', hmain, hsame.url, hlen, h.nodup, ?_, ?_⟩
    · rw [hsame.version]
      exact hsetsame ▸ h.version
    · exact hsetsame ▸ hrecords

include hx

theorem Inv.update (h : Inv x u t b page) (htype : d.type = .updateKey)
    (hprincipal : d.transaction.header.principal = some u)
    (hrun : x.processTransaction d b.stage = (.ok (status, state), s))
    (hcode : status.code = .delivered)
    (hsteady : Steady x u t b
      { stage := s, ids := x.movedIds u d b.stage b.ids, signed := b.signed }) :
    ∃ page', Inv x u t
      { stage := s, ids := x.movedIds u d b.stage b.ids, signed := b.signed } page' := by
  obtain rfl := h.url
  obtain ⟨status₀, db, oldPos, entry, hload, hmoved, hlt, hmain, hsigs⟩ :=
    x.processTransaction_updateKey hprincipal h.main hrun hcode hx htype
  have hids : x.movedIds page.url d b.stage b.ids = relocateIds page oldPos entry b.ids := by
    have hdb : (db.account page.url).main = some (.keyPage page) := by
      rw [((x.keeps_sameBallots_loadStatus d.transaction).run hload).main, h.main]
    simp only [movedIds, hload, hdb, hmoved]
  have hrecorded : ∀ b' : Ballot, b'.stage = s →
      b'.recorded (x.getHash t) page.url = b.recorded (x.getHash t) page.url := by
    rintro b' rfl
    exact congrFun (hsigs (x.getHash t)) page.url
  rw [hids] at hsteady ⊢
  refine ⟨_, hmain, rfl, length_relocateIds h.length_ids hlt, relocateIds_nodup h.nodup, ?_, ?_⟩
  · rw [hrecorded _ rfl]
    exact h.version
  · rw [hrecorded _ rfl]
    exact h.records.moved hsteady

include huser hlite hnet

/-- **Step lemma.**  A steady step keeps the invariant. -/
theorem Inv.step (h : Inv x u t b page) (hstep : Step x u t b b') (hsteady : Steady x u t b b') :
    ∃ page', Inv x u t b' page' := by
  cases hstep with
  | sign htxn hsigner hpage hrun =>
    obtain rfl : page = _ := by simpa using h.main.symm.trans hpage
    exact h.sign huser hlite hnet htxn hsigner hrun
  | update htype hprincipal hrun hcode => exact h.update hx htype hprincipal hrun hcode hsteady
  | other hpage hpage' hsame hsigs =>
    obtain rfl : page = _ := by simpa using h.main.symm.trans hpage
    exact ⟨_, h.other hpage' hsame hsigs⟩

/-- **Run lemma.**  The invariant holds after every steady run. -/
theorem inv_of_run (hinit : Initial x u t b₀) (hrun : SteadyRun x u t b₀ b) :
    ∃ page, Inv x u t b page := by
  induction hrun with
  | refl => exact inv_of_initial hinit
  | tail _ hstep ih =>
    obtain ⟨page, h⟩ := ih
    exact h.step hx huser hlite hnet hstep.1 hstep.2

end Invariant

theorem Records.length_le (h : Records ids signed entries) (hnodup : ids.Nodup) :
    entries.length ≤ signed.toFinset.card := by
  have hsub : entries.map (fun e => ids.getD e.keyEntryIndex 0) ⊆ signed := by
    intro id hid
    obtain ⟨e, he, rfl⟩ := List.mem_map.1 hid
    obtain ⟨id, hmem, hget⟩ := h.signed e he
    rwa [List.getD_eq_getElem?_getD, hget]
  have hdistinct : (entries.map fun e => ids.getD e.keyEntryIndex 0).Nodup := by
    refine List.pairwise_map.2 (h.sorted.imp_of_mem ?_)
    intro e f he hf hlt heq
    obtain ⟨id, -, hget⟩ := h.signed e he
    obtain ⟨id', -, hget'⟩ := h.signed f hf
    rw [List.getD_eq_getElem?_getD, List.getD_eq_getElem?_getD, hget, hget'] at heq
    have hsame : ids[e.keyEntryIndex]? = ids[f.keyEntryIndex]? := by
      rw [hget, hget']
      exact congrArg some heq
    have hindex := (List.getElem?_inj (List.getElem?_eq_some_iff.1 hget).1 hnodup).1 hsame
    omega
  calc entries.length
      = (entries.map fun e => ids.getD e.keyEntryIndex 0).toFinset.card := by
        rw [List.toFinset_card_of_nodup hdistinct, List.length_map]
    _ ≤ signed.toFinset.card := Finset.card_le_card fun id hid =>
        List.mem_toFinset.2 (hsub (List.mem_toFinset.1 hid))

/-- **Counting signatures.**  After a run whose updates leave the recorded positions alone,
a page that is satisfied has been signed by as many different entries as its threshold asks
for. -/
theorem threshold_le_signed (x : Executor) (u : Url) (t : Transaction)
    (hx : x.executors .updateKey = some (UpdateKey.executor x.crypto))
    (huser : t.type.isUser = true) (hlite : x.crypto.isLiteTokenAddress u = false)
    (hnet : u ≠ Signer.networkUrl) {b₀ b : Ballot} (hinit : Initial x u t b₀)
    (hrun : SteadyRun x u t b₀ b) (page : KeyPage)
    (hpage : (b.stage.batch.account u).main = some (.keyPage page))
    (hthreshold : 1 ≤ page.acceptThreshold)
    (hsatisfied : x.signerIsSatisfied b.stage.batch t (.keyPage page) = true) :
    page.acceptThreshold ≤ b.signed.toFinset.card := by
  obtain ⟨page', h⟩ := inv_of_run hx huser hlite hnet hinit hrun
  obtain rfl : page = page' := by simpa using hpage.symm.trans h.main
  have hcount : page.acceptThreshold ≤ (b.recorded (x.getHash t) u).entries.length := by
    have hread : b.stage.batch.readSignaturesForSigner (x.getHash t) (.keyPage page) =
        (b.recorded (x.getHash t) u).entries := by
      unfold readSignaturesForSigner
      rw [show (Account.keyPage page).url = u from h.url]
      rfl
    unfold signerIsSatisfied at hsatisfied
    simp only [hread, Bool.or_eq_true, decide_eq_true_eq, List.any_eq_true] at hsatisfied
    rcases hsatisfied with ⟨e, he, hset⟩ | hle
    · exact absurd hset (h.records.plain e he).2.1
    · have hnonzero : page.acceptThreshold ≠ 0 := by omega
      rwa [Signer.signatureThreshold, KeyPage.getSignatureThreshold, if_neg hnonzero] at hle
  exact hcount.trans (h.records.length_le h.nodup)

/-! ### A page with two keys -/

def duoUrl : Url := ⟨.named "duo", ["book", "1"]⟩

def duoPage : KeyPage := ⟨duoUrl, 1000000, 2, 1, [⟨[1], 0, none⟩, ⟨[2], 0, none⟩], none⟩

/-- The key hash that the first key is replaced by; it is greater than the second one. -/
def duoNewKey : Bytes := List.replicate 32 3

def duoNode : Executor :=
  toy ⟨.blockValidator, "y"⟩
    (fun t => if t = .updateKey then some (UpdateKey.executor toyCrypto) else none) (by
      intro t e he _
      split at he
      · cases he
        rfl
      · cases he)

def duoSignature (key : Bytes) (timestamp : Nat) : KeySignature :=
  ⟨.ed25519, key, [], some duoUrl, 1, timestamp, .accept, 0⟩

def duoTxn : Transaction := ⟨⟨some duoUrl, 5, "", []⟩, .payload (.updateKeyPage [])⟩

def duoUpdate : Transaction := ⟨⟨some duoUrl, 102, "", []⟩, .payload (.updateKey duoNewKey)⟩

def duoStart : Database :=
  (Database.empty.setMain duoUrl (.keyPage duoPage)).setMain ⟨.named "duo", ["book"]⟩
    (.keyBook ⟨.named "duo", ["book"]⟩ [⟨⟨.named "duo", ["book"]⟩, false⟩] .normal 1)

def duoSign (key : Bytes) (timestamp : Nat) (t : Transaction) (db : Database) : Database :=
  (duoNode.processSignature (.new t []) (.key (duoSignature key timestamp)) db).2

def duoSigned (key : Bytes) : Database := duoSign key 2 duoUpdate (duoSign [1] 1 duoTxn duoStart)

def duoUpdated (key : Bytes) : Stage :=
  (duoNode.processTransaction (.new duoUpdate []) ⟨duoSigned key, toyGlobals⟩).2

def duoEnd (key : Bytes) : Stage :=
  ⟨duoSign duoNewKey 3 duoTxn (duoUpdated key).batch, (duoUpdated key).pending⟩

def pageAt (db : Database) (u : Url) : Option KeyPage := (db.account u).main.bind asKeyPage

theorem main_of_pageAt {p : KeyPage} (h : pageAt db u = some p) :
    (db.account u).main = some (.keyPage p) := by
  obtain ⟨a, ha, hp⟩ := Option.bind_eq_some_iff.1 h
  cases a with
  | keyPage q =>
    cases hp
    exact ha
  | _ => cases hp

def duoPageOf (db : Database) : KeyPage := (pageAt db duoUrl).getD duoPage

theorem duo_step_sign {g : GlobalValues} (key : Bytes) (timestamp : Nat)
    (hpage : pageAt db duoUrl = some (duoPageOf db))
    (hok : (duoNode.processSignature (.new duoTxn []) (.key (duoSignature key timestamp)) db).1 =
      .ok ()) :
    Step duoNode duoUrl duoTxn ⟨⟨db, g⟩, ids, signed⟩
      ⟨⟨duoSign key timestamp duoTxn db, g⟩, ids,
        (idOf ⟨⟨db, g⟩, ids, signed⟩ (duoPageOf db) key).toList ++ signed⟩ :=
  Step.sign (k := duoSignature key timestamp) rfl rfl
    (main_of_pageAt hpage) (Prod.ext hok rfl)

theorem step_of_isDelivered (htype : d.type = .updateKey)
    (hprincipal : d.transaction.header.principal = some u)
    (h : isDelivered (x.processTransaction d b.stage).1 = true) :
    Step x u t b ⟨(x.processTransaction d b.stage).2, x.movedIds u d b.stage b.ids, b.signed⟩ := by
  match hrun : x.processTransaction d b.stage with
  | (.ok (status, state), s) =>
    rw [hrun] at h
    exact Step.update htype hprincipal hrun (of_decide_eq_true h)
  | (.error e, s) | (.panic m, s) =>
    rw [hrun] at h
    cases h

/-- The first key signs the transaction, a key signs the update of itself, the update is executed,
and the new key signs the transaction.  The first key is the second entry after its update, and the
second key stays in its place. -/
theorem duo_steps {key : Bytes} {newIds : List Nat} {id : Nat}
    (h : key = [1] ∧ newIds = [11, 10] ∧ id = 10 ∨ key = [2] ∧ newIds = [10, 11] ∧ id = 11) :
    Step duoNode duoUrl duoTxn ⟨⟨duoStart, toyGlobals⟩, [10, 11], []⟩
        ⟨⟨duoSign [1] 1 duoTxn duoStart, toyGlobals⟩, [10, 11], [10]⟩ ∧
      Step duoNode duoUrl duoTxn ⟨⟨duoSign [1] 1 duoTxn duoStart, toyGlobals⟩, [10, 11], [10]⟩
        ⟨⟨duoSigned key, toyGlobals⟩, [10, 11], [10]⟩ ∧
      Step duoNode duoUrl duoTxn ⟨⟨duoSigned key, toyGlobals⟩, [10, 11], [10]⟩
        ⟨duoUpdated key, newIds, [10]⟩ ∧
      Step duoNode duoUrl duoTxn ⟨duoUpdated key, newIds, [10]⟩ ⟨duoEnd key, newIds, [id, 10]⟩ := by
  have hbefore : ((duoSign [1] 1 duoTxn duoStart).account duoUrl).main =
      some (.keyPage (duoPageOf (duoSign [1] 1 duoTxn duoStart))) :=
    main_of_pageAt (by decide +kernel)
  have hafter : pageAt (duoSigned key) duoUrl = some (duoPageOf (duoSigned key)) := by
    rcases h with ⟨rfl, -⟩ | ⟨rfl, -⟩ <;> decide +kernel
  refine ⟨duo_step_sign [1] 1 (by decide +kernel) (by decide +kernel), ?_⟩
  rcases h with ⟨rfl, rfl, rfl⟩ | ⟨rfl, rfl, rfl⟩
  all_goals
    refine ⟨Step.other hbefore (main_of_pageAt hafter)
      ⟨by decide +kernel, by decide +kernel, by decide +kernel, by decide +kernel⟩
      (by decide +kernel), step_of_isDelivered rfl rfl (by decide +kernel),
      duo_step_sign duoNewKey 3 (by decide +kernel) (by decide +kernel)⟩

/-- The first key signs, is replaced, and signs again: the page is satisfied although a
single entry has signed. -/
theorem duo_signs_twice :
    duoNode.executors .updateKey = some (UpdateKey.executor duoNode.crypto) ∧
      duoTxn.type.isUser = true ∧ duoNode.crypto.isLiteTokenAddress duoUrl = false ∧
      duoUrl ≠ Signer.networkUrl ∧
      ∃ b₀ b page, Initial duoNode duoUrl duoTxn b₀ ∧
        Relation.ReflTransGen (Step duoNode duoUrl duoTxn) b₀ b ∧
        (b.stage.batch.account duoUrl).main = some (.keyPage page) ∧
        1 ≤ page.acceptThreshold ∧
        duoNode.signerIsSatisfied b.stage.batch duoTxn (.keyPage page) = true ∧
        b.signed.toFinset.card < page.acceptThreshold := by
  refine ⟨rfl, rfl, rfl, by decide, ⟨⟨duoStart, toyGlobals⟩, [10, 11], []⟩,
    ⟨duoEnd [1], [11, 10], [10, 10]⟩, duoPageOf (duoEnd [1]).batch, ?_, ?_, ?_, ?_, ?_, ?_⟩
  · exact ⟨⟨duoPage, rfl, rfl, rfl⟩, by decide, rfl⟩
  · obtain ⟨hsign, hother, hupdate, hagain⟩ := duo_steps (.inl ⟨rfl, rfl, rfl⟩)
    exact (((Relation.ReflTransGen.single hsign).tail hother).tail hupdate).tail hagain
  · exact main_of_pageAt (by decide +kernel)
  · decide +kernel
  · decide +kernel
  · decide +kernel

theorem duo_threshold_le_signed :
    duoPage.acceptThreshold ≤ ([11, 10] : List Nat).toFinset.card := by
  have hrun : SteadyRun duoNode duoUrl duoTxn ⟨⟨duoStart, toyGlobals⟩, [10, 11], []⟩
      ⟨duoEnd [2], [10, 11], [11, 10]⟩ := by
    obtain ⟨hsign, hother, hupdate, hagain⟩ := duo_steps (.inr ⟨rfl, rfl, rfl⟩)
    exact (((Relation.ReflTransGen.single ⟨hsign, fun _ _ => rfl⟩).tail
      ⟨hother, fun _ _ => rfl⟩).tail ⟨hupdate, fun _ _ => rfl⟩).tail ⟨hagain, fun _ _ => rfl⟩
  have hpage : ((duoEnd [2]).batch.account duoUrl).main =
      some (.keyPage (duoPageOf (duoEnd [2]).batch)) := main_of_pageAt (by decide +kernel)
  have hsame : (duoPageOf (duoEnd [2]).batch).acceptThreshold = duoPage.acceptThreshold := by
    decide +kernel
  rw [← hsame]
  exact threshold_le_signed duoNode duoUrl duoTxn rfl rfl rfl (by decide)
    ⟨⟨duoPage, rfl, rfl, rfl⟩, by decide, rfl⟩ hrun _ hpage (by decide +kernel) (by decide +kernel)

end Ballot

end Executor

end Accumulate
