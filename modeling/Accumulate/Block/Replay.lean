import Accumulate.Block.Ballot
import Accumulate.Chain.UpdateKeyPage

/-!
# Signatures are not accepted twice

A key of a page signs with a time, which has to be later than the last one.  The page stores
the last time with the entry of the key.  `UpdateKeyPage` gives the page a new version and
resets the times; `UpdateKey` does neither, and the time goes with the entry to another key.

`Usage` follows the times every key has signed with through a run of signatures and of both
kinds of updates.  `replay_rejected`: as long as no key is brought back to a page it has
already signed for, the signatures of a key have increasing times.
-/

namespace Accumulate

open Library Protocol Database Accumulate.Core Chain

/-! ## The signer of a signature -/

def Protocol.Signature.signingKey : Signature → Option KeySignature
  | .key k => some k
  | .delegated (some s) _ => s.signingKey
  | .remote _ (some s) => s.signingKey
  | _ => none

def Database.SameMain (db db' : Database) : Prop :=
  ∀ u, (db'.account u).main = (db.account u).main

instance : Std.Refl Database.SameMain := ⟨fun _ _ => rfl⟩

instance : IsTrans Database Database.SameMain :=
  ⟨fun _ _ _ hab hbc u => (hbc u).trans (hab u)⟩

namespace Executor

variable (x : Executor)

def authDelegate : AuthDelegate where
  signerIsAuthorized := signerIsAuthorized
  authorityIsSatisfied := fun db t status u => .ok (x.authorityIsSatisfied db t status u)
  signerIsAuthorized_failing := raises_signerIsAuthorized
  authorityIsSatisfied_failing := fun _ _ _ _ => .ok _

theorem keeps_sameMain_putStatus (h : Hash) (s : TransactionStatus) :
    Proc.Keeps SameMain (putStatus h s) :=
  (keeps_sameBallots_putStatus h s).mono fun _ _ hsame => hsame.main

theorem keeps_sameMain_addSignature (h : Hash) (signer : Signer) (i : Nat) (s : Signature) :
    Proc.Keeps SameMain (addSignature x.crypto h signer i s) := by
  refine .bind .get fun db => ?_
  refine .ite (.bind (keeps_sameMain_putStatus _ _) fun _ => ?_)
    (.pure _)
  exact .modify fun db u => rfl

theorem keeps_sameMain_recordSignature (d : Delivery) (s : Signature)
    (md : SignatureValidationMetadata) (signer : Signer) (delegate : Option Account) :
    Proc.Keeps SameMain (x.recordSignature d s md signer delegate) := by
  have hput : ∀ h v, Proc.Keeps SameMain
      (Proc.modify (fun db => db.putTransaction h v) : Proc Database Error Unit) :=
    fun h v => .modify fun db u => rfl
  refine .bind (.lift _) fun _ => ?_
  refine .bind (.lift _) fun isLocalTxn => ?_
  refine .bind (.when _ (hput _ _)) fun _ => ?_
  refine .bind .get fun db => ?_
  refine .bind (.lift _) fun status => ?_
  refine .bind (.lift _) fun stored => ?_
  cases stored with
  | none => exact .pure _
  | some sigToStore =>
    refine .bind (.lift _) fun status => ?_
    refine .bind
      (.when _ (.mapError (keeps_sameMain_putStatus _ _))) fun _ => ?_
    refine .bind (.bind (hput _ _) fun _ => ?_) fun _ => .pure _
    exact .bind
      ((x.keeps_sameBallots_addToSignatureChains _ _ _ _ _).mono fun _ _ hsame => hsame.main)
      fun _ => x.keeps_sameMain_addSignature _ _ _ _

theorem keeps_sameMain_processDelegator (d : Delivery) (s : Signature) (inner : Option Signature)
    (delegator : Option Url) (md : SignatureValidationMetadata) (r : Option Signer) :
    Proc.Keeps SameMain (x.processDelegator d s inner delegator md r) := by
  refine .bind (.lift _) fun verified => ?_
  refine .ite (.throw _) ?_
  refine .bind (.lift _) fun isLocal => ?_
  refine .ite (.pure _) ?_
  refine .bind (.query _) fun signer => ?_
  refine .bind (.lift _) fun delegate => ?_
  exact x.keeps_sameMain_recordSignature _ _ _ _ _

variable {x} {d : Delivery} {k : KeySignature} {db db' : Database} {u : Url} {page : KeyPage}

/-- A signature of a user transaction is processed by processing the key signature within
it; nothing else changes an account. -/
theorem processSignatureAt_signingKey (hu : d.type.isUser = true) :
    ∀ (s : Signature) {md : SignatureValidationMetadata} {r : Option Signer} {db db' : Database},
      s.signingKey = some k → x.processSignatureAt d s md db = (.ok r, db') →
        ∃ md' checkAuthz a db₁,
          x.processKeySignature d.transaction k md' checkAuthz db = (.ok a, db₁) ∧
            db₁.SameMain db'
  | .key k', md, r, db, db', hkey, h => by
      unfold processSignatureAt processKey at h
      cases hkey
      split at h
      · cases h
      obtain ⟨checkAuthz, -, h⟩ := Proc.lift_bind_eq_ok.1 h
      obtain ⟨a, db₁, hprocess, h⟩ := Proc.bind_eq_ok.1 h
      refine ⟨md, checkAuthz, a, db₁, hprocess, ?_⟩
      split at h
      · cases h
        exact refl_of SameMain _
      · exact (x.keeps_sameMain_recordSignature _ _ _ _ _).run h
  | .delegated (some inner) delegator, md, r, db, db', hkey, h => by
      obtain ⟨r', db₂, hinner, h⟩ := Proc.bind_eq_ok.1 h
      obtain ⟨md', checkAuthz, a, db₁, hprocess, hsame⟩ :=
        processSignatureAt_signingKey hu inner hkey (Proc.mapError_eq_ok.1 hinner)
      have hrest := (x.keeps_sameMain_processDelegator _ _ _ _ _ _).run h
      exact ⟨md', checkAuthz, a, db₁, hprocess, trans_of SameMain hsame hrest⟩
  | .remote _ (some inner), md, r, db, db', hkey, h => by
      unfold processSignatureAt at h
      split at h
      · cases h
      · split at h
        · cases h
        · exact processSignatureAt_signingKey hu inner hkey h
  | .partition .., _, _, _, _, hkey, _ | .receipt .., _, _, _, _, hkey, _
  | .internal .., _, _, _, _, hkey, _ | .set .., _, _, _, _, hkey, _
  | .delegated none _, _, _, _, _, hkey, _ | .remote _ none, _, _, _, _, hkey, _ => by cases hkey

/-- **A signature that a page accepts**: the key is the one of an entry, its time is later
than the last one, and it is noted. -/
theorem processSignature_signingKey {s : Signature}
    (hu : d.type.isUser = true) (hkey : s.signingKey = some k) (hsigner : k.signer = some u)
    (hlite : x.crypto.isLiteTokenAddress u = false)
    (hpage : (db.account u).main = some (.keyPage page)) (hurl : page.url = u)
    (h : x.processSignature d s db = (.ok (), db')) :
    ∃ i fee, x.validateKeyEntry d.transaction (.keyPage page) k = .ok i ∧
      (db'.account u).main = some (.keyPage (chargedPage page fee i k)) := by
  obtain ⟨_, -, h⟩ := Proc.lift_bind_eq_ok.1 h
  obtain ⟨md, -, h⟩ := Proc.lift_bind_eq_ok.1 h
  obtain ⟨r, db₂, h, hend⟩ := Proc.bind_eq_ok.1 h
  cases hend
  obtain ⟨md', checkAuthz, a, db₁, hprocess, hsame⟩ := processSignatureAt_signingKey hu s hkey h
  obtain ⟨signer, i, fee, db₀, hvalid, hentry, -, -, rfl, -, rfl⟩ :=
    x.processKeySignature_user hu hprocess
  have hfind := x.findSigner_of_validateSigner hvalid
  rw [hsigner] at hfind
  obtain rfl := x.findSigner_page hlite hpage hfind (x.validateKeyEntry_eq_ok hentry).2.1
  refine ⟨i, fee, hentry, ?_⟩
  rw [hsame u, charged_keyPage]
  have hself : (Account.keyPage page).url = u := hurl
  simp [setMain, hself]

/-! ## Following the times of the keys -/

/-- A key has signed with a version of the page and a time. -/
structure Use where
  keyHash : Bytes
  version : Nat
  timestamp : Nat
deriving DecidableEq, Repr

/-- A state of the ledger together with every use of a key of the page. -/
structure Usage where
  stage : Stage
  uses : List Use

/-- What happens to the page. -/
inductive Event where
  | sign (d : Delivery) (s : Signature) (k : KeySignature)
  | updateKey (d : Delivery)
  | updateKeyPage (d : Delivery)
  | other

namespace Usage

variable (x) (u : Url)

/-- The uses after a signature.  A signature without a time, or one of a faucet transaction,
is not counted. -/
def noted (d : Delivery) (k : KeySignature) (uses : List Use) : List Use :=
  if d.type ≠ .acmeFaucet ∧ k.timestamp ≠ 0 then
    ⟨x.crypto.keyHash k, k.signerVersion, k.timestamp⟩ :: uses
  else uses

/-- The page at `u` accepts a signature of a user transaction, by itself, within delegations
or forwarded; a key of the page is updated; the page is updated; or something else happens
that changes neither the keys of the page nor its version. -/
inductive Step : Event → Usage → Usage → Prop
  | sign {w : Usage} {d : Delivery} {s : Signature} {k : KeySignature} {db : Database}
      (huser : d.type.isUser = true) (hkey : s.signingKey = some k) (hsigner : k.signer = some u)
      (hrun : x.processSignature d s w.stage.batch = (.ok (), db)) :
      Step (.sign d s k) w ⟨{ w.stage with batch := db }, noted x d k w.uses⟩
  | updateKey {w : Usage} {d : Delivery} {status : TransactionStatus}
      {state : ProcessTransactionState} {stage : Stage} (htype : d.type = .updateKey)
      (hprincipal : d.transaction.header.principal = some u)
      (hrun : x.processTransaction d w.stage = (.ok (status, state), stage))
      (hcode : status.code = .delivered) :
      Step (.updateKey d) w { w with stage := stage }
  | updateKeyPage {w : Usage} {d : Delivery} {status : TransactionStatus}
      {state : ProcessTransactionState} {stage : Stage} (htype : d.type = .updateKeyPage)
      (hprincipal : d.transaction.header.principal = some u)
      (hrun : x.processTransaction d w.stage = (.ok (status, state), stage))
      (hcode : status.code = .delivered) :
      Step (.updateKeyPage d) w { w with stage := stage }
  | other {w : Usage} {stage : Stage} {page page' : KeyPage}
      (hpage : (w.stage.batch.account u).main = some (.keyPage page))
      (hpage' : (stage.batch.account u).main = some (.keyPage page')) (hurl : page'.url = page.url)
      (hversion : page'.version = page.version) (hkeys : page'.keys = page.keys) :
      Step .other w { w with stage := stage }

/-- The event does not set the time of a key back.

* The times of signatures of faucet transactions are not checked; this one is later than the
  last one nevertheless.
* The key that is brought in by `UpdateKey` has not signed with this version of the page, if
  it is not on the page already.
* The version of the page does not overflow. -/
def Careful (w : Usage) : Event → Prop
  | .sign d _ k => d.type = .acmeFaucet → k.timestamp ≠ 0 → ∀ page,
      (w.stage.batch.account u).main = some (.keyPage page) → ∀ e ∈ page.keys,
        e.publicKeyHash = x.crypto.keyHash k → e.lastUsedOn < k.timestamp
  | .updateKey d => ∀ page newKeyHash, (w.stage.batch.account u).main = some (.keyPage page) →
      d.transaction.body = .payload (.updateKey newKeyHash) →
        (∃ e ∈ page.keys, e.publicKeyHash = newKeyHash) ∨
          ∀ use ∈ w.uses, use.version = page.version → use.keyHash ≠ newKeyHash
  | .updateKeyPage _ => ∀ page, (w.stage.batch.account u).main = some (.keyPage page) →
      page.version + 1 < 2 ^ 64
  | .other => True

def CarefulRun : Usage → Usage → Prop :=
  Relation.ReflTransGen fun w w' => ∃ e, Step x u e w w' ∧ Careful x u w e

structure Initial (w : Usage) : Prop where
  page : ∃ page, (w.stage.batch.account u).main = some (.keyPage page) ∧ page.url = u ∧
    page.DistinctKeys
  uses : w.uses = []

/-- **The invariant.**  Every use was one of a version up to the current one, and the last
time of a key is not before any of its uses of the current version. -/
structure Inv (w : Usage) (page : KeyPage) : Prop where
  main : (w.stage.batch.account u).main = some (.keyPage page)
  url : page.url = u
  distinct : page.DistinctKeys
  version : ∀ use ∈ w.uses, use.version ≤ page.version
  used : ∀ use ∈ w.uses, use.version = page.version → ∀ e ∈ page.keys,
    e.publicKeyHash = use.keyHash → use.timestamp ≤ e.lastUsedOn

variable {x u} {w w' : Usage} {page : KeyPage} {s : Signature} {i : Nat} {w₀ : Usage}
  {entry : KeySpec}

theorem inv_of_initial (h : Initial u w) : ∃ page, Inv u w page := by
  obtain ⟨page, hmain, hurl, hdistinct⟩ := h.page
  refine ⟨page, hmain, hurl, hdistinct, ?_, ?_⟩
  · intro use huse
    rw [h.uses] at huse
    cases huse
  · intro use huse
    rw [h.uses] at huse
    cases huse

theorem lastUsedOn_lt (hcareful : Careful x u w (.sign d s k))
    (hmain : (w.stage.batch.account u).main = some (.keyPage page))
    (hentry : x.validateKeyEntry d.transaction (.keyPage page) k = .ok i)
    (hget : page.keys[i]? = some entry) (hhash : entry.publicKeyHash = x.crypto.keyHash k)
    (htime : k.timestamp ≠ 0) : entry.lastUsedOn < k.timestamp := by
  by_cases hfaucet : d.type = .acmeFaucet
  · exact hcareful hfaucet htime page hmain entry (List.mem_of_getElem? hget) hhash
  have hlast := (x.validateKeyEntry_eq_ok hentry).2.2 hfaucet htime
  have hlast' : (Account.keyPage page).lastUsedOn i = entry.lastUsedOn := by
    simp [Account.lastUsedOn, hget]
  rwa [hlast'] at hlast

/-- The entries of a page after a signature: the one of the key, with the time of the
signature, and the others as they were. -/
theorem mem_chargedPage {fee : Fee} {e : KeySpec} (hget : page.keys[i]? = some entry)
    (htime : k.timestamp ≠ 0) (he : e ∈ (chargedPage page fee i k).keys) :
    e = { entry with lastUsedOn := k.timestamp } ∨
      ∃ j, j ≠ i ∧ page.keys[j]? = some e := by
  obtain ⟨j, hj⟩ := List.getElem?_of_mem he
  simp only [chargedPage, htime, if_false, List.getElem?_modify] at hj
  by_cases hij : i = j
  · subst hij
    simp only [hget, Option.map_eq_map, Option.map_some, Option.some.injEq] at hj
    exact .inl hj.symm
  · simp only [hij, if_false, Option.map_eq_map, Option.map_id'] at hj
    exact .inr ⟨j, fun h => hij h.symm, hj⟩

section

variable (h : Inv u w page) (hx : x.executors .updateKey = some (UpdateKey.executor x.crypto))
  (hx' : x.executors .updateKeyPage = some (UpdateKeyPage.executor x.crypto x.authDelegate))
  (hlite : x.crypto.isLiteTokenAddress u = false) (hhashes : ∀ k, x.crypto.keyHash k ≠ [])

include h

include hlite in
/-- **An accepted signature is later** than every use of its key with its version. -/
theorem Inv.later (hstep : Step x u (.sign d s k) w w') (hcareful : Careful x u w (.sign d s k))
    (htime : k.timestamp ≠ 0) {use : Use} (huse : use ∈ w.uses)
    (hkey : use.keyHash = x.crypto.keyHash k) (hversion : use.version = k.signerVersion) :
    use.timestamp < k.timestamp := by
  cases hstep with
  | sign huser hsigning hsigner hrun =>
    obtain ⟨i, fee, hentry, -⟩ :=
      processSignature_signingKey huser hsigning hsigner hlite h.main h.url hrun
    obtain ⟨hpageVersion, hfound, -⟩ := x.validateKeyEntry_eq_ok hentry
    have hcurrent : use.version = page.version := hversion.trans (hpageVersion huser)
    obtain ⟨entry, hget, hhash⟩ := KeyPage.entryByKeyHash_eq_some hfound
    have hlast := lastUsedOn_lt hcareful h.main hentry hget hhash htime
    have hused := h.used use huse hcurrent entry (List.mem_of_getElem? hget) (hhash.trans hkey.symm)
    exact Nat.lt_of_le_of_lt hused hlast

include hlite hhashes in
theorem Inv.sign (hstep : Step x u (.sign d s k) w w')
    (hcareful : Careful x u w (.sign d s k)) : ∃ page', Inv u w' page' := by
  have hlater := fun htime => @h.later _ _ _ _ _ _ _ _ hlite hstep hcareful htime
  cases hstep with
  | sign huser hsigning hsigner hrun =>
    obtain ⟨i, fee, hentry, hmain⟩ :=
      processSignature_signingKey huser hsigning hsigner hlite h.main h.url hrun
    obtain ⟨hpageVersion, hfound, -⟩ := x.validateKeyEntry_eq_ok hentry
    have hcurrent : k.signerVersion = page.version := hpageVersion huser
    obtain ⟨entry, hget, hhash⟩ := KeyPage.entryByKeyHash_eq_some hfound
    refine ⟨chargedPage page fee i k, hmain, h.url, ?_, ?_, ?_⟩
    · exact h.distinct.congr (samePolicy_charged page fee i k).keyHashes
    · intro use huse
      unfold noted at huse
      split at huse
      · rcases List.mem_cons.1 huse with rfl | huse
        · exact hcurrent.le
        · exact h.version use huse
      · exact h.version use huse
    · intro use huse hversion e he heq
      by_cases htime : k.timestamp = 0
      · -- nothing is noted, and no time changes
        have huse : use ∈ w.uses := by simpa [noted, htime] using huse
        have he : e ∈ page.keys := by simpa [chargedPage, htime] using he
        exact h.used use huse hversion e he heq
      · have hold : use ∈ w.uses → use.timestamp ≤ e.lastUsedOn := by
          intro huse
          rcases mem_chargedPage hget htime he with rfl | ⟨j, -, hj⟩
          · have hkey : use.keyHash = x.crypto.keyHash k := heq.symm.trans hhash
            exact (hlater htime huse hkey (hversion.trans hcurrent.symm)).le
          · exact h.used use huse hversion e (List.mem_of_getElem? hj) heq
        unfold noted at huse
        split at huse
        · rcases List.mem_cons.1 huse with rfl | huse
          · -- the entry of the key is the only one with its hash
            rcases mem_chargedPage hget htime he with rfl | ⟨j, hne, hj⟩
            · exact le_refl _
            · have hpos := h.distinct.unique hj hget (heq.trans hhash.symm)
                (by rw [heq]; exact hhashes k)
              exact absurd hpos hne
          · exact hold huse
        · exact hold huse

include hx in
theorem Inv.updateKey (hstep : Step x u (.updateKey d) w w')
    (hcareful : Careful x u w (.updateKey d)) :
    ∃ page', Inv u w' page' := by
  cases hstep with
  | updateKey htype hprincipal hrun hcode =>
    rw [← htype] at hx
    obtain rfl := h.url
    obtain ⟨status₀, db, page', -, hupdated, hmain, -⟩ :=
      x.processTransaction_page hprincipal h.main hrun hcode hx (by rw [htype]; rfl)
        (writesPage_update _ _)
    obtain ⟨⟨newKeyHash, page₀, auth⟩, hvalid, hupdated⟩ := Outcome.bind_eq_ok.1 hupdated
    obtain ⟨old, -, hupdated⟩ := Outcome.bind_eq_ok.1 hupdated
    obtain ⟨hbody, hnonempty, horigin⟩ := UpdateKey.validate_eq_ok hvalid
    obtain rfl : page = page₀ := by
      simpa [StateManager.new] using horigin
    have hdistinct := UpdateKey.updateKey_distinctKeys h.distinct hupdated
    obtain ⟨oldPos, entry, -, hentry, honly, rfl⟩ := UpdateKey.updateKey_eq_ok hupdated
    refine ⟨_, hmain, rfl, hdistinct, h.version, ?_⟩
    intro use huse hversion e he heq
    rcases mem_upsert he with rfl | hrest
    · -- the entry that has been moved has the new key hash
      rcases hcareful page newKeyHash h.main hbody with ⟨e', he', hsame⟩ | hunused
      · cases hfound : page.entryByKeyHash newKeyHash with
        | none => exact absurd hsame (h.distinct.entryByKeyHash_eq_none hfound he')
        | some newPos =>
          have hpos := honly newPos (KeyPage.findEntry_of_entryByKeyHash hnonempty hfound)
          obtain ⟨e'', hget, hhash⟩ := KeyPage.entryByKeyHash_eq_some hfound
          rw [hpos, hentry] at hget
          cases hget
          exact h.used use huse hversion entry (List.mem_of_getElem? hentry)
            (hhash.trans heq)
      · exact absurd heq.symm (hunused use huse hversion)
    · exact h.used use huse hversion e (List.mem_of_mem_eraseIdx hrest) heq

include hx' in
theorem Inv.updateKeyPage (hstep : Step x u (.updateKeyPage d) w w')
    (hcareful : Careful x u w (.updateKeyPage d)) :
    ∃ page', Inv u w' page' := by
  cases hstep with
  | updateKeyPage htype hprincipal hrun hcode =>
    rw [← htype] at hx'
    obtain rfl := h.url
    obtain ⟨status₀, db, page', -, hupdated, hmain, -⟩ :=
      x.processTransaction_page hprincipal h.main hrun hcode hx' (by rw [htype]; rfl)
        (writesPage_update _ _)
    obtain ⟨page₀, horigin, hurl, hversion, hdistinct⟩ := UpdateKeyPage.updatedPage_eq_ok hupdated
    obtain rfl : page = page₀ := by
      simpa [StateManager.new] using horigin
    rw [Nat.mod_eq_of_lt (hcareful page h.main)] at hversion
    rw [hurl] at hmain
    -- the version is a new one
    have hnew : ∀ use ∈ w.uses, use.version < page'.version := by
      intro use huse
      rw [hversion]
      exact Nat.lt_succ_of_le (h.version use huse)
    refine ⟨page', hmain, hurl, hdistinct h.distinct, fun use huse => (hnew use huse).le, ?_⟩
    intro use huse hsame
    exact absurd hsame (hnew use huse).ne

theorem Inv.other (hstep : Step x u .other w w') : ∃ page', Inv u w' page' := by
  cases hstep with
  | other hpage hpage' hurl hversion hkeys =>
    rename_i page₀ page'
    rw [h.main] at hpage
    cases hpage
    refine ⟨page', hpage', hurl.trans h.url, ?_, ?_, ?_⟩
    · exact h.distinct.congr (by rw [hkeys])
    · rw [hversion]
      exact h.version
    · rw [hversion, hkeys]
      exact h.used

include hx hx' hlite hhashes

theorem Inv.step {e : Event} (hstep : Step x u e w w') (hcareful : Careful x u w e) :
    ∃ page', Inv u w' page' := by
  cases e with
  | sign d s k => exact h.sign hlite hhashes hstep hcareful
  | updateKey d => exact h.updateKey hx hstep hcareful
  | updateKeyPage d => exact h.updateKeyPage hx' hstep hcareful
  | other => exact h.other hstep

omit h in
theorem inv_of_run (hinitial : Initial u w₀) (hrun : CarefulRun x u w₀ w) :
    ∃ page, Inv u w page := by
  induction hrun with
  | refl => exact inv_of_initial hinitial
  | tail _ hstep ih =>
    obtain ⟨page, hinv⟩ := ih
    obtain ⟨e, hstep, hcareful⟩ := hstep
    exact hinv.step hx hx' hlite hhashes hstep hcareful

end

/-- **No signature is accepted twice.**  In a run of careful events on a page with distinct
keys, once a key has signed a user transaction other than one of the faucet, the page accepts
a signature of the key with the same version only if its time is a later one.  `hhashes` says
that no key hash is empty. -/
theorem replay_rejected {w₀ : Usage}
    (hx : x.executors .updateKey = some (UpdateKey.executor x.crypto))
    (hx' : x.executors .updateKeyPage = some (UpdateKeyPage.executor x.crypto x.authDelegate))
    (hlite : x.crypto.isLiteTokenAddress u = false) (hhashes : ∀ k, x.crypto.keyHash k ≠ [])
    (hinitial : Initial u w₀) (hrun : CarefulRun x u w₀ w) (hstep : Step x u (.sign d s k) w w')
    (hcareful : Careful x u w (.sign d s k)) (htime : 0 < k.timestamp) :
    ∀ use ∈ w.uses, use.keyHash = x.crypto.keyHash k → use.version = k.signerVersion →
      use.timestamp < k.timestamp := by
  obtain ⟨page, hinv⟩ := inv_of_run hx hx' hlite hhashes hinitial hrun
  intro use huse hkey hversion
  exact hinv.later hlite hstep hcareful htime.ne' huse hkey hversion

/-! ### A key that comes back -/

def spinCrypto : Crypto :=
  { toyCrypto with publicKeyHash := fun _ key => if key = [] then [0] else key }

theorem spinCrypto_keyHash (k : KeySignature) : spinCrypto.keyHash k ≠ [] := by
  change (if k.publicKey = [] then [0] else k.publicKey) ≠ []
  split
  · exact List.cons_ne_nil _ _
  · assumption

def spinBase : Executor := { toyNode with crypto := spinCrypto }

def spinExecutors : TransactionType → Option TransactionExecutor
  | .updateKey => some (UpdateKey.executor spinCrypto)
  | .updateKeyPage => some (UpdateKeyPage.executor spinCrypto spinBase.authDelegate)
  | _ => none

theorem spinExecutors_didFail (t : TransactionType) (e : TransactionExecutor)
    (h : spinExecutors t = some e) : e.didFail = none := by
  cases t with
  | updateKey | updateKeyPage =>
    cases h
    rfl
  | _ => cases h

def spinNode : Executor :=
  { spinBase with
    executors := spinExecutors
    didFail_user := fun t e h _ => spinExecutors_didFail t e h }

def spinUrl : Url := ⟨.named "spin", ["book", "1"]⟩

def spinKey (n : UInt8) : Bytes := List.replicate 32 n

def spinPage : KeyPage :=
  ⟨spinUrl, 1000000, 1, 1, [⟨spinKey 1, 0, none⟩, ⟨spinKey 2, 0, none⟩], none⟩

def spinStart : Usage where
  stage :=
    { batch := (Database.empty.setMain spinUrl (.keyPage spinPage)).setMain
        ⟨.named "spin", ["book"]⟩
        (.keyBook ⟨.named "spin", ["book"]⟩ [⟨⟨.named "spin", ["book"]⟩, false⟩] .normal 1)
      pending := toyGlobals }
  uses := []

def spinSignature (n : UInt8) (timestamp : Nat) : KeySignature :=
  ⟨.ed25519, spinKey n, [], some spinUrl, 1, timestamp, .accept, 0⟩

def spinTxn : Delivery := .new ⟨⟨some spinUrl, 5, "", []⟩, .payload (.updateKeyPage [])⟩ []

def spinUpdate (n : UInt8) (timestamp : Nat) : Delivery :=
  .new ⟨⟨some spinUrl, BitVec.ofNat 256 (100 + timestamp), "", []⟩,
    .payload (.updateKey (spinKey n))⟩ []

def spinSign (d : Delivery) (n : UInt8) (timestamp : Nat) (w : Usage) : Usage :=
  ⟨{ w.stage with
      batch := (spinNode.processSignature d (.key (spinSignature n timestamp)) w.stage.batch).2 },
    noted spinNode d (spinSignature n timestamp) w.uses⟩

def spinExecute (d : Delivery) (w : Usage) : Usage :=
  { w with stage := (spinNode.processTransaction d w.stage).2 }

theorem spin_step_sign (d : Delivery) (n : UInt8) (timestamp : Nat) (w : Usage)
    (huser : d.type.isUser = true)
    (hok : (spinNode.processSignature d (.key (spinSignature n timestamp)) w.stage.batch).1 =
      .ok ()) :
    Step spinNode spinUrl (.sign d (.key (spinSignature n timestamp)) (spinSignature n timestamp))
      w (spinSign d n timestamp w) :=
  Step.sign huser rfl rfl (Prod.ext hok rfl)

theorem spin_step_update (d : Delivery) (w : Usage) (htype : d.type = .updateKey)
    (hprincipal : d.transaction.header.principal = some spinUrl)
    (hok : (spinNode.processTransaction d w.stage).1.Yields fun r => r.1.code = .delivered) :
    Step spinNode spinUrl (.updateKey d) w (spinExecute d w) := by
  obtain ⟨⟨status, state⟩, hrun, hcode⟩ := hok.exists_ok
  exact Step.updateKey htype hprincipal (Prod.ext hrun rfl) hcode

theorem spinStart_initial : Initial spinUrl spinStart := by
  refine ⟨⟨spinPage, rfl, rfl, ?_⟩, rfl⟩
  change List.Pairwise _ [_, _]
  simp only [List.pairwise_cons, List.mem_singleton, forall_eq, List.not_mem_nil, false_imp_iff,
    implies_true, List.Pairwise.nil, and_true]
  exact .inl (by decide)

/-- The first key signs and is replaced by a third one; then the second key is replaced by
the first one. -/
def spinBack : Usage :=
  spinExecute (spinUpdate 1 1) (spinSign (spinUpdate 1 1) 2 1
    (spinExecute (spinUpdate 3 11) (spinSign (spinUpdate 3 11) 1 11
      (spinSign spinTxn 1 10 spinStart))))

theorem spinBack_run :
    Relation.ReflTransGen (fun w w' => ∃ e, Step spinNode spinUrl e w w') spinStart spinBack := by
  have hsign : Step spinNode spinUrl _ spinStart _ :=
    spin_step_sign spinTxn 1 10 _ rfl (by decide +kernel)
  have hinit : Step spinNode spinUrl _ (spinSign spinTxn 1 10 spinStart) _ :=
    spin_step_sign (spinUpdate 3 11) 1 11 _ rfl (by decide +kernel)
  have hupdate : Step spinNode spinUrl _
      (spinSign (spinUpdate 3 11) 1 11 (spinSign spinTxn 1 10 spinStart)) _ :=
    spin_step_update (spinUpdate 3 11) _ rfl rfl (by decide +kernel)
  have hinit' := spin_step_sign (spinUpdate 1 1) 2 1
    (spinExecute (spinUpdate 3 11)
      (spinSign (spinUpdate 3 11) 1 11 (spinSign spinTxn 1 10 spinStart))) rfl (by decide +kernel)
  have hupdate' := spin_step_update (spinUpdate 1 1)
    (spinSign (spinUpdate 1 1) 2 1 (spinExecute (spinUpdate 3 11)
      (spinSign (spinUpdate 3 11) 1 11 (spinSign spinTxn 1 10 spinStart)))) rfl rfl
    (by decide +kernel)
  exact ((((Relation.ReflTransGen.single ⟨_, hsign⟩).tail ⟨_, hinit⟩).tail ⟨_, hupdate⟩).tail
    ⟨_, hinit'⟩).tail ⟨_, hupdate'⟩

/-- The first key has the time of the second one when it comes back, and its first signature
is accepted again. -/
theorem spin_replayed :
    spinNode.executors .updateKey = some (UpdateKey.executor spinNode.crypto) ∧
      spinNode.executors .updateKeyPage =
        some (UpdateKeyPage.executor spinNode.crypto spinNode.authDelegate) ∧
      spinNode.crypto.isLiteTokenAddress spinUrl = false ∧ Initial spinUrl spinStart ∧
      Relation.ReflTransGen (fun w w' => ∃ e, Step spinNode spinUrl e w w') spinStart spinBack ∧
      ∃ w' d s k, Step spinNode spinUrl (.sign d s k) spinBack w' ∧ 0 < k.timestamp ∧
        ∃ use ∈ spinBack.uses, use.keyHash = spinNode.crypto.keyHash k ∧
          use.version = k.signerVersion ∧ ¬ use.timestamp < k.timestamp := by
  refine ⟨rfl, rfl, rfl, spinStart_initial, spinBack_run, spinSign spinTxn 1 10 spinBack, spinTxn,
    .key (spinSignature 1 10), spinSignature 1 10, ?_, by decide, ⟨spinKey 1, 1, 10⟩, ?_, rfl, rfl,
    lt_irrefl _⟩
  · exact spin_step_sign spinTxn 1 10 spinBack rfl (by decide +kernel)
  · decide +kernel

theorem spin_rejected :
    ∃ w w', CarefulRun spinNode spinUrl spinStart w ∧
      Step spinNode spinUrl
        (.sign spinTxn (.key (spinSignature 1 12)) (spinSignature 1 12)) w w' ∧
      ⟨spinKey 1, 1, 10⟩ ∈ w.uses ∧
      ∀ use ∈ w.uses, use.keyHash = spinNode.crypto.keyHash (spinSignature 1 12) →
        use.version = (spinSignature 1 12).signerVersion →
          use.timestamp < (spinSignature 1 12).timestamp := by
  have hsign := spin_step_sign spinTxn 1 10 spinStart rfl
    (by decide +kernel)
  have hinit := spin_step_sign (spinUpdate 3 11) 2 11
    (spinSign spinTxn 1 10 spinStart) rfl (by decide +kernel)
  have hupdate := spin_step_update (spinUpdate 3 11)
    (spinSign (spinUpdate 3 11) 2 11 (spinSign spinTxn 1 10 spinStart)) rfl rfl
    (by decide +kernel)
  have hagain := spin_step_sign spinTxn 1 12
    (spinExecute (spinUpdate 3 11)
      (spinSign (spinUpdate 3 11) 2 11 (spinSign spinTxn 1 10 spinStart))) rfl (by decide +kernel)
  -- the third key has not signed
  have hfresh : Careful spinNode spinUrl
      (spinSign (spinUpdate 3 11) 2 11 (spinSign spinTxn 1 10 spinStart))
      (.updateKey (spinUpdate 3 11)) := by
    rintro page newKeyHash - hbody
    cases hbody
    have hne : ∀ use ∈ (spinSign (spinUpdate 3 11) 2 11 (spinSign spinTxn 1 10 spinStart)).uses,
        use.keyHash ≠ spinKey 3 := by
      decide +kernel
    exact .inr fun use huse _ => hne use huse
  have hrun : CarefulRun spinNode spinUrl spinStart _ :=
    ((Relation.ReflTransGen.single ⟨_, hsign, nofun⟩).tail
      ⟨_, hinit, nofun⟩).tail ⟨_, hupdate, hfresh⟩
  refine ⟨_, _, hrun, hagain, by decide +kernel, ?_⟩
  exact replay_rejected rfl rfl rfl spinCrypto_keyHash spinStart_initial hrun hagain
    (nofun) (by decide)

end Usage

end Executor
end Accumulate
