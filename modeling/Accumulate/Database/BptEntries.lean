import Accumulate.Database.RecordOps

/-!
# The entries of accounts in the Patricia trie

The entry of an account is the hash of its state.  It is put when the account has been changed and
is committed, and when a pending status is stored for a transaction of which the account is the
principal.  A transaction can be pending in an account that is not its principal, and its state,
or a status that is not pending, can be stored without changing the account; then the hash of the
account changes and its entry does not.  Where this does not happen, every account that a batch
changes or affects has the entry it should have.
-/

namespace Accumulate.Database
namespace Records

open Library Protocol Record

/-- The entry of an account, the latest one first. -/
def entryOf (entries : List (Url × Hash)) (u : Url) : Option Hash :=
  (entries.find? fun e => e.1 = u).map (·.2)

/-! ## What operations refresh -/

def PrincipalOf (w : View) (h : Hash) (u : Url) : Prop :=
  ∃ txn : SigOrTxn, w (.transaction h .main) = .ok txn ∧
    (txn.transaction.bind fun t => t.header.principal) = some u

/-- The URL of the account can be loaded or is missing. -/
def UrlReadable (w : View) (u : Url) : Prop :=
  ∀ e, w (.account u .url) = .error e → e.is .notFound = true

/-- An account in which the transaction is pending is changed in the batch, or a pending status is
stored for the transaction and the account is its principal. -/
def Refreshes (w : View) (changed : Url → Prop) (h : Hash) (statusIsPending : Prop) : Prop :=
  ∀ u, PendingIn w h u → changed u ∨ (statusIsPending ∧ PrincipalOf w h u ∧ UrlReadable w u)

/-- The operation does not leave the entry of an account behind. -/
def RecordOp.Refreshing (w : View) (changed : Url → Prop) : RecordOp → Prop
  | .putTransaction h _ => Refreshes w changed h False
  | .putStatus h s => Refreshes w changed h (s.pending = true)
  | .addSignature h _ _ _ =>
    Refreshes w changed h
      (∃ s : TransactionStatus, w (.transaction h .status) = .ok s ∧ s.pending = true)
  | _ => True

section Layer

variable {enc : Encoding} {below : View} {L L' : DbLayer} {u : Url} {D : Url → Prop}

variable {k : Key}

theorem contents_eq (h : L'.puts k = L.puts k) : L'.contents below k = L.contents below k := by
  simp only [Layer.contents, h]

theorem hashOf_contents_eq (h : ∀ k, HashKey (L.contents below) u k → L'.puts k = L.puts k) :
    hashOf enc (L'.contents below) u = hashOf enc (L.contents below) u :=
  hashOf_congr enc fun k hk => contents_eq (h k hk)

theorem entryOf_cons_self (entries : List (Url × Hash)) (h : Hash) :
    entryOf ((u, h) :: entries) u = some h := by
  simp [entryOf]

variable {v : Url} {p : RecordM Unit}

theorem entryOf_cons_of_ne (entries : List (Url × Hash)) (h : Hash) (hne : v ≠ u) :
    entryOf ((u, h) :: entries) v = entryOf entries v := by
  simp [entryOf, hne.symm]

theorem run_entryOf {K : Key → Prop} (hp : p.PutsIn K fun n => n.1 = u)
    (hne : v ≠ u) : entryOf (p.run (Layer.machine below) L).2.entries v = entryOf L.entries v := by
  refine Script.run_keeps (R := fun L' : DbLayer => entryOf L'.entries v = entryOf L.entries v)
    (fun _ _ h => h) (fun _ _ _ _ h => h) ?_ hp rfl
  rintro ⟨x, hash⟩ L' hx h
  cases hx
  exact (entryOf_cons_of_ne L'.entries hash hne).trans h

/-! ## Entries that are up to date -/

/-- The entry of the account that has been put in the batch is the hash of the account; without one,
the hash is what it was before the batch. -/
def TracksAt (enc : Encoding) (below : View) (L : DbLayer) (u : Url) : Prop :=
  ∀ h, hashOf enc (L.contents below) u = .ok h →
    entryOf L.entries u = some h ∨ (entryOf L.entries u = none ∧ hashOf enc below u = .ok h)

/-- The entries of the accounts that are not changed in the batch are up to date. -/
def Tracks (enc : Encoding) (below : View) (D : Url → Prop) (L : DbLayer) : Prop :=
  ∀ u, ¬ D u → TracksAt enc below L u

theorem TracksAt.of_same (h : TracksAt enc below L u)
    (hsame : ∀ k, HashKey (L.contents below) u k → L'.puts k = L.puts k)
    (hentries : entryOf L'.entries u = entryOf L.entries u) : TracksAt enc below L' u := by
  intro hash hhash
  rw [hashOf_contents_eq hsame] at hhash
  rw [hentries]
  exact h hash hhash

theorem tracks_new (writable : Bool) : Tracks enc below D (.new writable) :=
  fun _ _ _ hhash => .inr ⟨rfl, hhash⟩

variable {c : Crypto}

theorem Tracks.account {op : RecordOp} (h : Tracks enc below D L) (hop : op.account? = some u)
    (hD : ∀ v f, ((op.program enc c).run (Layer.machine below) L).2.puts (.account v f) ≠ none →
      D v) : Tracks enc below D ((op.program enc c).run (Layer.machine below) L).2 := by
  have hputs : (op.program enc c).PutsIn (OfAccount u) fun _ => False :=
    RecordOp.putsIn_account enc c hop
  intro v hv
  refine (h v hv).of_same (fun k hk => ?_) (by rw [Layer.run_entries hputs])
  by_cases hku : OfAccount u k
  · -- the account is not changed in the end, so it is not changed by this operation
    cases k with
    | account x f =>
      obtain ⟨rfl, -⟩ := hk
      have hnone := fun hne => hv (hD x f hne)
      have hbefore := fun hne => hnone (Layer.run_puts_ne_none (op.program enc c) hne)
      rw [not_not.1 hnone, not_not.1 hbefore]
    | _ => exact hku.elim
  · exact Layer.run_puts hputs hku

/-! ## Storing a status -/

variable {e : Error}

theorem run_putBpt_ok (h : L.contents below (.account u .url) = .ok v) :
    (putBpt enc u).run (Layer.machine below) L =
      match hashOf enc (L.contents below) u with
      | .ok hash => (.ok (), { L with entries := (u, hash) :: L.entries })
      | .error e => (.error e, L) := by
  simp only [putBpt, Script.run_bind, run_populateUrl_ok h, run_hashState]
  cases hashOf enc (L.contents below) u <;> rfl

/-- `putBpt` brings the entry of an account up to date, unless it changes the account or its URL
cannot be loaded. -/
theorem tracksAt_putBpt
    (hnone : ((putBpt enc u).run (Layer.machine below) L).2.puts (.account u .url) = none)
    (hurl : UrlReadable (L.contents below) u) :
    TracksAt enc below ((putBpt enc u).run (Layer.machine below) L).2 u := by
  cases hw : L.contents below (.account u .url) with
  | ok v =>
    rw [run_putBpt_ok hw]
    intro h hh
    cases hhash : hashOf enc (L.contents below) u with
    | ok hash =>
      rw [hhash] at hh
      have hsame : hashOf enc
          (({ L with entries := (u, hash) :: L.entries } : DbLayer).contents below) u =
            hashOf enc (L.contents below) u := hashOf_contents_eq fun _ _ => rfl
      have heq : hash = h := Except.ok.inj (hhash.symm.trans (hsame.symm.trans hh))
      exact .inl (heq ▸ entryOf_cons_self L.entries hash)
    | error e =>
      rw [hhash] at hh
      exact absurd (hhash.symm.trans hh) (by simp)
  | error e =>
    refine absurd hnone ?_
    simp only [putBpt, Script.run_bind, run_populateUrl_missing hw (hurl e hw), run_hashState]
    cases hashOf enc _ u <;> simp [putBptEntry, Script.run, Layer.machine, Layer.put]

theorem run_putBpt_error (h : L.contents below (.account u .url) = .error e)
    (he : e.is .notFound = false) : ((putBpt enc u).run (Layer.machine below) L).2 = L := by
  simp only [putBpt, Script.run_bind, run_populateUrl_error h he]

theorem contents_put_of_ne {j : Key} {v : k.Value} (hne : j ≠ k) :
    (L.put k v).contents below j = L.contents below j :=
  contents_eq (by simp [Layer.put, hne])

variable {h : Hash} {fields : List AccountField} {new : List (Url × Hash)}

theorem puts_eq_of_not_pending {v : TransactionStatus}
    (hpending : ¬ PendingIn (L.contents below) h u) (hk : HashKey (L.contents below) u k) :
    (L.put (.transaction h .status) v).puts k = L.puts k := by
  have hne : k ≠ .transaction h .status := by
    rintro rfl
    exact hpending hk
  simp [Layer.put, hne]

theorem Tracks.putBpt_principal {v : TransactionStatus} {p : Url} (htracks : Tracks enc below D L)
    (hD : ∀ u f, ((putBpt enc p).run (Layer.machine below)
      (L.put (.transaction h .status) v)).2.puts (.account u f) ≠ none → D u)
    (hpending : ∀ u, ¬ D u → PendingIn (L.contents below) h u →
      u = p ∧ UrlReadable (L.contents below) u) :
    Tracks enc below D
      ((putBpt enc p).run (Layer.machine below) (L.put (.transaction h .status) v)).2 := by
  have hputs : (putBpt enc p).PutsIn (OfAccount p) fun n => n.1 = p :=
    putsIn_putBpt enc rfl rfl fun _ => rfl
  intro u hu
  by_cases hup : u = p
  · subst hup
    by_cases hurl : UrlReadable (L.contents below) u
    · refine tracksAt_putBpt (not_not.1 fun hne => hu (hD u .url hne)) fun e he => hurl e ?_
      rwa [contents_put_of_ne (by simp)] at he
    -- the URL cannot be loaded: nothing happens, and the transaction is not pending here
    have hnot : ¬ PendingIn (L.contents below) h u := fun hp => hurl (hpending u hu hp).2
    obtain ⟨e, he, his⟩ : ∃ e, L.contents below (.account u .url) = .error e ∧
        e.is .notFound = false := by
      simpa [UrlReadable] using hurl
    rw [← contents_put_of_ne (k := .transaction h .status) (by simp)] at he
    rw [run_putBpt_error he his]
    exact (htracks u hu).of_same (fun k hk => puts_eq_of_not_pending hnot hk) rfl
  · have hnot : ¬ PendingIn (L.contents below) h u := fun hp => hup (hpending u hu hp).1
    refine (htracks u hu).of_same (fun k hk => ?_) (run_entryOf hputs hup)
    refine (Layer.run_puts hputs fun hk' => ?_).trans (puts_eq_of_not_pending hnot hk)
    cases k with
    | account x f => exact hup (hk.1.symm.trans hk')
    | _ => exact hk'

theorem run_put (v : k.Value) : (put k v).run (Layer.machine below) L = (.ok (), L.put k v) := rfl

theorem Tracks.put_status {v : TransactionStatus} (htracks : Tracks enc below D L)
    (hnot : ∀ u, ¬ D u → ¬ PendingIn (L.contents below) h u) :
    Tracks enc below D (L.put (.transaction h .status) v) :=
  fun u hu => (htracks u hu).of_same (fun _ hk => puts_eq_of_not_pending (hnot u hu) hk) rfl

theorem Tracks.putStatus {s : TransactionStatus} (htracks : Tracks enc below D L)
    (hrefresh : Refreshes (L.contents below) D h (s.pending = true))
    (hD : ∀ u f, ((putStatus enc h s).run (Layer.machine below) L).2.puts (.account u f) ≠ none →
      D u) : Tracks enc below D ((putStatus enc h s).run (Layer.machine below) L).2 := by
  -- the accounts whose entries have to be refreshed
  have hprincipal : ∀ u, ¬ D u → PendingIn (L.contents below) h u →
      s.pending = true ∧ PrincipalOf (L.contents below) h u ∧ UrlReadable (L.contents below) u :=
    fun u hu hp => (hrefresh u hp).resolve_left hu
  rw [Records.putStatus, Script.run_bind, run_put] at hD ⊢
  cases hs : s.pending with
  | false =>
    simp only [hs, Bool.false_eq_true] at hprincipal ⊢
    exact htracks.put_status fun u hu hp => (hprincipal u hu hp).1
  | true =>
    simp only [hs, if_true, Script.run_bind] at hD ⊢
    have hmain : (L.put (.transaction h .status) (normalizeStatus s)).contents below
        (.transaction h .main) = L.contents below (.transaction h .main) :=
      contents_put_of_ne (by simp)
    rw [run_get, hmain] at hD ⊢
    cases hw : L.contents below (.transaction h .main) with
    | error e =>
      refine htracks.put_status fun u hu hp => ?_
      obtain ⟨txn, htxn, -⟩ := (hprincipal u hu hp).2.1
      exact absurd (hw.symm.trans htxn) (by simp)
    | ok txn =>
      simp only [hw] at hD ⊢
      have hprincipal' : ∀ u, ¬ D u → PendingIn (L.contents below) h u →
          (txn.transaction.bind fun t => t.header.principal) = some u ∧
            UrlReadable (L.contents below) u := by
        intro u hu hp
        obtain ⟨-, ⟨txn', htxn', huser⟩, hurl⟩ := hprincipal u hu hp
        cases hw.symm.trans htxn'
        exact ⟨huser, hurl⟩
      cases hp : txn.transaction.bind fun t => t.header.principal with
      | none =>
        refine htracks.put_status fun u hu hpending => ?_
        exact absurd (hp.symm.trans (hprincipal' u hu hpending).1) (by simp)
      | some p =>
        simp only [hp] at hD ⊢
        refine htracks.putBpt_principal hD fun u hu hpending => ?_
        obtain ⟨huser, hurl⟩ := hprincipal' u hu hpending
        exact ⟨(Option.some.inj (hp.symm.trans huser)).symm, hurl⟩

/-! ## Operations -/

theorem Tracks.put_other {v : k.Value} (htracks : Tracks enc below D L)
    (hk : ∀ u, ¬ D u → ¬ HashKey (L.contents below) u k) : Tracks enc below D (L.put k v) := by
  intro u hu
  refine (htracks u hu).of_same (fun j hj => ?_) rfl
  have hne : j ≠ k := by
    rintro rfl
    exact hk u hu hj
  simp [Layer.put, hne]

theorem addSigner_pending (s : TransactionStatus) (signer : Signer) :
    (s.addSigner signer).pending = s.pending := by
  unfold TransactionStatus.addSigner
  dsimp only
  split
  · split <;> rfl
  · rfl

section

variable
  (hrefresh : Refreshes (L.contents below) D h
    (∃ s : TransactionStatus, L.contents below (.transaction h .status) = .ok s ∧ s.pending = true))

include hrefresh

theorem Tracks.storeSignature {signer : Signer} {set : SigSetData} (htracks : Tracks enc below D L)
    (hD : ∀ u f, ((storeSignature enc h signer set).run (Layer.machine below) L).2.puts
      (.account u f) ≠ none → D u) :
    Tracks enc below D ((storeSignature enc h signer set).run (Layer.machine below) L).2 := by
  rw [Records.storeSignature, Script.run_bind, run_get] at hD ⊢
  cases hw : L.contents below (.transaction h .status) with
  | error e =>
    exact htracks
  | ok s =>
    simp only [hw, Script.run_bind] at hD ⊢
    have hstatus : Refreshes (L.contents below) D h ((s.addSigner signer).pending = true) := by
      intro u hp
      refine (hrefresh u hp).imp_right fun ⟨⟨s', hs', hpending⟩, hrest⟩ => ⟨?_, hrest⟩
      cases hw.symm.trans hs'
      rwa [addSigner_pending]
    have hput := htracks.putStatus hstatus
    rcases hrun : (Records.putStatus enc h (s.addSigner signer)).run (Layer.machine below) L
      with ⟨_ | _, L₁⟩
    · simp only [hrun] at hD hput ⊢
      exact hput hD
    simp only [hrun] at hD hput ⊢
    rw [run_put] at hD ⊢
    refine (hput fun u f hne => hD u f ?_).put_other fun u _ hk => hk
    simpa [Layer.put] using hne

theorem Tracks.addSignature {signer : Url} {i : Nat} {sig : Signature}
    (htracks : Tracks enc below D L)
    (hD : ∀ u f, ((addSignature enc c h signer i sig).run (Layer.machine below) L).2.puts
      (.account u f) ≠ none → D u) :
    Tracks enc below D ((addSignature enc c h signer i sig).run (Layer.machine below) L).2 := by
  have hreads : (loadSigner signer).ReadsIn (L.contents below) fun _ => True := by
    refine (readsIn_tryGet trivial).bind fun r _ => ?_
    cases r with
    | ok a | error e => exact readsIn_ite (readsIn_pure _) (readsIn_throw _)
  have hload := hreads.run (M := Layer.machine below) fun _ _ => rfl
  rw [Records.addSignature, Script.run_bind, hload] at hD ⊢
  cases heval : (loadSigner signer).eval (L.contents below) with
  | error e => exact htracks
  | ok s =>
    simp only [heval, Script.run_bind] at hD ⊢
    rw [run_get] at hD ⊢
    cases hw : L.contents below (.transaction h (.signatures s.url)) with
    | error e => exact htracks
    | ok stored =>
      simp only [hw] at hD ⊢
      generalize (if SigSetData.version stored ≠ s.version then
        SigSetData.reset stored s.version else stored) = opened at hD ⊢
      by_cases hnew : (opened.add (newSigSetEntry c i sig) sig).2 = true
      · rw [if_pos hnew] at hD ⊢
        exact htracks.storeSignature hrefresh hD
      · rw [if_neg hnew]
        exact htracks

end

theorem Tracks.op {op : RecordOp} (htracks : Tracks enc below D L)
    (hrefresh : op.Refreshing (L.contents below) D)
    (hD : ∀ u f, ((op.program enc c).run (Layer.machine below) L).2.puts (.account u f) ≠ none →
      D u) : Tracks enc below D ((op.program enc c).run (Layer.machine below) L).2 := by
  cases op with
  | putTransaction h v =>
    refine htracks.put_other fun u hu hk => ?_
    exact (hrefresh u hk).elim hu fun h => h.1
  | putStatus h s => exact htracks.putStatus hrefresh hD
  | addSignature h signer i sig => exact htracks.addSignature hrefresh hD
  | putProduced h ids | putChains h entries => exact htracks.put_other fun u _ hk => hk
  | _ => exact htracks.account rfl hD

/-! ## Committing accounts -/

/-- What accounts put when they are committed: their URLs and the indices of their anchors. -/
def CommitKey : Key → Prop
  | .account _ .url => True
  | .account _ .syntheticAnchors => True
  | _ => False

theorem not_commitKey_of_hashKey {w : View} (h : HashKey w u k) : ¬ CommitKey k := by
  cases k with
  | account v f => cases f <;> first | exact fun hk => hk | exact h.2.elim
  | _ => exact fun hk => hk

/-- Some accounts have been committed: their entries are their hashes. -/
structure Prepared (enc : Encoding) (below : View) (L L' : DbLayer) (new : List (Url × Hash)) :
    Prop where
  keep : ∀ k, ¬ CommitKey k → L'.puts k = L.puts k
  grow : ∀ k, L.puts k ≠ none → L'.puts k ≠ none
  entries : L'.entries = new ++ L.entries
  hashes : ∀ e ∈ new, hashOf enc (L.contents below) e.1 = .ok e.2

theorem Prepared.refl (enc : Encoding) (below : View) (L : DbLayer) : Prepared enc below L L [] :=
  ⟨fun _ _ => rfl, fun _ h => h, rfl, by simp⟩

theorem Prepared.hashOf_eq (h : Prepared enc below L L' new) (u : Url) :
    hashOf enc (L'.contents below) u = hashOf enc (L.contents below) u :=
  hashOf_contents_eq fun k hk => h.keep k (not_commitKey_of_hashKey hk)

theorem Prepared.trans {L'' : DbLayer} {new' : List (Url × Hash)}
    (h : Prepared enc below L L' new) (h' : Prepared enc below L' L'' new') :
    Prepared enc below L L'' (new' ++ new) where
  keep := fun k hk => (h'.keep k hk).trans (h.keep k hk)
  grow := fun k hk => h'.grow k (h.grow k hk)
  entries := by rw [h'.entries, h.entries, List.append_assoc]
  hashes := by
    intro e he
    rcases List.mem_append.1 he with he | he
    · rw [← h.hashOf_eq]
      exact h'.hashes e he
    · exact h.hashes e he

/-- A program that puts only what accounts put when they are committed, and no entries. -/
theorem prepared_run (hp : p.PutsIn CommitKey fun _ => False) :
    Prepared enc below L (p.run (Layer.machine below) L).2 [] :=
  ⟨fun _ hk => Layer.run_puts hp hk, fun _ hk => Layer.run_puts_ne_none p hk,
    Layer.run_entries hp, by simp⟩

theorem prepared_putBpt (hrun : (putBpt enc u).run (Layer.machine below) L = (.ok (), L')) :
    ∃ hash, Prepared enc below L L' [(u, hash)] := by
  obtain ⟨_, L₁, hurl, hrun⟩ := Script.run_bind_eq_ok.1 hrun
  obtain ⟨hash, L₂, hhash, hrun⟩ := Script.run_bind_eq_ok.1 hrun
  have hpopulate : (populateUrl u).PutsIn CommitKey fun _ => False := by
    refine (putsIn_tryGet _).bind fun r => ?_
    cases r with
    | ok v => exact putsIn_pure _
    | error e => exact putsIn_ite (putsIn_put _ trivial) (putsIn_throw _)
  have hfirst : Prepared enc below L ((populateUrl u).run (Layer.machine below) L).2 [] :=
    prepared_run hpopulate
  rw [hurl] at hfirst
  rw [run_hashState] at hhash
  obtain ⟨hok, rfl⟩ := Prod.mk.inj hhash
  cases hrun
  have hlast : Prepared enc below L₁ ((Layer.machine below).note (u, hash) L₁) [(u, hash)] :=
    ⟨fun _ _ => rfl, fun _ h => h, rfl, by simpa using hok⟩
  exact ⟨hash, by simpa using hfirst.trans hlast⟩

theorem accountIsDirty_of_mem {f : AccountField} (hf : f ∈ fields)
    (hput : L.puts (.account u f) ≠ none) :
    (accountIsDirty u fields).run (Layer.machine below) L = (.ok true, L) := by
  induction fields with
  | nil => cases hf
  | cons g rest ih =>
    have hfield : (fieldIsDirty u g).run (Layer.machine below) L = (.ok true, L) ∨
        (fieldIsDirty u g).run (Layer.machine below) L =
          (.ok (L.puts (.account u g)).isSome, L) := by
      cases g <;> first | exact .inr rfl | exact .inl rfl
    rw [accountIsDirty, Script.run_bind]
    rcases hfield with hfield | hfield
    · rw [hfield]
      rfl
    rw [hfield]
    cases hg : (L.puts (.account u g)).isSome with
    | true => rfl
    | false =>
      rcases List.mem_cons.1 hf with rfl | hf
      · exact absurd (by simpa using hg) hput
      · exact ih hf

/-- An account that is committed puts its entry if one of its records has been put. -/
theorem prepared_commitAccount
    (hrun : ((commitAccount enc u fields).run (Layer.machine below) L).1 = .ok ()) :
    ∃ new, Prepared enc below L ((commitAccount enc u fields).run (Layer.machine below) L).2 new ∧
      ∀ f ∈ fields, L.puts (.account u f) ≠ none → ∃ hash, (u, hash) ∈ new := by
  have hresult : (commitAccount enc u fields).run (Layer.machine below) L =
      (.ok (), ((commitAccount enc u fields).run (Layer.machine below) L).2) :=
    Prod.ext hrun rfl
  generalize ((commitAccount enc u fields).run (Layer.machine below) L).2 = L' at hresult ⊢
  obtain ⟨dirty, L₀, hdirty, hresult⟩ := Script.run_bind_eq_ok.1 hresult
  have hsame : L₀ = L := by
    have hkeeps := Script.run_keeps (R := fun M : DbLayer => M = L) (M := Layer.machine below)
      (fun _ _ h => h) (fun _ _ _ hfalse _ => hfalse.elim) (fun _ _ hfalse _ => hfalse.elim)
      (putsIn_accountIsDirty (K := fun _ => False) (P := fun _ => False) u fields) rfl
    rwa [hdirty] at hkeeps
  subst hsame
  cases dirty with
  | false =>
    have hend : L₀ = L' := congrArg Prod.snd hresult
    rw [← hend]
    refine ⟨[], Prepared.refl enc below L₀, fun f hf hput => ?_⟩
    have htrue : (accountIsDirty u fields).run (Layer.machine below) L₀ = (.ok true, L₀) :=
      accountIsDirty_of_mem hf hput
    rw [hdirty] at htrue
    cases htrue
  | true =>
    obtain ⟨_, L₁, hcheck, hresult⟩ := Script.run_bind_eq_ok.1 hresult
    obtain ⟨_, L₂, hindex, hresult⟩ := Script.run_bind_eq_ok.1 hresult
    have hfirst : Prepared enc below L₀ ((checkMain enc u).run (Layer.machine below) L₀).2 [] :=
      prepared_run (putsIn_checkMain enc u)
    have hsecond : Prepared enc below L₁
        ((indexAnchors u fields).run (Layer.machine below) L₁).2 [] :=
      prepared_run (putsIn_indexAnchors trivial fields)
    rw [hcheck] at hfirst
    rw [hindex] at hsecond
    obtain ⟨hash, hthird⟩ := prepared_putBpt hresult
    exact ⟨_, (hfirst.trans hsecond).trans hthird, fun _ _ _ => ⟨hash, by simp⟩⟩

theorem prepared_prepare {records : List Opened}
    (hprepares : L.Prepares below (records.map (Opened.part enc))) :
    ∃ new, Prepared enc below L (L.prepare below (records.map (Opened.part enc))) new ∧
      ∀ u fields f, .account u fields ∈ records → f ∈ fields → L.puts (.account u f) ≠ none →
        ∃ hash, (u, hash) ∈ new := by
  induction records generalizing L with
  | nil => exact ⟨[], Prepared.refl enc below L, fun _ _ _ hmem => by cases hmem⟩
  | cons r records ih =>
    obtain ⟨hrun, hrest⟩ := hprepares
    obtain ⟨rest, hprepared, hdone⟩ := ih hrest
    -- what the first record does
    have hfirst : ∃ new, Prepared enc below L
        ((r.part enc).before.run (Layer.machine below) L).2 new ∧
          ∀ u fields f, r = .account u fields → f ∈ fields → L.puts (.account u f) ≠ none →
            ∃ hash, (u, hash) ∈ new := by
      cases r with
      | account u fields =>
        obtain ⟨new, hnew, hentry⟩ := prepared_commitAccount hrun
        refine ⟨new, hnew, fun v fields' f heq hf hput => ?_⟩
        cases heq
        exact hentry f hf hput
      | transaction h fields | systemData partition blocks =>
        exact ⟨[], Prepared.refl enc below L, fun _ _ _ heq => by cases heq⟩
    obtain ⟨new, hnew, hentry⟩ := hfirst
    refine ⟨rest ++ new, hnew.trans hprepared, fun u fields f hmem hf hput => ?_⟩
    rcases List.mem_cons.1 hmem with heq | hmem
    · obtain ⟨hash, hhash⟩ := hentry u fields f heq.symm hf hput
      exact ⟨hash, List.mem_append_right rest hhash⟩
    · obtain ⟨hash, hhash⟩ := hdone u fields f hmem hf (hnew.grow _ hput)
      exact ⟨hash, List.mem_append_left new hhash⟩

end Layer

end Records
end Accumulate.Database
