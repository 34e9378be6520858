import Accumulate.Database.HashState

/-!
# Nested batches of records

What nested batches of the database do to the contents of the database, for every nesting and every
sequence of operations.  The changes a commit lays over the parent are those made in the batch and
those that changed accounts make when they are committed: an account whose URL has not been stored
yet stores it, and the anchors of its synthetic transactions are entered into their index.
-/

namespace Accumulate.Database
namespace Records

open Library Protocol Record

/-! ## Records of a batch -/

/-- A record of a batch with the fields that have been opened. -/
inductive Opened where
  | account (url : Url) (fields : List AccountField)
  | transaction (hash : Hash) (fields : List TransactionField)
  | systemData (partition : String) (blocks : List Nat)

def Opened.fields : Opened → List Key
  | .account u fields => fields.map (.account u)
  | .transaction h fields => fields.map (.transaction h)
  | .systemData partition blocks => blocks.map (.systemData partition)

/-- The keys a record commits.  An account opens its URL, its chains and its synthetic anchors
itself when it is committed. -/
def Opened.keys : Opened → List Key
  | .account u fields => (.url :: .chains :: .syntheticAnchors :: fields).map (.account u)
  | .transaction h fields => fields.map (.transaction h)
  | .systemData partition blocks => blocks.map (.systemData partition)

def Opened.part (enc : Encoding) (r : Opened) : Part Key Key.Value (Url × Hash) where
  before :=
    match r with
    | .account u fields => commitAccount enc u fields
    | _ => pure ()
  keys := r.keys

/-- What is done with the innermost open batch. -/
inductive BatchOp where
  | begin (writable : Bool)
  | get (k : Key)
  | put (k : Key) (v : k.Value)
  | commit (records : List Opened)
  | discard

def BatchOp.op (enc : Encoding) : BatchOp → Op Key Key.Value (Url × Hash)
  | .begin writable => .begin writable
  | .get k => .get k
  | .put k v => .put k v
  | .commit records => .commit (records.map (Opened.part enc))
  | .discard => .discard

abbrev DbState : Type := State Key Key.Value (Url × Hash)

/-- The open batches as stacks of changes. -/
abbrev DbOverlay : Type := Overlay Key Key.Value (Url × Hash)

/-- Each commit is of records that hold everything that has been put into the batch. -/
def Complete (enc : Encoding) : List BatchOp → DbOverlay → Prop
  | [], _ => True
  | op :: ops, o =>
    (match op with
      | .commit records =>
        ∀ L rest, o.layers = L :: rest → ∀ k, L.puts k ≠ none → ∃ r ∈ records, k ∈ r.fields
      | _ => True) ∧ Complete enc ops (o.step enc.schema (op.op enc)).2

/-! ## What records write -/

section PutsIn

variable {K : Key → Prop} {P : Url × Hash → Prop} {α : Type} (enc : Encoding)

theorem putsIn_pure (a : α) : (pure a : RecordM α).PutsIn K P := trivial

theorem putsIn_throw (e : Error) : (throw e : RecordM α).PutsIn K P := trivial

theorem putsIn_get (k : Key) : (get k).PutsIn K P := by
  intro r
  cases r <;> trivial

theorem putsIn_tryGet (k : Key) : (tryGet k).PutsIn K P := fun _ => trivial

theorem putsIn_isDirty (k : Key) : (isDirty k).PutsIn K P := fun _ => trivial

theorem putsIn_put {k : Key} (v : k.Value) (hk : K k) : (put k v).PutsIn K P := ⟨hk, trivial⟩

theorem putsIn_ite {c : Prop} [Decidable c] {p q : RecordM α} (hp : p.PutsIn K P)
    (hq : q.PutsIn K P) : (if c then p else q).PutsIn K P := by
  split
  · exact hp
  · exact hq

theorem putsIn_hashValue (k : Key) (v : k.Value) : (hashValue enc k v).PutsIn K P := by
  unfold hashValue
  cases enc.marshal k v with
  | ok b => exact putsIn_pure _
  | error e => exact putsIn_throw e

theorem putsIn_hashEach {f : α → RecordM (List Hash)} (hf : ∀ a, (f a).PutsIn K P) (l : List α) :
    (hashEach f l).PutsIn K P := by
  induction l with
  | nil => exact putsIn_pure _
  | cons a rest ih => exact (hf a).bind fun _ => ih.bind fun _ => putsIn_pure _

variable {u : Url}

theorem putsIn_openChain (hchains : K (.account u .chains)) (c : Chain2) :
    (openChain u c).PutsIn K P :=
  (putsIn_get _).bind fun _ =>
    putsIn_ite (putsIn_get _) ((putsIn_put _ hchains).bind fun _ => putsIn_get _)

theorem putsIn_hashMain (u : Url) : (hashMain enc u).PutsIn K P := by
  refine (putsIn_tryGet _).bind fun r => ?_
  cases r with
  | ok a => exact putsIn_hashValue enc _ a
  | error e => exact putsIn_ite (putsIn_pure _) (putsIn_throw e)

theorem putsIn_hashTransaction (txid : TxID) : (hashTransaction enc txid).PutsIn K P :=
  (putsIn_get _).bind fun _ => (putsIn_hashValue enc _ _).bind fun _ =>
    (putsIn_get _).bind fun _ => (putsIn_hashValue enc _ _).bind fun _ => putsIn_pure _

theorem putsIn_hashState (hchains : K (.account u .chains)) : (hashState enc u).PutsIn K P := by
  have hchain : ∀ c, (hashChain enc u c).PutsIn K P := fun c =>
    (putsIn_openChain hchains c).bind fun _ => putsIn_ite (putsIn_pure _) (putsIn_pure _)
  have hchainHash : (hashChains enc u).PutsIn K P :=
    (putsIn_get _).bind fun _ => (putsIn_hashEach hchain _).bind fun _ => putsIn_pure _
  have htransactions : (hashTransactions enc u).PutsIn K P :=
    (putsIn_get _).bind fun _ =>
      (putsIn_hashEach (putsIn_hashTransaction enc) _).bind fun _ => putsIn_pure _
  have hsecondary : (hashSecondaryState enc u).PutsIn K P :=
    (putsIn_get _).bind fun _ => putsIn_pure _
  exact (putsIn_hashMain enc u).bind fun _ => hsecondary.bind fun _ =>
    hchainHash.bind fun _ => htransactions.bind fun _ => putsIn_pure _

theorem putsIn_putBpt (hurl : K (.account u .url)) (hchains : K (.account u .chains))
    (hnote : ∀ hash, P (u, hash)) : (putBpt enc u).PutsIn K P := by
  refine Script.PutsIn.bind ?_ fun _ =>
    (putsIn_hashState enc hchains).bind fun hash => ⟨hnote hash, trivial⟩
  refine (putsIn_tryGet _).bind fun r => ?_
  cases r with
  | ok v => exact putsIn_pure _
  | error e => exact putsIn_ite (putsIn_put _ hurl) (putsIn_throw _)

theorem putsIn_accountIsDirty (u : Url) (fields : List AccountField) :
    (accountIsDirty u fields).PutsIn K P := by
  induction fields with
  | nil => exact putsIn_pure _
  | cons field rest ih =>
    refine Script.PutsIn.bind ?_ fun _ => putsIn_ite (putsIn_pure _) ih
    cases field <;> first | exact putsIn_isDirty _ | exact putsIn_pure _

theorem putsIn_indexAnchors (hanchors : K (.account u .syntheticAnchors))
    (fields : List AccountField) : (indexAnchors u fields).PutsIn K P := by
  induction fields with
  | nil => exact putsIn_pure _
  | cons field rest ih =>
    cases field with
    | syntheticForAnchor anchor =>
      refine (putsIn_isDirty _).bind fun _ => putsIn_ite ?_ ih
      exact (putsIn_get _).bind fun _ => (putsIn_put _ hanchors).bind fun _ => ih
    | _ => exact ih

theorem putsIn_checkMain (u : Url) : (checkMain enc u).PutsIn K P := by
  refine (putsIn_isDirty _).bind fun _ => putsIn_ite ?_ (putsIn_pure _)
  refine (putsIn_tryGet _).bind fun r => ?_
  cases r with
  | ok a => exact putsIn_ite (putsIn_throw _) (putsIn_ite (putsIn_pure _) (putsIn_throw _))
  | error e => exact putsIn_ite (putsIn_pure _) (putsIn_throw _)

theorem putsIn_commitAccount (hurl : K (.account u .url)) (hchains : K (.account u .chains))
    (hanchors : K (.account u .syntheticAnchors)) (hnote : ∀ hash, P (u, hash))
    (fields : List AccountField) : (commitAccount enc u fields).PutsIn K P := by
  refine (putsIn_accountIsDirty u fields).bind fun _ => putsIn_ite ?_ (putsIn_pure _)
  exact (putsIn_checkMain enc u).bind fun _ => (putsIn_indexAnchors hanchors fields).bind fun _ =>
    putsIn_putBpt enc hurl hchains hnote

end PutsIn

/-! ## What a commit puts -/

abbrev DbLayer : Type := Layer Key Key.Value (Url × Hash)

abbrev Puts : Type := (k : Key) → Option k.Value

/-- The value of a record: the one that was put, or the one below. -/
def lookup (below : View) (puts : Puts) : View := Layer.contents below (⟨puts, [], true⟩ : DbLayer)

/-- A field of the account has been put.  A list of data entries that has been opened counts as
put. -/
def accountChanged (u : Url) (fields : List AccountField) (puts : Puts) : Bool :=
  fields.any fun f => f = .dataEntry || (puts (.account u f)).isSome

/-- The anchors whose synthetic transactions have been put. -/
def changedAnchors (u : Url) (fields : List AccountField) (puts : Puts) : List Hash :=
  fields.filterMap fun
    | .syntheticForAnchor anchor =>
      if (puts (.account u (.syntheticForAnchor anchor))).isSome then some anchor else none
    | _ => none

def addAnchor (index : List Hash) (anchor : Hash) : List Hash :=
  (upsert index (fun h => compare h.toNat anchor.toNat) anchor).1

/-- Put the index of the anchors with the given ones, unless there are none. -/
def putAnchors (below : View) (u : Url) (anchors : List Hash) (puts : Puts) : Puts :=
  if anchors = [] then puts
  else Function.update puts (.account u .syntheticAnchors)
    ((lookup below puts (.account u .syntheticAnchors)).toOption.map fun index : List Hash =>
      anchors.foldl addAnchor index)

/-- Put the URL of the account, unless there is one. -/
def putUrl (below : View) (u : Url) (puts : Puts) : Puts :=
  match lookup below puts (.account u .url) with
  | .ok _ => puts
  | .error _ => Function.update puts (.account u .url) (some u)

/-- What has been put after a record has been committed: a changed account enters the anchors of its
synthetic transactions into their index and stores its URL if there is none. -/
def Opened.putAll (below : View) (puts : Puts) : Opened → Puts
  | .account u fields =>
    if accountChanged u fields puts then
      putUrl below u (putAnchors below u (changedAnchors u fields puts) puts)
    else puts
  | _ => puts

section Prepare

variable {below : View} {L L' : DbLayer} {u v : Url} {enc : Encoding} {e : Error}

theorem run_get (k : Key) : (get k).run (Layer.machine below) L = (L.contents below k, L) := by
  have h := (readsIn_get (K := fun _ => True) (k := k) trivial).run
    (M := Layer.machine below) (s := L) fun _ _ => rfl
  rw [h, eval_get]

theorem run_hashState (u : Url) :
    (hashState enc u).run (Layer.machine below) L = (hashOf enc (L.contents below) u, L) :=
  (readsIn_hashState enc (L.contents below) u).run fun _ _ => rfl

theorem run_tryGet (k : Key) :
    (tryGet k).run (Layer.machine below) L = (.ok (L.contents below k), L) := rfl

theorem run_populateUrl_ok (h : L.contents below (.account u .url) = .ok v) :
    (populateUrl u).run (Layer.machine below) L = (.ok (), L) := by
  rw [populateUrl, Script.run_bind, run_tryGet, h]
  rfl

theorem run_populateUrl_missing (h : L.contents below (.account u .url) = .error e)
    (he : e.is .notFound = true) :
    (populateUrl u).run (Layer.machine below) L = (.ok (), L.put (.account u .url) u) := by
  rw [populateUrl, Script.run_bind, run_tryGet, h]
  simp only [he]
  rfl

theorem run_populateUrl_error (h : L.contents below (.account u .url) = .error e)
    (he : e.is .notFound = false) :
    (populateUrl u).run (Layer.machine below) L = (.error e.wrap, L) := by
  rw [populateUrl, Script.run_bind, run_tryGet, h]
  simp only [he]
  rfl

theorem run_accountIsDirty (fields : List AccountField) :
    (accountIsDirty u fields).run (Layer.machine below) L =
      (.ok (accountChanged u fields L.puts), L) := by
  induction fields with
  | nil => rfl
  | cons field rest ih =>
    have hfield : (fieldIsDirty u field).run (Layer.machine below) L =
        (.ok (field = .dataEntry || (L.puts (.account u field)).isSome), L) := by
      cases field <;> rfl
    unfold accountIsDirty
    rw [Script.run_bind, hfield]
    simp only [accountChanged, List.any_cons]
    cases hdirty : (field = .dataEntry || (L.puts (.account u field)).isSome : Bool) with
    | true => rfl
    | false => exact ih

theorem run_isDirty (k : Key) :
    (isDirty k).run (Layer.machine below) L = (.ok (L.puts k).isSome, L) := rfl

theorem changedAnchors_put (fields : List AccountField) (v : List Hash) :
    changedAnchors u fields (L.put (.account u .syntheticAnchors) v).puts =
      changedAnchors u fields L.puts := by
  have hput : ∀ anchor, (L.put (.account u .syntheticAnchors) v).puts
      (.account u (.syntheticForAnchor anchor)) =
        L.puts (.account u (.syntheticForAnchor anchor)) :=
    fun anchor => Function.update_of_ne (by simp) _ _
  simp only [changedAnchors, hput]

theorem putAnchors_cons {puts : Puts} {index : List Hash} (a : Hash) (anchors : List Hash)
    (h : lookup below puts (.account u .syntheticAnchors) = .ok index) :
    putAnchors below u (a :: anchors) puts = putAnchors below u anchors
      (Function.update puts (.account u .syntheticAnchors) (some (addAnchor index a))) := by
  have hnew : lookup below (Function.update puts (.account u .syntheticAnchors)
      (some (addAnchor index a))) (.account u .syntheticAnchors) = .ok (addAnchor index a) := by
    simp [lookup, Layer.contents]
  unfold putAnchors
  rw [if_neg (List.cons_ne_nil _ _), h, hnew]
  split
  · subst anchors
    rfl
  · simp [Except.toOption]

theorem run_indexAnchors_puts {fields : List AccountField}
    (h : (indexAnchors u fields).run (Layer.machine below) L = (.ok (), L')) :
    L'.puts = putAnchors below u (changedAnchors u fields L.puts) L.puts := by
  induction fields generalizing L with
  | nil =>
    cases h
    rfl
  | cons field rest ih =>
    cases field with
    | syntheticForAnchor anchor =>
      unfold indexAnchors at h
      rw [Script.run_bind, run_isDirty] at h
      rw [changedAnchors, List.filterMap_cons]
      dsimp only
      cases hdirty : (L.puts (.account u (.syntheticForAnchor anchor))).isSome with
      | false =>
        rw [hdirty] at h
        exact ih h
      | true =>
        rw [hdirty] at h
        obtain ⟨index, L₁, hget, h⟩ := Script.run_bind_eq_ok.1 h
        rw [run_get] at hget
        obtain ⟨hindex, rfl⟩ := Prod.mk.inj hget
        have hrest := ih (L := L.put (.account u .syntheticAnchors) (addAnchor index anchor)) h
        rw [changedAnchors_put] at hrest
        exact hrest.trans (putAnchors_cons anchor _ hindex).symm
    | _ => exact ih h

theorem run_populateUrl_puts
    (h : (populateUrl u).run (Layer.machine below) L = (.ok (), L')) :
    L'.puts = putUrl below u L.puts := by
  have hlookup : lookup below L.puts (.account u .url) = L.contents below (.account u .url) := rfl
  cases hurl : L.contents below (.account u .url) with
  | ok v =>
    rw [run_populateUrl_ok hurl] at h
    cases h
    rw [putUrl, hlookup, hurl]
  | error e =>
    cases he : e.is .notFound with
    | false =>
      rw [run_populateUrl_error hurl he] at h
      cases h
    | true =>
      rw [run_populateUrl_missing hurl he] at h
      cases h
      rw [putUrl, hlookup, hurl]
      rfl

theorem run_commitAccount_puts {fields : List AccountField}
    (h : (commitAccount enc u fields).run (Layer.machine below) L = (.ok (), L')) :
    L'.puts = (Opened.account u fields).putAll below L.puts := by
  unfold commitAccount at h
  rw [Script.run_bind, run_accountIsDirty] at h
  simp only [Opened.putAll]
  cases hchanged : accountChanged u fields L.puts with
  | false =>
    rw [hchanged] at h
    cases h
    rfl
  | true =>
    rw [hchanged] at h
    obtain ⟨⟨⟩, L₁, hcheck, h⟩ := Script.run_bind_eq_ok.1 h
    obtain ⟨⟨⟩, L₂, hindex, h⟩ := Script.run_bind_eq_ok.1 h
    obtain ⟨⟨⟩, L₃, hurl, h⟩ := Script.run_bind_eq_ok.1 h
    have hmain : L₁.puts = L.puts := by
      funext k
      have hkept : (Script.run (Layer.machine below) _ L).2.puts k = _ := Layer.run_puts
        (putsIn_checkMain (K := fun _ => False) (P := fun _ => False) enc u) id
      rwa [hcheck] at hkept
    have hlast : L'.puts = L₃.puts := by
      obtain ⟨hash, L₄, hhash, h⟩ := Script.run_bind_eq_ok.1 h
      rw [run_hashState] at hhash
      obtain ⟨-, rfl⟩ := Prod.mk.inj hhash
      cases h
      rfl
    rw [hlast, run_populateUrl_puts hurl, run_indexAnchors_puts hindex, hmain]
    rfl

/-- What the records of a batch put when they are committed. -/
theorem prepare_puts {records : List Opened}
    (h : L.Prepares below (records.map (Opened.part enc))) :
    (L.prepare below (records.map (Opened.part enc))).puts =
      records.foldl (Opened.putAll below) L.puts := by
  induction records generalizing L with
  | nil => rfl
  | cons r records ih =>
    have hfirst : ((r.part enc).before.run (Layer.machine below) L).2.puts =
        r.putAll below L.puts := by
      cases r with
      | account u fields => exact run_commitAccount_puts (Prod.ext h.1 rfl)
      | transaction hash fields | systemData partition blocks => rfl
    rw [List.foldl_cons, ← hfirst]
    exact ih h.2

end Prepare
/-! ## Runs -/

variable {k : Key} {enc : Encoding}

theorem Opened.mem_keys {r : Opened} (h : k ∈ r.fields) : k ∈ r.keys := by
  cases r with
  | account u fields =>
    simp only [Opened.keys, List.map_cons, List.mem_cons] at h ⊢
    exact .inr (.inr (.inr h))
  | transaction hash fields => exact h
  | systemData partition blocks => exact h

theorem putsIn_part (enc : Encoding) (r : Opened) :
    (r.part enc).before.PutsIn (· ∈ (r.part enc).keys) fun _ => True := by
  cases r with
  | account u fields =>
    exact putsIn_commitAccount enc (by simp [Opened.part, Opened.keys])
      (by simp [Opened.part, Opened.keys]) (by simp [Opened.part, Opened.keys])
      (fun _ => trivial) fields
  | transaction h fields | systemData partition blocks => exact putsIn_pure _

theorem putsIn_parts (enc : Encoding) (records : List Opened) :
    ∀ part ∈ records.map (Opened.part enc),
      part.before.PutsIn (· ∈ part.keys) fun _ => True := by
  intro part hpart
  obtain ⟨r, -, rfl⟩ := List.mem_map.1 hpart
  exact putsIn_part enc r

theorem exists_part {records : List Opened} (h : ∃ r ∈ records, k ∈ r.fields) :
    ∃ part ∈ records.map (Opened.part enc), k ∈ part.keys := by
  obtain ⟨r, hr, hkey⟩ := h
  exact ⟨r.part enc, List.mem_map.2 ⟨r, hr, rfl⟩, Opened.mem_keys hkey⟩

theorem Complete.legalRun {ops : List BatchOp} {o : DbOverlay}
    (h : Complete enc ops o) : LegalRun enc.schema (ops.map (BatchOp.op enc)) o := by
  induction ops generalizing o with
  | nil => trivial
  | cons op ops ih =>
    refine ⟨?_, ih h.2⟩
    cases op with
    | commit records =>
      exact ⟨putsIn_parts enc records,
        fun L rest hlayers k hk => exists_part (h.1 L rest hlayers k hk)⟩
    | _ => trivial

/-- What each commit of a run lays over the parent, or over what is stored, is what has been put in
the batch and what its records put when they are committed. -/
def CommitsPut (enc : Encoding) : List BatchOp → DbOverlay → Prop
  | [], _ => True
  | op :: ops, o =>
    (match op with
      | .commit records => ∀ L rest, o.layers = L :: rest →
        (L.prepare (view enc.schema o.store rest) (records.map (·.part enc))).puts =
          records.foldl (Opened.putAll (view enc.schema o.store rest)) L.puts
      | _ => True) ∧ CommitsPut enc ops (o.step enc.schema (op.op enc)).2

theorem commitsPut_of_refines {ops : List BatchOp} {s : DbState} {o : DbOverlay}
    (h : Refines enc.schema s o) (hcomplete : Complete enc ops o)
    (hok : ∀ e, .failed e ∉ (s.run enc.schema (ops.map (·.op enc))).1) :
    CommitsPut enc ops o := by
  induction ops generalizing s o with
  | nil => trivial
  | cons op ops ih =>
    have hlegal := hcomplete.legalRun.1
    simp only [List.map_cons, State.run, List.mem_cons, not_or] at hok
    have hstep := h.step hlegal fun e he => (hok e).1 he.symm
    refine ⟨?_, ih hstep.2 hcomplete.2 fun e => (hok e).2⟩
    cases op with
    | commit records =>
      intro L rest hlayers
      cases hb : s.batch with
      | none => cases hlayers.symm.trans (h.closed hb)
      | some b =>
        rcases hcommit : s.commit enc.schema (records.map (·.part enc)) b with ⟨e | ⟨⟩, s'⟩
        · exact absurd (by simp only [BatchOp.op, State.step, hb, hcommit]) (hok e).1
        · rw [← h.store]
          exact prepare_puts (h.prepares hb hlayers hlegal hcommit).1
    | _ => trivial

/-- Nested batches are stacks of changes.  In every run without a failing commit, every `Get` gives
the value that was put last in the innermost batch that has one, or what is stored, and a commit
lays over its parent what has been put in the batch, with the URLs and the indices of anchors that
its changed accounts put. -/
theorem run_eq_overlay (enc : Encoding) (db : Key → Option Bytes) (bpt : List (Url × Hash))
    (ops : List BatchOp) (hcomplete : Complete enc ops ⟨[], db, bpt⟩)
    (hok : ∀ e, .failed e ∉ ((⟨none, db, bpt⟩ : DbState).run enc.schema (ops.map (·.op enc))).1) :
    let s := (⟨none, db, bpt⟩ : DbState).run enc.schema (ops.map (·.op enc))
    let o := (⟨[], db, bpt⟩ : DbOverlay).run enc.schema (ops.map (·.op enc))
    s.1 = o.1 ∧ CommitsPut enc ops ⟨[], db, bpt⟩ ∧ ∀ b, s.2.batch = some b →
      ∀ k, (b.get enc.schema s.2.db k).1 = view enc.schema o.2.store o.2.layers k := by
  have hstart : Refines enc.schema (⟨none, db, bpt⟩ : DbState) ⟨[], db, bpt⟩ :=
    ⟨rfl, rfl, fun _ => rfl, fun b hb => by cases hb⟩
  obtain ⟨houtputs, hend⟩ := hstart.run hcomplete.legalRun hok
  refine ⟨houtputs, commitsPut_of_refines hstart hcomplete hok, fun b hb k => ?_⟩
  rw [← hend.store]
  exact ((hend.opened b hb).get k).1

def zeroEncoding : Encoding where
  marshal := fun _ _ => .ok [0]
  unmarshal := fun _ _ => .error (.plain "unreadable")
  sha256 := fun _ => 0
  combine := fun _ _ => 0
  urlHash := fun _ => 0
  isWord := Char.isAlphanum

def aliceUrl : Url := ⟨.named "alice", []⟩

def badUrl : Url := ⟨.named "alice", ["*"]⟩

/-- The main state of an identity and the synthetic transactions of an anchor are put into a child
batch, which is committed. -/
def aliceOps : List BatchOp :=
  [.begin true, .begin true, .put (.account aliceUrl .main) (.liteIdentity aliceUrl 0 0),
    .put (.account aliceUrl (.syntheticForAnchor 5)) [],
    .commit [.account aliceUrl [.main, .syntheticForAnchor 5]], .get (.account aliceUrl .main),
    .get (.account aliceUrl .syntheticAnchors)]

theorem run_eq_overlay_alice :
    ((⟨none, fun _ => none, []⟩ : DbState).run zeroEncoding.schema
        (aliceOps.map (·.op zeroEncoding))).1 =
      ((⟨[], fun _ => none, []⟩ : DbOverlay).run zeroEncoding.schema
        (aliceOps.map (·.op zeroEncoding))).1 ∧
      CommitsPut zeroEncoding aliceOps ⟨[], fun _ => none, []⟩ := by
  refine (run_eq_overlay zeroEncoding (fun _ => none) [] aliceOps ?_ ?_).imp_right And.left
  · refine ⟨trivial, trivial, trivial, trivial, ?_, trivial, trivial, trivial⟩
    intro L rest hlayers k hk
    cases hlayers
    refine ⟨_, List.mem_singleton.2 rfl, ?_⟩
    by_contra hnot
    simp only [Opened.fields, List.map_cons, List.map_nil, List.mem_cons, List.not_mem_nil,
      or_false, not_or] at hnot
    exact hk ((Function.update_of_ne hnot.2 _ _).trans (Function.update_of_ne hnot.1 _ _))
  · intro e he
    have houtputs : ((⟨none, fun _ => none, []⟩ : DbState).run zeroEncoding.schema
        (aliceOps.map (·.op zeroEncoding))).1 =
          [.done, .done, .done, .done, .done,
            .got (.account aliceUrl .main) (.ok (.liteIdentity aliceUrl 0 0)),
            .got (.account aliceUrl .syntheticAnchors) (.ok [5])] := rfl
    rw [houtputs] at he
    simp at he

/-- The URL of an account is found in the parent after the main state of the account has been put
into a child and the child has been committed, although no URL has been put: the changes of the
child over those of the parent do not have one.  After a commit that fails, the parent has the
main state of the account that was committed first. -/
theorem commit_puts_url :
    ((⟨none, fun _ => none, []⟩ : DbState).run zeroEncoding.schema
      ([.begin true, .begin true, .put (.account aliceUrl .main) (.liteIdentity aliceUrl 0 0),
        .commit [.account aliceUrl [.main]],
        .get (.account aliceUrl .url)].map (BatchOp.op zeroEncoding))).1 =
        [.done, .done, .done, .done, .got (.account aliceUrl .url) (.ok aliceUrl)] ∧
      view (N := Url × Hash) zeroEncoding.schema (fun _ => none)
        [((Layer.new true).put (.account aliceUrl .main) (.liteIdentity aliceUrl 0 0)).over
          (.new true)] (.account aliceUrl .url) = .error (.notFound "account url not found") ∧
      ((⟨none, fun _ => none, []⟩ : DbState).run zeroEncoding.schema
        ([.begin true, .begin true, .put (.account aliceUrl .main) (.liteIdentity aliceUrl 0 0),
          .put (.account badUrl .main) (.liteIdentity badUrl 0 0),
          .commit [.account aliceUrl [.main], .account badUrl [.main]],
          .get (.account aliceUrl .main), .get (.account badUrl .main)].map
            (BatchOp.op zeroEncoding))).1 =
        [.done, .done, .done, .done, .failed (Error.new .badRequest "invalid path").wrap,
          .got (.account aliceUrl .main) (.ok (.liteIdentity aliceUrl 0 0)),
          .got (.account badUrl .main) (.error (.notFound "account main not found"))] :=
  ⟨rfl, rfl, rfl⟩

end Records
end Accumulate.Database
