import Accumulate.Record.Overlay

/-!
# Batches refine stacks of changes

A batch with cached values represents a stack of changes: the changed values are the changes, and a
value that was loaded and not changed is the one the stack below gives.  The operations keep this.

While a batch is being committed, the code of some records runs when the values of others have been
passed on already.  Such a batch still behaves like its changes over the parent as it was before,
because only values that have been changed are passed on, and these are not looked up in the parent
(`Committing`).
-/

namespace Accumulate.Record

open Library Protocol

variable {κ : Type} {V : κ → Type} {N : Type}

/-! ## Loaded values -/

section Load

variable (S : Schema κ V) (store : κ → Option Bytes) {k : κ} {e : Error}

def Schema.missing (S : Schema κ V) (k : κ) : Error := .notFound (S.name k ++ " not found")

/-- What the store gave stays the same when it is loaded from a batch that has loaded it. -/
def Schema.Settled (S : Schema κ V) (k : κ) (r : Except Error (V k)) : Prop :=
  (S.load k (r.mapError .wrap)).1 = r

theorem load_error_of_is (h : e.is .notFound = true) :
    S.load k (.error e) =
      match S.new k with
      | some v => (.ok v, .clean v)
      | none => (.error (S.missing k), .notFound) := by
  cases hnew : S.new k <;> simp [Schema.load, h, hnew, Schema.missing]

theorem load_error_of_not_is (h : e.is .notFound = false) :
    S.load k (.error e) = (.error e.wrap, .undefined) := by
  simp [Schema.load, h]

theorem settled_missing (h : S.new k = none) : S.Settled k (.error (S.missing k)) := by
  have his : (S.missing k).wrap.is .notFound = true := rfl
  show (S.load k (.error (S.missing k).wrap)).1 = _
  rw [load_error_of_is S his, h]

theorem settled_load (k : κ) (r : Except Error (V k)) :
    S.Settled k (S.load k (r.mapError .wrap)).1 := by
  cases r with
  | ok v => rfl
  | error e =>
    show S.Settled k (S.load k (.error e.wrap)).1
    cases his : e.wrap.is .notFound with
    | false =>
      rw [load_error_of_not_is S his]
      show (S.load k (.error e.wrap)).1 = _
      rw [load_error_of_not_is S his]
    | true =>
      rw [load_error_of_is S his]
      cases hnew : S.new k with
      | some v => rfl
      | none => exact settled_missing S hnew

theorem getValue_wrapped (k : κ) (b : Option Bytes) :
    (S.getValue k b).mapError .wrap = S.getValue k b := by
  rcases b with _ | _ | ⟨x, rest⟩
  · rfl
  · rfl
  · show ((S.unmarshal k (x :: rest)).mapError Error.wrap).mapError Error.wrap =
      (S.unmarshal k (x :: rest)).mapError Error.wrap
    cases S.unmarshal k (x :: rest) <;> rfl

theorem settled_view (below : List (Layer κ V N)) (k : κ) : S.Settled k (view S store below k) := by
  induction below with
  | nil =>
    rw [view_nil, Schema.fetch, ← getValue_wrapped]
    exact settled_load S k _
  | cons l below ih =>
    cases hput : l.puts k with
    | some v =>
      rw [view_cons_some S store hput]
      rfl
    | none =>
      rw [view_cons_none S store hput]
      exact ih

end Load

/-! ## Levels -/

/-- A value with its status stands for a change, or for what is below. -/
def Mirrors {α : Type} (below : Except Error α) (missing : Error) : Value α → Option α → Prop
  | .undefined, none => True
  | .notFound, none => below = .error missing
  | .clean v, none => below = .ok v
  | .dirty v, some w => v = w
  | _, _ => False

/-- The fields of a batch stand for changes over what is below. -/
structure LevelOf (S : Schema κ V) (below : (k : κ) → Except Error (V k)) (l : Level κ V N)
    (L : Layer κ V N) : Prop where
  values : ∀ k, Mirrors (below k) (S.missing k) (l.values k) (L.puts k)
  entries : l.bptEntries = L.entries
  writable : l.writable = L.writable

section Level

variable {S : Schema κ V} {below : (k : κ) → Except Error (V k)} {l : Level κ V N} {L : Layer κ V N}

theorem mirrors_load (k : κ) (r : Except Error (V k)) :
    Mirrors (S.load k r).1 (S.missing k) (S.load k r).2 none := by
  cases r with
  | ok v => rfl
  | error e =>
    cases his : e.is .notFound with
    | false =>
      rw [load_error_of_not_is S his]
      trivial
    | true =>
      rw [load_error_of_is S his]
      cases S.new k <;> rfl

variable {k : κ} {v : V k}

section

variable (h : LevelOf S below l L)

include h

theorem LevelOf.puts_of_dirty (hv : l.values k = .dirty v) : L.puts k = some v := by
  have hk := h.values k
  rw [hv] at hk
  cases hput : L.puts k with
  | none => simp [hput, Mirrors] at hk
  | some w =>
    rw [hput] at hk
    rw [show v = w from hk]

theorem LevelOf.puts_of_not_dirty (hv : (l.values k).isDirty = false) : L.puts k = none := by
  have hk := h.values k
  cases hput : L.puts k with
  | none => rfl
  | some w => cases hval : l.values k <;> simp_all [Mirrors, Value.isDirty]

theorem LevelOf.below_of_clean (hv : l.values k = .clean v) : below k = .ok v := by
  have hk := h.values k
  rw [hv, h.puts_of_not_dirty (by rw [hv]; rfl)] at hk
  exact hk

theorem LevelOf.below_of_notFound (hv : l.values k = .notFound) :
    below k = .error (S.missing k) := by
  have hk := h.values k
  rw [hv, h.puts_of_not_dirty (by rw [hv]; rfl)] at hk
  exact hk

theorem LevelOf.isDirty (k : κ) : (l.values k).isDirty = (L.puts k).isSome := by
  cases hv : (l.values k).isDirty with
  | false => rw [h.puts_of_not_dirty hv]; rfl
  | true =>
    cases hval : l.values k with
    | dirty v => rw [h.puts_of_dirty hval]; rfl
    | _ => simp [hval, Value.isDirty] at hv

end

theorem levelOf_new (writable : Bool) : LevelOf S below (.new (N := N) writable) (.new writable) :=
  ⟨fun _ => trivial, rfl, rfl⟩

variable [DecidableEq κ]

theorem LevelOf.load (h : LevelOf S below l L) (hv : l.values k = .undefined)
    {r : Except Error (V k)} (hr : (S.load k r).1 = below k) :
    LevelOf S below (Batch.setValue k (S.load k r).2 l) L := by
  refine ⟨fun j => ?_, h.entries, h.writable⟩
  by_cases hj : j = k
  · subst hj
    rw [h.puts_of_not_dirty (by rw [hv]; rfl), ← hr]
    simpa [Batch.setValue] using mirrors_load j r
  · simpa [Batch.setValue, hj] using h.values j

theorem LevelOf.put (h : LevelOf S below l L) (k : κ) (v : V k) :
    LevelOf S below (Batch.setValue k (.dirty v) l) (L.put k v) := by
  refine ⟨fun j => ?_, h.entries, h.writable⟩
  by_cases hj : j = k
  · subst hj
    simp [Batch.setValue, Layer.put, Mirrors]
  · simpa [Batch.setValue, Layer.put, hj] using h.values j

end Level

/-! ## Batches -/

theorem Layer.ne_of_puts (L : Layer κ V N) {j k : κ} {v : V k} (hk : L.puts k = some v)
    (hj : L.puts j = none) : j ≠ k := by
  rintro rfl
  simp [hk] at hj

/-- The batch and its ancestors stand for a stack of changes over what is stored. -/
inductive Represents (S : Schema κ V) (db : κ → Option Bytes) :
    Batch κ V N → List (Layer κ V N) → Prop
  | root {l : Level κ V N} {L : Layer κ V N} (hlevel : LevelOf S (S.fetch db) l L)
      (hkv : ∀ k, L.puts k = none → l.kvstore k = none) : Represents S db (.root l) [L]
  | child {l : Level κ V N} {p : Batch κ V N} {L : Layer κ V N} {below : List (Layer κ V N)}
      (hlevel : LevelOf S (view S db below) l L) (hkv : l.kvstore = fun _ => none)
      (hp : Represents S db p below) : Represents S db (.child l p) (L :: below)

/-- The batch is being committed: it stands for changes, the ones below it for a stack.  The changes
of the keys that do not remain have been passed on. -/
inductive Committing (S : Schema κ V) (db : κ → Option Bytes) (remains : κ → Prop) :
    Batch κ V N → Layer κ V N → List (Layer κ V N) → Prop
  | root {l : Level κ V N} {L : Layer κ V N} (hlevel : LevelOf S (S.fetch db) l L)
      (hkv : ∀ k, L.puts k = none → l.kvstore k = none)
      (hdone : ∀ k v, L.puts k = some v → ¬ remains k →
        ∃ b, S.marshal k v = .ok b ∧ l.kvstore k = some b) :
      Committing S db remains (.root l) L []
  | child {l : Level κ V N} {p : Batch κ V N} {L P P' : Layer κ V N} {rest : List (Layer κ V N)}
      (hlevel : LevelOf S (view S db (P :: rest)) l L) (hkv : l.kvstore = fun _ => none)
      (hp : Represents S db p (P' :: rest))
      (hkeep : ∀ k, L.puts k = none → P'.puts k = P.puts k)
      (hdone : ∀ k v, L.puts k = some v → ¬ remains k → P'.puts k = some v)
      (hentries : P'.entries = P.entries) (hwritable : P'.writable = P.writable) :
      Committing S db remains (.child l p) L (P :: rest)

section Commands

variable {S : Schema κ V} {db : κ → Option Bytes} {b : Batch κ V N} {L : Layer κ V N}
variable {below : List (Layer κ V N)} {remains : κ → Prop} {k : κ} {l : Level κ V N}
  {stack : List (Layer κ V N)}

theorem Represents.levelOf (h : Represents S db b (L :: below)) :
    LevelOf S (view S db below) b.level L := by
  cases h with
  | root hlevel hkv | child hlevel hkv hp => exact hlevel

theorem Represents.ne_nil (h : Represents S db b stack) : ∃ L below, stack = L :: below := by
  cases h <;> exact ⟨_, _, rfl⟩

theorem Committing.levelOf (h : Committing S db remains b L below) :
    LevelOf S (view S db below) b.level L := by
  cases h with
  | root hlevel hkv hdone | child hlevel hkv hp hkeep hdone hentries hwritable => exact hlevel

theorem Committing.mono {remains' : κ → Prop} (h : Committing S db remains b L below)
    (hsub : ∀ k, remains k → remains' k) : Committing S db remains' b L below := by
  cases h with
  | root hlevel hkv hdone =>
    exact .root hlevel hkv fun k v hput hk => hdone k v hput fun hr => hk (hsub k hr)
  | child hlevel hkv hp hkeep hdone hentries hwritable =>
    exact .child hlevel hkv hp hkeep (fun k v hput hk => hdone k v hput fun hr => hk (hsub k hr))
      hentries hwritable

theorem Represents.committing (h : Represents S db b (L :: below))
    (hcover : ∀ k, L.puts k ≠ none → remains k) : Committing S db remains b L below := by
  have hnone : ∀ k v, L.puts k = some v → ¬ remains k → False :=
    fun k v hput hk => hk (hcover k (by rw [hput]; simp))
  cases h with
  | root hlevel hkv => exact .root hlevel hkv fun k v hput hk => (hnone k v hput hk).elim
  | child hlevel hkv hp =>
    obtain ⟨P, rest, rfl⟩ := hp.ne_nil
    exact .child hlevel hkv hp (fun _ _ => rfl) (fun k v hput hk => (hnone k v hput hk).elim)
      rfl rfl

theorem LevelOf.view_eq (h : LevelOf S (view S db below) l L) {v : V k}
    (hv : l.values k = .clean v ∨ l.values k = .dirty v) : view S db (L :: below) k = .ok v := by
  rcases hv with hv | hv
  · rw [view_cons_none S db (h.puts_of_not_dirty (by rw [hv]; rfl)), h.below_of_clean hv]
  · exact view_cons_some S db (h.puts_of_dirty hv)

theorem LevelOf.view_eq_missing (h : LevelOf S (view S db below) l L)
    (hv : l.values k = .notFound) : view S db (L :: below) k = .error (S.missing k) := by
  rw [view_cons_none S db (h.puts_of_not_dirty (by rw [hv]; rfl)), h.below_of_notFound hv]

variable [DecidableEq κ]

/-- `Value.Get` gives the value of the stack.  The values it loads on the way stand for no
changes. -/
theorem Represents.get (h : Represents S db b stack) (k : κ) :
    (b.get S db k).1 = view S db stack k ∧ Represents S db (b.get S db k).2 stack := by
  induction h with
  | @root l L hlevel hkv =>
    have hroot : LevelOf S (view (N := N) S db []) l L := hlevel
    cases hv : l.values k with
    | notFound =>
      simp only [Batch.get, hv]
      exact ⟨(hroot.view_eq_missing hv).symm, .root hlevel hkv⟩
    | clean v =>
      simp only [Batch.get, hv]
      exact ⟨(hroot.view_eq (.inl hv)).symm, .root hlevel hkv⟩
    | dirty v =>
      simp only [Batch.get, hv]
      exact ⟨(hroot.view_eq (.inr hv)).symm, .root hlevel hkv⟩
    | undefined =>
      have hput : L.puts k = none := hlevel.puts_of_not_dirty (by rw [hv]; rfl)
      simp only [Batch.get, hv, hkv k hput]
      rw [view_cons_none S db hput]
      exact ⟨rfl, .root (hlevel.load hv rfl) hkv⟩
  | @child l p L below hlevel hkv hp ih =>
    cases hv : l.values k with
    | notFound =>
      simp only [Batch.get, hv]
      exact ⟨(hlevel.view_eq_missing hv).symm, .child hlevel hkv hp⟩
    | clean v =>
      simp only [Batch.get, hv]
      exact ⟨(hlevel.view_eq (.inl hv)).symm, .child hlevel hkv hp⟩
    | dirty v =>
      simp only [Batch.get, hv]
      exact ⟨(hlevel.view_eq (.inr hv)).symm, .child hlevel hkv hp⟩
    | undefined =>
      have hput : L.puts k = none := hlevel.puts_of_not_dirty (by rw [hv]; rfl)
      have hsettled := settled_view S db below k
      simp only [Batch.get, hv, ih.1]
      rw [view_cons_none S db hput]
      exact ⟨hsettled, .child (hlevel.load hv hsettled) hkv ih.2⟩

theorem Represents.put (h : Represents S db b (L :: below)) (k : κ) (v : V k) :
    Represents S db (b.put k v) (L.put k v :: below) := by
  cases h with
  | root hlevel hkv =>
    refine .root (hlevel.put k v) fun j hj => hkv j ?_
    by_cases hjk : j = k
    · subst hjk
      simp [Layer.put] at hj
    · simpa [Layer.put, hjk] using hj
  | child hlevel hkv hp => exact .child (hlevel.put k v) hkv hp

/-! ## Commits -/

/-- The code of a record runs in a batch that is being committed as it runs over the changes of the
batch, if it writes only to keys that remain. -/
theorem committing_simulates (S : Schema κ V) (db : κ → Option Bytes) (remains : κ → Prop)
    (below : List (Layer κ V N)) :
    Simulates remains (Batch.machine S db) (Layer.machine (view S db below))
      (fun b L => Committing S db remains b L below) where
  get := by
    intro b L k h
    show (b.get S db k).1 = view S db (L :: below) k ∧
      Committing S db remains (b.get S db k).2 L below
    cases h with
    | @root l L hlevel hkv hdone =>
      have hget := (Represents.root hlevel hkv).get k
      refine ⟨hget.1, ?_⟩
      cases hv : l.values k with
      | undefined =>
        have hput : L.puts k = none := hlevel.puts_of_not_dirty (by rw [hv]; rfl)
        simp only [Batch.get, hv, hkv k hput]
        exact .root (hlevel.load hv rfl) hkv hdone
      | _ =>
        simp only [Batch.get, hv]
        exact .root hlevel hkv hdone
    | @child l p L P P' rest hlevel hkv hp hkeep hdone hentries hwritable =>
      cases hv : l.values k with
      | notFound =>
        simp only [Batch.get, hv]
        exact ⟨(hlevel.view_eq_missing hv).symm,
          .child hlevel hkv hp hkeep hdone hentries hwritable⟩
      | clean v =>
        simp only [Batch.get, hv]
        exact ⟨(hlevel.view_eq (.inl hv)).symm,
          .child hlevel hkv hp hkeep hdone hentries hwritable⟩
      | dirty v =>
        simp only [Batch.get, hv]
        exact ⟨(hlevel.view_eq (.inr hv)).symm,
          .child hlevel hkv hp hkeep hdone hentries hwritable⟩
      | undefined =>
        -- the value is not among the changes, so it has not been passed on
        have hput : L.puts k = none := hlevel.puts_of_not_dirty (by rw [hv]; rfl)
        have hparent : view S db (P' :: rest) k = view S db (P :: rest) k := by
          simp only [view, Layer.contents, hkeep k hput]
        have hget := hp.get k
        have hsettled := settled_view S db (P :: rest) k
        simp only [Batch.get, hv, hget.1, hparent]
        rw [view_cons_none S db hput]
        exact ⟨hsettled,
          .child (hlevel.load hv hsettled) hkv hget.2 hkeep hdone hentries hwritable⟩
  put := by
    intro b L k v hk h
    have hputs : ∀ j, (L.put k v).puts j = none → L.puts j = none := by
      intro j hj
      by_cases hjk : j = k
      · subst hjk
        simp [Layer.put] at hj
      · simpa [Layer.put, hjk] using hj
    have hsome : ∀ j w, (L.put k v).puts j = some w → ¬ remains j → L.puts j = some w := by
      intro j w hj hremains
      have hjk : j ≠ k := fun heq => hremains (heq ▸ hk)
      simpa [Layer.put, hjk] using hj
    cases h with
    | root hlevel hkv hdone =>
      exact .root (hlevel.put k v) (fun j hj => hkv j (hputs j hj))
        fun j w hj hr => hdone j w (hsome j w hj hr) hr
    | child hlevel hkv hp hkeep hdone hentries hwritable =>
      exact .child (hlevel.put k v) hkv hp (fun j hj => hkeep j (hputs j hj))
        (fun j w hj hr => hdone j w (hsome j w hj hr) hr) hentries hwritable
  isDirty := fun k h => h.levelOf.isDirty k
  note := by
    intro b L n h
    cases h with
    | root hlevel hkv hdone =>
      exact .root ⟨hlevel.values, congrArg (n :: ·) hlevel.entries, hlevel.writable⟩ hkv hdone
    | child hlevel hkv hp hkeep hdone hentries hwritable =>
      exact .child ⟨hlevel.values, congrArg (n :: ·) hlevel.entries, hlevel.writable⟩ hkv hp
        hkeep hdone hentries hwritable

variable {b' : Batch κ V N}

theorem Committing.commitValue (h : Committing S db remains b L below)
    (hcommit : b.commitValue S k = (.ok (), b')) :
    Committing S db (fun j => remains j ∧ j ≠ k) b' L below := by
  have hdirty : ∀ {l : Level κ V N}, LevelOf S (view S db below) l L →
      (∃ v, l.values k = .dirty v ∧ L.puts k = some v) ∨
        (l.values k).isDirty = false ∧ L.puts k = none := by
    intro l hlevel
    cases hv : l.values k with
    | dirty v => exact .inl ⟨v, rfl, hlevel.puts_of_dirty hv⟩
    | _ => exact .inr ⟨rfl, hlevel.puts_of_not_dirty (by rw [hv]; rfl)⟩
  have hnot : ∀ {j : κ}, ¬ (remains j ∧ j ≠ k) → j ≠ k → ¬ remains j :=
    fun hj hjk hr => hj ⟨hr, hjk⟩
  cases h with
  | @root l L hlevel hkv hdone =>
    rcases hdirty hlevel with ⟨v, hv, hput⟩ | ⟨hv, hput⟩
    · simp only [Batch.commitValue, hv] at hcommit
      cases hm : S.marshal k v with
      | error e => simp [hm, bind, Except.bind] at hcommit
      | ok bytes =>
        cases hw : l.writable with
        | false => simp [hm, hw, bind, Except.bind, Batch.kvPut] at hcommit
        | true =>
          simp only [hm, Batch.kvPut, hw] at hcommit
          cases hcommit
          refine .root ⟨hlevel.values, hlevel.entries, hw.symm.trans hlevel.writable⟩
            (fun j hj => ?_) fun j w hj hr => ?_
          · simpa [L.ne_of_puts hput hj] using hkv j hj
          by_cases hjk : j = k
          · subst hjk
            rw [hput] at hj
            cases hj
            exact ⟨bytes, hm, by simp⟩
          · simpa [hjk] using hdone j w hj (hnot hr hjk)
    · have hsame : b' = .root l := by
        cases hval : l.values k <;> simp_all [Batch.commitValue, Value.isDirty]
      subst hsame
      exact .root hlevel hkv fun j w hj hr =>
        hdone j w hj (hnot hr (L.ne_of_puts hj hput).symm)
  | @child l p L P P' rest hlevel hkv hp hkeep hdone hentries hwritable =>
    rcases hdirty hlevel with ⟨v, hv, hput⟩ | ⟨hv, hput⟩
    · simp only [Batch.commitValue, hv] at hcommit
      cases hcommit
      refine .child hlevel hkv (hp.put k v) (fun j hj => ?_) (fun j w hj hr => ?_) hentries
        hwritable
      · simpa [Layer.put, L.ne_of_puts hput hj] using hkeep j hj
      by_cases hjk : j = k
      · subst hjk
        rw [hput] at hj
        cases hj
        simp [Layer.put]
      · simpa [Layer.put, hjk] using hdone j w hj (hnot hr hjk)
    · have hsame : b' = .child l p := by
        cases hval : l.values k <;> simp_all [Batch.commitValue, Value.isDirty]
      subst hsame
      exact .child hlevel hkv hp hkeep
        (fun j w hj hr => hdone j w hj (hnot hr (L.ne_of_puts hj hput).symm)) hentries hwritable

theorem Committing.commitValues {keys : List κ} (h : Committing S db remains b L below)
    (hcommit : b.commitValues S keys = (.ok (), b')) :
    Committing S db (fun j => remains j ∧ j ∉ keys) b' L below := by
  induction keys generalizing b remains with
  | nil =>
    cases hcommit
    exact h.mono fun k hk => ⟨hk, by simp⟩
  | cons k keys ih =>
    rw [Batch.commitValues] at hcommit
    rcases hvalue : b.commitValue S k with ⟨_ | u, b₁⟩
    · simp [hvalue] at hcommit
    · rw [hvalue] at hcommit
      refine (ih (h.commitValue hvalue) hcommit).mono fun j hj => ⟨hj.1.1, ?_⟩
      simp [hj.1.2, hj.2]

theorem Committing.baseCommit {parts : List (Part κ V N)}
    (h : Committing S db (fun k => ∃ part ∈ parts, k ∈ part.keys) b L below)
    (hputs : ∀ part ∈ parts, part.before.PutsIn (· ∈ part.keys) fun _ => True)
    (hcommit : b.baseCommit S db parts = (.ok (), b')) :
    Committing S db (fun _ => False) b' (L.prepare (view S db below) parts) below ∧
      L.Prepares (view S db below) parts := by
  induction parts generalizing b L with
  | nil =>
    cases hcommit
    exact ⟨h.mono fun k hk => by simp at hk, trivial⟩
  | cons part parts ih =>
    rw [Batch.baseCommit] at hcommit
    rcases hpart : b.commitPart S db part with ⟨_ | u, b₂⟩
    · simp [hpart] at hcommit
    rw [hpart] at hcommit
    rw [Batch.commitPart] at hpart
    have hbefore : part.before.PutsIn (fun k => ∃ part' ∈ part :: parts, k ∈ part'.keys)
        fun _ => True :=
      (hputs part (by simp)).mono (fun k hk => ⟨part, by simp, hk⟩) fun _ _ => trivial
    obtain ⟨hsame, hrun⟩ := (committing_simulates S db _ below).run hbefore h
    rcases hresult : part.before.run (Batch.machine S db) b with ⟨_ | u, b₁⟩
    · simp [hresult] at hpart
    rw [hresult] at hpart hrun hsame
    have hrest := ih ((hrun.commitValues hpart).mono fun k hk => ?_)
      (fun part' hpart' => hputs part' (by simp [hpart'])) hcommit
    · exact ⟨hrest.1, hsame.symm, hrest.2⟩
    obtain ⟨⟨part', hmem, hk'⟩, hk⟩ := hk
    rcases List.mem_cons.1 hmem with rfl | hmem
    · exact absurd hk' hk
    · exact ⟨part', hmem, hk'⟩

end Commands

/-! ## Runs -/

/-- The state stands for a stack of changes. -/
structure Refines (S : Schema κ V) (s : State κ V N) (o : Overlay κ V N) : Prop where
  store : s.db = o.store
  bpt : s.bpt = o.bpt
  closed : s.batch = none → o.layers = []
  opened : ∀ b, s.batch = some b → Represents S s.db b o.layers

/-- The records that are committed hold all keys that have been put, and their code writes only to
keys they hold. -/
def Op.Legal (op : Op κ V N) (o : Overlay κ V N) : Prop :=
  match op with
  | .commit parts =>
    (∀ part ∈ parts, part.before.PutsIn (· ∈ part.keys) fun _ => True) ∧
      ∀ L rest, o.layers = L :: rest → ∀ k, L.puts k ≠ none → ∃ part ∈ parts, k ∈ part.keys
  | _ => True

section Run

variable {S : Schema κ V} {s : State κ V N} {o : Overlay κ V N}

variable {b : Batch κ V N}

theorem Refines.withBatch {layers : List (Layer κ V N)} (h : Refines S s o)
    (hrep : Represents S s.db b layers) :
    Refines S { s with batch := some b } { o with layers := layers } := by
  refine ⟨h.store, h.bpt, ?_, ?_⟩
  · intro hnone
    cases hnone
  · intro b' hb'
    cases hb'
    exact hrep

variable {db : κ → Option Bytes} {L : Layer κ V N} {P : Layer κ V N} {l : Level κ V N}
  {below : List (Layer κ V N)}

theorem Represents.addEntries (h : Represents S db b (L :: below)) (entries : List N) :
    Represents S db (b.modify fun m => { m with bptEntries := entries ++ m.bptEntries })
      ({ L with entries := entries ++ L.entries } :: below) := by
  cases h with
  | root hlevel hkv =>
    exact .root ⟨hlevel.values, congrArg (entries ++ ·) hlevel.entries, hlevel.writable⟩ hkv
  | child hlevel hkv hp =>
    exact .child ⟨hlevel.values, congrArg (entries ++ ·) hlevel.entries, hlevel.writable⟩ hkv hp

theorem modify_kvstore_empty (b : Batch κ V N) :
    (b.modify fun m => { m with kvstore := fun k => (none : Option Bytes).or (m.kvstore k) }) =
      b := by
  cases b <;> simp [Batch.modify]

theorem layer_over_eq {P' : Layer κ V N} (hkeep : ∀ k, L.puts k = none → P'.puts k = P.puts k)
    (hdone : ∀ k v, L.puts k = some v → P'.puts k = some v) (hentries : P'.entries = P.entries)
    (hwritable : P'.writable = P.writable) :
    L.over P = { P' with entries := L.entries ++ P'.entries } := by
  have hputs : (L.over P).puts = P'.puts := by
    funext k
    cases hput : L.puts k with
    | none => simp [Layer.over, hput, hkeep k hput]
    | some v => simp [Layer.over, hput, hdone k v hput]
  rw [hentries]
  simp only [Layer.over] at hputs ⊢
  rw [hputs, hwritable]

theorem Committing.close_root (h : Committing S db (fun _ => False) (.root l) L below) :
    (fun k => (l.kvstore k).or (db k)) = L.overStore S db := by
  cases h with
  | root hlevel hkv hdone =>
    funext k
    cases hput : L.puts k with
    | none => simp [Layer.overStore, hput, hkv k hput]
    | some v =>
      obtain ⟨b, hm, hb⟩ := hdone k v hput id
      simp [Layer.overStore, hput, hm, hb, Except.toOption]

variable {s' : State κ V N} {rest : List (Layer κ V N)}

theorem Committing.close_child {p : Batch κ V N}
    (h : Committing S s.db (fun _ => False) (.child l p) L (P :: rest))
    (hclose : (Batch.child l p).close s = (.ok (), s')) :
    ∃ b, s' = { s with batch := some b } ∧ Represents S s.db b (L.over P :: rest) := by
  cases h with
  | child hlevel hkv hp hkeep hdone hentries hwritable =>
    have hover := hp.addEntries L.entries
    rw [← layer_over_eq hkeep (fun k v hput => hdone k v hput id) hentries hwritable] at hover
    rw [hlevel.entries.symm] at hover
    simp only [Batch.close, hkv, modify_kvstore_empty] at hclose
    split at hclose
    · split at hclose
      · cases hclose
        exact ⟨_, rfl, hover⟩
      · cases hclose
    · cases hclose
      exact ⟨_, rfl, hover⟩

variable [DecidableEq κ]

variable {parts : List (Part κ V N)}

/-- A commit that succeeds lays the changes, with those the records make, over the parent or over
what is stored. -/
theorem Refines.commit (h : Refines S s o) (hb : s.batch = some b)
    (hlegal : (Op.commit parts).Legal o) (hcommit : s.commit S parts b = (.ok (), s')) :
    Refines S s' (o.commit S parts) := by
  have hrep := h.opened b hb
  obtain ⟨L, rest, hlayers⟩ := hrep.ne_nil
  rw [hlayers] at hrep
  rw [State.commit] at hcommit
  rcases hbase : b.baseCommit S s.db parts with ⟨_ | u, b'⟩
  · simp [hbase] at hcommit
  rw [hbase] at hcommit
  have hdone := ((hrep.committing (hlegal.2 L rest hlayers)).baseCommit hlegal.1 hbase).1
  cases rest with
  | nil =>
    cases b' with
    | child l p => cases hdone
    | root l =>
      have hover := hdone.close_root
      have hwritable : l.writable = _ := hdone.levelOf.writable
      simp only [Batch.close] at hcommit
      simp only [Overlay.commit, hlayers]
      rw [← h.store]
      have hprepare :
          L.prepare (S.fetch s.db) parts = L.prepare (view (N := N) S s.db []) parts := rfl
      rw [hprepare, ← hwritable]
      split at hcommit
      · rename_i hw
        cases hcommit
        rw [if_pos hw]
        refine ⟨hover, ?_, fun _ => rfl, fun b hb => by cases hb⟩
        rw [h.bpt, show l.bptEntries = _ from hdone.levelOf.entries]
      · rename_i hw
        cases hcommit
        rw [if_neg hw]
        exact ⟨rfl, h.bpt, fun _ => rfl, fun b hb => by cases hb⟩
  | cons P rest =>
    cases b' with
    | root l => cases hdone
    | child l p =>
      obtain ⟨b₁, rfl, hover⟩ := hdone.close_child hcommit
      simp only [Overlay.commit, hlayers]
      rw [← h.store]
      have hopened := h.withBatch hover
      rwa [← h.store] at hopened

/-- In a commit that succeeds, the code of the records does not fail, and the changes of a root
batch can be encoded. -/
theorem Refines.prepares (h : Refines S s o) (hb : s.batch = some b)
    (hlayers : o.layers = L :: rest) (hlegal : (Op.commit parts).Legal o)
    (hcommit : s.commit S parts b = (.ok (), s')) :
    L.Prepares (view S s.db rest) parts ∧
      (rest = [] → ∀ k v, (L.prepare (view S s.db rest) parts).puts k = some v →
        ∃ bytes, S.marshal k v = .ok bytes) := by
  have hrep := h.opened b hb
  rw [hlayers] at hrep
  rw [State.commit] at hcommit
  rcases hbase : b.baseCommit S s.db parts with ⟨_ | u, b'⟩
  · simp [hbase] at hcommit
  have hdone := (hrep.committing (hlegal.2 L rest hlayers)).baseCommit hlegal.1 hbase
  refine ⟨hdone.2, ?_⟩
  rintro rfl k v hput
  cases hdone.1 with
  | root hlevel hkv hmarshal =>
    obtain ⟨bytes, hbytes, -⟩ := hmarshal k v hput id
    exact ⟨bytes, hbytes⟩

theorem Represents.commit_root (hrep : Represents S s.db b [L]) (hwritable : L.writable = true)
    (hputs : ∀ part ∈ parts, part.before.PutsIn (· ∈ part.keys) fun _ => True)
    (hcover : ∀ k, L.puts k ≠ none → ∃ part ∈ parts, k ∈ part.keys)
    (hcommit : State.commit S parts b { s with batch := some b } = (.ok (), s')) :
    s'.db = (L.prepare (S.fetch s.db) parts).overStore S s.db ∧
      s'.bpt = (L.prepare (S.fetch s.db) parts).entries ++ s.bpt ∧
        L.Prepares (S.fetch s.db) parts ∧
          ∀ k v, (L.prepare (S.fetch s.db) parts).puts k = some v →
            ∃ bytes, S.marshal k v = .ok bytes := by
  have hrefines : Refines S { s with batch := some b } ⟨[L], s.db, s.bpt⟩ := by
    refine ⟨rfl, rfl, ?_, ?_⟩
    · intro hnone
      cases hnone
    · intro b' hb'
      cases hb'
      exact hrep
  have hlegal : (Op.commit parts).Legal ⟨[L], s.db, s.bpt⟩ := by
    refine ⟨hputs, fun L' rest hlayers => ?_⟩
    cases hlayers
    exact hcover
  obtain ⟨hprepares, hmarshal⟩ := hrefines.prepares rfl rfl hlegal hcommit
  have hend := hrefines.commit rfl hlegal hcommit
  have hprepare : (L.prepare (S.fetch s.db) parts).writable = true :=
    (Layer.prepare_writable parts).trans hwritable
  simp only [Overlay.commit] at hend
  rw [if_pos hprepare] at hend
  exact ⟨hend.store, hend.bpt, hprepares, hmarshal rfl⟩

/-- A changed value of a writable root batch is written if it can be encoded. -/
theorem Committing.commitValues_ok {remains : κ → Prop} (h : Committing S db remains b L [])
    (hwritable : L.writable = true)
    (hmarshal : ∀ k v, L.puts k = some v → ∃ bytes, S.marshal k v = .ok bytes) (keys : List κ) :
    ∃ b', b.commitValues S keys = (.ok (), b') := by
  induction keys generalizing b remains with
  | nil => exact ⟨b, rfl⟩
  | cons k keys ih =>
    have hvalue : ∃ b₁, b.commitValue S k = (.ok (), b₁) := by
      cases h with
      | @root l L hlevel hkv hdone =>
        have hw : l.writable = true := hlevel.writable.trans hwritable
        cases hv : l.values k with
        | dirty v =>
          obtain ⟨bytes, hbytes⟩ := hmarshal k v (hlevel.puts_of_dirty hv)
          simp only [Batch.commitValue, hv, hbytes, Batch.kvPut, hw]
          exact ⟨_, rfl⟩
        | _ =>
          simp only [Batch.commitValue, hv]
          exact ⟨_, rfl⟩
    obtain ⟨b₁, hvalue⟩ := hvalue
    rw [Batch.commitValues, hvalue]
    exact ih (h.commitValue hvalue)

/-- A writable root batch with one record is committed if the code of the record does not fail and
all changes can be encoded. -/
theorem Represents.commit_part {part : Part κ V N} {L' : Layer κ V N}
    (hrep : Represents S s.db b [L]) (hwritable : L.writable = true)
    (hputs : part.before.PutsIn (· ∈ part.keys) fun _ => True)
    (hcover : ∀ k, L.puts k ≠ none → k ∈ part.keys)
    (hrun : part.before.run (Layer.machine (S.fetch s.db)) L = (.ok (), L'))
    (hmarshal : ∀ k v, L'.puts k = some v → ∃ bytes, S.marshal k v = .ok bytes) :
    ∃ s', State.commit S [part] b { s with batch := some b } = (.ok (), s') ∧ s'.batch = none := by
  have hcommitting : Committing S s.db (· ∈ part.keys) b L [] := hrep.committing hcover
  obtain ⟨hsame, hafter⟩ := (committing_simulates S s.db _ []).run hputs hcommitting
  have hlayer : part.before.run (Layer.machine (view (N := N) S s.db [])) L = (.ok (), L') := hrun
  have hwritable' : L'.writable = true := by
    have hkept : (part.before.run (Layer.machine (S.fetch s.db)) L).2.writable = L.writable :=
      Layer.run_writable part.before
    rw [hrun] at hkept
    exact hkept.trans hwritable
  rw [hlayer] at hsame hafter
  obtain ⟨b₂, hvalues⟩ := hafter.commitValues_ok hwritable' hmarshal part.keys
  have hbase : b.baseCommit S s.db [part] = (.ok (), b₂) := by
    rw [Batch.baseCommit, Batch.commitPart]
    rcases hresult : part.before.run (Batch.machine S s.db) b with ⟨r, b₁⟩
    rw [hresult] at hsame hvalues
    cases hsame
    dsimp only at hvalues ⊢
    rw [hvalues]
    rfl
  cases hafter.commitValues hvalues with
  | @root l _ hlevel hkv hdone =>
    have hopen : l.writable = true := hlevel.writable.trans hwritable'
    rw [State.commit, hbase]
    exact ⟨_, if_pos hopen, rfl⟩

theorem represents_simulates (S : Schema κ V) (db : κ → Option Bytes) (below : List (Layer κ V N)) :
    Simulates (fun _ => True) (Batch.machine S db) (Layer.machine (view S db below))
      (fun b L => Represents S db b (L :: below)) where
  get := fun k h => h.get k
  put := fun k v _ h => h.put k v
  isDirty := fun k h => h.levelOf.isDirty k
  note := by
    intro b L n h
    exact h.addEntries [n]

theorem Refines.step {op : Op κ V N} (h : Refines S s o) (hlegal : op.Legal o)
    (hok : ∀ e, (s.step S op).1 ≠ .failed e) :
    (s.step S op).1 = (o.step S op).1 ∧ Refines S (s.step S op).2 (o.step S op).2 := by
  cases hb : s.batch with
  | none =>
    have hlayers := h.closed hb
    cases op with
    | begin writable =>
      simp only [State.step, hb, Overlay.step, hlayers]
      exact ⟨trivial, h.withBatch (.root (levelOf_new writable) fun _ _ => rfl)⟩
    | _ =>
      simp only [State.step, hb, Overlay.step, hlayers]
      exact ⟨trivial, h⟩
  | some b =>
    have hrep := h.opened b hb
    obtain ⟨L, rest, hlayers⟩ := hrep.ne_nil
    rw [hlayers] at hrep
    cases op with
    | begin writable =>
      simp only [State.step, hb, Overlay.step, hlayers]
      refine ⟨trivial, h.withBatch (.child ?_ rfl hrep)⟩
      rw [show b.level.writable = L.writable from hrep.levelOf.writable]
      exact levelOf_new _
    | get k =>
      have hget := hrep.get k
      simp only [State.step, hb, Overlay.step, hlayers]
      rw [← h.store]
      refine ⟨by rw [hget.1], ?_⟩
      rw [← hlayers] at hget
      exact h.withBatch hget.2
    | put k v =>
      simp only [State.step, hb, Overlay.step, hlayers]
      exact ⟨trivial, h.withBatch (hrep.put k v)⟩
    | commit parts =>
      rcases hcommit : s.commit S parts b with ⟨e | u, s'⟩
      · exact absurd (by simp only [State.step, hb, hcommit]) (hok e)
      · simp only [State.step, hb, Overlay.step, hlayers, hcommit]
        exact ⟨trivial, h.commit hb hlegal hcommit⟩
    | discard =>
      simp only [State.step, hb, Overlay.step, hlayers]
      cases hrep with
      | root hlevel hkv =>
        exact ⟨trivial, h.store, h.bpt, fun _ => rfl, fun b' hb' => by cases hb'⟩
      | child hlevel hkv hp =>
        exact ⟨trivial, h.withBatch hp⟩

def LegalRun (S : Schema κ V) : List (Op κ V N) → Overlay κ V N → Prop
  | [], _ => True
  | op :: ops, o => op.Legal o ∧ LegalRun S ops (o.step S op).2

theorem Refines.run {ops : List (Op κ V N)} (h : Refines S s o) (hlegal : LegalRun S ops o)
    (hok : ∀ e, .failed e ∉ (s.run S ops).1) :
    (s.run S ops).1 = (o.run S ops).1 ∧ Refines S (s.run S ops).2 (o.run S ops).2 := by
  induction ops generalizing s o with
  | nil => exact ⟨rfl, h⟩
  | cons op ops ih =>
    simp only [State.run, List.mem_cons, not_or] at hok
    have hstep := h.step hlegal.1 fun e he => (hok e).1 he.symm
    have hrest := ih hstep.2 hlegal.2 fun e => (hok e).2
    simp only [State.run, Overlay.run]
    exact ⟨by rw [hstep.1, hrest.1], hrest.2⟩

end Run

end Accumulate.Record
