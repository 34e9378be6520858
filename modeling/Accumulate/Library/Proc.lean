import Mathlib.Logic.Basic
import Mathlib.Order.Defs.Unbundled

/-!
# Imperative procedures

A procedure of an imperative language with error returns and panics is a
function from a state to an outcome and the state it leaves behind.  The state
is part of every outcome: a procedure that returns an error has still performed
the writes that came before the error, and it is the caller who decides whether
they are kept.

The module provides

* the outcome type, the monad of procedures and its primitive operations;
* inversion lemmas that peel a sequential composition apart;
* `Proc.Succeeds`, the judgement "a value is returned", with a pre- and a
  postcondition;
* `Proc.Keeps`, the frame judgement "whatever the exit, the states before and
  after are related", with one rule per construct;
* `Proc.transaction`, the nested unit of work that is rolled back on failure.
-/

namespace Accumulate.Library

/-- What a procedure call can end in: a value, a returned error or a panic. -/
inductive Outcome (ε α : Type) where
  | ok (value : α)
  | error (err : ε)
  | panic (message : String)
deriving DecidableEq, Repr

namespace Outcome

variable {ε α β : Type}

def bind (o : Outcome ε α) (f : α → Outcome ε β) : Outcome ε β :=
  match o with
  | .ok a => f a
  | .error e => .error e
  | .panic m => .panic m

def mapError (f : ε → ε) : Outcome ε α → Outcome ε α
  | .error e => .error (f e)
  | o => o

@[simp] theorem mapError_ok (f : ε → ε) (a : α) : (ok a : Outcome ε α).mapError f = .ok a := rfl
@[simp] theorem mapError_error (f : ε → ε) (e : ε) :
    (error e : Outcome ε α).mapError f = .error (f e) := rfl
@[simp] theorem mapError_panic (f : ε → ε) (m : String) :
    (panic m : Outcome ε α).mapError f = .panic m := rfl

variable {o : Outcome ε α}

theorem mapError_eq_error {f : ε → ε} {e : ε} :
    o.mapError f = .error e ↔ ∃ e', o = .error e' ∧ e = f e' := by
  cases o with
  | ok a => simp
  | error e' => simp [eq_comm]
  | panic m => simp

instance : Monad (Outcome ε) where
  pure := .ok
  bind := bind

/-- The call returned, with a value or with an error. -/
def Returns : Outcome ε α → Prop
  | .ok _ => True
  | .error _ => True
  | .panic _ => False

@[simp] theorem returns_ok (a : α) : (ok a : Outcome ε α).Returns := trivial
@[simp] theorem returns_error (e : ε) : (error e : Outcome ε α).Returns := trivial
@[simp] theorem not_returns_panic (m : String) : ¬ (panic m : Outcome ε α).Returns := id

theorem Returns.cases (h : o.Returns) : (∃ a, o = .ok a) ∨ ∃ e, o = .error e := by
  cases o with
  | ok a => exact .inl ⟨a, rfl⟩
  | error e => exact .inr ⟨e, rfl⟩
  | panic m => exact h.elim

instance : DecidablePred (Returns : Outcome ε α → Prop)
  | .ok _ => .isTrue trivial
  | .error _ => .isTrue trivial
  | .panic _ => .isFalse id

/-- The call returned a value with the given property. -/
def Yields (p : α → Prop) : Outcome ε α → Prop
  | .ok a => p a
  | .error _ => False
  | .panic _ => False

instance (p : α → Prop) [DecidablePred p] : DecidablePred (Yields p : Outcome ε α → Prop)
  | .ok a => inferInstanceAs (Decidable (p a))
  | .error _ => .isFalse id
  | .panic _ => .isFalse id

theorem Yields.exists_ok {p : α → Prop} (h : o.Yields p) : ∃ a, o = .ok a ∧ p a := by
  cases o with
  | ok a => exact ⟨a, rfl, h⟩
  | error e | panic m => exact h.elim

@[simp] theorem pure_eq_ok (a : α) : (pure a : Outcome ε α) = .ok a := rfl
@[simp] theorem ok_bind (a : α) (f : α → Outcome ε β) : (ok a >>= f) = f a := rfl
@[simp] theorem error_bind (e : ε) (f : α → Outcome ε β) : (error e >>= f) = error e := rfl
@[simp] theorem panic_bind (m : String) (f : α → Outcome ε β) :
    ((panic m : Outcome ε α) >>= f) = panic m := rfl

variable {f : α → Outcome ε β}

theorem bind_eq_ok {b : β} : (o >>= f) = .ok b ↔ ∃ a, o = .ok a ∧ f a = .ok b := by
  cases o with
  | ok a => simp
  | error e => simp
  | panic m => simp

@[simp] theorem ite_error_eq_ok {p : Prop} [Decidable p] {e : ε} {a : α} :
    (if p then error e else o) = .ok a ↔ ¬ p ∧ o = .ok a := by
  by_cases hp : p <;> simp [hp]

theorem mapError_eq_ok {f : ε → ε} {a : α} : o.mapError f = .ok a ↔ o = .ok a := by
  cases o with
  | ok b => simp
  | error e => simp
  | panic m => simp

theorem bind_eq_error {e : ε} :
    (o >>= f) = .error e ↔ o = .error e ∨ ∃ a, o = .ok a ∧ f a = .error e := by
  cases o with
  | ok a => simp
  | error e' => simp
  | panic m => simp

theorem Returns.bind (ho : o.Returns) (hf : ∀ a, o = .ok a → (f a).Returns) :
    (o >>= f).Returns := by
  cases o with
  | ok a => exact hf a rfl
  | error e => trivial
  | panic m => exact ho

theorem Returns.of_bind (h : (o >>= f).Returns) : o.Returns := by
  cases o with
  | ok a => trivial
  | error e => trivial
  | panic m => exact h

@[simp] theorem returns_mapError {f : ε → ε} : (o.mapError f).Returns ↔ o.Returns := by
  cases o <;> rfl

theorem Returns.mapError {f : ε → ε} (h : o.Returns) : (o.mapError f).Returns :=
  returns_mapError.2 h

/-- An error the call returns satisfies `P`. -/
def Raises (P : ε → Prop) (o : Outcome ε α) : Prop := ∀ e, o = .error e → P e

section Raises

variable {P : ε → Prop}

theorem Raises.ok (a : α) : Raises P (.ok a : Outcome ε α) := by
  intro e h
  cases h

theorem Raises.error {e : ε} (he : P e) : Raises P (.error e : Outcome ε α) := by
  intro e' h
  cases h
  exact he

theorem Raises.panic (m : String) : Raises P (.panic m : Outcome ε α) := by
  intro e h
  cases h

variable {o : Outcome ε α}

theorem Raises.bind (ho : Raises P o) (hf : ∀ a, Raises P (f a)) : Raises P (o >>= f) := by
  intro e h
  rcases bind_eq_error.1 h with h | ⟨a, -, h⟩
  · exact ho e h
  · exact hf a e h

theorem Raises.mapError {f : ε → ε} (ho : Raises P o) (hf : ∀ e, P e → P (f e)) :
    Raises P (o.mapError f) := by
  intro e h
  obtain ⟨e', he', rfl⟩ := mapError_eq_error.1 h
  exact hf e' (ho e' he')

theorem Raises.ite {c : Prop} [Decidable c] {o' : Outcome ε α} (ho : Raises P o)
    (ho' : Raises P o') :
    Raises P (if c then o else o') := by
  split
  · exact ho
  · exact ho'

end Raises

end Outcome

/-- A procedure over the state `σ`: the state survives every exit. -/
def Proc (σ ε α : Type) : Type := σ → Outcome ε α × σ

namespace Proc

variable {σ τ ε α β : Type} {p : Proc σ ε α} {f : α → Proc σ ε β}

/-- Sequential composition: an error or a panic skips the continuation but not
the writes already made. -/
def bind (p : Proc σ ε α) (f : α → Proc σ ε β) : Proc σ ε β := fun s =>
  match p s with
  | (.ok a, s') => f a s'
  | (.error e, s') => (.error e, s')
  | (.panic m, s') => (.panic m, s')

instance : Monad (Proc σ ε) where
  pure a := fun s => (.ok a, s)
  bind := bind

def throw (e : ε) : Proc σ ε α := fun s => (.error e, s)

def abort (m : String) : Proc σ ε α := fun s => (.panic m, s)

def get : Proc σ ε σ := fun s => (.ok s, s)

def modify (f : σ → σ) : Proc σ ε Unit := fun s => (.ok (), f s)

def lift (o : Outcome ε α) : Proc σ ε α := fun s => (o, s)

def query (f : σ → Outcome ε α) : Proc σ ε α := fun s => (f s, s)

/-- Run a procedure and hand its returned error to the caller as a value; a
panic is not caught. -/
def attempt (p : Proc σ ε α) : Proc σ ε (Except ε α) := fun s =>
  match p s with
  | (.ok a, s') => (.ok (.ok a), s')
  | (.error e, s') => (.ok (.error e), s')
  | (.panic m, s') => (.panic m, s')

def when (c : Bool) (p : Proc σ ε Unit) : Proc σ ε Unit := if c then p else pure ()

def mapError (f : ε → ε) (p : Proc σ ε α) : Proc σ ε α := fun s => ((p s).1.mapError f, (p s).2)

def zoom (part : σ → τ) (put : τ → σ → σ) (p : Proc τ ε α) : Proc σ ε α := fun s =>
  ((p (part s)).1, put (p (part s)).2 s)

/-- A unit of work on a part of the state: it is merged when the procedure
returns a value and thrown away otherwise. -/
def transaction (part : σ → τ) (put : τ → σ → σ) (p : Proc σ ε α) : Proc σ ε α := fun s =>
  match p s with
  | (.ok a, s') => (.ok a, s')
  | (.error e, s') => (.error e, put (part s) s')
  | (.panic m, s') => (.panic m, put (part s) s')

section Run

@[simp] theorem pure_run (a : α) (s : σ) : (pure a : Proc σ ε α) s = (.ok a, s) := rfl
@[simp] theorem throw_run (e : ε) (s : σ) : (throw e : Proc σ ε α) s = (.error e, s) := rfl
@[simp] theorem abort_run (m : String) (s : σ) : (abort m : Proc σ ε α) s = (.panic m, s) := rfl
@[simp] theorem get_run (s : σ) : (get : Proc σ ε σ) s = (.ok s, s) := rfl
@[simp] theorem modify_run (f : σ → σ) (s : σ) : (modify f : Proc σ ε Unit) s = (.ok (), f s) := rfl
@[simp] theorem lift_run (o : Outcome ε α) (s : σ) : (lift o : Proc σ ε α) s = (o, s) := rfl
@[simp] theorem query_run (f : σ → Outcome ε α) (s : σ) : (query f : Proc σ ε α) s = (f s, s) := rfl

@[simp] theorem mapError_run (f : ε → ε) (p : Proc σ ε α) (s : σ) :
    mapError f p s = ((p s).1.mapError f, (p s).2) := rfl

variable {p : Proc σ ε α} {s s' : σ} {a : α}

theorem mapError_run_of_ok {f : ε → ε} (h : p s = (.ok a, s')) : mapError f p s = (.ok a, s') := by
  rw [mapError_run, h]
  rfl

@[simp] theorem when_true (p : Proc σ ε Unit) : when true p = p := rfl
@[simp] theorem when_false (p : Proc σ ε Unit) : when false p = pure () := rfl

theorem bind_run (p : Proc σ ε α) (f : α → Proc σ ε β) (s : σ) :
    (p >>= f) s =
      match p s with
      | (.ok a, s') => f a s'
      | (.error e, s') => (.error e, s')
      | (.panic m, s') => (.panic m, s') := rfl

variable {f : α → Proc σ ε β} {b : β} {s'' : σ}

theorem bind_run_of_ok (h : p s = (.ok a, s')) : (p >>= f) s = f a s' := by
  rw [bind_run, h]

theorem bind_eq_ok :
    (p >>= f) s = (.ok b, s'') ↔ ∃ a s', p s = (.ok a, s') ∧ f a s' = (.ok b, s'') := by
  rw [bind_run]
  constructor
  · intro h
    match hp : p s with
    | (.ok a, s') => exact ⟨a, s', rfl, by simpa [hp] using h⟩
    | (.error e, s') | (.panic m, s') => simp [hp] at h
  · rintro ⟨a, s', hp, hf⟩
    simp [hp, hf]

theorem bind_eq_error {e : ε} (h : (p >>= f) s = (.error e, s'')) :
    p s = (.error e, s'') ∨ ∃ a s', p s = (.ok a, s') ∧ f a s' = (.error e, s'') := by
  rw [bind_run] at h
  match hp : p s with
  | (.ok a, s') => exact .inr ⟨a, s', rfl, by simpa [hp] using h⟩
  | (.error e', s') => exact .inl (by simpa [hp] using h)
  | (.panic m, s') => simp [hp] at h

theorem bind_cases {o : Outcome ε β} (h : (p >>= f) s = (o, s'')) :
    (∃ a s', p s = (.ok a, s') ∧ f a s' = (o, s'')) ∨
      (∀ b, o ≠ .ok b) ∧ (∀ a, (p s).1 ≠ .ok a) ∧ s'' = (p s).2 := by
  rw [bind_run] at h
  match hp : p s with
  | (.ok a, s') =>
    rw [hp] at h
    exact .inl ⟨a, s', rfl, h⟩
  | (.error e, s') | (.panic m, s') =>
    rw [hp] at h
    cases h
    exact .inr ⟨nofun, nofun, rfl⟩

theorem lift_bind_eq_ok {o : Outcome ε α} :
    (lift o >>= f) s = (.ok b, s') ↔ ∃ a, o = .ok a ∧ f a s = (.ok b, s') := by
  rw [bind_eq_ok]
  constructor
  · rintro ⟨a, _, hlift, hf⟩
    obtain ⟨ho, rfl⟩ := Prod.mk.inj hlift
    exact ⟨a, ho, hf⟩
  · rintro ⟨a, ho, hf⟩
    exact ⟨a, s, by rw [lift_run, ho], hf⟩

theorem query_bind_eq_ok {q : σ → Outcome ε α} :
    (query q >>= f) s = (.ok b, s') ↔ ∃ a, q s = .ok a ∧ f a s = (.ok b, s') :=
  lift_bind_eq_ok

theorem get_bind_run (f : σ → Proc σ ε α) (s : σ) : (get >>= f) s = f s s := rfl

theorem pure_bind_run (a : α) (f : α → Proc σ ε β) (s : σ) :
    ((pure a : Proc σ ε α) >>= f) s = f a s := rfl

theorem modify_bind_run (g : σ → σ) (f : Unit → Proc σ ε α) (s : σ) :
    (modify g >>= f) s = f () (g s) := rfl

theorem mapError_eq_ok {g : ε → ε} : mapError g p s = (.ok a, s') ↔ p s = (.ok a, s') := by
  rw [mapError_run, Prod.mk.injEq, Outcome.mapError_eq_ok, ← Prod.mk.injEq]

end Run

/-! ## Success -/

/-- Started in a state with `P`, the procedure returns a value, and the value and the state
it ends in have `Q`. -/
def Succeeds (P : σ → Prop) (p : Proc σ ε α) (Q : α → σ → Prop) : Prop :=
  ∀ s, P s → ∃ a s', p s = (.ok a, s') ∧ Q a s'

section Success

variable {P : σ → Prop} {Q : α → σ → Prop}

theorem Succeeds.pure {a : α} (h : ∀ s, P s → Q a s) : Succeeds P (pure a : Proc σ ε α) Q :=
  fun s hs => ⟨a, s, rfl, h s hs⟩

theorem Succeeds.modify {f : σ → σ} {Q : Unit → σ → Prop} (h : ∀ s, P s → Q () (f s)) :
    Succeeds P (modify f : Proc σ ε Unit) Q :=
  fun s hs => ⟨(), f s, rfl, h s hs⟩

theorem Succeeds.bind {R : β → σ → Prop} {p : Proc σ ε β} {f : β → Proc σ ε α}
    (hp : Succeeds P p R) (hf : ∀ b, Succeeds (R b) (f b) Q) : Succeeds P (p >>= f) Q := by
  intro s hs
  obtain ⟨b, s', hrun, hR⟩ := hp s hs
  obtain ⟨a, s'', hrun', hq⟩ := hf b s' hR
  exact ⟨a, s'', by rw [bind_run_of_ok hrun, hrun'], hq⟩

theorem Succeeds.lift_bind {o : Outcome ε β} {b : β} {f : β → Proc σ ε α} (ho : o = .ok b)
    (hf : Succeeds P (f b) Q) : Succeeds P (lift o >>= f) Q := by
  intro s hs
  rw [ho]
  exact hf s hs

theorem Succeeds.get_bind {f : σ → Proc σ ε α}
    (hf : ∀ s₀, P s₀ → Succeeds (fun s => s = s₀) (f s₀) Q) : Succeeds P (get >>= f) Q :=
  fun s hs => hf s hs s rfl

theorem Succeeds.mapError {f : ε → ε} (hp : Succeeds P p Q) : Succeeds P (mapError f p) Q := by
  intro s hs
  obtain ⟨a, s', hrun, hq⟩ := hp s hs
  refine ⟨a, s', ?_, hq⟩
  rw [mapError_run, hrun]
  rfl

theorem Succeeds.when {p : Proc σ ε Unit} (c : Bool) (hp : Succeeds P p fun _ => P) :
    Succeeds P (when c p) fun _ => P := by
  cases c with
  | false => exact Succeeds.pure fun _ hs => hs
  | true => exact hp

end Success

/-! ## Frames -/

/-- Whatever way the procedure ends, the state before and the state after are
related by `R`. -/
def Keeps (R : σ → σ → Prop) (p : Proc σ ε α) : Prop := ∀ s, R s (p s).2

section Frames

variable {R : σ → σ → Prop}

variable {p : Proc σ ε α}

theorem Keeps.run (hp : Keeps R p) {s s' : σ} {o : Outcome ε α} (h : p s = (o, s')) : R s s' := by
  have hs := hp s
  rwa [h] at hs

theorem Keeps.bind_eq_ok (hp : Keeps R p) {s s'' : σ} {b : β} (h : (p >>= f) s = (.ok b, s'')) :
    ∃ a s', R s s' ∧ f a s' = (.ok b, s'') := by
  obtain ⟨a, s', hrun, hf⟩ := Proc.bind_eq_ok.1 h
  exact ⟨a, s', hp.run hrun, hf⟩

theorem Keeps.mono {Q : σ → σ → Prop} (hp : Keeps R p) (h : ∀ s s', R s s' → Q s s') : Keeps Q p :=
  fun s => h _ _ (hp s)

theorem Keeps.pure [Std.Refl R] (a : α) : Keeps R (pure a : Proc σ ε α) :=
  fun s => refl_of R s

theorem Keeps.throw [Std.Refl R] (e : ε) : Keeps R (throw e : Proc σ ε α) :=
  fun s => refl_of R s

theorem Keeps.get [Std.Refl R] : Keeps R (get : Proc σ ε σ) :=
  fun s => refl_of R s

theorem Keeps.lift [Std.Refl R] (o : Outcome ε α) : Keeps R (lift o : Proc σ ε α) :=
  fun s => refl_of R s

theorem Keeps.query [Std.Refl R] (f : σ → Outcome ε α) : Keeps R (query f : Proc σ ε α) :=
  fun s => refl_of R s

theorem Keeps.modify {f : σ → σ} (h : ∀ s, R s (f s)) :
    Keeps R (modify f : Proc σ ε Unit) := h

theorem Keeps.bind [IsTrans σ R] (hp : Keeps R p) (hf : ∀ a, Keeps R (f a)) :
    Keeps R (p >>= f) := by
  intro s
  have hs := hp s
  rw [bind_run]
  match hrun : p s with
  | (.ok a, s') =>
    rw [hrun] at hs
    exact trans_of R hs (hf a s')
  | (.error e, s') | (.panic m, s') => simpa [hrun] using hs

theorem Keeps.attempt (hp : Keeps R p) : Keeps R (attempt p) := by
  intro s
  have hs := hp s
  unfold Proc.attempt
  split
  · rename_i hrun
    rwa [hrun] at hs
  · rename_i hrun
    rwa [hrun] at hs
  · rename_i hrun
    rwa [hrun] at hs

theorem Keeps.abort [Std.Refl R] (m : String) : Keeps R (abort m : Proc σ ε α) :=
  fun s => refl_of R s

theorem Keeps.mapError {f : ε → ε} (hp : Keeps R p) :
    Keeps R (mapError f p) := hp

theorem Keeps.ite {c : Prop} [Decidable c] {q : Proc σ ε α} (hp : Keeps R p) (hq : Keeps R q) :
    Keeps R (if c then p else q) := by
  split
  · exact hp
  · exact hq

theorem Keeps.when [Std.Refl R] {p : Proc σ ε Unit} (c : Bool) (hp : Keeps R p) :
    Keeps R (when c p) :=
  Keeps.ite hp (Keeps.pure _)

end Frames

/-! ## Errors -/

/-- Every error the procedure returns satisfies `P`. -/
def Raises (P : ε → Prop) (p : Proc σ ε α) : Prop := ∀ s e, (p s).1 = .error e → P e

section Errors

variable {P : ε → Prop}

theorem Raises.pure (a : α) : Raises P (pure a : Proc σ ε α) := by
  intro s e h
  cases h

theorem Raises.throw {e : ε} (he : P e) : Raises P (throw e : Proc σ ε α) := by
  intro s e' h
  cases h
  exact he

theorem Raises.abort (m : String) : Raises P (abort m : Proc σ ε α) := by
  intro s e h
  cases h

theorem Raises.get : Raises P (get : Proc σ ε σ) := by
  intro s e h
  cases h

theorem Raises.modify (f : σ → σ) : Raises P (modify f : Proc σ ε Unit) := by
  intro s e h
  cases h

theorem Raises.lift {o : Outcome ε α} (ho : ∀ e, o = .error e → P e) :
    Raises P (lift o : Proc σ ε α) :=
  fun _ e h => ho e h

theorem Raises.query {f : σ → Outcome ε α} (hf : ∀ s e, f s = .error e → P e) :
    Raises P (query f : Proc σ ε α) :=
  fun s e h => hf s e h

variable {p : Proc σ ε α}

theorem Raises.mapError {f : ε → ε} (hp : Raises P p) (hf : ∀ e, P e → P (f e)) :
    Raises P (mapError f p) := by
  intro s e h
  obtain ⟨e', he', rfl⟩ := Outcome.mapError_eq_error.1 h
  exact hf e' (hp s e' he')

theorem Raises.zoom {part : σ → τ} {put : τ → σ → σ} {p : Proc τ ε α} (hp : Raises P p) :
    Raises P (zoom part put p) :=
  fun s e h => hp (part s) e h

theorem Raises.bind (hp : Raises P p) (hf : ∀ a, Raises P (f a)) : Raises P (p >>= f) := by
  intro s e h
  rw [bind_run] at h
  have hs := hp s
  match hrun : p s with
  | (.ok a, s') =>
    rw [hrun] at h
    exact hf a s' e h
  | (.error e', s') =>
    rw [hrun] at h hs
    cases h
    exact hs e rfl
  | (.panic m, s') =>
    rw [hrun] at h
    cases h

theorem Raises.ite {c : Prop} [Decidable c] {q : Proc σ ε α} (hp : c → Raises P p)
    (hq : ¬ c → Raises P q) : Raises P (if c then p else q) := by
  split
  · exact hp ‹_›
  · exact hq ‹_›

theorem Raises.when {p : Proc σ ε Unit} (c : Bool) (hp : Raises P p) : Raises P (when c p) :=
  Raises.ite (fun _ => hp) fun _ => Raises.pure _

end Errors

/-! ## Panics -/

/-- A composition returns when its first part returns and its continuation returns
wherever the first part can end. -/
theorem returns_bind {s : σ} (hp : (p s).1.Returns)
    (hf : ∀ a s', p s = (.ok a, s') → (f a s').1.Returns) : ((p >>= f) s).1.Returns := by
  rw [bind_run]
  match hrun : p s with
  | (.ok a, s') => exact hf a s' hrun
  | (.error e, s') => trivial
  | (.panic m, s') =>
    rw [hrun] at hp
    exact hp

theorem returns_of_bind {s : σ} (h : ((p >>= f) s).1.Returns) : (p s).1.Returns := by
  rw [bind_run] at h
  match hrun : p s with
  | (.ok a, s') => trivial
  | (.error e, s') => trivial
  | (.panic m, s') =>
    rw [hrun] at h
    exact h

/-- An error satisfies `P` and leaves the state as it was: the procedure either
completes or has no effect. -/
def Aborts (P : ε → Prop) (p : Proc σ ε α) : Prop :=
  ∀ s e s', p s = (.error e, s') → P e ∧ s' = s

section Aborts

variable {P : ε → Prop}

theorem Aborts.pure (a : α) : Aborts P (pure a : Proc σ ε α) := by
  intro s e s' h
  cases h

theorem Aborts.throw {e : ε} (he : P e) : Aborts P (throw e : Proc σ ε α) := by
  intro s e' s' h
  cases h
  exact ⟨he, rfl⟩

theorem Aborts.ite {c : Prop} [Decidable c] {q : Proc σ ε α} (hp : c → Aborts P p)
    (hq : ¬ c → Aborts P q) : Aborts P (if c then p else q) := by
  split
  · exact hp ‹_›
  · exact hq ‹_›

theorem Aborts.query_bind {f : σ → Outcome ε α} {g : α → Proc σ ε β}
    (hf : ∀ s e, f s = .error e → P e) (hg : ∀ a, Aborts P (g a)) : Aborts P (query f >>= g) := by
  intro s e s' h
  rw [bind_run, query_run] at h
  cases hs : f s with
  | ok a =>
    rw [hs] at h
    exact hg a s e s' h
  | error e' =>
    rw [hs] at h
    cases h
    exact ⟨hf s e hs, rfl⟩
  | panic m =>
    rw [hs] at h
    cases h

theorem Aborts.mapError {f : ε → ε} (hp : Aborts P p)
    (hf : ∀ e, P e → P (f e)) : Aborts P (mapError f p) := by
  intro s e s' h
  obtain ⟨h₁, h₂⟩ := Prod.mk.inj h
  obtain ⟨e', he', rfl⟩ := Outcome.mapError_eq_error.1 h₁
  obtain ⟨he, hs⟩ := hp s e' s' (Prod.ext he' h₂)
  exact ⟨hf e' he, hs⟩

end Aborts

end Proc

end Accumulate.Library
