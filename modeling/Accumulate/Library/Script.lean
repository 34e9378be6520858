import Mathlib.Logic.Basic

/-!
# Programs over a store of values

A script is a program that reads and writes values by their keys, which say what type they have,
asks whether a key has been written, and leaves notes.  What these commands do is up to a
machine.  Two machines whose commands agree up to a relation of their states agree on every script
(`Simulates.run`).
-/

namespace Accumulate.Library

/-- A program over values with keys in `κ`, with notes in `N` and with errors in `ε`. -/
inductive Script (κ : Type) (V : κ → Type) (N ε α : Type) where
  | done (a : α)
  | fail (e : ε)
  | get (k : κ) (next : Except ε (V k) → Script κ V N ε α)
  | put (k : κ) (v : V k) (next : Script κ V N ε α)
  | isDirty (k : κ) (next : Bool → Script κ V N ε α)
  | note (n : N) (next : Script κ V N ε α)

/-- What the commands of a script do to a state. -/
structure Machine (κ : Type) (V : κ → Type) (N ε σ : Type) where
  get : (k : κ) → σ → Except ε (V k) × σ
  put : (k : κ) → V k → σ → σ
  isDirty : κ → σ → Bool
  note : N → σ → σ

variable {κ : Type} {V : κ → Type} {N ε α β σ τ : Type} {K : κ → Prop} {P : N → Prop}
  {p : Script κ V N ε α} {M : Machine κ V N ε σ}

namespace Script

def bind : Script κ V N ε α → (α → Script κ V N ε β) → Script κ V N ε β
  | .done a, f => f a
  | .fail e, _ => .fail e
  | .get k next, f => .get k fun r => (next r).bind f
  | .put k v next, f => .put k v (next.bind f)
  | .isDirty k next, f => .isDirty k fun b => (next b).bind f
  | .note n next, f => .note n (next.bind f)

instance : Monad (Script κ V N ε) where
  pure := .done
  bind := bind

/-- Run a script.  The state is kept if the script fails. -/
def run (M : Machine κ V N ε σ) : Script κ V N ε α → σ → Except ε α × σ
  | .done a, s => (.ok a, s)
  | .fail e, s => (.error e, s)
  | .get k next, s => (next (M.get k s).1).run M (M.get k s).2
  | .put k v next, s => next.run M (M.put k v s)
  | .isDirty k next, s => (next (M.isDirty k s)).run M s
  | .note n next, s => next.run M (M.note n s)

theorem run_bind (M : Machine κ V N ε σ) (p : Script κ V N ε α) (f : α → Script κ V N ε β) (s : σ) :
    (p >>= f).run M s =
      match p.run M s with
      | (.ok a, s') => (f a).run M s'
      | (.error e, s') => (.error e, s') := by
  induction p generalizing s with
  | done a => rfl
  | fail e => rfl
  | get k next ih | isDirty k next ih => exact ih _ _
  | put k v next ih | note n next ih => exact ih _

variable {p : Script κ V N ε α} {f : α → Script κ V N ε β}

theorem run_bind_eq_ok {s s' : σ} {b : β} :
    (p >>= f).run M s = (.ok b, s') ↔
      ∃ a t, p.run M s = (.ok a, t) ∧ (f a).run M t = (.ok b, s') := by
  rw [run_bind]
  constructor
  · intro h
    rcases hp : p.run M s with ⟨r, t⟩
    rw [hp] at h
    cases r with
    | ok a => exact ⟨a, t, rfl, h⟩
    | error e => simp at h
  · rintro ⟨a, t, hp, hf⟩
    rw [hp]
    exact hf

/-- The script writes to the keys of `K` and leaves the notes of `P` only. -/
def PutsIn (K : κ → Prop) (P : N → Prop) : Script κ V N ε α → Prop
  | .done _ => True
  | .fail _ => True
  | .get _ next => ∀ r, (next r).PutsIn K P
  | .put k _ next => K k ∧ next.PutsIn K P
  | .isDirty _ next => ∀ b, (next b).PutsIn K P
  | .note n next => P n ∧ next.PutsIn K P

variable {K K' : κ → Prop} {P P' : N → Prop}

theorem PutsIn.bind (hp : p.PutsIn K P) (hf : ∀ a, (f a).PutsIn K P) : (p >>= f).PutsIn K P := by
  induction p with
  | done a => exact hf a
  | fail e => trivial
  | get k next ih => exact fun r => ih r (hp r)
  | put k v next ih | note n next ih => exact ⟨hp.1, ih hp.2⟩
  | isDirty k next ih => exact fun b => ih b (hp b)

theorem PutsIn.mono (hp : p.PutsIn K P) (h : ∀ k, K k → K' k) (h' : ∀ n, P n → P' n) :
    p.PutsIn K' P' := by
  induction p with
  | done a => trivial
  | fail e => trivial
  | get k next ih => exact fun r => ih r (hp r)
  | put k v next ih => exact ⟨h k hp.1, ih hp.2⟩
  | isDirty k next ih => exact fun b => ih b (hp b)
  | note n next ih => exact ⟨h' n hp.1, ih hp.2⟩

theorem putsIn_true (p : Script κ V N ε α) : p.PutsIn (fun _ => True) fun _ => True := by
  induction p with
  | done a => trivial
  | fail e => trivial
  | get k next ih | isDirty k next ih => exact ih
  | put k v next ih | note n next ih => exact ⟨trivial, ih⟩

end Script

/-! ## Rules -/

/-- The commands of two machines agree, up to a relation of their states, where only the keys of
`K` are written. -/
structure Simulates (K : κ → Prop) (M : Machine κ V N ε σ) (M' : Machine κ V N ε τ)
    (R : σ → τ → Prop) : Prop where
  get : ∀ {s t} (k : κ), R s t → (M.get k s).1 = (M'.get k t).1 ∧ R (M.get k s).2 (M'.get k t).2
  put : ∀ {s t} (k : κ) (v : V k), K k → R s t → R (M.put k v s) (M'.put k v t)
  isDirty : ∀ {s t} (k : κ), R s t → M.isDirty k s = M'.isDirty k t
  note : ∀ {s t} (n : N), R s t → R (M.note n s) (M'.note n t)

theorem Simulates.run {M' : Machine κ V N ε τ} {R : σ → τ → Prop} (h : Simulates K M M' R)
    (hp : p.PutsIn K P) {s : σ} {t : τ} (hst : R s t) :
    (p.run M s).1 = (p.run M' t).1 ∧ R (p.run M s).2 (p.run M' t).2 := by
  induction p generalizing s t with
  | done a | fail e => exact ⟨rfl, hst⟩
  | get k next ih =>
    obtain ⟨hresult, hst'⟩ := h.get k hst
    show ((next _).run M _).1 = ((next _).run M' _).1 ∧
      R ((next _).run M _).2 ((next _).run M' _).2
    rw [hresult]
    exact ih (M'.get k t).1 (hp _) hst'
  | put k v next ih => exact ih hp.2 (h.put k v hp.1 hst)
  | isDirty k next ih =>
    show ((next _).run M s).1 = ((next _).run M' t).1 ∧
      R ((next _).run M s).2 ((next _).run M' t).2
    rw [h.isDirty k hst]
    exact ih (M'.isDirty k t) (hp _) hst
  | note n next ih => exact ih hp.2 (h.note n hst)

/-- What the commands keep, with the keys of `K` and the notes of `P`, every script keeps that
writes to these keys and leaves these notes only. -/
theorem Script.run_keeps {R : σ → Prop} (hget : ∀ k s, R s → R (M.get k s).2)
    (hput : ∀ k v s, K k → R s → R (M.put k v s)) (hnote : ∀ n s, P n → R s → R (M.note n s))
    (hp : p.PutsIn K P) {s : σ} (hs : R s) : R (p.run M s).2 := by
  induction p generalizing s with
  | done a | fail e => exact hs
  | get k next ih => exact ih _ (hp _) (hget k s hs)
  | put k v next ih => exact ih hp.2 (hput k v s hp.1 hs)
  | isDirty k next ih => exact ih _ (hp _) hs
  | note n next ih => exact ih hp.2 (hnote n s hp.1 hs)

/-! ## Reading -/

namespace Script

/-- What a script gives when each key has a value and writing changes nothing. -/
def eval (w : (k : κ) → Except ε (V k)) : Script κ V N ε α → Except ε α
  | .done a => .ok a
  | .fail e => .error e
  | .get k next => (next (w k)).eval w
  | .put _ _ next => next.eval w
  | .isDirty _ next => (next false).eval w
  | .note _ next => next.eval w

/-- Given the values of the keys, the script reads some of the keys and does nothing else. -/
def ReadsIn (w : (k : κ) → Except ε (V k)) (K : κ → Prop) : Script κ V N ε α → Prop
  | .done _ => True
  | .fail _ => True
  | .get k next => K k ∧ (next (w k)).ReadsIn w K
  | .put _ _ _ => False
  | .isDirty _ _ => False
  | .note _ _ => False

variable {w w' : (k : κ) → Except ε (V k)} {K : κ → Prop}

theorem eval_bind (p : Script κ V N ε α) (f : α → Script κ V N ε β) :
    (p >>= f).eval w =
      match p.eval w with
      | .ok a => (f a).eval w
      | .error e => .error e := by
  induction p with
  | done a => rfl
  | fail e => rfl
  | get k next ih | isDirty k next ih => exact ih _
  | put k v next ih | note n next ih => exact ih

variable {p : Script κ V N ε α} {f : α → Script κ V N ε β}

theorem eval_bind_eq_ok {b : β} :
    (p >>= f).eval w = .ok b ↔ ∃ a, p.eval w = .ok a ∧ (f a).eval w = .ok b := by
  rw [eval_bind]
  cases p.eval w with
  | ok a => simp
  | error e => simp

theorem ReadsIn.bind (hp : p.ReadsIn w K)
    (hf : ∀ a, p.eval w = .ok a → (f a).ReadsIn w K) : (p >>= f).ReadsIn w K := by
  induction p with
  | done a => exact hf a rfl
  | fail e => trivial
  | get k next ih => exact ⟨hp.1, ih _ hp.2 hf⟩
  | put k v next ih | isDirty k next ih | note n next ih => exact hp.elim

theorem ReadsIn.run (hp : p.ReadsIn w K) {s : σ}
    (hget : ∀ k, K k → M.get k s = (w k, s)) : p.run M s = (p.eval w, s) := by
  induction p with
  | done a => rfl
  | fail e => rfl
  | get k next ih =>
    show (next (M.get k s).1).run M (M.get k s).2 = _
    rw [hget k hp.1]
    exact ih _ hp.2
  | put k v next ih | isDirty k next ih | note n next ih => exact hp.elim

theorem ReadsIn.eval_congr (hp : p.ReadsIn w K) (h : ∀ k, K k → w' k = w k) :
    p.eval w' = p.eval w := by
  induction p with
  | done a => rfl
  | fail e => rfl
  | get k next ih =>
    show (next (w' k)).eval w' = (next (w k)).eval w
    rw [h k hp.1]
    exact ih _ hp.2
  | put k v next ih | isDirty k next ih | note n next ih => exact hp.elim

end Script

end Accumulate.Library
