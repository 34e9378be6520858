import Accumulate.Record.Batch

/-!
# Stacks of changes

What nested batches are for: a batch is the set of the changes made in it, a value is looked up in
the changes of the batch, then in those of its ancestors, then in what is stored.  Committing a
batch lays its changes over those of its parent, or over what is stored; discarding it drops them.
-/

namespace Accumulate.Record

open Library Protocol

variable {κ : Type} {V : κ → Type} {N : Type}

/-- The changes made in a batch. -/
structure Layer (κ : Type) (V : κ → Type) (N : Type) where
  puts : (k : κ) → Option (V k)
  entries : List N
  writable : Bool

/-- The open batches, the innermost first, over what is stored. -/
structure Overlay (κ : Type) (V : κ → Type) (N : Type) where
  layers : List (Layer κ V N)
  store : κ → Option Bytes
  bpt : List N

def Layer.new (writable : Bool) : Layer κ V N :=
  { puts := fun _ => none, entries := [], writable := writable }

/-- The changes of one layer over those of another. -/
def Layer.over (child parent : Layer κ V N) : Layer κ V N :=
  { puts := fun k => (child.puts k).or (parent.puts k)
    entries := child.entries ++ parent.entries
    writable := parent.writable }

/-- What is stored for a key, as `Value.Get` gives it. -/
def Schema.fetch (S : Schema κ V) (store : κ → Option Bytes) (k : κ) : Except Error (V k) :=
  (S.load k (S.getValue k (store k))).1

/-- The value of a key in a batch: the one that was put last, or the one below. -/
def Layer.contents (below : (k : κ) → Except Error (V k)) (l : Layer κ V N) (k : κ) :
    Except Error (V k) :=
  match l.puts k with
  | some v => .ok v
  | none => below k

/-- The value of a key: the latest that was put in the innermost batch that has one, or what is
stored. -/
def view (S : Schema κ V) (store : κ → Option Bytes) :
    List (Layer κ V N) → (k : κ) → Except Error (V k)
  | [], k => S.fetch store k
  | l :: below, k => l.contents (view S store below) k

namespace Layer

variable [DecidableEq κ]

def put (k : κ) (v : V k) (l : Layer κ V N) : Layer κ V N :=
  { l with puts := Function.update l.puts k (some v) }

def machine (below : (k : κ) → Except Error (V k)) : Machine κ V N Error (Layer κ V N) where
  get := fun k l => (l.contents below k, l)
  put := put
  isDirty := fun k l => (l.puts k).isSome
  note := fun n l => { l with entries := n :: l.entries }

/-- The changes with those the records make before they are committed. -/
def prepare (below : (k : κ) → Except Error (V k)) (parts : List (Part κ V N)) (l : Layer κ V N) :
    Layer κ V N :=
  parts.foldl (fun l part => (part.before.run (machine below) l).2) l

/-- The code of no record fails. -/
def Prepares (below : (k : κ) → Except Error (V k)) : List (Part κ V N) → Layer κ V N → Prop
  | [], _ => True
  | part :: parts, l =>
    (part.before.run (machine below) l).1 = .ok () ∧
      Prepares below parts (part.before.run (machine below) l).2

end Layer

def Layer.overStore (S : Schema κ V) (l : Layer κ V N) (store : κ → Option Bytes) :
    κ → Option Bytes :=
  fun k =>
    match l.puts k with
    | some v => (S.marshal k v).toOption
    | none => store k

namespace Overlay

variable [DecidableEq κ] (S : Schema κ V)

def commit (parts : List (Part κ V N)) (o : Overlay κ V N) : Overlay κ V N :=
  match o.layers with
  | [] => o
  | [l] =>
    let l := l.prepare (S.fetch o.store) parts
    if l.writable then
      { layers := [], store := l.overStore S o.store, bpt := l.entries ++ o.bpt }
    else { o with layers := [] }
  | l :: parent :: rest =>
    { o with layers := (l.prepare (view S o.store (parent :: rest)) parts).over parent :: rest }

def step (op : Op κ V N) (o : Overlay κ V N) : Output κ V × Overlay κ V N :=
  match o.layers, op with
  | [], .begin writable => (.done, { o with layers := [.new writable] })
  | [], _ => (.done, o)
  | l :: rest, .begin writable =>
    (.done, { o with layers := .new (l.writable && writable) :: l :: rest })
  | l :: rest, .get k => (.got k (view S o.store (l :: rest) k), o)
  | l :: rest, .put k v => (.done, { o with layers := l.put k v :: rest })
  | _ :: _, .commit parts => (.done, o.commit S parts)
  | _ :: rest, .discard => (.done, { o with layers := rest })

def run : List (Op κ V N) → Overlay κ V N → List (Output κ V) × Overlay κ V N
  | [], o => ([], o)
  | op :: ops, o =>
    let r := o.step S op
    let rest := run ops r.2
    (r.1 :: rest.1, rest.2)

end Overlay

/-! ## Lookups -/

section Lookup

variable (S : Schema κ V) (store : κ → Option Bytes) {l : Layer κ V N} {below : List (Layer κ V N)}

@[simp] theorem view_nil (k : κ) : view (N := N) S store [] k = S.fetch store k := rfl

theorem view_cons_some {k : κ} {v : V k}
    (h : l.puts k = some v) : view S store (l :: below) k = .ok v := by
  simp only [view, Layer.contents, h]

theorem view_cons_none {k : κ}
    (h : l.puts k = none) : view S store (l :: below) k = view S store below k := by
  simp only [view, Layer.contents, h]

end Lookup

/-! ## Programs over changes -/

section Program

variable [DecidableEq κ] {below : (k : κ) → Except Error (V k)} {L : Layer κ V N} {α : Type}
variable {K : κ → Prop} {P : N → Prop} {p : Script κ V N Error α}

theorem Layer.run_puts {k : κ} (hp : p.PutsIn K P) (hk : ¬ K k) :
    (p.run (machine below) L).2.puts k = L.puts k := by
  refine Script.run_keeps (R := fun L' : Layer κ V N => L'.puts k = L.puts k) (fun _ _ h => h) ?_
    (fun _ _ _ h => h) hp rfl
  intro j v L' hj h
  have hne : k ≠ j := fun heq => hk (heq ▸ hj)
  simpa [machine, put, hne] using h

theorem Layer.run_puts_ne_none {k : κ} (p : Script κ V N Error α) (hk : L.puts k ≠ none) :
    (p.run (machine below) L).2.puts k ≠ none := by
  refine Script.run_keeps (R := fun L' : Layer κ V N => L'.puts k ≠ none) (fun _ _ h => h) ?_
    (fun _ _ _ h => h) p.putsIn_true hk
  intro j v L' _ h
  by_cases hjk : k = j
  · subst hjk
    simp [machine, put]
  · simpa [machine, put, hjk] using h

theorem Layer.run_writable (p : Script κ V N Error α) :
    (p.run (machine below) L).2.writable = L.writable :=
  Script.run_keeps (R := fun L' : Layer κ V N => L'.writable = L.writable) (fun _ _ h => h)
    (fun _ _ _ _ h => h) (fun _ _ _ h => h) p.putsIn_true rfl

theorem Layer.run_entries (hp : p.PutsIn K fun _ => False) :
    (p.run (machine below) L).2.entries = L.entries :=
  Script.run_keeps (R := fun L' : Layer κ V N => L'.entries = L.entries) (fun _ _ h => h)
    (fun _ _ _ _ h => h) (fun _ _ hfalse _ => hfalse.elim) hp rfl

theorem Layer.prepare_writable (parts : List (Part κ V N)) :
    (L.prepare below parts).writable = L.writable := by
  induction parts generalizing L with
  | nil => rfl
  | cons part parts ih => exact ih.trans (Layer.run_writable part.before)

end Program

end Accumulate.Record
