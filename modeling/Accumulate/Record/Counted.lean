import Accumulate.Record.Batch

/-!
# Counted records

`Counted` of `internal/database/record`: a value for the number of elements and one for each of
them.  A parent only commits the records whose `IsDirty` returns true.  A `Value`, and with it a
`Set` or a `List`, is dirty if and only if its `Commit` stores something.  `IsDirty` of a counted
record looks at its values but returns true at its end as well.
-/

namespace Accumulate.Record

open Protocol

variable {α β : Type}

/-- What a counted record stores. -/
inductive Write (α : Type) where
  | count (n : Nat)
  | element (i : Nat) (v : α)
deriving DecidableEq, Repr

/-- What the store of a counted record answers at one time. -/
structure CountedStore (α : Type) where
  getCount : Except Error Nat
  getElement : Nat → Except Error α
  putValue : Write α → Except Error Unit

namespace Value

/-- `Value.Get`, with the answer of the store. -/
def get (name : String) (new : Option α) (stored : Except Error α) :
    Value α → Except Error α × Value α
  | .notFound => (.error (.notFound (name ++ " not found")), .notFound)
  | .clean v => (.ok v, .clean v)
  | .dirty v => (.ok v, .dirty v)
  | .undefined =>
    match stored with
    | .ok v => (.ok v, .clean v)
    | .error e =>
      if !e.is .notFound then (.error e.wrap, .undefined)
      else
        match new with
        | some v => (.ok v, .clean v)
        | none => (.error (.notFound (name ++ " not found")), .notFound)

def commit (s : CountedStore α) (write : β → Write α) : Value β → Except Error Unit × List (Write α)
  | .dirty v => ((s.putValue (write v)).mapError .wrap, [write v])
  | _ => (.ok (), [])

end Value

/-- The elements that have not been asked for are nil. -/
structure Counted (α : Type) where
  name : String
  count : Value Nat
  values : List (Option (Value α))

namespace Counted

def new (name : String) : Counted α := ⟨name, .undefined, []⟩

def getCount (s : CountedStore α) (c : Counted α) : Except Error Nat × Counted α :=
  let r := c.count.get c.name (some 0) s.getCount
  (r.1.mapError .wrap, { c with count := r.2 })

/-- `value`: the list is filled up with nils. -/
def value (i : Nat) (c : Counted α) : Value α :=
  (c.values[i]?.getD none).getD .undefined

def setValue (i : Nat) (v : Value α) (c : Counted α) : Counted α :=
  { c with values :=
      (c.values ++ List.replicate (i + 1 - c.values.length) none).set i (some v) }

def get (s : CountedStore α) (i : Nat) (c : Counted α) : Except Error α × Counted α :=
  let r := (c.value i).get (c.name ++ " " ++ toString i) none (s.getElement i)
  (r.1.mapError .wrap, c.setValue i r.2)

def put (s : CountedStore α) (u : α) (c : Counted α) : Except Error Unit × Counted α :=
  match c.getCount s with
  | (.error e, c) => (.error e.wrap, c)
  | (.ok n, c) => (.ok (), { c with count := .dirty (n + 1) }.setValue n (.dirty u))

def isDirty (c : Counted α) : Bool :=
  if c.count.isDirty then true
  else if c.values.any fun v => v.any Value.isDirty then true
  else true

def commitElements (s : CountedStore α) :
    Nat → List (Option (Value α)) → Except Error Unit × List (Write α)
  | _, [] => (.ok (), [])
  | i, none :: rest => commitElements s (i + 1) rest
  | i, some v :: rest =>
    match v.commit s (.element i) with
    | (.error e, l) => (.error e.wrap, l)
    | (.ok _, l) =>
      let r := commitElements s (i + 1) rest
      (r.1, l ++ r.2)

def commit (s : CountedStore α) (c : Counted α) : Except Error Unit × List (Write α) :=
  match c.count.commit s .count with
  | (.error e, l) => (.error e.wrap, l)
  | (.ok _, l) =>
    let r := commitElements s 0 c.values
    (r.1, l ++ r.2)

inductive Op (α : Type) where
  | put (v : α)
  | get (i : Nat)
  | count
  | commit

/-- A call, and whether it is or follows a `Put` that succeeds.  `Commit` leaves the statuses of the
values as they are. -/
def step (state : Counted α × Bool) : CountedStore α × Op α → Counted α × Bool
  | (s, .put v) =>
    match state.1.put s v with
    | (.ok _, c) => (c, true)
    | (.error _, c) => (c, state.2)
  | (s, .get i) => ((state.1.get s i).2, state.2)
  | (s, .count) => ((state.1.getCount s).2, state.2)
  | (_, .commit) => state

/-! ## What is dirty -/

theorem isDirty_get (name : String) (new : Option α) (stored : Except Error α) (v : Value α) :
    (v.get name new stored).2.isDirty = v.isDirty := by
  unfold Value.get
  split
  case h_4 =>
    split
    · rfl
    · split
      · rfl
      · split <;> rfl
  all_goals rfl

theorem isDirty_iff_writes (s : CountedStore α) (write : β → Write α) (v : Value β) :
    v.isDirty = true ↔ (v.commit s write).2 ≠ [] := by
  cases v <;> simp [Value.isDirty, Value.commit]

/-- No element has been changed. -/
def Unchanged (c : Counted α) : Prop := ∀ v ∈ c.values, v.any Value.isDirty = false

theorem Unchanged.setValue {c : Counted α} (h : c.Unchanged) {i : Nat} {v : Value α}
    (hv : v.isDirty = false) : (c.setValue i v).Unchanged := by
  intro w hw
  rcases List.mem_or_eq_of_mem_set hw with hw | rfl
  · rcases List.mem_append.1 hw with hw | hw
    · exact h w hw
    · rw [List.eq_of_mem_replicate hw]
      rfl
  · exact hv

theorem Unchanged.value {c : Counted α} (h : c.Unchanged) (i : Nat) :
    (c.value i).isDirty = false := by
  unfold Counted.value
  cases hv : c.values[i]? with
  | none => rfl
  | some v =>
    have hclean := h v (List.mem_of_getElem? hv)
    cases v with
    | none => rfl
    | some v => exact hclean

theorem commitElements_eq_nil {s : CountedStore α} {l : List (Option (Value α))}
    (h : ∀ v ∈ l, v.any Value.isDirty = false) (i : Nat) :
    commitElements s i l = (.ok (), []) := by
  induction l generalizing i with
  | nil => rfl
  | cons v l ih =>
    obtain ⟨hv, hl⟩ := List.forall_mem_cons.1 h
    rcases v with _ | _ | _ | _ | _
    case some.dirty => cases hv
    all_goals simp [commitElements, Value.commit, ih hl]

/-- The count is changed by the first `Put` that succeeds, and the elements are not changed
before. -/
def Changed (state : Counted α × Bool) : Prop :=
  state.1.count.isDirty = state.2 ∧ (state.2 = false → state.1.Unchanged)

theorem Changed.step {state : Counted α × Bool} (h : Changed state) (op : CountedStore α × Op α) :
    Changed (step state op) := by
  obtain ⟨hcount, hvalues⟩ := h
  obtain ⟨s, op⟩ := op
  have hloaded : Changed ((state.1.getCount s).2, state.2) :=
    ⟨(isDirty_get _ _ _ _).trans hcount, hvalues⟩
  cases op with
  | put v =>
    simp only [Counted.step, Counted.put]
    rcases hload : state.1.getCount s with ⟨_ | n, c⟩
    · rwa [hload] at hloaded
    · exact ⟨rfl, nofun⟩
  | get i =>
    refine ⟨hcount, fun hnone => (hvalues hnone).setValue ?_⟩
    exact (isDirty_get _ _ _ _).trans ((hvalues hnone).value i)
  | count => exact hloaded
  | commit => exact ⟨hcount, hvalues⟩

/-- **What is dirty is stored.**  A value, with it a set or a list, is dirty exactly if its `Commit`
stores something, in every state.  For a counted record this is so exactly if a `Put` has
succeeded. -/
theorem isDirty_iff_commit :
    (∀ (β : Type) (s : CountedStore α) (write : β → Write α) (v : Value β),
        v.isDirty = true ↔ (v.commit s write).2 ≠ []) ∧
      ∀ (name : String) (ops : List (CountedStore α × Op α)) (s : CountedStore α),
        let state := ops.foldl step (new name, false)
        (state.1.isDirty = true ↔ (state.1.commit s).2 ≠ []) ↔ state.2 = true := by
  refine ⟨fun β => isDirty_iff_writes, fun name ops s => ?_⟩
  obtain ⟨hcount, hvalues⟩ : Changed (ops.foldl step (new name, false)) :=
    List.foldlRecOn ops step ⟨rfl, fun _ => nofun⟩ fun _ h op _ => h.step op
  generalize ops.foldl step (new name, false) = state at hcount hvalues ⊢
  have hdirty : state.1.isDirty = true := by
    unfold isDirty
    split_ifs <;> rfl
  dsimp only
  rw [hdirty, eq_self, true_iff]
  cases hput : state.2 with
  | true =>
    rw [hput, isDirty_iff_writes s Write.count] at hcount
    refine iff_of_true ?_ rfl
    unfold commit
    split
    · rename_i e l hl
      rwa [hl] at hcount
    · rename_i l hl
      rw [hl] at hcount
      exact fun hnil => hcount (List.append_eq_nil_iff.1 hnil).1
  | false =>
    rw [hput] at hcount
    refine iff_of_false ?_ Bool.false_ne_true
    unfold commit
    rcases state with ⟨⟨name, _ | _ | _ | _, values⟩, put⟩
    case dirty => cases hcount
    all_goals simp [Value.commit, commitElements_eq_nil (hvalues hput)]

def emptyStore : CountedStore Nat where
  getCount := .error (.notFound "key not found")
  getElement _ := .error (.notFound "key not found")
  putValue _ := .ok ()

/-- A record that has only been read is dirty, and its `Commit` stores nothing. -/
theorem isDirty_clean :
    ([(emptyStore, .get 0), (emptyStore, .count)].foldl step (new "votes", false)).1.isDirty =
        true ∧
      ([(emptyStore, .get 0), (emptyStore, .count)].foldl step
        (new "votes", false)).1.commit emptyStore = (.ok (), []) := by
  decide +kernel

end Counted

end Accumulate.Record
