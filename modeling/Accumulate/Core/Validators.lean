import Mathlib.Logic.Relation
import Accumulate.Core.Globals

/-!
# Validators of a partition

`GlobalValues.DiffValidators` of `internal/core`: the updates that turn the validators of one
network definition that are active on a partition into those of another, and how the `Accumulator`
hands them to Tendermint.
-/

namespace Accumulate.Core

open Library Protocol

/-- `ValidatorInfo` with the key, which the executor does not read. -/
structure Validator extends ValidatorInfo where
  publicKey : Bytes
deriving DecidableEq, Repr

inductive ValidatorUpdate where
  | add
  | remove
deriving DecidableEq, Repr

abbrev ValidatorUpdates := Bytes → Option ValidatorUpdate

def diffLoop (partitionID : String) (mark : Option ValidatorUpdate → Option ValidatorUpdate) :
    List Validator → ValidatorUpdates → Except String ValidatorUpdates
  | [], updates => .ok updates
  | v :: rest, updates =>
    if !v.isActiveOn partitionID then diffLoop partitionID mark rest updates
    else if v.publicKey.length ≠ 32 then .error "invalid ED25519 key: wrong length"
    else diffLoop partitionID mark rest
      (Function.update updates v.publicKey (mark (updates v.publicKey)))

/-- `DiffValidators`: the old keys are marked for deletion; a new key that is marked is
unmarked, and one that is not is marked for addition. -/
def diffValidators (g : Option (List Validator)) (h : List Validator) (partitionID : String) :
    Except String ValidatorUpdates := do
  let updates ← diffLoop partitionID (fun _ => some .remove) (g.getD []) fun _ => none
  diffLoop partitionID (fun update => if update.isSome then none else some .add) h updates

def activeKeys (validators : List Validator) (partitionID : String) : List Bytes :=
  (validators.filter (·.isActiveOn partitionID)).map (·.publicKey)

variable {partitionID : String} {validators : List Validator}
  {mark : Option ValidatorUpdate → Option ValidatorUpdate}

/-- The keys are those of different validators and have the right length. -/
def GoodKeys (validators : List Validator) : Prop :=
  (validators.map (·.publicKey)).Nodup ∧ ∀ v ∈ validators, v.publicKey.length = 32

theorem diffLoop_eq (h : GoodKeys validators) (updates : ValidatorUpdates) :
    diffLoop partitionID mark validators updates = .ok fun k =>
      if k ∈ activeKeys validators partitionID then mark (updates k) else updates k := by
  induction validators generalizing updates with
  | nil => rfl
  | cons v rest ih =>
    obtain ⟨hnodup, hlength⟩ := h
    obtain ⟨hnew, hnodup⟩ := List.nodup_cons.1 hnodup
    have ih := ih ⟨hnodup, fun w hw => hlength w (List.mem_cons_of_mem v hw)⟩
    unfold diffLoop
    cases hactive : v.isActiveOn partitionID with
    | false =>
      have hkeys : activeKeys (v :: rest) partitionID = activeKeys rest partitionID := by
        simp [activeKeys, hactive]
      rw [hkeys]
      exact ih updates
    | true =>
      rw [if_neg (by simp), if_neg (by simp [hlength v List.mem_cons_self]), ih]
      congr 1
      funext k
      have hkeys : activeKeys (v :: rest) partitionID =
          v.publicKey :: activeKeys rest partitionID := by
        simp [activeKeys, hactive]
      rw [hkeys]
      by_cases hk : k = v.publicKey
      · -- the key of this validator does not come again
        subst hk
        have hlater : v.publicKey ∉ activeKeys rest partitionID := fun hmem =>
          hnew (List.map_subset _ (List.filter_subset_self rest) hmem)
        simp [hlater]
      · simp [hk]

/-- The updates turn the active keys of the old validators into those of the new ones; they add
no key that is active and remove none that is not. -/
theorem diffValidators_spec (g : Option (List Validator)) (h : List Validator)
    (partitionID : String) (hg : GoodKeys (g.getD [])) (hh : GoodKeys h) :
    ∃ updates, diffValidators g h partitionID = .ok updates ∧
      (∀ k, k ∈ activeKeys h partitionID ↔ updates k = some .add ∨
        k ∈ activeKeys (g.getD []) partitionID ∧ updates k ≠ some .remove) ∧
      (∀ k, updates k = some .add → k ∉ activeKeys (g.getD []) partitionID) ∧
      ∀ k, updates k = some .remove → k ∈ activeKeys (g.getD []) partitionID := by
  refine ⟨_, by rw [diffValidators, diffLoop_eq hg]; exact diffLoop_eq hh _, ?_, ?_, ?_⟩
  all_goals
    intro k
    by_cases hold : k ∈ activeKeys (g.getD []) partitionID <;>
      by_cases hnew : k ∈ activeKeys h partitionID <;> simp [hold, hnew]

def sampleValidator (key : UInt8) (active : Bool) : Validator :=
  ⟨⟨[], [("directory", active)]⟩, List.replicate 32 key⟩

/-- A key is kept, one is removed, one is added, and one is inactive before and after. -/
theorem diffValidators_spec_sample : ∃ updates,
    diffValidators (some [sampleValidator 1 true, sampleValidator 2 true, sampleValidator 4 false])
        [sampleValidator 3 true, sampleValidator 1 true, sampleValidator 4 false] "directory" =
      .ok updates ∧ updates (List.replicate 32 2) = some .remove ∧
        updates (List.replicate 32 3) = some .add := by
  obtain ⟨updates, hrun, happlied, -, -⟩ := diffValidators_spec
    (some [sampleValidator 1 true, sampleValidator 2 true, sampleValidator 4 false])
    [sampleValidator 3 true, sampleValidator 1 true, sampleValidator 4 false] "directory"
    ⟨by decide, by decide⟩ ⟨by decide, by decide⟩
  refine ⟨updates, hrun, ?_, ((happlied _).1 (by decide)).resolve_right ?_⟩
  · by_contra hkept
    exact absurd ((happlied _).2 (.inr ⟨by decide, hkept⟩)) (by decide)
  · exact fun hold => absurd hold.1 (by decide)

/-! ## Updates for Tendermint -/

/-- What the `Accumulator` of `internal/abci` has to do with validators: those of the active
globals, the updates it is going to return, and the keys that Tendermint has. -/
structure Accumulator where
  active : List Validator
  pendingUpdates : List (Bytes × ValidatorUpdate)
  tendermint : Bytes → Prop

/-- The entries of the map, in some order. -/
def Lists (updates : ValidatorUpdates) (l : List (Bytes × ValidatorUpdate)) : Prop :=
  (l.map (·.1)).Nodup ∧ ∀ k u, (k, u) ∈ l ↔ updates k = some u

/-- `willChangeGlobals`, where `updates` is the map in the order in which it is ranged over. -/
def willChangeGlobals (pending updates : List (Bytes × ValidatorUpdate)) :
    List (Bytes × ValidatorUpdate) :=
  (pending ++ updates).mergeSort fun a b => (compare a.1 b.1).isLE

/-- `EndBlock` of a block that is not empty.  The updates are returned to Tendermint. -/
def EndBlock (partitionID : String) (app : Accumulator) (returned : List (Bytes × ValidatorUpdate))
    (app' : Accumulator) : Prop :=
  ∃ updates l, diffValidators (some app.active) app'.active partitionID = .ok updates ∧
    Lists updates l ∧ returned = willChangeGlobals app.pendingUpdates l ∧
    app'.pendingUpdates = [] ∧
    ∀ k, app'.tendermint k ↔ (k, .add) ∈ returned ∨ app.tendermint k ∧ (k, .remove) ∉ returned

/-- Tendermint has the active keys, and at most additions of active keys are pending.  After
`InitChain`, which loads the globals, the additions of all of them are. -/
structure Ready (partitionID : String) (app : Accumulator) : Prop where
  keys : GoodKeys app.active
  tendermint : ∀ k, app.tendermint k ↔ k ∈ activeKeys app.active partitionID
  nodup : (app.pendingUpdates.map (·.1)).Nodup
  pending : ∀ k u, (k, u) ∈ app.pendingUpdates → u = .add ∧ k ∈ activeKeys app.active partitionID

variable {app app₀ app' : Accumulator} {returned : List (Bytes × ValidatorUpdate)}

theorem mem_listed {g h : List Validator} {updates : ValidatorUpdates}
    {l : List (Bytes × ValidatorUpdate)} (hg : GoodKeys g) (hh : GoodKeys h)
    (hdiff : diffValidators (some g) h partitionID = .ok updates) (hl : Lists updates l)
    (k : Bytes) (u : ValidatorUpdate) :
    (k, u) ∈ l ↔
      match u with
      | .add => k ∉ activeKeys g partitionID ∧ k ∈ activeKeys h partitionID
      | .remove => k ∈ activeKeys g partitionID ∧ k ∉ activeKeys h partitionID := by
  rw [diffValidators, Option.getD_some, diffLoop_eq hg] at hdiff
  cases (diffLoop_eq hh _).symm.trans hdiff
  rw [hl.2]
  cases u <;> by_cases hold : k ∈ activeKeys g partitionID <;>
    by_cases hnew : k ∈ activeKeys h partitionID <;> simp [hold, hnew]

/-- One block: the keys that are returned are distinct if no pending one is removed, and Tendermint
then has the active keys again. -/
theorem Ready.endBlock (h : Ready partitionID app) (hkeys : GoodKeys app'.active)
    (hend : EndBlock partitionID app returned app') :
    ((returned.map (·.1)).Nodup ↔
      ∀ k u, (k, u) ∈ app.pendingUpdates → k ∈ activeKeys app'.active partitionID) ∧
    ((returned.map (·.1)).Nodup → Ready partitionID app') := by
  obtain ⟨updates, l, hdiff, hl, rfl, hnil, htendermint⟩ := hend
  have hmem := mem_listed h.keys hkeys hdiff hl
  have hperm := List.mergeSort_perm (app.pendingUpdates ++ l) fun a b => (compare a.1 b.1).isLE
  have hdistinct : ((willChangeGlobals app.pendingUpdates l).map (·.1)).Nodup ↔
      ∀ k u, (k, u) ∈ app.pendingUpdates → k ∈ activeKeys app'.active partitionID := by
    rw [willChangeGlobals, (hperm.map _).nodup_iff, List.map_append, List.nodup_append]
    constructor
    · rintro ⟨-, -, hne⟩ k u hku
      by_contra hgone
      have hremove := (hmem k .remove).2 ⟨(h.pending k u hku).2, hgone⟩
      exact hne k (List.mem_map_of_mem hku) k (List.mem_map_of_mem hremove) rfl
    · refine fun hkept => ⟨h.nodup, hl.1, ?_⟩
      rintro k hk _ hk' rfl
      obtain ⟨⟨_, u⟩, hku, rfl⟩ := List.mem_map.1 hk
      obtain ⟨⟨_, u'⟩, hku', rfl⟩ := List.mem_map.1 hk'
      have hlisted := (hmem _ u').1 hku'
      cases u' with
      | add => exact hlisted.1 (h.pending _ u hku).2
      | remove => exact hlisted.2 (hkept _ u hku)
  refine ⟨hdistinct, fun hnodup => ⟨hkeys, fun k => ?_, by simp [hnil], by simp [hnil]⟩⟩
  have hkept := hdistinct.1 hnodup k
  have hpending := h.pending k
  rw [htendermint, willChangeGlobals, hperm.mem_iff, hperm.mem_iff, List.mem_append,
    List.mem_append, hmem, hmem, h.tendermint]
  grind

/-- **Tendermint follows the network definition.**  Over any number of blocks, Tendermint has the
active keys, and a block returns two updates of one key just if it removes a key whose addition is
pending, which only the first one can do. -/
theorem tendermint_follows (h : Ready partitionID app₀)
    (hrun : Relation.ReflTransGen (fun app app' => GoodKeys app'.active ∧ ∃ returned,
      EndBlock partitionID app returned app' ∧ (returned.map (·.1)).Nodup) app₀ app) :
    (∀ k, app.tendermint k ↔ k ∈ activeKeys app.active partitionID) ∧
    ∀ returned app', GoodKeys app'.active → EndBlock partitionID app returned app' →
      ((returned.map (·.1)).Nodup ↔
        ∀ k u, (k, u) ∈ app.pendingUpdates → k ∈ activeKeys app'.active partitionID) := by
  have hready : Ready partitionID app := by
    induction hrun with
    | refl => exact h
    | tail _ hstep ih =>
      obtain ⟨hkeys, returned, hend, hnodup⟩ := hstep
      exact (ih.endBlock hkeys hend).2 hnodup
  exact ⟨hready.tendermint, fun returned app' hkeys hend => (hready.endBlock hkeys hend).1⟩

def genesis : Accumulator where
  active := [⟨⟨[], [("directory", true)]⟩, List.replicate 32 1⟩]
  pendingUpdates := [(List.replicate 32 1, .add)]
  tendermint := (· = List.replicate 32 1)

theorem tendermint_follows_genesis : Ready "directory" genesis ∧
    ∀ returned app', app'.active = [] → EndBlock "directory" genesis returned app' →
      ¬(returned.map (·.1)).Nodup := by
  have hkeys : activeKeys genesis.active "directory" = [List.replicate 32 1] := by decide
  have hready : Ready "directory" genesis := by
    refine ⟨⟨by decide, by decide⟩, fun k => ?_, by decide, fun k u h => ?_⟩
    · exact hkeys ▸ List.mem_singleton.symm
    · cases List.mem_singleton.1 h
      exact ⟨rfl, by decide⟩
  refine ⟨hready, fun returned app' hnil hend hnodup => ?_⟩
  have hkept := ((tendermint_follows hready .refl).2 returned app' (by simp [GoodKeys, hnil])
    hend).1 hnodup _ _ List.mem_cons_self
  simp [activeKeys, hnil] at hkept

end Accumulate.Core
