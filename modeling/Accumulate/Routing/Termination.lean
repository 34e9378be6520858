import Accumulate.Routing.Tree

/-!
# When the routing tree is built

The builder descends by the length of the shortest route that is left.  If two or more routes are
left and one of them ends where the call begins, then there are no bits to descend by, and the call
makes itself again.  A call without routes panics, and so does one with more bits than a slice of
children can be made for.

`newRouteTree_returns_iff` says that these are the only ways not to get a tree or an error.
-/

namespace Accumulate.Routing

open Library Protocol Accumulate.Core

/-- The group of routes makes a tree. -/
def Builds (limit : Nat) (routes : List Route) (depth : Nat) : Prop :=
  ∃ fuel t, buildPrefixTree limit fuel routes depth = some (.ok t)

/-- The loop over the children calls the builder for the group: there is a route for each of the
children before it, and they have been built. -/
inductive ChildCall (limit offset bits : Nat) : (remaining i : Nat) → List Route → List Route → Prop
  | here {remaining i : Nat} {routes : List Route}
      (hn : firstIndex routes (fun r => i < digit offset bits r) ≠ 0) :
      ChildCall limit offset bits (remaining + 1) i routes
        (routes.take (firstIndex routes fun r => i < digit offset bits r))
  | later {remaining i : Nat} {routes group : List Route}
      (hn : firstIndex routes (fun r => i < digit offset bits r) ≠ 0)
      (hbuilds : Builds limit
        (routes.take (firstIndex routes fun r => i < digit offset bits r)) offset)
      (hcall : ChildCall limit offset bits remaining (i + 1)
        (routes.drop (firstIndex routes fun r => i < digit offset bits r)) group) :
      ChildCall limit offset bits (remaining + 1) i routes group

/-- A call of `buildPrefixTree` makes another one. -/
inductive Calls (limit : Nat) : List Route → Nat → List Route → Nat → Prop
  | child {r s : Route} {rest group : List Route} {depth : Nat}
      (halloc : ¬ Unallocatable limit ((minLength r (s :: rest) - depth) % 2 ^ 16))
      (hcall : ChildCall limit (minLength r (s :: rest))
        ((minLength r (s :: rest) - depth) % 2 ^ 16)
        (childCount ((minLength r (s :: rest) - depth) % 2 ^ 16)) 0 (r :: s :: rest) group) :
      Calls limit (r :: s :: rest) depth group (minLength r (s :: rest))

/-- A call is made in the course of another one. -/
inductive Reaches (limit : Nat) : List Route → Nat → List Route → Nat → Prop
  | refl {routes : List Route} {depth : Nat} : Reaches limit routes depth routes depth
  | step {routes routes₁ routes₂ : List Route} {depth depth₁ depth₂ : Nat}
      (hcall : Calls limit routes depth routes₁ depth₁)
      (hrest : Reaches limit routes₁ depth₁ routes₂ depth₂) :
      Reaches limit routes depth routes₂ depth₂

/-- The call cannot return: there are no routes, or there are several of them and one ends where
the call begins, or the slice of children cannot be made. -/
def Stuck (limit : Nat) (routes : List Route) (depth : Nat) : Prop :=
  match routes with
  | [] => True
  | [_] => False
  | r :: s :: rest => minLength r (s :: rest) = depth ∨
      Unallocatable limit ((minLength r (s :: rest) - depth) % 2 ^ 16)

/-- Some bound on the depth is enough to return a tree or an error. -/
def Returning (limit : Nat) (routes : List Route) (depth : Nat) : Prop :=
  ∃ fuel o, buildPrefixTree limit fuel routes depth = some o ∧ o.Returns

section Fuel

variable {limit depth offset bits : Nat}

variable {routes : List Route} {fuel fuel' : Nat} {o : Outcome Error PrefixTree}

theorem buildChildren_mono {build build' : List Route → Option (Outcome Error PrefixTree)}
    (hbuild : ∀ group o, build group = some o → build' group = some o) {remaining i : Nat}
    {o : Outcome Error (List PrefixTree)}
    (h : buildChildren build depth offset bits remaining i routes = some o) :
    buildChildren build' depth offset bits remaining i routes = some o := by
  induction remaining generalizing i routes o with
  | zero => exact h
  | succ remaining ih =>
    unfold buildChildren at h ⊢
    dsimp only at h ⊢
    split
    · rename_i hn
      rwa [if_pos hn] at h
    rename_i hn
    rw [if_neg hn] at h
    cases hgroup : build
        (routes.take (firstIndex routes fun r => decide (i < digit offset bits r))) with
    | none => simp [hgroup] at h
    | some o₁ =>
      rw [hgroup] at h
      rw [hbuild _ _ hgroup]
      cases o₁ with
      | panic m => exact h
      | error e => exact h
      | ok child =>
        cases hrest : buildChildren build depth offset bits remaining (i + 1)
            (routes.drop (firstIndex routes fun r => decide (i < digit offset bits r))) with
        | none => simp [hrest] at h
        | some o₂ =>
          rw [hrest] at h
          rw [ih hrest]
          exact h

theorem buildPrefixTree_mono (hle : fuel ≤ fuel')
    (h : buildPrefixTree limit fuel routes depth = some o) :
    buildPrefixTree limit fuel' routes depth = some o := by
  induction fuel generalizing fuel' routes depth o with
  | zero => cases h
  | succ fuel ih =>
    obtain ⟨fuel', rfl⟩ : ∃ k, fuel' = k + 1 := ⟨fuel' - 1, by omega⟩
    match routes, h with
    | [], h => exact h
    | [_], h => exact h
    | r :: s :: rest, h =>
      unfold buildPrefixTree at h ⊢
      dsimp only at h ⊢
      split
      · rename_i halloc
        rwa [if_pos halloc] at h
      rename_i halloc
      rw [if_neg halloc] at h
      split at h
      · cases h
      · rename_i children hchildren
        rw [buildChildren_mono (fun group o => ih (Nat.le_of_succ_le_succ hle)) hchildren]
        exact h

theorem buildPrefixTree_unique {o' : Outcome Error PrefixTree}
    (h : buildPrefixTree limit fuel routes depth = some o)
    (h' : buildPrefixTree limit fuel' routes depth = some o') : o = o' := by
  have hmax := buildPrefixTree_mono (Nat.le_max_left fuel fuel') h
  rw [buildPrefixTree_mono (Nat.le_max_right fuel fuel') h'] at hmax
  exact (Option.some.inj hmax).symm

end Fuel

/-! ## Calls that do not return -/

section Stuck

variable {limit depth offset bits : Nat} {routes group : List Route} {depth₁ : Nat}

theorem eq_panic_of_not_returns {α : Type} {o : Outcome Error α} (h : ¬ o.Returns) :
    ∃ m, o = .panic m := by
  cases o with
  | panic m => exact ⟨m, rfl⟩
  | ok _ | error _ => exact absurd trivial h

theorem ChildCall.not_returns {remaining i : Nat}
    (hcall : ChildCall limit offset bits remaining i routes group)
    (hgroup : ¬ Returning limit group offset) {fuel : Nat} {o : Outcome Error (List PrefixTree)}
    (h : buildChildren (fun group => buildPrefixTree limit fuel group offset) depth offset bits
      remaining i routes = some o) : ¬ o.Returns := by
  induction hcall generalizing o with
  | here hn =>
    unfold buildChildren at h
    rw [if_neg hn] at h
    split at h
    · cases h
    · cases h
      exact id
    · rename_i e he
      exact absurd ⟨fuel, _, he, trivial⟩ hgroup
    · rename_i child hchild
      exact absurd ⟨fuel, _, hchild, trivial⟩ hgroup
  | later hn hbuilds hcall ih =>
    obtain ⟨fuel₀, t, hbuild⟩ := hbuilds
    unfold buildChildren at h
    rw [if_neg hn] at h
    split at h
    · cases h
    · rename_i m hm
      cases buildPrefixTree_unique hm hbuild
    · rename_i e he
      cases buildPrefixTree_unique he hbuild
    split at h
    · rename_i children hrest
      exact absurd trivial (ih hgroup hrest)
    · exact ih hgroup h

theorem Calls.not_returning (hcall : Calls limit routes depth group depth₁)
    (hgroup : ¬ Returning limit group depth₁) : ¬ Returning limit routes depth := by
  rintro ⟨fuel, o, h, hreturns⟩
  cases hcall with
  | child halloc hcall =>
    cases fuel with
    | zero => cases h
    | succ fuel =>
      unfold buildPrefixTree at h
      rw [if_neg halloc] at h
      split at h
      · cases h
      rename_i children hchildren
      cases h
      obtain ⟨m, rfl⟩ := eq_panic_of_not_returns (hcall.not_returns hgroup hchildren)
      exact hreturns

/-- If one of the routes ends where the call begins, all of them go to the only child, and the call
makes itself again. -/
theorem not_returning_of_minLength {r s : Route} {rest : List Route}
    (h : minLength r (s :: rest) = depth) : ¬ Returning limit (r :: s :: rest) depth := by
  rintro ⟨fuel, o, hbuild, hreturns⟩
  induction fuel generalizing o with
  | zero => cases hbuild
  | succ fuel ih =>
    unfold buildPrefixTree at hbuild
    simp only [h, Nat.sub_self, Nat.zero_mod] at hbuild
    have hdigit : (fun t => decide (0 < digit depth 0 t)) = fun _ : Route => false := by
      funext t
      simp [digit, Nat.mod_one]
    have hall : firstIndex (r :: s :: rest) (fun t => decide (0 < digit depth 0 t)) =
        (r :: s :: rest).length := by
      rw [hdigit]
      have hcut := (cut_firstIndex (l := r :: s :: rest) (List.pairwise_of_forall fun _ _ => id :
        (r :: s :: rest).Pairwise fun _ _ => false = true → false = true)).2
      have hlength := congrArg List.length hcut
      have hle := firstIndex_le (r :: s :: rest) fun _ => false
      rw [List.length_drop, List.filter_false, List.length_nil] at hlength
      omega
    split at hbuild
    · cases hbuild
      exact hreturns
    have hcount : childCount 0 = 0 + 1 := rfl
    rw [hcount] at hbuild
    unfold buildChildren at hbuild
    rw [hall, if_neg (by simp), List.take_length] at hbuild
    cases hself : buildPrefixTree limit fuel (r :: s :: rest) depth with
    | none => simp [hself] at hbuild
    | some o₁ =>
      have hpanic := eq_panic_of_not_returns fun hreturns₁ => ih o₁ hself hreturns₁
      obtain ⟨m, rfl⟩ := hpanic
      rw [hself] at hbuild
      cases hbuild
      exact hreturns

theorem Stuck.not_returning (h : Stuck limit routes depth) : ¬ Returning limit routes depth := by
  match routes, h with
  | [], _ =>
    rintro ⟨_ | fuel, o, hbuild, hreturns⟩
    · cases hbuild
    · cases hbuild
      exact hreturns
  | r :: s :: rest, h =>
    rcases h with h | halloc
    · exact not_returning_of_minLength h
    rintro ⟨_ | fuel, o, hbuild, hreturns⟩
    · cases hbuild
    unfold buildPrefixTree at hbuild
    rw [if_pos halloc] at hbuild
    cases hbuild
    exact hreturns

theorem Reaches.not_returning (h : Reaches limit routes depth group depth₁)
    (hstuck : Stuck limit group depth₁) : ¬ Returning limit routes depth := by
  induction h with
  | refl => exact hstuck.not_returning
  | step hcall _ ih => exact hcall.not_returning (ih hstuck)

end Stuck

/-! ## Calls that return -/

section Returning

variable {limit offset bits : Nat} {routes : List Route} {i remaining : Nat}

theorem buildChildren_returns (depth : Nat)
    (hcalls : ∀ group, ChildCall limit offset bits remaining i routes group →
      Returning limit group offset) :
    ∃ fuel o, buildChildren (fun group => buildPrefixTree limit fuel group offset) depth offset bits
      remaining i routes = some o ∧ o.Returns := by
  induction remaining generalizing i routes with
  | zero => exact ⟨0, _, rfl, trivial⟩
  | succ remaining ih =>
    by_cases hn : firstIndex routes (fun r => decide (i < digit offset bits r)) = 0
    · exact ⟨0, _, if_pos hn, trivial⟩
    obtain ⟨fuel, o, hbuild, hreturns⟩ := hcalls _ (.here hn)
    cases o with
    | panic m => exact absurd hreturns id
    | error e =>
      refine ⟨fuel, .error e.wrap, ?_, trivial⟩
      unfold buildChildren
      rw [if_neg hn, hbuild]
    | ok child =>
      -- the first group has been built, so that the others are called
      obtain ⟨fuel', o', hrest, hreturns'⟩ := ih fun group hcall =>
        hcalls group (.later hn ⟨fuel, child, hbuild⟩ hcall)
      have hbuild' := buildPrefixTree_mono (Nat.le_max_left fuel fuel') hbuild
      have hrest' := buildChildren_mono (fun group o h =>
        buildPrefixTree_mono (Nat.le_max_right fuel fuel') h) hrest
      cases o' with
      | panic m => exact absurd hreturns' id
      | error e =>
        refine ⟨max fuel fuel', .error e, ?_, trivial⟩
        unfold buildChildren
        rw [if_neg hn, hbuild']
        rw [hrest']
      | ok children =>
        refine ⟨max fuel fuel', .ok (child :: children), ?_, trivial⟩
        unfold buildChildren
        rw [if_neg hn, hbuild']
        rw [hrest']

theorem ChildCall.subset {group : List Route}
    (h : ChildCall limit offset bits remaining i routes group) : group ⊆ routes := by
  induction h with
  | here hn => exact List.take_subset _ _
  | later hn hbuilds hcall ih => exact fun r hr => List.drop_subset _ _ (ih hr)

/-- If no call that is made is stuck, they all return.  The calls go down by the bits that the
shortest route has left. -/
theorem returning_of_not_stuck {depth bound : Nat} (hdepth : ∀ r ∈ routes, depth ≤ r.length)
    (hbound : ∀ r ∈ routes, r.length ≤ bound)
    (hstuck : ∀ group d, Reaches limit routes depth group d → ¬ Stuck limit group d) :
    Returning limit routes depth := by
  induction hk : bound - depth using Nat.strongRecOn generalizing routes depth with
  | ind k ih =>
    have hself := hstuck routes depth .refl
    match routes, hself with
    | [], hself => exact absurd trivial hself
    | [r], _ =>
      by_cases hlength : r.length = depth
      · exact ⟨1, _, if_neg (not_not.2 hlength), trivial⟩
      · exact ⟨1, _, if_pos hlength, trivial⟩
    | r :: s :: rest, hself =>
      have hmin : ∀ t ∈ r :: s :: rest, minLength r (s :: rest) ≤ t.length := fun t => minLength_le
      have hle : depth ≤ minLength r (s :: rest) := le_minLength hdepth
      obtain ⟨hne, halloc⟩ := not_or.1 hself
      have hr : minLength r (s :: rest) ≤ bound :=
        (hmin r List.mem_cons_self).trans (hbound r List.mem_cons_self)
      obtain ⟨fuel, o, hchildren, hreturns⟩ := buildChildren_returns depth
        fun group (hcall : ChildCall limit (minLength r (s :: rest))
            ((minLength r (s :: rest) - depth) % 2 ^ 16)
            (childCount ((minLength r (s :: rest) - depth) % 2 ^ 16)) 0 (r :: s :: rest) group) =>
          ih (bound - minLength r (s :: rest)) (by omega)
            (fun t ht => hmin t (hcall.subset ht)) (fun t ht => hbound t (hcall.subset ht))
            (fun group' d hreach => hstuck group' d (.step (.child halloc hcall) hreach)) rfl
      refine ⟨fuel + 1, o >>= fun children =>
        .ok (.branch ((minLength r (s :: rest) - depth) % 2 ^ 16) children), ?_, ?_⟩
      · unfold buildPrefixTree
        rw [if_neg halloc, hchildren]
      · cases o with
        | panic m => exact hreturns
        | error e => trivial
        | ok children => trivial

theorem returning_iff (routes : List Route) :
    Returning limit routes 0 ↔
      ∀ group depth, Reaches limit routes 0 group depth → ¬ Stuck limit group depth := by
  constructor
  · intro hreturning group depth hreach hstuck
    exact hreach.not_returning hstuck hreturning
  intro hstuck
  have hbound : ∃ bound, ∀ r ∈ routes, r.length ≤ bound := by
    clear hstuck
    induction routes with
    | nil => exact ⟨0, nofun⟩
    | cons r routes ih =>
      obtain ⟨bound, hbound⟩ := ih
      refine ⟨max r.length bound, List.forall_mem_cons.2 ⟨Nat.le_max_left _ _, fun s hs => ?_⟩⟩
      exact (hbound s hs).trans (Nat.le_max_right _ _)
  obtain ⟨bound, hbound⟩ := hbound
  exact returning_of_not_stuck (fun r _ => Nat.zero_le _) hbound hstuck

end Returning

theorem overrideMap_isSome (overrides : List (Option Url × String)) (m : List (Url × String)) :
    (∃ m', overrideMap overrides m = some m') ↔ ∀ o ∈ overrides, o.1 ≠ none := by
  induction overrides generalizing m with
  | nil => simp [overrideMap]
  | cons o overrides ih =>
    obtain ⟨_ | account, partition⟩ := o
    · simp [overrideMap]
    · simp [overrideMap, ih]

/-- `NewRouteTree` returns a tree or an error exactly if every override has an account and no call
of the builder that is made is stuck. -/
theorem newRouteTree_returns_iff (sort : RouteSort) (identityAccountID : Url → Hash) (limit : Nat)
    (table : RoutingTable) :
    (∃ fuel o, newRouteTree sort identityAccountID limit fuel table = some o ∧ o.Returns) ↔
      (∀ o ∈ table.overrides, o.1 ≠ none) ∧
        ∀ group depth, Reaches limit (sort.sort table.routes) 0 group depth →
          ¬ Stuck limit group depth := by
  rw [← returning_iff, ← overrideMap_isSome table.overrides []]
  constructor
  · rintro ⟨fuel, o, h, hreturns⟩
    unfold newRouteTree at h
    split at h
    · cases h
      exact absurd hreturns id
    rename_i overrides hoverrides
    split at h
    · cases h
    rename_i o' hbuild
    cases h
    refine ⟨⟨overrides, hoverrides⟩, fuel, o', hbuild, ?_⟩
    cases o' with
    | panic m => exact hreturns
    | error e => trivial
    | ok t => trivial
  · rintro ⟨⟨overrides, hoverrides⟩, fuel, o, hbuild, hreturns⟩
    refine ⟨fuel, o.mapError .wrap >>= fun root =>
      .ok ⟨overrides, root, routingNumber identityAccountID⟩, ?_, ?_⟩
    · unfold newRouteTree
      rw [hoverrides]
      rw [hbuild]
    · cases o with
      | panic m => exact hreturns
      | error e => trivial
      | ok t => trivial

/-- A table without routes makes the builder panic, and with two routes for everything it does not
come to an end. -/
theorem newRouteTree_not_returning :
    (∀ fuel, 0 < fuel → newRouteTree stableSort sampleID 100 fuel ⟨[], []⟩ =
        some (.panic "index out of range")) ∧
      ∀ fuel, newRouteTree stableSort sampleID 100 fuel ⟨[], [⟨0, 0, "x"⟩, ⟨0, 0, "y"⟩]⟩ =
        none := by
  constructor
  · intro fuel hfuel
    obtain ⟨fuel, rfl⟩ : ∃ k, fuel = k + 1 := ⟨fuel - 1, by omega⟩
    rfl
  · intro fuel
    have hbuild : buildPrefixTree 100 fuel [⟨0, 0, "x"⟩, ⟨0, 0, "y"⟩] 0 = none := by
      induction fuel with
      | zero => rfl
      | succ fuel ih =>
        -- The one child of the call gets both routes again.
        have hn : firstIndex [(⟨0, 0, "x"⟩ : Route), ⟨0, 0, "y"⟩] (fun r => 0 < digit 0 0 r) =
            2 := by
          decide
        have hchildren : buildChildren (fun group => buildPrefixTree 100 fuel group 0) 0 0 0
            (childCount 0) 0 [⟨0, 0, "x"⟩, ⟨0, 0, "y"⟩] = none := by
          unfold childCount buildChildren
          simp [hn, ih]
        have hlimit : ¬ Unallocatable 100 0 := by decide
        simp [buildPrefixTree, minLength, hlimit, hchildren]
    have hsort : stableSort.sort [⟨0, 0, "x"⟩, ⟨0, 0, "y"⟩] = [⟨0, 0, "x"⟩, ⟨0, 0, "y"⟩] := rfl
    simp [newRouteTree, overrideMap, hsort, hbuild]

end Accumulate.Routing
