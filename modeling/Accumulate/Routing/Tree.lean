import Accumulate.Core.Globals
import Mathlib.Data.List.Sort

/-!
# Building the routing tree

`NewRouteTree` of `internal/routing/tree.go`.  The routes of a table are sorted by the first
routing number they are for.  A branch takes as many bits as the shortest of its routes has left,
and cuts the routes into groups that agree in these bits.

Nothing makes sure that the recursion gets anywhere, so `buildPrefixTree` has a bound on its depth;
`none` means that the bound was not enough.
-/

namespace Accumulate.Routing

open Library Protocol Accumulate.Core

/-- The first routing number a route is for, `Value << (64 - Length)`. -/
def start (r : Route) : Nat :=
  -- a shift by a negative number of bits is one by a very large number of bits
  if r.length ≤ 64 then r.value * 2 ^ (64 - r.length) % 2 ^ 64 else 0

/-- `sort.Slice` as `NewRouteTree` uses it.  Routes with the same start come in any order. -/
structure RouteSort where
  sort : List Route → List Route
  perm : ∀ l, (sort l).Perm l
  sorted : ∀ l, (sort l).Pairwise fun r s => start r ≤ start s

def minLength (r : Route) (rest : List Route) : Nat :=
  rest.foldl (fun offset r => if r.length < offset then r.length else offset) r.length

/-- The last of the first `offset` bits of a route. -/
def digit (offset bits : Nat) (r : Route) : Nat :=
  r.value / 2 ^ (r.length - offset) % 2 ^ bits

def buildChildren (build : List Route → Option (Outcome Error PrefixTree))
    (depth offset bits : Nat) :
    (remaining i : Nat) → List Route → Option (Outcome Error (List PrefixTree))
  | 0, _, _ => some (.ok [])
  | remaining + 1, i, routes =>
    let n := firstIndex routes fun r => i < digit offset bits r
    if n = 0 then
      let values := String.ofList (Nat.toDigits 2 i)
      some (.error (.new .internalError
        s!"expected values with {values} at {offset}:{depth}, found none"))
    else
      match build (routes.take n) with
      | none => none
      | some (.panic m) => some (.panic m)
      | some (.error e) => some (.error e.wrap)
      | some (.ok child) =>
        match buildChildren build depth offset bits remaining (i + 1) (routes.drop n) with
        | some (.ok children) => some (.ok (child :: children))
        | r => r

/-- A slice of `1 << bits` nodes cannot be made: the length is negative, or larger than what can be
allocated. -/
def Unallocatable (limit bits : Nat) : Prop := bits < 64 ∧ (bits = 63 ∨ limit < 2 ^ bits)

instance (limit bits : Nat) : Decidable (Unallocatable limit bits) :=
  inferInstanceAs (Decidable (_ ∧ _))

/-- `1 << bits`, which is zero for a large number of bits. -/
def childCount (bits : Nat) : Nat := if bits < 64 then 2 ^ bits else 0

/-- `buildPrefixTree`.  `limit` is the largest number of nodes that can be allocated.  The routes
of a call are never shorter than its depth. -/
def buildPrefixTree (limit : Nat) :
    (fuel : Nat) → List Route → (depth : Nat) → Option (Outcome Error PrefixTree)
  | 0, _, _ => none
  | _ + 1, [], _ => some (.panic "index out of range")
  | _ + 1, [r], depth =>
    let length := r.length
    if length ≠ depth then
      some (.error (.new .internalError s!"expected offset {depth}, got {length}"))
    else some (.ok (.leaf r.partition))
  | fuel + 1, r :: s :: rest, depth =>
    let offset := minLength r (s :: rest)
    let bits := (offset - depth) % 2 ^ 16
    if Unallocatable limit bits then some (.panic "makeslice: len out of range")
    else
      match buildChildren (fun group => buildPrefixTree limit fuel group offset) depth offset bits
          (childCount bits) 0 (r :: s :: rest) with
      | none => none
      | some o => some (o >>= fun children => .ok (.branch bits children))

/-- The map of the overrides, with the latest in front; `none` if an account is missing. -/
def overrideMap : List (Option Url × String) → List (Url × String) → Option (List (Url × String))
  | [], overrides => some overrides
  | (none, _) :: _, _ => none
  | (some account, partition) :: rest, overrides =>
    overrideMap rest ((account.rootIdentity, partition) :: overrides)

/-- `URL.Routing`: the first eight bytes of the hash of the root identity. -/
def routingNumber (identityAccountID : Url → Hash) (u : Url) : Nat :=
  (identityAccountID u.rootIdentity).toNat / 2 ^ 192

def newRouteTree (sort : RouteSort) (identityAccountID : Url → Hash) (limit fuel : Nat)
    (table : RoutingTable) : Option (Outcome Error RouteTree) :=
  match overrideMap table.overrides [] with
  | none => some (.panic "nil URL")
  | some overrides =>
    match buildPrefixTree limit fuel (sort.sort table.routes) 0 with
    | none => none
    | some o =>
      some (o.mapError .wrap >>= fun root =>
        .ok ⟨overrides, root, routingNumber identityAccountID⟩)

/-- The override for an identity, the last one if there are several. -/
def lastOverride (table : RoutingTable) (identity : Url) : Option String :=
  (table.overrides.reverse.find? fun o => o.1.map Url.rootIdentity = some identity).map (·.2)

/-- The value of the route equals the top bits of the routing number. -/
def Route.Matches (rn : Nat) (r : Route) : Prop := r.value = rn / 2 ^ (64 - r.length)

instance (rn : Nat) (r : Route) : Decidable (Route.Matches rn r) :=
  inferInstanceAs (Decidable (_ = _))

/-! ## Lengths and digits -/

/-- The length is at most 62 and the value fits in it. -/
structure Route.WellFormed (r : Route) : Prop where
  length_le : r.length ≤ 62
  value_lt : r.value < 2 ^ r.length

/-- The routes of a call of `buildPrefixTree` begin with the same bits. -/
structure Group (depth value : Nat) (routes : List Route) : Prop where
  wellFormed : ∀ r ∈ routes, Route.WellFormed r
  depth_le : ∀ r ∈ routes, depth ≤ r.length
  value : ∀ r ∈ routes, r.value / 2 ^ (r.length - depth) = value

theorem minLength_cons (r s : Route) (rest : List Route) :
    minLength r (s :: rest) = min r.length (minLength s rest) := by
  unfold minLength
  rw [List.foldl_cons]
  induction rest generalizing r s with
  | nil =>
    show (if s.length < r.length then s.length else r.length) = min r.length s.length
    split <;> omega
  | cons t rest ih =>
    rw [List.foldl_cons, List.foldl_cons]
    have hr := ih ⟨if s.length < r.length then s.length else r.length, 0, ""⟩ t
    have hs := ih s t
    dsimp only at hr
    rw [hr]
    split <;> omega

theorem minLength_le {r t : Route} {rest : List Route} (ht : t ∈ r :: rest) :
    minLength r rest ≤ t.length := by
  induction rest generalizing r with
  | nil =>
    rw [List.mem_singleton.1 ht]
    exact Nat.le_refl _
  | cons s rest ih =>
    rw [minLength_cons]
    rcases List.mem_cons.1 ht with rfl | ht
    · exact Nat.min_le_left _ _
    · exact (Nat.min_le_right _ _).trans (ih ht)

theorem le_minLength {n : Nat} {r : Route} {rest : List Route} (h : ∀ t ∈ r :: rest, n ≤ t.length) :
    n ≤ minLength r rest := by
  induction rest generalizing r with
  | nil => exact h r List.mem_cons_self
  | cons s rest ih =>
    rw [minLength_cons]
    exact Nat.le_min.2 ⟨h r List.mem_cons_self, ih fun t ht => h t (List.mem_cons_of_mem r ht)⟩

theorem div_pow_div_pow (n : Nat) {a b c : Nat} (hab : a ≤ b) (hbc : b ≤ c) :
    n / 2 ^ (c - b) / 2 ^ (b - a) = n / 2 ^ (c - a) := by
  rw [Nat.div_div_eq_div_mul, ← pow_add]
  congr 2
  omega

section Digits

variable {r s : Route} {depth offset value : Nat}

theorem start_div (h : Route.WellFormed r) (hoffset : offset ≤ r.length) :
    start r / 2 ^ (64 - offset) = r.value / 2 ^ (r.length - offset) := by
  have hlength := h.length_le
  have hsplit : 2 ^ (64 - offset) = 2 ^ (r.length - offset) * 2 ^ (64 - r.length) := by
    rw [← pow_add]
    congr 1
    omega
  have hfits : r.value * 2 ^ (64 - r.length) < 2 ^ 64 := by
    calc r.value * 2 ^ (64 - r.length)
        < 2 ^ r.length * 2 ^ (64 - r.length) :=
          Nat.mul_lt_mul_of_pos_right h.value_lt (Nat.two_pow_pos _)
      _ = 2 ^ 64 := by rw [← pow_add, Nat.add_sub_cancel' (by omega)]
  unfold start
  rw [if_pos (by omega), Nat.mod_eq_of_lt hfits, hsplit,
    Nat.mul_div_mul_right _ _ (Nat.two_pow_pos _)]

theorem value_div_eq (hdepth : depth ≤ offset) (hoffset : offset ≤ r.length)
    (hvalue : r.value / 2 ^ (r.length - depth) = value) :
    r.value / 2 ^ (r.length - offset) =
      2 ^ (offset - depth) * value + digit offset (offset - depth) r := by
  rw [← hvalue, ← div_pow_div_pow r.value hdepth hoffset]
  exact (Nat.div_add_mod _ _).symm

theorem digit_le_digit (hr : Route.WellFormed r) (hs : Route.WellFormed s) (hdepth : depth ≤ offset)
    (hro : offset ≤ r.length) (hso : offset ≤ s.length)
    (hrv : r.value / 2 ^ (r.length - depth) = value)
    (hsv : s.value / 2 ^ (s.length - depth) = value) (hstart : start r ≤ start s) :
    digit offset (offset - depth) r ≤ digit offset (offset - depth) s := by
  have hle : start r / 2 ^ (64 - offset) ≤ start s / 2 ^ (64 - offset) :=
    Nat.div_le_div_right hstart
  rw [start_div hr hro, start_div hs hso, value_div_eq hdepth hro hrv, value_div_eq hdepth hso hsv]
    at hle
  omega

theorem value_div_of_matches {rn : Nat} (hlength : r.length ≤ 62) (hdepth : depth ≤ r.length)
    (h : Route.Matches rn r) : r.value / 2 ^ (r.length - depth) = rn / 2 ^ (64 - depth) := by
  rw [h, div_pow_div_pow rn hdepth (by omega)]

end Digits

/-! ## Children -/

section Children

variable {build : List Route → Option (Outcome Error PrefixTree)} {depth offset bits : Nat}

theorem buildChildren_eq_ok {remaining i : Nat} {routes : List Route} {children : List PrefixTree}
    (hsorted : routes.Pairwise fun r s => digit offset bits r ≤ digit offset bits s)
    (hge : ∀ r ∈ routes, i ≤ digit offset bits r)
    (h : buildChildren build depth offset bits remaining i routes = some (.ok children)) :
    ∀ j < remaining, ∃ child, children[j]? = some child ∧
      build (routes.filter fun r => digit offset bits r = i + j) = some (.ok child) := by
  induction remaining generalizing i routes children with
  | zero => exact fun j hj => absurd hj (Nat.not_lt_zero j)
  | succ remaining ih =>
    obtain ⟨htake, hdrop⟩ := cut_firstIndex (hsorted.imp fun {r s} hrs => by
      show decide (i < digit offset bits r) = true → decide (i < digit offset bits s) = true
      simp only [decide_eq_true_eq]
      omega)
    -- the first group has the digit `i`, the others have larger ones
    have hgroup : routes.take (firstIndex routes fun r => decide (i < digit offset bits r)) =
        routes.filter fun r => digit offset bits r = i := by
      rw [htake]
      refine List.filter_congr fun r hr => ?_
      have hle := hge r hr
      rw [← decide_not, decide_eq_decide]
      omega
    unfold buildChildren at h
    dsimp only at h
    split at h
    · cases h
    rw [hgroup, hdrop] at h
    split at h
    · cases h
    · cases h
    · cases h
    rename_i child hchild
    split at h
    · rename_i children' hrest
      cases h
      have hlater := ih (hsorted.filter _) (fun r hr => by
        have hlt : decide (i < digit offset bits r) = true := (List.mem_filter.1 hr).2
        exact of_decide_eq_true hlt) hrest
      intro j hj
      cases j with
      | zero => exact ⟨child, rfl, hchild⟩
      | succ j =>
        obtain ⟨child', hget, hbuild⟩ := hlater j (Nat.lt_of_succ_lt_succ hj)
        refine ⟨child', hget, ?_⟩
        rw [← hbuild, List.filter_filter]
        congr 1
        refine List.filter_congr fun r _ => ?_
        rw [← Bool.decide_and, decide_eq_decide]
        omega
    · rename_i hother
      exact absurd h (hother children)

end Children

/-! ## Routing through the tree -/

variable {rn value depth : Nat} {tree : RouteTree} {routes : List Route} {table : RoutingTable}
  {children : List PrefixTree}

theorem routeChild_eq {npos i : Nat} {child : PrefixTree}
    (h : children[i]? = some child) : routeChild rn npos children i = child.route rn npos := by
  induction children generalizing i with
  | nil => cases h
  | cons t rest ih =>
    cases i with
    | zero =>
      cases h
      rfl
    | succ i => exact ih h

theorem route_branch {build : List Route → Option (Outcome Error PrefixTree)}
    {offset : Nat}
    (hgroup : Group depth value routes) (hsorted : routes.Pairwise fun r s => start r ≤ start s)
    (hdepth : depth ≤ offset) (hmin : ∀ r ∈ routes, offset ≤ r.length) (hoffset : offset ≤ 62)
    (hchildren : buildChildren build depth offset (offset - depth) (childCount (offset - depth)) 0
      routes = some (.ok children))
    (hrn : rn / 2 ^ (64 - depth) = value)
    (hchild : ∀ {value routes t}, Group offset value routes →
      (routes.Pairwise fun r s => start r ≤ start s) → build routes = some (.ok t) →
        rn / 2 ^ (64 - offset) = value →
          ∃ r, routes.filter (Route.Matches rn ·) = [r] ∧ t.route rn offset = .ok r.partition) :
    ∃ r, routes.filter (Route.Matches rn ·) = [r] ∧
      (PrefixTree.branch (offset - depth) children).route rn depth = .ok r.partition := by
  have hdigits : routes.Pairwise fun r s =>
      digit offset (offset - depth) r ≤ digit offset (offset - depth) s := by
    refine hsorted.imp_of_mem fun hr hs hle => ?_
    exact digit_le_digit (hgroup.wellFormed _ hr) (hgroup.wellFormed _ hs) hdepth (hmin _ hr)
      (hmin _ hs) (hgroup.value _ hr) (hgroup.value _ hs) hle
  have hcount : childCount (offset - depth) = 2 ^ (offset - depth) := if_pos (by omega)
  -- the digit of the routing number, and the child it leads to
  have hdigit : rn / 2 ^ (64 - offset) =
      2 ^ (offset - depth) * value + rn / 2 ^ (64 - offset) % 2 ^ (offset - depth) := by
    rw [← hrn, ← div_pow_div_pow rn hdepth (by omega : offset ≤ 64)]
    exact (Nat.div_add_mod _ _).symm
  have hlt : rn / 2 ^ (64 - offset) % 2 ^ (offset - depth) < 2 ^ (offset - depth) :=
    Nat.mod_lt _ (Nat.two_pow_pos _)
  rw [hcount] at hchildren
  have hroute : (PrefixTree.branch (offset - depth) children).route rn depth =
      routeChild rn offset children (rn / 2 ^ (64 - offset) % 2 ^ (offset - depth)) := by
    rw [PrefixTree.route, Nat.add_sub_cancel' hdepth]
  rw [hroute]
  generalize rn / 2 ^ (64 - offset) % 2 ^ (offset - depth) = j at hdigit hlt
  obtain ⟨child, hget, hbuild⟩ :=
    buildChildren_eq_ok hdigits (fun _ _ => Nat.zero_le _) hchildren j hlt
  rw [Nat.zero_add] at hbuild
  have hchildGroup : Group offset (rn / 2 ^ (64 - offset))
      (routes.filter fun r => digit offset (offset - depth) r = j) := by
    refine ⟨fun r hr => hgroup.wellFormed r (List.mem_filter.1 hr).1,
      fun r hr => hmin r (List.mem_filter.1 hr).1, fun r hr => ?_⟩
    obtain ⟨hmem, hj⟩ := List.mem_filter.1 hr
    rw [value_div_eq hdepth (hmin r hmem) (hgroup.value r hmem), of_decide_eq_true hj, hdigit]
  obtain ⟨r, hfilter, hresult⟩ := hchild hchildGroup (hsorted.filter _) hbuild rfl
  refine ⟨r, ?_, by rw [routeChild_eq hget, hresult]⟩
  -- a route that matches the number has its digit
  rw [← hfilter, List.filter_filter]
  refine List.filter_congr fun t ht => ?_
  rw [← Bool.decide_and, decide_eq_decide]
  refine ⟨fun hmatch => ⟨hmatch, ?_⟩, And.left⟩
  have hvalue := value_div_of_matches (hgroup.wellFormed t ht).length_le (hmin t ht) hmatch
  rw [value_div_eq hdepth (hmin t ht) (hgroup.value t ht)] at hvalue
  omega

variable {fuel limit : Nat}

/-- A routing number with the bits of the group is routed to the only route that matches it. -/
theorem route_buildPrefixTree {t : PrefixTree} (hgroup : Group depth value routes)
    (hsorted : routes.Pairwise fun r s => start r ≤ start s)
    (hbuild : buildPrefixTree limit fuel routes depth = some (.ok t))
    (hrn : rn / 2 ^ (64 - depth) = value) :
    ∃ r, routes.filter (Route.Matches rn ·) = [r] ∧ t.route rn depth = .ok r.partition := by
  induction fuel generalizing depth value routes t with
  | zero => cases hbuild
  | succ fuel ih =>
    match routes, hbuild with
    | [r], hbuild =>
      unfold buildPrefixTree at hbuild
      dsimp only at hbuild
      split at hbuild
      · cases hbuild
      rename_i hlength
      have hlength : r.length = depth := not_not.1 hlength
      cases hbuild
      refine ⟨r, ?_, rfl⟩
      have hvalue := hgroup.value r List.mem_cons_self
      rw [hlength, Nat.sub_self, pow_zero, Nat.div_one] at hvalue
      have hmatch : Route.Matches rn r := by
        show r.value = rn / 2 ^ (64 - r.length)
        rw [hlength, hrn, hvalue]
      simp [hmatch]
    | r :: s :: rest, hbuild =>
      unfold buildPrefixTree at hbuild
      dsimp only at hbuild
      have hmin : ∀ t ∈ r :: s :: rest, minLength r (s :: rest) ≤ t.length := fun t => minLength_le
      have hdepth : depth ≤ minLength r (s :: rest) := le_minLength hgroup.depth_le
      generalize minLength r (s :: rest) = offset at hbuild hmin hdepth
      have hoffset : offset ≤ 62 :=
        (hmin r List.mem_cons_self).trans (hgroup.wellFormed r List.mem_cons_self).length_le
      have hbits : (offset - depth) % 2 ^ 16 = offset - depth := by omega
      rw [hbits] at hbuild
      split at hbuild
      · cases hbuild
      split at hbuild
      · cases hbuild
      rename_i o hchildren
      obtain ⟨children, rfl, ht⟩ := Outcome.bind_eq_ok.1 (Option.some.inj hbuild)
      cases ht
      exact route_branch hgroup hsorted hdepth hmin hoffset hchildren hrn ih

theorem lookup_overrideMap {overrides : List (Option Url × String)} {m m' : List (Url × String)}
    (h : overrideMap overrides m = some m') (identity : Url) :
    m'.lookup identity =
      ((overrides.reverse.find? fun o => o.1.map Url.rootIdentity = some identity).map (·.2)).or
        (m.lookup identity) := by
  induction overrides generalizing m with
  | nil =>
    cases h
    rfl
  | cons o overrides ih =>
    obtain ⟨_ | account, partition⟩ := o
    · cases h
    have hrest := ih h
    rw [hrest, List.reverse_cons, List.find?_append, List.lookup_cons]
    cases overrides.reverse.find? fun o => o.1.map Url.rootIdentity = some identity with
    | some o => rfl
    | none =>
      by_cases hidentity : account.rootIdentity = identity
      · simp [hidentity]
      · have hne : (identity == account.rootIdentity) = false := by
          simpa using fun heq : identity = account.rootIdentity => hidentity heq.symm
        simp [hidentity, hne]

theorem newRouteTree_eq_ok {sort : RouteSort} {identityAccountID : Url → Hash}
    (h : newRouteTree sort identityAccountID limit fuel table = some (.ok tree)) :
    ∃ overrides root, overrideMap table.overrides [] = some overrides ∧
      buildPrefixTree limit fuel (sort.sort table.routes) 0 = some (.ok root) ∧
      tree = ⟨overrides, root, routingNumber identityAccountID⟩ := by
  unfold newRouteTree at h
  split at h
  · cases h
  rename_i overrides hoverrides
  split at h
  · cases h
  rename_i o hbuild
  obtain ⟨root, hroot, htree⟩ := Outcome.bind_eq_ok.1 (Option.some.inj h)
  rw [Outcome.mapError_eq_ok.1 hroot] at hbuild
  cases htree
  exact ⟨overrides, root, hoverrides, hbuild, rfl⟩

/-- A tree that has been built routes every account: to the override of its identity if there is
one, and otherwise to the partition of the only route that matches its routing number. -/
theorem route_newRouteTree (sort : RouteSort) (identityAccountID : Url → Hash) {limit fuel : Nat}
    {table : RoutingTable} {tree : RouteTree} (hroutes : ∀ r ∈ table.routes, Route.WellFormed r)
    (h : newRouteTree sort identityAccountID limit fuel table = some (.ok tree)) (u : Url) :
    match lastOverride table u.rootIdentity with
    | some partition => tree.route u = .ok partition
    | none => ∃ r, table.routes.filter (Route.Matches (routingNumber identityAccountID u) ·) = [r] ∧
        tree.route u = .ok r.partition := by
  obtain ⟨overrides, root, hoverrides, hbuild, rfl⟩ := newRouteTree_eq_ok h
  have hlookup := lookup_overrideMap hoverrides u.rootIdentity
  rw [List.lookup_nil, Option.or_none] at hlookup
  change overrides.lookup u.rootIdentity = lastOverride table u.rootIdentity at hlookup
  unfold RouteTree.route
  rw [hlookup]
  cases lastOverride table u.rootIdentity with
  | some partition => rfl
  | none =>
    have hperm := sort.perm table.routes
    have hgroup : Group 0 0 (sort.sort table.routes) := by
      refine ⟨fun r hr => hroutes r (hperm.mem_iff.1 hr), fun r _ => Nat.zero_le _, fun r hr => ?_⟩
      exact Nat.div_eq_of_lt (hroutes r (hperm.mem_iff.1 hr)).value_lt
    have hrn : routingNumber identityAccountID u / 2 ^ (64 - 0) = 0 := by
      unfold routingNumber
      omega
    obtain ⟨r, hfilter, hroute⟩ := route_buildPrefixTree hgroup (sort.sorted _) hbuild hrn
    refine ⟨r, ?_, hroute⟩
    have hsame := hperm.filter (Route.Matches (routingNumber identityAccountID u) ·)
    rw [hfilter] at hsame
    exact List.perm_singleton.1 hsame.symm

/-- Sorting that keeps routes with the same start in their order. -/
def stableSort : RouteSort where
  sort := List.insertionSort fun r s => start r ≤ start s
  perm := List.perm_insertionSort _
  sorted := fun l => by
    have htotal : Std.Total fun r s : Route => start r ≤ start s := ⟨fun r s => Nat.le_total _ _⟩
    have htrans : IsTrans Route fun r s => start r ≤ start s := ⟨fun _ _ _ => Nat.le_trans⟩
    exact List.pairwise_insertionSort _ l

def sampleTable : RoutingTable where
  overrides := [(some acmeUrl, directory)]
  routes := [⟨1, 1, "z"⟩, ⟨2, 1, "y"⟩, ⟨2, 0, "x"⟩]

def sampleID (_ : Url) : Hash := BitVec.ofNat 256 (2 ^ 254)

def sampleTree : RouteTree where
  overrides := [(acmeUrl, directory)]
  root := .branch 1 [.branch 1 [.leaf "x", .leaf "y"], .leaf "z"]
  routing := routingNumber sampleID

theorem newRouteTree_sampleTable :
    newRouteTree stableSort sampleID 100 3 sampleTable = some (.ok sampleTree) := rfl

theorem route_newRouteTree_sample :
    ∃ r, sampleTable.routes.filter (Route.Matches (routingNumber sampleID dnUrl) ·) = [r] ∧
      sampleTree.route dnUrl = .ok r.partition := by
  have hroutes : ∀ r ∈ sampleTable.routes, Route.WellFormed r := by
    intro r hr
    simp only [sampleTable, List.mem_cons, List.not_mem_nil, or_false] at hr
    rcases hr with rfl | rfl | rfl <;> exact ⟨by decide, by decide⟩
  exact route_newRouteTree stableSort sampleID hroutes newRouteTree_sampleTable dnUrl

end Accumulate.Routing
