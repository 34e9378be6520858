import Mathlib.Data.List.Lex
import Mathlib.Data.List.Pairwise
import Mathlib.Data.List.Perm.Basic
import Mathlib.Order.Compare
import Mathlib.Order.Lattice

/-!
# Binary search in sorted lists

Binary search for the least index at which a monotone test succeeds, and
insertion at that index.  A test that is not monotone still gives an index in
range; monotonicity is only assumed where the index has to be the least one.
-/

namespace Accumulate.Library

/-- The loop of a binary search on `[i, j)`. -/
def bisect (test : Nat → Bool) : (fuel i j : Nat) → Nat
  | 0, i, _ => i
  | fuel + 1, i, j =>
    if i < j then
      let h := (i + j) / 2
      if test h then bisect test fuel i h else bisect test fuel (h + 1) j
    else i

/-- The least index below `n` at which the test succeeds, or `n`. -/
def leastIndex (n : Nat) (test : Nat → Bool) : Nat := bisect test n 0 n

section Bisect

variable {test : Nat → Bool}

theorem bisect_le (fuel i j : Nat) (hij : i ≤ j) : bisect test fuel i j ≤ j := by
  induction fuel generalizing i j with
  | zero => simpa [bisect] using hij
  | succ fuel ih =>
    simp only [bisect]
    split
    · split
      · have hle := ih i ((i + j) / 2) (by omega)
        omega
      · exact ih ((i + j) / 2 + 1) j (by omega)
    · exact hij

/-- Whatever the test is, the loop keeps "the test fails right below `i` and succeeds at
`j`", as far as there are such indices. -/
theorem bisect_boundary {n : Nat} (fuel i j : Nat) (hij : i ≤ j) (hfuel : j - i ≤ fuel)
    (hbelow : 0 < i → test (i - 1) = false) (habove : j < n → test j = true) :
    (0 < bisect test fuel i j → test (bisect test fuel i j - 1) = false) ∧
      (bisect test fuel i j < n → test (bisect test fuel i j) = true) := by
  induction fuel generalizing i j with
  | zero =>
    have hij' : i = j := by omega
    subst hij'
    exact ⟨hbelow, habove⟩
  | succ fuel ih =>
    simp only [bisect]
    split
    · split
      · rename_i htest
        exact ih i _ (by omega) (by omega) hbelow fun _ => htest
      · rename_i htest
        exact ih _ j (by omega) (by omega) (fun _ => by simpa using htest) habove
    · have hij' : i = j := by omega
      subst hij'
      exact ⟨hbelow, habove⟩

theorem bisect_eq_left (htest : ∀ k, test k = true) (fuel i j : Nat) :
    bisect test fuel i j = i := by
  induction fuel generalizing j with
  | zero => rfl
  | succ fuel ih =>
    simp only [bisect, htest]
    split
    · exact ih _
    · rfl

end Bisect

/-! ## Searching and inserting -/

section Search

variable {α : Type}

def firstIndex (l : List α) (test : α → Bool) : Nat :=
  leastIndex l.length fun k =>
    match l[k]? with
    | some x => test x
    | none => true

theorem firstIndex_le (l : List α) (test : α → Bool) : firstIndex l test ≤ l.length :=
  bisect_le _ _ _ (Nat.zero_le _)

/-- The entry before the index found fails the test, and the one at the index passes it,
whatever the test is. -/
theorem firstIndex_boundary (l : List α) (test : α → Bool) :
    (∀ i a, i + 1 = firstIndex l test → l[i]? = some a → test a = false) ∧
      ∀ a, l[firstIndex l test]? = some a → test a = true := by
  obtain ⟨hbelow, hat⟩ := @bisect_boundary (fun k =>
      match l[k]? with
      | some x => test x
      | none => true) l.length l.length 0 l.length (Nat.zero_le _) (by omega) (by simp) (by simp)
  refine ⟨fun i a hi ha => ?_, fun a ha => ?_⟩
  · have htest := hbelow (lt_of_lt_of_eq (Nat.succ_pos i) hi)
    have hi' : bisect _ l.length 0 l.length - 1 = i := Nat.sub_eq_of_eq_add hi.symm
    rw [hi'] at htest
    simpa [ha] using htest
  · have htest := hat (List.getElem?_eq_some_iff.1 ha).1
    have ha' : l[bisect _ l.length 0 l.length]? = some a := ha
    simpa only [ha'] using htest

theorem firstIndex_spec {l : List α} {test : α → Bool}
    (hmono : l.Pairwise fun a b => test a = true → test b = true) :
    (∀ k a, k < firstIndex l test → l[k]? = some a → test a = false) ∧
      ∀ k a, firstIndex l test ≤ k → l[k]? = some a → test a = true := by
  obtain ⟨hbelow, hat⟩ := firstIndex_boundary l test
  have hpair := List.pairwise_iff_getElem.1 hmono
  have hle := firstIndex_le l test
  refine ⟨fun k a hk ha => ?_, fun k a hk ha => ?_⟩
  · obtain ⟨hlt, rfl⟩ := List.getElem?_eq_some_iff.1 ha
    have hlast := hbelow (firstIndex l test - 1) _ (by omega) (List.getElem?_eq_getElem (by omega))
    rcases Nat.lt_or_eq_of_le (Nat.le_sub_one_of_lt hk) with hbefore | rfl
    · exact Bool.eq_false_iff.2 fun htest =>
        Bool.eq_false_iff.1 hlast (hpair k _ hlt (by omega) hbefore htest)
    · exact hlast
  · obtain ⟨hlt, rfl⟩ := List.getElem?_eq_some_iff.1 ha
    have hfirst := hat _ (List.getElem?_eq_getElem (Nat.lt_of_le_of_lt hk hlt))
    rcases Nat.lt_or_eq_of_le hk with hafter | rfl
    · exact hpair _ k _ hlt hafter hfirst
    · exact hfirst

/-- Search a list for the first entry that does not compare below the target;
`cmp` compares an entry with the target. -/
def search (l : List α) (cmp : α → Ordering) : Nat :=
  leastIndex l.length fun k =>
    match l[k]? with
    | some x => cmp x != .lt
    | none => true

def found (l : List α) (cmp : α → Ordering) : Bool :=
  match l[search l cmp]? with
  | some x => cmp x == .eq
  | none => false

/-- Replace the entry that is equal to the target, or insert a new one at the
index where it belongs; tell whether an entry was added. -/
def upsert (l : List α) (cmp : α → Ordering) (x : α) : List α × Bool :=
  if found l cmp then (l.set (search l cmp) x, false)
  else (l.insertIdx (search l cmp) x, true)

theorem search_le (l : List α) (cmp : α → Ordering) : search l cmp ≤ l.length :=
  bisect_le _ _ _ (Nat.zero_le _)

variable {l : List α} {cmp : α → Ordering}

theorem found_get (h : found l cmp = true) : ∃ x, l[search l cmp]? = some x ∧ cmp x = .eq := by
  unfold found at h
  split at h
  · rename_i x hx
    exact ⟨x, hx, by simpa using h⟩
  · simp at h

theorem search_of_forall_eq (h : ∀ x ∈ l, cmp x = .eq) : search l cmp = 0 := by
  refine bisect_eq_left (fun k => ?_) _ _ _
  split
  · rename_i x hx
    rw [h x (List.mem_of_getElem? hx)]
    rfl
  · rfl

theorem found_of_forall_eq (h : ∀ x ∈ l, cmp x = .eq) (hl : l ≠ []) : found l cmp = true := by
  obtain ⟨x, rest, rfl⟩ := List.exists_cons_of_ne_nil hl
  simp [found, search_of_forall_eq h, h x]

variable {cmp' : α → Ordering} {β : Type}

theorem search_congr (h : ∀ x ∈ l, cmp x = cmp' x) : search l cmp = search l cmp' := by
  unfold search
  congr 1
  funext k
  split
  · rename_i x hx
    rw [h x (List.mem_of_getElem? hx)]
  · rfl

theorem found_congr (h : ∀ x ∈ l, cmp x = cmp' x) : found l cmp = found l cmp' := by
  unfold found
  rw [search_congr h]
  split
  · rename_i x hx
    rw [h x (List.mem_of_getElem? hx)]
  · rfl

theorem upsert_congr (h : ∀ x ∈ l, cmp x = cmp' x) (x : α) : upsert l cmp x = upsert l cmp' x := by
  unfold upsert
  rw [search_congr h, found_congr h]

theorem search_map (f : α → β) (l : List α) (cmp : β → Ordering) :
    search (l.map f) cmp = search l (cmp ∘ f) := by
  unfold search
  rw [List.length_map]
  congr 1
  funext k
  rw [List.getElem?_map]
  cases l[k]? <;> rfl

theorem found_map (f : α → β) (l : List α) (cmp : β → Ordering) :
    found (l.map f) cmp = found l (cmp ∘ f) := by
  unfold found
  rw [search_map, List.getElem?_map]
  cases l[search l (cmp ∘ f)]? <;> rfl

/-- An entry that is found takes the place of another one; otherwise the list grows. -/
theorem length_upsert (l : List α) (cmp : α → Ordering) (x : α) :
    (upsert l cmp x).1.length = if found l cmp then l.length else l.length + 1 := by
  unfold upsert
  split
  · simp
  · simp [List.length_insertIdx_of_le_length (search_le l cmp)]

/-- The entry before the index found is below the target, and the one at the index is not,
whether the list is sorted or not. -/
theorem search_boundary (l : List α) (cmp : α → Ordering) :
    (∀ i a, i + 1 = search l cmp → l[i]? = some a → cmp a = .lt) ∧
      ∀ a, l[search l cmp]? = some a → cmp a ≠ .lt := by
  obtain ⟨hbelow, hat⟩ := firstIndex_boundary l fun x => cmp x != .lt
  refine ⟨fun i a hi ha => ?_, fun a ha => ?_⟩
  · simpa using hbelow i a hi ha
  · simpa using hat a ha

theorem insertIdx_eq_append (l : List α) (n : Nat) (x : α) (hn : n ≤ l.length) :
    l.insertIdx n x = l.take n ++ x :: l.drop n := by
  induction l generalizing n with
  | nil =>
    obtain rfl : n = 0 := by simpa using hn
    rfl
  | cons a l ih =>
    cases n with
    | zero => rfl
    | succ n =>
      have hrest := ih n (by simpa using hn)
      simp [hrest]

theorem upsert_perm (l : List α) (cmp : α → Ordering) (x : α) :
    ∃ rest, rest.Sublist l ∧ (upsert l cmp x).1.Perm (x :: rest) := by
  unfold upsert
  split
  · rename_i hfound
    obtain ⟨old, hold, -⟩ := found_get hfound
    have hlt := (List.getElem?_eq_some_iff.1 hold).1
    exact ⟨l.eraseIdx (search l cmp), List.eraseIdx_sublist _ _, List.set_perm_cons_eraseIdx hlt x⟩
  · exact ⟨l, List.Sublist.refl l, List.perm_insertIdx x l (search_le l cmp)⟩

theorem filter_eq_slice {p : α → Bool} {i j : Nat} (hij : i ≤ j)
    (hbefore : ∀ k a, k < i → l[k]? = some a → p a = false)
    (hbetween : ∀ k a, i ≤ k → k < j → l[k]? = some a → p a = true)
    (hafter : ∀ k a, j ≤ k → l[k]? = some a → p a = false) : l.filter p = (l.take j).drop i := by
  have hfirst : (l.take i).filter p = [] := by
    refine List.filter_eq_nil_iff.2 fun a ha => ?_
    obtain ⟨k, hk, rfl⟩ := List.mem_take_iff_getElem.1 ha
    simp [hbefore k _ (by omega) (List.getElem?_eq_getElem (by omega))]
  have hmiddle : ((l.take j).drop i).filter p = (l.take j).drop i := by
    refine List.filter_eq_self.2 fun a ha => ?_
    obtain ⟨k, hk, rfl⟩ := List.mem_drop_iff_getElem.1 ha
    rw [List.length_take] at hk
    rw [List.getElem_take]
    exact hbetween _ _ (by omega) (by omega) (List.getElem?_eq_getElem (by omega))
  have hlast : (l.drop j).filter p = [] := by
    refine List.filter_eq_nil_iff.2 fun a ha => ?_
    obtain ⟨k, hk, rfl⟩ := List.mem_drop_iff_getElem.1 ha
    simp [hafter (j + k) _ (by omega) (List.getElem?_eq_getElem (by omega))]
  have htake : l.take j = l.take i ++ (l.take j).drop i := by
    conv_lhs => rw [← List.take_append_drop i (l.take j)]
    rw [List.take_take, Nat.min_eq_left hij]
  conv_lhs => rw [← List.take_append_drop j l, htake]
  rw [List.filter_append, List.filter_append, hfirst, hmiddle, hlast, List.nil_append,
    List.append_nil]

theorem cut_firstIndex {test : α → Bool}
    (hmono : l.Pairwise fun a b => test a = true → test b = true) :
    l.take (firstIndex l test) = l.filter (fun a => !test a) ∧
      l.drop (firstIndex l test) = l.filter test := by
  obtain ⟨hfail, hpass⟩ := firstIndex_spec hmono
  constructor
  · have hslice :=
      filter_eq_slice (l := l) (p := fun a => !test a) (Nat.zero_le (firstIndex l test))
      (by omega) (fun k a _ hk ha => by simp [hfail k a hk ha])
      (fun k a hk ha => by simp [hpass k a hk ha])
    rw [hslice, List.drop_zero]
  · have hslice := filter_eq_slice (firstIndex_le l test) hfail
      (fun k a hk _ ha => hpass k a hk ha)
      (fun k a hk ha => by rw [List.getElem?_eq_none hk] at ha; cases ha)
    rw [hslice, List.take_length]

section Pairwise

variable {κ : Type} {key : α → κ} {R : κ → κ → Prop} {l : List α} {x : α}

/-- A list that is sorted stays so when an entry is inserted that comes after those before
its place and before those after it. -/
theorem pairwise_slot {R : α → α → Prop} {n : Nat} (hl : l.Pairwise R)
    (hlow : ∀ a ∈ l.take n, R a x) (hhigh : ∀ a ∈ l.drop n, R x a) :
    (l.take n ++ x :: l.drop n).Pairwise R := by
  rw [← List.take_append_drop n l] at hl
  obtain ⟨hbefore, hafter, hcross⟩ := List.pairwise_append.1 hl
  refine List.pairwise_append.2 ⟨hbefore, List.pairwise_cons.2 ⟨hhigh, hafter⟩, ?_⟩
  intro a ha b hb
  rcases List.mem_cons.1 hb with rfl | hb
  · exact hlow a ha
  · exact hcross a ha b hb

/-- A list that is sorted by a transitive relation stays so when an entry is inserted
between one it comes after and one it comes before. -/
theorem pairwise_insertIdx [IsTrans κ R] {n : Nat} (hl : l.Pairwise fun a b => R (key a) (key b))
    (hn : n ≤ l.length) (hbefore : ∀ i a, i + 1 = n → l[i]? = some a → R (key a) (key x))
    (hafter : ∀ a, l[n]? = some a → R (key x) (key a)) :
    (l.insertIdx n x).Pairwise fun a b => R (key a) (key b) := by
  have hpair := List.pairwise_iff_getElem.1 hl
  have hlow : ∀ a ∈ l.take n, R (key a) (key x) := by
    intro a ha
    obtain ⟨i, hi, rfl⟩ := List.mem_take_iff_getElem.1 ha
    have hlast := hbefore (n - 1) l[n - 1] (by omega) (List.getElem?_eq_getElem _)
    rcases Nat.lt_or_ge i (n - 1) with hlt | hge
    · exact trans_of R (hpair i (n - 1) _ _ hlt) hlast
    · obtain rfl : i = n - 1 := by omega
      exact hlast
  have hhigh : ∀ a ∈ l.drop n, R (key x) (key a) := by
    intro a ha
    obtain ⟨i, hi, rfl⟩ := List.mem_drop_iff_getElem.1 ha
    have hfirst := hafter l[n] (List.getElem?_eq_getElem _)
    rcases Nat.eq_zero_or_pos i with rfl | hpos
    · exact hfirst
    · exact trans_of R hfirst (hpair n (n + i) _ _ (by omega))
  rw [insertIdx_eq_append l n x hn]
  exact pairwise_slot hl hlow hhigh

theorem map_set_of_eq {i : Nat} {old : α} (hold : l[i]? = some old) (hkey : key old = key x) :
    (l.set i x).map key = l.map key := by
  rw [List.map_set, ← hkey]
  apply List.ext_getElem?
  intro j
  rw [List.getElem?_set, List.getElem?_map]
  split
  · rename_i hj
    subst hj
    rw [hold, List.length_map, if_pos (List.getElem?_eq_some_iff.1 hold).1]
    rfl
  · rfl

/-- A list that is sorted by a transitive relation stays so when an entry is replaced or
inserted, as long as the comparison is about the relation. -/
theorem pairwise_upsert_of_trans [IsTrans κ R] (hl : l.Pairwise fun a b => R (key a) (key b))
    (heq : ∀ a ∈ l, cmp a = .eq → key a = key x) (hlt : ∀ a ∈ l, cmp a = .lt → R (key a) (key x))
    (hgt : ∀ a ∈ l, cmp a = .gt → R (key x) (key a)) :
    (upsert l cmp x).1.Pairwise fun a b => R (key a) (key b) := by
  unfold upsert
  split
  · rename_i hfound
    obtain ⟨old, hold, hcmp⟩ := found_get hfound
    have hkeys := map_set_of_eq hold (heq old (List.mem_of_getElem? hold) hcmp)
    have hmap := List.pairwise_map.2 hl
    rw [← hkeys] at hmap
    exact List.pairwise_map.1 hmap
  · rename_i hnew
    obtain ⟨hbelow, hat⟩ := search_boundary l cmp
    apply pairwise_insertIdx hl (search_le l cmp)
    · intro i a hi ha
      exact hlt a (List.mem_of_getElem? ha) (hbelow i a hi ha)
    intro a ha
    apply hgt a (List.mem_of_getElem? ha)
    have hne : cmp a ≠ .eq := by
      intro hcmp
      exact hnew (by simp [found, ha, hcmp])
    cases hcmp : cmp a with
    | lt => exact absurd hcmp (hat a ha)
    | eq => exact absurd hcmp hne
    | gt => rfl

end Pairwise

variable {κ : Type} [LinearOrder κ] {key : α → κ} {l : List α} {k : κ}

/-- In a list sorted by key, the entries before the index found have smaller
keys and those from it on have not. -/
theorem search_spec (hsorted : l.Pairwise fun a b => key a ≤ key b) :
    (∀ i x, i < search l (fun a => compare (key a) k) → l[i]? = some x → key x < k) ∧
      (∀ i x, search l (fun a => compare (key a) k) ≤ i → l[i]? = some x → k ≤ key x) := by
  have hmono : l.Pairwise fun a b =>
      (compare (key a) k != .lt) = true → (compare (key b) k != .lt) = true :=
    hsorted.imp fun {a b} hab ha => by
      simp only [bne_iff_ne, ne_eq, compare_lt_iff_lt, not_lt] at ha ⊢
      exact le_trans ha hab
  obtain ⟨hfail, hpass⟩ := firstIndex_spec hmono
  refine ⟨fun i x hi hx => ?_, fun i x hi hx => ?_⟩
  · simpa [compare_lt_iff_lt] using hfail i x hi hx
  · simpa [compare_lt_iff_lt] using hpass i x hi hx

/-- In a list sorted by key, the search finds the target exactly if it is there. -/
theorem found_iff (hsorted : l.Pairwise fun a b => key a ≤ key b) :
    found l (fun a => compare (key a) k) = true ↔ ∃ x ∈ l, key x = k := by
  constructor
  · intro h
    obtain ⟨x, hx, heq⟩ := found_get h
    exact ⟨x, List.mem_of_getElem? hx, compare_eq_iff_eq.mp heq⟩
  · rintro ⟨x, hmem, hkey⟩
    obtain ⟨i, hi, hx⟩ := List.getElem_of_mem hmem
    obtain ⟨hbefore, hfrom⟩ := search_spec (k := k) hsorted
    have hget : l[i]? = some x := by rw [List.getElem?_eq_getElem hi, hx]
    have hle : search l (fun a => compare (key a) k) ≤ i := by
      by_contra hlt
      exact absurd (hbefore i x (by omega) hget) (by simp [hkey])
    have hlen : search l (fun a => compare (key a) k) < l.length := by omega
    have hfound := hfrom _ _ (Nat.le_refl _) (List.getElem?_eq_getElem hlen)
    have hupper : key l[search l (fun a => compare (key a) k)] ≤ k := by
      rcases Nat.eq_or_lt_of_le hle with heq | hlt
      · simp only [heq, hx, hkey, le_refl]
      · have hpair := List.pairwise_iff_getElem.mp hsorted _ i hlen hi hlt
        rwa [hx, hkey] at hpair
    unfold found
    rw [List.getElem?_eq_getElem hlen]
    simp [le_antisymm hupper hfound]

/-- A list sorted by key stays so when an entry is replaced by one with the same key or
inserted where it belongs. -/
theorem pairwise_upsert (hsorted : l.Pairwise fun a b => key a < key b) {x : α} (hx : key x = k) :
    (upsert l (fun a => compare (key a) k) x).1.Pairwise fun a b => key a < key b := by
  subst hx
  apply pairwise_upsert_of_trans (R := (· < ·)) hsorted
  · intro a _ h
    exact compare_eq_iff_eq.1 h
  · intro a _ h
    exact compare_lt_iff_lt.1 h
  · intro a _ h
    exact compare_gt_iff_gt.1 h

omit [LinearOrder κ] in
theorem mem_upsert {x a : α} (h : a ∈ (upsert l cmp x).1) : a = x ∨ a ∈ l := by
  unfold upsert at h
  split at h
  · exact (List.mem_or_eq_of_mem_set h).symm
  rw [insertIdx_eq_append l _ x (search_le l cmp), List.mem_append, List.mem_cons] at h
  rcases h with htake | rfl | hdrop
  · exact .inr (List.mem_of_mem_take htake)
  · exact .inl rfl
  · exact .inr (List.mem_of_mem_drop hdrop)

end Search

/-! ## The order of lists -/

section Lists

variable {α : Type} [LinearOrder α]

theorem compare_list_lt_iff (l m : List α) : @compare _ List.instOrd l m = .lt ↔ l < m := by
  induction l generalizing m with
  | nil => cases m <;> simp [List.compareLex]
  | cons a l ih =>
    cases m with
    | nil => simp [List.compareLex]
    | cons b m =>
      rw [List.cons_lt_cons_iff, ← ih m]
      show List.compareLex compare (a :: l) (b :: m) = .lt ↔ _
      rw [List.compareLex_cons_cons, Ordering.then_eq_lt, compare_lt_iff_lt, compare_eq_iff_eq]
      rfl

theorem compare_list_eq_compare (l m : List α) :
    @compare _ List.instOrd l m = @compare _ List.instLinearOrder.toOrd l m := by
  rcases lt_trichotomy l m with hlt | rfl | hgt
  · rw [(compare_list_lt_iff l m).2 hlt, compare_lt_iff_lt.2 hlt]
  · rw [Std.ReflOrd.compare_self, compare_eq_iff_eq.2 rfl]
  · rw [Std.OrientedOrd.eq_swap, (compare_list_lt_iff m l).2 hgt, compare_gt_iff_gt.2 hgt]
    rfl

theorem compare_list_map {β : Type} [Ord β] {f : β → α}
    (hf : ∀ a b, compare a b = compare (f a) (f b)) (l m : List β) :
    compare l m = @compare _ List.instLinearOrder.toOrd (l.map f) (m.map f) := by
  rw [← compare_list_eq_compare]
  induction l generalizing m with
  | nil => cases m <;> rfl
  | cons a l ih =>
    cases m with
    | nil => rfl
    | cons b m =>
      show List.compareLex compare (a :: l) (b :: m) =
        List.compareLex compare (f a :: l.map f) (f b :: m.map f)
      rw [List.compareLex_cons_cons, List.compareLex_cons_cons, ← hf]
      congr 1
      exact ih m

theorem exists_append_of_le_of_le {l r s x : List α} (hr : l ++ r ≤ x) (hs : x ≤ l ++ s) :
    ∃ t, x = l ++ t := by
  induction l generalizing x with
  | nil => exact ⟨x, rfl⟩
  | cons a l ih =>
    cases x with
    | nil => exact absurd hr (by simp)
    | cons b x =>
      rw [List.cons_append, ← not_lt, List.cons_lt_cons_iff, not_or, not_and] at hr hs
      have hab : a = b := le_antisymm (not_lt.1 hr.1) (not_lt.1 hs.1)
      obtain ⟨t, rfl⟩ := ih (not_lt.1 (hr.2 hab.symm)) (not_lt.1 (hs.2 hab))
      exact ⟨t, by rw [hab, List.cons_append]⟩

end Lists

end Accumulate.Library
