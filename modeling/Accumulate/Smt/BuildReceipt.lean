import Accumulate.Smt.Reading
import Mathlib.Data.List.TakeWhile

/-!
# Receipts of well-formed chains

`Chain.Receipt` of a well-formed chain gives, for every element and every later element, a
receipt that starts at the first, is valid, and ends at the Merkle root the chain had when
the second was added (`WellFormed.receipt`).

The first loop of `BuildReceiptWith` follows the perfect trees that the element belongs to
(`Climbing`), from column to column, until the tree is one of the forest at the end of the
range.  The second loop goes up the forest from there (`anchorLoop_spec`).
-/

namespace Accumulate.Smt

open Library MerkleState

namespace Chain

variable {α : Type} {combine : α → α → α} {h m start stop : Nat} {c : Chain α} {leaf : Nat → α}
  {l : List (Option α)}

/-! ## The elements of a chain -/

theorem isForest_take {l : List α} (hleaf : ∀ i v, l[i]? = some v → leaf i = v)
    {n : Nat} (hn : n ≤ l.length) : IsForest combine leaf n (pendingOf combine (l.take n)) := by
  have hlen : (l.take n).length = n := by
    rw [List.length_take]
    omega
  have hfirst : ∀ i v, (l.take n)[i]? = some v → leaf i = v := by
    intro i v hv
    have hi := (List.getElem?_eq_some_iff.1 hv).1
    rw [hlen] at hi
    rw [List.getElem?_take_of_lt hi] at hv
    exact hleaf i v hv
  have hforest : IsForest combine leaf (l.take n).length (pendingOf combine (l.take n)) :=
    isForest_pendingOf hfirst
  rwa [hlen] at hforest

namespace WellFormed

variable {c : Chain α} {e : Nat}

theorem getAnyState (hc : c.WellFormed combine) (he : e < c.elements.length) :
    ∃ s, c.getAnyState combine e = some s ∧ s.count = e + 1 ∧
      s.pending = pendingOf combine (c.elements.take (e + 1)) :=
  hc.follows.getAnyState_of_kept he (inSet_div _ e) (.inr (.inl rfl))

theorem getAnyState_pred (hc : c.WellFormed combine) {n : Nat} (hn : n ≤ c.elements.length) :
    ∃ s, c.getAnyState combine ((n : Int) - 1) = some s ∧ s.count = n ∧
      s.pending = pendingOf combine (c.elements.take n) := by
  cases n with
  | zero => exact ⟨MerkleState.empty, rfl, rfl, rfl⟩
  | succ e =>
    have hpred : ((e + 1 : Nat) : Int) - 1 = (e : Int) := by omega
    rw [hpred]
    exact hc.getAnyState (by omega)

/-- `GetIntermediate` of a well-formed chain: the last two trees of height `k` that are
combined when the element is added. -/
theorem getIntermediate (hc : c.WellFormed combine)
    (hleaf : ∀ i v, c.elements[i]? = some v → leaf i = v) (he : e < c.elements.length) (k : Nat) :
    c.getIntermediate combine e (k + 1) =
      if (e + 1) % 2 ^ (k + 1) = 0 then
        some (node combine leaf k (e / 2 ^ k - 1), node combine leaf k (e / 2 ^ k))
      else none := by
  obtain ⟨s, hs, _, hpending⟩ := hc.getAnyState_pred (Nat.le_of_lt he)
  have hget : c.elements[e]? = some (leaf e) := by
    rw [List.getElem?_eq_getElem he, hleaf e _ (List.getElem?_eq_getElem he)]
  have hforest : IsForest combine leaf e s.pending := by
    rw [hpending]
    exact isForest_take hleaf (Nat.le_of_lt he)
  unfold Chain.getIntermediate
  rw [hget, hs]
  exact getIntermediate_eq hforest

end WellFormed

/-! ## The trees of an element -/

theorem div_of_succ_eq {idx b : Nat} (hb : 0 < b) (h : idx + 1 = m * b) : idx / b = m - 1 := by
  have hm : 0 < m := by
    rcases Nat.eq_zero_or_pos m with rfl | hm
    · omega
    · exact hm
  obtain ⟨j, rfl⟩ : ∃ j, m = j + 1 := ⟨m - 1, by omega⟩
  rw [Nat.succ_mul] at h
  refine Nat.div_eq_of_lt_le ?_ ?_
  · rw [Nat.add_sub_cancel]
    omega
  · rw [Nat.add_sub_cancel, Nat.succ_mul]
    omega

theorem mul_two_pow_mod : m * 2 ^ h % 2 ^ (h + 1) = 0 ↔ m % 2 = 0 := by
  have hpos : 0 < 2 ^ h := Nat.two_pow_pos h
  rw [Nat.pow_succ, Nat.mul_comm (2 ^ h) 2, Nat.mul_mod_mul_right]
  constructor
  · intro hz
    rcases Nat.mul_eq_zero.1 hz with hz | hz
    · exact hz
    · omega
  · intro hz
    rw [hz, Nat.zero_mul]

theorem mul_two_pow_odd (hodd : m * 2 ^ h % 2 = 1) : h = 0 ∧ m % 2 = 1 := by
  cases h with
  | zero => exact ⟨rfl, by simpa using hodd⟩
  | succ h =>
    rw [Nat.pow_succ, ← Nat.mul_assoc, Nat.mul_mod_left] at hodd
    cases hodd

/-- Where the first loop is: the entries lead from the element to the tree of height `h` it
belongs to.  The index is the last one of that tree or, when the tree is a left one, of the
tree to the right of it. -/
structure Climbing (combine : α → α → α) (leaf : Nat → α) (start stop h : Nat)
    (s : ReceiptLoop α) : Prop where
  height : s.height = h + 1
  value : applyEntries combine s.entries (leaf start) = node combine leaf h (start / 2 ^ h)
  inside : (start / 2 ^ h + 1) * 2 ^ h ≤ stop + 1
  column : (s.stay = true ∧ s.idx + 1 = (start / 2 ^ h + 1) * 2 ^ h) ∨
    (s.stay = false ∧ start / 2 ^ h % 2 = 0 ∧ s.idx + 1 = (start / 2 ^ h + 2) * 2 ^ h)

namespace Climbing

variable {leaf : Nat → α} {start stop h : Nat} {s : ReceiptLoop α}

theorem init (hle : start ≤ stop) :
    Climbing combine leaf start stop 0 ⟨start, 1, true, []⟩ where
  height := rfl
  value := by simp
  inside := by
    omega
  column := by
    left
    simp

section

variable (hs : Climbing combine leaf start stop h s)

include hs

theorem height_le : s.height ≤ stop + 1 := by
  have hpow : h < 2 ^ h := Nat.lt_two_pow_self
  have hone : 2 ^ h ≤ (start / 2 ^ h + 1) * 2 ^ h := Nat.le_mul_of_pos_left _ (Nat.succ_pos _)
  have hin := hs.inside
  have hheight := hs.height
  omega

/-- To the next column: the tree is a left one and its sibling is to be added. -/
theorem right (hstay : s.stay = true)
    (heven : start / 2 ^ h % 2 = 0) :
    Climbing combine leaf start stop h { s with idx := s.idx + 2 ^ h, stay := false } where
  height := hs.height
  value := hs.value
  inside := hs.inside
  column := by
    right
    rcases hs.column with ⟨-, hidx⟩ | ⟨hno, -⟩
    · refine ⟨rfl, heven, ?_⟩
      dsimp only
      rw [Nat.add_mul] at hidx ⊢
      omega
    · rw [hstay] at hno
      cases hno

theorem up (hidx : s.idx ≤ stop) (hpair : (s.idx + 1) % 2 ^ (h + 1) = 0) :
    Climbing combine leaf start stop (h + 1)
      { s with
        stay := true
        height := s.height + 1
        entries := s.entries ++
          [if s.stay then ⟨false, node combine leaf h (s.idx / 2 ^ h - 1)⟩
            else ⟨true, node combine leaf h (s.idx / 2 ^ h)⟩] } := by
  have hpos : 0 < 2 ^ h := Nat.two_pow_pos h
  have hparent : start / 2 ^ (h + 1) = start / 2 ^ h / 2 := by
    rw [Nat.pow_succ, Nat.div_div_eq_div_mul]
  obtain ⟨k, hk⟩ : ∃ k, k = start / 2 ^ h := ⟨_, rfl⟩
  rw [← hk] at hparent
  rcases hs.column with ⟨hstay, hcol⟩ | ⟨hstay, heven, hcol⟩
  · -- a right tree: its left sibling is there already
    rw [← hk] at hcol
    have hodd : (k + 1) % 2 = 0 := by
      rw [hcol] at hpair
      exact mul_two_pow_mod.1 hpair
    have hdiv : s.idx / 2 ^ h = k := by rw [div_of_succ_eq hpos hcol, Nat.add_sub_cancel]
    have hlast : s.idx + 1 = (k / 2 + 1) * 2 ^ (h + 1) := by
      have hhalf : k + 1 = (k / 2 + 1) * 2 := by omega
      rw [hcol, hhalf, Nat.pow_succ, Nat.mul_comm (2 ^ h) 2, ← Nat.mul_assoc]
    refine ⟨by rw [hs.height], ?_, ?_, .inl ⟨rfl, ?_⟩⟩
    · have hleft : k - 1 = 2 * (k / 2) := by omega
      have hright : 2 * (k / 2) + 1 = k := by omega
      rw [hstay, applyEntries_append, hs.value, ← hk, hdiv, hparent, node_succ, hleft,
        hright]
      rfl
    · rw [hparent]
      omega
    · rw [hparent]
      exact hlast
  · -- a left tree: its right sibling has just been completed
    rw [← hk] at hcol heven
    have hdiv : s.idx / 2 ^ h = k + 1 := by rw [div_of_succ_eq hpos hcol]; omega
    have hlast : s.idx + 1 = (k / 2 + 1) * 2 ^ (h + 1) := by
      have hhalf : k + 2 = (k / 2 + 1) * 2 := by omega
      rw [hcol, hhalf, Nat.pow_succ, Nat.mul_comm (2 ^ h) 2, ← Nat.mul_assoc]
    refine ⟨by rw [hs.height], ?_, ?_, .inl ⟨rfl, ?_⟩⟩
    · have hleft : 2 * (k / 2) = k := by omega
      rw [hstay, applyEntries_append, hs.value, ← hk, hdiv, hparent,
        node_succ, hleft]
      rfl
    · rw [hparent]
      omega
    · rw [hparent]
      exact hlast

theorem digit (hout : stop < s.idx) :
    (stop + 1) / 2 ^ h = start / 2 ^ h + 1 ∧ (stop + 1) / 2 ^ h % 2 = 1 := by
  have hin := hs.inside
  rcases hs.column with ⟨-, hidx⟩ | ⟨-, heven, hidx⟩
  · omega
  have hnext : stop + 1 < (start / 2 ^ h + 1 + 1) * 2 ^ h := by
    rw [show start / 2 ^ h + 1 + 1 = start / 2 ^ h + 2 by omega]
    omega
  have hdiv : (stop + 1) / 2 ^ h = start / 2 ^ h + 1 := Nat.div_eq_of_lt_le hin hnext
  exact ⟨hdiv, by omega⟩

end

end Climbing

theorem climb_spec (hc : c.WellFormed combine) (hleaf : ∀ i v, c.elements[i]? = some v → leaf i = v)
    (hstop : stop < c.elements.length) (fuel h : Nat) (s : ReceiptLoop α)
    (hs : Climbing combine leaf start stop h s)
    (hfuel : (stop + 1 - s.idx) + (stop + 2 - s.height) + 1 ≤ fuel) :
    ∃ s' h', climb (c.getIntermediate combine) stop fuel s = some s' ∧
      Climbing combine leaf start stop h' s' ∧ stop < s'.idx := by
  induction fuel generalizing h s with
  | zero => omega
  | succ fuel ih =>
    rw [climb]
    by_cases hin : s.idx ≤ stop
    · rw [if_pos hin]
      have hheight := hs.height
      by_cases heven : s.idx % 2 = 0
      · rw [if_pos heven]
        -- only a leaf can end at an even index
        have hzero : h = 0 ∧ s.stay = true ∧ start / 2 ^ h % 2 = 0 := by
          have hodd : (s.idx + 1) % 2 = 1 := by omega
          rcases hs.column with ⟨hstay, hidx⟩ | ⟨-, hleft, hidx⟩
          · rw [hidx] at hodd
            obtain ⟨hzero, hone⟩ := mul_two_pow_odd hodd
            exact ⟨hzero, hstay, by omega⟩
          · rw [hidx] at hodd
            have hone := (mul_two_pow_odd hodd).2
            omega
        obtain ⟨rfl, hstay, hleft⟩ := hzero
        refine ih 0 _ (hs.right hstay hleft) ?_
        dsimp only
        omega
      · rw [if_neg heven, hheight, hc.getIntermediate hleaf (by omega)]
        by_cases hpair : (s.idx + 1) % 2 ^ (h + 1) = 0
        · rw [if_pos hpair]
          have hup := hs.up hin hpair
          have hbound := hup.height_le
          rw [hheight] at hup
          refine ih (h + 1) _ hup ?_
          dsimp only at hbound ⊢
          omega
        · rw [if_neg hpair, Nat.add_sub_cancel]
          have hcolumn : s.stay = true ∧ start / 2 ^ h % 2 = 0 := by
            rcases hs.column with ⟨hstay, hidx⟩ | ⟨-, hleft, hidx⟩
            · rw [hidx, mul_two_pow_mod] at hpair
              exact ⟨hstay, by omega⟩
            · rw [hidx, mul_two_pow_mod] at hpair
              omega
          have hright := hs.right hcolumn.1 hcolumn.2
          rw [hheight] at hright
          refine ih h _ hright ?_
          dsimp only
          omega
    · rw [if_neg hin]
      exact ⟨s, h, rfl, hs, by omega⟩

/-! ## Up the forest -/

/-- The second loop combines the roots of the forest as `GetMDRoot` does. -/
theorem anchorLoop_intermediate (height i : Nat) (l : List (Option α)) (s : AnchorLoop α) :
    (anchorLoop combine height i l s).intermediateHash =
      l.foldl (fold combine) s.intermediateHash := by
  induction l generalizing i s with
  | nil => rfl
  | cons v rest ih =>
    have hstep : (anchorStep combine height i v s).intermediateHash =
        fold combine s.intermediateHash v := by
      unfold anchorStep
      cases v with
      | none => cases s.intermediateHash <;> rfl
      | some v =>
        cases s.intermediateHash with
        | none => rfl
        | some last =>
          dsimp only
          split
          · rfl
          · split
            · split <;> rfl
            · rfl
    rw [anchorLoop, ih, hstep, List.foldl_cons]

theorem anchorLoop_above {height i : Nat} {s : AnchorLoop α} {v₀ : α}
    (hi : height ≤ i) (hstay : s.stay = true)
    (hvalue : s.intermediateHash = some (applyEntries combine s.entries v₀)) :
    (anchorLoop combine height i l s).intermediateHash =
      some (applyEntries combine (anchorLoop combine height i l s).entries v₀) := by
  induction l generalizing i s with
  | nil => exact hvalue
  | cons v rest ih =>
    rw [anchorLoop]
    cases v with
    | none => exact ih (by omega) hstay hvalue
    | some v =>
      have hskip : ¬ i < height - 1 := by omega
      have hstep : anchorStep combine height i (some v) s =
          { s with
            intermediateHash := some (combine v (applyEntries combine s.entries v₀))
            entries := s.entries ++ [⟨false, v⟩] } := by
        unfold anchorStep
        rw [hvalue]
        dsimp only
        rw [if_neg hskip, hstay, if_pos rfl, if_pos (show i ≥ height by omega)]
      rw [hstep]
      refine ih (by omega) hstay ?_
      rw [applyEntries_append]
      rfl

/-- Up to the tree of the element, which is the root in slot `h`, nothing but the combination
of the lower roots is added, on the right. -/
theorem anchorLoop_spec {h i : Nat} {l : List (Option α)} {s : AnchorLoop α} {v₀ : α} (hi : i ≤ h)
    (hstay : s.stay = false) (hslot : l[h - i]? = some (some (applyEntries combine s.entries v₀))) :
    (anchorLoop combine (h + 1) i l s).intermediateHash =
      some (applyEntries combine (anchorLoop combine (h + 1) i l s).entries v₀) := by
  induction l generalizing i s with
  | nil => cases hslot
  | cons v rest ih =>
    rw [anchorLoop]
    by_cases hat : i = h
    · subst hat
      rw [Nat.sub_self] at hslot
      obtain rfl : v = some (applyEntries combine s.entries v₀) := Option.some.inj hslot
      cases hlow : s.intermediateHash with
      | none =>
        refine anchorLoop_above (by omega) ?_ ?_
        · simp [anchorStep, hlow]
        · simp [anchorStep, hlow]
      | some last =>
        have hskip : ¬ i < i + 1 - 1 := by omega
        have hstep : anchorStep combine (i + 1) i
            (some (applyEntries combine s.entries v₀)) s =
              ⟨some (combine (applyEntries combine s.entries v₀) last), true,
                s.entries ++ [⟨true, last⟩]⟩ := by
          unfold anchorStep
          rw [hlow]
          dsimp only
          rw [if_neg hskip, hstay, if_neg Bool.false_ne_true]
        rw [hstep]
        refine anchorLoop_above (by omega) rfl ?_
        rw [applyEntries_append]
        rfl
    · have hlt : i < h + 1 - 1 := by omega
      have hshift : h - i = h - (i + 1) + 1 := by omega
      rw [hshift] at hslot
      have hentries : (anchorStep combine (h + 1) i v s).entries = s.entries := by
        unfold anchorStep
        cases v with
        | none => rfl
        | some v =>
          cases s.intermediateHash with
          | none => rfl
          | some last => simp only [if_pos hlt]
      have hkept : (anchorStep combine (h + 1) i v s).stay = false := by
        unfold anchorStep
        cases v with
        | none => exact hstay
        | some v =>
          cases s.intermediateHash with
          | none => simp [hstay, Ne.symm hat]
          | some last =>
            simp only [if_pos hlt]
            exact hstay
      refine ih (by omega) hkept ?_
      rw [hentries]
      exact hslot

theorem trim_pending (m : MerkleState α) :
    ∃ rest, m.pending = m.trim.pending ++ rest ∧ ∀ v ∈ rest, v = none := by
  refine ⟨(m.pending.reverse.takeWhile (·.isNone)).reverse, ?_, ?_⟩
  · rw [trim, ← List.reverse_append, List.takeWhile_append_dropWhile, List.reverse_reverse]
  · intro v hv
    have hnone := List.mem_takeWhile_imp (List.mem_reverse.1 hv)
    simpa using hnone

theorem foldl_fold_none (hl : ∀ v ∈ l, v = none) (r : Option α) : l.foldl (fold combine) r = r := by
  induction l generalizing r with
  | nil => rfl
  | cons v rest ih =>
    have hv : v = none := hl v List.mem_cons_self
    have hstep : fold combine r v = r := by
      rw [hv]
      cases r <;> rfl
    rw [List.foldl_cons, hstep]
    exact ih (fun w hw => hl w (List.mem_cons_of_mem v hw)) r

/-! ## Receipts -/

/-- `Chain.Receipt` of a well-formed chain: a receipt from any element to the Merkle root at
any later one. -/
theorem WellFormed.receipt (hc : c.WellFormed combine)
    (hle : start ≤ stop) (hstop : stop < c.elements.length) :
    ∃ r, c.receipt combine start stop = some r ∧ c.elements[start]? = some r.start ∧
      applyEntries combine r.entries r.start = r.anchor ∧
      c.rootAt combine (stop + 1) = some r.anchor := by
  obtain ⟨startHash, hstart⟩ : ∃ v, c.elements[start]? = some v :=
    ⟨_, List.getElem?_eq_getElem (by omega)⟩
  obtain ⟨endHash, hend⟩ : ∃ v, c.elements[stop]? = some v :=
    ⟨_, List.getElem?_eq_getElem hstop⟩
  unfold Chain.receipt
  rw [hstart, hend]
  dsimp only
  rw [if_neg (show ¬ start > stop by omega)]
  by_cases hfirst : start = 0 ∧ stop = 0
  · obtain ⟨rfl, rfl⟩ := hfirst
    refine ⟨_, rfl, rfl, rfl, ?_⟩
    have htake : c.elements.take 1 = [startHash] := by
      rw [List.take_one, List.head?_eq_getElem?, hstart]
      rfl
    rw [rootAt, htake]
    rfl
  rw [if_neg hfirst]
  have hne : c.elements ≠ [] := List.ne_nil_of_length_pos (by omega)
  obtain ⟨leaf, hleaf⟩ := exists_leaf hne
  have hleafStart : leaf start = startHash := hleaf start startHash hstart
  have hinit : Climbing combine leaf start stop 0 ⟨start, 1, true, []⟩ := Climbing.init hle
  obtain ⟨s, h, hclimb, hs, hout⟩ := climb_spec hc hleaf hstop (2 * stop + 4) 0 _ hinit (by
    omega)
  obtain ⟨state, hstate, _, hpending⟩ := hc.getAnyState hstop
  rw [buildReceipt, hclimb, hstate]
  dsimp only
  -- the tree the first loop ends at is the root in slot `h`
  have hforest : IsForest combine leaf (stop + 1) state.pending := by
    rw [hpending]
    exact isForest_take hleaf hstop
  obtain ⟨hdiv, hdigit⟩ := hs.digit hout
  have hslot : state.pending[h]? =
      some (some (applyEntries combine s.entries (leaf start))) := by
    rw [hforest.getElem?_of_digit hdigit, hs.value, hdiv, Nat.add_sub_cancel]
  obtain ⟨rest, hsplit, hrest⟩ := trim_pending state
  have hslot' : state.trim.pending[h]? =
      some (some (applyEntries combine s.entries (leaf start))) := by
    rw [hsplit] at hslot
    by_cases hlen : h < state.trim.pending.length
    · rwa [List.getElem?_append_left hlen] at hslot
    · rw [List.getElem?_append_right (by omega)] at hslot
      have hnone := hrest _ (List.mem_of_getElem? hslot)
      cases hnone
  have hvalue := @anchorLoop_spec α combine h 0 state.trim.pending ⟨none, false, s.entries⟩
    (leaf start) (Nat.zero_le h) rfl hslot'
  have hroot : (anchorLoop combine (h + 1) 0 state.trim.pending
      ⟨none, false, s.entries⟩).intermediateHash = c.rootAt combine (stop + 1) := by
    rw [anchorLoop_intermediate, rootAt, ← hpending, hsplit, List.foldl_append,
      foldl_fold_none hrest]
  rw [hs.height, hvalue]
  refine ⟨_, rfl, rfl, ?_, ?_⟩
  · rw [← hleafStart]
  · rw [← hroot, hvalue]

/-! ## Chains built by `AddHash` -/

section Built

variable [DecidableEq α] (combine)

/-- `GetAnyState` gives, for every element and for -1, the state that adding the elements up to
it one by one gives. -/
theorem getAnyState_eq_foldl (markPower : Nat) (hpower : 0 < markPower) (calls : List (α × Bool))
    (e : Int) (hlow : -1 ≤ e) (hhigh : e < ((new markPower).addHashes combine calls).head.count) :
    ∃ s, ((new markPower).addHashes combine calls).getAnyState combine e = some s ∧
      s.count = e + 1 ∧
      s.trim.pending =
        ((((new markPower).addHashes combine calls).elements.take (e + 1).toNat).foldl
          (addToMerkleTree combine) MerkleState.empty).trim.pending := by
  have hc := (wellFormed_new combine hpower).addHashes calls
  rw [hc.count] at hhigh
  obtain ⟨n, rfl⟩ : ∃ n : Nat, e = (n : Int) - 1 := ⟨(e + 1).toNat, by omega⟩
  have hn : ((n : Int) - 1 + 1).toNat = n := by omega
  obtain ⟨s, hs, hcount, hpending⟩ := hc.getAnyState_pred (n := n) (by omega)
  refine ⟨s, hs, by omega, ?_⟩
  rw [hn, trim, trim, foldl_addToMerkleTree_empty_pending, hpending]

theorem getAnyState_third :
    ∃ s, ((new 1).addHashes (fun l r => 2 * l + 3 * r)
        [(5, true), (7, false), (5, true), (5, false), (9, true)]).getAnyState
          (fun l r => 2 * l + 3 * r) 2 = some s ∧
      s.count = (2 : Int) + 1 ∧
      s.trim.pending =
        ((((new 1).addHashes (fun l r => 2 * l + 3 * r)
          [(5, true), (7, false), (5, true), (5, false), (9, true)]).elements.take
            ((2 : Int) + 1).toNat).foldl
          (addToMerkleTree fun l r => 2 * l + 3 * r) MerkleState.empty).trim.pending :=
  getAnyState_eq_foldl (fun l r : Nat => 2 * l + 3 * r) 1 (by decide)
    [(5, true), (7, false), (5, true), (5, false), (9, true)] 2 (by decide) (by decide)

/-- `Chain.Receipt` gives, for every element and every later one, a valid receipt from the
element to the Merkle root of the elements up to the later one. -/
theorem receipt_valid (markPower : Nat) (hpower : 0 < markPower) (calls : List (α × Bool))
    (start stop : Nat) (hle : start ≤ stop)
    (hstop : stop < ((new markPower).addHashes combine calls).head.count) :
    ∃ r, ((new markPower).addHashes combine calls).receipt combine start stop = some r ∧
      r.validate combine = true ∧
      ((new markPower).addHashes combine calls).elements[start]? = some r.start ∧
      ((((new markPower).addHashes combine calls).elements.take (stop + 1)).foldl
        (addToMerkleTree combine) MerkleState.empty).getMDRoot combine = some r.anchor := by
  have hc := (wellFormed_new combine hpower).addHashes calls
  rw [hc.count] at hstop
  obtain ⟨r, hr, hstart, hvalid, hroot⟩ := hc.receipt hle hstop
  refine ⟨r, hr, decide_eq_true hvalid, hstart, ?_⟩
  have hcount : ((((new markPower).addHashes combine calls).elements.take (stop + 1)).foldl
      (addToMerkleTree combine) MerkleState.empty).count ≠ 0 := by
    rw [foldl_addToMerkleTree_count, List.length_take]
    omega
  rw [getMDRoot, if_neg hcount, foldl_addToMerkleTree_empty_pending]
  exact hroot

theorem receipt_second_third :
    ∃ r, ((new 1).addHashes (fun l r => 2 * l + 3 * r)
        [(5, true), (7, false), (5, true), (5, false), (9, true)]).receipt
          (fun l r => 2 * l + 3 * r) 1 2 = some r ∧
      r.validate (fun l r => 2 * l + 3 * r) = true ∧
      ((new 1).addHashes (fun l r => 2 * l + 3 * r)
        [(5, true), (7, false), (5, true), (5, false), (9, true)]).elements[1]? = some r.start ∧
      ((((new 1).addHashes (fun l r => 2 * l + 3 * r)
        [(5, true), (7, false), (5, true), (5, false), (9, true)]).elements.take (2 + 1)).foldl
          (addToMerkleTree fun l r => 2 * l + 3 * r) MerkleState.empty).getMDRoot
            (fun l r => 2 * l + 3 * r) = some r.anchor :=
  receipt_valid (fun l r : Nat => 2 * l + 3 * r) 1 (by decide)
    [(5, true), (7, false), (5, true), (5, false), (9, true)] 1 2 (by decide) (by decide)

end Built

/-! ## Receipts cannot be forged -/

/-- The pair that an entry combines a hash to. -/
def pairOf (n : ReceiptEntry α) (hash : α) : α × α :=
  if n.right then (hash, n.hash) else (n.hash, hash)

def pairsOf (combine : α → α → α) : List (ReceiptEntry α) → α → List (α × α)
  | [], _ => []
  | n :: ns, hash => pairOf n hash :: pairsOf combine ns (n.apply combine hash)

/-- What a receipt leads from occurs in the tree, unless it combines a pair that clashes. -/
theorem occurs_of_applyEntries {l : List α} {P : List (α × α)} {x hash : α}
    {entries : List (ReceiptEntry α)} (hmade : MadeOf combine l P x)
    (h : Occurs combine l P (applyEntries combine entries hash)) :
    Occurs combine l P hash ∨ ∃ p ∈ pairsOf combine entries hash, Clashes combine l P p := by
  induction entries generalizing hash with
  | nil => exact .inl h
  | cons n ns ih =>
    rcases ih h with hnext | ⟨p, hp, hclash⟩
    · have hnext : Occurs combine l P (n.apply combine hash) := hnext
      unfold ReceiptEntry.apply at hnext
      unfold pairsOf pairOf
      split
      · rw [if_pos ‹_›] at hnext
        exact (hmade.occurs_of_combine hnext).symm.imp And.left fun hclash =>
          ⟨_, List.mem_cons_self, hclash⟩
      · rw [if_neg ‹_›] at hnext
        exact (hmade.occurs_of_combine hnext).symm.imp And.right fun hclash =>
          ⟨_, List.mem_cons_self, hclash⟩
    · exact .inr ⟨p, List.mem_cons_of_mem _ hp, hclash⟩

/-- The anchor of a chain is the root of a tree over its elements.  A valid receipt to it starts
with an element, or with the hash of a pair of the tree, or a pair that the receipt combines has the
hash of another pair of the tree or is combined to an element. -/
theorem start_mem_elements [DecidableEq α] {markPower : Nat} (hpower : 0 < markPower)
    {calls : List (α × Bool)} (hcalls : (new markPower).addHashes combine calls = c) (r : Receipt α)
    (hvalid : r.validate combine = true) (hanchor : c.anchor combine = some r.anchor) :
    ∃ P, MadeOf combine c.elements P r.anchor ∧
      (r.start ∈ c.elements ∨ (∃ p ∈ P, combine p.1 p.2 = r.start) ∨
        ∃ p ∈ pairsOf combine r.entries r.start, combine p.1 p.2 ∈ c.elements ∨
          ∃ q ∈ P, q ≠ p ∧ combine q.1 q.2 = combine p.1 p.2) := by
  have hchain := hcalls ▸ (wellFormed_new combine hpower).addHashes calls
  have hroot : dagRoot combine c.elements = some r.anchor := by
    rw [anchor, getMDRoot, hchain.count, hchain.pending] at hanchor
    split at hanchor
    · cases hanchor
    · rename_i hne
      obtain ⟨leaf, hleaf⟩ := exists_leaf (mt List.length_eq_zero_iff.2 hne)
      rwa [foldl_fold_eq_dagRoot hleaf (isForest_pendingOf hleaf)] at hanchor
  obtain ⟨P, hmade⟩ := madeOf_dagRoot hroot
  have hend := hmade.occurs
  rw [← of_decide_eq_true hvalid] at hend
  refine ⟨P, hmade, ?_⟩
  rcases occurs_of_applyEntries hmade hend with (hleaf | hpair) | hclash
  · exact .inl hleaf
  · exact .inr (.inl hpair)
  · exact .inr (.inr hclash)

theorem start_mem_elements_second :
    ∃ P, MadeOf (fun l r : BitVec 256 => l + 3 * r) [2, 4] P 14 ∧
      ((4 : BitVec 256) ∈ [2, 4] ∨ (∃ p ∈ P, p.1 + 3 * p.2 = 4) ∨
        ∃ p ∈ [((2 : BitVec 256), (4 : BitVec 256))], p.1 + 3 * p.2 ∈ [2, 4] ∨
          ∃ q ∈ P, q ≠ p ∧ q.1 + 3 * q.2 = p.1 + 3 * p.2) :=
  start_mem_elements (c := (new 1).addHashes (fun l r : BitVec 256 => l + 3 * r)
    [(2, true), (4, true)]) (by decide) rfl ⟨4, 1, 4, 1, 14, [⟨false, 2⟩]⟩ (by decide) (by decide)

end Chain

end Accumulate.Smt
