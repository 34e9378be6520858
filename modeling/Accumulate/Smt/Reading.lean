import Accumulate.Library.Proc
import Accumulate.Smt.Chain

/-!
# Reading chains

The states and the elements of a chain are read from the hash lists of its head and of the states at
its mark points.  A chain whose head was restored from a snapshot has no records of the elements
before, and its first hash lists are incomplete: `GetRange` has to notice this
(`restored_range_iff`), and so has `GetAnyState` (`restored_states_iff`).

Of a chain that was built by adding its elements any state (`getAnyState_isSome_iff`) and any range
of elements (`entries_eq`) can be read.
-/

namespace Accumulate.Smt

open Library MerkleState

namespace Chain

variable {α : Type} (combine : α → α → α)

def restoreHead (c : Chain α) (head : MerkleState α) : Chain α := { c with head := head }

/-- A chain that was restored from a snapshot that has its head, with the count and the pending list
of the elements `old`, and no elements. -/
def restored (markPower : Nat) (old : List α) : Chain α :=
  (new markPower).restoreHead { addAll combine old with hashList := [] }

/-- The errors of `GetRange` and `Entries`. -/
inductive RangeError where
  | impossible (start stop : Int) (length : Nat)
  | incompleteMark (i expected got : Nat)
  | incompleteHead (expected got : Nat)
  | invalid
deriving DecidableEq, Repr

def markHashes (c : Chain α) :
    (marks i last : Nat) → (hl : List α) → Outcome RangeError (List α)
  | 0, _, _, hl => .ok hl
  | marks + 1, i, last, hl =>
    match c.getState (last + c.markFreq - 1 : Nat) with
    | some s =>
      if s.hashList.length ≠ c.markFreq then
        .error (.incompleteMark i c.markFreq s.hashList.length)
      else c.markHashes marks (i + 1) (last + c.markFreq) (hl ++ s.hashList)
    | none =>
      let n := c.head.count - last
      -- swaps nothing and a full list
      let expected := if n % c.markFreq = 0 then n ^^^ c.markFreq else n
      if c.head.hashList.length ≠ expected then .error (.incompleteHead n c.head.hashList.length)
      else .ok (hl ++ c.head.hashList)

/-- `GetRange`: the elements from `start` up to `stop`. -/
def getRange (c : Chain α) (start stop : Int) : Outcome RangeError (List α) :=
  if stop < start ∨ start ≥ c.head.count ∨ start < 0 then
    .error (.impossible start stop c.head.count)
  else
    let start := start.toNat
    let stop := (min stop c.head.count).toNat
    if stop = start then .ok []
    else do
      let markPoint := start / c.markFreq * c.markFreq
      let hl ← c.markHashes ((stop - markPoint) / c.markFreq + 1) 0 markPoint []
      let first := start % c.markFreq
      let last := first + stop - start
      -- the bound is the capacity, which a list that has nothing appended to it does not have
      if last ≤ hl.length then .ok ((hl.take last).drop first)
      else .panic "slice bounds out of range"

/-- The loop of `Chain.Entries`; `none` means that the fuel ran out. -/
def entriesLoop (c : Chain α) (stop : Int) :
    (fuel : Nat) → (start : Int) → (entries : List α) → Option (Outcome RangeError (List α))
  | 0, _, _ => none
  | fuel + 1, start, entries =>
    if start < stop then
      match c.getRange start stop with
      | .ok h => c.entriesLoop stop fuel (start + h.length) (entries ++ h)
      | o => some o
    else some (.ok entries)

def entries (c : Chain α) (fuel : Nat) (start stop : Int) : Option (Outcome RangeError (List α)) :=
  let stop := if stop > c.height then (c.height : Int) else stop
  if stop < start then some (.error .invalid) else c.entriesLoop stop fuel start []

/-! ## Mark sets -/

variable {combine} {c : Chain α} {all : List α} {n₀ : Nat}

/-- The index belongs to the mark set that starts at `mark`. -/
structure InSet (c : Chain α) (mark i : Nat) : Prop where
  dvd : mark % c.markFreq = 0
  le : mark ≤ i
  lt : i < mark + c.markFreq

variable {mark i : Nat}

theorem InSet.eq (h : c.InSet mark i) : i / c.markFreq * c.markFreq = mark := by
  obtain ⟨k, rfl⟩ := Nat.dvd_of_mod_eq_zero h.dvd
  have hle := h.le
  have hlt := h.lt
  rw [Nat.mul_comm] at hle hlt
  rw [Nat.div_eq_of_lt_le hle (by rwa [Nat.succ_mul]), Nat.mul_comm]

theorem InSet.full (h : c.InSet mark i) : (mark + c.markFreq - 1 + 1) % c.markFreq = 0 := by
  have hlt := h.lt
  rw [Nat.sub_add_cancel (by omega), Nat.add_mod_right, h.dvd]

theorem InSet.cases (h : c.InSet mark i) : mark = 0 ∨ c.markFreq ≤ mark := by
  rcases Nat.eq_zero_or_pos mark with hzero | hpos
  · exact .inl hzero
  · exact .inr (Nat.le_of_dvd hpos (Nat.dvd_of_mod_eq_zero h.dvd))

theorem inSet_div (c : Chain α) (i : Nat) : c.InSet (i / c.markFreq * c.markFreq) i := by
  refine ⟨Nat.mul_mod_left _ _, Nat.div_mul_le_self _ _, ?_⟩
  have hsplit := Nat.div_add_mod i c.markFreq
  have hmod : i % c.markFreq < c.markFreq := Nat.mod_lt i (Nat.two_pow_pos _)
  rw [Nat.mul_comm] at hsplit
  omega

/-! ## States between mark points -/

theorem replay_eq (element : Nat) (l : List α) (s : MerkleState α) (hle : s.count ≤ element + 1) :
    replay combine element l s =
      (l.take (element + 1 - s.count)).foldl (addToMerkleTree combine) s := by
  induction l generalizing s with
  | nil => rw [replay, List.take_nil, List.foldl_nil]
  | cons v rest ih =>
    rw [replay]
    by_cases hdone : element + 1 = s.count
    · have hint : (element : Int) + 1 = s.count := by omega
      rw [if_pos hint, hdone, Nat.sub_self, List.take_zero, List.foldl_nil]
    have hint : ¬ (element : Int) + 1 = s.count := by omega
    have hnext : (s.addToMerkleTree combine v).count = s.count + 1 := rfl
    rw [if_neg hint, ih _ (by omega), hnext,
      show element + 1 - s.count = element + 1 - (s.count + 1) + 1 by omega, List.take_succ_cons,
      List.foldl_cons]

namespace Follows

section

variable (hc : Follows combine all n₀ c)

include hc

theorem getState (hne : 0 < all.length) (m : Nat) : c.getState m = c.states m := by
  have hcount := hc.count
  rw [Chain.getState, if_neg (by omega), if_neg (by omega), Int.toNat_natCast]

variable {e : Nat}

/-- `GetAnyState` rebuilds a state that is not stored from the mark point before it and the hash
list of the mark point after it. -/
theorem getAnyState_eq (he : e < all.length)
    (hmissing : c.states e = none) (hm : c.InSet mark e) :
    c.getAnyState combine e =
      c.replayFrom combine e (if mark = 0 then some MerkleState.empty else c.states (mark - 1))
        (if all.length < mark + c.markFreq then some c.head
        else c.states (mark + c.markFreq - 1)) := by
  have hcount := hc.count
  have hstate := hc.getState (by omega)
  have htwo := hc.two_le_markFreq
  have hint : (e : Int) / (c.markFreq : Int) * (c.markFreq : Int) = (mark : Int) := by
    rw [← hm.eq]
    rfl
  have hprevious : (if (mark : Int) - 1 < 0 then some MerkleState.empty
      else c.getState ((mark : Int) - 1)) =
        if mark = 0 then some MerkleState.empty else c.states (mark - 1) := by
    by_cases hzero : mark = 0
    · rw [if_pos (by omega), if_pos hzero]
    · rw [if_neg (by omega), if_neg hzero, ← hstate]
      congr
      omega
  have hnext : (if (mark : Int) - 1 + c.markFreq ≥ c.head.count then some c.head
      else c.getState ((mark : Int) - 1 + c.markFreq)) =
        if all.length < mark + c.markFreq then some c.head
        else c.states (mark + c.markFreq - 1) := by
    by_cases hlast : all.length < mark + c.markFreq
    · rw [if_pos (by omega), if_pos hlast]
    · rw [if_neg (by omega), if_neg hlast, ← hstate]
      congr
      omega
  unfold Chain.getAnyState
  rw [if_neg (by omega), hstate, hmissing]
  dsimp only
  rw [if_neg (by omega), hint, hprevious, hnext]

/-- The hashes that are added to the state at the mark point before an element. -/
def replayed (all : List α) (n₀ freq mark e : Nat) : List α :=
  ((all.take (mark + freq)).drop (max n₀ mark)).take (e + 1 - mark)

/-- The records from the mark point before the element on are there, or the element belongs to the
first mark set. -/
theorem getAnyState_rebuilt (he : e < all.length) (hmissing : c.states e = none)
    (hm : c.InSet mark e) (hprevious : mark = 0 ∨ n₀ < mark) (hnext : n₀ < mark + c.markFreq) :
    ∃ s, c.getAnyState combine e = some s ∧
      s.count = mark + (replayed all n₀ c.markFreq mark e).length ∧
      s.pending = (replayed all n₀ c.markFreq mark e).foldl (addPending combine)
        (pendingOf combine (all.take mark)) := by
  have htwo := hc.two_le_markFreq
  have hle := hm.le
  obtain ⟨previous, hp, hpcount, hppending⟩ : ∃ previous,
      (if mark = 0 then some MerkleState.empty else c.states (mark - 1)) = some previous ∧
        previous.count = mark ∧ previous.pending = pendingOf combine (all.take mark) := by
    by_cases hzero : mark = 0
    · subst hzero
      exact ⟨_, if_pos rfl, rfl, rfl⟩
    · have hsucc : mark - 1 + 1 = mark := by omega
      rw [if_neg hzero, hc.states, hsucc, if_pos ⟨by omega, by omega, hm.dvd⟩, stateAfter, hsucc]
      exact ⟨_, rfl, rfl, rfl⟩
  obtain ⟨next, hn, hlist⟩ : ∃ next, (if all.length < mark + c.markFreq then some c.head
      else c.states (mark + c.markFreq - 1)) = some next ∧
        next.hashList = (all.take (mark + c.markFreq)).drop (max n₀ mark) := by
    by_cases hlast : all.length < mark + c.markFreq
    · have hset : c.InSet mark (all.length - 1) := ⟨hm.dvd, by omega, by omega⟩
      exact ⟨_, if_pos hlast, by rw [hc.hashList, hset.eq, List.take_of_length_le (by omega)]⟩
    · have hset : c.InSet mark (mark + c.markFreq - 1) := ⟨hm.dvd, by omega, by omega⟩
      rw [if_neg hlast, hc.states, if_pos ⟨by omega, by omega, hm.full⟩]
      exact ⟨_, rfl, by rw [stateAfter, hset.eq, Nat.sub_add_cancel (by omega)]⟩
  have heq := hc.getAnyState_eq he hmissing hm
  rw [hp, hn, replayFrom] at heq
  rw [replay_eq e _ _ (by dsimp only; omega), hlist] at heq
  rw [hpcount] at heq
  refine ⟨_, heq, ?_, ?_⟩
  · split <;> simp [replayed, foldl_addToMerkleTree_count]
  · split <;> simp [replayed, foldl_addToMerkleTree_pending, hppending]

theorem getAnyState_missing (he : e < all.length)
    (hmissing : c.states e = none) (hm : c.InSet mark e)
    (hold : 0 < mark ∧ mark ≤ n₀ ∨ mark + c.markFreq ≤ n₀) : c.getAnyState combine e = none := by
  have hle := hc.le
  have htwo := hc.two_le_markFreq
  rw [hc.getAnyState_eq he hmissing hm]
  by_cases hzero : mark = 0
  · subst hzero
    rw [if_pos rfl, if_neg (by omega), hc.states, if_neg (by omega), replayFrom]
    simp
  · rw [if_neg hzero, hc.states (mark - 1), if_neg (by omega), replayFrom]
    simp

theorem getAnyState_of_kept (he : e < all.length)
    (hm : c.InSet mark e) (hkept : n₀ ≤ e ∧ (e + 1) % c.markFreq = 0 ∨ n₀ = 0 ∨ n₀ < mark) :
    ∃ s, c.getAnyState combine e = some s ∧ s.count = e + 1 ∧
      s.pending = pendingOf combine (all.take (e + 1)) := by
  have hle := hm.le
  have hlt := hm.lt
  by_cases hstored : n₀ ≤ e ∧ e < all.length ∧ (e + 1) % c.markFreq = 0
  · unfold Chain.getAnyState
    rw [hc.getState (by omega), hc.states, if_pos hstored]
    exact ⟨_, rfl, rfl, rfl⟩
  · have hmissing : c.states e = none := by rw [hc.states, if_neg hstored]
    obtain ⟨s, hs, hcount, hpending⟩ :=
      hc.getAnyState_rebuilt he hmissing hm (by omega) (by omega)
    have hlist : replayed all n₀ c.markFreq mark e = (all.drop mark).take (e + 1 - mark) := by
      rw [replayed, Nat.max_eq_right (by omega), List.drop_take,
        List.take_take, Nat.min_eq_left (by omega)]
    rw [hlist] at hcount hpending
    refine ⟨s, hs, ?_, ?_⟩
    · rw [hcount, List.length_take, List.length_drop]
      omega
    · rw [hpending, ← pendingOf_append, ← List.take_add, Nat.add_sub_cancel' (by omega)]

end

end Follows

/-! ## Ranges of elements -/

theorem le_xor_two_pow {p n : Nat} (hdvd : n % 2 ^ p = 0) (hn : 2 * 2 ^ p ≤ n) :
    2 * 2 ^ p ≤ n ^^^ 2 ^ p := by
  obtain ⟨k, rfl⟩ := Nat.dvd_of_mod_eq_zero hdvd
  have hk : 2 ≤ k := by
    rw [Nat.mul_comm] at hn
    exact Nat.le_of_mul_le_mul_left hn (Nat.two_pow_pos p)
  have hxor : 2 ^ p * k ^^^ 2 ^ p = (k ^^^ 1) * 2 ^ p := by
    have hshift := Nat.shiftLeft_xor_distrib (a := k) (b := 1) (i := p)
    rw [Nat.shiftLeft_eq, Nat.shiftLeft_eq, Nat.shiftLeft_eq, Nat.one_mul] at hshift
    rw [hshift, Nat.mul_comm]
  have hhalf : (k ^^^ 1) / 2 = k / 2 := by
    rw [Nat.xor_div_two]
    exact Nat.xor_zero _
  rw [hxor]
  exact Nat.mul_le_mul_right _ (by omega)

namespace Follows

/-- Where nothing has been lost, the hash lists of the mark points and of the head are the elements
of the chain. -/
theorem markHashes_of_kept (hc : Follows combine all n₀ c) (hl : List α) (marks j : Nat)
    (hdvd : mark % c.markFreq = 0) (hkept : n₀ ≤ mark) (hle : mark ≤ all.length)
    (hfull : mark = all.length → n₀ + c.markFreq ≤ mark) :
    ∃ rest, c.markHashes marks j mark hl = .ok (hl ++ rest) ∧
      (all.drop mark).take (marks * c.markFreq) <+: rest := by
  have htwo := hc.two_le_markFreq
  induction marks generalizing j mark hl with
  | zero => exact ⟨[], by rw [markHashes, List.append_nil], by simp⟩
  | succ marks ih =>
    have hset : c.InSet mark (mark + c.markFreq - 1) := ⟨hdvd, by omega, by omega⟩
    unfold markHashes
    rw [hc.getState (by omega), hc.states]
    by_cases hmark : mark + c.markFreq ≤ all.length
    · -- a complete mark set
      have hlist : (stateAfter combine all n₀ c.markFreq (mark + c.markFreq - 1)).hashList =
          (all.drop mark).take c.markFreq := by
        rw [stateAfter, hset.eq, Nat.sub_add_cancel (by omega), Nat.max_eq_right hkept,
          List.drop_take, Nat.add_sub_cancel_left]
      have hlength : ((all.drop mark).take c.markFreq).length = c.markFreq := by
        rw [List.length_take, List.length_drop]
        omega
      obtain ⟨rest, hrest, hpre⟩ := @ih (mark + c.markFreq) (hl ++ (all.drop mark).take c.markFreq)
        (j + 1) (by rw [Nat.add_mod_right, hdvd]) (by omega) hmark (fun _ => by omega)
      rw [if_pos ⟨by omega, by omega, hset.full⟩]
      dsimp only
      rw [hlist, if_neg (not_not.2 hlength), hrest, List.append_assoc]
      refine ⟨_, rfl, ?_⟩
      rw [Nat.succ_mul, Nat.add_comm, List.take_add, List.drop_drop]
      exact (List.prefix_append_right_inj _).2 hpre
    · -- the rest is in the head
      rw [if_neg (by omega)]
      have hlast : c.head.hashList.length =
          (if (c.head.count - mark) % c.markFreq = 0 then (c.head.count - mark) ^^^ c.markFreq
            else c.head.count - mark) ∧ all.drop mark <+: c.head.hashList := by
        rw [hc.hashList, hc.count, List.length_drop]
        by_cases hend : mark = all.length
        · -- the chain ends at a mark point, and the head still has the mark set before it
          have hbefore : c.InSet (all.length - c.markFreq) (all.length - 1) := by
            refine ⟨?_, by omega, by omega⟩
            rw [← hend, ← Nat.add_mod_right, Nat.sub_add_cancel (by omega), hdvd]
          rw [hbefore.eq, hend, Nat.sub_self, Nat.zero_mod, if_pos rfl, Nat.zero_xor,
            List.drop_length]
          exact ⟨by omega, List.nil_prefix⟩
        · have hset : c.InSet mark (all.length - 1) := ⟨hdvd, by omega, by omega⟩
          rw [hset.eq, Nat.max_eq_right hkept, Nat.mod_eq_of_lt (by omega), if_neg (by omega)]
          exact ⟨rfl, List.prefix_refl _⟩
      rw [if_neg (not_not.2 hlast.1)]
      exact ⟨_, rfl, (List.take_prefix _ _).trans hlast.2⟩

/-- Where elements have been lost, this is noticed, unless they fill the last mark set and nothing
has been added since: the head, which has no hashes, is taken for one that has them all. -/
theorem markHashes_of_lost (hc : Follows combine all n₀ c) (hl : List α) (marks j : Nat)
    (hdvd : mark % c.markFreq = 0) (hlost : mark < n₀) :
    if all.length = n₀ ∧ n₀ = mark + c.markFreq then
      c.markHashes (marks + 1) j mark hl = .ok hl
    else ∃ e, c.markHashes (marks + 1) j mark hl = .error e := by
  have htwo := hc.two_le_markFreq
  have hle := hc.le
  have hset : c.InSet mark (mark + c.markFreq - 1) := ⟨hdvd, by omega, by omega⟩
  unfold markHashes
  rw [hc.getState (by omega), hc.states]
  by_cases hmark : n₀ ≤ mark + c.markFreq - 1 ∧ mark + c.markFreq - 1 < all.length ∧
      (mark + c.markFreq - 1 + 1) % c.markFreq = 0
  · -- the hash list of the mark point starts at the first element that was added
    have hlength : (stateAfter combine all n₀ c.markFreq (mark + c.markFreq - 1)).hashList.length ≠
        c.markFreq := by
      rw [stateAfter, List.length_drop, List.length_take]
      omega
    rw [if_pos hmark, if_neg (by omega)]
    dsimp only
    rw [if_pos hlength]
    exact ⟨_, rfl⟩
  · have hfull := hset.full
    have hlength : c.head.hashList.length =
        all.length - max n₀ ((all.length - 1) / c.markFreq * c.markFreq) := by
      rw [hc.hashList, List.length_drop]
    have hshort := (c.inSet_div (all.length - 1)).lt
    rw [if_neg hmark]
    dsimp only
    rw [hc.count]
    by_cases hcase : all.length = n₀ ∧ n₀ = mark + c.markFreq
    · have hn : all.length - mark = c.markFreq := by omega
      have hnil : c.head.hashList = [] := List.length_eq_zero_iff.1 (by omega)
      rw [if_pos hcase, hn, Nat.mod_self, Nat.xor_self, hnil, List.append_nil]
      rfl
    · have hwrong : c.head.hashList.length ≠
          if (all.length - mark) % c.markFreq = 0 then (all.length - mark) ^^^ c.markFreq
          else all.length - mark := by
        split
        · next hzero =>
          -- two mark sets at least are missing
          have hmany : 2 * c.markFreq ≤ all.length - mark := by
            obtain ⟨k, hk⟩ := Nat.dvd_of_mod_eq_zero hzero
            rcases k with - | - | k
            · omega
            · omega
            · rw [hk, Nat.mul_comm 2]
              exact Nat.mul_le_mul_left _ (by omega)
          have hxor : 2 * c.markFreq ≤ (all.length - mark) ^^^ c.markFreq :=
            le_xor_two_pow hzero hmany
          omega
        · by_cases hlast : all.length < mark + c.markFreq
          · omega
          · omega
      rw [if_neg hcase, if_pos hwrong]
      exact ⟨_, rfl⟩

theorem getRange_cases (hc : Follows combine all n₀ c) (hm : c.InSet mark i)
    (hlt : i < all.length) {j : Nat} (hj : i < j) :
    if n₀ ≤ mark then c.getRange i j = .ok ((all.take j).drop i)
    else if all.length = n₀ ∧ n₀ = mark + c.markFreq then
      c.getRange i j = .panic "slice bounds out of range"
    else ∃ e, c.getRange i j = .error e := by
  have hle := hm.le
  have hcount := hc.count
  have hmod : i % c.markFreq = i - mark := by
    have hsplit := Nat.div_add_mod i c.markFreq
    rw [Nat.mul_comm, hm.eq] at hsplit
    omega
  have htake : all.take j = all.take (min j all.length) := List.take_eq_take_min
  have hmin : (min (j : Int) c.head.count).toNat = min j all.length := by omega
  have hend : i < min j all.length ∧ min j all.length ≤ all.length := by omega
  rw [htake]
  generalize min j all.length = stop at hend hmin
  have hrange : c.getRange i j =
      (c.markHashes ((stop - mark) / c.markFreq + 1) 0 mark [] >>= fun hl =>
        if stop - mark ≤ hl.length then .ok ((hl.take (stop - mark)).drop (i - mark))
        else .panic "slice bounds out of range") := by
    unfold getRange
    rw [if_neg (by omega), Int.toNat_natCast, hmin]
    dsimp only
    rw [if_neg (by omega), hm.eq, hmod, show i - mark + stop - i = stop - mark by omega]
  rw [hrange]
  by_cases hkept : n₀ ≤ mark
  · obtain ⟨rest, hrest, tail, rfl⟩ := hc.markHashes_of_kept []
      ((stop - mark) / c.markFreq + 1) 0 hm.dvd hkept (by omega) (fun h => by omega)
    have hmarks := (c.inSet_div (stop - mark)).lt
    rw [← Nat.succ_mul] at hmarks
    generalize ((stop - mark) / c.markFreq + 1) * c.markFreq = covered at hmarks hrest ⊢
    rw [if_pos hkept, hrest, Outcome.ok_bind, List.nil_append,
      if_pos (by simp only [List.length_append, List.length_take, List.length_drop]; omega),
      List.take_append_of_le_length (by simp only [List.length_take, List.length_drop]; omega),
      List.take_take, Nat.min_eq_left (by omega), List.drop_take, List.drop_drop, List.drop_take,
      Nat.add_sub_cancel' hle, show stop - mark - (i - mark) = stop - i by omega]
  · have hlost := hc.markHashes_of_lost [] ((stop - mark) / c.markFreq) 0 hm.dvd
      (Nat.lt_of_not_le hkept)
    rw [if_neg hkept]
    split at hlost
    · next hcase => rw [if_pos hcase, hlost, Outcome.ok_bind, List.length_nil, if_neg (by omega)]
    next hcase =>
    obtain ⟨e, he⟩ := hlost
    rw [if_neg hcase, he]
    exact ⟨e, rfl⟩

end Follows

/-! ## Chains built by `AddHash` -/

variable [DecidableEq α] (combine) {markPower : Nat}

theorem follows_addHashes (hpower : 0 < markPower) (calls : List (α × Bool)) :
    Follows combine ((new markPower).addHashes combine calls).elements 0
      ((new markPower).addHashes combine calls) :=
  ((wellFormed_new combine hpower).addHashes calls).follows

/-- `GetAnyState` answers for the elements of a chain and for -1 and no others, exactly if the chain
is not empty or it is asked for -1. -/
theorem getAnyState_isSome_iff (markPower : Nat) (hpower : 0 < markPower) (calls : List (α × Bool))
    (e : Int) (hlow : -1 ≤ e) :
    let c := (new markPower).addHashes combine calls
    ((c.getAnyState combine e).isSome = true ↔ e < c.head.count) ↔ e = -1 ∨ c.head.count ≠ 0 := by
  intro c
  have hc : Follows combine c.elements 0 c := follows_addHashes combine hpower calls
  by_cases hminus : e = -1
  · subst hminus
    exact iff_of_true (iff_of_true rfl (by omega)) (.inl rfl)
  obtain ⟨n, rfl⟩ : ∃ n : Nat, e = n := ⟨e.toNat, by omega⟩
  by_cases hempty : c.head.count = 0
  · -- the state of the empty chain is found for any element
    have hsome : (c.getAnyState combine n).isSome = true := by
      rw [getAnyState, getState, if_pos hempty]
      rfl
    exact iff_of_false (fun h => absurd (h.1 hsome) (by omega)) (by omega)
  refine iff_of_true ?_ (.inr hempty)
  have hcount := hc.count
  by_cases hn : n < c.elements.length
  · have hset := c.inSet_div n
    obtain ⟨s, hs, -⟩ := hc.getAnyState_of_kept hn hset (.inr (.inl rfl))
    exact iff_of_true (by rw [hs]; rfl) (by omega)
  · refine iff_of_false ?_ (by omega)
    rw [getAnyState, if_neg hminus, hc.getState (by omega), hc.states, if_neg (by omega)]
    rw [if_pos (by omega)]
    exact Bool.false_ne_true

theorem getAnyState_isSome_iff_three :
    let c := (new 1).addHashes (· + ·) [(5, true), (7, false), (5, false)]
    ((c.getAnyState (· + ·) 3).isSome = true ↔ (3 : Int) < c.head.count) ↔
      (3 : Int) = -1 ∨ c.head.count ≠ 0 :=
  getAnyState_isSome_iff (· + · : Nat → Nat → Nat) 1 (by decide) _ 3 (by decide)

/-- The empty chain has a state after its first element. -/
theorem getAnyState_empty :
    ((new 8 : Chain Nat).getAnyState (· + ·) 0).isSome = true ∧
      ¬ (0 : Int) < (new 8 : Chain Nat).head.count := by
  decide

/-- `Entries` ends after two rounds at most and gives the elements of the range. -/
theorem entries_eq (markPower : Nat) (hpower : 0 < markPower) (calls : List (α × Bool))
    (start stop : Int) (hlow : 0 ≤ start) (hle : start ≤ stop) (fuel : Nat) (hfuel : 2 ≤ fuel) :
    let c := (new markPower).addHashes combine calls
    start < c.head.count →
      c.entries fuel start stop = some (.ok ((c.elements.take stop.toNat).drop start.toNat)) := by
  intro c hlt
  have hc : Follows combine c.elements 0 c := follows_addHashes combine hpower calls
  have hcount := hc.count
  obtain ⟨fuel, rfl⟩ : ∃ n, fuel = n + 2 := ⟨fuel - 2, by omega⟩
  obtain ⟨i, rfl⟩ : ∃ i : Nat, start = i := ⟨start.toNat, by omega⟩
  have hstop : (if stop > c.height then (c.height : Int) else stop) =
      (min stop.toNat c.elements.length : Nat) := by
    rw [height]
    split <;> omega
  have htake : c.elements.take stop.toNat = c.elements.take (min stop.toNat c.elements.length) :=
    List.take_eq_take_min
  rw [entries, hstop, htake, Int.toNat_natCast]
  generalize hj : min stop.toNat c.elements.length = j
  rw [if_neg (by omega), entriesLoop]
  by_cases hij : i < j
  · have hset := c.inSet_div i
    have hrange := hc.getRange_cases hset (by omega) hij
    rw [if_pos (by omega), hrange]
    dsimp only
    rw [entriesLoop, List.length_drop, List.length_take, if_neg (by omega), List.nil_append]
  · rw [if_neg (by omega), List.drop_eq_nil_of_le (by rw [List.length_take]; omega)]

theorem entries_eq_three :
    ((new 1).addHashes (· + ·) [(5, true), (7, false), (5, false), (9, true)]).entries 2 1 9 =
      some (.ok [7, 5, 9]) :=
  entries_eq (· + · : Nat → Nat → Nat) 1 (by decide) _ 1 9 (by decide) (by decide) 2 (by decide)
    (by decide)

/-! ## Restored chains -/

theorem follows_restored (hpower : 0 < markPower) (old : List α)
    (calls : List (α × Bool)) :
    let c := (restored combine markPower old).addHashes combine calls
    Follows combine (old ++ c.elements) old.length c ∧ c.markFreq = 2 ^ markPower := by
  have hcount : (addAll combine old).count = old.length := by
    rw [addAll, foldl_addToMerkleTree_count]
    exact Nat.zero_add _
  have hold : Follows combine (old ++ (restored combine markPower old).elements) old.length
      (restored combine markPower old) := by
    show Follows combine (old ++ []) old.length _
    rw [List.append_nil]
    refine ⟨hpower, Nat.le_refl _, hcount, foldl_addToMerkleTree_empty_pending combine old, ?_,
      fun m => ?_⟩
    · exact (List.drop_eq_nil_of_le (Nat.le_max_left _ _)).symm
    · rw [if_neg (by omega)]
      rfl
  exact ⟨hold.addHashes calls, congrArg (2 ^ ·) (addHashes_markPower _ calls)⟩

/-- `GetRange` of a restored chain fails or returns the elements of the range, exactly if a hash has
been added, or the restored elements do not fill their last mark set, or no range within that mark
set is asked for. -/
theorem restored_range_iff (markPower : Nat) (hpower : 0 < markPower) (old : List α)
    (calls : List (α × Bool)) (start stop : Int) :
    let c := (restored combine markPower old).addHashes combine calls
    ((c.getRange start stop).Returns ∧ ∀ hashes, c.getRange start stop = .ok hashes →
        hashes = ((old ++ c.elements).take stop.toNat).drop start.toNat) ↔
      ¬ (c.elements = [] ∧ old.length % 2 ^ markPower = 0 ∧
        old.length ≤ start + (2 ^ markPower : Nat) ∧ 0 ≤ start ∧ start < old.length ∧
          start < stop) := by
  intro c
  obtain ⟨hc, hfreq⟩ : Follows combine (old ++ c.elements) old.length c ∧
    c.markFreq = 2 ^ markPower := follows_restored combine hpower old calls
  have hcount := hc.count
  have hlength : (old ++ c.elements).length = old.length + c.elements.length := List.length_append
  clear_value c
  rw [← hfreq, ← List.length_eq_zero_iff]
  by_cases hbad : stop < start ∨ start ≥ c.head.count ∨ start < 0
  · have herror : c.getRange start stop = .error (.impossible start stop c.head.count) :=
      if_pos hbad
    rw [herror]
    exact iff_of_true ⟨trivial, nofun⟩ (by omega)
  obtain ⟨i, rfl⟩ : ∃ i : Nat, start = i := ⟨start.toNat, by omega⟩
  obtain ⟨j, rfl⟩ : ∃ j : Nat, stop = j := ⟨stop.toNat, by omega⟩
  by_cases hij : i = j
  · subst hij
    have hnone : c.getRange i i = .ok [] := by
      rw [getRange, if_neg hbad]
      rw [if_pos (by omega)]
    rw [hnone, List.drop_eq_nil_of_le (List.length_take_le _ _)]
    exact iff_of_true ⟨trivial, fun hashes h => (Outcome.ok.inj h).symm⟩ (by omega)
  have hset := c.inSet_div i
  have hcases := hc.getRange_cases (j := j) hset (by omega) (by omega)
  have hle := hset.le
  have hlt := hset.lt
  -- the range starts in the last mark set of the restored elements
  have hlast : old.length % c.markFreq = 0 ∧ i < old.length ∧ old.length ≤ i + c.markFreq ↔
      old.length = i / c.markFreq * c.markFreq + c.markFreq := by
    constructor
    · rintro ⟨hfull, hhigh, hlow⟩
      have hle : c.markFreq ≤ old.length := Nat.le_of_dvd (by omega) (Nat.dvd_of_mod_eq_zero hfull)
      have hbefore : c.InSet (old.length - c.markFreq) i := by
        refine ⟨?_, by omega, by omega⟩
        rw [← Nat.add_mod_right, Nat.sub_add_cancel hle, hfull]
      rw [hbefore.eq, Nat.sub_add_cancel hle]
    · intro h
      exact ⟨by rw [h, Nat.add_mod_right, hset.dvd], by omega, by omega⟩
  split at hcases
  · rw [hcases]
    exact iff_of_true ⟨trivial, fun hashes h => (Outcome.ok.inj h).symm⟩ (by omega)
  split at hcases
  · rw [hcases]
    exact iff_of_false (fun h => h.1) (by omega)
  · obtain ⟨e, he⟩ := hcases
    rw [he]
    exact iff_of_true ⟨trivial, nofun⟩ (by omega)

theorem restored_range_iff_two :
    let c := (restored (· + ·) 1 [3, 1, 4, 1]).addHashes (· + ·) [(5, false), (9, true)]
    (c.getRange 4 6).Returns ∧ ∀ hashes, c.getRange 4 6 = .ok hashes → hashes = [5, 9] :=
  (restored_range_iff (· + · : Nat → Nat → Nat) 1 (by decide) [3, 1, 4, 1] [(5, false), (9, true)]
    4 6).2 (by decide)

theorem getRange_restored_panics :
    (restored (· + ·) 1 [3, 1]).getRange 0 2 =
      (.panic "slice bounds out of range" : Outcome RangeError (List Nat)) := by
  decide

/-- `GetAnyState` of a restored chain fails or returns the state after the element, exactly if the
elements before the end of the first mark set have all been restored or all been added, or the
element is beyond them, or the wrong elements happen to give the same pending list. -/
theorem restored_states_iff (markPower : Nat) (hpower : 0 < markPower) (old : List α)
    (calls : List (α × Bool)) (e : Nat) :
    let c := (restored combine markPower old).addHashes combine calls
    e < c.head.count →
      ((∀ s, c.getAnyState combine e = some s →
          s.count = e + 1 ∧
          s.pending = (addAll combine ((old ++ c.elements).take (e + 1))).pending) ↔
        old = [] ∨ 2 ^ markPower ≤ old.length ∨ 2 ^ markPower ≤ e + 1 ∨
          old.length + e + 1 ≤ 2 ^ markPower ∧ e + 1 ≤ c.elements.length ∧
            (addAll combine (c.elements.take (e + 1))).pending =
              (addAll combine ((old ++ c.elements).take (e + 1))).pending) := by
  intro c he
  obtain ⟨hc, hfreq⟩ : Follows combine (old ++ c.elements) old.length c ∧
    c.markFreq = 2 ^ markPower := follows_restored combine hpower old calls
  clear_value c
  rw [hc.count] at he
  have hpending : ∀ l, (addAll combine l).pending = pendingOf combine l :=
    foldl_addToMerkleTree_empty_pending combine
  rw [hpending, hpending, ← hfreq, ← List.length_eq_zero_iff]
  obtain ⟨mark, hset⟩ : ∃ mark, c.InSet mark e := ⟨_, c.inSet_div e⟩
  have hle := hset.le
  have hlt := hset.lt
  have hfirst := hset.cases
  have hlast : (e + 1) % c.markFreq = 0 → c.markFreq ≤ e + 1 := fun h =>
    Nat.le_of_dvd (by omega) (Nat.dvd_of_mod_eq_zero h)
  by_cases hkept : old.length ≤ e ∧ (e + 1) % c.markFreq = 0 ∨ old.length = 0 ∨ old.length < mark
  · obtain ⟨s, hs, hright⟩ := hc.getAnyState_of_kept he hset hkept
    refine iff_of_true (fun s' hs' => ?_) (by omega)
    cases hs.symm.trans hs'
    exact hright
  have hmissing : c.states e = none := by
    rw [hc.states, if_neg fun h => hkept (.inl ⟨h.1, h.2.2⟩)]
  by_cases hold : 0 < mark ∧ mark ≤ old.length ∨ mark + c.markFreq ≤ old.length
  · rw [hc.getAnyState_missing he hmissing hset hold]
    exact iff_of_true nofun (by omega)
  have hzero : mark = 0 := by omega
  subst hzero
  have hbelow : e + 1 < c.markFreq := by
    refine Nat.lt_of_le_of_ne (by omega) fun hall => hkept (.inl ⟨by omega, ?_⟩)
    rw [hall, Nat.mod_self]
  -- what has been added is taken for the first elements of the chain
  obtain ⟨s, hs, hscount, hspending⟩ :=
    hc.getAnyState_rebuilt he hmissing hset (.inl rfl) (by omega)
  have hlist : Follows.replayed (old ++ c.elements) old.length c.markFreq 0 e =
      (c.elements.take (c.markFreq - old.length)).take (e + 1) := by
    have hshort : old.take c.markFreq = old := List.take_of_length_le (by omega)
    rw [Follows.replayed, Nat.zero_add, Nat.max_zero, List.take_append, hshort, List.drop_left,
      Nat.sub_zero]
  rw [hlist, List.length_take, List.length_take] at hscount
  have hwrong : old.length + e + 1 ≤ c.markFreq →
      s.pending = pendingOf combine (c.elements.take (e + 1)) := by
    intro hle
    rw [hspending, hlist, List.take_take, Nat.min_eq_left (by omega)]
    rfl
  rw [hs]
  constructor
  · intro h
    obtain ⟨hright, hpend⟩ := h s rfl
    exact .inr (.inr (.inr ⟨by omega, by omega, (hwrong (by omega)).symm.trans hpend⟩))
  · rintro (h | h | h | ⟨hle, hmany, hsame⟩) s' hs'
    · omega
    · omega
    · omega
    · cases hs'
      exact ⟨by omega, (hwrong hle).trans hsame⟩

theorem restored_states_iff_five :
    let c := (restored (· + ·) 1 [3, 1, 4]).addHashes (· + ·) [(1, false), (5, false)]
    ∀ s, c.getAnyState (· + ·) 4 = some s →
      s.count = 5 ∧ s.pending = (addAll (· + ·) [3, 1, 4, 1, 5]).pending :=
  (restored_states_iff (· + · : Nat → Nat → Nat) 1 (by decide) [3, 1, 4] [(1, false), (5, false)] 4
    (by decide)).2 (by decide)

/-- The chain has the elements 3, 1 and 4, and gives the state of 1 and 4 for the state of 3 and
1. -/
theorem getAnyState_restored :
    let c := (restored (· + ·) 2 [3]).addHashes (· + ·) [(1, false), (4, false)]
    (c.getAnyState (· + ·) 1).map (·.pending) = some [none, some 5] ∧
      (addAll (· + ·) [3, 1]).pending = [none, some 4] := by
  decide

end Chain

end Accumulate.Smt
