import Accumulate.Database.ChainRecords
import Accumulate.Smt.Reading

/-!
# The entries of a chain

`Chain.Entries` reads the entries of a chain from the hash lists of the states at its mark points
and of its head, not from the records of the elements (`merklemanagerrange.go`).  For a chain that
was built by adding hashes these lists are complete (`run_entries`).
-/

namespace Accumulate.Database
namespace Records

open Library Protocol Record

def getState (u : Url) (c : Chain2) (element : Nat) : RecordM (Option (Smt.MerkleState Hash)) := do
  let head ← tryGet (.account u (.chain c .head))
  let isEmpty := match head with
    | .ok (s : Smt.MerkleState Hash) => s.count == 0
    | .error _ => false
  if isEmpty then return some ⟨1, [none], []⟩
  else
    match ← tryGet (.account u (.chain c (.states element))) with
    | .ok s => return some s
    | .error _ => return none

/-- The loop of `MerkleManager.GetRange` over the mark points, from `last` on. -/
def markHashes (u : Url) (c : Chain2) :
    (marks last : Nat) → (hl : List Hash) → RecordM (List Hash)
  | 0, _, hl => pure hl
  | marks + 1, last, hl => do
      match ← getState u c (last + 2 ^ markPower - 1) with
      | some s =>
        let got := s.hashList.length
        if got ≠ 2 ^ markPower then
          throw (.new .incompleteChain s!"markpoint: expected {2 ^ markPower} entries, got {got}")
        else markHashes u c marks (last + 2 ^ markPower) (hl ++ s.hashList)
      | none =>
        match ← tryGet (.account u (.chain c .head)) with
        | .error _ => throw (.new .internalError "a chain should always have a chain state")
        | .ok (s : Smt.MerkleState Hash) =>
          let n := s.count - last
          -- swaps nothing and a full list
          let n := if n % 2 ^ markPower = 0 then n ^^^ 2 ^ markPower else n
          let got := s.hashList.length
          if got ≠ n then
            throw (.new .incompleteChain s!"head: expected {n} entries, got {got}")
          else return hl ++ s.hashList

def getRange (u : Url) (c : Chain2) (start stop : Nat) : RecordM (List Hash) := do
  let head : Smt.MerkleState Hash ← get (.account u (.chain c .head))
  let length := head.count
  if stop < start ∨ length ≤ start then
    throw (.plain s!"impossible range {start},{stop} for chain length {length}")
  else
    let stop := min stop length
    if stop = start then return []
    else do
      let markPoint := start / 2 ^ markPower * 2 ^ markPower
      let hl ← markHashes u c ((stop - markPoint) / 2 ^ markPower + 1) markPoint []
      let first := start % 2 ^ markPower
      let last := first + stop - start
      if hl.length < last then throw (.plain "slice bounds out of range")
      else return (hl.take last).drop first

/-- The loop of `Chain.Entries`.  Each round adds an entry at least. -/
def entriesLoop (u : Url) (c : Chain2) (stop : Nat) :
    (fuel start : Nat) → (entries : List Hash) → RecordM (List Hash)
  | 0, start, entries => if start < stop then throw (.plain "no entries") else pure entries
  | fuel + 1, start, entries => do
      if start < stop then
        let h ← getRange u c start stop
        entriesLoop u c stop fuel (start + h.length) (entries ++ h)
      else pure entries

def chainEntries (u : Url) (c : Chain2) (height start stop : Nat) : RecordM (List Hash) :=
  let stop := min stop height
  if stop < start then
    throw (.new .badRequest "invalid range: start is greater than end")
  else entriesLoop u c stop (stop - start) start []

section Run

variable {combine : Hash → Hash → Hash} {below : View} {L : DbLayer} {u : Url} {c : Chain2}
  {chain : Smt.Chain Hash} {hashes : List Hash}

section

variable (h : HasChain (L.contents below) u c (.ofChain chain))

include h

theorem run_getState (hcount : chain.head.count ≠ 0) (element : Nat) :
    (getState u c element).run (Layer.machine below) L = (.ok (chain.states element), L) := by
  have hempty : (chain.head.count == 0) = false := by simpa using hcount
  have hstate := h.states element
  unfold getState
  rw [Script.run_bind, run_tryGet, h.head]
  dsimp only [ChainRecords.ofChain]
  rw [if_neg (by rw [hempty]; exact Bool.false_ne_true), Script.run_bind, run_tryGet]
  cases hs : (ChainRecords.ofChain chain).states element with
  | some s =>
    rw [hs] at hstate
    rw [show L.contents below (.account u (.chain c (.states element))) = .ok s from hstate,
      show chain.states element = some s from hs]
    rfl
  | none =>
    rw [hs] at hstate
    obtain ⟨e, he, -⟩ := hstate
    rw [he, show chain.states element = none from hs]
    rfl

/-- The loop over the mark points reads what `Smt.Chain.markHashes` reads. -/
theorem run_markHashes (hpower : chain.markPower = markPower) (hcount : chain.head.count ≠ 0)
    {marks i last : Nat} {hl : List Hash} (hok : chain.markHashes marks i last hl = .ok hashes) :
    (markHashes u c marks last hl).run (Layer.machine below) L = (.ok hashes, L) := by
  have hfreq : chain.markFreq = 2 ^ markPower := congrArg (2 ^ ·) hpower
  induction marks generalizing i last hl with
  | zero =>
    cases hok
    rfl
  | succ marks ih =>
    have hstate : chain.getState (last + 2 ^ markPower - 1 : Nat) =
        chain.states (last + 2 ^ markPower - 1) := by
      rw [Smt.Chain.getState, if_neg hcount, if_neg (by omega), Int.toNat_natCast]
    unfold Smt.Chain.markHashes at hok
    rw [hfreq, hstate] at hok
    unfold markHashes
    rw [Script.run_bind, run_getState h hcount]
    cases hs : chain.states (last + 2 ^ markPower - 1) with
    | some s =>
      rw [hs] at hok
      dsimp only at hok ⊢
      split at hok
      · cases hok
      · next hgot =>
        rw [if_neg hgot]
        exact ih hok
    | none =>
      rw [hs] at hok
      dsimp only at hok ⊢
      rw [Script.run_bind, run_tryGet, h.head]
      dsimp only [ChainRecords.ofChain]
      generalize (if (chain.head.count - last) % 2 ^ markPower = 0 then
        (chain.head.count - last) ^^^ 2 ^ markPower else chain.head.count - last) = n at hok ⊢
      split at hok
      · cases hok
      next hgot =>
      cases hok
      rw [if_neg hgot]
      rfl

theorem run_getRange (hpower : chain.markPower = markPower) {start stop : Nat}
    (hok : chain.getRange start stop = .ok hashes) :
    (getRange u c start stop).run (Layer.machine below) L = (.ok hashes, L) := by
  have hfreq : chain.markFreq = 2 ^ markPower := congrArg (2 ^ ·) hpower
  have hmin : (min (stop : Int) chain.head.count).toNat = min stop chain.head.count := by omega
  unfold Smt.Chain.getRange at hok
  split at hok
  · cases hok
  next hpossible =>
  rw [Int.toNat_natCast, hmin, hfreq] at hok
  unfold getRange
  rw [Script.run_bind, run_get, h.head]
  dsimp only [ChainRecords.ofChain]
  rw [if_neg (by omega)]
  dsimp only at hok
  split at hok
  · next hnone =>
    cases hok
    rw [if_pos hnone]
    rfl
  · next hsome =>
    obtain ⟨hl, hmarks, hok⟩ := Outcome.bind_eq_ok.1 hok
    rw [if_neg hsome, Script.run_bind, run_markHashes h hpower (by omega) hmarks]
    dsimp only
    split at hok
    · next hbound =>
      cases hok
      rw [if_neg (by omega)]
      rfl
    · cases hok

/-- `Entries` gives all the entries of a chain that was built by adding them, and changes
nothing. -/
theorem run_entries (hchain : chain.WellFormed combine) (hpower : chain.markPower = markPower) :
    (chainEntries u c chain.head.count 0 chain.head.count).run (Layer.machine below) L =
      (.ok chain.elements, L) := by
  unfold chainEntries
  rw [Nat.min_self, hchain.count]
  rw [if_neg (Nat.not_lt_zero _), Nat.sub_zero]
  by_cases hne : chain.elements = []
  · rw [hne]
    rfl
  have hpos := List.length_pos_iff.2 hne
  obtain ⟨n, hn⟩ : ∃ n, chain.elements.length = n + 1 := ⟨chain.elements.length - 1, by omega⟩
  -- the first range covers the whole chain
  have hrange : (getRange u c 0 chain.elements.length).run (Layer.machine below) L =
      (.ok chain.elements, L) := by
    refine run_getRange h hpower ?_
    have hcases := hchain.follows.getRange_cases (Smt.Chain.inSet_div _ 0) hpos hpos
    rw [List.take_length] at hcases
    exact hcases
  rw [hn]
  unfold entriesLoop
  rw [← hn, if_pos hpos, Script.run_bind, hrange]
  dsimp only
  rw [Nat.zero_add]
  cases n with
  | zero | succ n =>
    unfold entriesLoop
    rw [if_neg (lt_irrefl _)]
    rfl

end

end Run

end Records
end Accumulate.Database
