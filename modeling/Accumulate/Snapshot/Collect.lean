import Accumulate.Snapshot.Restore

/-!
# What is collected of an account

An account with chains that were built by adding their entries, and its snapshot with or without the
history of the chains.
-/

namespace Accumulate.Snapshot

open Library Protocol Record Database Database.Records

/-- The contents of an account.  Each chain of its index was built by a sequence of calls. -/
structure Contents where
  main : Option Protocol.Account
  pending : List TxID
  directory : List Url
  index : ChainIndex
  calls : Chain2 → List (Hash × Bool)

def Contents.chain (enc : Encoding) (a : Contents) (c : Chain2) : Smt.Chain Hash :=
  builtChain enc.combine (a.calls c)

/-- The records of the account hold the given contents. -/
structure HasAccount (enc : Encoding) (w : View) (u : Url) (a : Contents) : Prop where
  main : Reads (w (.account u .main)) a.main
  pending : w (.account u .pending) = .ok a.pending
  directory : w (.account u .directory) = .ok a.directory
  chains : w (.account u .chains) = .ok a.index
  chain : ∀ c ∈ a.index.1, HasChain w u c (.ofChain (a.chain enc c))

/-- The chains of the account can be opened by their names. -/
def Contents.Named (lower : String → String) (a : Contents) : Prop :=
  ∀ c ∈ a.index.1, chainByName lower c.name = .ok c

def Contents.snapshot (enc : Encoding) (u : Url) (full : Bool) (a : Contents) : Account where
  url := u
  hash := 0
  main := a.main
  chains := a.index.1.map fun c => snapshotOf c full (a.chain enc c)
  pending := a.pending
  directory := a.directory

section Built

variable {combine : Hash → Hash → Hash}

theorem builtChain_markPower (calls : List (Hash × Bool)) :
    (builtChain combine calls).markPower = markPower :=
  Smt.Chain.addHashes_markPower _ _

theorem head_eq_of_elements {c c' : Smt.Chain Hash} (hc : c.WellFormed combine)
    (hc' : c'.WellFormed combine) (hpower : c.markPower = c'.markPower)
    (helements : c.elements = c'.elements) : c.head = c'.head := by
  have hcount : c.head.count = c'.head.count := by rw [hc.count, hc'.count, helements]
  have hpending : c.head.pending = c'.head.pending := by rw [hc.pending, hc'.pending, helements]
  have hlist : c.head.hashList = c'.head.hashList := by
    rw [hc.hashList, hc'.hashList, helements, Smt.Chain.markFreq, Smt.Chain.markFreq, hpower]
  cases hhead : c.head
  cases hhead' : c'.head
  rw [hhead, hhead'] at hcount hpending hlist
  cases hcount
  cases hpending
  cases hlist
  rfl

def rebuiltChain (combine : Hash → Hash → Hash) (elements : List Hash) : Smt.Chain Hash :=
  builtChain combine (elements.map fun e => (e, false))

theorem rebuiltChain_elements (elements : List Hash) :
    (rebuiltChain combine elements).elements = elements :=
  Smt.Chain.addHashes_elements (Smt.Chain.new markPower) elements

theorem rebuiltChain_head (calls : List (Hash × Bool)) :
    (rebuiltChain combine (builtChain combine calls).elements).head =
      (builtChain combine calls).head :=
  head_eq_of_elements (wellFormed_builtChain combine _) (wellFormed_builtChain combine calls)
    ((builtChain_markPower _).trans (builtChain_markPower calls).symm) (rebuiltChain_elements _)

/-- What is restored of a chain has its head, but for the list of the latest hashes. -/
theorem sameHead_records (c : Chain2) (full : Bool) (calls : List (Hash × Bool)) :
    ChainRecords.SameHead (.ofChain (builtChain combine calls))
      ((snapshotOf c full (builtChain combine calls)).records combine) := by
  cases full with
  | true =>
    have hhead : ((snapshotOf c true (builtChain combine calls)).records combine).head =
        (builtChain combine calls).head := by
      rw [← rebuiltChain_head calls]
      exact congrArg ChainRecords.head (ofChain_builtChain combine _).symm
    rw [ChainRecords.SameHead, hhead]
    exact ⟨rfl, rfl⟩
  | false => exact ⟨rfl, rfl⟩

theorem compressChain_snapshotOf (c : Chain2) (full : Bool) (calls : List (Hash × Bool)) :
    compressChain combine (snapshotOf c full (builtChain combine calls)) =
      snapshotOf c false (builtChain combine calls) := by
  have hchain := wellFormed_builtChain combine calls
  cases full with
  | false => rfl
  | true =>
    have hcount := Smt.MerkleState.foldl_addToMerkleTree_count combine
      (builtChain combine calls).elements .empty
    have hpending := Smt.MerkleState.foldl_addToMerkleTree_empty_pending combine
      (builtChain combine calls).elements
    rw [← hchain.pending] at hpending
    rw [Smt.MerkleState.empty, Nat.zero_add, ← hchain.count] at hcount
    exact congrArg₂ (Chain.mk c.name (chainType c) · · []) hcount hpending

end Built

/-! ## Chains of the index -/

section Run

variable {enc : Encoding} {lower : String → String} {below : View} {L : DbLayer} {u : Url}
  {c : Chain2} {r : ChainRecords} {index : ChainIndex} {a : Contents}

section

variable (hindex : L.contents below (.account u .chains) = .ok index)

include hindex

theorem run_openChain_mem (hc : c ∈ index.1) (h : HasChain (L.contents below) u c r) :
    (openChain u c).run (Layer.machine below) L = (.ok r.head, L) := by
  unfold openChain
  rw [Script.run_bind, run_get, hindex]
  dsimp only
  rw [if_pos (found_of_mem hc), run_get, h.head]

theorem run_getChainByName_mem (hname : chainByName lower c.name = .ok c) (hc : c ∈ index.1)
    (h : HasChain (L.contents below) u c r) :
    (getChainByName lower u c.name).run (Layer.machine below) L = (.ok (c, r.head), L) := by
  unfold getChainByName
  rw [hname]
  rw [Script.run_bind, run_openChain_mem hindex hc h]
  rfl

theorem run_collectChain_mem (hname : chainByName lower c.name = .ok c) (hc : c ∈ index.1)
    {calls : List (Hash × Bool)}
    (h : HasChain (L.contents below) u c (.ofChain (builtChain enc.combine calls))) (full : Bool) :
    (collectChain lower u full c).run (Layer.machine below) L =
      (.ok (snapshotOf c full (builtChain enc.combine calls)), L) := by
  unfold collectChain snapshotOf
  rw [Script.run_bind, run_getChainByName_mem hindex hname hc h]
  cases full with
  | true =>
    show (chainEntries u c (builtChain enc.combine calls).head.count 0
      (builtChain enc.combine calls).head.count >>= _).run _ _ = _
    rw [Script.run_bind,
      run_entries h (wellFormed_builtChain enc.combine calls) (builtChain_markPower calls)]
    rfl
  | false => rfl

end

theorem run_collectChains (hnamed : a.Named lower) (h : HasAccount enc (L.contents below) u a)
    (full : Bool) {cs : List Chain2} (hcs : ∀ c ∈ cs, c ∈ a.index.1) :
    (collectChains lower u full cs).run (Layer.machine below) L =
      (.ok (cs.map fun c => snapshotOf c full (a.chain enc c)), L) := by
  induction cs with
  | nil => rfl
  | cons c cs ih =>
    obtain ⟨hc, hrest⟩ := List.forall_mem_cons.1 hcs
    unfold collectChains
    rw [Script.run_bind, run_collectChain_mem h.chains (hnamed c hc) hc (h.chain c hc) full]
    dsimp only
    rw [Script.run_bind, ih hrest]
    rfl

theorem run_loadState {k : Key} {v : Option k.Value} (h : Reads (L.contents below k) v) :
    (loadState k).run (Layer.machine below) L = (.ok v, L) := by
  unfold loadState
  rw [Script.run_bind, run_tryGet]
  cases v with
  | some v =>
    rw [show L.contents below k = .ok v from h]
    rfl
  | none =>
    obtain ⟨e, he, hmissing⟩ := h
    rw [he]
    dsimp only
    rw [if_pos hmissing]
    rfl

theorem run_collectAccount (hnamed : a.Named lower) (h : HasAccount enc (L.contents below) u a)
    (full : Bool) : (collectAccount lower u full).run (Layer.machine below) L =
      (.ok (a.snapshot enc u full), L) := by
  have hpending : Reads (L.contents below (.account u .pending)) (some a.pending) := h.pending
  have hdirectory : Reads (L.contents below (.account u .directory)) (some a.directory) :=
    h.directory
  unfold collectAccount
  rw [Script.run_bind, run_loadState h.main]
  dsimp only
  rw [Script.run_bind, run_loadState hpending]
  dsimp only
  rw [Script.run_bind, run_loadState hdirectory]
  dsimp only
  rw [Script.run_bind, run_tryGet, h.chains]
  dsimp only
  rw [Script.run_bind, run_collectChains hnamed h full fun _ hc => hc]
  rfl

end Run

end Accumulate.Snapshot
