import Accumulate.Database.ChainEntries

/-!
# Snapshots of chains

The chains of `internal/database/snapshot/records.go`.  A snapshot holds a chain either with all its
entries, or with its head only, without the list of the latest hashes.
-/

namespace Accumulate.Snapshot

open Library Protocol Record Database Database.Records

/-! ## Chains by name -/

section ChainByName

-- `strings.ToLower`
variable (lower : String → String)

def parseChainName (name : String) : Except Error (Option ChainName) :=
  if name = "main" then .ok (some .main)
  else if name = "signature" then .ok (some .signature)
  else if name = "scratch" then .ok (some .scratch)
  else if name = "root" then .ok (some .root)
  else if name = "anchor-sequence" then .ok (some .anchorSequence)
  else if name = "major-block" then .ok (some .majorBlock)
  else
    let runes := name.toList
    let i := runes.idxOf '('
    let j := runes.idxOf ')'
    if i = runes.length ∨ j = runes.length then .ok none
    else if j < i + 1 then .error (.plain "slice bounds out of range")
    else
      let arg := lower (String.ofList ((runes.take j).drop (i + 1)))
      let kind := String.ofList (runes.take i)
      let rest := String.ofList (runes.drop (j + 1))
      if kind = "anchor" then
        if rest = "-root" then .ok (some (.anchorRoot arg))
        else if rest = "-bpt" then .ok (some (.anchorBpt arg))
        else .ok none
      else if kind = "synthetic-sequence" then .ok (some (.syntheticSequence arg))
      else .ok none

def chainByName (name : String) : Except Error Chain2 :=
  let runes := (lower name).toList
  let isIndex := "-index".toList.isSuffixOf runes
  let base := String.ofList (if isIndex then runes.take (runes.length - 6) else runes)
  match parseChainName lower base with
  | .error e => .error e
  | .ok none => .error (.notFound s!"account chain {base} not found")
  | .ok (some c) =>
    if h : isIndex = true → c.type ≠ .index then .ok ⟨c, isIndex, h⟩
    else .error (.plain "cannot index an index chain")

/-- `Account.GetChainByName`: the chain, with its head. -/
def getChainByName (u : Url) (name : String) : RecordM (Chain2 × Smt.MerkleState Hash) :=
  match chainByName lower name with
  | .error e => throw e
  | .ok c => do
      let head ← openChain u c
      return (c, head)

end ChainByName

/-! ## Snapshots -/

def chainType (c : Chain2) : ChainType := if c.isIndex then .index else c.chain.type

structure Chain where
  name : String
  type : ChainType
  count : Nat
  pending : List (Option Hash)
  entries : List Hash

section Chain

variable (lower : String → String)

/-- The loop of `CollectAccount` over the chains. -/
def collectChain (u : Url) (fullChainHistory : Bool) (metadata : Chain2) : RecordM Chain := do
  let (chain, state) ← getChainByName lower u metadata.name
  if fullChainHistory then
    let entries ← chainEntries u chain state.count 0 state.count
    return ⟨metadata.name, chainType metadata, 0, [], entries⟩
  else return ⟨metadata.name, chainType metadata, state.count, state.pending, []⟩

def restoreEntries (enc : Encoding) (u : Url) (c : Chain2) : List Hash → RecordM Unit
  | [] => pure ()
  | entry :: rest => do
      addHash enc u c entry false
      restoreEntries enc u c rest

end Chain

/-! ## What the programs do -/

def exec {α : Type} (p : RecordM α) (w : View) : Except Error (α × View) :=
  match p.run (Layer.machine w) (Layer.new true) with
  | (.ok a, L) => .ok (a, L.contents w)
  | (.error e, _) => .error e

/-- A sequence of `Chain.AddEntry` calls, each of which opens the chain. -/
def addEntries (enc : Encoding) (u : Url) (c : Chain2) : List (Hash × Bool) → RecordM Unit
  | [] => pure ()
  | (entry, unique) :: rest => do
      addChainEntry enc u c entry unique
      addEntries enc u c rest

/-- The snapshot of a chain that has all its elements. -/
def snapshotOf (c : Chain2) (fullChainHistory : Bool) (chain : Smt.Chain Hash) : Chain :=
  if fullChainHistory then ⟨c.name, chainType c, 0, [], chain.elements⟩
  else ⟨c.name, chainType c, chain.head.count, chain.head.pending, []⟩

theorem snapshotOf_name (c : Chain2) (full : Bool) (chain : Smt.Chain Hash) :
    (snapshotOf c full chain).name = c.name := by
  unfold snapshotOf
  split <;> rfl

/-- The records of a chain that is restored from a snapshot. -/
def Chain.records (combine : Hash → Hash → Hash) (s : Chain) : ChainRecords :=
  (ChainRecords.ofHead ⟨s.count, s.pending, []⟩).addHashes combine
    (s.entries.map fun e => (e, false))

/-- The index of the chains can be read. -/
def HasIndex (w : View) (u : Url) : Prop := ∃ index : ChainIndex, w (.account u .chains) = .ok index

section Run

variable {below w : View} {L : DbLayer} {u : Url} {c : Chain2}
  {r : ChainRecords} (enc : Encoding)

theorem exec_eq_ok {α : Type} {p : RecordM α} {a : α} {L' : DbLayer}
    (h : p.run (Layer.machine w) (Layer.new true) = (.ok a, L')) :
    exec p w = .ok (a, L'.contents w) := by
  rw [exec, h]

theorem run_addEntries (h : HasChain (L.contents below) u c r)
    (hindex : HasIndex (L.contents below) u) (calls : List (Hash × Bool)) :
    ∃ L', (addEntries enc u c calls).run (Layer.machine below) L = (.ok (), L') ∧
      HasChain (L'.contents below) u c (r.addHashes enc.combine calls) ∧
      HasIndex (L'.contents below) u := by
  induction calls generalizing L r with
  | nil => exact ⟨L, rfl, h, hindex⟩
  | cons call calls ih =>
    obtain ⟨index, hindex⟩ := hindex
    obtain ⟨L₁, index', hadd, hchain, hindex'⟩ := run_addChainEntry enc h hindex call.1 call.2
    obtain ⟨L', hrest, hend⟩ := ih hchain ⟨index', hindex'⟩
    refine ⟨L', ?_, hend⟩
    show ((addChainEntry enc u c call.1 call.2) >>= fun _ => addEntries enc u c calls).run _ _ = _
    rw [Script.run_bind, hadd]
    exact hrest

theorem run_restoreEntries (h : HasChain (L.contents below) u c r) (entries : List Hash) :
    ∃ L', (restoreEntries enc u c entries).run (Layer.machine below) L = (.ok (), L') ∧
      HasChain (L'.contents below) u c
        (r.addHashes enc.combine (entries.map fun e => (e, false))) := by
  induction entries generalizing L r with
  | nil => exact ⟨L, rfl, h⟩
  | cons entry entries ih =>
    obtain ⟨L₁, hadd, hchain⟩ := run_addHash enc h entry false
    obtain ⟨L', hrest, hend⟩ := ih hchain
    refine ⟨L', ?_, hend⟩
    unfold restoreEntries
    rw [Script.run_bind, hadd]
    exact hrest

theorem putsIn_restoreEntries {P : Url × Hash → Prop} (c : Chain2) (entries : List Hash) :
    (restoreEntries enc u c entries).PutsIn (OfChain u c) P := by
  induction entries with
  | nil => exact putsIn_pure _
  | cons entry entries ih => exact (putsIn_addHash enc c entry false).bind fun _ => ih

end Run

/-! ## Chains that are built -/

section Built

variable (combine : Hash → Hash → Hash)

/-- The chain that a sequence of calls builds. -/
def builtChain (calls : List (Hash × Bool)) : Smt.Chain Hash :=
  (Smt.Chain.new markPower).addHashes combine calls

variable (calls : List (Hash × Bool))

theorem wellFormed_builtChain : (builtChain combine calls).WellFormed combine :=
  (Smt.Chain.wellFormed_new combine (by decide)).addHashes calls

theorem ofChain_builtChain :
    ChainRecords.ofChain (builtChain combine calls) = ChainRecords.empty.addHashes combine calls :=
  (ChainRecords.ofChain_addHashes (Smt.Chain.wellFormed_new combine (by decide)) rfl calls).symm

end Built

theorem hasChain_fetch {enc : Encoding} {store : Key → Option Bytes} {u : Url} {c : Chain2}
    (h : ∀ k, OfChain u c k → store k = none) : HasChain (enc.schema.fetch store) u c .empty := by
  have hfield : ∀ f, store (.account u (.chain c f)) = none := fun f =>
    h (.account u (.chain c f)) ⟨rfl, rfl⟩
  refine ⟨?_, fun i => ?_, fun k => ?_, fun i => ?_⟩
  · simp only [Schema.fetch, hfield]
    rfl
  · simp only [Schema.fetch, hfield]
    exact ⟨_, rfl, rfl⟩
  · simp only [Schema.fetch, hfield]
    exact ⟨_, rfl, rfl⟩
  · simp only [Schema.fetch, hfield]
    exact ⟨_, rfl, rfl⟩

end Accumulate.Snapshot
