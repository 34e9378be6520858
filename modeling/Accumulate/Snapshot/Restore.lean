import Accumulate.Database.BptCommit
import Accumulate.Snapshot.Format

/-!
# Collecting and restoring accounts

`CollectAccount` of `internal/database/snapshot/records.go` and the `RestoreVisitor` of
`restore.go`. The visitor restores accounts into a batch that it commits from time to time.  The
entries of chains are added 10000 at a time, each lot in a batch of its own; in the end the hash
of the account has to be the one of the snapshot.

The order in which Go iterates over a map and the records that a batch has opened are parameters.
-/

namespace Accumulate.Snapshot

open Library Protocol Record Database Database.Records

/-! ## Collecting -/

/-- `loadState` with `allowMissing`. -/
def loadState (k : Key) : RecordM (Option k.Value) := do
  match ← tryGet k with
  | .ok v => pure (some v)
  | .error e => if e.is .notFound then pure none else throw e

def collectChains (lower : String → String) (u : Url) (fullChainHistory : Bool) :
    List Chain2 → RecordM (List Chain)
  | [] => pure []
  | metadata :: rest => do
      let chain ← collectChain lower u fullChainHistory metadata
      let chains ← collectChains lower u fullChainHistory rest
      return chain :: chains

/-- `CollectAccount`.  An error of the index of the chains is not looked at. -/
def collectAccount (lower : String → String) (u : Url) (fullChainHistory : Bool) :
    RecordM Account := do
  let main ← loadState (.account u .main)
  let pending ← loadState (.account u .pending)
  let directory ← loadState (.account u .directory)
  let index : List Chain2 :=
    match ← tryGet (.account u .chains) with
    | .ok index => index.1
    | .error _ => []
  let chains ← collectChains lower u fullChainHistory index
  return ⟨u, 0, main, chains, pending.getD [], directory.getD []⟩

/-! ## Restoring -/

/-- `Set.Put`: the members are sorted. -/
def sortSet {α : Type} (compare : α → α → Ordering) (l : List α) : List α :=
  l.mergeSort fun a b => (compare a b).isLE

def saveMain (u : Url) : Option Protocol.Account → RecordM Unit
  | some m => put (.account u .main) m
  | none => pure ()

def restoreAccount (a : Account) : RecordM Unit := do
  saveMain a.url a.main
  put (.account a.url .directory) (sortSet Url.compare a.directory)
  put (.account a.url .pending) (sortSet compareTxID a.pending)

def restoreHeads (lower : String → String) (u : Url) : List Chain → RecordM Unit
  | [] => pure ()
  | c :: rest => do
      let (mgr, _) ← getChainByName lower u c.name
      put (.account u (.chain mgr .head)) (⟨c.count, c.pending, []⟩ : Smt.MerkleState Hash)
      restoreHeads lower u rest

def chainEntryBatchSize : Nat := 10000

/-- Set the entries of a name in the map of the chains that have entries left. -/
def setEntries (m : List (String × List Hash)) (name : String) (entries : List Hash) :
    List (String × List Hash) :=
  (m.filter fun p => p.1 ≠ name) ++ [(name, entries)]

def chainsWithEntries (chains : List Chain) : List (String × List Hash) :=
  chains.foldl (fun m c => if c.entries = [] then m else setEntries m c.name c.entries) []

def nextChains (chains : List (String × List Hash)) : List (String × List Hash) :=
  chains.filterMap fun p =>
    if p.2.length > chainEntryBatchSize then some (p.1, p.2.drop chainEntryBatchSize) else none

/-- One round: at most 10000 entries of each chain. -/
def addRound (lower : String → String) (enc : Encoding) (u : Url) :
    List (String × List Hash) → RecordM Unit
  | [] => pure ()
  | (name, entries) :: rest => do
      let (mgr, _) ← getChainByName lower u name
      restoreEntries enc u mgr (entries.take chainEntryBatchSize)
      addRound lower enc u rest

def verifyHash (enc : Encoding) (u : Url) (hash : Hash) : RecordM Unit := do
  let h ← hashState enc u
  if hash = h then pure () else throw (.new .conflict "hash does not match")

/-- What `CompressChains` does to a chain. -/
def compressChain (combine : Hash → Hash → Hash) (c : Chain) : Chain :=
  let ms := c.entries.foldl (Smt.MerkleState.addToMerkleTree combine) ⟨c.count, c.pending, []⟩
  { c with count := ms.count, pending := ms.pending, entries := [] }

/-! ## The visitor -/

structure RestoreVisitor where
  disableWriteBatching : Bool
  compressChains : Bool

/-- The order in which a map is iterated over, and the records of a batch. -/
structure Runtime where
  order : List (String × List Hash) → List (String × List Hash)
  opened : DbBatch → List Opened

/-- What the visitor does to its batch and to the database. -/
abbrev VisitM (α : Type) : Type := StateT DbState (Except Error) α

section Visitor

variable (enc : Encoding) (lower : String → String) (rt : Runtime)

def onBatch {α : Type} (p : RecordM α) : VisitM α := fun s =>
  match s.batch with
  | none => .error (.plain "invalid memory address or nil pointer dereference")
  | some b =>
    match p.run (Batch.machine enc.schema s.db) b with
    | (.ok a, b') => .ok (a, { s with batch := some b' })
    | (.error e, _) => .error e

def commitBatch : VisitM Unit := fun s =>
  match s.batch with
  | none => .ok ((), s)
  | some b =>
    match State.commit enc.schema ((rt.opened b).map (Opened.part enc)) b s with
    | (.ok _, s') => .ok ((), s')
    | (.error e, _) => .error e

def refreshBatch : VisitM Unit := do
  commitBatch enc rt
  modify fun s => { s with batch := some (.root (.new true)) }

def visit (v : RestoreVisitor) (i threshold : Nat) (force : Bool) : VisitM Unit := do
  let s ← get
  if force || s.batch.isNone || (i % threshold = 0 && !v.disableWriteBatching) then
    refreshBatch enc rt
  else pure ()

/-- What is left to be done, with one for each chain. -/
def workLeft (chains : List (String × List Hash)) : Nat :=
  (chains.map fun p => p.2.length + 1).sum

theorem workLeft_nextChains_le (chains : List (String × List Hash)) :
    workLeft (nextChains chains) + chains.length ≤ workLeft chains := by
  induction chains with
  | nil => exact Nat.le_refl 0
  | cons p rest ih =>
    unfold workLeft nextChains at ih ⊢
    rw [List.filterMap_cons]
    split
    · simp only [List.map_cons, List.sum_cons, List.length_cons]
      omega
    rename_i q hq
    have hq : q.2.length + 1 ≤ p.2.length := by
      split at hq
      · cases hq
        have hpos : 0 < chainEntryBatchSize := by decide
        simp only [List.length_drop]
        omega
      · exact absurd hq nofun
    simp only [List.map_cons, List.sum_cons, List.length_cons]
    omega

theorem workLeft_nextChains_lt {chains : List (String × List Hash)} (h : chains ≠ []) :
    workLeft (nextChains chains) < workLeft chains := by
  have hle := workLeft_nextChains_le chains
  have hpos := List.length_pos_of_ne_nil h
  omega

/-- The loop that adds the entries. -/
def addRounds (u : Url) (chains : List (String × List Hash)) : VisitM Unit :=
  if _h : chains = [] then pure ()
  else do
    onBatch enc (addRound lower enc u (rt.order chains))
    refreshBatch enc rt
    addRounds u (nextChains chains)
termination_by workLeft chains
decreasing_by exact workLeft_nextChains_lt _h

def endVisit : VisitM Unit := do
  commitBatch enc rt
  modify fun s => { s with batch := none }

def visitAccount (v : RestoreVisitor) (acct : Option Account) (i : Nat) : VisitM Unit :=
  match acct with
  | none => endVisit enc rt
  | some acct => do
      let chains :=
        if v.compressChains then acct.chains.map (compressChain enc.combine) else acct.chains
      let needsOwnBatch := chains.any fun c => 0 < c.entries.length
      visit enc rt v i 10000 needsOwnBatch
      onBatch enc (restoreAccount acct)
      onBatch enc (restoreHeads lower acct.url chains)
      addRounds enc lower rt acct.url (chainsWithEntries chains)
      onBatch enc (verifyHash enc acct.url acct.hash)

end Visitor

end Accumulate.Snapshot
