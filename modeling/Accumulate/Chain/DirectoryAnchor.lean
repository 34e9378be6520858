import Accumulate.Chain.Anchors
import Accumulate.Protocol.Ledger

/-!
# Anchors of the directory

`internal/chain/directory_anchor.go`: the executor of an anchor that the directory sends to a
partition.  It records the anchor and, on a partition other than the directory itself,
schedules the pushed updates of network accounts and the synthetic transactions that have
been waiting for the anchor or for one of the anchors it has a receipt for.  It also notes
what the other side has acknowledged.
-/

namespace Accumulate

open Library Protocol Database Accumulate.Core

def Protocol.PartitionAnchor.synthFrom (a : PartitionAnchor) (u : Url) :
    TransactionExchangeLedger :=
  if found a.synthetic (·.url.compare u) then
    (a.synthetic[search a.synthetic (·.url.compare u)]?).getD ⟨u, 0, 0, 0, 0, []⟩
  else ⟨u, 0, 0, 0, 0, []⟩

/-- `path.Join` of a root and a name: empty and `.` elements are dropped, `..` removes the
element before it. -/
def Core.Describe.cleanPath (name : String) : List String :=
  (name.splitOn "/").foldl (fun path element =>
    if element = "" ∨ element = "." then path
    else if element = ".." then path.dropLast
    else path ++ [element]) []

namespace Chain
namespace DirectoryAnchor

variable (c : Crypto) (describe : Describe)

/-! ## Pushed updates -/

/-- The account an update is for. -/
def updateTarget (name : String) : Url :=
  if name = "operators" then describe.operatorsPage
  else describe.nodeUrl (Describe.cleanPath name)

def updateTransaction (update : NetworkAccountUpdate) : Transaction :=
  ⟨⟨some (updateTarget describe update.name), 0, "", []⟩, update.body⟩

def processNetworkAccountUpdates (d : Delivery) :
    List NetworkAccountUpdate → Proc StateManager Error Unit
  | [] => pure ()
  | update :: rest => do
      let delivery ← Proc.lift (d.newInternal c (updateTransaction describe update))
      Proc.modify fun st => { st with state := st.state.processAdditionalTransaction delivery }
      processNetworkAccountUpdates d rest

/-! ## Acknowledgements -/

/-- The two ledgers while the receipts of an anchor are gone through. -/
structure Acknowledgement where
  anchor : AnchorLedger
  synthetic : SyntheticLedger
  didUpdateAnchor : Bool
  didUpdateSynth : Bool

/-- Another partition has received an anchor of this one. -/
def Acknowledgement.anchorReceived (l : Acknowledgement) (source : Url) (sequenceNumber : Nat) :
    Acknowledgement :=
  let ledger := partitionLedger l.anchor.exchange source
  if ledger.acknowledged < sequenceNumber then
    let updated := { ledger with acknowledged := sequenceNumber }
    let exchange := setPartitionLedger l.anchor.exchange updated
    { l with anchor := { l.anchor with exchange := exchange }, didUpdateAnchor := true }
  else l

/-- Another partition has executed synthetic transactions of this one. -/
def Acknowledgement.syntheticDelivered (l : Acknowledgement) (source : Url) (delivered : Nat) :
    Acknowledgement :=
  let ledger := partitionLedger l.synthetic.exchange source
  if ledger.acknowledged < delivered then
    let updated := { ledger with acknowledged := delivered }
    let exchange := setPartitionLedger l.synthetic.exchange updated
    { l with synthetic := { l.synthetic with exchange := exchange }, didUpdateSynth := true }
  else l

def acknowledgeReceipts (source : Url) :
    List PartitionAnchorReceipt → Acknowledgement → Outcome Error Acknowledgement
  | [], l => .ok l
  | receipt :: rest, l =>
    match receipt.anchor.source with
    | none => .panic "nil URL"
    | some received =>
      let l := if describe.nodeUrl [] = received then
        l.anchorReceived source receipt.sequenceNumber else l
      acknowledgeReceipts source rest (l.syntheticDelivered received
        (receipt.anchor.synthFrom (describe.nodeUrl [])).delivered)

def putMain (u : Url) (a : Account) (st : StateManager) : StateManager :=
  { st with
    batch := st.batch.setMain u a
    written := st.written ++ [u]
    touched := st.touched ++ [u] }

def acknowledge (source : Url) (receipts : List PartitionAnchorReceipt) :
    Proc StateManager Error Unit := do
  let anchor ← Proc.query fun st =>
    (st.batch.getStateAs describe.anchorPool asAnchorLedger).mapError
    (.plainWrap "load anchor ledger")
  let synthetic ← Proc.query fun st =>
    (st.batch.getStateAs describe.synthetic asSyntheticLedger).mapError
      (.plainWrap "load anchor ledger")
  let l ← Proc.lift (acknowledgeReceipts describe source receipts ⟨anchor, synthetic, false, false⟩)
  Proc.when l.didUpdateAnchor
    (Proc.modify (putMain describe.anchorPool (.anchorLedger l.anchor)))
  Proc.when l.didUpdateSynth
    (Proc.modify (putMain describe.synthetic (.syntheticLedger l.synthetic)))

/-! ## Receipts -/

/-- The loop of `processReceiptsFromDirectory`: the transactions that have been waiting for
an anchor the directory has a receipt for, each with the receipt. -/
def loadReceipts (db : Database) (d : Delivery) (source : Url) (anchor : Hash) :
    List PartitionAnchorReceipt → Outcome Error (List (Int × Delivery))
  | [] => .ok []
  | receipt :: rest =>
    if receipt.rootChainReceipt.anchor ≠ anchor then
      .error (.plain "receipt is invalid: result does not match the anchor")
    else do
      let deliveries ← loadSynthTxns db
        (fun txid => d.newSyntheticReceipt txid.hash source receipt.rootChainReceipt)
        ((db.account describe.ledger).syntheticForAnchor receipt.rootChainReceipt.start)
      let others ← loadReceipts db d source anchor rest
      return deliveries ++ others

def processReceiptsFromDirectory (d : Delivery) (source : Url) (body : PartitionAnchor)
    (receipts : List PartitionAnchorReceipt) : Proc StateManager Error Unit := do
  let st ← Proc.get
  let waiting ← Proc.lift (loadSynthTxns st.batch
    (fun txid => d.newSyntheticFromSequence txid.hash)
    ((st.batch.account describe.ledger).syntheticForAnchor body.rootChainAnchor))
  let received ← Proc.lift
    (loadReceipts describe st.batch d source body.rootChainAnchor receipts)
  Proc.modify (StateManager.submitDeliveries (waiting ++ received))

/-! ## The executor -/

def receive (d : Delivery) (source : Url) (body : PartitionAnchor)
    (updates : List NetworkAccountUpdate) (receipts : List PartitionAnchorReceipt)
    (makeMajorBlock : Nat) : Proc StateManager Error (Option TransactionResult) := do
  Proc.when (describe.networkType ≠ .directory) (Proc.modify fun st =>
    { st with state := { st.state with makeMajorBlock := makeMajorBlock } })
  Proc.modify (StateManager.recordAnchor c directory body)
  Proc.when (describe.networkType ≠ .directory)
    (processNetworkAccountUpdates c describe d updates)
  acknowledge describe source receipts
  Proc.when (describe.networkType ≠ .directory)
    (processReceiptsFromDirectory describe d source body receipts)
  return none

def execute (d : Delivery) : Proc StateManager Error (Option TransactionResult) := do
  match d.transaction.body with
  | .directoryAnchor body updates receipts makeMajorBlock =>
    let st ← Proc.get
    match st.origin with
    | none => Proc.abort "nil account"
    | some (.anchorLedger _) =>
      match body.source with
      | none => Proc.abort "nil URL"
      | some source =>
        if !isDnUrl source then Proc.throw (.plain "invalid source: not the DN")
        else receive c describe d source body updates receipts makeMajorBlock
    | some _ => Proc.throw (.plain "invalid principal: want anchorLedger")
  | _ => Proc.throw (.plain "invalid payload")

/-! ### Errors -/

theorem raises_processNetworkAccountUpdates (d : Delivery) (updates : List NetworkAccountUpdate) :
    Proc.Raises Error.Failing (processNetworkAccountUpdates c describe d updates) := by
  induction updates with
  | nil => exact .pure _
  | cons update rest ih =>
    refine .bind (.lift fun e h => ?_) fun delivery =>
      .bind (.modify _) fun _ => ih
    unfold Delivery.newInternal at h
    split at h
    · cases h
    · cases h

variable (receipts : List PartitionAnchorReceipt)

theorem raises_acknowledgeReceipts (source : Url) (l : Acknowledgement) :
    Outcome.Raises Error.Failing (acknowledgeReceipts describe source receipts l) := by
  induction receipts generalizing l with
  | nil => exact .ok _
  | cons receipt rest ih =>
    unfold acknowledgeReceipts
    split
    · exact .panic _
    · exact ih _

theorem raises_acknowledge (source : Url) :
    Proc.Raises Error.Failing (acknowledge describe source receipts) := by
  refine Proc.Raises.bind (Proc.Raises.query fun st => Outcome.Raises.mapError
    raises_getStateAs fun e he => he.plainWrap _) fun anchor => ?_
  refine Proc.Raises.bind (Proc.Raises.query fun st => Outcome.Raises.mapError
    raises_getStateAs fun e he => he.plainWrap _) fun synthetic => ?_
  refine .bind (.lift (raises_acknowledgeReceipts _ _ _ _)) fun l => ?_
  exact .bind (.when _ (.modify _)) fun _ =>
    .when _ (.modify _)

theorem raises_loadReceipts (db : Database) (d : Delivery) (source : Url) (anchor : Hash) :
    Outcome.Raises Error.Failing (loadReceipts describe db d source anchor receipts) := by
  induction receipts with
  | nil => exact .ok _
  | cons receipt rest ih =>
    refine .ite (.error rfl) ?_
    exact (raises_loadSynthTxns _ _ _).bind fun _ => ih.bind fun _ => .ok _

theorem raises_execute (d : Delivery) : Proc.Raises Error.Failing (execute c describe d) := by
  unfold execute
  split
  · refine .bind .get fun st => ?_
    split
    · exact .abort _
    · split
      · exact .abort _
      · refine .ite (fun _ => .throw rfl) fun _ => ?_
        refine .bind (.when _ (.modify _)) fun _ => ?_
        refine .bind (.modify _) fun _ => ?_
        refine .bind (.when _
          (raises_processNetworkAccountUpdates c describe d _)) fun _ => ?_
        refine .bind (raises_acknowledge _ _ _) fun _ => ?_
        refine .bind (.when _ ?_) fun _ => .pure _
        refine .bind .get fun st => ?_
        refine .bind (.lift (raises_loadSynthTxns _ _ _)) fun _ => ?_
        exact .bind (.lift (raises_loadReceipts _ _ _ _ _ _)) fun _ =>
          .modify _
    · exact .throw rfl
  · exact .throw rfl

def executor : TransactionExecutor := .plain (execute c describe) (raises_execute c describe)

end DirectoryAnchor

/-! ## Anchors produce nothing -/

namespace StateManager

/-- Nothing has been produced and no record of a transaction has been written. -/
structure SameTransactions (st st' : StateManager) : Prop where
  produced : st'.state.producedTxns = st.state.producedTxns
  transaction : st'.batch.transaction = st.batch.transaction

instance : Std.Refl SameTransactions := ⟨fun _ => ⟨rfl, rfl⟩⟩

instance : IsTrans StateManager SameTransactions where
  trans _ _ _ hab hbc :=
    ⟨hbc.produced.trans hab.produced, hbc.transaction.trans hab.transaction⟩

variable (c : Crypto) (st : StateManager)

theorem sameTransactions_addChainEntry (u : Url) (name : ChainName) (entry : Hash) :
    SameTransactions st (st.addChainEntry c u name entry) :=
  ⟨rfl, (waiting_addChainEntry c.combine st.batch st.state.chainUpdates u name entry).1⟩

theorem sameTransactions_recordAnchor (name : String) (body : PartitionAnchor) :
    SameTransactions st (st.recordAnchor c name body) := by
  apply trans_of SameTransactions _ (sameTransactions_addChainEntry c _ _ _ _)
  exact ⟨rfl, (waiting_addChainEntry c.combine st.batch st.state.chainUpdates _ _ _).1⟩

theorem sameTransactions_submitDeliveries (l : List (Int × Delivery)) :
    SameTransactions st (st.submitDeliveries l) := by
  refine ⟨?_, rfl⟩
  have hfold : ∀ (ds : List Delivery) (s : ProcessTransactionState),
      (ds.foldl ProcessTransactionState.processAdditionalTransaction s).producedTxns =
        s.producedTxns := by
    intro ds
    induction ds with
    | nil => exact fun _ => rfl
    | cons d rest ih => exact fun s => ih _
  exact hfold _ _

theorem keeps_sameTransactions_update (a : Account) : Proc.Keeps SameTransactions (update c a) :=
  keeps_update (keeps_putState fun _ => ⟨rfl, rfl⟩) fun st =>
    sameTransactions_addChainEntry c st _ _ _

theorem keeps_sameTransactions_executeOperations (ops : List AddDataEntry) :
    Proc.Keeps SameTransactions (executeOperations c ops) := by
  induction ops with
  | nil => exact .pure _
  | cons op rest ih =>
    refine .bind (.bind ?_ fun _ => ?_) fun _ => ih
    · refine .bind .get fun st => ?_
      split
      · exact keeps_putState fun _ => ⟨rfl, rfl⟩
      · exact .pure _
    · exact .bind (.modify fun st => ⟨rfl, rfl⟩) fun _ =>
        .modify fun st => sameTransactions_addChainEntry c st _ _ _

end StateManager

section Frames

open StateManager

variable (c : Crypto) (describe : Describe) (d : Delivery)

theorem PartitionAnchor.keeps_sameTransactions_execute :
    Proc.Keeps SameTransactions (PartitionAnchor.execute c describe d) := by
  have hwaiting : ∀ body, Proc.Keeps SameTransactions (scheduleWaiting describe d body) := by
    intro body
    refine .bind .get fun st => .bind (.lift _) fun l => ?_
    exact .modify fun st => sameTransactions_submitDeliveries st l
  unfold execute
  split
  · refine .bind .get fun st => ?_
    split
    · exact .abort _
    · split
      · exact .abort _
      · split
        · exact .throw _
        · refine .bind (keeps_returnBurnt (keeps_sameTransactions_update c) _) fun _ => ?_
          refine .bind (.modify fun st => sameTransactions_recordAnchor c st _ _)
            fun _ => ?_
          refine .ite (.bind ?_ fun _ => .pure _) (.bind (hwaiting _) fun _ => .pure _)
          exact keeps_completeMajorBlock (keeps_sameTransactions_update c)
            (fun _ _ => ⟨rfl, rfl⟩) (fun _ _ => ⟨rfl, rfl⟩) _ _
    · exact .throw _
  · exact .throw _

namespace DirectoryAnchor

theorem keeps_sameTransactions_updates (updates : List NetworkAccountUpdate) :
    Proc.Keeps SameTransactions (processNetworkAccountUpdates c describe d updates) := by
  induction updates with
  | nil => exact .pure _
  | cons update rest ih =>
    refine .bind (.lift _) fun delivery => ?_
    exact .bind (.modify fun st => ⟨rfl, rfl⟩) fun _ => ih

theorem keeps_sameTransactions_acknowledge (source : Url) (receipts : List PartitionAnchorReceipt) :
    Proc.Keeps SameTransactions (acknowledge describe source receipts) := by
  refine .bind (.query _) fun anchor => ?_
  refine .bind (.query _) fun synthetic => ?_
  refine .bind (.lift _) fun l => ?_
  exact .bind (.when _ (.modify fun st => ⟨rfl, rfl⟩)) fun _ =>
    .when _ (.modify fun st => ⟨rfl, rfl⟩)

theorem keeps_sameTransactions_execute : Proc.Keeps SameTransactions (execute c describe d) := by
  unfold execute
  split
  · refine .bind .get fun st => ?_
    split
    · exact .abort _
    · split
      · exact .abort _
      · refine .ite (.throw _) ?_
        refine .bind (.when _ (.modify fun st => ⟨rfl, rfl⟩))
          fun _ => ?_
        refine .bind (.modify fun st => sameTransactions_recordAnchor c st _ _)
          fun _ => ?_
        refine .bind (.when _ (keeps_sameTransactions_updates c describe d _))
          fun _ => ?_
        refine .bind (keeps_sameTransactions_acknowledge describe _ _) fun _ => ?_
        refine .bind (.when _ ?_) fun _ => .pure _
        refine .bind .get fun st => ?_
        refine .bind (.lift _) fun waiting => ?_
        refine .bind (.lift _) fun received => ?_
        exact .modify fun st => sameTransactions_submitDeliveries st _
    · exact .throw _
  · exact .throw _

end DirectoryAnchor

end Frames

end Chain
end Accumulate
