import Accumulate.Block.Ready

/-!
# Producing synthetic transactions

The first half of `internal/block/synthetic.go`.  The transactions a transaction has
produced are given their origin, then each of them is numbered, stored and added to the
main chain of the synthetic ledger.

The source changes the produced transactions in place, and whoever else holds them sees
the change, also if the production fails half-way.  Here they are part of the result.
-/

namespace Accumulate.Executor

open Library Protocol Database Accumulate.Core Chain

variable (x : Executor)

def withCause (source txn : Transaction) : Transaction :=
  { txn with body := txn.body.withOrigin fun o => { o with cause := some (x.crypto.id source) } }

def withRefund (initiator : Option Url) (refund : Fee) (txn : Transaction) : Transaction :=
  { txn with body := txn.body.withOrigin fun o =>
      { o with initiator := initiator, feeRefund := refund } }

def setSyntheticOrigin (db : Database) (source : Transaction) (produced : List Transaction) :
    Outcome Error Unit × List Transaction :=
  let produced := produced.map (x.withCause source)
  let count := produced.countP (·.body.origin.isSome)
  if count = 0 then (.ok (), produced)
  else
    match computeSyntheticRefund x.crypto x.active.globals.feeSchedule source count with
    | .panic m => (.panic m, produced)
    | .error e => (.error (.format .internalError "compute refund" e), produced)
    | .ok refund =>
      let initiator := (db.transaction (x.getHash source)).status.initiator
      (.ok (), produced.map (withRefund initiator refund))

/-- The status of a synthetic transaction that has just been produced. -/
def synthStatus (destination : Url) (sequenceNumber : Nat) : TransactionStatus :=
  { TransactionStatus.new with
    code := .remote
    sourceNetwork := some (x.describe.nodeUrl [])
    destinationNetwork := some destination
    sequenceNumber := sequenceNumber }

/-- `InitiateSynthetic`: the initiator is the partition signature with the sequence
number of the transaction. -/
def initiateSynthetic (principal : Option Url) (body : TransactionBody) (destination : Url)
    (sequenceNumber : Nat) : Transaction :=
  { header :=
      { principal := principal
        initiator := x.crypto.signatureHash
          (.partition (some (x.describe.nodeUrl [])) (some destination) sequenceNumber 0)
        memo := ""
        metadata := [] }
    body := body }

/-- The part of `buildSynthTxn` that records the transaction: it is stored with its status
and added to the main chain of the synthetic ledger and to the sequence chain of its
destination. -/
def recordSynthTxn (txn : Transaction) (destination : Url) (sequenceNumber : Nat) :
    Proc Database Error Unit := do
  let hash := x.getHash txn
  Proc.modify fun db => db.putTransaction hash ⟨some txn, none, none⟩
  Proc.mapError (.plainWrap "store status")
    (putStatus hash (x.synthStatus destination sequenceNumber))
  let db ← Proc.get
  let index := (db.chain x.describe.synthetic .main).height
  Proc.modify fun db => db.addEntry x.crypto.combine x.describe.synthetic .main hash false
  match parsePartitionUrl destination with
  | none => Proc.throw (.new .internalError "destination URL is not a valid partition")
  | some partition =>
    Proc.modify fun db => db.addIndexChainEntry x.describe.synthetic
      (.syntheticSequence partition) ⟨index, 0, 0, 0⟩

def buildSynthTxn (dest : Option Url) (body : TransactionBody) :
    Proc Database Error Transaction := do
  let db ← Proc.get
  match db.getStateAs x.describe.synthetic asSyntheticLedger with
  | .error _ => Proc.abort "failed to load the ledger"
  | .panic m => Proc.abort m
  | .ok ledger =>
    let destPart ← Proc.lift (x.router.routeAccount dest)
    let destination := partitionUrl destPart
    let destLedger := partitionLedger ledger.exchange destination
    let destLedger := { destLedger with produced := destLedger.produced + 1 }
    let txn := x.initiateSynthetic dest body destination destLedger.produced
    putState x.describe.synthetic (.syntheticLedger
      { ledger with exchange := setPartitionLedger ledger.exchange destLedger })
    x.recordSynthTxn txn destination destLedger.produced
    return txn

def addProduced (source : Transaction) (body : TransactionBody) (txn : Transaction)
    (db : Database) : Database :=
  if source.type.isSystem ∨ body.origin.isNone then db
  else db.addSyntheticTxns (x.getHash source) [x.crypto.id txn]

def produceEach (source : Transaction) :
    List Transaction → Database → Outcome Error Unit × List Transaction × Database
  | [], db => (.ok (), [], db)
  | sub :: rest, db =>
    match x.buildSynthTxn sub.header.principal sub.body db with
    | (.panic m, db) => (.panic m, sub :: rest, db)
    | (.error e, db) => (.error e, sub :: rest, db)
    | (.ok txn, db) =>
      let r := produceEach source rest (x.addProduced source sub.body txn db)
      (r.1, { sub with header := txn.header } :: r.2.1, r.2.2)

def produceSynthetic (source : Transaction) (produced : List Transaction) (db : Database) :
    Outcome Error Unit × List Transaction × Database :=
  if produced = [] then (.ok (), produced, db)
  else
    match x.setSyntheticOrigin db source produced with
    | (.ok (), produced) => x.produceEach source produced db
    | (.error e, produced) => (.error e.wrap, produced, db)
    | (.panic m, produced) => (.panic m, produced, db)

/-! ## What is sent -/

/-- A produced transaction is sent to the principal it was produced for, and its origin
names the transaction that produced it. -/
def SentAs (source t t' : Transaction) : Prop :=
  t'.header.principal = t.header.principal ∧
    ∃ f : SyntheticOrigin → SyntheticOrigin, t'.body = t.body.withOrigin f ∧
      ∀ o, (f o).cause = some (x.crypto.id source)

variable {x} {source : Transaction} {l l' : List Transaction} {db db' : Database}

theorem setSyntheticOrigin_eq_ok (h : x.setSyntheticOrigin db source l = (.ok (), l')) :
    List.Forall₂ (x.SentAs source) l l' := by
  unfold setSyntheticOrigin at h
  simp only at h
  split at h
  · cases h
    rw [List.forall₂_map_right_iff]
    exact List.forall₂_same.2 fun t _ => ⟨rfl, _, rfl, fun _ => rfl⟩
  · split at h
    · cases h
    · cases h
    · cases h
      rw [List.forall₂_map_right_iff, List.forall₂_map_right_iff]
      refine List.forall₂_same.2 fun t _ =>
        ⟨rfl, _, TransactionBody.withOrigin_withOrigin _ _ _, ?_⟩
      exact fun _ => rfl

theorem buildSynthTxn_eq_ok {dest : Option Url} {body : TransactionBody} {txn : Transaction}
    (h : x.buildSynthTxn dest body db = (.ok txn, db')) :
    txn.header.principal = dest ∧ ∃ ledger exchange destination sequenceNumber db₁,
      db.getStateAs x.describe.synthetic asSyntheticLedger = .ok ledger ∧
      putState x.describe.synthetic (.syntheticLedger { ledger with exchange := exchange }) db =
        (.ok (), db₁) ∧
      x.recordSynthTxn txn destination sequenceNumber db₁ = (.ok (), db') := by
  unfold buildSynthTxn at h
  rw [Proc.get_bind_run] at h
  cases hledger : db.getStateAs x.describe.synthetic asSyntheticLedger with
  | error e | panic m => simp [hledger] at h
  | ok ledger =>
    simp only [hledger] at h
    obtain ⟨destPart, -, h⟩ := Proc.lift_bind_eq_ok.1 h
    obtain ⟨_, db₁, hput, h⟩ := Proc.bind_eq_ok.1 h
    obtain ⟨_, db₂, hrecord, h⟩ := Proc.bind_eq_ok.1 h
    cases h
    exact ⟨rfl, ledger, _, _, _, db₁, rfl, hput, hrecord⟩

theorem produceEach_cons_eq_ok {sub : Transaction} {rest : List Transaction}
    (h : x.produceEach source (sub :: rest) db = (.ok (), l', db')) :
    ∃ txn db₁ rest', x.buildSynthTxn sub.header.principal sub.body db = (.ok txn, db₁) ∧
      x.produceEach source rest (x.addProduced source sub.body txn db₁) = (.ok (), rest', db') ∧
      l' = { sub with header := txn.header } :: rest' := by
  unfold produceEach at h
  match hbuild : x.buildSynthTxn sub.header.principal sub.body db with
  | (.panic m, db₁) | (.error e, db₁) => simp [hbuild] at h
  | (.ok txn, db₁) =>
    simp only [hbuild] at h
    obtain ⟨hok, hrest⟩ := Prod.mk.inj h
    cases hrest
    exact ⟨txn, db₁, _, rfl, Prod.ext hok rfl, rfl⟩

theorem produceEach_eq_ok {l₀ : List Transaction} (hsent : List.Forall₂ (x.SentAs source) l₀ l)
    (h : x.produceEach source l db = (.ok (), l', db')) : List.Forall₂ (x.SentAs source) l₀ l' := by
  induction hsent generalizing db l' with
  | nil =>
    cases h
    exact .nil
  | @cons t sub ts rest hsub _ ih =>
    obtain ⟨txn, db₁, rest', hbuild, hrest, rfl⟩ := produceEach_cons_eq_ok h
    obtain ⟨hp, horigin⟩ := hsub
    exact .cons ⟨(buildSynthTxn_eq_ok hbuild).1.trans hp, horigin⟩ (ih hrest)

theorem produceSynthetic_cases (h : x.produceSynthetic source l db = (.ok (), l', db')) :
    l = [] ∧ l' = [] ∧ db' = db ∨ ∃ l₁, x.setSyntheticOrigin db source l = (.ok (), l₁) ∧
      x.produceEach source l₁ db = (.ok (), l', db') := by
  unfold produceSynthetic at h
  split at h
  · rename_i hnil
    cases h
    exact .inl ⟨hnil, hnil, rfl⟩
  match horigin : x.setSyntheticOrigin db source l with
  | (.error e, l₁) | (.panic m, l₁) => simp [horigin] at h
  | (.ok (), l₁) =>
    rw [horigin] at h
    exact .inr ⟨l₁, rfl, h⟩

/-- **What is produced.**  Every transaction is sent as it was produced, with its origin. -/
theorem produceSynthetic_eq_ok (h : x.produceSynthetic source l db = (.ok (), l', db')) :
    List.Forall₂ (x.SentAs source) l l' := by
  rcases produceSynthetic_cases h with ⟨rfl, rfl, -⟩ | ⟨l₁, horigin, h⟩
  · exact .nil
  · exact produceEach_eq_ok (setSyntheticOrigin_eq_ok horigin) h

/-! ## What production keeps -/

/-- What production does to a batch, step by step: a relation that each step keeps is kept by
all of it. -/
structure ProductionKeeps (x : Executor) (R : Database → Database → Prop) : Prop where
  ledger : ∀ {db ledger exchange},
    (db.account x.describe.synthetic).main = some (.syntheticLedger ledger) →
      R db (db.setMain x.describe.synthetic (.syntheticLedger { ledger with exchange := exchange }))
  account : ∀ db f, (∀ r, (f r).main = r.main) → R db (db.updateAccount x.describe.synthetic f)
  transaction : ∀ db hash v, R db (db.putTransaction hash v)
  status : ∀ db hash destination n, R db (db.setStatus hash (x.synthStatus destination n))
  produced : ∀ db hash ids, R db (db.addSyntheticTxns hash ids)

section Keeps

variable {R : Database → Database → Prop} [Std.Refl R] [IsTrans Database R]

namespace ProductionKeeps

variable (hR : ProductionKeeps x R)

include hR

theorem recordSynthTxn (txn : Transaction) (destination : Url) (sequenceNumber : Nat) :
    Proc.Keeps R (x.recordSynthTxn txn destination sequenceNumber) := by
  refine .bind (.modify fun db => hR.transaction db _ _) fun _ => ?_
  refine .bind (.mapError (keeps_putStatus fun db => hR.status db _ _ _)) fun _ => ?_
  refine .bind .get fun db => ?_
  have hentry : ∀ db : Database,
      R db (db.addEntry x.crypto.combine x.describe.synthetic .main (x.getHash txn) false) := by
    intro db
    unfold addEntry updateChain
    exact hR.account db _ fun _ => rfl
  refine .bind (.modify hentry) fun _ => ?_
  split
  · exact .throw _
  · exact .modify fun db => hR.account db _ fun _ => rfl

theorem buildSynthTxn {dest : Option Url} {body : TransactionBody} {txn : Transaction}
    (h : x.buildSynthTxn dest body db = (.ok txn, db')) : R db db' := by
  obtain ⟨-, ledger, exchange, destination, sequenceNumber, db₁, hledger, hput, hrecord⟩ :=
    buildSynthTxn_eq_ok h
  have hmain : (db.account x.describe.synthetic).main = some (.syntheticLedger ledger) := by
    obtain ⟨a, hmain, has⟩ := getStateAs_eq_ok.1 hledger
    cases a <;> cases has
    exact hmain
  obtain ⟨-, -, rfl⟩ := putState_eq_ok hput
  exact trans_of R (hR.ledger hmain)
    ((hR.recordSynthTxn txn destination sequenceNumber).run hrecord)

theorem produceEach (h : x.produceEach source l db = (.ok (), l', db')) : R db db' := by
  induction l generalizing db l' with
  | nil =>
    cases h
    exact refl_of R _
  | cons sub rest ih =>
    obtain ⟨txn, db₁, rest', hbuild, hrest, -⟩ := produceEach_cons_eq_ok h
    have hadd : R db₁ (x.addProduced source sub.body txn db₁) := by
      unfold addProduced
      split
      · exact refl_of R db₁
      · exact hR.produced db₁ _ _
    exact trans_of R (hR.buildSynthTxn hbuild) (trans_of R hadd (ih hrest))

/-- A relation that production keeps, from the batch before to the batch after. -/
theorem produceSynthetic (h : x.produceSynthetic source l db = (.ok (), l', db')) : R db db' := by
  rcases produceSynthetic_cases h with ⟨-, -, rfl⟩ | ⟨l₁, -, h⟩
  · exact refl_of R _
  · exact hR.produceEach h

end ProductionKeeps

end Keeps

end Accumulate.Executor
