import Accumulate.Block.Processing
import Accumulate.Chain.Anchors

/-!
# Transactions that wait for an anchor

A synthetic transaction whose proof ends in an anchor the directory does not know yet is
recorded as waiting for it.  When the anchor arrives, it is to be executed.

`waiting_scheduled_iff` says when that happens: an anchor that completes a major block leaves
the executor before the waiting transactions are looked at.
-/

namespace Accumulate

open Library Protocol Database Accumulate.Core Chain

/-! ## The order of the numbers -/

theorem Chain.goInt_injective {m n : Nat} (hm : m < 2 ^ 64) (hn : n < 2 ^ 64)
    (h : goInt m = goInt n) : m = n := by
  have hmod : ((m : Int) % (2 ^ 64 : Nat)) = (n : Int) % (2 ^ 64 : Nat) := by
    rw [← Int.bmod_emod, ← Int.bmod_emod (x := n)]
    exact congrArg (· % ((2 ^ 64 : Nat) : Int)) h
  rw [Int.emod_eq_of_lt (Int.natCast_nonneg m) (Int.ofNat_lt.2 hm),
    Int.emod_eq_of_lt (Int.natCast_nonneg n) (Int.ofNat_lt.2 hn)] at hmod
  exact Int.ofNat.inj hmod

/-- In a list that is sorted in two ways, two different elements are in the same order. -/
theorem Chain.goInt_le_of_sorted {l : List Nat} (hnat : l.Pairwise (· ≤ ·))
    (hint : l.Pairwise fun a b => goInt a ≤ goInt b) {m n : Nat} (hm : m ∈ l) (hn : n ∈ l)
    (hlt : m < n) : goInt m ≤ goInt n := by
  obtain ⟨i, hi, rfl⟩ := List.getElem_of_mem hm
  obtain ⟨j, hj, rfl⟩ := List.getElem_of_mem hn
  rw [List.pairwise_iff_getElem] at hnat hint
  rcases Nat.lt_trichotomy i j with hij | rfl | hij
  · exact hint i j hi hj hij
  · exact absurd hlt (lt_irrefl _)
  · exact absurd (hnat j i hj hi hij) (not_le.2 hlt)

/-- The order the deliveries are sorted in. -/
def Chain.ByNumber (a b : Nat × TxID) : Prop := goInt a.1 ≤ goInt b.1

theorem Chain.byNumber_iff (a b : Nat × TxID) : ByNumber a b ↔ goInt a.1 ≤ goInt b.1 := Iff.rfl

instance : DecidableRel Chain.ByNumber := fun a b =>
  inferInstanceAs (Decidable (goInt a.1 ≤ goInt b.1))

instance : Std.Total Chain.ByNumber := ⟨fun a b => le_total (goInt a.1) (goInt b.1)⟩

instance : IsTrans (Nat × TxID) Chain.ByNumber := ⟨fun _ _ _ => le_trans⟩

namespace Executor

variable (x : Executor)

/-- The synthetic transactions that are recorded as waiting for an anchor. -/
def waitingFor (db : Database) (anchor : Hash) : List TxID :=
  (db.account x.describe.ledger).syntheticForAnchor anchor

/-- Each of the waiting transactions is scheduled exactly once, in increasing order of their
sequence numbers. -/
def ScheduledInOrder (db : Database) (d : Delivery) (waiting : List TxID)
    (scheduled : List Delivery) : Prop :=
  ∃ l : List (Nat × TxID), (l.map (·.2)).Perm waiting ∧
    (∀ p ∈ l, getSyntheticSignature db p.2.hash = .ok p.1) ∧
    l.Pairwise (fun a b => a.1 ≤ b.1) ∧
    scheduled = l.map fun p => d.newChild (remoteTransaction p.2.hash) []

/-- The sequence numbers of the waiting transactions are in the same order as signed
integers. -/
def NumbersInOrder (db : Database) (waiting : List TxID) : Prop :=
  ∀ a ∈ waiting, ∀ b ∈ waiting, ∀ m n, getSyntheticSignature db a.hash = .ok m →
    getSyntheticSignature db b.hash = .ok n → m < n → goInt m < goInt n

variable {db : Database} {d : Delivery} {waiting : List TxID}

theorem scheduledInOrder_nil : ScheduledInOrder db d waiting [] ↔ waiting = [] := by
  constructor
  · rintro ⟨l, hperm, -, -, hnil⟩
    rw [List.map_eq_nil_iff.1 hnil.symm] at hperm
    exact hperm.nil_eq.symm
  · rintro rfl
    exact ⟨[], .nil, List.forall_mem_nil _, .nil, rfl⟩

theorem numbers_of_deliveries {l l' : List (Nat × TxID)}
    (hl : ∀ p ∈ l, getSyntheticSignature db p.2.hash = .ok p.1)
    (hl' : ∀ p ∈ l', getSyntheticSignature db p.2.hash = .ok p.1)
    (h : (l.map fun p => d.newChild (remoteTransaction p.2.hash) []) =
      l'.map fun p => d.newChild (remoteTransaction p.2.hash) []) : l.map (·.1) = l'.map (·.1) := by
  induction l generalizing l' with
  | nil =>
    rw [List.map_eq_nil_iff.1 h.symm]
  | cons p rest ih =>
    cases l' with
    | nil => cases h
    | cons p' rest' =>
      obtain ⟨hhead, htail⟩ := List.cons.inj h
      have hhash : p.2.hash = p'.2.hash := by
        have hbody := congrArg (fun e : Delivery => e.transaction.body) hhead
        simpa [Delivery.newChild, Delivery.new, remoteTransaction] using hbody
      have hnumber := hl p List.mem_cons_self
      rw [hhash, hl' p' List.mem_cons_self] at hnumber
      rw [List.map_cons, List.map_cons, Outcome.ok.inj hnumber,
        ih (fun q hq => hl q (List.mem_cons_of_mem _ hq))
          (fun q hq => hl' q (List.mem_cons_of_mem _ hq)) htail]

/-- What has been loaded and sorted is scheduled in order exactly if the numbers are in
order as signed integers. -/
theorem scheduledInOrder_iff {l : List (Int × Delivery)}
    (hsequence : ∀ txid ∈ waiting, ∀ n, getSyntheticSignature db txid.hash = .ok n → n < 2 ^ 64)
    (h : loadSynthTxns db (fun txid => d.newChild (remoteTransaction txid.hash) []) waiting =
      .ok l) :
    ScheduledInOrder db d waiting (sortDeliveries l) ↔ NumbersInOrder db waiting := by
  obtain ⟨k, rfl, hnumbers, rfl⟩ := loadSynthTxns_eq_ok h
  -- sort the numbers and the transactions instead of the deliveries
  have hsort : sortDeliveries (k.map fun p =>
      (goInt p.1, d.newChild (remoteTransaction p.2.hash) [])) =
      (k.insertionSort ByNumber).map fun p => d.newChild (remoteTransaction p.2.hash) [] := by
    have hmap := List.map_insertionSort ByNumber (fun a b : Int × Delivery => a.1 ≤ b.1)
      (fun p => (goInt p.1, d.newChild (remoteTransaction p.2.hash) [])) k
      (by simp only [byNumber_iff, implies_true])
    unfold sortDeliveries
    rw [← hmap, List.map_map]
    exact List.map_congr_left fun _ _ => rfl
  have hperm := List.perm_insertionSort ByNumber k
  have hpairwise := List.pairwise_insertionSort ByNumber k
  have hsorted : ∀ p ∈ k.insertionSort ByNumber, getSyntheticSignature db p.2.hash = .ok p.1 :=
    fun p hp => hnumbers p (hperm.mem_iff.1 hp)
  rw [hsort]
  constructor
  · rintro ⟨l, -, hl, hle, hsame⟩ a ha b hb m n hm hn hlt
    -- the deliveries determine the numbers
    have hnums := numbers_of_deliveries hsorted hl hsame
    have hmem : ∀ txid ∈ k.map (·.2), ∀ n, getSyntheticSignature db txid.hash = .ok n →
        n ∈ l.map (·.1) := by
      intro txid htxid n hn
      obtain ⟨p, hp, rfl⟩ := List.mem_map.1 htxid
      have hpn : p.1 = n := Outcome.ok.inj ((hnumbers p hp).symm.trans hn)
      rw [← hnums, ← hpn]
      exact List.mem_map_of_mem (hperm.mem_iff.2 hp)
    have hle' := goInt_le_of_sorted (List.pairwise_map.2 hle)
      (hnums ▸ List.pairwise_map.2 hpairwise) (hmem a ha m hm) (hmem b hb n hn) hlt
    refine lt_of_le_of_ne hle' fun heq => ?_
    have hmn := goInt_injective (hsequence a ha m hm) (hsequence b hb n hn) heq
    omega
  · intro hinorder
    refine ⟨_, (hperm.map _), hsorted, ?_, rfl⟩
    refine hpairwise.imp_of_mem fun {p q} hp hq hpq => ?_
    by_contra hlt
    have hp' := hperm.mem_iff.1 hp
    have hq' := hperm.mem_iff.1 hq
    have hstrict := hinorder q.2 (List.mem_map_of_mem hq') p.2 (List.mem_map_of_mem hp') q.1 p.1
      (hnumbers q hq') (hnumbers p hp') (not_le.1 hlt)
    exact absurd hpq (not_le.2 hstrict)

variable {x} {status : TransactionStatus} {state : ProcessTransactionState}

theorem recordSuccessfulTransaction_additional {u : Url}
    {state' : ProcessTransactionState} {result : Option TransactionResult} {db' : Database}
    (h : x.recordSuccessfulTransaction d u state result db = (.ok (status, state'), db')) :
    ∃ next, state'.additionalTransactions = state.additionalTransactions ++ next ∧
      next.length ≤ 1 := by
  obtain ⟨_, _, hrecord, -, hadditional, -⟩ := x.recordSuccessfulTransaction_eq_ok h
  rw [hadditional]
  rcases (recordTransaction_eq_ok x hrecord).2 with ⟨rfl, -⟩ | hsequence
  · exact ⟨[], (List.append_nil _).symm, Nat.zero_le 1⟩
  obtain ⟨_, _, _, _, _, next, -, -, -, -, -, -, rfl⟩ := x.recordSequence_eq_ok hsequence
  cases next with
  | none => exact ⟨[], (List.append_nil _).symm, Nat.zero_le 1⟩
  | some next => exact ⟨[_], rfl, le_refl 1⟩

/-- **Waiting transactions are scheduled unless a major block is completed.**  For an anchor
that has been executed successfully, the transactions its executor schedules are all the
transactions that were waiting for it, each of them once and in the order of their sequence
numbers, exactly if the anchor does not complete a major block or nothing was waiting, and
the order of the numbers is that of signed integers.  Recording the anchor schedules at most
the next anchor of the partition in addition.  `hsequence` says that sequence numbers are
unsigned 64-bit numbers. -/
theorem waiting_scheduled_iff {d : Delivery} {s s' : Stage} {status : TransactionStatus}
    {state : ProcessTransactionState} {body : PartitionAnchor} {acmeBurnt : Int}
    (hx : x.executors .blockValidatorAnchor =
      some (PartitionAnchor.executor x.crypto x.describe))
    (hbody : d.transaction.body = .payload (.blockValidatorAnchor body acmeBurnt))
    (hsequence : ∀ txid ∈ x.waitingFor s.batch body.rootChainAnchor, ∀ n,
      getSyntheticSignature s.batch txid.hash = .ok n → n < 2 ^ 64)
    (hfresh : (s.batch.transaction (x.getHash d.transaction)).status.delivered = false)
    (h : x.processTransaction d s = (.ok (status, state), s'))
    (hcode : status.code = .delivered) :
    ∃ u status₀ db result st next, x.loadStatus d.transaction s.batch = (.ok status₀, db) ∧
      x.runExecutor db d status₀ (db.account u).main u = .ok (result, st) ∧
      state.additionalTransactions = st.state.additionalTransactions ++ next ∧
      next.length ≤ 1 ∧
      (ScheduledInOrder s.batch d (x.waitingFor s.batch body.rootChainAnchor)
          st.state.additionalTransactions ↔
        (body.majorBlockIndex = 0 ∨ x.waitingFor s.batch body.rootChainAnchor = []) ∧
          NumbersInOrder s.batch (x.waitingFor s.batch body.rootChainAnchor)) := by
  cases x.processTransaction_processing h with
  | repeated hp hload hready he =>
    have hdelivered := delivered_loadStatus hload
    rw [hfresh, TransactionStatus.delivered, hcode] at hdelivered
    cases hdelivered
  | waiting hp hload hready hrecord =>
    rw [(recordPendingTransaction_status hrecord).1] at hcode
    cases hcode
  | refused hp hload hready he hnew hrecord | failed hp hload hready hexec he hrecord =>
    exact absurd hcode (TransactionStatus.code_ne_delivered
      (recordFailedTransaction_status he hrecord))
  | @executed u status₀ _ db _ _ _ result s₂ hp hload hready hexec hrecord =>
    obtain ⟨st₀, st, hrun, hops, -, rfl, -⟩ := executeStages_eq_ok hexec
    obtain ⟨next, hadditional, hnext⟩ := recordSuccessfulTransaction_additional hrecord
    obtain ⟨executor, hexecutor, hexecute⟩ := x.runExecutor_eq_ok hrun
    have htype : d.type = .blockValidatorAnchor := congrArg TransactionBody.type hbody
    rw [htype, hx] at hexecutor
    cases hexecutor
    have hbody' : (Delivery.new d.transaction []).transaction.body =
      .payload (.blockValidatorAnchor body acmeBurnt) := hbody
    obtain ⟨hoperations, hschedule⟩ := PartitionAnchor.execute_schedules hbody' hexecute
    -- an anchor queues no operation
    rw [hoperations] at hops
    obtain rfl := (Prod.mk.inj hops).2
    refine ⟨u, status₀, db, result, st₀, next, hload, hrun, hadditional, hnext, ?_⟩
    obtain ⟨haccount, htransaction⟩ := loadStatus_eq_ok hload
    rcases hschedule with ⟨hmajor, hnone⟩ | ⟨hminor, l, hl, hsome⟩
    · have hstart : st₀.state.additionalTransactions = [] := hnone
      rw [hstart, scheduledInOrder_nil]
      constructor
      · intro hwaiting
        rw [hwaiting]
        exact ⟨.inr rfl, nofun⟩
      · rintro ⟨hzero | hwaiting, -⟩
        · omega
        · exact hwaiting
    · have hstart : st₀.state.additionalTransactions = sortDeliveries l := hsome
      have hwaiting : loadSynthTxns db (fun txid => d.newChild (remoteTransaction txid.hash) [])
          ((db.account x.describe.ledger).syntheticForAnchor body.rootChainAnchor) = .ok l := hl
      rw [haccount, loadSynthTxns_congr htransaction] at hwaiting
      rw [hstart, scheduledInOrder_iff hsequence hwaiting]
      exact ⟨fun h => ⟨.inl hminor, h⟩, And.right⟩

/-! ### An anchor two transactions are waiting for -/

def anchorNode : Executor :=
  toy ⟨.directory, directory⟩
    (fun t => if t = .blockValidatorAnchor then
      some (PartitionAnchor.executor toyCrypto ⟨.directory, directory⟩) else none)
    (fun t e he _ => by
      split at he
      · cases he
        rfl
      · cases he)

def anchorSource : Url := ⟨.bvn "y", []⟩

def waitedFor (major : Nat) : PartitionAnchor := ⟨some anchorSource, major, 5, 0, 77, 78, []⟩

def anchorDelivery (major : Nat) : Delivery :=
  { Delivery.new ⟨⟨some (dnUrl.joinPath ["anchors"]), 0, "", []⟩,
      .payload (.blockValidatorAnchor (waitedFor major) 0)⟩ [] with
    sequenceNumber := 1, sourceNetwork := some anchorSource }

def waitingRecord (signature : Hash) : TransactionRecord :=
  { TransactionRecord.empty with
    status := { TransactionStatus.new with code := .pending, signers := [.unknownSigner dnUrl 0] }
    signatures := fun _ => ⟨0, [⟨.partition, 0, signature, none⟩]⟩ }

def numberRecord (sequenceNumber : Nat) : TransactionRecord :=
  { TransactionRecord.empty with
    main := some ⟨none, some (.partition (some anchorSource) (some dnUrl) sequenceNumber 0), none⟩ }

/-- The database of the directory: a transaction with number 2 and one with number 1 are
waiting for the anchor, which has been signed. -/
def anchorStart (major : Nat) : Stage where
  batch :=
    let db := ((Database.empty.setMain (dnUrl.joinPath ["anchors"]) (.anchorLedger
        ⟨dnUrl.joinPath ["anchors"], 3, [anchorSource, ⟨.bvn "z", []⟩], []⟩)).setMain acmeUrl
        (.tokenIssuer acmeUrl [⟨dnUrl.joinPath ["operators"], false⟩] "ACME" 8 1000 none))
    { (db.addSyntheticForAnchor (dnUrl.joinPath ["ledger"]) 77 ⟨⟨.named "alice", []⟩, 201⟩
        |>.addSyntheticForAnchor (dnUrl.joinPath ["ledger"]) 77 ⟨⟨.named "bob", []⟩, 202⟩) with
      transaction := fun h =>
        if h = toyCrypto.getHash (anchorDelivery major).transaction then
          { TransactionRecord.empty with
            status := { TransactionStatus.new with
              anchorSigners := [[1]], sourceNetwork := some anchorSource, sequenceNumber := 1 } }
        else if h = 201 then waitingRecord 301
        else if h = 202 then waitingRecord 302
        else if h = 301 then numberRecord 2
        else if h = 302 then numberRecord 1
        else .empty }
  pending := toyGlobals

/-- The anchor of a major block is executed successfully and schedules nothing. -/
theorem majorBlock_not_scheduled :
    ∃ status state, (anchorNode.processTransaction (anchorDelivery 3) (anchorStart 3)).1 =
        .ok (status, state) ∧
      status.code = .delivered ∧
      anchorNode.waitingFor (anchorStart 3).batch 77 =
        [⟨⟨.named "alice", []⟩, 201⟩, ⟨⟨.named "bob", []⟩, 202⟩] ∧
      ¬ ScheduledInOrder (anchorStart 3).batch (anchorDelivery 3)
        (anchorNode.waitingFor (anchorStart 3).batch 77) state.additionalTransactions := by
  have hrun : (anchorNode.processTransaction (anchorDelivery 3) (anchorStart 3)).1.Yields
      fun r => r.1.code = .delivered ∧ r.2.additionalTransactions.length = 0 := by
    decide +kernel
  obtain ⟨⟨status, state⟩, hok, hcode, hlength⟩ := hrun.exists_ok
  have hwaiting : anchorNode.waitingFor (anchorStart 3).batch 77 =
      [⟨⟨.named "alice", []⟩, 201⟩, ⟨⟨.named "bob", []⟩, 202⟩] := by
    decide +kernel
  refine ⟨status, state, hok, hcode, hwaiting, ?_⟩
  rw [List.length_eq_zero_iff.1 hlength, scheduledInOrder_nil]
  exact List.cons_ne_nil _ _

/-- The same anchor without a major block schedules both, the one with number 1 first. -/
theorem minorBlock_scheduled :
    ∃ status state, (anchorNode.processTransaction (anchorDelivery 0) (anchorStart 0)).1 =
        .ok (status, state) ∧
      state.additionalTransactions.map (fun d => anchorNode.getHash d.transaction) = [202, 201] ∧
      ∃ u status₀ db result st next,
        anchorNode.loadStatus (anchorDelivery 0).transaction (anchorStart 0).batch =
          (.ok status₀, db) ∧
        anchorNode.runExecutor db (anchorDelivery 0) status₀ (db.account u).main u =
          .ok (result, st) ∧
        state.additionalTransactions = st.state.additionalTransactions ++ next ∧
        next.length ≤ 1 ∧
        ScheduledInOrder (anchorStart 0).batch (anchorDelivery 0)
          (anchorNode.waitingFor (anchorStart 0).batch 77) st.state.additionalTransactions := by
  have hrun : (anchorNode.processTransaction (anchorDelivery 0) (anchorStart 0)).1.Yields
      fun r => r.1.code = .delivered ∧
        r.2.additionalTransactions.map (fun d => anchorNode.getHash d.transaction) =
          [202, 201] := by
    decide +kernel
  obtain ⟨⟨status, state⟩, hok, hcode, hscheduled⟩ := hrun.exists_ok
  -- the numbers are 2 and 1
  have hnumber : ∀ txid ∈ anchorNode.waitingFor (anchorStart 0).batch 77, ∀ n,
      getSyntheticSignature (anchorStart 0).batch txid.hash = .ok n → n < 3 := by
    have hyields : ∀ txid ∈ anchorNode.waitingFor (anchorStart 0).batch 77,
        (getSyntheticSignature (anchorStart 0).batch txid.hash).Yields (· < 3) := by
      decide +kernel
    intro txid htxid n hn
    have hlt := hyields txid htxid
    rw [hn] at hlt
    exact hlt
  obtain ⟨u, status₀, db, result, st, next, hload, hexec, hadditional, hnext, hiff⟩ :=
    waiting_scheduled_iff rfl rfl
      (fun txid htxid n hn => lt_trans (hnumber txid htxid n hn) (by decide)) (by decide +kernel)
      (Prod.ext hok rfl) hcode
  refine ⟨status, state, hok, hscheduled, u, status₀, db, result, st, next, hload, hexec,
    hadditional, hnext, hiff.2 ⟨.inl rfl, ?_⟩⟩
  intro a ha b hb m n hm hn hlt
  have hsmall : ∀ k : Nat, k < 3 → goInt k = k := by decide
  rw [hsmall m (hnumber a ha m hm), hsmall n (hnumber b hb n hn)]
  exact Int.ofNat_lt.2 hlt

end Executor

end Accumulate
