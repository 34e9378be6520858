import Accumulate.Core.Globals
import Accumulate.Database.BptEntries

/-!
# Batches and the entries of accounts

A root batch with operations on accounts and transactions, and its commit.  Every account that the
batch changes or affects has its hash as its entry in the Patricia trie afterwards, if the
operations refresh what they affect; an operation that does not leaves an entry behind.
-/

namespace Accumulate.Database
namespace Records

open Library Protocol Record

abbrev DbBatch : Type := Batch Key Key.Value (Url × Hash)

/-- The value can be written, and what is written can be read back. -/
def Encoding.Stores (enc : Encoding) (k : Key) (v : k.Value) : Prop :=
  ∃ b, enc.marshal k v = .ok b ∧ b ≠ [] ∧ enc.unmarshal k b = .ok v

def runOps (enc : Encoding) (c : Crypto) (db : Key → Option Bytes) :
    List RecordOp → DbBatch → DbBatch
  | [], b => b
  | op :: ops, b => runOps enc c db ops ((op.program enc c).run (Batch.machine enc.schema db) b).2

/-- What `Get` gives for the records in a batch. -/
def valuesOf (enc : Encoding) (db : Key → Option Bytes) (b : DbBatch) : View :=
  fun k => (b.get enc.schema db k).1

def putsOf (enc : Encoding) (db : Key → Option Bytes) (b : DbBatch) : Puts :=
  fun k => if b.isDirty k then (valuesOf enc db b k).toOption else none

def Changed (b : DbBatch) (u : Url) : Prop := ∃ f, b.isDirty (.account u f) = true

def storedHash (enc : Encoding) (db : Key → Option Bytes) (u : Url) : Except Error Hash :=
  ((hashState enc u).run (Batch.machine enc.schema db) (.root (.new false) : DbBatch)).1

/-- No operation leaves the entry of an account behind that is not changed in the end. -/
def Refreshing (enc : Encoding) (c : Crypto) (db : Key → Option Bytes) (changed : Url → Prop) :
    List RecordOp → DbBatch → Prop
  | [], _ => True
  | op :: ops, b =>
    op.Refreshing (valuesOf enc db b) changed ∧
      Refreshing enc c db changed ops
        ((op.program enc c).run (Batch.machine enc.schema db) b).2

/-- A root batch with some operations, and its `Commit`. -/
def commitOps (enc : Encoding) (c : Crypto) (ops : List RecordOp) (records : List Opened)
    (s : DbState) : Except Error Unit × DbState :=
  let b := runOps enc c s.db ops (.root (.new true))
  State.commit enc.schema (records.map (Opened.part enc)) b { s with batch := some b }

/-! ## Runs -/

section Run

variable {enc : Encoding} {c : Crypto} {db : Key → Option Bytes} {b : DbBatch} {L : DbLayer}
  {below : View}

def runLayer (enc : Encoding) (c : Crypto) (below : View) : List RecordOp → DbLayer → DbLayer
  | [], L => L
  | op :: ops, L =>
    runLayer enc c below ops ((op.program enc c).run (Layer.machine below) L).2

theorem represents_op (h : Represents enc.schema db b [L]) (op : RecordOp) :
    Represents enc.schema db ((op.program enc c).run (Batch.machine enc.schema db) b).2
      [((op.program enc c).run (Layer.machine (enc.schema.fetch db)) L).2] :=
  ((represents_simulates enc.schema db []).run (Script.putsIn_true _) h).2

theorem represents_runOps (h : Represents enc.schema db b [L]) (ops : List RecordOp) :
    Represents enc.schema db (runOps enc c db ops b)
      [runLayer enc c (enc.schema.fetch db) ops L] := by
  induction ops generalizing b L with
  | nil => exact h
  | cons op ops ih => exact ih (represents_op h op)

theorem runLayer_append (ops rest : List RecordOp) :
    runLayer enc c below (ops ++ rest) L =
      runLayer enc c below rest (runLayer enc c below ops L) := by
  induction ops generalizing L with
  | nil => rfl
  | cons op ops ih => exact ih

theorem runLayer_puts_ne_none {k : Key} (ops : List RecordOp)
    (h : L.puts k ≠ none) : (runLayer enc c below ops L).puts k ≠ none := by
  induction ops generalizing L with
  | nil => exact h
  | cons op ops ih => exact ih (Layer.run_puts_ne_none _ h)

theorem runLayer_writable (ops : List RecordOp) :
    (runLayer enc c below ops L).writable = L.writable := by
  induction ops generalizing L with
  | nil => rfl
  | cons op ops ih => exact ih.trans (Layer.run_writable _)

theorem valuesOf_eq (h : Represents enc.schema db b [L]) :
    valuesOf enc db b = L.contents (enc.schema.fetch db) := by
  funext k
  exact (h.get k).1

theorem putsOf_eq (h : Represents enc.schema db b [L]) : putsOf enc db b = L.puts := by
  funext k
  rw [putsOf, valuesOf_eq h, Batch.isDirty, h.levelOf.isDirty, Layer.contents]
  cases L.puts k <;> rfl

/-- A run of operations that refresh what they affect leaves no entry behind. -/
theorem tracks_runLayer {D : Url → Prop} {ops : List RecordOp}
    (hrep : Represents enc.schema db b [L])
    (hD : ∀ u f, (runLayer enc c (enc.schema.fetch db) ops L).puts (.account u f) ≠ none → D u)
    (hrefresh : Refreshing enc c db D ops b) (htracks : Tracks enc (enc.schema.fetch db) D L) :
    Tracks enc (enc.schema.fetch db) D (runLayer enc c (enc.schema.fetch db) ops L) := by
  induction ops generalizing b L with
  | nil => exact htracks
  | cons op ops ih =>
    refine ih (represents_op hrep op) hD hrefresh.2 (htracks.op ?_ fun u f hput => ?_)
    · rw [← valuesOf_eq hrep]
      exact hrefresh.1
    · exact hD u f (runLayer_puts_ne_none ops hput)

theorem changed_iff (h : Represents enc.schema db b [L]) (u : Url) :
    Changed b u ↔ ∃ f, L.puts (.account u f) ≠ none := by
  simp only [Changed, Batch.isDirty, h.levelOf.isDirty]
  simp [Option.isSome_iff_ne_none]

end Run

/-! ## What is stored -/

section Stored

variable {enc : Encoding} {db : Key → Option Bytes}

theorem storedHash_eq (u : Url) : storedHash enc db u = hashOf enc (enc.schema.fetch db) u := by
  have hnew : Represents enc.schema db (.root (.new false) : DbBatch) [.new false] :=
    .root (levelOf_new false) fun _ _ => rfl
  have hrun := ((represents_simulates enc.schema db []).run
    (Script.putsIn_true (hashState enc u)) hnew).1
  exact hrun.trans (congrArg Prod.fst (run_hashState u))

theorem fetch_overStore {L : DbLayer} (h : ∀ k v, L.puts k = some v → enc.Stores k v) :
    enc.schema.fetch (L.overStore enc.schema db) = L.contents (enc.schema.fetch db) := by
  funext k
  cases hput : L.puts k with
  | none => simp only [Schema.fetch, Layer.overStore, Layer.contents, hput]
  | some v =>
    obtain ⟨bytes, hbytes, hne, hread⟩ := h k v hput
    have hstore : L.overStore enc.schema db k = some bytes := by
      simp only [Layer.overStore, hput]
      show (enc.marshal k v).toOption = some bytes
      rw [hbytes]
      rfl
    have hvalue : enc.schema.getValue k (some bytes) = .ok v := by
      cases bytes with
      | nil => exact absurd rfl hne
      | cons x rest =>
        show (enc.unmarshal k (x :: rest)).mapError Error.wrap = _
        rw [hread]
        rfl
    simp only [Schema.fetch, hstore, hvalue, Layer.contents, hput, Schema.load]

theorem entryOf_append {new rest : List (Url × Hash)} {f : Url → Except Error Hash} {u : Url}
    {h : Hash} (hall : ∀ e ∈ new, f e.1 = .ok e.2) (hu : f u = .ok h) :
    entryOf (new ++ rest) u = if ∃ e ∈ new, e.1 = u then some h else entryOf rest u := by
  induction new with
  | nil => simp
  | cons e new ih =>
    obtain ⟨v, hash⟩ := e
    by_cases hv : v = u
    · subst hv
      have heq : hash = h := Except.ok.inj ((hall (v, hash) (by simp)).symm.trans hu)
      simp [entryOf, heq]
    · have hne : u ≠ v := fun heq => hv heq.symm
      rw [List.cons_append, entryOf_cons_of_ne _ hash hne,
        ih fun e he => hall e (by simp [he])]
      simp [hv]

end Stored

theorem entryOf_append_of_some {l m : List (Url × Hash)} {u : Url} {h : Hash}
    (hl : entryOf l u = some h) : entryOf (l ++ m) u = some h := by
  unfold entryOf at hl ⊢
  obtain ⟨e, he, rfl⟩ := Option.map_eq_some_iff.1 hl
  rw [List.find?_append, he]
  rfl

/-! ## The entries after a commit -/

def aliceTxn : SigOrTxn :=
  ⟨some ⟨⟨some aliceUrl, 0, "", []⟩, .payload (.burnTokens 1)⟩, none, none⟩

def aliceTxID : TxID := ⟨aliceUrl, 7⟩

def aliceStatus (code : Status) : TransactionStatus :=
  normalizeStatus { TransactionStatus.new with code := code }

def errNotEncoded : Error := .plain "not encoded"

def sampleMarshal : (k : Key) → k.Value → Except Error Bytes
  | .account _ .url, u => if u = aliceUrl then .ok [1] else .error errNotEncoded
  | .account _ .main, .liteIdentity u 0 0 =>
    if u = aliceUrl then .ok [1] else .error errNotEncoded
  | .account _ .pending, l =>
    if l = [] then .ok [2] else if l = [aliceTxID] then .ok [1] else .error errNotEncoded
  | .transaction _ .main, ⟨some ⟨header, .payload p⟩, none, none⟩ =>
    if header = ⟨some aliceUrl, 0, "", []⟩ ∧ p = .burnTokens 1 then .ok [1]
    else .error errNotEncoded
  | .transaction _ .status,
      ⟨none, code, none, some .empty, 0, none, [], [], none, none, 0, false, none⟩ =>
      if code = .pending then .ok [1] else if code = .delivered then .ok [2]
      else .error errNotEncoded
  | _, _ => .error errNotEncoded

def sampleUnmarshal : (k : Key) → Bytes → Except Error k.Value
  | .account _ .url, [1] => .ok aliceUrl
  | .account _ .main, [1] => .ok (.liteIdentity aliceUrl 0 0)
  | .account _ .pending, [2] => .ok []
  | .account _ .pending, [1] => .ok [aliceTxID]
  | .transaction _ .main, [1] => .ok aliceTxn
  | .transaction _ .status, [1] => .ok (aliceStatus .pending)
  | .transaction _ .status, [2] => .ok (aliceStatus .delivered)
  | _, _ => .error errNotEncoded

def sampleEncoding : Encoding where
  marshal := sampleMarshal
  unmarshal := sampleUnmarshal
  sha256 := fun b => BitVec.ofNat 256 (b.foldl (fun n x => 256 * n + x.toNat) 1)
  combine := fun a b => 3 * a + b + 1
  urlHash := fun u => BitVec.ofNat 256 u.stringLength
  isWord := Char.isAlphanum

theorem unmarshal_sampleEncoding {k : Key} {v : k.Value} {b : Bytes}
    (h : sampleEncoding.marshal k v = .ok b) : b ≠ [] ∧ sampleEncoding.unmarshal k b = .ok v := by
  change sampleMarshal k v = .ok b at h
  change b ≠ [] ∧ sampleUnmarshal k b = .ok v
  unfold sampleMarshal at h
  all_goals repeat' split at h
  all_goals cases h
  all_goals
    simp_all [sampleUnmarshal, aliceTxn, aliceStatus, normalizeStatus, TransactionStatus.new]

def emptyState : DbState := ⟨none, fun _ => none, []⟩

def pendingOps : List RecordOp :=
  [.putState aliceUrl (.liteIdentity aliceUrl 0 0), .putTransaction 7 aliceTxn,
    .addPending aliceUrl aliceTxID, .putStatus 7 (aliceStatus .pending)]

def pendingRecords : List Opened :=
  [.account aliceUrl [.url, .main, .pending], .transaction 7 [.main, .status]]

def sampleLayer (ops : List RecordOp) : DbLayer :=
  runLayer sampleEncoding Executor.toyCrypto (sampleEncoding.schema.fetch emptyState.db) ops
    (.new true)

theorem exists_record_of_puts {k : Key} (h : (sampleLayer pendingOps).puts k ≠ none) :
    ∃ r ∈ pendingRecords, k ∈ r.fields := by
  by_contra hk
  simp only [pendingRecords, List.mem_cons, List.not_mem_nil, or_false, exists_eq_or_imp,
    exists_eq_left, Opened.fields, List.map_cons, List.map_nil, not_or] at hk
  obtain ⟨⟨hurl, hmain, hpending⟩, htxn, hstatus⟩ := hk
  apply h
  change Function.update (Function.update (Function.update (Function.update (Function.update
    (fun _ => none) (.account aliceUrl .main) _) (.transaction 7 .main) _)
    (.account aliceUrl .pending) _) (.transaction 7 .status) _) (.account aliceUrl .url) _ k = none
  simp only [Function.update_of_ne, hurl, hmain, hpending, htxn, hstatus, ne_eq, not_false_eq_true]

end Records
end Accumulate.Database
