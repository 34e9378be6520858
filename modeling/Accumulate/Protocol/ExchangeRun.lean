import Accumulate.Protocol.Ledger

/-!
# Runs of an exchange ledger

The callers of `Add` keep to two rules: a transaction that is to wait has not been delivered,
and a transaction that is delivered is the next one.  Over every run that starts from an empty
ledger the pending list then covers the numbers between the last one delivered and the last one
received, and has the first transaction that was received for each of them (`Tracks`).

The pending list is filled up to the number of the transaction, however far away that is.  A
number that is further ahead than a slice can be long makes `Add` panic, and `run_tracks_iff` says
that nothing else does.
-/

namespace Accumulate.Protocol
namespace TransactionExchangeLedger

open Library

structure Call where
  delivered : Bool
  sequenceNumber : Nat
  txid : TxID

def Call.apply (limit : Nat) (c : Call) (s : TransactionExchangeLedger) :
    Outcome Error (TransactionExchangeLedger × Bool) :=
  s.add limit c.delivered c.sequenceNumber c.txid

def run (limit : Nat) (s : TransactionExchangeLedger) :
    List Call → Outcome Error TransactionExchangeLedger
  | [] => .ok s
  | c :: calls => do
      let (s, _) ← c.apply limit s
      s.run limit calls

def empty (u : Url) : TransactionExchangeLedger := ⟨u, 0, 0, 0, 0, []⟩

/-- What the callers make sure of.  Sequence numbers have 64 bits. -/
def Call.Legal (s : TransactionExchangeLedger) (c : Call) : Prop :=
  c.sequenceNumber < 2 ^ 64 ∧
    if c.delivered then c.sequenceNumber = s.delivered + 1 else s.delivered < c.sequenceNumber

/-- A waiting transaction is not too far ahead of the last one delivered. -/
def Call.Near (limit : Nat) (s : TransactionExchangeLedger) (c : Call) : Prop :=
  c.delivered = true ∨ c.sequenceNumber - s.delivered ≤ limit

instance (s : TransactionExchangeLedger) (c : Call) : Decidable (c.Legal s) :=
  inferInstanceAs (Decidable (_ ∧ _))

instance (limit : Nat) (s : TransactionExchangeLedger) (c : Call) : Decidable (c.Near limit s) :=
  inferInstanceAs (Decidable (_ ∨ _))

/-- Every call of a run meets a condition on the ledger it finds. -/
def EveryCall (limit : Nat) (P : TransactionExchangeLedger → Call → Prop) :
    TransactionExchangeLedger → List Call → Prop
  | _, [] => True
  | s, c :: calls =>
    P s c ∧ ∀ s' dirty, c.apply limit s = .ok (s', dirty) → EveryCall limit P s' calls

/-- The first transaction that was received for a sequence number. -/
def firstReceived (calls : List Call) (n : Nat) : Option TxID :=
  (calls.find? fun c => c.sequenceNumber = n).map Call.txid

/-- The ledger has kept track of the calls. -/
structure Tracks (limit : Nat) (calls : List Call) (s : TransactionExchangeLedger) : Prop where
  delivered_le : s.delivered ≤ s.received
  length_pending : s.pending.length = s.received - s.delivered
  length_le : s.pending.length ≤ limit
  pending : ∀ i < s.pending.length,
    s.pending[i]? = some (firstReceived calls (s.delivered + 1 + i))
  received : ∀ c ∈ calls, c.sequenceNumber ≤ s.received
  get : ∀ n, s.get n =
    .ok (if s.delivered < n ∧ n ≤ s.received then firstReceived calls n else none)

section Runs

variable {s s' : TransactionExchangeLedger} {c : Call} {calls : List Call} {dirty : Bool}
  {more : List Call} {limit : Nat}

theorem firstReceived_concat (calls : List Call) (c : Call) (n : Nat) :
    firstReceived (calls ++ [c]) n =
      (firstReceived calls n).or (if c.sequenceNumber = n then some c.txid else none) := by
  unfold firstReceived
  rw [List.find?_append]
  by_cases hn : c.sequenceNumber = n
  · cases calls.find? fun c => c.sequenceNumber = n <;> simp
  · cases calls.find? fun c => c.sequenceNumber = n <;> simp

theorem firstReceived_eq_none {n : Nat} (h : ∀ c ∈ calls, c.sequenceNumber < n) :
    firstReceived calls n = none := by
  unfold firstReceived
  rw [Option.map_eq_none_iff, List.find?_eq_none]
  intro c hc
  have hlt := h c hc
  simp only [decide_eq_true_eq]
  omega

theorem Tracks.of_pending (hle : s.delivered ≤ s.received)
    (hlength : s.pending.length = s.received - s.delivered) (hint : s.pending.length ≤ limit)
    (hpending : ∀ i < s.pending.length,
      s.pending[i]? = some (firstReceived calls (s.delivered + 1 + i)))
    (hreceived : ∀ c ∈ calls, c.sequenceNumber ≤ s.received) : Tracks limit calls s := by
  refine ⟨hle, hlength, hint, hpending, hreceived, fun n => ?_⟩
  unfold TransactionExchangeLedger.get
  by_cases hn : s.delivered < n ∧ n ≤ s.received
  · have hindex : n - s.delivered - 1 < s.pending.length := by omega
    have hnumber : s.delivered + 1 + (n - s.delivered - 1) = n := by omega
    rw [if_neg (by omega), if_pos hn, hpending _ hindex, hnumber]
  · rw [if_neg hn, if_pos (by omega)]

theorem tracks_empty (u : Url) : Tracks limit [] (empty u) :=
  .of_pending (Nat.le_refl 0) rfl (Nat.zero_le _) (fun _ hi => absurd hi (Nat.not_lt_zero _))
    nofun

/-! ## One call -/

theorem Tracks.add_delivered (h : Tracks limit calls s) (hlegal : c.Legal s)
    (hc : c.delivered = true) :
    ∃ s' dirty, c.apply limit s = .ok (s', dirty) ∧ Tracks limit (calls ++ [c]) s' := by
  have hnext : c.sequenceNumber = s.delivered + 1 := by simpa [hc] using hlegal.2
  have hlength := h.length_pending
  have hint := h.length_le
  refine ⟨{ s with
      received := max s.received c.sequenceNumber
      delivered := max s.delivered c.sequenceNumber
      pending := s.pending.tail }, _, by rw [Call.apply, hc]; rfl, .of_pending ?_ ?_ ?_ ?_ ?_⟩
  · show max s.delivered c.sequenceNumber ≤ max s.received c.sequenceNumber
    omega
  · show s.pending.tail.length =
      max s.received c.sequenceNumber - max s.delivered c.sequenceNumber
    rw [List.length_tail]
    omega
  · rw [List.length_tail]
    omega
  · intro i hi
    rw [List.length_tail] at hi
    have hnumber : max s.delivered c.sequenceNumber + 1 + i = s.delivered + 1 + (i + 1) := by omega
    have hother : c.sequenceNumber ≠ s.delivered + 1 + (i + 1) := by omega
    rw [List.getElem?_tail, hnumber, firstReceived_concat, if_neg hother, Option.or_none]
    exact h.pending (i + 1) (by omega)
  · intro c' hc'
    show c'.sequenceNumber ≤ max s.received c.sequenceNumber
    rcases List.mem_append.1 hc' with hc' | hc'
    · have hold := h.received c' hc'
      omega
    · rw [List.mem_singleton.1 hc']
      omega

theorem Tracks.getElem?_grown (h : Tracks limit calls s) (m : Nat) {i : Nat}
    (hi : i < max s.received m - s.delivered) :
    (s.pending ++ List.replicate (max s.received m - s.delivered - s.pending.length) none)[i]? =
      some (firstReceived calls (s.delivered + 1 + i)) := by
  have hlength := h.length_pending
  by_cases hold : i < s.pending.length
  · rw [List.getElem?_append_left hold, h.pending i hold]
  -- nothing has been received for a place that is new
  have hnone : firstReceived calls (s.delivered + 1 + i) = none := by
    refine firstReceived_eq_none fun c' hc' => ?_
    have hreceived := h.received c' hc'
    omega
  rw [List.getElem?_append_right (by omega), hnone, List.getElem?_replicate, if_pos (by omega)]

theorem Tracks.add_pending (h : Tracks limit calls s) (hlegal : c.Legal s)
    (hc : c.delivered = false)
    (hnear : c.sequenceNumber - s.delivered ≤ limit) :
    ∃ s' dirty, c.apply limit s = .ok (s', dirty) ∧ Tracks limit (calls ++ [c]) s' := by
  have hlt : s.delivered < c.sequenceNumber := by simpa [hc] using hlegal.2
  have hlength := h.length_pending
  have hint := h.length_le
  have hgrown := fun i => h.getElem?_grown c.sequenceNumber (i := i)
  unfold Call.apply add
  rw [hc]
  simp only [Bool.false_eq_true, if_false]
  rw [if_neg (by omega), if_neg (by omega)]
  have hgrownLength : (s.pending ++ List.replicate (max s.received c.sequenceNumber - s.delivered -
      s.pending.length) none).length = max s.received c.sequenceNumber - s.delivered := by
    rw [List.length_append, List.length_replicate]
    omega
  generalize s.pending ++ List.replicate (max s.received c.sequenceNumber - s.delivered -
    s.pending.length) none = grown at hgrown hgrownLength ⊢
  have hreceived : ∀ c' ∈ calls ++ [c], c'.sequenceNumber ≤ max s.received c.sequenceNumber := by
    intro c' hc'
    rcases List.mem_append.1 hc' with hc' | hc'
    · have hold := h.received c' hc'
      omega
    · rw [List.mem_singleton.1 hc']
      omega
  -- the place of the transaction, and those of the others
  have hnumber : s.delivered + 1 + (c.sequenceNumber - s.delivered - 1) =
      c.sequenceNumber := by
    omega
  have hplace := hgrown (c.sequenceNumber - s.delivered - 1) (by omega)
  have hother : ∀ i, i ≠ c.sequenceNumber - s.delivered - 1 →
      firstReceived (calls ++ [c]) (s.delivered + 1 + i) =
        firstReceived calls (s.delivered + 1 + i) := by
    intro i hi
    have hne : c.sequenceNumber ≠ s.delivered + 1 + i := by omega
    rw [firstReceived_concat, if_neg hne, Option.or_none]
  rw [hnumber] at hplace
  rw [hplace]
  cases hfirst : firstReceived calls c.sequenceNumber with
  | some txid =>
    refine ⟨_, _, rfl, .of_pending ?_ hgrownLength ?_ ?_ hreceived⟩
    · show s.delivered ≤ max s.received c.sequenceNumber
      omega
    · show grown.length ≤ limit
      omega
    intro i hi
    have hi : i < grown.length := hi
    rw [hgrown i (by omega)]
    by_cases hplace : i = c.sequenceNumber - s.delivered - 1
    · rw [hplace, hnumber, firstReceived_concat, hfirst, Option.some_or]
    · rw [hother i hplace]
  | none =>
    refine ⟨_, _, rfl, .of_pending ?_ ?_ ?_ ?_ hreceived⟩
    · show s.delivered ≤ max s.received c.sequenceNumber
      omega
    · rw [List.length_set, hgrownLength]
    · rw [List.length_set]
      omega
    · intro i hi
      rw [List.length_set] at hi
      by_cases hplace : i = c.sequenceNumber - s.delivered - 1
      · rw [← hplace, List.getElem?_set_self hi, hplace, hnumber, firstReceived_concat, hfirst,
          Option.none_or, if_pos rfl]
      · rw [List.getElem?_set_ne (Ne.symm hplace), hgrown i (by omega), hother i hplace]

theorem Tracks.apply (h : Tracks limit calls s) (hlegal : c.Legal s) (hnear : c.Near limit s) :
    ∃ s' dirty, c.apply limit s = .ok (s', dirty) ∧ Tracks limit (calls ++ [c]) s' := by
  cases hc : c.delivered with
  | true => exact h.add_delivered hlegal hc
  | false =>
    rcases hnear with hnear | hnear
    · rw [hc] at hnear
      cases hnear
    · exact h.add_pending hlegal hc hnear

theorem Tracks.apply_of_not_near (h : Tracks limit calls s) (hnear : ¬ c.Near limit s) :
    ∃ m, c.apply limit s = .panic m := by
  have hlength := h.length_pending
  have hint := h.length_le
  unfold Call.Near at hnear
  rw [not_or, Bool.not_eq_true] at hnear
  unfold Call.apply add
  rw [hnear.1]
  simp only [Bool.false_eq_true, if_false]
  rw [if_pos (by omega)]
  exact ⟨_, rfl⟩

/-! ## Runs -/

theorem Tracks.run (h : Tracks limit calls s)
    (hlegal : EveryCall limit (fun s c => c.Legal s) s more)
    (hnear : EveryCall limit (fun s c => c.Near limit s) s more) :
    ∃ s', s.run limit more = .ok s' ∧ Tracks limit (calls ++ more) s' := by
  induction more generalizing calls s with
  | nil => exact ⟨s, rfl, by rwa [List.append_nil]⟩
  | cons c more ih =>
    obtain ⟨s₁, dirty, hrun, h₁⟩ := h.apply hlegal.1 hnear.1
    obtain ⟨s', hrest, h'⟩ := ih h₁ (hlegal.2 s₁ dirty hrun) (hnear.2 s₁ dirty hrun)
    refine ⟨s', ?_, by rwa [List.append_assoc] at h'⟩
    show (c.apply limit s >>= fun r => r.1.run limit more) = _
    rw [hrun]
    exact hrest

theorem Tracks.near_of_run (h : Tracks limit calls s)
    (hlegal : EveryCall limit (fun s c => c.Legal s) s more) (hrun : s.run limit more = .ok s') :
    EveryCall limit (fun s c => c.Near limit s) s more := by
  induction more generalizing calls s with
  | nil => trivial
  | cons c more ih =>
    obtain ⟨⟨s₁, dirty⟩, hcall, hrest⟩ := Outcome.bind_eq_ok.1 hrun
    have hnear : c.Near limit s := by
      by_contra hnear
      obtain ⟨m, hpanic⟩ := h.apply_of_not_near hnear
      rw [hpanic] at hcall
      cases hcall
    obtain ⟨s₂, dirty₂, hcall₂, h₂⟩ := h.apply hlegal.1 hnear
    refine ⟨hnear, fun s₃ dirty₃ hcall₃ => ?_⟩
    rw [hcall] at hcall₂ hcall₃
    cases hcall₂
    cases hcall₃
    exact ih h₂ (hlegal.2 _ _ hcall) hrest

/-- Exactly if no waiting transaction is too far ahead, every call returns and the ledger keeps
track of what was received. -/
theorem run_tracks_iff (limit : Nat) (u : Url) (calls : List Call)
    (hlegal : EveryCall limit (fun s c => c.Legal s) (empty u) calls) :
    (∃ s, (empty u).run limit calls = .ok s ∧ Tracks limit calls s) ↔
      EveryCall limit (fun s c => c.Near limit s) (empty u) calls := by
  constructor
  · rintro ⟨s, hrun, -⟩
    exact (tracks_empty u).near_of_run hlegal hrun
  · intro hnear
    simpa using (tracks_empty u).run hlegal hnear

def sampleCalls : List Call :=
  [⟨false, 2, ⟨acmeUrl, 2⟩⟩, ⟨false, 2, ⟨acmeUrl, 3⟩⟩, ⟨true, 1, ⟨acmeUrl, 1⟩⟩]

theorem run_tracks_sample :
    ∃ s, (empty dnUrl).run 2 sampleCalls = .ok s ∧ Tracks 2 sampleCalls s := by
  refine (run_tracks_iff 2 dnUrl sampleCalls ?_).2 ?_
  · refine ⟨by decide, fun s₁ _ h₁ => ?_⟩
    cases h₁
    refine ⟨by decide, fun s₂ _ h₂ => ?_⟩
    cases h₂
    exact ⟨by decide, fun _ _ _ => trivial⟩
  · refine ⟨by decide, fun s₁ _ h₁ => ?_⟩
    cases h₁
    refine ⟨by decide, fun s₂ _ h₂ => ?_⟩
    cases h₂
    exact ⟨by decide, fun _ _ _ => trivial⟩

def farCall : Call := ⟨false, 2 ^ 63, ⟨acmeUrl, 1⟩⟩

/-- A single waiting transaction with a large number makes `Add` panic. -/
theorem run_far_panics : farCall.Legal (empty dnUrl) ∧
    ∀ limit < 2 ^ 63, ∃ m, (empty dnUrl).run limit [farCall] = .panic m := by
  refine ⟨⟨by decide, by decide⟩, fun limit hlimit => ?_⟩
  have hnear : ¬ farCall.Near limit (empty dnUrl) := by
    rintro (hdelivered | hnear)
    · cases hdelivered
    · exact absurd hlimit (Nat.not_lt.2 hnear)
  obtain ⟨m, hpanic⟩ := (tracks_empty dnUrl).apply_of_not_near hnear
  refine ⟨m, ?_⟩
  rw [run, hpanic]
  rfl

end Runs

end TransactionExchangeLedger
end Accumulate.Protocol
