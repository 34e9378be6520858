import Accumulate.Core.Globals
import Accumulate.Database.SignatureSet
import Mathlib.Data.Finset.Card
import Mathlib.Data.Sum.Order

/-!
# Signature sets in a batch

The signature sets of a transaction and a signer that are opened in a batch share the data the
record has loaded: `newSigSet` resets and `Add` changes it in place, but only an addition of a new
entry marks the record as changed, so that a commit stores it.

The entries stay sorted, and those of key entries are of the current version
(`stored_sound`).  What is read depends on when the batch is committed, unless each addition
either has a new entry or changes nothing (`reads_same_iff`).
-/

namespace Accumulate.Database

open Library Protocol Executor

namespace SigSetEntry

/-- The entry is for a key entry of the signer: it is neither a system nor a validator entry. -/
def isIndexed (e : SigSetEntry) : Bool := !e.type.isSystem && e.validatorKeyHash.isNone

/-- `SigSetEntry.Compare` in 64 bits, where `int(s.KeyEntryIndex) - int(t.KeyEntryIndex)` wraps
around. -/
def compare64 (s t : SigSetEntry) : Ordering :=
  if s.isIndexed && t.isIndexed then
    Ord.compare (Int.bmod ((s.keyEntryIndex : Int) - t.keyEntryIndex) (2 ^ 64)) 0
  else s.compare t

/-- The place of an entry among the three classes. -/
def place (e : SigSetEntry) : Nat ⊕ₗ (List Nat ⊕ₗ Nat) :=
  if e.type.isSystem then Sum.inlₗ e.signatureHash.toNat
  else
    match e.validatorKeyHash with
    | some k => Sum.inrₗ (Sum.inlₗ k.digits)
    | none => Sum.inrₗ (Sum.inrₗ e.keyEntryIndex)

open Sum.Lex in
theorem compare_eq (s t : SigSetEntry) : s.compare t = Ord.compare s.place t.place := by
  have hinl : ∀ {α β : Type} [LinearOrder α] [LinearOrder β] (a b : α),
      Ord.compare (Sum.inlₗ a : α ⊕ₗ β) (Sum.inlₗ b) = Ord.compare a b := fun a b => by
    rw [← cmp_eq_compare, inl_strictMono.cmp_map_eq, cmp_eq_compare]
  have hinr : ∀ {α β : Type} [LinearOrder α] [LinearOrder β] (a b : β),
      Ord.compare (Sum.inrₗ a : α ⊕ₗ β) (Sum.inrₗ b) = Ord.compare a b := fun a b => by
    rw [← cmp_eq_compare, inr_strictMono.cmp_map_eq, cmp_eq_compare]
  unfold SigSetEntry.compare place
  cases s.type.isSystem <;> cases t.type.isSystem
  · cases s.validatorKeyHash <;> cases t.validatorKeyHash
    · exact ((hinr _ _).trans (hinr _ _)).symm
    · exact ((hinr _ _).trans (compare_gt_iff_gt.2 (inl_lt_inr _ _))).symm
    · exact ((hinr _ _).trans (compare_lt_iff_lt.2 (inl_lt_inr _ _))).symm
    · exact (Bytes.compare_eq _ _).trans ((hinr _ _).trans (hinl _ _)).symm
  · cases s.validatorKeyHash <;> exact (compare_gt_iff_gt.2 (inl_lt_inr _ _)).symm
  · cases t.validatorKeyHash <;> exact (compare_lt_iff_lt.2 (inl_lt_inr _ _)).symm
  · exact (hinl _ _).symm

theorem compare64_eq {s t : SigSetEntry} (hs : s.keyEntryIndex < 2 ^ 63)
    (ht : t.keyEntryIndex < 2 ^ 63) : s.compare64 t = s.compare t := by
  unfold compare64
  split
  · rename_i hindexed
    simp only [isIndexed, Bool.and_eq_true, Bool.not_eq_true', Option.isNone_iff_eq_none]
      at hindexed
    obtain ⟨⟨hsystem, hkey⟩, hsystem', hkey'⟩ := hindexed
    have hdiff : Int.bmod ((s.keyEntryIndex : Int) - t.keyEntryIndex) (2 ^ 64) =
        s.keyEntryIndex - t.keyEntryIndex := by
      apply Int.bmod_eq_of_le <;> omega
    simp only [SigSetEntry.compare, hsystem, hkey, hsystem', hkey']
    rcases Nat.lt_trichotomy s.keyEntryIndex t.keyEntryIndex with hlt | heq | hgt
    · exact (compare_lt_iff_lt.2 (by omega)).trans (compare_lt_iff_lt.2 hlt).symm
    · exact (compare_eq_iff_eq.2 (by omega)).trans (compare_eq_iff_eq.2 heq).symm
    · exact (compare_gt_iff_gt.2 (by omega)).trans (compare_gt_iff_gt.2 hgt).symm
  · rfl

end SigSetEntry

/-- A key signature of another version of the signer, unless it is a validator's. -/
def SigSetData.rejects (s : SigSetData) (newEntry : SigSetEntry) : Signature → Bool
  | .key k => newEntry.validatorKeyHash.isNone && s.version ≠ k.signerVersion
  | _ => false

def SigSetData.add64 (s : SigSetData) (newEntry : SigSetEntry) (newSignature : Signature) :
    SigSetData × Bool :=
  if s.rejects newEntry newSignature then (s, false)
  else
    let r := upsert s.entries (·.compare64 newEntry) newEntry
    ({ s with entries := r.1 }, r.2)

/-- `newSigSet` on the data of a writable set. -/
def SigSetData.opened (s : SigSetData) (version : Nat) : SigSetData :=
  if s.version ≠ version then s.reset version else s

/-- The record of a signature set in a batch, and what is stored below the batch. -/
structure SigSetRecord where
  stored : SigSetData
  /-- The value of the record once it has been loaded; all open sets have a pointer to it. -/
  loaded : Option SigSetData
  dirty : Bool

namespace SigSetRecord

def fresh (stored : SigSetData) : SigSetRecord := ⟨stored, none, false⟩

/-- `Value.Get`, which is what a set that is opened as read-only has. -/
def get (r : SigSetRecord) : SigSetData := r.loaded.getD r.stored

def openSet (r : SigSetRecord) (version : Nat) : SigSetRecord :=
  { r with loaded := some (r.get.opened version) }

/-- `SignatureSet.Add`: the entry is put into the loaded data, and the record becomes dirty if it
is a new one. -/
def add (c : Crypto) (r : SigSetRecord) (keyEntryIndex : Nat) (newSignature : Signature) :
    SigSetRecord :=
  let (s, isNew) := r.get.add64 (newSigSetEntry c keyEntryIndex newSignature) newSignature
  { r with loaded := some s, dirty := r.dirty || isNew }

def commit (r : SigSetRecord) : SigSetRecord := fresh (if r.dirty then r.get else r.stored)

inductive Op where
  | openSet (version : Nat)
  | add (keyEntryIndex : Nat) (newSignature : Signature)
  | commit

def step (c : Crypto) (r : SigSetRecord) : Op → SigSetRecord
  | .openSet version => r.openSet version
  | .add keyEntryIndex newSignature => r.add c keyEntryIndex newSignature
  | .commit => r.commit

def run (c : Crypto) (ops : List Op) : SigSetRecord := ops.foldl (step c) (fresh ⟨0, []⟩)

end SigSetRecord

/-- What holds of the data after some of the operations. -/
structure SigSetData.Sound (c : Crypto) (ops : List SigSetRecord.Op) (s : SigSetData) : Prop where
  sorted : s.entries.Pairwise fun e f => e.place < f.place
  index : ∀ e ∈ s.entries, e.keyEntryIndex < 2 ^ 63
  version : ∀ e ∈ s.entries, e.isIndexed = true → ∃ i sig, .add i sig ∈ ops ∧
    e = newSigSetEntry c i sig ∧ ∀ k, sig = .key k → k.signerVersion = s.version

section Sound

variable {c : Crypto} {ops : List SigSetRecord.Op} {s : SigSetData}

theorem SigSetData.Sound.opened (h : s.Sound c ops) (version : Nat) :
    (s.opened version).Sound c ops := by
  unfold SigSetData.opened
  split
  · refine ⟨h.sorted.filter _, fun e he => h.index e (List.mem_of_mem_filter he), fun e he hi => ?_⟩
    have hretained := List.of_mem_filter he
    simp only [SigSetEntry.isIndexed, Bool.and_eq_true, Bool.not_eq_true',
      Option.isNone_iff_eq_none] at hi
    simp [hi] at hretained
  · exact h

theorem SigSetData.Sound.add64 (h : s.Sound c ops) {i : Nat} {sig : Signature}
    (hop : .add i sig ∈ ops) (hi : i < 2 ^ 63) :
    (s.add64 (newSigSetEntry c i sig) sig).1.Sound c ops := by
  unfold SigSetData.add64
  split
  · exact h
  rename_i hrejected
  refine ⟨?_, fun e he => ?_, fun e he hindexed => ?_⟩
  · rw [upsert_congr fun e he => (SigSetEntry.compare64_eq (h.index e he) hi).trans
      (SigSetEntry.compare_eq e _)]
    exact pairwise_upsert h.sorted rfl
  · rcases mem_upsert he with rfl | hold
    · exact hi
    · exact h.index e hold
  · rcases mem_upsert he with rfl | hold
    · refine ⟨i, sig, hop, rfl, ?_⟩
      rintro k rfl
      by_contra hne
      have hkey := (Bool.and_eq_true_iff.1 hindexed).2
      exact hrejected (Bool.and_eq_true_iff.2 ⟨hkey, decide_eq_true (Ne.symm hne)⟩)
    · exact h.version e hold hindexed

theorem SigSetRecord.run_sound (hindex : ∀ i sig, .add i sig ∈ ops → i < 2 ^ 63) :
    (run c ops).stored.Sound c ops ∧ (run c ops).get.Sound c ops := by
  have hnew : SigSetData.Sound c ops ⟨0, []⟩ := ⟨.nil, by simp, by simp⟩
  refine List.foldlRecOn ops (step c) (motive := fun r => r.stored.Sound c ops ∧ r.get.Sound c ops)
    ⟨hnew, hnew⟩ fun r ⟨hstored, hget⟩ op hop => ?_
  cases op with
  | openSet version => exact ⟨hstored, hget.opened version⟩
  | add i sig => exact ⟨hstored, hget.add64 hop (hindex i sig hop)⟩
  | commit =>
    have hnext : (if r.dirty then r.get else r.stored).Sound c ops := by
      split
      · exact hget
      · exact hstored
    exact ⟨hnext, hnext⟩

theorem SigSetData.Sound.nodup_place (h : s.Sound c ops) : (s.entries.map (·.place)).Nodup :=
  List.pairwise_map.2 (h.sorted.imp ne_of_lt)

theorem SigSetData.Sound.length_le (h : s.Sound c ops) :
    s.entries.length ≤ (s.entries.filter (·.type.isSystem)).length +
      (s.entries.filterMap (·.validatorKeyHash)).toFinset.card +
      ((s.entries.filter (·.isIndexed)).map (·.keyEntryIndex)).toFinset.card := by
  rw [← List.length_map (·.place), ← List.toFinset_card_of_nodup h.nodup_place]
  let system := ((s.entries.filter (·.type.isSystem)).map (·.place)).toFinset
  let validators := (s.entries.filterMap (·.validatorKeyHash)).toFinset.image fun k =>
    (Sum.inrₗ (Sum.inlₗ k.digits) : Nat ⊕ₗ (List Nat ⊕ₗ Nat))
  let indexed := ((s.entries.filter (·.isIndexed)).map (·.keyEntryIndex)).toFinset.image fun i =>
    (Sum.inrₗ (Sum.inrₗ i) : Nat ⊕ₗ (List Nat ⊕ₗ Nat))
  have hsub : (s.entries.map (·.place)).toFinset ⊆ system ∪ validators ∪ indexed := by
    intro p hp
    obtain ⟨e, he, rfl⟩ := List.mem_map.1 (List.mem_toFinset.1 hp)
    simp only [system, validators, indexed, Finset.mem_union, Finset.mem_image, List.mem_toFinset,
      List.mem_map, List.mem_filter, List.mem_filterMap]
    cases hsystem : e.type.isSystem with
    | true => exact .inl (.inl ⟨e, ⟨he, hsystem⟩, rfl⟩)
    | false =>
      cases hkey : e.validatorKeyHash with
      | some k => exact .inl (.inr ⟨k, ⟨e, he, hkey⟩, by simp [SigSetEntry.place, hsystem, hkey]⟩)
      | none =>
        have hindexed : e.isIndexed = true := by simp [SigSetEntry.isIndexed, hsystem, hkey]
        exact .inr ⟨e.keyEntryIndex, ⟨e, ⟨he, hindexed⟩, rfl⟩,
          by simp [SigSetEntry.place, hsystem, hkey]⟩
  calc (s.entries.map (·.place)).toFinset.card
      ≤ (system ∪ validators ∪ indexed).card := Finset.card_le_card hsub
    _ ≤ system.card + validators.card + indexed.card :=
        (Finset.card_union_le _ _).trans (Nat.add_le_add_right (Finset.card_union_le _ _) _)
    _ ≤ _ := Nat.add_le_add (Nat.add_le_add ((List.toFinset_card_le _).trans_eq
        (List.length_map _)) Finset.card_image_le) Finset.card_image_le

end Sound

namespace SigSetRecord

/-- **The stored entries of a signature set.**  They are strictly increasing, those of key entries
were made with the version of the set, and there are no more than one for each system signature,
validator key and key entry index. -/
theorem stored_sound (c : Crypto) (ops : List Op)
    (hindex : ∀ i sig, .add i sig ∈ ops → i < 2 ^ 63) :
    let s := (run c ops).stored
    s.entries.Pairwise (fun e f => e.compare64 f = .lt) ∧ s.entries.Nodup ∧
      (∀ e ∈ s.entries, e.isIndexed = true → ∃ i sig, .add i sig ∈ ops ∧
        e = newSigSetEntry c i sig ∧ ∀ k, sig = .key k → k.signerVersion = s.version) ∧
      s.entries.length ≤ (s.entries.filter (·.type.isSystem)).length +
        (s.entries.filterMap (·.validatorKeyHash)).toFinset.card +
        ((s.entries.filter (·.isIndexed)).map (·.keyEntryIndex)).toFinset.card := by
  have h := (run_sound (c := c) hindex).1
  refine ⟨?_, h.nodup_place.of_map, h.version, h.length_le⟩
  · refine h.sorted.imp_of_mem fun {e f} he hf hlt => ?_
    rw [SigSetEntry.compare64_eq (h.index e he) (h.index f hf), SigSetEntry.compare_eq]
    exact compare_lt_iff_lt.2 hlt

def timed (timestamp : Nat) : Signature :=
  .key ⟨.ed25519, [1], [], none, 1, timestamp, .accept, 0⟩

theorem stored_sound_two :
    let s := (run toyCrypto [.openSet 1, .add 3 (timed 0), .add 0 (timed 1), .commit]).stored
    s.entries.map (·.keyEntryIndex) = [0, 3] ∧
      s.entries.Pairwise (fun e f => e.compare64 f = .lt) :=
  ⟨by decide, (stored_sound toyCrypto _ (by simp; omega)).1⟩

/-- The difference of the indices `0` and `2 ^ 63` is negative both ways, so that an entry may be
inserted twice. -/
theorem stored_twice :
    (run toyCrypto [.openSet 1, .add (2 ^ 63) (timed 0), .add 0 (timed 0), .add (2 ^ 63) (timed 0),
      .commit]).stored.entries.map (·.keyEntryIndex) = [2 ^ 63, 0, 2 ^ 63] := by
  decide +kernel

/-! ### When the batch is committed -/

/-- A call of `Transaction.AddSignature`, and the version the signer has then. -/
structure Addition where
  version : Nat
  keyEntryIndex : Nat
  signature : Signature

def sign (c : Crypto) (r : SigSetRecord) (a : Addition) : SigSetRecord :=
  (r.openSet a.version).add c a.keyEntryIndex a.signature

/-- Additions, each with whether the batch is committed and reopened after it. -/
def signAll (c : Crypto) (r : SigSetRecord) (l : List (Addition × Bool)) : SigSetRecord :=
  l.foldl (fun r a => if a.2 then (r.sign c a.1).commit else r.sign c a.1) r

/-- The data after an addition in memory, and whether it is marked as changed. -/
def added (c : Crypto) (s : SigSetData) (a : Addition) : SigSetData × Bool :=
  (s.opened a.version).add64 (newSigSetEntry c a.keyEntryIndex a.signature) a.signature

/-- What is stored after an addition in a batch of its own. -/
def settled (c : Crypto) (s : SigSetData) (a : Addition) : SigSetData :=
  if (added c s a).2 then (added c s a).1 else s

/-- The addition has a new entry, or it changes no entries. -/
def Steady (c : Crypto) (s : SigSetData) (a : Addition) : Prop :=
  (added c s a).2 = true ∨ (added c s a).1.entries = s.entries

/-- Two sets that cannot be told apart by their entries, now or later. -/
def Alike (s t : SigSetData) : Prop :=
  s.entries = t.entries ∧ (s.version = t.version ∨ ∀ e ∈ t.entries, e.isIndexed = false)

/-- The record stands for the set `s`. -/
def StandsFor (r : SigSetRecord) (s : SigSetData) : Prop :=
  Alike r.get s ∧ (r.dirty = true ∨ Alike r.stored s)

section Steady

variable {c : Crypto} {s t : SigSetData} {a : Addition} {r : SigSetRecord}

theorem opened_of_retained (h : ∀ e ∈ s.entries, e.isIndexed = false) (version : Nat) :
    s.opened version = ⟨version, s.entries⟩ := by
  unfold SigSetData.opened
  split
  · refine congrArg (SigSetData.mk version) (List.filter_eq_self.2 fun e he => ?_)
    have hretained := h e he
    rw [SigSetEntry.isIndexed] at hretained
    cases hsystem : e.type.isSystem <;> simp_all
  · rename_i hsame
    rw [← not_not.1 hsame]

theorem Alike.opened (h : Alike s t) (version : Nat) : s.opened version = t.opened version := by
  obtain ⟨hentries, hversion | hretained⟩ := h
  · obtain rfl : s = t := by
      exact congrArg₂ SigSetData.mk hversion hentries
    rfl
  · rw [opened_of_retained hretained, opened_of_retained (hentries ▸ hretained), hentries]

theorem version_add64 (s : SigSetData) (e : SigSetEntry) (sig : Signature) :
    (s.add64 e sig).1.version = s.version := by
  unfold SigSetData.add64
  split <;> rfl

theorem length_add64 {e : SigSetEntry} {sig : Signature} (h : (s.add64 e sig).2 = false) :
    (s.add64 e sig).1.entries.length = s.entries.length := by
  unfold SigSetData.add64 upsert at h ⊢
  split
  · rfl
  rename_i hrejected
  rw [if_neg hrejected] at h
  split at h
  · rename_i hfound
    rw [if_pos hfound, List.length_set]
  · cases h

/-- An addition that is not noticed and keeps the entries leaves a set that cannot be told apart
from the one before. -/
theorem alike_added (hnew : (added c s a).2 = false) (hsame : (added c s a).1.entries = s.entries) :
    Alike (added c s a).1 s := by
  refine ⟨hsame, ?_⟩
  have hlength : s.entries.length = (s.opened a.version).entries.length :=
    hsame ▸ length_add64 hnew
  have hkept : (added c s a).1.version = (s.opened a.version).version := version_add64 _ _ _
  rw [SigSetData.opened] at hlength hkept
  split at hlength
  · refine .inr fun e he => ?_
    have hretained := List.length_filter_eq_length_iff.1 hlength.symm e he
    rw [SigSetEntry.isIndexed]
    cases hsystem : e.type.isSystem <;> simp_all
  · rename_i hversion
    rw [if_neg hversion] at hkept
    exact .inl hkept

theorem StandsFor.sign (h : r.StandsFor s) (ha : Steady c s a) :
    (r.sign c a).StandsFor (settled c s a) := by
  have hget : (r.sign c a).get = (added c s a).1 := by
    unfold added
    rw [← h.1.opened]
    rfl
  have hdirty : (r.sign c a).dirty = (r.dirty || (added c s a).2) := by
    unfold added
    rw [← h.1.opened]
    rfl
  unfold StandsFor settled
  rw [hget, hdirty]
  cases hnew : (added c s a).2 with
  | true => exact ⟨⟨rfl, .inl rfl⟩, .inl (Bool.or_true _)⟩
  | false =>
    have hsame := ha.resolve_left (hnew ▸ Bool.false_ne_true)
    rw [Bool.or_false]
    exact ⟨alike_added hnew hsame, h.2⟩

theorem StandsFor.commit (h : r.StandsFor s) : r.commit.StandsFor s := by
  have hnext : Alike (if r.dirty then r.get else r.stored) s := by
    split
    · exact h.1
    · rename_i hclean
      exact h.2.resolve_left hclean
  exact ⟨hnext, .inr hnext⟩

theorem signAll_append (c : Crypto) (r : SigSetRecord) (l m : List (Addition × Bool)) :
    signAll c r (l ++ m) = signAll c (signAll c r l) m :=
  List.foldl_append ..

theorem signAll_batches (l : List Addition) (s : SigSetData) :
    signAll c (fresh s) (l.map (·, true)) = fresh (l.foldl (settled c) s) := by
  induction l generalizing s with
  | nil => rfl
  | cons a l ih => exact ih (settled c s a)

theorem standsFor_signAll {l : List Addition}
    (h : ∀ i a, l[i]? = some a → Steady c ((l.take i).foldl (settled c) s) a)
    {p : List (Addition × Bool)} (hp : p.map (·.1) = l) (hr : r.StandsFor s) :
    (signAll c r p).StandsFor (l.foldl (settled c) s) := by
  induction p generalizing r s l with
  | nil =>
    subst hp
    exact hr
  | cons a p ih =>
    subst hp
    have hsign := hr.sign (h 0 a.1 rfl)
    refine ih (l := p.map (·.1)) (fun i b hb => h (i + 1) b hb) rfl ?_
    dsimp only
    split
    · exact hsign.commit
    · exact hsign

end Steady

/-- **When it does not matter where a batch ends.**  The entries that are read after any number of
the additions are the same, whatever batches there have been, exactly if each addition has a new
entry or leaves the entries as they are: an entry that is there is not replaced by another one,
and no entries of an old version are dropped for a signature that is not added. -/
theorem reads_same_iff (c : Crypto) (s : SigSetData) (l : List Addition) :
    (∀ n, ∀ p q : List (Addition × Bool), p.map (·.1) = l.take n → q.map (·.1) = l.take n →
        (signAll c (fresh s) p).get.entries = (signAll c (fresh s) q).get.entries) ↔
      ∀ i a, l[i]? = some a → Steady c ((l.take i).foldl (settled c) s) a := by
  constructor
  · intro h i a ha
    -- the last addition in a batch of its own, or not committed
    have htake : l.take (i + 1) = l.take i ++ [a] := by
      rw [List.take_add_one, ha, Option.toList_some]
    have hlast := h (i + 1) ((l.take i).map (·, true) ++ [(a, true)])
      ((l.take i).map (·, true) ++ [(a, false)]) (by simp [htake, Function.comp_def])
      (by simp [htake, Function.comp_def])
    rw [signAll_append, signAll_append, signAll_batches] at hlast
    generalize (l.take i).foldl (settled c) s = t at hlast ⊢
    cases hnew : (added c t a).2 with
    | true => exact .inl hnew
    | false =>
      right
      have hcommit : (signAll c (fresh t) [(a, true)]).get = settled c t a := rfl
      rw [hcommit, settled, hnew] at hlast
      exact hlast.symm
  · intro h n p q hp hq
    have hfirst : ∀ i a, (l.take n)[i]? = some a →
        Steady c (((l.take n).take i).foldl (settled c) s) a := by
      intro i a ha
      have hi : i < n := by
        have hlt := (List.getElem?_eq_some_iff.1 ha).1
        rw [List.length_take] at hlt
        omega
      rw [List.getElem?_take_of_lt hi] at ha
      rw [List.take_take, Nat.min_eq_left hi.le]
      exact h i a ha
    have hfresh : (fresh s).StandsFor s := ⟨⟨rfl, .inl rfl⟩, .inr ⟨rfl, .inl rfl⟩⟩
    exact (standsFor_signAll hfirst hp hfresh).1.1.trans
      (standsFor_signAll hfirst hq hfresh).1.1.symm

/-- A second signature for a key entry takes the place of the first one, if both are added in one
batch. -/
theorem reads_differ :
    (signAll toyCrypto (fresh ⟨1, []⟩)
      [(⟨1, 0, timed 0⟩, false), (⟨1, 0, timed 1⟩, true)]).get.entries.map (·.signatureHash) =
        [101] ∧
    (signAll toyCrypto (fresh ⟨1, []⟩)
      [(⟨1, 0, timed 0⟩, true), (⟨1, 0, timed 1⟩, true)]).get.entries.map (·.signatureHash) =
        [100] := by
  decide

end SigSetRecord

end Accumulate.Database
