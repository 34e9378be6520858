import Mathlib.Logic.Basic

/-!
# Merkle receipts

The receipts of `smt/managed/receipt.go`.  A receipt claims that folding its
entries over `start` gives `anchor`.  The hash type and the function that hashes
two concatenated hashes are parameters.
-/

namespace Accumulate.Smt

/-- `ReceiptEntry`: a sibling hash and the side it is applied from. -/
structure ReceiptEntry (α : Type) where
  right : Bool
  hash : α
deriving DecidableEq, Repr

structure Receipt (α : Type) where
  start : α
  startIndex : Nat
  endHash : α
  endIndex : Nat
  anchor : α
  entries : List (ReceiptEntry α)
deriving DecidableEq, Repr

section

variable {α : Type} (combine : α → α → α)

def ReceiptEntry.apply (n : ReceiptEntry α) (hash : α) : α :=
  if n.right then combine hash n.hash else combine n.hash hash

def applyEntries (entries : List (ReceiptEntry α)) (hash : α) : α :=
  entries.foldl (fun h n => n.apply combine h) hash

@[simp] theorem applyEntries_nil (h : α) : applyEntries combine [] h = h := rfl

@[simp] theorem applyEntries_cons (n : ReceiptEntry α) (ns : List (ReceiptEntry α)) (h : α) :
    applyEntries combine (n :: ns) h = applyEntries combine ns (n.apply combine h) := rfl

@[simp] theorem applyEntries_append (ns ms : List (ReceiptEntry α)) (h : α) :
    applyEntries combine (ns ++ ms) h = applyEntries combine ms (applyEntries combine ns h) := by
  simp [applyEntries]

/-- The hashes on the way of a receipt, from its start to its anchor. -/
def pathHashes : List (ReceiptEntry α) → α → List α
  | [], hash => [hash]
  | n :: ns, hash => hash :: pathHashes ns (n.apply combine hash)

theorem applyEntries_mem_pathHashes (entries : List (ReceiptEntry α)) (hash : α) :
    applyEntries combine entries hash ∈ pathHashes combine entries hash := by
  induction entries generalizing hash with
  | nil => exact List.mem_singleton_self hash
  | cons n ns ih => exact List.mem_cons_of_mem _ (ih _)

theorem pathHashes_append_sublist (entries rest : List (ReceiptEntry α)) (hash : α) :
    (pathHashes combine entries hash).Sublist (pathHashes combine (entries ++ rest) hash) := by
  induction entries generalizing hash with
  | nil => cases rest <;> simp [pathHashes]
  | cons n ns ih => exact (ih _).cons_cons _

namespace Receipt

variable [DecidableEq α]

def validate (r : Receipt α) : Bool := applyEntries combine r.entries r.start = r.anchor

/-- The second loop of `Receipt.Contains`: follow the entries of the other
receipt along our own, comparing the intermediate hashes. -/
def follows : List (ReceiptEntry α) → α → List (ReceiptEntry α) → α → Bool
  | _, _, [], _ => true
  | [], _, _ :: _, _ => false
  | n :: ns, hashSelf, m :: ms, hashOther =>
    let hashSelf := n.apply combine hashSelf
    let hashOther := m.apply combine hashOther
    hashSelf = hashOther && follows ns hashSelf ms hashOther

/-- The first loop of `Receipt.Contains`: advance along our own entries until
the hash the other receipt starts at is found. -/
def containsFrom : List (ReceiptEntry α) → α → Receipt α → Bool
  | entries, hashSelf, other =>
    if hashSelf = other.start then follows combine entries hashSelf other.entries other.start
    else
      match entries with
      | [] => false
      | n :: ns => containsFrom ns (n.apply combine hashSelf) other

def contains (r other : Receipt α) : Bool := containsFrom combine r.entries r.start other

/-- `Receipt.Combine`: attach a second receipt that starts at our anchor. -/
def combineWith (r rm : Receipt α) : Option (Receipt α) :=
  if r.anchor = rm.start then
    some { r with anchor := rm.anchor, entries := r.entries ++ rm.entries }
  else none

variable {combine} {entries : List (ReceiptEntry α)} {hash : α}

theorem follows_self (rest : List (ReceiptEntry α)) (hash : α) :
    follows combine (entries ++ rest) hash entries hash = true := by
  induction entries generalizing hash with
  | nil => cases rest <;> rfl
  | cons n ns ih => simp [follows, ih]

/-- The first loop of `Contains` goes on to the start of the other receipt, if no hash on the way
there is repeated. -/
theorem containsFrom_eq {other : Receipt α} (hnodup : (pathHashes combine entries hash).Nodup)
    (hstart : other.start = applyEntries combine entries hash) (rest : List (ReceiptEntry α)) :
    containsFrom combine (entries ++ rest) hash other =
      follows combine rest other.start other.entries other.start := by
  induction entries generalizing hash with
  | nil =>
    obtain rfl : other.start = hash := hstart
    unfold containsFrom
    exact if_pos rfl
  | cons n ns ih =>
    obtain ⟨hnot, hrest⟩ := List.nodup_cons.1 hnodup
    have hmem := applyEntries_mem_pathHashes combine ns (n.apply combine hash)
    rw [← applyEntries_cons, ← hstart] at hmem
    have hne : hash ≠ other.start := fun heq => hnot (heq ▸ hmem)
    unfold containsFrom
    rw [if_neg hne]
    exact ih hrest hstart

end Receipt

/-- The receipts start at the hash and continue each other, and each of them is valid. -/
def Chained [DecidableEq α] : α → List (Receipt α) → Prop
  | _, [] => True
  | hash, r :: rs => r.start = hash ∧ r.validate combine = true ∧ Chained r.anchor rs

/-- The entries of some receipts, one after the other. -/
def joined (rs : List (Receipt α)) : List (ReceiptEntry α) := rs.flatMap (·.entries)

variable {combine} {hash : α} {rs : List (Receipt α)} {r : Receipt α} {i : Nat}

theorem joined_take_succ (hr : rs[i]? = some r) :
    joined (rs.take (i + 1)) = joined (rs.take i) ++ r.entries := by
  simp [joined, List.take_add_one, hr]

theorem exists_joined_take {k : Nat} (hr : rs[i]? = some r) (hik : i < k) :
    ∃ rest, joined (rs.take k) = joined (rs.take i) ++ (r.entries ++ rest) := by
  obtain ⟨n, rfl⟩ := Nat.exists_eq_add_of_lt hik
  refine ⟨joined ((rs.drop (i + 1)).take n), ?_⟩
  rw [Nat.add_right_comm, List.take_add, joined, List.flatMap_append, ← List.append_assoc,
    ← joined_take_succ hr]
  rfl

variable [DecidableEq α]

theorem Chained.get (h : Chained combine hash rs) (hr : rs[i]? = some r) :
    r.start = applyEntries combine (joined (rs.take i)) hash ∧
      r.anchor = applyEntries combine (joined (rs.take (i + 1))) hash := by
  induction rs generalizing hash i with
  | nil => cases hr
  | cons first rs ih =>
    obtain ⟨rfl, hvalid, hrest⟩ := h
    have hanchor : applyEntries combine first.entries first.start = first.anchor :=
      of_decide_eq_true hvalid
    cases i with
    | zero =>
      cases hr
      simp [joined, hanchor]
    | succ i =>
      have hnext := ih hrest hr
      simpa [joined, hanchor] using hnext

theorem Chained.validate (h : Chained combine hash rs) (hr : rs[i]? = some r) :
    r.validate combine = true := by
  obtain ⟨hstart, hanchor⟩ := h.get hr
  rw [Receipt.validate, hanchor, hstart, joined_take_succ hr, applyEntries_append]
  exact decide_eq_true rfl

end

end Accumulate.Smt
