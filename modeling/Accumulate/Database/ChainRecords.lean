import Accumulate.Database.BptEntries

/-!
# The records of a chain

The head of a chain, its elements, the index of its elements and the states at its mark points are
records of the account.  Adding a hash reads and writes these records and no others, and what it
does to them does not depend on anything else (`run_addHash`).  The records of a chain that has
been built by adding hashes are those of `Smt.Chain` (`ofChain_addHash`); the records of a chain
that was restored from its head are not.
-/

namespace Accumulate.Database
namespace Records

open Library Protocol Record

/-- What the records of a chain hold; missing records are `none`. -/
structure ChainRecords where
  head : Smt.MerkleState Hash
  states : Nat → Option (Smt.MerkleState Hash)
  elementIndex : Hash → Option Nat
  element : Nat → Option Hash

namespace ChainRecords

def empty : ChainRecords := ⟨.empty, fun _ => none, fun _ => none, fun _ => none⟩

/-- A chain of which only the head is there. -/
def ofHead (head : Smt.MerkleState Hash) : ChainRecords := { empty with head := head }

def ofChain (chain : Smt.Chain Hash) : ChainRecords :=
  ⟨chain.head, chain.states, chain.elementIndex, fun i => chain.elements[i]?⟩

def setHead (r : ChainRecords) (head : Smt.MerkleState Hash) : ChainRecords :=
  { r with head := head }

def setState (r : ChainRecords) (i : Nat) (s : Smt.MerkleState Hash) : ChainRecords :=
  { r with states := Function.update r.states i (some s) }

def setElementIndex (r : ChainRecords) (hash : Hash) (i : Nat) : ChainRecords :=
  { r with elementIndex := Function.update r.elementIndex hash (some i) }

def setElement (r : ChainRecords) (i : Nat) (hash : Hash) : ChainRecords :=
  { r with element := Function.update r.element i (some hash) }

variable (combine : Hash → Hash → Hash)

def nextHead (head : Smt.MerkleState Hash) (hash : Hash) : Smt.MerkleState Hash :=
  if (head.count + 1) % 2 ^ markPower = 1 then
    { head with hashList := [] }.addToMerkleTree combine hash
  else head.addToMerkleTree combine hash

def append (r : ChainRecords) (hash : Hash) : ChainRecords :=
  let s := r.setElement r.head.count hash
  if (r.head.count + 1) % 2 ^ markPower = 0 then
    let head := r.head.addToMerkleTree combine hash
    (s.setState (head.count - 1) head).setHead head
  else if (r.head.count + 1) % 2 ^ markPower = 1 then
    s.setHead ({ r.head with hashList := [] }.addToMerkleTree combine hash)
  else s.setHead (r.head.addToMerkleTree combine hash)

def addHash (r : ChainRecords) (hash : Hash) (unique : Bool) : ChainRecords :=
  match r.elementIndex hash with
  | some _ => if unique then r else r.append combine hash
  | none => (r.setElementIndex hash r.head.count).append combine hash

def addHashes (r : ChainRecords) (calls : List (Hash × Bool)) : ChainRecords :=
  calls.foldl (fun r call => r.addHash combine call.1 call.2) r

/-! ## Counting and indexing -/

variable (r : ChainRecords)

theorem append_head (hash : Hash) :
    (r.append combine hash).head = nextHead combine r.head hash := by
  unfold append nextHead
  split
  · rw [if_neg (by omega)]
    rfl
  · split <;> rfl

@[simp] theorem append_count (hash : Hash) :
    (r.append combine hash).head.count = r.head.count + 1 := by
  rw [append_head, nextHead]
  split <;> rfl

@[simp] theorem append_pending (hash : Hash) :
    (r.append combine hash).head.pending =
      Smt.MerkleState.addPending combine r.head.pending hash := by
  rw [append_head, nextHead]
  split <;> rfl

@[simp] theorem append_elementIndex (hash : Hash) :
    (r.append combine hash).elementIndex = r.elementIndex := by
  unfold append
  split
  · rfl
  · split <;> rfl

/-- After a call the hash is in the index, whether or not it has been added. -/
theorem addHash_elementIndex (hash : Hash) (unique : Bool) (h : Hash) :
    ((r.addHash combine hash unique).elementIndex h).isSome ↔
      (r.elementIndex h).isSome ∨ h = hash := by
  unfold addHash
  cases hi : r.elementIndex hash with
  | some i =>
    have hsame : ((if unique then r else r.append combine hash).elementIndex h).isSome ↔
        (r.elementIndex h).isSome := by
      cases unique <;> simp
    refine hsame.trans ⟨.inl, ?_⟩
    rintro (hh | rfl)
    · exact hh
    · rw [hi]
      rfl
  | none =>
    by_cases hh : h = hash
    · simp [setElementIndex, hh]
    · simp [setElementIndex, hh]

theorem addHashes_elementIndex (calls : List (Hash × Bool)) (h : Hash) :
    ((r.addHashes combine calls).elementIndex h).isSome ↔
      (r.elementIndex h).isSome ∨ h ∈ calls.map Prod.fst := by
  induction calls generalizing r with
  | nil => simp [addHashes]
  | cons call calls ih =>
    refine (ih (r.addHash combine call.1 call.2)).trans ?_
    rw [addHash_elementIndex, List.map_cons, List.mem_cons, or_assoc]

theorem empty_addHashes_elementIndex (calls : List (Hash × Bool)) (h : Hash) :
    ((empty.addHashes combine calls).elementIndex h).isSome ↔ h ∈ calls.map Prod.fst :=
  (addHashes_elementIndex combine empty calls h).trans (or_iff_right Bool.false_ne_true)

/-! ## Two chains -/

/-- The heads of two chains are the same, but for the list of the latest hashes. -/
def SameHead (r r' : ChainRecords) : Prop :=
  r.head.count = r'.head.count ∧ r.head.pending = r'.head.pending

variable {r r' : ChainRecords}

theorem SameHead.symm (h : SameHead r r') : SameHead r' r := ⟨h.1.symm, h.2.symm⟩

theorem SameHead.append (combine : Hash → Hash → Hash) (h : SameHead r r') (hash : Hash) :
    SameHead (r.append combine hash) (r'.append combine hash) :=
  ⟨by rw [append_count, append_count, h.1], by rw [append_pending, append_pending, h.2]⟩

theorem addHash_cases (r : ChainRecords) (hash : Hash) (unique : Bool) :
    (unique = true ∧ (r.elementIndex hash).isSome = true ∧ r.addHash combine hash unique = r) ∨
      (¬ (unique = true ∧ (r.elementIndex hash).isSome = true) ∧
        (r.addHash combine hash unique).head = (r.append combine hash).head) := by
  unfold addHash
  cases hi : r.elementIndex hash with
  | some i =>
    cases unique with
    | true => exact .inl ⟨rfl, rfl, rfl⟩
    | false =>
      refine .inr ⟨by simp, ?_⟩
      rw [if_neg Bool.false_ne_true]
  | none =>
    refine .inr ⟨by simp, ?_⟩
    rw [append_head, append_head]
    rfl

/-- One call keeps the heads the same if and only if a unique call finds the hash in both chains or
in neither. -/
theorem SameHead.addHash_iff (combine : Hash → Hash → Hash) (h : SameHead r r') (hash : Hash)
    (unique : Bool) :
    SameHead (r.addHash combine hash unique) (r'.addHash combine hash unique) ↔
      (unique = true → ((r.elementIndex hash).isSome ↔ (r'.elementIndex hash).isSome)) := by
  have happend := h.append combine hash
  have hcount := append_count combine r hash
  have hcount' := append_count combine r' hash
  rcases addHash_cases combine r hash unique with ⟨hu, hi, hr⟩ | ⟨hi, hr⟩ <;>
    rcases addHash_cases combine r' hash unique with ⟨hu', hi', hr'⟩ | ⟨hi', hr'⟩
  · rw [hr, hr']
    exact ⟨fun _ _ => iff_of_true hi hi', fun _ => h⟩
  · -- only the second chain adds the hash, so it is longer
    refine ⟨fun hsame => absurd hsame.1 ?_, fun hiff => absurd ⟨hu, (hiff hu).1 hi⟩ hi'⟩
    rw [hr, hr', h.1]
    omega
  · refine ⟨fun hsame => absurd hsame.1 ?_, fun hiff => absurd ⟨hu', (hiff hu').2 hi'⟩ hi⟩
    rw [hr, hr', hcount, h.1]
    omega
  · have hsame : SameHead (r.addHash combine hash unique) (r'.addHash combine hash unique) := by
      rw [SameHead, hr, hr']
      exact happend
    refine ⟨fun _ hu => iff_of_false (fun hs => hi ⟨hu, hs⟩) fun hs => hi' ⟨hu, hs⟩, fun _ => hsame⟩

/-- The heads stay the same along a sequence of calls if and only if each unique call finds its hash
in both chains or in neither, counting the calls before it. -/
theorem SameHead.addHashes_iff (combine : Hash → Hash → Hash) (h : SameHead r r')
    (calls : List (Hash × Bool)) :
    (∀ n, SameHead (r.addHashes combine (calls.take n)) (r'.addHashes combine (calls.take n))) ↔
      ∀ before hash after, calls = before ++ (hash, true) :: after →
        hash ∉ before.map Prod.fst →
          ((r.elementIndex hash).isSome ↔ (r'.elementIndex hash).isSome) := by
  induction calls generalizing r r' with
  | nil =>
    refine ⟨fun _ before hash after hcalls => ?_, fun _ n => ?_⟩
    · simp at hcalls
    · rw [List.take_nil]
      exact h
  | cons call calls ih =>
    obtain ⟨hash, unique⟩ := call
    have hstep := h.addHash_iff combine hash unique
    -- the calls that follow find what these chains have and what this call has put there
    have hindex : ∀ k, k ≠ hash →
        ((((r.addHash combine hash unique).elementIndex k).isSome ↔
          ((r'.addHash combine hash unique).elementIndex k).isSome) ↔
        ((r.elementIndex k).isSome ↔ (r'.elementIndex k).isSome)) := by
      intro k hk
      rw [addHash_elementIndex, addHash_elementIndex]
      simp [hk]
    constructor
    · intro hall
      have hone : SameHead (r.addHash combine hash unique) (r'.addHash combine hash unique) :=
        hall 1
      have hrest := (ih hone).1 fun n => hall (n + 1)
      intro before k after hcalls hbefore
      cases before with
      | nil =>
        obtain ⟨hcall, -⟩ := List.cons.inj hcalls
        cases hcall
        exact hstep.1 hone rfl
      | cons first before =>
        obtain ⟨rfl, htail⟩ := List.cons.inj hcalls
        obtain ⟨hne, hbefore⟩ := List.ne_and_not_mem_of_not_mem_cons hbefore
        exact (hindex k hne).1 (hrest before k after htail hbefore)
    · intro hall n
      have hone : SameHead (r.addHash combine hash unique) (r'.addHash combine hash unique) := by
        refine hstep.2 fun hu => ?_
        subst hu
        exact hall [] hash calls rfl List.not_mem_nil
      cases n with
      | zero => exact h
      | succ n =>
        refine (ih hone).2 ?_ n
        intro before k after hcalls hbefore
        by_cases hk : k = hash
        · subst hk
          exact iff_of_true ((addHash_elementIndex combine r k unique k).2 (.inr rfl))
            ((addHash_elementIndex combine r' k unique k).2 (.inr rfl))
        · refine (hindex k hk).2 (hall ((hash, unique) :: before) k after ?_ ?_)
          · rw [hcalls]
            rfl
          · exact List.not_mem_cons_of_ne_of_not_mem hk hbefore

/-! ## Chains that have been built -/

variable {combine} {chain : Smt.Chain Hash}

theorem ofChain_addHash (hchain : chain.WellFormed combine)
    (hpower : chain.markPower = markPower) (hash : Hash) (unique : Bool) :
    (ofChain chain).addHash combine hash unique = ofChain (chain.addHash combine hash unique) := by
  have helement : Function.update (fun i => chain.elements[i]?) chain.head.count (some hash) =
      fun i => (chain.elements ++ [hash])[i]? := by
    funext i
    rw [hchain.count]
    by_cases hi : i = chain.elements.length
    · subst hi
      simp
    rw [Function.update_of_ne hi, List.getElem?_append]
    split
    · rfl
    · rw [List.getElem?_eq_none (by omega), List.getElem?_eq_none (by simp; omega)]
  have hstate : ∀ (n : Nat) (s : Smt.MerkleState Hash), Function.update chain.states n (some s) =
      fun i => if i = n then some s else chain.states i := by
    intro n s
    funext i
    simp [Function.update_apply]
  have happend : ∀ index : Hash → Option Nat,
      ({ ofChain chain with elementIndex := index } : ChainRecords).append combine hash =
        { ofChain (chain.append combine hash) with elementIndex := index } := by
    intro index
    unfold append Smt.Chain.append
    simp only [Smt.Chain.markFreq, hpower]
    show (if (chain.head.count + 1) % 2 ^ markPower = 0 then _ else _) = _
    split
    · simp [ofChain, setHead, setState, setElement, helement, hstate]
    show (if (chain.head.count + 1) % 2 ^ markPower = 1 then _ else _) = _
    split
    · simp [ofChain, setHead, setElement, helement]
    · simp [ofChain, setHead, setElement, helement]
  unfold addHash Smt.Chain.addHash
  show (match chain.elementIndex hash with
    | some _ => _
    | none => _) = _
  cases hi : chain.elementIndex hash with
  | some i =>
    cases unique with
    | true => rfl
    | false =>
      have h := happend chain.elementIndex
      simpa [ofChain, Smt.Chain.append_elementIndex] using h
  | none =>
    have h := happend (Function.update chain.elementIndex hash (some chain.head.count))
    have hupdate : Function.update chain.elementIndex hash (some chain.head.count) =
        fun k => if k = hash then some chain.head.count else chain.elementIndex k := by
      funext k
      simp [Function.update_apply]
    simpa [ofChain, setElementIndex, hupdate] using h

theorem ofChain_addHashes (hchain : chain.WellFormed combine)
    (hpower : chain.markPower = markPower) (calls : List (Hash × Bool)) :
    (ofChain chain).addHashes combine calls = ofChain (chain.addHashes combine calls) := by
  induction calls generalizing chain with
  | nil => rfl
  | cons call calls ih =>
    have hstep := ofChain_addHash hchain hpower call.1 call.2
    have hpower' : (chain.addHash combine call.1 call.2).markPower = markPower :=
      (Smt.Chain.addHash_markPower chain call.1 call.2).trans hpower
    exact (congrArg (fun r => addHashes combine r calls) hstep).trans
      (ih (hchain.addHash call.1 call.2) hpower')

end ChainRecords

/-! ## Programs -/

/-- The record has the value, or it is missing. -/
def Reads {α : Type} (r : Except Error α) : Option α → Prop
  | some v => r = .ok v
  | none => ∃ e, r = .error e ∧ e.is .notFound = true

/-- The records of the chain hold the given values. -/
structure HasChain (w : View) (u : Url) (c : Chain2) (r : ChainRecords) : Prop where
  head : w (.account u (.chain c .head)) = .ok r.head
  states : ∀ i, Reads (w (.account u (.chain c (.states i)))) (r.states i)
  elementIndex : ∀ h, Reads (w (.account u (.chain c (.elementIndex h)))) (r.elementIndex h)
  element : ∀ i, Reads (w (.account u (.chain c (.element i)))) (r.element i)

def OfChain (u : Url) (c : Chain2) : Key → Prop
  | .account v (.chain d _) => v = u ∧ d = c
  | _ => False

section Programs

variable {below : View} {L : DbLayer} {u : Url} {c : Chain2} {r : ChainRecords} (enc : Encoding)
  {index : ChainIndex}

theorem HasChain.congr {w w' : View} (h : HasChain w u c r)
    (hsame : ∀ k, OfChain u c k → w' k = w k) : HasChain w' u c r := by
  have hfield : ∀ f, w' (.account u (.chain c f)) = w (.account u (.chain c f)) := fun f =>
    hsame (.account u (.chain c f)) ⟨rfl, rfl⟩
  refine ⟨(hfield .head).trans h.head, fun i => ?_, fun k => ?_, fun i => ?_⟩
  · rw [hfield]
    exact h.states i
  · rw [hfield]
    exact h.elementIndex k
  · rw [hfield]
    exact h.element i

theorem contents_put_self {k : Key} (v : k.Value) : (L.put k v).contents below k = .ok v := by
  simp [Layer.contents, Layer.put]

section

variable (h : HasChain (L.contents below) u c r)

include h

theorem HasChain.put_head (head : Smt.MerkleState Hash) :
    HasChain ((L.put (.account u (.chain c .head)) head).contents below) u c (r.setHead head) where
  head := contents_put_self (k := .account u (.chain c .head)) head
  states := fun i => by
    rw [contents_put_of_ne (by simp)]
    exact h.states i
  elementIndex := fun k => by
    rw [contents_put_of_ne (by simp)]
    exact h.elementIndex k
  element := fun i => by
    rw [contents_put_of_ne (by simp)]
    exact h.element i

theorem HasChain.put_state (i : Nat)
    (s : Smt.MerkleState Hash) :
    HasChain ((L.put (.account u (.chain c (.states i))) s).contents below) u c
      (r.setState i s) where
  head := (contents_put_of_ne (by simp)).trans h.head
  states := fun j => by
    by_cases hj : j = i
    · subst hj
      rw [contents_put_self]
      simp [ChainRecords.setState, Reads]
    · rw [contents_put_of_ne (by simp [hj])]
      simpa [ChainRecords.setState, hj] using h.states j
  elementIndex := fun k => by
    rw [contents_put_of_ne (by simp)]
    exact h.elementIndex k
  element := fun j => by
    rw [contents_put_of_ne (by simp)]
    exact h.element j

theorem HasChain.put_elementIndex (hash : Hash) (i : Nat) :
    HasChain ((L.put (.account u (.chain c (.elementIndex hash))) i).contents below) u c
      (r.setElementIndex hash i) where
  head := (contents_put_of_ne (by simp)).trans h.head
  states := fun j => by
    rw [contents_put_of_ne (by simp)]
    exact h.states j
  elementIndex := fun k => by
    by_cases hk : k = hash
    · subst hk
      rw [contents_put_self]
      simp [ChainRecords.setElementIndex, Reads]
    · rw [contents_put_of_ne (by simp [hk])]
      simpa [ChainRecords.setElementIndex, hk] using h.elementIndex k
  element := fun j => by
    rw [contents_put_of_ne (by simp)]
    exact h.element j

theorem HasChain.put_element (i : Nat) (hash : Hash) :
    HasChain ((L.put (.account u (.chain c (.element i))) hash).contents below) u c
      (r.setElement i hash) where
  head := (contents_put_of_ne (by simp)).trans h.head
  states := fun j => by
    rw [contents_put_of_ne (by simp)]
    exact h.states j
  elementIndex := fun k => by
    rw [contents_put_of_ne (by simp)]
    exact h.elementIndex k
  element := fun j => by
    by_cases hj : j = i
    · subst hj
      rw [contents_put_self]
      simp [ChainRecords.setElement, Reads]
    · rw [contents_put_of_ne (by simp [hj])]
      simpa [ChainRecords.setElement, hj] using h.element j

theorem run_appendHash (hash : Hash) :
    ∃ L', (appendHash enc u c r.head hash).run (Layer.machine below) L = (.ok (), L') ∧
      HasChain (L'.contents below) u c (r.append enc.combine hash) := by
  have helement := h.put_element r.head.count hash
  unfold appendHash ChainRecords.append
  by_cases hlast : (r.head.count + 1) % 2 ^ markPower = 0
  · simp only [if_pos hlast]
    exact ⟨_, rfl, (helement.put_state _ _).put_head _⟩
  simp only [if_neg hlast]
  by_cases hfirst : (r.head.count + 1) % 2 ^ markPower = 1
  · simp only [if_pos hfirst]
    exact ⟨_, rfl, helement.put_head _⟩
  · simp only [if_neg hfirst]
    exact ⟨_, rfl, helement.put_head _⟩

end

theorem putsIn_addHash {P : Url × Hash → Prop} (c : Chain2) (hash : Hash)
    (unique : Bool) : (addHash enc u c hash unique).PutsIn (OfChain u c) P := by
  have hK : ∀ f, OfChain u c (.account u (.chain c f)) := fun _ => ⟨rfl, rfl⟩
  have happend : ∀ head, (appendHash enc u c head hash).PutsIn (OfChain u c) P := by
    intro head
    refine (putsIn_put _ (hK _)).bind fun _ => ?_
    refine putsIn_ite ?_ (putsIn_ite (putsIn_put _ (hK _)) (putsIn_put _ (hK _)))
    exact (putsIn_put _ (hK _)).bind fun _ => putsIn_put _ (hK _)
  refine (putsIn_get _).bind fun head => ?_
  refine (putsIn_tryGet _).bind fun result => ?_
  cases result with
  | ok i => exact putsIn_ite (putsIn_pure _) (happend head)
  | error e =>
    exact putsIn_ite ((putsIn_put _ (hK _)).bind fun _ => happend head) (putsIn_throw e)

theorem run_addHash (h : HasChain (L.contents below) u c r) (hash : Hash) (unique : Bool) :
    ∃ L', (addHash enc u c hash unique).run (Layer.machine below) L = (.ok (), L') ∧
      HasChain (L'.contents below) u c (r.addHash enc.combine hash unique) := by
  have hindex := h.elementIndex hash
  unfold addHash
  rw [Script.run_bind, run_get, h.head]
  dsimp only
  rw [Script.run_bind, run_tryGet]
  unfold ChainRecords.addHash
  cases hi : r.elementIndex hash with
  | some i =>
    rw [hi] at hindex
    rw [show L.contents below (.account u (.chain c (.elementIndex hash))) = .ok i from hindex]
    cases unique with
    | true => exact ⟨L, rfl, h⟩
    | false => exact run_appendHash enc h hash
  | none =>
    rw [hi] at hindex
    obtain ⟨e, he, hmissing⟩ := hindex
    rw [he]
    dsimp only
    rw [if_pos hmissing]
    have hput := h.put_elementIndex hash r.head.count
    exact run_appendHash enc hput hash

/-- Opening a chain gives its head.  Nothing changes but the index of the chains, in which the
chain is then. -/
theorem run_openChain (h : HasChain (L.contents below) u c r)
    (hindex : L.contents below (.account u .chains) = .ok index) :
    ∃ L' index', (openChain u c).run (Layer.machine below) L = (.ok r.head, L') ∧
      L'.contents below (.account u .chains) = .ok index' ∧
      index' = (if found index.1 (compareChain c.name) then index else index.add c) ∧
      ∀ k, k ≠ .account u .chains → L'.contents below k = L.contents below k := by
  unfold openChain
  rw [Script.run_bind, run_get, hindex]
  dsimp only
  by_cases hfound : found index.1 (compareChain c.name) = true
  · rw [if_pos hfound, if_pos hfound, run_get, h.head]
    exact ⟨L, index, rfl, hindex, rfl, fun _ _ => rfl⟩
  rw [if_neg hfound, if_neg hfound, Script.run_bind, run_put]
  dsimp only
  rw [run_get, contents_put_of_ne (by simp), h.head]
  exact ⟨_, _, rfl, contents_put_self _, rfl,
    fun k hk => contents_put_of_ne hk⟩

theorem not_ofChain_chains (k : Key) (h : OfChain u c k) : k ≠ .account u .chains := by
  rintro rfl
  exact h

theorem run_addChainEntry (h : HasChain (L.contents below) u c r)
    (hindex : L.contents below (.account u .chains) = .ok index) (entry : Hash) (unique : Bool) :
    ∃ L' index', (addChainEntry enc u c entry unique).run (Layer.machine below) L = (.ok (), L') ∧
      HasChain (L'.contents below) u c (r.addHash enc.combine entry unique) ∧
      L'.contents below (.account u .chains) = .ok index' := by
  obtain ⟨L₁, index', hopen, hindex', -, hkept⟩ := run_openChain h hindex
  have h₁ : HasChain (L₁.contents below) u c r :=
    h.congr fun k hk => hkept k (not_ofChain_chains k hk)
  obtain ⟨L', hadd, hchain⟩ := run_addHash enc h₁ entry unique
  refine ⟨L', index', ?_, hchain, ?_⟩
  · unfold addChainEntry
    rw [Script.run_bind, hopen]
    exact hadd
  · have hputs : ((addHash enc u c entry unique).run (Layer.machine below) L₁).2.puts
        (.account u .chains) = L₁.puts (.account u .chains) :=
      Layer.run_puts (putsIn_addHash (P := fun _ => True) enc c entry unique) id
    rw [hadd] at hputs
    exact (contents_eq hputs).trans hindex'

end Programs

end Records
end Accumulate.Database
