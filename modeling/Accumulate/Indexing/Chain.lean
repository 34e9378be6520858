import Accumulate.Database.Batch

/-!
# Searching index chains

`SearchIndexChain` of `internal/indexing` walks along an index chain from a given entry, in the
direction the search function tells.  It ends at an entry that matches, where the direction changes,
or at the end of the chain.

The entries of a chain that is sorted by the searched key are below the target up to a bound, and
not from there on.  The walk ends at that bound (`searchLoop_forward`, `searchLoop_backward`).  If
it reaches the end of the chain, the mode is not looked at, unless the walk starts there
(`searchIndexChain_answers_iff`).
-/

namespace Accumulate.Indexing

open Protocol Database

inductive SearchDirection where
  | complete
  | forward
  | backward
deriving DecidableEq, Repr

inductive MatchMode where
  | exact
  | before
  | after
deriving DecidableEq, Repr

def errReachedChainEnd : Error := .new .notFound "reached the end of the chain"
def errReachedChainStart : Error := .new .notFound "reached the start of the chain"
def errTargetDoesNotExist : Error := .new .notFound "target does not exist"

variable (chain : List IndexEntry) (mode : MatchMode) (find : IndexEntry → SearchDirection)

def entryAs (index : Nat) : Except Error IndexEntry :=
  match chain[index]? with
  | some entry => .ok entry
  | none => .error (.plainWrap s!"entry {index}" (.notFound "entry not found"))

def searchLoop (dir : SearchDirection) :
    (fuel index : Nat) → (entry : IndexEntry) → Option (Except Error (Nat × IndexEntry))
  | 0, _, _ => none
  | fuel + 1, prevIndex, prevEntry =>
    if dir = .forward ∧ prevIndex + 1 ≥ chain.length then some (.error errReachedChainEnd)
    else if dir ≠ .forward ∧ prevIndex = 0 then some (.error errReachedChainStart)
    else
      let index := if dir = .forward then prevIndex + 1 else prevIndex - 1
      match entryAs chain index with
      | .error e => some (.error e)
      | .ok entry =>
        let dir2 := find entry
        if dir2 = .complete then some (.ok (index, entry))
        else if dir = dir2 then searchLoop dir fuel index entry
        else
          -- in the order of the chain
          let (prev, next) :=
            if dir = .backward then ((index, entry), (prevIndex, prevEntry))
            else ((prevIndex, prevEntry), (index, entry))
          match mode with
          | .exact => some (.error errTargetDoesNotExist)
          | .before => some (.ok prev)
          | .after => some (.ok next)

def searchIndexChain (fuel index : Nat) : Option (Except Error (Nat × IndexEntry)) :=
  match entryAs chain index with
  | .error e => some (.error e)
  | .ok entry =>
    let dir := find entry
    if dir = .complete then some (.ok (index, entry))
    else if index = 0 ∧ dir = .backward ∧ mode = .after then some (.ok (index, entry))
    else if index = chain.length - 1 ∧ dir = .forward ∧ mode = .before then
      some (.ok (index, entry))
    else searchLoop chain mode find dir fuel index entry

/-- The search functions compare a number of the entry with a target. -/
def searchBy (key : IndexEntry → Nat) (target : Nat) (entry : IndexEntry) : SearchDirection :=
  if key entry < target then .forward
  else if key entry > target then .backward
  else .complete

def searchIndexChainBySource := searchBy (·.source)
def searchIndexChainByBlock := searchBy (·.blockIndex)
def searchIndexChainByRootIndexIndex := searchBy (·.rootIndexIndex)

/-- What is expected of a search: the entry that is equal to the target, or a not-found error if
there is none; the first entry at or after the target; the last entry at or before the target. -/
def Answers (key : IndexEntry → Nat) (target : Nat)
    (result : Option (Except Error (Nat × IndexEntry))) : MatchMode → Prop
  | .exact =>
    (∀ (i : Nat) entry, chain[i]? = some entry → key entry = target →
      result = some (.ok (i, entry))) ∧
    ((∀ entry ∈ chain, key entry ≠ target) → ∃ e, result = some (.error e) ∧ e.code = .notFound)
  | .after => ∀ (i : Nat) entry, chain[i]? = some entry → target ≤ key entry →
      (∀ j < i, ∀ entry', chain[j]? = some entry' → key entry' < target) →
      result = some (.ok (i, entry))
  | .before => ∀ (i : Nat) entry, chain[i]? = some entry → key entry ≤ target →
      (∀ j > i, ∀ entry', chain[j]? = some entry' → target < key entry') →
      result = some (.ok (i, entry))

section Sorted

variable {chain mode} {key : IndexEntry → Nat} {target b : Nat}

/-- The entries below the target are the first `b` ones, and the next one is equal to the target, if
any is. -/
structure Bound (chain : List IndexEntry) (key : IndexEntry → Nat) (target b : Nat) : Prop where
  le : b ≤ chain.length
  below : ∀ {i entry}, chain[i]? = some entry → (key entry < target ↔ i < b)
  equal : ∀ {i entry}, chain[i]? = some entry → key entry = target → i = b

theorem exists_bound (hsorted : chain.Pairwise (key · < key ·)) (target : Nat) :
    ∃ b, Bound chain key target b := by
  induction chain with
  | nil => exact ⟨0, Nat.le_refl _, nofun, nofun⟩
  | cons first rest ih =>
    obtain ⟨hfirst, hrest⟩ := List.pairwise_cons.1 hsorted
    by_cases hlt : key first < target
    · obtain ⟨b, hb⟩ := ih hrest
      refine ⟨b + 1, Nat.succ_le_succ hb.le, fun {i entry} hi => ?_, fun {i entry} hi heq => ?_⟩
      · cases i with
        | zero =>
          cases hi
          exact iff_of_true hlt (Nat.succ_pos b)
        | succ i => exact (hb.below hi).trans Nat.succ_lt_succ_iff.symm
      · cases i with
        | zero =>
          cases hi
          omega
        | succ i => rw [hb.equal hi heq]
    · have hlater : ∀ {i entry}, (first :: rest)[i]? = some entry →
          i = 0 ∨ key first < key entry := by
        intro i entry hi
        cases i with
        | zero => exact .inl rfl
        | succ i => exact .inr (hfirst entry (List.mem_of_getElem? hi))
      refine ⟨0, Nat.zero_le _, fun {i entry} hi => iff_of_false (fun h => ?_) (Nat.not_lt_zero i),
        fun {i entry} hi heq => ?_⟩
      · rcases hlater hi with rfl | hgt
        · cases hi
          exact hlt h
        · omega
      · rcases hlater hi with hzero | hgt
        · exact hzero
        · omega

/-- How the walk ends at the bound. -/
inductive Ended (chain : List IndexEntry) (mode : MatchMode) (key : IndexEntry → Nat)
    (target b : Nat) : Except Error (Nat × IndexEntry) → Prop
  | found {entry} (hentry : chain[b]? = some entry) (heq : key entry = target) :
    Ended chain mode key target b (.ok (b, entry))
  | between {prev next} (hpos : 0 < b) (hprev : chain[b - 1]? = some prev)
    (hnext : chain[b]? = some next) (hgt : target < key next) :
    Ended chain mode key target b
      (match mode with
      | .exact => .error errTargetDoesNotExist
      | .before => .ok (b - 1, prev)
      | .after => .ok (b, next))

theorem entryAs_eq {i : Nat} {entry : IndexEntry} (h : chain[i]? = some entry) :
    entryAs chain i = .ok entry := by
  rw [entryAs, h]

variable {i fuel : Nat} {entry : IndexEntry} {r : Except Error (Nat × IndexEntry)}

section

variable (hb : Bound chain key target b)

include hb

theorem searchLoop_forward (mode : MatchMode) (hi : i < b)
    (hentry : chain[i]? = some entry) (hfuel : b ≤ i + fuel) :
    ∃ r, searchLoop chain mode (searchBy key target) .forward fuel i entry = some r ∧
      (b = chain.length ∧ r = .error errReachedChainEnd ∨ Ended chain mode key target b r) := by
  induction fuel generalizing i entry with
  | zero => omega
  | succ fuel ih =>
    have hlen := hb.le
    rw [searchLoop]
    by_cases hend : i + 1 ≥ chain.length
    · exact ⟨_, if_pos ⟨rfl, hend⟩, .inl ⟨by omega, rfl⟩⟩
    obtain ⟨next, hnext⟩ : ∃ next, chain[i + 1]? = some next :=
      ⟨_, List.getElem?_eq_getElem (Nat.lt_of_not_le hend)⟩
    have hbelow := hb.below hnext
    rw [if_neg (fun h => hend h.2), if_neg (fun h => h.1 rfl)]
    dsimp only
    rw [if_pos rfl, entryAs_eq hnext]
    dsimp only
    by_cases hmore : i + 1 < b
    · have hfwd : searchBy key target next = .forward := if_pos (hbelow.2 hmore)
      rw [hfwd]
      exact ih hmore hnext (by omega)
    · obtain rfl : b = i + 1 := by omega
      have hge : ¬ key next < target := fun h => hmore (hbelow.1 h)
      by_cases heq : key next = target
      · exact ⟨_, if_pos (by simp [searchBy, heq]), .inr (.found hnext heq)⟩
      have hback : searchBy key target next = .backward := by
        rw [searchBy, if_neg hge, if_pos (by omega)]
      rw [hback]
      refine ⟨_, ?_, .inr (.between (Nat.succ_pos i) hentry hnext (by omega))⟩
      cases mode <;> rfl

theorem searchLoop_backward (mode : MatchMode) (hi : b ≤ i)
    (hentry : chain[i]? = some entry) (hne : key entry ≠ target) (hfuel : i < fuel) :
    ∃ r, searchLoop chain mode (searchBy key target) .backward fuel i entry = some r ∧
      (b = 0 ∧ (∀ entry ∈ chain, target < key entry) ∧ r = .error errReachedChainStart ∨
        Ended chain mode key target b r) := by
  induction fuel generalizing i entry with
  | zero => omega
  | succ fuel ih =>
    rw [searchLoop, if_neg (fun h => nomatch h.1)]
    by_cases hstart : i = 0
    · subst hstart
      refine ⟨_, if_pos ⟨nofun, rfl⟩, .inl ⟨by omega, fun e he => ?_, rfl⟩⟩
      obtain ⟨j, hj⟩ := List.mem_iff_getElem?.1 he
      have hbelow := hb.below hj
      refine Nat.lt_of_le_of_ne (by omega) fun heq => ?_
      obtain rfl : j = 0 := (hb.equal hj heq.symm).trans (by omega)
      cases hentry.symm.trans hj
      exact hne heq.symm
    obtain ⟨prev, hprev⟩ : ∃ prev, chain[i - 1]? = some prev :=
      ⟨_, List.getElem?_eq_getElem (by have hlt := (List.getElem?_eq_some_iff.1 hentry).1; omega)⟩
    have hbelow := hb.below hprev
    rw [if_neg (fun h => hstart h.2)]
    dsimp only
    rw [if_neg nofun, entryAs_eq hprev]
    dsimp only
    by_cases heq : key prev = target
    · rw [if_pos (by simp [searchBy, heq])]
      obtain rfl := hb.equal hprev heq
      exact ⟨_, rfl, .inr (.found hprev heq)⟩
    · by_cases hmore : b ≤ i - 1
      · have hback : searchBy key target prev = .backward := by
          rw [searchBy, if_neg (by omega), if_pos (by omega)]
        rw [hback]
        exact ih hmore hprev heq (by omega)
      · obtain rfl : b = i := by omega
        have hfwd : searchBy key target prev = .forward := if_pos (hbelow.2 (by omega))
        have hge := hb.below hentry
        rw [hfwd]
        refine ⟨_, ?_, .inr (.between (by omega) hprev hentry (by omega))⟩
        cases mode <;> rfl

theorem Bound.after_eq {next : IndexEntry}
    (hnext : chain[b]? = some next) (hentry : chain[i]? = some entry) (hle : target ≤ key entry)
    (hfirst : ∀ j < i, ∀ entry', chain[j]? = some entry' → key entry' < target) :
    i = b ∧ entry = next := by
  have hge := hb.below hentry
  have hnot := hb.below hnext
  obtain rfl : i = b := by
    by_contra hne
    have hlt := hfirst b (by omega) next hnext
    omega
  exact ⟨rfl, Option.some.inj (hentry.symm.trans hnext)⟩

theorem Ended.answers
    (h : Ended chain mode key target b r) : Answers chain key target (some r) mode := by
  cases h with
  | @found next hnext heq =>
    cases mode with
    | exact =>
      refine ⟨fun i entry hentry htarget => ?_, fun hnone => ?_⟩
      · obtain rfl := hb.equal hentry htarget
        cases hentry.symm.trans hnext
        rfl
      · exact absurd heq (hnone next (List.mem_of_getElem? hnext))
    | after =>
      intro i entry hentry hle hfirst
      obtain ⟨rfl, rfl⟩ := hb.after_eq hnext hentry hle hfirst
      rfl
    | before =>
      intro i entry hentry hle hlast
      obtain rfl : i = b := by
        have hbelow := hb.below hentry
        rcases Nat.lt_trichotomy i b with hlt | heq' | hgt
        · exact absurd (hlast b hlt next hnext) (by omega)
        · exact heq'
        · exact hb.equal hentry (by omega)
      cases hentry.symm.trans hnext
      rfl
  | @between prev next hpos hprev hnext hgt =>
    have hnone : ∀ {i : Nat} {entry}, chain[i]? = some entry → key entry ≠ target := by
      intro i entry hentry htarget
      obtain rfl := hb.equal hentry htarget
      cases hentry.symm.trans hnext
      omega
    cases mode with
    | exact => exact ⟨fun i entry hentry h => absurd h (hnone hentry), fun _ => ⟨_, rfl, rfl⟩⟩
    | after =>
      intro i entry hentry hle hfirst
      obtain ⟨rfl, rfl⟩ := hb.after_eq hnext hentry hle hfirst
      rfl
    | before =>
      intro i entry hentry hle hlast
      have hbelow := (hb.below hentry).1 (Nat.lt_of_le_of_ne hle (hnone hentry))
      have hprevious := hb.below hprev
      obtain rfl : i = b - 1 := by
        by_contra hne
        have hlt := hlast (b - 1) (by omega) prev hprev
        omega
      cases hentry.symm.trans hprev
      rfl

theorem Ended.within (h : Ended chain mode key target b r) :
    ¬ (∀ entry ∈ chain, target < key entry) ∧ ¬ ∀ entry ∈ chain, key entry < target := by
  cases h with
  | found hentry heq =>
    have hmem := List.mem_of_getElem? hentry
    exact ⟨fun h => (h _ hmem).ne' heq, fun h => (h _ hmem).ne heq⟩
  | between hpos hprev hnext hgt =>
    have hlt := (hb.below hprev).2 (by omega)
    exact ⟨fun h => Nat.lt_asymm hlt (h _ (List.mem_of_getElem? hprev)),
      fun h => Nat.lt_asymm hgt (h _ (List.mem_of_getElem? hnext))⟩

end

/-- **Which searches have the answer.**  Those that do not walk to the end of the chain that the
mode would take for the answer. -/
theorem searchIndexChain_answers_iff (chain : List IndexEntry) (mode : MatchMode)
    (key : IndexEntry → Nat) (hsorted : chain.Pairwise (key · < key ·)) (target start fuel : Nat)
    (hstart : start < chain.length) (hfuel : chain.length ≤ fuel) :
    Answers chain key target (searchIndexChain chain mode (searchBy key target) fuel start) mode ↔
      ¬ (mode = .after ∧ start ≠ 0 ∧ ∀ entry ∈ chain, target < key entry) ∧
      ¬ (mode = .before ∧ start + 1 ≠ chain.length ∧ ∀ entry ∈ chain, key entry < target) := by
  obtain ⟨b, hb⟩ := exists_bound hsorted target
  obtain ⟨entry, hentry⟩ : ∃ entry, chain[start]? = some entry :=
    ⟨_, List.getElem?_eq_getElem hstart⟩
  have hmem : entry ∈ chain := List.mem_of_getElem? hentry
  have hbelow := hb.below hentry
  have hle := hb.le
  rw [searchIndexChain, entryAs_eq hentry]
  dsimp only
  rcases Nat.lt_trichotomy (key entry) target with hlt | heq | hgt
  · -- forwards
    have hfwd : searchBy key target entry = .forward := if_pos hlt
    have hnotAbove : ¬ ∀ entry ∈ chain, target < key entry := fun h => by
      have hgt := h entry hmem
      omega
    rw [hfwd, if_neg nofun, if_neg (fun h => nomatch h.2.1)]
    by_cases hlast : start = chain.length - 1 ∧ SearchDirection.forward = .forward ∧ mode = .before
    · rw [if_pos hlast]
      obtain ⟨hend, -, rfl⟩ := hlast
      refine iff_of_true (fun i e he _ hgreater => ?_) ⟨nofun, fun h => h.2.1 (by omega)⟩
      have hi := (List.getElem?_eq_some_iff.1 he).1
      obtain rfl : i = start := by
        by_contra hne
        have hgt := hgreater start (by omega) entry hentry
        omega
      cases he.symm.trans hentry
      rfl
    · rw [if_neg hlast]
      obtain ⟨r, hr, ⟨hend, rfl⟩ | hr'⟩ :=
        searchLoop_forward hb mode (hbelow.1 hlt) hentry (by omega : b ≤ start + fuel)
      · have hall : ∀ {i e}, chain[i]? = some e → key e < target := fun he =>
          (hb.below he).2 (hend ▸ (List.getElem?_eq_some_iff.1 he).1)
        rw [hr]
        cases mode with
        | exact =>
          exact iff_of_true ⟨fun i e he h => absurd (hall he) (by omega), fun _ => ⟨_, rfl, rfl⟩⟩
            ⟨nofun, nofun⟩
        | after =>
          exact iff_of_true (fun i e he h => absurd (hall he) (by omega))
            ⟨fun h => hnotAbove h.2.2, nofun⟩
        | before =>
          obtain ⟨last, hl⟩ : ∃ last, chain[chain.length - 1]? = some last :=
            ⟨_, List.getElem?_eq_getElem (by omega)⟩
          refine iff_of_false (fun h => ?_) fun h => h.2 ⟨rfl, fun hs => hlast ⟨by omega, rfl, rfl⟩,
            fun e he => ?_⟩
          · have hlast := h (chain.length - 1) last hl (hall hl).le fun j hj e he => by
              have hlt := (List.getElem?_eq_some_iff.1 he).1
              omega
            cases hlast
          · obtain ⟨j, hj⟩ := List.mem_iff_getElem?.1 he
            exact hall hj
      · rw [hr]
        exact iff_of_true (hr'.answers hb)
          ⟨fun h => (hr'.within hb).1 h.2.2, fun h => (hr'.within hb).2 h.2.2⟩
  · have hcomplete : searchBy key target entry = .complete := by simp [searchBy, heq]
    obtain rfl := hb.equal hentry heq
    rw [hcomplete]
    refine iff_of_true ((Ended.found hentry heq).answers hb) ⟨fun h => ?_, fun h => ?_⟩
    · exact absurd (h.2.2 entry hmem) (by omega)
    · exact absurd (h.2.2 entry hmem) (by omega)
  · -- backwards
    have hback : searchBy key target entry = .backward := by
      rw [searchBy, if_neg (by omega), if_pos hgt]
    have hnotBelow : ¬ ∀ entry ∈ chain, key entry < target := fun h => by
      have hlt := h entry hmem
      omega
    rw [hback, if_neg nofun]
    by_cases hfirst : start = 0 ∧ SearchDirection.backward = .backward ∧ mode = .after
    · obtain ⟨rfl, -, rfl⟩ := hfirst
      refine iff_of_true (fun i e he _ hless => ?_) ⟨fun h => h.2.1 rfl, nofun⟩
      obtain rfl : i = 0 := by
        by_contra hne
        have hlt := hless 0 (by omega) entry hentry
        omega
      cases he.symm.trans hentry
      rfl
    · rw [if_neg hfirst, if_neg (fun h => nomatch h.2.1)]
      obtain ⟨r, hr, ⟨-, hall, rfl⟩ | hr'⟩ := searchLoop_backward hb mode
        (by omega : b ≤ start) hentry (by omega) (by omega : start < fuel)
      · have hnone : ∀ {i : Nat} {e}, chain[i]? = some e → ¬ key e ≤ target := fun he =>
          Nat.not_le.2 (hall _ (List.mem_of_getElem? he))
        rw [hr]
        cases mode with
        | exact =>
          exact iff_of_true ⟨fun i e he h => absurd h.le (hnone he), fun _ => ⟨_, rfl, rfl⟩⟩
            ⟨nofun, nofun⟩
        | before =>
          exact iff_of_true (fun i e he h => absurd h (hnone he))
            ⟨nofun, fun h => hnotBelow h.2.2⟩
        | after =>
          refine iff_of_false (fun h => ?_) fun h => h.1
            ⟨rfl, fun hs => hfirst ⟨hs, rfl, rfl⟩, hall⟩
          obtain ⟨first, hf⟩ : ∃ first, chain[0]? = some first :=
            ⟨_, List.getElem?_eq_getElem (by omega)⟩
          cases h 0 first hf (hall _ (List.mem_of_getElem? hf)).le nofun
      · rw [hr]
        exact iff_of_true (hr'.answers hb)
          ⟨fun h => (hr'.within hb).1 h.2.2, fun h => (hr'.within hb).2 h.2.2⟩

end Sorted

/-- The index entries of a chain that grew to `sources`. -/
def sourceEntries (sources : List Nat) : List IndexEntry :=
  sources.map fun source => { source, anchor := 0, blockIndex := 0, rootIndexIndex := 0 }

theorem searchIndexChain_answers_six :
    Answers (sourceEntries [5, 9]) (·.source) 6
      (searchIndexChain (sourceEntries [5, 9]) .after (searchIndexChainBySource 6) 2 1) .after :=
  (searchIndexChain_answers_iff (sourceEntries [5, 9]) .after (·.source) (by decide) 6 1 2
    (by decide) (by decide)).2 (by decide)

/-- From the last entry back to the first one, which is the first at or after the target: the search
does not give it. -/
theorem searchIndexChain_after_start :
    searchIndexChain (sourceEntries [5, 9]) .after (searchIndexChainBySource 3) 2 1 =
      some (.error errReachedChainStart) := by
  decide

end Accumulate.Indexing
