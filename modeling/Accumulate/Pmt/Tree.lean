import Accumulate.Pmt.Bpt

/-!
# The map a tree stands for

A tree stands for a map from keys to hashes.  What is in the database is described by `Saved` and
what is in memory by `Loaded`: an entry at a place of the tree holds the keys below that
place.  The hash of a node is the digest of its place, unless the node or a node under it is
dirty; then the byte blocks are out of date as well.  The dirty nodes are given by their places.
-/

namespace Accumulate.Pmt

open Library
open Protocol (Hash)

section Tree

variable {combine : Hash → Hash → Hash} {p : List Bool} {D : List (List Bool)}

/-- No place under the given one is dirty. -/
def CleanAt (D : List (List Bool)) (p : List Bool) : Prop := ∀ q ∈ D, ¬ p <+: q

theorem CleanAt.of_extends {q : List Bool} (h : CleanAt D p) (hp : p <+: q) : CleanAt D q :=
  fun r hr hq => h r hr (hp.trans hq)

theorem CleanAt.concat (h : CleanAt D p) (b : Bool) : CleanAt D (p ++ [b]) :=
  h.of_extends (List.prefix_append p [b])

variable (combine) (blocks : Hash → Option (List UInt8)) (m : Hash → Option Hash)

/-- The entry is in the database and stands for the map below its place. -/
inductive Saved : List Bool → Entry → Prop where
  | null {p : List Bool} (h : ∀ k, Below p k → m k = none) : Saved p .null
  | value {p : List Bool} {k x : Hash} (hk : Below p k) (hx : m k = some x)
      (hother : ∀ k', Below p k' → k' ≠ k → m k' = none) : Saved p (.value k x)
  | node {p : List Bool} {x : Hash} {l r : Entry} (hlength : p.length ≤ 254)
      (hinner : p.length % 8 ≠ 0) (hx : digest combine m p = some x) (hl : Saved (p ++ [true]) l)
      (hr : Saved (p ++ [false]) r) : Saved p (.node p.length (pathKey p) x l r)
  | border {p : List Bool} {x : Hash} {l r : Entry} (hlength : p.length ≤ 254)
      (hborder : p.length % 8 = 0) (hx : digest combine m p = some x)
      (hblock : blocks (pathKey p) = some (marshalEntry 7 l ++ marshalEntry 7 r))
      (hl : Saved (p ++ [true]) l) (hr : Saved (p ++ [false]) r) :
      Saved p (.node p.length (pathKey p) x .notLoaded .notLoaded)

/-- The byte block of a place is up to date. -/
def BlockSaved (p : List Bool) : Prop :=
  ∃ l r, blocks (pathKey p) = some (marshalEntry 7 l ++ marshalEntry 7 r) ∧
    Saved combine blocks m (p ++ [true]) l ∧ Saved combine blocks m (p ++ [false]) r

variable (D : List (List Bool))

/-- The entry is in memory and stands for the map below its place. -/
inductive Loaded : List Bool → Entry → Prop where
  | null {p : List Bool} (hclean : CleanAt D p) (h : ∀ k, Below p k → m k = none) : Loaded p .null
  | value {p : List Bool} {k x : Hash} (hclean : CleanAt D p) (hk : Below p k) (hx : m k = some x)
      (hother : ∀ k', Below p k' → k' ≠ k → m k' = none) : Loaded p (.value k x)
  | node {p : List Bool} {x : Hash} {l r : Entry} (hlength : p.length ≤ 254)
      (hne : ∃ k, Below p k ∧ m k ≠ none)
      (hx : CleanAt D p →
        digest combine m p = some x ∧ (p.length % 8 = 0 → BlockSaved combine blocks m p))
      (hl : Loaded (p ++ [true]) l) (hr : Loaded (p ++ [false]) r) :
      Loaded p (.node p.length (pathKey p) x l r)
  | stub {p : List Bool} {x : Hash} (hlength : p.length ≤ 254) (hborder : p.length % 8 = 0)
      (hclean : CleanAt D p) (hx : digest combine m p = some x)
      (hblock : BlockSaved combine blocks m p) :
      Loaded p (.node p.length (pathKey p) x .notLoaded .notLoaded)

variable {combine blocks m D} {blocks' : Hash → Option (List UInt8)} {m' : Hash → Option Hash}
  {D' : List (List Bool)} {p : List Bool} {e : Entry}

theorem height_and_seven (n : Nat) : n &&& 7 = n % 8 := Nat.and_two_pow_sub_one_eq_mod n 3

/-! ## What an entry depends on -/

/-- The byte blocks are the same below a place. -/
def SameBlocks (blocks blocks' : Hash → Option (List UInt8)) (p : List Bool) : Prop :=
  ∀ q, p <+: q → q.length ≤ 254 → blocks (pathKey q) = blocks' (pathKey q)

theorem SameBlocks.concat (h : SameBlocks blocks blocks' p) (b : Bool) :
    SameBlocks blocks blocks' (p ++ [b]) :=
  fun q hq => h q ((List.prefix_append p [b]).trans hq)

theorem same_concat (hm : ∀ k, Below p k → m k = m' k) (b : Bool) :
    ∀ k, Below (p ++ [b]) k → m k = m' k :=
  fun k hk => hm k (hk.of_extends (List.prefix_append p [b]))

theorem Saved.congr (h : Saved combine blocks m p e) (hm : ∀ k, Below p k → m k = m' k)
    (hblocks : SameBlocks blocks blocks' p) : Saved combine blocks' m' p e := by
  induction h with
  | null h => exact .null fun k hk => (hm k hk).symm.trans (h k hk)
  | @value p k x hk hx hother =>
    refine .value hk ((hm k hk).symm.trans hx) fun k' hk' hne => ?_
    rw [← hm k' hk', hother k' hk' hne]
  | @node p x l r hlength hinner hx _ _ ihl ihr =>
    rw [digest_congr (by omega) hm] at hx
    exact .node hlength hinner hx (ihl (same_concat hm true) (hblocks.concat true))
      (ihr (same_concat hm false) (hblocks.concat false))
  | @border p x l r hlength hborder hx hblock _ _ ihl ihr =>
    rw [digest_congr (by omega) hm] at hx
    rw [hblocks p (List.prefix_refl p) hlength] at hblock
    exact .border hlength hborder hx hblock (ihl (same_concat hm true) (hblocks.concat true))
      (ihr (same_concat hm false) (hblocks.concat false))

theorem BlockSaved.congr (h : BlockSaved combine blocks m p) (hlength : p.length ≤ 254)
    (hm : ∀ k, Below p k → m k = m' k) (hblocks : SameBlocks blocks blocks' p) :
    BlockSaved combine blocks' m' p := by
  obtain ⟨l, r, hblock, hl, hr⟩ := h
  rw [hblocks p (List.prefix_refl p) hlength] at hblock
  exact ⟨l, r, hblock, hl.congr (same_concat hm true) (hblocks.concat true),
    hr.congr (same_concat hm false) (hblocks.concat false)⟩

/-- The dirty places below a place are the same. -/
def SameDirty (D D' : List (List Bool)) (p : List Bool) : Prop := ∀ q, p <+: q → (q ∈ D ↔ q ∈ D')

theorem SameDirty.concat (h : SameDirty D D' p) (b : Bool) : SameDirty D D' (p ++ [b]) :=
  fun q hq => h q ((List.prefix_append p [b]).trans hq)

theorem SameDirty.cleanAt (h : SameDirty D D' p) (hclean : CleanAt D p) : CleanAt D' p :=
  fun q hq hp => hclean q ((h q hp).2 hq) hp

theorem SameDirty.symm (h : SameDirty D D' p) : SameDirty D' D p := fun q hq => (h q hq).symm

/-- An entry is about the keys, the byte blocks and the dirty places below its place only. -/
theorem Loaded.congr (h : Loaded combine blocks m D p e) (hm : ∀ k, Below p k → m k = m' k)
    (hblocks : SameBlocks blocks blocks' p) (hdirty : SameDirty D D' p) :
    Loaded combine blocks' m' D' p e := by
  induction h with
  | null hclean h => exact .null (hdirty.cleanAt hclean) fun k hk => (hm k hk).symm.trans (h k hk)
  | @value p k x hclean hk hx hother =>
    refine .value (hdirty.cleanAt hclean) hk ((hm k hk).symm.trans hx) fun k' hk' hne => ?_
    rw [← hm k' hk', hother k' hk' hne]
  | @node p x l r hlength hne hx _ _ ihl ihr =>
    obtain ⟨k, hk, hvalue⟩ := hne
    apply Loaded.node hlength
    · exact ⟨k, hk, by rwa [← hm k hk]⟩
    · intro hclean
      obtain ⟨hdigest, hblock⟩ := hx (hdirty.symm.cleanAt hclean)
      rw [digest_congr (by omega) hm] at hdigest
      exact ⟨hdigest, fun hborder => (hblock hborder).congr hlength hm hblocks⟩
    · exact ihl (same_concat hm true) (hblocks.concat true) (hdirty.concat true)
    · exact ihr (same_concat hm false) (hblocks.concat false) (hdirty.concat false)
  | @stub p x hlength hborder hclean hx hblock =>
    rw [digest_congr (by omega) hm] at hx
    exact .stub hlength hborder (hdirty.cleanAt hclean) hx (hblock.congr hlength hm hblocks)

/-! ## Saving and loading -/

theorem exists_ne_none {x : Hash} (hlength : p.length ≤ 254)
    (h : digest combine m p = some x) : ∃ k, Below p k ∧ m k ≠ none := by
  by_contra hempty
  have hnone : digest combine m p = none := by
    rw [digest_eq_none_iff (by omega)]
    intro k hk
    by_contra hk'
    exact hempty ⟨k, hk, hk'⟩
  rw [hnone] at h
  contradiction

theorem Saved.loaded (h : Saved combine blocks m p e) (hclean : CleanAt D p) :
    Loaded combine blocks m D p e := by
  induction h with
  | null h => exact .null hclean h
  | value hk hx hother => exact .value hclean hk hx hother
  | @node p x l r hlength hinner hx _ _ ihl ihr =>
    exact .node hlength (exists_ne_none hlength hx)
      (fun _ => ⟨hx, fun hborder => absurd hborder hinner⟩)
      (ihl (hclean.concat true)) (ihr (hclean.concat false))
  | @border p x l r hlength hborder hx hblock hl hr _ _ =>
    exact .stub hlength hborder hclean hx ⟨l, r, hblock, hl, hr⟩

/-- What is written to a byte block is in the database, if nothing below is dirty. -/
theorem Loaded.saved (h : Loaded combine blocks m D p e) (hclean : CleanAt D p) :
    Saved combine blocks m p (e.stub 7) := by
  induction h with
  | null _ h => exact .null h
  | value _ hk hx hother => exact .value hk hx hother
  | @node p x l r hlength hne hx _ _ ihl ihr =>
    obtain ⟨hdigest, hblock⟩ := hx hclean
    rw [Entry.stub, height_and_seven]
    split
    · rename_i hborder
      obtain ⟨l, r, hdata, hl, hr⟩ := hblock hborder
      exact .border hlength hborder hdigest hdata hl hr
    · rename_i hinner
      exact .node hlength hinner hdigest (ihl (hclean.concat true)) (ihr (hclean.concat false))
  | @stub p x hlength hborder _ hx hblock =>
    obtain ⟨l, r, hdata, hl, hr⟩ := hblock
    rw [Entry.stub, height_and_seven, if_pos hborder]
    exact .border hlength hborder hx hdata hl hr

/-- The hash of an entry is the digest of its place, if nothing below is dirty. -/
theorem Loaded.getHash_eq (h : Loaded combine blocks m D p e) (hlength : p.length ≤ 256)
    (hclean : CleanAt D p) : getHash e = digest combine m p := by
  cases h with
  | null _ h => exact ((digest_eq_none_iff hlength).2 h).symm
  | value _ hk hx hother => exact ((digest_of_single hk hother).trans hx).symm
  | node _ _ hx => exact (hx hclean).1.symm
  | stub _ _ _ hx => exact hx.symm

theorem Loaded.ne_notLoaded (h : Loaded combine blocks m D p e) : e ≠ .notLoaded := by
  cases h <;> simp

theorem Saved.stub_eq (h : Saved combine blocks m p e) : e.stub 7 = e := by
  induction h with
  | @node p x l r _ hinner _ _ _ ihl ihr =>
    rw [Entry.stub, height_and_seven, if_neg hinner, ihl, ihr]
  | @border p x l r _ hborder => rw [Entry.stub, height_and_seven, if_pos hborder]
  | _ => rfl

theorem Saved.storable (h : Saved combine blocks m p e) (parentHeight : Nat) :
    e.Storable 7 parentHeight := by
  induction h generalizing parentHeight with
  | @node p x l r hlength _ _ _ _ ihl ihr => exact ⟨by omega, fun _ => ⟨ihl _, ihr _⟩⟩
  | @border p x l r hlength hborder =>
    exact ⟨by omega, fun hinner => absurd (height_and_seven _ ▸ hborder) hinner⟩
  | _ => trivial

end Tree

end Accumulate.Pmt
