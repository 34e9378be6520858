import Accumulate.Database.Records

/-!
# What the hash of an account is made of

`Account.hashState` reads the records of the account and, for each of its pending transactions, the
state and the status of the transaction, and it changes nothing: a chain that is in the index of the
chains is not entered again.  The hash therefore depends on these records only.
-/

namespace Accumulate.Database
namespace Records

open Library Protocol Record

abbrev View : Type := (k : Key) → Except Error k.Value

/-- The hash of an account, given the values of the records. -/
def hashOf (enc : Encoding) (w : View) (u : Url) : Except Error Hash := (hashState enc u).eval w

def PendingIn (w : View) (h : Hash) (u : Url) : Prop :=
  ∃ l : List TxID, w (.account u .pending) = .ok l ∧ ∃ id ∈ l, id.hash = h

/-- The records of an account its hash is made of. -/
def HashField : AccountField → Prop
  | .main => True
  | .pending => True
  | .directory => True
  | .chain _ .head => True
  | .chains => True
  | _ => False

def HashKey (w : View) (u : Url) : Key → Prop
  | .account v field => v = u ∧ HashField field
  | .transaction h .main => PendingIn w h u
  | .transaction h .status => PendingIn w h u
  | _ => False

section ReadsIn

variable {w : View} {K : Key → Prop} {α : Type} (enc : Encoding) {k : Key} {c : Chain2}
  {index : ChainIndex}

theorem eval_get (k : Key) : (get k).eval w = w k := by
  unfold get Script.eval
  cases w k <;> rfl

theorem readsIn_pure (a : α) : (pure a : RecordM α).ReadsIn w K := trivial

theorem readsIn_throw (e : Error) : (throw e : RecordM α).ReadsIn w K := trivial

theorem readsIn_tryGet (hk : K k) : (tryGet k).ReadsIn w K := ⟨hk, trivial⟩

theorem readsIn_get (hk : K k) : (get k).ReadsIn w K := by
  refine ⟨hk, ?_⟩
  cases w k <;> trivial

theorem readsIn_ite {c : Prop} [Decidable c] {p q : RecordM α} (hp : p.ReadsIn w K)
    (hq : q.ReadsIn w K) : (if c then p else q).ReadsIn w K := by
  split
  · exact hp
  · exact hq

theorem readsIn_hashValue (k : Key) (v : k.Value) : (hashValue enc k v).ReadsIn w K := by
  unfold hashValue
  cases enc.marshal k v with
  | ok b => exact readsIn_pure _
  | error e => exact readsIn_throw e

theorem readsIn_hashEach {f : α → RecordM (List Hash)} {l : List α}
    (hf : ∀ a ∈ l, (f a).ReadsIn w K) : (hashEach f l).ReadsIn w K := by
  induction l with
  | nil => exact readsIn_pure _
  | cons a rest ih =>
    refine (hf a (by simp)).bind fun _ _ => ?_
    exact (ih fun b hb => hf b (by simp [hb])).bind fun _ _ => readsIn_pure _

theorem found_of_mem (h : c ∈ index.1) : found index.1 (compareChain c.name) = true := by
  have hsorted : index.1.Pairwise fun a b => a.name ≤ b.name := index.2.imp fun hab => le_of_lt hab
  exact (found_iff hsorted).2 ⟨c, h, rfl⟩

variable {u : Url}

theorem readsIn_openChain (hindex : w (.account u .chains) = .ok index) (hc : c ∈ index.1)
    (hK : ∀ f, HashField f → K (.account u f)) : (openChain u c).ReadsIn w K := by
  refine (readsIn_get (hK .chains trivial)).bind fun index' hindex' => ?_
  rw [eval_get, hindex] at hindex'
  cases hindex'
  rw [if_pos (found_of_mem hc)]
  exact readsIn_get (hK (.chain c .head) trivial)

theorem readsIn_hashChains (hK : ∀ f, HashField f → K (.account u f)) :
    (hashChains enc u).ReadsIn w K := by
  refine (readsIn_get (hK .chains trivial)).bind fun index hindex => ?_
  rw [eval_get] at hindex
  refine (readsIn_hashEach fun c hc => ?_).bind fun _ _ => readsIn_pure _
  exact (readsIn_openChain hindex hc hK).bind fun _ _ =>
    readsIn_ite (readsIn_pure _) (readsIn_pure _)

theorem readsIn_hashTransaction {txid : TxID} (hmain : K (.transaction txid.hash .main))
    (hstatus : K (.transaction txid.hash .status)) : (hashTransaction enc txid).ReadsIn w K :=
  (readsIn_get hmain).bind fun _ _ => (readsIn_hashValue enc _ _).bind fun _ _ =>
    (readsIn_get hstatus).bind fun _ _ => (readsIn_hashValue enc _ _).bind fun _ _ =>
      readsIn_pure _

theorem readsIn_hashMain (hK : K (.account u .main)) : (hashMain enc u).ReadsIn w K := by
  refine (readsIn_tryGet hK).bind fun r _ => ?_
  cases r with
  | ok a => exact readsIn_hashValue enc _ a
  | error e => exact readsIn_ite (readsIn_pure _) (readsIn_throw e)

theorem readsIn_hashState (w : View) (u : Url) : (hashState enc u).ReadsIn w (HashKey w u) := by
  have hK : ∀ f, HashField f → HashKey w u (.account u f) := fun _ hf => ⟨rfl, hf⟩
  have hsecondary : (hashSecondaryState enc u).ReadsIn w (HashKey w u) :=
    (readsIn_get (hK .directory trivial)).bind fun _ _ => readsIn_pure _
  have htransactions : (hashTransactions enc u).ReadsIn w (HashKey w u) := by
    refine (readsIn_get (hK .pending trivial)).bind fun pending hpending => ?_
    rw [eval_get] at hpending
    refine (readsIn_hashEach fun id hid => ?_).bind fun _ _ => readsIn_pure _
    exact readsIn_hashTransaction enc ⟨pending, hpending, id, hid, rfl⟩
      ⟨pending, hpending, id, hid, rfl⟩
  exact (readsIn_hashMain enc (hK .main trivial)).bind fun _ _ => hsecondary.bind fun _ _ =>
    (readsIn_hashChains enc hK).bind fun _ _ => htransactions.bind fun _ _ => readsIn_pure _

end ReadsIn

theorem hashOf_congr (enc : Encoding) {w w' : View} {u : Url}
    (h : ∀ k, HashKey w u k → w' k = w k) : hashOf enc w' u = hashOf enc w u :=
  (readsIn_hashState enc w u).eval_congr h

end Records
end Accumulate.Database
