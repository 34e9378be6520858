import Accumulate.Chain.StateManager
import Accumulate.Protocol.Fees
import Accumulate.Routing.Router

/-!
# Globals and the executor

The network variables of `internal/core`, and what an executor has at hand while
it executes a block: the description of its partition, the active globals, the
router and the transaction executors.
-/

namespace Accumulate
namespace Core

open Library Protocol

/-! ## Network variables -/

structure Rational where
  numerator : Nat
  denominator : Nat
deriving DecidableEq, Repr

structure NetworkGlobals where
  operatorAcceptThreshold : Rational
  validatorAcceptThreshold : Rational
  majorBlockSchedule : String
  anchorEmptyBlocks : Bool
  feeSchedule : Option FeeSchedule
deriving DecidableEq, Repr

structure AcmeOracle where
  price : Nat
deriving DecidableEq, Repr

structure Route where
  length : Nat
  value : Nat
  partition : String
deriving DecidableEq, Repr

/-- `RoutingTable`.  The account of an override may be missing. -/
structure RoutingTable where
  overrides : List (Option Url × String)
  routes : List Route
deriving DecidableEq, Repr

structure GlobalValues where
  oracle : AcmeOracle
  globals : NetworkGlobals
  network : NetworkDefinition
  routing : RoutingTable
deriving DecidableEq, Repr

/-- The generated decoders of the network variables; `none` is a decoding error. -/
structure Decoders where
  oracle : Bytes → Option AcmeOracle
  globals : Bytes → Option NetworkGlobals
  network : Bytes → Option NetworkDefinition
  routing : Bytes → Option RoutingTable

/-- `parseEntryAs`, up to the assignment of the decoded value. -/
def parseEntryAs {α : Type} (decode : Bytes → Option α) (entry : Option DataEntry) :
    Outcome Error α :=
  match entry with
  | none => .error (.new .badRequest "unmarshal: entry is missing")
  | some entry =>
    match entry.data with
    | [data] =>
      match decode data with
      | some value => .ok value
      | none => .error (.new .badRequest "unmarshal")
    | _ => .error (.new .badRequest "unmarshal: want 1 record")

namespace GlobalValues

variable (dec : Decoders) {α : Type} {entry : Option DataEntry}

def parseOracle (entry : Option DataEntry) : Proc GlobalValues Error Unit := do
  let value ← Proc.lift (parseEntryAs dec.oracle entry)
  Proc.modify fun g => { g with oracle := value }

def parseGlobals (entry : Option DataEntry) : Proc GlobalValues Error Unit := do
  let value ← Proc.lift (parseEntryAs dec.globals entry)
  Proc.modify fun g => { g with globals := value }

/-- `ParseNetwork`: the new definition is assigned before its version is compared
with that of the old one. -/
def parseNetwork (entry : Option DataEntry) : Proc GlobalValues Error Unit := do
  let old ← Proc.get
  let value ← Proc.lift (parseEntryAs dec.network entry)
  Proc.modify fun g => { g with network := value }
  if value.version ≤ old.network.version then
    Proc.throw (.new .badRequest "version must increase")

def parseRouting (entry : Option DataEntry) : Proc GlobalValues Error Unit := do
  let value ← Proc.lift (parseEntryAs dec.routing entry)
  Proc.modify fun g => { g with routing := value }

theorem raises_parseEntryAs {decode : Bytes → Option α} :
    Outcome.Raises Error.Failing (parseEntryAs decode entry) := by
  unfold parseEntryAs
  split
  · exact .error rfl
  split
  · split
    · exact .ok _
    · exact .error rfl
  · exact .error rfl

theorem raises_parse {decode : Bytes → Option α}
    {f : α → Proc GlobalValues Error Unit} (hf : ∀ a, Proc.Raises Error.Failing (f a)) :
    Proc.Raises Error.Failing (Proc.lift (parseEntryAs decode entry) >>= f) :=
  .bind (.lift raises_parseEntryAs) hf

theorem raises_parseOracle (entry : Option DataEntry) :
    Proc.Raises Error.Failing (parseOracle dec entry) :=
  raises_parse fun _ => .modify _

theorem raises_parseGlobals (entry : Option DataEntry) :
    Proc.Raises Error.Failing (parseGlobals dec entry) :=
  raises_parse fun _ => .modify _

theorem raises_parseNetwork (entry : Option DataEntry) :
    Proc.Raises Error.Failing (parseNetwork dec entry) := by
  refine .bind .get fun old => raises_parse fun value => ?_
  refine .bind (.modify _) fun _ => ?_
  exact .ite (fun _ => .throw rfl) fun _ => .pure _

theorem raises_parseRouting (entry : Option DataEntry) :
    Proc.Raises Error.Failing (parseRouting dec entry) :=
  raises_parse fun _ => .modify _

end GlobalValues

/-! ## Partitions -/

inductive NetworkType where
  | directory
  | blockValidator
deriving DecidableEq, Repr

structure Describe where
  networkType : NetworkType
  partitionId : String
deriving DecidableEq, Repr

namespace Describe

variable (d : Describe)

def nodeUrl (path : List String) : Url := (partitionUrl d.partitionId).joinPath path

def ledger : Url := d.nodeUrl ["ledger"]

def synthetic : Url := d.nodeUrl ["synthetic"]

def anchorPool : Url := d.nodeUrl ["anchors"]

def operators : Url := d.nodeUrl ["operators"]

def operatorsPage : Url := d.nodeUrl ["operators", "1"]

end Describe

end Core

open Library Protocol Accumulate.Core Chain

/-- `block.Executor`, with the active globals.  `threshold` is `Rational.Threshold`, which the
source computes in floating point; `commitOrder` is the order in which a Go map of accounts is
iterated; `sliceLimit` is the largest slice of pointers.  Only the executors of synthetic deposits
clean up after a failure. -/
structure Executor where
  describe : Describe
  active : GlobalValues
  executors : TransactionType → Option TransactionExecutor
  router : Routing.Router
  crypto : Crypto
  decoders : Decoders
  threshold : Rational → Nat → Nat
  commitOrder : List Url → List Url
  mem_commitOrder : ∀ l u, u ∈ commitOrder l ↔ u ∈ l
  sliceLimit : Nat
  didFail_user : ∀ t e, executors t = some e → t.isUser = true → e.didFail = none

namespace Executor

variable (x : Executor)

def getHash (t : Transaction) : Hash := x.crypto.getHash t

def activeCount (partition : String) : Nat :=
  (x.active.network.validators.flatMap (·.partitions)).countP fun p => p.1 = partition && p.2

/-- `ValidatorThreshold`: no active validator means that no number of signatures is
enough. -/
def validatorThreshold (partition : String) : Nat :=
  if x.activeCount partition = 0 then 2 ^ 64 - 1
  else x.threshold x.active.globals.validatorAcceptThreshold (x.activeCount partition)

def operatorThreshold (keys : Nat) : Nat :=
  x.threshold x.active.globals.operatorAcceptThreshold keys

def networkSigner (partition : String) : Signer := .network partition x.active.network

/-- `getValidator[PrincipalValidator]` and the call that follows it. -/
def allowMissingPrincipal (t : Transaction) : Bool :=
  match (x.executors t.type).bind (·.allowMissingPrincipal) with
  | some allow => allow t
  | none => false

/-! ## A small instance

An executor to evaluate the model with.  The hash of a transaction is made of its
initiator and of the number in its body, the hash of two hashes is their sum, every
key is its own hash, and every network variable has a single encoding. -/

def toyBodyHash : TransactionBody → Nat
  | .payload (.writeData (some entry) _ _) => 1 + 4 * entry.data.length
  | .payload (.syntheticDepositCredits _ amount _ _) => 2 + 4 * amount.toNat
  | .payload p => 3 + 4 * p.type.enumValue
  | .directoryAnchor .. => 4
  | .syntheticForwardTransaction .. => 8

/-- Hash functions that can be evaluated by hand. -/
def toyCrypto : Crypto where
  signatureHash := fun s =>
    match s with
    | .internal cause _ => cause + 1
    | .partition _ _ n _ => BitVec.ofNat 256 (10 + n)
    | .key k => BitVec.ofNat 256 (100 + k.timestamp)
    | .receipt .. => 99
    | _ => 98
  initiatorHash := fun _ => 0
  publicKeyHash := fun _ key => key
  verify := fun _ _ _ => true
  combine := fun a b => a + b
  transactionHash := fun t =>
    BitVec.ofNat 256 (1000 * (1 + toyBodyHash t.body)) + t.header.initiator
  isLiteTokenAddress := fun _ => false
  liteIdentityHasKey := fun _ _ => false
  transactionSize := fun _ => 100
  signatureSize := fun _ => 100
  dataEntrySize := fun entry => entry.data.length
  entryHash := fun entry => BitVec.ofNat 256 entry.data.length
  liteDataAddress := fun _ => ⟨.named "lite", []⟩
  isWord := Char.isAlphanum

def toyGlobals : GlobalValues where
  oracle := ⟨1⟩
  globals := ⟨⟨1, 1⟩, ⟨1, 1⟩, "", false, none⟩
  network := ⟨1, [⟨[1], [(directory, true), ("x", true), ("y", true)]⟩]⟩
  routing := ⟨[], []⟩

def toyDecoders : Decoders where
  oracle := fun data => some ⟨data.length⟩
  globals := fun _ => none
  network := fun data => some ⟨data.length, []⟩
  routing := fun _ => none

def toy (describe : Describe) (executors : TransactionType → Option TransactionExecutor)
    (h : ∀ t e, executors t = some e → t.isUser = true → e.didFail = none) : Executor where
  describe := describe
  active := toyGlobals
  executors := executors
  router := some ⟨[], .leaf "y", fun _ => 0⟩
  crypto := toyCrypto
  decoders := toyDecoders
  threshold := fun _ n => n
  commitOrder := fun l => l
  mem_commitOrder := fun _ _ => Iff.rfl
  sliceLimit := 2 ^ 45
  didFail_user := h

def toyNode : Executor := toy ⟨.blockValidator, "y"⟩ (fun _ => none) nofun

end Executor
end Accumulate
