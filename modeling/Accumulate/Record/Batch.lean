import Accumulate.Library.Script
import Accumulate.Protocol.Signature

/-!
# Values and batches

The values of `internal/database/record` and the batches of `internal/database` they live in.  A
value knows whether it has been loaded and whether it has been changed.  The values of a root batch
are loaded from its key-value transaction, those of a child batch from the values of its parent;
committing a batch stores its changed values where they are loaded from.

What the values are, how they are encoded and what a record does before it is committed are
parameters here.
-/

namespace Accumulate.Record

open Library Protocol

variable {κ : Type} {V : κ → Type} {N : Type}

/-- What `NewValue` is given for each key: the name, the empty value that stands for a missing one
where `allowMissing` is set, and the encoding. -/
structure Schema (κ : Type) (V : κ → Type) where
  name : κ → String
  new : (k : κ) → Option (V k)
  marshal : (k : κ) → V k → Except Error Bytes
  unmarshal : (k : κ) → Bytes → Except Error (V k)

/-- The status of a `Value`, with the value if there is one. -/
inductive Value (α : Type) where
  | undefined
  | notFound
  | clean (v : α)
  | dirty (v : α)
deriving DecidableEq, Repr

def Value.isDirty {α : Type} : Value α → Bool
  | .dirty _ => true
  | _ => false

namespace Schema

variable (S : Schema κ V)

/-- `KvStore.GetValue`: an empty value counts as a missing one. -/
def getValue (k : κ) : Option Bytes → Except Error (V k)
  | none => .error (.notFound "key not found")
  | some [] => .error (.notFound "key not found")
  | some b => (S.unmarshal k b).mapError .wrap

/-- `Value.Get` after the store has been asked: the result and the new status. -/
def load (k : κ) : Except Error (V k) → Except Error (V k) × Value (V k)
  | .ok v => (.ok v, .clean v)
  | .error e =>
    if !e.is .notFound then (.error e.wrap, .undefined)
    else
      match S.new k with
      | some v => (.ok v, .clean v)
      | none => (.error (.notFound (S.name k ++ " not found")), .notFound)

end Schema

/-! ## Batches -/

/-- The fields of a `Batch`, with the values of its records and of its key-value transaction, a
`memory.Batch`.  The latest entry of the Patricia trie comes first. -/
structure Level (κ : Type) (V : κ → Type) (N : Type) where
  values : (k : κ) → Value (V k)
  bptEntries : List N
  writable : Bool
  kvstore : κ → Option Bytes

def Level.new (writable : Bool) : Level κ V N :=
  { values := fun _ => .undefined, bptEntries := [], writable := writable
    kvstore := fun _ => none }

/-- A batch with the batches it was begun from. -/
inductive Batch (κ : Type) (V : κ → Type) (N : Type) where
  | root (level : Level κ V N)
  | child (level : Level κ V N) (parent : Batch κ V N)

namespace Batch

def level : Batch κ V N → Level κ V N
  | .root l => l
  | .child l _ => l

def modify (f : Level κ V N → Level κ V N) : Batch κ V N → Batch κ V N
  | .root l => .root (f l)
  | .child l p => .child (f l) p

def begin (b : Batch κ V N) (writable : Bool) : Batch κ V N :=
  .child (.new (b.level.writable && writable)) b

variable [DecidableEq κ]

def setValue (k : κ) (v : Value (V k)) (l : Level κ V N) : Level κ V N :=
  { l with values := Function.update l.values k v }

def put (k : κ) (v : V k) (b : Batch κ V N) : Batch κ V N := b.modify (setValue k (.dirty v))

def isDirty (k : κ) (b : Batch κ V N) : Bool := (b.level.values k).isDirty

def putBpt (n : N) (b : Batch κ V N) : Batch κ V N :=
  b.modify fun l => { l with bptEntries := n :: l.bptEntries }

variable (S : Schema κ V) (db : κ → Option Bytes)

/-- `Value.Get`.  The value of a child batch is loaded with `Batch.GetValue`, which copies the value
that `Value.Get` of the parent gives. -/
def get (k : κ) : Batch κ V N → Except Error (V k) × Batch κ V N
  | .root l =>
    match l.values k with
    | .notFound => (.error (.notFound (S.name k ++ " not found")), .root l)
    | .clean v => (.ok v, .root l)
    | .dirty v => (.ok v, .root l)
    | .undefined =>
      let r := S.load k (S.getValue k ((l.kvstore k).or (db k)))
      (r.1, .root (setValue k r.2 l))
  | .child l p =>
    match l.values k with
    | .notFound => (.error (.notFound (S.name k ++ " not found")), .child l p)
    | .clean v => (.ok v, .child l p)
    | .dirty v => (.ok v, .child l p)
    | .undefined =>
      let loaded := get k p
      let r := S.load k (loaded.1.mapError .wrap)
      (r.1, .child (setValue k r.2 l) loaded.2)

/-- What the commands of a record's code do to a batch. -/
def machine : Machine κ V N Error (Batch κ V N) where
  get := get S db
  put := put
  isDirty := isDirty
  note := putBpt

/-! ## Committing -/

/-- `Put` of a `memory.Batch`. -/
def kvPut (k : κ) (b : Bytes) (l : Level κ V N) : Except Error (Level κ V N) :=
  if l.writable then .ok { l with kvstore := Function.update l.kvstore k (some b) }
  else .error (.plain "transaction is not writable")

/-- `Value.Commit`: a changed value of a child is passed to the parent, where it counts as changed;
one of the root batch is encoded and written. -/
def commitValue (k : κ) : Batch κ V N → Except Error Unit × Batch κ V N
  | .root l =>
    match l.values k with
    | .dirty v =>
      match S.marshal k v >>= fun b => kvPut k b l with
      | .ok l' => (.ok (), .root l')
      | .error e => (.error e.wrap, .root l)
    | _ => (.ok (), .root l)
  | .child l p =>
    match l.values k with
    | .dirty v => (.ok (), .child l (p.put k v))
    | _ => (.ok (), .child l p)

def commitValues : List κ → Batch κ V N → Except Error Unit × Batch κ V N
  | [], b => (.ok (), b)
  | k :: rest, b =>
    match commitValue S k b with
    | (.ok _, b') => commitValues rest b'
    | (.error e, b') => (.error e, b')

end Batch

/-- A record of a batch: what its `Commit` does first, and the keys of the fields it commits
then. -/
structure Part (κ : Type) (V : κ → Type) (N : Type) where
  before : Script κ V N Error Unit
  keys : List κ

namespace Batch

variable [DecidableEq κ] (S : Schema κ V) (db : κ → Option Bytes)

def commitPart (part : Part κ V N) (b : Batch κ V N) : Except Error Unit × Batch κ V N :=
  match part.before.run (machine S db) b with
  | (.ok _, b') => commitValues S part.keys b'
  | (.error e, b') => (.error e, b')

/-- `Batch.baseCommit`: the records are committed in the order in which the maps that hold them give
them. -/
def baseCommit : List (Part κ V N) → Batch κ V N → Except Error Unit × Batch κ V N
  | [], b => (.ok (), b)
  | part :: rest, b =>
    match commitPart S db part b with
    | (.ok _, b') => baseCommit rest b'
    | (.error e, b') => (.error e, b')

end Batch

/-- The open batch, if any, what is stored, and the entries the Patricia trie has been given. -/
structure State (κ : Type) (V : κ → Type) (N : Type) where
  batch : Option (Batch κ V N)
  db : κ → Option Bytes
  bpt : List N

/-- The end of `Batch.Commit`, after `baseCommit`: the entries for the Patricia trie go to the
parent or into the trie, and the key-value transaction is committed.  Nothing is stored for one that
is read-only. -/
def Batch.close : Batch κ V N → State κ V N → Except Error Unit × State κ V N
  | .root l, s =>
    if l.writable then
      (.ok (), { batch := none, db := fun k => (l.kvstore k).or (s.db k)
                 bpt := l.bptEntries ++ s.bpt })
    else (.ok (), { s with batch := none })
  | .child l p, s =>
    let p' := p.modify fun m => { m with bptEntries := l.bptEntries ++ m.bptEntries }
    if l.writable then
      if p.level.writable then
        (.ok (), { s with batch := some (p'.modify fun m =>
          { m with kvstore := fun k => (l.kvstore k).or (m.kvstore k) }) })
      else (.error (.plain "transaction is not writable"), { s with batch := some p' })
    else (.ok (), { s with batch := some p' })

/-- The batch that is used next when the batch is done. -/
def Batch.parent : Batch κ V N → Option (Batch κ V N)
  | .root _ => none
  | .child _ p => some p

/-! ## Runs -/

/-- What is done with the innermost open batch, or with the database when there is none. -/
inductive Op (κ : Type) (V : κ → Type) (N : Type) where
  | begin (writable : Bool)
  | get (k : κ)
  | put (k : κ) (v : V k)
  | commit (parts : List (Part κ V N))
  | discard

inductive Output (κ : Type) (V : κ → Type) where
  | done
  | got (k : κ) (r : Except Error (V k))
  | failed (e : Error)

namespace State

variable [DecidableEq κ] (S : Schema κ V)

def commit (parts : List (Part κ V N)) (b : Batch κ V N) (s : State κ V N) :
    Except Error Unit × State κ V N :=
  match b.baseCommit S s.db parts with
  | (.ok _, b') => b'.close s
  | (.error e, b') => (.error e.wrap, { s with batch := b'.parent })

/-- One operation.  Without an open batch only `Database.Begin` does something. -/
def step (op : Op κ V N) (s : State κ V N) : Output κ V × State κ V N :=
  match s.batch, op with
  | none, .begin writable => (.done, { s with batch := some (.root (.new writable)) })
  | none, _ => (.done, s)
  | some b, .begin writable => (.done, { s with batch := some (b.begin writable) })
  | some b, .get k =>
    let r := b.get S s.db k
    (.got k r.1, { s with batch := some r.2 })
  | some b, .put k v => (.done, { s with batch := some (b.put k v) })
  | some b, .commit parts =>
    match s.commit S parts b with
    | (.ok _, s') => (.done, s')
    | (.error e, s') => (.failed e, s')
  | some b, .discard => (.done, { s with batch := b.parent })

def run : List (Op κ V N) → State κ V N → List (Output κ V) × State κ V N
  | [], s => ([], s)
  | op :: ops, s =>
    let r := s.step S op
    let rest := run ops r.2
    (r.1 :: rest.1, rest.2)

end State

end Accumulate.Record
