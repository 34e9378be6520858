import Mathlib.Logic.Basic

/-!
# Status codes and errors

The status codes of `internal/errors` and its error values.  An error is either
an `*errors.Error`, which carries a status code, or a plain Go error; the two are
told apart because `executeEnvelope` treats them differently.
-/

namespace Accumulate.Protocol

/-- `errors.Status`.  `unset` is the zero value of a status that has not been
assigned yet. -/
inductive Status where
  | unset
  | ok
  | delivered
  | pending
  | remote
  | wrongPartition
  | badRequest
  | unauthenticated
  | insufficientCredits
  | unauthorized
  | notFound
  | notAllowed
  | conflict
  | badSignerVersion
  | badTimestamp
  | badUrlLength
  | incompleteChain
  | insufficientBalance
  | internalError
  | unknownError
  | encodingError
  | fatalError
deriving DecidableEq, Repr

def Status.code : Status → Nat
  | .unset => 0
  | .ok => 200
  | .delivered => 201
  | .pending => 202
  | .remote => 203
  | .wrongPartition => 301
  | .badRequest => 400
  | .unauthenticated => 401
  | .insufficientCredits => 402
  | .unauthorized => 403
  | .notFound => 404
  | .notAllowed => 405
  | .conflict => 409
  | .badSignerVersion => 411
  | .badTimestamp => 412
  | .badUrlLength => 413
  | .incompleteChain => 414
  | .insufficientBalance => 415
  | .internalError => 500
  | .unknownError => 501
  | .encodingError => 502
  | .fatalError => 503

def Status.success (s : Status) : Bool := s.code < 300

/-- A Go error.  `typed` tells whether it is an `*errors.Error`; `code` is the
code it has, or gets when it is converted to one; `causes` lists the codes of the
errors it wraps. -/
structure Error where
  typed : Bool
  code : Status
  message : String
  causes : List Status
deriving DecidableEq, Repr

namespace Error

def new (code : Status) (message : String) : Error :=
  { typed := true, code := code, message := message, causes := [] }

/-- `fmt.Errorf` without a wrapped error: converted, it gets the code
`StatusUnknownError`. -/
def plain (message : String) : Error :=
  { typed := false, code := .unknownError, message := message, causes := [] }

/-- `errors.Format` with a wrapped error: an unknown code is replaced by the
code of the cause. -/
def format (code : Status) (message : String) (cause : Error) : Error :=
  { typed := true
    code := if code = .unknownError then cause.code else code
    message := message
    causes := cause.code :: cause.causes }

def plainWrap (message : String) (cause : Error) : Error :=
  { typed := false, code := cause.code, message := message
    causes := cause.code :: cause.causes }

/-- `errors.Wrap(errors.StatusUnknownError, err)`: the same error, converted to
an `*errors.Error`. -/
def wrap (e : Error) : Error := { e with typed := true }

def is (e : Error) (status : Status) : Bool :=
  (e.typed && e.code = status) || status ∈ e.causes

def notFound (message : String) : Error := new .notFound message

/-- The error and everything it wraps have the code of a failure, as opposed to a
code that reports a result. -/
def failing (e : Error) : Bool := !e.code.success && e.causes.all fun c => !c.success

/-- The proposition that an error is a failure. -/
def Failing (e : Error) : Prop := e.failing = true

variable {e : Error}

theorem Failing.code (he : e.Failing) : e.code.success = false := by
  have h : (!e.code.success) = true := (Bool.and_eq_true_iff.1 he).1
  simpa using h

theorem Failing.not_is (he : e.Failing) {status : Status} (hs : status.success = true) :
    e.is status = false := by
  obtain ⟨hcode, hcauses⟩ := Bool.and_eq_true_iff.1 he
  have hne : ∀ c : Status, (!c.success) = true → c ≠ status := by
    intro c hc h
    rw [h, hs] at hc
    cases hc
  have hmem : status ∉ e.causes := fun h => hne status (List.all_eq_true.1 hcauses status h) rfl
  simp [is, hne e.code hcode, hmem]

theorem Failing.wrapped (he : e.Failing) :
    ((e.code :: e.causes).all fun c => !c.success) = true := by
  exact he

theorem Failing.wrap (he : e.Failing) : e.wrap.Failing := he

theorem Failing.format (he : e.Failing) (m : String) : (format .unknownError m e).Failing :=
  Bool.and_eq_true_iff.2 ⟨by simp [Error.format, he.code], he.wrapped⟩

theorem Failing.formatAs (he : e.Failing) {code : Status} (hcode : code.success = false)
    (m : String) : (Error.format code m e).Failing := by
  refine Bool.and_eq_true_iff.2 ⟨?_, he.wrapped⟩
  unfold Error.format
  split
  · simp [he.code]
  · simp [hcode]

theorem Failing.plainWrap (he : e.Failing) (m : String) : (plainWrap m e).Failing :=
  Bool.and_eq_true_iff.2 ⟨by simp [Error.plainWrap, he.code], he.wrapped⟩

@[simp] theorem wrap_typed (e : Error) : e.wrap.typed = true := rfl
@[simp] theorem wrap_code (e : Error) : e.wrap.code = e.code := rfl

end Error

end Accumulate.Protocol
