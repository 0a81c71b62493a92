import ActorZeta.SharedState.Flags

/-!
# shared_state: the object and its member functions

`State T X` is a `shared_state<T>` (`X` is the type of the exceptions): the flag word, the value,
the error code, the captured exception and the continuation.  The member functions are the ones
of the source, run to their end by one thread with nobody else in between; the single atomic
steps they are made of, and the two sides taking them in any order, are in `SharedState.Race`.

* `setValue`, `setError`, `setException`   the producer's outcome;
* `releasePromise`, `releaseFuture`, `tryCompleteFinalize`   the last-one-out protocol; the
  `Bool` tells whether the call deallocates (`tryCompleteFinalize` answers the negation);
* `settle`, `cleanupFn`   the two ways a producer that is not a coroutine leaves;
* `takeValue`   the extraction, `none` where the code refuses and aborts.
-/

namespace ActorZeta
open StateFlags

/-- the `std::errc` values the library produces -/
inductive Errc where
  | operationCanceled
  | brokenPipe
  | stateNotRecoverable
  | interrupted
  deriving DecidableEq, Repr

/-- `std::error_code`: none, one of the library's own, or a caller's -/
inductive ErrorCode where
  | none
  | errc (e : Errc)
  | user (category : Nat) (code : Int)
  deriving DecidableEq, Repr

/-- the address of a coroutine frame -/
abbrev Handle := Nat

/-- the address of a `shared_state` -/
abbrev Address := Nat

/-- `shared_state<T>` -/
structure State (T X : Type) where
  flags : Word
  value : Option T
  continuation : Option Handle
  error : ErrorCode
  exception : Option X
  deriving DecidableEq

/-- what a producer can set -/
inductive Outcome (T X : Type) where
  | value (v : T)
  | error (ec : ErrorCode)
  | exception (ep : X)
  deriving DecidableEq

/-- the flag an outcome raises -/
def Outcome.flag {T X : Type} : Outcome T X → Word
  | .value _ => valueSet
  | .error _ => errorSet
  | .exception _ => errorSet

namespace State
variable {T X : Type}

/-- a fresh state: `allocate_shared_state` -/
def fresh : State T X := ⟨empty, none, none, .none, none⟩

def fetchOr (s : State T X) (bits : Word) : State T X := { s with flags := s.flags ||| bits }
def fetchAnd (s : State T X) (bits : Word) : State T X := { s with flags := s.flags &&& bits }

/-! ## the producer's outcome -/

/-- the plain writes of `set_value`, `set_error`, `set_exception`, before their `fetch_or` -/
def write (s : State T X) : Outcome T X → State T X
  | .value v => { s with value := some v }
  | .error ec => { s with error := ec }
  | .exception ep => { s with exception := some ep, error := .errc .interrupted }

def setOutcome (s : State T X) (o : Outcome T X) : State T X := (s.write o).fetchOr o.flag

def setValue (s : State T X) (v : T) : State T X := s.setOutcome (.value v)
def setError (s : State T X) (ec : ErrorCode) : State T X := s.setOutcome (.error ec)
def setException (s : State T X) (ep : X) : State T X := s.setOutcome (.exception ep)

/-! ## flag reads -/

def isReady (s : State T X) : Bool := s.flags.has promiseReleased
def hasResult (s : State T X) : Bool := s.flags.has resultSet
def hasError (s : State T X) : Bool := s.flags.has errorSet
def getError (s : State T X) : ErrorCode := s.error

/-- the extraction predicate -/
def holdsValue (s : State T X) : Bool :=
  s.flags &&& (valueSet ||| errorSet ||| consumed) == valueSet

/-- the exception `rethrow_if_exception` throws, if it does -/
def rethrowIfException (s : State T X) : Option X :=
  if s.flags.has errorSet then s.exception else none

/-- `take_value()`; `none` is the abort of `refuse_valueless_extraction` -/
def takeValue (s : State T X) : Option (T × State T X) :=
  s.value.map fun v => (v, { s.fetchOr consumed with value := none })

/-! ## release -/

/-- the bits `release_promise()` publishes, given what its load saw: `error_set` rides along when
there is no result -/
def releaseBits (seen : Word) : Word :=
  if seen.has resultSet then promiseReleased else promiseReleased ||| errorSet

/-- the repair of `release_promise()`: an error for a producer that set no outcome -/
def repair (s : State T X) : State T X :=
  if s.hasResult then s else { s with error := .errc .stateNotRecoverable }

/-- `release_promise()`: whether the call deallocates, and the state it leaves -/
def releasePromise (s : State T X) : Bool × State T X :=
  (s.flags.has futureReleased, s.repair.fetchOr (releaseBits s.flags))

/-- `release_future()` -/
def releaseFuture (s : State T X) : Bool × State T X :=
  (s.flags.has promiseReleased && !s.flags.has promiseFinalizing, s.fetchOr futureReleased)

/-- `try_complete_finalize()` with nobody in between: the compare-exchange fails exactly when
`future_released` is set -/
def tryCompleteFinalize (s : State T X) : Bool × State T X :=
  if s.flags.has futureReleased then (false, s) else (true, s.fetchAnd (~~~promiseFinalizing))

/-- `promise<T>::settle()`: whether it deallocates, and the state it leaves -/
def settle (s : State T X) : Bool × State T X :=
  match (s.fetchOr promiseFinalizing).releasePromise with
  | (true, s) => (true, s)
  | (false, s) => match s.tryCompleteFinalize with
    | (alive, s) => (!alive, s)

/-- `message::cleanup_fn_`: a message that dies with its slot cancels it -/
def cleanupFn (s : State T X) : Bool × State T X :=
  (s.setError (.errc .operationCanceled)).releasePromise

/-! ## the flags a function leaves -/

@[simp] theorem fetchOr_flags (s : State T X) (b : Word) : (s.fetchOr b).flags = s.flags ||| b := rfl
@[simp] theorem fetchAnd_flags (s : State T X) (b : Word) :
    (s.fetchAnd b).flags = s.flags &&& b := rfl
@[simp] theorem fetchOr_error (s : State T X) (b : Word) : (s.fetchOr b).error = s.error := rfl
@[simp] theorem fetchOr_value (s : State T X) (b : Word) : (s.fetchOr b).value = s.value := rfl
@[simp] theorem fetchOr_exception (s : State T X) (b : Word) :
    (s.fetchOr b).exception = s.exception := rfl
@[simp] theorem write_flags (s : State T X) (o : Outcome T X) : (s.write o).flags = s.flags := by
  cases o <;> rfl

theorem setOutcome_hasResult (s : State T X) (o : Outcome T X) : (s.setOutcome o).hasResult = true := by
  cases o <;> simp [setOutcome, hasResult, Outcome.flag]

/-- a produced outcome is not touched by the repair -/
theorem repair_of_hasResult {s : State T X} (h : s.hasResult = true) : s.repair = s := if_pos h

theorem releasePromise_ready (s : State T X) : s.releasePromise.2.isReady = true := by
  show ((s.repair.flags) ||| releaseBits s.flags).has promiseReleased = true
  unfold releaseBits
  split <;> simp

/-- a message that dies with its slot leaves a ready future that failed with
`operation_canceled` -/
theorem cleanupFn_canceled (s : State T X) :
    s.cleanupFn.2.isReady = true ∧ s.cleanupFn.2.hasError = true ∧
      s.cleanupFn.2.getError = .errc .operationCanceled := by
  have hr : (s.setError (.errc .operationCanceled)).hasResult = true := setOutcome_hasResult s _
  refine ⟨releasePromise_ready _, ?_, ?_⟩
  · show ((setError s _).repair.flags ||| _).has errorSet = true
    rw [repair_of_hasResult hr]
    simp [setError, setOutcome, Outcome.flag]
  · show ((setError s _).repair).error = _
    rw [repair_of_hasResult hr]
    rfl

/-- `settle()` of an outcome whose future is still there: nobody deallocates -/
theorem settle_of_hasResult {s : State T X} (hr : s.hasResult = true)
    (hf : s.flags.has futureReleased = false) : s.settle = (false,
      ((s.fetchOr promiseFinalizing).fetchOr promiseReleased).fetchAnd (~~~promiseFinalizing)) := by
  have hr' : (s.fetchOr promiseFinalizing).hasResult = true := by
    simp only [hasResult, fetchOr_flags, Word.has_or] at hr ⊢
    rw [hr]
    rfl
  have hrel : (s.fetchOr promiseFinalizing).releasePromise
      = (false, (s.fetchOr promiseFinalizing).fetchOr promiseReleased) := by
    unfold releasePromise releaseBits
    rw [repair_of_hasResult hr', show (s.fetchOr promiseFinalizing).flags.has resultSet = true from hr',
      if_pos rfl, fetchOr_flags, Word.has_or, hf]
    simp
  unfold settle
  rw [hrel]
  dsimp only
  unfold tryCompleteFinalize
  rw [if_neg]
  · rfl
  · simp [hf]

theorem tryCompleteFinalize_isReady (s : State T X) :
    s.tryCompleteFinalize.2.isReady = s.isReady := by
  unfold tryCompleteFinalize
  split
  · rfl
  · exact (Word.has_clear_finalizing s.flags).2.2.2.1

/-- whoever settles leaves a ready future -/
theorem settle_ready (s : State T X) : s.settle.2.isReady = true := by
  unfold settle
  have hready := releasePromise_ready (s.fetchOr promiseFinalizing)
  cases hrel : (s.fetchOr promiseFinalizing).releasePromise with
  | mk deallocates s' =>
    rw [hrel] at hready
    cases deallocates with
    | true => exact hready
    | false => exact (tryCompleteFinalize_isReady s').trans hready

end State
end ActorZeta
