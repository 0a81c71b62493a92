import ActorZeta.Lib.Trans
import ActorZeta.SharedState.State

/-!
# shared_state: one producer against one consumer

The two sides of a `shared_state` as threads.  One step is one atomic access to `flags_` or one
plain access to another field; `deallocate()` is a step of its own, made by the thread that
decided to free the state.

* `Producer`     sets its outcomes, then leaves through `settle()`, through `final_awaiter` or
                 through `message::cleanup_fn_`;
* `Consumer`     polls, takes the value at most once and only after it saw one, and releases the
                 future once;
* `Mem`          the state with what a run is judged by: is it still allocated, which calls have
                 deallocated it, has anybody touched it afterwards;
* `Race.step`    one step of either side.
-/

namespace ActorZeta
open StateFlags

/-- the calls that can free a state -/
inductive Call where
  | releasePromise
  | tryCompleteFinalize
  | releaseFuture
  deriving DecidableEq, Repr

/-- a `shared_state` in memory -/
structure Mem (T X : Type) where
  st : State T X
  alive : Bool
  freedBy : List Call
  touchedFreed : Bool
  deriving DecidableEq

namespace Mem
variable {T X : Type}

def fresh : Mem T X := ⟨.fresh, true, [], false⟩

/-- an access of either side: it must find the state allocated -/
def access (m : Mem T X) (f : State T X → State T X) : Mem T X :=
  { m with st := f m.st, touchedFreed := m.touchedFreed || !m.alive }

def load (m : Mem T X) : Mem T X := m.access id

/-- `deallocate()` -/
def deallocate (m : Mem T X) (c : Call) : Mem T X :=
  { m.load with alive := false, freedBy := c :: m.freedBy }

end Mem

/-- the ways a producer leaves -/
inductive Exit where
  | settle
  | finalAwaiter
  | cleanup
  deriving DecidableEq, Repr

/-- where the producer is -/
inductive Producer (T X : Type) where
  | writing (o : Outcome T X) (todo : List (Outcome T X))
  | publishing (o : Outcome T X) (todo : List (Outcome T X))
  | claiming
  | finalizing
  | relLoad
  | relError
  | relOr (bits : Word)
  | relDealloc
  | finLoad
  | finCas (current : Word)
  | finDealloc
  | finAnd
  | done (deallocated : Bool) (finalized : Option Bool)
  deriving DecidableEq

namespace Producer
variable {T X : Type}

/-- the producer about to set the outcomes `todo` and leave through `exit` -/
def start (exit : Exit) : List (Outcome T X) → Producer T X
  | o :: todo => .writing o todo
  | [] => match exit with
    | .settle => .finalizing
    | .finalAwaiter => .claiming
    | .cleanup => .relLoad

/-- after a `release_promise()` that did not deallocate -/
def afterRelease : Exit → Producer T X
  | .cleanup => .done false none
  | _ => .finLoad

/-- one step of the producer -/
def step (exit : Exit) (m : Mem T X) : Producer T X → Option (Mem T X × Producer T X)
  | .writing o todo => some (m.access (·.write o), .publishing o todo)
  | .publishing o todo => some (m.access (·.fetchOr o.flag), start exit todo)
  | .claiming => some (m.access ({ · with continuation := none }), .finalizing)
  | .finalizing => some (m.access (·.fetchOr promiseFinalizing), .relLoad)
  | .relLoad =>
    some (m.load, if m.st.flags.has resultSet then .relOr promiseReleased else .relError)
  | .relError => some (m.access ({ · with error := .errc .stateNotRecoverable }),
      .relOr (promiseReleased ||| errorSet))
  | .relOr bits => some (m.access (·.fetchOr bits),
      if m.st.flags.has futureReleased then .relDealloc else afterRelease exit)
  | .relDealloc => some (m.deallocate .releasePromise, .done true none)
  | .finLoad => some (m.load, .finCas m.st.flags)
  | .finCas current =>
    let expected := current &&& ~~~futureReleased
    if m.st.flags = expected then
      some (m.access ({ · with flags := expected &&& ~~~promiseFinalizing }), .done false (some true))
    else if m.st.flags.has futureReleased then some (m.load, .finDealloc)
    else some (m.load, .finAnd)
  | .finDealloc => some (m.deallocate .tryCompleteFinalize, .done false (some false))
  | .finAnd => some (m.access (·.fetchAnd (~~~promiseFinalizing)), .done false (some true))
  | .done _ _ => none

end Producer

/-- where the consumer is: `seen` is what its last load saw, `got` the value it took -/
inductive Consumer (T : Type) where
  | holding (seen : Word) (took : Bool) (got : Option T)
  | taking (seen : Word)
  | deallocating
  | done
  deriving DecidableEq

/-- who moves, and for the consumer what it does next with the future it holds -/
inductive RaceAct where
  | produce
  | poll
  | take
  | release
  | consume
  deriving DecidableEq, Repr

/-- the extraction check of `take_ready()` and `await_resume()`: a result and no error -/
def extractable (seen : Word) : Bool := seen.has resultSet && !seen.has errorSet

/-- one step of the consumer; `consume` goes on with a call it is inside of -/
def Consumer.step {T X : Type} (m : Mem T X) : RaceAct → Consumer T → Option (Mem T X × Consumer T)
  | .poll, .holding _ took got => some (m.load, .holding m.st.flags took got)
  | .take, .holding seen false _ =>
    if extractable seen then some (m.access (·.fetchOr consumed), .taking seen) else none
  | .consume, .taking seen => m.st.value.map fun v =>
      (m.access ({ · with value := none }), .holding seen true (some v))
  | .release, .holding _ _ _ => some (m.access (·.fetchOr futureReleased),
      if m.st.releaseFuture.1 then .deallocating else .done)
  | .consume, .deallocating => some (m.deallocate .releaseFuture, .done)
  | _, _ => none

/-- a state shared by one producer and one consumer -/
structure Race (T X : Type) where
  exit : Exit
  mem : Mem T X
  prod : Producer T X
  cons : Consumer T
  deriving DecidableEq

namespace Race
variable {T X : Type}

/-- the outcomes a producer sets before it leaves: its own, and the cancellation of `cleanup_fn_` -/
def outcomes (exit : Exit) (own : Option (Outcome T X)) : List (Outcome T X) :=
  own.toList ++ if exit = .cleanup then [.error (.errc .operationCanceled)] else []

def init (exit : Exit) (own : Option (Outcome T X)) : Race T X :=
  ⟨exit, .fresh, .start exit (outcomes exit own), .holding empty false none⟩

def step (r : Race T X) : RaceAct → Option (Race T X)
  | .produce => (r.prod.step r.exit r.mem).map fun p => { r with mem := p.1, prod := p.2 }
  | a => (r.cons.step r.mem a).map fun p => { r with mem := p.1, cons := p.2 }

/-- both sides have executed their last step -/
def Final (r : Race T X) : Prop := (∃ d f, r.prod = .done d f) ∧ r.cons = .done

end Race
end ActorZeta
