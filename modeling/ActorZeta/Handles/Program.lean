import ActorZeta.Lib.Heap
import ActorZeta.Lib.Trans
import ActorZeta.SharedState.State

/-!
# promise, unique_future and message: the handles on shared states

A sequential program over the objects that own a side of a `shared_state`: `promise<T>`,
`unique_future<T>` of a promise-backed state (it carries no coroutine) and `message` with its
result slot.  The living objects of each kind are a list; an operation names them by position.

* `SlotMessage`      the fields of a `message` around its slot;
* `Handles`          the objects, the states they point to, and accounts of what has happened;
* `releaseProducer`, `releaseFuture`   the two ways a side of a state is released;
* `Handles.step`     one operation; `none` where its precondition does not hold.
-/

namespace ActorZeta

/-- how the producer side of a state was released: with an outcome that was set, by a promise
that died or was overwritten without one, or by a message that died or was overwritten -/
inductive Release (T X : Type) where
  | set (o : Outcome T X)
  | abandoned
  | cleanup
  deriving DecidableEq

/-- what the state then says -/
def Release.outcome {T X : Type} : Release T X → Outcome T X
  | .set o => o
  | .abandoned => .error (.errc .brokenPipe)
  | .cleanup => .error (.errc .operationCanceled)

/-- the call that releases it: whether it deallocates, and the state it leaves -/
def Release.call {T X : Type} (r : Release T X) (st : State T X) : Bool × State T X :=
  match r with
  | .cleanup => st.cleanupFn
  | r => (st.setOutcome r.outcome).settle

/-- `message`, without its body: `cleanupFn` tells whether `cleanup_fn_` is installed -/
structure SlotMessage where
  command : Nat
  resultSlot : Option Address
  cleanupFn : Bool
  ownershipTransferred : Bool
  deriving DecidableEq, Repr

/-- the objects of a program, and its accounts: who was released how, the futures that were
released, the states with a future, the states of messages, the slots that were transferred, the
values taken, the states deallocated; `dangling` if a deallocated state was accessed, `refused` if
an extraction aborted -/
structure Handles (T X : Type) where
  states : Heap (State T X)
  promises : List (Option Address)
  futures : List (Option Address)
  messages : List SlotMessage
  released : List (Address × Release T X)
  dropped : List Address
  asked : List Address
  slots : List Address
  transferred : List Address
  taken : List (Address × T)
  freed : List Address
  dangling : Bool
  refused : Bool

/-- the operations.  `extended` is the allocator-extended move constructor; `dispatch` is
`get_result_promise()` followed by `transfer_ownership()`; `newFuture` is the default constructor. -/
inductive HandleOp (T X : Type) where
  | newPromise
  | getFuture (i : Nat)
  | movePromise (i : Nat)
  | assignPromise (i j : Nat)
  | settle (i : Nat) (o : Outcome T X)
  | destroyPromise (i : Nat)
  | newFuture
  | moveFuture (i : Nat)
  | assignFuture (i j : Nat)
  | takeReady (i : Nat)
  | detach (i : Nat)
  | destroyFuture (i : Nat)
  | newMessage (command : Nat)
  | makeMessage (command : Nat)
  | moveMessage (i : Nat) (extended : Bool)
  | assignMessage (i j : Nat)
  | swapMessages (i j : Nat)
  | setCommand (i command : Nat)
  | dispatch (i : Nat)
  | destroyMessage (i : Nat)
  deriving DecidableEq

namespace SlotMessage

/-- a message without a slot: freshly constructed, or moved from -/
def empty (command : Nat) : SlotMessage := ⟨command, none, false, false⟩

/-- `init_future_slot` -/
def initFutureSlot (msg : SlotMessage) (a : Address) : SlotMessage :=
  { msg with resultSlot := some a, cleanupFn := true }

/-- the slot that `cleanup_fn_` would release -/
def owned (msg : SlotMessage) : Option Address :=
  if !msg.ownershipTransferred && msg.cleanupFn then msg.resultSlot else none

end SlotMessage

namespace Handles
variable {T X : Type}

def init : Handles T X := ⟨.empty, [], [], [], [], [], [], [], [], [], [], false, false⟩

/-- a call that ends with the state deallocated, if it says so -/
def onState (m : Handles T X) (a : Address) (f : State T X → Bool × State T X) : Handles T X :=
  match m.states.get a with
  | none => { m with dangling := true }
  | some st =>
    if (f st).1 then { m with states := m.states.free a, freed := m.freed ++ [a] }
    else { m with states := m.states.modify a fun _ => (f st).2 }

/-- `set_value`, `error`, `exception`, `release_if_needed` of a promise, and `cleanup_fn_` of a
message -/
def releaseProducer (m : Handles T X) (a : Address) (r : Release T X) : Handles T X :=
  { m.onState a r.call with released := m.released ++ [(a, r)] }

/-- `unique_future::release()` of a future without a coroutine -/
def releaseFuture (m : Handles T X) (a : Address) : Handles T X :=
  { m.onState a State.releaseFuture with dropped := m.dropped ++ [a] }

def dropPromise (m : Handles T X) : Option Address → Handles T X
  | none => m
  | some a => m.releaseProducer a .abandoned

def dropFuture (m : Handles T X) : Option Address → Handles T X
  | none => m
  | some a => m.releaseFuture a

def dropMessage (m : Handles T X) (msg : SlotMessage) : Handles T X :=
  match msg.owned with
  | none => m
  | some a => m.releaseProducer a .cleanup

/-- `allocate_shared_state` -/
def allocate (m : Handles T X) : Handles T X := { m with states := m.states.alloc .fresh }

/-- `take_ready()` on a future that is ready and has not failed -/
def takeReady (m : Handles T X) (i : Nat) (a : Address) : Option (Handles T X) :=
  match m.states.get a with
  | none => some { m with dangling := true }
  | some st =>
    if st.isReady && !st.hasError then
      match st.takeValue with
      | none => some { m with refused := true }
      | some (v, st') =>
        let m := { m with
          states := m.states.modify a fun _ => st'
          taken := m.taken ++ [(a, v)] }
        some { m.releaseFuture a with futures := m.futures.set i none }
    else none

/-- one operation -/
def step (m : Handles T X) : HandleOp T X → Option (Handles T X)
  | .newPromise => some { m.allocate with promises := m.promises ++ [some m.states.next] }
  | .getFuture i => match m.promises[i]? with
    | some (some a) =>
      if a ∈ m.asked then none
      else some { m with futures := m.futures ++ [some a], asked := m.asked ++ [a] }
    | _ => none
  | .movePromise i => m.promises[i]?.map fun h => { m with promises := m.promises.set i none ++ [h] }
  | .assignPromise i j => m.promises[i]?.bind fun h => m.promises[j]?.map fun k =>
    if i = j then m
    else { m.dropPromise h with promises := (m.promises.set j none).set i k }
  | .settle i o => match m.promises[i]? with
    | some (some a) => some { m.releaseProducer a (.set o) with promises := m.promises.set i none }
    | _ => none
  | .destroyPromise i => m.promises[i]?.map fun h =>
    { m.dropPromise h with promises := m.promises.eraseIdx i }
  | .newFuture => some { m with futures := m.futures ++ [none] }
  | .moveFuture i => m.futures[i]?.map fun h => { m with futures := m.futures.set i none ++ [h] }
  | .assignFuture i j => m.futures[i]?.bind fun h => m.futures[j]?.map fun k =>
    if i = j then m
    else { m.dropFuture h with futures := (m.futures.set j none).set i k }
  | .takeReady i => match m.futures[i]? with
    | some (some a) => m.takeReady i a
    | _ => none
  | .detach i => m.futures[i]?.map fun h => { m.dropFuture h with futures := m.futures.set i none }
  | .destroyFuture i => m.futures[i]?.map fun h =>
    { m.dropFuture h with futures := m.futures.eraseIdx i }
  | .newMessage command => some { m with messages := m.messages ++ [.empty command] }
  | .makeMessage command => some { m.allocate with
      messages := m.messages ++ [(SlotMessage.empty command).initFutureSlot m.states.next]
      futures := m.futures ++ [some m.states.next]
      asked := m.asked ++ [m.states.next]
      slots := m.slots ++ [m.states.next] }
  | .moveMessage i _ => m.messages[i]?.map fun msg =>
    { m with messages := m.messages.set i (.empty msg.command) ++ [msg] }
  | .assignMessage i j => m.messages[i]?.bind fun msg => m.messages[j]?.map fun other =>
    if i = j then m
    else { m.dropMessage msg with
      messages := (m.messages.set j (.empty other.command)).set i other }
  | .swapMessages i j => m.messages[i]?.bind fun msg => m.messages[j]?.map fun other =>
    { m with messages := (m.messages.set i other).set j msg }
  | .setCommand i command => m.messages[i]?.map fun msg =>
    { m with messages := m.messages.set i { msg with command := command } }
  | .dispatch i => m.messages[i]?.bind fun msg => match msg.resultSlot with
    | some a =>
      if msg.ownershipTransferred then none
      else some { m with
        promises := m.promises ++ [some a]
        messages := m.messages.set i { msg with ownershipTransferred := true }
        transferred := m.transferred ++ [a] }
    | none => none
  | .destroyMessage i => m.messages[i]?.map fun msg =>
    { m.dropMessage msg with messages := m.messages.eraseIdx i }

end Handles
end ActorZeta
