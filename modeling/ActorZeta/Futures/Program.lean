import ActorZeta.Lib.Trans
import ActorZeta.Coroutine.Frame

/-!
# unique_future objects, the frames they own, and the call stack

One thread runs any number of method coroutines.  The `unique_future` objects of the program live
anywhere: in variables, in the parameters of a coroutine, in the value of a state, in the awaiter
of a `co_await`.  A destructor runs inside the operation that destroys its object, and inside that
destructor other operations run, so that the call stack is part of the state.  Between two
destructors, and at every other place where the program has control, it does what it likes.

* `Object`, `MethodFrame`, `Shared`   a `unique_future`, a coroutine, a `shared_state`;
* `Task`        an entry of the call stack: a coroutine that runs, or a member function that waits
                for the destructors it called;
* `Futures.release`, `dropState`, `finish`   `unique_future::release()`, cut where destructors run;
* `Futures.finalSuspend`   the final awaiter;
* `Futures.exec` what the program can do; `Futures.library` how a member function goes on.

`destroyed` is an account of the calls of `handle.destroy()`, and `undefined` tells whether
something was touched that is gone, or destroyed or resumed where it may not be.
-/

namespace ActorZeta
namespace Futures

/-- where a `unique_future` lives: it dies with the parameters of a frame, or with the value of a
state; inside `owning_awaiter` nobody but the awaiting coroutine reaches it; everywhere else it
lives until the program destroys it -/
inductive Home where
  | outside
  | param (a : Handle)
  | value (s : Address)
  | awaiter (a : Handle)
  deriving DecidableEq, Repr

/-- `unique_future` -/
structure Object where
  state : Option Address
  handle : Option Handle
  home : Home
  deriving DecidableEq, Repr

/-- what is left of an object that was moved from -/
def Object.clear (o : Object) : Object := { o with state := none, handle := none }

/-- where a method coroutine is: `suspended` in the `co_await` of the object `g`, `leaving` after
its `co_return`, `parked` at its final suspension, `dying` inside `destroy()` -/
inductive Phase where
  | running
  | suspended (g : Nat)
  | leaving
  | parked
  | dying
  | freed
  deriving DecidableEq, Repr

/-- a method coroutine; `outer` is the promise that `outer_promise_raw_` points to -/
structure MethodFrame where
  state : Address
  phase : Phase
  outer : Option Handle
  deriving DecidableEq, Repr

namespace MethodFrame

/-- `handle.done()`: it is at its final suspension, also while it is being destroyed there -/
def done (fr : MethodFrame) : Bool := fr.phase = .parked || fr.phase = .dying

def goto (p : Phase) (fr : MethodFrame) : MethodFrame := { fr with phase := p }

end MethodFrame

/-- a `shared_state`, with the coroutine that makes its result, if it is one -/
structure Shared (T X : Type) where
  mem : Mem T X
  maker : Option Handle
  deriving DecidableEq

def Shared.onMem {T X : Type} (f : Mem T X → Mem T X) (c : Shared T X) : Shared T X :=
  { c with mem := f c.mem }

/-- what the caller of `release()` does next: `~unique_future`, or the move assignment from `h` -/
inductive After where
  | nothing
  | destroy
  | assign (h : Nat)
  deriving DecidableEq, Repr

/-- an entry of the call stack: `body`, a coroutine that runs; `user`, code of the program that a
destructor runs; `destructor`, a `~unique_future` that is about to run; `reclaiming` and
`releasing`, the two halves of `release()`, waiting for the frame and for the value of the state
to be gone; `cancelled` and `selfDestroying`, the final awaiter of `a` before and inside its
`self.destroy()` -/
inductive Task where
  | body (a : Handle)
  | user
  | destructor (g : Nat)
  | reclaiming (a : Handle) (g : Nat) (k : After)
  | releasing (g : Nat) (k : After)
  | cancelled (a : Handle)
  | selfDestroying (a : Handle)
  deriving DecidableEq, Repr

/-- what the program does where it has control.  `settle` stands for the member functions of
`promise`; `move` constructs a `unique_future` from another, also inside a value that is on its way
into a state or out of it; `endAwait` is the end of the full expression of a `co_await`; `drain`
resumes whoever awaits a state, as the drivers do; `leave` is the end of a destructor of the
program's own; `library` is the next piece of a member function. -/
inductive Act (T X : Type) where
  | new
  | promise
  | settle (s : Address) (o : Outcome T X)
  | start (gs : List Nat)
  | move (g : Nat) (p : Home)
  | assign (g h : Nat)
  | takeReady (g : Nat)
  | detach (g : Nat)
  | destroy (g : Nat)
  | inspect (g : Nat)
  | await (g : Nat)
  | endAwait (g : Nat)
  | coReturn (o : Outcome T X)
  | finalSuspend
  | drain (s : Address)
  | leave
  | library
  deriving DecidableEq

end Futures

open Futures

/-- the `unique_future` objects, the frames and the states of one thread, and its call stack -/
structure Futures (T X : Type) where
  objects : Heap Object
  frames : Heap MethodFrame
  states : Heap (Shared T X)
  control : List Task
  destroyed : List Handle
  undefined : Bool

namespace Futures
variable {T X : Type}

def init : Futures T X := ⟨.empty, .empty, .empty, [], [], false⟩

def undef (m : Futures T X) : Futures T X := { m with undefined := true }

/-- a state, if it is still allocated -/
def look (m : Futures T X) (s : Address) : Option (Shared T X) :=
  (m.states.get s).filter fun c => c.mem.alive

/-- a frame that has not been freed -/
def live (m : Futures T X) (a : Handle) : Bool :=
  (m.frames.get a).any fun fr => fr.phase ≠ .freed

def onFrame (m : Futures T X) (a : Handle) (f : MethodFrame → MethodFrame) : Futures T X :=
  { m with frames := m.frames.modify a f }

def onState (m : Futures T X) (s : Address) (f : Mem T X → Mem T X) : Futures T X :=
  { m with states := m.states.modify s (.onMem f) }

def onObject (m : Futures T X) (g : Nat) (f : Object → Object) : Futures T X :=
  { m with objects := m.objects.modify g f }

def push (m : Futures T X) (ts : List Task) : Futures T X := { m with control := ts ++ m.control }

def pop (m : Futures T X) : Futures T X := { m with control := m.control.tail }

/-! ## destructors -/

/-- the objects that live in `p` -/
def residents (m : Futures T X) (p : Home) : List Nat :=
  (List.range m.objects.next).filter fun g => (m.objects.get g).any fun o => o.home = p

/-- the destructors of what lives in `p`, with code of the program between them -/
def destructors (m : Futures T X) (p : Home) : List Task :=
  ((m.residents p).flatMap fun g => [.user, .destructor g]) ++ [.user]

/-- `handle.destroy()`, until the destructors of the parameters run -/
def destroyFrame (m : Futures T X) (a : Handle) : Futures T X :=
  let m := { m with destroyed := a :: m.destroyed }
  match m.frames.get a with
  | some fr => if fr.phase = .parked
    then (m.onFrame a (.goto .dying)).push (m.destructors (.param a))
    else m.undef
  | none => m.undef

/-! ## unique_future -/

/-- the second half of `release()`: `handle_ = {}`, then `release_future()` until the destructors
of the value run -/
def dropState (m : Futures T X) (g : Nat) (k : After) : Futures T X :=
  match m.objects.get g with
  | none => m.undef
  | some o =>
    let m := (m.onObject g ({ · with handle := none })).push [.releasing g k]
    match o.state with
    | none => m
    | some s => match m.look s with
      | none => m.undef
      | some c =>
        let m := m.onState s Mem.releaseFuture
        if c.mem.st.releaseFuture.1 then m.push (m.destructors (.value s)) else m

/-- `release()`, until the first destructor runs -/
def release (m : Futures T X) (g : Nat) (k : After) : Futures T X :=
  match m.objects.get g with
  | none => m.undef
  | some o => match o.handle with
    | none => m.dropState g k
    | some a => match m.frames.get a with
      | none => m.undef
      | some fr =>
        if fr.phase = .freed then m.undef
        else if fr.done then (m.push [.reclaiming a g k]).destroyFrame a
        else m.dropState g k

/-- the end of `release()`, `state_ = nullptr`, and what its caller does next -/
def finish (m : Futures T X) (g : Nat) (k : After) : Futures T X :=
  let m := m.onObject g ({ · with state := none })
  match k with
  | .nothing => m
  | .destroy => { m with objects := m.objects.free g }
  | .assign h => match m.objects.get h with
    | none => m.undef
    | some o => (m.onObject h .clear).onObject g ({ · with state := o.state, handle := o.handle })

/-- `unique_future(unique_future&&)`, into a new object -/
def moveInto (p : Home) (m : Futures T X) (g : Nat) : Futures T X :=
  match m.objects.get g with
  | none => m.undef
  | some o =>
    { m with objects := (m.objects.modify g .clear).alloc ⟨o.state, o.handle, p⟩ }

/-- `coroutine_handle()`, and a look into the frame -/
def inspect (m : Futures T X) (o : Object) : Futures T X :=
  match o.state with
  | none => m
  | some s => match m.look s with
    | none => m.undef
    | some c => if c.mem.st.isReady then m else match o.handle with
      | none => m
      | some a => if m.live a then m else m.undef

/-! ## coroutines -/

/-- the promises that `update_propagated_outer()` of `a` writes to -/
def outers : Nat → Heap MethodFrame → Handle → List Handle
  | 0, _, _ => []
  | n + 1, h, a => match (h.get a).bind MethodFrame.outer with
    | none => []
    | some o => o :: outers n h o

/-- `update_propagated_outer()` -/
def updateOuters (m : Futures T X) (a : Handle) : Futures T X :=
  if (outers m.frames.next m.frames a).all m.live then m else m.undef

/-- `handle.resume()` and a symmetric transfer; the coroutine comes back in `await_resume()`, which
clears its awaited chain -/
def resume (m : Futures T X) (a : Handle) : Futures T X :=
  match m.frames.get a with
  | none => m.undef
  | some fr => match fr.phase with
    | .suspended _ => ((m.onFrame a (.goto .running)).push [.body a]).updateOuters a
    | _ => m.undef

/-- null, or the no-op coroutine, gives control back -/
def resumeAny (m : Futures T X) : Option Handle → Futures T X
  | some a => m.resume a
  | none => m

/-- a call of a method coroutine: the frame with its parameters, the state, the future that is
returned, and the body, which runs at once -/
def start (m : Futures T X) (gs : List Nat) : Futures T X :=
  let a := m.frames.next
  let s := m.states.next
  let m : Futures T X := { m with
    frames := m.frames.alloc ⟨s, .running, none⟩
    states := m.states.alloc ⟨.fresh, some a⟩
    objects := m.objects.alloc ⟨some s, some a, .outside⟩
    control := .body a :: m.control }
  gs.foldl (moveInto (.param a)) m

/-- `propagate_awaited_state()`: the promise that makes the result learns of its outer one -/
def link (m : Futures T X) (a : Handle) (o : Object) (c : Shared T X) : Futures T X :=
  let m := match if c.mem.st.hasResult || c.mem.st.isReady then none else o.handle with
    | none => m
    | some i => if m.live i then m.onFrame i ({ · with outer := some a }) else m.undef
  m.updateOuters a

/-- `co_await std::move(g)` by `a`; `c` is the state of `g` -/
def await (m : Futures T X) (a : Handle) (g : Nat) (o : Object) (s : Address) (c : Shared T X) :
    Futures T X :=
  let own := m.objects.next
  let m := moveInto (.awaiter a) (m.link a o c) g
  if c.mem.st.hasResult then m.updateOuters a
  else match c.mem.st.continuation with
    -- the result is not there yet: nobody else can make it between the two reads
    | none => ((m.onState s (·.access ({ · with continuation := some a }))).onFrame a
        (.goto (.suspended own))).pop
    | some _ => m.updateOuters a

/-- the final awaiter of `a`: the continuation is taken first; a future that is gone leaves the
frame to the coroutine itself, otherwise it parks, and control goes to whoever awaits it -/
def finalSuspend (m : Futures T X) (a : Handle) (fr : MethodFrame) : Futures T X :=
  match m.look fr.state with
  | none => m.undef
  | some c => match c.mem.takeContinuation with
    | (cont, mem) =>
      let m := ((m.onState fr.state fun _ => mem.finalize.2).onFrame a (.goto .parked)).pop
      if mem.finalize.1 then m.push (m.destructors (.value fr.state) ++ [.cancelled a])
      else m.resumeAny cont

/-- a `promise` sets its outcome and settles -/
def settle (m : Futures T X) (s : Address) (c : Shared T X) (o : Outcome T X) : Futures T X :=
  let mem := c.mem.access (·.setOutcome o)
  let m := m.onState s fun _ => mem.finalize.2
  if mem.finalize.1 then m.push (m.destructors (.value s)) else m

/-! ## steps -/

/-- the objects that the program can name -/
def reach (m : Futures T X) (g : Nat) : Option Object :=
  (m.objects.get g).filter fun o => match o.home with
    | .awaiter _ => false
    | _ => true

/-- the coroutine whose body has control -/
def current (m : Futures T X) : Option (Handle × MethodFrame) :=
  match m.control with
  | .body a :: _ => (m.frames.get a).map fun fr => (a, fr)
  | _ => none

/-- where the program can put an object: a value is made before its promise is released -/
def canHold (m : Futures T X) : Home → Bool
  | .outside => true
  | .value s => (m.look s).any fun c => !c.mem.st.isReady
  | _ => false

/-- what the program does -/
def exec (m : Futures T X) : Act T X → Option (Futures T X)
  | .new => some { m with objects := m.objects.alloc ⟨none, none, .outside⟩ }
  | .promise => some { m with
      states := m.states.alloc ⟨.fresh, none⟩
      objects := m.objects.alloc ⟨some m.states.next, none, .outside⟩ }
  | .settle s o => (m.look s).bind fun c =>
      if c.maker.isNone && !c.mem.st.isReady then some (m.settle s c o) else none
  | .start gs => if gs.all fun g => (m.reach g).isSome then some (m.start gs) else none
  | .move g p => if (m.reach g).isSome && m.canHold p then some (moveInto p m g) else none
  | .assign g h => if (m.reach g).isSome && (m.reach h).isSome
      then some (if g = h then m else m.release g (.assign h)) else none
  | .takeReady g => (m.reach g).bind fun o => o.state.bind fun s => match m.look s with
      | none => some m.undef
      -- `check_extractable()` throws or aborts otherwise
      | some c => if c.mem.st.hasResult && !c.mem.st.hasError
          then c.mem.st.takeValue.map fun v => (m.onState s (·.access fun _ => v.2)).release g .nothing
          else none
  | .detach g => (m.reach g).map fun _ => m.release g .nothing
  | .destroy g => (m.reach g).bind fun o =>
      if o.home = .outside then some (m.release g .destroy) else none
  | .inspect g => (m.reach g).map m.inspect
  | .await g => m.current.bind fun (a, fr) => (m.reach g).bind fun o => o.state.bind fun s =>
      if fr.phase = .running then match m.look s with
        | none => some m.undef
        | some c => some (m.await a g o s c)
      else none
  | .endAwait g => m.current.bind fun (a, _) => (m.objects.get g).bind fun o =>
      if o.home = .awaiter a then some (m.release g .destroy) else none
  | .coReturn o => m.current.bind fun (a, fr) =>
      if fr.phase = .running
      then some ((m.onState fr.state (·.access (·.setOutcome o))).onFrame a (.goto .leaving))
      else none
  | .finalSuspend => m.current.bind fun (a, fr) =>
      if fr.phase = .leaving then some (m.finalSuspend a fr) else none
  | .drain s => (m.look s).bind fun c => if c.mem.st.hasResult
      then c.mem.takeContinuation.1.map fun a =>
        (m.onState s fun mem => mem.takeContinuation.2).resume a
      else none
  | .leave => match m.control with
      | .user :: _ => some m.pop
      | _ => none
  | .library => none

/-- how a member function goes on -/
def library (m : Futures T X) : Option (Futures T X) :=
  match m.control with
  | .destructor g :: _ => some (m.pop.release g .destroy)
  | .reclaiming a g k :: _ => some ((m.pop.onFrame a (.goto .freed)).dropState g k)
  | .releasing g k :: _ => some (m.pop.finish g k)
  | .cancelled a :: _ => some ((m.pop.push [.selfDestroying a]).destroyFrame a)
  | .selfDestroying a :: _ => some (m.pop.onFrame a (.goto .freed))
  | _ => none

/-- the program has control in the body of a coroutine, in a destructor of its own, and when no
coroutine runs -/
def hasControl (m : Futures T X) : Bool :=
  match m.control with
  | [] | .body _ :: _ | .user :: _ => true
  | _ => false

/-- a step of the thread -/
def step (m : Futures T X) : Act T X → Option (Futures T X)
  | .library => m.library
  | act => if m.hasControl then m.exec act else none

/-! ## operations that meet on one object -/

/-- `release()` of the object is under way -/
def Task.operates (g : Nat) : Task → Bool
  | .reclaiming _ g' _ | .releasing g' _ => g' = g
  | _ => false

/-- an assignment under way that will move from the object -/
def Task.takesFrom (h : Nat) : Task → Bool
  | .reclaiming _ _ (.assign h') | .releasing _ (.assign h') => h' = h
  | _ => false

def busy (m : Futures T X) (g : Nat) : Bool := m.control.any (Task.operates g)

def sourced (m : Futures T X) (h : Nat) : Bool := m.control.any (Task.takesFrom h)

/-- no operation begins on an object whose `release()` is under way, and no object dies that an
assignment under way will move from -/
def Apart (m : Futures T X) : Act T X → Prop
  | .move g _ | .takeReady g | .detach g | .inspect g | .await g => m.busy g = false
  | .assign g h => m.busy g = false ∧ m.busy h = false
  | .start gs => ∀ g ∈ gs, m.busy g = false
  | .destroy g | .endAwait g => m.busy g = false ∧ m.sourced g = false
  | .library => ∀ g, m.control.head? = some (.destructor g) → m.busy g = false ∧ m.sourced g = false
  | _ => True

end Futures
end ActorZeta
