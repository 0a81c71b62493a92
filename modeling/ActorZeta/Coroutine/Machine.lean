import ActorZeta.Lib.Trans
import ActorZeta.Coroutine.Frame

/-!
# The actor's thread among its coroutines

What happens under `running`: `resume_impl` pops messages, starts `behavior(msg)`, and drains the
suspended behavior; the coroutines start others, hold their futures, await and drop them, and
return.  Other threads settle the promise-backed states in between, at any moment.  One step of a
coroutine is one atomic access of `co_await`, one operation of its body, or one object it
destroys.

* `Coros`        the frames, the states, the native stack of running coroutines, the messages;
* `Op`           what a body does next;
* `Coros.exec`   one step of the running coroutine;
* `Coros.drive`  one step of `resume_impl`, when no coroutine runs;
* `Coros.step`   the actor's thread, the other threads, the senders, the destructor.

The body of a coroutine is any sequence of operations, so a theorem about all runs is one about
all programs.  The states of `send()` are in `slots`: their producer sides are here, and each is
settled by one call.
-/

namespace ActorZeta

/-- where `resume_impl` is when no coroutine runs; `left` counts down to `max_throughput` -/
inductive Driver where
  | outside
  | entry (max : Nat)
  | entryDrained (max : Nat)
  | loop (left : Nat)
  | loopDrained (left : Nat)
  | started (left : Nat)
  | parking
  | gone
  deriving DecidableEq, Repr

/-- what the mailbox says: closed, blocked or being destroyed, or the message to pop -/
inductive Mail where
  | stop
  | next (i : Nat)
  deriving DecidableEq, Repr

/-- the message `message_guard` holds; `owned`: nobody has called `transfer_ownership()` -/
structure Guarded where
  slot : Address
  owned : Bool
  deriving DecidableEq, Repr

/-- an actor with its coroutines -/
structure Coros (T X : Type) where
  frames : Heap Frame
  cells : Heap (Cell T X)
  stack : List Handle
  currentBehavior : Option Handle
  driver : Driver
  queue : List Address
  currentMessage : Option Guarded
  slots : Heap (State T X)
  destroyed : List Address
  aborted : Bool
  undefined : Bool

/-- what a body does next -/
inductive Op (T X : Type) where
  /-- call a method coroutine: it runs at once, until its first suspension or its end -/
  | start
  /-- get a promise-backed future; another thread will settle it with `o` -/
  | adopt (o : Outcome T X)
  | await (i : Nat)
  | drop (i : Nat)
  /-- `get_result_promise()` and `transfer_ownership()` of the current message -/
  | take
  | settle (i : Nat) (o : Outcome T X)
  | ret (o : Outcome T X)
  deriving DecidableEq

namespace Coros
variable {T X : Type}

def init : Coros T X :=
  ⟨.empty, .empty, [], none, .outside, [], none, .empty, [], false, false⟩

/-- a read of freed memory -/
def undef (m : Coros T X) : Coros T X := { m with undefined := true }

/-- a state, if it is still allocated -/
def look (m : Coros T X) (s : Address) : Option (Cell T X) :=
  (m.cells.get s).filter fun c => c.mem.alive

def onFrame (m : Coros T X) (a : Handle) (f : Frame → Frame) : Coros T X :=
  { m with frames := m.frames.modify a f }

def onCell (m : Coros T X) (s : Address) (f : Mem T X → Mem T X) : Coros T X :=
  { m with cells := m.cells.modify s (.onMem f) }

def onSlot (m : Coros T X) (s : Address) (f : State T X → State T X) : Coros T X :=
  { m with slots := m.slots.modify s f }

/-- the running coroutine gives control back to whoever started or resumed it -/
def pop (m : Coros T X) : Coros T X := { m with stack := m.stack.tail }

/-- `handle.resume()`, and a symmetric transfer -/
def resume (m : Coros T X) (a : Handle) : Coros T X :=
  match m.frames.get a with
  | some fr => match fr.pc with
    | .suspended f => { m with
        frames := m.frames.modify a (.goto (.resuming f))
        stack := a :: m.stack }
    | _ => m.undef
  | none => m.undef

/-- null, or the no-op coroutine, gives control back -/
def resumeAny (m : Coros T X) : Option Handle → Coros T X
  | some a => m.resume a
  | none => m

/-! ## futures and promises that die -/

/-- `handle_.done()`, then the frame is destroyed -/
def reclaim (m : Coros T X) (o : Option Handle) : Coros T X :=
  if (o.map m.frames.get) = some none then m.undef
  else { m with frames := reclaimed m.frames o }

/-- `unique_future::release()` -/
def release (m : Coros T X) (f : Future) : Coros T X :=
  let m := m.reclaim f.handle
  match m.look f.state with
  | some _ => m.onCell f.state Mem.releaseFuture
  | none => m.undef

/-- `~promise` of a promise that is still unsettled -/
def breakPromise (m : Coros T X) (s : Address) : Coros T X :=
  m.onSlot s fun st => (st.setError (.errc .brokenPipe)).settle.2

/-! ## a step of the running coroutine -/

/-- the body of `a` -/
def body (m : Coros T X) (a : Handle) (fr : Frame) : Op T X → Option (Coros T X)
  | .start => some { m with
      cells := m.cells.alloc ⟨.fresh, .coroutine m.frames.next⟩
      frames := (m.frames.modify a (.hold ⟨m.cells.next, some m.frames.next⟩)).alloc
        (.fresh (some m.cells.next))
      stack := m.frames.next :: m.stack }
  | .adopt o => some { m with
      cells := m.cells.alloc ⟨.fresh, .thread (.start .settle [o])⟩
      frames := m.frames.modify a (.hold ⟨m.cells.next, none⟩) }
  | .await i => fr.held[i]?.map fun f => match m.look f.state with
    | some c =>
      { m with frames := propagateAwaitedState c.mem.st (m.frames.modify a (.await i f)) a f }
    | none => m.undef
  | .drop i => fr.held[i]?.map fun f => (m.onFrame a (.unhold i)).release f
  | .take => match m.currentMessage with
    | some ⟨s, true⟩ => some { m with
        frames := m.frames.modify a fun fr => { fr with promises := fr.promises ++ [s] }
        currentMessage := some ⟨s, false⟩ }
    | _ => none
  | .settle i o => fr.promises[i]?.map fun s =>
      (m.onFrame a fun fr => { fr with promises := fr.promises.eraseIdx i }).onSlot s
        fun st => (st.setOutcome o).settle.2
  | .ret o => some ((match fr.state with
    | some s => m.onCell s (·.access (·.setOutcome o))
    | none => m).onFrame a (.goto .leaving))

/-- the final awaiter: of a behavior it does nothing, of a method coroutine it finishes the state
and transfers control to whoever awaits it -/
def final (m : Coros T X) (a : Handle) (fr : Frame) : Coros T X :=
  match fr.state with
  | none => (m.onFrame a (.goto .finished)).pop
  | some s => match m.look s with
    | none => m.undef
    | some c => match c.mem.takeContinuation with
      | (cont, mem) => match mem.finalize with
        | (true, mem) => { m with
            cells := m.cells.modify s (.onMem fun _ => mem)
            frames := m.frames.free a
            stack := m.stack.tail }
        | (false, mem) =>
          (((m.onCell s fun _ => mem).onFrame a (.goto .finished)).pop).resumeAny cont

/-- the locals of a coroutine that returned die, then it reaches its final suspension -/
def leave (m : Coros T X) (a : Handle) (fr : Frame) : Coros T X :=
  match fr.promises, fr.held with
  | s :: promises, _ => (m.onFrame a ({ · with promises := promises })).breakPromise s
  | [], f :: held => (m.onFrame a ({ · with held := held })).release f
  | [], [] => m.final a fr

/-- `co_await`, from `await_ready()` to the end of the full expression -/
def awaiting (m : Coros T X) (a : Handle) (f : Future) (c : Cell T X) : Place → Coros T X
  | .awaiting _ => m.onFrame a (.goto (if c.mem.st.hasResult then .resuming f else .suspending f))
  | .suspending _ => match c.mem.st.continuation with
    | none => (m.onCell f.state (·.access ({ · with continuation := some a }))).onFrame a
        (.goto (.rechecking f))
    | some _ => m.onFrame a (.goto (.resuming f))
  | .rechecking _ =>
    let m := (m.onFrame a (.goto (.suspended f))).pop
    if c.mem.st.hasResult then
      (m.onCell f.state fun mem => mem.takeContinuation.2).resumeAny c.mem.st.continuation
    else m
  | .resuming _ =>
    let m := { m with frames := clearAwaitedChain m.frames a }
    match c.mem.st.rethrowIfException with
    | some _ => m.onFrame a (.goto (.dropping f))
    | none => if c.mem.st.hasError then { m with aborted := true }
      else m.onFrame a (.goto (.extracting f))
  | .extracting _ => match c.mem.st.takeValue with
    | some p => (m.onCell f.state (·.access fun _ => p.2)).onFrame a (.goto (.dropping f))
    | none => { m with aborted := true }
  | .dropping _ => (m.onFrame a (.goto .running)).release f
  | _ => m.undef

/-- one step of the coroutine `a` -/
def exec (m : Coros T X) (a : Handle) (fr : Frame) (op : Option (Op T X)) : Option (Coros T X) :=
  match fr.pc, op with
  | .running, some op => m.body a fr op
  | .running, none => none
  | .leaving, none => some (m.leave a fr)
  | pc, none => match pc.current with
    | some f => match m.look f.state with
      | some c => some (m.awaiting a f c pc)
      | none => some m.undef
    | none => some m.undef
  | _, some _ => none

/-! ## a step of `resume_impl` -/

/-- the promise of the behavior, unless it is done -/
def live (m : Coros T X) : Option Frame :=
  (m.currentBehavior.bind m.frames.get).filter fun fr => !fr.done

def isBusy (m : Coros T X) : Bool :=
  match m.live with
  | some fr => fr.awaitedFlags.isSome
  | none => false

/-- the drain: if the awaited state is ready, its continuation is taken and resumed -/
def drain (m : Coros T X) : Coros T X :=
  match m.live with
  | none => m
  | some fr => match fr.awaitedFlags, fr.awaitedContinuation with
    | some p, some q => match m.look p, m.look q with
      | some cp, some cq =>
        if cp.mem.st.isReady then
          (m.onCell q fun mem => mem.takeContinuation.2).resumeAny cq.mem.st.continuation
        else m
      | _, _ => m.undef
    | _, _ => m

/-- whether the drain resumes -/
def isAwaitedReady (m : Coros T X) : Bool :=
  match m.live with
  | none => false
  | some fr => match fr.awaitedFlags.bind m.look with
    | some c => c.mem.st.isReady
    | none => false

/-- `current_behavior_ = behavior(msg)`: the frame that the assignment destroys is done, and nobody
looks at it while the new one runs to its first suspension -/
def startBehavior (m : Coros T X) (i : Nat) (s : Address) : Coros T X :=
  let m := match m.currentBehavior with
    | some r => { m with frames := m.frames.free r }
    | none => m
  { m with
    frames := m.frames.alloc (.fresh none)
    currentBehavior := some m.frames.next
    stack := [m.frames.next]
    queue := m.queue.eraseIdx i
    currentMessage := some ⟨s, true⟩ }

/-- `~message_guard`: the message dies, and cancels its slot if that is still its own -/
def endMessage (m : Coros T X) : Coros T X :=
  match m.currentMessage with
  | some g =>
    let m := if g.owned then m.onSlot g.slot fun st => st.cleanupFn.2 else m
    { m with currentMessage := none, destroyed := m.destroyed ++ [g.slot] }
  | none => m

/-- one step of `resume_impl` -/
def drive (m : Coros T X) (mail : Mail) : Option (Coros T X) :=
  match m.driver with
  | .outside | .gone => none
  | .entry max =>
    if mail == .stop then some { m with driver := .outside }
    else if m.isBusy then
      let m := m.drain
      some { m with driver := .entryDrained max }
    else some { m with driver := .entryDrained max }
  | .entryDrained max => some { m with driver :=
      if m.isBusy || mail == .stop then .outside
      else if m.queue.isEmpty then .parking else .loop max }
  | .loop 0 => some { m with driver := if mail == .stop || m.isBusy then .outside else .parking }
  | .loop (n + 1) =>
    if mail == .stop then some { m with driver := .outside }
    else if m.isBusy then
      if m.isAwaitedReady then
        let m := m.drain
        some { m with driver := .loopDrained n }
      else some { m with driver := .outside }
    else some { m with driver := .loopDrained n }
  | .loopDrained n =>
    if m.isBusy then some { m with driver := .outside }
    else match mail with
      | .stop => if m.queue.isEmpty then some { m with driver := .outside } else none
      | .next i => match m.queue[i]? with
        | some s =>
          let m := m.startBehavior i s
          some { m with driver := .started n }
        | none => if m.queue.isEmpty then some { m with driver := .parking } else none
  | .started n =>
    let m := m.endMessage
    some { m with driver := .loop n }
  | .parking => some { m with driver := .outside }

/-! ## the destructor -/

/-- a frame is destroyed with its locals -/
def destroyFrame (m : Coros T X) (a : Handle) (fr : Frame) : Coros T X :=
  let m := fr.futures.foldl release (fr.promises.foldl breakPromise m)
  { m with frames := m.frames.free a }

/-- `~behavior_t` -/
def destroyBehavior (m : Coros T X) : Coros T X :=
  match m.currentBehavior with
  | some r => match m.frames.get r with
    | some fr =>
      let m := m.destroyFrame r fr
      { m with currentBehavior := none }
    | none => m.undef
  | none => m

/-- the mailbox dies with its messages -/
def destroyMailbox (m : Coros T X) : Coros T X :=
  { m with
    slots := m.queue.foldl (fun slots s => slots.modify s fun st => st.cleanupFn.2) m.slots
    destroyed := m.destroyed ++ m.queue
    queue := [] }

/-! ## any interleaving -/

end Coros

/-- who moves -/
inductive CoroAct (T X : Type) where
  | op (op : Option (Op T X))
  | produce (s : Address)
  | drive (mail : Mail)
  | resume (max : Nat)
  | send
  | destroy
  deriving DecidableEq

namespace Coros
variable {T X : Type}

/-- one step of the thread that settles a promise-backed state -/
def produce (m : Coros T X) (s : Address) : Option (Coros T X) :=
  (m.cells.get s).bind fun c => match c.maker with
    | .thread p => (p.step .settle c.mem).map fun r =>
        { m with cells := m.cells.modify s fun _ => ⟨r.1, .thread r.2⟩ }
    | .coroutine _ => none

def step (m : Coros T X) (act : CoroAct T X) : Option (Coros T X) :=
  if m.aborted || m.undefined then none else match act with
  | .op op => match m.stack with
    | a :: _ => (m.frames.get a).bind fun fr => m.exec a fr op
    | [] => none
  | .produce s => m.produce s
  | .drive mail => if m.stack.isEmpty then m.drive mail else none
  | .resume max =>
    if m.driver = .outside ∧ 0 < max then some { m with driver := .entry max } else none
  | .send =>
    if m.driver = .gone then none
    else some { m with slots := m.slots.alloc .fresh, queue := m.queue ++ [m.slots.next] }
  | .destroy =>
    if m.driver = .outside ∧ m.stack = [] then
      let m := m.destroyBehavior.destroyMailbox
      some { m with driver := .gone }
    else none

/-! ## what they leave alone -/

theorem release_only (m : Coros T X) (f : Future) :
    ∃ F C u, m.release f = { m with frames := F, cells := C, undefined := u } := by
  unfold release reclaim
  dsimp only
  split <;> split <;> exact ⟨_, _, _, rfl⟩

theorem releases_only (m : Coros T X) (fs : List Future) :
    ∃ F C u, fs.foldl release m = { m with frames := F, cells := C, undefined := u } := by
  induction fs generalizing m with
  | nil => exact ⟨_, _, _, rfl⟩
  | cons f fs ih =>
    obtain ⟨F, C, u, h⟩ := release_only m f
    show ∃ F C u, fs.foldl release (m.release f) = _
    rw [h]
    exact ih _

theorem breakPromises_only (m : Coros T X) (ss : List Address) :
    ∃ slots, ss.foldl breakPromise m = { m with slots := slots } := by
  induction ss generalizing m with
  | nil => exact ⟨_, rfl⟩
  | cons s ss ih => exact ih (m.breakPromise s)

theorem destroyBehavior_only (m : Coros T X) : ∃ F C R slots u, m.destroyBehavior =
    { m with frames := F, cells := C, currentBehavior := R, slots := slots, undefined := u } := by
  unfold destroyBehavior
  split
  · split
    · rename_i r fr _
      obtain ⟨slots, hs⟩ := breakPromises_only m fr.promises
      obtain ⟨F, C, u, hr⟩ := releases_only (fr.promises.foldl breakPromise m) fr.futures
      unfold destroyFrame
      dsimp only
      rw [hr, hs]
      exact ⟨_, _, _, _, _, rfl⟩
    · exact ⟨_, _, _, _, _, rfl⟩
  · exact ⟨_, _, _, _, _, rfl⟩

end Coros
end ActorZeta
