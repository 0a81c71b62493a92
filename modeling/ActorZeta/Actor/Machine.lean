import ActorZeta.Lib.Pool
import ActorZeta.SharedState.State
import ActorZeta.Mailbox.Default
import ActorZeta.Scheduler.Sharing
import ActorZeta.Actor.Word

/-!
# cooperative_actor: senders, drivers and the destructor on one actor

The actor in memory and the three kinds of threads that work on it.  One step is one load or one
compare-exchange of `state_` or of the inbox head; what a thread does in between (to its locals,
or to the members that only the holder of `running` touches) belongs to the step before.

* `ActorMem`     the state word, the mailbox, whether `current_behavior_` is busy, the job nodes
                 queued for the actor, and accounts of what was accepted, popped and destroyed;
* `Sender`       `send()` from `enqueue_impl` on: register, push, deregister, and then the caller,
                 who turns `needs_sched == true` into a job node;
* `Runner`       a driver inside `resume()`: acquire `running`, `resume_impl`, `~resume_guard`, and
                 then the driver, who turns the verdict `resume` into a job node;
* `Destructor`   `~cooperative_actor`, and after it the destruction of the mailbox;
* `Actor.step`   any number of threads, one step at a time.

A compare-exchange that the source allows to fail spuriously does so when the step says `weak`.
The assertions on the state word are compiled out, as they are in a release build.
-/

namespace ActorZeta

/-- an actor in memory -/
structure ActorMem (β : Type) where
  word : ActorState
  box : Mailbox β
  busy : Bool
  nodes : Nat
  accepted : List (Message β)
  popped : List (Message β)
  destroyed : List (Message β)
  boxAlive : Bool
  touchedDead : Bool
  deleted : Bool
  aborted : Bool

/-- what a step leaves open: a spurious failure, whether the awaited state is ready, whether the
behavior is busy after a handler or a continuation ran, whether the drain has timed out -/
structure Choice where
  weak : Bool
  ready : Bool
  busy : Bool
  timeout : Bool
  deriving DecidableEq, Repr

def kMaxCasAttempts : Nat := 1000

/-- `cas_attempt(attempts, …)`: the attempts counted up, or the abort -/
def casAttempt (attempts : Nat) : Option Nat :=
  if attempts + 1 < kMaxCasAttempts then some (attempts + 1) else none

namespace ActorMem
variable {β : Type}

/-- a constructed actor: idle, its mailbox blocked -/
def init : ActorMem β :=
  ⟨.idle, Mailbox.empty.tryBlock.2, false, 0, [], [], [], true, false, false, false⟩

/-- an access of a sender or a driver to the mailbox must find it alive -/
def touch (m : ActorMem β) : ActorMem β :=
  { m with touchedDead := m.touchedDead || !m.boxAlive }

def abort (m : ActorMem β) : ActorMem β := { m with aborted := true }

/-- a message object dies -/
def destroy (m : ActorMem β) (msg : Message β) : ActorMem β :=
  { m with destroyed := m.destroyed ++ [msg] }

end ActorMem

/-! ## senders -/

inductive SendPc where
  | regLoad
  | regCas (current : ActorState) (attempts : Nat)
  | pushing (p : Push)
  | leaveLoad (r : EnqueueResult)
  | leaveCas (r : EnqueueResult) (current : ActorState) (attempts : Nat)
  | ret (needsSched : Bool) (r : EnqueueResult)
  | gone
  deriving DecidableEq

/-- a thread inside `send()`: its message, the result slot its future looks at, its place -/
structure Sender (β T X : Type) where
  msg : Message β
  slot : State T X
  pc : SendPc

namespace Sender
variable {β T X : Type}

/-- the message dies with its slot: `~message` runs `cleanup_fn_` -/
def dropMessage (s : Sender β T X) (pc : SendPc) : Sender β T X :=
  { s with slot := s.slot.cleanupFn.2, pc := pc }

/-- the mailbox after an access of `push_back` -/
def pushed (m : ActorMem β) (msg : Message β) (b : Inbox β) : Push → ActorMem β
  | .done .queueClosed => m.touch.destroy msg
  | .done _ => { m.touch with box := { m.box with inbox := b }, accepted := m.accepted ++ [msg] }
  | _ => m.touch

/-- the word `leave_and_maybe_schedule` wants, and whether the caller owes a job node -/
def leaveDesired (current : ActorState) (unblockedUs : Bool) : ActorState × Bool :=
  if unblockedUs && !current.isDestroying && !current.isScheduled
  then (current.subSender.setScheduled true, !current.isRunning)
  else (current.subSender, false)

/-- one step of a sender -/
def step (weak : Bool) (m : ActorMem β) (s : Sender β T X) :
    Option (ActorMem β × Sender β T X) :=
  match s.pc with
  | .regLoad => some (m, { s with pc := .regCas m.word 0 })
  | .regCas current n => match casAttempt n with
    | none => some (m.abort, s)
    | some n =>
      if current.isDestroying then some (m.destroy s.msg, s.dropMessage (.ret false .queueClosed))
      else if m.word = current ∧ weak = false then
        some ({ m with word := current.addSender }, { s with pc := .pushing .load })
      else some (m, { s with pc := .regCas m.word n })
  | .pushing p => (p.step m.box.inbox s.msg).map fun r => (pushed m s.msg r.1 r.2, match r.2 with
    | .done .queueClosed => s.dropMessage (.leaveLoad .queueClosed)
    | .done r => { s with pc := .leaveLoad r }
    | p => { s with pc := .pushing p })
  | .leaveLoad r => some (m, { s with pc := .leaveCas r m.word 0 })
  | .leaveCas r current n => match casAttempt n with
    | none => some (m.abort, s)
    | some n =>
      let desired := leaveDesired current (r == .unblockedReader)
      if m.word = current ∧ weak = false then
        some ({ m with word := desired.1 }, { s with pc := .ret desired.2 r })
      else some (m, { s with pc := .leaveCas r m.word n })
  | .ret needsSched _ => some ({ m with nodes := m.nodes + needsSched.toNat }, { s with pc := .gone })
  | .gone => none

end Sender

/-! ## drivers -/

/-- who called `fetch_more`: `empty()` at the entry, `pop_front()`, or `empty()` in
`check_race_window` -/
inductive FetchFor where
  | entry
  | pop (handled : Nat)
  | race (handled : Nat)
  deriving DecidableEq, Repr

/-- the locals of `~resume_guard`: what it has recorded covers the word it holds -/
structure Observed where
  current : ActorState
  scheduledWhileRunning : Bool
  covers : current.isScheduled = true → scheduledWhileRunning = true
  deriving DecidableEq

namespace Observed

/-- the first load -/
def first (word : ActorState) : Observed := ⟨word, word.isScheduled, id⟩

/-- after a failed compare-exchange -/
def again (o : Observed) (word : ActorState) : Observed :=
  ⟨word, o.scheduledWhileRunning || word.isScheduled, fun h => by rw [h, Bool.or_true]⟩

end Observed

inductive RunPc (β : Type) where
  | acqLoad
  | acqCas (current : ActorState) (attempts : Nat)
  | entryDestroying
  | entryClosed
  | unpark
  | resuming (handled : Option Nat)
  | entryBlocked
  | fetching (w : FetchFor) (t : TakeHead β)
  | loopDestroying (handled : Nat)
  | loopClosed (handled : Nat)
  | loopBlocked (handled : Nat)
  | starting (handled : Nat) (msg : Message β)
  | handling (handled : Nat) (msg : Message β)
  | nothing (handled : Nat)
  | tailClosed (handled : Nat)
  | parking (handled : Nat)
  | raceBlocked (handled : Nat)
  | guardLoad (result : ResumeResult) (handled : Nat) (keep : Bool)
  | guardCas (result : ResumeResult) (handled : Nat) (keep : Bool) (o : Observed) (attempts : Nat)
  | ret (result : ResumeResult) (handled : Nat)
  | gone
  deriving DecidableEq

/-- a thread that called `resume(max_throughput)`, with a job node or of its own accord -/
structure Runner (β : Type) where
  maxThroughput : Nat
  node : Bool
  pc : RunPc β

namespace Runner
variable {β : Type}

/-- the head of the loop in `resume_impl` -/
def loopHead (max handled : Nat) : RunPc β :=
  if handled < max then .loopDestroying handled else .tailClosed handled

/-- `mailbox().pop_front()` on the lists, before it fetches -/
def popTurn (m : ActorMem β) (handled : Nat) : ActorMem β × RunPc β :=
  match m.box.popCached with
  | some (msg, box) => ({ m with box := box, popped := m.popped ++ [msg] }, .starting handled msg)
  | none => (m, .fetching (.pop handled) .load)

/-- the caller of `fetch_more` goes on; `more` is its answer -/
def afterFetch (max : Nat) (m : ActorMem β) (more : Bool) : FetchFor → ActorMem β × RunPc β
  | .entry => (m, if m.box.cached = 0 then .parking 0 else loopHead max 0)
  | .pop h => if more then popTurn m h else (m, .nothing h)
  | .race h =>
    (m, if m.box.cached = 0 then .guardLoad .awaiting h false else .guardLoad .resume h true)

/-- a busy behavior at a drain: resumed if what it awaits is ready, else the actor stays
scheduled -/
def drain (ready : Bool) (entry : Option Nat) : RunPc β :=
  if ready then .resuming entry else .guardLoad .resume (entry.getD 0) true

/-- the word `~resume_guard` wants -/
def guardDesired (keep : Bool) (current : ActorState) : ActorState :=
  (current.setRunning false).setScheduled (keep || current.isScheduled)

/-- the verdict of `resume()`: an actor that was scheduled while it ran is not awaiting -/
def verdict (result : ResumeResult) (scheduledWhileRunning : Bool) : ResumeResult :=
  if result == .awaiting && scheduledWhileRunning then .resume else result

/-- one step of a driver -/
def stepPc (max : Nat) (g : Choice) (m : ActorMem β) : RunPc β → Option (ActorMem β × RunPc β)
  | .acqLoad => some (m, .acqCas m.word 0)
  | .acqCas current n => match casAttempt n with
    | none => some (m.abort, .acqCas current n)
    | some n =>
      if m.word = current ∧ g.weak = false then
        if current.isRunning then
          some ({ m with word := current.setScheduled true }, .ret .awaiting 0)
        else some ({ m with word := (current.setRunning true).setScheduled false }, .entryDestroying)
      else some (m, .acqCas m.word n)
  | .entryDestroying =>
    some (m, if m.word.isDestroying then .guardLoad .done 0 false else .entryClosed)
  | .entryClosed =>
    some (m.touch, if m.box.inbox.head = .closedTag then .guardLoad .done 0 false else .unpark)
  | .unpark => some ({ m.touch with box := m.box.tryUnblock.2 },
      if m.busy then drain g.ready none else .entryBlocked)
  | .resuming none => some ({ m with busy := g.busy },
      if g.busy then .guardLoad .resume 0 true else .entryBlocked)
  | .entryBlocked =>
    some (m.touch, if m.box.inbox.head = .blockedTag then .guardLoad .awaiting 0 false
      else .fetching .entry .load)
  | .fetching w t => (m.box.fetchStep g.weak t).map fun r => match r.2 with
    | .done chain => afterFetch max { m.touch with box := r.1 } (!chain.isEmpty) w
    | t => ({ m.touch with box := r.1 }, .fetching w t)
  | .loopDestroying h =>
    some (m, if m.word.isDestroying then .guardLoad .done h false else .loopClosed h)
  | .loopClosed h => some (m.touch,
      if m.box.inbox.head = .closedTag then .guardLoad .done h false else .loopBlocked h)
  | .loopBlocked h =>
    if m.box.inbox.head = .blockedTag then some (m.touch, .guardLoad .awaiting h false)
    else if m.busy then some (m.touch, drain g.ready (some h))
    else some (popTurn m.touch h)
  | .resuming (some h) =>
    if g.busy then some ({ m with busy := true }, .guardLoad .resume h true)
    else some (popTurn { m with busy := false } h)
  | .starting h msg =>
    if m.word.isDestroying then some (m.destroy msg, loopHead max (h + 1))
    else some (m, .handling h msg)
  | .handling h msg => some ({ m.destroy msg with busy := g.busy }, loopHead max (h + 1))
  | .nothing h => some (m.touch,
      if m.box.inbox.head = .closedTag then .guardLoad .done h false else .parking h)
  | .tailClosed h => some (m.touch,
      if m.box.inbox.head = .closedTag then .guardLoad .done h false
      else if m.busy then .guardLoad .resume h true else .parking h)
  | .parking h => some ({ m.touch with box := m.box.tryBlock.2 },
      if m.box.tryBlock.1 then .raceBlocked h else .guardLoad .resume h true)
  | .raceBlocked h => some (m.touch,
      if m.box.inbox.head = .blockedTag then .guardLoad .awaiting h false
      else .fetching (.race h) .load)
  | .guardLoad result h keep => some (m, .guardCas result h keep (.first m.word) 0)
  | .guardCas result h keep o n => match casAttempt n with
    | none => some (m.abort, .guardCas result h keep o n)
    | some n =>
      if m.word = o.current ∧ g.weak = false then
        some ({ m with word := guardDesired keep o.current },
          .ret (verdict result o.scheduledWhileRunning) h)
      else some (m, .guardCas result h keep (o.again m.word) n)
  | .ret result _ =>
    some ({ m with nodes := m.nodes + (result == .resume).toNat }, .gone)
  | .gone => none

def step (g : Choice) (m : ActorMem β) (r : Runner β) : Option (ActorMem β × Runner β) :=
  (stepPc r.maxThroughput g m r.pc).map fun p => (p.1, { r with pc := p.2 })

end Runner

/-! ## the destructor -/

inductive Destructor (β : Type) where
  | load
  | publishCas (current : ActorState) (attempts : Nat)
  | draining
  | termLoad
  | termCas (current : ActorState) (attempts : Nat)
  | members
  | closing (t : TakeHead β)
  | finished
  deriving DecidableEq

namespace Destructor
variable {β : Type}

/-- the head of the publishing loop -/
def publish (current : ActorState) (attempts : Nat) : Destructor β :=
  if current.isDestroying then .draining else .publishCas current attempts

/-- one step of the destructor -/
def step (g : Choice) (m : ActorMem β) : Destructor β → Option (ActorMem β × Destructor β)
  | .load => some (m, publish m.word 0)
  | .publishCas current n => match casAttempt n with
    | none => some (m.abort, .publishCas current n)
    | some n =>
      if m.word = current ∧ g.weak = false then
        some ({ m with word := current.setDestroying }, .draining)
      else some (m, publish m.word n)
  | .draining =>
    if m.word.isRunning || m.word.senderCount != 0 then
      some (if g.timeout then m.abort else m, .draining)
    else some (m, .termLoad)
  | .termLoad => some (m, .termCas m.word 0)
  | .termCas current n => match casAttempt n with
    | none => some (m.abort, .termCas current n)
    | some n =>
      if m.word = current ∧ g.weak = false then
        some ({ m with word := .makeState false false true }, .members)
      else some (m, .termCas m.word n)
  -- `~default_mailbox_impl`: `close_impl()` unless it is closed already
  | .members =>
    if m.box.inbox.head = .closedTag then some ({ m with boxAlive := false }, .finished)
    else some ({ m with box := m.box.drained,
                        destroyed := m.destroyed ++ (m.box.urgent ++ m.box.normal) },
      .closing .load)
  | .closing t => (m.box.closeStep g.weak t).map fun r => match r.2 with
    | .done chain => ({ m with box := r.1, destroyed := m.destroyed ++ chain,
                               boxAlive := false }, .finished)
    | t => ({ m with box := r.1 }, .closing t)
  | .finished => none

end Destructor

/-! ## the actor -/

/-- a thread at work on the actor -/
inductive Thread (β T X : Type) where
  | send (s : Sender β T X)
  | run (r : Runner β)
  | delete (d : Destructor β)

namespace Actor
variable {β T X : Type}

/-- how a thread begins: a call of `send()`, a call of `resume()` that takes a job node or comes
uncalled, or the one deletion of the actor -/
def enter (m : ActorMem β) : Thread β T X → Option (ActorMem β)
  | .send ⟨_, slot, pc⟩ =>
    if pc = .regLoad ∧ slot.flags = StateFlags.empty ∧ m.aborted = false then some m else none
  | .run ⟨max, node, .acqLoad⟩ =>
    if 0 < max ∧ node.toNat ≤ m.nodes ∧ m.aborted = false
    then some { m with nodes := m.nodes - node.toNat } else none
  | .delete .load =>
    if m.deleted = false ∧ m.aborted = false then some { m with deleted := true } else none
  | _ => none

/-- one step of one thread, unless the process is gone -/
def exec (g : Choice) (m : ActorMem β) (t : Thread β T X) : Option (ActorMem β × Thread β T X) :=
  if m.aborted then none else match t with
    | .send s => (s.step g.weak m).map fun r => (r.1, .send r.2)
    | .run r => (r.step g m).map fun r => (r.1, .run r.2)
    | .delete d => (d.step g m).map fun r => (r.1, .delete r.2)

/-- whose step it is -/
theorem exec_cases {g : Choice} {m m' : ActorMem β} {t t' : Thread β T X}
    (h : exec g m t = some (m', t')) :
    (∃ s s', t = .send s ∧ t' = .send s' ∧ s.step g.weak m = some (m', s')) ∨
    (∃ max node pc pc', t = .run ⟨max, node, pc⟩ ∧ t' = .run ⟨max, node, pc'⟩ ∧
      Runner.stepPc max g m pc = some (m', pc')) ∨
    ∃ d d', t = .delete d ∧ t' = .delete d' ∧ d.step g m = some (m', d') := by
  obtain ⟨-, h⟩ := Option.ite_none_left_eq_some.mp h
  cases t with
  | send s =>
    obtain ⟨⟨m1, s'⟩, hs, he⟩ := Option.map_eq_some_iff.mp h
    cases he
    exact Or.inl ⟨s, s', rfl, rfl, hs⟩
  | run r =>
    obtain ⟨⟨m1, r'⟩, hs, he⟩ := Option.map_eq_some_iff.mp h
    cases he
    obtain ⟨⟨m2, pc⟩, hp, hr⟩ := Option.map_eq_some_iff.mp hs
    cases hr
    exact Or.inr (Or.inl ⟨r.maxThroughput, r.node, r.pc, pc, rfl, rfl, hp⟩)
  | delete d =>
    obtain ⟨⟨m1, d'⟩, hs, he⟩ := Option.map_eq_some_iff.mp h
    cases he
    exact Or.inr (Or.inr ⟨d, d', rfl, rfl, hs⟩)

/-- an actor with the threads at work on it -/
abbrev Conf (β T X : Type) := TS.Conf (ActorMem β) (Thread β T X)

abbrev Act (β T X : Type) := TS.PoolAct (Thread β T X) Choice

def init : Conf β T X := ⟨.init, []⟩

def step : Conf β T X → Act β T X → Option (Conf β T X) := TS.Conf.step enter exec

end Actor
end ActorZeta
