import ActorZeta.Actor.OneJob
import ActorZeta.Scheduler.Stop
import Mathlib.Logic.Function.Basic

/-!
# Actors on the work-sharing scheduler

Any number of actors, the senders at work on them, and one scheduler with its workers.  A worker
calls `resume()` of the actor of its node, and from then on it is a thread of that actor; a sender
that is told `needs_sched` calls `scheduler_t::enqueue`.  Nothing else ties the parts together.

* `Runtime`        the actors, the scheduler, and which thread of its actor a worker is;
* `Runtime.step`   a step of one actor, of the scheduler, or of both at once where a job node goes
                   from one to the other.

A process in which one actor aborts ends there; here the other actors go on, which only adds runs.
No actor is deleted while the scheduler works.
-/

namespace ActorZeta

/-- the actor whose node the worker has in hand -/
def Worker.actor {J : Type} : Worker J → Option J
  | .holding ⟨_, .actor a⟩ | .resumed ⟨_, .actor a⟩ _ => some a
  | _ => none

/-- the node is one of the actor `a` -/
def JobPtr.isFor {J : Type} [DecidableEq J] (a : J) (n : JobPtr J) : Bool := n.job = .actor a

/-- `scheduler_t::enqueue()`: making the node touches nothing that others see -/
def Sched.enqueue {J : Type} (s : Sched J) (a : J) : Option (Sched J) :=
  (s.step (.make a)).bind fun t => t.step (.push s.callers.length)

/-- the worker `w` that serves its actor is the thread `serving w` of it -/
structure Runtime (J β T X : Type) where
  actors : J → Actor.Conf β T X
  sched : Sched J
  serving : Nat → Option Nat
  maxThroughput : Nat

/-- `send` begins a `send()`, and `thread` is a step inside it or inside `resume()`; `enqueue` is
the end of a `send()` that was told `needs_sched`.  A worker takes a node (`dequeue`), calls
`resume()`, comes back with the verdict (`back`) and pushes the node back or frees it (`finish`);
`helper` is its turn with a node of `stop()`. -/
inductive RuntimeAct (J β T X : Type) where
  | send (a : J) (msg : Message β) (slot : State T X)
  | thread (a : J) (i : Nat) (g : Choice)
  | enqueue (a : J) (i : Nat) (g : Choice)
  | dequeue (w : Nat)
  | resume (w : Nat)
  | back (w : Nat)
  | finish (w : Nat) (g : Choice)
  | helper (w : Nat)
  | stop (order : List Nat)
  | main

/-- the next step of the thread is not its own affair: it pushes a node, or it is a worker that
comes back -/
def Thread.returning {β T X : Type} : Thread β T X → Bool
  | .send ⟨_, _, .ret needsSched _⟩ => needsSched
  | .run ⟨_, _, .ret _ _⟩ => true
  | _ => false

namespace Runtime
variable {J β T X : Type} [DecidableEq J]

def init (numWorkers maxThroughput : Nat) : Runtime J β T X :=
  ⟨fun _ => Actor.init, .init numWorkers, fun _ => none, maxThroughput⟩

def setActor (rt : Runtime J β T X) (a : J) (c : Actor.Conf β T X) : Runtime J β T X :=
  { rt with actors := Function.update rt.actors a c }

def onSched (rt : Runtime J β T X) (act : SchedAct J) : Option (Runtime J β T X) :=
  (rt.sched.step act).map fun s => { rt with sched := s }

/-- one step of the process -/
def step (rt : Runtime J β T X) : RuntimeAct J β T X → Option (Runtime J β T X)
  | .send a msg slot =>
    (Actor.step (rt.actors a) (.spawn (.send ⟨msg, slot, .regLoad⟩))).map (rt.setActor a)
  | .thread a i g => (rt.actors a).pool[i]?.bind fun t =>
    if t.returning then none else (Actor.step (rt.actors a) (.run i g)).map (rt.setActor a)
  | .enqueue a i g => match (rt.actors a).pool[i]? with
    | some (.send ⟨_, _, .ret true _⟩) =>
      (Actor.step (rt.actors a) (.run i g)).bind fun c =>
        (rt.sched.enqueue a).map fun s => { rt.setActor a c with sched := s }
    | _ => none
  | .dequeue w => match rt.sched.workers[w]? with
    | some .dequeue => rt.onSched (.work w .done)
    | _ => none
  | .resume w => match rt.sched.workers[w]?, rt.serving w with
    | some (.holding ⟨_, .actor a⟩), none =>
      (Actor.step (rt.actors a) (.spawn (.run ⟨rt.maxThroughput, true, .acqLoad⟩))).map fun c =>
        { rt.setActor a c with
          serving := Function.update rt.serving w (some (rt.actors a).pool.length) }
    | _, _ => none
  | .back w => match rt.sched.workers[w]?, rt.serving w with
    | some (.holding ⟨_, .actor a⟩), some i => match (rt.actors a).pool[i]? with
      | some (.run ⟨_, _, .ret result _⟩) => rt.onSched (.work w result)
      | _ => none
    | _, _ => none
  | .finish w g => match rt.sched.workers[w]?, rt.serving w with
    | some (.resumed ⟨_, .actor a⟩ _), some i =>
      (Actor.step (rt.actors a) (.run i g)).bind fun c =>
        (rt.sched.step (.work w .done)).map fun s =>
          { rt.setActor a c with sched := s, serving := Function.update rt.serving w none }
    | _, _ => none
  | .helper w => match rt.sched.workers[w]? with
    | some (.holding ⟨_, .shutdownHelper⟩) | some (.resumed ⟨_, .shutdownHelper⟩ _) =>
      rt.onSched (.work w .shutdown)
    | _ => none
  | .stop order => rt.onSched (.stop order)
  | .main => rt.onSched .main

end Runtime
end ActorZeta
