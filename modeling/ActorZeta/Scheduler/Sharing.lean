import ActorZeta.Lib.Trans

/-!
# The work-sharing scheduler

One central queue under one mutex, `numWorkers` worker threads and the thread that calls `start()`
and `stop()`.  A critical section of the queue's mutex, or of the shutdown helper's, is one step:
the mutex and the condition variables are taken to be correct, so a thread waiting for a condition
simply has no step before the condition holds.

* `JobPtr`        a queue node: a job and the node's own address;
* `Worker`        where a worker is in `run()`;
* `Main`          where `start()` and `stop()` are;
* `Log`           what a run is judged by;
* `Sched.step`    one step of any thread.  What `resume()` of an actor does is not described here:
                  its verdict is part of the action.
-/

namespace ActorZeta

/-- `resume_result` -/
inductive ResumeResult where
  | resume
  | awaiting
  | done
  | shutdown
  deriving DecidableEq, Repr

/-- what a `job_ptr` points to: an actor, or the `shutdown_helper` of `stop()` -/
inductive Job (J : Type) where
  | actor (a : J)
  | shutdownHelper
  deriving DecidableEq, Repr

/-- `job_ptr`: a node of the queue.  `id` is its address. -/
structure JobPtr (J : Type) where
  id : Nat
  job : Job J
  deriving DecidableEq, Repr

def JobPtr.isShutdown {J : Type} (node : JobPtr J) : Bool :=
  match node.job with
  | .actor _ => false
  | .shutdownHelper => true

/-- where a worker is: not launched, in `dequeue`, before and after `node->resume()`, returned -/
inductive Worker (J : Type) where
  | unlaunched
  | dequeue
  | holding (node : JobPtr J)
  | resumed (node : JobPtr J) (res : ResumeResult)
  | left
  deriving DecidableEq, Repr

/-- where the thread that starts and stops the scheduler is: launching worker `i`, between
`start()` and `stop()`, at the head of the loop over `alive_workers`, inside `external_enqueue`,
in `wait_for_completion`, joining worker `i`, returned -/
inductive Main (J : Type) where
  | starting (i : Nat)
  | started
  | stopping (alive : List Nat)
  | enqueueing (alive : List Nat) (node : JobPtr J)
  | waiting (alive : List Nat)
  | joining (i : Nat)
  | stopped
  deriving DecidableEq, Repr

/-- the nodes made, pushed, dequeued and resumed (with the worker), freed by a worker, and freed by
`stop()`, each in the order of the events -/
structure Log (J : Type) where
  created : List (JobPtr J)
  pushed : List (JobPtr J)
  dequeued : List (Nat × JobPtr J)
  resumed : List (Nat × JobPtr J)
  dropped : List (JobPtr J)
  discarded : List (JobPtr J)
  deriving DecidableEq, Repr

/-- `scheduler_t<work_sharing>` and its threads; `callers` are the nodes of the threads inside
`enqueue()` -/
structure Sched (J : Type) where
  numWorkers : Nat
  queue : List (JobPtr J)
  workers : List (Worker J)
  callers : List (JobPtr J)
  completedCount : Nat
  main : Main J
  next : Nat
  log : Log J
  deriving DecidableEq, Repr

/-- a thread begins an `enqueue()`, or pushes the node it made; worker `w` moves (`res` is the
verdict of an actor it resumes); `stop()` is called, with the workers in the order of
`alive_workers`; the thread inside `start()` or `stop()` moves -/
inductive SchedAct (J : Type) where
  | make (a : J)
  | push (i : Nat)
  | work (w : Nat) (res : ResumeResult)
  | stop (order : List Nat)
  | main
  deriving DecidableEq, Repr

namespace Sched
variable {J : Type}

def init (numWorkers : Nat) : Sched J :=
  ⟨numWorkers, [], List.replicate numWorkers .unlaunched, [], 0, .starting 0, 0, ⟨[], [], [], [], [], []⟩⟩

/-- `make_unique<job_ptr>(..)` -/
def node (s : Sched J) (j : Job J) : JobPtr J := ⟨s.next, j⟩
def made (s : Sched J) (j : Job J) : Sched J :=
  { s with next := s.next + 1, log := { s.log with created := s.log.created ++ [s.node j] } }

/-- `policy.enqueue`: push to the back -/
def pushBack (s : Sched J) (n : JobPtr J) : Sched J :=
  { s with queue := s.queue ++ [n], log := { s.log with pushed := s.log.pushed ++ [n] } }

/-- the end of a turn of `run()` that does not push the node back: the `unique_ptr` frees it -/
def drop (s : Sched J) (n : JobPtr J) : Sched J :=
  { s with log := { s.log with dropped := s.log.dropped ++ [n] } }

def place (s : Sched J) (w : Nat) (k : Worker J) : Sched J := { s with workers := s.workers.set w k }

/-- one step of `worker::run()` -/
def runWorker (s : Sched J) (w : Nat) (res : ResumeResult) : Worker J → Option (Sched J)
  | .dequeue => match s.queue with
    | [] => none
    | n :: queue => some ({ s with
        queue := queue
        log := { s.log with dequeued := s.log.dequeued ++ [(w, n)] } }.place w (.holding n))
  | .holding n =>
    let s := { s with log := { s.log with resumed := s.log.resumed ++ [(w, n)] } }
    match n.job with
    | .actor _ => if res = .shutdown then none else some (s.place w (.resumed n res))
    | .shutdownHelper =>
      some ({ s with completedCount := s.completedCount + 1 }.place w (.resumed n .shutdown))
  | .resumed n .resume => some ((s.pushBack n).place w .dequeue)
  | .resumed n .shutdown => some ((s.drop n).place w .left)
  | .resumed n _ => some ((s.drop n).place w .dequeue)
  | _ => none

/-- one step of `start()` and `stop()` -/
def runMain (s : Sched J) : Main J → Option (Sched J)
  | .starting i =>
    if i < s.numWorkers then some { s.place i .dequeue with main := .starting (i + 1) }
    else some { s with main := .started }
  | .stopping [] => some { s with main := .joining 0 }
  | .stopping (w :: alive) =>
    some { s.made .shutdownHelper with main := .enqueueing (w :: alive) (s.node .shutdownHelper) }
  | .enqueueing alive n => some { s.pushBack n with main := .waiting alive }
  | .waiting alive =>
    if 0 < s.completedCount then
      some { s with completedCount := s.completedCount - 1, main := .stopping alive.tail }
    else none
  | .joining i =>
    if i < s.numWorkers then
      match s.workers[i]? with
      | some .left => some { s with main := .joining (i + 1) }
      | _ => none
    else some { s with
      queue := []
      log := { s.log with discarded := s.log.discarded ++ s.queue }
      main := .stopped }
  | _ => none

/-- one step of any thread -/
def step (s : Sched J) : SchedAct J → Option (Sched J)
  | .make a => some { s.made (.actor a) with callers := s.callers ++ [s.node (.actor a)] }
  | .push i => s.callers[i]?.map fun n => { s.pushBack n with callers := s.callers.eraseIdx i }
  | .work w res => s.workers[w]?.bind (s.runWorker w res)
  | .stop order => match s.main with
    | .started =>
      if order.Perm (List.range s.numWorkers) then
        some { s with completedCount := 0, main := .stopping order }
      else none
    | _ => none
  | .main => s.runMain s.main

end Sched
end ActorZeta
