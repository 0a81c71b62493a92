import ActorZeta.Runtime.System
import ActorZeta.Lib.Tally

/-!
# The parts of the process

What the steps of the scheduler mean to the nodes of actors, and what those of an actor mean to its
threads and its job nodes.

* `Turn`, `Aside`   one worker goes on, or nobody touches the nodes of actors;
* `step_dequeue`, `step_back`, `step_finish`, `step_helper`, `step_main`   the steps of the
                    scheduler;
* `exec_nodes`, `exec_driver`, `exec_ret`, `exec_sent`   the steps of a thread of an actor;
* `Intact`          an actor that nobody deletes.
-/

set_option linter.unusedSectionVars false

namespace ActorZeta
namespace Runtime
variable {J β T X : Type} [DecidableEq J] {A A' : J → Actor.Conf β T X} {s t : Sched J}
  {f f' : Nat → Option Nat} {a b : J} {w i : Nat}

/-! ## counts -/

/-- the job nodes of an actor that no worker has in hand -/
def waiting (s : Sched J) (a : J) : Nat :=
  s.queue.countP (JobPtr.isFor a) + s.log.discarded.countP (JobPtr.isFor a)

/-- the actor whose node worker `w` has in hand -/
def handling (s : Sched J) (w : Nat) : Option J := s.workers[w]?.bind Worker.actor

/-- the worker has a node of the actor in hand, and has not called `resume()` -/
def fetches (s : Sched J) (f : Nat → Option Nat) (a : J) (w : Nat) : Bool :=
  (f w).isNone && (handling s w = some a : Bool)

def fetched (s : Sched J) (f : Nat → Option Nat) (a : J) : Nat :=
  (List.range s.workers.length).countP (fetches s f a)

theorem fetched_congr {g : Nat → Option Nat} (hl : t.workers.length = s.workers.length)
    (h : ∀ w, fetches t g a w = fetches s f a w) : fetched t g a = fetched s f a := by
  unfold fetched
  rw [hl, funext h]

/-- worker `w` alone changes -/
theorem fetched_at {g : Nat → Option Nat} (hl : t.workers.length = s.workers.length)
    (hw : w < s.workers.length) (h : ∀ v, v ≠ w → fetches t g a v = fetches s f a v) :
    fetched t g a + (fetches s f a w).toNat = fetched s f a + (fetches t g a w).toNat := by
  unfold fetched
  rw [hl]
  exact TS.countP_range_replace hw h

theorem handling_lt (h : handling s w = some a) : w < s.workers.length := by
  obtain ⟨k, hk, -⟩ := Option.bind_eq_some_iff.mp h
  exact (List.getElem?_eq_some_iff.mp hk).1

/-! ## steps of the scheduler -/

/-- a worker goes on to `k`, and the queue is what it was, but for nodes of actors -/
structure Turn (s t : Sched J) (w : Nat) (k : Worker J) : Prop where
  workers : t.workers = s.workers.set w k
  lt : w < s.workers.length

theorem Turn.self {k : Worker J} (h : Turn s t w k) : t.workers[w]? = some k := by
  rw [h.workers, List.getElem?_set_self h.lt]

theorem Turn.other {k : Worker J} (h : Turn s t w k) {v : Nat} (hv : v ≠ w) :
    t.workers[v]? = s.workers[v]? := by
  rw [h.workers, List.getElem?_set_ne (Ne.symm hv)]

theorem Turn.length {k : Worker J} (h : Turn s t w k) :
    t.workers.length = s.workers.length := by rw [h.workers, List.length_set]

theorem waiting_cons {n : JobPtr J} {q : List (JobPtr J)} (hq : s.queue = n :: q)
    (ht : t.queue = q) (hd : t.log.discarded = s.log.discarded) :
    waiting t a + (n.isFor a).toNat = waiting s a := by
  unfold waiting
  rw [hq, ht, hd, List.countP_cons]
  cases n.isFor a with
  | true => exact Nat.add_right_comm ..
  | false => rfl

theorem step_work {k : Worker J} {res : ResumeResult} (hk : s.workers[w]? = some k) :
    s.step (.work w res) = s.runWorker w res k := by
  show s.workers[w]?.bind (s.runWorker w res) = _
  rw [hk]
  rfl

/-- a node is taken from the queue -/
theorem step_dequeue {res : ResumeResult} (hk : s.workers[w]? = some .dequeue)
    (h : s.step (.work w res) = some t) :
    ∃ n, Turn s t w (.holding n) ∧ ∀ a, waiting t a + (n.isFor a).toNat = waiting s a := by
  rw [step_work hk] at h
  dsimp only [Sched.runWorker] at h
  split at h
  · cases h
  · rename_i n q hq
    cases h
    exact ⟨n, ⟨rfl, (List.getElem?_eq_some_iff.mp hk).1⟩, fun a => waiting_cons hq rfl rfl⟩

/-- `resume()` of an actor comes back -/
theorem step_back {id : Nat} {res : ResumeResult} (hk : s.workers[w]? = some (.holding ⟨id, .actor b⟩))
    (h : s.step (.work w res) = some t) :
    Turn s t w (.resumed ⟨id, .actor b⟩ res) ∧ ∀ a, waiting t a = waiting s a := by
  rw [step_work hk] at h
  dsimp only [Sched.runWorker] at h
  split at h
  · cases h
  · cases h
    exact ⟨⟨rfl, (List.getElem?_eq_some_iff.mp hk).1⟩, fun _ => rfl⟩

/-- the node is pushed back, or freed -/
theorem step_finish {n : JobPtr J} {res res' : ResumeResult}
    (hk : s.workers[w]? = some (.resumed n res)) (h : s.step (.work w res') = some t) :
    ∃ k, k.actor = none ∧ Turn s t w k ∧
      ∀ a, waiting t a = waiting s a + (n.isFor a && res == .resume).toNat := by
  have hw : w < s.workers.length := (List.getElem?_eq_some_iff.mp hk).1
  rw [step_work hk] at h
  cases res with
  | resume =>
    cases h
    refine ⟨.dequeue, rfl, ⟨rfl, hw⟩, fun a => ?_⟩
    show (s.queue ++ [n]).countP (JobPtr.isFor a) + s.log.discarded.countP _ = _
    rw [List.countP_append, List.countP_singleton]
    unfold waiting
    cases n.isFor a with
    | true => exact Nat.add_right_comm ..
    | false => rfl
  | shutdown =>
    cases h
    exact ⟨.left, rfl, ⟨rfl, hw⟩, fun a => by simp [waiting, Sched.place, Sched.drop]⟩
  | awaiting | done =>
    cases h
    exact ⟨.dequeue, rfl, ⟨rfl, hw⟩, fun a => by simp [waiting, Sched.place, Sched.drop]⟩

/-- a node is made and pushed -/
theorem enqueue_some (h : s.enqueue b = some t) : t.workers = s.workers ∧
    ∀ a, waiting t a = waiting s a + (b = a : Bool).toNat := by
  obtain ⟨u, hu, ht⟩ := Option.bind_eq_some_iff.mp h
  cases hu
  obtain ⟨n, hn, rfl⟩ := Option.map_eq_some_iff.mp ht
  obtain rfl : s.node (.actor b) = n := by
    rw [List.getElem?_concat_length] at hn
    exact Option.some.inj hn
  refine ⟨rfl, fun a => ?_⟩
  show (s.queue ++ [s.node (.actor b)]).countP (JobPtr.isFor a) + s.log.discarded.countP _ = _
  rw [List.countP_append, List.countP_singleton]
  unfold waiting JobPtr.isFor Sched.node
  by_cases hb : b = a
  · subst hb
    simp
    omega
  · simp [hb]

/-- the nodes of actors stay where they are -/
structure Aside (s t : Sched J) : Prop where
  length : t.workers.length = s.workers.length
  place : ∀ w, t.workers[w]? = s.workers[w]? ∨ (handling s w = none ∧ handling t w = none)
  waiting : ∀ a, waiting t a = waiting s a

theorem Turn.aside {k : Worker J} (h : Turn s t w k) (hs : handling s w = none)
    (hk : k.actor = none) (hw : ∀ a, waiting t a = waiting s a) : Aside s t where
  length := h.length
  place v := by
    by_cases hv : v = w
    · subst hv
      refine Or.inr ⟨hs, ?_⟩
      unfold handling
      rw [h.self]
      exact hk
    · exact Or.inl (h.other hv)
  waiting := hw

/-- a worker's turn with a node of `stop()` -/
theorem step_helper {k : Worker J} {id : Nat} {v res' : ResumeResult}
    (hk : s.workers[w]? = some k)
    (hn : k = .holding ⟨id, .shutdownHelper⟩ ∨ k = .resumed ⟨id, .shutdownHelper⟩ v)
    (h : s.step (.work w res') = some t) : Aside s t := by
  have hw : w < s.workers.length := (List.getElem?_eq_some_iff.mp hk).1
  have hnone : handling s w = none := by
    unfold handling
    rw [hk]
    rcases hn with rfl | rfl <;> rfl
  rcases hn with rfl | rfl
  · rw [step_work hk] at h
    cases h
    exact Turn.aside (w:=w) (k:=.resumed ⟨id, .shutdownHelper⟩ .shutdown) ⟨rfl, hw⟩ hnone rfl
      fun _ => rfl
  · obtain ⟨k, hk', hturn, hwait⟩ := step_finish hk h
    refine hturn.aside hnone hk' fun a => ?_
    rw [hwait]
    rfl

/-- a step of `start()` or `stop()` -/
theorem step_main (hI : Sched.Inv s) (h : s.step .main = some t) : Aside s t := by
  have hsame : ∀ {u : Sched J}, u.workers = s.workers → (∀ a, waiting u a = waiting s a) →
      Aside s u := fun hw hq => ⟨by rw [hw], fun w => Or.inl (by rw [hw]), hq⟩
  change s.runMain s.main = some t at h
  cases hm : s.main with
  | starting i =>
    rw [hm] at h
    dsimp only [Sched.runMain] at h
    split at h
    · rename_i hi
      cases h
      have hun := hI.unlaunched i hm i (Nat.le_refl _) hi
      refine Turn.aside (w:=i) (k:=.dequeue) ⟨rfl, hI.length ▸ hi⟩ ?_ rfl fun _ => rfl
      unfold handling
      rw [hun]
      rfl
    · cases h
      exact hsame rfl fun _ => rfl
  | started => rw [hm] at h; cases h
  | stopping alive =>
    rw [hm] at h
    cases alive with
    | nil => cases h; exact hsame rfl fun _ => rfl
    | cons w alive => cases h; exact hsame rfl fun _ => rfl
  | enqueueing alive n =>
    rw [hm] at h
    cases h
    refine hsame rfl fun a => ?_
    have hr := hI.round
    rw [hm] at hr
    have hn : n.isFor a = false := by
      have hs : n.isShutdown = true := hr.1
      unfold JobPtr.isShutdown at hs
      unfold JobPtr.isFor
      split at hs
      · cases hs
      · rename_i hj
        rw [hj]
        rfl
    show (s.queue ++ [n]).countP (JobPtr.isFor a) + _ = _
    rw [List.countP_append, List.countP_singleton, hn]
    rfl
  | waiting alive =>
    rw [hm] at h
    dsimp only [Sched.runMain] at h
    split at h
    · cases h; exact hsame rfl fun _ => rfl
    · cases h
  | joining i =>
    rw [hm] at h
    dsimp only [Sched.runMain] at h
    split at h
    · split at h
      · cases h; exact hsame rfl fun _ => rfl
      · cases h
    · cases h
      refine hsame rfl fun a => ?_
      show ([] : List (JobPtr J)).countP _ + (s.log.discarded ++ s.queue).countP (JobPtr.isFor a) = _
      rw [List.countP_append]
      unfold waiting
      simp
      omega
  | stopped => rw [hm] at h; cases h

theorem step_stop {order : List Nat} (h : s.step (.stop order) = some t) : Aside s t := by
  unfold Sched.step at h
  dsimp only at h
  split at h
  · split at h
    · cases h
      exact ⟨rfl, fun _ => Or.inl rfl, fun _ => rfl⟩
    · cases h
  · cases h

/-! ## steps of an actor -/

/-- a thread has done its work -/
def ended (r : Runner β) : Bool := r.pc.role r.node = .apart

/-- only a caller that owes a job node enqueues one -/
theorem move_nodes {v v' : View} {r r' : Role} (h : Move v r v' r') (hr : r ≠ .owing) :
    v'.nodes = v.nodes := by
  cases h with
  | discharge => exact absurd rfl hr
  | _ => rfl

theorem exec_nodes {g : Choice} {m m' : ActorMem β} {u u' : Thread β T X}
    (h : Actor.exec g m u = some (m', u')) (hu : u.returning = false) : m'.nodes = m.nodes := by
  refine move_nodes (exec_move h) fun hr => ?_
  cases u with
  | send x =>
    obtain ⟨msg, slot, pc⟩ := x
    cases pc with
    | ret b r =>
      cases b with
      | true => cases hu
      | false => cases hr
    | _ => cases hr
  | run r =>
    obtain ⟨max, node, pc⟩ := r
    cases pc with
    | ret res n => cases hu
    | fetching w t => cases w <;> cases hr
    | _ => cases hr
  | delete d => cases d <;> cases hr

/-- a driver is through when it has given its verdict -/
theorem step_gone {max : Nat} {g : Choice} {m m' : ActorMem β} {pc pc' : RunPc β}
    (h : Runner.stepPc max g m pc = some (m', pc')) (hpc : ∀ a n, pc ≠ .ret a n) : pc' ≠ .gone := by
  have hhead : ∀ n, (Runner.loopHead max n : RunPc β) ≠ .gone := fun n => by
    unfold Runner.loopHead
    split <;> (intro he; cases he)
  cases Runner.step_does h with
  | ret => exact absurd rfl (hpc _ _)
  | entryFull | drop | handle => exact hhead _
  | goOn hgo =>
    rintro rfl
    cases hgo
  | _ => intro he; cases he

/-- a driver stays a driver, and one that has done its work does nothing more -/
theorem exec_driver {g : Choice} {m m' : ActorMem β} {r : Runner β} {u' : Thread β T X}
    (h : Actor.exec g m (.run r) = some (m', u')) :
    ∃ r', u' = .run r' ∧ (ended r = true → ended r' = true) ∧
      ((∀ a n, r.pc ≠ .ret a n) → r'.pc ≠ .gone) := by
  rcases Actor.exec_cases h with ⟨_, _, he, -⟩ | ⟨max, node, pc, pc', he, rfl, hs⟩ | ⟨_, _, he, -⟩
  · cases he
  · obtain rfl := Thread.run.inj he
    refine ⟨_, rfl, fun ho => ?_, step_gone hs⟩
    cases pc with
    | ret res n => cases hs; rfl
    | gone => cases hs
    | fetching w t => cases w <;> cases ho
    | _ => cases ho
  · cases he

theorem exec_sender {g : Choice} {m m' : ActorMem β} {x : Sender β T X} {u' : Thread β T X}
    (h : Actor.exec g m (.send x) = some (m', u')) : ∃ x', u' = .send x' := by
  rcases Actor.exec_cases h with ⟨_, x', -, rfl, -⟩ | ⟨_, _, _, _, he, -⟩ | ⟨_, _, he, -⟩
  · exact ⟨x', rfl⟩
  · cases he
  · cases he

/-- the caller that owes a job node enqueues it -/
theorem exec_ret {g : Choice} {m m' : ActorMem β} {max n : Nat} {node : Bool} {res : ResumeResult}
    {u' : Thread β T X} (h : Actor.exec g m (.run ⟨max, node, .ret res n⟩) = some (m', u')) :
    u' = .run ⟨max, node, .gone⟩ ∧ m'.nodes = m.nodes + (res == .resume).toNat := by
  obtain ⟨-, h⟩ := Option.ite_none_left_eq_some.mp h
  cases h
  exact ⟨rfl, rfl⟩

theorem exec_sent {g : Choice} {m m' : ActorMem β} {msg : Message β} {slot : State T X} {b : Bool}
    {r : EnqueueResult} {u' : Thread β T X}
    (h : Actor.exec g m (.send ⟨msg, slot, .ret b r⟩) = some (m', u')) :
    u' = .send ⟨msg, slot, .gone⟩ ∧ m'.nodes = m.nodes + b.toNat := by
  obtain ⟨-, h⟩ := Option.ite_none_left_eq_some.mp h
  cases h
  exact ⟨rfl, rfl⟩

/-- an actor that nobody deletes -/
structure Intact (c : Actor.Conf β T X) : Prop where
  word : c.sh.word.isDestroying = false
  threads : ∀ u ∈ c.pool, ∀ d, u ≠ .delete d

theorem move_intact {v v' : View} {r r' : Role} (h : Move v r v' r')
    (hv : v.word.isDestroying = false) (hr : ∀ d, r' ≠ .deleting d) :
    v'.word.isDestroying = false := by
  cases h with
  | leave =>
    unfold Sender.leaveDesired
    split <;> simp [hv]
  | unpark | unparkBusy => exact hv
  | publish => exact absurd rfl (hr false)
  | terminal => exact absurd rfl (hr true)
  | _ => simp [hv, Runner.guardDesired]

theorem Intact.run {c d : Actor.Conf β T X} {g : Choice} (h : Intact c)
    (hs : Actor.step c (.run i g) = some d) : Intact d := by
  obtain ⟨u, u', hu, he, hp⟩ := TS.Conf.step_set hs
  have hkind : ∀ d, u' ≠ .delete d := by
    intro d
    cases u with
    | send x => obtain ⟨x', rfl⟩ := exec_sender he; nofun
    | run r => obtain ⟨r', rfl, -⟩ := exec_driver he; nofun
    | delete d => exact absurd rfl (h.threads _ (List.mem_of_getElem? hu) d)
  refine ⟨move_intact (exec_move he) h.word fun d hr => ?_, fun x hx => ?_⟩
  · cases u' with
    | send x =>
      obtain ⟨msg, slot, pc⟩ := x
      cases pc with
      | ret b r => cases b <;> cases hr
      | _ => cases hr
    | run r =>
      obtain ⟨max, node, pc⟩ := r
      cases pc with
      | ret res n => cases res <;> cases hr
      | fetching w t => cases w <;> cases hr
      | _ => cases hr
    | delete d => exact absurd rfl (hkind d)
  · rw [hp] at hx
    rcases List.mem_or_eq_of_mem_set hx with hx | rfl
    · exact h.threads x hx
    · exact hkind

theorem Intact.spawn {c d : Actor.Conf β T X} {u : Thread β T X} (h : Intact c)
    (hs : Actor.step c (.spawn u) = some d) (hu : ∀ x, u ≠ .delete x) : Intact d := by
  obtain ⟨he, hp⟩ := TS.Conf.step_spawn hs
  refine ⟨?_, fun x hx => ?_⟩
  · rw [enter_word he]
    exact h.word
  · rw [hp] at hx
    rcases List.mem_append.mp hx with hx | hx
    · exact h.threads x hx
    · rw [List.mem_singleton.mp hx]
      exact hu

end Runtime
end ActorZeta
