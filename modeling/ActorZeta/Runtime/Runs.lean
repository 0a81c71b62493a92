import ActorZeta.Runtime.Glue

/-!
# Runs of the process

* `Inv`, `Inv.step`   an actor goes through a run of well-behaved drivers, the scheduler through one
                      of its own, and they are glued together;
* `one_worker`        what that means for the workers and the job nodes, in every run.
-/

set_option linter.unusedSectionVars false

namespace ActorZeta
namespace Runtime
variable {J β T X : Type} [DecidableEq J] {rt rt' : Runtime J β T X} {a : J} {n : Nat}

/-- the invariant of the process -/
structure Inv (n : Nat) (rt : Runtime J β T X) : Prop where
  actor : ∀ a, TS.Reach (TS.restrict Actor.step Actor.wellBehaved) Actor.init (rt.actors a)
  sched : TS.Reach Sched.step (Sched.init n) rt.sched
  intact : ∀ a, Intact (rt.actors a)
  glued : Glued rt.actors rt.sched rt.serving

theorem Inv.schedInv (h : Inv n rt) : Sched.Inv rt.sched := by
  obtain ⟨as, has⟩ := h.sched
  exact Sched.inv_of_run has

theorem Glued.init (n max : Nat) : Glued (Runtime.init n max : Runtime J β T X).actors
    (Runtime.init n max : Runtime J β T X).sched (Runtime.init n max : Runtime J β T X).serving where
  nodes a := by
    have hf : fetched (Sched.init n) (fun _ => none) a = 0 := by
      refine List.countP_eq_zero.mpr fun w _ hw => ?_
      have hh : handling (Sched.init n : Sched J) w = none := by
        unfold handling
        show ((List.replicate n Worker.unlaunched)[w]?).bind _ = _
        rw [List.getElem?_replicate]
        split <;> rfl
      unfold fetches at hw
      rw [hh] at hw
      cases hw
    show 0 = 0 + fetched (Sched.init n) (fun _ => none) a
    rw [hf]
  serves hf := nomatch hf
  resumed hk _ := by
    obtain ⟨-, hk⟩ := List.mem_replicate.mp (List.mem_of_getElem? hk)
    cases hk
  served hr _ := nomatch hr
  alone hf _ _ := nomatch hf

theorem Inv.init (n max : Nat) : Inv n (Runtime.init n max : Runtime J β T X) where
  actor _ := .refl _
  sched := .refl _
  intact _ := ⟨show ActorState.idle.isDestroying = false by decide,
    fun _ hu => absurd hu List.not_mem_nil⟩
  glued := .init n max

/-- what a step does to the part the actor `a` has in the process -/
theorem reach_update {A : J → Actor.Conf β T X} {b : J} {c : Actor.Conf β T X}
    {act : Actor.Act β T X}
    (h : ∀ a, TS.Reach (TS.restrict Actor.step Actor.wellBehaved) Actor.init (A a))
    (hok : Actor.wellBehaved (A b) act = true) (hs : Actor.step (A b) act = some c) (a : J) :
    TS.Reach (TS.restrict Actor.step Actor.wellBehaved) Actor.init (Function.update A b c a) := by
  by_cases ha : a = b
  · subst ha
    rw [Function.update_self]
    exact (h a).tail (TS.restrict_some.mpr ⟨hok, hs⟩)
  · rw [Function.update_of_ne ha]
    exact h a

theorem intact_update {A : J → Actor.Conf β T X} {b : J} {c : Actor.Conf β T X}
    (h : ∀ a, Intact (A a)) (hc : Intact c) (a : J) : Intact (Function.update A b c a) := by
  by_cases ha : a = b
  · subst ha
    rw [Function.update_self]
    exact hc
  · rw [Function.update_of_ne ha]
    exact h a

/-- a step of the scheduler alone -/
theorem Inv.onSched (h : Inv n rt) {act : SchedAct J}
    (hg : ∀ s, rt.sched.step act = some s → Glued rt.actors s rt.serving)
    (hs : rt.onSched act = some rt') : Inv n rt' := by
  obtain ⟨s, ht, rfl⟩ := Option.map_eq_some_iff.mp hs
  exact ⟨h.actor, h.sched.tail ht, h.intact, hg s ht⟩

theorem nodes_update {A : J → Actor.Conf β T X} {s : Sched J} {b : J} {c : Actor.Conf β T X}
    (hn : c.sh.nodes = (A b).sh.nodes) (a : J) :
    (Function.update A b c a).sh.nodes + waiting s a = (A a).sh.nodes + waiting s a := by
  by_cases ha : a = b
  · subst ha
    rw [Function.update_self, hn]
  · rw [Function.update_of_ne ha]

/-- a caller begins a `send()` -/
theorem Inv.send (h : Inv n rt) {msg : Message β} {slot : State T X}
    (hs : rt.step (.send a msg slot) = some rt') : Inv n rt' := by
  obtain ⟨c, hc, rfl⟩ := Option.map_eq_some_iff.mp hs
  refine ⟨reach_update h.actor rfl hc, h.sched, intact_update h.intact ?_,
    h.glued.keep rfl (Keeps.send hc) (nodes_update ?_)⟩
  · exact (h.intact a).spawn hc nofun
  · obtain ⟨he, -⟩ := TS.Conf.step_spawn hc
    rcases enter_role he with ⟨-, hv⟩ | ⟨_, hr, -⟩
    · exact congrArg View.nodes hv
    · cases hr

/-- a step inside `send()` or `resume()` -/
theorem Inv.thread (h : Inv n rt) {i : Nat} {g : Choice}
    (hs : rt.step (.thread a i g) = some rt') : Inv n rt' := by
  obtain ⟨u, hu, hs⟩ := Option.bind_eq_some_iff.mp hs
  obtain ⟨hret, hs⟩ := Option.ite_none_left_eq_some.mp hs
  have hret := Bool.eq_false_iff.mpr hret
  obtain ⟨c, hc, rfl⟩ := Option.map_eq_some_iff.mp hs
  refine ⟨reach_update h.actor rfl hc, h.sched, intact_update h.intact ((h.intact a).run hc),
    h.glued.keep rfl (Keeps.run hc hu (fun _ _ => hret) (h.intact a)) (nodes_update ?_)⟩
  obtain ⟨x, u', hx, he, -⟩ := TS.Conf.step_set hc
  obtain rfl := Option.some.inj (hu.symm.trans hx)
  exact exec_nodes he hret

/-- the end of a `send()` that was told `needs_sched` -/
theorem Inv.enqueue (h : Inv n rt) {i : Nat} {g : Choice}
    (hs : rt.step (.enqueue a i g) = some rt') : Inv n rt' := by
  unfold Runtime.step at hs
  dsimp only at hs
  split at hs
  · rename_i msg slot res hu
    obtain ⟨c, hc, hs⟩ := Option.bind_eq_some_iff.mp hs
    obtain ⟨s, hq, rfl⟩ := Option.map_eq_some_iff.mp hs
    obtain ⟨hw, hwait⟩ := enqueue_some hq
    obtain ⟨t, ht, hpush⟩ := Option.bind_eq_some_iff.mp hq
    refine ⟨reach_update h.actor rfl hc, (h.sched.tail ht).tail hpush,
      intact_update h.intact ((h.intact a).run hc),
      h.glued.keep hw (Keeps.run hc hu nofun (h.intact a)) fun b => ?_⟩
    obtain ⟨x, u', hx, he, -⟩ := TS.Conf.step_set hc
    obtain rfl := Option.some.inj (hu.symm.trans hx)
    obtain ⟨-, hn⟩ := exec_sent he
    have hb := hwait b
    by_cases hab : b = a
    · subst hab
      rw [Function.update_self, hn, hb]
      simp
      omega
    · rw [Function.update_of_ne hab, hb, decide_eq_false (Ne.symm hab)]
      simp
  · cases hs

theorem Inv.step (h : Inv n rt) {act : RuntimeAct J β T X} (hs : rt.step act = some rt') :
    Inv n rt' := by
  cases act with
  | send a msg slot => exact h.send hs
  | thread a i g => exact h.thread hs
  | enqueue a i g => exact h.enqueue hs
  | dequeue w =>
    unfold Runtime.step at hs
    dsimp only at hs
    split at hs
    · rename_i hk
      exact h.onSched (fun _ hs => h.glued.dequeue hk hs) hs
    · cases hs
  | resume w =>
    unfold Runtime.step at hs
    dsimp only at hs
    split at hs
    · rename_i id a hk hf
      obtain ⟨c, hc, rfl⟩ := Option.map_eq_some_iff.mp hs
      exact ⟨reach_update h.actor rfl hc, h.sched,
        intact_update h.intact ((h.intact a).spawn hc nofun), h.glued.resume hk hf hc⟩
    · cases hs
  | back w =>
    unfold Runtime.step at hs
    dsimp only at hs
    split at hs
    · rename_i id a i hk hf
      split at hs
      · rename_i max node res k hr
        exact h.onSched (fun _ hs => h.glued.back hk hf hr rfl hs) hs
      · cases hs
    · cases hs
  | finish w g =>
    unfold Runtime.step at hs
    dsimp only at hs
    split at hs
    · rename_i id a res i hk hf
      obtain ⟨c, hc, hs⟩ := Option.bind_eq_some_iff.mp hs
      obtain ⟨s, hw, rfl⟩ := Option.map_eq_some_iff.mp hs
      exact ⟨reach_update h.actor rfl hc, h.sched.tail hw,
        intact_update h.intact ((h.intact a).run hc), h.glued.finish hk hf hc hw⟩
    · cases hs
  | helper w =>
    unfold Runtime.step at hs
    dsimp only at hs
    split at hs
    · rename_i id hk
      exact h.onSched (fun _ hs => h.glued.aside (step_helper (v:=.shutdown) hk (Or.inl rfl) hs))
        hs
    · rename_i id res hk
      exact h.onSched (fun _ hs => h.glued.aside (step_helper hk (Or.inr rfl) hs)) hs
    · cases hs
  | stop order => exact h.onSched (fun _ hs => h.glued.aside (step_stop hs)) hs
  | main =>
    exact h.onSched (fun _ hs => h.glued.aside (step_main h.schedInv hs)) hs

theorem inv_of_run {max : Nat} {as : List (RuntimeAct J β T X)}
    (h : TS.run Runtime.step (Runtime.init n max) as = some rt) : Inv n rt :=
  TS.run_inv (fun _ _ _ hI hs => hI.step hs) (Inv.init n max) h

theorem Inv.scheduled (h : Inv n rt) (a : J) : Actor.Scheduled (rt.actors a) := by
  obtain ⟨as, has⟩ := h.actor a
  exact Actor.scheduled_of_run has

/-- between the entry of `resume()` and the last compare-exchange of `~resume_guard` -/
def inside (t : Thread β T X) : Bool := t.role.isEarly || t.role.holds

/-- what the actors of a process may rely on -/
structure OneWorker (n : Nat) (rt : Runtime J β T X) : Prop where
  /-- every actor goes through a run of senders and of drivers that bring a job node, and the
  scheduler through one of its own -/
  parts : (∀ a, TS.Reach (TS.restrict Actor.step Actor.wellBehaved) Actor.init (rt.actors a)) ∧
    TS.Reach Sched.step (Sched.init n) rt.sched
  /-- the job nodes of an actor that are queued, those in the hand of a worker that has not called
  `resume()`, the callers that owe one, and the drivers inside are at most one together -/
  jobs : ∀ a, waiting rt.sched a + fetched rt.sched rt.serving a +
    (rt.actors a).pool.countP (fun t => t.role.isOwing) + (rt.actors a).pool.countP inside ≤ 1
  /-- a driver inside, or one that owes a job node, is a worker with a node of the actor in hand -/
  driver : ∀ a i r, (rt.actors a).pool[i]? = some (.run r) → ended r = false →
    ∃ w, rt.serving w = some i ∧ handling rt.sched w = some a
  /-- and two workers inside the same actor are one -/
  alone : ∀ (a : J) (w v i j : Nat) (r q : Runner β), rt.serving w = some i →
    rt.serving v = some j → handling rt.sched w = some a → handling rt.sched v = some a →
    (rt.actors a).pool[i]? = some (.run r) → (rt.actors a).pool[j]? = some (.run q) →
    inside (.run r : Thread β T X) = true → inside (.run q : Thread β T X) = true → w = v

/-- **One worker in an actor**, and one job node for it, in every run of any number of actors,
senders and workers. -/
theorem one_worker (n max : Nat) (as : List (RuntimeAct J β T X)) (rt : Runtime J β T X)
    (h : TS.run Runtime.step (Runtime.init n max) as = some rt) : OneWorker n rt := by
  have hI := inv_of_run h
  have hjobs : ∀ a, (rt.actors a).sh.nodes + (rt.actors a).pool.countP (fun t => t.role.isOwing) +
      (rt.actors a).pool.countP inside ≤ 1 := by
    intro a
    have hj := (hI.scheduled a).oneJob.jobs
    rw [show (rt.actors a).sh.view.nodes = (rt.actors a).sh.nodes from rfl, ← Actor.jobCount_eq] at hj
    exact hj
  refine ⟨⟨hI.actor, hI.sched⟩, fun a => ?_, fun a i r => hI.glued.served, ?_⟩
  · rw [← hI.glued.nodes]
    exact hjobs a
  · intro a w v i j r q hw hv haw hav hr hq hir hiq
    have hij : i = j := by
      have hle : (rt.actors a).pool.countP inside ≤ 1 := by
        have := hjobs a
        omega
      exact TS.eq_of_countP_le_one hle hr hq hir hiq
    subst hij
    exact hI.glued.alone hw hv (haw.trans hav.symm)

/-- the scheduler starts one worker; actor 5 gets a message, its sender enqueues it, and the worker
goes in -/
def firstTurn : List (RuntimeAct Nat Unit Nat Unit) :=
  let g : Choice := ⟨false, false, false, false⟩
  [.main, .main, .send 5 ⟨16, 1 <<< 60, ()⟩ .fresh] ++ List.replicate 6 (.thread 5 0 g) ++
    [.enqueue 5 0 g, .dequeue 0, .resume 0, .thread 5 1 g, .thread 5 1 g]

theorem firstTurn_runs : (TS.run Runtime.step (Runtime.init 1 100) firstTurn).isSome = true := by
  decide +kernel

theorem one_worker_first_turn :
    ∃ rt : Runtime Nat Unit Nat Unit, rt.serving 0 = some 1 ∧ handling rt.sched 0 = some 5 ∧
      (rt.actors 5).sh.word.isRunning = true ∧ OneWorker 1 rt :=
  ⟨(TS.run Runtime.step (Runtime.init 1 100) firstTurn).get firstTurn_runs, by decide +kernel,
    by decide +kernel, by decide +kernel,
    one_worker 1 100 firstTurn _ (Option.some_get firstTurn_runs).symm⟩

end Runtime
end ActorZeta
