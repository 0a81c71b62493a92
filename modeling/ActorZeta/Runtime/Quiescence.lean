import ActorZeta.Runtime.Runs
import ActorZeta.Actor.Messages

/-!
# A process that rests has done its work

* `RuntimeAct.internal`   a step that nobody from outside has to take;
* `Launched`     no worker is left behind by `start()`;
* `rested`       where nobody can take such a step, every accepted message was popped, no behavior
                 is suspended, and no job node is left.
-/

set_option linter.unusedSectionVars false

namespace ActorZeta

/-- not a call of `send()` or `stop()` -/
def RuntimeAct.internal {J β T X : Type} : RuntimeAct J β T X → Bool
  | .send _ _ _ | .stop _ => false
  | _ => true

namespace Runtime
variable {J β T X : Type} [DecidableEq J] {rt rt' : Runtime J β T X} {s t : Sched J} {a : J}
  {n i w : Nat}

/-! ## the workers -/

/-- `start()` launches the workers in order -/
def Launched (s : Sched J) : Prop :=
  ∀ w, s.workers[w]? = some .unlaunched → ∃ i, s.main = .starting i ∧ i ≤ w

theorem Launched.place (h : Launched s) {k : Worker J} (hw : t.workers = s.workers.set w k)
    (hk : k ≠ .unlaunched) (hm : t.main = s.main) : Launched t := by
  intro v hv
  rw [hw] at hv
  rw [hm]
  by_cases hvw : v = w
  · subst hvw
    have hlt := (List.getElem?_eq_some_iff.mp hv).1
    rw [List.length_set] at hlt
    rw [List.getElem?_set_self hlt] at hv
    exact absurd (Option.some.inj hv) hk
  · rw [List.getElem?_set_ne (Ne.symm hvw)] at hv
    exact h v hv

theorem Launched.same (h : Launched s) (hw : t.workers = s.workers)
    (hm : ∀ i, s.main = .starting i → t.main = .starting i) : Launched t := by
  intro v hv
  obtain ⟨i, hi, hle⟩ := h v (hw ▸ hv)
  exact ⟨i, hm i hi, hle⟩

theorem Launched.work (h : Launched s) {res : ResumeResult} {k : Worker J}
    (hs : s.runWorker w res k = some t) : Launched t := by
  cases k with
  | unlaunched | left => cases hs
  | dequeue =>
    simp only [Sched.runWorker] at hs
    split at hs
    · cases hs
    · cases hs
      exact h.place rfl (fun he => by cases he) rfl
  | holding n =>
    simp only [Sched.runWorker] at hs
    split at hs
    · split at hs
      · cases hs
      · cases hs
        exact h.place rfl (fun he => by cases he) rfl
    · cases hs
      exact h.place rfl (fun he => by cases he) rfl
  | resumed n r => cases r <;> cases hs <;> exact h.place rfl (fun he => by cases he) rfl

theorem Launched.main (h : Launched s) (hI : Sched.Inv s) (hs : s.step .main = some t) :
    Launched t := by
  change s.runMain s.main = some t at hs
  have hno : (∀ i, s.main ≠ .starting i) → ∀ {u : Sched J}, u.workers = s.workers → Launched u :=
    fun hm u hw => h.same hw fun i hi => absurd hi (hm i)
  cases hm : s.main with
  | starting i =>
    rw [hm] at hs
    dsimp only [Sched.runMain] at hs
    split at hs
    · rename_i hi
      cases hs
      intro v hv
      change (s.workers.set i Worker.dequeue)[v]? = some Worker.unlaunched at hv
      have hvi : v ≠ i := by
        rintro rfl
        rw [List.getElem?_set_self (hI.length ▸ hi)] at hv
        cases hv
      rw [List.getElem?_set_ne (Ne.symm hvi)] at hv
      obtain ⟨j, hj, hle⟩ := h v hv
      obtain rfl : i = j := by
        rw [hm] at hj
        exact Main.starting.inj hj
      exact ⟨i + 1, rfl, Nat.lt_of_le_of_ne hle (Ne.symm hvi)⟩
    · rename_i hi
      cases hs
      intro v hv
      obtain ⟨j, hj, hle⟩ := h v hv
      rw [hm] at hj
      obtain rfl := Main.starting.inj hj
      have hlt : v < s.workers.length := (List.getElem?_eq_some_iff.mp hv).1
      have hlen := hI.length
      omega
  | started | stopped => rw [hm] at hs; cases hs
  | stopping alive =>
    rw [hm] at hs
    cases alive <;> cases hs <;> exact hno (fun i => by rw [hm]; nofun) rfl
  | enqueueing alive n => rw [hm] at hs; cases hs; exact hno (fun i => by rw [hm]; nofun) rfl
  | waiting alive =>
    rw [hm] at hs
    dsimp only [Sched.runMain] at hs
    split at hs
    · cases hs; exact hno (fun i => by rw [hm]; nofun) rfl
    · cases hs
  | joining i =>
    rw [hm] at hs
    dsimp only [Sched.runMain] at hs
    split at hs
    · split at hs
      · cases hs; exact hno (fun i => by rw [hm]; nofun) rfl
      · cases hs
    · cases hs; exact hno (fun i => by rw [hm]; nofun) rfl

theorem Launched.step (h : Launched s) (hI : Sched.Inv s) {act : SchedAct J}
    (hs : s.step act = some t) : Launched t := by
  cases act with
  | make a => cases hs; exact h.same rfl fun _ hi => hi
  | push i =>
    obtain ⟨n, -, rfl⟩ := Option.map_eq_some_iff.mp hs
    exact h.same rfl fun _ hi => hi
  | work w res =>
    obtain ⟨k, -, hs⟩ := Option.bind_eq_some_iff.mp hs
    exact h.work hs
  | stop order =>
    unfold Sched.step at hs
    dsimp only at hs
    split at hs
    · rename_i hm
      split at hs
      · cases hs
        refine h.same rfl fun i hi => ?_
        rw [hm] at hi
        cases hi
      · cases hs
    · cases hs
  | main => exact h.main hI hs

theorem launched_of_reach (h : TS.Reach Sched.step (Sched.init n) s) : Launched s := by
  refine (TS.Reach.inv (I:=fun s => Sched.Inv s ∧ Launched s) (fun s a t hI hs => ?_) ?_ h).2
  · exact ⟨Sched.inv_step hI.1 hs, hI.2.step hI.1 hs⟩
  · refine ⟨Sched.inv_init n, fun w hw => ⟨0, rfl, Nat.zero_le w⟩⟩

/-- while the scheduler runs, a worker is in `dequeue` or has a node in hand -/
theorem started_worker (hI : Sched.Inv s) (hL : Launched s) (hm : s.main = .started) {k : Worker J}
    (hk : s.workers[w]? = some k) :
    k = .dequeue ∨ (∃ n, k = .holding n) ∨ ∃ n res, k = .resumed n res := by
  have hleft : k.leaving = false := by
    refine Bool.eq_false_iff.mpr fun hl => ?_
    have hr := hI.round
    rw [hm] at hr
    have hw : w ∈ s.shutdowns.map Prod.fst := (hI.consumed w).mpr ⟨k, hk, hl⟩
    rw [List.eq_nil_of_length_eq_zero hr.2] at hw
    cases hw
  cases k with
  | unlaunched =>
    obtain ⟨i, hi, -⟩ := hL w hk
    rw [hm] at hi
    cases hi
  | dequeue => exact Or.inl rfl
  | holding n => exact Or.inr (Or.inl ⟨n, rfl⟩)
  | resumed n res => exact Or.inr (Or.inr ⟨n, res, rfl⟩)
  | left => cases hleft

/-! ## what is enabled -/

section
variable (hI : Inv n rt) (ha : ∀ a, (rt.actors a).sh.aborted = false)

theorem Inv.not_drained (hI : Inv n rt) (a : J) : Actor.drained (rt.actors a) = false := by
  refine Bool.eq_false_iff.mpr fun hd => ?_
  obtain ⟨t, ht, hr⟩ := List.mem_map.mp (Actor.drained_iff.mp hd)
  obtain ⟨x, rfl⟩ := Actor.role_deleting hr
  exact (hI.intact a).threads _ ht x rfl

theorem Inv.accounted (hI : Inv n rt) (a : J) : Actor.Accounted (rt.actors a) := by
  obtain ⟨as, has⟩ := hI.actor a
  exact Actor.accounted_of_run (TS.run_of_restrict has)

theorem Inv.opened (hI : Inv n rt) (a : J) : Actor.Open (rt.actors a) :=
  (hI.accounted a).opened (hI.not_drained a)

include hI ha in
/-- a thread of an actor that is not through can go on -/
theorem thread_enabled {u : Thread β T X} (hu : (rt.actors a).pool[i]? = some u)
    (ht : u.through = false) (g : Choice) : ∃ c, Actor.step (rt.actors a) (.run i g) = some c := by
  have hmem := List.mem_of_getElem? hu
  obtain ⟨r, hr⟩ := (hI.opened a).exec hmem (Actor.not_drained (hI.not_drained a) hmem) (ha a) ht g
  exact ⟨_, Actor.exec_step hu hr⟩

include hI ha in
theorem step_thread_enabled {u : Thread β T X} (hu : (rt.actors a).pool[i]? = some u)
    (ht : u.through = false) (hret : u.returning = false) (g : Choice) :
    ∃ rt', rt.step (.thread a i g) = some rt' := by
  obtain ⟨c, hc⟩ := thread_enabled hI ha hu ht g
  refine ⟨rt.setActor a c, ?_⟩
  show ((rt.actors a).pool[i]?.bind fun t => if t.returning then none
    else (Actor.step (rt.actors a) (.run i g)).map (rt.setActor a)) = _
  rw [hu, Option.bind_some, hret, hc]
  rfl

theorem enqueue_enabled (s : Sched J) (a : J) : ∃ t, s.enqueue a = some t := by
  unfold Sched.enqueue
  simp only [Sched.step, Option.bind_some, Sched.made, List.getElem?_concat_length, Option.map_some]
  exact ⟨_, rfl⟩

include hI ha in
theorem step_enqueue_enabled {msg : Message β} {slot : State T X} {r : EnqueueResult}
    (hu : (rt.actors a).pool[i]? = some (.send ⟨msg, slot, .ret true r⟩)) (g : Choice) :
    ∃ rt', rt.step (.enqueue a i g) = some rt' := by
  obtain ⟨c, hc⟩ := thread_enabled hI ha hu rfl g
  obtain ⟨s, hs⟩ := enqueue_enabled rt.sched a
  refine ⟨{ rt.setActor a c with sched := s }, ?_⟩
  simp only [Runtime.step, hu, hc, Option.bind_some, hs, Option.map_some]

theorem step_back_enabled {id : Nat} {max m : Nat} {node : Bool} {res : ResumeResult}
    (hk : rt.sched.workers[w]? = some (.holding ⟨id, .actor a⟩)) (hf : rt.serving w = some i)
    (hr : (rt.actors a).pool[i]? = some (.run ⟨max, node, .ret res m⟩)) (hres : res ≠ .shutdown) :
    ∃ rt', rt.step (.back w) = some rt' := by
  obtain ⟨s, hs⟩ : ∃ s, rt.sched.step (.work w res) = some s := by
    rw [step_work hk]
    simp only [Sched.runWorker, if_neg hres]
    exact ⟨_, rfl⟩
  simp only [Runtime.step, hk, hf, hr, Runtime.onSched, hs, Option.map_some]
  exact ⟨_, rfl⟩

include hI ha in
theorem step_finish_enabled {id : Nat} {res : ResumeResult} {r : Runner β}
    (hk : rt.sched.workers[w]? = some (.resumed ⟨id, .actor a⟩ res)) (hf : rt.serving w = some i)
    (hr : (rt.actors a).pool[i]? = some (.run r)) (hpc : r.pc ≠ .gone) (g : Choice) :
    ∃ rt', rt.step (.finish w g) = some rt' := by
  have hthrough : (Thread.run r : Thread β T X).through = false := by
    obtain ⟨max, node, pc⟩ := r
    cases pc with
    | gone => exact absurd rfl hpc
    | _ => rfl
  obtain ⟨c, hc⟩ := thread_enabled hI ha hr hthrough g
  obtain ⟨s, hs⟩ : ∃ s, rt.sched.step (.work w .done) = some s := by
    rw [step_work hk]
    cases res <;> exact ⟨_, rfl⟩
  simp only [Runtime.step, hk, hf, hc, Option.bind_some, hs, Option.map_some]
  exact ⟨_, rfl⟩

include hI ha in
theorem step_resume_enabled {id : Nat} (hmax : 0 < rt.maxThroughput)
    (hk : rt.sched.workers[w]? = some (.holding ⟨id, .actor a⟩)) (hf : rt.serving w = none) :
    ∃ rt', rt.step (.resume w) = some rt' := by
  have hown : handling rt.sched w = some a := handling_of hk
  have hnodes : 1 ≤ (rt.actors a).sh.nodes := by
    rw [hI.glued.nodes]
    have hpos : 0 < fetched rt.sched rt.serving a := by
      refine List.countP_pos_iff.mpr ⟨w, List.mem_range.mpr (handling_lt hown), ?_⟩
      unfold fetches
      rw [hf, hown]
      simp
    omega
  obtain ⟨c, hc⟩ : ∃ c, Actor.step (rt.actors a)
      (.spawn (.run ⟨rt.maxThroughput, true, .acqLoad⟩)) = some c := by
    have he : Actor.enter (rt.actors a).sh
        (.run ⟨rt.maxThroughput, true, .acqLoad⟩ : Thread β T X)
        = some { (rt.actors a).sh with nodes := (rt.actors a).sh.nodes - 1 } :=
      if_pos ⟨hmax, hnodes, ha a⟩
    exact ⟨_, congrArg (Option.map _) he⟩
  simp only [Runtime.step, hk, hf, hc, Option.map_some]
  exact ⟨_, rfl⟩

end

/-! ## rest -/

/-- nobody can take a step but callers of `send()` and `stop()` -/
structure Rests (n : Nat) (rt : Runtime J β T X) : Prop where
  inv : Inv n rt
  running : ∀ a, (rt.actors a).sh.aborted = false
  rest : ∀ act : RuntimeAct J β T X, act.internal = true → rt.step act = none

theorem Rests.no_step (h : Rests n rt) (act : RuntimeAct J β T X) (hact : act.internal = true)
    (hs : ∃ rt', rt.step act = some rt') : False := by
  obtain ⟨rt', hs⟩ := hs
  rw [h.rest act hact] at hs
  cases hs

/-- every `send()` has returned -/
theorem Rests.sender (h : Rests n rt) {x : Sender β T X}
    (hx : (rt.actors a).pool[i]? = some (.send x)) : x.pc = .gone := by
  obtain ⟨msg, slot, pc⟩ := x
  let g : Choice := ⟨false, false, false, false⟩
  have hthread : ∀ u : Thread β T X, (rt.actors a).pool[i]? = some u → u.through = false →
      u.returning = false → False := fun u hu ht hr =>
    h.no_step (.thread a i g) rfl (step_thread_enabled h.inv h.running hu ht hr g)
  cases pc with
  | gone => rfl
  | ret needsSched r =>
    cases needsSched with
    | true =>
      exact (h.no_step (.enqueue a i g) rfl
        (step_enqueue_enabled h.inv h.running hx g)).elim
    | false => exact (hthread _ hx rfl rfl).elim
  | _ => exact (hthread _ hx rfl rfl).elim

/-- who is over has returned -/
theorem ended_cases {r : Runner β} (ho : ended r = true) (hr : r.pc ≠ .gone) :
    ∃ res m, r.pc = .ret res m := by
  obtain ⟨max, node, pc⟩ := r
  cases pc with
  | ret res m => exact ⟨res, m, rfl⟩
  | gone => exact absurd rfl hr
  | fetching w t => cases w <;> cases ho
  | _ => cases ho

theorem actor_cases {k : Worker J} (h : k.actor = some a) :
    (∃ id, k = .holding ⟨id, .actor a⟩) ∨ ∃ id res, k = .resumed ⟨id, .actor a⟩ res := by
  cases k with
  | holding n =>
    obtain ⟨id, job⟩ := n
    cases job with
    | actor b =>
      obtain rfl := Option.some.inj h
      exact Or.inl ⟨id, rfl⟩
    | shutdownHelper => cases h
  | resumed n res =>
    obtain ⟨id, job⟩ := n
    cases job with
    | actor b =>
      obtain rfl := Option.some.inj h
      exact Or.inr ⟨id, res, rfl⟩
    | shutdownHelper => cases h
  | _ => cases h

/-- no worker serves an actor: whatever its thread has come to, there is a next step -/
theorem Rests.unserved (h : Rests n rt) {w : Nat} : rt.serving w = none := by
  cases hf : rt.serving w with
  | none => rfl
  | some i =>
    exfalso
    let g : Choice := ⟨false, false, false, false⟩
    obtain ⟨k, hk, a, r, hka, hr, hgone, hret⟩ := h.inv.glued.serves hf
    by_cases hpc : ∃ res m, r.pc = .ret res m
    · rcases actor_cases hka with ⟨id, rfl⟩ | ⟨id, res, rfl⟩
      · obtain ⟨res, m, hpc⟩ := hpc
        have hsound := (h.inv.opened a).sound _ (List.mem_of_getElem? hr)
        obtain ⟨max, node, pc⟩ := r
        dsimp only at hpc
        subst hpc
        exact h.no_step (.back w) rfl (step_back_enabled hk hf hr (bne_iff_ne.mp hsound))
      · exact h.no_step (.finish w g) rfl
          (step_finish_enabled h.inv h.running hk hf hr hgone g)
    · refine h.no_step (.thread a i g) rfl
        (step_thread_enabled h.inv h.running hr ?_ ?_ g)
      · obtain ⟨max, node, pc⟩ := r
        cases pc with
        | gone => exact absurd rfl hgone
        | _ => rfl
      · obtain ⟨max, node, pc⟩ := r
        cases pc with
        | ret res m => exact absurd ⟨res, m, rfl⟩ hpc
        | _ => rfl

/-- so no driver is inside -/
theorem Rests.driver (h : Rests n rt) {r : Runner β}
    (hr : (rt.actors a).pool[i]? = some (.run r)) : ended r = true := by
  cases ho : ended r with
  | true => rfl
  | false =>
    obtain ⟨w, hf, -⟩ := h.inv.glued.served hr ho
    rw [h.unserved] at hf
    cases hf

/-- and every worker waits in `dequeue`, or is not at work -/
theorem Rests.idle (h : Rests n rt) (hmax : 0 < rt.maxThroughput) {k : Worker J}
    (hk : rt.sched.workers[w]? = some k) : k = .dequeue ∨ k = .left ∨ k = .unlaunched := by
  have hhelper : ∀ {k : Worker J} {id : Nat} {v : ResumeResult},
      rt.sched.workers[w]? = some k →
      k = .holding ⟨id, .shutdownHelper⟩ ∨ k = .resumed ⟨id, .shutdownHelper⟩ v → False := by
    intro k id v hk hor
    refine h.no_step (.helper w) rfl ?_
    rcases hor with rfl | rfl
    · simp only [Runtime.step, hk, Runtime.onSched]
      rw [step_work hk]
      exact ⟨_, rfl⟩
    · simp only [Runtime.step, hk, Runtime.onSched]
      rw [step_work hk]
      cases v <;> exact ⟨_, rfl⟩
  cases k with
  | unlaunched => exact Or.inr (Or.inr rfl)
  | dequeue => exact Or.inl rfl
  | left => exact Or.inr (Or.inl rfl)
  | holding node =>
    obtain ⟨id, job⟩ := node
    cases job with
    | actor b =>
      exact (h.no_step (.resume w) rfl
        (step_resume_enabled h.inv h.running hmax hk h.unserved)).elim
    | shutdownHelper => exact (hhelper (v:=.done) hk (Or.inl rfl)).elim
  | resumed node res =>
    obtain ⟨id, job⟩ := node
    cases job with
    | actor b =>
      refine (h.inv.glued.resumed hk ?_ h.unserved).elim
      rw [handling_of hk]
      nofun
    | shutdownHelper => exact (hhelper hk (Or.inr rfl)).elim

theorem Rests.worker (h : Rests n rt) (hmax : 0 < rt.maxThroughput)
    (hm : rt.sched.main = .started) {k : Worker J} (hk : rt.sched.workers[w]? = some k) :
    k = .dequeue := by
  rcases h.idle hmax hk with rfl | rfl | rfl
  · rfl
  · rcases started_worker h.inv.schedInv (launched_of_reach h.inv.sched) hm hk with
      hk' | ⟨_, hk'⟩ | ⟨_, _, hk'⟩ <;> cases hk'
  · rcases started_worker h.inv.schedInv (launched_of_reach h.inv.sched) hm hk with
      hk' | ⟨_, hk'⟩ | ⟨_, _, hk'⟩ <;> cases hk'

theorem Rests.queue (h : Rests n rt) (hn : 0 < n) (hmax : 0 < rt.maxThroughput)
    (hm : rt.sched.main = .started) : rt.sched.queue = [] := by
  have hlen : rt.sched.workers.length = n := by
    rw [h.inv.schedInv.length]
    obtain ⟨as, has⟩ := h.inv.sched
    exact TS.run_inv (I:=fun s => s.numWorkers = n)
      (fun _ _ _ he hs => (Sched.step_numWorkers hs).trans he) rfl has
  have hw : 0 < rt.sched.workers.length := hlen ▸ hn
  have hk := List.getElem?_eq_getElem hw
  rw [h.worker hmax hm hk] at hk
  cases hq : rt.sched.queue with
  | nil => rfl
  | cons x q =>
    refine (h.no_step (.dequeue 0) rfl ?_).elim
    simp only [Runtime.step, hk, Runtime.onSched]
    rw [step_work hk]
    simp only [Sched.runWorker, hq]
    exact ⟨_, rfl⟩

/-- what an actor has come to -/
structure Handled (c : Actor.Conf β T X) : Prop where
  /-- every `send()` has returned -/
  returned : ∀ x, Thread.send x ∈ c.pool → x.pc = .gone
  /-- every message that was accepted has been popped -/
  popped : c.sh.popped.Perm c.sh.accepted
  /-- every message that was sent has been destroyed, once -/
  destroyed : (c.pool.filterMap Thread.given).Perm c.sh.destroyed
  /-- no behavior is suspended -/
  finished : c.sh.busy = false
  /-- the actor is neither scheduled nor running, and its inbox is blocked -/
  idle : c.sh.word.isScheduled = false ∧ c.sh.word.isRunning = false ∧ c.sh.box.inbox = .blocked

theorem Rests.handled (h : Rests n rt) (hn : 0 < n) (hmax : 0 < rt.maxThroughput)
    (hm : rt.sched.main = .started) (a : J) : Handled (rt.actors a) := by
  have hS := h.inv.scheduled a
  have hd : (rt.actors a).sh.word.isDestroying = false := (h.inv.intact a).word
  have hsend : ∀ x, Thread.send x ∈ (rt.actors a).pool → x.pc = .gone := fun x hx => by
    obtain ⟨i, hi⟩ := List.getElem?_of_mem hx
    exact h.sender hi
  -- nobody is at work on the actor
  have hapart : ∀ r ∈ (rt.actors a).pool.map Thread.role, r = .apart := by
    intro r hr
    obtain ⟨t, ht, rfl⟩ := List.mem_map.mp hr
    obtain ⟨i, hi⟩ := List.getElem?_of_mem ht
    cases t with
    | send x =>
      show x.pc.role = .apart
      rw [hsend x ht]
      rfl
    | run r => exact of_decide_eq_true (h.driver hi)
    | delete x => exact absurd rfl ((h.inv.intact a).threads _ ht x)
  have hnone : ∀ p : Role → Bool, p .apart = false →
      ((rt.actors a).pool.map Thread.role).countP p = 0 := fun p hp =>
    List.countP_eq_zero.mpr fun r hr => by rw [hapart r hr, hp]; nofun
  -- and no job node is left
  have hnodes : (rt.actors a).sh.nodes = 0 := by
    have hfetched : fetched rt.sched rt.serving a = 0 := by
      refine List.countP_eq_zero.mpr fun w hw hf => ?_
      have hk := List.getElem?_eq_getElem (List.mem_range.mp hw)
      rw [h.worker hmax hm hk] at hk
      unfold fetches at hf
      rw [handling_of hk] at hf
      simp [Worker.actor] at hf
    have hwaiting : waiting rt.sched a = 0 := by
      unfold waiting
      rw [h.queue hn hmax hm, h.inv.schedInv.undiscarded (by rw [hm]; nofun)]
      rfl
    rw [h.inv.glued.nodes, hfetched, hwaiting]
  have hbehind := hS.oneJob.behind hd
  rw [show (rt.actors a).sh.view.nodes = (rt.actors a).sh.nodes from rfl, hnodes,
    hnone _ rfl] at hbehind
  have hflags : (rt.actors a).sh.word.isScheduled = false ∧
      (rt.actors a).sh.word.isRunning = false := by
    have hb : (rt.actors a).sh.word.isScheduled = false ∧ _ :=
      Bool.or_eq_false_iff.mp (Bool.toNat_eq_zero.mp hbehind.symm)
    exact hb
  have hquiet : (rt.actors a).sh.view.Quiet := by
    rcases (hS.alive.safe.wake hd).awake hflags.2 with hq | hq | ⟨r, hr, hw⟩
    · exact hq
    · rw [show (rt.actors a).sh.view.nodes = (rt.actors a).sh.nodes from rfl, hnodes] at hq
      exact absurd hq (Nat.lt_irrefl 0)
    · rw [hapart r hr] at hw
      cases hw
  obtain ⟨htag, hcached, hbusy⟩ := hquiet
  have hinbox : (rt.actors a).sh.box.inbox = .blocked := by
    cases hi : (rt.actors a).sh.box.inbox with
    | blocked => rfl
    | _ =>
      rw [show (rt.actors a).sh.view.tag = (rt.actors a).sh.box.inbox.tag from rfl, hi] at htag
      cases htag
  have hheld : (rt.actors a).sh.box.held = [] := by
    obtain ⟨hu, hn⟩ := Mailbox.cached_zero.mp (bne_eq_false_iff_eq.mp hcached)
    rw [Mailbox.held, hu, hn, hinbox]
    rfl
  refine ⟨hsend, ?_, ?_, hbusy, hflags.1, hflags.2, hinbox⟩
  · have hb := hS.alive.balanced hd
    unfold ActorMem.Balanced at hb
    rw [hheld, List.append_nil] at hb
    exact hb.symm
  · have hacc := (h.inv.accounted a).perm
    have hhand : (rt.actors a).pool.filterMap Thread.hand = [] := by
      refine List.filterMap_eq_nil_iff.mpr fun t ht => ?_
      cases t with
      | run r =>
        have hr : (Thread.run r : Thread β T X).role = .apart :=
          hapart _ (List.mem_map_of_mem ht)
        obtain ⟨max, node, pc⟩ := r
        cases pc <;> first | rfl | cases hr
      | _ => rfl
    rw [hheld, hhand] at hacc
    exact hacc

theorem step_maxThroughput {act : RuntimeAct J β T X} (h : rt.step act = some rt') :
    rt'.maxThroughput = rt.maxThroughput := by
  have hsched : ∀ {act : SchedAct J}, rt.onSched act = some rt' →
      rt'.maxThroughput = rt.maxThroughput := fun hs => by
    obtain ⟨s, -, rfl⟩ := Option.map_eq_some_iff.mp hs
    rfl
  unfold Runtime.step at h
  cases act with
  | send a msg slot =>
    obtain ⟨c, -, rfl⟩ := Option.map_eq_some_iff.mp h
    rfl
  | thread a i g =>
    obtain ⟨u, -, h⟩ := Option.bind_eq_some_iff.mp h
    obtain ⟨-, h⟩ := Option.ite_none_left_eq_some.mp h
    obtain ⟨c, -, rfl⟩ := Option.map_eq_some_iff.mp h
    rfl
  | enqueue a i g =>
    dsimp only at h
    split at h
    · obtain ⟨c, -, h⟩ := Option.bind_eq_some_iff.mp h
      obtain ⟨s, -, rfl⟩ := Option.map_eq_some_iff.mp h
      rfl
    · cases h
  | resume w =>
    dsimp only at h
    split at h
    · obtain ⟨c, -, rfl⟩ := Option.map_eq_some_iff.mp h
      rfl
    · cases h
  | finish w g =>
    dsimp only at h
    split at h
    · obtain ⟨c, -, h⟩ := Option.bind_eq_some_iff.mp h
      obtain ⟨s, -, rfl⟩ := Option.map_eq_some_iff.mp h
      rfl
    · cases h
  | back w =>
    dsimp only at h
    split at h
    · split at h
      · exact hsched h
      · cases h
    · cases h
  | dequeue w | helper w =>
    dsimp only at h
    split at h
    all_goals first | exact hsched h | cases h
  | stop order | main => exact hsched h

/-- **A process that rests has done its work.**  In a state of any run in which the scheduler is
started and nobody can take a step but callers of `send()` and `stop()`, the queue is empty, every
worker waits, and no message of any actor is left. -/
theorem rested (n max : Nat) (hn : 0 < n) (hmax : 0 < max) (as : List (RuntimeAct J β T X))
    (rt : Runtime J β T X) (h : TS.run Runtime.step (Runtime.init n max) as = some rt)
    (hm : rt.sched.main = .started) (ha : ∀ a, (rt.actors a).sh.aborted = false)
    (hrest : ∀ act : RuntimeAct J β T X, act.internal = true → rt.step act = none) :
    rt.sched.queue = [] ∧
      (∀ (w : Nat) (k : Worker J), rt.sched.workers[w]? = some k → k = .dequeue) ∧
      ∀ a, Handled (rt.actors a) := by
  have hR : Rests n rt := ⟨inv_of_run h, ha, hrest⟩
  have hmax' : 0 < rt.maxThroughput := by
    rw [TS.run_inv (I:=fun t : Runtime J β T X => t.maxThroughput = max)
      (fun _ _ _ he hs => (step_maxThroughput hs).trans he) rfl h]
    exact hmax
  exact ⟨hR.queue hn hmax' hm, fun w k hk => hR.worker hmax' hm hk,
    fun a => hR.handled hn hmax' hm a⟩

/-- and this is how a process comes to rest -/
theorem rests_of (hw : ∀ (w : Nat) (k : Worker J), rt.sched.workers[w]? = some k →
      k = .dequeue ∧ rt.sched.queue = [] ∨ k = .left)
    (hm : rt.sched.runMain rt.sched.main = none)
    (ht : ∀ a, ∀ t ∈ (rt.actors a).pool, t.through = true) (act : RuntimeAct J β T X)
    (hact : act.internal = true) : rt.step act = none := by
  have hplace : ∀ w : Nat, rt.sched.workers[w]? = none ∨
      rt.sched.workers[w]? = some Worker.dequeue ∧ rt.sched.queue = [] ∨
      rt.sched.workers[w]? = some Worker.left := by
    intro w
    cases hk : rt.sched.workers[w]? with
    | none => exact Or.inl rfl
    | some k =>
      rcases hw w k hk with ⟨rfl, hq⟩ | rfl
      · exact Or.inr (Or.inl ⟨rfl, hq⟩)
      · exact Or.inr (Or.inr rfl)
  have hexec : ∀ a i g, Actor.step (rt.actors a) (.run i g) = none := by
    intro a i g
    refine Option.bind_eq_none_iff.mpr fun u hu => ?_
    rw [Actor.exec_through (ht a u (List.mem_of_getElem? hu))]
    rfl
  cases act with
  | send a msg slot | stop order => cases hact
  | thread a i g =>
    simp only [Runtime.step, hexec, Option.map_none, ite_self]
    cases (rt.actors a).pool[i]? <;> rfl
  | enqueue a i g =>
    simp only [Runtime.step, hexec, Option.bind_none]
    split <;> rfl
  | dequeue w =>
    rcases hplace w with hk | ⟨hk, hq⟩ | hk
    · simp only [Runtime.step, hk]
    · simp only [Runtime.step, hk, Runtime.onSched]
      rw [step_work hk]
      simp only [Sched.runWorker, hq, Option.map_none]
    · simp only [Runtime.step, hk]
  | resume w | back w | finish w g | helper w =>
    rcases hplace w with hk | ⟨hk, -⟩ | hk <;> simp only [Runtime.step, hk]
  | main =>
    show (rt.sched.runMain rt.sched.main).map _ = none
    rw [hm]
    rfl

/-- the scheduler starts one worker, a message is sent, and the worker handles it -/
def oneTurn : List (RuntimeAct Unit Unit Nat Unit) :=
  let g : Choice := ⟨false, false, false, false⟩
  [.main, .main, .send () ⟨16, 1 <<< 60, ()⟩ .fresh] ++ List.replicate 6 (.thread () 0 g) ++
    [.enqueue () 0 g, .dequeue 0, .resume 0] ++ List.replicate 22 (.thread () 1 g) ++
    [.back 0, .finish 0 g]

theorem oneTurn_runs : (TS.run Runtime.step (Runtime.init 1 100) oneTurn).isSome = true := by
  decide +kernel

def afterOneTurn : Runtime Unit Unit Nat Unit :=
  (TS.run Runtime.step (Runtime.init 1 100) oneTurn).get oneTurn_runs

theorem rested_one_turn :
    (afterOneTurn.actors ()).sh.accepted.map Message.addr = [16] ∧
      afterOneTurn.sched.queue = [] ∧
      (∀ (w : Nat) (k : Worker Unit), afterOneTurn.sched.workers[w]? = some k → k = .dequeue) ∧
      ∀ a, Handled (afterOneTurn.actors a) := by
  have hw : afterOneTurn.sched.workers = [.dequeue] := by decide +kernel
  have hq : afterOneTurn.sched.queue = [] := by decide +kernel
  have hm : afterOneTurn.sched.main = .started := by decide +kernel
  have ht : (afterOneTurn.actors ()).pool.all Thread.through = true := by decide +kernel
  have ha : (afterOneTurn.actors ()).sh.aborted = false := by decide +kernel
  refine ⟨by decide +kernel, rested 1 100 (by decide) (by decide) oneTurn afterOneTurn
    (Option.some_get oneTurn_runs).symm hm (fun _ => ha)
    (rests_of (fun w k hk => ?_) (by rw [hm]; rfl) ?_)⟩
  · rw [hw] at hk
    exact Or.inl ⟨List.mem_singleton.mp (List.mem_of_getElem? hk), hq⟩
  · exact fun _ t hmem => List.all_eq_true.mp ht t hmem

end Runtime
end ActorZeta
