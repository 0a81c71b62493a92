import ActorZeta.Runtime.Quiescence
import ActorZeta.Actor.Assertions

/-!
# From the start of the scheduler to the deletion of the last actor

An actor may die when `stop()` has joined the workers, not before.

* `LifeAct`, `Runtime.lifeStep`   the process, and then the deletion of its actors;
* `Joined`       the workers that `stop()` has joined have left;
* `Stopped`      after `stop()`, nobody drives an actor;
* `Whole`, `Whole.step`   every actor goes through a run in time;
* `late_run`     whoever comes too late for an actor is not let in any more;
* `clean_shutdown`   what that means, in every run;
* `deletions_end`    where nobody can take a step but callers of `send()` and deleters, every
                 deletion has come to its end.
-/

set_option linter.unusedSectionVars false

namespace ActorZeta

/-- the process goes on, or somebody deletes an actor -/
inductive LifeAct (J β T X : Type) where
  | process (act : RuntimeAct J β T X)
  | delete (a : J)

/-- not a call of `send()` or `stop()`, and not a deletion -/
def LifeAct.internal {J β T X : Type} : LifeAct J β T X → Bool
  | .process act => act.internal
  | .delete _ => false

namespace Runtime
variable {J β T X : Type} [DecidableEq J] {rt rt' : Runtime J β T X} {s t : Sched J} {a : J}
  {n i w : Nat}

/-- an actor must outlive `stop()` -/
def lifeStep (rt : Runtime J β T X) : LifeAct J β T X → Option (Runtime J β T X)
  | .process act => rt.step act
  | .delete a => if rt.sched.main = .stopped then
      (Actor.step (rt.actors a) (.spawn (.delete .load))).map (rt.setActor a) else none

/-- few enough senders at once -/
def fewCallers (rt : Runtime J β T X) : LifeAct J β T X → Bool
  | .process (.send a _ _) => (rt.actors a).pool.countP Thread.calling + 1 < maxSenders
  | _ => true

/-! ## the workers -/

/-- the number of workers that `stop()` has joined -/
def joined (s : Sched J) : Nat :=
  match s.main with
  | .joining i => i
  | .stopped => s.workers.length
  | _ => 0

/-- and they have left -/
def Joined (s : Sched J) : Prop := ∀ w < joined s, s.workers[w]? = some .left

theorem Joined.same (h : Joined s) (hw : t.workers = s.workers) (hm : t.main = s.main) :
    Joined t := by
  intro v hv
  unfold joined at hv
  rw [hm, hw] at hv
  rw [hw]
  exact h v hv

theorem Joined.none (h : joined s = 0) : Joined s := fun w hw => by
  rw [h] at hw
  exact absurd hw (Nat.not_lt_zero w)

/-- a worker goes on, and it had not left -/
theorem work_place {k : Worker J} {res : ResumeResult} (h : s.runWorker w res k = some t) :
    k ≠ .left ∧ (∃ k', t.workers = s.workers.set w k') ∧ t.main = s.main := by
  cases k with
  | unlaunched | left => cases h
  | dequeue =>
    simp only [Sched.runWorker] at h
    split at h
    · cases h
    · cases h
      exact ⟨(fun he => by cases he), ⟨_, rfl⟩, rfl⟩
  | holding n =>
    simp only [Sched.runWorker] at h
    split at h
    · split at h
      · cases h
      · cases h
        exact ⟨(fun he => by cases he), ⟨_, rfl⟩, rfl⟩
    · cases h
      exact ⟨(fun he => by cases he), ⟨_, rfl⟩, rfl⟩
  | resumed n r => cases r <;> cases h <;> exact ⟨(fun he => by cases he), ⟨_, rfl⟩, rfl⟩

theorem Joined.main (h : Joined s) (hI : Sched.Inv s) (hs : s.step .main = some t) :
    Joined t := by
  change s.runMain s.main = some t at hs
  cases hm : s.main with
  | started | stopped => rw [hm] at hs; cases hs
  | starting i =>
    rw [hm] at hs
    dsimp only [Sched.runMain] at hs
    split at hs <;> cases hs <;> exact .none rfl
  | stopping alive =>
    rw [hm] at hs
    cases alive <;> cases hs <;> exact .none rfl
  | enqueueing alive n => rw [hm] at hs; cases hs; exact .none rfl
  | waiting alive =>
    rw [hm] at hs
    dsimp only [Sched.runMain] at hs
    split at hs
    · cases hs; exact .none rfl
    · cases hs
  | joining i =>
    have hold : ∀ v < i, s.workers[v]? = some .left := fun v hv => h v (by
      unfold joined
      rw [hm]
      exact hv)
    rw [hm] at hs
    dsimp only [Sched.runMain] at hs
    split at hs
    · split at hs
      · rename_i hk
        cases hs
        intro v hv
        rcases Nat.lt_succ_iff_lt_or_eq.mp hv with hv | rfl
        · exact hold v hv
        · exact hk
      · cases hs
    · rename_i hi
      cases hs
      intro v hv
      have hlen := hI.length
      have hv : v < s.workers.length := hv
      exact hold v (by omega)

theorem Joined.step (h : Joined s) (hI : Sched.Inv s) {act : SchedAct J}
    (hs : s.step act = some t) : Joined t := by
  cases act with
  | make a => cases hs; exact h.same rfl rfl
  | push i =>
    obtain ⟨n, -, rfl⟩ := Option.map_eq_some_iff.mp hs
    exact h.same rfl rfl
  | work w res =>
    obtain ⟨k, hk, hs⟩ := Option.bind_eq_some_iff.mp hs
    obtain ⟨hleft, ⟨k', hw⟩, hm⟩ := work_place hs
    intro v hv
    have hv : v < joined s := by
      unfold joined at hv ⊢
      rw [hm, hw, List.length_set] at hv
      exact hv
    have hvw : w ≠ v := by
      rintro rfl
      rw [h w hv] at hk
      exact hleft (Option.some.inj hk).symm
    rw [hw, List.getElem?_set_ne hvw]
    exact h v hv
  | stop order =>
    unfold Sched.step at hs
    dsimp only at hs
    split at hs
    · split at hs
      · cases hs
        exact .none rfl
      · cases hs
    · cases hs
  | main => exact h.main hI hs

theorem joined_of_reach (h : TS.Reach Sched.step (Sched.init n) s) : Joined s := by
  refine (TS.Reach.inv (I:=fun s => Sched.Inv s ∧ Joined s) (fun s a t hI hs => ?_) ?_ h).2
  · exact ⟨Sched.inv_step hI.1 hs, hI.2.step hI.1 hs⟩
  · exact ⟨Sched.inv_init n, .none rfl⟩

/-- after `stop()` every worker has left -/
theorem stopped_left (h : Joined s) (hm : s.main = .stopped) {k : Worker J}
    (hk : s.workers[w]? = some k) : k = .left := by
  have hw := h w (by
    unfold joined
    rw [hm]
    exact (List.getElem?_eq_some_iff.mp hk).1)
  rw [hk] at hw
  exact Option.some.inj hw

/-! ## what a step of the process is to an actor -/

/-- what the process has an actor do: the call of a `send()` or of `resume()`, or a step of one of
its threads -/
inductive Part (rt : Runtime J β T X) (act : RuntimeAct J β T X) (a : J) : Actor.Act β T X → Prop
  | send (msg : Message β) (slot : State T X) : act = .send a msg slot →
      Part rt act a (.spawn (.send ⟨msg, slot, .regLoad⟩))
  | resume {w : Nat} {k : Worker J} (r : Runner β) : rt.sched.workers[w]? = some k → k ≠ .left →
      Part rt act a (.spawn (.run r))
  | run (i : Nat) (g : Choice) : Part rt act a (.run i g)

theorem Part.update {act : RuntimeAct J β T X} {b : J} {c : Actor.Conf β T X}
    {x : Actor.Act β T X} (hs : Actor.step (rt.actors b) x = some c) (hx : Part rt act b x) (a : J) :
    Function.update rt.actors b c a = rt.actors a ∨ ∃ y, Part rt act a y ∧
      Actor.step (rt.actors a) y = some (Function.update rt.actors b c a) := by
  by_cases hab : a = b
  · subst hab
    rw [Function.update_self]
    exact Or.inr ⟨x, hx, hs⟩
  · rw [Function.update_of_ne hab]
    exact Or.inl rfl

theorem step_actor {act : RuntimeAct J β T X} (h : rt.step act = some rt') (a : J) :
    rt'.actors a = rt.actors a ∨ ∃ b, Part rt act a b ∧
      Actor.step (rt.actors a) b = some (rt'.actors a) := by
  have hsched : ∀ {x : SchedAct J}, rt.onSched x = some rt' → rt'.actors a = rt.actors a := by
    intro x hs
    obtain ⟨s, -, rfl⟩ := Option.map_eq_some_iff.mp hs
    rfl
  unfold Runtime.step at h
  cases act with
  | send b msg slot =>
    obtain ⟨c, hc, rfl⟩ := Option.map_eq_some_iff.mp h
    exact Part.update hc (.send msg slot rfl) a
  | thread b i g =>
    obtain ⟨u, -, h⟩ := Option.bind_eq_some_iff.mp h
    obtain ⟨-, h⟩ := Option.ite_none_left_eq_some.mp h
    obtain ⟨c, hc, rfl⟩ := Option.map_eq_some_iff.mp h
    exact Part.update hc (.run i g) a
  | enqueue b i g =>
    dsimp only at h
    split at h
    · obtain ⟨c, hc, h⟩ := Option.bind_eq_some_iff.mp h
      obtain ⟨s, -, rfl⟩ := Option.map_eq_some_iff.mp h
      exact Part.update hc (.run i g) a
    · cases h
  | resume w =>
    dsimp only at h
    split at h
    · rename_i id b hk _
      obtain ⟨c, hc, rfl⟩ := Option.map_eq_some_iff.mp h
      exact Part.update hc (.resume _ hk nofun) a
    · cases h
  | finish w g =>
    dsimp only at h
    split at h
    · rename_i b i _ _
      obtain ⟨c, hc, h⟩ := Option.bind_eq_some_iff.mp h
      obtain ⟨s, -, rfl⟩ := Option.map_eq_some_iff.mp h
      exact Part.update hc (.run _ g) a
    · cases h
  | dequeue w | back w | helper w =>
    dsimp only at h
    repeat' split at h
    all_goals first | exact Or.inl (hsched h) | cases h
  | stop order | main => exact Or.inl (hsched h)

/-- and what a step of the process or a deletion is to it -/
theorem life_actor {act : LifeAct J β T X} (h : rt.lifeStep act = some rt') (a : J) :
    rt'.actors a = rt.actors a ∨
      ∃ b, Actor.step (rt.actors a) b = some (rt'.actors a) := by
  cases act with
  | process act =>
    change rt.step act = some rt' at h
    rcases step_actor h a with ha | ⟨b, -, hb⟩
    · exact Or.inl ha
    · exact Or.inr ⟨b, hb⟩
  | delete b =>
    obtain ⟨-, h⟩ := Option.ite_none_right_eq_some.mp h
    obtain ⟨c, hc, rfl⟩ := Option.map_eq_some_iff.mp h
    by_cases hab : a = b
    · subst hab
      have hself : (rt.setActor a c).actors a = c := Function.update_self ..
      exact Or.inr ⟨_, hself.symm ▸ hc⟩
    · exact Or.inl (Function.update_of_ne hab ..)

/-- who comes too late for an actor stays so -/
theorem late_run {a : J} {i : Nat} {msg : Message β} {bs : List (LifeAct J β T X)}
    (h : Actor.LateAt i msg (rt.actors a))
    (hr : TS.run (TS.restrict lifeStep fewCallers) rt bs = some rt') :
    Actor.LateAt i msg (rt'.actors a) := by
  refine TS.run_inv (I:=fun t : Runtime J β T X => Actor.LateAt i msg (t.actors a)) ?_ h hr
  intro t act t' hI hs
  rcases life_actor (TS.restrict_some.mp hs).2 a with ha | ⟨b, hb⟩
  · rw [ha]
    exact hI
  · exact hI.step hb

/-! ## runs -/

/-- nobody drives an actor any more -/
structure Stopped (rt : Runtime J β T X) : Prop where
  left : ∀ {w : Nat} {k : Worker J}, rt.sched.workers[w]? = some k → k = .left
  undriven : ∀ a r, Thread.run r ∈ (rt.actors a).pool → ended r = true

/-- the invariant of the process until its end -/
structure Whole (n : Nat) (rt : Runtime J β T X) : Prop where
  actor : ∀ a, TS.Reach (TS.restrict Actor.step Actor.inTime) Actor.init (rt.actors a)
  before : rt.sched.main ≠ .stopped → Inv n rt ∧ Joined rt.sched
  after : rt.sched.main = .stopped → Stopped rt

theorem Whole.init (n max : Nat) : Whole n (Runtime.init n max : Runtime J β T X) where
  actor _ := .refl _
  before _ := ⟨.init n max, .none rfl⟩
  after h := nomatch h

/-- when the last worker has been joined, no driver is left -/
theorem Inv.stopped (h : Inv n rt) (hJ : Joined rt.sched) (hm : rt.sched.main = .stopped) :
    Stopped rt := by
  refine ⟨fun hk => stopped_left hJ hm hk, fun a r hr => ?_⟩
  refine Bool.eq_true_of_not_eq_false fun ho => ?_
  obtain ⟨i, hi⟩ := List.mem_iff_getElem?.mp hr
  obtain ⟨w, -, hw⟩ := h.glued.served hi ho
  obtain ⟨k, hk, ha⟩ := Option.bind_eq_some_iff.mp hw
  rw [stopped_left hJ hm hk] at ha
  cases ha

/-- no driver is before its acquiring compare-exchange -/
theorem Stopped.early (h : Stopped rt) (a : J) :
    ((rt.actors a).pool.all fun t => !t.role.isEarly) = true := by
  refine List.all_eq_true.mpr fun t ht => ?_
  cases t with
  | send s =>
    obtain ⟨msg, slot, pc⟩ := s
    cases pc with
    | ret needsSched r => cases needsSched <;> rfl
    | _ => rfl
  | run r =>
    have hr : r.pc.role r.node = .apart := of_decide_eq_true (h.undriven a r ht)
    show (!(r.pc.role r.node).isEarly) = true
    rw [hr]
    rfl
  | delete x => cases x <;> rfl

/-- the steps of an actor are in time before `stop()` returns -/
theorem Inv.inTime {act : RuntimeAct J β T X} {b : Actor.Act β T X} (h : Inv n rt)
    (h' : Inv n rt') (hfew : fewCallers rt (.process act) = true) (hp : Part rt act a b)
    (hs : Actor.step (rt.actors a) b = some (rt'.actors a)) :
    Actor.inTime (rt.actors a) b = true := by
  unfold Actor.inTime
  rw [hs]
  dsimp only
  rw [h'.not_drained a, Bool.not_false, Bool.or_true, Bool.true_or, Bool.and_true]
  cases hp with
  | send msg slot ha =>
    subst ha
    exact hfew
  | resume r hk hleft =>
    show (!(rt.actors a).sh.word.isDestroying) = true
    rw [(h.intact a).word]
    rfl
  | run i g => rfl

/-- and afterwards those that are not late -/
theorem Stopped.inTime {b : Actor.Act β T X} (h : Stopped rt)
    (hok : Actor.noLateResume (rt.actors a) b = true) : Actor.inTime (rt.actors a) b = true := by
  unfold Actor.inTime
  rw [hok, Bool.true_and]
  split
  · rw [h.early a, Bool.or_true]
  · rfl

theorem Stopped.part {act : RuntimeAct J β T X} {b : Actor.Act β T X} (h : Stopped rt)
    (hfew : fewCallers rt (.process act) = true) (hp : Part rt act a b) :
    Actor.inTime (rt.actors a) b = true := by
  refine h.inTime ?_
  cases hp with
  | send msg slot ha =>
    subst ha
    exact hfew
  | resume r hk hleft => exact absurd (h.left hk) hleft
  | run i g => rfl

/-- the scheduler is at rest after `stop()` -/
theorem Stopped.sched {act : RuntimeAct J β T X} (h : Stopped rt) (hm : rt.sched.main = .stopped)
    (hs : rt.step act = some rt') :
    rt'.sched.workers = rt.sched.workers ∧ rt'.sched.main = .stopped := by
  unfold Runtime.step at hs
  cases act with
  | send b msg slot =>
    obtain ⟨c, -, rfl⟩ := Option.map_eq_some_iff.mp hs
    exact ⟨rfl, hm⟩
  | thread b i g =>
    obtain ⟨u, -, hs⟩ := Option.bind_eq_some_iff.mp hs
    obtain ⟨-, hs⟩ := Option.ite_none_left_eq_some.mp hs
    obtain ⟨c, -, rfl⟩ := Option.map_eq_some_iff.mp hs
    exact ⟨rfl, hm⟩
  | enqueue b i g =>
    dsimp only at hs
    split at hs
    · obtain ⟨c, -, hs⟩ := Option.bind_eq_some_iff.mp hs
      obtain ⟨s, hq, rfl⟩ := Option.map_eq_some_iff.mp hs
      obtain ⟨u, hu, hp⟩ := Option.bind_eq_some_iff.mp hq
      cases hu
      obtain ⟨n, -, rfl⟩ := Option.map_eq_some_iff.mp hp
      exact ⟨rfl, hm⟩
    · cases hs
  | stop order =>
    obtain ⟨s, hq, -⟩ := Option.map_eq_some_iff.mp hs
    unfold Sched.step at hq
    rw [hm] at hq
    cases hq
  | main =>
    obtain ⟨s, hq, -⟩ := Option.map_eq_some_iff.mp hs
    change rt.sched.runMain rt.sched.main = some s at hq
    rw [hm] at hq
    cases hq
  | dequeue w =>
    dsimp only at hs
    split at hs
    · rename_i hk
      cases h.left hk
    · cases hs
  | resume w | back w | finish w g =>
    dsimp only at hs
    split at hs
    · rename_i hk _
      cases h.left hk
    · cases hs
  | helper w =>
    dsimp only at hs
    split at hs
    · rename_i hk
      cases h.left hk
    · rename_i hk
      cases h.left hk
    · cases hs

/-- a step of an actor brings no new driver -/
theorem undriven_step {c d : Actor.Conf β T X} {b : Actor.Act β T X}
    (h : ∀ r, Thread.run r ∈ c.pool → ended r = true) (hb : ∀ r, b ≠ .spawn (.run r))
    (hs : Actor.step c b = some d) (r : Runner β) (hr : Thread.run r ∈ d.pool) : ended r = true := by
  cases b with
  | spawn u =>
    obtain ⟨-, hp⟩ := TS.Conf.step_spawn hs
    rw [hp] at hr
    rcases List.mem_append.mp hr with hr | hr
    · exact h r hr
    · exact absurd (congrArg _ (List.mem_singleton.mp hr).symm) (hb r)
  | run i g =>
    obtain ⟨u, u', hu, he, hp⟩ := TS.Conf.step_set hs
    rw [hp] at hr
    rcases List.mem_or_eq_of_mem_set hr with hr | rfl
    · exact h r hr
    · rcases Actor.exec_cases he with ⟨_, _, -, hx, -⟩ | ⟨max, node, pc, pc', rfl, hx, hstep⟩ |
        ⟨_, _, -, hx, -⟩
      · cases hx
      · cases hx
        have hgone : pc ≠ .gone := by
          rintro rfl
          cases hstep
        obtain ⟨res, m, hpc⟩ := ended_cases (h _ (List.mem_of_getElem? hu)) hgone
        dsimp only at hpc
        subst hpc
        obtain ⟨-, rfl⟩ := Prod.mk.inj (Option.some.inj hstep)
        rfl
      · cases hx

theorem Stopped.step (h : Stopped rt) {act : RuntimeAct J β T X} (hm : rt.sched.main = .stopped)
    (hs : rt.step act = some rt') : Stopped rt' := by
  refine ⟨fun hk => ?_, fun a => ?_⟩
  · rw [(h.sched hm hs).1] at hk
    exact h.left hk
  · rcases step_actor hs a with ha | ⟨b, hp, hb⟩
    · rw [ha]
      exact h.undriven a
    · refine undriven_step (h.undriven a) (fun r hr => ?_) hb
      subst hr
      cases hp with
      | resume r hk hleft => exact hleft (h.left hk)

theorem Whole.step {act : LifeAct J β T X} (h : Whole n rt)
    (hs : TS.restrict lifeStep fewCallers rt act = some rt') : Whole n rt' := by
  obtain ⟨hfew, hs⟩ := TS.restrict_some.mp hs
  cases act with
  | process act =>
    change rt.step act = some rt' at hs
    by_cases hm : rt.sched.main = .stopped
    · have hS := h.after hm
      refine ⟨fun a => ?_, fun hm' => absurd (hS.sched hm hs).2 hm', fun _ => hS.step hm hs⟩
      rcases step_actor hs a with ha | ⟨b, hp, hb⟩
      · rw [ha]
        exact h.actor a
      · exact (h.actor a).tail (TS.restrict_some.mpr ⟨hS.part hfew hp, hb⟩)
    · obtain ⟨hI, hJ⟩ := h.before hm
      have hI' := hI.step hs
      have hJ' : Joined rt'.sched := joined_of_reach hI'.sched
      refine ⟨fun a => ?_, fun _ => ⟨hI', hJ'⟩, fun hm' => hI'.stopped hJ' hm'⟩
      rcases step_actor hs a with ha | ⟨b, hp, hb⟩
      · rw [ha]
        exact h.actor a
      · exact (h.actor a).tail (TS.restrict_some.mpr ⟨hI.inTime hI' hfew hp hb, hb⟩)
  | delete b =>
    obtain ⟨hm, hs⟩ := Option.ite_none_right_eq_some.mp hs
    obtain ⟨c, hc, rfl⟩ := Option.map_eq_some_iff.mp hs
    have hS := h.after hm
    have hother : ∀ a, a ≠ b → (rt.setActor b c).actors a = rt.actors a := fun a hab =>
      Function.update_of_ne hab ..
    have hself : (rt.setActor b c).actors b = c := Function.update_self ..
    refine ⟨fun a => ?_, fun hm' => absurd hm hm', fun _ => ⟨hS.left, fun a => ?_⟩⟩
    · by_cases hab : a = b
      · subst hab
        rw [hself]
        exact (h.actor a).tail (TS.restrict_some.mpr ⟨hS.inTime rfl, hc⟩)
      · rw [hother a hab]
        exact h.actor a
    · by_cases hab : a = b
      · subst hab
        rw [hself]
        exact undriven_step (hS.undriven a) (fun _ hr => by cases hr) hc
      · rw [hother a hab]
        exact hS.undriven a

theorem whole_of_run {max : Nat} {as : List (LifeAct J β T X)}
    (h : TS.run (TS.restrict lifeStep fewCallers) (Runtime.init n max) as = some rt) : Whole n rt :=
  TS.run_inv (fun _ _ _ hI hs => hI.step hs) (Whole.init n max) h

/-- what the process may rely on, from the start of the scheduler to the deletion of the actors -/
structure CleanShutdown (rt : Runtime J β T X) : Prop where
  /-- after `stop()` every worker has left, and no driver is inside `resume()` or owes a job node -/
  stopped : rt.sched.main = .stopped →
    (∀ (w : Nat) (k : Worker J), rt.sched.workers[w]? = some k → k = .left) ∧
      ∀ a r, Thread.run r ∈ (rt.actors a).pool → ended r = true
  /-- a destructor past its drain has the actor for itself -/
  alone : ∀ a, Actor.drained (rt.actors a) = true → rt.sched.main = .stopped ∧
    (rt.actors a).sh.word.isRunning = false ∧ (rt.actors a).sh.word.senderCount = 0 ∧
    ∀ t ∈ (rt.actors a).pool, t.role.inside = false
  /-- nobody touches a dead mailbox -/
  untouched : ∀ a, (rt.actors a).sh.touchedDead = false
  /-- what the next step of a thread asserts is true -/
  asserted : ∀ a, ∀ t ∈ (rt.actors a).pool, t.asserted (rt.actors a).sh = true
  /-- a sender that has not registered when `destroying` is published, whoever calls `send()` after
  that among them, is not let in any more: in every continuation it stands at the door or was told
  `queue_closed`, owes no job node, and its future is canceled -/
  late : ∀ a, (rt.actors a).sh.word.isDestroying = true →
    ∀ (i : Nat) (s : Sender β T X), (rt.actors a).pool[i]? = some (.send s) →
    s.pc.unregistered = true → ∀ bs rt', TS.run (TS.restrict lifeStep fewCallers) rt bs = some rt' →
      ∃ s', (rt'.actors a).pool[i]? = some (.send s') ∧ s'.msg = s.msg ∧ s'.Late
  /-- and whoever was told so owes nothing, and its future is canceled -/
  refused : ∀ a s, Thread.send s ∈ (rt.actors a).pool → ∀ needsSched,
    s.pc = .ret needsSched .queueClosed → needsSched = false ∧ s.Refused
  /-- an actor that has been deleted has destroyed every message once -/
  destroyed : ∀ a, Thread.delete .finished ∈ (rt.actors a).pool →
    ((rt.actors a).pool.filterMap Thread.given).Perm (rt.actors a).sh.destroyed

/-- **Stopped, then deleted.**  In every run of any number of actors, senders and workers in which
actors are deleted after `stop()` only, and few enough calls are made at a time, no driver comes
too late for a destructor, and whatever senders still do, the actors die in order. -/
theorem clean_shutdown (n max : Nat) (as : List (LifeAct J β T X)) (rt : Runtime J β T X)
    (h : TS.run (TS.restrict lifeStep fewCallers) (Runtime.init n max) as = some rt) :
    CleanShutdown rt := by
  have hW := whole_of_run h
  have hrec : ∀ a, Actor.Teardown (rt.actors a) ∧ Actor.Recalled (rt.actors a) := fun a => by
    obtain ⟨bs, hb⟩ := hW.actor a
    exact Actor.recalled_of_run hb
  constructor
  case stopped => exact fun hm => ⟨fun w k hk => (hW.after hm).left hk, (hW.after hm).undriven⟩
  case alone =>
    intro a hd
    have hin := (hrec a).1.drain.drained (Actor.drained_iff.mp hd)
    refine ⟨Decidable.byContradiction fun hm => ?_, ?_⟩
    · rw [(hW.before hm).1.not_drained a] at hd
      cases hd
    · obtain ⟨hr, hc⟩ := (hrec a).1.empty hd
      exact ⟨hr, hc, fun t ht => hin _ (List.mem_map_of_mem ht)⟩
  case untouched => exact fun a => (hrec a).1.untouched
  case asserted =>
    intro a t ht
    obtain ⟨bs, hb⟩ := hW.actor a
    exact (hrec a).2.asserted (hrec a).1 (Actor.open_of_run (TS.run_of_restrict hb)) ht
  case late =>
    intro a hd i s hi hpc bs rt' hr
    exact (late_run ⟨hd, s, hi, rfl, Or.inl hpc⟩ hr).2
  case refused =>
    intro a s hs needsSched hpc
    have htold := (hrec a).1.told s hs
    unfold Sender.Told at htold
    rw [hpc] at htold
    exact htold
  case destroyed =>
    intro a hf
    obtain ⟨bs, hb⟩ := hW.actor a
    exact (Actor.accounted_of_run (TS.run_of_restrict hb)).finished hf

/-- a worker is stopped, and then comes a message that nobody handles -/
def thenStopped : List (RuntimeAct Unit Unit Nat Unit) :=
  let g : Choice := ⟨false, false, false, false⟩
  [.stop [0], .main, .main, .dequeue 0, .helper 0, .helper 0] ++ List.replicate 4 .main ++
    [.send () ⟨17, 1 <<< 60, ()⟩ .fresh] ++ List.replicate 6 (.thread () 2 g) ++ [.enqueue () 2 g]

/-- the destructor of an actor publishes `destroying`, and another message comes too late -/
def thenDeleted : List (RuntimeAct Unit Unit Nat Unit) :=
  let g : Choice := ⟨false, false, false, false⟩
  List.replicate 2 (.thread () 3 g) ++ [.send () ⟨18, 1 <<< 60, ()⟩ .fresh] ++
    List.replicate 3 (.thread () 4 g) ++ List.replicate 6 (.thread () 3 g)

def wholeLife : List (LifeAct Unit Unit Nat Unit) :=
  (oneTurn ++ thenStopped).map .process ++ [.delete ()] ++ thenDeleted.map .process

theorem wholeLife_runs : (TS.run (TS.restrict lifeStep fewCallers) (Runtime.init 1 100)
    wholeLife).isSome = true := by decide +kernel

def afterWholeLife : Runtime Unit Unit Nat Unit :=
  (TS.run (TS.restrict lifeStep fewCallers) (Runtime.init 1 100) wholeLife).get wholeLife_runs

theorem clean_shutdown_three_messages :
    (afterWholeLife.actors ()).sh.destroyed.map Message.addr = [16, 18, 17] ∧
      afterWholeLife.sched.main = .stopped ∧ CleanShutdown afterWholeLife :=
  ⟨by decide +kernel, by decide +kernel,
    clean_shutdown 1 100 wholeLife afterWholeLife (Option.some_get wholeLife_runs).symm⟩

/-! ## the end -/

/-- what an actor has come to -/
structure Ended (c : Actor.Conf β T X) : Prop where
  /-- every `send()` has returned -/
  returned : ∀ s, Thread.send s ∈ c.pool → s.pc = .gone
  /-- and the destructor, if there was one, with every message destroyed once -/
  deleted : ∀ x, Thread.delete x ∈ c.pool →
    x = .finished ∧ (c.pool.filterMap Thread.given).Perm c.sh.destroyed

/-- **Deletions end.**  In a state of any such run in which nobody can take a step but callers of
`send()` and `stop()` and deleters, no sender and no destructor is at work any more, and a deleted
actor has left nothing behind. -/
theorem deletions_end (n max : Nat) (as : List (LifeAct J β T X)) (rt : Runtime J β T X)
    (h : TS.run (TS.restrict lifeStep fewCallers) (Runtime.init n max) as = some rt)
    (ha : ∀ a, (rt.actors a).sh.aborted = false)
    (hrest : ∀ act : LifeAct J β T X, act.internal = true → rt.lifeStep act = none) (a : J) :
    Ended (rt.actors a) := by
  have hW := whole_of_run h
  obtain ⟨bs, hb⟩ := hW.actor a
  obtain ⟨hT, hR⟩ := Actor.recalled_of_run hb
  have hO := Actor.open_of_run (TS.run_of_restrict hb)
  let g : Choice := ⟨false, false, false, false⟩
  -- a thread that could go on would have a step
  have hstuck : ∀ (i : Nat) (u : Thread β T X), (rt.actors a).pool[i]? = some u →
      (∀ r, u ≠ .run r) → u.through = false → u.returning = false → False := by
    intro i u hu hrun hthrough hret
    obtain ⟨r, hr⟩ := hR.exec hT hO (ha a) (List.mem_of_getElem? hu) hrun hthrough g
    have hno := hrest (.process (.thread a i g)) rfl
    change rt.step (.thread a i g) = none at hno
    simp only [Runtime.step, hu, Option.bind_some, hret, Actor.exec_step hu hr] at hno
    cases hno
  refine ⟨fun s hs => ?_, fun x hx => ?_⟩
  · obtain ⟨i, hi⟩ := List.mem_iff_getElem?.mp hs
    obtain ⟨msg, slot, pc⟩ := s
    cases pc with
    | gone => rfl
    | ret needsSched r =>
      cases needsSched with
      | false => exact (hstuck i _ hi (fun _ he => by cases he) rfl rfl).elim
      | true =>
        obtain ⟨q, hq⟩ := hR.exec hT hO (ha a) hs (fun _ he => by cases he) rfl g
        obtain ⟨t, ht⟩ := enqueue_enabled rt.sched a
        have hno := hrest (.process (.enqueue a i g)) rfl
        change rt.step (.enqueue a i g) = none at hno
        simp only [Runtime.step, hi, Actor.exec_step hi hq, Option.bind_some, ht] at hno
        cases hno
    | _ => exact (hstuck i _ hi (fun _ he => by cases he) rfl rfl).elim
  · obtain ⟨i, hi⟩ := List.mem_iff_getElem?.mp hx
    have hfin : x = .finished := by
      cases x with
      | finished => rfl
      | _ => exact (hstuck i _ hi (fun _ he => by cases he) rfl rfl).elim
    subst hfin
    exact ⟨rfl, (Actor.accounted_of_run (TS.run_of_restrict hb)).finished hx⟩

theorem deletions_end_three_messages :
    (afterWholeLife.actors ()).pool.length = 5 ∧ Ended (afterWholeLife.actors ()) := by
  have hw : afterWholeLife.sched.workers = [.left] := by decide +kernel
  have hm : afterWholeLife.sched.main = .stopped := by decide +kernel
  have ht : (afterWholeLife.actors ()).pool.all Thread.through = true := by decide +kernel
  have ha : (afterWholeLife.actors ()).sh.aborted = false := by decide +kernel
  refine ⟨by decide +kernel, deletions_end 1 100 wholeLife afterWholeLife
    (Option.some_get wholeLife_runs).symm (fun _ => ha) (fun act hact => ?_) ()⟩
  cases act with
  | process act =>
    refine rests_of (fun w k hk => Or.inr ?_) (by rw [hm]; rfl)
      (fun _ t hmem => List.all_eq_true.mp ht t hmem) act hact
    rw [hw] at hk
    exact List.mem_singleton.mp (List.mem_of_getElem? hk)
  | delete a => cases hact

end Runtime
end ActorZeta
