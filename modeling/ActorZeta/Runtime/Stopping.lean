import ActorZeta.Runtime.Quiescence

/-!
# stop() never hangs

* `Awaited`      where the shutdown node is that `stop()` waits for;
* `awake`        until it has been resumed, a worker is still there to take it;
* `awaited`      it is never anywhere else;
* `stop_goes_on`   until `start()` and `stop()` have returned, somebody can take a step.
-/

set_option linter.unusedSectionVars false

namespace ActorZeta
namespace Runtime
variable {J β T X : Type} [DecidableEq J] {rt rt' : Runtime J β T X} {s : Sched J} {n w : Nat}

/-- fewer shutdown nodes were resumed than there are workers -/
theorem awake (hI : Sched.Inv s) (hlt : s.shutdowns.length < s.numWorkers) :
    ∃ (w : Nat) (k : Worker J), s.workers[w]? = some k ∧ k.leaving = false := by
  refine Classical.byContradiction fun hno => ?_
  have hall : ∀ w < s.numWorkers, w ∈ s.shutdowns.map Prod.fst := fun w hw => by
    rw [← hI.length] at hw
    refine (hI.consumed w).mpr ⟨_, List.getElem?_eq_getElem hw, ?_⟩
    exact Bool.eq_true_of_not_eq_false fun hl => hno ⟨w, _, List.getElem?_eq_getElem hw, hl⟩
  have hsub : List.range s.numWorkers ⊆ s.shutdowns.map Prod.fst := fun w hw =>
    hall w (List.mem_range.mp hw)
  have hle := (List.subperm_of_subset List.nodup_range hsub).length_le
  rw [List.length_range, List.length_map] at hle
  omega

/-- the shutdown node of this round is in the queue, with a worker left to take it, or in the hand
of a worker, or has been resumed, and the thread inside `stop()` goes on -/
def Awaited (s : Sched J) : Prop :=
  (s.completedCount = 0 ∧ (∃ n ∈ s.queue, n.isShutdown = true) ∧
      ∃ (w : Nat) (k : Worker J), s.workers[w]? = some k ∧ k.leaving = false ∧ k ≠ .unlaunched) ∨
    (s.completedCount = 0 ∧
      ∃ (w : Nat) (n : JobPtr J), s.workers[w]? = some (.holding n) ∧ n.isShutdown = true) ∨
    (s.completedCount = 1 ∧ ∃ t, s.step .main = some t)

/-- nobody has resumed it: it is in the queue or in a hand -/
theorem unresumed_node (hI : Sched.Inv s) {alive : List Nat} (hm : s.main = .waiting alive)
    (hc : s.completedCount = 0) : (∃ n ∈ s.queue, n.isShutdown = true) ∨
      ∃ (w : Nat) (n : JobPtr J), s.workers[w]? = some (.holding n) ∧ n.isShutdown = true := by
  have hround := hI.round
  rw [hm] at hround
  obtain ⟨-, hp, -⟩ := hround
  have hpending : 0 < s.pending fun _ => true := by omega
  unfold Sched.pending at hpending
  rw [hm] at hpending
  have hpos : 0 < s.queue.countP (fun n => n.isShutdown && true) ∨
      0 < s.workers.countP (Worker.unresumed fun n => n.isShutdown && true) :=
    Nat.add_pos_iff_pos_or_pos.mp hpending
  rcases hpos with hq | hw
  · obtain ⟨n, hn, hs⟩ := List.countP_pos_iff.mp hq
    exact Or.inl ⟨n, hn, (Bool.and_eq_true_iff.mp hs).1⟩
  · obtain ⟨k, hk, hs⟩ := List.countP_pos_iff.mp hw
    obtain ⟨w, hw⟩ := List.mem_iff_getElem?.mp hk
    cases k with
    | holding n => exact Or.inr ⟨w, n, hw, (Bool.and_eq_true_iff.mp hs).1⟩
    | _ => cases hs

/-- a worker is left for it -/
theorem taker (hI : Sched.Inv s) {alive : List Nat} (hm : s.main = .waiting alive)
    (hc : s.completedCount = 0) :
    ∃ (w : Nat) (k : Worker J), s.workers[w]? = some k ∧ k.leaving = false := by
  have hround := hI.round
  rw [hm] at hround
  obtain ⟨hne, -, hk⟩ := hround
  have hlen := List.length_pos_iff.mpr hne
  exact awake hI (by omega)

/-- **The node that `stop()` waits for** is never lost. -/
theorem awaited (hI : Sched.Inv s) (hL : Launched s) {alive : List Nat}
    (hm : s.main = .waiting alive) : Awaited s := by
  have hround := hI.round
  rw [hm] at hround
  obtain ⟨-, hp, -⟩ := hround
  rcases Nat.eq_zero_or_pos s.completedCount with hc | hc
  · rcases unresumed_node hI hm hc with hq | hw
    · obtain ⟨w, k, hw, hl⟩ := taker hI hm hc
      refine Or.inl ⟨hc, hq, w, k, hw, hl, ?_⟩
      rintro rfl
      obtain ⟨i, hi, -⟩ := hL _ hw
      rw [hm] at hi
      cases hi
    · exact Or.inr (Or.inl ⟨hc, hw⟩)
  · refine Or.inr (Or.inr ⟨by omega, ?_⟩)
    show ∃ t, s.runMain s.main = some t
    rw [hm]
    exact ⟨_, if_pos hc⟩

/-- in a process that rests it is in the queue -/
theorem Rests.shutdown_queued (h : Rests n rt) (hmax : 0 < rt.maxThroughput) {alive : List Nat}
    (hm : rt.sched.main = .waiting alive) (hc : rt.sched.completedCount = 0) :
    rt.sched.queue ≠ [] := by
  rcases unresumed_node h.inv.schedInv hm hc with ⟨m, hq, -⟩ | ⟨w, m, hw, -⟩
  · exact List.ne_nil_of_mem hq
  · rcases h.idle hmax hw with hk | hk | hk <;> cases hk

/-- `start()` and `stop()` have somebody to wait for -/
theorem Rests.main (h : Rests n rt) (hmax : 0 < rt.maxThroughput) :
    rt.sched.main = .started ∨ rt.sched.main = .stopped := by
  have hI := h.inv.schedInv
  have hmain : ∀ {m : Main J}, rt.sched.main = m → (∃ s, rt.sched.runMain m = some s) → False := by
    rintro m hm ⟨s, hs⟩
    refine h.no_step .main rfl ⟨{ rt with sched := s }, ?_⟩
    show (rt.sched.runMain rt.sched.main).map _ = _
    rw [hm, hs]
    rfl
  have hlaunched : ∀ {w : Nat}, (∀ i, rt.sched.main ≠ .starting i) →
      rt.sched.workers[w]? ≠ some .unlaunched := fun hm hw => by
    obtain ⟨i, hi, -⟩ := launched_of_reach h.inv.sched _ hw
    exact hm i hi
  cases hm : rt.sched.main with
  | started => exact Or.inl rfl
  | stopped => exact Or.inr rfl
  | starting i =>
    refine (hmain hm ?_).elim
    simp only [Sched.runMain]
    split <;> exact ⟨_, rfl⟩
  | stopping alive => cases alive <;> exact (hmain hm ⟨_, rfl⟩).elim
  | enqueueing alive m => exact (hmain hm ⟨_, rfl⟩).elim
  | waiting alive =>
    exfalso
    by_cases hc : 0 < rt.sched.completedCount
    · refine hmain hm ?_
      simp only [Sched.runMain, if_pos hc]
      exact ⟨_, rfl⟩
    · -- a worker that is left takes the node from the queue
      have hc0 : rt.sched.completedCount = 0 := Nat.eq_zero_of_not_pos hc
      obtain ⟨w, k, hw, hl⟩ := taker hI hm hc0
      rcases h.idle hmax hw with rfl | rfl | rfl
      · refine h.no_step (.dequeue w) rfl ?_
        cases hq : rt.sched.queue with
        | nil => exact absurd hq (h.shutdown_queued hmax hm hc0)
        | cons x q =>
          simp only [Runtime.step, hw, Runtime.onSched]
          rw [step_work hw]
          simp only [Sched.runWorker, hq]
          exact ⟨_, rfl⟩
      · cases hl
      · exact hlaunched (fun i => by rw [hm]; intro he; cases he) hw
  | joining i =>
    refine (hmain hm ?_).elim
    simp only [Sched.runMain]
    split
    · rename_i hi
      rw [← hI.length] at hi
      have hw := List.getElem?_eq_getElem hi
      have hl := hI.leaving (by rw [hm]; rfl) hw
      rcases h.idle hmax hw with hk | hk | hk
      · rw [hk] at hl
        cases hl
      · rw [hw, hk]
        exact ⟨_, rfl⟩
      · rw [hk] at hl
        cases hl
    · exact ⟨_, rfl⟩

/-- **stop() never hangs.**  In every reachable state of any number of actors, senders and workers
in which `start()` or `stop()` has been called and has not returned, somebody who is at work can
take a step; and the shutdown node that `stop()` waits for is in the queue or in a hand until it
has been resumed. -/
theorem stop_goes_on (n max : Nat) (hmax : 0 < max) (as : List (RuntimeAct J β T X))
    (rt : Runtime J β T X) (h : TS.run Runtime.step (Runtime.init n max) as = some rt)
    (ha : ∀ a, (rt.actors a).sh.aborted = false)
    (hm : rt.sched.main ≠ .started ∧ rt.sched.main ≠ .stopped) :
    (∃ act : RuntimeAct J β T X, act.internal = true ∧ ∃ rt', rt.step act = some rt') ∧
      ∀ alive, rt.sched.main = .waiting alive → Awaited rt.sched := by
  have hinv := inv_of_run h
  have hnode : ∀ alive, rt.sched.main = .waiting alive → Awaited rt.sched := fun alive hw =>
    awaited hinv.schedInv (launched_of_reach hinv.sched) hw
  refine ⟨Classical.byContradiction fun hno => ?_, hnode⟩
  have hR : Rests n rt := ⟨hinv, ha, fun act hact =>
    Option.eq_none_iff_forall_ne_some.mpr fun rt' hs => hno ⟨act, hact, rt', hs⟩⟩
  have hmax' : 0 < rt.maxThroughput := by
    rw [TS.run_inv (I:=fun t : Runtime J β T X => t.maxThroughput = max)
      (fun _ _ _ he hs => (step_maxThroughput hs).trans he) rfl h]
    exact hmax
  rcases hR.main hmax' with hs | hs
  · exact hm.1 hs
  · exact hm.2 hs

/-- two workers, and the first shutdown node is in the queue -/
def stopCalled : List (RuntimeAct Unit Unit Nat Unit) :=
  [.main, .main, .main, .stop [0, 1], .main, .main]

theorem stop_goes_on_waiting : ∃ rt, TS.run Runtime.step (Runtime.init 2 100) stopCalled = some rt ∧
    rt.sched.main = .waiting [0, 1] ∧
      (∃ act : RuntimeAct Unit Unit Nat Unit, act.internal = true ∧ ∃ rt', rt.step act = some rt') ∧
        ∀ alive, rt.sched.main = .waiting alive → Awaited rt.sched :=
  ⟨_, rfl, rfl, stop_goes_on 2 100 (by decide) stopCalled _ rfl (fun _ => rfl) ⟨nofun, nofun⟩⟩

end Runtime
end ActorZeta
