import ActorZeta.Lib.Tally
import ActorZeta.Scheduler.Sharing

/-!
# The work-sharing scheduler: nothing is lost, and `stop()` stops everybody

* `Inv`                 where the nodes are, and how far `stop()` has come for every place it can be
                        at (`Round`);
* `inv_step`, `inv_of_run`   it holds in every state a run reaches;
* `nodes_and_workers`   nodes and their order, and the end of the workers, over whole runs.
-/

namespace ActorZeta

namespace Worker
variable {J : Type}

/-- the worker has a node in hand that satisfies `p` -/
def has (p : JobPtr J → Bool) : Worker J → Bool
  | .holding n | .resumed n _ => p n
  | _ => false

/-- the same before the node is resumed -/
def unresumed (p : JobPtr J → Bool) : Worker J → Bool
  | .holding n => p n
  | _ => false

/-- past the resumption of a shutdown node: returning, or returned -/
def leaving : Worker J → Bool
  | .resumed _ .shutdown | .left => true
  | _ => false

/-- the verdict `shutdown` comes from the shutdown job only -/
def consistent : Worker J → Bool
  | .resumed n res => (res == .shutdown) == n.isShutdown
  | _ => true

end Worker

namespace Main
variable {J : Type}

def has (p : JobPtr J → Bool) : Main J → Bool
  | .enqueueing _ n => p n
  | _ => false

/-- the loop of `stop()` has ended -/
def looped : Main J → Bool
  | .joining _ | .stopped => true
  | _ => false

end Main

namespace Sched
variable {J : Type}

/-- the nodes in hand: of the threads inside `enqueue()`, of `stop()`, of the workers -/
def held (s : Sched J) (p : JobPtr J → Bool) : Nat :=
  s.callers.countP p + (s.main.has p).toNat + s.workers.countP (Worker.has p)

/-- the nodes of `stop()` that nobody has resumed yet -/
def pending (s : Sched J) (p : JobPtr J → Bool) : Nat :=
  let q := fun n => n.isShutdown && p n
  s.queue.countP q + (s.main.has q).toNat + s.workers.countP (Worker.unresumed q)

/-- who resumed which shutdown node -/
def shutdowns (s : Sched J) : List (Nat × JobPtr J) := s.log.resumed.filter fun e => e.2.isShutdown

/-- how far `stop()` is: `p` nodes of it are pending, `k` were resumed, `c` is the counter of the
helper -/
def Round (n : Nat) : Main J → Nat → Nat → Nat → Prop
  | .starting _, p, k, _ | .started, p, k, _ => p = 0 ∧ k = 0
  | .stopping alive, p, k, c => p = 0 ∧ c = 0 ∧ k + alive.length = n
  | .enqueueing alive m, p, k, c =>
    m.isShutdown = true ∧ p = 1 ∧ c = 0 ∧ alive ≠ [] ∧ k + alive.length = n
  | .waiting alive, p, k, c => alive ≠ [] ∧ p + c = 1 ∧ k + alive.length = n + c
  | .joining _, p, k, _ | .stopped, p, k, _ => p = 0 ∧ k = n

theorem pending_le (s : Sched J) (p : JobPtr J → Bool) : s.pending p ≤ s.pending fun _ => true := by
  have himp : ∀ n : JobPtr J, (n.isShutdown && p n) = true → (n.isShutdown && true) = true :=
    fun n hn => (Bool.and_true _).trans (Bool.and_eq_true_iff.mp hn).1
  have hq := List.countP_mono_left (l:=s.queue) fun n _ => himp n
  have hm : (s.main.has fun n => n.isShutdown && p n).toNat
      ≤ (s.main.has fun n => n.isShutdown && true).toNat := by
    cases s.main with
    | enqueueing alive n =>
      show (n.isShutdown && p n).toNat ≤ (n.isShutdown && true).toNat
      cases n.isShutdown <;> cases p n <;> decide
    | _ => exact Nat.le_refl _
  have hw : s.workers.countP (Worker.unresumed fun n => n.isShutdown && p n)
      ≤ s.workers.countP (Worker.unresumed fun n => n.isShutdown && true) :=
    List.countP_mono_left fun k _ hk => by
      cases k <;> first | exact himp _ hk | cases hk
  exact Nat.add_le_add (Nat.add_le_add hq hm) hw

theorem has_le_pending (s : Sched J) {main : Main J} (hm : s.main = main) :
    (main.has JobPtr.isShutdown).toNat ≤ s.pending fun _ => true := by
  subst hm
  show (s.main.has fun n => n.isShutdown).toNat ≤ _
  simp only [pending, Bool.and_true]
  omega

/-- a worker resumes a shutdown node it has in hand: it is the one of this round, and `stop()`
waits for it -/
theorem Round.resumed {n : Nat} {main : Main J} {p k c : Nat} (h : Round n main (p + 1) k c)
    (hp : (main.has JobPtr.isShutdown).toNat ≤ p) : Round n main p (k + 1) (c + 1) := by
  cases main with
  | waiting alive =>
    obtain ⟨hne, hpc, hk⟩ := h
    refine ⟨hne, ?_, ?_⟩ <;> omega
  | enqueueing alive m =>
    obtain ⟨hm, hpk, -⟩ := h
    rw [show Main.has JobPtr.isShutdown (.enqueueing alive m) = true from hm] at hp
    simp only [Bool.toNat_true] at hp
    omega
  | starting i => exact absurd h.1 (Nat.succ_ne_zero p)
  | started => exact absurd h.1 (Nat.succ_ne_zero p)
  | stopping alive => exact absurd h.1 (Nat.succ_ne_zero p)
  | joining i => exact absurd h.1 (Nat.succ_ne_zero p)
  | stopped => exact absurd h.1 (Nat.succ_ne_zero p)

structure Inv (s : Sched J) : Prop where
  length : s.workers.length = s.numWorkers
  fifo : s.log.pushed = s.log.dequeued.map Prod.snd ++ s.log.discarded ++ s.queue
  custody : ∀ p, s.queue.countP p + s.held p + s.log.dropped.countP p + s.log.discarded.countP p
    = s.log.created.countP p
  ids : s.log.created.map JobPtr.id = List.range s.next
  callers : ∀ n ∈ s.callers, n.isShutdown = false
  verdicts : ∀ (w : Nat) (k : Worker J), s.workers[w]? = some k → k.consistent = true
  account : ∀ p, (s.log.created.countP fun n => n.isShutdown && p n)
    = (s.shutdowns.countP fun e => p e.2) + s.pending p
  consumed : ∀ w, w ∈ s.shutdowns.map Prod.fst ↔ ∃ k : Worker J, s.workers[w]? = some k ∧ k.leaving = true
  different : (s.shutdowns.map Prod.fst).Nodup
  round : Round s.numWorkers s.main (s.pending fun _ => true) s.shutdowns.length s.completedCount
  undiscarded : s.main ≠ .stopped → s.log.discarded = []
  unlaunched : ∀ i, s.main = .starting i → ∀ j, i ≤ j → j < s.numWorkers →
    s.workers[j]? = some .unlaunched

variable {s t : Sched J}

theorem inv_init (n : Nat) : Inv (init n : Sched J) := by
  have hpending : ∀ p, (init n : Sched J).pending p = 0 := by
    intro p
    simp [init, pending, Main.has, List.countP_replicate, Worker.unresumed]
  refine ⟨List.length_replicate, rfl, fun p => ?_, rfl, by simp [init], fun w k hk => ?_,
    fun p => ?_, fun w => ?_, List.nodup_nil, ⟨hpending _, rfl⟩, fun _ => rfl, fun i hi j _ hj => ?_⟩
  · simp [init, held, Main.has, List.countP_replicate, Worker.has]
  · obtain ⟨-, rfl⟩ := List.mem_replicate.mp (List.mem_of_getElem? hk)
    rfl
  · rw [hpending]
    rfl
  · refine ⟨fun hw => (by cases hw), ?_⟩
    rintro ⟨k, hk, hl⟩
    obtain ⟨-, rfl⟩ := List.mem_replicate.mp (List.mem_of_getElem? hk)
    cases hl
  · have hjn : j < n := hj
    rw [show (init n : Sched J).workers = List.replicate n .unlaunched from rfl,
      List.getElem?_replicate, if_pos hjn]

/-! ## what a step does to the workers -/

/-- worker `w` moves without beginning to leave -/
theorem leaving_place {w : Nat} {k : Worker J} (hk : s.workers[w]? = some k) (k' : Worker J)
    (hl : k'.leaving = k.leaving) (v : Nat) :
    (∃ x, (s.workers.set w k')[v]? = some x ∧ x.leaving = true) ↔
      ∃ x, s.workers[v]? = some x ∧ x.leaving = true := by
  by_cases hv : v = w
  · subst hv
    have hlt : v < s.workers.length := (List.getElem?_eq_some_iff.mp hk).1
    rw [List.getElem?_set_self hlt, hk]
    simp [hl]
  · rw [List.getElem?_set_ne (fun h => hv h.symm)]

theorem verdicts_place (h : Inv s) {w : Nat} {k' : Worker J} (hc : k'.consistent = true) :
    ∀ (v : Nat) (k : Worker J), (s.workers.set w k')[v]? = some k → k.consistent = true := by
  intro v k hv
  rcases List.mem_or_eq_of_mem_set (List.mem_of_getElem? hv) with hm | rfl
  · obtain ⟨i, hi⟩ := List.getElem?_of_mem hm
    exact h.verdicts i k hi
  · exact hc

theorem unlaunched_place (h : Inv s) {w : Nat} {k k' : Worker J} (hk : s.workers[w]? = some k)
    (hne : k ≠ .unlaunched) : ∀ i, s.main = .starting i → ∀ j, i ≤ j → j < s.numWorkers →
      (s.workers.set w k')[j]? = some .unlaunched := by
  intro i hi j hij hj
  have hu := h.unlaunched i hi j hij hj
  have hjw : w ≠ j := by
    rintro rfl
    exact hne (Option.some.inj (hk.symm.trans hu))
  rw [List.getElem?_set_ne hjw]
  exact hu

/-- **Everybody has left.**  When the loop of `stop()` has ended, each of the shutdown nodes was
resumed by a worker of its own, so every worker is past its own. -/
theorem Inv.leaving (h : Inv s) (hl : s.main.looped = true) {w : Nat} {k : Worker J}
    (hk : s.workers[w]? = some k) : k.leaving = true := by
  have hlen : s.shutdowns.length = s.numWorkers := by
    have hr := h.round
    cases hm : s.main <;> rw [hm] at hl hr <;> first | exact hr.2 | cases hl
  have hsub : s.shutdowns.map Prod.fst ⊆ List.range s.numWorkers := by
    intro v hv
    obtain ⟨k', hk', -⟩ := (h.consumed v).mp hv
    rw [List.mem_range, ← h.length]
    exact (List.getElem?_eq_some_iff.mp hk').1
  have hperm : (s.shutdowns.map Prod.fst).Perm (List.range s.numWorkers) := by
    apply (List.subperm_of_subset h.different hsub).perm_of_length_le
    rw [List.length_map, List.length_range]
    exact Nat.le_of_eq hlen.symm
  have hw : w ∈ s.shutdowns.map Prod.fst := by
    rw [hperm.mem_iff, List.mem_range, ← h.length]
    exact (List.getElem?_eq_some_iff.mp hk).1
  obtain ⟨k', hk', hl'⟩ := (h.consumed w).mp hw
  rw [hk] at hk'
  cases hk'
  exact hl'

/-! ## one step -/

theorem inv_make (h : Inv s) (a : J) (hs : s.step (.make a) = some t) : Inv t := by
  cases hs
  refine ⟨h.length, h.fifo, fun p => ?_, ?_, ?_, h.verdicts, fun p => ?_, h.consumed, h.different,
    h.round, h.undiscarded, h.unlaunched⟩
  · have hc := h.custody p
    simp only [made, held, List.countP_append, List.countP_singleton] at hc ⊢
    omega
  · show (s.log.created ++ [s.node (.actor a)]).map JobPtr.id = List.range (s.next + 1)
    rw [List.map_append, h.ids, List.range_succ]
    rfl
  · intro n hn
    rcases List.mem_append.mp hn with hn | hn
    · exact h.callers n hn
    · rw [List.mem_singleton.mp hn]
      rfl
  · have ha := h.account p
    show (s.log.created ++ [s.node (.actor a)]).countP _ = _
    rw [List.countP_append, ha]
    rfl

/-- the nodes of `enqueue()` are not shutdown nodes -/
theorem inv_push (h : Inv s) (i : Nat) (hs : s.step (.push i) = some t) : Inv t := by
  obtain ⟨n, hn, rfl⟩ := Option.map_eq_some_iff.mp hs
  have huser : n.isShutdown = false := h.callers n (List.mem_of_getElem? hn)
  have hpending : ∀ p, pending { s.pushBack n with callers := s.callers.eraseIdx i } p
      = s.pending p := by
    intro p
    simp [pending, pushBack, huser]
  refine ⟨h.length, ?_, fun p => ?_, h.ids, fun m hm => h.callers m (List.mem_of_mem_eraseIdx hm),
    h.verdicts, fun p => ?_, h.consumed, h.different, ?_, h.undiscarded, h.unlaunched⟩
  · show s.log.pushed ++ [n] = _ ++ (s.queue ++ [n])
    rw [h.fifo, List.append_assoc _ _ [n]]
    rfl
  · have hc := h.custody p
    have he := TS.countP_eraseIdx hn p
    simp only [pushBack, held, List.countP_append, List.countP_singleton] at hc ⊢
    cases hp : p n <;> rw [hp] at he <;> simp at he ⊢ <;> omega
  · rw [hpending]
    exact h.account p
  · rw [hpending]
    exact h.round

theorem inv_dequeue (h : Inv s) {w : Nat} {res : ResumeResult} (hk : s.workers[w]? = some .dequeue)
    (hs : s.runWorker w res .dequeue = some t) : Inv t := by
  cases hq : s.queue with
  | nil => simp [runWorker, hq] at hs
  | cons n queue =>
    simp only [runWorker, hq] at hs
    cases hs
    have hmove : ∀ p, (s.workers.set w (.holding n)).countP p + (p .dequeue).toNat
        = s.workers.countP p + (p (.holding n)).toNat := fun p => TS.countP_set hk p _
    have hpending : ∀ p, pending ({ s with
          queue := queue
          log := { s.log with dequeued := s.log.dequeued ++ [(w, n)] } }.place w (.holding n)) p
        = s.pending p := by
      intro p
      have hm := hmove (Worker.unresumed fun m => m.isShutdown && p m)
      simp only [pending, place, hq, List.countP_cons] at hm ⊢
      simp only [Worker.unresumed, Bool.toNat_false, Nat.add_zero] at hm
      cases hn : (n.isShutdown && p n) <;> rw [hn] at hm <;> simp at hm ⊢ <;> omega
    refine ⟨List.length_set.trans h.length, ?_, fun p => ?_, h.ids, h.callers,
      verdicts_place h rfl, fun p => ?_, fun v => ?_, h.different, ?_,
      h.undiscarded, unlaunched_place h hk (by simp)⟩
    · -- nobody dequeues once the queue has been cleared
      have hnone : s.log.discarded = [] := h.undiscarded fun he => by
        have hl := h.leaving (by rw [he]; rfl) hk
        cases hl
      show s.log.pushed
        = (s.log.dequeued ++ [(w, n)]).map Prod.snd ++ s.log.discarded ++ queue
      rw [h.fifo, hq, hnone]
      simp
    · have hc := h.custody p
      have hm := hmove (Worker.has p)
      simp only [held, place, hq, List.countP_cons] at hc hm ⊢
      simp only [Worker.has, Bool.toNat_false, Nat.add_zero] at hm
      cases hn : p n <;> rw [hn] at hm hc <;> simp at hm hc ⊢ <;> omega
    · rw [hpending]
      exact h.account p
    · exact (h.consumed v).trans (leaving_place hk (.holding n) rfl v).symm
    · rw [hpending]
      exact h.round

/-- the end of a turn with the verdict `awaiting`, `done` or `shutdown` -/
theorem inv_drop (h : Inv s) {w : Nat} {n : JobPtr J} {res : ResumeResult}
    (hk : s.workers[w]? = some (.resumed n res)) {k' : Worker J} (hc : k'.consistent = true)
    (hhas : ∀ p, k'.has p = false) (hun : ∀ p, k'.unresumed p = false)
    (hl : k'.leaving = (Worker.resumed n res).leaving) : Inv ((s.drop n).place w k') := by
  have hmove : ∀ p, (s.workers.set w k').countP p + (p (.resumed n res)).toNat
      = s.workers.countP p + (p k').toNat := fun p => TS.countP_set hk p _
  have hpending : ∀ p, pending ((s.drop n).place w k') p = s.pending p := by
    intro p
    have hm := hmove (Worker.unresumed fun m => m.isShutdown && p m)
    rw [hun, show (Worker.resumed n res).unresumed _ = false from rfl] at hm
    simp only [pending, place, drop]
    omega
  refine ⟨List.length_set.trans h.length, h.fifo, fun p => ?_, h.ids, h.callers,
    verdicts_place h hc, fun p => ?_, fun v => ?_, h.different, ?_, h.undiscarded,
    unlaunched_place h hk (by simp)⟩
  · have hcu := h.custody p
    have hm := hmove (Worker.has p)
    rw [hhas, show (Worker.resumed n res).has p = p n from rfl] at hm
    simp only [held, place, drop, List.countP_append, List.countP_singleton] at hcu ⊢
    cases hn : p n <;> rw [hn] at hm <;> simp at hm ⊢ <;> omega
  · rw [hpending]
    exact h.account p
  · exact (h.consumed v).trans (leaving_place hk k' hl v).symm
  · rw [hpending]
    exact h.round

/-- `resume_job_later` -/
theorem inv_requeue (h : Inv s) {w : Nat} {n : JobPtr J}
    (hk : s.workers[w]? = some (.resumed n .resume)) : Inv ((s.pushBack n).place w .dequeue) := by
  have huser : n.isShutdown = false := (eq_of_beq (h.verdicts w _ hk)).symm
  have hmove : ∀ p, (s.workers.set w .dequeue).countP p + (p (.resumed n .resume)).toNat
      = s.workers.countP p + (p .dequeue).toNat := fun p => TS.countP_set hk p _
  have hpending : ∀ p, pending ((s.pushBack n).place w .dequeue) p = s.pending p := by
    intro p
    have hm := hmove (Worker.unresumed fun m => m.isShutdown && p m)
    simp only [Worker.unresumed] at hm
    simp only [pending, place, pushBack, List.countP_append, List.countP_singleton, huser]
    simp
    omega
  refine ⟨List.length_set.trans h.length, ?_, fun p => ?_, h.ids, h.callers,
    verdicts_place h rfl, fun p => ?_, fun v => ?_, h.different, ?_, h.undiscarded,
    unlaunched_place h hk (by simp)⟩
  · show s.log.pushed ++ [n] = _ ++ (s.queue ++ [n])
    rw [h.fifo, List.append_assoc _ _ [n]]
    rfl
  · have hcu := h.custody p
    have hm := hmove (Worker.has p)
    simp only [Worker.has] at hm
    simp only [held, place, pushBack, List.countP_append, List.countP_singleton] at hcu ⊢
    cases hn : p n <;> rw [hn] at hm <;> simp at hm ⊢ <;> omega
  · rw [hpending]
    exact h.account p
  · exact (h.consumed v).trans (leaving_place hk .dequeue rfl v).symm
  · rw [hpending]
    exact h.round

/-- `node->resume()` of an actor, with any verdict but `shutdown` -/
theorem inv_resume (h : Inv s) {w : Nat} {n : JobPtr J} {res : ResumeResult}
    (hk : s.workers[w]? = some (.holding n)) (huser : n.isShutdown = false)
    (hres : res ≠ .shutdown) : Inv ({ s with
      log := { s.log with resumed := s.log.resumed ++ [(w, n)] } }.place w (.resumed n res)) := by
  have hmove : ∀ p, (s.workers.set w (.resumed n res)).countP p + (p (.holding n)).toNat
      = s.workers.countP p + (p (.resumed n res)).toNat := fun p => TS.countP_set hk p _
  have hshut : shutdowns ({ s with
      log := { s.log with resumed := s.log.resumed ++ [(w, n)] } }.place w (.resumed n res))
      = s.shutdowns := by
    simp [shutdowns, place, huser]
  have hpending : ∀ p, pending ({ s with
      log := { s.log with resumed := s.log.resumed ++ [(w, n)] } }.place w (.resumed n res)) p
      = s.pending p := by
    intro p
    have hm := hmove (Worker.unresumed fun m => m.isShutdown && p m)
    simp only [Worker.unresumed, huser, Bool.false_and, Bool.toNat_false] at hm
    simp only [pending, place]
    omega
  refine ⟨List.length_set.trans h.length, h.fifo, fun p => ?_, h.ids, h.callers,
    verdicts_place h ?_, fun p => ?_, fun v => ?_, ?_, ?_, h.undiscarded,
    unlaunched_place h hk (by simp)⟩
  · have hcu := h.custody p
    have hm := hmove (Worker.has p)
    simp only [Worker.has] at hm
    simp only [held, place] at hcu ⊢
    omega
  · simp [Worker.consistent, huser, hres]
  · rw [hpending, hshut]
    exact h.account p
  · rw [hshut]
    refine (h.consumed v).trans (leaving_place hk (.resumed n res) ?_ v).symm
    cases res <;> first | rfl | exact absurd rfl hres
  · rw [hshut]
    exact h.different
  · rw [hpending, hshut]
    exact h.round

/-- `node->resume()` of the shutdown helper: in the round of this node -/
theorem inv_shutdown (h : Inv s) {w : Nat} {n : JobPtr J} (hk : s.workers[w]? = some (.holding n))
    (hn : n.isShutdown = true) : Inv ({ s with
      log := { s.log with resumed := s.log.resumed ++ [(w, n)] }
      completedCount := s.completedCount + 1 }.place w (.resumed n .shutdown)) := by
  have hmove : ∀ p, (s.workers.set w (.resumed n .shutdown)).countP p + (p (.holding n)).toNat
      = s.workers.countP p + (p (.resumed n .shutdown)).toNat := fun p => TS.countP_set hk p _
  have hshut : shutdowns ({ s with
      log := { s.log with resumed := s.log.resumed ++ [(w, n)] }
      completedCount := s.completedCount + 1 }.place w (.resumed n .shutdown))
      = s.shutdowns ++ [(w, n)] := by
    simp [shutdowns, place, hn]
  have hpending : ∀ p, pending ({ s with
      log := { s.log with resumed := s.log.resumed ++ [(w, n)] }
      completedCount := s.completedCount + 1 }.place w (.resumed n .shutdown)) p + (p n).toNat
      = s.pending p := by
    intro p
    have hm := hmove (Worker.unresumed fun m => m.isShutdown && p m)
    simp only [Worker.unresumed, hn, Bool.true_and, Bool.toNat_false] at hm
    simp only [pending, place]
    omega
  have hnew : w ∉ s.shutdowns.map Prod.fst := by
    intro hw
    obtain ⟨k, hk', hl⟩ := (h.consumed w).mp hw
    rw [hk] at hk'
    cases hk'
    cases hl
  have hlt : w < s.workers.length := (List.getElem?_eq_some_iff.mp hk).1
  refine ⟨List.length_set.trans h.length, h.fifo, fun p => ?_, h.ids, h.callers,
    verdicts_place h ?_, fun p => ?_, fun v => ?_, ?_, ?_, h.undiscarded,
    unlaunched_place h hk (by simp)⟩
  · have hcu := h.custody p
    have hm := hmove (Worker.has p)
    simp only [Worker.has] at hm
    simp only [held, place] at hcu ⊢
    omega
  · simp [Worker.consistent, hn]
  · have hp := hpending p
    have ha := h.account p
    rw [hshut, List.countP_append, List.countP_singleton]
    simp only [place] at hp ⊢
    cases hpn : p n <;> simp [hpn] at hp ⊢ <;> omega
  · rw [hshut, List.map_append, List.mem_append]
    by_cases hv : v = w
    · subst hv
      refine ⟨fun _ => ⟨_, List.getElem?_set_self hlt, rfl⟩, fun _ => Or.inr (by simp)⟩
    · have hold := h.consumed v
      show _ ↔ ∃ k, (s.workers.set w _)[v]? = some k ∧ _
      rw [List.getElem?_set_ne (fun he => hv he.symm), ← hold]
      simp [hv]
  · rw [hshut, List.map_append]
    exact List.nodup_append.mpr ⟨h.different, List.nodup_singleton _, fun a ha b hb he =>
      hnew (by rw [he, List.mem_singleton.mp hb] at ha; exact ha)⟩
  · have hp := hpending fun _ => true
    have hr := h.round
    rw [hshut, List.length_append, List.length_singleton]
    rw [← hp] at hr
    exact hr.resumed (has_le_pending _ rfl)

theorem inv_work (h : Inv s) {w : Nat} {res : ResumeResult} (hs : s.step (.work w res) = some t) :
    Inv t := by
  obtain ⟨k, hk, hs⟩ := Option.bind_eq_some_iff.mp hs
  cases k with
  | unlaunched => cases hs
  | dequeue => exact inv_dequeue h hk hs
  | holding n =>
    simp only [runWorker] at hs
    cases hj : n.job with
    | actor a =>
      rw [hj] at hs
      have huser : n.isShutdown = false := by rw [JobPtr.isShutdown, hj]
      by_cases hres : res = .shutdown
      · rw [if_pos hres] at hs
        cases hs
      · rw [if_neg hres] at hs
        cases hs
        exact inv_resume h hk huser hres
    | shutdownHelper =>
      rw [hj] at hs
      cases hs
      exact inv_shutdown h hk (by rw [JobPtr.isShutdown, hj])
  | resumed n verdict =>
    cases verdict with
    | resume =>
      cases hs
      exact inv_requeue h hk
    | shutdown =>
      cases hs
      exact inv_drop h hk rfl (fun _ => rfl) (fun _ => rfl) rfl
    | awaiting | done =>
      cases hs
      exact inv_drop h hk rfl (fun _ => rfl) (fun _ => rfl) rfl
  | left => cases hs

/-! ### `start()` and `stop()` -/

/-- a step of `start()` or `stop()` that moves no node -/
theorem Inv.goto (h : Inv s) {main : Main J} {c : Nat} (hhas : ∀ p, main.has p = s.main.has p)
    (hr : ∀ p k, Round s.numWorkers s.main p k s.completedCount → Round s.numWorkers main p k c)
    (hd : main ≠ .stopped → s.main ≠ .stopped) (hu : ∀ i, main ≠ .starting i) :
    Inv { s with main := main, completedCount := c } := by
  have hpending : ∀ p, pending { s with main := main, completedCount := c } p = s.pending p := by
    intro p
    simp only [pending, hhas]
  refine ⟨h.length, h.fifo, fun p => ?_, h.ids, h.callers, h.verdicts, fun p => ?_, h.consumed,
    h.different, ?_, fun hne => h.undiscarded (hd hne), fun i hi => absurd hi (hu i)⟩
  · have hcu := h.custody p
    simp only [held, hhas] at hcu ⊢
    exact hcu
  · rw [hpending]
    exact h.account p
  · rw [hpending]
    exact hr _ _ h.round

theorem inv_launch (h : Inv s) {i : Nat} (hm : s.main = .starting i) (hi : i < s.numWorkers) :
    Inv { s.place i .dequeue with main := .starting (i + 1) } := by
  have hk := h.unlaunched i hm i (Nat.le_refl i) hi
  have hmove : ∀ p, (s.workers.set i .dequeue).countP p + (p .unlaunched).toNat
      = s.workers.countP p + (p .dequeue).toNat := fun p => TS.countP_set hk p _
  have hpending : ∀ p, pending { s.place i .dequeue with main := .starting (i + 1) } p
      = s.pending p := by
    intro p
    have hw := hmove (Worker.unresumed fun m => m.isShutdown && p m)
    simp only [Worker.unresumed] at hw
    simp only [pending, place, hm, Main.has]
    omega
  have hr := h.round
  rw [hm] at hr
  refine ⟨List.length_set.trans h.length, h.fifo, fun p => ?_, h.ids, h.callers,
    verdicts_place h rfl, fun p => ?_, fun v => ?_, h.different, ?_,
    fun _ => h.undiscarded (by rw [hm]; simp), fun j hj v hv hlt => ?_⟩
  · have hcu := h.custody p
    have hw := hmove (Worker.has p)
    simp only [Worker.has] at hw
    simp only [held, place, hm, Main.has] at hcu ⊢
    omega
  · rw [hpending]
    exact h.account p
  · exact (h.consumed v).trans (leaving_place hk .dequeue rfl v).symm
  · rw [hpending]
    exact hr
  · cases hj
    show (s.workers.set i .dequeue)[v]? = some .unlaunched
    rw [List.getElem?_set_ne (by omega)]
    exact h.unlaunched i hm v (by omega) hlt

/-- a round of `stop()` begins: `external_enqueue(&sh)` makes a node -/
theorem inv_round (h : Inv s) {w : Nat} {alive : List Nat} (hm : s.main = .stopping (w :: alive)) :
    Inv { s.made .shutdownHelper with
      main := .enqueueing (w :: alive) (s.node .shutdownHelper) } := by
  have hr := h.round
  rw [hm] at hr
  have hpending : ∀ p, pending { s.made .shutdownHelper with
        main := .enqueueing (w :: alive) (s.node .shutdownHelper) } p
      = s.pending p + (p (s.node .shutdownHelper)).toNat := by
    intro p
    simp only [pending, made, hm, Main.has]
    rw [show (s.node .shutdownHelper).isShutdown = true from rfl, Bool.true_and, Bool.toNat_false]
    omega
  refine ⟨h.length, h.fifo, fun p => ?_, ?_, h.callers, h.verdicts, fun p => ?_, h.consumed,
    h.different, ?_, fun _ => h.undiscarded (by rw [hm]; simp), fun i hi => (by cases hi)⟩
  · have hcu := h.custody p
    simp only [held, made, hm, Main.has, List.countP_append, List.countP_singleton] at hcu ⊢
    cases hp : p (s.node .shutdownHelper) <;> simp at hcu ⊢ <;> omega
  · show (s.log.created ++ [s.node .shutdownHelper]).map JobPtr.id = List.range (s.next + 1)
    rw [List.map_append, h.ids, List.range_succ]
    rfl
  · have ha := h.account p
    rw [hpending]
    show (s.log.created ++ [s.node .shutdownHelper]).countP _ = s.shutdowns.countP _ + _
    rw [List.countP_append, ha, List.countP_singleton,
      show (s.node .shutdownHelper).isShutdown = true from rfl, Bool.true_and]
    cases p (s.node .shutdownHelper) <;> simp
    omega
  · rw [hpending]
    obtain ⟨hp, hc, hk⟩ := hr
    exact ⟨rfl, by rw [hp]; rfl, hc, by simp, hk⟩

theorem inv_enqueue (h : Inv s) {alive : List Nat} {n : JobPtr J}
    (hm : s.main = .enqueueing alive n) : Inv { s.pushBack n with main := .waiting alive } := by
  have hr := h.round
  rw [hm] at hr
  obtain ⟨hn, hp, hc, hne, hk⟩ := hr
  have hpending : ∀ p, pending { s.pushBack n with main := .waiting alive } p = s.pending p := by
    intro p
    simp only [pending, pushBack, hm, Main.has, List.countP_append, List.countP_singleton]
    cases n.isShutdown && p n <;> simp
  refine ⟨h.length, ?_, fun p => ?_, h.ids, h.callers, h.verdicts, fun p => ?_, h.consumed,
    h.different, ?_, fun _ => h.undiscarded (by rw [hm]; simp), fun i hi => (by cases hi)⟩
  · show s.log.pushed ++ [n] = _ ++ (s.queue ++ [n])
    rw [h.fifo, List.append_assoc _ _ [n]]
    rfl
  · have hcu := h.custody p
    simp only [held, pushBack, hm, Main.has, List.countP_append, List.countP_singleton] at hcu ⊢
    cases hp : p n <;> rw [hp] at hcu <;> simp at hcu ⊢ <;> omega
  · rw [hpending]
    exact h.account p
  · rw [hpending]
    refine ⟨hne, ?_, ?_⟩
    · show _ + s.completedCount = 1
      omega
    · show s.shutdowns.length + _ = s.numWorkers + s.completedCount
      omega

/-- `foreach_central_resumable` after the last `join()` -/
theorem inv_discard (h : Inv s) {i : Nat} (hm : s.main = .joining i) : Inv { s with
    queue := []
    log := { s.log with discarded := s.log.discarded ++ s.queue }
    main := .stopped } := by
  have hr := h.round
  rw [hm] at hr
  have hzero : ∀ p, s.pending p = 0 := fun p => Nat.le_zero.mp (hr.1 ▸ pending_le s p)
  have hpending : ∀ p, pending { s with
      queue := []
      log := { s.log with discarded := s.log.discarded ++ s.queue }
      main := .stopped } p = s.pending p := by
    intro p
    have hp := hzero p
    rw [hp]
    simp only [pending, hm, Main.has, List.countP_nil] at hp ⊢
    omega
  have hnone : s.log.discarded = [] := h.undiscarded (by rw [hm]; simp)
  refine ⟨h.length, ?_, fun p => ?_, h.ids, h.callers, h.verdicts, fun p => ?_, h.consumed,
    h.different, ?_, fun hne => absurd rfl hne, fun j hj => (by cases hj)⟩
  · show s.log.pushed = _ ++ (s.log.discarded ++ s.queue) ++ []
    rw [h.fifo, List.append_nil, List.append_assoc]
  · have hcu := h.custody p
    simp only [held, hm, Main.has, List.countP_append, List.countP_nil] at hcu ⊢
    omega
  · rw [hpending]
    exact h.account p
  · rw [hpending]
    exact hr

theorem inv_main (h : Inv s) (hs : s.step .main = some t) : Inv t := by
  simp only [step] at hs
  cases hm : s.main <;> rw [hm] at hs <;> simp only [runMain] at hs
  case starting i =>
    split at hs
    · rename_i hi
      cases hs
      exact inv_launch h hm hi
    · cases hs
      have hr := h.round
      rw [hm] at hr
      exact h.goto (c:=s.completedCount) (fun p => by rw [hm]; rfl) (fun p k hr => by rwa [hm] at hr)
        (fun _ => by rw [hm]; simp) (by simp)
  case stopping alive =>
    cases alive with
    | nil =>
      cases hs
      refine h.goto (c:=s.completedCount) (fun p => by rw [hm]; rfl) (fun p k hr => ?_)
        (fun _ => by rw [hm]; simp) (by simp)
      rw [hm] at hr
      exact ⟨hr.1, hr.2.2⟩
    | cons w alive =>
      cases hs
      exact inv_round h hm
  case enqueueing alive n =>
    cases hs
    exact inv_enqueue h hm
  case waiting alive =>
    split at hs
    · rename_i hc
      cases hs
      refine h.goto (fun p => by rw [hm]; rfl) (fun p k hr => ?_) (fun _ => by rw [hm]; simp)
        (by simp)
      rw [hm] at hr
      obtain ⟨hne, hp, hk⟩ := hr
      cases alive with
      | nil => exact absurd rfl hne
      | cons w alive =>
        rw [List.length_cons] at hk
        refine ⟨by omega, by omega, ?_⟩
        show k + alive.length = s.numWorkers
        omega
    · cases hs
  case joining i =>
    split at hs
    · split at hs
      · cases hs
        refine h.goto (c:=s.completedCount) (fun p => by rw [hm]; rfl) (fun p k hr => ?_)
          (fun _ => by rw [hm]; simp) (by simp)
        rwa [hm] at hr
      · cases hs
    · cases hs
      exact inv_discard h hm
  all_goals cases hs

theorem inv_stop (h : Inv s) {order : List Nat} (hs : s.step (.stop order) = some t) : Inv t := by
  simp only [step] at hs
  cases hm : s.main <;> rw [hm] at hs <;> simp only at hs
  case started =>
    obtain ⟨hperm, hs⟩ := Option.ite_none_right_eq_some.mp hs
    cases hs
    refine h.goto (fun p => by rw [hm]; rfl) (fun p k hr => ?_) (fun _ => by rw [hm]; simp)
      (by simp)
    rw [hm] at hr
    refine ⟨hr.1, rfl, ?_⟩
    rw [hr.2, hperm.length_eq, List.length_range, Nat.zero_add]
  all_goals cases hs

theorem inv_step {a : SchedAct J} (h : Inv s) (hs : s.step a = some t) : Inv t := by
  cases a with
  | make a => exact inv_make h a hs
  | push i => exact inv_push h i hs
  | work w res => exact inv_work h hs
  | stop order => exact inv_stop h hs
  | main => exact inv_main h hs

theorem inv_of_run {n : Nat} {as : List (SchedAct J)} (h : TS.run step (init n) as = some s) :
    Inv s :=
  TS.run_inv (fun _ _ _ => inv_step) (inv_init n) h

/-! ## what a step does to the queue and the logs -/

/-- a step leaves the queue alone or pushes, or a worker dequeues, or a worker resumes what it has
in hand, or `stop()` clears the queue -/
inductive Traffic (s t : Sched J) : Prop where
  | quiet (new : List (JobPtr J)) : t.queue = s.queue ++ new → t.log.dequeued = s.log.dequeued →
      t.log.resumed = s.log.resumed → t.log.discarded = s.log.discarded →
      (s.main.looped = true → t.main.looped = true) → (t.main = .stopped ↔ s.main = .stopped) →
      Traffic s t
  | dequeue (w : Nat) (n : JobPtr J) : s.workers[w]? = some .dequeue → s.queue = n :: t.queue →
      t.log.dequeued = s.log.dequeued ++ [(w, n)] → t.log.resumed = s.log.resumed →
      t.main = s.main → Traffic s t
  | resume (w : Nat) (n : JobPtr J) : s.workers[w]? = some (.holding n) → t.queue = s.queue →
      t.log.dequeued = s.log.dequeued → t.log.resumed = s.log.resumed ++ [(w, n)] →
      t.main = s.main → Traffic s t
  | discard : s.main.looped = true → t.main = .stopped → t.queue = [] →
      t.log.dequeued = s.log.dequeued → t.log.resumed = s.log.resumed →
      t.log.discarded = s.log.discarded ++ s.queue → Traffic s t

theorem step_traffic {a : SchedAct J} (hs : s.step a = some t) : Traffic s t := by
  have hnil : s.queue = s.queue ++ [] := (List.append_nil _).symm
  cases a with
  | make a =>
    cases hs
    exact .quiet [] hnil rfl rfl rfl id Iff.rfl
  | push i =>
    obtain ⟨n, _, rfl⟩ := Option.map_eq_some_iff.mp hs
    exact .quiet [n] rfl rfl rfl rfl id Iff.rfl
  | work w res =>
    obtain ⟨k, hk, hs⟩ := Option.bind_eq_some_iff.mp hs
    cases k with
    | unlaunched | left => cases hs
    | dequeue =>
      cases hq : s.queue with
      | nil => simp [runWorker, hq] at hs
      | cons n queue =>
        simp only [runWorker, hq] at hs
        cases hs
        exact .dequeue w n hk hq rfl rfl rfl
    | holding n =>
      simp only [runWorker] at hs
      split at hs
      · obtain ⟨-, hs⟩ := Option.ite_none_left_eq_some.mp hs
        cases hs
        exact .resume w n hk rfl rfl rfl rfl
      · cases hs
        exact .resume w n hk rfl rfl rfl rfl
    | resumed n verdict =>
      cases verdict with
      | resume =>
        cases hs
        exact .quiet [n] rfl rfl rfl rfl id Iff.rfl
      | shutdown | awaiting | done =>
        cases hs
        exact .quiet [] hnil rfl rfl rfl id Iff.rfl
  | stop order =>
    simp only [step] at hs
    cases hm : s.main <;> rw [hm] at hs <;> simp only at hs
    case started =>
      obtain ⟨-, hs⟩ := Option.ite_none_right_eq_some.mp hs
      cases hs
      exact .quiet [] hnil rfl rfl rfl (fun hl => by rw [hm] at hl; cases hl) (by simp [hm])
    all_goals cases hs
  | main =>
    simp only [step] at hs
    cases hm : s.main <;> rw [hm] at hs <;> simp only [runMain] at hs
    case starting i =>
      split at hs <;> cases hs <;>
        exact .quiet [] hnil rfl rfl rfl (fun hl => by rw [hm] at hl; cases hl) (by simp [hm])
    case stopping alive =>
      cases alive <;> cases hs <;>
        exact .quiet [] hnil rfl rfl rfl (fun hl => by rw [hm] at hl; cases hl) (by simp [hm])
    case enqueueing alive n =>
      cases hs
      exact .quiet [n] rfl rfl rfl rfl (fun hl => by rw [hm] at hl; cases hl) (by simp [hm])
    case waiting alive =>
      obtain ⟨-, hs⟩ := Option.ite_none_right_eq_some.mp hs
      cases hs
      exact .quiet [] hnil rfl rfl rfl (fun hl => by rw [hm] at hl; cases hl) (by simp [hm])
    case joining i =>
      split at hs
      · split at hs
        · cases hs
          exact .quiet [] hnil rfl rfl rfl (fun _ => rfl) (by simp [hm])
        · cases hs
      · cases hs
        exact .discard (by rw [hm]; rfl) rfl rfl rfl rfl rfl
    all_goals cases hs

theorem step_numWorkers {a : SchedAct J} (hs : s.step a = some t) :
    t.numWorkers = s.numWorkers := by
  cases a with
  | make a => cases hs; rfl
  | push i => obtain ⟨n, _, rfl⟩ := Option.map_eq_some_iff.mp hs; rfl
  | work w res =>
    obtain ⟨k, -, hs⟩ := Option.bind_eq_some_iff.mp hs
    unfold runWorker at hs
    split at hs
    · split at hs <;> cases hs
      rfl
    · dsimp only at hs
      split at hs
      · obtain ⟨-, hs⟩ := Option.ite_none_left_eq_some.mp hs
        cases hs
        rfl
      · cases hs
        rfl
    all_goals cases hs <;> rfl
  | stop order =>
    simp only [step] at hs
    split at hs
    · obtain ⟨-, hs⟩ := Option.ite_none_right_eq_some.mp hs
      cases hs
      rfl
    · cases hs
  | main =>
    simp only [step] at hs
    unfold runMain at hs
    split at hs
    · split at hs <;> cases hs <;> rfl
    · cases hs; rfl
    · cases hs; rfl
    · cases hs; rfl
    · obtain ⟨-, hs⟩ := Option.ite_none_right_eq_some.mp hs
      cases hs
      rfl
    · split at hs
      · split at hs <;> cases hs
        rfl
      · cases hs
        rfl
    · cases hs

/-- a worker that resumed a shutdown node dequeues nothing afterwards -/
theorem nothing_after (h : Inv s) {w : Nat} (hw : w ∈ s.shutdowns.map Prod.fst)
    {as : List (SchedAct J)} (hrun : TS.run step s as = some t) :
    t.log.dequeued.filter (fun e => e.1 == w) = s.log.dequeued.filter fun e => e.1 == w := by
  have hI : Inv t ∧ w ∈ t.shutdowns.map Prod.fst ∧
      t.log.dequeued.filter (fun e => e.1 == w) = s.log.dequeued.filter (fun e => e.1 == w) := by
    refine TS.run_inv (I:=fun u => Inv u ∧ w ∈ u.shutdowns.map Prod.fst ∧
      u.log.dequeued.filter (fun e => e.1 == w) = s.log.dequeued.filter (fun e => e.1 == w))
      ?_ ⟨h, hw, rfl⟩ hrun
    rintro u a v ⟨hu, hwu, hd⟩ hs
    refine ⟨inv_step hu hs, ?_⟩
    cases step_traffic hs with
    | quiet new _ hde hre _ _ _ => rw [shutdowns, hre, hde]; exact ⟨hwu, hd⟩
    | dequeue w' n hk _ hde hre _ =>
      rw [shutdowns, hre, hde]
      refine ⟨hwu, ?_⟩
      -- the worker that dequeues is not leaving
      have hne : (w' == w) = false := by
        rw [beq_eq_false_iff_ne]
        rintro rfl
        obtain ⟨k, hk', hl⟩ := (hu.consumed w').mp hwu
        rw [hk] at hk'
        cases hk'
        cases hl
      rw [List.filter_append, hd, List.filter_cons, hne]
      exact List.append_nil _
    | resume w' n _ _ hde hre _ =>
      rw [hde]
      refine ⟨?_, hd⟩
      rw [shutdowns, hre, List.filter_append, List.map_append]
      exact List.mem_append_left _ hwu
    | discard _ _ _ hde hre _ => rw [shutdowns, hre, hde]; exact ⟨hwu, hd⟩
  exact hI.2.2

/-- after the loop of `stop()` nothing is dequeued or resumed, and what is queued is there until it
is discarded -/
theorem drained (h : Inv s) (hl : s.main.looped = true) {as : List (SchedAct J)}
    (hrun : TS.run step s as = some t) : t.log.dequeued = s.log.dequeued ∧
      t.log.resumed = s.log.resumed ∧ (s.main ≠ .stopped → t.main = .stopped →
        ∃ new, t.log.discarded = s.queue ++ new) := by
  have hI : Inv t ∧ t.main.looped = true ∧ t.log.dequeued = s.log.dequeued ∧
      t.log.resumed = s.log.resumed ∧ (s.main ≠ .stopped →
        (t.main ≠ .stopped ∧ ∃ new, t.queue = s.queue ++ new) ∨
        (t.main = .stopped ∧ ∃ new, t.log.discarded = s.queue ++ new)) := by
    refine TS.run_inv (I:=fun u => Inv u ∧ u.main.looped = true ∧
      u.log.dequeued = s.log.dequeued ∧ u.log.resumed = s.log.resumed ∧ (s.main ≠ .stopped →
        (u.main ≠ .stopped ∧ ∃ new, u.queue = s.queue ++ new) ∨
        (u.main = .stopped ∧ ∃ new, u.log.discarded = s.queue ++ new)))
      ?_ ⟨h, hl, rfl, rfl, fun hne => Or.inl ⟨hne, [], (List.append_nil _).symm⟩⟩ hrun
    rintro u a v ⟨hu, hlu, hd, hr, hq⟩ hs
    refine ⟨inv_step hu hs, ?_⟩
    cases step_traffic hs with
    | quiet new hqu hde hre hdi hlv hst =>
      refine ⟨hlv hlu, hde.trans hd, hre.trans hr, fun hne => ?_⟩
      rcases hq hne with ⟨hnu, old, hold⟩ | ⟨hsu, old, hold⟩
      · exact Or.inl ⟨fun hv => hnu (hst.mp hv), old ++ new, by rw [hqu, hold, List.append_assoc]⟩
      · exact Or.inr ⟨hst.mpr hsu, old, hdi.trans hold⟩
    | dequeue w n hk _ _ _ _ => exact absurd (hu.leaving hlu hk) (by simp [Worker.leaving])
    | resume w n hk _ _ _ _ => exact absurd (hu.leaving hlu hk) (by simp [Worker.leaving])
    | discard _ hst _ hde hre hdi =>
      refine ⟨by rw [hst]; rfl, hde.trans hd, hre.trans hr, fun hne => Or.inr ⟨hst, ?_⟩⟩
      rcases hq hne with ⟨hnu, old, hold⟩ | ⟨hsu, old, hold⟩
      · exact ⟨old, by rw [hdi, hu.undiscarded hnu, hold]; rfl⟩
      · exact ⟨old ++ u.queue, by rw [hdi, hold, List.append_assoc]⟩
  refine ⟨hI.2.2.1, hI.2.2.2.1, fun hne hst => ?_⟩
  rcases hI.2.2.2.2 hne with ⟨hn, -⟩ | ⟨-, hnew⟩
  · exact absurd hst hn
  · exact hnew

/-! ## the whole run -/

/-- the nodes in hand, one by one -/
def inHand (s : Sched J) : List (JobPtr J) :=
  s.callers ++ (match s.main with
    | .enqueueing _ n => [n]
    | _ => []) ++ s.workers.filterMap fun k => match k with
    | .holding n | .resumed n _ => some n
    | _ => none

theorem countP_inHand (s : Sched J) (p : JobPtr J → Bool) : s.inHand.countP p = s.held p := by
  unfold inHand held
  rw [List.countP_append, List.countP_append, List.countP_filterMap]
  congr 1
  · congr 1
    cases s.main <;> simp [Main.has]
    rename_i n
    cases p n <;> simp
  · congr 1
    funext k
    cases k <;> rfl

/-- the ways of the nodes -/
structure Conserved (s : Sched J) : Prop where
  /-- what was pushed is dequeued in this order, each push by one worker, or discarded, or queued -/
  fifo : s.log.pushed = s.log.dequeued.map Prod.snd ++ s.log.discarded ++ s.queue
  /-- a node that was made is queued, or in one thread's hand, or freed -/
  custody : (s.queue ++ s.inHand ++ s.log.dropped ++ s.log.discarded).Perm s.log.created
  distinct : (s.log.created.map JobPtr.id).Nodup
  /-- nobody overtakes a queued node -/
  ahead : ∀ a t, s.step a = some t → ∀ n ∈ s.queue, n ∈ t.queue →
    (t.queue.map JobPtr.id).idxOf n.id ≤ (s.queue.map JobPtr.id).idxOf n.id

/-- the ways of the workers -/
structure Stops (numWorkers : Nat) (s : Sched J) : Prop where
  /-- different workers resume different shutdown nodes -/
  different : (s.shutdowns.map Prod.fst).Nodup ∧ (s.shutdowns.map fun e => e.2.id).Nodup ∧
    s.shutdowns.length ≤ numWorkers
  nothingAfter : ∀ w ∈ s.shutdowns.map Prod.fst, ∀ as t, TS.run step s as = some t →
    t.log.dequeued.filter (fun e => e.1 == w) = s.log.dequeued.filter fun e => e.1 == w
  left : ∀ w, s.workers[w]? = some .left → w ∈ s.shutdowns.map Prod.fst
  /-- when the loop of `stop()` has ended, all of its nodes were resumed and every worker has left
  `run()` or is leaving it -/
  ended : s.main.looped = true → s.shutdowns.length = numWorkers ∧
    (s.shutdowns.map Prod.snd).Perm (s.log.created.filter JobPtr.isShutdown) ∧
    ∀ w < numWorkers, ∃ k, s.workers[w]? = some k ∧ k.leaving = true
  /-- from then on nothing is resumed, and what is queued is discarded exactly once -/
  drained : s.main.looped = true → ∀ as t, TS.run step s as = some t →
    t.log.resumed = s.log.resumed ∧ t.log.dequeued = s.log.dequeued ∧
    (s.main ≠ .stopped → t.main = .stopped →
      ∀ n ∈ s.queue, t.log.discarded.countP (fun m => m.id == n.id) = 1)

theorem Inv.distinct (h : Inv s) : (s.log.created.map JobPtr.id).Nodup := by
  rw [h.ids]
  exact List.nodup_range

theorem Inv.perm (h : Inv s) :
    (s.queue ++ s.inHand ++ s.log.dropped ++ s.log.discarded).Perm s.log.created := by
  apply TS.perm_of_countP
  intro p
  rw [List.countP_append, List.countP_append, List.countP_append, countP_inHand]
  exact h.custody p

theorem Inv.conserved (h : Inv s) : Conserved s := by
  refine ⟨h.fifo, h.perm, h.distinct, fun a t hs n hn ht => ?_⟩
  cases step_traffic hs with
  | quiet new hq _ _ _ _ _ =>
    apply Nat.le_of_eq
    rw [hq, List.map_append, List.idxOf_append_of_mem (List.mem_map_of_mem hn)]
  | dequeue w m _ hq _ _ _ =>
    have hd : (s.queue.map JobPtr.id).Nodup := by
      have hall := (h.perm.map JobPtr.id).nodup_iff.mpr h.distinct
      rw [List.append_assoc, List.append_assoc, List.map_append] at hall
      exact hall.of_append_left
    rw [hq, List.map_cons] at hd
    have hne : m.id ≠ n.id := fun he =>
      (List.nodup_cons.mp hd).1 (he ▸ List.mem_map_of_mem ht)
    rw [hq, List.map_cons, List.idxOf_cons_ne _ hne]
    exact Nat.le_succ _
  | resume w m _ hq _ _ _ => exact Nat.le_of_eq (by rw [hq])
  | discard _ _ hq _ _ _ => rw [hq] at ht; cases ht

theorem Inv.stops (h : Inv s) : Stops s.numWorkers s := by
  have hnodes : ∀ p, (s.shutdowns.map Prod.snd).countP p ≤ s.log.created.countP p := by
    intro p
    have ha := h.account p
    have hm : (s.log.created.countP fun n => n.isShutdown && p n) ≤ s.log.created.countP p :=
      List.countP_mono_left fun n _ hn => (Bool.and_eq_true_iff.mp hn).2
    rw [List.countP_map]
    show s.shutdowns.countP (fun e => p e.2) ≤ _
    omega
  have hround := h.round
  refine ⟨⟨h.different, ?_, ?_⟩, fun w hw as t hrun => nothing_after h hw hrun,
    fun w hw => (h.consumed w).mpr ⟨_, hw, rfl⟩, fun hl => ⟨?_, ?_, fun w hw => ?_⟩,
    fun hl as t hrun => ?_⟩
  · rw [show (s.shutdowns.map fun e => e.2.id) = (s.shutdowns.map Prod.snd).map JobPtr.id by
      rw [List.map_map]; rfl]
    refine TS.nodup_of_countP_le (fun p => ?_) h.distinct
    rw [List.countP_map, List.countP_map (l:=s.log.created)]
    exact hnodes (p ∘ JobPtr.id)
  · cases hm : s.main <;> rw [hm] at hround <;> simp only [Round] at hround
    case waiting alive =>
      have hpos := List.length_pos_iff.mpr hround.1
      omega
    all_goals omega
  · cases hm : s.main <;> rw [hm] at hround hl <;> first | exact hround.2 | cases hl
  · -- no shutdown node is pending any more
    have hzero : (s.pending fun _ => true) = 0 := by
      cases hm : s.main <;> rw [hm] at hround hl <;> first | exact hround.1 | cases hl
    apply TS.perm_of_countP
    intro p
    have ha := h.account p
    have hp : s.pending p = 0 := by
      have hle := pending_le s p
      omega
    rw [List.countP_map, List.countP_filter]
    show s.shutdowns.countP (fun e => p e.2) = _
    rw [show (fun a => p a && JobPtr.isShutdown a) = fun n => n.isShutdown && p n by
      funext n; exact Bool.and_comm _ _]
    omega
  · rw [← h.length] at hw
    exact ⟨_, List.getElem?_eq_getElem hw, h.leaving hl (List.getElem?_eq_getElem hw)⟩
  · obtain ⟨hd, hr, hdis⟩ := drained h hl hrun
    refine ⟨hr, hd, fun hne hst n hn => ?_⟩
    obtain ⟨new, hnew⟩ := hdis hne hst
    have hI : Inv t := TS.run_inv (fun _ _ _ => inv_step) h hrun
    have hnd : (t.log.discarded.map JobPtr.id).Nodup := by
      have hall := (hI.perm.map JobPtr.id).nodup_iff.mpr hI.distinct
      rw [List.map_append] at hall
      exact hall.of_append_right
    have hmem : n.id ∈ t.log.discarded.map JobPtr.id := by
      rw [hnew]
      exact List.mem_map_of_mem (List.mem_append_left _ hn)
    have hone := List.count_eq_one_of_mem hnd hmem
    rw [List.count, List.countP_map] at hone
    exact hone

/-- **Conservation and stop.**  For any number of workers and in every run with one `stop()`, no
node is lost or duplicated, the queue is first-in first-out and nobody overtakes, each shutdown
node ends another worker, no worker ends without one, and what is left in the queue is discarded
once without being resumed. -/
theorem nodes_and_workers (numWorkers : Nat) (as : List (SchedAct J)) (s : Sched J)
    (h : TS.run step (init numWorkers) as = some s) : Conserved s ∧ Stops numWorkers s := by
  have hI := inv_of_run h
  have hn : s.numWorkers = numWorkers :=
    TS.run_inv (I:=fun t => t.numWorkers = numWorkers)
      (fun _ _ _ he hs => (step_numWorkers hs).trans he) rfl h
  exact ⟨hI.conserved, hn ▸ hI.stops⟩

/-- two workers: one resumes actor 7 and pushes it back, the other resumes it again; then `stop()`,
and actor 9, which is pushed too late to be resumed -/
def handedOver : List (SchedAct Nat) :=
  [.main, .main, .main, .make 7, .push 0, .work 0 .done, .work 0 .resume, .work 0 .done,
    .work 1 .done, .work 1 .awaiting, .make 9, .work 1 .done, .stop [1, 0], .main, .main,
    .work 1 .done, .work 1 .done, .main, .main, .work 1 .done, .main, .work 0 .done, .work 0 .done,
    .main, .push 0, .main, .work 0 .done, .main, .main, .main]

theorem nodes_and_workers_handed_over : ∃ s : Sched Nat,
    TS.run step (init 2) handedOver = some s ∧ s.main = .stopped ∧
    s.log.resumed.map (fun e => (e.1, e.2.job)) =
      [(0, .actor 7), (1, .actor 7), (1, .shutdownHelper), (0, .shutdownHelper)] ∧
    s.log.discarded = [⟨1, .actor 9⟩] ∧ Conserved s ∧ Stops 2 s := by
  obtain ⟨s, hrun⟩ : ∃ s, TS.run step (init 2) handedOver = some s :=
    Option.isSome_iff_exists.mp (by decide +kernel)
  have hlog : (TS.run step (init 2) handedOver).map (fun s => (s.main,
      s.log.resumed.map (fun e => (e.1, e.2.job)), s.log.discarded)) = some (.stopped,
      [(0, .actor 7), (1, .actor 7), (1, .shutdownHelper), (0, .shutdownHelper)],
      [⟨1, .actor 9⟩]) := by
    decide +kernel
  rw [hrun, Option.map_some, Option.some.injEq, Prod.mk.injEq, Prod.mk.injEq] at hlog
  exact ⟨s, hrun, hlog.1, hlog.2.1, hlog.2.2, nodes_and_workers 2 handedOver s hrun⟩

end Sched
end ActorZeta
