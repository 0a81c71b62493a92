import ActorZeta.Actor.Wakeup

/-!
# At most one job node

* `wellBehaved`   a driver calls `resume()` only with a job node it took from the queue;
* `OneJob`        the job nodes, the callers that owe one and the drivers inside `resume()` are at
                  most one together, and while the actor lives they are one exactly if the actor is
                  scheduled or running;
* `OneJob.move`   every move keeps it;
* `at_most_one_job`   what that means in every run of well-behaved drivers and any senders.
-/

namespace ActorZeta

/-- a job node in the making, in a driver's hand or at work -/
def Role.job (r : Role) : Bool := r.isOwing || r.isEarly || r.holds

structure OneJob (v : View) (rs : List Role) : Prop where
  jobs : v.nodes + rs.countP Role.job ≤ 1
  behind : v.word.isDestroying = false →
    v.nodes + rs.countP Role.job = (v.word.isScheduled || v.word.isRunning).toNat
  runner : v.word.isRunning = true → 0 < rs.countP Role.holds
  recorded : v.word.isDestroying = false → ∀ r ∈ rs, ∀ a k, r = .leaving a k (some true) →
    v.word.isScheduled = true

section
variable {v v' : View} {r r' : Role} {rs rs' : List Role}

theorem OneJob.perm (hp : rs.Perm rs') (h : OneJob v rs) : OneJob v rs' where
  jobs := hp.countP_eq Role.job ▸ h.jobs
  behind := hp.countP_eq Role.job ▸ h.behind
  runner := hp.countP_eq Role.holds ▸ h.runner
  recorded hd r hr := h.recorded hd r (hp.mem_iff.mpr hr)

theorem Role.job_of_holds (h : r.holds = true) : r.job = true := by
  rw [Role.job, h, Bool.or_true]

/-- with one job in hand there is no other -/
theorem OneJob.alone (h : OneJob v (r :: rs)) (hr : r.job = true) :
    v.nodes = 0 ∧ rs.countP Role.job = 0 ∧ ∀ u ∈ rs, u.job = false := by
  have hj := h.jobs
  rw [List.countP_cons, if_pos hr] at hj
  have h0 : rs.countP Role.job = 0 := by omega
  exact ⟨by omega, h0, fun u hu => Bool.eq_false_iff.mpr (List.countP_eq_zero.mp h0 u hu)⟩

/-- a step that neither makes nor loses a job -/
theorem OneJob.steady (h : OneJob v (r :: rs)) (hj : r'.job = r.job) (hh : r'.holds = r.holds)
    (hn : v'.nodes = v.nodes) (hs : v'.word.isScheduled = v.word.isScheduled)
    (hrun : v'.word.isRunning = v.word.isRunning)
    (hd : v'.word.isDestroying = false → v.word.isDestroying = false)
    (hrec : v.word.isDestroying = false → ∀ a k, r' = .leaving a k (some true) →
      v.word.isScheduled = true) : OneJob v' (r' :: rs) where
  jobs := by
    have := h.jobs
    rw [List.countP_cons] at this ⊢
    rwa [hj, hn]
  behind hd' := by
    have := h.behind (hd hd')
    rw [List.countP_cons] at this ⊢
    rwa [hj, hn, hs, hrun]
  runner hr := by
    have := h.runner (hrun ▸ hr)
    rw [List.countP_cons] at this ⊢
    rwa [hh]
  recorded hd' u hu a k hua := by
    rw [hs]
    rcases List.mem_cons.mp hu with rfl | hu
    · exact hrec (hd hd') a k hua
    · exact h.recorded (hd hd') u (List.mem_cons_of_mem _ hu) a k hua

/-- deregistering claims the job of an actor that has none -/
theorem OneJob.leave {p : Bool} (h : OneJob v (.registered p :: rs)) :
    OneJob { v with word := (Sender.leaveDesired v.word p).1 }
      (.returned (Sender.leaveDesired v.word p).2 :: rs) := by
  cases hd : v.word.isDestroying with
  | true =>
    rw [leaveDesired_destroying v.word p hd]
    refine h.steady rfl rfl rfl (by simp) (by simp) (fun hd' => ?_) (fun _ _ _ hr => nomatch hr)
    simpa using hd'
  | false =>
    obtain ⟨hrun, hsch, how⟩ := leaveDesired_cases v.word p hd
    have hjobs : ∀ b, (Role.returned b).job = b := by decide
    have hholds : ∀ b, (Role.returned b).holds = false := by decide
    have hbehind := h.behind hd
    rw [List.countP_cons, if_neg (show ¬ (Role.registered p).job = true from nofun),
      Nat.add_zero] at hbehind
    -- the new owner of a job is the sender itself
    have hcount : v.nodes + ((Role.returned (Sender.leaveDesired v.word p).2 :: rs).countP Role.job)
        = (v.word.isScheduled || p || v.word.isRunning).toNat := by
      rw [List.countP_cons, hjobs, how]
      generalize rs.countP Role.job = n at hbehind ⊢
      revert hbehind
      cases v.word.isScheduled <;> cases v.word.isRunning <;> cases p <;>
        (simp; try omega)
    refine ⟨?_, fun _ => ?_, fun hr => ?_, fun _ u hu a k hua => ?_⟩
    · show v.nodes + _ ≤ 1
      rw [hcount]
      exact Bool.toNat_le _
    · show v.nodes + _ = _
      rw [hcount, hsch, hrun]
    · have := h.runner (hrun ▸ hr)
      rw [List.countP_cons] at this ⊢
      rwa [hholds]
    · show (Sender.leaveDesired v.word p).1.isScheduled = true
      rcases List.mem_cons.mp hu with rfl | hu
      · cases hl : (Sender.leaveDesired v.word p).2 <;> rw [hl] at hua <;> cases hua
      · rw [hsch, h.recorded hd u (List.mem_cons_of_mem _ hu) a k hua]
        rfl

/-- a driver acquires `running`: its job is at work -/
theorem OneJob.acquire {n : Bool} (h : OneJob v (.early n :: rs)) :
    OneJob { v with word := (v.word.setRunning true).setScheduled false } (.entering :: rs) := by
  obtain ⟨hn, hc, hothers⟩ := h.alone rfl
  have hcount : v.nodes + (Role.entering :: rs).countP Role.job = 1 := by
    rw [hn, List.countP_cons, hc]
    rfl
  refine ⟨Nat.le_of_eq hcount, fun _ => ?_, fun _ => ?_, fun _ u hu a k hua => ?_⟩
  · show v.nodes + _ = _
    rw [hcount]
    simp
  · rw [List.countP_cons]
    exact Nat.succ_pos _
  · -- there is no other holder
    rcases List.mem_cons.mp hu with rfl | hu
    · cases hua
    · have hj := hothers u hu
      rw [hua] at hj
      cases hj

/-- a holder leaves: it owes a job node exactly if the scheduled bit stays -/
theorem OneJob.release {a : ResumeResult} {k o : Bool} (h : OneJob v (.leaving a k (some o) :: rs))
    (hfit : v.word.isDestroying = false →
      (a = .resume ∧ k = true) ∨ (a = .awaiting ∧ k = false))
    (ho : v.word.isScheduled = true → o = true) :
    OneJob { v with word := Runner.guardDesired k v.word }
      (.returned (Runner.verdict a o == .resume) :: rs) := by
  have hjobs : ∀ b, (Role.returned b).job = b := by decide
  have hholds : ∀ b, (Role.returned b).holds = false := by decide
  obtain ⟨hn, hc, hothers⟩ := h.alone rfl
  have hcount : ∀ b, v.nodes + (Role.returned b :: rs).countP Role.job = b.toNat := by
    intro b
    rw [hn, List.countP_cons, hc, hjobs]
    cases b <;> rfl
  refine ⟨?_, fun hd => ?_, fun hr => ?_, fun _ u hu a' k' hua => ?_⟩
  · show v.nodes + _ ≤ 1
    rw [hcount]
    exact Bool.toNat_le _
  · show v.nodes + _ = _
    have hd0 : v.word.isDestroying = false := by simpa [Runner.guardDesired] using hd
    have hrec : o = true → v.word.isScheduled = true := fun hot =>
      h.recorded hd0 _ List.mem_cons_self a k (by rw [hot])
    rw [hcount]
    rcases hfit hd0 with ⟨rfl, rfl⟩ | ⟨rfl, rfl⟩
    · simp [Runner.guardDesired, Runner.verdict]
    · have hso : v.word.isScheduled = o := Bool.eq_iff_iff.mpr ⟨ho, hrec⟩
      cases o <;> simp [Runner.guardDesired, Runner.verdict, hso]
  · simp [Runner.guardDesired] at hr
  · rcases List.mem_cons.mp hu with rfl | hu
    · cases hb : (Runner.verdict a o == .resume) <;> rw [hb] at hua <;> cases hua
    · have hj := hothers u hu
      rw [hua] at hj
      cases hj

/-- no driver finds a holder: it would be the second job -/
theorem OneJob.not_running {n : Bool} (h : OneJob v (.early n :: rs)) :
    v.word.isRunning = false := by
  obtain ⟨-, -, hothers⟩ := h.alone rfl
  refine Bool.eq_false_iff.mpr fun hr => ?_
  obtain ⟨u, hu, hh⟩ := List.countP_pos_iff.mp (h.runner hr)
  rcases List.mem_cons.mp hu with rfl | hu
  · cases hh
  · have hj := hothers u hu
    rw [Role.job_of_holds hh] at hj
    cases hj

theorem OneJob.move (h : OneJob v (r :: rs)) (hm : Move v r v' r') (hS : Safe v (r :: rs)) :
    OneJob v' (r' :: rs) := by
  cases hm with
  | wait => exact h
  | register =>
    exact h.steady rfl rfl rfl (by simp) (by simp) (by simp) (fun _ _ _ hr => nomatch hr)
  | push => exact h.steady rfl rfl rfl rfl rfl id (fun _ _ _ hr => nomatch hr)
  | leave => exact h.leave
  | discharge =>
    -- the job moves from the caller to the queue
    have hcount : v.nodes + 1 + (Role.apart :: rs).countP Role.job
        = v.nodes + (Role.owing :: rs).countP Role.job := by
      rw [List.countP_cons, List.countP_cons]
      show v.nodes + 1 + (_ + 0) = v.nodes + (_ + 1)
      omega
    refine ⟨?_, fun hd => ?_, h.runner, fun hd u hu a k hua => ?_⟩
    · show v.nodes + 1 + _ ≤ 1
      rw [hcount]
      exact h.jobs
    · show v.nodes + 1 + _ = _
      rw [hcount]
      exact h.behind hd
    · rcases List.mem_cons.mp hu with rfl | hu
      · cases hua
      · exact h.recorded hd u (List.mem_cons_of_mem _ hu) a k hua
  | acquire => exact h.acquire
  | mark hr => rw [h.not_running] at hr; cases hr
  | quit hr =>
    rcases hr with rfl | ⟨b, rfl⟩ <;>
      exact h.steady rfl rfl rfl rfl rfl id (fun _ _ _ hr => nomatch hr)
  | unpark | unparkBusy | work | stop | await | park | race | raceLost =>
    exact h.steady rfl rfl rfl rfl rfl id (fun _ _ _ hr => nomatch hr)
  | observe =>
    refine h.steady rfl rfl rfl rfl rfl id (fun hd a' k' hr => ?_)
    rename_i a k o
    cases o with
    | none =>
      cases hs : v.word.isScheduled with
      | true => rfl
      | false => rw [hs] at hr; cases hr
    | some o =>
      cases o with
      | true => exact h.recorded hd _ List.mem_cons_self a k rfl
      | false =>
        cases hs : v.word.isScheduled with
        | true => rfl
        | false => rw [hs] at hr; cases hr
  | release ho =>
    refine h.release (fun hd => ?_) ho
    rcases (hS.wake hd).fits _ List.mem_cons_self with hf | ⟨ha, hk, -⟩
    · exact Or.inl hf
    · exact Or.inr ⟨ha, hk⟩
  | publish =>
    exact h.steady rfl rfl rfl (by simp) (by simp) (by simp) (fun _ _ _ hr => nomatch hr)
  | published | drained | tearDown =>
    exact h.steady rfl rfl rfl rfl rfl id (fun _ _ _ hr => nomatch hr)
  | terminal =>
    refine ⟨h.jobs, fun hd => ?_, fun hr => ?_, fun hd => ?_⟩
    · simp at hd
    · simp at hr
    · simp at hd

theorem OneJob.enter (h : OneJob v rs) : OneJob v (.apart :: rs) where
  jobs := h.jobs
  behind := h.behind
  runner := h.runner
  recorded hd u hu a k hua := by
    rcases List.mem_cons.mp hu with rfl | hu
    · cases hua
    · exact h.recorded hd u hu a k hua

/-- a driver begins with the job node it took -/
theorem OneJob.enterDriver (h : OneJob v rs) (hn : 1 ≤ v.nodes) :
    OneJob { v with nodes := v.nodes - 1 } (.early true :: rs) := by
  have hcount : v.nodes - 1 + (Role.early true :: rs).countP Role.job
      = v.nodes + rs.countP Role.job := by
    rw [List.countP_cons]
    show v.nodes - 1 + (_ + 1) = _
    omega
  refine ⟨?_, fun hd => ?_, h.runner, fun hd u hu a k hua => ?_⟩
  · show v.nodes - 1 + _ ≤ 1
    rw [hcount]
    exact h.jobs
  · show v.nodes - 1 + _ = _
    rw [hcount]
    exact h.behind hd
  · rcases List.mem_cons.mp hu with rfl | hu
    · cases hua
    · exact h.recorded hd u hu a k hua

end

/-! ## runs -/

namespace Actor
variable {β T X : Type}

/-- drivers call `resume()` with a job node only -/
def wellBehaved (_ : Conf β T X) : Act β T X → Bool
  | .spawn (.run r) => r.node
  | _ => true

/-- job nodes, callers that owe one, and drivers between the entry of `resume()` and the last
compare-exchange of `~resume_guard` -/
def jobCount (c : Conf β T X) : Nat :=
  c.sh.nodes + c.pool.countP (fun t => t.role.isOwing) +
    c.pool.countP (fun t => t.role.isEarly || t.role.holds)

theorem jobCount_eq (c : Conf β T X) :
    jobCount c = c.sh.nodes + (c.pool.map Thread.role).countP Role.job := by
  unfold jobCount
  rw [Nat.add_assoc]
  congr 1
  induction c.pool with
  | nil => rfl
  | cons t ts ih =>
    rw [List.map_cons, List.countP_cons, List.countP_cons, List.countP_cons, ← ih]
    cases hr : t.role <;> simp [Role.job, Role.isOwing, Role.isEarly, Role.holds] <;> omega

/-- what the drivers inside `try_acquire_running` have read -/
def Acquiring (c : Conf β T X) : Prop :=
  ∀ r, Thread.run r ∈ c.pool → ∀ current n, r.pc = .acqCas current n → current.isRunning = false

/-- the invariant under well-behaved drivers -/
structure Scheduled (c : Conf β T X) : Prop where
  alive : Alive c
  oneJob : OneJob c.sh.view (c.pool.map Thread.role)
  acquiring : Acquiring c

theorem Scheduled.init : Scheduled (init : Conf β T X) where
  alive := Alive.init
  oneJob := by
    refine ⟨Nat.zero_le _, fun _ => ?_, fun hr => ?_, nofun⟩
    · show 0 = (ActorState.idle.isScheduled || ActorState.idle.isRunning).toNat
      decide
    · exact absurd (show ActorState.idle.isRunning = true from hr) (by decide)
  acquiring := nofun

/-- a driver that begins has read nothing, and a well-behaved one brings a job node -/
theorem enter_run {c d : Conf β T X} {t : Thread β T X}
    (h : enter (β:=β) (T:=T) (X:=X) c.sh t = some d.sh) :
    (∀ r, t = .run r → ∀ current n, r.pc ≠ .acqCas current n) ∧
    (wellBehaved c (.spawn t) = true → ∀ node, t.role = .early node → node = true) := by
  cases t with
  | send s =>
    refine ⟨fun _ hr => (by cases hr), fun _ node hr => ?_⟩
    obtain ⟨msg, slot, pc⟩ := s
    simp only [enter] at h
    split at h
    · rename_i hc
      obtain ⟨rfl, -⟩ := hc
      cases hr
    · cases h
  | run r =>
    obtain ⟨max, n, pc⟩ := r
    refine ⟨fun r' hr current i hpc => ?_, fun hok node hr => (role_early hr).1.trans hok⟩
    cases hr
    subst hpc
    cases h
  | delete d => exact ⟨fun _ hr => (by cases hr), fun _ node hr => by cases d <;> cases hr⟩

/-- a step that leaves a driver is a step of a driver -/
theorem exec_run {g : Choice} {m m' : ActorMem β} {t : Thread β T X} {r : Runner β}
    (h : exec g m t = some (m', .run r)) :
    ∃ g' r0, r0.step g' m = some (m', r) ∧ t = .run r0 := by
  rcases exec_cases h with ⟨s, s', -, he, -⟩ | ⟨max, node, pc, pc', rfl, he, hs⟩ |
    ⟨d, d', -, he, -⟩
  · cases he
  · cases he
    exact ⟨g, ⟨max, node, pc⟩, Option.map_eq_some_iff.mpr ⟨_, hs, rfl⟩, rfl⟩
  · cases he

theorem Scheduled.step {c d : Conf β T X} {a : Act β T X} (h : Scheduled c)
    (hs : TS.restrict step wellBehaved c a = some d) : Scheduled d := by
  obtain ⟨hok, hs⟩ := TS.restrict_some.mp hs
  have hA := h.alive.step hs
  rcases TS.Conf.step_cases hs with ⟨t, rfl, he, hp⟩ | ⟨i, g, t, t', rest, -, -, he, hp, hp'⟩
  · obtain ⟨hnew, hnode⟩ := enter_run he
    refine ⟨hA, OneJob.perm (hp.map Thread.role).symm ?_, fun r hr current n hpc => ?_⟩
    · rw [List.map_cons]
      rcases enter_role he with ⟨hr, hv⟩ | ⟨node, hr, hn, hv⟩
      · rw [hr, hv]
        exact h.oneJob.enter
      · obtain rfl := hnode hok node hr
        rw [hr, hv]
        exact h.oneJob.enterDriver hn
    · rcases List.mem_cons.mp (hp.mem_iff.mp hr) with hr | hr
      · exact absurd hpc (hnew r hr.symm current n)
      · exact h.acquiring r hr current n hpc
  · have hsafe : Safe c.sh.view (t.role :: rest.map Thread.role) :=
      h.alive.safe.perm (hp.map Thread.role)
    have hjob : OneJob c.sh.view (t.role :: rest.map Thread.role) :=
      h.oneJob.perm (hp.map Thread.role)
    refine ⟨hA, OneJob.perm (hp'.map Thread.role).symm (hjob.move (exec_move he) hsafe),
      fun r hr current n hpc => ?_⟩
    rcases List.mem_cons.mp (hp'.mem_iff.mp hr) with rfl | hr
    · -- the driver that moves reads a word without `running`
      obtain ⟨g', r0, hrun, rfl⟩ := exec_run he
      obtain ⟨⟨m, pc'⟩, hstep, heq⟩ := Option.map_eq_some_iff.mp hrun
      cases heq
      obtain ⟨⟨node, hearly⟩, hread⟩ := acqCas_cases hstep hpc
      rcases hread with ⟨n', hbefore⟩ | hnow
      · exact h.acquiring r0 (hp.mem_iff.mpr List.mem_cons_self) current n' hbefore
      · rw [hnow]
        have hj : OneJob c.sh.view (.early r0.node :: rest.map Thread.role) := by
          have hrole : r0.pc.role r0.node = .early r0.node := by
            rcases (role_early hearly).2 with hpc0 | ⟨cur, k, hpc0⟩ <;> rw [hpc0] <;> rfl
          rw [← hrole]
          exact hjob
        exact hj.not_running
    · exact h.acquiring r (hp.mem_iff.mpr (List.mem_cons_of_mem _ hr)) current n hpc

theorem scheduled_of_run {as : List (Act β T X)} {c : Conf β T X}
    (h : TS.run (TS.restrict step wellBehaved) init as = some c) : Scheduled c :=
  TS.run_inv (fun _ _ _ => Scheduled.step) Scheduled.init h

/-- what well-behaved drivers may rely on -/
structure AtMostOneJob (c : Conf β T X) : Prop where
  /-- job nodes, callers that owe one and drivers inside are at most one together -/
  jobs : jobCount c ≤ 1
  /-- no driver in `try_acquire_running` sees `running` set -/
  notRunning : ∀ t ∈ c.pool, t.role.isEarly = true → c.sh.word.isRunning = false
  /-- nor has it read a word with `running` set -/
  notRead : ∀ r, Thread.run r ∈ c.pool → ∀ current n, r.pc = .acqCas current n →
    current.isRunning = false
  /-- with no driver inside, a living actor is scheduled exactly if they are one -/
  scheduled : (∀ t ∈ c.pool, (t.role.isEarly || t.role.holds) = false) →
    c.sh.word.isDestroying = false → (c.sh.word.isScheduled = true ↔ jobCount c = 1)

/-- **At most one job node**, in every reachable state of well-behaved drivers and any senders. -/
theorem at_most_one_job (as : List (Act β T X)) (c : Conf β T X)
    (h : TS.run (TS.restrict step wellBehaved) init as = some c) : AtMostOneJob c := by
  have hS := scheduled_of_run h
  refine ⟨jobCount_eq c ▸ hS.oneJob.jobs, fun t ht he => ?_, hS.acquiring, fun hout hd => ?_⟩
  · obtain ⟨l₁, l₂, hl⟩ := List.append_of_mem (List.mem_map_of_mem (f:=Thread.role) ht)
    have hj : OneJob c.sh.view (t.role :: (l₁ ++ l₂)) :=
      hS.oneJob.perm (hl ▸ List.perm_middle)
    cases hr : t.role with
    | early n =>
      rw [hr] at hj
      exact hj.not_running
    | _ => rw [hr] at he; cases he
  · -- nobody inside: nobody holds `running`
    have hrun : c.sh.word.isRunning = false := by
      refine Bool.eq_false_iff.mpr fun hr => ?_
      obtain ⟨r, hr, hh⟩ := List.countP_pos_iff.mp (hS.oneJob.runner hr)
      obtain ⟨t, ht, rfl⟩ := List.mem_map.mp hr
      have hn := hout t ht
      rw [hh, Bool.or_true] at hn
      cases hn
    have hb := hS.oneJob.behind hd
    rw [jobCount_eq]
    rw [show c.sh.view.word.isRunning = false from hrun, Bool.or_false] at hb
    rw [show c.sh.nodes = c.sh.view.nodes from rfl, hb]
    show c.sh.word.isScheduled = true ↔ c.sh.word.isScheduled.toNat = 1
    cases c.sh.word.isScheduled <;> decide

/-- a message is sent to an idle actor, its sender enqueues the actor, a driver takes the job node
and acquires `running` -/
theorem at_most_one_job_first_driver :
    ∃ c : Conf Unit Nat Unit, jobCount c = 1 ∧ c.sh.word.isRunning = true ∧ AtMostOneJob c :=
  ⟨_, rfl, rfl, at_most_one_job
    ([.spawn (.send ⟨⟨16, 1 <<< 60, ()⟩, .fresh, .regLoad⟩)] ++
      List.replicate 7 (.run 0 ⟨false, false, false, false⟩) ++
      [.spawn (.run ⟨1, true, .acqLoad⟩), .run 1 ⟨false, false, false, false⟩,
        .run 1 ⟨false, false, false, false⟩])
    _ rfl⟩

end Actor
end ActorZeta
