import ActorZeta.Actor.Teardown

/-!
# One thread inside resume()

Whatever threads call `resume()`, with a job node or without one, and whatever they do to each
other's view of the state word.  A handler that calls `resume()` of its own actor is a driver like
the others, whose caller stays at `behavior()` until it returned.

* `Deed`               what a holder of `running` does to the mailbox and to the behavior;
* `Exclusive`          one holder, a behavior that is finished whenever `behavior()` is called, and
                       the answers a holder can have;
* `Marked`             what a holder that somebody lost to will answer;
* `serial_execution`   what the calls of `resume()` may rely on, as long as the destructor is not
                       past its drain.
-/

namespace ActorZeta

/-- what a driver does to the mailbox and to the behavior -/
inductive Deed (β : Type) where
  | unblock
  | block
  | fetch
  | pop
  | behavior (msg : Message β)
  | continuation
  deriving DecidableEq

namespace RunPc
variable {β : Type}

/-- what the next step does, if it does anything of that kind -/
def deed : RunPc β → Option (Deed β)
  | .unpark => some .unblock
  | .parking _ => some .block
  | .fetching _ _ => some .fetch
  | .loopBlocked _ => some .pop
  | .handling _ msg => some (.behavior msg)
  | .resuming _ => some .continuation
  | _ => none

/-- from the check of `is_busy()` to the call of `behavior()` -/
def calm : RunPc β → Bool
  | .fetching (.pop _) _ | .starting _ _ | .handling _ _ => true
  | _ => false

end RunPc

def Thread.deed {β T X : Type} : Thread β T X → Option (Deed β)
  | .run r => r.pc.deed
  | _ => none

def Thread.calm {β T X : Type} : Thread β T X → Bool
  | .run r => r.pc.calm
  | _ => false

/-! ## the holders -/

section
variable {v v' : View} {r r' : Role} {rs : List Role}

/-- who acquires sets `running`, who releases clears it -/
theorem Move.running (hm : Move v r v' r') (hd : r ≠ .deleting true)
    (hr : r.holds = true → v.word.isRunning = true) :
    v'.word.isRunning.toNat + r.holds.toNat = v.word.isRunning.toNat + r'.holds.toNat := by
  have hreturned : ∀ b, (Role.returned b).holds = false := by decide
  cases hm with
  | leave =>
    rw [hreturned]
    show (Sender.leaveDesired v.word _).1.isRunning.toNat + 0 = _
    unfold Sender.leaveDesired
    split <;> simp
  | acquire hn => simp [Role.holds, hn]
  | release =>
    rw [hreturned, hr rfl]
    show (Runner.guardDesired _ v.word).isRunning.toNat + 1 = 1 + 0
    simp [Runner.guardDesired]
  | terminal => exact absurd rfl hd
  | quit he => rcases he with rfl | ⟨b, rfl⟩ <;> rfl
  | unpark | unparkBusy => rfl
  | _ => simp [Role.holds]

/-- somebody moves among the others -/
theorem Move.holders (hm : Move v r v' r') (hd : r ≠ .deleting true)
    (h : (r :: rs).countP Role.holds = v.word.isRunning.toNat) :
    (r' :: rs).countP Role.holds = v'.word.isRunning.toNat := by
  have hr : r.holds = true → v.word.isRunning = true := fun hr => by
    rw [List.countP_cons, if_pos hr] at h
    cases hw : v.word.isRunning
    · rw [hw] at h
      exact absurd h (Nat.succ_ne_zero _)
    · rfl
  have hrun := hm.running hd hr
  rw [List.countP_cons] at h ⊢
  have h1 : ∀ u : Role, (if u.holds = true then 1 else 0) = u.holds.toNat := fun u => by
    cases u.holds <;> rfl
  rw [h1] at h ⊢
  omega

/-- while another one holds `running`, nobody clears `scheduled` -/
theorem Move.scheduled (hm : Move v r v' r') (hd : r ≠ .deleting true) (hr : r.holds = false)
    (hw : v.word.isRunning = true) (hs : v.word.isScheduled = true) :
    v'.word.isScheduled = true := by
  cases hm with
  | leave =>
    unfold Sender.leaveDesired
    split <;> simp [hs]
  | acquire hn => exact absurd hw (Bool.eq_false_iff.mp hn)
  | release => cases hr
  | terminal => exact absurd rfl hd
  | unpark | unparkBusy => exact hs
  | _ => simp [hs]

/-- a holder goes on holding and leaves the word alone, or it releases -/
theorem Move.inside (hm : Move v r v' r') (hr : r.holds = true) :
    (v'.word = v.word ∧ r'.holds = true) ∨ ∃ a k o, r = .leaving a k (some o) := by
  cases hm with
  | release => exact Or.inr ⟨_, _, _, rfl⟩
  | wait => exact Or.inl ⟨rfl, hr⟩
  | quit => exact Or.inl ⟨rfl, rfl⟩
  | unpark | unparkBusy | work | stop | await | park | race | raceLost | observe =>
    exact Or.inl ⟨rfl, rfl⟩
  | _ => cases hr

/-- what a holder on its way out will answer, if nobody marks it -/
def Role.Answers (v : View) : Role → Prop
  | .leaving a _ _ => a = .resume ∨ a = .awaiting ∨ (a = .done ∧ v.word.isDestroying = true)
  | _ => True

theorem Move.answers (hm : Move v r v' r') (hc : v.tag = .closed → v.word.isDestroying = true)
    (h : r.Answers v) : r'.Answers v' := by
  have hreturned : ∀ b, (Role.returned b).Answers v' := fun b => by cases b <;> trivial
  cases hm with
  | quit _ hd => exact Or.inr (Or.inr ⟨rfl, hd.elim id hc⟩)
  | unparkBusy | stop | raceLost => exact Or.inl rfl
  | await | race => exact Or.inr (Or.inl rfl)
  | leave | release => exact hreturned _
  | wait | observe => exact h
  | _ => trivial

/-- `destroying` stays -/
theorem Role.Answers.mono {u : Role} (h : u.Answers v)
    (hd : v.word.isDestroying = true → v'.word.isDestroying = true) : u.Answers v' := by
  unfold Role.Answers at h ⊢
  split
  · exact h.imp id (Or.imp id (And.imp id hd))
  · trivial

end

/-! ## the others -/

section
variable {β T X : Type}

/-- a sender changes nothing but the inbox, where it pushes its message -/
theorem sender_frame {weak : Bool} {m m' : ActorMem β} {s s' : Sender β T X}
    (h : s.step weak m = some (m', s')) :
    m'.busy = m.busy ∧ m'.popped = m.popped ∧ (m'.box = m.box ∨
      m'.box = { m.box with inbox := m.box.inbox.push s.msg }) := by
  cases Sender.step_does h with
  | push => exact ⟨rfl, rfl, Or.inr rfl⟩
  | _ => exact ⟨rfl, rfl, Or.inl rfl⟩

/-- a driver that does not hold `running` changes neither the mailbox nor the behavior -/
theorem run_frame {max : Nat} {node : Bool} {g : Choice} {m m' : ActorMem β} {pc pc' : RunPc β}
    (h : Runner.stepPc max g m pc = some (m', pc')) (hr : (pc.role node).holds = false) :
    m'.busy = m.busy ∧ m'.popped = m.popped ∧ m'.box = m.box := by
  cases Runner.step_does h with
  | acqLoad | acqBound | mark | acquire | acqAgain | ret => exact ⟨rfl, rfl, rfl⟩
  | goOn hgo => cases hgo <;> cases hr
  | turnBack hback => cases hback <;> cases hr
  | pop hp | fetch hp => cases hp <;> cases hr
  | @fetchAgain w => cases w <;> cases hr
  | _ => cases hr

/-- nor does the destructor before it is past its drain -/
theorem delete_frame {g : Choice} {m m' : ActorMem β} {d d' : Destructor β}
    (h : d.step g m = some (m', d')) (hd : d.role ≠ .deleting true) :
    m'.busy = m.busy ∧ m'.popped = m.popped ∧ m'.box = m.box := by
  cases Destructor.step_does h with
  | load | publishBound | publish | publishAgain | drained => exact ⟨rfl, rfl, rfl⟩
  | wait hw hm => rcases hm with rfl | rfl <;> exact ⟨rfl, rfl, rfl⟩
  | _ => exact absurd rfl hd

/-- a driver looks for a message where it found no busy behavior, or did so before it fetched -/
theorem Runner.PopsFrom.unbusy {g : Choice} {m m₁ : ActorMem β} {pc : RunPc β} {n : Nat}
    (hp : Runner.PopsFrom g m pc n m₁) (h : ∀ t, pc = .fetching (.pop n) t → m.busy = false) :
    m₁.busy = false := by
  cases hp with
  | loop hb hbusy => exact hbusy
  | resumed => rfl
  | fetched => exact h _ rfl

theorem loopHead_calm (max n : Nat) : (Runner.loopHead max n : RunPc β).calm = false := by
  unfold Runner.loopHead
  split <;> rfl

/-- `behavior()` is called where `is_busy()` was found false, and nothing between changes that -/
theorem run_calm {max : Nat} {g : Choice} {m m' : ActorMem β} {pc pc' : RunPc β}
    (h : Runner.stepPc max g m pc = some (m', pc')) (hpc : pc.calm = true → m.busy = false)
    (hpc' : pc'.calm = true) : m'.busy = false := by
  cases Runner.step_does h with
  | goOn hgo hm =>
    cases hgo with
    | start hd => rcases hm with rfl | rfl <;> exact hpc rfl
    | _ => cases hpc'
  | pop hp | fetch hp =>
    have hbusy := hp.unbusy fun t ht => hpc (by rw [ht]; rfl)
    exact hbusy
  | @fetchAgain w =>
    cases w with
    | pop n => exact hpc rfl
    | _ => cases hpc'
  | entryFull | drop | handle =>
    rw [loopHead_calm] at hpc'
    cases hpc'
  | _ => cases hpc'

/-- who calls `behavior()`, or is about to, holds `running` -/
theorem Thread.calm_run {t : Thread β T X} (h : t.calm = true) :
    t.role.holds = true ∧ ∃ r, t = .run r := by
  cases t with
  | run r =>
    refine ⟨?_, r, rfl⟩
    obtain ⟨max, node, pc⟩ := r
    cases pc with
    | fetching w t => cases w <;> rfl
    | starting n msg | handling n msg => rfl
    | _ => cases h
  | _ => cases h

theorem Thread.deed_holds {t : Thread β T X} {x : Deed β} (h : t.deed = some x) :
    t.role.holds = true := by
  cases t with
  | run r =>
    obtain ⟨max, node, pc⟩ := r
    cases pc with
    | fetching w t => cases w <;> rfl
    | unpark | parking n | loopBlocked n | handling n msg | resuming e => rfl
    | _ => cases h
  | _ => cases h

theorem Thread.holds_run {t : Thread β T X} (h : t.role.holds = true) : ∃ r, t = .run r := by
  cases t with
  | run r => exact ⟨r, rfl⟩
  | send s =>
    obtain ⟨msg, slot, pc⟩ := s
    cases pc with
    | ret needsSched r => cases needsSched <;> cases h
    | _ => cases h
  | delete d => cases d <;> cases h

end

/-! ## runs -/

namespace Actor
variable {β T X : Type} {c d : Conf β T X}

/-- what a thread that does not hold `running` leaves alone -/
theorem exec_frame {g : Choice} {m m' : ActorMem β} {t t' : Thread β T X}
    (h : exec g m t = some (m', t')) (hr : t.role.holds = false) (hd : t.role ≠ .deleting true) :
    m'.busy = m.busy ∧ m'.popped = m.popped ∧ (m'.box = m.box ∨ ∃ s, t = .send s ∧
      m'.box = { m.box with inbox := m.box.inbox.push s.msg }) := by
  rcases exec_cases h with ⟨s, s', rfl, rfl, hs⟩ | ⟨max, node, pc, pc', rfl, rfl, hs⟩ |
    ⟨d, d', rfl, rfl, hs⟩
  · obtain ⟨hb, hp, hbox⟩ := sender_frame hs
    exact ⟨hb, hp, hbox.imp id fun hbox => ⟨s, rfl, hbox⟩⟩
  · obtain ⟨hb, hp, hbox⟩ := run_frame hs hr
    exact ⟨hb, hp, Or.inl hbox⟩
  · obtain ⟨hb, hp, hbox⟩ := delete_frame hs hd
    exact ⟨hb, hp, Or.inl hbox⟩

/-- one holder, who calls `behavior()` only when the last one has finished -/
structure Exclusive (c : Conf β T X) : Prop where
  holders : (c.pool.map Thread.role).countP Role.holds = c.sh.word.isRunning.toNat
  calm : ∀ t ∈ c.pool, t.calm = true → c.sh.busy = false

theorem Exclusive.le_one (h : Exclusive c) : c.pool.countP (fun t => t.role.holds) ≤ 1 := by
  have hc := h.holders
  rw [List.countP_map] at hc
  show c.pool.countP (Role.holds ∘ Thread.role) ≤ 1
  rw [hc]
  exact Bool.toNat_le _

theorem Exclusive.init : Exclusive (init : Conf β T X) where
  holders := by
    show 0 = ActorState.idle.isRunning.toNat
    rw [ActorState.idle_flags.2.1]
    rfl
  calm t ht := absurd ht (List.not_mem_nil)

theorem not_drained (hd : drained c = false) {t : Thread β T X} (ht : t ∈ c.pool) :
    t.role ≠ .deleting true := fun he => by
  have hm : Role.deleting true ∈ c.pool.map Thread.role := he ▸ List.mem_map_of_mem ht
  rw [drained_iff.mpr hm] at hd
  cases hd

theorem enter_calm {m m' : ActorMem β} {t : Thread β T X} (h : enter m t = some m') :
    t.calm = false ∧ m'.busy = m.busy ∧ m'.word = m.word := by
  have hview : m'.view.word = m.view.word ∧ m'.view.busy = m.view.busy ∧ t.role.holds = false := by
    rcases enter_role h with ⟨hr, hv⟩ | ⟨n, hr, -, hv⟩
    · rw [hr, hv]
      exact ⟨rfl, rfl, rfl⟩
    · rw [hr, hv]
      exact ⟨rfl, rfl, rfl⟩
  refine ⟨Bool.eq_false_iff.mpr fun hcalm => ?_, hview.2.1, hview.1⟩
  rw [(Thread.calm_run hcalm).1] at hview
  cases hview.2.2

theorem Exclusive.spawn {t : Thread β T X} (h : Exclusive c)
    (hs : step c (.spawn t) = some d) : Exclusive d := by
  obtain ⟨he, hp⟩ := TS.Conf.step_spawn hs
  obtain ⟨hcalm, hbusy, hword⟩ := enter_calm he
  have hholds : t.role.holds = false := by
    rcases enter_role he with ⟨hr, -⟩ | ⟨n, hr, -⟩
    · rw [hr]
      rfl
    · rw [hr]
      rfl
  refine ⟨?_, fun u hu hcu => ?_⟩
  · rw [hp, hword, List.map_append, List.countP_append, h.holders]
    show _ + [t.role].countP Role.holds = _
    rw [List.countP_singleton, hholds]
    rfl
  · rw [hp] at hu
    rw [hbusy]
    rcases List.mem_append.mp hu with hu | hu
    · exact h.calm u hu hcu
    · rw [List.mem_singleton.mp hu, hcalm] at hcu
      cases hcu

theorem Exclusive.run {i : Nat} {g : Choice} (h : Exclusive c) (hd : drained c = false)
    (hs : step c (.run i g) = some d) : Exclusive d := by
  obtain ⟨l₁, t, l₂, t', hp, -, he, hp'⟩ := TS.Conf.step_run hs
  have hperm : c.pool.Perm (t :: (l₁ ++ l₂)) := hp ▸ List.perm_middle
  have hperm' : d.pool.Perm (t' :: (l₁ ++ l₂)) := hp' ▸ List.perm_middle
  have hdel : t.role ≠ .deleting true := not_drained hd (hperm.mem_iff.mpr List.mem_cons_self)
  refine ⟨?_, fun u hu hcu => ?_⟩
  · have hold := h.holders
    rw [(hperm.map Thread.role).countP_eq, List.map_cons] at hold
    rw [(hperm'.map Thread.role).countP_eq, List.map_cons]
    exact (exec_move he).holders hdel hold
  · rcases List.mem_cons.mp (hperm'.mem_iff.mp hu) with rfl | hu
    · -- the holder that moves
      rcases exec_cases he with ⟨s, s', rfl, rfl, -⟩ | ⟨max, node, pc, pc', rfl, rfl, hstep⟩ |
        ⟨d, d', rfl, rfl, -⟩
      · cases hcu
      · exact run_calm hstep (h.calm _ (hperm.mem_iff.mpr List.mem_cons_self)) hcu
      · cases hcu
    · -- another one holds, so the thread that moves does not
      have huh := (Thread.calm_run hcu).1
      have hnot : t.role.holds = false := by
        refine Bool.eq_false_iff.mpr fun hth => ?_
        have hle := h.le_one
        rw [hp] at hle
        rw [TS.not_of_countP_le_one (p:=fun t : Thread β T X => t.role.holds) hle hth hu] at huh
        cases huh
      rw [(exec_frame he hnot hdel).1]
      exact h.calm u (hperm.mem_iff.mpr (List.mem_cons_of_mem _ hu)) hcu

theorem Exclusive.step {a : Act β T X} (h : Exclusive c) (hd : drained c = false)
    (hs : step c a = some d) : Exclusive d := by
  cases a with
  | spawn t => exact h.spawn hs
  | run i g => exact h.run hd hs

/-- what a driver still inside, or just back, owes whoever lost to it: inside, the scheduled bit
stays set; back, it answers `resume`, or `done` for an actor that is being destroyed -/
def Owes (m : ActorMem β) (r : Runner β) : Prop :=
  ((r.pc.role r.node).holds = true ∧ m.word.isScheduled = true) ∨
  (∃ n, r.pc = .ret .resume n) ∨ (∃ n, r.pc = .ret .done n ∧ m.word.isDestroying = true) ∨
  r.pc = .gone

def Marked (c : Conf β T X) (j : Nat) : Prop := ∃ r, c.pool[j]? = some (.run r) ∧ Owes c.sh r

theorem role_leaving {node : Bool} {pc : RunPc β} {a : ResumeResult} {k o : Bool}
    (h : pc.role node = .leaving a k (some o)) :
    ∃ n w i, pc = .guardCas a n k w i ∧ w.scheduledWhileRunning = o := by
  cases pc with
  | guardCas a n k w i => cases h; exact ⟨n, w, i, rfl, rfl⟩
  | fetching w t => cases w <;> cases h
  | ret a n => cases a <;> cases h
  | _ => cases h

/-- the holder that was marked moves -/
theorem Owes.move {max : Nat} {node : Bool} {g : Choice} {m m' : ActorMem β} {pc pc' : RunPc β}
    (h : Owes m ⟨max, node, pc⟩) (ha : (pc.role node).Answers m.view)
    (hs : Runner.stepPc max g m pc = some (m', pc')) : Owes m' ⟨max, node, pc'⟩ := by
  rcases h with ⟨hh, hsch⟩ | ⟨n, hpc⟩ | ⟨n, hpc, -⟩ | hpc
  · rcases (run_move hs).inside hh with ⟨hw, hh'⟩ | ⟨a, k, o, hrole⟩
    · exact Or.inl ⟨hh', (congrArg ActorState.isScheduled hw).trans hsch⟩
    · -- in `~resume_guard`: the bit is in the word that the compare-exchange replaces
      obtain ⟨n, w, i, hpc, -⟩ := role_leaving hrole
      have hpc : pc = .guardCas a n k w i := hpc
      rw [hrole] at ha
      subst hpc
      cases Runner.step_does hs with
      | guardBound | guardAgain => exact Or.inl ⟨rfl, hsch⟩
      | release hc hw =>
        have hseen : w.scheduledWhileRunning = true := w.covers (hw ▸ hsch)
        rw [hseen]
        rcases ha with rfl | rfl | ⟨rfl, hd⟩
        · exact Or.inr (Or.inl ⟨n, rfl⟩)
        · exact Or.inr (Or.inl ⟨n, rfl⟩)
        · refine Or.inr (Or.inr (Or.inl ⟨n, rfl, ?_⟩))
          have hd : m.word.isDestroying = true := hd
          show (Runner.guardDesired k m.word).isDestroying = true
          simp [Runner.guardDesired, hd]
      | goOn hgo => cases hgo
      | turnBack hback => cases hback
      | pop hp | fetch hp => cases hp
  · have hpc : pc = .ret .resume n := hpc
    subst hpc
    cases hs
    exact Or.inr (Or.inr (Or.inr rfl))
  · have hpc : pc = .ret .done n := hpc
    subst hpc
    cases hs
    exact Or.inr (Or.inr (Or.inr rfl))
  · have hpc : pc = .gone := hpc
    subst hpc
    cases hs

/-- what holds of an actor in any run -/
structure Guarded (c : Conf β T X) : Prop where
  alive : Alive c
  answers : ∀ t ∈ c.pool, t.role.Answers c.sh.view
  exclusive : drained c = false → Exclusive c

theorem Guarded.init : Guarded (init : Conf β T X) :=
  ⟨Alive.init, fun _ ht => absurd ht (List.not_mem_nil), fun _ => Exclusive.init⟩

theorem Guarded.step {a : Act β T X} (h : Guarded c) (hs : step c a = some d) : Guarded d := by
  refine ⟨h.alive.step hs, fun u hu => ?_, fun hd => ?_⟩
  · rcases TS.Conf.step_cases hs with ⟨t, rfl, he, hp⟩ | ⟨i, g, t, t', rest, -, -, he, hp, hp'⟩
    · have hword := (enter_calm he).2.2
      rcases List.mem_cons.mp (hp.mem_iff.mp hu) with rfl | hu
      · rcases enter_role he with ⟨hr, -⟩ | ⟨n, hr, -⟩
        · rw [hr]
          trivial
        · rw [hr]
          trivial
      · refine (h.answers u hu).mono fun hd => ?_
        rw [show d.sh.view.word = c.sh.view.word from hword]
        exact hd
    · have hm := exec_move he
      rcases List.mem_cons.mp (hp'.mem_iff.mp hu) with rfl | hu
      · exact hm.answers h.alive.safe.closed
          (h.answers t (hp.mem_iff.mpr List.mem_cons_self))
      · exact (h.answers u (hp.mem_iff.mpr (List.mem_cons_of_mem _ hu))).mono hm.destroying
  · have hd0 : drained c = false := Bool.eq_false_iff.mpr fun ht => by
      rw [drained_step hs ht] at hd
      cases hd
    exact (h.exclusive hd0).step hd0 hs

theorem guarded_of_run {as : List (Act β T X)} (h : TS.run step init as = some c) : Guarded c :=
  TS.run_inv (fun _ _ _ => Guarded.step) Guarded.init h

/-- while a marked holder is inside, whatever the others do leaves it marked -/
theorem Marked.step {a : Act β T X} {j : Nat} (h : Marked c j) (hG : Guarded c)
    (hd : drained c = false) (hs : step c a = some d) : Marked d j := by
  obtain ⟨r, hr, howes⟩ := h
  cases a with
  | spawn t =>
    obtain ⟨he, hp⟩ := TS.Conf.step_spawn hs
    refine ⟨r, ?_, ?_⟩
    · obtain ⟨hlt, -⟩ := List.getElem?_eq_some_iff.mp hr
      rw [hp, List.getElem?_append_left hlt]
      exact hr
    · unfold Owes
      rw [(enter_calm he).2.2]
      exact howes
  | run i g =>
    obtain ⟨t, ht, h'⟩ := Option.bind_eq_some_iff.mp hs
    obtain ⟨⟨m', t'⟩, he, hd'⟩ := Option.map_eq_some_iff.mp h'
    obtain rfl : (⟨m', c.pool.set i t'⟩ : Conf β T X) = d := hd'
    by_cases hij : i = j
    · subst hij
      have htr : t = .run r := Option.some.inj (ht.symm.trans hr)
      subst htr
      rcases exec_cases he with ⟨s, s', hcon, -⟩ | ⟨max, node, pc, pc', heq, rfl, hstep⟩ |
        ⟨d, d', hcon, -⟩
      · cases hcon
      · cases heq
        refine ⟨⟨max, node, pc'⟩, ?_, howes.move (hG.answers _ (List.mem_of_getElem? hr)) hstep⟩
        obtain ⟨hlt, -⟩ := List.getElem?_eq_some_iff.mp hr
        show (c.pool.set i _)[i]? = _
        rw [List.getElem?_set_self hlt]
      · cases hcon
    · refine ⟨r, ?_, ?_⟩
      · show (c.pool.set i t')[j]? = _
        rw [List.getElem?_set_ne hij]
        exact hr
      · have hm := exec_move he
        have hdel := not_drained hd (List.mem_of_getElem? ht)
        rcases howes with ⟨hh, hsch⟩ | hret | ⟨n, hret, hdes⟩ | hgone
        · have hE := hG.exclusive hd
          have hnot : t.role.holds = false := by
            refine Bool.eq_false_iff.mpr fun hth => hij ?_
            exact TS.eq_of_countP_le_one hE.le_one ht hr hth hh
          have hrun : c.sh.word.isRunning = true := by
            have hpos : 0 < (c.pool.map Thread.role).countP Role.holds :=
              List.countP_pos_iff.mpr ⟨_, List.mem_map_of_mem (List.mem_of_getElem? hr), hh⟩
            rw [hE.holders] at hpos
            cases hw : c.sh.word.isRunning with
            | true => rfl
            | false =>
              rw [hw] at hpos
              cases hpos
          exact Or.inl ⟨hh, hm.scheduled hdel hnot hrun hsch⟩
        · exact Or.inr (Or.inl hret)
        · exact Or.inr (Or.inr (Or.inl ⟨n, hret, hm.destroying hdes⟩))
        · exact Or.inr (Or.inr (Or.inr hgone))

theorem Marked.run {j : Nat} {bs : List (Act β T X)} (h : Marked c j) (hG : Guarded c)
    (hr : TS.run Actor.step c bs = some d) (hd : drained d = false) : Marked d j := by
  have hinv : Guarded d ∧ (drained d = false → Marked d j) := by
    refine TS.run_inv (I:=fun x => Guarded x ∧ (drained x = false → Marked x j)) ?_
      ⟨hG, fun _ => h⟩ hr
    rintro x a y ⟨hGx, hx⟩ hxy
    refine ⟨hGx.step hxy, fun hy => ?_⟩
    have hx0 : drained x = false := Bool.eq_false_iff.mpr fun ht => by
      rw [drained_step hxy ht] at hy
      cases hy
    exact (hx hx0).step hGx hx0 hxy
  exact hinv.2 hd

/-- `try_acquire_running()` fails, and `resume()` returns -/
def Loses (c d : Conf β T X) (i : Nat) (a : ResumeResult) (n : Nat) : Prop :=
  ∃ g r r' current k, step c (.run i g) = some d ∧ c.pool[i]? = some (.run r) ∧
    r.pc = .acqCas current k ∧ d.pool[i]? = some (.run r') ∧ r'.pc = .ret a n

/-- the loser has set `scheduled` in a word with `running` set -/
theorem Loses.marks {i n : Nat} {a : ResumeResult} (h : Loses c d i a n) :
    a = .awaiting ∧ n = 0 ∧ c.sh.word.isRunning = true ∧ d.sh.word.isScheduled = true ∧
      ∃ t r, c.pool[i]? = some t ∧ t.role.holds = false ∧ d.pool = c.pool.set i (.run r) := by
  obtain ⟨g, r, r', current, k, hs, hr, hpc, hr', hpc'⟩ := h
  obtain ⟨t, ht, h'⟩ := Option.bind_eq_some_iff.mp hs
  obtain ⟨⟨m', t'⟩, he, hd'⟩ := Option.map_eq_some_iff.mp h'
  obtain rfl : (⟨m', c.pool.set i t'⟩ : Conf β T X) = d := hd'
  have htr : t = .run r := Option.some.inj (ht.symm.trans hr)
  subst htr
  have hset : t' = .run r' := by
    obtain ⟨hlt, -⟩ := List.getElem?_eq_some_iff.mp hr
    have hget : (c.pool.set i t')[i]? = some (.run r') := hr'
    rw [List.getElem?_set_self hlt] at hget
    exact Option.some.inj hget
  subst hset
  obtain ⟨max, node, pc⟩ := r
  obtain ⟨max', node', pc'⟩ := r'
  have hpc : pc = .acqCas current k := hpc
  have hpc' : pc' = .ret a n := hpc'
  subst hpc hpc'
  rcases exec_cases he with ⟨s, s', hcon, -⟩ | ⟨max1, node1, pc1, pc1', heq, heq', hstep⟩ |
    ⟨d, d', hcon, -⟩
  · cases hcon
  · cases heq
    cases heq'
    cases Runner.step_does hstep with
    | mark hc hrun =>
      refine ⟨rfl, rfl, hrun, ?_, _, _, hr, rfl, rfl⟩
      show (c.sh.word.setScheduled true).isScheduled = true
      simp
    | goOn hgo => cases hgo
  · cases hcon

/-- what the calls of `resume()` may rely on -/
structure SerialExecution (c : Conf β T X) : Prop where
  /-- one thread at most is between a successful `try_acquire_running` and the compare-exchange of
  its `~resume_guard`, and one is exactly if `running` is set -/
  one : (c.pool.countP fun t => t.role.holds) = c.sh.word.isRunning.toNat
  /-- only that thread pops, fetches, blocks, unblocks, calls `behavior()`, resumes a continuation -/
  only : ∀ t ∈ c.pool, ∀ x, t.deed = some x → t.role.holds = true
  /-- and what another one does to the mailbox and to the behavior is to push its message -/
  others : ∀ i g d t, step c (.run i g) = some d → c.pool[i]? = some t → t.role.holds = false →
    d.sh.busy = c.sh.busy ∧ d.sh.popped = c.sh.popped ∧ (d.sh.box = c.sh.box ∨
      ∃ s, t = .send s ∧ d.sh.box = { c.sh.box with inbox := c.sh.box.inbox.push s.msg })
  /-- `behavior()` is called when the last behavior has finished -/
  finished : ∀ t ∈ c.pool, ∀ msg, t.deed = some (.behavior msg) → c.sh.busy = false
  /-- a call that loses answers (awaiting, 0), and the one holder it lost to stays scheduled until
  it answers `resume`, or `done` -/
  lost : ∀ d i a n, Loses c d i a n → a = .awaiting ∧ n = 0 ∧
    ∃ (j : Nat) (r : Runner β), c.pool[j]? = some (.run r) ∧ (r.pc.role r.node).holds = true ∧
      (∀ (k : Nat) (t : Thread β T X), c.pool[k]? = some t → t.role.holds = true → k = j) ∧
      ∀ bs e, TS.run step d bs = some e → drained e = false →
        ∃ r' : Runner β, e.pool[j]? = some (.run r') ∧ Owes e.sh r'

/-- **Serial execution of an actor**, in every reachable state of any number of senders and of
drivers, called or uncalled, until the destructor is past its drain. -/
theorem serial_execution (as : List (Act β T X)) (c : Conf β T X)
    (h : TS.run step init as = some c) (hd : drained c = false) : SerialExecution c := by
  have hG := guarded_of_run h
  have hE := hG.exclusive hd
  have hone : (c.pool.countP fun t => t.role.holds) = c.sh.word.isRunning.toNat := by
    rw [← hE.holders, List.countP_map]
    rfl
  constructor
  case one => exact hone
  case only => exact fun t _ x hx => Thread.deed_holds hx
  case others =>
    intro i g d t hs ht hh
    obtain ⟨u, hu, h'⟩ := Option.bind_eq_some_iff.mp hs
    obtain ⟨⟨m', t'⟩, he, hd'⟩ := Option.map_eq_some_iff.mp h'
    obtain rfl : (⟨m', c.pool.set i t'⟩ : Conf β T X) = d := hd'
    have htu : u = t := Option.some.inj (hu.symm.trans ht)
    subst htu
    exact exec_frame he hh (not_drained hd (List.mem_of_getElem? ht))
  case finished =>
    intro t ht msg hx
    refine hE.calm t ht ?_
    cases t with
    | run r =>
      obtain ⟨max, node, pc⟩ := r
      cases pc with
      | handling n m => rfl
      | _ => cases hx
    | _ => cases hx
  case lost =>
    intro d i a n hl
    obtain ⟨ha, hn, hrun, hsch, t, r, ht, hnot, hpool⟩ := hl.marks
    have hpos : 0 < c.pool.countP fun t => t.role.holds := by
      rw [hone, hrun]
      exact Nat.one_pos
    obtain ⟨u, hu, huh⟩ := List.countP_pos_iff.mp hpos
    obtain ⟨j, hj⟩ := List.getElem?_of_mem hu
    obtain ⟨rj, rfl⟩ := Thread.holds_run huh
    refine ⟨ha, hn, j, rj, hj, huh, fun k v hk hv => ?_, fun bs e hbs he => ?_⟩
    · exact TS.eq_of_countP_le_one hE.le_one hk hj hv huh
    · have hij : i ≠ j := fun hij => by
        subst hij
        rw [Option.some.inj (ht.symm.trans hj)] at hnot
        rw [hnot] at huh
        cases huh
      obtain ⟨g, -, -, -, -, hs, -⟩ := hl
      refine Marked.run ⟨rj, ?_, Or.inl ⟨huh, hsch⟩⟩ (hG.step hs) hbs he
      rw [hpool, List.getElem?_set_ne hij]
      exact hj

/-- a driver handles a message, and the handler calls `resume()` of its own actor -/
def reentered : List (Act Unit Nat Unit) :=
  [.spawn (.send ⟨⟨16, 1 <<< 60, ()⟩, .fresh, .regLoad⟩)] ++
    List.replicate 7 (.run 0 ⟨false, false, false, false⟩) ++ [.spawn (.run ⟨1, true, .acqLoad⟩)] ++
    List.replicate 12 (.run 1 ⟨false, false, false, false⟩) ++
    [.spawn (.run ⟨1, false, .acqLoad⟩), .run 2 ⟨false, false, false, false⟩]

theorem serial_execution_reentered :
    ∃ (c d : Conf Unit Nat Unit) (r : Runner Unit), c.pool[1]? = some (.run r) ∧
      r.pc.deed = some (.behavior ⟨16, 1 <<< 60, ()⟩) ∧ Loses c d 2 .awaiting 0 ∧
      SerialExecution c :=
  ⟨_, _, _, rfl, rfl, ⟨⟨false, false, false, false⟩, _, _, _, _, rfl, rfl, rfl, rfl, rfl⟩,
    serial_execution reentered _ rfl rfl⟩

end Actor
end ActorZeta
