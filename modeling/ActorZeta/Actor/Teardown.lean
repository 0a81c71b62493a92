import ActorZeta.Actor.Wakeup

/-!
# Senders and drivers against the destructor

* `Drain`        the word counts the registered senders and shows the holder; past the drain there
                 are neither;
* `Drain.move`   every move keeps it, if the drain ends only while no driver stands before its
                 acquiring compare-exchange;
* `inTime`       the conditions on a program that destroys an actor: few enough senders, no
                 `resume()` begun after `destroying` was published, none before its acquiring
                 compare-exchange when the drain ends;
* `LateAt`       a sender that comes when `destroying` was published stays at the door or is told;
* `destruction_safe`   what holds in every run that meets them;
* `late_acquire`   without the last of the conditions a driver acquires `running` behind the drain.
-/

namespace ActorZeta

/-- most senders the word can count -/
def maxSenders : Nat := 2 ^ 29 - 1

/-- a party that works on the actor, or is about to -/
def Role.inside (r : Role) : Bool := r.isRegistered || r.holds || r.isEarly

structure Drain (v : View) (rs : List Role) : Prop where
  count : v.word.senderCount.toNat = rs.countP Role.isRegistered
  holders : rs.countP Role.holds = v.word.isRunning.toNat
  drained : .deleting true ∈ rs → ∀ r ∈ rs, r.inside = false

section
variable {v v' : View} {r r' : Role} {rs rs' : List Role}

theorem Role.inside_false :
    r.inside = false ↔ r.isRegistered = false ∧ r.holds = false ∧ r.isEarly = false := by
  simp [Role.inside, and_assoc]

theorem Drain.perm (hp : rs.Perm rs') (h : Drain v rs) : Drain v rs' where
  count := hp.countP_eq Role.isRegistered ▸ h.count
  holders := hp.countP_eq Role.holds ▸ h.holders
  drained hd r hr := h.drained (hp.mem_iff.mpr hd) r (hp.mem_iff.mpr hr)

/-- whoever is inside holds the destructor up -/
theorem Drain.not_drained (h : Drain v (r :: rs)) (hr : r.inside = true) :
    Role.deleting true ∉ r :: rs := fun hm => by
  rw [h.drained hm r List.mem_cons_self] at hr
  cases hr

/-- a party that comes in while the destructor is not past its drain -/
theorem Drain.absent (h : Role.deleting true ∉ r :: rs) (hr : r' ≠ .deleting true) :
    Role.deleting true ∈ r' :: rs → ∀ u ∈ r' :: rs, u.inside = false := fun hm => by
  rcases List.mem_cons.mp hm with he | he
  · exact absurd he.symm hr
  · exact absurd (List.mem_cons_of_mem _ he) h

/-- a step that neither registers, deregisters, acquires nor releases -/
theorem Drain.steady (h : Drain v (r :: rs)) (hr : r'.isRegistered = r.isRegistered)
    (hh : r'.holds = r.holds) (hd : r' = .deleting true → r = .deleting true)
    (he : r'.isEarly = true → r.isEarly = true)
    (hc : v'.word.senderCount = v.word.senderCount)
    (hrun : v'.word.isRunning = v.word.isRunning) : Drain v' (r' :: rs) where
  count := by
    have := h.count
    rw [List.countP_cons] at this ⊢
    rwa [hr, hc]
  holders := by
    have := h.holders
    rw [List.countP_cons] at this ⊢
    rwa [hh, hrun]
  drained hm u hu := by
    have hm' : Role.deleting true ∈ r :: rs := by
      rcases List.mem_cons.mp hm with he | he
      · exact List.mem_cons.mpr (Or.inl (hd he.symm).symm)
      · exact List.mem_cons_of_mem _ he
    have hall := h.drained hm'
    rcases List.mem_cons.mp hu with rfl | hu
    · obtain ⟨h1, h2, h3⟩ := Role.inside_false.mp (hall r List.mem_cons_self)
      refine Role.inside_false.mpr ⟨hr.trans h1, hh.trans h2, ?_⟩
      exact Bool.eq_false_iff.mpr fun ht => by rw [he ht] at h3; cases h3
    · exact hall u (List.mem_cons_of_mem _ hu)

/-- a sender registers: the destructor has not even published `destroying` -/
theorem Drain.register (h : Drain v (.apart :: rs)) (hS : Safe v (.apart :: rs))
    (hb : rs.countP Role.isRegistered < maxSenders) (hd : v.word.isDestroying = false) :
    Drain { v with word := v.word.addSender } (.registered false :: rs) where
  count := by
    have hc := h.count
    rw [List.countP_cons] at hc ⊢
    have hlt : v.word.senderCount.toNat < 2 ^ 29 - 1 := by rw [hc]; exact hb
    show v.word.addSender.senderCount.toNat = _
    rw [ActorState.senderCount_addSender hlt, hc]
    rfl
  holders := by
    have := h.holders
    rw [List.countP_cons] at this ⊢
    show rs.countP Role.holds + 0 = v.word.addSender.isRunning.toNat
    rwa [ActorState.isRunning_addSender]
  drained := by
    refine Drain.absent (r:=.apart) (fun hm => ?_) nofun
    rw [hS.published _ hm true rfl] at hd
    cases hd

theorem Drain.leave {p : Bool} (h : Drain v (.registered p :: rs)) :
    Drain { v with word := (Sender.leaveDesired v.word p).1 }
      (.returned (Sender.leaveDesired v.word p).2 :: rs) := by
  have hreg : ∀ b, (Role.returned b).isRegistered = false := by decide
  have hholds : ∀ b, (Role.returned b).holds = false := by decide
  have hdel : ∀ b, Role.returned b ≠ .deleting true := by decide
  have hc := h.count
  rw [List.countP_cons] at hc
  have hpos : 0 < v.word.senderCount.toNat := by rw [hc]; exact Nat.succ_pos _
  have hword : (Sender.leaveDesired v.word p).1.senderCount = v.word.subSender.senderCount ∧
      (Sender.leaveDesired v.word p).1.isRunning = v.word.isRunning := by
    unfold Sender.leaveDesired
    split <;> simp
  obtain ⟨hcount, hrun⟩ := hword
  refine ⟨?_, ?_, Drain.absent (h.not_drained rfl) (hdel _)⟩
  · have hsub := ActorState.senderCount_subSender hpos
    show (Sender.leaveDesired v.word p).1.senderCount.toNat = _
    rw [hcount, List.countP_cons, hreg]
    rw [hc] at hsub
    exact Nat.succ.inj hsub
  · have := h.holders
    rw [List.countP_cons] at this ⊢
    show _ = (Sender.leaveDesired v.word p).1.isRunning.toNat
    rw [hholds, hrun]
    exact this

theorem Drain.acquire {n : Bool} (h : Drain v (.early n :: rs)) (hn : v.word.isRunning = false) :
    Drain { v with word := (v.word.setRunning true).setScheduled false } (.entering :: rs) := by
  refine ⟨?_, ?_, Drain.absent (h.not_drained rfl) nofun⟩
  · have := h.count
    rw [List.countP_cons] at this ⊢
    simpa [Role.isRegistered] using this
  · have := h.holders
    rw [List.countP_cons, hn] at this
    rw [List.countP_cons]
    simpa [Role.holds] using this

theorem Drain.release {a : ResumeResult} {k : Bool} {o : Option Bool} {owes : Bool}
    (h : Drain v (.leaving a k o :: rs)) :
    Drain { v with word := Runner.guardDesired k v.word } (.returned owes :: rs) := by
  have hreg : (Role.returned owes).isRegistered = false := by cases owes <;> rfl
  have hholds : (Role.returned owes).holds = false := by cases owes <;> rfl
  have hdel : Role.returned owes ≠ .deleting true := by cases owes <;> decide
  refine ⟨?_, ?_, Drain.absent (h.not_drained rfl) hdel⟩
  · have := h.count
    rw [List.countP_cons] at this ⊢
    rw [hreg]
    simpa [Role.isRegistered, Runner.guardDesired] using this
  · -- whoever leaves was the holder
    have hone := h.holders
    rw [List.countP_cons, if_pos (by rfl)] at hone
    have hle := Bool.toNat_le v.word.isRunning
    rw [List.countP_cons, hholds]
    show _ = (Runner.guardDesired k v.word).isRunning.toNat
    have hrun : (Runner.guardDesired k v.word).isRunning = false := by simp [Runner.guardDesired]
    rw [hrun]
    show rs.countP Role.holds = 0
    omega

/-- the drain ends, with no driver at the door -/
theorem Drain.depart (h : Drain v (.deleting false :: rs)) (hr : v.word.isRunning = false)
    (hc : v.word.senderCount = 0) (he : ∀ u ∈ rs, u.isEarly = false) :
    Drain v (.deleting true :: rs) where
  count := h.count
  holders := h.holders
  drained _ u hu := by
    have hcount : rs.countP Role.isRegistered = 0 := by
      have hcount := h.count
      rw [hc] at hcount
      exact hcount.symm
    have hholders : rs.countP Role.holds = 0 := by
      have hholders := h.holders
      rw [hr] at hholders
      exact hholders
    rcases List.mem_cons.mp hu with rfl | hu
    · rfl
    · exact Role.inside_false.mpr
        ⟨Bool.eq_false_iff.mpr (List.countP_eq_zero.mp hcount u hu),
          Bool.eq_false_iff.mpr (List.countP_eq_zero.mp hholders u hu), he u hu⟩

/-- the terminal store erases neither a sender nor a holder: there are none -/
theorem Drain.terminal (h : Drain v (.deleting true :: rs)) :
    Drain { v with word := .makeState false false true } (.deleting true :: rs) := by
  have hall := h.drained List.mem_cons_self
  have hcount : (Role.deleting true :: rs).countP Role.isRegistered = 0 :=
    List.countP_eq_zero.mpr fun u hu =>
      Bool.eq_false_iff.mp (Role.inside_false.mp (hall u hu)).1
  have hholders : (Role.deleting true :: rs).countP Role.holds = 0 :=
    List.countP_eq_zero.mpr fun u hu =>
      Bool.eq_false_iff.mp (Role.inside_false.mp (hall u hu)).2.1
  refine ⟨?_, ?_, fun _ => hall⟩
  · show (ActorState.makeState false false true).senderCount.toNat = _
    rw [hcount, ActorState.senderCount_makeState]
    rfl
  · show _ = (ActorState.makeState false false true).isRunning.toNat
    rw [hholders, (ActorState.makeState_flags false false true).2.1]
    rfl

/-- the destructor does not come back from the end of its drain -/
theorem Move.stays_drained (hm : Move v (.deleting true) v' r') : r' = .deleting true := by
  cases hm with
  | wait | terminal | tearDown => rfl
  | quit hr => rcases hr with hr | ⟨b, hr⟩ <;> cases hr

/-- **One step.**  The drain ends only with no driver at the door. -/
theorem Drain.move (h : Drain v (r :: rs)) (hm : Move v r v' r') (hS : Safe v (r :: rs))
    (hb : rs.countP Role.isRegistered < maxSenders)
    (hout : r ≠ .deleting true → r' = .deleting true → ∀ u ∈ rs, u.isEarly = false) :
    Drain v' (r' :: rs) := by
  cases hm with
  | wait => exact h
  | register hd => exact h.register hS hb hd
  | leave => exact h.leave
  | acquire hn => exact h.acquire hn
  | release => exact h.release
  | drained hr hc => exact h.depart hr hc (hout nofun rfl)
  | terminal => exact h.terminal
  | tearDown => exact h.steady rfl rfl id nofun rfl rfl
  | quit hr => rcases hr with rfl | ⟨b, rfl⟩ <;> exact h.steady rfl rfl nofun nofun rfl rfl
  | mark | publish => exact h.steady rfl rfl nofun nofun (by simp) (by simp)
  | _ => exact h.steady rfl rfl nofun nofun rfl rfl

/-- a thread begins: outside, or as a driver of an actor that is not being destroyed -/
theorem Drain.enter (h : Drain v rs) (hS : Safe v rs) (hw : v'.word = v.word)
    (hr : r = .apart ∨ ∃ n, r = .early n ∧ v.word.isDestroying = false) : Drain v' (r :: rs) := by
  refine ⟨?_, ?_, fun hm u hu => ?_⟩
  · rw [hw, h.count]
    rcases hr with rfl | ⟨n, rfl, -⟩ <;> rfl
  · rw [hw, ← h.holders]
    rcases hr with rfl | ⟨n, rfl, -⟩ <;> rfl
  · rcases hr with rfl | ⟨n, rfl, hn⟩
    · have hm : Role.deleting true ∈ rs := (List.mem_cons.mp hm).resolve_left nofun
      rcases List.mem_cons.mp hu with rfl | hu
      · rfl
      · exact h.drained hm u hu
    · have hm : Role.deleting true ∈ rs := (List.mem_cons.mp hm).resolve_left nofun
      rw [hS.published _ hm true rfl] at hn
      cases hn

end

/-! ## who touches the mailbox -/

section
variable {β T X : Type}

/-- an access finds the mailbox as it is: only a party inside the protocol makes one -/
def Touches (m m' : ActorMem β) (r : Role) : Prop :=
  m'.boxAlive = m.boxAlive ∧
    (m'.touchedDead = m.touchedDead ∨ r.inside = true ∧ m'.touchedDead = m.touch.touchedDead)

theorem sender_touches {weak : Bool} {m m' : ActorMem β} {s s' : Sender β T X}
    (h : s.step weak m = some (m', s')) : Touches m m' s.pc.role := by
  cases Sender.step_does h with
  | look | pushRefused | push => exact ⟨rfl, Or.inr ⟨rfl, rfl⟩⟩
  | _ => exact ⟨rfl, Or.inl rfl⟩

/-- a driver is inside until it returns -/
theorem inside_of_open {pc : RunPc β} {node : Bool} (hret : ∀ a n, pc ≠ .ret a n)
    (hgone : pc ≠ .gone) : (pc.role node).inside = true := by
  cases pc with
  | fetching w t => cases w <;> rfl
  | ret a n => exact absurd rfl (hret a n)
  | gone => exact absurd rfl hgone
  | _ => rfl

/-- where a driver looks for a message -/
theorem Runner.PopsFrom.touches {g : Choice} {m m₁ : ActorMem β} {pc : RunPc β} {n : Nat}
    (hp : Runner.PopsFrom g m pc n m₁) (node : Bool) : Touches m m₁ (pc.role node) := by
  cases hp with
  | resumed => exact ⟨rfl, Or.inl rfl⟩
  | loop | fetched => exact ⟨rfl, Or.inr ⟨rfl, rfl⟩⟩

theorem run_touches {max : Nat} {node : Bool} {g : Choice} {m m' : ActorMem β} {pc pc' : RunPc β}
    (h : Runner.stepPc max g m pc = some (m', pc')) : Touches m m' (pc.role node) := by
  have hsame : m' = m ∨ m' = m.touch → (pc.role node).inside = true →
      Touches m m' (pc.role node) := by
    rintro (rfl | rfl) hin
    · exact ⟨rfl, Or.inl rfl⟩
    · exact ⟨rfl, Or.inr ⟨hin, rfl⟩⟩
  cases Runner.step_does h with
  | goOn hgo hm =>
    refine hsame hm (inside_of_open ?_ ?_)
    · rintro a n rfl
      cases hgo
    · rintro rfl
      cases hgo
  | turnBack hback hm =>
    refine hsame hm (inside_of_open ?_ ?_)
    · rintro a n rfl
      cases hback
    · rintro rfl
      cases hback
  | pop hp | fetch hp => exact hp.touches node
  | @fetchAgain w t last hf => exact ⟨rfl, Or.inr ⟨by cases w <;> rfl, rfl⟩⟩
  | unpark | unparkReady | unparkBusy | entryEmpty | entryFull | raceEmpty | raceLost | nothing
  | park | stay => exact ⟨rfl, Or.inr ⟨rfl, rfl⟩⟩
  | _ => exact ⟨rfl, Or.inl rfl⟩

/-- the destructor's own accesses are in order; the mailbox dies past its drain -/
theorem delete_touches {g : Choice} {m m' : ActorMem β} {d d' : Destructor β}
    (h : d.step g m = some (m', d')) :
    m'.touchedDead = m.touchedDead ∧ (m'.boxAlive = m.boxAlive ∨ d'.role = .deleting true) := by
  cases Destructor.step_does h with
  | wait hw hm => rcases hm with rfl | rfl <;> exact ⟨rfl, Or.inl rfl⟩
  | closed | close => exact ⟨rfl, Or.inr rfl⟩
  | _ => exact ⟨rfl, Or.inl rfl⟩

theorem exec_touches {g : Choice} {m m' : ActorMem β} {t t' : Thread β T X}
    (h : Actor.exec g m t = some (m', t')) :
    (m'.boxAlive = m.boxAlive ∨ t'.role = .deleting true) ∧
      (m'.touchedDead = m.touchedDead ∨
        t.role.inside = true ∧ m'.touchedDead = m.touch.touchedDead) := by
  rcases Actor.exec_cases h with ⟨s, s', rfl, rfl, hs⟩ | ⟨max, node, pc, pc', rfl, rfl, hs⟩ |
    ⟨d, d', rfl, rfl, hs⟩
  · exact (sender_touches hs).imp Or.inl id
  · exact (run_touches hs).imp Or.inl id
  · exact ⟨(delete_touches hs).2, Or.inl (delete_touches hs).1⟩

theorem enter_touches {m m' : ActorMem β} {t : Thread β T X} (h : Actor.enter m t = some m') :
    m'.boxAlive = m.boxAlive ∧ m'.touchedDead = m.touchedDead := by
  unfold Actor.enter at h
  split at h
  · split at h <;> cases h; exact ⟨rfl, rfl⟩
  · split at h <;> cases h; exact ⟨rfl, rfl⟩
  · split at h <;> cases h; exact ⟨rfl, rfl⟩
  · cases h

end

/-! ## refused calls -/

section
variable {β T X : Type}

/-- the caller of a refused `send()` owes nothing, and its future is ready with
`operation_canceled` -/
def Sender.Refused (s : Sender β T X) : Prop :=
  s.slot.isReady = true ∧ s.slot.hasError = true ∧ s.slot.getError = .errc .operationCanceled

/-- what a sender knows about a refused message -/
def Sender.Told (s : Sender β T X) : Prop :=
  match s.pc with
  | .leaveLoad .queueClosed | .leaveCas .queueClosed _ _ => s.Refused
  | .ret needsSched .queueClosed => needsSched = false ∧ s.Refused
  | _ => True

theorem Sender.dropMessage_refused (s : Sender β T X) (pc : SendPc) : (s.dropMessage pc).Refused :=
  State.cleanupFn_canceled s.slot

theorem sender_told {weak : Bool} {m m' : ActorMem β} {s s' : Sender β T X} (h : s.Told)
    (hs : s.step weak m = some (m', s')) : s'.Told := by
  cases Sender.step_does hs with
  | refused => exact ⟨rfl, Sender.dropMessage_refused _ _⟩
  | pushRefused => exact Sender.dropMessage_refused _ _
  | push hpush hb =>
    unfold Push.pushed
    split <;> trivial
  | @leaveLoad msg slot r => cases r <;> exact h
  | @leave msg slot r n hc =>
    cases r with
    | queueClosed => exact ⟨rfl, h⟩
    | success | unblockedReader => trivial
  | @leaveAgain msg slot r => cases r <;> exact h
  | leaveBound => exact h
  | regLoad | regBound | register | regAgain | look | ret => trivial

/-- a registering read that sees `destroying` -/
theorem sender_refused {weak : Bool} {m m' : ActorMem β} {s s' : Sender β T X}
    {current : ActorState} {n : Nat} (hpc : s.pc = .regCas current n)
    (hd : current.isDestroying = true) (hs : s.step weak m = some (m', s'))
    (ha : m'.aborted = false) :
    s'.pc = .ret false .queueClosed ∧ s'.Refused ∧ m' = m.destroy s.msg := by
  simp only [Sender.step, hpc] at hs
  split at hs
  · cases hs; cases ha
  · rw [if_pos hd] at hs
    cases hs
    exact ⟨rfl, Sender.dropMessage_refused _ _, rfl⟩

/-- before its registering compare-exchange -/
def SendPc.unregistered : SendPc → Bool
  | .regLoad | .regCas _ _ => true
  | _ => false

/-- what becomes of a call that comes too late: it is still at the door, or it was told
`queue_closed`, has owed nothing, and finds its future canceled -/
def Sender.Late (s : Sender β T X) : Prop :=
  s.pc.unregistered = true ∨ (s.pc = .ret false .queueClosed ∨ s.pc = .gone) ∧ s.Refused

/-- the door does not open again -/
theorem sender_late {weak : Bool} {m m' : ActorMem β} {s s' : Sender β T X}
    (hd : m.word.isDestroying = true) (h : s.Late) (hs : s.step weak m = some (m', s')) :
    s'.msg = s.msg ∧ s'.Late := by
  have hpc : s.pc.unregistered = true ∨ s.pc = .ret false .queueClosed ∨ s.pc = .gone :=
    h.imp id And.left
  have hout : s.pc.unregistered = false → s.Refused := fun hu => by
    rcases h with hpc | ⟨-, hr⟩
    · rw [hpc] at hu
      cases hu
    · exact hr
  cases Sender.step_does hs with
  | regLoad | regBound | regAgain => exact ⟨rfl, Or.inl rfl⟩
  | refused => exact ⟨rfl, Or.inr ⟨Or.inl rfl, Sender.dropMessage_refused _ _⟩⟩
  | register hc halive =>
    rw [halive] at hd
    cases hd
  | ret => exact ⟨rfl, Or.inr ⟨Or.inr rfl, hout rfl⟩⟩
  | _ => rcases hpc with hpc | hpc | hpc <;> cases hpc

/-- a sender that is not registered leaves the mailbox alone -/
theorem sender_outside {weak : Bool} {m m' : ActorMem β} {s s' : Sender β T X}
    (hr : s.pc.role.isRegistered = false) (hs : s.step weak m = some (m', s')) :
    m'.box = m.box ∧ m'.accepted = m.accepted := by
  cases Sender.step_does hs with
  | push => cases hr
  | _ => exact ⟨rfl, rfl⟩

/-- a deregistering compare-exchange on a dying actor asks for no job node -/
theorem sender_leaves {weak needsSched : Bool} {m m' : ActorMem β} {s s' : Sender β T X}
    {r r' : EnqueueResult} {current : ActorState} {n : Nat} (hpc : s.pc = .leaveCas r current n)
    (hs : s.step weak m = some (m', s')) (hret : s'.pc = .ret needsSched r')
    (hd : m.word.isDestroying = true) : needsSched = false := by
  cases Sender.step_does hs with
  | leave hc =>
    cases hret
    rw [leaveDesired_destroying _ _ hd]
  | leaveBound | leaveAgain => cases hret
  | _ => cases hpc

/-- after it a sender deals with the job queue only -/
theorem sender_returned {weak : Bool} {m m' : ActorMem β} {s s' : Sender β T X}
    {needsSched : Bool} {r : EnqueueResult} (hpc : s.pc = .ret needsSched r)
    (hs : s.step weak m = some (m', s')) :
    m' = { m with nodes := m.nodes + needsSched.toNat } ∧ s'.pc = .gone := by
  simp only [Sender.step, hpc] at hs
  cases hs
  exact ⟨rfl, rfl⟩

end

/-! ## runs -/

/-- a call inside `enqueue_impl` -/
def Thread.calling {β T X : Type} : Thread β T X → Bool
  | .send ⟨_, _, .ret _ _⟩ | .send ⟨_, _, .gone⟩ => false
  | .send _ => true
  | _ => false

namespace Actor
variable {β T X : Type}

/-- the destructor has left `wait_for_activity_to_drain()` -/
def drained (c : Conf β T X) : Bool := c.pool.any fun t => t.role == .deleting true

/-- few enough senders at once, and no `resume()` begun after `destroying` was published -/
def noLateResume (c : Conf β T X) : Act β T X → Bool
  | .spawn (.send _) => c.pool.countP Thread.calling + 1 < maxSenders
  | .spawn (.run _) => !c.sh.word.isDestroying
  | _ => true

/-- and when the destructor leaves the drain, none before its acquiring compare-exchange -/
def inTime (c : Conf β T X) (a : Act β T X) : Bool :=
  noLateResume c a && match step c a with
    | some d => drained c || !drained d || c.pool.all fun t => !t.role.isEarly
    | none => true

/-- the invariant of runs in time -/
structure Teardown (c : Conf β T X) : Prop where
  alive : Alive c
  drain : Drain c.sh.view (c.pool.map Thread.role)
  few : c.pool.countP Thread.calling < maxSenders
  box : c.sh.boxAlive = false → .deleting true ∈ c.pool.map Thread.role
  untouched : c.sh.touchedDead = false
  told : ∀ s, Thread.send s ∈ c.pool → s.Told

theorem drained_iff {c : Conf β T X} :
    drained c = true ↔ .deleting true ∈ c.pool.map Thread.role := by
  simp [drained, List.mem_map]

theorem registered_calling {t : Thread β T X} (h : t.role.isRegistered = true) :
    t.calling = true := by
  cases t with
  | send s =>
    obtain ⟨msg, slot, pc⟩ := s
    cases pc with
    | ret needsSched r => cases needsSched <;> cases h
    | gone => cases h
    | _ => rfl
  | run r =>
    obtain ⟨max, node, pc⟩ := r
    cases pc with
    | fetching w t => cases w <;> cases h
    | ret a n => cases a <;> cases h
    | _ => cases h
  | delete d => cases d <;> cases h

/-- nobody begins a call by a step -/
theorem exec_calling {g : Choice} {m m' : ActorMem β} {t t' : Thread β T X}
    (h : exec g m t = some (m', t')) (hc : t'.calling = true) : t.calling = true := by
  rcases exec_cases h with ⟨s, s', rfl, rfl, hs⟩ | ⟨max, node, pc, pc', -, rfl, -⟩ |
    ⟨d, d', -, rfl, -⟩
  · obtain ⟨msg, slot, pc⟩ := s
    cases pc with
    | ret needsSched r => cases hs; cases hc
    | gone => cases hs
    | _ => rfl
  · cases hc
  · cases hc

/-- a step that leaves a sender is a step of a sender -/
theorem exec_send {g : Choice} {m m' : ActorMem β} {t : Thread β T X} {s' : Sender β T X}
    (h : exec g m t = some (m', .send s')) :
    ∃ s, t = .send s ∧ s.step g.weak m = some (m', s') := by
  rcases exec_cases h with ⟨s, s1, rfl, he, hs⟩ | ⟨max, node, pc, pc', -, he, -⟩ | ⟨d, d', -, he, -⟩
  · cases he
    exact ⟨s, rfl, hs⟩
  · cases he
  · cases he

/-- and a step of a sender leaves one -/
theorem exec_sender {g : Choice} {m m' : ActorMem β} {s : Sender β T X} {t' : Thread β T X}
    (h : exec g m (.send s) = some (m', t')) :
    ∃ s', t' = .send s' ∧ s.step g.weak m = some (m', s') := by
  rcases exec_cases h with ⟨s1, s', he, rfl, hs⟩ | ⟨max, node, pc, pc', he, -⟩ | ⟨d, d', he, -⟩
  · cases he
    exact ⟨s', rfl, hs⟩
  · cases he
  · cases he

theorem Teardown.init : Teardown (init : Conf β T X) where
  alive := Alive.init
  drain := by
    refine ⟨?_, ?_, nofun⟩
    · show ActorState.idle.senderCount.toNat = 0
      decide
    · show 0 = ActorState.idle.isRunning.toNat
      rw [ActorState.idle_flags.2.1]
      rfl
  few := by
    show 0 < maxSenders
    decide
  box := nofun
  untouched := rfl
  told := nofun

/-- fewer senders are registered than calls are made -/
theorem Teardown.few_registered {c : Conf β T X} (h : Teardown c) {t : Thread β T X}
    {rest : List (Thread β T X)} (hp : c.pool.Perm (t :: rest)) :
    (rest.map Thread.role).countP Role.isRegistered < maxSenders := by
  have hcalls : (rest.map Thread.role).countP Role.isRegistered ≤ rest.countP Thread.calling := by
    rw [List.countP_map]
    exact List.countP_mono_left fun u _ hu => registered_calling hu
  have hall : rest.countP Thread.calling ≤ c.pool.countP Thread.calling := by
    rw [hp.countP_eq Thread.calling, List.countP_cons]
    exact Nat.le_add_right _ _
  exact Nat.lt_of_le_of_lt (Nat.le_trans hcalls hall) h.few

theorem Teardown.spawn {c d : Conf β T X} {t : Thread β T X} (h : Teardown c)
    (hok : noLateResume c (.spawn t) = true) (hs : step c (.spawn t) = some d) : Teardown d := by
  obtain ⟨he, hp⟩ := TS.Conf.step_spawn hs
  have hp : d.pool.Perm (t :: c.pool) := hp ▸ List.perm_append_singleton t c.pool
  have hsame := enter_touches he
  refine ⟨h.alive.step hs, Drain.perm (hp.map Thread.role).symm ?_, ?_, fun hb => ?_,
    hsame.2.trans h.untouched, fun s hsend => ?_⟩
  · rw [List.map_cons]
    rcases enter_role he with ⟨hr, hv⟩ | ⟨n, hr, -, hv⟩
    · exact h.drain.enter h.alive.safe (congrArg View.word hv) (Or.inl hr)
    · refine h.drain.enter h.alive.safe (by rw [hv]) (Or.inr ⟨n, hr, ?_⟩)
      cases t with
      | send s =>
        obtain ⟨msg, slot, pc⟩ := s
        cases pc with
        | ret needsSched r => cases needsSched <;> cases hr
        | _ => cases hr
      | run r => exact Bool.not_eq_true' _ ▸ hok
      | delete d => cases d <;> cases hr
  · rw [hp.countP_eq Thread.calling, List.countP_cons]
    have hfew := h.few
    cases t with
    | send s =>
      have hok : c.pool.countP Thread.calling + 1 < maxSenders := of_decide_eq_true hok
      split <;> omega
    | run r => exact hfew
    | delete d => exact hfew
  · exact (hp.map Thread.role).mem_iff.mpr (List.mem_cons_of_mem _ (h.box (hsame.1 ▸ hb)))
  · rcases List.mem_cons.mp (hp.mem_iff.mp hsend) with rfl | hsend
    · -- a call begins before its registering read
      obtain ⟨msg, slot, pc⟩ := s
      simp only [enter] at he
      split at he
      · rename_i hc
        obtain ⟨rfl, -⟩ := hc
        trivial
      · cases he
    · exact h.told s hsend

theorem Teardown.move {c d : Conf β T X} {i : Nat} {g : Choice} (h : Teardown c)
    (hok : inTime c (.run i g) = true) (hs : step c (.run i g) = some d) : Teardown d := by
  rcases TS.Conf.step_cases hs with ⟨t, hspawn, -⟩ | ⟨-, g, t, t', rest, -, -, he, hp, hp'⟩
  · cases hspawn
  have hrp := hp.map Thread.role
  have hsafe : Safe c.sh.view (t.role :: rest.map Thread.role) := h.alive.safe.perm hrp
  have hdrain : Drain c.sh.view (t.role :: rest.map Thread.role) := h.drain.perm hrp
  have hout : t.role ≠ .deleting true → t'.role = .deleting true →
      ∀ u ∈ rest.map Thread.role, u.isEarly = false := by
    intro _ ht' u hu
    have hd : drained d = true :=
      drained_iff.mpr ((hp'.map Thread.role).mem_iff.mpr (ht' ▸ List.mem_cons_self))
    cases hc : drained c with
    | true =>
      have hin := h.drain.drained (drained_iff.mp hc) u (hrp.mem_iff.mpr (List.mem_cons_of_mem _ hu))
      exact (Role.inside_false.mp hin).2.2
    | false =>
      obtain ⟨u, hmem, rfl⟩ := List.mem_map.mp hu
      have hall : ∀ t ∈ c.pool, t.role.isEarly = false := by
        simpa [inTime, noLateResume, hs, hc, hd] using hok
      exact hall u (hp.mem_iff.mpr (List.mem_cons_of_mem _ hmem))
  have hmove := hdrain.move (exec_move he) hsafe (h.few_registered hp) hout
  obtain ⟨halive, htouch⟩ := exec_touches he
  refine ⟨h.alive.step hs, hmove.perm (hp'.map Thread.role).symm, ?_, fun hb => ?_, ?_,
    fun s hsend => ?_⟩
  · have hfew := h.few
    rw [hp.countP_eq Thread.calling, List.countP_cons] at hfew
    rw [hp'.countP_eq Thread.calling, List.countP_cons]
    have := exec_calling he
    cases ht' : t'.calling with
    | false => exact Nat.lt_of_le_of_lt (Nat.le_add_right _ _) hfew
    | true => rw [this ht'] at hfew; exact hfew
  · refine (hp'.map Thread.role).mem_iff.mpr ?_
    rcases halive with hsame | hdel
    · -- the destructor that closed the mailbox is still past its drain
      rcases List.mem_cons.mp (hrp.mem_iff.mp (h.box (hsame ▸ hb))) with ht | hrest
      · have hdel : t'.role = .deleting true := by
          have hm := exec_move he
          rw [← ht] at hm
          exact hm.stays_drained
        rw [List.map_cons, hdel]
        exact List.mem_cons_self
      · exact List.mem_cons_of_mem _ hrest
    · rw [List.map_cons, hdel]
      exact List.mem_cons_self
  · rcases htouch with hsame | ⟨hin, htouch⟩
    · exact hsame.trans h.untouched
    · have hbox : c.sh.boxAlive = true := by
        cases hb : c.sh.boxAlive with
        | true => rfl
        | false => exact absurd (hrp.mem_iff.mp (h.box hb)) (hdrain.not_drained hin)
      rw [htouch]
      show (c.sh.touchedDead || !c.sh.boxAlive) = false
      rw [h.untouched, hbox]
      rfl
  · rcases List.mem_cons.mp (hp'.mem_iff.mp hsend) with rfl | hsend
    · obtain ⟨s0, rfl, hstep⟩ := exec_send he
      exact sender_told (h.told s0 (hp.mem_iff.mpr List.mem_cons_self)) hstep
    · exact h.told s (hp.mem_iff.mpr (List.mem_cons_of_mem _ hsend))

theorem Teardown.step {c d : Conf β T X} {a : Act β T X} (h : Teardown c)
    (hs : TS.restrict step inTime c a = some d) : Teardown d := by
  obtain ⟨hok, hs⟩ := TS.restrict_some.mp hs
  cases a with
  | spawn t => exact h.spawn (Bool.and_eq_true_iff.mp hok).1 hs
  | run i g => exact h.move hok hs

theorem teardown_of_run {as : List (Act β T X)} {c : Conf β T X}
    (h : TS.run (TS.restrict step inTime) init as = some c) : Teardown c :=
  TS.run_inv (fun _ _ _ => Teardown.step) Teardown.init h

/-! ## senders that come too late -/

/-- the actor is being destroyed, and sender `i` comes too late with its message -/
def LateAt (i : Nat) (msg : Message β) (c : Conf β T X) : Prop :=
  c.sh.word.isDestroying = true ∧ ∃ s, c.pool[i]? = some (.send s) ∧ s.msg = msg ∧ s.Late

theorem LateAt.step {c d : Conf β T X} {a : Act β T X} {i : Nat} {msg : Message β}
    (h : LateAt i msg c) (hs : step c a = some d) : LateAt i msg d := by
  obtain ⟨hd, s, hi, hmsg, hlate⟩ := h
  cases a with
  | spawn t =>
    obtain ⟨he, hp⟩ := TS.Conf.step_spawn hs
    refine ⟨enter_word he ▸ hd, s, ?_, hmsg, hlate⟩
    rw [hp, List.getElem?_append_left (List.getElem?_eq_some_iff.mp hi).1]
    exact hi
  | run j g =>
    obtain ⟨t, t', ht, he, hp⟩ := TS.Conf.step_set hs
    refine ⟨(exec_move he).destroying hd, ?_⟩
    rw [hp]
    by_cases hji : j = i
    · -- its own step
      subst hji
      obtain rfl := Option.some.inj (hi.symm.trans ht)
      obtain ⟨s', rfl, hstep⟩ := exec_sender he
      obtain ⟨hmsg', hlate'⟩ := sender_late hd hlate hstep
      exact ⟨s', List.getElem?_set_self (List.getElem?_eq_some_iff.mp hi).1, hmsg'.trans hmsg, hlate'⟩
    · exact ⟨s, (List.getElem?_set_ne hji).trans hi, hmsg, hlate⟩

/-! ## the result -/

/-- one step of one sender -/
def SenderStep (c d : Conf β T X) (s s' : Sender β T X) : Prop :=
  ∃ i g, step c (.run i g) = some d ∧ c.pool[i]? = some (.send s) ∧ d.pool[i]? = some (.send s')

theorem SenderStep.exec {c d : Conf β T X} {s s' : Sender β T X} (h : SenderStep c d s s') :
    ∃ weak, s.step weak c.sh = some (d.sh, s') := by
  obtain ⟨i, g, hs, hc, hd⟩ := h
  obtain ⟨l₁, t, l₂, t', hp, hi, he, hp'⟩ := TS.Conf.step_run hs
  have ht : t = .send s := by simpa [hp, ← hi] using hc
  have ht' : t' = .send s' := by simpa [hp', ← hi] using hd
  rw [ht, ht'] at he
  obtain ⟨s0, h0, hstep⟩ := exec_send he
  cases h0
  exact ⟨_, hstep⟩

theorem drained_step {c d : Conf β T X} {a : Act β T X} (hs : step c a = some d)
    (h : drained c = true) : drained d = true := by
  rw [drained_iff] at h ⊢
  rcases TS.Conf.step_cases hs with ⟨t, -, -, hp⟩ | ⟨i, g, t, t', rest, -, -, he, hp, hp'⟩
  · exact (hp.map Thread.role).mem_iff.mpr (List.mem_cons_of_mem _ h)
  · refine (hp'.map Thread.role).mem_iff.mpr ?_
    rcases List.mem_cons.mp ((hp.map Thread.role).mem_iff.mp h) with ht | hrest
    · have hm := exec_move he
      rw [← ht] at hm
      rw [List.map_cons, hm.stays_drained]
      exact List.mem_cons_self
    · exact List.mem_cons_of_mem _ hrest

/-- what senders, drivers and the destructor may rely on -/
structure DestructionSafe (c : Conf β T X) : Prop where
  /-- past the drain nobody is registered and nobody holds `running` -/
  nobody : drained c = true → c.sh.word.isRunning = false ∧ c.sh.word.senderCount = 0 ∧
    ∀ t ∈ c.pool, t.role.isRegistered = false ∧ t.role.holds = false
  /-- and past the drain is past the drain -/
  stays : ∀ a d, step c a = some d → drained c = true → drained d = true
  /-- no sender and no driver touches a dead mailbox -/
  untouched : c.sh.touchedDead = false
  /-- and no sender touches the mailbox past the drain -/
  outside : ∀ d s s', SenderStep c d s s' → drained c = true →
    (∀ p, s.pc ≠ .pushing p) ∧ d.sh.box = c.sh.box ∧ d.sh.accepted = c.sh.accepted
  /-- after its deregistering compare-exchange a sender deals with the job queue only -/
  last : ∀ d s s', SenderStep c d s s' → s.pc ≠ .gone ∧ ∀ needsSched r, s.pc = .ret needsSched r →
    d.sh = { c.sh with nodes := c.sh.nodes + needsSched.toNat } ∧ s'.pc = .gone
  /-- none that comes after `destroying` asks for a job node -/
  unscheduled : ∀ d s s' r current n needsSched r', SenderStep c d s s' →
    s.pc = .leaveCas r current n → s'.pc = .ret needsSched r' →
    c.sh.word.isDestroying = true → needsSched = false
  /-- a call whose registering read sees `destroying` destroys its message and touches nothing -/
  refused : ∀ d s s' current n, SenderStep c d s s' → s.pc = .regCas current n →
    current.isDestroying = true → d.sh.aborted = false →
    s'.pc = .ret false .queueClosed ∧ s'.Refused ∧ d.sh = c.sh.destroy s.msg
  /-- whoever returns `queue_closed` owes nothing, and has canceled the future -/
  canceled : ∀ s, Thread.send s ∈ c.pool → ∀ needsSched, s.pc = .ret needsSched .queueClosed →
    needsSched = false ∧ s.Refused

/-- **Senders and destruction**, in every reachable state of any number of senders and drivers
that are in time. -/
theorem destruction_safe (as : List (Act β T X)) (c : Conf β T X)
    (h : TS.run (TS.restrict step inTime) init as = some c) : DestructionSafe c := by
  have hT := teardown_of_run h
  have hout : drained c = true → ∀ t ∈ c.pool,
      t.role.isRegistered = false ∧ t.role.holds = false := fun hD t ht =>
    have hin := hT.drain.drained (drained_iff.mp hD) t.role (List.mem_map_of_mem ht)
    ⟨(Role.inside_false.mp hin).1, (Role.inside_false.mp hin).2.1⟩
  have hsender : ∀ {d s s'}, SenderStep c d s s' → Thread.send s ∈ c.pool := fun hs => by
    obtain ⟨i, g, -, hc, -⟩ := hs
    exact List.mem_of_getElem? hc
  constructor
  case nobody =>
    intro hD
    have hnone : ∀ (p : Role → Bool), (∀ t ∈ c.pool, p t.role = false) →
        (c.pool.map Thread.role).countP p = 0 := by
      intro p hp
      refine List.countP_eq_zero.mpr fun r hr => ?_
      obtain ⟨t, ht, rfl⟩ := List.mem_map.mp hr
      exact Bool.eq_false_iff.mp (hp t ht)
    have hcount := hT.drain.count
    rw [hnone _ fun t ht => (hout hD t ht).1] at hcount
    have hholders := hT.drain.holders
    rw [hnone _ fun t ht => (hout hD t ht).2] at hholders
    refine ⟨?_, BitVec.eq_of_toNat_eq hcount, hout hD⟩
    cases hr : c.sh.word.isRunning with
    | false => rfl
    | true => rw [show c.sh.view.word.isRunning = true from hr] at hholders; cases hholders
  case stays => exact fun a d hs => drained_step hs
  case untouched => exact hT.untouched
  case outside =>
    intro d s s' hs hD
    have hr := (hout hD _ (hsender hs)).1
    obtain ⟨weak, hstep⟩ := hs.exec
    refine ⟨fun p hp => ?_, sender_outside hr hstep⟩
    have hr : s.pc.role.isRegistered = false := hr
    rw [hp] at hr
    cases hr
  case last =>
    intro d s s' hs
    obtain ⟨weak, hstep⟩ := hs.exec
    refine ⟨fun hp => ?_, fun needsSched r hp => sender_returned hp hstep⟩
    simp only [Sender.step, hp] at hstep
    cases hstep
  case unscheduled =>
    intro d s s' r current n needsSched r' hs hpc hret hd
    obtain ⟨weak, hstep⟩ := hs.exec
    exact sender_leaves hpc hstep hret hd
  case refused =>
    intro d s s' current n hs hpc hd ha
    obtain ⟨weak, hstep⟩ := hs.exec
    exact sender_refused hpc hd hstep ha
  case canceled =>
    intro s hs needsSched hpc
    have htold := hT.told s hs
    unfold Sender.Told at htold
    rw [hpc] at htold
    exact htold

/-- the actor is destroyed while a sender is registered; a second one comes too late -/
theorem destruction_safe_two_senders :
    ∃ c : Conf Unit Nat Unit, drained c = true ∧ c.sh.destroyed = [⟨17, 1 <<< 60, ()⟩] ∧
      DestructionSafe c :=
  ⟨_, rfl, rfl, destruction_safe
    ([.spawn (.send ⟨⟨16, 1 <<< 60, ()⟩, .fresh, .regLoad⟩)] ++
      List.replicate 2 (.run 0 ⟨false, false, false, false⟩) ++ [.spawn (.delete .load)] ++
      List.replicate 2 (.run 1 ⟨false, false, false, false⟩) ++
      List.replicate 4 (.run 0 ⟨false, false, false, false⟩) ++
      [.spawn (.send ⟨⟨17, 1 <<< 60, ()⟩, .fresh, .regLoad⟩)] ++
      List.replicate 2 (.run 2 ⟨false, false, false, false⟩) ++
      [.run 1 ⟨false, false, false, false⟩])
    _ rfl⟩

/-- **A driver at the door.**  Its `resume()` began before `destroying` was published; it acquires
`running` behind the drain. -/
theorem late_acquire :
    ∃ (as : List (Act Unit Nat Unit)) (c : Conf Unit Nat Unit),
      TS.run (TS.restrict step noLateResume) init as = some c ∧ drained c = true ∧
        ∃ t ∈ c.pool, t.role.holds = true :=
  ⟨[.spawn (.run ⟨1, false, .acqLoad⟩), .run 0 ⟨false, false, false, false⟩,
      .spawn (.delete .load)] ++ List.replicate 3 (.run 1 ⟨false, false, false, false⟩) ++
      List.replicate 2 (.run 0 ⟨false, false, false, false⟩),
    _, rfl, rfl, _, List.mem_cons_self, rfl⟩

end Actor
end ActorZeta
