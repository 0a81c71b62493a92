import ActorZeta.Actor.Protocol

/-!
# No lost wakeup

* `Wake`        while the actor is not being destroyed: at most one holder, a scheduled bit with
                somebody behind it, and an idle actor that is quiet or that somebody will wake;
* `Safe.move`   every move keeps it;
* `no_lost_wakeup`   what that means for accepted messages and suspended behaviors, in every run,
                with any number of senders and of drivers, called or uncalled.
-/

namespace ActorZeta

namespace Role

/-- it will become a job node, or is one in a driver's hand -/
def schedules : Role → Bool
  | .owing | .early true => true
  | _ => false

/-- it unblocked the inbox and has not left yet -/
def pending : Role → Bool
  | .registered true => true
  | _ => false

/-- it will see to it that somebody drives the actor -/
def wakes (r : Role) : Bool := r.schedules || r.pending

end Role

/-- a holder that found nothing to do may leave: nothing came in since, or whoever brought it will
be noticed -/
def Settled (v : View) (rs : List Role) : Prop :=
  v.Quiet ∨ v.word.isScheduled = true ∨ ∃ r ∈ rs, r.pending = true

/-- what a holder knows at its place -/
def Role.Fits (v : View) (rs : List Role) : Role → Prop
  | .working idle => v.tag ≠ .blocked ∧ (idle = true → v.busy = false)
  | .parked => Settled v rs
  | .leaving a k _ => (a = .resume ∧ k = true) ∨ (a = .awaiting ∧ k = false ∧ Settled v rs)
  | _ => True

/-- the protocol while the actor is not being destroyed -/
structure Wake (v : View) (rs : List Role) : Prop where
  holders : rs.countP Role.holds = v.word.isRunning.toNat
  scheduled : v.word.isScheduled = true →
    v.word.isRunning = true ∨ 0 < v.nodes ∨ ∃ r ∈ rs, r.schedules = true
  awake : v.word.isRunning = false →
    v.Quiet ∨ 0 < v.nodes ∨ ∃ r ∈ rs, r.wakes = true
  fits : ∀ r ∈ rs, r.Fits v rs

/-- and until then nobody has published `destroying` -/
structure Safe (v : View) (rs : List Role) : Prop where
  published : ∀ r ∈ rs, ∀ d, r = .deleting d → v.word.isDestroying = true
  closed : v.tag = .closed → v.word.isDestroying = true
  wake : v.word.isDestroying = false → Wake v rs

section
variable {v v' : View} {r r' u : Role} {rs rs' : List Role}

theorem Settled.perm (hp : rs.Perm rs') (h : Settled v rs) : Settled v rs' := by
  rcases h with h | h | ⟨r, hr, hw⟩
  · exact Or.inl h
  · exact Or.inr (Or.inl h)
  · exact Or.inr (Or.inr ⟨r, hp.mem_iff.mp hr, hw⟩)

theorem Role.Fits.mono (h : u.Fits v rs) (ht : v.tag ≠ .blocked → v'.tag ≠ .blocked)
    (hb : v'.busy = v.busy) (hs : Settled v rs → Settled v' rs') : u.Fits v' rs' := by
  cases u with
  | working i => exact ⟨ht h.1, fun hi => hb.trans (h.2 hi)⟩
  | parked => exact hs h
  | leaving a k o =>
    rcases h with h | ⟨ha, hk, h⟩
    · exact Or.inl h
    · exact Or.inr ⟨ha, hk, hs h⟩
  | _ => trivial

/-- only a holder has to fit -/
theorem Role.fits_of_not_holds (h : u.holds = false) : u.Fits v rs := by
  cases u <;> trivial

theorem Wake.perm (hp : rs.Perm rs') (h : Wake v rs) : Wake v rs' where
  holders := hp.countP_eq Role.holds ▸ h.holders
  scheduled hs := by
    rcases h.scheduled hs with h | h | ⟨r, hr, hw⟩
    · exact Or.inl h
    · exact Or.inr (Or.inl h)
    · exact Or.inr (Or.inr ⟨r, hp.mem_iff.mp hr, hw⟩)
  awake hs := by
    rcases h.awake hs with h | h | ⟨r, hr, hw⟩
    · exact Or.inl h
    · exact Or.inr (Or.inl h)
    · exact Or.inr (Or.inr ⟨r, hp.mem_iff.mp hr, hw⟩)
  fits r hr := (h.fits r (hp.mem_iff.mpr hr)).mono id rfl (Settled.perm hp)

theorem Safe.perm (hp : rs.Perm rs') (h : Safe v rs) : Safe v rs' :=
  ⟨fun r hr => h.published r (hp.mem_iff.mpr hr), h.closed, fun hd => (h.wake hd).perm hp⟩

/-- with one holder, nobody else has to fit -/
theorem Wake.others (h : Wake v (r :: rs)) (hr : r.holds = true) :
    v.word.isRunning = true ∧ ∀ u ∈ rs, u.holds = false := by
  have hc := h.holders
  rw [List.countP_cons, if_pos hr] at hc
  cases hrun : v.word.isRunning with
  | false => rw [hrun] at hc; simp at hc
  | true =>
    rw [hrun] at hc
    have h0 : rs.countP Role.holds = 0 := by simpa using hc
    exact ⟨rfl, fun u hu => Bool.eq_false_iff.mpr (List.countP_eq_zero.mp h0 u hu)⟩

/-! ## moves -/

/-- a party moves, and whoever was counted on still is -/
theorem exists_moved {p : Role → Bool} (h : ∃ u ∈ r :: rs, p u = true)
    (hr : p r = true → p r' = true) : ∃ u ∈ r' :: rs, p u = true := by
  obtain ⟨u, hu, hp⟩ := h
  rcases List.mem_cons.mp hu with rfl | hu
  · exact ⟨r', List.mem_cons_self, hr hp⟩
  · exact ⟨u, List.mem_cons_of_mem _ hu, hp⟩

theorem exists_wakes (h : ∃ u ∈ rs, u.schedules = true) : ∃ u ∈ rs, u.wakes = true := by
  obtain ⟨u, hu, hs⟩ := h
  exact ⟨u, hu, by rw [Role.wakes, hs]; rfl⟩

theorem Settled.moved (h : Settled v (r :: rs)) (hq : v.Quiet → v'.Quiet)
    (hs : v.word.isScheduled = true → v'.word.isScheduled = true)
    (hr : r.pending = true → r'.pending = true) : Settled v' (r' :: rs) := by
  rcases h with h | h | h
  · exact Or.inl (hq h)
  · exact Or.inr (Or.inl (hs h))
  · exact Or.inr (Or.inr (exists_moved h hr))

/-- a step of a party that does not hold `running` -/
theorem Wake.outside (h : Wake v (r :: rs)) (hr : r.holds = false) (hr' : r'.holds = false)
    (hrun : v'.word.isRunning = v.word.isRunning) (ht : v.tag ≠ .blocked → v'.tag ≠ .blocked)
    (hb : v'.busy = v.busy) (hset : Settled v (r :: rs) → Settled v' (r' :: rs))
    (hsch : v'.word.isScheduled = true →
      v.word.isRunning = true ∨ 0 < v'.nodes ∨ ∃ u ∈ r' :: rs, u.schedules = true)
    (hawk : v.word.isRunning = false →
      v'.Quiet ∨ 0 < v'.nodes ∨ ∃ u ∈ r' :: rs, u.wakes = true) : Wake v' (r' :: rs) where
  holders := by
    have hc := h.holders
    rw [List.countP_cons, hr] at hc
    rw [List.countP_cons, hr', hrun]
    exact hc
  scheduled hs := by rw [hrun]; exact hsch hs
  awake hn := hawk (hrun ▸ hn)
  fits u hu := by
    rcases List.mem_cons.mp hu with rfl | hu
    · exact Role.fits_of_not_holds hr'
    · exact (h.fits u (List.mem_cons_of_mem _ hu)).mono ht hb hset

/-- a step of the holder that leaves the word and the nodes alone -/
theorem Wake.inside (h : Wake v (r :: rs)) (hr : r.holds = true) (hr' : r'.holds = true)
    (hw : v'.word = v.word) (hf : r'.Fits v' (r' :: rs)) : Wake v' (r' :: rs) where
  holders := by
    have hc := h.holders
    rw [List.countP_cons, hr] at hc
    rw [List.countP_cons, hr', hw]
    exact hc
  scheduled _ := Or.inl (hw ▸ (h.others hr).1)
  awake hn := by
    rw [hw, (h.others hr).1] at hn
    cases hn
  fits u hu := by
    rcases List.mem_cons.mp hu with rfl | hu
    · exact hf
    · exact Role.fits_of_not_holds ((h.others hr).2 u hu)

/-- deregistering: a sender that unblocked the inbox leaves the scheduled bit behind, with itself
or the holder behind that -/
theorem Wake.leave {p : Bool} (h : Wake v (.registered p :: rs))
    (hd : v.word.isDestroying = false) :
    Wake { v with word := (Sender.leaveDesired v.word p).1 }
      (.returned (Sender.leaveDesired v.word p).2 :: rs) := by
  obtain ⟨hrun, hsch, how⟩ := leaveDesired_cases v.word p hd
  have hholds : ∀ b, (Role.returned b).holds = false := by decide
  have hmine : (p && !v.word.isScheduled && !v.word.isRunning) = true →
      (Role.returned (Sender.leaveDesired v.word p).2).schedules = true := by
    intro hp
    rw [how, hp]
    rfl
  refine h.outside rfl (hholds _) hrun id rfl (fun hset => ?_) (fun hs => ?_) (fun hn => ?_)
  · cases p with
    | true => exact Or.inr (Or.inl (by rw [hsch, Bool.or_true]))
    | false => exact hset.moved id (fun hs => by rw [hsch, hs]; rfl) nofun
  · rw [hsch] at hs
    cases hs0 : v.word.isScheduled with
    | true =>
      rcases h.scheduled hs0 with hr | hn | he
      · exact Or.inl hr
      · exact Or.inr (Or.inl hn)
      · exact Or.inr (Or.inr (exists_moved he nofun))
    | false =>
      rw [hs0, Bool.false_or] at hs
      cases hr : v.word.isRunning with
      | true => exact Or.inl rfl
      | false => exact Or.inr (Or.inr ⟨_, List.mem_cons_self, hmine (by rw [hs, hs0, hr]; rfl)⟩)
  · cases hs0 : v.word.isScheduled with
    | true =>
      rcases h.scheduled hs0 with hr | hn | he
      · rw [hn] at hr; cases hr
      · exact Or.inr (Or.inl hn)
      · exact Or.inr (Or.inr (exists_wakes (exists_moved he nofun)))
    | false =>
      cases p with
      | true =>
        have hs := hmine (by rw [hs0, hn]; rfl)
        exact Or.inr (Or.inr (exists_wakes ⟨_, List.mem_cons_self, hs⟩))
      | false =>
        rcases h.awake hn with hq | hn | he
        · exact Or.inl hq
        · exact Or.inr (Or.inl hn)
        · exact Or.inr (Or.inr (exists_moved he nofun))

/-- pushing: an actor that was quiet is not any more, and the sender knows -/
theorem Wake.push (h : Wake v (.registered false :: rs)) :
    Wake { v with tag := .opened } (.registered (v.tag == .blocked) :: rs) := by
  have hmine : v.Quiet → (Role.registered (v.tag == .blocked)).pending = true := by
    intro hq
    rw [hq.1]
    rfl
  refine h.outside rfl rfl rfl (fun _ => nofun) rfl (fun hset => ?_) (fun hs => ?_) (fun hn => ?_)
  · rcases hset with hq | hs | he
    · exact Or.inr (Or.inr ⟨_, List.mem_cons_self, hmine hq⟩)
    · exact Or.inr (Or.inl hs)
    · exact Or.inr (Or.inr (exists_moved he nofun))
  · rcases h.scheduled hs with hr | hn | he
    · exact Or.inl hr
    · exact Or.inr (Or.inl hn)
    · exact Or.inr (Or.inr (exists_moved he nofun))
  · rcases h.awake hn with hq | hn | he
    · refine Or.inr (Or.inr ⟨_, List.mem_cons_self, ?_⟩)
      rw [Role.wakes, hmine hq, Bool.or_true]
    · exact Or.inr (Or.inl hn)
    · exact Or.inr (Or.inr (exists_moved he nofun))

/-- a driver acquires `running` -/
theorem Wake.acquire {n : Bool} (h : Wake v (.early n :: rs)) (hn : v.word.isRunning = false) :
    Wake { v with word := (v.word.setRunning true).setScheduled false } (.entering :: rs) where
  holders := by
    have hc := h.holders
    rw [List.countP_cons, hn] at hc
    rw [List.countP_cons]
    simpa [Role.holds] using hc
  scheduled hs := by simp at hs
  awake hr := by simp at hr
  fits u hu := by
    rcases List.mem_cons.mp hu with rfl | hu
    · trivial
    · have hc := h.holders
      rw [hn] at hc
      exact Role.fits_of_not_holds (Bool.eq_false_iff.mpr
        (List.countP_eq_zero.mp hc u (List.mem_cons_of_mem _ hu)))

/-- a driver that finds a holder leaves it the scheduled bit -/
theorem Wake.mark {n : Bool} (h : Wake v (.early n :: rs)) (hn : v.word.isRunning = true) :
    Wake { v with word := v.word.setScheduled true } (.apart :: rs) :=
  h.outside rfl rfl (by simp) id rfl (fun _ => Or.inr (Or.inl (by simp))) (fun _ => Or.inl hn)
    (fun hr => by rw [hn] at hr; cases hr)

/-- a holder leaves: with the scheduled bit it owes a job node, without it there is nothing to do
or somebody is about to say so -/
theorem Wake.release {a : ResumeResult} {k o : Bool} (h : Wake v (.leaving a k (some o) :: rs))
    (ho : v.word.isScheduled = true → o = true) :
    Wake { v with word := Runner.guardDesired k v.word }
      (.returned (Runner.verdict a o == .resume) :: rs) := by
  have hholds : ∀ b, (Role.returned b).holds = false := by decide
  have hfit : (Role.leaving a k (some o)).Fits v _ := h.fits _ List.mem_cons_self
  obtain ⟨hrun, hothers⟩ := h.others rfl
  -- the verdict is `resume` unless the holder settled and saw no scheduled bit
  have hverdict : (Role.returned (Runner.verdict a o == .resume)).schedules = true ∨
      (k = false ∧ v.word.isScheduled = false ∧ Settled v (.leaving a k (some o) :: rs)) := by
    rcases hfit with ⟨rfl, rfl⟩ | ⟨rfl, rfl, hset⟩
    · exact Or.inl rfl
    · cases o with
      | true => exact Or.inl rfl
      | false =>
        have hn : v.word.isScheduled = false := Bool.eq_false_iff.mpr fun hs => nomatch ho hs
        exact Or.inr ⟨rfl, hn, hset⟩
  constructor
  · have hc := h.holders
    rw [List.countP_cons, hrun] at hc
    rw [List.countP_cons, hholds]
    simpa [Role.holds, Runner.guardDesired] using hc
  · intro hs
    rcases hverdict with hm | ⟨rfl, hn, -⟩
    · exact Or.inr (Or.inr ⟨_, List.mem_cons_self, hm⟩)
    · simp [Runner.guardDesired, hn] at hs
  · intro _
    rcases hverdict with hm | ⟨rfl, hn, hq | hs | ⟨u, hu, hp⟩⟩
    · exact Or.inr (Or.inr (exists_wakes ⟨_, List.mem_cons_self, hm⟩))
    · exact Or.inl hq
    · rw [hn] at hs; cases hs
    · rcases List.mem_cons.mp hu with rfl | hu
      · cases hp
      · exact Or.inr (Or.inr ⟨u, List.mem_cons_of_mem _ hu, by rw [Role.wakes, hp, Bool.or_true]⟩)
  · intro u hu
    rcases List.mem_cons.mp hu with rfl | hu
    · exact Role.fits_of_not_holds (hholds _)
    · exact Role.fits_of_not_holds (hothers u hu)

theorem Wake.move (h : Wake v (r :: rs)) (hm : Move v r v' r')
    (hd : v'.word.isDestroying = false)
    (hdel : ∀ d, r = .deleting d → v.word.isDestroying = true)
    (hcl : v.tag = .closed → v.word.isDestroying = true) : Wake v' (r' :: rs) := by
  have hd0 : v.word.isDestroying = false := Bool.eq_false_iff.mpr fun ht => by
    rw [hm.destroying ht] at hd
    cases hd
  have hf : r.Fits v (r :: rs) := h.fits r List.mem_cons_self
  cases hm with
  | wait => exact h
  | register =>
    exact h.outside rfl rfl (by simp) id rfl (fun hs => hs.moved id (by simp) nofun)
      (fun hs => (h.scheduled (by simpa using hs)).imp_right
        (Or.imp_right fun he => exists_moved (p:=Role.schedules) he (by decide)))
      (fun hn => (h.awake hn).imp_right
        (Or.imp_right fun he => exists_moved (p:=Role.wakes) he (by decide)))
  | push => exact h.push
  | leave => exact h.leave hd0
  | discharge =>
    exact h.outside rfl rfl rfl id rfl (fun hs => hs.moved id id nofun)
      (fun _ => Or.inr (Or.inl (Nat.succ_pos _))) (fun _ => Or.inr (Or.inl (Nat.succ_pos _)))
  | acquire hn => exact h.acquire hn
  | mark hn => exact h.mark hn
  | quit _ hq =>
    rcases hq with hq | hq
    · rw [hq] at hd0; cases hd0
    · rw [hcl hq] at hd0; cases hd0
  | unpark hb =>
    refine h.inside rfl rfl rfl ⟨?_, hb⟩
    unfold View.unparked
    split
    · exact nofun
    · assumption
  | unparkBusy => exact h.inside rfl rfl rfl (Or.inl ⟨rfl, rfl⟩)
  | work hb =>
    refine h.inside rfl rfl rfl ⟨hf.1, fun hi => ?_⟩
    rcases hb hi with hy | ⟨hi, hy⟩
    · exact hy
    · rw [hy]; exact hf.2 hi
  | stop => exact h.inside rfl rfl rfl (Or.inl ⟨rfl, rfl⟩)
  | await hb => exact absurd hb hf.1
  | park _ hc => exact h.inside rfl rfl rfl (Or.inl ⟨rfl, hc, hf.2 rfl⟩)
  | race =>
    refine h.inside rfl rfl rfl (Or.inr ⟨rfl, rfl, ?_⟩)
    exact Settled.moved (r:=.parked) hf id id nofun
  | raceLost => exact h.inside rfl rfl rfl (Or.inl ⟨rfl, rfl⟩)
  | observe =>
    refine h.inside rfl rfl rfl ?_
    rcases hf with hf | ⟨ha, hk, hset⟩
    · exact Or.inl hf
    · exact Or.inr ⟨ha, hk, hset.moved id id nofun⟩
  | release ho => exact h.release ho
  | publish => simp at hd
  | published hp | drained | terminal | tearDown =>
    first
    | rw [hp] at hd0; cases hd0
    | rw [hdel _ rfl] at hd0; cases hd0

theorem Safe.move (h : Safe v (r :: rs)) (hm : Move v r v' r') : Safe v' (r' :: rs) where
  published u hu d hud := by
    have hs : ∀ d, r = .deleting d → v.word.isDestroying = true :=
      h.published r List.mem_cons_self
    rcases List.mem_cons.mp hu with rfl | hu
    · exact hm.deleting hud hs
    · exact hm.destroying (h.published u (List.mem_cons_of_mem _ hu) d hud)
  closed ht := by
    rcases hm.closed ht with ht | rfl
    · exact hm.destroying (h.closed ht)
    · exact hm.destroying (h.published _ List.mem_cons_self _ rfl)
  wake hd := by
    have hd0 : v.word.isDestroying = false := Bool.eq_false_iff.mpr fun ht => by
      rw [hm.destroying ht] at hd
      cases hd
    exact (h.wake hd0).move hm hd (h.published r List.mem_cons_self) h.closed

/-- a thread begins outside -/
theorem Safe.enter (h : Safe v rs) : Safe v (.apart :: rs) where
  published u hu d hud := by
    rcases List.mem_cons.mp hu with rfl | hu
    · cases hud
    · exact h.published u hu d hud
  closed := h.closed
  wake hd := by
    have hw := h.wake hd
    have hmem : ∀ {p : Role → Bool}, (∃ u ∈ rs, p u = true) → ∃ u ∈ .apart :: rs, p u = true :=
      fun ⟨u, hu, hp⟩ => ⟨u, List.mem_cons_of_mem _ hu, hp⟩
    refine ⟨hw.holders, fun hs => (hw.scheduled hs).imp_right (Or.imp_right hmem),
      fun hn => (hw.awake hn).imp_right (Or.imp_right hmem), fun u hu => ?_⟩
    rcases List.mem_cons.mp hu with rfl | hu
    · trivial
    · exact (hw.fits u hu).mono id rfl (Or.imp_right (Or.imp_right hmem))

/-- a driver begins: the job node it takes is in its hand now -/
theorem Safe.enterDriver {n : Bool} (h : Safe v rs) (hn : n.toNat ≤ v.nodes) :
    Safe { v with nodes := v.nodes - n.toNat } (.early n :: rs) where
  published u hu d hud := by
    rcases List.mem_cons.mp hu with rfl | hu
    · cases hud
    · exact h.published u hu d hud
  closed := h.closed
  wake hd := by
    have hw := h.wake hd
    have hmem : ∀ {p : Role → Bool}, (∃ u ∈ rs, p u = true) → ∃ u ∈ .early n :: rs, p u = true :=
      fun ⟨u, hu, hp⟩ => ⟨u, List.mem_cons_of_mem _ hu, hp⟩
    have hnode : 0 < v.nodes →
        0 < v.nodes - n.toNat ∨ ∃ u ∈ .early n :: rs, Role.schedules u = true := by
      intro hpos
      cases n with
      | true => exact Or.inr ⟨.early true, List.mem_cons_self, rfl⟩
      | false => exact Or.inl hpos
    refine ⟨hw.holders, fun hs => ?_, fun hr => ?_, fun u hu => ?_⟩
    · rcases hw.scheduled hs with hr | hp | he
      · exact Or.inl hr
      · exact Or.inr (hnode hp)
      · exact Or.inr (Or.inr (hmem he))
    · rcases hw.awake hr with hq | hp | he
      · exact Or.inl hq
      · exact Or.inr ((hnode hp).imp_right exists_wakes)
      · exact Or.inr (Or.inr (hmem he))
    · rcases List.mem_cons.mp hu with rfl | hu
      · trivial
      · exact (hw.fits u hu).mono id rfl (Or.imp_right (Or.imp_right hmem))

end

/-! ## the accounts of the mailbox -/

section
variable {β T X : Type}

/-- what was accepted was popped or is still there -/
def ActorMem.Balanced (m : ActorMem β) : Prop := m.accepted.Perm (m.popped ++ m.box.held)

theorem ActorMem.Balanced.retagged {m : ActorMem β} {b : Inbox β} {box : Mailbox β} (h : m.Balanced)
    (hb : box = { m.box with inbox := b }) (hc : b.chain = m.box.inbox.chain) :
    ({ m.touch with box := box } : ActorMem β).Balanced := by
  subst hb
  show m.accepted.Perm (m.popped ++ Mailbox.held { m.box with inbox := b })
  rw [Mailbox.held_of_chain hc]
  exact h

theorem ActorMem.Balanced.fetched {m : ActorMem β} {weak : Bool} {t t' : TakeHead β} {box : Mailbox β}
    (h : m.Balanced) (hf : m.box.fetchStep weak t = some (box, t')) :
    ({ m.touch with box := box } : ActorMem β).Balanced := by
  rcases Mailbox.fetchStep_cases hf with ⟨rfl, -⟩ | ⟨rfl, -⟩ | ⟨l, -, hb, rfl, -⟩
  · exact h
  · exact h
  · exact h.trans ((Mailbox.fetched_held m.box l hb).symm.append_left m.popped)

theorem ActorMem.Balanced.pop {m : ActorMem β} {msg : Message β} {box : Mailbox β} (h : m.Balanced)
    (hpop : m.box.popCached = some (msg, box)) :
    ({ m with box := box, popped := m.popped ++ [msg] } : ActorMem β).Balanced := by
  refine h.trans (((Mailbox.popCached_held hpop).append_left m.popped).trans ?_)
  show (m.popped ++ msg :: box.held).Perm (m.popped ++ [msg] ++ box.held)
  rw [List.append_assoc]
  exact List.Perm.refl _

theorem sender_balanced {weak : Bool} {m m' : ActorMem β} {s s' : Sender β T X} (h : m.Balanced)
    (hs : s.step weak m = some (m', s')) : m'.Balanced := by
  cases Sender.step_does hs with
  | @push msg slot p hpush hb =>
    show (m.accepted ++ [msg]).Perm
      (m.popped ++ Mailbox.held { m.box with inbox := m.box.inbox.push msg })
    refine (List.perm_append_singleton msg _).trans ((h.cons msg).trans ?_)
    exact List.perm_middle.symm.trans ((Mailbox.push_held m.box msg hb).symm.append_left _)
  | _ => exact h

/-- where a driver looks for a message -/
theorem Runner.PopsFrom.balanced {g : Choice} {m m₁ : ActorMem β} {pc : RunPc β} {n : Nat}
    (hp : Runner.PopsFrom g m pc n m₁) (h : m.Balanced) : m₁.Balanced := by
  cases hp with
  | loop | resumed => exact h
  | fetched hchain hf => exact h.fetched hf

theorem run_balanced {max : Nat} {g : Choice} {m m' : ActorMem β} {pc pc' : RunPc β}
    (h : m.Balanced) (hs : Runner.stepPc max g m pc = some (m', pc')) : m'.Balanced := by
  cases Runner.step_does hs with
  | goOn _ hm | turnBack _ hm => rcases hm with rfl | rfl <;> exact h
  | unpark | unparkReady | unparkBusy => exact h.retagged rfl (Inbox.tryUnblock_chain _)
  | entryEmpty hf hc | entryFull hf hc | raceEmpty hf hc | raceLost hf hc => exact h.fetched hf
  | nothing hf => exact h.fetched hf
  | pop hp hpop => exact (hp.balanced h).pop hpop
  | fetch hp hnone => exact hp.balanced h
  | park | stay =>
    obtain ⟨b, hb, hc, -⟩ := m.box.tryBlock_inbox
    exact h.retagged hb hc
  | _ => exact h

/-- only the destructor past its drain takes messages out without popping them -/
theorem exec_balanced {g : Choice} {m m' : ActorMem β} {t t' : Thread β T X} (h : m.Balanced)
    (hs : Actor.exec g m t = some (m', t')) (hr : t.role ≠ .deleting true) : m'.Balanced := by
  rcases Actor.exec_cases hs with ⟨s, s', rfl, rfl, hstep⟩ | ⟨max, node, pc, pc', rfl, rfl, hstep⟩ |
    ⟨d, d', rfl, rfl, hstep⟩
  · exact sender_balanced h hstep
  · exact run_balanced h hstep
  · cases Destructor.step_does hstep with
    | load | publishBound | publish | publishAgain | drained => exact h
    | wait hw hm => rcases hm with rfl | rfl <;> exact h
    | _ => exact absurd rfl hr

theorem enter_balanced {m m' : ActorMem β} {t : Thread β T X} (h : m.Balanced)
    (hs : Actor.enter m t = some m') : m'.Balanced := by
  unfold Actor.enter at hs
  split at hs
  · split at hs <;> cases hs; exact h
  · split at hs <;> cases hs; exact h
  · split at hs <;> cases hs; exact h
  · cases hs

/-! ## runs -/

/-- the invariant of the machine -/
structure Alive (c : Actor.Conf β T X) : Prop where
  safe : Safe c.sh.view (c.pool.map Thread.role)
  balanced : c.sh.word.isDestroying = false → c.sh.Balanced

theorem Alive.init : Alive (Actor.init : Actor.Conf β T X) where
  safe := by
    refine ⟨nofun, nofun, fun _ => ⟨?_, ?_, fun _ => Or.inl ⟨rfl, rfl, rfl⟩, nofun⟩⟩
    · show 0 = ActorState.idle.isRunning.toNat
      rw [ActorState.idle_flags.2.1]
      rfl
    · intro hs
      exact absurd (show ActorState.idle.isScheduled = true from hs) (by decide)
  balanced _ := List.Perm.refl _

theorem Alive.step {c d : Actor.Conf β T X} {a : Actor.Act β T X} (h : Alive c)
    (hs : Actor.step c a = some d) : Alive d := by
  rcases TS.Conf.step_cases hs with ⟨t, -, he, hp⟩ | ⟨i, g, t, t', rest, -, -, he, hp, hp'⟩
  · have hmono := enter_word he
    refine ⟨Safe.perm (hp.map Thread.role).symm ?_, fun hd => ?_⟩
    · rcases enter_role he with ⟨hr, hv⟩ | ⟨n, hr, hn, hv⟩
      · rw [List.map_cons, hr, hv]
        exact h.safe.enter
      · rw [List.map_cons, hr, hv]
        exact h.safe.enterDriver hn
    · exact enter_balanced (h.balanced (hmono ▸ hd)) he
  · have hm := exec_move he
    have hsafe : Safe c.sh.view (t.role :: rest.map Thread.role) :=
      h.safe.perm (hp.map Thread.role)
    refine ⟨Safe.perm (hp'.map Thread.role).symm (hsafe.move hm), fun hd => ?_⟩
    have hd0 : c.sh.word.isDestroying = false := Bool.eq_false_iff.mpr fun ht => by
      rw [show d.sh.word.isDestroying = true from hm.destroying ht] at hd
      cases hd
    refine exec_balanced (h.balanced hd0) he fun hr => ?_
    rw [show c.sh.word.isDestroying = true from
      hsafe.published _ List.mem_cons_self true hr] at hd0
    cases hd0

theorem alive_of_run {as : List (Actor.Act β T X)} {c : Actor.Conf β T X}
    (h : TS.run Actor.step Actor.init as = some c) : Alive c :=
  TS.run_inv (fun _ _ _ => Alive.step) Alive.init h

/-- **No lost wakeup.**  As long as the actor is not being destroyed, an accepted message that was
not popped, or a suspended behavior, has somebody behind it: a holder of `running`, a job node
(queued, or in the hand of a driver that has not acquired `running`), a caller that still owes
one, or a sender that unblocked the inbox and has not deregistered. -/
theorem no_lost_wakeup (as : List (Actor.Act β T X)) (c : Actor.Conf β T X)
    (h : TS.run Actor.step Actor.init as = some c) (hd : c.sh.word.isDestroying = false)
    (hw : c.sh.popped.length < c.sh.accepted.length ∨ c.sh.busy = true) :
    (∃ t ∈ c.pool, t.role.holds = true) ∨
    (0 < c.sh.nodes ∨ ∃ t ∈ c.pool, t.role = .early true ∨ t.role = .owing) ∨
    ∃ t ∈ c.pool, t.role = .registered true := by
  have hA := alive_of_run h
  have hwake := hA.safe.wake hd
  cases hr : c.sh.word.isRunning with
  | true =>
    have hc := hwake.holders
    rw [show c.sh.view.word.isRunning = true from hr] at hc
    obtain ⟨r, hmem, hholds⟩ := List.countP_pos_iff.mp (by rw [hc]; decide)
    obtain ⟨t, ht, rfl⟩ := List.mem_map.mp hmem
    exact Or.inl ⟨t, ht, hholds⟩
  | false =>
    rcases hwake.awake hr with ⟨ht, hc, hb⟩ | hn | ⟨r, hmem, hwk⟩
    · -- a quiet actor holds nothing and is not suspended
      have hheld : c.sh.box.held = [] := by
        obtain ⟨hu, hn⟩ := Mailbox.cached_zero.mp (bne_eq_false_iff_eq.mp hc)
        have hch : c.sh.box.inbox.chain = [] := by
          cases hi : c.sh.box.inbox with
          | stack l =>
            have ho : c.sh.view.tag = .opened := by show c.sh.box.inbox.tag = _; rw [hi]; rfl
            rw [ho] at ht
            cases ht
          | _ => rfl
        rw [Mailbox.held, hu, hn, hch]
        rfl
      have hlen := (hA.balanced hd).length_eq
      rw [hheld, List.append_nil] at hlen
      rcases hw with hw | hw
      · omega
      · rw [show c.sh.busy = false from hb] at hw
        cases hw
    · exact Or.inr (Or.inl (Or.inl hn))
    · obtain ⟨t, ht, rfl⟩ := List.mem_map.mp hmem
      cases hrole : t.role with
      | owing => exact Or.inr (Or.inl (Or.inr ⟨t, ht, Or.inr hrole⟩))
      | early n =>
        cases n with
        | true => exact Or.inr (Or.inl (Or.inr ⟨t, ht, Or.inl hrole⟩))
        | false => rw [hrole] at hwk; cases hwk
      | registered p =>
        cases p with
        | true => exact Or.inr (Or.inr ⟨t, ht, hrole⟩)
        | false => rw [hrole] at hwk; cases hwk
      | _ => rw [hrole] at hwk; cases hwk

/-- the first message of an actor, pushed and not yet scheduled -/
theorem no_lost_wakeup_first_message :
    ∃ c : Actor.Conf Unit Nat Unit, c.sh.nodes = 0 ∧ c.sh.word.isRunning = false ∧
      ((∃ t ∈ c.pool, t.role.holds = true) ∨
        (0 < c.sh.nodes ∨ ∃ t ∈ c.pool, t.role = .early true ∨ t.role = .owing) ∨
        ∃ t ∈ c.pool, t.role = .registered true) :=
  ⟨_, rfl, rfl, no_lost_wakeup
    [.spawn (.send ⟨⟨16, 1 <<< 60, ()⟩, .fresh, .regLoad⟩), .run 0 ⟨false, false, false, false⟩,
      .run 0 ⟨false, false, false, false⟩, .run 0 ⟨false, false, false, false⟩,
      .run 0 ⟨false, false, false, false⟩]
    _ rfl rfl (Or.inl (by decide))⟩

end
end ActorZeta
