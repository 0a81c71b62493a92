import ActorZeta.Actor.Machine

/-!
# What one step of a thread can do

The three step functions are taken apart here once; what a step preserves is read off these
relations.

* `Sender.Does`, `Sender.step_does`           a sender;
* `Runner.GoesOn`, `Runner.TurnsBack`, `Runner.PopsFrom`   a driver that only looks, and where it
                                              goes to its mailbox for a message;
* `Runner.Does`, `Runner.step_does`           a driver;
* `Destructor.Does`, `Destructor.step_does`   the destructor.
-/

namespace ActorZeta
variable {β T X : Type}

theorem casAttempt_some {n k : Nat} (h : casAttempt n = some k) : k = n + 1 := by
  unfold casAttempt at h
  split at h
  · exact (Option.some.inj h).symm
  · cases h

/-- why a compare-exchange fails -/
theorem beaten_of {w cur : ActorState} {weak : Bool} (h : ¬(w = cur ∧ weak = false)) :
    w ≠ cur ∨ weak = true := by
  by_cases hw : w = cur
  · exact Or.inr (Bool.not_eq_false _ ▸ fun hf => h ⟨hw, hf⟩)
  · exact Or.inl hw

/-! ## senders -/

/-- a push that succeeds is not refused -/
theorem Push.pushed_ne (last : Head) : Push.pushed last ≠ .queueClosed := by
  unfold Push.pushed
  split
  · intro he
    cases he
  · intro he
    cases he

namespace Sender

/-- what a sender can do -/
inductive Does (weak : Bool) (m : ActorMem β) : Sender β T X → ActorMem β → Sender β T X → Prop
  | regLoad {msg slot} : Does weak m ⟨msg, slot, .regLoad⟩ m ⟨msg, slot, .regCas m.word 0⟩
  | regBound {msg slot current n} : casAttempt n = none →
      Does weak m ⟨msg, slot, .regCas current n⟩ m.abort ⟨msg, slot, .regCas current n⟩
  | refused {msg slot current n} : casAttempt n = some (n + 1) → current.isDestroying = true →
      Does weak m ⟨msg, slot, .regCas current n⟩ (m.destroy msg)
        (dropMessage ⟨msg, slot, .regCas current n⟩ (.ret false .queueClosed))
  | register {msg slot n} : casAttempt n = some (n + 1) → m.word.isDestroying = false →
      Does weak m ⟨msg, slot, .regCas m.word n⟩ { m with word := m.word.addSender }
        ⟨msg, slot, .pushing .load⟩
  | regAgain {msg slot current n} : casAttempt n = some (n + 1) → m.word ≠ current ∨ weak = true →
      Does weak m ⟨msg, slot, .regCas current n⟩ m ⟨msg, slot, .regCas m.word (n + 1)⟩
  | look {msg slot p last} : p.step m.box.inbox msg = some (m.box.inbox, .cas last) →
      Does weak m ⟨msg, slot, .pushing p⟩ m.touch ⟨msg, slot, .pushing (.cas last)⟩
  | pushRefused {msg slot p} :
      p.step m.box.inbox msg = some (m.box.inbox, .done .queueClosed) → m.box.inbox = .closed →
      Does weak m ⟨msg, slot, .pushing p⟩ (m.touch.destroy msg)
        (dropMessage ⟨msg, slot, .pushing p⟩ (.leaveLoad .queueClosed))
  | push {msg slot p} :
      p.step m.box.inbox msg = some (m.box.inbox.push msg, .done (Push.pushed m.box.inbox.head)) →
      m.box.inbox ≠ .closed →
      Does weak m ⟨msg, slot, .pushing p⟩
        { m.touch with box := { m.box with inbox := m.box.inbox.push msg },
                       accepted := m.accepted ++ [msg] }
        ⟨msg, slot, .leaveLoad (Push.pushed m.box.inbox.head)⟩
  | leaveLoad {msg slot r} : Does weak m ⟨msg, slot, .leaveLoad r⟩ m
      ⟨msg, slot, .leaveCas r m.word 0⟩
  | leaveBound {msg slot r current n} : casAttempt n = none →
      Does weak m ⟨msg, slot, .leaveCas r current n⟩ m.abort ⟨msg, slot, .leaveCas r current n⟩
  | leave {msg slot r n} : casAttempt n = some (n + 1) →
      Does weak m ⟨msg, slot, .leaveCas r m.word n⟩
        { m with word := (leaveDesired m.word (r == .unblockedReader)).1 }
        ⟨msg, slot, .ret (leaveDesired m.word (r == .unblockedReader)).2 r⟩
  | leaveAgain {msg slot r current n} : casAttempt n = some (n + 1) →
      m.word ≠ current ∨ weak = true →
      Does weak m ⟨msg, slot, .leaveCas r current n⟩ m ⟨msg, slot, .leaveCas r m.word (n + 1)⟩
  | ret {msg slot needsSched r} : Does weak m ⟨msg, slot, .ret needsSched r⟩
      { m with nodes := m.nodes + needsSched.toNat } ⟨msg, slot, .gone⟩

theorem step_does {weak : Bool} {m m' : ActorMem β} {s s' : Sender β T X}
    (h : s.step weak m = some (m', s')) : Does weak m s m' s' := by
  obtain ⟨msg, slot, pc⟩ := s
  cases pc with
  | regLoad => cases h; exact .regLoad
  | regCas current n =>
    simp only [step] at h
    split at h
    · cases h; exact .regBound ‹_›
    · rename_i k hk
      obtain rfl := casAttempt_some hk
      split at h
      · cases h; exact .refused hk ‹_›
      · rename_i hd
        split at h
        · rename_i hw
          obtain ⟨rfl, -⟩ := hw
          cases h
          exact .register hk (Bool.eq_false_iff.mpr hd)
        · cases h; exact .regAgain hk (beaten_of ‹_›)
  | pushing p =>
    obtain ⟨⟨b, p'⟩, hp, he⟩ := Option.map_eq_some_iff.mp h
    cases he
    rcases Push.step_cases hp with ⟨-, rfl, last, rfl⟩ | ⟨rfl, hb, rfl⟩ | ⟨hb, rfl, rfl⟩
    · exact .look hp
    · exact .pushRefused hp hb
    · have hdo : Does weak m ⟨msg, slot, .pushing p⟩ _ _ := .push hp hb
      cases hr : Push.pushed m.box.inbox.head with
      | queueClosed => exact absurd hr (Push.pushed_ne _)
      | success => rw [hr] at hdo; exact hdo
      | unblockedReader => rw [hr] at hdo; exact hdo
  | leaveLoad r => cases h; exact .leaveLoad
  | leaveCas r current n =>
    simp only [step] at h
    split at h
    · cases h; exact .leaveBound ‹_›
    · rename_i k hk
      obtain rfl := casAttempt_some hk
      split at h
      · rename_i hw
        obtain ⟨rfl, -⟩ := hw
        cases h
        exact .leave hk
      · cases h; exact .leaveAgain hk (beaten_of ‹_›)
  | ret needsSched r => cases h; exact .ret
  | gone => cases h

end Sender

/-! ## drivers -/

namespace Runner

/-- a check of the state word, of the inbox or of the behavior that lets the driver pass -/
inductive GoesOn (ready : Bool) (m : ActorMem β) : RunPc β → RunPc β → Prop
  | entryAlive : m.word.isDestroying = false → GoesOn ready m .entryDestroying .entryClosed
  | entryOpen : m.box.inbox ≠ .closed → GoesOn ready m .entryClosed .unpark
  | entryFetch : m.box.inbox ≠ .blocked → GoesOn ready m .entryBlocked (.fetching .entry .load)
  | loopAlive {n} : m.word.isDestroying = false → GoesOn ready m (.loopDestroying n) (.loopClosed n)
  | loopOpen {n} : m.box.inbox ≠ .closed → GoesOn ready m (.loopClosed n) (.loopBlocked n)
  | resumable {n} : m.box.inbox ≠ .blocked → m.busy = true → ready = true →
      GoesOn ready m (.loopBlocked n) (.resuming (some n))
  | start {n msg} : m.word.isDestroying = false →
      GoesOn ready m (.starting n msg) (.handling n msg)
  | nothing {n} : m.box.inbox ≠ .closed → GoesOn ready m (.nothing n) (.parking n)
  | tail {n} : m.box.inbox ≠ .closed → m.busy = false → GoesOn ready m (.tailClosed n) (.parking n)
  | race {n} : m.box.inbox ≠ .blocked →
      GoesOn ready m (.raceBlocked n) (.fetching (.race n) .load)

/-- a check that sends it out, with its verdict -/
inductive TurnsBack (ready : Bool) (m : ActorMem β) :
    RunPc β → ResumeResult → Nat → Bool → Prop
  | entryDying : m.word.isDestroying = true → TurnsBack ready m .entryDestroying .done 0 false
  | entryClosed : m.box.inbox = .closed → TurnsBack ready m .entryClosed .done 0 false
  | entryBlocked : m.box.inbox = .blocked → TurnsBack ready m .entryBlocked .awaiting 0 false
  | loopDying {n} : m.word.isDestroying = true → TurnsBack ready m (.loopDestroying n) .done n false
  | loopClosed {n} : m.box.inbox = .closed → TurnsBack ready m (.loopClosed n) .done n false
  | loopBlocked {n} : m.box.inbox = .blocked → TurnsBack ready m (.loopBlocked n) .awaiting n false
  | suspended {n} : m.box.inbox ≠ .blocked → m.busy = true → ready = false →
      TurnsBack ready m (.loopBlocked n) .resume n true
  | nothing {n} : m.box.inbox = .closed → TurnsBack ready m (.nothing n) .done n false
  | tailClosed {n} : m.box.inbox = .closed → TurnsBack ready m (.tailClosed n) .done n false
  | tailBusy {n} : m.box.inbox ≠ .closed → m.busy = true →
      TurnsBack ready m (.tailClosed n) .resume n true
  | raceBlocked {n} : m.box.inbox = .blocked → TurnsBack ready m (.raceBlocked n) .awaiting n false

/-- where `pop_front()` looks into the lists, and the actor it finds there -/
inductive PopsFrom (g : Choice) (m : ActorMem β) : RunPc β → Nat → ActorMem β → Prop
  | loop {n} : m.box.inbox ≠ .blocked → m.busy = false →
      PopsFrom g m (.loopBlocked n) n m.touch
  | resumed {n} : g.busy = false → PopsFrom g m (.resuming (some n)) n { m with busy := false }
  | fetched {n t chain box} : chain ≠ [] → m.box.fetchStep g.weak t = some (box, .done chain) →
      PopsFrom g m (.fetching (.pop n) t) n { m.touch with box := box }

/-- what a driver can do -/
inductive Does (max : Nat) (g : Choice) (m : ActorMem β) :
    RunPc β → ActorMem β → RunPc β → Prop
  | acqLoad : Does max g m .acqLoad m (.acqCas m.word 0)
  | acqBound {current n} : casAttempt n = none →
      Does max g m (.acqCas current n) m.abort (.acqCas current n)
  | mark {n} : casAttempt n = some (n + 1) → m.word.isRunning = true →
      Does max g m (.acqCas m.word n) { m with word := m.word.setScheduled true } (.ret .awaiting 0)
  | acquire {n} : casAttempt n = some (n + 1) → m.word.isRunning = false →
      Does max g m (.acqCas m.word n)
        { m with word := (m.word.setRunning true).setScheduled false } .entryDestroying
  | acqAgain {current n} : casAttempt n = some (n + 1) → m.word ≠ current ∨ g.weak = true →
      Does max g m (.acqCas current n) m (.acqCas m.word (n + 1))
  | goOn {pc m' pc'} : GoesOn g.ready m pc pc' → m' = m ∨ m' = m.touch → Does max g m pc m' pc'
  | turnBack {pc m' a n k} : TurnsBack g.ready m pc a n k → m' = m ∨ m' = m.touch →
      Does max g m pc m' (.guardLoad a n k)
  | unpark : m.busy = false →
      Does max g m .unpark { m.touch with box := m.box.tryUnblock.2 } .entryBlocked
  | unparkReady : m.busy = true → g.ready = true →
      Does max g m .unpark { m.touch with box := m.box.tryUnblock.2 } (.resuming none)
  | unparkBusy : m.busy = true → g.ready = false →
      Does max g m .unpark { m.touch with box := m.box.tryUnblock.2 } (.guardLoad .resume 0 true)
  | resumed : g.busy = false →
      Does max g m (.resuming none) { m with busy := false } .entryBlocked
  | resumedBusy {e} : g.busy = true →
      Does max g m (.resuming e) { m with busy := true } (.guardLoad .resume (e.getD 0) true)
  | fetchAgain {w t last} : m.box.fetchStep g.weak t = some (m.box, .cas last) →
      Does max g m (.fetching w t) m.touch (.fetching w (.cas last))
  | entryEmpty {t chain box} : m.box.fetchStep g.weak t = some (box, .done chain) →
      box.cached = 0 →
      Does max g m (.fetching .entry t) { m.touch with box := box } (.parking 0)
  | entryFull {t chain box} : m.box.fetchStep g.weak t = some (box, .done chain) →
      box.cached ≠ 0 →
      Does max g m (.fetching .entry t) { m.touch with box := box } (loopHead max 0)
  | raceEmpty {n t chain box} : m.box.fetchStep g.weak t = some (box, .done chain) →
      box.cached = 0 →
      Does max g m (.fetching (.race n) t) { m.touch with box := box } (.guardLoad .awaiting n false)
  | raceLost {n t chain box} : m.box.fetchStep g.weak t = some (box, .done chain) →
      box.cached ≠ 0 →
      Does max g m (.fetching (.race n) t) { m.touch with box := box } (.guardLoad .resume n true)
  | nothing {n t box} : m.box.fetchStep g.weak t = some (box, .done []) →
      Does max g m (.fetching (.pop n) t) { m.touch with box := box } (.nothing n)
  | pop {pc n m₁ msg box} : PopsFrom g m pc n m₁ → m₁.box.popCached = some (msg, box) →
      Does max g m pc { m₁ with box := box, popped := m₁.popped ++ [msg] } (.starting n msg)
  | fetch {pc n m₁} : PopsFrom g m pc n m₁ → m₁.box.popCached = none →
      Does max g m pc m₁ (.fetching (.pop n) .load)
  | drop {n msg} : m.word.isDestroying = true →
      Does max g m (.starting n msg) (m.destroy msg) (loopHead max (n + 1))
  | handle {n msg} :
      Does max g m (.handling n msg) { m.destroy msg with busy := g.busy } (loopHead max (n + 1))
  | park {n} : m.box.tryBlock.1 = true →
      Does max g m (.parking n) { m.touch with box := m.box.tryBlock.2 } (.raceBlocked n)
  | stay {n} : m.box.tryBlock.1 = false →
      Does max g m (.parking n) { m.touch with box := m.box.tryBlock.2 } (.guardLoad .resume n true)
  | guardLoad {a n k} : Does max g m (.guardLoad a n k) m (.guardCas a n k (.first m.word) 0)
  | guardBound {a n k o i} : casAttempt i = none →
      Does max g m (.guardCas a n k o i) m.abort (.guardCas a n k o i)
  | release {a n k o i} : casAttempt i = some (i + 1) → m.word = o.current →
      Does max g m (.guardCas a n k o i) { m with word := guardDesired k m.word }
        (.ret (verdict a o.scheduledWhileRunning) n)
  | guardAgain {a n k o i} : casAttempt i = some (i + 1) → m.word ≠ o.current ∨ g.weak = true →
      Does max g m (.guardCas a n k o i) m (.guardCas a n k (o.again m.word) (i + 1))
  | ret {a n} : Does max g m (.ret a n)
      { m with nodes := m.nodes + (a == .resume).toNat } .gone

theorem popTurn_some {m : ActorMem β} {n : Nat} {msg : Message β} {box : Mailbox β}
    (h : m.box.popCached = some (msg, box)) :
    popTurn m n = ({ m with box := box, popped := m.popped ++ [msg] }, .starting n msg) := by
  unfold popTurn
  rw [h]

theorem popTurn_none {m : ActorMem β} {n : Nat} (h : m.box.popCached = none) :
    popTurn m n = (m, .fetching (.pop n) .load) := by
  unfold popTurn
  rw [h]

/-- `pop_front()` on the lists -/
theorem does_of_popTurn {max : Nat} {g : Choice} {m m₁ m' : ActorMem β} {pc pc' : RunPc β} {n : Nat}
    (hp : PopsFrom g m pc n m₁) (h : popTurn m₁ n = (m', pc')) : Does max g m pc m' pc' := by
  cases hb : m₁.box.popCached with
  | some r =>
    rw [popTurn_some hb] at h
    cases h
    exact .pop hp hb
  | none =>
    rw [popTurn_none hb] at h
    cases h
    exact .fetch hp hb

/-- the caller of `fetch_more` goes on -/
theorem does_of_fetched {max : Nat} {g : Choice} {m m' : ActorMem β} {w : FetchFor}
    {t : TakeHead β} {chain : List (Message β)} {box : Mailbox β} {pc' : RunPc β}
    (hf : m.box.fetchStep g.weak t = some (box, .done chain))
    (h : afterFetch max { m.touch with box := box } (!chain.isEmpty) w = (m', pc')) :
    Does max g m (.fetching w t) m' pc' := by
  cases w with
  | entry =>
    cases h
    split
    · exact .entryEmpty hf ‹_›
    · exact .entryFull hf ‹_›
  | pop n =>
    cases chain with
    | nil => cases h; exact .nothing hf
    | cons x chain => exact does_of_popTurn (.fetched (List.cons_ne_nil x chain) hf) h
  | race n =>
    cases h
    split
    · exact .raceEmpty hf ‹_›
    · exact .raceLost hf ‹_›

theorem step_does {max : Nat} {g : Choice} {m m' : ActorMem β} {pc pc' : RunPc β}
    (h : stepPc max g m pc = some (m', pc')) : Does max g m pc m' pc' := by
  have hclosed : m.box.inbox.head ≠ .closedTag → m.box.inbox ≠ .closed := fun hn he =>
    hn (Inbox.head_closed.mpr he)
  have hblocked : m.box.inbox.head ≠ .blockedTag → m.box.inbox ≠ .blocked := fun hn he =>
    hn (Inbox.head_blocked.mpr he)
  cases pc with
  | acqLoad => cases h; exact .acqLoad
  | acqCas current n =>
    simp only [stepPc] at h
    split at h
    · cases h; exact .acqBound ‹_›
    · rename_i k hk
      obtain rfl := casAttempt_some hk
      split at h
      · rename_i hw
        obtain ⟨rfl, -⟩ := hw
        split at h
        · cases h; exact .mark hk ‹_›
        · cases h; exact .acquire hk (Bool.eq_false_iff.mpr ‹_›)
      · cases h; exact .acqAgain hk (beaten_of ‹_›)
  | entryDestroying =>
    cases h
    split
    · exact .turnBack (.entryDying ‹_›) (Or.inl rfl)
    · exact .goOn (.entryAlive (Bool.eq_false_iff.mpr ‹_›)) (Or.inl rfl)
  | entryClosed =>
    cases h
    split
    · exact .turnBack (.entryClosed (Inbox.head_closed.mp ‹_›)) (Or.inr rfl)
    · exact .goOn (.entryOpen (hclosed ‹_›)) (Or.inr rfl)
  | unpark =>
    cases h
    split
    · unfold drain
      split
      · exact .unparkReady ‹_› ‹_›
      · exact .unparkBusy ‹_› (Bool.eq_false_iff.mpr ‹_›)
    · exact .unpark (Bool.eq_false_iff.mpr ‹_›)
  | resuming e =>
    cases e with
    | none =>
      cases h
      cases hb : g.busy with
      | true => exact .resumedBusy hb
      | false => exact .resumed hb
    | some n =>
      simp only [stepPc] at h
      split at h
      · cases h; exact .resumedBusy ‹_›
      · exact does_of_popTurn (.resumed (Bool.eq_false_iff.mpr ‹_›)) (Option.some.inj h)
  | entryBlocked =>
    cases h
    split
    · exact .turnBack (.entryBlocked (Inbox.head_blocked.mp ‹_›)) (Or.inr rfl)
    · exact .goOn (.entryFetch (hblocked ‹_›)) (Or.inr rfl)
  | fetching w t =>
    obtain ⟨⟨box, t'⟩, hf, he⟩ := Option.map_eq_some_iff.mp h
    rcases Mailbox.fetchStep_cases hf with ⟨rfl, last, rfl⟩ | ⟨-, -, rfl⟩ | ⟨l, -, -, -, rfl⟩
    · cases he; exact .fetchAgain hf
    · exact does_of_fetched hf he
    · exact does_of_fetched hf he
  | loopDestroying n =>
    cases h
    split
    · exact .turnBack (.loopDying ‹_›) (Or.inl rfl)
    · exact .goOn (.loopAlive (Bool.eq_false_iff.mpr ‹_›)) (Or.inl rfl)
  | loopClosed n =>
    cases h
    split
    · exact .turnBack (.loopClosed (Inbox.head_closed.mp ‹_›)) (Or.inr rfl)
    · exact .goOn (.loopOpen (hclosed ‹_›)) (Or.inr rfl)
  | loopBlocked n =>
    simp only [stepPc] at h
    split at h
    · cases h; exact .turnBack (.loopBlocked (Inbox.head_blocked.mp ‹_›)) (Or.inr rfl)
    · rename_i hb
      split at h
      · rename_i hbusy
        cases h
        unfold drain
        split
        · exact .goOn (.resumable (hblocked hb) hbusy ‹_›) (Or.inr rfl)
        · exact .turnBack (.suspended (hblocked hb) hbusy (Bool.eq_false_iff.mpr ‹_›)) (Or.inr rfl)
      · exact does_of_popTurn (.loop (hblocked hb) (Bool.eq_false_iff.mpr ‹_›)) (Option.some.inj h)
  | starting n msg =>
    simp only [stepPc] at h
    split at h
    · cases h; exact .drop ‹_›
    · cases h; exact .goOn (.start (Bool.eq_false_iff.mpr ‹_›)) (Or.inl rfl)
  | handling n msg => cases h; exact .handle
  | nothing n =>
    cases h
    split
    · exact .turnBack (.nothing (Inbox.head_closed.mp ‹_›)) (Or.inr rfl)
    · exact .goOn (.nothing (hclosed ‹_›)) (Or.inr rfl)
  | tailClosed n =>
    cases h
    split
    · exact .turnBack (.tailClosed (Inbox.head_closed.mp ‹_›)) (Or.inr rfl)
    · rename_i hc
      split
      · exact .turnBack (.tailBusy (hclosed hc) ‹_›) (Or.inr rfl)
      · exact .goOn (.tail (hclosed hc) (Bool.eq_false_iff.mpr ‹_›)) (Or.inr rfl)
  | parking n =>
    cases h
    cases hb : m.box.tryBlock.1 with
    | true => exact .park hb
    | false => exact .stay hb
  | raceBlocked n =>
    cases h
    split
    · exact .turnBack (.raceBlocked (Inbox.head_blocked.mp ‹_›)) (Or.inr rfl)
    · exact .goOn (.race (hblocked ‹_›)) (Or.inr rfl)
  | guardLoad a n k => cases h; exact .guardLoad
  | guardCas a n k o i =>
    simp only [stepPc] at h
    split at h
    · cases h; exact .guardBound ‹_›
    · rename_i j hj
      obtain rfl := casAttempt_some hj
      split at h
      · rename_i hw
        cases h
        rw [← hw.1]
        exact .release hj hw.1
      · cases h; exact .guardAgain hj (beaten_of ‹_›)
  | ret a n => cases h; exact .ret
  | gone => cases h

end Runner

/-! ## the destructor -/

namespace Destructor

/-- what the destructor can do -/
inductive Does (g : Choice) (m : ActorMem β) : Destructor β → ActorMem β → Destructor β → Prop
  | load : Does g m .load m (publish m.word 0)
  | publishBound {current n} : casAttempt n = none →
      Does g m (.publishCas current n) m.abort (.publishCas current n)
  | publish {n} : casAttempt n = some (n + 1) →
      Does g m (.publishCas m.word n) { m with word := m.word.setDestroying } .draining
  | publishAgain {current n} : casAttempt n = some (n + 1) → m.word ≠ current ∨ g.weak = true →
      Does g m (.publishCas current n) m (Destructor.publish m.word (n + 1))
  | wait {m'} : m.word.isRunning = true ∨ m.word.senderCount ≠ 0 → m' = m ∨ m' = m.abort →
      Does g m .draining m' .draining
  | drained : m.word.isRunning = false → m.word.senderCount = 0 → Does g m .draining m .termLoad
  | termLoad : Does g m .termLoad m (.termCas m.word 0)
  | termBound {current n} : casAttempt n = none →
      Does g m (.termCas current n) m.abort (.termCas current n)
  | term {n} : casAttempt n = some (n + 1) →
      Does g m (.termCas m.word n) { m with word := .makeState false false true } .members
  | termAgain {current n} : casAttempt n = some (n + 1) → m.word ≠ current ∨ g.weak = true →
      Does g m (.termCas current n) m (.termCas m.word (n + 1))
  | closed : m.box.inbox = .closed → Does g m .members { m with boxAlive := false } .finished
  | members : m.box.inbox ≠ .closed →
      Does g m .members { m with box := m.box.drained,
                                 destroyed := m.destroyed ++ (m.box.urgent ++ m.box.normal) }
        (.closing .load)
  | closeAgain {t last} : m.box.closeStep g.weak t = some (m.box, .cas last) →
      Does g m (.closing t) m (.closing (.cas last))
  | close {t chain box} : m.box.closeStep g.weak t = some (box, .done chain) →
      Does g m (.closing t) { m with box := box, destroyed := m.destroyed ++ chain,
                                     boxAlive := false } .finished

theorem step_does {g : Choice} {m m' : ActorMem β} {d d' : Destructor β}
    (h : d.step g m = some (m', d')) : Does g m d m' d' := by
  cases d with
  | load => cases h; exact .load
  | publishCas current n =>
    simp only [step] at h
    split at h
    · cases h; exact .publishBound ‹_›
    · rename_i k hk
      obtain rfl := casAttempt_some hk
      split at h
      · rename_i hw
        obtain ⟨rfl, -⟩ := hw
        cases h
        exact .publish hk
      · cases h; exact .publishAgain hk (beaten_of ‹_›)
  | draining =>
    simp only [step] at h
    split at h
    · rename_i hb
      cases h
      refine .wait ?_ ?_
      · simpa using hb
      · cases g.timeout
        · exact Or.inl rfl
        · exact Or.inr rfl
    · rename_i hb
      cases h
      simp only [Bool.or_eq_true, bne_iff_ne, not_or, not_not, Bool.not_eq_true] at hb
      exact .drained hb.1 hb.2
  | termLoad => cases h; exact .termLoad
  | termCas current n =>
    simp only [step] at h
    split at h
    · cases h; exact .termBound ‹_›
    · rename_i k hk
      obtain rfl := casAttempt_some hk
      split at h
      · rename_i hw
        obtain ⟨rfl, -⟩ := hw
        cases h
        exact .term hk
      · cases h; exact .termAgain hk (beaten_of ‹_›)
  | members =>
    simp only [step] at h
    split at h
    · cases h; exact .closed (Inbox.head_closed.mp ‹_›)
    · rename_i hc
      cases h
      exact .members fun he => hc (Inbox.head_closed.mpr he)
  | closing t =>
    obtain ⟨⟨box, t'⟩, hf, he⟩ := Option.map_eq_some_iff.mp h
    rcases Mailbox.closeStep_cases hf with ⟨rfl, last, rfl⟩ | ⟨-, -, rfl⟩ | ⟨-, -, rfl⟩
    · cases he; exact .closeAgain hf
    · cases he; exact .close hf
    · cases he; exact .close hf
  | finished => cases h

end Destructor

/-! ## who comes in -/

/-- a thread that begins leaves the word alone -/
theorem enter_word {m m' : ActorMem β} {t : Thread β T X} (h : Actor.enter m t = some m') :
    m'.word = m.word := by
  unfold Actor.enter at h
  split at h
  · split at h <;> cases h; rfl
  · split at h <;> cases h; rfl
  · split at h <;> cases h; rfl
  · cases h

end ActorZeta
