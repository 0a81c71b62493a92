import ActorZeta.Actor.Steps

/-!
# The scheduling protocol of an actor

What the senders, the drivers and the destructor negotiate, with everything else forgotten.

* `View`     what the parties see of the actor: the word, the tag of the inbox, whether messages are
             cached, whether the behavior is busy, the queued job nodes;
* `Role`     what a thread stands for in the protocol;
* `Move`     everything a party can do in one step, with its guards;
* `exec_move`, `enter_role`   the machine plays by these rules: every step of every thread is a
             move from its role to its next role.

The invariants of the following modules are proved about moves alone.
-/

namespace ActorZeta

/-- the inbox as its tags show it -/
inductive Tag where
  | closed
  | blocked
  | opened
  deriving DecidableEq, Repr

def Inbox.tag {β : Type} : Inbox β → Tag
  | .closed => .closed
  | .blocked => .blocked
  | .stack _ => .opened

structure View where
  word : ActorState
  tag : Tag
  cached : Bool
  busy : Bool
  nodes : Nat

namespace View

/-- parked for good: the next push finds the inbox blocked, and there is nothing else to do -/
def Quiet (v : View) : Prop := v.tag = .blocked ∧ v.cached = false ∧ v.busy = false

def unparked (v : View) : View := { v with tag := if v.tag = .blocked then .opened else v.tag }

end View

/-- what a thread stands for -/
inductive Role where
  /-- outside of the actor: not yet registered, or finished -/
  | apart
  /-- a registered sender; `pending`: it unblocked the inbox -/
  | registered (pending : Bool)
  /-- a caller that must enqueue a job node -/
  | owing
  /-- a driver that has not acquired `running`; `node`: it was given a job node -/
  | early (node : Bool)
  /-- a holder of `running` before it unparks the inbox -/
  | entering
  /-- a holder at work; `idle`: it has found the behavior not busy -/
  | working (idle : Bool)
  /-- a holder that has blocked the inbox -/
  | parked
  /-- a holder in `~resume_guard`, with what it has recorded -/
  | leaving (result : ResumeResult) (keep : Bool) (recorded : Option Bool)
  /-- the destructor after it published `destroying`; `drained`: past the drain -/
  | deleting (drained : Bool)
  deriving DecidableEq, Repr

namespace Role

/-- it holds `running` -/
def holds : Role → Bool
  | .entering | .working _ | .parked | .leaving _ _ _ => true
  | _ => false

/-- between the registering and the deregistering compare-exchange -/
def isRegistered : Role → Bool
  | .registered _ => true
  | _ => false

def isEarly : Role → Bool
  | .early _ => true
  | _ => false

def isOwing : Role → Bool
  | .owing => true
  | _ => false

/-- after the last compare-exchange of a caller -/
def returned (owes : Bool) : Role := if owes then .owing else .apart

end Role

open Role in
/-- one step of one party -/
inductive Move : View → Role → View → Role → Prop
  | wait (v : View) (r : Role) : Move v r v r
  | register {v : View} : v.word.isDestroying = false →
      Move v apart { v with word := v.word.addSender } (registered false)
  | push {v : View} : v.tag ≠ .closed →
      Move v (registered false) { v with tag := .opened } (registered (v.tag == .blocked))
  | leave {v : View} {p : Bool} :
      Move v (registered p) { v with word := (Sender.leaveDesired v.word p).1 }
        (returned (Sender.leaveDesired v.word p).2)
  | discharge {v : View} : Move v owing { v with nodes := v.nodes + 1 } apart
  | acquire {v : View} {n : Bool} : v.word.isRunning = false →
      Move v (early n) { v with word := (v.word.setRunning true).setScheduled false } entering
  | mark {v : View} {n : Bool} : v.word.isRunning = true →
      Move v (early n) { v with word := v.word.setScheduled true } apart
  | quit {v : View} {r : Role} : r = entering ∨ (∃ b, r = working b) →
      v.word.isDestroying = true ∨ v.tag = .closed → Move v r v (leaving .done false none)
  | unpark {v : View} {b : Bool} : (b = true → v.busy = false) →
      Move v entering v.unparked (working b)
  | unparkBusy {v : View} : Move v entering v.unparked (leaving .resume true none)
  | work {v : View} {b b' c y : Bool} : (b' = true → y = false ∨ (b = true ∧ y = v.busy)) →
      Move v (working b) { v with cached := c, busy := y } (working b')
  | stop {v : View} {b c y : Bool} :
      Move v (working b) { v with cached := c, busy := y } (leaving .resume true none)
  | await {v : View} {b : Bool} : v.tag = .blocked →
      Move v (working b) v (leaving .awaiting false none)
  | park {v : View} : v.tag = .opened → v.cached = false →
      Move v (working true) { v with tag := .blocked } parked
  | race {v : View} : Move v parked v (leaving .awaiting false none)
  | raceLost {v : View} {c : Bool} :
      Move v parked { v with cached := c } (leaving .resume true none)
  | observe {v : View} {a : ResumeResult} {k : Bool} {o : Option Bool} :
      Move v (leaving a k o) v (leaving a k (some (o.getD false || v.word.isScheduled)))
  | release {v : View} {a : ResumeResult} {k o : Bool} : (v.word.isScheduled = true → o = true) →
      Move v (leaving a k (some o)) { v with word := Runner.guardDesired k v.word }
        (returned (Runner.verdict a o == .resume))
  | publish {v : View} : Move v apart { v with word := v.word.setDestroying } (deleting false)
  | published {v : View} : v.word.isDestroying = true → Move v apart v (deleting false)
  | drained {v : View} : v.word.isRunning = false → v.word.senderCount = 0 →
      Move v (deleting false) v (deleting true)
  | terminal {v : View} :
      Move v (deleting true) { v with word := .makeState false false true } (deleting true)
  | tearDown {v : View} {t : Tag} {c : Bool} : t = v.tag ∨ t = .closed →
      Move v (deleting true) { v with tag := t, cached := c } (deleting true)

/-- what deregistering does to the word, and when the caller owes a job node -/
theorem leaveDesired_cases (w : ActorState) (p : Bool) (hd : w.isDestroying = false) :
    (Sender.leaveDesired w p).1.isRunning = w.isRunning ∧
    (Sender.leaveDesired w p).1.isScheduled = (w.isScheduled || p) ∧
    (Sender.leaveDesired w p).2 = (p && !w.isScheduled && !w.isRunning) := by
  unfold Sender.leaveDesired
  cases p <;> cases hs : w.isScheduled <;> simp [hd, hs]

/-- nobody schedules a dying actor -/
theorem leaveDesired_destroying (w : ActorState) (p : Bool) (hd : w.isDestroying = true) :
    Sender.leaveDesired w p = (w.subSender, false) := by
  unfold Sender.leaveDesired
  rw [hd, Bool.not_true, Bool.and_false, Bool.false_and]
  rfl

/-- `destroying` stays -/
theorem Move.destroying {v v' : View} {r r' : Role} (h : Move v r v' r')
    (hd : v.word.isDestroying = true) : v'.word.isDestroying = true := by
  cases h with
  | leave =>
    unfold Sender.leaveDesired
    split <;> simp [hd]
  | unpark | unparkBusy => exact hd
  | _ => simp [hd, Runner.guardDesired]

/-- who publishes `destroying`, and who has seen it published -/
theorem Move.deleting {v v' : View} {r r' : Role} {d : Bool} (h : Move v r v' r')
    (hr : r' = .deleting d) (hs : ∀ d, r = .deleting d → v.word.isDestroying = true) :
    v'.word.isDestroying = true := by
  cases h with
  | wait => exact hs _ hr
  | drained => exact hs _ rfl
  | publish => simp
  | published hd => exact hd
  | terminal => simp
  | tearDown => exact hs _ rfl
  | leave | release =>
    unfold Role.returned at hr
    split at hr <;> cases hr
  | _ => cases hr

/-- nobody becomes a driver at the door -/
theorem Move.to_early {v v' : View} {r r' : Role} {n : Bool} (h : Move v r v' r')
    (hr : r' = .early n) : r = .early n := by
  cases h with
  | wait => exact hr
  | leave | release =>
    unfold Role.returned at hr
    split at hr <;> cases hr
  | _ => cases hr

/-- only the destructor past its drain closes the inbox -/
theorem Move.closed {v v' : View} {r r' : Role} (h : Move v r v' r') (ht : v'.tag = .closed) :
    v.tag = .closed ∨ r = .deleting true := by
  cases h with
  | push | park => cases ht
  | unpark | unparkBusy =>
    unfold View.unparked at ht
    split at ht
    · cases ht
    · exact Or.inl ht
  | tearDown => exact Or.inr rfl
  | _ => exact Or.inl ht

/-! ## the roles of the machine's threads -/

namespace SendPc

def role : SendPc → Role
  | .regLoad | .regCas _ _ | .gone => .apart
  | .pushing _ => .registered false
  | .leaveLoad r | .leaveCas r _ _ => .registered (r == .unblockedReader)
  | .ret needsSched _ => .returned needsSched

end SendPc

namespace RunPc
variable {β : Type}

def role (node : Bool) : RunPc β → Role
  | .acqLoad | .acqCas _ _ => .early node
  | .entryDestroying | .entryClosed | .unpark => .entering
  | .resuming _ | .loopDestroying _ | .loopClosed _ | .loopBlocked _ | .starting _ _
  | .handling _ _ | .tailClosed _ => .working false
  | .entryBlocked | .fetching .entry _ | .fetching (.pop _) _ | .nothing _ | .parking _ =>
    .working true
  | .raceBlocked _ | .fetching (.race _) _ => .parked
  | .guardLoad a _ k => .leaving a k none
  | .guardCas a _ k o _ => .leaving a k (some o.scheduledWhileRunning)
  | .ret a _ => .returned (a == .resume)
  | .gone => .apart

end RunPc

namespace Destructor
variable {β : Type}

def role : Destructor β → Role
  | .load | .publishCas _ _ => .apart
  | .draining => .deleting false
  | .termLoad | .termCas _ _ | .members | .closing _ | .finished => .deleting true

end Destructor

namespace Thread
variable {β T X : Type}

def role : Thread β T X → Role
  | .send s => s.pc.role
  | .run r => r.pc.role r.node
  | .delete d => d.role

end Thread

namespace ActorMem
variable {β : Type}

def view (m : ActorMem β) : View :=
  ⟨m.word, m.box.inbox.tag, m.box.cached != 0, m.busy, m.nodes⟩

end ActorMem

/-! ## the machine plays by the rules -/

section
variable {β T X : Type}

theorem tag_push {b : Inbox β} (m : Message β) (h : b ≠ .closed) : (b.push m).tag = .opened := by
  cases b with
  | closed => exact absurd rfl h
  | blocked => rfl
  | stack l => rfl

/-- a push tells whether it met the blocked inbox -/
theorem tag_pushed (b : Inbox β) :
    (Push.pushed b.head == .unblockedReader) = (b.tag == .blocked) := by
  cases b with
  | stack l => cases l <;> rfl
  | _ => rfl

theorem tag_closed {b : Inbox β} : b.tag = .closed ↔ b = .closed := by
  cases b <;> simp [Inbox.tag]

theorem sender_move {weak : Bool} {m m' : ActorMem β} {s s' : Sender β T X}
    (h : s.step weak m = some (m', s')) : Move m.view s.pc.role m'.view s'.pc.role := by
  cases Sender.step_does h with
  | register hc hd => exact .register (v:=m.view) hd
  | @push msg slot p hpush hb =>
    have hmove := Move.push (v:=m.view) fun ht => hb (tag_closed.mp ht)
    rw [← tag_push msg hb, ← show _ = (m.view.tag == .blocked) from tag_pushed m.box.inbox] at hmove
    exact hmove
  | leave hc => exact .leave (v:=m.view)
  | @ret msg slot needsSched r =>
    cases needsSched with
    | true => exact .discharge (v:=m.view)
    | false => exact .wait _ _
  | _ => exact .wait _ _

/-! ### drivers -/

theorem loopHead_role (max h : Nat) (node : Bool) :
    (Runner.loopHead (β:=β) max h).role node = .working false := by
  unfold Runner.loopHead
  split <;> rfl

/-- a fetch leaves an open inbox open; its cached lists can only grow -/
theorem fetch_view {m : ActorMem β} {weak : Bool} {t t' : TakeHead β} {box : Mailbox β}
    (h : m.box.fetchStep weak t = some (box, t')) :
    ∃ c, ({ m.touch with box := box } : ActorMem β).view = { m.view with cached := c } ∧
      (c = false → m.view.cached = false) := by
  rcases Mailbox.fetchStep_cases h with ⟨rfl, -⟩ | ⟨rfl, -⟩ | ⟨l, -, hb, rfl, -⟩
  · exact ⟨_, rfl, id⟩
  · exact ⟨_, rfl, id⟩
  · refine ⟨(Mailbox.fetched { m.box with inbox := .stack [] } l).cached != 0, ?_, fun hc => ?_⟩
    · have ht : m.box.inbox.tag = (Inbox.stack (β:=β) []).tag := by rw [hb]; rfl
      unfold ActorMem.view
      rw [ht]
      rfl
    · rw [Mailbox.fetched_cached] at hc
      have hz : m.box.cached = 0 := by
        have hz := bne_eq_false_iff_eq.mp hc
        simp only [Mailbox.cached] at hz ⊢
        omega
      show (m.box.cached != 0) = false
      rw [hz]
      rfl

theorem unpark_view (m : ActorMem β) :
    ({ m.touch with box := m.box.tryUnblock.2 } : ActorMem β).view = m.view.unparked := by
  obtain ⟨word, ⟨us, ns, b⟩, busy, nodes, _, _, _, _, _, _, _⟩ := m
  cases b <;> rfl

theorem fetching_role (node : Bool) (w : FetchFor) (t t' : TakeHead β) :
    (RunPc.fetching w t).role node = (RunPc.fetching w t').role node := by
  cases w <;> rfl

/-- whoever looks for a message is a holder at work, and has just found the behavior not busy or
did so before it fetched -/
theorem Runner.PopsFrom.working {g : Choice} {m m₁ : ActorMem β} {pc : RunPc β} {n : Nat}
    (h : Runner.PopsFrom g m pc n m₁) (node : Bool) :
    ∃ b c y, pc.role node = .working b ∧ m₁.view = { m.view with cached := c, busy := y } ∧
      (y = false ∨ (b = true ∧ y = m.view.busy)) := by
  cases h with
  | loop hb hbusy => exact ⟨false, m.view.cached, m.view.busy, rfl, rfl, Or.inl hbusy⟩
  | resumed hbusy => exact ⟨false, m.view.cached, false, rfl, rfl, Or.inl rfl⟩
  | fetched hchain hf =>
    obtain ⟨c, hc, -⟩ := fetch_view hf
    exact ⟨true, c, m.view.busy, rfl, hc, Or.inr ⟨rfl, rfl⟩⟩

theorem run_move {max : Nat} {node : Bool} {g : Choice} {m m' : ActorMem β} {pc pc' : RunPc β}
    (h : Runner.stepPc max g m pc = some (m', pc')) :
    Move m.view (pc.role node) m'.view (pc'.role node) := by
  have htouch : m' = m ∨ m' = m.touch → m'.view = m.view := by
    rintro (rfl | rfl) <;> rfl
  cases Runner.step_does h with
  | mark hc hr => exact .mark (v:=m.view) hr
  | acquire hc hr => exact .acquire (v:=m.view) hr
  | goOn hgo hm =>
    rw [htouch hm]
    cases hgo with
    | tail hc hb =>
      exact .work (v:=m.view) (c:=m.view.cached) (y:=m.view.busy) fun _ => Or.inl hb
    | _ => exact .wait _ _
  | turnBack hback hm =>
    rw [htouch hm]
    cases hback with
    | entryDying hd => exact .quit (Or.inl rfl) (Or.inl hd)
    | loopDying hd => exact .quit (Or.inr ⟨false, rfl⟩) (Or.inl hd)
    | entryClosed hc => exact .quit (Or.inl rfl) (Or.inr (tag_closed.mpr hc))
    | loopClosed hc | tailClosed hc =>
      exact .quit (Or.inr ⟨false, rfl⟩) (Or.inr (tag_closed.mpr hc))
    | nothing hc => exact .quit (Or.inr ⟨true, rfl⟩) (Or.inr (tag_closed.mpr hc))
    | entryBlocked hb | loopBlocked hb => exact .await (congrArg Inbox.tag hb)
    | raceBlocked hb => exact .race
    | suspended | tailBusy => exact .stop (v:=m.view) (c:=m.view.cached) (y:=m.view.busy)
  | unpark hb =>
    rw [unpark_view]
    exact .unpark (v:=m.view) fun _ => hb
  | unparkReady hb hr =>
    rw [unpark_view]
    exact .unpark nofun
  | unparkBusy hb hr =>
    rw [unpark_view]
    exact .unparkBusy
  | resumed hb => exact .work (v:=m.view) (c:=m.view.cached) (y:=false) fun _ => Or.inl rfl
  | resumedBusy hb => exact .stop (v:=m.view) (c:=m.view.cached) (y:=true)
  | @fetchAgain w t last hf =>
    rw [fetching_role node w t (.cas last)]
    exact .wait m.view _
  | entryEmpty hf hc =>
    obtain ⟨c, hv, -⟩ := fetch_view hf
    rw [hv]
    exact .work (v:=m.view) (y:=m.view.busy) fun _ => Or.inr ⟨rfl, rfl⟩
  | nothing hf =>
    obtain ⟨c, hv, -⟩ := fetch_view hf
    rw [hv]
    exact .work (v:=m.view) (y:=m.view.busy) fun _ => Or.inr ⟨rfl, rfl⟩
  | entryFull hf hc =>
    obtain ⟨c, hv, -⟩ := fetch_view hf
    rw [hv, loopHead_role]
    exact .work (v:=m.view) (y:=m.view.busy) nofun
  | raceEmpty hf hc =>
    -- nothing was fetched
    obtain ⟨c, hv, hgrow⟩ := fetch_view hf
    have hcached := congrArg View.cached hv
    change (_ != 0) = c at hcached
    rw [hc] at hcached
    subst hcached
    have hsame : m.view = { m.view with cached := false } := by rw [← hgrow rfl]
    rw [hv]
    change Move m.view .parked { m.view with cached := false } _
    rw [← hsame]
    exact .race
  | raceLost hf hc =>
    obtain ⟨c, hv, -⟩ := fetch_view hf
    rw [hv]
    exact .raceLost
  | @pop pc n m₁ msg box hp hpop =>
    obtain ⟨b, c, y, hr, hv, -⟩ := hp.working node
    have hview : ({ m₁ with box := box, popped := m₁.popped ++ [msg] } : ActorMem β).view
        = { m₁.view with cached := box.cached != 0 } := by
      simp [ActorMem.view, (Mailbox.popCached_some hpop).1]
    rw [hr, hview, hv]
    exact .work nofun
  | fetch hp hnone =>
    obtain ⟨b, c, y, hr, hv, hy⟩ := hp.working node
    rw [hr, hv]
    exact .work fun _ => hy
  | drop hd =>
    rw [loopHead_role]
    exact .wait m.view _
  | @handle n msg =>
    rw [loopHead_role]
    exact .work (v:=m.view) (c:=m.view.cached) (y:=g.busy) nofun
  | park hb =>
    rcases Mailbox.tryBlock_cases m.box with ⟨he, hc, hb⟩ | he
    · rw [he]
      have hc' : m.view.cached = false := by show (m.box.cached != 0) = false; rw [hc]; rfl
      exact .park (v:=m.view) (congrArg Inbox.tag hb) hc'
    · rw [he] at hb
      cases hb
  | stay hb =>
    rcases Mailbox.tryBlock_cases m.box with ⟨he, -⟩ | he
    · rw [he] at hb
      cases hb
    · rw [he]
      exact .stop (v:=m.view) (c:=m.view.cached) (y:=m.view.busy)
  | guardLoad => exact Move.observe (v:=m.view) (o:=none)
  | @release a n k o i hc hw =>
    exact .release (v:=m.view) fun hs => o.covers (hw ▸ hs)
  | @guardAgain a n k o i hc hf => exact .observe (v:=m.view) (o:=some o.scheduledWhileRunning)
  | @ret a n =>
    cases a with
    | resume => exact .discharge (v:=m.view)
    | awaiting | done | shutdown => exact .wait m.view _
  | acqLoad | acqBound | acqAgain | guardBound => exact .wait _ _

theorem role_early {pc : RunPc β} {node n : Bool} (h : pc.role node = .early n) :
    n = node ∧ (pc = .acqLoad ∨ ∃ current i, pc = .acqCas current i) := by
  cases pc with
  | acqLoad => cases h; exact ⟨rfl, Or.inl rfl⟩
  | acqCas current i => cases h; exact ⟨rfl, Or.inr ⟨current, i, rfl⟩⟩
  | fetching w t => cases w <;> cases h
  | ret a h0 => cases a <;> cases h
  | _ => cases h

/-- a driver that holds a word inside `try_acquire_running` held it before, or has just read it -/
theorem acqCas_cases {max : Nat} {g : Choice} {m m' : ActorMem β} {pc pc' : RunPc β}
    {current : ActorState} {n : Nat} (h : Runner.stepPc max g m pc = some (m', pc'))
    (hpc : pc' = .acqCas current n) :
    (∃ node, pc.role node = .early node) ∧
      ((∃ n', pc = .acqCas current n') ∨ current = m.word) := by
  have he : pc.role true = .early true := (run_move h).to_early (by rw [hpc]; rfl)
  refine ⟨⟨true, he⟩, ?_⟩
  subst hpc
  rcases (role_early he).2 with rfl | ⟨cur, i, rfl⟩
  · cases h; exact Or.inr rfl
  · cases Runner.step_does h with
    | acqBound hc => exact Or.inl ⟨_, rfl⟩
    | acqAgain hc hf => exact Or.inr rfl
    | goOn hgo => cases hgo

/-! ### the destructor -/

theorem publish_move {v : View} {n : Nat} :
    Move v .apart v (Destructor.publish (β:=β) v.word n).role := by
  unfold Destructor.publish
  split
  · rename_i hd
    exact .published hd
  · exact .wait _ _

theorem delete_move {g : Choice} {m m' : ActorMem β} {d d' : Destructor β}
    (h : d.step g m = some (m', d')) : Move m.view d.role m'.view d'.role := by
  cases Destructor.step_does h with
  | load | publishAgain hc hf => exact publish_move (v:=m.view)
  | publish hc => exact .publish (v:=m.view)
  | wait hw hm => rcases hm with rfl | rfl <;> exact .wait _ _
  | drained hr hc => exact .drained hr hc
  | term hc => exact .terminal (v:=m.view)
  | members hc => exact .tearDown (v:=m.view) (c:=false) (Or.inl rfl)
  | close hf =>
    rcases Mailbox.closeStep_cases hf with ⟨-, last, he⟩ | ⟨rfl, hb, -⟩ | ⟨hb, rfl, -⟩
    · cases he
    · exact .wait m.view _
    · exact .tearDown (v:=m.view) (t:=.closed) (c:=m.view.cached) (Or.inr rfl)
  | publishBound | termLoad | termBound | termAgain | closed | closeAgain => exact .wait _ _

/-! ### the whole machine -/

/-- **The machine plays by the rules**: every step is a move. -/
theorem exec_move {g : Choice} {m m' : ActorMem β} {t t' : Thread β T X}
    (h : Actor.exec g m t = some (m', t')) : Move m.view t.role m'.view t'.role := by
  rcases Actor.exec_cases h with ⟨s, s', rfl, rfl, hs⟩ | ⟨max, node, pc, pc', rfl, rfl, hs⟩ |
    ⟨d, d', rfl, rfl, hs⟩
  · exact sender_move hs
  · exact run_move hs
  · exact delete_move hs

/-- a thread begins outside, or as a driver with the job node it was given -/
theorem enter_role {m m' : ActorMem β} {t : Thread β T X} (h : Actor.enter m t = some m') :
    (t.role = .apart ∧ m'.view = m.view) ∨
    ∃ node, t.role = .early node ∧ node.toNat ≤ m.nodes ∧
      m'.view = { m.view with nodes := m.nodes - node.toNat } := by
  cases t with
  | send s =>
    obtain ⟨msg, slot, pc⟩ := s
    simp only [Actor.enter] at h
    split at h
    · rename_i hc
      cases h
      obtain ⟨rfl, -⟩ := hc
      exact Or.inl ⟨rfl, rfl⟩
    · cases h
  | run r =>
    obtain ⟨max, node, pc⟩ := r
    cases pc with
    | acqLoad =>
      simp only [Actor.enter] at h
      split at h
      · rename_i hc
        cases h
        exact Or.inr ⟨node, rfl, hc.2.1, rfl⟩
      · cases h
    | _ => cases h
  | delete d =>
    cases d with
    | load =>
      simp only [Actor.enter] at h
      split at h
      · cases h; exact Or.inl ⟨rfl, rfl⟩
      · cases h
    | _ => cases h

end
end ActorZeta
