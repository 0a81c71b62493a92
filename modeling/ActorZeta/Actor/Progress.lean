import ActorZeta.Actor.Exclusion

/-!
# Nobody is stuck

Whatever senders and drivers do, `take_head` finds the inbox as its assertions want it, and every
thread that is not through can take its next step, until the destructor is past its drain.

* `sound`, `unparked`   what a thread has read, and which drivers have the inbox unblocked;
* `Open`                these facts, and an inbox that is not closed;
* `exec_sound`, `Open.step`   every step keeps them;
* `never_stuck`         what that means in every run.
-/

namespace ActorZeta

/-- what `take_head()` has read is the first message of a chain -/
def TakeHead.armed {β : Type} : TakeHead β → Bool
  | .load => true
  | .cas last => last != .closedTag && !isEmptyOrBlockedTag last
  | .done _ => false

namespace RunPc
variable {β : Type}

/-- the chain in sight can be taken, and the verdict is not that of a shutdown node -/
def sound : RunPc β → Bool
  | .fetching _ t => t.armed
  | .guardLoad a _ _ | .guardCas a _ _ _ _ | .ret a _ => a != .shutdown
  | _ => true

/-- between `try_unblock()` and the next `try_block()`, or after the latter has lost the race -/
def unparked : RunPc β → Bool
  | .resuming _ | .entryBlocked | .fetching _ _ | .loopDestroying _ | .loopClosed _
  | .loopBlocked _ | .starting _ _ | .handling _ _ | .nothing _ | .tailClosed _
  | .parking _ => true
  | _ => false

/-- a driver at its place, in front of the inbox -/
structure Ready (b : Inbox β) (pc : RunPc β) : Prop where
  sound : pc.sound = true
  unparked : pc.unparked = true → b ≠ .blocked

end RunPc

namespace Thread
variable {β T X : Type}

def sound : Thread β T X → Bool
  | .send ⟨_, _, .pushing (.done _)⟩ => false
  | .run r => r.pc.sound
  | _ => true

def unparked : Thread β T X → Bool
  | .run r => r.pc.unparked
  | _ => false

/-- nothing is left to do -/
def through : Thread β T X → Bool
  | .send s => s.pc == .gone
  | .run ⟨_, _, .gone⟩ | .delete .finished => true
  | _ => false

end Thread

/-! ## drivers -/

section
variable {β T X : Type} {m m' : ActorMem β}

theorem RunPc.Ready.loopHead {b : Inbox β} (h : b ≠ .blocked) (max n : Nat) :
    RunPc.Ready b (Runner.loopHead max n) := by
  unfold Runner.loopHead
  split <;> exact ⟨rfl, fun _ => h⟩

/-- `take_head()` looks at an open inbox -/
theorem TakeHead.seen_armed {b : Inbox β} (hc : b ≠ .closed) (hb : b ≠ .blocked)
    (he : b ≠ .stack []) : (TakeHead.cas b.head : TakeHead β).armed = true := by
  cases b with
  | closed => exact absurd rfl hc
  | blocked => exact absurd rfl hb
  | stack l =>
    cases l with
    | nil => exact absurd rfl he
    | cons x l => rfl

/-- one look, or the exchange -/
theorem TakeHead.step_open (weak : Bool) {b : Inbox β} {t : TakeHead β} (hc : b ≠ .closed)
    (hb : b ≠ .blocked) (ht : t.armed = true) :
    ∃ (b' : Inbox β) (t' : TakeHead β), t.step .emptyTag weak b = some (b', t') ∧
      b' ≠ .blocked ∧ (t'.armed = true ∨ ∃ chain, t' = .done chain) := by
  have hlook : ∃ (b' : Inbox β) (t' : TakeHead β),
      some (b, TakeHead.seen .emptyTag b.head) = some (b', t') ∧
      b' ≠ .blocked ∧ (t'.armed = true ∨ ∃ chain, t' = .done chain) := by
    refine ⟨_, _, rfl, hb, ?_⟩
    unfold TakeHead.seen
    by_cases he : b.head = .emptyTag
    · rw [if_pos he]
      exact Or.inr ⟨[], rfl⟩
    · rw [if_neg he]
      exact Or.inl (TakeHead.seen_armed hc hb fun h => he (Inbox.head_empty.mpr h))
  cases t with
  | load =>
    unfold TakeHead.step
    rw [if_neg]
    · exact hlook
    · rintro (h | ⟨h, -⟩)
      · exact hc (Inbox.head_closed.mp h)
      · exact hb (Inbox.head_blocked.mp h)
  | cas last =>
    obtain ⟨h1, h2⟩ := Bool.and_eq_true_iff.mp ht
    simp only [TakeHead.step]
    by_cases hl : b.head = last ∧ weak = false
    · rw [if_pos hl, if_neg]
      · exact ⟨_, _, rfl, (fun he => by cases he), Or.inr ⟨_, rfl⟩⟩
      · rintro (h | ⟨h, -⟩)
        · rw [h] at h1
          cases h1
        · rw [h] at h2
          cases h2
    · rw [if_neg hl]
      exact hlook
  | done l => cases ht

/-- `fetch_more()` goes on -/
theorem fetchStep_open (weak : Bool) {mb : Mailbox β} {t : TakeHead β} (hc : mb.inbox ≠ .closed)
    (hb : mb.inbox ≠ .blocked) (ht : t.armed = true) :
    ∃ mb' t', mb.fetchStep weak t = some (mb', t') ∧ mb'.inbox ≠ .blocked ∧
      (t'.armed = true ∨ ∃ chain, t' = .done chain) := by
  obtain ⟨b', t', hs, hb', ht'⟩ := TakeHead.step_open weak hc hb ht
  unfold Mailbox.fetchStep
  rw [hs]
  refine ⟨_, _, rfl, ?_, ?_⟩
  · cases t' <;> exact hb'
  · cases t' <;> exact ht'

/-- and comes to an open inbox, with a chain in sight or in hand -/
theorem fetchStep_ready {weak : Bool} {mb mb' : Mailbox β} {t t' : TakeHead β}
    (hc : mb.inbox ≠ .closed) (hb : mb.inbox ≠ .blocked) (ht : t.armed = true)
    (hf : mb.fetchStep weak t = some (mb', t')) :
    mb'.inbox ≠ .blocked ∧ ∀ last, t' = .cas last → t'.armed = true := by
  obtain ⟨mb₁, t₁, hs, hb₁, ht₁⟩ := fetchStep_open weak hc hb ht
  obtain ⟨rfl, rfl⟩ := Prod.mk.inj (Option.some.inj (hs.symm.trans hf))
  refine ⟨hb₁, fun last hl => ?_⟩
  rcases ht₁ with ht₁ | ⟨chain, hd⟩
  · exact ht₁
  · rw [hl] at hd
    cases hd

/-- where a driver looks for a message the inbox is open -/
theorem Runner.PopsFrom.unblocked {g : Choice} {m₁ : ActorMem β} {pc : RunPc β} {n : Nat}
    (hp : Runner.PopsFrom g m pc n m₁) (hc : m.box.inbox ≠ .closed)
    (hr : RunPc.Ready m.box.inbox pc) : m₁.box.inbox ≠ .blocked := by
  cases hp with
  | loop hb hbusy => exact hb
  | resumed => exact hr.unparked rfl
  | fetched hchain hf => exact (fetchStep_ready hc (hr.unparked rfl) hr.sound hf).1

theorem run_ready {max : Nat} {g : Choice} {pc pc' : RunPc β} (hc : m.box.inbox ≠ .closed)
    (hr : RunPc.Ready m.box.inbox pc) (h : Runner.stepPc max g m pc = some (m', pc')) :
    RunPc.Ready m'.box.inbox pc' := by
  have hsame : m' = m ∨ m' = m.touch → m'.box = m.box := by
    rintro (rfl | rfl) <;> rfl
  have hunblock : m.box.tryUnblock.2.inbox ≠ .blocked := by
    show m.box.inbox.tryUnblock.2 ≠ .blocked
    cases m.box.inbox <;> (intro he; cases he)
  cases Runner.step_does h with
  | goOn hgo hm =>
    rw [hsame hm]
    cases hgo with
    | entryFetch hb | race hb => exact ⟨rfl, fun _ => hb⟩
    | entryAlive | entryOpen => exact ⟨rfl, fun he => by cases he⟩
    | _ => exact ⟨rfl, fun _ => hr.unparked rfl⟩
  | turnBack hback hm => cases hback <;> exact ⟨rfl, fun he => by cases he⟩
  | unpark | unparkReady => exact ⟨rfl, fun _ => hunblock⟩
  | resumed => exact ⟨rfl, fun _ => hr.unparked rfl⟩
  | fetchAgain hf =>
    obtain ⟨hb, ht⟩ := fetchStep_ready hc (hr.unparked rfl) hr.sound hf
    exact ⟨ht _ rfl, fun _ => hb⟩
  | entryEmpty hf hcached =>
    exact ⟨rfl, fun _ => (fetchStep_ready hc (hr.unparked rfl) hr.sound hf).1⟩
  | nothing hf => exact ⟨rfl, fun _ => (fetchStep_ready hc (hr.unparked rfl) hr.sound hf).1⟩
  | entryFull hf hcached =>
    exact .loopHead (fetchStep_ready hc (hr.unparked rfl) hr.sound hf).1 max 0
  | pop hp hpop =>
    refine ⟨rfl, fun _ => ?_⟩
    rw [(Mailbox.popCached_some hpop).1]
    exact hp.unblocked hc hr
  | fetch hp hnone => exact ⟨rfl, fun _ => hp.unblocked hc hr⟩
  | drop | handle => exact .loopHead (hr.unparked rfl) max _
  | acqLoad | guardLoad | guardBound | guardAgain => exact ⟨hr.sound, fun he => by cases he⟩
  | @release a n k o i hcas hw =>
    refine ⟨?_, fun he => by cases he⟩
    show Runner.verdict a o.scheduledWhileRunning != .shutdown
    unfold Runner.verdict
    split
    · rfl
    · exact hr.sound
  | _ => exact ⟨rfl, fun he => by cases he⟩

/-! ## senders -/

theorem send_sound {weak : Bool} {s s' : Sender β T X} (hs : (Thread.send s).sound = true)
    (h : s.step weak m = some (m', s')) : (Thread.send s').sound = true := by
  cases Sender.step_does h with
  | regBound | leaveBound => exact hs
  | _ => rfl

/-- a driver that has unparked the inbox holds `running` -/
theorem Thread.unparked_holds {t : Thread β T X} (h : t.unparked = true) :
    t.role.holds = true := by
  cases t with
  | run r =>
    obtain ⟨max, node, pc⟩ := r
    cases pc with
    | fetching w t => cases w <;> rfl
    | resuming e | entryBlocked | loopDestroying n | loopClosed n | loopBlocked n | starting n msg
    | handling n msg | nothing n | tailClosed n | parking n => rfl
    | _ => cases h
  | _ => cases h

/-! ## what can be done next -/

theorem send_enabled (weak : Bool) {s : Sender β T X} (hs : (Thread.send s).sound = true)
    (ht : (Thread.send s).through = false) : ∃ r, s.step weak m = some r := by
  obtain ⟨msg, slot, pc⟩ := s
  cases pc with
  | regLoad | leaveLoad r | ret needsSched r => exact ⟨_, rfl⟩
  | regCas current n =>
    simp only [Sender.step]
    split
    · exact ⟨_, rfl⟩
    · split
      · exact ⟨_, rfl⟩
      · split <;> exact ⟨_, rfl⟩
  | pushing p =>
    cases p with
    | load => exact ⟨_, rfl⟩
    | cas last =>
      simp only [Sender.step, Push.step]
      split <;> exact ⟨_, rfl⟩
    | done r => cases hs
  | leaveCas r current n =>
    simp only [Sender.step]
    split
    · exact ⟨_, rfl⟩
    · split <;> exact ⟨_, rfl⟩
  | gone => cases ht

theorem run_enabled (max : Nat) (node : Bool) (g : Choice) {pc : RunPc β}
    (hc : m.box.inbox ≠ .closed) (hr : RunPc.Ready m.box.inbox pc)
    (ht : (Thread.run ⟨max, node, pc⟩ : Thread β T X).through = false) :
    ∃ r, Runner.stepPc max g m pc = some r := by
  cases pc with
  | acqCas current n =>
    simp only [Runner.stepPc]
    split
    · exact ⟨_, rfl⟩
    · split
      · split <;> exact ⟨_, rfl⟩
      · exact ⟨_, rfl⟩
  | resuming e =>
    cases e with
    | none => exact ⟨_, rfl⟩
    | some n =>
      simp only [Runner.stepPc]
      split <;> exact ⟨_, rfl⟩
  | fetching w t =>
    obtain ⟨mb', t', hs, -⟩ := fetchStep_open g.weak hc (hr.unparked rfl) hr.sound
    simp only [Runner.stepPc, hs]
    exact ⟨_, rfl⟩
  | loopBlocked n =>
    simp only [Runner.stepPc]
    split
    · exact ⟨_, rfl⟩
    · split <;> exact ⟨_, rfl⟩
  | starting n msg =>
    simp only [Runner.stepPc]
    split <;> exact ⟨_, rfl⟩
  | guardCas a n k o i =>
    simp only [Runner.stepPc]
    split
    · exact ⟨_, rfl⟩
    · split <;> exact ⟨_, rfl⟩
  | gone => cases ht
  | _ => exact ⟨_, rfl⟩

theorem delete_enabled {g : Choice} {x : Destructor β} (hx : x.role ≠ .deleting true) :
    ∃ r, x.step g m = some r := by
  cases x with
  | load => exact ⟨_, rfl⟩
  | publishCas current n =>
    simp only [Destructor.step]
    split
    · exact ⟨_, rfl⟩
    · split <;> exact ⟨_, rfl⟩
  | draining =>
    simp only [Destructor.step]
    split <;> exact ⟨_, rfl⟩
  | _ => exact absurd rfl hx

end

/-! ## runs -/

namespace Actor
variable {β T X : Type} {c d : Conf β T X}

/-- the inbox is as every thread expects it -/
structure Open (c : Conf β T X) : Prop where
  closed : c.sh.box.inbox ≠ .closed
  sound : ∀ t ∈ c.pool, t.sound = true
  unparked : ∀ t ∈ c.pool, t.unparked = true → c.sh.box.inbox ≠ .blocked

theorem Open.init : Open (init : Conf β T X) := by
  refine ⟨nofun, fun t ht => absurd ht List.not_mem_nil, fun t ht => absurd ht List.not_mem_nil⟩

theorem enter_sound {m m' : ActorMem β} {t : Thread β T X} (h : enter m t = some m') :
    t.sound = true ∧ t.unparked = false ∧ m'.box = m.box := by
  cases t with
  | send s =>
    obtain ⟨msg, slot, pc⟩ := s
    simp only [enter] at h
    split at h
    · rename_i hc
      obtain ⟨rfl, -⟩ := hc
      cases h
      exact ⟨rfl, rfl, rfl⟩
    · cases h
  | run r =>
    obtain ⟨max, node, pc⟩ := r
    cases pc with
    | acqLoad =>
      simp only [enter] at h
      split at h
      · cases h; exact ⟨rfl, rfl, rfl⟩
      · cases h
    | _ => cases h
  | delete d =>
    cases d with
    | load =>
      simp only [enter] at h
      split at h
      · cases h; exact ⟨rfl, rfl, rfl⟩
      · cases h
    | _ => cases h

theorem Open.spawn {t : Thread β T X} (h : Open c) (hs : step c (.spawn t) = some d) :
    Open d := by
  obtain ⟨he, hp⟩ := TS.Conf.step_spawn hs
  obtain ⟨hsound, hpark, hbox⟩ := enter_sound he
  have hmem : ∀ u ∈ d.pool, u ∈ c.pool ∨ u = t := by
    intro u hu
    rw [hp] at hu
    exact (List.mem_append.mp hu).imp id List.mem_singleton.mp
  refine ⟨hbox ▸ h.closed, fun u hu => ?_, fun u hu hup => ?_⟩
  · rcases hmem u hu with hu | rfl
    · exact h.sound u hu
    · exact hsound
  · rw [hbox]
    rcases hmem u hu with hu | rfl
    · exact h.unparked u hu hup
    · rw [hpark] at hup
      cases hup

theorem Open.run {i : Nat} {g : Choice} (h : Open c) (hE : Exclusive c) (hd : drained c = false)
    (hs : step c (.run i g) = some d) : Open d := by
  obtain ⟨l₁, t, l₂, t', hp, -, he, hp'⟩ := TS.Conf.step_run hs
  have hperm : c.pool.Perm (t :: (l₁ ++ l₂)) := hp ▸ List.perm_middle
  have hperm' : d.pool.Perm (t' :: (l₁ ++ l₂)) := hp' ▸ List.perm_middle
  have ht : t ∈ c.pool := hperm.mem_iff.mpr List.mem_cons_self
  have hdel : t.role ≠ .deleting true := not_drained hd ht
  -- the thread that moves
  have hself : t'.sound = true ∧ (t'.unparked = true → d.sh.box.inbox ≠ .blocked) := by
    rcases exec_cases he with ⟨s, s', rfl, rfl, hs⟩ | ⟨max, node, pc, pc', rfl, rfl, hs⟩ |
      ⟨x, x', rfl, rfl, -⟩
    · exact ⟨send_sound (h.sound _ ht) hs, nofun⟩
    · have hr := run_ready h.closed ⟨h.sound _ ht, h.unparked _ ht⟩ hs
      exact ⟨hr.sound, hr.unparked⟩
    · exact ⟨rfl, nofun⟩
  refine ⟨fun hc => ?_, fun u hu => ?_, fun u hu hup => ?_⟩
  · rcases (exec_move he).closed (tag_closed.mpr hc) with ht | ht
    · exact h.closed (tag_closed.mp ht)
    · exact hdel ht
  · rcases List.mem_cons.mp (hperm'.mem_iff.mp hu) with rfl | hu
    · exact hself.1
    · exact h.sound u (hperm.mem_iff.mpr (List.mem_cons_of_mem _ hu))
  · rcases List.mem_cons.mp (hperm'.mem_iff.mp hu) with rfl | hu
    · exact hself.2 hup
    · -- another one holds `running`, so this step is a push at most
      have hub := h.unparked u (hperm.mem_iff.mpr (List.mem_cons_of_mem _ hu)) hup
      have hnot : t.role.holds = false := by
        refine Bool.eq_false_iff.mpr fun hth => ?_
        have hle := hE.le_one
        rw [hp] at hle
        have huh := Thread.unparked_holds hup
        rw [TS.not_of_countP_le_one (p:=fun t : Thread β T X => t.role.holds) hle hth hu] at huh
        cases huh
      obtain ⟨-, -, hbox | ⟨s, -, hbox⟩⟩ := exec_frame he hnot hdel
      · rw [hbox]
        exact hub
      · rw [hbox]
        show c.sh.box.inbox.push s.msg ≠ .blocked
        cases c.sh.box.inbox <;> nofun

theorem Open.step {a : Act β T X} (h : Open c) (hE : Exclusive c) (hd : drained c = false)
    (hs : step c a = some d) : Open d := by
  cases a with
  | spawn t => exact h.spawn hs
  | run i g => exact h.run hE hd hs

theorem open_of_run {as : List (Act β T X)} (h : TS.run step init as = some c)
    (hd : drained c = false) : Open c := by
  suffices hI : Guarded c ∧ (drained c = false → Open c) from hI.2 hd
  refine TS.run_inv (I:=fun c => Guarded c ∧ (drained c = false → Open c)) (fun c a d hI hs => ?_)
    ⟨Guarded.init, fun _ => Open.init⟩ h
  refine ⟨hI.1.step hs, fun hd => ?_⟩
  have hd0 : drained c = false := Bool.eq_false_iff.mpr fun ht => by
    rw [drained_step hs ht] at hd
    cases hd
  exact (hI.2 hd0).step (hI.1.exclusive hd0) hd0 hs

theorem exec_step {i : Nat} {g : Choice} {t : Thread β T X} {r : ActorMem β × Thread β T X}
    (ht : c.pool[i]? = some t) (hr : exec g c.sh t = some r) :
    step c (.run i g) = some ⟨r.1, c.pool.set i r.2⟩ := by
  show (c.pool[i]?.bind fun t => (exec g c.sh t).map fun r =>
    (⟨r.1, c.pool.set i r.2⟩ : Conf β T X)) = _
  rw [ht]
  exact congrArg (Option.map _) hr

/-- whoever is not through can go on -/
theorem Open.exec {t : Thread β T X} (h : Open c) (ht : t ∈ c.pool) (hdel : t.role ≠ .deleting true)
    (ha : c.sh.aborted = false) (hthrough : t.through = false) (g : Choice) :
    ∃ r, exec g c.sh t = some r := by
  have hsound := h.sound t ht
  have hpark := h.unparked t ht
  unfold Actor.exec
  rw [ha]
  cases t with
  | send s =>
    obtain ⟨r, hs⟩ := send_enabled g.weak (m:=c.sh) hsound hthrough
    exact ⟨_, congrArg (Option.map _) hs⟩
  | run r =>
    obtain ⟨max, node, pc⟩ := r
    obtain ⟨r, hs⟩ := run_enabled max node g h.closed ⟨hsound, hpark⟩ hthrough
    have hs' : Runner.step g c.sh ⟨max, node, pc⟩ = some (r.1, ⟨max, node, r.2⟩) :=
      congrArg (Option.map _) hs
    exact ⟨_, congrArg (Option.map _) hs'⟩
  | delete x =>
    obtain ⟨r, hs⟩ := delete_enabled (g:=g) (m:=c.sh) hdel
    exact ⟨_, congrArg (Option.map _) hs⟩

/-- and whoever is through does nothing more -/
theorem exec_through {t : Thread β T X} (h : t.through = true) {g : Choice} {m : ActorMem β} :
    exec g m t = none := by
  unfold Actor.exec
  split
  · rfl
  · cases t with
    | send s =>
      obtain ⟨msg, slot, pc⟩ := s
      obtain rfl : pc = .gone := beq_iff_eq.mp h
      rfl
    | run r =>
      obtain ⟨max, node, pc⟩ := r
      cases pc with
      | gone => rfl
      | _ => cases h
    | delete x =>
      cases x with
      | finished => rfl
      | _ => cases h

/-- what the threads of an actor may rely on -/
structure Unstuck (c : Conf β T X) : Prop where
  /-- whoever is inside `take_head()` has an open inbox in front, and what it has read there is
  neither of the tags nor the null pointer -/
  asserted : ∀ r, Thread.run r ∈ c.pool → ∀ w x, r.pc = .fetching w x →
    c.sh.box.inbox.isOpen = true ∧ ∀ last, x = .cas last →
      last ≠ .closedTag ∧ isEmptyOrBlockedTag last = false
  /-- whoever is not through can take its next step, whatever it turns out to be -/
  next : ∀ (i : Nat) (t : Thread β T X), c.pool[i]? = some t → t.through = false →
    ∀ g, ∃ d, step c (.run i g) = some d

/-- **Nobody is stuck**, in every reachable state of any number of senders and of drivers, called
or uncalled, until the destructor is past its drain: no assertion of `take_head()` fails, and what
a thread does next, it can do. -/
theorem never_stuck (as : List (Act β T X)) (c : Conf β T X) (h : TS.run step init as = some c)
    (hd : drained c = false) (ha : c.sh.aborted = false) : Unstuck c := by
  have hO := open_of_run h hd
  constructor
  case asserted =>
    intro r hr w x hpc
    obtain ⟨max, node, pc⟩ := r
    dsimp only at hpc
    subst hpc
    have hb := hO.unparked _ hr rfl
    have harmed : x.armed = true := hO.sound _ hr
    refine ⟨?_, fun last hx => ?_⟩
    · cases hi : c.sh.box.inbox with
      | closed => exact absurd hi hO.closed
      | blocked => exact absurd hi hb
      | stack l => rfl
    · subst hx
      obtain ⟨h1, h2⟩ := Bool.and_eq_true_iff.mp harmed
      exact ⟨bne_iff_ne.mp h1, (Bool.not_eq_true' _).mp h2⟩
  case next =>
    intro i t ht hthrough g
    have hmem := List.mem_of_getElem? ht
    obtain ⟨r, hr⟩ := hO.exec hmem (not_drained hd hmem) ha hthrough g
    exact ⟨_, exec_step ht hr⟩

/-- the first message of an actor is in the inbox, and a driver has seen it there -/
theorem never_stuck_fetching :
    ∃ (c : Conf Unit Nat Unit) (r : Runner Unit), c.pool[1]? = some (.run r) ∧
      r.pc = .fetching .entry (.cas (.node (some 16))) ∧ Unstuck c :=
  ⟨_, _, rfl, rfl, never_stuck
    ([.spawn (.send ⟨⟨16, 1 <<< 60, ()⟩, .fresh, .regLoad⟩)] ++
      List.replicate 7 (.run 0 ⟨false, false, false, false⟩) ++
      [.spawn (.run ⟨1, true, .acqLoad⟩)] ++
      List.replicate 7 (.run 1 ⟨false, false, false, false⟩))
    _ rfl rfl rfl⟩

end Actor
end ActorZeta
