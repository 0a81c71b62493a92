import ActorZeta.Actor.Machine

/-!
# cooperative_actor: one thread, one call of resume() after the other

`resume()`, `resume_impl` and `park` as functions, for a thread that nobody interferes with; the
handlers of the actor may send to the actor itself while they run.

* `Handlers`       what `behavior(msg)` and a resumed continuation do;
* `Serial.resume`  one call; `none` where an assertion of the inbox fails;
* `Served`         the account of a call: what it started, what was sent meanwhile, what is left;
* `serve`          the messages that `k` turns of the mailbox give;
* `Account`        the account of a sequence of calls, call by call;
* `resume_serves`  the meaning of `resume(k)`, and of any sequence of calls.
-/

namespace ActorZeta

/-- What the code of an actor does, up to its end or its next suspension: the actor afterwards, the
messages it sent to the actor itself, and whether it is suspended.  A `continuation` is there when
the awaited state is ready. -/
structure Handlers (σ β : Type) where
  behavior : σ → Message β → σ × List (Message β) × Bool
  continuation : σ → Option (σ × List (Message β) × Bool)

/-- an actor with one thread at work on it, the messages `behavior()` was called for, and those that
the actor sent to itself -/
structure Serial (σ β : Type) where
  word : ActorState
  box : Mailbox β
  actor : σ
  busy : Bool
  started : List (Message β)
  sent : List (Message β)

namespace Mailbox
variable {β : Type}

/-- `push_back`, undisturbed -/
def pushBack (mb : Mailbox β) (m : Message β) : EnqueueResult × Mailbox β :=
  match mb.inbox with
  | .closed => (.queueClosed, mb)
  | b => (Push.pushed b.head, { mb with inbox := b.push m })

/-- `fetch_more()`, undisturbed; `take_head` asserts that the inbox is neither closed nor blocked -/
def fetchMore (mb : Mailbox β) : Option (Bool × Mailbox β) :=
  match mb.inbox with
  | .stack l => some (!l.isEmpty, ({ mb with inbox := .stack [] }).fetched l)
  | _ => none

/-- `empty()`, which is `size() == 0` -/
def isEmpty (mb : Mailbox β) : Option (Bool × Mailbox β) :=
  mb.fetchMore.map fun r => (r.2.cached == 0, r.2)

/-- `pop_front()` -/
def popFront (mb : Mailbox β) : Option (Option (Message β) × Mailbox β) :=
  match mb.popCached with
  | some (m, mb) => some (some m, mb)
  | none => mb.fetchMore.map fun r => match r.2.popCached with
    | some (m, mb) => (some m, mb)
    | none => (none, r.2)

end Mailbox

/-- what a call of `finalize` is given: the verdict, the count, and whether to keep `scheduled` -/
abbrev Verdict := ResumeResult × Nat × Bool

namespace Serial
variable {σ β : Type} (h : Handlers σ β)

/-- `enqueue_impl` -/
def enqueueImpl (s : Serial σ β) (msg : Message β) : (Bool × EnqueueResult) × Serial σ β :=
  if s.word.isDestroying then ((false, .queueClosed), s)
  else
    let r := s.box.pushBack msg
    let d := Sender.leaveDesired s.word.addSender (r.1 == .unblockedReader)
    ((d.2, r.1), { s with
      word := d.1, box := r.2
      sent := if r.1 = .queueClosed then s.sent else s.sent ++ [msg] })

/-- the code of the actor ran: it has sent its messages, one after the other -/
def ran (s : Serial σ β) (r : σ × List (Message β) × Bool) : Serial σ β :=
  r.2.1.foldl (fun s msg => (s.enqueueImpl msg).2) { s with actor := r.1, busy := r.2.2 }

/-- `current_behavior_ = self()->behavior(msg)` -/
def behave (s : Serial σ β) (msg : Message β) : Serial σ β :=
  ran { s with started := s.started ++ [msg] } (h.behavior s.actor msg)

/-- the drain: `none` if the awaited state is not ready -/
def drain (s : Serial σ β) : Option (Serial σ β) :=
  if s.busy then (h.continuation s.actor).map s.ran else some s

/-- `check_race_window` -/
def checkRaceWindow (s : Serial σ β) : Option (Bool × Serial σ β) :=
  if s.box.inbox.head = .blockedTag then some (false, s)
  else s.box.isEmpty.map fun r => (!r.1, { s with box := r.2 })

/-- `park` -/
def park (s : Serial σ β) (handled : Nat) : Option (Verdict × Serial σ β) :=
  let t := { s with box := s.box.tryBlock.2 }
  if s.box.tryBlock.1 then t.checkRaceWindow.map fun r =>
    ((if r.1 then .resume else .awaiting, handled, r.1), r.2)
  else some ((.resume, handled, true), t)

/-- the loop of `resume_impl`, with `left` turns to go -/
def loop : Nat → Nat → Serial σ β → Option (Verdict × Serial σ β)
  | 0, handled, s =>
    if s.box.inbox.head = .closedTag then some ((.done, handled, false), s)
    else if s.busy then some ((.resume, handled, true), s)
    else s.park handled
  | left + 1, handled, s =>
    if s.word.isDestroying then some ((.done, handled, false), s)
    else if s.box.inbox.head = .closedTag then some ((.done, handled, false), s)
    else if s.box.inbox.head = .blockedTag then some ((.awaiting, handled, false), s)
    else match s.drain h with
      | none => some ((.resume, handled, true), s)
      | some s =>
        if s.busy then some ((.resume, handled, true), s)
        else s.box.popFront.bind fun r => match r with
          | (some msg, box) =>
            let s := { s with box := box }
            loop left (handled + 1) (if s.word.isDestroying then s else s.behave h msg)
          | (none, box) =>
            let s := { s with box := box }
            if s.box.inbox.head = .closedTag then some ((.done, handled, false), s)
            else s.park handled

/-- `resume_impl` -/
def resumeImpl (maxThroughput : Nat) (s : Serial σ β) : Option (Verdict × Serial σ β) :=
  if s.word.isDestroying then some ((.done, 0, false), s)
  else if s.box.inbox.head = .closedTag then some ((.done, 0, false), s)
  else
    let s := { s with box := s.box.tryUnblock.2 }
    let s := (s.drain h).getD s
    if s.busy then some ((.resume, 0, true), s)
    else if s.box.inbox.head = .blockedTag then some ((.awaiting, 0, false), s)
    else s.box.isEmpty.bind fun r =>
      let s := { s with box := r.2 }
      if r.1 then s.park 0 else s.loop h maxThroughput 0

/-- `resume(max_throughput)`: `try_acquire_running`, `resume_impl`, `~resume_guard` -/
def resume (maxThroughput : Nat) (s : Serial σ β) : Option ((ResumeResult × Nat) × Serial σ β) :=
  if s.word.isRunning then some ((.awaiting, 0), { s with word := s.word.setScheduled true })
  else (resumeImpl h maxThroughput
      { s with word := (s.word.setRunning true).setScheduled false }).map fun r =>
    ((Runner.verdict r.1.1 r.2.word.isScheduled, r.1.2.1),
      { r.2 with word := Runner.guardDesired r.1.2.2 r.2.word })

end Serial

/-! ## the account of a call -/

/-- what the mailbox gives next: from the lists, or from the inbox if they are empty -/
def Mailbox.collected {β : Type} (mb : Mailbox β) : Mailbox β :=
  ({ mb with inbox := .stack [] }).fetched mb.inbox.chain

def Mailbox.next {β : Type} (mb : Mailbox β) : Option (Message β × Mailbox β) :=
  mb.popCached.or mb.collected.popCached

/-- messages pushed one after the other -/
def Mailbox.pushAll {β : Type} (mb : Mailbox β) (msgs : List (Message β)) : Mailbox β :=
  msgs.foldl (fun mb msg => { mb with inbox := mb.inbox.push msg }) mb

/-- the messages that `k` turns of the mailbox give, if each handler sends what it sends -/
def serve {σ β : Type} (h : Handlers σ β) : Nat → σ → Mailbox β → List (Message β)
  | 0, _, _ => []
  | k + 1, a, mb => match mb.next with
    | none => []
    | some (m, mb) => m :: serve h k (h.behavior a m).1 (mb.pushAll (h.behavior a m).2.1)

/-- between `s` and `s'` the messages `began` were started and the messages `came` accepted; nothing
is lost or repeated, and within a priority they were started in the order they came in -/
structure Served {σ β : Type} (s s' : Serial σ β) (began came : List (Message β)) : Prop where
  started : s'.started = s.started ++ began
  sent : s'.sent = s.sent ++ came
  order : ∀ high, s.box.heldOf high ++ ofPriority high came
    = ofPriority high began ++ s'.box.heldOf high
  balance : (s.box.held ++ came).Perm (began ++ s'.box.held)

/-- an actor between two calls that is neither suspended nor being destroyed -/
structure Idle {σ β : Type} (s : Serial σ β) : Prop where
  running : s.word.isRunning = false
  destroying : s.word.isDestroying = false
  busy : s.busy = false
  closed : s.box.inbox ≠ .closed
  sorted : s.box.Sorted

/-- inside a call -/
structure Inside {σ β : Type} (s : Serial σ β) : Prop where
  running : s.word.isRunning = true
  scheduled : s.word.isScheduled = false
  destroying : s.word.isDestroying = false
  busy : s.busy = false
  isOpen : ∃ l, s.box.inbox = .stack l
  sorted : s.box.Sorted

/-- what the thread does: it calls `resume(k)`, or it sends a message to the actor -/
inductive SerialCall (β : Type) where
  | resume (k : Nat)
  | send (msg : Message β)
  deriving DecidableEq

/-- the message of a `send` -/
def SerialCall.message {β : Type} : SerialCall β → Option (Message β)
  | .resume _ => none
  | .send msg => some msg

def Serial.step {σ β : Type} (h : Handlers σ β) (s : Serial σ β) :
    SerialCall β → Option (Serial σ β)
  | .resume k => (s.resume h k).map Prod.snd
  | .send msg => some (s.enqueueImpl msg).2

namespace Mailbox
variable {β : Type} {mb : Mailbox β}

theorem fetchMore_collected {l : List (Message β)} (hb : mb.inbox = .stack l) :
    mb.fetchMore = some (!l.isEmpty, mb.collected) := by
  unfold fetchMore collected
  rw [hb]
  rfl

theorem collected_inbox : mb.collected.inbox = .stack [] := rfl

theorem collected_heldOf (high : Bool) : mb.collected.heldOf high = mb.heldOf high := by
  unfold heldOf collected
  rw [fetched_queue, fetched_inbox]
  simp [Inbox.chain, queue]

theorem collected_held : mb.collected.held.Perm mb.held := by
  have hp := fetched_perm { mb with inbox := .stack [] } mb.inbox.chain
  unfold held collected
  simpa [Inbox.chain] using hp

theorem collected_sorted (hs : mb.Sorted) : mb.collected.Sorted := fetched_sorted hs _ _

theorem held_nil : mb.held = [] ↔ mb.cached = 0 ∧ mb.inbox.chain = [] := by
  rw [cached_zero]
  unfold held
  simp [and_assoc]

theorem collected_cached : mb.collected.cached = 0 ↔ mb.held = [] := by
  rw [held_nil, show mb.collected.cached = mb.cached + mb.inbox.chain.length from
    fetched_cached _ _]
  rw [Nat.add_eq_zero_iff, List.length_eq_zero_iff]

/-- `pop_front()` gives what comes next, or finds nothing -/
theorem popFront_next {l : List (Message β)} (hb : mb.inbox = .stack l) :
    (∃ m mb', mb.next = some (m, mb') ∧ mb.popFront = some (some m, mb') ∧
      (mb.held.Perm (m :: mb'.held)) ∧
      (∀ high, mb.Sorted → mb.heldOf high = ofPriority high [m] ++ mb'.heldOf high) ∧
      (mb.Sorted → mb'.Sorted) ∧ ∃ l', mb'.inbox = .stack l') ∨
    (mb.next = none ∧ mb.held = [] ∧ mb.popFront = some (none, mb)) := by
  unfold next popFront
  cases hp : mb.popCached with
  | some r =>
    obtain ⟨m, mb'⟩ := r
    refine Or.inl ⟨m, mb', rfl, rfl, popCached_held hp, fun high hs => popCached_heldOf hp hs high,
      popCached_sorted hp, l, ?_⟩
    rw [(popCached_some hp).1, hb]
  | none =>
    rw [fetchMore_collected hb]
    cases hc : mb.collected.popCached with
    | some r =>
      obtain ⟨m, mb'⟩ := r
      refine Or.inl ⟨m, mb', rfl, ?_, collected_held.symm.trans (popCached_held hc),
        fun high hs => ?_, fun hs => popCached_sorted hc (collected_sorted hs), [], ?_⟩
      · rw [Option.map_some, hc]
      · rw [← collected_heldOf]
        exact popCached_heldOf hc (collected_sorted hs) high
      · rw [(popCached_some hc).1, collected_inbox]
    | none =>
      have hheld := collected_cached.mp (popCached_none.mp hc)
      have hl : l = [] := by
        have hchain := (held_nil.mp hheld).2
        rw [hb] at hchain
        exact hchain
      refine Or.inr ⟨rfl, hheld, ?_⟩
      rw [Option.map_some, hc]
      unfold collected
      rw [hb, hl]
      show some (none, ({ mb with inbox := .stack [] }).fetched []) = _
      rw [fetched_nil, ← hl, ← hb]

end Mailbox

namespace Served
variable {σ β : Type} {s s' s'' : Serial σ β} {began began' came came' : List (Message β)}

/-- nothing happened to the messages -/
theorem same (hs : s'.started = s.started) (hc : s'.sent = s.sent)
    (ho : ∀ high, s'.box.heldOf high = s.box.heldOf high) (hh : s'.box.held.Perm s.box.held) :
    Served s s' [] [] :=
  ⟨by rw [hs, List.append_nil], by rw [hc, List.append_nil], fun high => by simp [ho], by
    rw [List.append_nil, List.nil_append]
    exact hh.symm⟩

theorem trans (h : Served s s' began came) (h' : Served s' s'' began' came') :
    Served s s'' (began ++ began') (came ++ came') := by
  refine ⟨?_, ?_, fun high => ?_, ?_⟩
  · rw [h'.started, h.started, List.append_assoc]
  · rw [h'.sent, h.sent, List.append_assoc]
  · rw [ofPriority_append, ofPriority_append, ← List.append_assoc, h.order, List.append_assoc,
      h'.order, List.append_assoc]
  · rw [← List.append_assoc]
    refine (h.balance.append_right came').trans ?_
    rw [List.append_assoc, List.append_assoc]
    exact h'.balance.append_left began

end Served

namespace Serial
variable {σ β : Type} {h : Handlers σ β} {s : Serial σ β}

theorem addSender_subSender (w : ActorState) : w.addSender.subSender = w :=
  BitVec.add_sub_cancel w _

/-- a message that the running actor sends to itself goes to its inbox and changes no flag -/
theorem enqueueImpl_inside (hd : s.word.isDestroying = false) {l : List (Message β)}
    (hb : s.box.inbox = .stack l) (msg : Message β) :
    (s.enqueueImpl msg).2 = { s with
      box := { s.box with inbox := s.box.inbox.push msg }, sent := s.sent ++ [msg] } := by
  have hne : Push.pushed (Inbox.stack l).head = .success := by
    unfold Push.pushed
    rw [if_neg]
    exact nofun
  unfold enqueueImpl Mailbox.pushBack
  rw [hd, hb]
  dsimp only
  rw [hne]
  show ({ s with word := s.word.addSender.subSender, box := _, sent := _ } : Serial σ β) = _
  rw [addSender_subSender]
  rfl

theorem sends_inside (msgs : List (Message β)) : ∀ (s : Serial σ β) (l : List (Message β)),
    s.word.isDestroying = false → s.box.inbox = .stack l →
      msgs.foldl (fun s msg => (s.enqueueImpl msg).2) s =
        { s with box := s.box.pushAll msgs, sent := s.sent ++ msgs } := by
  induction msgs with
  | nil =>
    intro s l _ _
    rw [List.append_nil]
    rfl
  | cons msg msgs ih =>
    intro s l hd hb
    rw [List.foldl_cons, enqueueImpl_inside hd hb msg]
    have hrest := ih { s with
      box := { s.box with inbox := s.box.inbox.push msg }, sent := s.sent ++ [msg] } (msg :: l) hd
      (by show s.box.inbox.push msg = _; rw [hb]; rfl)
    refine hrest.trans ?_
    rw [List.append_assoc]
    rfl

theorem pushAll_stack (msgs : List (Message β)) : ∀ (mb : Mailbox β) (l : List (Message β)),
    mb.inbox = .stack l → (∃ l', (mb.pushAll msgs).inbox = .stack l') ∧
      ((mb.pushAll msgs).held.Perm (mb.held ++ msgs)) ∧
      (∀ high, (mb.pushAll msgs).heldOf high = mb.heldOf high ++ ofPriority high msgs) ∧
      (mb.Sorted → (mb.pushAll msgs).Sorted) := by
  induction msgs with
  | nil =>
    intro mb l hb
    exact ⟨⟨l, hb⟩, by rw [List.append_nil]; rfl, fun high => (List.append_nil _).symm, id⟩
  | cons msg msgs ih =>
    intro mb l hb
    have hne : mb.inbox ≠ .closed := by rw [hb]; exact nofun
    obtain ⟨hst, hheld, hof, hsort⟩ := ih { mb with inbox := mb.inbox.push msg } (msg :: l)
      (by show mb.inbox.push msg = _; rw [hb]; rfl)
    refine ⟨hst, hheld.trans ?_, fun high => (hof high).trans ?_, fun hs => hsort hs⟩
    · refine ((Mailbox.push_held mb msg hne).append_right msgs).trans ?_
      exact List.perm_middle.symm
    · rw [Mailbox.push_heldOf mb msg hne, List.append_assoc, ← ofPriority_append]
      rfl

/-- **A handler ran**, without suspending: what it sent is in the mailbox. -/
theorem behave_inside (hI : Inside s) (msg : Message β)
    (hn : (h.behavior s.actor msg).2.2 = false) :
    Inside (s.behave h msg) ∧ (s.behave h msg).actor = (h.behavior s.actor msg).1 ∧
      (s.behave h msg).box = s.box.pushAll (h.behavior s.actor msg).2.1 ∧
      (s.behave h msg).word = s.word ∧
      Served { s with started := s.started ++ [msg] } (s.behave h msg) []
        (h.behavior s.actor msg).2.1 := by
  obtain ⟨l, hb⟩ := hI.isOpen
  obtain ⟨hst, hheld, hof, hsort⟩ := pushAll_stack (h.behavior s.actor msg).2.1 s.box l hb
  have heq : s.behave h msg = { s with
      started := s.started ++ [msg], actor := (h.behavior s.actor msg).1
      busy := (h.behavior s.actor msg).2.2, box := s.box.pushAll (h.behavior s.actor msg).2.1
      sent := s.sent ++ (h.behavior s.actor msg).2.1 } := by
    unfold behave ran
    exact sends_inside _ _ l hI.destroying hb
  rw [heq]
  refine ⟨⟨hI.running, hI.scheduled, hI.destroying, hn, hst, hsort hI.sorted⟩, rfl, rfl, rfl,
    (List.append_nil _).symm, rfl, fun high => (hof high).symm, hheld.symm⟩

/-! ## the ends of a call -/

/-- what a call leaves, its verdict and its count apart -/
structure Ends (s : Serial σ β) (v : Verdict) (s' : Serial σ β) : Prop where
  running : s'.word = s.word
  busy : s'.busy = false
  closed : s'.box.inbox ≠ .closed
  sorted : s'.box.Sorted
  remain : s'.box.held ≠ [] → v.1 = .resume ∧ v.2.2 = true
  empty : s'.box.held = [] → v.1 = .awaiting ∧ v.2.2 = false ∧ s'.box.inbox = .blocked

/-- `park` blocks an empty mailbox and keeps any other one scheduled -/
theorem park_ends (hI : Inside s) (handled : Nat) :
    ∃ v s', s.park handled = some (v, s') ∧ v.2.1 = handled ∧ Ends s v s' ∧ Served s s' [] [] ∧
      (s.box.held ≠ [] → s' = s) := by
  obtain ⟨l, hb⟩ := hI.isOpen
  unfold park
  rcases Mailbox.tryBlock_cases s.box with ⟨hblock, hcached, hstack⟩ | hblock
  · have hheld : s.box.held = [] := Mailbox.held_nil.mpr ⟨hcached, by rw [hstack]; rfl⟩
    have hblocked : ({ s.box with inbox := .blocked } : Mailbox β).held = s.box.held :=
      Mailbox.held_of_chain (by rw [hstack]; rfl)
    rw [hblock]
    refine ⟨(.awaiting, handled, false), { s with box := { s.box with inbox := .blocked } }, rfl, rfl,
      ⟨rfl, hI.busy, nofun, hI.sorted, fun hn => absurd (hblocked.trans hheld) hn,
        fun _ => ⟨rfl, rfl, rfl⟩⟩, Served.same rfl rfl (fun high => ?_) ?_,
      fun hn => absurd hheld hn⟩
    · exact Mailbox.heldOf_of_chain (by rw [hstack]; rfl) high
    · exact List.Perm.of_eq hblocked
  · have hne : s.box.held ≠ [] := by
      intro hheld
      obtain ⟨hc, hch⟩ := Mailbox.held_nil.mp hheld
      unfold Mailbox.tryBlock at hblock
      rw [if_pos hc, hb] at hblock
      rw [hb] at hch
      have hch : l = [] := hch
      rw [hch] at hblock
      cases hblock
    rw [hblock]
    exact ⟨(.resume, handled, true), s, rfl, rfl, ⟨rfl, hI.busy, by rw [hb]; exact nofun, hI.sorted,
      fun _ => ⟨rfl, rfl⟩, fun hn => absurd hn hne⟩,
      Served.same rfl rfl (fun _ => rfl) (List.Perm.refl _), fun _ => rfl⟩

theorem Ends.of_word {t : Serial σ β} {v : Verdict} {s' : Serial σ β} (he : Ends t v s')
    (hw : t.word = s.word) : Ends s v s' :=
  ⟨he.running.trans hw, he.busy, he.closed, he.sorted, he.remain, he.empty⟩

theorem serve_length_le (k : Nat) : ∀ (a : σ) (mb : Mailbox β), (serve h k a mb).length ≤ k := by
  induction k with
  | zero => exact fun _ _ => Nat.le_refl 0
  | succ k ih =>
    intro a mb
    unfold serve
    split
    · exact Nat.zero_le _
    · exact Nat.succ_le_succ (ih _ _)

/-- `pop_front()` gave a message: it is started, and what the handler sends comes in -/
theorem popped_served (hI : Inside s) {m : Message β} {mb : Mailbox β}
    (hheld : s.box.held.Perm (m :: mb.held))
    (hof : ∀ high, s.box.Sorted → s.box.heldOf high = ofPriority high [m] ++ mb.heldOf high)
    (hsort : s.box.Sorted → mb.Sorted) (hst : ∃ l, mb.inbox = .stack l)
    (hn : (h.behavior s.actor m).2.2 = false) :
    let t := { s with box := mb }.behave h m
    Inside t ∧ t.actor = (h.behavior s.actor m).1 ∧
      t.box = mb.pushAll (h.behavior s.actor m).2.1 ∧ t.word = s.word ∧
      Served s t [m] (h.behavior s.actor m).2.1 := by
  have hI' : Inside { s with box := mb } :=
    ⟨hI.running, hI.scheduled, hI.destroying, hI.busy, hst, hsort hI.sorted⟩
  obtain ⟨h1, h2, h3, h4, h5⟩ := behave_inside (h:=h) hI' m hn
  have hpop : Served s { s with box := mb, started := s.started ++ [m] } [m] [] :=
    ⟨rfl, (List.append_nil _).symm, fun high => by
      rw [ofPriority_nil, List.append_nil]
      exact hof high hI.sorted, by
      rw [List.append_nil]
      exact hheld⟩
  exact ⟨h1, h2, h3, h4, hpop.trans h5⟩

/-- **The loop of `resume_impl`** serves the mailbox, and stops early only when it is empty. -/
theorem loop_ends (hn : ∀ a m, (h.behavior a m).2.2 = false) (left : Nat) :
    ∀ (handled : Nat) (s : Serial σ β), Inside s → ∃ v s' came,
      s.loop h left handled = some (v, s') ∧ Ends s v s' ∧
      Served s s' (serve h left s.actor s.box) came ∧
      v.2.1 = handled + (serve h left s.actor s.box).length ∧
      ((serve h left s.actor s.box).length < left → s'.box.held = []) := by
  induction left with
  | zero =>
    intro handled s hI
    obtain ⟨l, hb⟩ := hI.isOpen
    obtain ⟨v, s', hp, hv, hends, hserved, -⟩ := park_ends hI handled
    refine ⟨v, s', [], ?_, hends, hserved, hv, fun hlt => absurd hlt (Nat.not_lt_zero _)⟩
    unfold loop
    rw [hb, if_neg nofun, hI.busy]
    exact hp
  | succ left ih =>
    intro handled s hI
    obtain ⟨l, hb⟩ := hI.isOpen
    have hbusy : ¬ s.busy = true := by
      rw [hI.busy]
      simp
    have hdest : ¬ s.word.isDestroying = true := by
      rw [hI.destroying]
      simp
    have hclosed : ¬ s.box.inbox.head = .closedTag := by
      rw [hb]
      exact nofun
    have hblocked : ¬ s.box.inbox.head = .blockedTag := by
      rw [hb]
      exact nofun
    unfold loop serve
    rw [if_neg hdest, if_neg hclosed, if_neg hblocked]
    have hdrain : s.drain h = some s := if_neg hbusy
    rw [hdrain]
    dsimp only
    rw [if_neg hbusy]
    rcases Mailbox.popFront_next hb with ⟨m, mb, hnext, hpop, hheld, hof, hsort, hst⟩ |
      ⟨hnext, hheld, hpop⟩
    · rw [hnext, hpop, Option.bind_some]
      dsimp only
      rw [if_neg hdest]
      obtain ⟨h1, h2, h3, h4, h5⟩ := popped_served (h:=h) hI hheld hof hsort hst (hn _ _)
      obtain ⟨v, s', came, hloop, hends, hserved, hv, hstop⟩ := ih (handled + 1) _ h1
      rw [h2, h3] at hserved hv hstop
      refine ⟨v, s', _, hloop, hends.of_word h4, h5.trans hserved, ?_, fun hlt => hstop ?_⟩
      · rw [hv, List.length_cons]
        omega
      · rw [List.length_cons] at hlt
        exact Nat.lt_of_succ_lt_succ hlt
    · rw [hnext, hpop, Option.bind_some]
      dsimp only
      rw [if_neg hclosed]
      obtain ⟨v, s', hp, hv, hends, hserved, -⟩ := park_ends hI handled
      refine ⟨v, s', [], hp, hends, hserved, hv, fun _ => ?_⟩
      have hbal := hserved.balance
      rw [hheld, List.nil_append, List.nil_append] at hbal
      exact List.Perm.eq_nil hbal.symm

/-! ## whole calls -/

theorem serve_nil {a : σ} {mb : Mailbox β} {l : List (Message β)} (hb : mb.inbox = .stack l)
    (hheld : mb.held = []) (k : Nat) : serve h k a mb = [] := by
  cases k with
  | zero => rfl
  | succ k =>
    unfold serve
    rcases Mailbox.popFront_next hb with ⟨m, mb', -, -, hperm, -⟩ | ⟨hnext, -⟩
    · rw [hheld] at hperm
      exact absurd hperm.symm.eq_nil (List.cons_ne_nil m _)
    · rw [hnext]

/-- un-parking and the first look at the mailbox collect the inbox -/
theorem tryUnblock_collected {mb : Mailbox β} (hc : mb.inbox ≠ .closed) :
    (∃ l, mb.tryUnblock.2.inbox = .stack l) ∧ mb.tryUnblock.2.collected = mb.collected := by
  obtain ⟨us, ns, b⟩ := mb
  cases b with
  | closed => exact absurd rfl hc
  | blocked => exact ⟨⟨[], rfl⟩, rfl⟩
  | stack l => exact ⟨⟨l, rfl⟩, rfl⟩

/-- what `resume(k)` leaves -/
structure Resumed (h : Handlers σ β) (s : Serial σ β) (k : Nat) (result : ResumeResult) (n : Nat)
    (s' : Serial σ β) (came : List (Message β)) : Prop where
  idle : Idle s'
  served : Served s s' (serve h k s.actor s.box.collected) came
  count : n = (serve h k s.actor s.box.collected).length
  remain : s'.box.held ≠ [] → result = .resume ∧ s'.word.isScheduled = true
  empty : s'.box.held = [] →
    result = .awaiting ∧ s'.box.inbox = .blocked ∧ s'.word.isScheduled = false
  stops : n < k → s'.box.held = []

/-- the messages available to the call: those that were there, and those that came meanwhile -/
theorem Resumed.min {k n : Nat} {result : ResumeResult} {s' : Serial σ β} {came : List (Message β)}
    (hr : Resumed h s k result n s' came) : n = min k (s.box.held.length + came.length) := by
  have hbal := hr.served.balance.length_eq
  rw [List.length_append, List.length_append, ← hr.count] at hbal
  have hle : n ≤ k := hr.count ▸ serve_length_le k _ _
  rcases Nat.lt_or_ge n k with hlt | hge
  · rw [hr.stops hlt, List.length_nil] at hbal
    omega
  · omega

/-- `~resume_guard` when nobody has scheduled the actor meanwhile -/
theorem guard_ends {v : Verdict} {t s' : Serial σ β} (hI : Inside t) (he : Ends t v s') :
    Idle { s' with word := Runner.guardDesired v.2.2 s'.word } ∧
      Runner.verdict v.1 s'.word.isScheduled = v.1 ∧
      (Runner.guardDesired v.2.2 s'.word).isScheduled = v.2.2 := by
  have hsched : s'.word.isScheduled = false := by rw [he.running, hI.scheduled]
  refine ⟨⟨?_, ?_, he.busy, he.closed, he.sorted⟩, ?_, ?_⟩
  · simp [Runner.guardDesired]
  · simp [Runner.guardDesired, he.running, hI.destroying]
  · rw [hsched]
    unfold Runner.verdict
    rw [Bool.and_false]
    rfl
  · simp [Runner.guardDesired, hsched]

theorem resume_resumed (hn : ∀ a m, (h.behavior a m).2.2 = false) (hs : Idle s) (k : Nat) :
    ∃ result n s' came, s.resume h k = some ((result, n), s') ∧
      Resumed h s k result n s' came := by
  obtain ⟨⟨l, hb⟩, hcol⟩ := tryUnblock_collected hs.closed
  -- `running` is taken, the inbox is open, and its messages are in the lists
  let t : Serial σ β := { s with
    word := (s.word.setRunning true).setScheduled false, box := s.box.collected }
  have hI : Inside t :=
    ⟨by simp [t], by simp [t], by simp [t, hs.destroying], hs.busy, ⟨[], rfl⟩,
      Mailbox.collected_sorted hs.sorted⟩
  have hin : Served s t [] [] := Served.same rfl rfl (fun high => Mailbox.collected_heldOf high)
    Mailbox.collected_held
  have hentry : resumeImpl h k { s with word := (s.word.setRunning true).setScheduled false } =
      if s.box.collected.cached == 0 then t.park 0 else t.loop h k 0 := by
    have hdest : ¬ ((s.word.setRunning true).setScheduled false).isDestroying = true := by
      simp [hs.destroying]
    have hclosed : ¬ s.box.inbox.head = .closedTag := fun hc => hs.closed (Inbox.head_closed.mp hc)
    have hbusy : ¬ s.busy = true := by
      rw [hs.busy]
      simp
    have hblocked : ¬ s.box.tryUnblock.2.inbox.head = .blockedTag := by
      rw [hb]
      exact nofun
    have hdrain : ∀ u : Serial σ β, u.busy = s.busy → (u.drain h).getD u = u := by
      intro u hu
      unfold drain
      rw [hu, if_neg hbusy]
      rfl
    unfold resumeImpl
    rw [if_neg hdest, if_neg hclosed]
    dsimp only
    rw [hdrain { s with
      word := (s.word.setRunning true).setScheduled false, box := s.box.tryUnblock.2 } rfl,
      if_neg hbusy, if_neg hblocked]
    unfold Mailbox.isEmpty
    rw [Mailbox.fetchMore_collected hb, hcol]
    rfl
  have hrun : ¬ s.word.isRunning = true := by
    rw [hs.running]
    simp
  have hresume : ∀ v s', (if s.box.collected.cached == 0 then t.park 0 else t.loop h k 0) =
      some (v, s') → s.resume h k = some ((Runner.verdict v.1 s'.word.isScheduled, v.2.1),
        { s' with word := Runner.guardDesired v.2.2 s'.word }) := by
    intro v s' hv
    unfold resume
    rw [if_neg hrun, hentry, hv]
    rfl
  -- the two ways through `resume_impl`
  have hway : ∃ v s' came,
      (if s.box.collected.cached == 0 then t.park 0 else t.loop h k 0) = some (v, s') ∧
      Ends t v s' ∧ Served t s' (serve h k s.actor s.box.collected) came ∧
      v.2.1 = (serve h k s.actor s.box.collected).length ∧
      ((serve h k s.actor s.box.collected).length < k → s'.box.held = []) := by
    by_cases hc : s.box.collected.cached = 0
    · have hheld : t.box.held = [] := Mailbox.held_nil.mpr ⟨hc, rfl⟩
      obtain ⟨v, s', hp, hv, hends, hserved, -⟩ := park_ends hI 0
      rw [if_pos (by rw [hc]; rfl), serve_nil (l:=[]) rfl hheld k]
      refine ⟨v, s', [], hp, hends, hserved, hv, fun _ => ?_⟩
      have hbal := hserved.balance
      rw [hheld] at hbal
      exact hbal.symm.eq_nil
    · obtain ⟨v, s', came, hloop, hends, hserved, hv, hstop⟩ := loop_ends hn k 0 t hI
      rw [if_neg (by simpa using hc)]
      exact ⟨v, s', came, hloop, hends, hserved, by rw [hv, Nat.zero_add], hstop⟩
  obtain ⟨v, s', came, heq, hends, hserved, hcount, hstop⟩ := hway
  obtain ⟨hidle, hverdict, hsched⟩ := guard_ends hI hends
  refine ⟨_, _, _, came, hresume v s' heq, hidle, ?_, hcount, fun hne => ?_, fun he => ?_,
    fun hlt => hstop (hcount ▸ hlt)⟩
  · have hleft := hin.trans hserved
    exact ⟨hleft.started, hleft.sent, hleft.order, hleft.balance⟩
  · exact ⟨hverdict.trans (hends.remain hne).1, hsched.trans (hends.remain hne).2⟩
  · obtain ⟨h1, h2, h3⟩ := hends.empty he
    exact ⟨hverdict.trans h1, h3, hsched.trans h2⟩

/-- a message sent from outside, between two calls -/
theorem enqueueImpl_idle (hs : Idle s) (msg : Message β) :
    Idle (s.enqueueImpl msg).2 ∧ Served s (s.enqueueImpl msg).2 [] [msg] := by
  have hdest : ¬ s.word.isDestroying = true := by
    rw [hs.destroying]
    simp
  have hpush : s.box.pushBack msg =
      (Push.pushed s.box.inbox.head, { s.box with inbox := s.box.inbox.push msg }) := by
    unfold Mailbox.pushBack
    split
    · exact absurd ‹_› hs.closed
    · rfl
  have hans : Push.pushed s.box.inbox.head ≠ .queueClosed := by
    unfold Push.pushed
    split <;> simp
  have heq : (s.enqueueImpl msg).2 = { s with
      word := (Sender.leaveDesired s.word.addSender
        (Push.pushed s.box.inbox.head == .unblockedReader)).1
      box := { s.box with inbox := s.box.inbox.push msg }, sent := s.sent ++ [msg] } := by
    unfold enqueueImpl
    rw [if_neg hdest, hpush]
    dsimp only
    rw [if_neg hans]
  rw [heq]
  refine ⟨⟨?_, ?_, hs.busy, ?_, hs.sorted⟩, (List.append_nil _).symm, rfl, fun high => ?_, ?_⟩
  · unfold Sender.leaveDesired
    split <;> simp [hs.running]
  · unfold Sender.leaveDesired
    split <;> simp [hs.destroying]
  · dsimp only
    cases hb : s.box.inbox with
    | closed => exact absurd hb hs.closed
    | blocked => exact nofun
    | stack l => exact nofun
  · rw [ofPriority_nil, List.nil_append]
    exact (Mailbox.push_heldOf s.box msg hs.closed high).symm
  · rw [List.nil_append]
    exact (List.perm_append_singleton msg _).trans (Mailbox.push_held s.box msg hs.closed).symm

/-- the account of the calls `cs` between `s` and `t`: each `resume(k)` starts as many messages as
`k` and the messages available to it allow, each message sent from outside comes in, and `came` has
also what the handlers sent meanwhile -/
inductive Account (h : Handlers σ β) : Serial σ β → List (SerialCall β) → List (Message β) →
    List (Message β) → Serial σ β → Prop where
  | nil {s : Serial σ β} : Account h s [] [] [] s
  | resume {s s' t : Serial σ β} {k n : Nat} {result : ResumeResult} {cs : List (SerialCall β)}
      {sent began came : List (Message β)} (call : s.resume h k = some ((result, n), s'))
      (resumed : Resumed h s k result n s' sent) (count : n = min k (s.box.held.length + sent.length))
      (rest : Account h s' cs began came t) :
      Account h s (.resume k :: cs) (serve h k s.actor s.box.collected ++ began) (sent ++ came) t
  | send {s t : Serial σ β} {msg : Message β} {cs : List (SerialCall β)}
      {began came : List (Message β)} (rest : Account h (s.enqueueImpl msg).2 cs began came t) :
      Account h s (.send msg :: cs) began (msg :: came) t

theorem Account.messages {t : Serial σ β} {cs : List (SerialCall β)} {began came : List (Message β)}
    (ha : Account h s cs began came t) : (cs.filterMap SerialCall.message).Sublist came := by
  induction ha with
  | nil => exact List.Sublist.slnil
  | resume _ _ _ _ ih => exact ih.trans (List.sublist_append_right _ _)
  | send _ ih => exact ih.cons_cons _

theorem Account.served {t : Serial σ β} {cs : List (SerialCall β)} {began came : List (Message β)}
    (ha : Account h s cs began came t) (hs : Idle s) : Idle t ∧ Served s t began came := by
  induction ha with
  | nil => exact ⟨hs, Served.same rfl rfl (fun _ => rfl) (List.Perm.refl _)⟩
  | resume _ hr _ _ ih =>
    obtain ⟨ht, hserved⟩ := ih hr.idle
    exact ⟨ht, hr.served.trans hserved⟩
  | send _ ih =>
    obtain ⟨hs', hsend⟩ := enqueueImpl_idle hs _
    obtain ⟨ht, hserved⟩ := ih hs'
    exact ⟨ht, hsend.trans hserved⟩

/-- every sequence of calls goes through -/
theorem calls_account (hn : ∀ a m, (h.behavior a m).2.2 = false) (cs : List (SerialCall β)) :
    ∀ s : Serial σ β, Idle s → ∃ t began came, TS.run (Serial.step h) s cs = some t ∧
      Account h s cs began came t := by
  induction cs with
  | nil => exact fun s _ => ⟨s, [], [], rfl, .nil⟩
  | cons c cs ih =>
    intro s hs
    cases c with
    | resume k =>
      obtain ⟨result, n, s', sent, heq, hr⟩ := resume_resumed hn hs k
      obtain ⟨t, began, came, hrun, ha⟩ := ih s' hr.idle
      have hstep : s.step h (.resume k) = some s' := by
        show (s.resume h k).map Prod.snd = some s'
        rw [heq]
        rfl
      exact ⟨t, _, _, TS.run_cons_some.mpr ⟨s', hstep, hrun⟩, .resume heq hr hr.min ha⟩
    | send msg =>
      obtain ⟨t, began, came, hrun, ha⟩ := ih (s.enqueueImpl msg).2 (enqueueImpl_idle hs msg).1
      exact ⟨t, _, _, TS.run_cons_some.mpr ⟨_, rfl, hrun⟩, .send ha⟩

/-- **The meaning of `resume(k)`.**  Whatever is in the mailbox of an actor that is neither
suspended nor being destroyed, and whatever its handlers send to it meanwhile: the call starts as
many messages as `k` and the messages available to it allow, in the order the mailbox gives them,
counts them, and leaves an actor that is scheduled if messages remain and blocked otherwise.  Over
any calls, with sends in between, this holds of each `resume(k)`, every message sent is among those
that came in, no message is lost or started twice, and within a priority they are started in the
order they came in. -/
theorem resume_serves (h : Handlers σ β) (hn : ∀ a m, (h.behavior a m).2.2 = false)
    (s : Serial σ β) (hs : Idle s) :
    (∀ k, 1 ≤ k → ∃ result n s' came, s.resume h k = some ((result, n), s') ∧
      Resumed h s k result n s' came ∧ n = min k (s.box.held.length + came.length)) ∧
    (∀ cs : List (SerialCall β), ∃ t began came, TS.run (Serial.step h) s cs = some t ∧ Idle t ∧
      Served s t began came ∧ Account h s cs began came t ∧
      (cs.filterMap SerialCall.message).Sublist came) := by
  refine ⟨fun k _ => ?_, fun cs => ?_⟩
  · obtain ⟨result, n, s', came, heq, hr⟩ := resume_resumed hn hs k
    exact ⟨result, n, s', came, heq, hr, hr.min⟩
  · obtain ⟨t, began, came, hrun, ha⟩ := calls_account hn cs s hs
    obtain ⟨ht, hserved⟩ := ha.served hs
    exact ⟨t, began, came, hrun, ht, hserved, ha, ha.messages⟩

/-- an actor that sends itself one more message for each of its first two, parked with none -/
theorem resume_serves_self_sends :
    let h : Handlers Nat Unit :=
      ⟨fun a m => (a + 1, if a < 2 then [m] else [], false), fun _ => none⟩
    let s : Serial Nat Unit :=
      ⟨.idle, ⟨[], [], .stack [⟨1, 1 <<< 60, ()⟩]⟩, 0, false, [], []⟩
    ∃ result s' came, s.resume h 5 = some ((result, 3), s') ∧ Resumed h s 5 result 3 s' came := by
  intro h s
  have hs : Idle s := by
    refine ⟨ActorState.idle_flags.2.1, ActorState.idle_flags.2.2, rfl, by simp [s],
      fun high m hm => ?_⟩
    cases high <;> cases hm
  obtain ⟨result, n, s', came, heq, hr, -⟩ :=
    (resume_serves h (fun _ _ => rfl) s hs).1 5 (by decide)
  have hcount : n = 3 := hr.count
  rw [hcount] at heq hr
  exact ⟨result, s', came, heq, hr⟩

end Serial
end ActorZeta
