import Mathlib.Data.List.Nodup
import ActorZeta.Actor.Serial
import ActorZeta.Coroutine.Transport

/-!
# An exception on its way to the caller

A chain of nested method coroutines, each of which awaits the next and catches nothing; the
innermost throws, before or after any suspensions of the chain.

* `Chain`          the bodies of such a chain;
* `World.unwound`  what is left when the exception has left the outermost method;
* `Doomed`         a run that gets there, whatever values the awaited states are given meanwhile;
* `handlers`       the coroutines as the handlers of an actor;
* `exception_reaches_caller`   from the throw to the next message.
-/

namespace ActorZeta
open StateFlags
variable {T X : Type}

/-- a method with `n` nested ones below it; each may await promise-backed states before it awaits
the next, or throws, and those are ready with a value or are not.  No level keeps a future while it
awaits another, and none has awaited a method that returned. -/
inductive Chain (ep : X) : Nat → Body T X → Prop
  | throw : Chain ep 0 (.coReturn (.exception ep))
  | wait {n : Nat} {k : Except X T → Body T X} (ready : Option T) :
      (∀ v, Chain ep n (k (.ok v))) → Chain ep n (.adopt (ready.map .value) (.await 0 k))
  | nest {n : Nat} {child : Body T X} {k : Except X T → Body T X} : Chain ep n child →
      (∀ e, k (.error e) = .coReturn (.exception e)) → Chain ep (n + 1) (.start child (.await 0 k))

/-- the `n` frames made after `h`, the last first -/
def nested (h : Nat) : Nat → List Handle
  | 0 => []
  | n + 1 => nested (h + 1) n ++ [h + 1]

/-- every coroutine of the chain is at its final suspension or destroyed, and its state tells -/
def World.unwound (w : World T X) (ep : X) (h : Handle) (n : Nat) : World T X :=
  { w with
    next := h + 1 + n
    destroyed := w.destroyed ++ nested h n
    finished := w.finished ++ (nested h n ++ [h]).map fun i => (i, .settledWith (.exception ep)) }

/-- the coroutine `h` throws in the end -/
inductive Doomed (ep : X) (h : Handle) (n : Nat) (c : Option Handle) (w : World T X) :
    Result T X × World T X → Prop
  | done : Doomed ep h n c w
      (.finished h c (some (.settledWith (.exception ep))), w.unwound ep h n)
  | more {os : List (Level (Fut T X) T X)} {l : Level (Fut T X) T X} {p : State T X}
      {w' : World T X} :
      (∀ v, Doomed ep h n c w (resume l (p.setOutcome (.value v)).settle.2 w' os)) →
      Doomed ep h n c w (.suspended os l p, w')

/-- the coroutine that awaits it does not catch -/
theorem Doomed.awaited {ep : X} {h n : Nat} {st : State T X} {k : Except X T → Body T X}
    {w : World T X} {R : Result T X × World T X} (hst : st.Blank)
    (hk : ∀ e, k (.error e) = .coReturn (.exception e))
    (hR : Doomed ep (h + 1) n none { w with next := h + 2 } R) :
    Doomed ep h (n + 1) st.continuation w (awaited ⟨h, some st, [], false⟩ k R) := by
  induction hR with
  | done =>
    simp only [ActorZeta.awaited, awaitResume_exception, hk, exec]
    rw [Option.map_some, finalSuspend_blank hst]
    have hnext : h + 2 + n = h + 1 + (n + 1) := by omega
    have hw : ({ (({ w with next := h + 2 } : World T X).unwound ep (h + 1) n).release
          (.ready (h + 1) (.settledWith (.exception ep))) with
        finished := (({ w with next := h + 2 } : World T X).unwound ep (h + 1) n).finished ++
          [(h, .settledWith (.exception ep))] } : World T X) = w.unwound ep h (n + 1) := by
      simp [World.release, World.unwound, nested, hnext]
    have hdone : Doomed ep h (n + 1) st.continuation w _ := .done
    rw [← hw] at hdone
    exact hdone
  | more _ ih =>
    refine .more fun v => ?_
    have hres := ih v
    rw [← resume_awaited] at hres
    exact hres

theorem Chain.doomed {ep : X} {n : Nat} {b : Body T X} (hb : Chain ep n b) :
    ∀ (h : Handle) (st : State T X) (w : World T X), st.Blank → w.next = h + 1 →
      Doomed ep h n st.continuation w (exec b ⟨h, some st, [], false⟩ w) := by
  induction hb with
  | throw =>
    intro h st w hst hw
    simp only [exec]
    rw [Option.map_some, finalSuspend_blank hst]
    have hw' : ({ w with finished := w.finished ++ [(h, .settledWith (.exception ep))] } : World T X) =
        w.unwound ep h 0 := by
      simp [World.unwound, nested, ← hw]
    have hdone : Doomed ep h 0 st.continuation w _ := .done
    rw [← hw'] at hdone
    exact hdone
  | wait ready _ ih =>
    intro h st w hst hw
    cases ready with
    | none =>
      rw [Option.map_none, exec_wait _ rfl]
      refine .more fun v => ?_
      have hres := ih v h st w hst hw
      rw [← resume_value v ⟨⟨h, some st, [], false⟩, _⟩ w] at hres
      exact hres
    | some v =>
      rw [Option.map_some, exec_ready v _ rfl]
      exact ih v h st w hst hw
  | nest _ hk ih =>
    intro h st w hst hw
    rw [exec_call _ _ rfl]
    refine Doomed.awaited hst hk ?_
    rw [hw]
    exact ih (h + 1) .fresh { w with next := h + 2 } blank_fresh rfl

/-! ## whole runs -/

/-- the outcomes of the first `j` states that are awaited -/
def firsts (f : Nat → T) (j : Nat) : List (Outcome T X) := (List.range j).map fun i => .value (f i)

theorem firsts_succ (f : Nat → T) (j : Nat) :
    (firsts f (j + 1) : List (Outcome T X)) = .value (f 0) :: firsts (fun i => f (i + 1)) j := by
  unfold firsts
  rw [List.range_succ_eq_map, List.map_cons, List.map_map]
  rfl

/-- the run ends after finitely many suspensions, and not before -/
theorem Doomed.runs {ep : X} {h n : Nat} {c : Option Handle} {w : World T X}
    {R : Result T X × World T X} (hR : Doomed ep h n c w R) : ∀ f : Nat → T, ∃ j,
      (∀ i < j, (drains R (firsts f i)).1.isSuspended = true) ∧
      drains R (firsts f j) =
        (.finished h c (some (.settledWith (.exception ep))), w.unwound ep h n) := by
  induction hR with
  | done => exact fun f => ⟨0, fun i hi => absurd hi (Nat.not_lt_zero i), rfl⟩
  | more _ ih =>
    intro f
    obtain ⟨j, hj, hend⟩ := ih (f 0) fun i => f (i + 1)
    refine ⟨j + 1, fun i hi => ?_, ?_⟩
    · cases i with
      | zero => rfl
      | succ i =>
        rw [firsts_succ]
        exact hj i (Nat.lt_of_succ_lt_succ hi)
    · rw [firsts_succ]
      exact hend

theorem nested_range (n : Nat) : ∀ h, nested h n = (List.range' (h + 1) n).reverse := by
  induction n with
  | zero => exact fun _ => rfl
  | succ n ih =>
    intro h
    rw [nested, ih, List.range'_succ, List.reverse_cons]

theorem nested_count {h n i : Nat} (hlt : h < i) (hle : i ≤ h + n) : (nested h n).count i = 1 := by
  rw [nested_range, List.count_reverse]
  have hmem : i ∈ List.range' (h + 1) n := by
    rw [List.mem_range'_1]
    omega
  exact Nat.le_antisymm (List.nodup_iff_count_le_one.mp List.nodup_range' i)
    (List.count_pos_iff.mpr hmem)

theorem filter_count {α β : Type} [BEq α] [LawfulBEq α] (g : α → β) (i : α) (l : List α) :
    (l.map fun j => (j, g j)).filter (fun e => e.1 == i) = List.replicate (l.count i) (i, g i) := by
  induction l with
  | nil => rfl
  | cons j l ih =>
    rw [List.map_cons, List.filter_cons, List.count_cons, ih]
    by_cases hj : j = i
    · subst hj
      simp [List.replicate_succ]
    · simp [hj]

/-- the exception has arrived: the chain has the frames from `n + 2` on, its outermost method was
called by `dispatch()`, whose frame is `n + 1` -/
structure Delivered (n d : Nat) (ep : X) (w : World T X) : Prop where
  /-- every future of the chain became ready once, with the exception -/
  ready : ∀ i : Nat, n + 2 ≤ i → i ≤ n + 2 + d → ∃ st, w.finished.filter (fun e => e.1 == i) = [(i, st)] ∧
    st.Says (.exception ep)
  /-- the caller's promise was settled once, with the exception -/
  settled : w.settled = [.exception ep]
  slot : w.slot.Says (.exception ep)
  /-- every frame was destroyed once -/
  destroyed : ∀ i : Nat, n + 1 ≤ i → i ≤ n + 2 + d → w.destroyed.count i = 1

theorem Chain.delivered (void : T) (n : Nat) {ep : X} {d : Nat} {m : Body T X}
    (hm : Chain ep d m) (f : Nat → T) : ∃ j,
      (∀ i < j, (behaviorRun void n m (firsts f i)).1.isSuspended = true) ∧
      ∃ w, behaviorRun void n m (firsts f j) = (.finished n none none, w) ∧ Delivered n d ep w := by
  obtain ⟨j, hj, hend⟩ := (hm.doomed (n + 2) .fresh
    { World.fresh n with next := n + 3, owned := false } blank_fresh rfl).runs f
  refine ⟨j, fun i hi => ?_, ?_⟩
  · have hsus := hj i hi
    rw [run_dispatched]
    show (dispatched void n (drains _ (firsts f i))).1.isSuspended = true
    generalize drains _ (firsts f i) = R at hsus ⊢
    obtain ⟨r, w⟩ := R
    cases r with
    | suspended os l p => rfl
    | _ => cases hsus
  · have hrun := run_dispatched void n m (firsts f j)
    rw [show methodRun n m (firsts f j) = _ from hend, dispatched_finished,
      awaitResume_exception] at hrun
    refine ⟨_, hrun, fun i hi hi' => ?_, rfl, settledWith_says _, fun i hi hi' => ?_⟩
    · refine ⟨.settledWith (.exception ep), ?_, settledWith_says _⟩
      show ((([] : List (Handle × State T X)) ++ (nested (n + 2) d ++ [n + 2]).map fun i =>
        (i, State.settledWith (.exception ep))) ++ [(n + 1, _)]).filter _ = _
      have hne : (n + 1 == i) = false := by
        rw [beq_eq_false_iff_ne]
        omega
      rw [List.nil_append, List.filter_append, List.filter_cons, hne,
        filter_count (fun _ => (State.settledWith (.exception ep) : State T X)) i,
        show nested (n + 2) d ++ [n + 2] = nested (n + 1) (d + 1) from rfl,
        nested_count (by omega) (by omega)]
      rfl
    · show ((([] ++ nested (n + 2) d) ++ [n + 2]) ++ [n + 1]).count i = 1
      rw [List.nil_append, show nested (n + 2) d ++ [n + 2] ++ [n + 1] = nested n (d + 2) from rfl]
      exact nested_count (by omega) (by omega)

/-! ## the next message -/

namespace Serial
variable {σ β : Type} {h : Handlers σ β} {s : Serial σ β}

/-- inside a call, with the inbox open -/
def Open (s : Serial σ β) : Prop := s.word.isDestroying = false ∧ ∃ l, s.box.inbox = .stack l

theorem ran_open (hO : Open s) (r : σ × List (Message β) × Bool) :
    Open (s.ran r) ∧ (s.ran r).started = s.started := by
  obtain ⟨hd, l, hb⟩ := hO
  unfold ran
  rw [sends_inside r.2.1 { s with actor := r.1, busy := r.2.2 } l hd hb]
  exact ⟨⟨hd, (pushAll_stack r.2.1 s.box l hb).1⟩, rfl⟩

theorem park_open (hO : Open s) (handled : Nat) :
    ∃ v s', s.park handled = some (v, s') ∧ s'.started = s.started := by
  obtain ⟨-, l, hb⟩ := hO
  unfold park
  rcases Mailbox.tryBlock_cases s.box with ⟨hblock, -, -⟩ | hblock
  · rw [hblock]
    exact ⟨_, _, rfl, rfl⟩
  · rw [hblock]
    exact ⟨_, _, rfl, rfl⟩

theorem drain_open (hO : Open s) {t : Serial σ β} (ht : s.drain h = some t) :
    Open t ∧ t.started = s.started := by
  unfold drain at ht
  split at ht
  · obtain ⟨r, -, rfl⟩ := Option.map_eq_some_iff.mp ht
    exact ran_open hO r
  · cases ht
    exact ⟨hO, rfl⟩

/-- one turn of the loop that pops a message starts it -/
theorem loop_pops {left handled : Nat} (hO : Open s) (hbusy : s.busy = false) {m : Message β}
    {mb : Mailbox β} (hpop : s.box.popFront = some (some m, mb)) :
    s.loop h (left + 1) handled = loop h left (handled + 1) ({ s with box := mb }.behave h m) := by
  obtain ⟨hd, l, hb⟩ := hO
  have hdest : ¬ s.word.isDestroying = true := Bool.eq_false_iff.mp hd
  have hidle : ¬ s.busy = true := Bool.eq_false_iff.mp hbusy
  have hdrain : s.drain h = some s := if_neg hidle
  rw [loop, if_neg hdest, if_neg (by rw [hb]; simp [Inbox.head]), if_neg (by rw [hb]; simp [Inbox.head]),
    hdrain]
  dsimp only
  rw [if_neg hidle, hpop, Option.bind_some]
  dsimp only
  rw [if_neg hdest]

theorem behave_open (hO : Open s) (m : Message β) :
    Open (s.behave h m) ∧ (s.behave h m).started = s.started ++ [m] :=
  ran_open (s:={ s with started := s.started ++ [m] }) hO (h.behavior s.actor m)

/-- the loop of `resume_impl` comes to an end, whatever the handlers do -/
theorem loop_open (left : Nat) : ∀ (handled : Nat) (s : Serial σ β), Open s →
    ∃ v s' rest, s.loop h left handled = some (v, s') ∧ s'.started = s.started ++ rest := by
  induction left with
  | zero =>
    intro handled s hO
    obtain ⟨-, l, hb⟩ := id hO
    obtain ⟨v, s', hp, hs⟩ := park_open hO handled
    rw [loop, if_neg (by rw [hb]; simp [Inbox.head])]
    by_cases hbusy : s.busy = true
    · rw [if_pos hbusy]
      exact ⟨_, _, [], rfl, (List.append_nil _).symm⟩
    · rw [if_neg hbusy]
      exact ⟨v, s', [], hp, by rw [hs, List.append_nil]⟩
  | succ left ih =>
    intro handled s hO
    obtain ⟨hd, l, hb⟩ := id hO
    have hdest : ¬ s.word.isDestroying = true := Bool.eq_false_iff.mp hd
    rw [loop, if_neg hdest, if_neg (by rw [hb]; simp [Inbox.head]),
      if_neg (by rw [hb]; simp [Inbox.head])]
    rcases hdrain : s.drain h with _ | t
    · exact ⟨_, _, [], rfl, (List.append_nil _).symm⟩
    · obtain ⟨hOt, hst⟩ := drain_open hO hdrain
      dsimp only
      by_cases hbusy : t.busy = true
      · rw [if_pos hbusy]
        exact ⟨_, _, [], rfl, by rw [hst, List.append_nil]⟩
      · rw [if_neg hbusy]
        obtain ⟨hdt, lt, hbt⟩ := id hOt
        rcases Mailbox.popFront_next hbt with ⟨m, mb, -, hpop, -, -, -, hmb⟩ | ⟨-, -, hpop⟩
        · rw [hpop, Option.bind_some]
          dsimp only
          rw [if_neg (Bool.eq_false_iff.mp hdt)]
          obtain ⟨hOb, hsb⟩ := behave_open (h:=h) (s:={ t with box := mb }) ⟨hdt, hmb⟩ m
          obtain ⟨v, s', rest, hloop, hs'⟩ := ih (handled + 1) _ hOb
          refine ⟨v, s', m :: rest, hloop, ?_⟩
          rw [hs', hsb, List.append_assoc, ← hst]
          rfl
        · rw [hpop, Option.bind_some]
          dsimp only
          rw [if_neg (by rw [hbt]; simp [Inbox.head])]
          obtain ⟨v, s', hp, hs⟩ := park_open hOt handled
          exact ⟨v, s', [], hp, by rw [hs, hst, List.append_nil]⟩

/-- an actor between two calls, with a behavior that has finished, or that the drain finishes -/
structure Resting (h : Handlers σ β) (s : Serial σ β) : Prop where
  running : s.word.isRunning = false
  destroying : s.word.isDestroying = false
  closed : s.box.inbox ≠ .closed
  finishes : s.busy = false ∨ ∃ a, h.continuation s.actor = some (a, [], false)

/-- **The next message**: `resume()` drains the behavior and starts what the mailbox gives next. -/
theorem resume_next (hs : Resting h s) {k : Nat} (hk : 1 ≤ k) {m : Message β} {mb : Mailbox β}
    (hnext : s.box.collected.next = some (m, mb)) : ∃ r s' rest, s.resume h k = some (r, s') ∧
      s'.started = s.started ++ m :: rest := by
  obtain ⟨⟨l, hb⟩, hcol⟩ := tryUnblock_collected hs.closed
  have hdest : ¬ ((s.word.setRunning true).setScheduled false).isDestroying = true := by
    simp [hs.destroying]
  have hclosed : ¬ s.box.inbox.head = .closedTag := fun hc => hs.closed (Inbox.head_closed.mp hc)
  -- after the drain nothing is busy, and the mailbox is what it was
  have hdrained : ∀ t : Serial σ β, t.busy = s.busy → t.actor = s.actor → ∃ u,
      (t.drain h).getD t = u ∧ u.busy = false ∧ u.box = t.box ∧ u.word = t.word ∧
        u.started = t.started := by
    intro t htb hta
    unfold drain
    rcases hs.finishes with hidle | ⟨a, ha⟩
    · rw [htb, hidle]
      exact ⟨t, rfl, htb.trans hidle, rfl, rfl, rfl⟩
    · rw [hta, ha]
      by_cases hbusy : t.busy = true
      · rw [if_pos hbusy]
        exact ⟨_, rfl, rfl, rfl, rfl, rfl⟩
      · rw [if_neg hbusy]
        exact ⟨t, rfl, Bool.eq_false_iff.mpr hbusy, rfl, rfl, rfl⟩
  obtain ⟨u, hu, hub, hubox, huw, hus⟩ := hdrained { s with
    word := (s.word.setRunning true).setScheduled false, box := s.box.tryUnblock.2 } rfl rfl
  have hunb : u.box.inbox = .stack l := by
    rw [hubox]
    exact hb
  have hcolu : u.box.collected = s.box.collected := by
    rw [hubox]
    exact hcol
  have hne : s.box.collected.cached ≠ 0 := by
    intro h0
    have hp := Mailbox.popCached_none.mpr h0
    unfold Mailbox.next at hnext
    have hcc : s.box.collected.collected = s.box.collected := Mailbox.fetched_nil _
    rw [hp, hcc, hp] at hnext
    cases hnext
  -- the loop pops the message
  have hO : Open { u with box := s.box.collected } := by
    refine ⟨?_, [], rfl⟩
    rw [huw]
    exact Bool.eq_false_iff.mpr hdest
  have hpop : s.box.collected.popFront = some (some m, mb) ∧ ∃ l, mb.inbox = .stack l := by
    rcases @Mailbox.popFront_next β s.box.collected [] rfl with
      ⟨m', mb', hn, hp, -, -, -, hst⟩ | ⟨hn, -, -⟩
    · rw [hnext] at hn
      cases hn
      exact ⟨hp, hst⟩
    · rw [hnext] at hn
      cases hn
  obtain ⟨left, rfl⟩ : ∃ left, k = left + 1 := ⟨k - 1, by omega⟩
  obtain ⟨hOb, hsb⟩ := behave_open (h:=h) (s:={ u with box := mb }) ⟨hO.1, hpop.2⟩ m
  obtain ⟨v, s', rest, hloop, hs'⟩ := loop_open (h:=h) left 1 _ hOb
  have himpl : resumeImpl h (left + 1)
      { s with word := (s.word.setRunning true).setScheduled false } = some (v, s') := by
    unfold resumeImpl
    rw [if_neg hdest, if_neg hclosed]
    dsimp only
    rw [hu, if_neg (Bool.eq_false_iff.mp hub), if_neg (by rw [hunb]; simp [Inbox.head])]
    unfold Mailbox.isEmpty
    rw [Mailbox.fetchMore_collected hunb, hcolu]
    show (if (s.box.collected.cached == 0) = true then _ else _) = _
    rw [if_neg (by simpa using hne), loop_pops hO hub hpop.1]
    exact hloop
  refine ⟨(Runner.verdict v.1 s'.word.isScheduled, v.2.1),
    { s' with word := Runner.guardDesired v.2.2 s'.word }, rest, ?_, ?_⟩
  · unfold resume
    rw [if_neg (Bool.eq_false_iff.mp hs.running), himpl]
    rfl
  · show s'.started = _
    rw [hs', hsb, hus, List.append_assoc]
    rfl

end Serial

/-! ## the coroutines of an actor -/

/-- an actor with its behavior, at its end or suspended, and the outcomes that its awaited states
get from now on -/
structure Fiber (T X : Type) where
  run : Result T X × World T X
  arriving : List (Outcome T X)

/-- the handlers of an actor whose methods are these coroutines -/
def handlers {β : Type} (void : T) (method : Message β → Body T X) : Handlers (Fiber T X) β where
  behavior a msg :=
    let r := handle void (method msg) (World.fresh a.run.2.next)
    (⟨r, a.arriving⟩, [], r.1.isSuspended)
  continuation a := match a.run, a.arriving with
    | (.suspended os l p, w), o :: rest =>
      let r := resume l (p.setOutcome o).settle.2 w os
      some (⟨r, rest⟩, [], r.1.isSuspended)
    | _, _ => none

/-- the drain of an actor is one more awaited state that is ready -/
theorem continuation_drains {β : Type} (void : T) (method : Message β → Body T X) {a : Fiber T X}
    (hsus : a.run.1.isSuspended = true) {o : Outcome T X} {rest : List (Outcome T X)}
    (harr : a.arriving = o :: rest) : (handlers void method).continuation a =
      some (⟨drains a.run [o], rest⟩, [], (drains a.run [o]).1.isSuspended) := by
  obtain ⟨⟨r, w⟩, arriving⟩ := a
  have harr : arriving = o :: rest := harr
  subst harr
  cases r with
  | suspended os l p => rfl
  | _ => cases hsus

/-- the actor between two calls of `resume()`: `i` awaited states have become ready since the
message came in, or the next one is ready by now -/
inductive Driven (R : List (Outcome T X) → Result T X × World T X) (f : Nat → T) (i : Nat) :
    Fiber T X → Bool → Prop
  | idle {a : Fiber T X} : a.run = R (firsts f i) → Driven R f i a false
  | pending {a : Fiber T X} {j : Nat} {rest : List (Outcome T X)} : i = j + 1 →
      a.run = R (firsts f j) → a.arriving = .value (f j) :: rest → Driven R f i a true

/-- **An exception on its way to the caller.**  The innermost of `d + 1` nested methods throws, after
the suspensions of the chain, and nobody catches.  Then every future of the chain and the caller's
become ready with that exception, the caller's promise is settled once, every frame is destroyed
once, the behavior finishes, and the next `resume()` starts the next message. -/
theorem exception_reaches_caller {β : Type} (void : T) (method : Message β → Body T X) (n : Nat)
    {ep : X} {d : Nat} {m : Body T X} (hm : Chain ep d m) (f : Nat → T) : ∃ j,
      (∀ i < j, (behaviorRun void n m (firsts f i)).1.isSuspended = true) ∧
      (∃ w, behaviorRun void n m (firsts f j) = (.finished n none none, w) ∧ Delivered n d ep w) ∧
      ∀ s : Serial (Fiber T X) β, Driven (behaviorRun void n m) f j s.actor s.busy →
        s.word.isRunning = false → s.word.isDestroying = false → s.box.inbox ≠ .closed →
        ∀ k msg mb, 1 ≤ k → s.box.collected.next = some (msg, mb) →
          ∃ r s' rest, s.resume (handlers void method) k = some (r, s') ∧
            s'.started = s.started ++ msg :: rest := by
  obtain ⟨j, hj, w, hend, hw⟩ := hm.delivered void n f
  refine ⟨j, hj, ⟨w, hend, hw⟩, fun s hdriven hrun hdest hopen k msg mb hk hnext => ?_⟩
  refine Serial.resume_next ⟨hrun, hdest, hopen, ?_⟩ hk hnext
  generalize s.actor = a at hdriven ⊢
  generalize s.busy = b at hdriven ⊢
  rcases hdriven with _ | ⟨hi, ha, harr⟩
  · exact .inl rfl
  · rename_i i rest
    have hsus := hj i (by omega)
    rw [← ha] at hsus
    have hdrain : drains a.run [.value (f i)] = (.finished n none none, w) := by
      rw [ha, ← hend, hi]
      show drains (behaviorRun void n m (firsts f i)) _ = drains _ (firsts f (i + 1))
      unfold firsts
      rw [List.range_succ, List.map_append]
      exact (drains_append _ _ _).symm
    rw [continuation_drains void method hsus harr, hdrain]
    exact .inr ⟨_, rfl⟩

/-- a method that awaits a number and throws; and one that awaits that method -/
def thrower : Body Nat Unit :=
  .adopt none (.await 0 fun
    | .ok _ => .coReturn (.exception ())
    | .error ep => .coReturn (.exception ep))

def throwerCaller : Body Nat Unit :=
  .start thrower (.await 0 fun
    | .ok v => .coReturn (.value v)
    | .error ep => .coReturn (.exception ep))

theorem exception_reaches_caller_awaited : ∃ (j : Nat) (w : World Nat Unit),
    behaviorRun 0 0 throwerCaller (firsts id j) = (.finished 0 none none, w) ∧
      Delivered 0 1 () w ∧ ∃ (s : Serial (Fiber Nat Unit) Unit) (r : ResumeResult × Nat)
        (s' : Serial (Fiber Nat Unit) Unit) (rest : List (Message Unit)),
        s.resume (handlers 0 fun _ => throwerCaller) 5 = some (r, s') ∧
          s'.started = s.started ++ ⟨1, 0, ()⟩ :: rest := by
  have hchain : Chain () 1 throwerCaller := by
    refine .nest (.wait none fun v => .throw) fun e => rfl
  obtain ⟨j, -, ⟨w, hend, hw⟩, hnext⟩ :=
    exception_reaches_caller 0 (fun _ : Message Unit => throwerCaller) 0 hchain id
  let s : Serial (Fiber Nat Unit) Unit := ⟨.idle, ⟨[], [], .stack [⟨1, 0, ()⟩]⟩,
    ⟨behaviorRun 0 0 throwerCaller (firsts id j), []⟩, false, [], []⟩
  refine ⟨j, w, hend, hw, s, ?_⟩
  exact hnext s (.idle rfl) ActorState.idle_flags.2.1 ActorState.idle_flags.2.2 (by simp [s]) 5
    ⟨1, 0, ()⟩ ⟨[], [], .stack []⟩ (by decide) rfl

end ActorZeta
