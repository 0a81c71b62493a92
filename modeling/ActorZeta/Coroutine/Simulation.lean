import ActorZeta.Lib.Simulation
import ActorZeta.Coroutine.Reading

/-!
# Resumptions on the machine

A coroutine of the machine that runs, as `exec` and `resume` describe it: what its steps keep, what
`co_await` comes to, and how its locals die.

* `Rep`, `On`                      the world, and a coroutine that runs in it with its locals;
* `Ran`, `Ends`                    a run of it, and how it ends;
* `On.move`, `On.quick`            a step of it;
* `leave_simulated`                the locals of a coroutine die;
* `On.resuming`, `On.suspending`   `await_resume()` and `await_suspend()`.

Nothing is said of a run that `exec` calls undefined.
-/

namespace ActorZeta
open StateFlags

namespace Coros
variable {T X : Type}

/-- a step of the running coroutine, or of a thread that settles a state -/
def inside (_ : Coros T X) : CoroAct T X → Bool
  | .op _ | .produce _ => true
  | _ => false

/-- a run inside of a call of `handle.resume()`, or of `behavior(msg)` -/
def Inner (m m' : Coros T X) : Prop := TS.Reach (TS.restrict step inside) m m'

/-- the frames, the message and the caller's state -/
structure Rep (slot : Address) (m : Coros T X) (w : World T X) : Prop where
  next : m.frames.next = w.next
  message : m.currentMessage = some ⟨slot, w.owned⟩ ∨ m.currentMessage = none ∧ w.owned = false
  caller : m.slots.get slot = some w.slot
  gone : ∀ h ∈ w.destroyed, h < m.frames.next ∧ m.frames.get h = none
  untaken : w.owned = true → ∀ b fb, m.frames.get b = some fb → slot ∉ fb.promises

/-- every frame is an old one, with its promises -/
def Older (F F' : Heap Frame) : Prop :=
  ∀ b fb, F'.get b = some fb → ∃ fb₀, F.get b = some fb₀ ∧ fb.promises = fb₀.promises

/-- neither aborted nor undefined -/
structure Live (m : Coros T X) : Prop where
  ok : m.Ok
  aborted : m.aborted = false
  undefined : m.undefined = false

section
variable (slot : Address) (out : Address → Outcome T X)

/-- `a` runs, with these locals, in this world -/
structure On (m : Coros T X) (a : Handle) (S : List Handle) (fa : Frame)
    (fr : Locals (Fut T X) T X) (w : World T X) : Prop where
  live : m.Live
  stack : m.stack = a :: S
  frame : m.frames.get a = some fa
  locals : Local slot m.cells a fa fr
  held : ReadsAll slot out m.frames m.cells fa fr
  world : Rep slot m w

/-- a run of `a` -/
structure Ran (m m' : Coros T X) (a : Handle) : Prop where
  inner : Inner m m'
  below : Below slot out m m' a
  driver : m'.driver = m.driver
  behavior : m'.currentBehavior = m.currentBehavior

/-- how a body of `a` ends, and the machine with it: `a` is suspended, or its locals are gone and it
is at its final awaiter, or the process is aborted -/
inductive Ends (m : Coros T X) (a : Handle) (S : List Handle) : Result T X × World T X → Prop
  | suspended {own : Option Address} {os : List (Level (Fut T X) T X)} {l : Level (Fut T X) T X}
      {p : State T X} {w : World T X} : m.Live → m.stack = S →
      Reads slot out m.frames m.cells (some a) own (.waiting os l p) → Rep slot m w →
      Ends m a S (.suspended os l p, w)
  | leaving {fa : Frame} {st : Option (State T X)} {w : World T X} :
      On slot out m a S fa ⟨a, st, [], false⟩ w → fa.pc = .leaving →
      Ends m a S (finalSuspend a st w)
  | aborted {w : World T X} : m.aborted = true → Ends m a S (.aborted, w)
  | undefined {w : World T X} : Ends m a S (.undefined, w)

/-- a run of `a` to such an end -/
def Runs (m : Coros T X) (a : Handle) (S : List Handle) (R : Result T X × World T X) : Prop :=
  ∃ m', Ran slot out m m' a ∧ Ends slot out m' a S R

end

section
variable {slot : Address} {out : Address → Outcome T X} {m m' m'' : Coros T X} {a b : Handle}
  {S : List Handle} {fa fa' : Frame} {f : Future} {fs : List Future} {t : Fut T X}
  {fr l : Locals (Fut T X) T X} {w w' : World T X} {op : Option (Op T X)}

theorem Older.trans {F F' F'' : Heap Frame} (h : Older F F') (h' : Older F' F'') : Older F F'' := by
  intro b fb hb
  obtain ⟨fb', hb', hprom'⟩ := h' b fb hb
  obtain ⟨fb'', hb'', hprom⟩ := h b fb' hb'
  exact ⟨fb'', hb'', hprom'.trans hprom⟩

theorem Older.modify {F : Heap Frame} {k : Frame → Frame} (ha : F.get a = some fa)
    (hk : (k fa).promises = fa.promises) : Older F (F.modify a k) := by
  intro b fb hb
  obtain ⟨fb₀, hb₀, rfl⟩ := Heap.get_modify_some hb
  refine ⟨fb₀, hb₀, ?_⟩
  by_cases hba : b = a
  · subst hba
    rw [ha] at hb₀
    cases hb₀
    rw [if_pos rfl]
    exact hk
  · rw [if_neg hba]

theorem Older.reclaimed (F : Heap Frame) (o : Option Handle) : Older F (reclaimed F o) :=
  fun _ fb hb => ⟨fb, (reclaimed_some.mp hb).1, rfl⟩

/-- nothing of the world changes -/
theorem Rep.kept (hw : Rep slot m w) (hnext : m'.frames.next = m.frames.next)
    (hF : Older m.frames m'.frames) (hmsg : m'.currentMessage = m.currentMessage)
    (hslots : m'.slots = m.slots) : Rep slot m' w where
  next := hnext.trans hw.next
  message := by
    rw [hmsg]
    exact hw.message
  caller := by
    rw [hslots]
    exact hw.caller
  gone b hb := by
    obtain ⟨hlt, hnone⟩ := hw.gone b hb
    rw [hnext]
    refine ⟨hlt, Option.eq_none_iff_forall_ne_some.mpr fun fb hfb => ?_⟩
    obtain ⟨fb₀, hb₀, -⟩ := hF b fb hfb
    rw [hnone] at hb₀
    cases hb₀
  untaken ho b fb hfb := by
    obtain ⟨fb₀, hb₀, hprom⟩ := hF b fb hfb
    rw [hprom]
    exact hw.untaken ho b fb₀ hb₀

/-- the machine does not record what final suspension left -/
theorem Rep.noted (h : Rep slot m w) (finished : List (Handle × State T X)) :
    Rep slot m { w with finished := finished } :=
  ⟨h.next, h.message, h.caller, h.gone, h.untaken⟩

theorem Ran.refl : Ran slot out m m a := ⟨.refl m, .refl, rfl, rfl⟩

theorem Ran.trans (h : Ran slot out m m' a) (h' : Ran slot out m' m'' a) : Ran slot out m m'' a :=
  ⟨h.inner.trans h'.inner, h.below.trans h'.below, h'.driver.trans h.driver,
    h'.behavior.trans h.behavior⟩

theorem Ran.runs {R : Result T X × World T X} (h : Ran slot out m m' a)
    (h' : Runs slot out m' a S R) : Runs slot out m a S R := by
  obtain ⟨m'', hran, hends⟩ := h'
  exact ⟨m'', h.trans hran, hends⟩

theorem Ran.mono (h : Ran slot out m m' b) (hab : a ≤ b) : Ran slot out m m' a :=
  ⟨h.inner, h.below.mono hab, h.driver, h.behavior⟩

theorem Live.inv (h : m.Live) (hS : m.stack = a :: S) :
    Inv m.frames m.cells (a :: S) m.currentBehavior none := by
  have hI := h.ok.inv h.aborted
  rwa [hS] at hI

/-- a step of the coroutine on top of the stack -/
theorem Live.step_op (h : m.Live) (hS : m.stack = a :: S) (ha : m.frames.get a = some fa)
    (hs : m.exec a fa op = some m') : Inner m m' ∧ Fine m m' := by
  refine ⟨(TS.Reach.refl m).tail (a:=.op op) (TS.restrict_some.mpr ⟨rfl, ?_⟩),
    exec_ok h.ok h.aborted hS ha hs⟩
  unfold step
  rw [h.aborted, h.undefined, if_neg (by decide), hS]
  dsimp only
  rw [ha]
  exact hs

theorem Live.of_fine (h : m.Live) (hf : Fine m m') (hab : m'.aborted = false) : m'.Live :=
  ⟨hf.ok, hab, hf.undefined.trans h.undefined⟩

theorem On.inv (h : On slot out m a S fa fr w) :
    Inv m.frames m.cells (a :: S) m.currentBehavior none := h.live.inv h.stack

/-- the futures of `a` after a step: those that it keeps are read as before, and the others have to
be read anew -/
theorem On.reads (h : On slot out m a S fa fr w) (hsp : Spares m m' a fs)
    (hfs : ∀ f ∈ fs, f ∈ fa.futures)
    (hheld : ∀ (i : Nat) (f : Future) (t : Fut T X), fa'.held[i]? = some f →
      l.held[i]? = some t → f ∈ fa.futures ∧ Owns slot out m f t ∧ (∀ g ∈ fs, g.state ≠ f.state) ∨
        Owns slot out m' f t) : ReadsAll slot out m'.frames m'.cells fa' l := by
  intro i f t hi ht
  rcases hheld i f t hi ht with ⟨hf, hown, hne⟩ | hown
  · exact hsp.owns h.inv h.frame hfs h.frame hf hne hown
  · exact hown

/-- what a step of `a` leaves to the others -/
theorem On.ran (h : On slot out m a S fa fr w) (hs : m.exec a fa op = some m')
    (hb : m'.currentBehavior = m.currentBehavior) (hsp : Spares m m' a fs)
    (hfs : ∀ f ∈ fs, f ∈ fa.futures) : Ran slot out m m' a :=
  ⟨(h.live.step_op h.stack h.frame hs).1, hsp.below h.inv h.frame hfs,
    (h.live.step_op h.stack h.frame hs).2.driver, hb⟩

/-- **A step of `a`** that leaves it running. -/
theorem On.move (h : On slot out m a S fa fr w) (hs : m.exec a fa op = some m')
    (hab : m'.aborted = false) (hS : m'.stack = a :: S)
    (hb : m'.currentBehavior = m.currentBehavior) (ha : m'.frames.get a = some fa')
    (hsp : Spares m m' a fs) (hfs : ∀ f ∈ fs, f ∈ fa.futures)
    (hloc : Local slot m'.cells a fa' l)
    (hheld : ∀ (i : Nat) (f : Future) (t : Fut T X), fa'.held[i]? = some f →
      l.held[i]? = some t → f ∈ fa.futures ∧ Owns slot out m f t ∧ (∀ g ∈ fs, g.state ≠ f.state) ∨
        Owns slot out m' f t) (hw : Rep slot m' w') :
    On slot out m' a S fa' l w' ∧ Ran slot out m m' a :=
  ⟨⟨h.live.of_fine (h.live.step_op h.stack h.frame hs).2 hab, hS, ha, hloc, h.reads hsp hfs hheld,
    hw⟩, h.ran hs hb hsp hfs⟩

/-- the own state of a coroutine is not the state of a future in its hands -/
theorem Live.own_ne (hI : Inv m.frames m.cells (a :: S) m.currentBehavior none)
    (ha : m.frames.get a = some fa) (hf : f ∈ fa.futures) : fa.state ≠ some f.state := by
  intro hs
  obtain ⟨_, hc, hma⟩ := hI.tokens.own a fa _ ha hs
  obtain ⟨_, hc', -, -, hmk⟩ := hI.tokens.valid a fa f ha hf
  rw [hc] at hc'
  cases hc'
  cases hmk with
  | thread _ hp =>
    rw [hma] at hp
    cases hp
  | coroutine hsome hcor =>
    rw [hma] at hcor
    cases hcor
    exact hI.not_self ha hf hsome

/-- a step inside `co_await`: pointers, the place of `a`, and the states of `fs` -/
structure Quick (m m' : Coros T X) (a : Handle) (fs : List Future) : Prop where
  seen : ∀ b, b ≠ a → seenAt m'.frames b = seenAt m.frames b
  next : m'.frames.next = m.frames.next
  cells : ∀ s, (∀ f ∈ fs, f.state ≠ s) → m'.cells.get s = m.cells.get s
  slots : m'.slots = m.slots
  message : m'.currentMessage = m.currentMessage
  behavior : m'.currentBehavior = m.currentBehavior

theorem Quick.spares (h : Quick m m' a fs) : Spares m m' a fs where
  frames b _ hb hba _ := seenAt_some (h.seen b hba) hb
  cells s _ hc _ hs := (h.cells s hs).trans hc

theorem Quick.rep (h : Quick m m' a fs) (ha : m.frames.get a = some fa)
    (ha' : m'.frames.get a = some fa') (hprom : fa'.promises = fa.promises) (hw : Rep slot m w) :
    Rep slot m' w := by
  refine hw.kept h.next (fun b fb hb => ?_) h.message h.slots
  by_cases hba : b = a
  · subst hba
    rw [ha'] at hb
    cases hb
    exact ⟨fa, ha, hprom⟩
  · obtain ⟨fb₀, hb₀, hseen⟩ := seenAt_some (h.seen b hba).symm hb
    exact ⟨fb₀, hb₀, (seen_eq hseen).2.2.1.symm⟩

/-- a step inside `co_await` keeps the locals -/
theorem On.quick (h : On slot out m a S fa fr w) (hs : m.exec a fa op = some m')
    (hq : Quick m m' a fs) (hfs : ∀ f ∈ fs, fa.pc.current = some f) (hab : m'.aborted = false)
    (hS : m'.stack = a :: S) (ha : m'.frames.get a = some fa') (hst : fa'.state = fa.state)
    (hheld : fa'.held = fa.held) (hprom : fa'.promises = fa.promises) :
    On slot out m' a S fa' fr w ∧ Ran slot out m m' a := by
  have hfut : ∀ f ∈ fs, f ∈ fa.futures := fun f hf => mem_futures_current (hfs f hf)
  refine h.move hs hab hS hq.behavior ha hq.spares hfut ?_ (fun i f t hi ht => Or.inl ?_)
    (hq.rep h.frame ha hprom h.world)
  · exact ⟨h.locals.id, h.locals.own_state hst fun s hs => hq.cells s fun f hf he =>
      Live.own_ne h.inv h.frame (hfut f hf) (he ▸ hs), hprom ▸ h.locals.promises,
      hheld ▸ h.locals.length⟩
  · rw [hheld] at hi
    refine ⟨mem_futures_held (List.mem_of_getElem? hi), h.held i f t hi ht, fun g hg he => ?_⟩
    exact h.inv.tokens.held_ne_current h.frame (List.mem_of_getElem? hi) (hfs g hg) he.symm

/-! ## a future dies -/

theorem reclaimed_next (F : Heap Frame) (o : Option Handle) : (reclaimed F o).next = F.next := by
  unfold reclaimed
  split
  · split
    · split <;> rfl
    · rfl
  · rfl

/-- the frame of a coroutine that is done goes with its future, and no other -/
theorem Rep.release {k : Frame → Frame} (hw : Rep slot m w) (ha : m.frames.get a = some fa)
    (hprom : (k fa).promises = fa.promises) (hne : f.handle ≠ some a) (hown : Owns slot out m f t) :
    Rep slot { m with
      frames := reclaimed (m.frames.modify a k) f.handle
      cells := m.cells.modify f.state (.onMem Mem.releaseFuture) } (w.release t) := by
  have hw' : Rep slot { m with
      frames := reclaimed (m.frames.modify a k) f.handle
      cells := m.cells.modify f.state (.onMem Mem.releaseFuture) } w :=
    hw.kept (reclaimed_next _ _) ((Older.modify ha hprom).trans (.reclaimed _ _)) rfl rfl
  obtain ⟨s, o⟩ := f
  unfold Owns at hown
  generalize some s = x at hown
  cases hown with
  | promised => exact hw'
  | last => exact hw'
  | outer => exact hw'
  | @ready b fb _ c hb hpc =>
    refine ⟨hw'.next, hw'.message, hw'.caller, fun d hd => ?_, hw'.untaken⟩
    rcases List.mem_append.mp hd with hd | hd
    · exact hw'.gone d hd
    · obtain rfl := List.mem_singleton.mp hd
      have hlt : d < m.frames.next := Heap.lt_next hb
      refine ⟨by rw [reclaimed_next]; exact hlt, ?_⟩
      rw [Option.eq_none_iff_forall_ne_some]
      intro fd hfd
      rw [reclaimed_some] at hfd
      refine hfd.2 ⟨rfl, ?_⟩
      have hda : d ≠ a := fun he => hne (congrArg some he)
      rw [Heap.get_modify_ne hda, hb] at hfd
      rw [← Option.some.inj hfd.1]
      unfold Frame.done
      rw [hpc]
      rfl

theorem Spares.release {k : Frame → Frame} : Spares m { m with
    frames := reclaimed (m.frames.modify a k) f.handle
    cells := m.cells.modify f.state (.onMem Mem.releaseFuture) } a [f] where
  frames b fb hb hba hh := by
    refine ⟨fb, reclaimed_some.mpr ⟨(Heap.get_modify_ne hba).trans hb, fun hn => ?_⟩, rfl⟩
    exact hh f List.mem_cons_self hn.1
  cells s c hc _ hs := by
    refine (Heap.get_modify_ne ?_).trans hc
    exact fun he => hs f List.mem_cons_self he.symm

/-- **A future of `a` dies.** -/
theorem On.release {k : Frame → Frame} (h : On slot out m a S fa fr w) (hf : f ∈ fa.futures)
    (hown : Owns slot out m f t) (hs : m.exec a fa op = some ((m.onFrame a k).release f))
    (hst : (k fa).state = fa.state) (hprom : (k fa).promises = fa.promises)
    (hl : l.id = fr.id ∧ l.state = fr.state ∧ l.promise = fr.promise)
    (hlen : (k fa).held.length = l.held.length)
    (hheld : ∀ (i : Nat) (g : Future) (u : Fut T X), (k fa).held[i]? = some g →
      l.held[i]? = some u → g ∈ fa.futures ∧ Owns slot out m g u ∧ f.state ≠ g.state) :
    ∃ m', On slot out m' a S (k fa) l (w.release t) ∧ Ran slot out m m' a := by
  have hself := h.inv.not_self h.frame hf
  rw [release_modify_eq h.inv h.frame hf] at hs
  have hget : (reclaimed (m.frames.modify a k) f.handle).get a = some (k fa) :=
    reclaimed_some.mpr ⟨Heap.get_modify_self h.frame, fun hn => hself hn.1⟩
  refine ⟨_, h.move hs h.live.aborted h.stack rfl hget .release
    (fun g hg => List.mem_singleton.mp hg ▸ hf) ⟨?_, ?_, ?_, hlen⟩ (fun i g u hi hu => ?_)
    (h.world.release h.frame hprom hself hown)⟩
  · exact hl.1.trans h.locals.id
  · refine hl.2.1.trans (h.locals.own_state hst fun s hs => Heap.get_modify_ne ?_)
    rintro rfl
    exact Live.own_ne h.inv h.frame hf hs
  · rw [hprom, hl.2.2]
    exact h.locals.promises
  · obtain ⟨hg, hgu, hne⟩ := hheld i g u hi hu
    exact Or.inl ⟨hg, hgu, fun e he => List.mem_singleton.mp he ▸ hne⟩

/-! ## the locals of a coroutine -/

/-- as long as the message has its promise, no coroutine has -/
theorem On.untaken (h : On slot out m a S fa fr w) (ho : w.owned = true) : fr.promise = false := by
  have hnot := h.world.untaken ho a fa h.frame
  rw [h.locals.promises] at hnot
  cases hp : fr.promise with
  | false => rfl
  | true =>
    rw [hp] at hnot
    exact absurd List.mem_cons_self hnot

/-- a step of `a` that moves its frame, and no other frame and no state of a coroutine -/
theorem On.alone {k : Frame → Frame} {m' : Coros T X} {v : World T X}
    (h : On slot out m a S fa fr w)
    (hs : m.exec a fa op = some m') (hF : m'.frames = m.frames.modify a k) (hC : m'.cells = m.cells)
    (hS : m'.stack = m.stack) (hab : m'.aborted = m.aborted)
    (hb : m'.currentBehavior = m.currentBehavior) (hst : (k fa).state = fa.state)
    (hheld : (k fa).held = fa.held) (hl : l.id = fr.id ∧ l.state = fr.state ∧ l.held = fr.held)
    (hprom : (k fa).promises = if l.promise then [slot] else [])
    (hmsg : m'.currentMessage = some ⟨slot, v.owned⟩ ∨ m'.currentMessage = none ∧ v.owned = false)
    (hslot : m'.slots.get slot = some v.slot) (hnext : v.next = w.next)
    (hgone : v.destroyed = w.destroyed)
    (hown : v.owned = true → w.owned = true ∧ l.promise = false) :
    On slot out m' a S (k fa) l v ∧ Ran slot out m m' a := by
  have hget : m'.frames.get a = some (k fa) := by
    rw [hF]
    exact Heap.get_modify_self h.frame
  have hsp : Spares m m' a [] := by
    refine ⟨fun b fb hb hba _ => ⟨fb, ?_, rfl⟩, fun s c hc _ _ => ?_⟩
    · rw [hF]
      exact (Heap.get_modify_ne hba).trans hb
    · rw [hC]
      exact hc
  refine h.move hs (hab.trans h.live.aborted) (hS.trans h.stack) hb hget hsp nofun
    ⟨hl.1.trans h.locals.id, ?_, hprom, ?_⟩ (fun i f t hi ht => Or.inl ?_)
    ⟨?_, hmsg, hslot, fun d hd => ?_, fun ho b fb hfb => ?_⟩
  · rw [hl.2.1, h.locals.state, hst, hC]
  · rw [hheld, hl.2.2]
    exact h.locals.length
  · rw [hheld] at hi
    rw [hl.2.2] at ht
    exact ⟨mem_futures_held (List.mem_of_getElem? hi), h.held i f t hi ht, nofun⟩
  · rw [hF, hnext]
    exact h.world.next
  · obtain ⟨hlt, hnone⟩ := h.world.gone d (hgone ▸ hd)
    rw [hF]
    exact ⟨hlt, Heap.get_modify_none hnone⟩
  · obtain ⟨ho', hp⟩ := hown ho
    rw [hF] at hfb
    obtain ⟨fb₀, hb₀, rfl⟩ := Heap.get_modify_some hfb
    by_cases hba : b = a
    · subst hba
      rw [h.frame] at hb₀
      cases hb₀
      rw [if_pos rfl, hprom, hp]
      exact List.not_mem_nil
    · rw [if_neg hba]
      exact h.world.untaken ho' b fb₀ hb₀

/-- `a` settles the caller's promise -/
theorem On.settles {k : Frame → Frame} {o : Outcome T X} (h : On slot out m a S fa fr w)
    (hs : m.exec a fa op = some { m with
      frames := m.frames.modify a k
      slots := m.slots.modify slot fun st => (st.setOutcome o).settle.2 })
    (hst : (k fa).state = fa.state) (hheld : (k fa).held = fa.held) (hprom : (k fa).promises = []) :
    ∃ m', On slot out m' a S (k fa) { fr with promise := false } (w.settle o) ∧
      Ran slot out m m' a :=
  ⟨_, h.alone hs rfl rfl rfl rfl rfl hst hheld ⟨rfl, rfl, rfl⟩ hprom h.world.message
    (Heap.get_modify_self h.world.caller) rfl rfl fun ho => ⟨ho, rfl⟩⟩

/-- the futures that a coroutine holds die, one after the other -/
theorem releases_simulated (held : List (Fut T X)) : ∀ (m : Coros T X) (fa : Frame)
    (fr : Locals (Fut T X) T X) (w : World T X), On slot out m a S fa fr w → fa.pc = .leaving →
    fr.promise = false → fr.held = held → ∃ m' fa', fa'.pc = .leaving ∧
      On slot out m' a S fa' { fr with held := [] } (held.foldl World.release w) ∧
      Ran slot out m m' a := by
  induction held with
  | nil =>
    intro m fa fr w h hpc _ hheld
    refine ⟨m, fa, hpc, ?_, .refl⟩
    obtain ⟨id, state, held, promise⟩ := fr
    obtain rfl : held = [] := hheld
    exact h
  | cons t held ih =>
    intro m fa fr w h hpc hp hheld
    have hlen := h.locals.length
    rw [hheld] at hlen
    have hprom : fa.promises = [] := by
      rw [h.locals.promises, hp]
      rfl
    obtain ⟨f, rest, hcons⟩ := List.exists_cons_of_length_eq_add_one hlen
    have hf : f ∈ fa.futures := mem_futures_held (hcons ▸ List.mem_cons_self)
    have hown : Owns slot out m f t := h.held 0 f t (by rw [hcons]; rfl) (by rw [hheld]; rfl)
    have hs : m.exec a fa none =
        some ((m.onFrame a ({ · with held := rest } : Frame → Frame)).release f) := by
      unfold exec
      rw [hpc]
      dsimp only
      unfold leave
      rw [hprom, hcons]
    rw [hcons] at hlen
    obtain ⟨m₁, h₁, hran⟩ := h.release (l:={ fr with held := held }) hf hown hs rfl rfl
      ⟨rfl, rfl, rfl⟩ (Nat.succ.inj hlen) fun i g u hi hu => by
        have hi' : fa.held[i + 1]? = some g := by
          rw [hcons]
          exact hi
        exact ⟨mem_futures_held (List.mem_of_getElem? hi'),
          h.held (i + 1) g u hi' (by rw [hheld]; exact hu),
          h.inv.tokens.held_ne h.frame (by rw [hcons]; rfl) hi' (Nat.succ_ne_zero i).symm⟩
    obtain ⟨m', fa', hpc', h', hran'⟩ := ih m₁ _ _ _ h₁ hpc hp rfl
    exact ⟨m', fa', hpc', h', hran.trans hran'⟩

/-- **The locals of a coroutine die**: the promise first, then the futures. -/
theorem leave_simulated (h : On slot out m a S fa fr w) (hpc : fa.pc = .leaving) :
    ∃ m' fa', fa'.pc = .leaving ∧
      On slot out m' a S fa' ⟨fr.id, fr.state, [], false⟩ (w.leave fr) ∧ Ran slot out m m' a := by
  unfold World.leave
  cases hp : fr.promise with
  | false =>
    have hrel := releases_simulated fr.held m fa fr w h hpc hp rfl
    rw [hp] at hrel
    exact hrel
  | true =>
    have hprom : fa.promises = [slot] := by
      rw [h.locals.promises, hp]
      rfl
    have hs : m.exec a fa none = some { m with
        frames := m.frames.modify a ({ · with promises := [] })
        slots := m.slots.modify slot
          fun st => (st.setOutcome (.error (.errc .brokenPipe))).settle.2 } := by
      unfold exec
      rw [hpc]
      dsimp only
      unfold leave
      rw [hprom]
      rfl
    obtain ⟨m₁, h₁, hran⟩ := h.settles hs rfl rfl rfl
    obtain ⟨m', fa', hpc', h', hran'⟩ := releases_simulated fr.held m₁ _ _ _ h₁ hpc rfl rfl
    exact ⟨m', fa', hpc', h', hran.trans hran'⟩

/-! ## inside `co_await` -/

/-- a step inside `co_await` -/
theorem exec_current {c : Cell T X} (hcur : fa.pc.current = some f) (hl : m.look f.state = some c) :
    m.exec a fa none = some (m.awaiting a f c fa.pc) := by
  unfold exec
  cases hpc : fa.pc with
  | running => rw [hpc] at hcur; cases hcur
  | leaving => rw [hpc] at hcur; cases hcur
  | finished => rw [hpc] at hcur; cases hcur
  | _ =>
    rw [hpc] at hcur
    cases hcur
    dsimp only [Place.current]
    rw [hl]

/-- a future with a handle is read where its coroutine is -/
theorem owns_of_handle {o : Option Address} (hI : Inv m.frames m.cells S m.currentBehavior none)
    (ha : m.frames.get a = some fa) (hf : f ∈ fa.futures) (hfb : f.handle = some b)
    (h : Reads slot out m.frames m.cells (some b) o t) : Owns slot out m f t := by
  obtain ⟨-, fb, hb, hfs⟩ := (hI.tokens.valid a fa f ha hf).handle hfb
  obtain ⟨fb', hb', -, hown⟩ := h.idle
  rw [hb] at hb'
  cases hb'
  unfold Owns
  rw [hfb, ← hfs, hown]
  exact h

/-- the state of a future that nobody has to resume -/
theorem Owns.cell {st : State T X} (h : Owns slot out m f t) (ht : t.state = some st) :
    ∃ c, m.cells.get f.state = some c ∧ c.mem.st = st := by
  obtain ⟨s, o⟩ := f
  unfold Owns at h
  generalize hx : some s = x at h
  cases h with
  | promised hc =>
    cases hx
    cases ht
    exact ⟨_, hc, rfl⟩
  | ready _ _ _ hc =>
    cases hx
    cases ht
    exact ⟨_, hc, rfl⟩
  | last => cases ht
  | outer => cases ht

/-- the machine sees a result where the resumption has one -/
theorem Owns.result {c : Cell T X} (hown : Owns slot out m f t)
    (hI : Inv m.frames m.cells (a :: S) m.currentBehavior none) (ha : m.frames.get a = some fa)
    (hf : f ∈ fa.futures) (hc : m.cells.get f.state = some c) :
    c.mem.st.hasResult = t.hasResult := by
  obtain ⟨c', hc', -, -, hmk⟩ := hI.tokens.valid a fa f ha hf
  rw [hc] at hc'
  cases hc'
  have hempty : ∀ {b fb}, f.handle = some b → m.frames.get b = some fb → fb.pc.returned = false →
      c.mem.st.hasResult = false := by
    intro b fb hfb hb hret
    cases hmk with
    | thread hn =>
      rw [hfb] at hn
      cases hn
    | coroutine hsome _ _ hb' _ hmade =>
      rw [hfb] at hsome
      cases hsome
      rw [hb] at hb'
      cases hb'
      unfold Cell.Made at hmade
      rw [hret] at hmade
      unfold State.hasResult
      rw [show c.mem.st.flags = empty from hmade]
      simp
  cases ht : t.state with
  | some st =>
    obtain ⟨c', hc', rfl⟩ := hown.cell ht
    rw [hc] at hc'
    cases hc'
    unfold Fut.hasResult
    rw [ht]
    rfl
  | none =>
    unfold Fut.hasResult
    rw [ht]
    obtain ⟨s, o⟩ := f
    unfold Owns at hown
    generalize some s = x at hown
    cases hown with
    | promised => cases ht
    | ready => cases ht
    | last hb hpc => exact hempty rfl hb (by rw [hpc]; rfl)
    | outer hb hpc => exact hempty rfl hb (by rw [hpc]; rfl)

/-- a step inside `co_await` that is no `resume()` -/
theorem On.goto {pc : Place} {F : Heap Frame} {C : Heap (Cell T X)} (h : On slot out m a S fa fr w)
    (fs : List Future)
    (hs : m.exec a fa op = some { m with frames := F.modify a (.goto pc), cells := C })
    (hF : Alike m.frames F) (hC : ∀ s, (∀ f ∈ fs, f.state ≠ s) → C.get s = m.cells.get s)
    (hfs : ∀ f ∈ fs, fa.pc.current = some f) :
    ∃ fa', fa'.pc = pc ∧
      On slot out { m with frames := F.modify a (.goto pc), cells := C } a S fa' fr w ∧
      Ran slot out m { m with frames := F.modify a (.goto pc), cells := C } a ∧
      Quick m { m with frames := F.modify a (.goto pc), cells := C } a fs := by
  obtain ⟨fa₁, ha₁, hseen⟩ := seenAt_some (hF.seen a) h.frame
  obtain ⟨hst, hheld, hprom, -⟩ := seen_eq hseen
  have hq : Quick m { m with frames := F.modify a (.goto pc), cells := C } a fs := by
    refine ⟨fun b hba => ?_, hF.next, hC, rfl, rfl, rfl⟩
    exact (seenAt_congr (Heap.get_modify_ne hba)).trans (hF.seen b)
  obtain ⟨hon, hran⟩ := h.quick hs hq hfs h.live.aborted h.stack (Heap.get_modify_self ha₁) hst
    hheld hprom
  exact ⟨_, rfl, hon, hran, hq⟩

/-- and what it does not touch -/
theorem On.still {m' : Coros T X} (h : On slot out m a S fa fr w) (hq : Quick m m' a [])
    (hf : f ∈ fa.futures) (hown : Owns slot out m f t) : Owns slot out m' f t :=
  hq.spares.owns h.inv h.frame nofun h.frame hf nofun hown

/-! ### `await_resume()` -/

/-- the process is aborted -/
theorem On.aborts {F : Heap Frame} (h : On slot out m a S fa fr w)
    (hs : m.exec a fa op = some { m with frames := F, aborted := true }) (hF : Alike m.frames F) :
    Runs slot out m a S (.aborted, w) := by
  have hq : Quick m { m with frames := F, aborted := true } a [] :=
    ⟨fun b _ => hF.seen b, hF.next, fun _ _ => rfl, rfl, rfl, rfl⟩
  exact ⟨_, h.ran hs rfl hq.spares nofun, .aborted rfl⟩

/-- the end of the full expression -/
theorem On.dropping (h : On slot out m a S fa fr w) (hpc : fa.pc = .dropping f)
    (hown : Owns slot out m f t) : ∃ m' fa', fa'.pc = .running ∧
      On slot out m' a S fa' fr (w.release t) ∧ Ran slot out m m' a := by
  have hcur : fa.pc.current = some f := by rw [hpc]; rfl
  have hf := mem_futures_current hcur
  obtain ⟨c, hl⟩ := look_of_valid (h.inv.tokens.valid a fa f h.frame hf)
  have hs : m.exec a fa none = some ((m.onFrame a (.goto .running)).release f) := by
    rw [exec_current hcur hl, hpc]
    rfl
  obtain ⟨m', h', hran⟩ := h.release (l:=fr) hf hown hs rfl rfl ⟨rfl, rfl, rfl⟩ h.locals.length
    fun i g u hi hu => by
      refine ⟨mem_futures_held (List.mem_of_getElem? hi), h.held i g u hi hu, fun he => ?_⟩
      exact h.inv.tokens.held_ne_current h.frame (List.mem_of_getElem? hi) hcur he.symm
  exact ⟨m', _, rfl, h', hran⟩

/-- a future whose result has been taken dies as before -/
theorem Owns.extracted {F : Heap Frame} {C : Heap (Cell T X)} {st st' : State T X}
    (h : Owns slot out m f t) (ht : t.state = some st) (hres : st'.hasResult = true)
    (hself : f.handle ≠ some a) (hF : ∀ b, b ≠ a → F.get b = m.frames.get b)
    (hC : ∀ c, m.cells.get f.state = some c → ∃ c', C.get f.state = some c' ∧ c'.mem.st = st') :
    ∃ t', Reads slot out F C f.handle (some f.state) t' ∧ w.release t' = w.release t := by
  obtain ⟨s, o⟩ := f
  unfold Owns at h
  generalize hx : some s = x at h
  cases h with
  | promised hc =>
    cases hx
    obtain ⟨c', hc', rfl⟩ := hC _ hc
    exact ⟨_, .promised hc' (Or.inl hres), rfl⟩
  | ready hb hpc hst hc =>
    cases hx
    obtain ⟨c', hc', rfl⟩ := hC _ hc
    exact ⟨_, .ready ((hF _ fun he => hself (congrArg some he)).trans hb) hpc hst hc', rfl⟩
  | last => cases ht
  | outer => cases ht

/-- `take_value()` -/
theorem On.extracting {st : State T X} {R : Except X T → Result T X × World T X}
    (h : On slot out m a S fa fr w) (hpc : fa.pc = .extracting f) (hown : Owns slot out m f t)
    (ht : t.state = some st) (hres : st.hasResult = true)
    (hk : ∀ r m' fa', fa'.pc = .running → On slot out m' a S fa' fr (w.release t) →
      Runs slot out m' a S (R r)) :
    Runs slot out m a S (match st.takeValue.map fun r => .ok r.1 with
      | none => (.aborted, w)
      | some r => R r) := by
  have hcur : fa.pc.current = some f := by rw [hpc]; rfl
  have hf := mem_futures_current hcur
  obtain ⟨c, hl⟩ := look_of_valid (h.inv.tokens.valid a fa f h.frame hf)
  obtain ⟨c', hc', rfl⟩ := hown.cell ht
  have hc : m.cells.get f.state = some c := look_some hl
  rw [hc] at hc'
  cases hc'
  have hstep := exec_current (a:=a) hcur hl
  rw [hpc] at hstep
  unfold awaiting at hstep
  dsimp only at hstep
  cases htake : c.mem.st.takeValue with
  | none =>
    rw [htake] at hstep
    exact h.aborts hstep .refl
  | some p =>
    rw [htake] at hstep
    obtain ⟨fa₁, hpc₁, h₁, hran₁, -⟩ := h.goto [f] hstep .refl
      (fun s hs => Heap.get_modify_ne fun he => hs f List.mem_cons_self he.symm)
      fun g hg => List.mem_singleton.mp hg ▸ hcur
    have hres' : p.2.hasResult = true := by
      obtain ⟨v, -, rfl⟩ := Option.map_eq_some_iff.mp htake
      show (c.mem.st.flags ||| consumed).has resultSet = true
      rw [Word.has_or, show c.mem.st.flags.has resultSet = true from hres]
      rfl
    obtain ⟨t', hown', hrel⟩ := hown.extracted (w:=w) ht hres' (h.inv.not_self h.frame hf)
      (fun b hba => Heap.get_modify_ne hba)
      fun c' hc' => ⟨c'.onMem (·.access fun _ => p.2), Heap.get_modify_self hc', rfl⟩
    obtain ⟨m₂, fa₂, hpc₂, h₂, hran₂⟩ := h₁.dropping hpc₁ hown'
    rw [hrel] at h₂
    exact (hran₁.trans hran₂).runs (hk _ m₂ fa₂ hpc₂ h₂)

/-- **`await_resume()`**, and the future dies. -/
theorem On.resuming {st : State T X} {R : Except X T → Result T X × World T X}
    (h : On slot out m a S fa fr w) (hpc : fa.pc = .resuming f) (hown : Owns slot out m f t)
    (ht : t.state = some st) (hres : st.hasResult = true)
    (hk : ∀ r m' fa', fa'.pc = .running → On slot out m' a S fa' fr (w.release t) →
      Runs slot out m' a S (R r)) :
    Runs slot out m a S (match st.awaitResume with
      | none => (.aborted, w)
      | some r => R r) := by
  have hcur : fa.pc.current = some f := by rw [hpc]; rfl
  have hf := mem_futures_current hcur
  obtain ⟨c, hl⟩ := look_of_valid (h.inv.tokens.valid a fa f h.frame hf)
  obtain ⟨c', hc', rfl⟩ := hown.cell ht
  have hc : m.cells.get f.state = some c := look_some hl
  rw [hc] at hc'
  cases hc'
  have hstep := exec_current (a:=a) hcur hl
  rw [hpc] at hstep
  unfold awaiting at hstep
  dsimp only at hstep
  have halike : Alike m.frames (clearAwaitedChain m.frames a) := alike_setAwaited _ _
  unfold State.awaitResume
  cases hre : c.mem.st.rethrowIfException with
  | some ep =>
    rw [hre] at hstep
    obtain ⟨fa₁, hpc₁, h₁, hran₁, hq⟩ := h.goto [] hstep halike (fun _ _ => rfl) nofun
    obtain ⟨m₂, fa₂, hpc₂, h₂, hran₂⟩ := h₁.dropping hpc₁ (h.still hq hf hown)
    exact (hran₁.trans hran₂).runs (hk _ m₂ fa₂ hpc₂ h₂)
  | none =>
    rw [hre] at hstep
    dsimp only at hstep ⊢
    by_cases herr : c.mem.st.hasError = true
    · rw [if_pos herr] at hstep ⊢
      exact h.aborts hstep halike
    · rw [if_neg herr] at hstep ⊢
      obtain ⟨fa₁, hpc₁, h₁, hran₁, hq⟩ := h.goto [] hstep halike (fun _ _ => rfl) nofun
      exact hran₁.runs (h₁.extracting hpc₁ (h.still hq hf hown) ht hres hk)

/-! ### `await_suspend()` -/

/-- the future of `a` knows `a` -/
theorem Owns.registered {k : Frame → Frame} (h : On slot out m a S fa fr w)
    (hf : f ∈ fa.futures) (hown : Owns slot out m f t) (hsp : Spares m { m with
      frames := m.frames.modify a k
      cells := m.cells.modify f.state (.onMem (·.access ({ · with continuation := some a }))) }
      a [f]) :
    Owns slot out { m with
      frames := m.frames.modify a k
      cells := m.cells.modify f.state (.onMem (·.access ({ · with continuation := some a }))) }
      f (t.register a) := by
  have hself := h.inv.not_self h.frame hf
  -- what the coroutine below holds is not `f`
  have hother : ∀ {b fb g u}, f.handle = some b → m.frames.get b = some fb → g ∈ fb.futures →
      Owns slot out m g u → Owns slot out { m with
        frames := m.frames.modify a k
        cells := m.cells.modify f.state (.onMem (·.access ({ · with continuation := some a }))) }
        g u := by
    intro b fb g u hfb hb hg hu
    refine hsp.owns h.inv h.frame (fun g hg => List.mem_singleton.mp hg ▸ hf) hb hg ?_ hu
    intro e he hes
    rw [List.mem_singleton.mp he] at hes
    rw [h.inv.tokens.unique a fa f b fb g h.frame hb hf hg hes] at hself
    exact hself hfb
  have hframe : ∀ {b fb}, f.handle = some b → m.frames.get b = some fb →
      (m.frames.modify a k).get b = some fb := fun hfb hb =>
    (Heap.get_modify_ne fun he => hself (hfb.trans (congrArg some he))).trans hb
  obtain ⟨s, o⟩ := f
  unfold Owns at hown
  generalize hx : some s = x at hown
  cases hown with
  | promised hc hcase =>
    cases hx
    exact .promised (c:=.onMem (·.access ({ · with continuation := some a })) _)
      (Heap.get_modify_self hc) hcase
  | ready hb hpc hst hc =>
    cases hx
    exact .ready (c:=.onMem (·.access ({ · with continuation := some a })) _) (hframe rfl hb) hpc
      hst (Heap.get_modify_self hc)
  | last hb hpc hloc hheld hg hr =>
    unfold Owns
    dsimp only
    rw [hx]
    refine .last (hframe rfl hb) hpc (hloc.registered hx.symm) (fun i g u hi hu => ?_) ?_ hr
    · exact hother rfl hb (mem_futures_held (List.mem_of_getElem? hi)) (hheld i g u hi hu)
    · exact hother rfl hb (mem_futures_current (by rw [hpc]; rfl)) hg
  | outer hb hpc hloc hheld hg =>
    unfold Owns
    dsimp only
    rw [hx]
    refine .outer (hframe rfl hb) hpc (hloc.registered hx.symm) (fun i g u hi hu => ?_) ?_
    · exact hother rfl hb (mem_futures_held (List.mem_of_getElem? hi)) (hheld i g u hi hu)
    · exact hother rfl hb (mem_futures_current (by rw [hpc]; rfl)) hg

/-- the compare-exchange of `await_suspend` -/
theorem On.registering (h : On slot out m a S fa fr w) (hpc : fa.pc = .suspending f)
    (hown : Owns slot out m f t) : ∃ m' fa', fa'.pc = .rechecking f ∧
      On slot out m' a S fa' fr w ∧ Ran slot out m m' a ∧ Owns slot out m' f (t.register a) := by
  have hcur : fa.pc.current = some f := by rw [hpc]; rfl
  have hf := mem_futures_current hcur
  obtain ⟨c, hl⟩ := look_of_valid (h.inv.tokens.valid a fa f h.frame hf)
  obtain ⟨hnone, -⟩ := await_suspend_ok h.inv h.frame hpc hl
  have hstep := exec_current (a:=a) hcur hl
  rw [hpc] at hstep
  unfold awaiting at hstep
  dsimp only at hstep
  rw [hnone] at hstep
  obtain ⟨fa₁, hpc₁, h₁, hran₁, hq⟩ := h.goto [f] hstep .refl
    (fun s hs => Heap.get_modify_ne fun he => hs f List.mem_cons_self he.symm)
    fun g hg => List.mem_singleton.mp hg ▸ hcur
  exact ⟨_, fa₁, hpc₁, h₁, hran₁, hown.registered h hf hq.spares⟩

/-- the second look of `await_suspend`: the coroutine is suspended -/
theorem On.rechecking {k : Except X T → Body T X} (h : On slot out m a S fa fr w)
    (hpc : fa.pc = .rechecking f) (hown : Owns slot out m f t) (hres : t.hasResult = false) :
    Runs slot out m a S (t.awaitedBy ⟨fr, k⟩, w) := by
  have hcur : fa.pc.current = some f := by rw [hpc]; rfl
  have hf := mem_futures_current hcur
  obtain ⟨c, hl⟩ := look_of_valid (h.inv.tokens.valid a fa f h.frame hf)
  have hnone : c.mem.st.hasResult = false :=
    (hown.result h.inv h.frame hf (look_some hl)).trans hres
  have hstep := exec_current (a:=a) hcur hl
  rw [hpc] at hstep
  unfold awaiting at hstep
  dsimp only at hstep
  rw [hnone, if_neg Bool.false_ne_true] at hstep
  have hq : Quick m (m.onFrame a (.goto (.suspended f))).pop a [] :=
    ⟨fun b hba => seenAt_congr (Heap.get_modify_ne hba), rfl, fun _ _ => rfl, rfl, rfl, rfl⟩
  have ha' : (m.frames.modify a (.goto (.suspended f))).get a = some (fa.goto (.suspended f)) :=
    Heap.get_modify_self h.frame
  have hlive := h.live.of_fine (h.live.step_op h.stack h.frame hstep).2 h.live.aborted
  have hS : m.stack.tail = S := by
    rw [h.stack]
    rfl
  have hheld : ReadsAll slot out (m.frames.modify a (.goto (.suspended f))) m.cells
      (fa.goto (.suspended f)) fr := h.reads hq.spares nofun fun i g u hi hu =>
    Or.inl ⟨mem_futures_held (List.mem_of_getElem? hi), h.held i g u hi hu, nofun⟩
  have hloc : Local slot m.cells a (fa.goto (.suspended f)) fr := h.locals.goto _
  have hw := hq.rep h.frame ha' rfl h.world
  refine ⟨_, h.ran hstep rfl hq.spares nofun, ?_⟩
  have hown' := h.still hq hf hown
  cases t with
  | ready => exact .undefined
  | waiting os l p => exact .suspended hlive hS (.outer ha' rfl hloc hheld hown') hw
  | promised st => exact .suspended hlive hS (.last ha' rfl hloc hheld hown' hres) hw

/-- **`await_suspend()`** of a future without a result. -/
theorem On.suspending {k : Except X T → Body T X} (h : On slot out m a S fa fr w)
    (hpc : fa.pc = .suspending f) (hown : Owns slot out m f t) (hres : t.hasResult = false) :
    Runs slot out m a S ((t.register a).awaitedBy ⟨fr, k⟩, w) := by
  obtain ⟨m₁, fa₁, hpc₁, h₁, hran₁, hown₁⟩ := h.registering hpc hown
  exact hran₁.runs (h₁.rechecking hpc₁ hown₁ ((t.hasResult_register a).trans hres))

end
end Coros
end ActorZeta
