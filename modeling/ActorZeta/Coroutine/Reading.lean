import ActorZeta.Coroutine.AwaitChain
import ActorZeta.Coroutine.Resumption

/-!
# Resumptions in the machine

What the futures and the suspended coroutines of the machine are as resumptions, and that it stays
so while another coroutine runs.

* `Frame.seen`, `Alike`   what of a frame a resumption tells: not the pointers of the mixin;
* `Local`, `Reads`        a frame with its locals, a future with everything it owns;
* `Reads.frame`           what is written elsewhere does not matter;
* `Reads.bottom`          the innermost coroutine of a chain, and the state it awaits;
* `Spares`, `Below`       what a step of the running coroutine leaves alone, and what a run of it
                          leaves to the coroutines outside of it.
-/

namespace ActorZeta
open StateFlags

/-- the state, the futures, the promises and the place of a coroutine -/
def Frame.seen (fr : Frame) : Option Address × List Future × List Address × Place :=
  (fr.state, fr.held, fr.promises, fr.pc)

def seenAt (F : Heap Frame) (a : Handle) :
    Option (Option Address × List Future × List Address × Place) :=
  (F.get a).map Frame.seen

section
variable {F F' : Heap Frame} {a b : Handle} {fr fr' fb : Frame} {k : Frame → Frame}

theorem seen_eq (h : fr'.seen = fr.seen) :
    fr'.state = fr.state ∧ fr'.held = fr.held ∧ fr'.promises = fr.promises ∧ fr'.pc = fr.pc := by
  obtain ⟨h1, h⟩ := Prod.mk.inj h
  obtain ⟨h2, h⟩ := Prod.mk.inj h
  obtain ⟨h3, h4⟩ := Prod.mk.inj h
  exact ⟨h1, h2, h3, h4⟩

theorem seen_futures (h : fr'.seen = fr.seen) : fr'.futures = fr.futures := by
  obtain ⟨-, hheld, -, hpc⟩ := seen_eq h
  unfold Frame.futures
  rw [hheld, hpc]

theorem seenAt_some (h : seenAt F' b = seenAt F b) (hb : F.get b = some fb) :
    ∃ fb', F'.get b = some fb' ∧ fb'.seen = fb.seen := by
  unfold seenAt at h
  rw [hb] at h
  exact Option.map_eq_some_iff.mp h

theorem seenAt_congr (h : F'.get b = F.get b) : seenAt F' b = seenAt F b := by
  unfold seenAt
  rw [h]

theorem seenAt_modify (hk : ∀ fr, (k fr).seen = fr.seen) :
    seenAt (F.modify a k) b = seenAt F b := by
  by_cases hb : b = a
  · subst hb
    unfold seenAt
    show (if b = b then (F.get b).map k else F.get b).map Frame.seen = _
    rw [if_pos rfl, Option.map_map]
    congr 1
    funext fr
    exact hk fr
  · exact seenAt_congr (Heap.get_modify_ne hb)

/-! ## the mixin moves pointers only -/

/-- the frames tell the same -/
structure Alike (F F' : Heap Frame) : Prop where
  seen : ∀ b, seenAt F' b = seenAt F b
  next : F'.next = F.next

theorem Alike.refl : Alike F F := ⟨fun _ => rfl, rfl⟩

theorem Alike.trans {F'' : Heap Frame} (h : Alike F F') (h' : Alike F' F'') : Alike F F'' :=
  ⟨fun b => (h'.seen b).trans (h.seen b), h'.next.trans h.next⟩

theorem Alike.modify (hk : ∀ fr, (k fr).seen = fr.seen) : Alike F (F.modify a k) :=
  ⟨fun _ => seenAt_modify hk, rfl⟩

theorem alike_writeOuter (fr : Frame) : Alike F (fr.writeOuter F) := by
  unfold Frame.writeOuter
  dsimp only
  split <;> split
  · refine (Alike.modify fun _ => ?_).trans (.modify fun _ => ?_)
    · rfl
    · rfl
  · refine .modify fun _ => ?_
    rfl
  · refine .modify fun _ => ?_
    rfl
  · exact .refl

theorem alike_updatePropagatedOuter (n : Nat) : Alike F (updatePropagatedOuter n F a) := by
  induction n generalizing F a with
  | zero => exact .refl
  | succ n ih =>
    unfold updatePropagatedOuter
    split
    · exact .refl
    · split
      · exact (alike_writeOuter _).trans ih
      · exact alike_writeOuter _

theorem alike_setAwaited (p q : Option Address) : Alike F (setAwaited F a p q) := by
  refine (Alike.modify (a:=a) fun _ => ?_).trans (alike_updatePropagatedOuter _)
  rfl

theorem alike_propagateAwaitedState {T X : Type} (st : State T X) (f : Future) :
    Alike F (propagateAwaitedState st F a f) := by
  unfold propagateAwaitedState
  split
  · exact alike_setAwaited _ _
  · split
    · have hlink : ∀ c, Alike F (F.modify c (.linkTo a)) := fun c => .modify fun _ => rfl
      dsimp only
      split
      · split
        · exact (hlink _).trans (alike_setAwaited _ _)
        · exact (hlink _).trans (alike_setAwaited _ _)
      · exact hlink _
    · exact alike_setAwaited _ _

end

/-! ## reading the heaps -/

section
variable {T X : Type}

namespace Fut

/-- the state, of a future that is not that of a suspended coroutine -/
def state : Fut T X → Option (State T X)
  | .ready _ st | .promised st => some st
  | .waiting _ _ _ => none

def hasResult (t : Fut T X) : Bool := t.state.any State.hasResult

/-- `await_suspend` -/
def register (h : Handle) : Fut T X → Fut T X
  | .ready b st => .ready b (st.register h)
  | .promised st => .promised (st.register h)
  | .waiting os l p => .waiting (Level.registerAll h os l).1 (Level.registerAll h os l).2 p

theorem hasResult_register (t : Fut T X) (h : Handle) : (t.register h).hasResult = t.hasResult := by
  cases t <;> rfl

/-- a coroutine that is suspended on it -/
def awaitedBy (v : Level (Fut T X) T X) : Fut T X → Result T X
  | .ready _ _ => .undefined
  | .waiting os l p => .suspended (v :: os) l p
  | .promised st => .suspended [] v st

end Fut

/-- the state at an address -/
def stateIn (C : Heap (Cell T X)) (s : Address) : Option (State T X) :=
  (C.get s).map fun c => c.mem.st

/-- a state that a thread will settle with `o`, and has not begun to -/
def Cell.Unsettled (c : Cell T X) (o : Outcome T X) : Prop :=
  c.mem.st.Blank ∧ c.maker = .thread (.start .settle [o])

/-- the frame `fb` of `b` has these locals; the futures among them are counted here, and read by
`Reads` -/
structure Local (slot : Address) (C : Heap (Cell T X)) (b : Handle) (fb : Frame)
    (fr : Locals (Fut T X) T X) : Prop where
  id : fr.id = b
  state : fr.state = fb.state.bind (stateIn C)
  promises : fb.promises = if fr.promise then [slot] else []
  length : fb.held.length = fr.held.length

variable (slot : Address) (out : Address → Outcome T X) (F : Heap Frame) (C : Heap (Cell T X))

/-- a future by its handle and the address of its state, or a behavior, which has none: it owns what
the resumption says.  `out` is what the other threads settle the states with. -/
inductive Reads : Option Handle → Option Address → Fut T X → Prop
  | promised {s : Address} {c : Cell T X} : C.get s = some c →
      c.mem.st.hasResult = true ∨ c.Unsettled (out s) →
      Reads none (some s) (.promised c.mem.st)
  | ready {b : Handle} {fb : Frame} {s : Address} {c : Cell T X} : F.get b = some fb →
      fb.pc = .finished → fb.state = some s → C.get s = some c →
      Reads (some b) (some s) (.ready b c.mem.st)
  | last {b : Handle} {fb : Frame} {g : Future} {l : Level (Fut T X) T X} {p : State T X} :
      F.get b = some fb → fb.pc = .suspended g → Local slot C b fb l.locals →
      (∀ (i : Nat) (f : Future) (t : Fut T X), fb.held[i]? = some f → l.locals.held[i]? = some t →
        Reads f.handle (some f.state) t) →
      Reads g.handle (some g.state) (.promised p) → p.hasResult = false →
      Reads (some b) fb.state (.waiting [] l p)
  | outer {b : Handle} {fb : Frame} {g : Future} {o : Level (Fut T X) T X}
      {os : List (Level (Fut T X) T X)} {l : Level (Fut T X) T X} {p : State T X} :
      F.get b = some fb → fb.pc = .suspended g → Local slot C b fb o.locals →
      (∀ (i : Nat) (f : Future) (t : Fut T X), fb.held[i]? = some f → o.locals.held[i]? = some t →
        Reads f.handle (some f.state) t) →
      Reads g.handle (some g.state) (.waiting os l p) →
      Reads (some b) fb.state (.waiting (o :: os) l p)

/-- the futures among the locals of a coroutine -/
def ReadsAll (fb : Frame) (fr : Locals (Fut T X) T X) : Prop :=
  ∀ (i : Nat) (f : Future) (t : Fut T X), fb.held[i]? = some f → fr.held[i]? = some t →
    Reads slot out F C f.handle (some f.state) t

end

section
variable {T X : Type} {slot : Address} {out : Address → Outcome T X} {F F' : Heap Frame}
  {C C' : Heap (Cell T X)} {S : List Handle} {R hole : Option Handle} {a b : Handle}
  {fa fb fb' : Frame} {f g : Future} {t : Fut T X} {fr : Locals (Fut T X) T X}

/-- a future with a handle reads an idle frame, whose own state is that of the future -/
theorem Reads.idle {s : Option Address} (h : Reads slot out F C (some b) s t) :
    ∃ fb, F.get b = some fb ∧ fb.pc.active = false ∧ fb.state = s := by
  cases h with
  | ready hb hpc hs => exact ⟨_, hb, by rw [hpc]; rfl, hs⟩
  | last hb hpc => exact ⟨_, hb, by rw [hpc]; rfl, rfl⟩
  | outer hb hpc => exact ⟨_, hb, by rw [hpc]; rfl, rfl⟩

/-- the futures of the frame are those of the locals -/
theorem Local.held {i : Nat} (h : Local slot C b fb fr) (ht : fr.held[i]? = some t) :
    ∃ f, fb.held[i]? = some f := by
  obtain ⟨hlt, -⟩ := List.getElem?_eq_some_iff.mp ht
  exact ⟨_, List.getElem?_eq_getElem (h.length ▸ hlt)⟩

/-- the own state, where its cell is as it was -/
theorem Local.own_state (h : Local slot C b fb fr) (hst : fb'.state = fb.state)
    (hC : ∀ s, fb.state = some s → C'.get s = C.get s) :
    fr.state = fb'.state.bind (stateIn C') := by
  rw [h.state, hst]
  cases hs : fb.state with
  | none => rfl
  | some s =>
    show stateIn C s = stateIn C' s
    unfold stateIn
    rw [hC s hs]

theorem Local.congr (h : Local slot C b fb fr) (hseen : fb'.seen = fb.seen)
    (hC : ∀ s c, fb.state = some s → C.get s = some c → C'.get s = some c)
    (hown : ∀ s, fb.state = some s → ∃ c, C.get s = some c) : Local slot C' b fb' fr := by
  obtain ⟨hst, hheld, hprom, -⟩ := seen_eq hseen
  refine ⟨h.id, h.own_state hst fun s hs => ?_, hprom ▸ h.promises, hheld ▸ h.length⟩
  obtain ⟨c, hc⟩ := hown s hs
  rw [hc, hC s c hs hc]

theorem Local.goto (h : Local slot C b fb fr) (pc : Place) : Local slot C b (fb.goto pc) fr :=
  ⟨h.id, h.state, h.promises, h.length⟩

/-- the state of a coroutine is allocated -/
theorem Tokens.cell {s : Address} (hT : Tokens F C) (hb : F.get b = some fb)
    (hs : fb.state = some s) : ∃ c, C.get s = some c := by
  obtain ⟨c, hc, -⟩ := hT.own b fb s hb hs
  exact ⟨c, hc⟩

/-- two futures that a coroutine holds have different states -/
theorem Tokens.held_ne {i j : Nat} (hT : Tokens F C) (hb : F.get b = some fb)
    (hi : fb.held[i]? = some f) (hj : fb.held[j]? = some g) (hne : i ≠ j) : f.state ≠ g.state := by
  have hn : (fb.held.map Future.state).Nodup := by
    have hn := hT.nodup b fb hb
    unfold Frame.futures at hn
    rw [List.map_append] at hn
    exact (List.nodup_append.mp hn).1
  intro he
  have hi' : (fb.held.map Future.state)[i]? = some f.state := by
    rw [List.getElem?_map, hi]
    rfl
  have hj' : (fb.held.map Future.state)[j]? = some f.state := by
    rw [List.getElem?_map, hj, he]
    rfl
  exact hne ((List.getElem?_inj (List.getElem?_eq_some_iff.mp hi').1 hn).mp (hi'.trans hj'.symm))

/-- what is left of two lists when the same place of both is erased -/
theorem getElem?_eraseIdx_both {α β : Type} {xs : List α} {ys : List β} {i j : Nat} {x : α} {y : β}
    (hx : (xs.eraseIdx i)[j]? = some x) (hy : (ys.eraseIdx i)[j]? = some y) :
    ∃ k, i ≠ k ∧ xs[k]? = some x ∧ ys[k]? = some y := by
  rw [List.getElem?_eraseIdx] at hx hy
  by_cases hji : j < i
  · rw [if_pos hji] at hx hy
    exact ⟨j, Nat.ne_of_gt hji, hx, hy⟩
  · rw [if_neg hji] at hx hy
    exact ⟨j + 1, by omega, hx, hy⟩

/-- a level whose coroutine is awaited now -/
theorem Local.registered {s : Address} (h : Local slot C b fb fr) (hs : fb.state = some s) :
    Local slot (C.modify s (.onMem (·.access ({ · with continuation := some a })))) b fb
      (fr.register a) := by
  refine ⟨h.id, ?_, h.promises, h.length⟩
  show fr.state.map (State.register a) = _
  rw [h.state, hs]
  show (stateIn C s).map _ = stateIn _ s
  unfold stateIn
  rw [show (C.modify s _).get s = (C.get s).map _ from if_pos rfl, Option.map_map, Option.map_map]
  rfl

/-- **What is written elsewhere does not matter.**  `P` holds of the futures that are reached, and
their frames and states are as they were. -/
theorem Reads.frame {P : Option Handle → Option Address → Prop}
    (hF : ∀ b s fb, P (some b) s → F.get b = some fb → fb.pc.active = false → fb.state = s →
      ∃ fb', F'.get b = some fb' ∧ fb'.seen = fb.seen)
    (hC : ∀ o s c, P o (some s) → C.get s = some c → C'.get s = some c)
    (hown : ∀ b fb s, F.get b = some fb → fb.state = some s → ∃ c, C.get s = some c)
    (hP : ∀ b s fb g t, P (some b) s → F.get b = some fb → fb.pc.active = false → fb.state = s →
      g ∈ fb.futures → Reads slot out F C g.handle (some g.state) t → P g.handle (some g.state))
    {o : Option Handle} {s : Option Address} (h : Reads slot out F C o s t) (hPo : P o s) :
    Reads slot out F' C' o s t := by
  induction h with
  | promised hc hcase => exact .promised (hC _ _ _ hPo hc) hcase
  | @ready b fb s c hb hpc hs hc =>
    obtain ⟨fb', hb', hseen⟩ := hF b _ fb hPo hb (by rw [hpc]; rfl) hs
    obtain ⟨hst, -, -, hpc'⟩ := seen_eq hseen
    exact .ready hb' (hpc'.trans hpc) (hst.trans hs) (hC _ _ _ hPo hc)
  | @last b fb g l p hb hpc hloc hheld hg hr ihheld ihg =>
    have hidle : fb.pc.active = false := by rw [hpc]; rfl
    obtain ⟨fb', hb', hseen⟩ := hF b _ fb hPo hb hidle rfl
    obtain ⟨hst, hh, -, hpc'⟩ := seen_eq hseen
    rw [← hst]
    refine .last hb' (hpc'.trans hpc)
      (hloc.congr hseen (fun s c hs => ?_) fun s => hown b fb s hb) ?_
      (ihg (hP b _ fb g _ hPo hb hidle rfl (mem_futures_current (by rw [hpc]; rfl)) hg)) hr
    · rw [hs] at hPo
      exact hC _ s c hPo
    · intro i f t hi ht
      rw [hh] at hi
      exact ihheld i f t hi ht (hP b _ fb f t hPo hb hidle rfl
        (mem_futures_held (List.mem_of_getElem? hi)) (hheld i f t hi ht))
  | @outer b fb g o os l p hb hpc hloc hheld hg ihheld ihg =>
    have hidle : fb.pc.active = false := by rw [hpc]; rfl
    obtain ⟨fb', hb', hseen⟩ := hF b _ fb hPo hb hidle rfl
    obtain ⟨hst, hh, -, hpc'⟩ := seen_eq hseen
    rw [← hst]
    refine .outer hb' (hpc'.trans hpc)
      (hloc.congr hseen (fun s c hs => ?_) fun s => hown b fb s hb) ?_
      (ihg (hP b _ fb g _ hPo hb hidle rfl (mem_futures_current (by rw [hpc]; rfl)) hg))
    · rw [hs] at hPo
      exact hC _ s c hPo
    · intro i f t hi ht
      rw [hh] at hi
      exact ihheld i f t hi ht (hP b _ fb f t hPo hb hidle rfl
        (mem_futures_held (List.mem_of_getElem? hi)) (hheld i f t hi ht))

/-! ## a chain that is read -/

theorem Reads.of_promised (h : Reads slot out F C x o (.promised p)) :
    x = none ∧ ∃ s c, o = some s ∧ C.get s = some c ∧ c.mem.st = p ∧
      (p.hasResult = true ∨ c.Unsettled (out s)) := by
  cases h with
  | promised hc hcase => exact ⟨rfl, _, _, rfl, hc, rfl, hcase⟩

/-- a chain that is read ends in a state that nobody has begun to settle -/
theorem Reads.bottom (h : Reads slot out F C x o t) : ∀ (a : Handle)
    (os : List (Level (Fut T X) T X)) (l : Level (Fut T X) T X) (p : State T X), x = some a →
    t = .waiting os l p → ∃ d fd s c, Awaits F a d ∧ F.get d = some fd ∧
      fd.pc = .suspended ⟨s, none⟩ ∧ C.get s = some c ∧ c.mem.st = p ∧ c.Unsettled (out s) := by
  induction h with
  | promised => intro a os l p hx; cases hx
  | ready => intro a os l p _ ht; cases ht
  | @last b fb g l p hb hpc _ _ hg hno _ _ =>
    intro a os l' p' hx ht
    cases hx
    cases ht
    obtain ⟨hh, s, c, hs, hc, hst, hcase⟩ := hg.of_promised
    cases hs
    refine ⟨b, fb, g.state, c, .refl b, hb, ?_, hc, hst, hcase.resolve_left fun hres => ?_⟩
    · rw [hpc, ← hh]
    · rw [hno] at hres
      cases hres
  | @outer b fb g o os l p hb hpc _ _ hg _ ihg =>
    intro a os' l' p' hx ht
    cases hx
    cases ht
    obtain ⟨e, he⟩ : ∃ e, g.handle = some e := by
      generalize g.handle = x, some g.state = y at hg
      cases hg with
      | last => exact ⟨_, rfl⟩
      | outer => exact ⟨_, rfl⟩
    obtain ⟨d, fd, s, c, hw, hd⟩ := ihg e os l p he rfl
    exact ⟨d, fd, s, c, .step hb hpc he hw, hd⟩

/-- a chain has one end -/
theorem awaits_end {s t : Address} (h : Awaits F a b) (h' : Awaits F a d) (hb : F.get b = some fb)
    (hd : F.get d = some fd) (hpb : fb.pc = .suspended ⟨s, none⟩)
    (hpd : fd.pc = .suspended ⟨t, none⟩) : b = d := by
  induction h with
  | refl b =>
    cases h' with
    | refl => rfl
    | step hb' hpc hf =>
      rw [hb] at hb'
      cases hb'
      rw [hpb] at hpc
      cases hpc
      cases hf
  | step ha hpa hf _ ih =>
    cases h' with
    | refl =>
      rw [hd] at ha
      cases ha
      rw [hpd] at hpa
      cases hpa
      cases hf
    | step ha' hpa' hf' hw =>
      rw [ha] at ha'
      cases ha'
      rw [hpa] at hpa'
      cases hpa'
      rw [hf] at hf'
      cases hf'
      exact ih hw hb

end

/-! ## while another coroutine runs -/

namespace Coros
section
variable {T X : Type} {m m' m'' : Coros T X}

/-- a step of `a` that touches no future but those of `fs` -/
structure Spares (m m' : Coros T X) (a : Handle) (fs : List Future) : Prop where
  frames : ∀ b fb, m.frames.get b = some fb → b ≠ a → (∀ f ∈ fs, f.handle ≠ some b) →
    ∃ fb', m'.frames.get b = some fb' ∧ fb'.seen = fb.seen
  cells : ∀ s c, m.cells.get s = some c →
    (∀ fa, m.frames.get a = some fa → fa.state ≠ some s) → (∀ f ∈ fs, f.state ≠ s) →
    m'.cells.get s = some c

end

section
variable {T X : Type} (slot : Address) (out : Address → Outcome T X)

/-- a future of the machine -/
def Owns (m : Coros T X) (f : Future) (t : Fut T X) : Prop :=
  Reads slot out m.frames m.cells f.handle (some f.state) t

/-- what a run of `a` leaves to the coroutines outside of it, which are older: their frames, their
own states and their futures -/
def Below (m m' : Coros T X) (a : Handle) : Prop :=
  ∀ b < a, ∀ fb, m.frames.get b = some fb → fb.pc ≠ .finished →
    ∃ fb', m'.frames.get b = some fb' ∧ fb'.seen = fb.seen ∧
      (∀ s, fb.state = some s → m'.cells.get s = m.cells.get s) ∧
      ∀ g ∈ fb.futures, ∀ t, Owns slot out m g t → Owns slot out m' g t

end

section
variable {T X : Type} {slot : Address} {out : Address → Outcome T X} {m m' m'' : Coros T X}
  {a b : Handle} {S : List Handle} {fa fb : Frame} {f g : Future} {fs : List Future} {t : Fut T X}

theorem Below.refl : Below slot out m m a :=
  fun _ _ fb hb _ => ⟨fb, hb, rfl, fun _ _ => rfl, fun _ _ _ h => h⟩

theorem Below.trans (h : Below slot out m m' a) (h' : Below slot out m' m'' a) :
    Below slot out m m'' a := by
  intro b hba fb hb hn
  obtain ⟨fb', hb', hseen, hcell, hown⟩ := h b hba fb hb hn
  obtain ⟨hst, -, -, hpc⟩ := seen_eq hseen
  obtain ⟨fb'', hb'', hseen', hcell', hown'⟩ := h' b hba fb' hb' (hpc ▸ hn)
  refine ⟨fb'', hb'', hseen'.trans hseen, fun s hs => ?_, fun g hg t ht => ?_⟩
  · exact (hcell' s (hst.trans hs)).trans (hcell s hs)
  · exact hown' g (seen_futures hseen ▸ hg) t (hown g hg t ht)

/-- a coroutine that was started later has more below it -/
theorem Below.mono (h : Below slot out m m' b) (hab : a ≤ b) : Below slot out m m' a :=
  fun d hda => h d (Nat.lt_of_lt_of_le hda hab)

/-- two coroutines do not share a state of their own -/
theorem own_inj {s : Address} {F : Heap Frame} {C : Heap (Cell T X)} (hT : Tokens F C)
    (ha : F.get a = some fa) (hb : F.get b = some fb) (hsa : fa.state = some s)
    (hsb : fb.state = some s) : a = b := by
  obtain ⟨c, hc, hma⟩ := hT.own a fa s ha hsa
  obtain ⟨c', hc', hmb⟩ := hT.own b fb s hb hsb
  rw [hc] at hc'
  cases hc'
  rw [hma] at hmb
  cases hmb
  rfl

/-- the own state of the running coroutine is not that of a future that can be read -/
theorem Spares.not_own (hI : Inv m.frames m.cells (a :: S) m.currentBehavior none)
    (ha : m.frames.get a = some fa) (hb : m.frames.get b = some fb) (hg : g ∈ fb.futures)
    (ht : Owns slot out m g t) : fa.state ≠ some g.state := by
  intro hs
  cases hh : g.handle with
  | none =>
    obtain ⟨c, hc, -, -, hmk⟩ := hI.tokens.valid b fb g hb hg
    obtain ⟨c', hc', hma⟩ := hI.tokens.own a fa _ ha hs
    rw [hc] at hc'
    cases hc'
    cases hmk with
    | thread _ hp =>
      rw [hma] at hp
      cases hp
    | coroutine hsome =>
      rw [hh] at hsome
      cases hsome
  | some d =>
    unfold Owns at ht
    rw [hh] at ht
    obtain ⟨fd, hd, hidle, hsd⟩ := ht.idle
    obtain rfl := own_inj hI.tokens ha hd hs hsd
    rw [ha] at hd
    cases hd
    rw [hI.stacked.top_active ha] at hidle
    cases hidle

/-- the futures that a step does not touch stay what they are -/
theorem Spares.owns (h : Spares m m' a fs)
    (hI : Inv m.frames m.cells (a :: S) m.currentBehavior none)
    (ha : m.frames.get a = some fa) (hfs : ∀ f ∈ fs, f ∈ fa.futures)
    (hb : m.frames.get b = some fb) (hg : g ∈ fb.futures) (hgs : ∀ f ∈ fs, f.state ≠ g.state)
    (ht : Owns slot out m g t) : Owns slot out m' g t := by
  have hact := hI.stacked.top_active ha
  refine Reads.frame (P:=fun _ s => ∀ x, s = some x → fa.state ≠ some x ∧ ∀ f ∈ fs, f.state ≠ x)
    (fun d s fd hP hd hidle hs => ?_) (fun o s c hP hc => ?_) (fun d fd s hd hs => ?_)
    (fun d s fd g' t' hP hd hidle hs hg' ht' x hx => ?_) ht fun x hx => ?_
  · refine h.frames d fd hd ?_ fun f hf hfd => ?_
    · rintro rfl
      rw [ha] at hd
      cases hd
      rw [hact] at hidle
      cases hidle
    · obtain ⟨-, fd', hd', hsf⟩ := (hI.tokens.valid a fa f ha (hfs f hf)).handle hfd
      rw [hd] at hd'
      cases hd'
      exact (hP f.state (hs ▸ hsf)).2 f hf rfl
  · refine h.cells s c hc (fun fa' ha' => ?_) (hP s rfl).2
    rw [ha] at ha'
    cases ha'
    exact (hP s rfl).1
  · exact hI.tokens.cell hd hs
  · cases hx
    refine ⟨Spares.not_own hI ha hd hg' ht', fun f hf he => ?_⟩
    obtain rfl := hI.tokens.unique a fa f d fd g' ha hd (hfs f hf) hg' he
    rw [ha] at hd
    cases hd
    rw [hact] at hidle
    cases hidle
  · cases hx
    exact ⟨Spares.not_own hI ha hb hg ht, hgs⟩

/-- **A step of the running coroutine** leaves everything to the coroutines outside of it. -/
theorem Spares.below (h : Spares m m' a fs)
    (hI : Inv m.frames m.cells (a :: S) m.currentBehavior none)
    (ha : m.frames.get a = some fa) (hfs : ∀ f ∈ fs, f ∈ fa.futures) :
    Below slot out m m' a := by
  intro b hba fb hb hn
  have hne : b ≠ a := Nat.ne_of_lt hba
  have hhandle : ∀ f ∈ fs, f.handle ≠ some b := fun f hf hfb =>
    Nat.lt_asymm hba ((hI.tokens.valid a fa f ha (hfs f hf)).handle hfb).1
  obtain ⟨fb', hb', hseen⟩ := h.frames b fb hb hne hhandle
  refine ⟨fb', hb', hseen, fun s hs => ?_, fun g hg t ht => ?_⟩
  · obtain ⟨c, hc, hmk⟩ := hI.tokens.own b fb s hb hs
    rw [hc]
    refine h.cells s c hc (fun fa' ha' hs' => hne ?_) fun f hf he => ?_
    · exact own_inj hI.tokens hb ha' hs hs'
    · obtain ⟨c', hc', -, -, hm⟩ := hI.tokens.valid a fa f ha (hfs f hf)
      rw [he, hc] at hc'
      cases hc'
      cases hm with
      | thread _ hp =>
        rw [hmk] at hp
        cases hp
      | coroutine hsome hcor =>
        rw [hmk] at hcor
        cases hcor
        exact hhandle f hf hsome
  · refine h.owns hI ha hfs hb hg (fun f hf he => hne ?_) ht
    exact (hI.tokens.unique a fa f b fb g ha hb (hfs f hf) hg he).symm

end
end Coros
end ActorZeta
