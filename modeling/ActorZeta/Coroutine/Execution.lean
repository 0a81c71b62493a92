import ActorZeta.Coroutine.Simulation

/-!
# A body on the machine

`exec` runs a body to its first suspension or its end; the machine does the same, when the actor's
thread takes the operations of the body one after the other and a thread settles a promise-backed
state all at once before it is adopted ready.

* `Live.settles`           a thread settles a state, and nobody disturbs it;
* `Calling`                a coroutine that waits for the one it has called;
* `On.await` to `On.ret`   the operations of a body;
* `On.finishes`            final suspension of a coroutine that nobody awaits;
* `Simulated`              the machine runs a body as `exec` does; a lemma for each operation;
* `exec_simulated`         every body is.
-/

namespace ActorZeta
open StateFlags

namespace Coros
variable {T X : Type}

section
variable {slot : Address} {out : Address → Outcome T X} {m m' m'' : Coros T X} {a b : Handle}
  {S : List Handle} {fa fa' fb : Frame} {f : Future} {fs : List Future} {t : Fut T X}
  {fr l : Locals (Fut T X) T X} {w w' : World T X} {op : Option (Op T X)}

/-! ## operations of a body -/

/-- a held future moves into `owning_awaiter`, and `await_ready()` looks at it -/
theorem On.await {i : Nat} (h : On slot out m a S fa fr w) (hpc : fa.pc = .running)
    (hi : fa.held[i]? = some f) (ht : fr.held[i]? = some t) : ∃ m' fa',
      fa'.pc = (if t.hasResult then .resuming f else .suspending f) ∧
      On slot out m' a S fa' { fr with held := fr.held.eraseIdx i } w ∧ Ran slot out m m' a ∧
      Owns slot out m' f t := by
  have hf : f ∈ fa.futures := mem_futures_held (List.mem_of_getElem? hi)
  have hown : Owns slot out m f t := h.held i f t hi ht
  obtain ⟨c, hl⟩ := look_of_valid (h.inv.tokens.valid a fa f h.frame hf)
  have hs : m.exec a fa (some (.await i)) = some { m with
      frames := propagateAwaitedState c.mem.st (m.frames.modify a (.await i f)) a f } := by
    unfold exec
    rw [hpc]
    show (fa.held[i]?).map _ = _
    rw [hi]
    dsimp only [Option.map_some]
    rw [hl]
  have halike := alike_propagateAwaitedState (F:=m.frames.modify a (.await i f)) (a:=a) c.mem.st f
  obtain ⟨fa₁, ha₁, hseen⟩ := seenAt_some (halike.seen a) (Heap.get_modify_self h.frame)
  obtain ⟨hst, hheld, hprom, hpc₁⟩ := seen_eq hseen
  have hq : Quick m { m with
      frames := propagateAwaitedState c.mem.st (m.frames.modify a (.await i f)) a f } a [] :=
    ⟨fun b hba => (halike.seen b).trans (seenAt_congr (Heap.get_modify_ne hba)), halike.next,
      fun _ _ => rfl, rfl, rfl, rfl⟩
  have hstay : ∀ (j : Nat) (g : Future) (u : Fut T X), fa₁.held[j]? = some g →
      (fr.held.eraseIdx i)[j]? = some u → g ∈ fa.futures ∧ Owns slot out m g u := by
    intro j g u hj hu
    rw [hheld] at hj
    obtain ⟨k, -, hk, hu'⟩ := getElem?_eraseIdx_both hj hu
    exact ⟨mem_futures_held (List.mem_of_getElem? hk), h.held k g u hk hu'⟩
  have hloc : Local slot m.cells a fa₁ { fr with held := fr.held.eraseIdx i } := by
    refine ⟨h.locals.id, h.locals.state.trans (by rw [hst]; rfl), hprom.trans h.locals.promises, ?_⟩
    rw [hheld]
    show (fa.held.eraseIdx i).length = (fr.held.eraseIdx i).length
    rw [List.length_eraseIdx, List.length_eraseIdx, h.locals.length]
  obtain ⟨h₁, hran₁⟩ := h.move hs h.live.aborted h.stack rfl ha₁ hq.spares nofun hloc
    (fun j g u hj hu => Or.inl ⟨(hstay j g u hj hu).1, (hstay j g u hj hu).2, nofun⟩)
    (hq.rep h.frame ha₁ hprom h.world)
  have hcur : fa₁.pc.current = some f := by rw [hpc₁]; rfl
  have hown₁ := h.still hq hf hown
  have hres : c.mem.st.hasResult = t.hasResult := hown.result h.inv h.frame hf (look_some hl)
  have hs₁ := exec_current (a:=a) (m:={ m with
    frames := propagateAwaitedState c.mem.st (m.frames.modify a (.await i f)) a f }) hcur hl
  rw [hpc₁] at hs₁
  unfold awaiting at hs₁
  dsimp only [Frame.await] at hs₁
  rw [hres] at hs₁
  obtain ⟨fa₂, hpc₂, h₂, hran₂, hq₂⟩ := h₁.goto [] hs₁ .refl (fun _ _ => rfl) nofun
  exact ⟨_, fa₂, hpc₂, h₂, hran₁.trans hran₂, h₁.still hq₂ (mem_futures_current hcur) hown₁⟩

/-! ### a thread settles a state -/

/-- a producer that nobody disturbs settles the state in seven steps -/
theorem settles_alone {mem : Mem T X} (hb : mem.st.Blank) (o : Outcome T X) : ∃ mem' p',
    TS.run (fun (q : Mem T X × Producer T X) (_ : Unit) => q.2.step .settle q.1)
      (mem, .start .settle [o]) (List.replicate 7 ()) = some (mem', p') ∧
    mem'.st = (mem.st.setOutcome o).settle.2 := by
  have hempty : mem.st.flags = empty := congrArg State.flags hb
  have hresult : (((mem.st.write o).flags ||| o.flag) ||| promiseFinalizing).has resultSet
      = true := by
    rw [State.write_flags, hempty]
    cases o <;> simp [Outcome.flag]
  -- nobody has released the future
  have hreleased : (((mem.st.write o).flags ||| o.flag) ||| promiseFinalizing).has futureReleased
      = false := by
    rw [State.write_flags, hempty]
    cases o <;> simp [Outcome.flag]
  have hcas : (((mem.st.write o).flags ||| o.flag) ||| promiseFinalizing) ||| promiseReleased =
      ((((mem.st.write o).flags ||| o.flag) ||| promiseFinalizing) ||| promiseReleased)
        &&& ~~~futureReleased := by
    rw [State.write_flags, hempty]
    cases o <;> simp only [Outcome.flag] <;> decide
  have hflags : (((((mem.st.write o).flags ||| o.flag) ||| promiseFinalizing) ||| promiseReleased)
      &&& ~~~futureReleased) &&& ~~~promiseFinalizing = o.flag ||| promiseReleased := by
    rw [State.write_flags, hempty]
    cases o <;> simp only [Outcome.flag] <;> decide
  refine ⟨_, _, TS.run_cons_some.mpr ⟨_, rfl, TS.run_cons_some.mpr ⟨_, rfl,
    TS.run_cons_some.mpr ⟨_, rfl,
    TS.run_cons_some.mpr ⟨_, congrArg (fun p => some (_, p)) (if_pos hresult),
    TS.run_cons_some.mpr ⟨_, congrArg (fun p => some (_, p))
      (if_neg (Bool.eq_false_iff.mp hreleased)),
    TS.run_cons_some.mpr ⟨_, rfl, TS.run_cons_some.mpr ⟨_, if_pos hcas, rfl⟩⟩⟩⟩⟩⟩⟩, ?_⟩
  rw [settle_blank hb, ← hflags]
  rfl

/-- the same on the machine -/
theorem produces {s : Address} (as : List Unit) : ∀ {m : Coros T X} {mem mem' : Mem T X}
    {p p' : Producer T X}, m.Live → m.cells.get s = some ⟨mem, .thread p⟩ →
    TS.run (fun (q : Mem T X × Producer T X) (_ : Unit) => q.2.step .settle q.1) (mem, p) as
      = some (mem', p') → ∃ C, C.get s = some ⟨mem', .thread p'⟩ ∧
        (∀ t, t ≠ s → C.get t = m.cells.get t) ∧ Inner m { m with cells := C } ∧
        ({ m with cells := C } : Coros T X).Live := by
  induction as with
  | nil =>
    intro m mem mem' p p' h hc hrun
    cases hrun
    exact ⟨m.cells, hc, fun _ _ => rfl, .refl m, h⟩
  | cons _ as ih =>
    intro m mem mem' p p' h hc hrun
    obtain ⟨⟨mem₁, p₁⟩, hstep, hrun⟩ := TS.run_cons_some.mp hrun
    have hs : m.produce s = some { m with
        cells := m.cells.modify s fun _ => ⟨mem₁, .thread p₁⟩ } := by
      unfold produce
      rw [hc, Option.bind_some]
      dsimp only at hstep ⊢
      rw [hstep]
      rfl
    obtain ⟨hfine, -, -⟩ := produce_ok h.ok h.aborted hs
    obtain ⟨C, hC, hne, hin, hlive⟩ := ih (h.of_fine hfine h.aborted)
      (Heap.get_modify_self (f:=fun _ => ⟨mem₁, .thread p₁⟩) hc) hrun
    refine ⟨C, hC, fun t ht => (hne t ht).trans (Heap.get_modify_ne ht), ?_, hlive⟩
    refine ((TS.Reach.refl m).tail (a:=.produce s) (TS.restrict_some.mpr ⟨rfl, ?_⟩)).trans hin
    show (if m.aborted || m.undefined then none else m.produce s) = _
    rw [if_neg (by rw [h.aborted, h.undefined]; decide)]
    exact hs

/-- **A thread settles a state.** -/
theorem Live.settles {s : Address} {mem : Mem T X} {o : Outcome T X} (h : m.Live)
    (hc : m.cells.get s = some ⟨mem, .thread (.start .settle [o])⟩) (hb : mem.st.Blank) :
    ∃ C c p, C.get s = some c ∧ c.maker = .thread p ∧ c.mem.st = (mem.st.setOutcome o).settle.2 ∧
      (∀ t, t ≠ s → C.get t = m.cells.get t) ∧ Inner m { m with cells := C } ∧
      ({ m with cells := C } : Coros T X).Live := by
  obtain ⟨mem', p', hrun, hst⟩ := settles_alone hb o
  obtain ⟨C, hC, hne, hin, hlive⟩ := produces _ h hc hrun
  exact ⟨C, _, p', hC, rfl, hst, hne, hin, hlive⟩

/-! ### new futures -/

section
variable (slot : Address) (out : Address → Outcome T X)

/-- `a` holds `f`, and its locals do not show it yet -/
structure Calling (m : Coros T X) (a : Handle) (fa : Frame) (fr : Locals (Fut T X) T X)
    (f : Future) : Prop where
  frame : ∃ fa', m.frames.get a = some fa' ∧ fa'.seen = (fa.hold f).seen
  locals : Local slot m.cells a fa fr
  held : ReadsAll slot out m.frames m.cells fa fr

end

theorem On.calling (h : On slot out m a S fa fr w) (hsp : Spares m m' a [])
    (ha : m'.frames.get a = some (fa.hold f))
    (hC : ∀ s c, m.cells.get s = some c → m'.cells.get s = some c) :
    Calling slot out m' a fa fr f where
  frame := ⟨_, ha, rfl⟩
  locals := h.locals.congr rfl (fun s c _ hc => hC s c hc) fun _ => h.inv.tokens.cell h.frame
  held := h.reads hsp nofun fun _ _ _ hi ht =>
    Or.inl ⟨mem_futures_held (List.mem_of_getElem? hi), h.held _ _ _ hi ht, nofun⟩

/-- the coroutine that was started runs -/
theorem Calling.below (h : Calling slot out m a fa fr f) (hpc : fa.pc = .running)
    (hb : Below slot out m m' b) (hab : a < b) : Calling slot out m' a fa fr f := by
  obtain ⟨fa₁, ha₁, hseen⟩ := h.frame
  obtain ⟨hst, hheld, -, hpc₁⟩ := seen_eq hseen
  obtain ⟨fa₂, ha₂, hseen₂, hcell, hown⟩ := hb a hab fa₁ ha₁ (by
    rw [hpc₁]
    show fa.pc ≠ _
    rw [hpc]
    exact nofun)
  have hloc : Local slot m'.cells a fa fr := ⟨h.locals.id,
    h.locals.own_state rfl fun s hs => hcell s (hst.trans hs), h.locals.promises, h.locals.length⟩
  refine ⟨⟨fa₂, ha₂, hseen₂.trans hseen⟩, hloc,
    fun i g t hi ht => hown g (mem_futures_held ?_) t (h.held i g t hi ht)⟩
  rw [hheld]
  exact List.mem_append_left _ (List.mem_of_getElem? hi)

/-- the future is that of the coroutine that was started -/
theorem Calling.owns {o : Option Address} (h : Calling slot out m a fa fr f)
    (hI : Inv m.frames m.cells S m.currentBehavior none) (hfb : f.handle = some b)
    (hreads : Reads slot out m.frames m.cells (some b) o t) : Owns slot out m f t := by
  obtain ⟨fa₁, ha₁, hseen⟩ := h.frame
  have hmem : f ∈ fa₁.held := by
    rw [(seen_eq hseen).2.1]
    exact List.mem_append_right _ List.mem_cons_self
  exact owns_of_handle hI ha₁ (mem_futures_held hmem) hfb hreads

/-- and `a` goes on, with a future of it -/
theorem Calling.returns (h : Calling slot out m a fa fr f) (hpc : fa.pc = .running)
    (hlive : m.Live) (hS : m.stack = a :: S) (hown : Owns slot out m f t) (hw : Rep slot m w) :
    ∃ fa', fa'.pc = .running ∧
      On slot out m a S fa' { fr with held := fr.held ++ [t] } w := by
  obtain ⟨fa', ha', hseen⟩ := h.frame
  obtain ⟨hst, hheld, hprom, hpc'⟩ := seen_eq hseen
  refine ⟨fa', hpc'.trans hpc, hlive, hS, ha', ⟨h.locals.id, ?_, hprom.trans h.locals.promises, ?_⟩,
    fun i g u hi hu => ?_, hw⟩
  · exact h.locals.state.trans (by rw [hst]; rfl)
  · rw [hheld]
    show (fa.held ++ [f]).length = (fr.held ++ [t]).length
    rw [List.length_append, List.length_append, h.locals.length]
    rfl
  · rw [hheld] at hi
    have hi : (fa.held ++ [f])[i]? = some g := hi
    have hu : (fr.held ++ [t])[i]? = some u := hu
    by_cases hlt : i < fa.held.length
    · rw [List.getElem?_append_left hlt] at hi
      rw [List.getElem?_append_left (h.locals.length ▸ hlt)] at hu
      exact h.held i g u hi hu
    · rw [List.getElem?_append_right (Nat.le_of_not_lt hlt)] at hi
      rw [List.getElem?_append_right (h.locals.length ▸ Nat.le_of_not_lt hlt), ← h.locals.length]
        at hu
      cases hn : i - fa.held.length with
      | zero =>
        rw [hn] at hi hu
        cases hi
        cases hu
        exact hown
      | succ n =>
        rw [hn] at hi
        cases hi

/-- an operation of a body -/
theorem exec_running {o : Op T X} (hpc : fa.pc = .running) :
    m.exec a fa (some o) = m.body a fa o := by
  unfold exec
  rw [hpc]

/-- a method coroutine is called -/
theorem On.started (h : On slot out m a S fa fr w) (hpc : fa.pc = .running) :
    ∃ m' f b, a < b ∧ f.handle = some b ∧ Ran slot out m m' a ∧ Calling slot out m' a fa fr f ∧
      On slot out m' b (a :: S) (.fresh (some f.state)) ⟨w.next, some .fresh, [], false⟩
        { w with next := w.next + 1 } := by
  have hs : m.exec a fa (some .start) = some { m with
      cells := m.cells.alloc ⟨.fresh, .coroutine m.frames.next⟩
      frames := (m.frames.modify a (.hold ⟨m.cells.next, some m.frames.next⟩)).alloc
        (.fresh (some m.cells.next))
      stack := m.frames.next :: m.stack } := exec_running hpc
  have hC : ∀ s c, m.cells.get s = some c →
      (m.cells.alloc ⟨.fresh, .coroutine m.frames.next⟩).get s = some c :=
    fun s c hc => Heap.get_alloc_of hc
  have ha : ((m.frames.modify a (.hold ⟨m.cells.next, some m.frames.next⟩)).alloc
      (.fresh (some m.cells.next))).get a = some (fa.hold ⟨m.cells.next, some m.frames.next⟩) :=
    Heap.get_alloc_of (Heap.get_modify_self h.frame)
  have hb : ((m.frames.modify a (.hold ⟨m.cells.next, some m.frames.next⟩)).alloc
      (.fresh (some m.cells.next))).get m.frames.next = some (.fresh (some m.cells.next)) :=
    Heap.get_alloc_self
  have hsp : Spares m { m with
      cells := m.cells.alloc ⟨.fresh, .coroutine m.frames.next⟩
      frames := (m.frames.modify a (.hold ⟨m.cells.next, some m.frames.next⟩)).alloc
        (.fresh (some m.cells.next))
      stack := m.frames.next :: m.stack } a [] :=
    ⟨fun b fb hb hba _ => ⟨fb, Heap.get_alloc_of ((Heap.get_modify_ne hba).trans hb), rfl⟩,
      fun s c hc _ _ => hC s c hc⟩
  refine ⟨_, ⟨m.cells.next, some m.frames.next⟩, m.frames.next, Heap.lt_next h.frame, rfl,
    h.ran hs rfl hsp nofun, h.calling hsp ha hC,
    h.live.of_fine (h.live.step_op h.stack h.frame hs).2 h.live.aborted,
    congrArg (m.frames.next :: ·) h.stack, hb, ⟨h.world.next.symm, ?_, rfl, rfl⟩,
    fun i g t hi _ => (by cases hi), ⟨congrArg (· + 1) h.world.next, h.world.message,
      h.world.caller, fun d hd => ?_, fun ho d fd hd => ?_⟩⟩
  · show some State.fresh = stateIn _ m.cells.next
    unfold stateIn
    rw [Heap.get_alloc_self]
    rfl
  · obtain ⟨hlt, hnone⟩ := h.world.gone d hd
    have hne : d ≠ (m.frames.modify a (.hold ⟨m.cells.next, some m.frames.next⟩)).next :=
      Nat.ne_of_lt hlt
    exact ⟨Nat.lt_succ_of_lt hlt, (Heap.get_alloc_ne hne).trans (Heap.get_modify_none hnone)⟩
  · rcases Heap.get_alloc_some hd with ⟨-, rfl⟩ | hd
    · exact List.not_mem_nil
    · obtain ⟨fd₀, hd₀, rfl⟩ := Heap.get_modify_some hd
      have hprom := h.world.untaken ho d fd₀ hd₀
      split
      · exact hprom
      · exact hprom

/-- a promise-backed future is adopted, and a ready one has been settled before -/
theorem On.adopted (h : On slot out m a S fa fr w) (hpc : fa.pc = .running)
    (ready : Option (Outcome T X)) : ∃ m' fa', fa'.pc = .running ∧ Ran slot out m m' a ∧
      On slot out m' a S fa'
        { fr with held := fr.held ++ [.promised (ready.elim .fresh .settledWith)] } w := by
  have hs : m.exec a fa (some (.adopt (ready.getD (out m.cells.next)))) = some { m with
      cells := m.cells.alloc ⟨.fresh, .thread (.start .settle [ready.getD (out m.cells.next)])⟩
      frames := m.frames.modify a (.hold ⟨m.cells.next, none⟩) } := exec_running hpc
  obtain ⟨hin, hfine⟩ := h.live.step_op h.stack h.frame hs
  have hlive := h.live.of_fine hfine h.live.aborted
  have ha : (m.frames.modify a (.hold ⟨m.cells.next, none⟩)).get a
      = some (fa.hold ⟨m.cells.next, none⟩) := Heap.get_modify_self h.frame
  -- the state is new, whoever settles it
  have hgoes : ∀ (C : Heap (Cell T X)) (t : Fut T X), (∀ s, s ≠ m.cells.next → C.get s =
      (m.cells.alloc ⟨.fresh, .thread (.start .settle [ready.getD (out m.cells.next)])⟩).get s) →
      Inner m { m with frames := m.frames.modify a (.hold ⟨m.cells.next, none⟩), cells := C } →
      ({ m with frames := m.frames.modify a (.hold ⟨m.cells.next, none⟩), cells := C } :
        Coros T X).Live →
      Owns slot out { m with frames := m.frames.modify a (.hold ⟨m.cells.next, none⟩), cells := C }
        ⟨m.cells.next, none⟩ t →
      ∃ m' fa', fa'.pc = .running ∧ Ran slot out m m' a ∧
        On slot out m' a S fa' { fr with held := fr.held ++ [t] } w := by
    intro C t hC hin hlive hown
    have hold : ∀ s c, m.cells.get s = some c → C.get s = some c := fun s c hc =>
      (hC s (Heap.ne_next hc)).trans (Heap.get_alloc_of hc)
    have hq : Spares m { m with
        frames := m.frames.modify a (.hold ⟨m.cells.next, none⟩), cells := C } a [] :=
      ⟨fun b fb hb hba _ => ⟨fb, (Heap.get_modify_ne hba).trans hb, rfl⟩,
        fun s c hc _ _ => hold s c hc⟩
    have hw : Rep slot { m with
        frames := m.frames.modify a (.hold ⟨m.cells.next, none⟩), cells := C } w :=
      h.world.kept rfl (.modify h.frame rfl) rfl rfl
    obtain ⟨fa', hpc', h'⟩ := (h.calling hq ha hold).returns hpc hlive h.stack hown hw
    exact ⟨_, fa', hpc', ⟨hin, hq.below h.inv h.frame nofun, rfl, rfl⟩, h'⟩
  cases ready with
  | none =>
    exact hgoes _ _ (fun _ _ => rfl) hin hlive
      (.promised Heap.get_alloc_self (Or.inr ⟨blank_fresh, rfl⟩))
  | some o =>
    obtain ⟨C, c, p, hC, -, hst, hne, hin', hlive'⟩ := hlive.settles (o:=o) Heap.get_alloc_self
      blank_fresh
    have hres : c.mem.st.hasResult = true := by
      rw [hst]
      exact settledWith_hasResult o
    refine hgoes C _ hne (hin.trans hin') hlive' ?_
    show Owns slot out _ _ (.promised (State.settledWith o))
    rw [← show c.mem.st = State.settledWith o from hst]
    exact .promised hC (Or.inl hres)

/-- a future is dropped -/
theorem On.dropped {i : Nat} (h : On slot out m a S fa fr w) (hpc : fa.pc = .running)
    (hi : fa.held[i]? = some f) (ht : fr.held[i]? = some t) : ∃ m' fa', fa'.pc = .running ∧
      Ran slot out m m' a ∧
      On slot out m' a S fa' { fr with held := fr.held.eraseIdx i } (w.release t) := by
  have hs : m.exec a fa (some (.drop i)) = some ((m.onFrame a (.unhold i)).release f) := by
    refine (exec_running hpc).trans ?_
    unfold body
    dsimp only
    rw [hi]
    rfl
  have hlen : (fa.held.eraseIdx i).length = (fr.held.eraseIdx i).length := by
    rw [List.length_eraseIdx, List.length_eraseIdx, h.locals.length]
  obtain ⟨m', h', hran⟩ := h.release (k:=.unhold i) (l:={ fr with held := fr.held.eraseIdx i })
    (mem_futures_held (List.mem_of_getElem? hi)) (h.held i f t hi ht) hs rfl rfl ⟨rfl, rfl, rfl⟩
    hlen fun j g u hj hu => by
      obtain ⟨k, hki, hk, hu'⟩ := getElem?_eraseIdx_both hj hu
      exact ⟨mem_futures_held (List.mem_of_getElem? hk), h.held k g u hk hu',
        h.inv.tokens.held_ne h.frame hi hk hki⟩
  exact ⟨m', fa.unhold i, hpc, hran, h'⟩

/-- `get_result_promise()` and `transfer_ownership()` -/
theorem On.takes (h : On slot out m a S fa fr w) (hpc : fa.pc = .running) (ho : w.owned = true) :
    ∃ m' fa', fa'.pc = .running ∧ Ran slot out m m' a ∧
      On slot out m' a S fa' { fr with promise := true } { w with owned := false } := by
  have hmsg : m.currentMessage = some ⟨slot, true⟩ := by
    rcases h.world.message with hmsg | ⟨-, hno⟩
    · rw [hmsg, ho]
    · rw [ho] at hno
      cases hno
  have hprom : fa.promises = [] := by
    rw [h.locals.promises, h.untaken ho]
    rfl
  have hs : m.exec a fa (some .take) = some { m with
      frames := m.frames.modify a fun fr => { fr with promises := fr.promises ++ [slot] }
      currentMessage := some ⟨slot, false⟩ } := by
    refine (exec_running hpc).trans ?_
    unfold body
    dsimp only
    rw [hmsg]
  obtain ⟨h', hran⟩ := h.alone (l:={ fr with promise := true }) hs rfl rfl rfl rfl rfl rfl rfl
    ⟨rfl, rfl, rfl⟩ (by rw [hprom]; rfl) (Or.inl rfl) h.world.caller rfl rfl
    (v:={ w with owned := false }) nofun
  refine ⟨_, _, ?_, hran, h'⟩
  exact hpc

/-- `set_value` or `exception` of that promise -/
theorem On.settled (h : On slot out m a S fa fr w) (hpc : fa.pc = .running)
    (hp : fr.promise = true) (o : Outcome T X) : ∃ m' fa', fa'.pc = .running ∧
      Ran slot out m m' a ∧ On slot out m' a S fa' { fr with promise := false } (w.settle o) := by
  have hprom : fa.promises = [slot] := by
    rw [h.locals.promises, hp]
    rfl
  have hs : m.exec a fa (some (.settle 0 o)) = some { m with
      frames := m.frames.modify a fun fr => { fr with promises := fr.promises.eraseIdx 0 }
      slots := m.slots.modify slot fun st => (st.setOutcome o).settle.2 } := by
    refine (exec_running hpc).trans ?_
    unfold body
    dsimp only
    rw [hprom]
    rfl
  obtain ⟨m', h', hran⟩ := h.settles hs rfl rfl (by rw [hprom]; rfl)
  refine ⟨m', _, ?_, hran, h'⟩
  exact hpc

/-- `co_return` -/
theorem On.ret (h : On slot out m a S fa fr w) (hpc : fa.pc = .running) (o : Outcome T X) :
    ∃ m' fa', fa'.pc = .leaving ∧ Ran slot out m m' a ∧
      On slot out m' a S fa' { fr with state := fr.state.map (·.setOutcome o) } w := by
  have hs : m.exec a fa (some (.ret o)) = some { m with
      frames := m.frames.modify a (.goto .leaving), cells := m.returned fa o } := by
    refine (exec_running hpc).trans ?_
    unfold body returned
    dsimp only
    cases fa.state <;> rfl
  have hsp : Spares m { m with
      frames := m.frames.modify a (.goto .leaving), cells := m.returned fa o } a [] := by
    refine ⟨fun b fb hb hba _ => ⟨fb, (Heap.get_modify_ne hba).trans hb, rfl⟩,
      fun s c hc hne _ => ?_⟩
    show (m.returned fa o).get s = some c
    unfold returned
    cases hst : fa.state with
    | none => exact hc
    | some s' =>
      refine (Heap.get_modify_ne ?_).trans hc
      rintro rfl
      exact hne fa h.frame hst
  have hloc : Local slot (m.returned fa o) a (fa.goto .leaving)
      { fr with state := fr.state.map (·.setOutcome o) } := by
    refine ⟨h.locals.id, ?_, h.locals.promises, h.locals.length⟩
    show fr.state.map _ = fa.state.bind _
    rw [h.locals.state]
    unfold returned
    cases hst : fa.state with
    | none => rfl
    | some s =>
      obtain ⟨c, hc⟩ := h.inv.tokens.cell h.frame hst
      show (stateIn m.cells s).map _ = stateIn _ s
      unfold stateIn
      rw [hc, Heap.get_modify_self hc]
      rfl
  have hw : Rep slot { m with
      frames := m.frames.modify a (.goto .leaving), cells := m.returned fa o } w :=
    h.world.kept rfl (.modify h.frame rfl) rfl rfl
  obtain ⟨h', hran⟩ := h.move hs h.live.aborted h.stack rfl (Heap.get_modify_self h.frame) hsp nofun
    hloc (fun i g t hi ht => Or.inl ⟨mem_futures_held (List.mem_of_getElem? hi),
      h.held i g t hi ht, nofun⟩) hw
  exact ⟨_, _, rfl, hran, h'⟩

/-! ## final suspension -/

/-- the final awaiter of a method coroutine, which takes its continuation -/
theorem On.final {st st' : State T X} (h : On slot out m b S fb ⟨b, some st, [], false⟩ w)
    (hpc : fb.pc = .leaving)
    (hset : ({ st with continuation := none } : State T X).settle = (false, st')) :
    ∃ s c, fb.state = some s ∧ m.cells.get s = some c ∧ c.mem.st = st ∧
      m.exec b fb none = some (Coros.resumeAny { m with
        frames := m.frames.modify b (.goto .finished)
        cells := m.cells.modify s (.onMem fun _ => c.mem.takeContinuation.2.access fun _ => st')
        stack := S } st.continuation) := by
  have hstate := h.locals.state
  cases hs : fb.state with
  | none =>
    rw [hs] at hstate
    cases hstate
  | some s =>
    rw [hs] at hstate
    obtain ⟨c, hc, hst⟩ := Option.map_eq_some_iff.mp
      (show stateIn m.cells s = some st from hstate.symm)
    -- somebody owns the future, so the state is allocated
    obtain ⟨d, fd, f, hd, hf, hfb, -⟩ := h.inv.owner h.frame (by rw [hs]; exact nofun)
    have hv := h.inv.tokens.valid d fd f hd hf
    obtain ⟨-, fb', hfb', hs'⟩ := hv.handle hfb
    rw [h.frame] at hfb'
    cases hfb'
    rw [hs] at hs'
    cases hs'
    obtain ⟨c', hl⟩ := look_of_valid (m:=m) hv
    have hc' := look_some hl
    rw [hc] at hc'
    cases hc'
    have hprom : fb.promises = [] := h.locals.promises
    have hheld : fb.held = [] := List.eq_nil_of_length_eq_zero h.locals.length
    have hfin : c.mem.takeContinuation.2.finalize =
        (false, c.mem.takeContinuation.2.access fun _ => st') := by
      unfold Mem.finalize
      rw [show c.mem.takeContinuation.2.st = { st with continuation := none } by
        rw [← hst]; rfl, hset]
    refine ⟨_, c, rfl, hc, hst, ?_⟩
    unfold exec
    rw [hpc]
    dsimp only
    unfold leave
    rw [hprom, hheld]
    dsimp only
    unfold Coros.final
    rw [hs]
    dsimp only
    rw [hl]
    dsimp only
    rw [show c.mem.takeContinuation = (c.mem.st.continuation, c.mem.takeContinuation.2) from rfl]
    dsimp only
    rw [hfin]
    dsimp only
    rw [hst]
    show some (resumeAny { m with stack := m.stack.tail, frames := _, cells := _ } _) = _
    rw [h.stack]
    rfl

/-- the state of a future that is still held has no continuation: its coroutine gives control back
to whoever called it -/
theorem On.finishes {st st' : State T X} (h : On slot out m b (a :: S) fb ⟨b, some st, [], false⟩ w)
    (hpc : fb.pc = .leaving)
    (hset : ({ st with continuation := none } : State T X).settle = (false, st'))
    (hcall : Calling slot out m a fa fr f) (hrun : fa.pc = .running) (hab : a < b)
    (hfb : f.handle = some b) :
    ∃ m' fa', fa'.pc = .running ∧ Ran slot out m m' b ∧
      On slot out m' a S fa' { fr with held := fr.held ++ [.ready b st'] }
        { w with finished := w.finished ++ [(b, st')] } := by
  obtain ⟨s, c, hs, hc, hst, hstep⟩ := h.final hpc hset
  obtain ⟨fa₁, ha₁, hseen⟩ := hcall.frame
  have hmem : f ∈ fa₁.held := by
    rw [(seen_eq hseen).2.1]
    exact List.mem_append_right _ List.mem_cons_self
  obtain ⟨-, fb', hfb', hfs⟩ := (h.inv.tokens.valid a fa₁ f ha₁ (mem_futures_held hmem)).handle hfb
  rw [h.frame] at hfb'
  cases hfb'
  obtain rfl : f.state = s := Option.some.inj (hfs.symm.trans hs)
  have hcont : st.continuation = none := by
    have hcont := h.inv.places.held a fa₁ f ha₁ hmem
    unfold contOf at hcont
    rw [hc] at hcont
    rw [← hst]
    exact hcont
  rw [hcont] at hstep
  have hsp : Spares m { m with
      frames := m.frames.modify b (.goto .finished)
      cells := m.cells.modify f.state (.onMem fun _ => c.mem.takeContinuation.2.access fun _ => st')
      stack := a :: S } b [] := by
    refine ⟨fun d fd hd hdb _ => ⟨fd, (Heap.get_modify_ne hdb).trans hd, rfl⟩,
      fun s c hc hne _ => ?_⟩
    refine (Heap.get_modify_ne ?_).trans hc
    rintro rfl
    exact hne fb h.frame hs
  have hran := h.ran hstep rfl hsp nofun
  have hlive := h.live.of_fine (h.live.step_op h.stack h.frame hstep).2 h.live.aborted
  have hw : Rep slot { m with
      frames := m.frames.modify b (.goto .finished)
      cells := m.cells.modify f.state (.onMem fun _ => c.mem.takeContinuation.2.access fun _ => st')
      stack := a :: S } { w with finished := w.finished ++ [(b, st')] } := by
    refine Rep.noted (w:=w) ?_ _
    exact h.world.kept rfl (.modify h.frame rfl) rfl rfl
  have hown : Owns slot out { m with
      frames := m.frames.modify b (.goto .finished)
      cells := m.cells.modify f.state (.onMem fun _ => c.mem.takeContinuation.2.access fun _ => st')
      stack := a :: S } f (.ready b st') := by
    unfold Owns
    rw [hfb]
    exact .ready (c:=c.onMem fun _ => c.mem.takeContinuation.2.access fun _ => st')
      (Heap.get_modify_self h.frame) rfl hs (Heap.get_modify_self hc)
  obtain ⟨fa', hpc', h'⟩ := (hcall.below hrun hran.below hab).returns hrun hlive rfl hown hw
  exact ⟨_, fa', hpc', hran, h'⟩

/-- a coroutine that is done left a result -/
theorem Owns.made {st : State T X} (hown : Owns slot out m f (.ready b st))
    (hI : Inv m.frames m.cells (a :: S) m.currentBehavior none) (ha : m.frames.get a = some fa)
    (hf : f ∈ fa.futures) : st.hasResult = true := by
  have hb : f.handle = some b ∧ ∃ fb, m.frames.get b = some fb ∧ fb.pc = .finished := by
    obtain ⟨s, o⟩ := f
    unfold Owns at hown
    generalize some s = x at hown
    generalize ht : Fut.ready b st = t at hown
    cases hown with
    | ready hb hpc =>
      cases ht
      exact ⟨rfl, _, hb, hpc⟩
    | _ => cases ht
  obtain ⟨hfb, fb, hb, hpc⟩ := hb
  obtain ⟨c, hc, rfl⟩ := hown.cell rfl
  obtain ⟨c', hc', -, -, hmk⟩ := hI.tokens.valid a fa f ha hf
  rw [hc] at hc'
  cases hc'
  cases hmk with
  | thread hn =>
    rw [hfb] at hn
    cases hn
  | coroutine hsome hcor =>
    refine hI.tokens.result_of_made ha hf hc (fun d hd => ?_) hcor
    rw [hfb] at hd
    cases hd
    exact ⟨fb, hb, hpc⟩

section
variable (slot : Address) (out : Address → Outcome T X)

/-- from wherever a coroutine begins the body, the machine ends as `exec` says -/
def Simulated (body : Body T X) : Prop :=
  ∀ (m : Coros T X) (a : Handle) (S : List Handle) (fa : Frame) (fr : Locals (Fut T X) T X)
    (w : World T X), On slot out m a S fa fr w → fa.pc = .running →
    Runs slot out m a S (ActorZeta.exec body fr w)

end

theorem Simulated.coReturn (o : Outcome T X) : Simulated slot out (.coReturn o) := by
  intro m a S fa fr w h hpc
  obtain ⟨m₁, fa₁, hpc₁, hran₁, h₁⟩ := h.ret hpc o
  obtain ⟨m₂, fa₂, hpc₂, h₂, hran₂⟩ := leave_simulated h₁ hpc₁
  obtain rfl := h.locals.id
  exact ⟨m₂, hran₁.trans hran₂, .leaving h₂ hpc₂⟩

theorem Simulated.start {child k : Body T X} (hc : Simulated slot out child)
    (hk : Simulated slot out k) : Simulated slot out (.start child k) := by
  intro m a S fa fr w h hpc
  obtain ⟨m₁, f, b, hab, hfb, hran₁, hcall, h₁⟩ := h.started hpc
  obtain ⟨m₂, hran₂, hends⟩ := hc m₁ b (a :: S) _ _ _ h₁ rfl
  have hran := hran₁.trans (hran₂.mono (Nat.le_of_lt hab))
  have hcall₂ := hcall.below hpc hran₂.below hab
  rw [ActorZeta.exec]
  generalize ActorZeta.exec child ⟨w.next, some .fresh, [], false⟩
    { w with next := w.next + 1 } = R at hends ⊢
  cases hends with
  | suspended hlive hS hreads hw =>
    obtain ⟨fa', hpc', h'⟩ := hcall₂.returns hpc hlive hS
      (hcall₂.owns (hlive.inv hS) hfb hreads) hw
    exact hran.runs (hk _ _ _ _ _ _ h' hpc')
  | @leaving fb st w₂ h₂ hpc₂ =>
    cases st with
    | none => exact ⟨m₂, hran, .undefined⟩
    | some st =>
      unfold finalSuspend
      dsimp only
      rcases hset : ({ st with continuation := none } : State T X).settle with ⟨d, st'⟩
      cases d with
      | true => exact ⟨m₂, hran, .undefined⟩
      | false =>
        obtain ⟨m₃, fa₃, hpc₃, hran₃, h₃⟩ := h₂.finishes hpc₂ hset hcall₂ hpc hab hfb
        exact (hran.trans (hran₃.mono (Nat.le_of_lt hab))).runs (hk _ _ _ _ _ _ h₃ hpc₃)
  | aborted habort => exact ⟨m₂, hran, .aborted habort⟩
  | undefined => exact ⟨m₂, hran, .undefined⟩

theorem Simulated.adopt {k : Body T X} (ready : Option (Outcome T X)) (hk : Simulated slot out k) :
    Simulated slot out (.adopt ready k) := by
  intro m a S fa fr w h hpc
  obtain ⟨m₁, fa₁, hpc₁, hran₁, h₁⟩ := h.adopted hpc ready
  exact hran₁.runs (hk _ _ _ _ _ _ h₁ hpc₁)

/-- `await_ready()` asks for the result, and leads to `await_resume()` or to `await_suspend()` -/
theorem Simulated.await {k : Except X T → Body T X} (i : Nat)
    (hk : ∀ r, Simulated slot out (k r)) : Simulated slot out (.await i k) := by
  intro m a S fa fr w h hpc
  rw [ActorZeta.exec]
  cases ht : fr.held[i]? with
  | none => exact ⟨m, .refl, .undefined⟩
  | some t =>
    obtain ⟨f, hi⟩ := h.locals.held ht
    obtain ⟨m₁, fa₁, hpc₁, h₁, hran₁, hown₁⟩ := h.await hpc hi ht
    refine hran₁.runs ?_
    have hgo : ∀ r m' fa', fa'.pc = .running →
        On slot out m' a S fa' { fr with held := fr.held.eraseIdx i } (w.release t) →
        Runs slot out m' a S (ActorZeta.exec (k r) { fr with held := fr.held.eraseIdx i }
          (w.release t)) := fun r m' fa' hpc' h' => hk r m' a S fa' _ _ h' hpc'
    have hf : f ∈ fa₁.futures := by
      refine mem_futures_current ?_
      rw [hpc₁]
      split <;> rfl
    obtain rfl := h.locals.id
    cases t with
    | ready b st =>
      have hres : st.hasResult = true := hown₁.made h₁.inv h₁.frame hf
      rw [if_pos (show (Fut.ready b st : Fut T X).hasResult = true from hres)] at hpc₁
      exact h₁.resuming hpc₁ hown₁ rfl hres hgo
    | promised st =>
      dsimp only
      by_cases hres : st.hasResult = true
      · rw [if_pos hres]
        rw [if_pos (show (Fut.promised st : Fut T X).hasResult = true from hres)] at hpc₁
        exact h₁.resuming hpc₁ hown₁ rfl hres hgo
      · rw [if_neg hres]
        rw [if_neg (show ¬(Fut.promised st : Fut T X).hasResult = true from hres)] at hpc₁
        exact h₁.suspending hpc₁ hown₁ (Bool.eq_false_iff.mpr hres)
    | waiting os l p => exact h₁.suspending hpc₁ hown₁ rfl

theorem Simulated.drop {k : Body T X} (i : Nat) (hk : Simulated slot out k) :
    Simulated slot out (.drop i k) := by
  intro m a S fa fr w h hpc
  rw [ActorZeta.exec]
  cases ht : fr.held[i]? with
  | none => exact ⟨m, .refl, .undefined⟩
  | some t =>
    obtain ⟨f, hi⟩ := h.locals.held ht
    obtain ⟨m₁, fa₁, hpc₁, hran₁, h₁⟩ := h.dropped hpc hi ht
    exact hran₁.runs (hk _ _ _ _ _ _ h₁ hpc₁)

theorem Simulated.take {k : Body T X} (hk : Simulated slot out k) :
    Simulated slot out (.take k) := by
  intro m a S fa fr w h hpc
  rw [ActorZeta.exec]
  by_cases ho : w.owned = true
  · rw [if_pos ho]
    obtain ⟨m₁, fa₁, hpc₁, hran₁, h₁⟩ := h.takes hpc ho
    exact hran₁.runs (hk _ _ _ _ _ _ h₁ hpc₁)
  · rw [if_neg ho]
    exact ⟨m, .refl, .undefined⟩

theorem Simulated.settle {k : Body T X} (o : Outcome T X) (hk : Simulated slot out k) :
    Simulated slot out (.settle o k) := by
  intro m a S fa fr w h hpc
  rw [ActorZeta.exec]
  by_cases hp : fr.promise = true
  · rw [if_pos hp]
    obtain ⟨m₁, fa₁, hpc₁, hran₁, h₁⟩ := h.settled hpc hp o
    exact hran₁.runs (hk _ _ _ _ _ _ h₁ hpc₁)
  · rw [if_neg hp]
    exact ⟨m, .refl, .undefined⟩

/-- **A body, up to its first suspension or its end.** -/
theorem exec_simulated (body : Body T X) : Simulated slot out body := by
  induction body with
  | coReturn o => exact .coReturn o
  | start child k ihc ihk => exact .start ihc ihk
  | adopt ready k ih => exact .adopt ready ih
  | await i k ih => exact .await i ih
  | drop i k ih => exact .drop i ih
  | take k ih => exact .take ih
  | settle o k ih => exact .settle o ih

end
end Coros
end ActorZeta
