import ActorZeta.Coroutine.Execution

/-!
# The drain on the machine

`resume` is what the machine does from the drain on: the innermost coroutine goes on, and whoever
finishes transfers control to the coroutine that awaits it.

* `Transfer`           final suspension of a coroutine that is awaited;
* `Resumed`            a chain of coroutines whose innermost goes on;
* `resume_simulated`   it goes on, and so does whoever awaits it;
* `Woken`              the drain resumes the innermost coroutine of a suspended behavior.
-/

namespace ActorZeta
open StateFlags

namespace Coros
variable {T X : Type}

section
variable {slot : Address} {out : Address → Outcome T X} {m m' : Coros T X} {a b d : Handle}
  {S : List Handle} {fa fb fd : Frame} {f g : Future} {t : Fut T X} {fr : Locals (Fut T X) T X}
  {w : World T X} {s : Address} {c : Cell T X}

/-! ## symmetric transfer -/

/-- a suspended coroutine that awaits one that runs is not read as a future -/
theorem not_reads {o : Option Address} (ha : m.frames.get a = some fa) (hpa : fa.pc = .suspended g)
    (hg : g.handle = some b) (hb : m.frames.get b = some fb) (hact : fb.pc.active = true) :
    ¬ Reads slot out m.frames m.cells (some a) o t := by
  have hidle : ∀ {g' : Future} {t' : Fut T X}, fa.pc = .suspended g' →
      ¬ Reads slot out m.frames m.cells g'.handle (some g'.state) t' := by
    intro g' t' hpc h
    rw [hpa] at hpc
    cases hpc
    rw [hg] at h
    obtain ⟨fb', hb', hno, -⟩ := h.idle
    rw [hb] at hb'
    cases hb'
    rw [hact] at hno
    cases hno
  intro h
  cases h with
  | ready ha' hpc =>
    rw [ha] at ha'
    cases ha'
    rw [hpa] at hpc
    cases hpc
  | last ha' hpc _ _ hg' =>
    rw [ha] at ha'
    cases ha'
    exact hidle hpc hg'
  | outer ha' hpc _ _ hg' =>
    rw [ha] at ha'
    cases ha'
    exact hidle hpc hg'

/-- `b` is done, and `a` goes on that awaits it -/
structure Transfer (m m' : Coros T X) (b a : Handle) (s : Address) (g : Future) : Prop where
  frames : m'.frames = (m.frames.modify b (.goto .finished)).modify a (.goto (.resuming g))
  cells : ∀ t, t ≠ s → m'.cells.get t = m.cells.get t

theorem Transfer.frame (h : Transfer m m' b a s g) (hd : m.frames.get d = some fd) (hda : d ≠ a)
    (hdb : d ≠ b) : m'.frames.get d = some fd := by
  rw [h.frames, Heap.get_modify_ne hda, Heap.get_modify_ne hdb]
  exact hd

/-- what is read elsewhere is read as before -/
theorem Transfer.owns (h : Transfer m m' b a s g)
    (hI : Inv m.frames m.cells (b :: S) m.currentBehavior none)
    (hb : m.frames.get b = some fb) (hs : fb.state = some s) (ha : m.frames.get a = some fa)
    (hpa : fa.pc = .suspended g) (hg : g.handle = some b) (hd : m.frames.get d = some fd)
    (hf : f ∈ fd.futures) (hown : Owns slot out m f t) : Owns slot out m' f t := by
  have hact := hI.stacked.top_active hb
  have hout : ∀ {e : Handle} {fe : Frame} {f : Future} {t : Fut T X}, m.frames.get e = some fe →
      f ∈ fe.futures → Owns slot out m f t → f.handle ≠ some a ∧ some f.state ≠ some s := by
    intro e fe f t he hf hown
    refine ⟨fun hfa => ?_, fun hfs => Spares.not_own hI hb he hf hown (hs.trans hfs.symm)⟩
    unfold Owns at hown
    rw [hfa] at hown
    exact not_reads ha hpa hg hb hact hown
  refine Reads.frame (P:=fun o t => o ≠ some a ∧ t ≠ some s) (fun d u fd hP hd hidle _ => ?_)
    (fun o u c hP hc => ?_) (fun d fd u hd hu => ?_) (fun d u fd g' t' _ hd _ _ hg' ht' => ?_) hown
    (hout hd hf hown)
  · refine ⟨fd, h.frame hd (fun he => hP.1 (congrArg some he)) ?_, rfl⟩
    rintro rfl
    rw [hb] at hd
    cases hd
    rw [hact] at hidle
    cases hidle
  · exact (h.cells u fun he => hP.2 (congrArg some he)).trans hc
  · exact hI.tokens.cell hd hu
  · exact hout hd hg' ht'

/-- **Final suspension of an awaited coroutine**: the one that awaits it goes on. -/
theorem On.transfers {st st' : State T X} (h : On slot out m b S fb ⟨b, some st, [], false⟩ w)
    (hpc : fb.pc = .leaving)
    (hset : ({ st with continuation := none } : State T X).settle = (false, st'))
    (hcont : st.continuation = some a) (ha : m.frames.get a = some fa)
    (hpa : fa.pc = .suspended g) (hg : g.handle = some b) (hloc : Local slot m.cells a fa fr)
    (hheld : ReadsAll slot out m.frames m.cells fa fr) :
    ∃ m' fa', fa'.pc = .resuming g ∧ Ran slot out m m' a ∧
      On slot out m' a S fa' fr { w with finished := w.finished ++ [(b, st')] } ∧
      Owns slot out m' g (.ready b st') := by
  obtain ⟨s, c, hs, hc, -, hstep⟩ := h.final hpc hset
  have hgm : g ∈ fa.futures := mem_futures_current (by rw [hpa]; rfl)
  obtain ⟨hab, fb', hb', hgs⟩ := (h.inv.tokens.valid a fa g ha hgm).handle hg
  rw [h.frame] at hb'
  cases hb'
  obtain rfl : g.state = s := Option.some.inj (hgs.symm.trans hs)
  have hne : a ≠ b := Nat.ne_of_lt hab
  have ha' : (m.frames.modify b (.goto .finished)).get a = some fa :=
    (Heap.get_modify_ne hne).trans ha
  have hget := Heap.get_modify_self (f:=.goto (.resuming g)) ha'
  rw [hcont] at hstep
  unfold resumeAny Coros.resume at hstep
  dsimp only at hstep
  rw [ha'] at hstep
  dsimp only at hstep
  rw [hpa] at hstep
  obtain ⟨hin, hfine⟩ := h.live.step_op h.stack h.frame hstep
  have htr : Transfer m { m with
      frames := (m.frames.modify b (.goto .finished)).modify a (.goto (.resuming g))
      cells := m.cells.modify g.state (.onMem fun _ => c.mem.takeContinuation.2.access fun _ => st')
      stack := a :: S } b a g.state g := ⟨rfl, fun t ht => Heap.get_modify_ne ht⟩
  have howns : ∀ {d fd f t}, m.frames.get d = some fd → f ∈ fd.futures → Owns slot out m f t →
      Owns slot out _ f t := fun hd hf => htr.owns h.inv h.frame hs ha hpa hg hd hf
  have hown : ∀ d fd u, m.frames.get d = some fd → d ≠ b → fd.state = some u → u ≠ g.state := by
    rintro d fd u hd hdb hu rfl
    exact hdb (own_inj h.inv.tokens hd h.frame hu hs)
  refine ⟨_, _, rfl, ⟨hin, fun d hda fd hd _ => ?_, hfine.driver, rfl⟩,
    ⟨h.live.of_fine hfine h.live.aborted, rfl, hget, ?_, fun i f t hi ht => ?_, ?_⟩, ?_⟩
  · have hdb : d ≠ b := Nat.ne_of_lt (Nat.lt_trans hda hab)
    refine ⟨fd, htr.frame hd (Nat.ne_of_lt hda) hdb, rfl, fun u hu => ?_, fun g hg t ht => ?_⟩
    · exact htr.cells u (hown d fd u hd hdb hu)
    · exact howns hd hg ht
  · have hloc' := hloc.congr rfl (fun u c hu hc => (htr.cells u (hown a fa u ha hne hu)).trans hc)
      fun _ => h.inv.tokens.cell ha
    exact hloc'.goto _
  · exact howns ha (mem_futures_held (List.mem_of_getElem? hi)) (hheld i f t hi ht)
  · refine Rep.noted (w:=w) ?_ _
    exact h.world.kept rfl ((Older.modify h.frame rfl).trans (.modify ha' rfl)) rfl rfl
  · unfold Owns
    rw [hg]
    refine .ready (c:=c.onMem fun _ => c.mem.takeContinuation.2.access fun _ => st')
      ((Heap.get_modify_ne hne.symm).trans (Heap.get_modify_self h.frame)) rfl hs
      (Heap.get_modify_self hc)

end

/-! ## a chain that goes on -/

section
variable {slot : Address} {out : Address → Outcome T X} {m m' : Coros T X} {a b d : Handle}
  {S : List Handle} {fa fb fd : Frame} {f g : Future} {t : Fut T X} {fr : Locals (Fut T X) T X}
  {w : World T X} {p p' : State T X} {os : List (Level (Fut T X) T X)} {l : Level (Fut T X) T X}

section
variable (slot : Address) (out : Address → Outcome T X)

/-- the coroutines from `a` on are suspended, each on the next, and the innermost is about to go on
with the result `p` -/
inductive Resumed (m : Coros T X) (S : List Handle) (p : State T X) (w : World T X) : Handle →
    List (Level (Fut T X) T X) → Level (Fut T X) T X → Prop
  | last {a : Handle} {fa : Frame} {g : Future} {l : Level (Fut T X) T X} :
      On slot out m a S fa l.locals w → fa.pc = .resuming g → Owns slot out m g (.promised p) →
      Resumed m S p w a [] l
  | outer {a b : Handle} {fa : Frame} {g : Future} {o : Level (Fut T X) T X}
      {os : List (Level (Fut T X) T X)} {l : Level (Fut T X) T X} : m.frames.get a = some fa →
      fa.pc = .suspended g → g.handle = some b → a < b → Local slot m.cells a fa o.locals →
      ReadsAll slot out m.frames m.cells fa o.locals → Resumed m S p w b os l →
      Resumed m S p w a (o :: os) l

end

/-- the continuation does not matter to `await_resume()` -/
theorem awaitResume_taken (p : State T X) :
    ({ p with continuation := none } : State T X).awaitResume = p.awaitResume := by
  unfold State.awaitResume State.takeValue
  rw [show ({ p with continuation := none } : State T X).rethrowIfException =
    p.rethrowIfException from rfl]
  cases p.rethrowIfException with
  | some ep => rfl
  | none =>
    cases p.value with
    | none => rfl
    | some v => rfl

/-- what is read of a coroutine outside of a run -/
theorem Below.kept (h : Below slot out m m' b) (hab : a < b) (ha : m.frames.get a = some fa)
    (hpa : fa.pc = .suspended g) (hloc : Local slot m.cells a fa fr)
    (hheld : ReadsAll slot out m.frames m.cells fa fr) : ∃ fa', m'.frames.get a = some fa' ∧
      fa'.pc = .suspended g ∧ Local slot m'.cells a fa' fr ∧
      ReadsAll slot out m'.frames m'.cells fa' fr := by
  obtain ⟨fa', ha', hseen, hcell, hown⟩ := h a hab fa ha (by rw [hpa]; exact nofun)
  obtain ⟨hst, hh, hprom, hpc⟩ := seen_eq hseen
  refine ⟨fa', ha', hpc.trans hpa,
    ⟨hloc.id, hloc.own_state hst hcell, hprom.trans hloc.promises, ?_⟩, fun i f t hi ht => ?_⟩
  · rw [hh]
    exact hloc.length
  · rw [hh] at hi
    exact hown f (mem_futures_held (List.mem_of_getElem? hi)) t (hheld i f t hi ht)

/-- **The drain**: the innermost coroutine goes on, and whoever finishes resumes its
continuation. -/
theorem resume_simulated (h : Resumed slot out m S { p with continuation := none } w a os l)
    (hres : p.hasResult = true) : Runs slot out m a S (ActorZeta.resume l p w os) := by
  induction h with
  | @last a fa g l hon hpc hown =>
    show Runs slot out m a S (if p.continuation = some l.locals.id then _ else _)
    by_cases hcont : p.continuation = some l.locals.id
    · rw [if_pos hcont, ← awaitResume_taken]
      exact hon.resuming hpc hown rfl hres fun r m' fa' hpc' h' =>
        exec_simulated (l.k r) m' a S fa' _ _ h' hpc'
    · rw [if_neg hcont]
      exact ⟨m, .refl, .undefined⟩
  | @outer a b fa g o os l ha hpa hg hab hloc hheld _ ih =>
    obtain ⟨m₂, hran, hends⟩ := ih
    have hran₁ := hran.mono (Nat.le_of_lt hab)
    obtain ⟨fa₂, ha₂, hpa₂, hloc₂, hheld₂⟩ := hran.below.kept hab ha hpa hloc hheld
    have hgm : g ∈ fa₂.futures := mem_futures_current (by rw [hpa₂]; rfl)
    simp only [ActorZeta.resume]
    generalize ActorZeta.resume l p w os = R at hends ⊢
    cases hends with
    | suspended hlive hS hreads hw =>
      have hI := hlive.ok.inv hlive.aborted
      exact ⟨m₂, hran₁, .suspended hlive hS (.outer ha₂ hpa₂ hloc₂ hheld₂
        (owns_of_handle hI ha₂ hgm hg hreads)) hw⟩
    | @leaving fb st w₂ h₂ hpc₂ =>
      cases st with
      | none => exact ⟨m₂, hran₁, .undefined⟩
      | some st =>
        unfold finalSuspend
        dsimp only
        rcases hset : ({ st with continuation := none } : State T X).settle with ⟨d, st'⟩
        cases d with
        | true => exact ⟨m₂, hran₁, .undefined⟩
        | false =>
          show Runs slot out m a S (if st.continuation = some o.locals.id then _ else _)
          by_cases hcont : st.continuation = some o.locals.id
          · rw [if_pos hcont]
            obtain ⟨m₃, fa₃, hpc₃, hran₃, h₃, hown₃⟩ := h₂.transfers hpc₂ hset
              (hcont.trans (congrArg some hloc.id)) ha₂ hpa₂ hg hloc₂ hheld₂
            have hf₃ : g ∈ fa₃.futures := mem_futures_current (by rw [hpc₃]; rfl)
            exact (hran₁.trans hran₃).runs (h₃.resuming hpc₃ hown₃ rfl
              (hown₃.made h₃.inv h₃.frame hf₃) fun r m' fa' hpc' h' =>
                exec_simulated (o.k r) m' a S fa' _ _ h' hpc')
          · rw [if_neg hcont]
            exact ⟨m₂, hran₁, .undefined⟩
    | aborted habort => exact ⟨m₂, hran₁, .aborted habort⟩
    | undefined => exact ⟨m₂, hran₁, .undefined⟩

end

/-! ## the innermost coroutine is resumed -/

section
variable {slot : Address} {out : Address → Outcome T X} {m m' : Coros T X} {a b d r : Handle}
  {F : Heap Frame} {C : Heap (Cell T X)} {fa fb fd : Frame} {f g : Future} {t : Fut T X}
  {fr : Locals (Fut T X) T X} {w : World T X} {p : State T X} {os : List (Level (Fut T X) T X)}
  {l : Level (Fut T X) T X} {s : Address} {c : Cell T X} {x : Option Handle} {o : Option Address}

/-- `d`, which awaits the state `s`, goes on -/
structure Woken (m m' : Coros T X) (d : Handle) (s : Address) : Prop where
  inv : Inv m.frames m.cells [] m.currentBehavior none
  suspended : ∃ fd, m.frames.get d = some fd ∧ fd.pc = .suspended ⟨s, none⟩
  rooted : Rooted m.frames m.currentBehavior d
  frames : m'.frames = m.frames.modify d (.goto (.resuming ⟨s, none⟩))
  cells : ∀ t, t ≠ s → m'.cells.get t = m.cells.get t

/-- the state belongs to no coroutine -/
theorem Woken.own_ne (h : Woken m m' d s) {u : Address} (ha : m.frames.get a = some fa)
    (hu : fa.state = some u) : u ≠ s := by
  rintro rfl
  obtain ⟨fd, hd, hpd⟩ := h.suspended
  obtain ⟨c, hc, hmk⟩ := h.inv.tokens.own a fa u ha hu
  obtain ⟨c', hc', -, -, hm⟩ := h.inv.tokens.valid d fd ⟨u, none⟩ hd
    (mem_futures_current (by rw [hpd]; rfl))
  rw [hc] at hc'
  cases hc'
  cases hm with
  | thread _ hp =>
    rw [hmk] at hp
    cases hp
  | coroutine hsome => cases hsome

/-- what a coroutine holds is not in the chain of the behavior, nor what is awaited outside of it -/
theorem Woken.unrooted (h : Woken m m' d s) (ha : m.frames.get a = some fa) (hb : f.handle = some b)
    (hf : f ∈ fa.held ∨ fa.pc = .suspended f ∧ ¬ Rooted m.frames m.currentBehavior a) :
    ¬ Rooted m.frames m.currentBehavior b := by
  have hmem : f ∈ fa.futures := by
    rcases hf with hf | ⟨hpc, -⟩
    · exact mem_futures_held hf
    · exact mem_futures_current (by rw [hpc]; rfl)
  obtain ⟨-, fb, hfb, hst⟩ := (h.inv.tokens.valid a fa f ha hmem).handle hb
  intro hroot
  cases hroot with
  | behavior hR =>
    obtain ⟨fr, hr, hno, -⟩ := h.inv.stacked.behavior b hR
    rw [hfb] at hr
    cases hr
    rw [hno] at hst
    cases hst
  | @awaited _ c _ _ _ hb' ho _ _ _ hroot =>
    rw [hfb] at hb'
    cases hb'
    rcases hf with hf | ⟨hpc, hno⟩
    · rw [h.inv.outer_of_held ha hf hb hfb] at ho
      cases ho
    · obtain ⟨fb', hfb', -, ho', -⟩ := h.inv.suspended_on ha hpc hb
      rw [hfb] at hfb'
      cases hfb'
      rw [ho] at ho'
      cases ho'
      exact hno hroot

/-- and it is read as before -/
theorem Woken.owns (h : Woken m m' d s) (ha : m.frames.get a = some fa) (hf : f ∈ fa.held)
    (hown : Owns slot out m f t) : Owns slot out m' f t := by
  obtain ⟨fd, hd, hpd⟩ := h.suspended
  have hcur : fd.pc.current = some ⟨s, none⟩ := by rw [hpd]; rfl
  have hne : ∀ {e fe f}, m.frames.get e = some fe → f ∈ fe.futures → e = d ∧ f ∉ fe.held ∨
      f.state ≠ s := by
    intro e fe f he hf
    by_cases hs : f.state = s
    · obtain rfl := h.inv.tokens.unique e fe f d fd ⟨s, none⟩ he hd hf (mem_futures_current hcur) hs
      rw [hd] at he
      cases he
      exact Or.inl ⟨rfl, fun hheld => h.inv.tokens.held_ne_current hd hheld hcur hs⟩
    · exact Or.inr hs
  refine Reads.frame (P:=fun o u => (∀ y, o = some y → ¬ Rooted m.frames m.currentBehavior y) ∧
    u ≠ some s) (fun e u fe hP he _ _ => ?_) (fun o u c hP hc => ?_) (fun e fe u he hu => ?_)
    (fun e u fe g u' hP he hidle _ hg _ => ?_) hown ⟨fun y hy => h.unrooted ha hy (Or.inl hf), ?_⟩
  · have hed : e ≠ d := by
      rintro rfl
      exact hP.1 e rfl h.rooted
    refine ⟨fe, ?_, rfl⟩
    rw [h.frames]
    exact (Heap.get_modify_ne hed).trans he
  · exact (h.cells u fun hu => hP.2 (congrArg some hu)).trans hc
  · exact h.inv.tokens.cell he hu
  · refine ⟨fun y hy => h.unrooted he hy ?_, fun hgs => ?_⟩
    · rcases List.mem_append.mp hg with hg | hg
      · exact Or.inl hg
      · refine Or.inr ⟨?_, hP.1 e rfl⟩
        cases hpc : fe.pc with
        | suspended g' =>
          rw [hpc] at hg
          rw [List.mem_singleton.mp hg]
        | finished =>
          rw [hpc] at hg
          cases hg
        | _ => rw [hpc] at hidle; cases hidle
    · rcases hne he hg with ⟨rfl, -⟩ | hs
      · exact hP.1 e rfl h.rooted
      · exact hs (Option.some.inj hgs)
  · intro hfs
    rcases hne ha (mem_futures_held hf) with ⟨-, hno⟩ | hs
    · exact hno hf
    · exact hs (Option.some.inj hfs)

/-- the locals of a suspended coroutine -/
theorem Woken.locals (h : Woken m m' d s) (ha : m.frames.get a = some fa)
    (hloc : Local slot m.cells a fa fr) : Local slot m'.cells a fa fr :=
  hloc.congr rfl (fun u _ hu hc => (h.cells u (h.own_ne ha hu)).trans hc) fun _ =>
    h.inv.tokens.cell ha

/-- **What was suspended goes on.** -/
theorem Woken.resumed (h : Woken m m' d s) (hlive : m'.Live) (hS : m'.stack = [d])
    (hc : m'.cells.get s = some c) (hres : c.mem.st.hasResult = true) (hw : Rep slot m' w)
    (hr : Reads slot out m.frames m.cells x o t) : ∀ (a : Handle)
    (os : List (Level (Fut T X) T X)) (l : Level (Fut T X) T X) (p : State T X), x = some a →
    t = .waiting os l p → Awaits m.frames a d → Resumed slot out m' [] c.mem.st w a os l := by
  obtain ⟨fd, hd, hpd⟩ := h.suspended
  induction hr with
  | promised => intro a os l p hx; cases hx
  | ready => intro a os l p _ ht; cases ht
  | @last b fb g l p hb hpc hloc hheld hg _ _ _ =>
    intro a os l' p' hx ht hab
    cases hx
    cases ht
    obtain ⟨hh, -⟩ := hg.of_promised
    cases hab with
    | step hb' hpc' hf =>
      rw [hb] at hb'
      cases hb'
      rw [hpc] at hpc'
      cases hpc'
      rw [hh] at hf
      cases hf
    | refl =>
      rw [hb] at hd
      cases hd
      have hget : m'.frames.get d = some (fd.goto (.resuming ⟨s, none⟩)) := by
        rw [h.frames]
        exact Heap.get_modify_self hb
      refine .last ⟨hlive, hS, hget, (h.locals hb hloc).goto _,
        fun i f t hi ht => ?_, hw⟩ rfl (.promised hc (Or.inl hres))
      exact h.owns hb (List.mem_of_getElem? hi) (hheld i f t hi ht)
  | @outer b fb g o os l p hb hpc hloc hheld hg _ ihg =>
    intro a os' l' p' hx ht hab
    cases hx
    cases ht
    cases hab with
    | refl =>
      rw [hb] at hd
      cases hd
      rw [hpd] at hpc
      cases hpc
      cases hg
    | @step _ e _ fe f hb' hpc' hf hed =>
      rw [hb] at hb'
      cases hb'
      rw [hpc] at hpc'
      cases hpc'
      have hbd : b ≠ d := by
        rintro rfl
        rw [hb] at hd
        cases hd
        rw [hpd] at hpc
        cases hpc
        cases hf
      have hget : m'.frames.get b = some fb := by
        rw [h.frames]
        exact (Heap.get_modify_ne hbd).trans hb
      obtain ⟨hlt, -⟩ := (h.inv.tokens.valid b fb g hb
        (mem_futures_current (by rw [hpc]; rfl))).handle hf
      refine .outer hget hpc hf hlt (h.locals hb hloc) (fun i f t hi ht => ?_)
        (ihg e os l p hf rfl hed)
      exact h.owns hb (List.mem_of_getElem? hi) (hheld i f t hi ht)

end
end Coros
end ActorZeta
