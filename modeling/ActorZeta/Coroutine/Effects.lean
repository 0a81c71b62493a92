import ActorZeta.Coroutine.AwaitChain

/-!
# Messages, promises and results

What a step does to the messages of the actor, to the result promises that coroutines hold, and to
the states of the callers' futures.

* `promisesOf`, `SamePromises`   the promises in a frame, and frames that keep theirs;
* `Books`                        the callers' states and the messages;
* `Effect`, `step_effect`        the ways a step can change them, up to the destructor.
-/

namespace ActorZeta

/-- the result promises in the locals of `a` -/
def promisesOf (F : Heap Frame) (a : Handle) : List Address :=
  match F.get a with
  | some fr => fr.promises
  | none => []

/-- a coroutine that has finished holds no promise -/
def Cleared (F : Heap Frame) : Prop :=
  ∀ a fa, F.get a = some fa → fa.pc = .finished → fa.promises = []

/-- every coroutine keeps its promises -/
def SamePromises (F F' : Heap Frame) : Prop :=
  Cleared F → Cleared F' ∧ ∀ a, promisesOf F' a = promisesOf F a

section
variable {F F' F'' : Heap Frame} {a b : Handle} {fa : Frame} {s : Address}

theorem promisesOf_some (ha : F.get a = some fa) : promisesOf F a = fa.promises := by
  unfold promisesOf
  rw [ha]

theorem promisesOf_none (ha : F.get a = none) : promisesOf F a = [] := by
  unfold promisesOf
  rw [ha]

theorem mem_promisesOf (hs : s ∈ promisesOf F a) : ∃ fa, F.get a = some fa ∧ s ∈ fa.promises := by
  unfold promisesOf at hs
  split at hs
  · rename_i fr hfr
    exact ⟨fr, hfr, hs⟩
  · cases hs

theorem promisesOf_congr (h : F'.get a = F.get a) : promisesOf F' a = promisesOf F a := by
  unfold promisesOf
  rw [h]

theorem SamePromises.refl (F : Heap Frame) : SamePromises F F := fun h => ⟨h, fun _ => rfl⟩

theorem SamePromises.trans (h1 : SamePromises F F') (h2 : SamePromises F' F'') :
    SamePromises F F'' := by
  intro hF
  obtain ⟨hF', hsame⟩ := h1 hF
  obtain ⟨hF'', hsame'⟩ := h2 hF'
  exact ⟨hF'', fun a => (hsame' a).trans (hsame a)⟩

theorem SamePromises.modify {k : Frame → Frame} (hk : ∀ fr, (k fr).promises = fr.promises)
    (hd : ∀ fr, F.get a = some fr → (k fr).pc = .finished → fr.pc = .finished ∨ fr.promises = []) :
    SamePromises F (F.modify a k) := by
  refine fun hF => ⟨fun j fr' hj hfin => ?_, fun j => ?_⟩
  · obtain ⟨fr, hfr, rfl⟩ := Heap.get_modify_some hj
    by_cases hja : j = a
    · subst hja
      rw [if_pos rfl] at hfin ⊢
      rw [hk]
      exact (hd fr hfr hfin).elim (hF j fr hfr) id
    · rw [if_neg hja] at hfin ⊢
      exact hF j fr hfr hfin
  · by_cases hja : j = a
    · subst hja
      cases hfr : F.get j with
      | none =>
        rw [promisesOf_none hfr, promisesOf_none]
        exact Heap.get_modify_none hfr
      | some fr => rw [promisesOf_some hfr, promisesOf_some (Heap.get_modify_self hfr), hk]
    · exact promisesOf_congr (Heap.get_modify_ne hja)

theorem SamePromises.goto {pc : Place} (hpc : pc ≠ .finished) :
    SamePromises F (F.modify a (.goto pc)) :=
  .modify (fun _ => rfl) fun _ _ hfin => absurd hfin hpc

theorem SamePromises.alloc (st : Option Address) : SamePromises F (F.alloc (.fresh st)) := by
  refine fun hF => ⟨fun j fr hj hfin => ?_, fun j => ?_⟩
  · rcases Heap.get_alloc_some hj with ⟨-, rfl⟩ | hj
    · rfl
    · exact hF j fr hj hfin
  · by_cases hj : j = F.next
    · subst hj
      rw [promisesOf_some Heap.get_alloc_self, promisesOf_none Heap.get_next]
      rfl
    · exact promisesOf_congr (if_neg hj)

/-- a frame goes that holds no promise -/
theorem SamePromises.free (h : ∀ fr, F.get a = some fr → fr.pc = .finished ∨ fr.promises = []) :
    SamePromises F (F.free a) := by
  refine fun hF => ⟨fun j fr hj hfin => hF j fr (Heap.get_free_some hj).2 hfin, fun j => ?_⟩
  by_cases hja : j = a
  · subst hja
    cases hfr : F.get j with
    | none => rw [promisesOf_none hfr, promisesOf_none (if_pos rfl)]
    | some fr =>
      rw [promisesOf_some hfr, promisesOf_none (if_pos rfl)]
      exact ((h fr hfr).elim (hF j fr hfr) id).symm
  · exact promisesOf_congr (Heap.get_free_ne hja)

theorem SamePromises.reclaimed (o : Option Handle) : SamePromises F (reclaimed F o) := by
  cases o with
  | none => exact .refl F
  | some b =>
    unfold ActorZeta.reclaimed
    dsimp only
    split
    · rename_i fb hb
      split
      · rename_i hd
        refine .free fun fr hfr => Or.inl ?_
        rw [hb] at hfr
        cases hfr
        exact beq_iff_eq.mp hd
      · exact .refl F
    · exact .refl F

theorem promisesOf_modify {F : Heap Frame} {a : Handle} {fa : Frame} {k : Frame → Frame}
    (ha : F.get a = some fa) : promisesOf (F.modify a k) a = (k fa).promises ∧
      ∀ b, b ≠ a → promisesOf (F.modify a k) b = promisesOf F b :=
  ⟨promisesOf_some (Heap.get_modify_self ha), fun _ hb => promisesOf_congr (Heap.get_modify_ne hb)⟩

/-- promises come and go in a coroutine that has not finished -/
theorem Cleared.modify {F : Heap Frame} {a : Handle} {fa : Frame} {k : Frame → Frame}
    (h : Cleared F) (ha : F.get a = some fa) (hk : (k fa).pc = fa.pc) (hn : fa.pc ≠ .finished) :
    Cleared (F.modify a k) := by
  intro j fr hj hfin
  obtain ⟨fr0, hj0, rfl⟩ := Heap.get_modify_some hj
  by_cases hja : j = a
  · subst hja
    rw [ha] at hj0
    cases hj0
    rw [if_pos rfl, hk] at hfin
    exact absurd hfin hn
  · rw [if_neg hja] at hfin ⊢
    exact h j fr0 hj0 hfin

/-! ## the mixin moves no promise -/

theorem SamePromises.writeOuter (fr : Frame) : SamePromises F (fr.writeOuter F) := by
  have hm : ∀ (G : Heap Frame) (o : Handle) (k : Frame → Frame),
      (∀ fr, (k fr).promises = fr.promises) → (∀ fr, (k fr).pc = fr.pc) →
      SamePromises G (G.modify o k) := by
    intro G o k hk hpc
    refine .modify hk fun fr _ hfin => Or.inl ?_
    rw [← hpc]
    exact hfin
  unfold Frame.writeOuter
  dsimp only
  split <;> split
  · exact (hm F _ ({ · with awaitedFlags := fr.awaitedFlags }) (fun _ => rfl) fun _ => rfl).trans
      (hm _ _ _ (fun _ => rfl) fun _ => rfl)
  · exact hm _ _ _ (fun _ => rfl) fun _ => rfl
  · exact hm _ _ _ (fun _ => rfl) fun _ => rfl
  · exact .refl F

theorem SamePromises.updatePropagatedOuter (n : Nat) :
    SamePromises F (updatePropagatedOuter n F a) := by
  induction n generalizing F a with
  | zero => exact .refl F
  | succ n ih =>
    unfold ActorZeta.updatePropagatedOuter
    split
    · exact .refl F
    · split
      · exact .trans (.writeOuter _) ih
      · exact .writeOuter _

theorem SamePromises.setAwaited (p q : Option Address) : SamePromises F (setAwaited F a p q) :=
  (SamePromises.modify (k:=.point p q) (fun _ => rfl) fun _ _ hfin => Or.inl hfin).trans
    (.updatePropagatedOuter _)

theorem SamePromises.propagateAwaitedState {T X : Type} (st : State T X) (f : Future) :
    SamePromises F (propagateAwaitedState st F a f) := by
  unfold ActorZeta.propagateAwaitedState
  split
  · exact .setAwaited _ _
  · split
    · have hlink : ∀ b, SamePromises F (F.modify b (.linkTo a)) :=
        fun b => .modify (fun _ => rfl) fun _ _ hfin => Or.inl hfin
      dsimp only
      split
      · split
        · exact (hlink _).trans (.setAwaited _ _)
        · exact (hlink _).trans (.setAwaited _ _)
      · exact hlink _
    · exact .setAwaited _ _

end
/-- the callers' states and the messages -/
structure Books (T X : Type) where
  slots : Heap (State T X)
  queue : List Address
  currentMessage : Option Guarded
  destroyed : List Address

namespace Coros
variable {T X : Type} {m m' : Coros T X} {act : CoroAct T X} {a b : Handle} {fa : Frame}
  {s : Address} {S : List Handle}

def books (m : Coros T X) : Books T X := ⟨m.slots, m.queue, m.currentMessage, m.destroyed⟩

/-- `dispatch()` takes the promise of `s` from the message -/
def Takes (m : Coros T X) (act : CoroAct T X) (s : Address) : Prop :=
  act = .op (some .take) ∧ m.currentMessage = some ⟨s, true⟩

/-- the running coroutine settles the promise of `s` with `o` -/
def Settles (m : Coros T X) (act : CoroAct T X) (s : Address) (o : Outcome T X) : Prop :=
  ∃ i a S fa, act = .op (some (.settle i o)) ∧ m.stack = a :: S ∧ m.frames.get a = some fa ∧
    fa.promises[i]? = some s

/-- neither of them -/
def Quiet (act : CoroAct T X) : Prop :=
  act ≠ .op (some .take) ∧ ∀ i o, act ≠ .op (some (.settle i o))

/-- what a step does to the messages and the callers' states -/
inductive Effect (m m' : Coros T X) (act : CoroAct T X) : Prop
  | quiet : Quiet act → m'.books = m.books → SamePromises m.frames m'.frames →
      (m'.driver = m.driver ∨ ∀ n, m.driver ≠ .started n ∧ m'.driver ≠ .started n) →
      Effect m m' act
  | taken {a : Handle} {fa : Frame} {s : Address} : Takes m act s → m.frames.get a = some fa →
      fa.pc = .running →
      m'.frames = m.frames.modify a (fun fr => { fr with promises := fr.promises ++ [s] }) →
      m'.books = { m.books with currentMessage := some ⟨s, false⟩ } → m'.driver = m.driver →
      Effect m m' act
  | settled {a : Handle} {fa : Frame} {s : Address} {o : Outcome T X} {k : Frame → Frame} :
      m.frames.get a = some fa → fa.promises.Perm (s :: (k fa).promises) → (k fa).pc = fa.pc →
      fa.pc ≠ .finished → m'.frames = m.frames.modify a k →
      m'.books = { m.books with slots := m.slots.modify s fun st => (st.setOutcome o).settle.2 } →
      (Settles m act s o ∨ Quiet act ∧ o = .error (.errc .brokenPipe)) → m'.driver = m.driver →
      Effect m m' act
  | started {i n : Nat} {s : Address} : Quiet act → m.queue[i]? = some s →
      m'.books = { m.books with
        queue := m.queue.eraseIdx i
        currentMessage := some ⟨s, true⟩ } → SamePromises m.frames m'.frames →
      m.driver = .loopDrained n → m'.driver = .started n → Effect m m' act
  | ended {g : Guarded} {n : Nat} : Quiet act → m.currentMessage = some g →
      m'.books = { m.books with
        slots := if g.owned then m.slots.modify g.slot fun st => st.cleanupFn.2 else m.slots
        currentMessage := none
        destroyed := m.destroyed ++ [g.slot] } → m'.frames = m.frames → m.driver = .started n →
      (∀ k, m'.driver ≠ .started k) → Effect m m' act
  | sent : Quiet act → m'.books = { m.books with
        slots := m.slots.alloc .fresh
        queue := m.queue ++ [m.slots.next] } → m'.frames = m.frames → m'.driver = m.driver →
      Effect m m' act

/-! ## a step of the running coroutine -/

theorem release_books (m : Coros T X) (f : Future) : (m.release f).books = m.books := by
  obtain ⟨F, C, u, h⟩ := release_only m f
  rw [h]
  rfl

theorem release_promises (m : Coros T X) (f : Future) :
    SamePromises m.frames (m.release f).frames := by
  have hr : SamePromises m.frames (m.reclaim f.handle).frames := by
    unfold reclaim
    split
    · exact .refl _
    · exact .reclaimed _
  unfold release
  dsimp only
  split
  · exact hr
  · exact hr

theorem resumeAny_books (m : Coros T X) (o : Option Handle) : (m.resumeAny o).books = m.books := by
  unfold resumeAny
  split
  · unfold resume
    split
    · split <;> rfl
    · rfl
  · rfl

theorem resumeAny_promises (m : Coros T X) (o : Option Handle) :
    SamePromises m.frames (m.resumeAny o).frames := by
  unfold resumeAny
  split
  · unfold resume
    split
    · split
      · exact .goto nofun
      · exact .refl _
    · exact .refl _
  · exact .refl _

theorem body_effect {op : Op T X} (hS : m.stack = a :: S) (ha : m.frames.get a = some fa)
    (hpc : fa.pc = .running) (hd : m'.driver = m.driver) (hs : m.body a fa op = some m') :
    Effect m m' (.op (some op)) := by
  have hmod : ∀ k : Frame → Frame, (∀ fr, (k fr).promises = fr.promises) →
      (∀ fr, (k fr).pc = fr.pc ∨ (k fr).pc ≠ .finished) →
      SamePromises m.frames (m.frames.modify a k) := by
    intro k hk hp
    refine .modify hk fun fr _ hfin => Or.inl ?_
    rcases hp fr with he | hne
    · exact he ▸ hfin
    · exact absurd hfin hne
  cases op with
  | start =>
    cases hs
    refine .quiet (by simp [Quiet]) rfl ?_ (Or.inl hd)
    exact (hmod (.hold ⟨m.cells.next, some m.frames.next⟩) (fun _ => rfl) fun _ => Or.inl rfl).trans
      (.alloc _)
  | adopt o =>
    cases hs
    exact .quiet (by simp [Quiet]) rfl (hmod _ (fun _ => rfl) fun _ => Or.inl rfl) (Or.inl hd)
  | await i =>
    obtain ⟨f, hi, rfl⟩ := Option.map_eq_some_iff.mp hs
    refine .quiet (by simp [Quiet]) ?_ ?_ (Or.inl hd)
    · split <;> rfl
    · split
      · exact (hmod (.await i f) (fun _ => rfl) fun _ => Or.inr (by simp [Frame.await])).trans
          (.propagateAwaitedState _ _)
      · exact .refl _
  | drop i =>
    obtain ⟨f, hi, rfl⟩ := Option.map_eq_some_iff.mp hs
    refine .quiet (by simp [Quiet]) (release_books _ _) ?_ (Or.inl hd)
    exact (hmod (.unhold i) (fun _ => rfl) fun _ => Or.inl rfl).trans (release_promises (m.onFrame a (.unhold i)) f)
  | take =>
    simp only [body] at hs
    split at hs
    · rename_i s hcur
      cases hs
      exact .taken ⟨rfl, hcur⟩ ha hpc rfl rfl hd
    · cases hs
  | settle i o =>
    obtain ⟨s, hi, rfl⟩ := Option.map_eq_some_iff.mp hs
    obtain ⟨hlt, hget⟩ := List.getElem?_eq_some_iff.mp hi
    refine .settled (k:=fun fr => { fr with promises := fr.promises.eraseIdx i }) ha ?_ rfl
      (by simp [hpc]) rfl rfl (Or.inl ⟨i, a, S, fa, rfl, hS, ha, hi⟩) hd
    rw [← hget]
    exact (List.getElem_cons_eraseIdx_perm hlt).symm
  | ret o =>
    have hgo : SamePromises m.frames (m.frames.modify a (.goto .leaving)) := .goto (by simp)
    cases hst : fa.state <;> simp only [body, hst] at hs <;> cases hs <;>
      exact .quiet (by simp [Quiet]) rfl hgo (Or.inl hd)

theorem leave_effect {act : CoroAct T X} (hq : Quiet act) (ha : m.frames.get a = some fa)
    (hpc : fa.pc = .leaving) (hd : (m.leave a fa).driver = m.driver) :
    Effect m (m.leave a fa) act := by
  have hnfin : fa.pc ≠ .finished := by rw [hpc]; exact nofun
  unfold leave at hd ⊢
  split
  · rename_i s promises hp
    exact .settled (k:=({ · with promises := promises })) ha (by rw [hp]) rfl hnfin rfl rfl
      (Or.inr ⟨hq, rfl⟩) rfl
  · rename_i f held hp hh
    refine .quiet hq (release_books _ _) ?_ (Or.inl ?_)
    · exact (SamePromises.modify (k:=({ · with held := held })) (fun _ => rfl)
        fun _ _ hfin => Or.inl hfin).trans
        (release_promises (m.onFrame a ({ · with held := held })) f)
    · rw [hp, hh] at hd
      exact hd
  · rename_i hp hh
    rw [hp, hh] at hd
    have hfin : SamePromises m.frames (m.frames.modify a (.goto .finished)) := by
      refine .modify (fun _ => rfl) fun fr hfr _ => Or.inr ?_
      rw [ha] at hfr
      cases hfr
      exact hp
    refine .quiet hq ?_ ?_ (Or.inl hd)
    · unfold final
      split
      · rfl
      · split
        · rfl
        · dsimp only
          split
          · rfl
          · exact resumeAny_books _ _
    · unfold final
      split
      · exact hfin
      · split
        · exact .refl _
        · dsimp only
          split
          · refine .free fun fr hfr => Or.inr ?_
            rw [ha] at hfr
            cases hfr
            exact hp
          · exact hfin.trans (resumeAny_promises (Coros.pop (onFrame (onCell m _ _) a _)) _)

theorem awaiting_effect {act : CoroAct T X} {f : Future} {c : Cell T X} {pc : Place}
    (hq : Quiet act) (hd : (m.awaiting a f c pc).driver = m.driver) :
    Effect m (m.awaiting a f c pc) act := by
  have hgo : ∀ p : Place, p ≠ .finished → SamePromises m.frames (m.frames.modify a (.goto p)) :=
    fun p hp => .goto hp
  have hclear : SamePromises m.frames (clearAwaitedChain m.frames a) := .setAwaited _ _
  refine .quiet hq ?_ ?_ (Or.inl hd)
  · unfold awaiting
    split
    · rfl
    · split <;> rfl
    · dsimp only
      split
      · exact resumeAny_books _ _
      · rfl
    · dsimp only
      split
      · rfl
      · split <;> rfl
    · split <;> rfl
    · exact release_books _ _
    · rfl
  · unfold awaiting
    split
    · refine hgo _ ?_
      split <;> exact nofun
    · split
      · exact hgo _ nofun
      · exact hgo _ nofun
    · dsimp only
      split
      · exact (hgo (.suspended f) nofun).trans
          (resumeAny_promises (Coros.onCell (Coros.pop (onFrame m a _)) _ _) _)
      · exact hgo _ nofun
    · dsimp only
      split
      · exact hclear.trans (.goto nofun)
      · split
        · exact hclear
        · exact hclear.trans (.goto nofun)
    · split
      · exact hgo _ nofun
      · exact .refl _
    · exact (hgo .running nofun).trans (release_promises (m.onFrame a (.goto .running)) f)
    · exact .refl _

theorem exec_effect {op : Option (Op T X)} (hS : m.stack = a :: S) (ha : m.frames.get a = some fa)
    (hd : m'.driver = m.driver) (hs : m.exec a fa op = some m') : Effect m m' (.op op) := by
  unfold exec at hs
  split at hs
  · rename_i hpc
    exact body_effect hS ha hpc hd hs
  · cases hs
  · rename_i hpc
    cases hs
    exact leave_effect ⟨nofun, nofun⟩ ha hpc hd
  · split at hs
    · split at hs
      · cases hs
        exact awaiting_effect ⟨nofun, nofun⟩ hd
      · cases hs
        exact .quiet ⟨nofun, nofun⟩ rfl (.refl _) (Or.inl rfl)
    · cases hs
      exact .quiet ⟨nofun, nofun⟩ rfl (.refl _) (Or.inl rfl)
  · cases hs

/-! ## a step of `resume_impl` -/

theorem drain_effect (m : Coros T X) :
    m.drain.books = m.books ∧ SamePromises m.frames m.drain.frames := by
  unfold drain
  split
  · exact ⟨rfl, .refl _⟩
  · split
    · split
      · split
        · exact ⟨resumeAny_books _ _, resumeAny_promises (m.onCell _ _) _⟩
        · exact ⟨rfl, .refl _⟩
      · exact ⟨rfl, .refl _⟩
    · exact ⟨rfl, .refl _⟩

/-- the frame that `behavior(msg)` replaces holds no promise -/
theorem startBehavior_effect (i : Nat) (s : Address)
    (hdone : ∀ r fr, m.currentBehavior = some r → m.frames.get r = some fr → fr.pc = .finished) :
    (m.startBehavior i s).books = { m.books with
        queue := m.queue.eraseIdx i
        currentMessage := some ⟨s, true⟩ } ∧
      SamePromises m.frames (m.startBehavior i s).frames := by
  unfold startBehavior
  cases hr : m.currentBehavior with
  | none => exact ⟨rfl, .alloc _⟩
  | some r =>
    exact ⟨rfl, (SamePromises.free fun fr hfr => Or.inl (hdone r fr hr hfr)).trans (.alloc _)⟩

/-- the message of a behavior dies when it has started -/
theorem endMessage_effect {g : Guarded} (hg : m.currentMessage = some g) :
    m.endMessage.books = { m.books with
        slots := if g.owned then m.slots.modify g.slot fun st => st.cleanupFn.2 else m.slots
        currentMessage := none
        destroyed := m.destroyed ++ [g.slot] } ∧ m.endMessage.frames = m.frames := by
  obtain ⟨slot, owned⟩ := g
  unfold endMessage
  rw [hg]
  cases owned <;> exact ⟨rfl, rfl⟩

theorem drive_effect {mail : Mail} (hI : Inv m.frames m.cells [] m.currentBehavior none)
    (hcur : ∀ n, m.driver = .started n → m.currentMessage ≠ none)
    (hs : m.drive mail = some m') : Effect m m' (.drive mail) := by
  have hq : Quiet (.drive mail : CoroAct T X) := ⟨nofun, nofun⟩
  have hstay : ∀ d : Driver, (∀ n, m.driver ≠ .started n) → (∀ n, d ≠ .started n) →
      Effect m { m with driver := d } (.drive mail) :=
    fun d hn hd => .quiet hq rfl (.refl _) (Or.inr fun n => ⟨hn n, hd n⟩)
  have hdrain : ∀ d : Driver, (∀ n, m.driver ≠ .started n) → (∀ n, d ≠ .started n) →
      Effect m { m.drain with driver := d } (.drive mail) :=
    fun d hn hd => .quiet hq (drain_effect m).1 (drain_effect m).2 (Or.inr fun n => ⟨hn n, hd n⟩)
  unfold drive at hs
  split at hs
  · cases hs
  · cases hs
  · rename_i hd
    have hn : ∀ n, m.driver ≠ .started n := by rw [hd]; exact nofun
    split at hs
    · cases hs
      exact hstay _ hn nofun
    · split at hs <;> cases hs
      · exact hdrain _ hn nofun
      · exact hstay _ hn nofun
  · rename_i hd
    cases hs
    refine hstay _ (by rw [hd]; exact nofun) ?_
    split
    · exact nofun
    · split <;> exact nofun
  · rename_i hd
    cases hs
    refine hstay _ (by rw [hd]; exact nofun) ?_
    split <;> exact nofun
  · rename_i hd
    have hn : ∀ n, m.driver ≠ .started n := by rw [hd]; exact nofun
    split at hs
    · cases hs
      exact hstay _ hn nofun
    · split at hs
      · split at hs <;> cases hs
        · exact hdrain _ hn nofun
        · exact hstay _ hn nofun
      · cases hs
        exact hstay _ hn nofun
  · rename_i hd
    have hn : ∀ n, m.driver ≠ .started n := by rw [hd]; exact nofun
    split at hs
    · cases hs
      exact hstay _ hn nofun
    · rename_i hbusy
      split at hs
      · split at hs
        · cases hs
          exact hstay _ hn nofun
        · cases hs
      · split at hs
        · rename_i hi
          cases hs
          have hlive := live_of_idle hI (Bool.eq_false_iff.mpr hbusy)
          obtain ⟨hb, hF⟩ := startBehavior_effect (m:=m) _ _ fun r fr hr hfr => live_none hlive hr hfr
          exact .started hq hi hb hF hd rfl
        · split at hs
          · cases hs
            exact hstay _ hn nofun
          · cases hs
  · rename_i n hd
    cases hs
    obtain ⟨g, hg⟩ := Option.ne_none_iff_exists'.mp (hcur n hd)
    obtain ⟨hb, hF⟩ := endMessage_effect hg
    exact .ended hq hg hb hF hd nofun
  · rename_i hd
    cases hs
    exact hstay _ (by rw [hd]; exact nofun) nofun

/-- **What a step can do** to the messages and the callers' states. -/
theorem step_effect (hg : m.Good) (hcur : ∀ n, m.driver = .started n → m.currentMessage ≠ none)
    (hs : m.step act = some m') (hgone : m'.driver ≠ .gone) : Effect m m' act := by
  unfold step at hs
  split at hs
  · cases hs
  rename_i hstop
  obtain ⟨hab, hu⟩ : m.aborted = false ∧ m.undefined = false := by
    simpa using hstop
  cases act with
  | op op =>
    dsimp only at hs
    split at hs
    · rename_i a S hS
      have hgone : m.driver ≠ .gone := fun hd => by
        rw [hg.rest (by rw [hd]; rfl)] at hS
        cases hS
      obtain ⟨fa, ha, hs⟩ := Option.bind_eq_some_iff.mp hs
      exact exec_effect hS ha (exec_ok (hg.ok hgone).1 hab hS ha hs).driver hs
    · cases hs
  | produce s =>
    obtain ⟨C, rfl⟩ := produce_only hs
    exact .quiet ⟨nofun, nofun⟩ rfl (.refl _) (Or.inl rfl)
  | drive mail =>
    dsimp only at hs
    split at hs
    · rename_i hS
      have hgone : m.driver ≠ .gone := by
        intro hd
        unfold drive at hs
        rw [hd] at hs
        cases hs
      have hI := (hg.ok hgone).1.inv hab
      rw [List.isEmpty_iff.mp hS] at hI
      exact drive_effect hI hcur hs
    · cases hs
  | resume max =>
    dsimp only at hs
    split at hs
    · rename_i hd
      cases hs
      exact .quiet ⟨nofun, nofun⟩ rfl (.refl _) (Or.inr fun n => ⟨by rw [hd.1]; exact nofun, nofun⟩)
    · cases hs
  | send =>
    dsimp only at hs
    split at hs
    · cases hs
    · cases hs
      exact .sent ⟨nofun, nofun⟩ rfl rfl rfl
  | destroy =>
    dsimp only at hs
    split at hs
    · cases hs
      exact absurd rfl hgone
    · cases hs

end Coros
end ActorZeta
