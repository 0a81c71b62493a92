import ActorZeta.Coroutine.Custody

/-!
# What the destructor leaves unsettled

* `Taken`, `SettledWith`   whose promises have been taken in a run, and settled with what;
* `Account`, `account_run` the custody of all messages, along a run;
* `torn`, `torn_settled`   what the destructor makes of a caller's state;
* `destroy_settles`        every message is destroyed once, and the future of every `send()` is
                           settled exactly if no coroutine but the behavior itself holds a promise;
* `lost_promise`           a run that ends with a future that is never settled.
-/

namespace ActorZeta
namespace Coros
variable {T X : Type} {m m' : Coros T X} {act : CoroAct T X} {V : List (Coros T X × CoroAct T X)}
  {s : Address} {o : Outcome T X}

/-- somebody has taken the promise of `s` from its message -/
def Taken (V : List (Coros T X × CoroAct T X)) (s : Address) : Prop := ∃ v ∈ V, Takes v.1 v.2 s

/-- somebody has settled the promise of `s` with `o` -/
def SettledWith (V : List (Coros T X × CoroAct T X)) (s : Address) (o : Outcome T X) : Prop :=
  ∃ v ∈ V, Settles v.1 v.2 s o

theorem taken_snoc : Taken (V ++ [(m, act)]) s ↔ Taken V s ∨ Takes m act s := by
  unfold Taken
  simp only [List.mem_append, List.mem_singleton, or_and_right, exists_or, exists_eq_left]

theorem settledWith_snoc : SettledWith (V ++ [(m, act)]) s o ↔ SettledWith V s o ∨ Settles m act s o := by
  unfold SettledWith
  simp only [List.mem_append, List.mem_singleton, or_and_right, exists_or, exists_eq_left]

theorem Quiet.not_takes (hq : Quiet act) : ¬ Takes m act s := fun ht => hq.1 ht.1

theorem Quiet.not_settles (hq : Quiet act) : ¬ Settles m act s o :=
  fun ⟨_, _, _, _, ha, _⟩ => hq.2 _ _ ha

theorem Quiet.taken (hq : Quiet act) (s : Address) : Taken (V ++ [(m, act)]) s ↔ Taken V s :=
  taken_snoc.trans (or_iff_left hq.not_takes)

theorem Quiet.settledWith (hq : Quiet act) (s : Address) (o : Outcome T X) :
    SettledWith (V ++ [(m, act)]) s o ↔ SettledWith V s o :=
  settledWith_snoc.trans (or_iff_left hq.not_settles)

/-- a coroutine that settles a promise settles no other, and with nothing else -/
theorem Settles.inj {s' : Address} {o' : Outcome T X} (h : Settles m act s o)
    (h' : Settles m act s' o') : s' = s ∧ o' = o := by
  obtain ⟨i, a, S, fa, rfl, hS, ha, hi⟩ := h
  obtain ⟨i', a', S', fa', he, hS', ha', hi'⟩ := h'
  cases he
  rw [hS] at hS'
  cases hS'
  rw [ha] at ha'
  cases ha'
  rw [hi] at hi'
  exact ⟨(Option.some.inj hi').symm, rfl⟩

/-- the account of a run, up to the destructor -/
structure Account (V : List (Coros T X × CoroAct T X)) (m : Coros T X) : Prop where
  good : m.Good
  cleared : m.driver ≠ .gone → Cleared m.frames
  guarded : m.driver ≠ .gone → (m.currentMessage ≠ none ↔ ∃ n, m.driver = .started n)
  custody : m.driver ≠ .gone → Custody (Taken V) (SettledWith V) m.books m.frames

theorem account_init : Account [] (init : Coros T X) where
  good := good_init
  cleared _ _ _ hj := nomatch hj
  guarded _ := ⟨fun hn => absurd rfl hn, nofun⟩
  custody _ := {
    messages := List.Perm.refl _
    slots := fun _ hs => absurd hs (Nat.not_lt_zero _)
    past := by rintro s (⟨v, hv, -⟩ | ⟨o, v, hv, -⟩) <;> cases hv
    waiting := by rintro s (hs | hs) <;> cases hs
    held := fun _ ⟨_, hs⟩ => nomatch hs
    nodup := fun _ => List.nodup_nil
    unique := fun _ _ _ hs => nomatch hs
    settled := fun _ _ hs => nomatch hs }

/-- nobody comes back from the destructor -/
theorem gone_stays (hg : m.Good) (hd : m.driver = .gone) (hs : m.step act = some m') :
    m'.driver = .gone := by
  unfold step at hs
  split at hs
  · cases hs
  cases act with
  | op op =>
    rw [hg.rest (by rw [hd]; rfl)] at hs
    cases hs
  | produce s =>
    obtain ⟨C, rfl⟩ := produce_only hs
    exact hd
  | drive mail =>
    unfold drive at hs
    rw [hd] at hs
    dsimp only at hs
    split at hs <;> cases hs
  | resume max =>
    dsimp only at hs
    rw [hd] at hs
    rw [if_neg (fun h => nomatch h.1)] at hs
    cases hs
  | send =>
    dsimp only at hs
    cases hs
  | destroy =>
    dsimp only at hs
    rw [hd] at hs
    rw [if_neg (fun h => nomatch h.1)] at hs
    cases hs

/-- **Every step keeps the account.** -/
theorem step_account (h : Account V m) (hs : m.step act = some m') :
    Account (V ++ [(m, act)]) m' := by
  have hgood := step_good h.good hs
  by_cases hgone' : m'.driver = .gone
  · exact ⟨hgood, fun hn => absurd hgone' hn, fun hn => absurd hgone' hn, fun hn => absurd hgone' hn⟩
  have hgone : m.driver ≠ .gone := fun hd => hgone' (gone_stays h.good hd hs)
  have hC := h.cleared hgone
  have hg := h.guarded hgone
  have hcus := h.custody hgone
  suffices hall : Cleared m'.frames ∧ (m'.currentMessage ≠ none ↔ ∃ n, m'.driver = .started n) ∧
      Custody (Taken (V ++ [(m, act)])) (SettledWith (V ++ [(m, act)])) m'.books m'.frames from
    ⟨hgood, fun _ => hall.1, fun _ => hall.2.1, fun _ => hall.2.2⟩
  cases step_effect h.good (fun n hn => hg.mpr ⟨n, hn⟩) hs hgone' with
  | quiet hq hb hF hd =>
    obtain ⟨hC', hsame⟩ := hF hC
    refine ⟨hC', ?_, ?_⟩
    · rw [show m'.currentMessage = m.currentMessage from congrArg Books.currentMessage hb, hg]
      rcases hd with hd | hd
      · rw [hd]
      · exact ⟨fun ⟨n, hn⟩ => absurd hn (hd n).1, fun ⟨n, hn⟩ => absurd hn (hd n).2⟩
    · rw [hb]
      exact hcus.congr hq.taken hq.settledWith hsame
  | @taken a fa s ht ha hpc hF hb hd =>
    obtain ⟨hpa, hpb⟩ := promisesOf_modify (k:=fun fr => { fr with promises := fr.promises ++ [s] }) ha
    refine ⟨?_, ?_, ?_⟩
    · rw [hF]
      exact hC.modify ha rfl (by rw [hpc]; exact nofun)
    · rw [show m'.currentMessage = _ from congrArg Books.currentMessage hb, hd, ← hg]
      exact ⟨fun _ => by rw [ht.2]; exact nofun, fun _ => nofun⟩
    · rw [hb, hF]
      refine hcus.taken ht.2 (fun t => ?_) (fun t o => ?_) (hpa.trans ?_) hpb
      · refine taken_snoc.trans (or_congr_right ⟨fun h' => ?_, fun he => he ▸ ht⟩)
        have hcur := h'.2
        rw [ht.2] at hcur
        cases hcur
        rfl
      · refine settledWith_snoc.trans (or_iff_left ?_)
        rintro ⟨i, _, _, _, hact, -⟩
        rw [ht.1] at hact
        cases hact
      · rw [promisesOf_some ha]
  | @settled a fa s o k ha hp hkpc hn hF hb hact hd =>
    obtain ⟨hpa, hpb⟩ := promisesOf_modify (k:=k) ha
    refine ⟨?_, ?_, ?_⟩
    · rw [hF]
      exact hC.modify ha hkpc hn
    · rw [show m'.currentMessage = m.currentMessage from congrArg Books.currentMessage hb, hd]
      exact hg
    · have hheld : Held m.frames s :=
        ⟨a, by rw [promisesOf_some ha]; exact hp.mem_iff.mpr List.mem_cons_self⟩
      obtain ⟨-, htk, hno⟩ := hcus.held s hheld
      have hT : ∀ t, Taken (V ++ [(m, act)]) t ↔ Taken V t := by
        rcases hact with ⟨i, _, _, _, hact, -⟩ | ⟨hq, -⟩
        · refine fun t => taken_snoc.trans (or_iff_left fun ht => ?_)
          rw [hact] at ht
          cases ht.1
        · exact hq.taken
      rw [hb, hF]
      refine hcus.settles (by rw [promisesOf_some ha, hpa]; exact hp) hpb hT ?_ ?_
      · intro t hts o'
        rcases hact with hset | ⟨hq, -⟩
        · exact settledWith_snoc.trans (or_iff_left fun h' => hts (hset.inj h').1)
        · exact hq.settledWith t o'
      · rcases hact with hset | ⟨hq, rfl⟩
        · exact .handler (settledWith_snoc.mpr (Or.inr hset)) rfl
        · exact .broken ((hT s).mpr htk) (fun o' ho => hno o' ((hq.settledWith s o').mp ho)) rfl
  | started hq hi hb hF hd hd' =>
    obtain ⟨hC', hsame⟩ := hF hC
    have hnone : m.currentMessage = none := by
      by_contra hne
      obtain ⟨n, hn⟩ := hg.mp hne
      rw [hd] at hn
      cases hn
    refine ⟨hC', ?_, ?_⟩
    · rw [show m'.currentMessage = _ from congrArg Books.currentMessage hb, hd']
      exact ⟨fun _ => ⟨_, rfl⟩, fun _ => nofun⟩
    · rw [hb]
      exact (hcus.congr hq.taken hq.settledWith hsame).started hi hnone
  | ended hq hgd hb hF hd hd' =>
    refine ⟨hF ▸ hC, ?_, ?_⟩
    · rw [show m'.currentMessage = none from congrArg Books.currentMessage hb]
      exact ⟨fun hn => absurd rfl hn, fun ⟨k, hk⟩ => absurd hk (hd' k)⟩
    · rw [hb, hF]
      exact (hcus.congr hq.taken hq.settledWith fun _ => rfl).ended hgd
  | sent hq hb hF hd =>
    refine ⟨hF ▸ hC, ?_, ?_⟩
    · rw [show m'.currentMessage = m.currentMessage from congrArg Books.currentMessage hb, hd]
      exact hg
    · rw [hb, hF]
      exact (hcus.congr hq.taken hq.settledWith fun _ => rfl).sent

theorem account_run {acts : List (CoroAct T X)} (h : TS.run step init acts = some m) :
    Account (TS.visits step init acts) m :=
  TS.run_history (fun _ _ _ _ => step_account) account_init h

/-! ## the destructor -/

/-- futures that a frame owns die with it, one after the other -/
theorem releases_defined (fs : List Future) (m : Coros T X)
    (hv : ∀ f ∈ fs, (∃ c, m.look f.state = some c) ∧
      ∀ b, f.handle = some b → ∃ fb, m.frames.get b = some fb ∧ fb.state = some f.state)
    (hn : (fs.map Future.state).Nodup) : (fs.foldl release m).undefined = m.undefined := by
  induction fs generalizing m with
  | nil => rfl
  | cons f fs ih =>
    obtain ⟨hf, hn⟩ := List.nodup_cons.mp hn
    obtain ⟨hl, hb⟩ := hv f List.mem_cons_self
    rw [List.foldl_cons, release_eq hl fun b hfb => (hb b hfb).imp fun _ h => h.1]
    refine ih _ (fun g hg => ?_) hn
    have hne : g.state ≠ f.state := fun he => hf (he ▸ List.mem_map_of_mem hg)
    obtain ⟨⟨c, hc⟩, hgb⟩ := hv g (List.mem_cons_of_mem _ hg)
    refine ⟨⟨c, ?_⟩, fun b hb' => ?_⟩
    · unfold look at hc ⊢
      rw [Heap.get_modify_ne hne]
      exact hc
    · obtain ⟨fb, hfb, hst⟩ := hgb b hb'
      refine ⟨fb, reclaimed_some.mpr ⟨hfb, fun he => ?_⟩, hst⟩
      obtain ⟨fb', hfb', hst'⟩ := hb b he.1
      rw [hfb] at hfb'
      cases hfb'
      exact hne (Option.some.inj (hst.symm.trans hst'))

theorem breakPromises_slots (m : Coros T X) (ss : List Address) :
    (ss.foldl breakPromise m).slots = ss.foldl (fun slots s => slots.modify s fun st =>
      (st.setError (.errc .brokenPipe)).settle.2) m.slots := by
  induction ss generalizing m with
  | nil => rfl
  | cons s ss ih => exact ih _

/-- the promises that the destructor breaks: those of the behavior -/
def behaviorPromises (m : Coros T X) : List Address :=
  match m.currentBehavior with
  | some r => promisesOf m.frames r
  | none => []

theorem mem_behaviorPromises : s ∈ m.behaviorPromises ↔
    ∃ r, m.currentBehavior = some r ∧ s ∈ promisesOf m.frames r := by
  unfold behaviorPromises
  cases m.currentBehavior with
  | none => exact ⟨fun hs => (by cases hs), fun ⟨_, he, _⟩ => by cases he⟩
  | some r => exact ⟨fun hs => ⟨r, rfl, hs⟩, fun ⟨_, he, hs⟩ => by cases he; exact hs⟩

/-- what becomes of a caller's state: the behavior dies first, then the mailbox -/
def torn (m : Coros T X) (s : Address) (st : State T X) : State T X :=
  let st := if s ∈ m.behaviorPromises then (st.setError (.errc .brokenPipe)).settle.2 else st
  if s ∈ m.queue then st.cleanupFn.2 else st

/-- `~behavior_t` breaks the promises of the behavior, and reads no freed memory -/
theorem destroyBehavior_spec (hI : Inv m.frames m.cells [] m.currentBehavior none) :
    ∃ F C, m.destroyBehavior = { m with
      frames := F
      cells := C
      currentBehavior := none
      slots := m.behaviorPromises.foldl (fun slots s => slots.modify s fun st =>
        (st.setError (.errc .brokenPipe)).settle.2) m.slots } := by
  unfold destroyBehavior behaviorPromises
  cases hr : m.currentBehavior with
  | none => exact ⟨m.frames, m.cells, by dsimp only [List.foldl_nil]; rw [← hr]⟩
  | some r =>
    obtain ⟨fr, hfr, -⟩ := hI.stacked.behavior r hr
    dsimp only
    rw [hfr, promisesOf_some hfr]
    dsimp only
    obtain ⟨slots, hs⟩ := breakPromises_only m fr.promises
    have hslots := breakPromises_slots m fr.promises
    rw [hs] at hslots
    obtain ⟨F, C, u, hrel⟩ := releases_only (fr.promises.foldl breakPromise m) fr.futures
    have hu := releases_defined fr.futures (fr.promises.foldl breakPromise m) (fun f hf => ?_)
      (hI.tokens.nodup r fr hfr)
    · unfold destroyFrame
      dsimp only
      rw [hrel] at hu ⊢
      rw [hs] at hu ⊢
      obtain rfl : u = m.undefined := hu
      rw [← hslots]
      exact ⟨_, _, rfl⟩
    · rw [hs]
      have hv := hI.tokens.valid r fr f hfr hf
      exact ⟨look_of_valid (m:=m) hv, fun b hb => (hv.handle hb).2⟩

/-- **The destructor and a caller's state.** -/
theorem destroy_spec (hI : Inv m.frames m.cells [] m.currentBehavior none)
    (hp : m.behaviorPromises.Nodup) (hq : m.queue.Nodup) :
    m.destroyBehavior.destroyMailbox.undefined = m.undefined ∧
    m.destroyBehavior.destroyMailbox.slots.next = m.slots.next ∧
    m.destroyBehavior.destroyMailbox.destroyed = m.destroyed ++ m.queue ∧
    ∀ t, m.destroyBehavior.destroyMailbox.slots.get t = (m.slots.get t).map (m.torn t) := by
  obtain ⟨F, C, h⟩ := destroyBehavior_spec hI
  rw [h]
  refine ⟨rfl, ?_, rfl, fun t => ?_⟩
  · show (m.queue.foldl _ (m.behaviorPromises.foldl _ m.slots)).next = _
    rw [Heap.next_foldl_modify, Heap.next_foldl_modify]
  · show (m.queue.foldl _ (m.behaviorPromises.foldl _ m.slots)).get t = _
    rw [Heap.get_foldl_modify hq, Heap.get_foldl_modify hp]
    cases m.slots.get t with
    | none => split <;> split <;> rfl
    | some st =>
      by_cases h1 : t ∈ m.queue <;> by_cases h2 : t ∈ m.behaviorPromises <;>
        simp only [torn, h1, h2, if_true, if_false, Option.map_some]

theorem fresh_not_ready : (State.fresh : State T X).isReady = false := by
  simp [State.isReady, State.fresh]

/-- however a state was settled, it is ready -/
theorem isReady_of_settledBy {Tk : Address → Prop} {O : Address → Outcome T X → Prop} {st : State T X}
    (h : SettledBy Tk O s st) : st.isReady = true := by
  cases h with
  | handler _ hst => rw [hst]; exact State.settle_ready _
  | canceled _ hst => rw [hst]; exact (State.cleanupFn_canceled _).1
  | broken _ _ hst => rw [hst]; exact State.settle_ready _

/-- the destructor starts when nobody is inside `resume()` -/
theorem step_destroy (hd : m.step .destroy = some m') : m.aborted = false ∧ m.undefined = false ∧
    m.driver = .outside ∧ m.stack = [] ∧
    m' = { m.destroyBehavior.destroyMailbox with driver := .gone } := by
  unfold step at hd
  split at hd
  · cases hd
  rename_i hstop
  obtain ⟨hab, hu⟩ : m.aborted = false ∧ m.undefined = false := by simpa using hstop
  dsimp only at hd
  split at hd
  · rename_i hout
    exact ⟨hab, hu, hout.1, hout.2, (Option.some.inj hd).symm⟩
  · cases hd

/-- then no message is being handled -/
theorem Account.idle (h : Account V m) (hout : m.driver = .outside) : m.currentMessage = none := by
  by_contra hne
  obtain ⟨n, hn⟩ := (h.guarded (by rw [hout]; exact nofun)).mp hne
  rw [hout] at hn
  cases hn

section
variable {Tk : Address → Prop} {O : Address → Outcome T X → Prop} {a : Handle} {st : State T X}

theorem behaviorPromises_nodup (h : Custody Tk O m.books m.frames) : m.behaviorPromises.Nodup := by
  unfold behaviorPromises
  cases m.currentBehavior with
  | none => exact List.nodup_nil
  | some r => exact h.nodup r

/-- a promise outside of the behavior is not settled -/
theorem torn_held (h : Custody Tk O m.books m.frames) (hs : s ∈ promisesOf m.frames a)
    (hna : m.currentBehavior ≠ some a) :
    m.slots.get s = some .fresh ∧ m.torn s .fresh = .fresh := by
  have hnq : s ∉ m.queue := fun hq => (h.waiting s (Or.inl hq)).2.2.2 ⟨a, hs⟩
  have hnb : s ∉ m.behaviorPromises := by
    intro hb
    obtain ⟨r, hr, hsr⟩ := mem_behaviorPromises.mp hb
    exact hna (h.unique a r s hs hsr ▸ hr)
  refine ⟨(h.held s ⟨a, hs⟩).1, ?_⟩
  unfold torn
  rw [if_neg hnb, if_neg hnq]

/-- a message in the mailbox is canceled, a promise of the behavior is broken, and the others have
been settled -/
theorem torn_settled (h : Custody Tk O m.books m.frames) (hcur : m.currentMessage = none)
    (hcond : ∀ a fa, m.frames.get a = some fa → m.currentBehavior ≠ some a → fa.promises = [])
    (hst : m.slots.get s = some st) : SettledBy Tk O s (m.torn s st) := by
  unfold torn
  rcases h.settled s st hst with hw | ⟨a, hsa⟩ | hset
  · obtain ⟨hfresh, hnt, -, hnh⟩ := h.waiting s hw
    cases hst.symm.trans hfresh
    have hq : s ∈ m.queue := by
      refine hw.resolve_right fun hc => ?_
      rw [show m.books.currentMessage = none from hcur] at hc
      cases hc
    have hnb : s ∉ m.behaviorPromises := by
      intro hb
      obtain ⟨r, -, hsr⟩ := mem_behaviorPromises.mp hb
      exact hnh ⟨r, hsr⟩
    rw [if_neg hnb, if_pos hq]
    exact .canceled hnt rfl
  · obtain ⟨hfresh, htk, hno⟩ := h.held s ⟨a, hsa⟩
    cases hst.symm.trans hfresh
    have hnq : s ∉ m.queue := fun hq => (h.waiting s (Or.inl hq)).2.2.2 ⟨a, hsa⟩
    obtain ⟨fa, ha, hmem⟩ := mem_promisesOf hsa
    have hra : m.currentBehavior = some a := by
      by_contra hne
      rw [hcond a fa ha hne] at hmem
      cases hmem
    rw [if_pos (mem_behaviorPromises.mpr ⟨a, hra, hsa⟩), if_neg hnq]
    exact .broken htk hno rfl
  · have hfresh : m.slots.get s ≠ some .fresh := by
      intro hf
      cases hst.symm.trans hf
      have hready := isReady_of_settledBy hset
      rw [fresh_not_ready] at hready
      cases hready
    have hnq : s ∉ m.queue := fun hq => hfresh (h.waiting s (Or.inl hq)).1
    have hnb : s ∉ m.behaviorPromises := by
      intro hb
      obtain ⟨r, -, hsr⟩ := mem_behaviorPromises.mp hb
      exact hfresh (h.held s ⟨r, hsr⟩).1
    rw [if_neg hnb, if_neg hnq]
    exact hset

end

/-- **At teardown** every message is destroyed exactly once, and the future of every `send()` is
settled, with the outcome of its handler, or with `operation_canceled` if nobody dispatched the
message, or with `broken_pipe`: exactly if no coroutine but the behavior itself holds an unsettled
promise when the destructor starts. -/
theorem destroy_settles {acts : List (CoroAct T X)} (h : TS.run step init acts = some m)
    (hd : m.step .destroy = some m') : m'.undefined = false ∧
      (m'.destroyed.Perm (List.range m'.slots.next) ∧ (∀ s < m'.slots.next, ∃ st,
        m'.slots.get s = some st ∧ st.isReady = true ∧
        SettledBy (Taken (TS.visits step init acts)) (SettledWith (TS.visits step init acts)) s st) ↔
      ∀ a fa, m.frames.get a = some fa → m.currentBehavior ≠ some a → fa.promises = []) := by
  have hacc := account_run h
  obtain ⟨hab, hu, hout, hS, rfl⟩ := step_destroy hd
  have hgone : m.driver ≠ .gone := by rw [hout]; exact nofun
  have hI := (hacc.good.ok hgone).1.inv hab
  rw [hS] at hI
  have hcus := hacc.custody hgone
  have hcur := hacc.idle hout
  have hmsg : (m.destroyed ++ m.queue).Perm (List.range m.slots.next) := by
    have hperm := hcus.messages
    unfold Books.messages books at hperm
    rw [hcur] at hperm
    exact hperm
  have hqueue : m.queue.Nodup := (List.nodup_append.mp (hmsg.symm.nodup List.nodup_range)).2.1
  obtain ⟨hu', hnext, hdest, hslots⟩ := destroy_spec hI (behaviorPromises_nodup hcus) hqueue
  refine ⟨hu'.trans hu, fun ⟨_, hall⟩ a fa ha hna => ?_, fun hcond => ⟨?_, fun t ht => ?_⟩⟩
  · rw [List.eq_nil_iff_forall_not_mem]
    intro t ht
    obtain ⟨hfresh, htorn⟩ := torn_held hcus (by rw [promisesOf_some ha]; exact ht) hna
    obtain ⟨st, hst, hready, -⟩ := hall t (hnext.symm ▸ Heap.lt_next hfresh)
    rw [show m.destroyBehavior.destroyMailbox.slots.get t = _ from hslots t, hfresh] at hst
    rw [← Option.some.inj hst, htorn, fresh_not_ready] at hready
    cases hready
  · show m.destroyBehavior.destroyMailbox.destroyed.Perm _
    rw [hdest, hnext]
    exact hmsg
  · obtain ⟨st, hst⟩ := hcus.slots t (hnext ▸ ht)
    have hset := torn_settled hcus hcur hcond hst
    refine ⟨m.torn t st, ?_, isReady_of_settledBy hset, hset⟩
    rw [show m.destroyBehavior.destroyMailbox.slots.get t = _ from hslots t,
      show m.slots.get t = some st from hst]
    rfl

/-- of three messages, the first is handled with 7, the behavior of the second has taken its promise
and awaits a future that nobody settles, and the third is in the mailbox -/
def suspendedHandler : List (CoroAct Nat Unit) :=
  [.send, .send, .send, .resume 5, .drive (.next 0), .drive (.next 0), .drive (.next 0),
    .drive (.next 0), .op (some .take), .op (some (.settle 0 (.value 7))), .op (some (.ret (.value 0))),
    .op none, .drive (.next 0), .drive (.next 0), .drive (.next 0), .op (some .take),
    .op (some (.adopt (.value 9))), .op (some (.await 0)), .op none, .op none, .op none,
    .drive (.next 0), .drive (.next 0)]

/-- `destroy_settles` at an actor that is destroyed while its second handler is suspended -/
theorem destroy_settles_suspended_handler : ∃ m m' : Coros Nat Unit,
    TS.run step init suspendedHandler = some m ∧ m.isBusy = true ∧ m.step .destroy = some m' ∧
    m'.undefined = false ∧ m'.destroyed.Perm [0, 1, 2] ∧
    (List.range 3).map (fun s => (m'.slots.get s).map fun st => (st.value, st.error)) =
      [some (some 7, .none), some (none, .errc .brokenPipe), some (none, .errc .operationCanceled)] ∧
    ∀ s < 3, ∃ st, m'.slots.get s = some st ∧ st.isReady = true := by
  obtain ⟨m, m', hm, hbusy, hd, hnext, hfreed, hbeh, hslots, hres⟩ : ∃ m m' : Coros Nat Unit,
      TS.run step init suspendedHandler = some m ∧ m.isBusy = true ∧ m.step .destroy = some m' ∧
      m.frames.next = 2 ∧ m.frames.get 0 = none ∧ m.currentBehavior = some 1 ∧
      m'.slots.next = 3 ∧
      (List.range 3).map (fun s => (m'.slots.get s).map fun st => (st.value, st.error)) =
        [some (some 7, .none), some (none, .errc .brokenPipe), some (none, .errc .operationCanceled)] :=
    ⟨_, _, rfl, rfl, rfl, rfl, rfl, rfl, rfl, rfl⟩
  obtain ⟨hu, hiff⟩ := destroy_settles hm hd
  -- the only frame is the one of the suspended behavior
  have honly : ∀ a fa, m.frames.get a = some fa → m.currentBehavior ≠ some a → fa.promises = [] := by
    intro a fa ha hne
    have hlt := Heap.lt_next ha
    have h0 : a ≠ 0 := by
      rintro rfl
      rw [hfreed] at ha
      cases ha
    have h1 : a ≠ 1 := by
      rintro rfl
      exact hne hbeh
    omega
  obtain ⟨hdes, hall⟩ := hiff.mpr honly
  rw [hslots] at hdes hall
  exact ⟨m, m', hm, hbusy, hd, hu, hdes, hres, fun s hs => (hall s hs).imp fun _ h => ⟨h.1, h.2.1⟩⟩

/-- a behavior that awaits `dispatch()`, which has taken the promise and awaits another future -/
def suspendedDispatch : List (CoroAct Nat Unit) :=
  [.send, .resume 5, .drive (.next 0), .drive (.next 0), .drive (.next 0), .drive (.next 0),
    .op (some .start), .op (some .take), .op (some (.adopt (.value 7))), .op (some (.await 0)),
    .op none, .op none, .op none, .op (some (.await 0)), .op none, .op none, .op none,
    .drive (.next 0), .drive (.next 0)]

/-- the frame of `dispatch()` is not done, so nobody destroys it, and its promise is never settled -/
theorem lost_promise : ∃ m m' : Coros Nat Unit, TS.run step init suspendedDispatch = some m ∧
    m.step .destroy = some m' ∧ ∃ st, m'.slots.get 0 = some st ∧ st.isReady = false :=
  ⟨_, _, rfl, rfl, _, rfl, rfl⟩

end Coros
end ActorZeta
