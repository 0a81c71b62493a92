import Mathlib.Data.List.Range
import ActorZeta.Coroutine.Effects

/-!
# Who will settle a caller's future

The promise of a message goes from the queue to the guard of the message that has been popped, from
there to the locals of a coroutine, and from there it settles the caller's state.

* `SettledBy`   how a state was settled, given whose promises have been taken (`T`) and what has been
                settled with what (`O`);
* `Custody`     every state is waiting, held, or settled, and every message is in one place;
* `Custody.congr`, `.started`, `.ended`, `.sent`, `.taken`, `.settled`   the effects of a step keep it.
-/

namespace ActorZeta

section
variable {T X : Type}

/-- how the state of `s` was settled -/
inductive SettledBy (Tk : Address → Prop) (O : Address → Outcome T X → Prop) (s : Address)
    (st : State T X) : Prop
  /-- by a coroutine -/
  | handler {o : Outcome T X} : O s o → st = (State.fresh.setOutcome o).settle.2 → SettledBy Tk O s st
  /-- with `operation_canceled`: nobody has taken the promise from the message -/
  | canceled : ¬ Tk s → st = State.fresh.cleanupFn.2 → SettledBy Tk O s st
  /-- with `broken_pipe`: somebody has, and nobody has settled it -/
  | broken : Tk s → (∀ o, ¬ O s o) →
      st = (State.fresh.setError (.errc .brokenPipe)).settle.2 → SettledBy Tk O s st

/-- the promise is still the message's -/
def Waiting (B : Books T X) (s : Address) : Prop :=
  s ∈ B.queue ∨ B.currentMessage = some ⟨s, true⟩

/-- the promise is in the locals of a coroutine -/
def Held (F : Heap Frame) (s : Address) : Prop := ∃ a, s ∈ promisesOf F a

/-- where the messages are -/
def Books.messages (B : Books T X) : List Address :=
  B.destroyed ++ ((B.currentMessage.map Guarded.slot).toList ++ B.queue)

structure Custody (Tk : Address → Prop) (O : Address → Outcome T X → Prop) (B : Books T X)
    (F : Heap Frame) : Prop where
  messages : B.messages.Perm (List.range B.slots.next)
  slots : ∀ s < B.slots.next, ∃ st, B.slots.get s = some st
  past : ∀ s, Tk s ∨ (∃ o, O s o) → s < B.slots.next
  waiting : ∀ s, Waiting B s → B.slots.get s = some .fresh ∧ ¬ Tk s ∧ (∀ o, ¬ O s o) ∧ ¬ Held F s
  held : ∀ s, Held F s → B.slots.get s = some .fresh ∧ Tk s ∧ ∀ o, ¬ O s o
  nodup : ∀ a, (promisesOf F a).Nodup
  unique : ∀ a b s, s ∈ promisesOf F a → s ∈ promisesOf F b → a = b
  settled : ∀ s st, B.slots.get s = some st → Waiting B s ∨ Held F s ∨ SettledBy Tk O s st

section
variable {Tk Tk' : Address → Prop} {O O' : Address → Outcome T X → Prop} {B B' : Books T X}
  {F F' : Heap Frame} {a b : Handle} {fa : Frame} {s t : Address} {st : State T X}

theorem SettledBy.congr (h : SettledBy Tk O s st) (hT : Tk' s ↔ Tk s) (hO : ∀ o, O' s o ↔ O s o) :
    SettledBy Tk' O' s st := by
  cases h with
  | handler ho hst => exact .handler ((hO _).mpr ho) hst
  | canceled hn hst => exact .canceled (fun ht => hn (hT.mp ht)) hst
  | broken ht hn hst => exact .broken (hT.mpr ht) (fun o ho => hn o ((hO o).mp ho)) hst

theorem held_congr (hF : ∀ a, promisesOf F' a = promisesOf F a) : Held F' s ↔ Held F s :=
  exists_congr fun a => by rw [hF a]

/-- nothing that the account looks at has changed -/
theorem Custody.congr (h : Custody Tk O B F) (hT : ∀ s, Tk' s ↔ Tk s) (hO : ∀ s o, O' s o ↔ O s o)
    (hF : ∀ a, promisesOf F' a = promisesOf F a) : Custody Tk' O' B F' where
  messages := h.messages
  slots := h.slots
  past s hs := h.past s (hs.imp (hT s).mp fun ⟨o, ho⟩ => ⟨o, (hO s o).mp ho⟩)
  waiting s hs := by
    obtain ⟨h1, h2, h3, h4⟩ := h.waiting s hs
    exact ⟨h1, fun ht => h2 ((hT s).mp ht), fun o ho => h3 o ((hO s o).mp ho),
      fun hh => h4 ((held_congr hF).mp hh)⟩
  held s hs := by
    obtain ⟨h1, h2, h3⟩ := h.held s ((held_congr hF).mp hs)
    exact ⟨h1, (hT s).mpr h2, fun o ho => h3 o ((hO s o).mp ho)⟩
  nodup a := by rw [hF a]; exact h.nodup a
  unique a b s ha hb := h.unique a b s (hF a ▸ ha) (hF b ▸ hb)
  settled s st hs := by
    rcases h.settled s st hs with hw | hh | hst
    · exact Or.inl hw
    · exact Or.inr (Or.inl ((held_congr hF).mpr hh))
    · exact Or.inr (Or.inr (hst.congr (hT s) (hO s)))

theorem Custody.messages_nodup (h : Custody Tk O B F) : B.messages.Nodup :=
  h.messages.symm.nodup List.nodup_range

/-- a message that has been popped is not in the queue -/
theorem Custody.not_queued (h : Custody Tk O B F) {g : Guarded} (hg : B.currentMessage = some g) :
    g.slot ∉ B.queue := by
  have hn := h.messages_nodup
  unfold Books.messages at hn
  rw [hg] at hn
  exact (List.nodup_cons.mp (List.nodup_append.mp hn).2.1).1

theorem Custody.fresh_next (h : Custody Tk O B F) :
    ¬ Tk B.slots.next ∧ (∀ o, ¬ O B.slots.next o) ∧ ¬ Held F B.slots.next := by
  refine ⟨fun ht => Nat.lt_irrefl _ (h.past _ (Or.inl ht)),
    fun o ho => Nat.lt_irrefl _ (h.past _ (Or.inr ⟨o, ho⟩)), fun hh => ?_⟩
  have := (h.held _ hh).1
  rw [Heap.get_next] at this
  cases this

/-! ## messages come and go -/

/-- a message is popped -/
theorem Custody.started {i : Nat} (h : Custody Tk O B F) (hi : B.queue[i]? = some s)
    (hc : B.currentMessage = none) :
    Custody Tk O { B with queue := B.queue.eraseIdx i, currentMessage := some ⟨s, true⟩ } F := by
  obtain ⟨hlt, hget⟩ := List.getElem?_eq_some_iff.mp hi
  have hperm : (s :: B.queue.eraseIdx i).Perm B.queue := by
    rw [← hget]
    exact List.getElem_cons_eraseIdx_perm hlt
  have hw : ∀ t, Waiting { B with
      queue := B.queue.eraseIdx i, currentMessage := some ⟨s, true⟩ } t ↔ Waiting B t := by
    intro t
    have hmem := hperm.mem_iff (a:=t)
    unfold Waiting
    rw [hc]
    simp only [List.mem_cons, Option.some.injEq, Guarded.mk.injEq, and_true, reduceCtorEq, or_false]
      at hmem ⊢
    rw [← hmem]
    exact ⟨fun hor => hor.elim Or.inr fun he => Or.inl he.symm,
      fun hor => hor.elim (fun he => Or.inr he.symm) Or.inl⟩
  exact { h with
    messages := by
      refine List.Perm.trans ?_ h.messages
      unfold Books.messages
      rw [hc]
      exact hperm.append_left _
    waiting := fun t ht => h.waiting t ((hw t).mp ht)
    settled := fun t st ht => (h.settled t st ht).imp_left (hw t).mpr }

/-- a message dies; it cancels its slot if nobody has taken the promise -/
theorem Custody.ended {g : Guarded} (h : Custody Tk O B F) (hg : B.currentMessage = some g) :
    Custody Tk O { B with
      slots := if g.owned then B.slots.modify g.slot fun st => st.cleanupFn.2 else B.slots
      currentMessage := none
      destroyed := B.destroyed ++ [g.slot] } F := by
  have hnot := h.not_queued hg
  have hnext : (if g.owned then B.slots.modify g.slot fun st => st.cleanupFn.2 else B.slots).next
      = B.slots.next := by split <;> rfl
  -- the other slots
  have hother : ∀ t, t ≠ g.slot ∨ g.owned = false →
      (if g.owned then B.slots.modify g.slot fun st => st.cleanupFn.2 else B.slots).get t
        = B.slots.get t := by
    intro t ht
    split
    · rename_i ho
      exact Heap.get_modify_ne (ht.resolve_right fun hf => by rw [ho] at hf; cases hf)
    · rfl
  have hown : g.owned = true → Waiting B g.slot := fun ho => Or.inr (by rw [hg, ← ho])
  have hne : ∀ {t}, ¬ Waiting B t → t ≠ g.slot ∨ g.owned = false := by
    intro t ht
    cases ho : g.owned with
    | false => exact Or.inr rfl
    | true => exact Or.inl fun he => ht (he ▸ hown ho)
  refine { h with
    messages := ?_, slots := fun t ht => ?_, past := fun t ht => ?_, waiting := fun t ht => ?_
    held := fun t ht => ?_, settled := fun t st ht => ?_ }
  · show (B.destroyed ++ [g.slot] ++ ([] ++ B.queue)).Perm (List.range _)
    rw [hnext]
    refine List.Perm.trans ?_ h.messages
    unfold Books.messages
    rw [hg, List.append_assoc]
    exact List.Perm.refl _
  · obtain ⟨st, hst⟩ := h.slots t (hnext ▸ ht)
    dsimp only
    split
    · exact ⟨_, Heap.get_modify_of hst⟩
    · exact ⟨st, hst⟩
  · exact hnext.symm ▸ h.past t ht
  · have hq : t ∈ B.queue := ht.resolve_right nofun
    rw [hother t (Or.inl fun he => hnot (he ▸ hq))]
    exact h.waiting t (Or.inl hq)
  · rw [hother t (hne fun hw => (h.waiting t hw).2.2.2 ht)]
    exact h.held t ht
  · by_cases hto : t = g.slot ∧ g.owned = true
    · obtain ⟨rfl, ho⟩ := hto
      obtain ⟨hfresh, hnt, -⟩ := h.waiting _ (hown ho)
      rw [if_pos ho, Heap.get_modify_self hfresh] at ht
      exact Or.inr (Or.inr (.canceled hnt (Option.some.inj ht).symm))
    · have hor : t ≠ g.slot ∨ g.owned = false := by
        by_cases hts : t = g.slot
        · exact Or.inr (Bool.eq_false_iff.mpr fun ho => hto ⟨hts, ho⟩)
        · exact Or.inl hts
      rw [hother t hor] at ht
      refine (h.settled t st ht).imp_left fun hw => Or.inl (hw.resolve_right fun hc => ?_)
      rw [hg] at hc
      cases hc
      exact hto ⟨rfl, rfl⟩

/-- a message is sent -/
theorem Custody.sent (h : Custody Tk O B F) : Custody Tk O { B with
    slots := B.slots.alloc .fresh
    queue := B.queue ++ [B.slots.next] } F := by
  obtain ⟨hnt, hno, hnh⟩ := h.fresh_next
  have hw : ∀ t, Waiting { B with
      slots := B.slots.alloc .fresh, queue := B.queue ++ [B.slots.next] } t →
      Waiting B t ∨ t = B.slots.next := by
    rintro t (hq | hc)
    · exact (List.mem_append.mp hq).imp Or.inl List.mem_singleton.mp
    · exact Or.inl (Or.inr hc)
  have hw' : ∀ t, Waiting B t → Waiting { B with
      slots := B.slots.alloc .fresh, queue := B.queue ++ [B.slots.next] } t :=
    fun t ht => ht.imp_left (List.mem_append_left _)
  refine { h with
    messages := ?_, slots := fun t ht => ?_, past := fun t ht => ?_, waiting := fun t ht => ?_
    held := fun t ht => ?_, settled := fun t st ht => ?_ }
  · show (B.destroyed ++ (_ ++ (B.queue ++ [B.slots.next]))).Perm (List.range (B.slots.next + 1))
    rw [List.range_succ, ← List.append_assoc, ← List.append_assoc, List.append_assoc B.destroyed]
    exact h.messages.append_right _
  · by_cases hlt : t < B.slots.next
    · obtain ⟨st, hst⟩ := h.slots t hlt
      exact ⟨st, Heap.get_alloc_of hst⟩
    · rw [Nat.le_antisymm (Nat.le_of_lt_succ ht) (Nat.le_of_not_lt hlt)]
      exact ⟨_, Heap.get_alloc_self⟩
  · exact Nat.lt_succ_of_lt (h.past t ht)
  · rcases hw t ht with hw | rfl
    · obtain ⟨h1, h2⟩ := h.waiting t hw
      exact ⟨Heap.get_alloc_of h1, h2⟩
    · exact ⟨Heap.get_alloc_self, hnt, hno, hnh⟩
  · obtain ⟨h1, h2⟩ := h.held t ht
    exact ⟨Heap.get_alloc_of h1, h2⟩
  · rcases Heap.get_alloc_some ht with ⟨rfl, -⟩ | ht
    · exact Or.inl (Or.inl (List.mem_append_right _ List.mem_cons_self))
    · exact (h.settled t st ht).imp_left (hw' t)

/-! ## promises -/

/-- a coroutine takes the promise of the message that has been popped -/
theorem Custody.taken (h : Custody Tk O B F) (hc : B.currentMessage = some ⟨s, true⟩)
    (hT : ∀ t, Tk' t ↔ Tk t ∨ t = s) (hO : ∀ t o, O' t o ↔ O t o)
    (ha : promisesOf F' a = promisesOf F a ++ [s])
    (hb : ∀ b, b ≠ a → promisesOf F' b = promisesOf F b) :
    Custody Tk' O' { B with currentMessage := some ⟨s, false⟩ } F' := by
  have hs : Waiting B s := Or.inr hc
  obtain ⟨hfresh, hnt, hno, hnh⟩ := h.waiting s hs
  have hheld : ∀ t, Held F' t ↔ Held F t ∨ t = s := by
    intro t
    constructor
    · rintro ⟨b, hbt⟩
      by_cases hba : b = a
      · subst hba
        rw [ha] at hbt
        exact (List.mem_append.mp hbt).imp (fun ht => ⟨b, ht⟩) List.mem_singleton.mp
      · exact Or.inl ⟨b, hb b hba ▸ hbt⟩
    · rintro (⟨b, hbt⟩ | rfl)
      · by_cases hba : b = a
        · subst hba
          exact ⟨b, by rw [ha]; exact List.mem_append_left _ hbt⟩
        · exact ⟨b, by rw [hb b hba]; exact hbt⟩
      · exact ⟨a, by rw [ha]; exact List.mem_append_right _ List.mem_cons_self⟩
  have hwait : ∀ t, Waiting { B with currentMessage := some ⟨s, false⟩ } t ↔ Waiting B t ∧ t ≠ s := by
    intro t
    constructor
    · rintro (hq | hcur)
      · exact ⟨Or.inl hq, fun he => h.not_queued hc (he ▸ hq)⟩
      · cases hcur
    · rintro ⟨hq | hcur, hts⟩
      · exact Or.inl hq
      · rw [hc] at hcur
        cases hcur
        exact absurd rfl hts
  refine ⟨?_, h.slots, fun t ht => ?_, fun t ht => ?_, fun t ht => ?_, fun b => ?_,
    fun b d t hbt hdt => ?_, fun t st ht => ?_⟩
  · refine List.Perm.trans ?_ h.messages
    unfold Books.messages
    rw [hc]
    exact List.Perm.refl _
  · rcases ht with ht | ⟨o, ho⟩
    · rcases (hT t).mp ht with ht | rfl
      · exact h.past t (Or.inl ht)
      · exact Heap.lt_next hfresh
    · exact h.past t (Or.inr ⟨o, (hO t o).mp ho⟩)
  · obtain ⟨hw, hts⟩ := (hwait t).mp ht
    obtain ⟨h1, h2, h3, h4⟩ := h.waiting t hw
    exact ⟨h1, fun ht => ((hT t).mp ht).elim h2 hts, fun o ho => h3 o ((hO t o).mp ho),
      fun hh => ((hheld t).mp hh).elim h4 hts⟩
  · rcases (hheld t).mp ht with hh | rfl
    · obtain ⟨h1, h2, h3⟩ := h.held t hh
      exact ⟨h1, (hT t).mpr (Or.inl h2), fun o ho => h3 o ((hO t o).mp ho)⟩
    · exact ⟨hfresh, (hT t).mpr (Or.inr rfl), fun o ho => hno o ((hO t o).mp ho)⟩
  · by_cases hba : b = a
    · subst hba
      rw [ha]
      refine List.nodup_append.mpr ⟨h.nodup b, List.nodup_cons.mpr ⟨nofun, List.nodup_nil⟩, ?_⟩
      rintro x hx y hy rfl
      exact hnh ⟨b, List.mem_singleton.mp hy ▸ hx⟩
    · rw [hb b hba]
      exact h.nodup b
  · -- the promise that was taken is in one place, the others stay
    have hplace : ∀ {b}, t ∈ promisesOf F' b → t ∈ promisesOf F b ∨ b = a ∧ t = s := by
      intro b hbt
      by_cases hba : b = a
      · subst hba
        rw [ha] at hbt
        exact (List.mem_append.mp hbt).imp_right fun ht => ⟨rfl, List.mem_singleton.mp ht⟩
      · exact Or.inl (hb b hba ▸ hbt)
    rcases hplace hbt with hb0 | ⟨rfl, rfl⟩ <;> rcases hplace hdt with hd0 | ⟨rfl, he⟩
    · exact h.unique b d t hb0 hd0
    · exact absurd ⟨b, he ▸ hb0⟩ hnh
    · exact absurd ⟨d, hd0⟩ hnh
    · rfl
  · rcases h.settled t st ht with hw | hh | hst
    · by_cases hts : t = s
      · exact Or.inr (Or.inl ((hheld t).mpr (Or.inr hts)))
      · exact Or.inl ((hwait t).mpr ⟨hw, hts⟩)
    · exact Or.inr (Or.inl ((hheld t).mpr (Or.inl hh)))
    · by_cases hts : t = s
      · exact Or.inr (Or.inl ((hheld t).mpr (Or.inr hts)))
      · exact Or.inr (Or.inr (hst.congr ((hT t).trans (or_iff_left hts)) (hO t)))

/-- a promise settles its state -/
theorem Custody.settles {o : Outcome T X} (h : Custody Tk O B F)
    (ha : (promisesOf F a).Perm (s :: promisesOf F' a))
    (hb : ∀ b, b ≠ a → promisesOf F' b = promisesOf F b) (hT : ∀ t, Tk' t ↔ Tk t)
    (hO : ∀ t, t ≠ s → ∀ o, O' t o ↔ O t o)
    (hs : SettledBy Tk' O' s (State.fresh.setOutcome o).settle.2) :
    Custody Tk' O' { B with slots := B.slots.modify s fun st => (st.setOutcome o).settle.2 } F' := by
  have hmem : s ∈ promisesOf F a := ha.mem_iff.mpr List.mem_cons_self
  obtain ⟨hfresh, htk, hno⟩ := h.held s ⟨a, hmem⟩
  have hnotin : s ∉ promisesOf F' a := (List.nodup_cons.mp (ha.nodup (h.nodup a))).1
  have hheld : ∀ t, Held F' t ↔ Held F t ∧ t ≠ s := by
    intro t
    constructor
    · rintro ⟨b, hbt⟩
      by_cases hba : b = a
      · subst hba
        exact ⟨⟨b, ha.mem_iff.mpr (List.mem_cons_of_mem _ hbt)⟩, fun he => hnotin (he ▸ hbt)⟩
      · rw [hb b hba] at hbt
        exact ⟨⟨b, hbt⟩, fun he => hba (h.unique b a s (he ▸ hbt) hmem)⟩
    · rintro ⟨⟨b, hbt⟩, hts⟩
      by_cases hba : b = a
      · subst hba
        exact ⟨b, (List.mem_cons.mp (ha.mem_iff.mp hbt)).resolve_left hts⟩
      · exact ⟨b, by rw [hb b hba]; exact hbt⟩
  have hother : ∀ {t}, t ≠ s →
      (B.slots.modify s fun st => (st.setOutcome o).settle.2).get t = B.slots.get t :=
    fun hts => Heap.get_modify_ne hts
  have hws : ∀ {t}, Waiting B t → t ≠ s := by
    rintro t ht rfl
    exact (h.waiting t ht).2.2.2 ⟨a, hmem⟩
  refine ⟨h.messages, fun t ht => ?_, fun t ht => ?_, fun t ht => ?_, fun t ht => ?_, fun b => ?_,
    fun b d t hbt hdt => ?_, fun t st ht => ?_⟩
  · obtain ⟨st, hst⟩ := h.slots t ht
    exact ⟨_, Heap.get_modify_of hst⟩
  · by_cases hts : t = s
    · subst hts
      show t < B.slots.next
      exact Heap.lt_next hfresh
    · exact h.past t (ht.imp (hT t).mp fun ⟨o, ho⟩ => ⟨o, (hO t hts o).mp ho⟩)
  · have hts := hws ht
    obtain ⟨h1, h2, h3, h4⟩ := h.waiting t ht
    exact ⟨(hother hts).trans h1, fun ht => h2 ((hT t).mp ht),
      fun o ho => h3 o ((hO t hts o).mp ho), fun hh => h4 ((hheld t).mp hh).1⟩
  · obtain ⟨hh, hts⟩ := (hheld t).mp ht
    obtain ⟨h1, h2, h3⟩ := h.held t hh
    exact ⟨(hother hts).trans h1, (hT t).mpr h2, fun o ho => h3 o ((hO t hts o).mp ho)⟩
  · by_cases hba : b = a
    · subst hba
      exact (List.nodup_cons.mp (ha.nodup (h.nodup b))).2
    · rw [hb b hba]
      exact h.nodup b
  · have hback : ∀ {b}, t ∈ promisesOf F' b → t ∈ promisesOf F b := by
      intro b hbt
      by_cases hba : b = a
      · subst hba
        exact ha.mem_iff.mpr (List.mem_cons_of_mem _ hbt)
      · exact hb b hba ▸ hbt
    exact h.unique b d t (hback hbt) (hback hdt)
  · by_cases hts : t = s
    · subst hts
      rw [Heap.get_modify_self hfresh] at ht
      rw [← Option.some.inj ht]
      exact Or.inr (Or.inr hs)
    · rw [hother hts] at ht
      rcases h.settled t st ht with hw | hh | hst
      · exact Or.inl hw
      · exact Or.inr (Or.inl ((hheld t).mpr ⟨hh, hts⟩))
      · exact Or.inr (Or.inr (hst.congr (hT t) (hO t hts)))

end
end
end ActorZeta
