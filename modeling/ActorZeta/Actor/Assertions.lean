import ActorZeta.Actor.Messages

/-!
# No assertion fails

The assertions of `cooperative_actor` and of the inbox, each at the place in the source where it
stands, on the word that the thread has read and on the members that it looks at.

* `asserted`     what the next step of a thread asserts;
* `recalled`, `unbusy`   what a thread keeps in mind between its steps, and which drivers know that
                 no behavior is suspended;
* `Recalled.step`   every step of a run in time keeps this;
* `no_assertion_fails`   no assertion fails in any such run, up to and through the destructor.

Left out are the assertions on the magic number of a debug build, on the clock of the drain, and
those on an argument (`max_throughput > 0`, a message that is there, one of two new heads).
-/

namespace ActorZeta

namespace ActorState

def scheduled : ActorState := 0b001
def idleDestroying : ActorState := 0b100
def scheduledDestroying : ActorState := 0b101

def flagsOf (s : ActorState) : ActorState := s % kSenderStep

/-- the four values the flags of a word have when `running` is not set -/
theorem flagsOf_of_not_running {s : ActorState} (h : s.isRunning = false) :
    s.flagsOf = idle ∨ s.flagsOf = scheduled ∨ s.flagsOf = idleDestroying ∨
      s.flagsOf = scheduledDestroying := by
  have hmod : s.flagsOf.toNat = s.toNat % 8 := BitVec.toNat_umod
  have hbit : s.toNat / 2 % 2 = 0 := by
    rw [isRunning_bit] at h
    have hb : s.toNat.testBit 1 = false := h
    rw [Nat.testBit_eq_decide_div_mod_eq] at hb
    have := of_decide_eq_false hb
    omega
  have hcases : s.toNat % 8 = 0 ∨ s.toNat % 8 = 1 ∨ s.toNat % 8 = 4 ∨ s.toNat % 8 = 5 := by omega
  rw [← hmod] at hcases
  exact hcases.imp BitVec.eq_of_toNat_eq (Or.imp BitVec.eq_of_toNat_eq
    (Or.imp BitVec.eq_of_toNat_eq BitVec.eq_of_toNat_eq))

end ActorState

/-! ## the assertions -/

namespace SendPc

/-- in `enqueue_impl` and in `leave_and_maybe_schedule` -/
def asserted : SendPc → Bool
  | .regCas current _ => current.isDestroying || current.senderCount.toNat < 2 ^ 29 - 1
  | .leaveCas _ current _ => 0 < current.senderCount.toNat
  | _ => true

end SendPc

namespace TakeHead
variable {β : Type}

/-- in `take_head(new_head)`: on the first read, and on the value that a successful exchange has
replaced -/
def asserted (newHead : Head) (b : Inbox β) : TakeHead β → Bool
  | .load => b.head != .closedTag && (b.head != .blockedTag || newHead == .closedTag)
  | .cas last => last != .closedTag && (!isEmptyOrBlockedTag last || newHead == .closedTag)
  | .done _ => true

end TakeHead

namespace RunPc
variable {β : Type}

/-- in `try_acquire_running`, in `resume_impl`, in `park` and in `~resume_guard`; a behavior that is
not done is suspended on a future -/
def asserted (m : ActorMem β) : RunPc β → Bool
  | .acqCas current _ => current.isRunning || (current.flagsOf == .idle ||
      current.flagsOf == .scheduled || current.flagsOf == .idleDestroying ||
      current.flagsOf == .scheduledDestroying)
  | .unpark => m.word.isRunning
  | .fetching _ t => t.asserted .emptyTag m.box.inbox
  | .parking _ => !m.busy
  | .guardCas _ _ _ o _ => o.current.isRunning
  | _ => true

/-- what a driver has read -/
def recalled : RunPc β → Bool
  | .guardCas _ _ _ o _ => o.current.isRunning
  | _ => true

/-- from the check of `is_busy()` to `park()` -/
def unbusy : RunPc β → Bool
  | .entryBlocked | .fetching .entry _ | .fetching (.pop _) _ | .nothing _ | .parking _ => true
  | _ => false

end RunPc

namespace Destructor
variable {β : Type}

/-- before the terminal state, and in `take_head(stack_closed_tag())` -/
def asserted (m : ActorMem β) : Destructor β → Bool
  | .termCas current _ => !current.isRunning && current.senderCount == 0
  | .closing t => t.asserted .closedTag m.box.inbox
  | _ => true

/-- what the destructor has read -/
def recalled : Destructor β → Bool
  | .termCas current _ => !current.isRunning && current.senderCount == 0
  | .closing (.cas last) => last != .closedTag
  | .closing (.done _) => false
  | _ => true

end Destructor

namespace Thread
variable {β T X : Type}

/-- what the next step asserts -/
def asserted (m : ActorMem β) : Thread β T X → Bool
  | .send s => s.pc.asserted
  | .run r => r.pc.asserted m
  | .delete x => x.asserted m

/-- what a thread has read -/
def recalled : Thread β T X → Bool
  | .send s => s.pc.asserted
  | .run r => r.pc.recalled
  | .delete x => x.recalled

def unbusy : Thread β T X → Bool
  | .run r => r.pc.unbusy
  | _ => false

def isDelete : Thread β T X → Bool
  | .delete _ => true
  | _ => false

end Thread

/-! ## one step -/

section
variable {β T X : Type} {m m' : ActorMem β}

theorem loopHead_unbusy (max n : Nat) : (Runner.loopHead max n : RunPc β).unbusy = false := by
  unfold Runner.loopHead
  split <;> rfl

/-- nothing between the check of `is_busy()` and `park()` suspends a behavior -/
theorem run_unbusy {max : Nat} {g : Choice} {pc pc' : RunPc β}
    (h : Runner.stepPc max g m pc = some (m', pc')) (hpc : pc.unbusy = true → m.busy = false)
    (hpc' : pc'.unbusy = true) : m'.busy = false := by
  cases Runner.step_does h with
  | goOn hgo hm =>
    have hbusy : m.busy = false := by
      cases hgo with
      | entryFetch | nothing => exact hpc rfl
      | tail hc hb => exact hb
      | _ => cases hpc'
    rcases hm with rfl | rfl <;> exact hbusy
  | unpark hb => exact hb
  | resumed => rfl
  | @fetchAgain w =>
    cases w with
    | race n => cases hpc'
    | _ => exact hpc rfl
  | entryEmpty | nothing => exact hpc rfl
  | pop hp | fetch hp =>
    have hbusy := hp.unbusy fun t ht => hpc (by rw [ht]; rfl)
    exact hbusy
  | entryFull | drop | handle =>
    rw [loopHead_unbusy] at hpc'
    cases hpc'
  | _ => cases hpc'

/-- a sender reads a word that counts it -/
theorem send_recalled {weak : Bool} {s s' : Sender β T X} (h : s.step weak m = some (m', s'))
    (hs : s.pc.asserted = true) (hfew : m.word.senderCount.toNat < 2 ^ 29 - 1)
    (hcount : s.pc.role.isRegistered = true → 0 < m.word.senderCount.toNat) :
    s'.pc.asserted = true := by
  have hreg : ∀ n, (SendPc.regCas m.word n).asserted = true := fun n =>
    Bool.or_eq_true_iff.mpr (Or.inr (decide_eq_true hfew))
  cases Sender.step_does h with
  | regLoad | regAgain => exact hreg _
  | leaveLoad | leaveAgain => exact decide_eq_true (hcount rfl)
  | regBound | leaveBound => exact hs
  | _ => rfl

/-- a driver on its way out reads a word in which it is running -/
theorem run_recalled {max : Nat} {node : Bool} {g : Choice} {pc pc' : RunPc β}
    (h : Runner.stepPc max g m pc = some (m', pc')) (hpc : pc.recalled = true)
    (hrun : (pc.role node).holds = true → m.word.isRunning = true) : pc'.recalled = true := by
  have hhead : ∀ n, (Runner.loopHead max n : RunPc β).recalled = true := fun n => by
    unfold Runner.loopHead
    split <;> rfl
  cases Runner.step_does h with
  | guardLoad | guardAgain => exact hrun rfl
  | guardBound => exact hpc
  | goOn hgo => cases hgo <;> rfl
  | entryFull | drop | handle => exact hhead _
  | _ => rfl

/-- what `take_head(stack_closed_tag())` has read of an inbox that is not closed -/
theorem TakeHead.step_looks {weak : Bool} {b b' : Inbox β} {t t' : TakeHead β}
    (h : t.step .closedTag weak b = some (b', t')) (hb : b.head ≠ .closedTag) :
    (∃ chain, t' = .done chain) ∨ t' = .cas b.head := by
  have hseen : TakeHead.seen .closedTag b.head = (.cas b.head : TakeHead β) := if_neg hb
  cases t with
  | load =>
    simp only [TakeHead.step] at h
    split at h
    · cases h
    · cases h
      exact Or.inr hseen
  | cas last =>
    simp only [TakeHead.step] at h
    split at h
    · split at h
      · cases h
      · cases h
        exact Or.inl ⟨_, rfl⟩
    · cases h
      exact Or.inr hseen
  | done l => cases h

/-- the destructor reads a word without senders and drivers, and an inbox that is not closed -/
theorem delete_recalled {g : Choice} {x x' : Destructor β} (h : x.step g m = some (m', x'))
    (hx : x.recalled = true) (hw : x'.role = .deleting true → m.word.isRunning = false ∧
      m.word.senderCount = 0) (hc : (∃ t, x = .closing t) → m.box.inbox ≠ .closed) :
    x'.recalled = true := by
  have hpub : ∀ n, (Destructor.publish m.word n : Destructor β).recalled = true := fun n => by
    unfold Destructor.publish
    split <;> rfl
  have hterm : m.word.isRunning = false ∧ m.word.senderCount = 0 → ∀ n,
      (Destructor.termCas m.word n : Destructor β).recalled = true := fun ⟨h1, h2⟩ n => by
    show (!m.word.isRunning && m.word.senderCount == 0) = true
    rw [h1, h2]
    rfl
  cases Destructor.step_does h with
  | load | publishAgain => exact hpub _
  | termLoad | termAgain => exact hterm (hw rfl) _
  | termBound => exact hx
  | @closeAgain t last hs =>
    have hhead : m.box.inbox.head ≠ .closedTag := fun hh => hc ⟨t, rfl⟩ (Inbox.head_closed.mp hh)
    obtain ⟨⟨b, u⟩, hu, hbox⟩ := Option.map_eq_some_iff.mp hs
    obtain ⟨-, rfl⟩ := Prod.mk.inj hbox
    rcases TakeHead.step_looks hu hhead with ⟨chain, hd⟩ | hd
    · cases hd
    · cases hd
      exact bne_iff_ne.mpr hhead
  | _ => rfl

/-! ### the flag of the destructor -/

theorem send_deleted {weak : Bool} {s s' : Sender β T X} (h : s.step weak m = some (m', s')) :
    m'.deleted = m.deleted := by
  cases Sender.step_does h <;> rfl

theorem run_deleted {max : Nat} {g : Choice} {pc pc' : RunPc β}
    (h : Runner.stepPc max g m pc = some (m', pc')) : m'.deleted = m.deleted := by
  cases Runner.step_does h with
  | goOn _ hm | turnBack _ hm => rcases hm with rfl | rfl <;> rfl
  | pop hp | fetch hp => cases hp <;> rfl
  | _ => rfl

theorem delete_deleted {g : Choice} {x x' : Destructor β} (h : x.step g m = some (m', x')) :
    m'.deleted = m.deleted := by
  cases Destructor.step_does h with
  | wait hw hm => rcases hm with rfl | rfl <;> rfl
  | _ => rfl

end

/-! ## runs in time -/

namespace Actor
variable {β T X : Type} {c d : Conf β T X}

/-- what the threads have read, what some drivers know, and the one destructor -/
structure Recalled (c : Conf β T X) : Prop where
  recalled : ∀ t ∈ c.pool, t.recalled = true
  unbusy : ∀ t ∈ c.pool, t.unbusy = true → c.sh.busy = false
  one : c.pool.countP Thread.isDelete ≤ 1 ∧ (c.sh.deleted = false →
    c.pool.countP Thread.isDelete = 0)
  closed : c.sh.box.inbox = .closed → Thread.delete .finished ∈ c.pool

theorem Recalled.init : Recalled (init : Conf β T X) where
  recalled _ ht := absurd ht List.not_mem_nil
  unbusy _ ht := absurd ht List.not_mem_nil
  one := ⟨Nat.zero_le _, fun _ => rfl⟩
  closed h := nomatch h

theorem Thread.unbusy_holds {t : Thread β T X} (h : t.unbusy = true) : t.role.holds = true := by
  cases t with
  | run r =>
    obtain ⟨max, node, pc⟩ := r
    cases pc with
    | fetching w t => cases w <;> rfl
    | entryBlocked | nothing n | parking n => rfl
    | _ => cases h
  | _ => cases h

/-- a thread begins without a word, and only one destructor begins -/
theorem enter_recalled {m m' : ActorMem β} {t : Thread β T X} (h : enter m t = some m') :
    t.recalled = true ∧ t.unbusy = false ∧ m'.busy = m.busy ∧ m'.box = m.box ∧
      (t.isDelete = false ∧ m'.deleted = m.deleted ∨ m.deleted = false ∧ m'.deleted = true) := by
  unfold enter at h
  split at h
  · split at h
    · rename_i hc
      obtain ⟨rfl, -⟩ := hc
      cases h
      exact ⟨rfl, rfl, rfl, rfl, Or.inl ⟨rfl, rfl⟩⟩
    · cases h
  · split at h
    · cases h; exact ⟨rfl, rfl, rfl, rfl, Or.inl ⟨rfl, rfl⟩⟩
    · cases h
  · split at h
    · rename_i hc
      cases h
      exact ⟨rfl, rfl, rfl, rfl, Or.inr ⟨hc.1, rfl⟩⟩
    · cases h
  · cases h

theorem Recalled.spawn {t : Thread β T X} (h : Recalled c) (hs : step c (.spawn t) = some d) :
    Recalled d := by
  obtain ⟨he, hp⟩ := TS.Conf.step_spawn hs
  obtain ⟨hrec, hun, hbusy, hbox, hdel⟩ := enter_recalled he
  have hmem : ∀ u ∈ d.pool, u ∈ c.pool ∨ u = t := by
    intro u hu
    rw [hp] at hu
    exact (List.mem_append.mp hu).imp id List.mem_singleton.mp
  have hold : ∀ u ∈ c.pool, u ∈ d.pool := fun u hu => hp ▸ List.mem_append_left _ hu
  have hcount : d.pool.countP Thread.isDelete
      = c.pool.countP Thread.isDelete + t.isDelete.toNat := by
    rw [hp, List.countP_append, List.countP_singleton]
    cases t.isDelete <;> rfl
  refine ⟨fun u hu => ?_, fun u hu hub => ?_, ?_, fun hc => ?_⟩
  · rcases hmem u hu with hu | rfl
    · exact h.recalled u hu
    · exact hrec
  · rw [hbusy]
    rcases hmem u hu with hu | rfl
    · exact h.unbusy u hu hub
    · rw [hun] at hub
      cases hub
  · rw [hcount]
    rcases hdel with ⟨ht, hd⟩ | ⟨hc, hd⟩
    · rw [ht, hd]
      exact h.one
    · rw [h.one.2 hc]
      refine ⟨?_, fun hd' => ?_⟩
      · rw [Nat.zero_add]
        exact Bool.toNat_le _
      · rw [hd] at hd'
        cases hd'
  · exact hold _ (h.closed (hbox ▸ hc))

/-- what a thread in a run in time may take for granted -/
structure Grounds (c : Conf β T X) (t t' : Thread β T X) : Prop where
  few : c.sh.word.senderCount.toNat < 2 ^ 29 - 1
  registered : t.role.isRegistered = true → 0 < c.sh.word.senderCount.toNat
  running : t.role.holds = true → c.sh.word.isRunning = true
  drained : t'.role = .deleting true →
    c.sh.word.isRunning = false ∧ c.sh.word.senderCount = 0

/-- a driver that holds `running` finds it set, and the destructor before the end of its drain -/
theorem Teardown.inside (h : Teardown c) {t : Thread β T X} (ht : t ∈ c.pool)
    (hr : t.role.holds = true) : c.sh.word.isRunning = true ∧ drained c = false := by
  have hmem : t.role ∈ c.pool.map Thread.role := List.mem_map_of_mem ht
  constructor
  · have hpos : 0 < (c.pool.map Thread.role).countP Role.holds :=
      List.countP_pos_iff.mpr ⟨_, hmem, hr⟩
    rw [h.drain.holders] at hpos
    exact Bool.eq_true_of_not_eq_false fun hw => absurd hpos (by
      rw [show c.sh.view.word.isRunning = false from hw]
      exact Nat.lt_irrefl 0)
  · refine Bool.eq_false_iff.mpr fun hd => ?_
    obtain ⟨u, hu, hur⟩ := List.any_eq_true.mp hd
    have hin := h.drain.drained (beq_iff_eq.mp hur ▸ List.mem_map_of_mem hu) _ hmem
    rw [(Role.inside_false.mp hin).2.1] at hr
    cases hr

/-- past the drain nobody is inside -/
theorem Teardown.empty (h : Teardown c) (hd : drained c = true) :
    c.sh.word.isRunning = false ∧ c.sh.word.senderCount = 0 := by
  have hin := h.drain.drained (drained_iff.mp hd)
  have hnone : ∀ p : Role → Bool, (∀ r, p r = true → r.inside = true) →
      (c.pool.map Thread.role).countP p = 0 := fun p hp =>
    List.countP_eq_zero.mpr fun r hr hpr => by
      have := hin r hr
      rw [hp r hpr] at this
      cases this
  have hregs : c.sh.word.senderCount.toNat = 0 := h.drain.count.trans (hnone _ fun r hr => by
    rw [Role.inside, hr, Bool.true_or, Bool.true_or])
  have hholds : c.sh.word.isRunning.toNat = 0 :=
    h.drain.holders.symm.trans (hnone _ fun r hr => by
      rw [Role.inside, hr, Bool.or_true, Bool.true_or])
  exact ⟨Bool.toNat_eq_zero.mp hholds, BitVec.eq_of_toNat_eq hregs⟩

theorem Teardown.grounds (h : Teardown c) {t t' : Thread β T X} {g : Choice} {m' : ActorMem β}
    (ht : t ∈ c.pool) (he : exec g c.sh t = some (m', t')) : Grounds c t t' := by
  have hmem : t.role ∈ c.pool.map Thread.role := List.mem_map_of_mem ht
  have hcount : c.sh.word.senderCount.toNat
      = (c.pool.map Thread.role).countP Role.isRegistered := h.drain.count
  refine ⟨?_, fun hr => ?_, fun hr => ?_, fun hr => ?_⟩
  · rw [hcount, List.countP_map]
    exact Nat.lt_of_le_of_lt (List.countP_mono_left fun u _ hu => registered_calling hu) h.few
  · rw [hcount]
    exact List.countP_pos_iff.mpr ⟨_, hmem, hr⟩
  · exact (h.inside ht hr).1
  · by_cases hdel : t.role = .deleting true
    · exact h.empty (drained_iff.mpr (hdel ▸ hmem))
    · exact (exec_move he).drains hr hdel

theorem exec_deleted {g : Choice} {m m' : ActorMem β} {t t' : Thread β T X}
    (h : exec g m t = some (m', t')) :
    m'.deleted = m.deleted ∧ t'.isDelete = t.isDelete := by
  rcases exec_cases h with ⟨s, s', rfl, rfl, hs⟩ | ⟨max, node, pc, pc', rfl, rfl, hs⟩ |
    ⟨x, x', rfl, rfl, hs⟩
  · exact ⟨send_deleted hs, rfl⟩
  · exact ⟨run_deleted hs, rfl⟩
  · exact ⟨delete_deleted hs, rfl⟩

/-- only the destructor closes the inbox, and is through with it -/
theorem exec_closes {g : Choice} {m m' : ActorMem β} {t t' : Thread β T X}
    (h : exec g m t = some (m', t')) (hm : m.box.inbox ≠ .closed) (hc : m'.box.inbox = .closed) :
    t' = .delete .finished := by
  rcases (exec_move h).closed (tag_closed.mpr hc) with ht | ht
  · exact absurd (tag_closed.mp ht) hm
  · obtain ⟨x, rfl⟩ := role_deleting ht
    rcases exec_cases h with ⟨_, _, hx, -⟩ | ⟨_, _, _, _, hx, -⟩ | ⟨y, y', hx, rfl, hs⟩
    · cases hx
    · cases hx
    · cases hx
      cases Destructor.step_does hs with
      | closed | close => rfl
      | wait hw hm' => cases ht
      | _ => exact absurd hc hm

/-- while the destructor closes the inbox, it is not closed -/
theorem Recalled.closing (h : Recalled c) {t : TakeHead β}
    (ht : Thread.delete (.closing t) ∈ c.pool) : c.sh.box.inbox ≠ .closed := by
  intro hc
  obtain ⟨l₁, l₂, hp⟩ := List.append_of_mem ht
  have hf := h.closed hc
  rw [hp] at hf
  have hle := h.one.1
  rw [hp] at hle
  have hrest : Thread.delete .finished ∈ l₁ ++ l₂ := by
    rcases List.mem_append.mp hf with hf | hf
    · exact List.mem_append_left _ hf
    · rcases List.mem_cons.mp hf with hf | hf
      · cases hf
      · exact List.mem_append_right _ hf
  have := TS.not_of_countP_le_one (p:=Thread.isDelete) hle rfl hrest
  cases this

theorem Recalled.run {i : Nat} {g : Choice} (h : Recalled c) (hT : Teardown c)
    (hs : step c (.run i g) = some d) : Recalled d := by
  obtain ⟨l₁, t, l₂, t', hp, -, he, hp'⟩ := TS.Conf.step_run hs
  have hperm : c.pool.Perm (t :: (l₁ ++ l₂)) := hp ▸ List.perm_middle
  have hperm' : d.pool.Perm (t' :: (l₁ ++ l₂)) := hp' ▸ List.perm_middle
  have ht : t ∈ c.pool := hperm.mem_iff.mpr List.mem_cons_self
  have hold : ∀ u ∈ l₁ ++ l₂, u ∈ c.pool := fun u hu =>
    hperm.mem_iff.mpr (List.mem_cons_of_mem _ hu)
  have hG := hT.grounds ht he
  obtain ⟨hdel, hkind⟩ := exec_deleted he
  -- the thread that moves
  have hself : t'.recalled = true ∧ (t'.unbusy = true → d.sh.busy = false) := by
    have hrec := h.recalled t ht
    rcases exec_cases he with ⟨s, s', rfl, rfl, hs⟩ | ⟨max, node, pc, pc', rfl, rfl, hs⟩ |
      ⟨x, x', rfl, rfl, hs⟩
    · exact ⟨send_recalled hs hrec hG.few hG.registered, nofun⟩
    · exact ⟨run_recalled hs hrec hG.running, run_unbusy hs (h.unbusy _ ht)⟩
    · refine ⟨delete_recalled hs hrec hG.drained ?_, nofun⟩
      rintro ⟨y, rfl⟩
      exact h.closing ht
  refine ⟨fun u hu => ?_, fun u hu hub => ?_, ?_, fun hc => ?_⟩
  · rcases List.mem_cons.mp (hperm'.mem_iff.mp hu) with rfl | hu
    · exact hself.1
    · exact h.recalled u (hold u hu)
  · rcases List.mem_cons.mp (hperm'.mem_iff.mp hu) with rfl | hu
    · exact hself.2 hub
    · -- another one holds `running`, so this step leaves the behavior alone
      have huh := Thread.unbusy_holds hub
      have hmem : u.role ∈ c.pool.map Thread.role := List.mem_map_of_mem (hold u hu)
      have hnot : t.role.holds = false := by
        refine Bool.eq_false_iff.mpr fun hth => ?_
        have hle : c.pool.countP (fun t : Thread β T X => t.role.holds) ≤ 1 := by
          have hholders := hT.drain.holders
          rw [List.countP_map] at hholders
          show c.pool.countP (Role.holds ∘ Thread.role) ≤ 1
          rw [hholders]
          exact Bool.toNat_le _
        rw [hp] at hle
        rw [TS.not_of_countP_le_one (p:=fun t : Thread β T X => t.role.holds) hle hth hu] at huh
        cases huh
      have hnd : t.role ≠ .deleting true := by
        intro hd
        have hin := hT.drain.drained (hd ▸ List.mem_map_of_mem ht) _ hmem
        rw [(Role.inside_false.mp hin).2.1] at huh
        cases huh
      rw [(exec_frame he hnot hnd).1]
      exact h.unbusy u (hold u hu) hub
  · have hcount : d.pool.countP Thread.isDelete = c.pool.countP Thread.isDelete := by
      rw [hperm.countP_eq, hperm'.countP_eq, List.countP_cons, List.countP_cons, hkind]
    rw [hcount, hdel]
    exact h.one
  · by_cases hc0 : c.sh.box.inbox = .closed
    · -- the destructor that has closed it takes no step
      rcases List.mem_cons.mp (hperm.mem_iff.mp (h.closed hc0)) with hf | hf
      · rw [← hf] at he
        rw [exec_through rfl] at he
        cases he
      · exact hperm'.mem_iff.mpr (List.mem_cons_of_mem _ hf)
    · exact hperm'.mem_iff.mpr (exec_closes he hc0 hc ▸ List.mem_cons_self)

theorem Recalled.step {a : Act β T X} (h : Recalled c) (hT : Teardown c)
    (hs : step c a = some d) : Recalled d := by
  cases a with
  | spawn t => exact h.spawn hs
  | run i g => exact h.run hT hs

theorem recalled_of_run {as : List (Act β T X)}
    (h : TS.run (TS.restrict step inTime) init as = some c) : Teardown c ∧ Recalled c :=
  TS.run_inv (I:=fun c => Teardown c ∧ Recalled c)
    (fun _ _ _ hI hs => ⟨hI.1.step hs, hI.2.step hI.1 (TS.restrict_some.mp hs).2⟩)
    ⟨Teardown.init, Recalled.init⟩ h

/-- what `take_head()` asserts of an open inbox -/
theorem TakeHead.asserted_open {b : Inbox β} {t : TakeHead β} (hc : b ≠ .closed)
    (hb : b ≠ .blocked) (ht : t.armed = true) : t.asserted .emptyTag b = true := by
  cases t with
  | load =>
    refine Bool.and_eq_true_iff.mpr ⟨bne_iff_ne.mpr fun h => hc (Inbox.head_closed.mp h), ?_⟩
    rw [bne_iff_ne.mpr fun h => hb (Inbox.head_blocked.mp h), Bool.true_or]
  | cas last =>
    obtain ⟨h1, h2⟩ := Bool.and_eq_true_iff.mp ht
    exact Bool.and_eq_true_iff.mpr ⟨h1, by rw [h2, Bool.true_or]⟩
  | done l => rfl

/-- what `take_head(stack_closed_tag())` asserts of an inbox that is not closed -/
theorem TakeHead.asserted_closing {b : Inbox β} {t : TakeHead β} (hc : b ≠ .closed)
    (ht : (Destructor.closing t).recalled = true) : t.asserted .closedTag b = true := by
  cases t with
  | load =>
    refine Bool.and_eq_true_iff.mpr ⟨bne_iff_ne.mpr fun h => hc (Inbox.head_closed.mp h), ?_⟩
    exact Bool.or_true _
  | cas last => exact Bool.and_eq_true_iff.mpr ⟨ht, Bool.or_true _⟩
  | done l => rfl

theorem Recalled.asserted (hR : Recalled c) (hT : Teardown c) (hO : drained c = false → Open c)
    {t : Thread β T X} (ht : t ∈ c.pool) : t.asserted c.sh = true := by
  have hrec := hR.recalled t ht
  cases t with
  | send s => exact hrec
  | run r =>
    obtain ⟨max, node, pc⟩ := r
    cases pc with
    | acqCas current n =>
      show (current.isRunning || (_ || _ || _ || _)) = true
      cases hw : current.isRunning with
      | true => rfl
      | false =>
        rcases ActorState.flagsOf_of_not_running hw with hf | hf | hf | hf <;>
          rw [hf] <;> decide
    | unpark => exact (hT.inside ht rfl).1
    | fetching w t =>
      have hO := hO (hT.inside ht (by cases w <;> rfl)).2
      exact TakeHead.asserted_open hO.closed (hO.unparked _ ht rfl) (hO.sound _ ht)
    | parking n =>
      show (!c.sh.busy) = true
      rw [hR.unbusy _ ht rfl]
      rfl
    | guardCas a n k o i => exact hrec
    | _ => rfl
  | delete x =>
    cases x with
    | termCas current n => exact hrec
    | closing t => exact TakeHead.asserted_closing (hR.closing ht) hrec
    | _ => rfl

/-- **No assertion fails**, in every reachable state of any number of senders, of drivers, called
or uncalled, and of the destructor, if few enough calls are made at a time and no driver comes too
late: what the next step of a thread asserts is true. -/
theorem no_assertion_fails (as : List (Act β T X)) (c : Conf β T X)
    (h : TS.run (TS.restrict step inTime) init as = some c) (t : Thread β T X) (ht : t ∈ c.pool) :
    t.asserted c.sh = true := by
  obtain ⟨hT, hR⟩ := recalled_of_run h
  exact hR.asserted hT (open_of_run (TS.run_of_restrict h)) ht

/-- a driver about to take the inbox, with a message in it -/
theorem no_assertion_fails_fetching :
    ∃ (c : Conf Unit Nat Unit) (last : Head),
      Thread.run ⟨1, true, .fetching .entry (.cas last)⟩ ∈ c.pool ∧
      (Thread.run ⟨1, true, .fetching .entry (.cas last)⟩ : Thread Unit Nat Unit).asserted c.sh
        = true :=
  ⟨_, .node (some 16), List.mem_of_getElem? (i:=1) rfl,
    no_assertion_fails (handledAndDestroyed.take 16) _ rfl _ (List.mem_of_getElem? (i:=1) rfl)⟩

/-! ## what can be done next -/

/-- the exchange of `take_head(stack_closed_tag())` -/
theorem TakeHead.closing_enabled (weak : Bool) {b : Inbox β} {t : TakeHead β} (hb : b ≠ .closed)
    (ht : (Destructor.closing t).recalled = true) : ∃ r, t.step .closedTag weak b = some r := by
  cases t with
  | load =>
    simp only [TakeHead.step]
    rw [if_neg]
    · exact ⟨_, rfl⟩
    · rintro (h | ⟨-, h⟩)
      · exact hb (Inbox.head_closed.mp h)
      · exact h rfl
  | cas last =>
    simp only [TakeHead.step]
    split
    · rw [if_neg]
      · exact ⟨_, rfl⟩
      · rintro (h | ⟨-, h⟩)
        · exact bne_iff_ne.mp ht h
        · exact h rfl
    · exact ⟨_, rfl⟩
  | done l => cases ht

/-- the destructor goes on up to its end -/
theorem destructor_enabled {g : Choice} {m : ActorMem β} {x : Destructor β}
    (hx : x.recalled = true) (hc : (∃ t, x = .closing t) → m.box.inbox ≠ .closed)
    (hf : x ≠ .finished) : ∃ r, x.step g m = some r := by
  cases x with
  | termLoad => exact ⟨_, rfl⟩
  | termCas current n =>
    simp only [Destructor.step]
    split
    · exact ⟨_, rfl⟩
    · split <;> exact ⟨_, rfl⟩
  | members =>
    simp only [Destructor.step]
    split <;> exact ⟨_, rfl⟩
  | closing t =>
    obtain ⟨⟨b, u⟩, hs⟩ := TakeHead.closing_enabled g.weak (hc ⟨t, rfl⟩) hx
    simp only [Destructor.step, Mailbox.closeStep, hs, Option.map_some]
    exact ⟨_, rfl⟩
  | finished => exact absurd rfl hf
  | _ => exact delete_enabled fun he => by cases he

/-- senders and the destructor go on, before the drain and past it -/
theorem Recalled.exec (hR : Recalled c) (hT : Teardown c) (hO : drained c = false → Open c)
    (ha : c.sh.aborted = false) {t : Thread β T X} (ht : t ∈ c.pool) (hrun : ∀ r, t ≠ .run r)
    (hthrough : t.through = false) (g : Choice) : ∃ r, exec g c.sh t = some r := by
  unfold Actor.exec
  rw [ha]
  cases t with
  | send s =>
    have hsound : (Thread.send s).sound = true := by
      cases hd : drained c with
      | false => exact (hO hd).sound _ ht
      | true =>
        -- past the drain no sender is at the inbox
        have hin := hT.drain.drained (drained_iff.mp hd) _ (List.mem_map_of_mem ht)
        obtain ⟨msg, slot, pc⟩ := s
        cases pc with
        | pushing p => cases hin
        | _ => rfl
    obtain ⟨r, hs⟩ := send_enabled g.weak (m:=c.sh) hsound hthrough
    exact ⟨_, congrArg (Option.map _) hs⟩
  | run r => exact absurd rfl (hrun r)
  | delete x =>
    obtain ⟨r, hs⟩ := destructor_enabled (g:=g) (m:=c.sh) (hR.recalled _ ht)
      (fun ⟨y, hy⟩ => hR.closing (hy ▸ ht)) (fun hf => by rw [hf] at hthrough; cases hthrough)
    exact ⟨_, congrArg (Option.map _) hs⟩

end Actor
end ActorZeta
