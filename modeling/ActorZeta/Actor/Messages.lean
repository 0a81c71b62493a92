import ActorZeta.Actor.Progress
import ActorZeta.Lib.Tally

/-!
# Every message dies once

A message object belongs to its sender until it is pushed or refused, to the mailbox until it is
popped, to the driver that popped it until its handler has run, and to the destructor when that
closes the mailbox.

* `given`, `hand`   the message a sender has given away, and the one a driver has in hand;
* `weight`, `exec_weight`   what the actor holds and has destroyed, and how a step shifts it;
* `Cleared`         after the drain no driver comes near the mailbox, and the destructor empties it;
* `messages_accounted`   the account in every run, whatever the drivers and the destructor do.
-/

namespace ActorZeta

/-- the message is still the sender's -/
def SendPc.carries : SendPc → Bool
  | .regLoad | .regCas _ _ | .pushing _ => true
  | _ => false

namespace RunPc
variable {β : Type}

def hand : RunPc β → Option (Message β)
  | .starting _ msg | .handling _ msg => some msg
  | _ => none

/-- at the entry, or on the way out -/
def outside : RunPc β → Bool
  | .acqLoad | .acqCas _ _ | .entryDestroying | .guardLoad _ _ _ | .guardCas _ _ _ _ _ | .ret _ _
  | .gone => true
  | _ => false

end RunPc

namespace Thread
variable {β T X : Type}

/-- the message a sender has pushed, or that was refused -/
def given : Thread β T X → Option (Message β)
  | .send s => if s.pc.carries then none else some s.msg
  | _ => none

/-- the message a driver has popped and not finished with -/
def hand : Thread β T X → Option (Message β)
  | .run r => r.pc.hand
  | _ => none

end Thread

/-! ## one step -/

section
variable {β T X : Type} {m m' : ActorMem β} {p : Message β → Bool}

/-- how many messages the mailbox holds, and how many were destroyed -/
def ActorMem.weight (m : ActorMem β) (p : Message β → Bool) : Nat :=
  m.box.held.countP p + m.destroyed.countP p

/-- the same for one message -/
def weigh (o : Option (Message β)) (p : Message β → Bool) : Nat := o.toList.countP p

theorem weigh_some (msg : Message β) : weigh (some msg) p = (p msg).toNat := by
  unfold weigh
  cases h : p msg <;> simp [h]

theorem weight_destroy (msg : Message β) :
    (m.destroy msg).weight p = m.weight p + (p msg).toNat := by
  show m.box.held.countP p + (m.destroyed ++ [msg]).countP p = _ + (p msg).toNat
  rw [List.countP_append, List.countP_singleton]
  unfold ActorMem.weight
  cases p msg <;> rfl

theorem weight_boxed {box : Mailbox β} (h : box.held.Perm m.box.held) :
    ({ m.touch with box := box } : ActorMem β).weight p = m.weight p := by
  unfold ActorMem.weight
  rw [h.countP_eq p]
  rfl

/-- a message taken from the lists -/
theorem weight_pop {msg : Message β} {box : Mailbox β} (h : m.box.popCached = some (msg, box)) :
    ({ m with box := box, popped := m.popped ++ [msg] } : ActorMem β).weight p + (p msg).toNat
      = m.weight p := by
  have hp := (Mailbox.popCached_held h).countP_eq p
  rw [List.countP_cons] at hp
  unfold ActorMem.weight
  rw [hp]
  cases p msg with
  | false => rfl
  | true => exact Nat.add_right_comm ..

/-- a message put into the inbox -/
theorem weight_push {msg : Message β} (h : m.box.inbox ≠ .closed) :
    ({ m.touch with box := { m.box with inbox := m.box.inbox.push msg },
                    accepted := m.accepted ++ [msg] } : ActorMem β).weight p
      = m.weight p + (p msg).toNat := by
  have hheld := (Mailbox.push_held m.box msg h).countP_eq p
  rw [List.countP_cons] at hheld
  unfold ActorMem.weight
  rw [hheld]
  show _ + m.destroyed.countP p = _ + m.destroyed.countP p + _
  cases p msg with
  | false => rfl
  | true =>
    show _ + 1 + _ = _ + _ + 1
    omega

/-- a fetch moves messages from the inbox to the lists -/
theorem weight_fetched {weak : Bool} {t t' : TakeHead β} {box : Mailbox β}
    (hf : m.box.fetchStep weak t = some (box, t')) :
    ({ m.touch with box := box } : ActorMem β).weight p = m.weight p := by
  refine weight_boxed ?_
  rcases Mailbox.fetchStep_cases hf with ⟨rfl, -⟩ | ⟨rfl, -⟩ | ⟨l, -, hb, rfl, -⟩
  · exact List.Perm.refl _
  · exact List.Perm.refl _
  · exact Mailbox.fetched_held m.box l hb

theorem loopHead_hand (max n : Nat) : (Runner.loopHead max n : RunPc β).hand = none := by
  unfold Runner.loopHead
  split <;> rfl

theorem send_weight {weak : Bool} {s s' : Sender β T X} (h : s.step weak m = some (m', s')) :
    weigh (Thread.send s').given p + m.weight p = weigh (Thread.send s).given p + m'.weight p := by
  cases Sender.step_does h with
  | @refused msg | @pushRefused msg =>
    rw [weight_destroy]
    show weigh (some msg) p + m.weight p = 0 + (m.weight p + _)
    rw [weigh_some]
    omega
  | @push msg slot q hpush hb =>
    rw [weight_push hb]
    show weigh (some msg) p + _ = 0 + _
    rw [weigh_some]
    omega
  | _ => rfl

/-- where a driver looks for a message, with nothing in hand -/
theorem Runner.PopsFrom.weight {g : Choice} {m₁ : ActorMem β} {pc : RunPc β} {n : Nat}
    (hp : Runner.PopsFrom g m pc n m₁) : m₁.weight p = m.weight p ∧ pc.hand = none := by
  cases hp with
  | loop | resumed => exact ⟨rfl, rfl⟩
  | fetched hchain hf => exact ⟨weight_fetched hf, rfl⟩

theorem run_weight {max : Nat} {g : Choice} {pc pc' : RunPc β}
    (h : Runner.stepPc max g m pc = some (m', pc')) :
    m'.weight p + weigh pc'.hand p = m.weight p + weigh pc.hand p := by
  have hunblock : ({ m.touch with box := m.box.tryUnblock.2 } : ActorMem β).weight p = m.weight p :=
    weight_boxed (List.Perm.of_eq (Mailbox.held_of_chain (Inbox.tryUnblock_chain _)))
  have hblock : ({ m.touch with box := m.box.tryBlock.2 } : ActorMem β).weight p = m.weight p := by
    obtain ⟨b, hb, hc, -⟩ := m.box.tryBlock_inbox
    rw [weight_boxed (by rw [hb, Mailbox.held_of_chain hc])]
  cases Runner.step_does h with
  | goOn hgo hm =>
    have hw : m'.weight p = m.weight p := by
      rcases hm with rfl | rfl <;> rfl
    rw [hw]
    cases hgo <;> rfl
  | turnBack hback hm =>
    have hw : m'.weight p = m.weight p := by
      rcases hm with rfl | rfl <;> rfl
    rw [hw]
    cases hback <;> rfl
  | unpark | unparkReady | unparkBusy =>
    rw [hunblock]
    rfl
  | entryEmpty hf hc | raceEmpty hf hc | raceLost hf hc =>
    rw [weight_fetched hf]
    rfl
  | nothing hf =>
    rw [weight_fetched hf]
    rfl
  | entryFull hf hc =>
    rw [weight_fetched hf, loopHead_hand]
    rfl
  | @pop pc n m₁ msg box hp hpop =>
    obtain ⟨hw, hhand⟩ := hp.weight (p:=p)
    rw [hhand, ← hw, ← weight_pop (p:=p) hpop]
    show _ + weigh (some msg) p = _ + 0
    rw [weigh_some]
    rfl
  | fetch hp hnone =>
    obtain ⟨hw, hhand⟩ := hp.weight (p:=p)
    rw [hhand, hw]
    rfl
  | @drop n msg hd =>
    rw [weight_destroy, loopHead_hand]
    show _ + 0 = _ + weigh (some msg) p
    rw [weigh_some]
    rfl
  | @handle n msg =>
    rw [loopHead_hand]
    show (m.destroy msg).weight p + 0 = _ + weigh (some msg) p
    rw [weight_destroy, weigh_some]
    rfl
  | park | stay =>
    rw [hblock]
    rfl
  | _ => rfl

theorem delete_weight {g : Choice} {x x' : Destructor β} (h : x.step g m = some (m', x')) :
    m'.weight p = m.weight p := by
  cases Destructor.step_does h with
  | wait hw hm => rcases hm with rfl | rfl <;> rfl
  | members =>
    unfold ActorMem.weight Mailbox.held Mailbox.drained
    simp only [List.countP_append, List.countP_nil]
    omega
  | close hf =>
    rcases Mailbox.closeStep_cases hf with ⟨-, last, he⟩ | ⟨rfl, -, he⟩ | ⟨hb, rfl, he⟩
    · cases he
    · cases he
      unfold ActorMem.weight
      rw [List.append_nil]
    · cases he
      unfold ActorMem.weight Mailbox.held
      simp only [List.countP_append]
      show _ + 0 + _ = _
      omega
  | _ => rfl

/-- a step of any thread -/
theorem exec_weight {g : Choice} {t t' : Thread β T X}
    (h : Actor.exec g m t = some (m', t')) (p : Message β → Bool) :
    weigh t'.given p + m.weight p + weigh t.hand p
      = weigh t.given p + m'.weight p + weigh t'.hand p := by
  rcases Actor.exec_cases h with ⟨s, s', rfl, rfl, hs⟩ | ⟨max, node, pc, pc', rfl, rfl, hs⟩ |
    ⟨x, x', rfl, rfl, hs⟩
  · have := send_weight (p:=p) hs
    show _ + _ + 0 = _ + _ + 0
    omega
  · have := run_weight (p:=p) hs
    show 0 + _ + weigh pc.hand p = 0 + _ + weigh pc'.hand p
    omega
  · have := delete_weight (p:=p) hs
    show 0 + _ + 0 = 0 + _ + 0
    omega

end

/-! ## behind the drain -/

/-- the drain ends while nobody holds `running` and no sender is registered -/
theorem Move.drains {v v' : View} {r r' : Role} (h : Move v r v' r') (hr' : r' = .deleting true)
    (hr : r ≠ .deleting true) : v.word.isRunning = false ∧ v.word.senderCount = 0 := by
  cases h with
  | wait | terminal | tearDown => exact absurd hr' hr
  | drained hrun hcount => exact ⟨hrun, hcount⟩
  | leave | release =>
    unfold Role.returned at hr'
    split at hr' <;> cases hr'
  | _ => cases hr'

/-- the destructor has drained the lists -/
def Destructor.cleared {β : Type} : Destructor β → Bool
  | .closing _ | .finished => true
  | _ => false

namespace Actor
variable {β T X : Type} {c d : Conf β T X}

/-- past the drain, the drivers turn back at the entry, and what the destructor has emptied stays
empty -/
structure Cleared (c : Conf β T X) : Prop where
  outside : drained c = true → ∀ r, Thread.run r ∈ c.pool → r.pc.outside = true
  lists : (∃ x, Thread.delete x ∈ c.pool ∧ x.cleared = true) ∨ c.sh.box.inbox = .closed →
    c.sh.box.urgent = [] ∧ c.sh.box.normal = []
  closed : Thread.delete .finished ∈ c.pool → c.sh.box.inbox = .closed

theorem Cleared.init : Cleared (init : Conf β T X) where
  outside _ _ hr := absurd hr List.not_mem_nil
  lists _ := ⟨rfl, rfl⟩
  closed h := absurd h List.not_mem_nil

/-- a driver at the entry of a dying actor, or on its way out, goes out -/
theorem run_outside {max : Nat} {g : Choice} {m m' : ActorMem β} {pc pc' : RunPc β}
    (h : Runner.stepPc max g m pc = some (m', pc')) (hpc : pc.outside = true)
    (hd : m.word.isDestroying = true) : pc'.outside = true ∧ m'.box = m.box := by
  cases Runner.step_does h with
  | goOn hgo =>
    cases hgo with
    | entryAlive halive =>
      rw [hd] at halive
      cases halive
    | _ => cases hpc
  | turnBack hback hm => exact ⟨rfl, by rcases hm with rfl | rfl <;> rfl⟩
  | pop hp | fetch hp => cases hp <;> cases hpc
  | acqLoad | acqBound | mark | acquire | acqAgain | guardLoad | guardBound | release | guardAgain
  | ret => exact ⟨rfl, rfl⟩
  | _ => cases hpc

/-- only a holder is inside -/
theorem outside_of_not_holds {r : Runner β} (h : (r.pc.role r.node).holds = false) :
    r.pc.outside = true := by
  obtain ⟨max, node, pc⟩ := r
  cases pc with
  | fetching w t => cases w <;> cases h
  | acqLoad | acqCas current n | ret a n | gone => rfl
  | _ => cases h

/-- the destructor goes on to empty the mailbox, or leaves it alone -/
theorem delete_cleared {g : Choice} {m m' : ActorMem β} {x x' : Destructor β}
    (h : x.step g m = some (m', x')) :
    (m'.box = m.box ∧ (x'.cleared = true → x.cleared = true ∨ m.box.inbox = .closed) ∧
      (x' = .finished → m.box.inbox = .closed)) ∨
    (m'.box.urgent = [] ∧ m'.box.normal = [] ∧ m.box.inbox ≠ .closed ∧ x' ≠ .finished) ∨
    (x.cleared = true ∧ m'.box = { m.box with inbox := .closed }) := by
  have hpublish : ∀ n, (Destructor.publish m.word n : Destructor β).cleared = false := fun n => by
    unfold Destructor.publish
    split <;> rfl
  -- a step that stays away from the mailbox
  have haside : ∀ {y : Destructor β}, y.cleared = false →
      (y.cleared = true → x.cleared = true ∨ m.box.inbox = .closed) ∧
        (y = .finished → m.box.inbox = .closed) := by
    intro y hy
    refine ⟨fun hc => ?_, fun hf => ?_⟩
    · rw [hy] at hc
      cases hc
    · rw [hf] at hy
      cases hy
  cases Destructor.step_does h with
  | load | publishAgain => exact Or.inl ⟨rfl, haside (hpublish _)⟩
  | wait hw hm => exact Or.inl ⟨by rcases hm with rfl | rfl <;> rfl, haside rfl⟩
  | closed hb => exact Or.inl ⟨rfl, fun _ => Or.inr hb, fun _ => hb⟩
  | members hb => exact Or.inr (Or.inl ⟨rfl, rfl, hb, fun he => by cases he⟩)
  | closeAgain hf => exact Or.inl ⟨rfl, fun _ => Or.inl rfl, fun he => by cases he⟩
  | close hf =>
    rcases Mailbox.closeStep_cases hf with ⟨-, last, he⟩ | ⟨rfl, hb, -⟩ | ⟨hb, rfl, -⟩
    · cases he
    · exact Or.inl ⟨rfl, fun _ => Or.inl rfl, fun _ => hb⟩
    · exact Or.inr (Or.inr ⟨rfl, rfl⟩)
  | _ => exact Or.inl ⟨rfl, haside rfl⟩

theorem cleared_drained (h : ∃ x, Thread.delete x ∈ c.pool ∧ x.cleared = true) :
    drained c = true := by
  obtain ⟨x, hx, hc⟩ := h
  refine drained_iff.mpr (List.mem_map.mpr ⟨_, hx, ?_⟩)
  cases x with
  | closing t | finished => rfl
  | _ => cases hc

theorem role_deleting {t : Thread β T X} {b : Bool} (h : t.role = .deleting b) :
    ∃ x, t = .delete x := by
  cases t with
  | send s =>
    obtain ⟨msg, slot, pc⟩ := s
    cases pc with
    | ret needsSched r => cases needsSched <;> cases h
    | _ => cases h
  | run r =>
    obtain ⟨max, node, pc⟩ := r
    cases pc with
    | ret a n => cases a <;> cases h
    | fetching w t => cases w <;> cases h
    | _ => cases h
  | delete x => exact ⟨x, rfl⟩

theorem Cleared.spawn {t : Thread β T X} (h : Cleared c) (hs : step c (.spawn t) = some d) :
    Cleared d := by
  obtain ⟨he, hp⟩ := TS.Conf.step_spawn hs
  have hnew : (∀ r, t = .run r → r.pc.outside = true) ∧ (∀ x, t = .delete x → x = .load) ∧
      d.sh.box = c.sh.box := by
    refine ⟨?_, ?_, (enter_sound he).2.2⟩
    · rintro ⟨max, node, pc⟩ rfl
      cases pc with
      | acqLoad => rfl
      | _ => cases he
    · rintro x rfl
      cases x with
      | load => rfl
      | _ => cases he
  obtain ⟨hrun, hdel, hbox⟩ := hnew
  have hmem : ∀ u ∈ d.pool, u ∈ c.pool ∨ u = t := by
    intro u hu
    rw [hp] at hu
    exact (List.mem_append.mp hu).imp id List.mem_singleton.mp
  refine ⟨fun hd r hr => ?_, fun hl => ?_, fun hf => ?_⟩
  · rcases hmem _ hr with hr | hr
    · refine h.outside ?_ r hr
      obtain ⟨u, hu, hrole⟩ := List.mem_map.mp (drained_iff.mp hd)
      rcases hmem u hu with hu | rfl
      · exact drained_iff.mpr (List.mem_map.mpr ⟨u, hu, hrole⟩)
      · obtain ⟨x, rfl⟩ := role_deleting hrole
        rw [hdel x rfl] at hrole
        cases hrole
    · exact hrun r hr.symm
  · rw [hbox] at hl ⊢
    refine h.lists (hl.imp ?_ id)
    rintro ⟨x, hx, hc⟩
    rcases hmem _ hx with hx | hx
    · exact ⟨x, hx, hc⟩
    · rw [hdel x hx.symm] at hc
      cases hc
  · rw [hbox]
    rcases hmem _ hf with hf | hf
    · exact h.closed hf
    · cases hdel _ hf.symm

/-- what a step does to a mailbox behind the drain -/
theorem Cleared.box {t t' : Thread β T X} {g : Choice} (h : Cleared c) (hG : Guarded c)
    (hd : drained c = true) (ht : t ∈ c.pool) (he : exec g c.sh t = some (d.sh, t')) :
    ((d.sh.box.urgent = c.sh.box.urgent ∧ d.sh.box.normal = c.sh.box.normal) ∨
      (d.sh.box.urgent = [] ∧ d.sh.box.normal = [])) ∧
    (c.sh.box.inbox = .closed → d.sh.box.inbox = .closed) ∧
    (∀ r, t' = .run r → r.pc.outside = true) := by
  have hdying : c.sh.word.isDestroying = true :=
    hG.alive.safe.published _ (drained_iff.mp hd) true rfl
  rcases exec_cases he with ⟨s, s', rfl, rfl, hs⟩ | ⟨max, node, pc, pc', rfl, rfl, hs⟩ |
    ⟨x, x', rfl, rfl, hs⟩
  · obtain ⟨-, -, hbox | hbox⟩ := sender_frame hs
    · rw [hbox]
      exact ⟨Or.inl ⟨rfl, rfl⟩, id, nofun⟩
    · rw [hbox]
      refine ⟨Or.inl ⟨rfl, rfl⟩, fun hc => ?_, nofun⟩
      rw [hc]
      rfl
  · obtain ⟨hout, hbox⟩ := run_outside hs (h.outside hd _ ht) hdying
    rw [hbox]
    refine ⟨Or.inl ⟨rfl, rfl⟩, id, fun r hr => ?_⟩
    cases hr
    exact hout
  · rcases delete_cleared hs with ⟨hbox, -⟩ | ⟨hu, hn, hc, -⟩ | ⟨-, hbox⟩
    · rw [hbox]
      exact ⟨Or.inl ⟨rfl, rfl⟩, id, nofun⟩
    · exact ⟨Or.inr ⟨hu, hn⟩, fun he => absurd he hc, nofun⟩
    · rw [hbox]
      exact ⟨Or.inl ⟨rfl, rfl⟩, fun _ => rfl, nofun⟩

/-- when the drain ends, nobody is inside -/
theorem outside_drained {t t' : Thread β T X} {g : Choice} (hE : Exclusive c)
    (hd : drained c = false) (ht : t ∈ c.pool) (he : exec g c.sh t = some (d.sh, t'))
    (hr : t'.role = .deleting true) {r : Runner β} (hmem : Thread.run r ∈ c.pool) :
    r.pc.outside = true := by
  have hidle : c.sh.word.isRunning = false := ((exec_move he).drains hr (not_drained hd ht)).1
  refine outside_of_not_holds (Bool.eq_false_iff.mpr fun hh => ?_)
  have hc := hE.holders
  rw [hidle] at hc
  exact List.countP_eq_zero.mp hc _ (List.mem_map.mpr ⟨_, hmem, rfl⟩) hh

theorem Cleared.run {i : Nat} {g : Choice} (h : Cleared c) (hG : Guarded c)
    (hO : drained c = false → Open c) (hs : step c (.run i g) = some d) : Cleared d := by
  obtain ⟨l₁, t, l₂, t', hp, -, he, hp'⟩ := TS.Conf.step_run hs
  have hperm : c.pool.Perm (t :: (l₁ ++ l₂)) := hp ▸ List.perm_middle
  have hperm' : d.pool.Perm (t' :: (l₁ ++ l₂)) := hp' ▸ List.perm_middle
  have ht : t ∈ c.pool := hperm.mem_iff.mpr List.mem_cons_self
  have hmem : ∀ u ∈ d.pool, u = t' ∨ u ∈ c.pool := fun u hu =>
    (List.mem_cons.mp (hperm'.mem_iff.mp hu)).imp id fun hu =>
      hperm.mem_iff.mpr (List.mem_cons_of_mem _ hu)
  have hdrained : (∃ x, Thread.delete x ∈ c.pool ∧ x.cleared = true) ∨ c.sh.box.inbox = .closed →
      drained c = true := by
    rintro (hx | hx)
    · exact cleared_drained hx
    · cases hd : drained c with
      | true => rfl
      | false => exact absurd hx (hO hd).closed
  refine ⟨fun hd r hr => ?_, fun hl => ?_, fun hf => ?_⟩
  · cases hd0 : drained c with
    | true =>
      rcases hmem _ hr with hr | hr
      · exact (h.box hG hd0 ht he).2.2 r hr.symm
      · exact h.outside hd0 r hr
    | false =>
      -- the destructor is the one that moved
      obtain ⟨u, hu, hrole⟩ := List.mem_map.mp (drained_iff.mp hd)
      rcases hmem u hu with rfl | hu
      · rcases hmem _ hr with hr | hr
        · rw [← hr] at hrole
          obtain ⟨x, hx⟩ := role_deleting hrole
          cases hx
        · exact outside_drained (hG.exclusive hd0) hd0 ht he hrole hr
      · exact absurd hrole (not_drained hd0 hu)
  · by_cases hL : (∃ x, Thread.delete x ∈ c.pool ∧ x.cleared = true) ∨ c.sh.box.inbox = .closed
    · obtain ⟨hu, hn⟩ := h.lists hL
      rcases (h.box hG (hdrained hL) ht he).1 with ⟨h1, h2⟩ | hempty
      · exact ⟨h1.trans hu, h2.trans hn⟩
      · exact hempty
    · -- the destructor has just emptied them
      obtain ⟨x, x', rfl, hx⟩ : ∃ x x', t = .delete x ∧ x.step g c.sh = some (d.sh, x') ∧
          t' = .delete x' := by
        have hdel : ∃ x, t = .delete x := by
          rcases hl with ⟨x, hx, hc⟩ | hc
          · rcases hmem _ hx with hx | hx
            · rcases exec_cases he with ⟨_, _, -, ht', -⟩ | ⟨_, _, _, _, -, ht', -⟩ |
                ⟨y, _, ht, -⟩
              · rw [ht'] at hx; cases hx
              · rw [ht'] at hx; cases hx
              · exact ⟨y, ht⟩
            · exact absurd (Or.inl ⟨x, hx, hc⟩) hL
          · rcases (exec_move he).closed (tag_closed.mpr hc) with ht | ht
            · exact absurd (Or.inr (tag_closed.mp ht)) hL
            · exact role_deleting ht
        obtain ⟨x, rfl⟩ := hdel
        rcases exec_cases he with ⟨_, _, hx, -⟩ | ⟨_, _, _, _, hx, -⟩ | ⟨y, y', hx, ht', hy⟩
        · cases hx
        · cases hx
        · cases hx
          exact ⟨x, y', rfl, hy, ht'⟩
      obtain ⟨hstep, rfl⟩ := hx
      rcases delete_cleared hstep with ⟨hbox, hc, -⟩ | ⟨hu, hn, -⟩ | ⟨hx, -⟩
      · exfalso
        rcases hl with ⟨y, hy, hyc⟩ | hcl
        · rcases hmem _ hy with hy | hy
          · cases hy
            rcases hc hyc with hx | hx
            · exact hL (Or.inl ⟨x, ht, hx⟩)
            · exact hL (Or.inr hx)
          · exact hL (Or.inl ⟨y, hy, hyc⟩)
        · rw [hbox] at hcl
          exact hL (Or.inr hcl)
      · exact ⟨hu, hn⟩
      · exact absurd (Or.inl ⟨x, ht, hx⟩) hL
  · rcases hmem _ hf with hf | hf
    · rcases exec_cases he with ⟨_, _, -, rfl, -⟩ | ⟨_, _, _, _, -, rfl, -⟩ | ⟨x, x', rfl, rfl, hx⟩
      · cases hf
      · cases hf
      · cases hf
        rcases delete_cleared hx with ⟨hbox, -, hc⟩ | ⟨-, -, -, hc⟩ | ⟨-, hbox⟩
        · rw [hbox]
          exact hc rfl
        · exact absurd rfl hc
        · rw [hbox]
    · have hc := h.closed hf
      exact (h.box hG (hdrained (Or.inr hc)) ht he).2.1 hc

/-! ## runs -/

theorem enter_weight {m m' : ActorMem β} {t : Thread β T X} {p : Message β → Bool}
    (h : enter m t = some m') : t.given = none ∧ t.hand = none ∧ m'.weight p = m.weight p := by
  unfold enter at h
  split at h
  · split at h
    · rename_i hc
      obtain ⟨rfl, -⟩ := hc
      cases h
      exact ⟨rfl, rfl, rfl⟩
    · cases h
  · split at h
    · cases h; exact ⟨rfl, rfl, rfl⟩
    · cases h
  · split at h
    · cases h; exact ⟨rfl, rfl, rfl⟩
    · cases h
  · cases h

/-- the invariant: the mailbox behind the drain, and the count of the messages -/
structure Accounted (c : Conf β T X) : Prop where
  guarded : Guarded c
  opened : drained c = false → Open c
  cleared : Cleared c
  weight : ∀ p, (c.pool.filterMap Thread.given).countP p
    = c.sh.weight p + (c.pool.filterMap Thread.hand).countP p

theorem Accounted.init : Accounted (init : Conf β T X) :=
  ⟨Guarded.init, fun _ => Open.init, Cleared.init, fun _ => rfl⟩

theorem Accounted.step {a : Act β T X} (h : Accounted c) (hs : step c a = some d) : Accounted d := by
  refine ⟨h.guarded.step hs, fun hd => ?_, ?_, fun p => ?_⟩
  · have hd0 : drained c = false := Bool.eq_false_iff.mpr fun ht => by
      rw [drained_step hs ht] at hd
      cases hd
    exact (h.opened hd0).step (h.guarded.exclusive hd0) hd0 hs
  · cases a with
    | spawn t => exact h.cleared.spawn hs
    | run i g => exact h.cleared.run h.guarded h.opened hs
  · have hw := h.weight p
    rcases TS.Conf.step_cases hs with ⟨t, rfl, he, hp⟩ | ⟨i, g, t, t', rest, -, -, he, hp, hp'⟩
    · obtain ⟨hgiven, hhand, hweight⟩ := enter_weight he
      rw [(hp.filterMap _).countP_eq p, (hp.filterMap _).countP_eq p, TS.countP_filterMap_cons,
        TS.countP_filterMap_cons, hgiven, hhand, hweight]
      show 0 + _ = _ + (0 + _)
      omega
    · have hx := exec_weight he p
      unfold weigh at hx
      rw [(hp.filterMap _).countP_eq p, (hp.filterMap _).countP_eq p, TS.countP_filterMap_cons,
        TS.countP_filterMap_cons] at hw
      rw [(hp'.filterMap _).countP_eq p, (hp'.filterMap _).countP_eq p, TS.countP_filterMap_cons,
        TS.countP_filterMap_cons]
      omega

theorem accounted_of_run {as : List (Act β T X)} (h : TS.run step init as = some c) : Accounted c :=
  TS.run_inv (fun _ _ _ => Accounted.step) Accounted.init h

theorem Accounted.perm (h : Accounted c) : (c.pool.filterMap Thread.given).Perm
    (c.sh.box.held ++ c.pool.filterMap Thread.hand ++ c.sh.destroyed) := by
  refine TS.perm_of_countP fun p => ?_
  rw [h.weight, List.countP_append, List.countP_append]
  unfold ActorMem.weight
  omega

/-- nothing is left when the destructor has finished -/
theorem Accounted.finished (h : Accounted c) (hf : Thread.delete .finished ∈ c.pool) :
    (c.pool.filterMap Thread.given).Perm c.sh.destroyed := by
  have hclosed := h.cleared.closed hf
  obtain ⟨hu, hn⟩ := h.cleared.lists (Or.inr hclosed)
  have hd : drained c = true := cleared_drained ⟨_, hf, rfl⟩
  have hheld : c.sh.box.held = [] := by
    unfold Mailbox.held
    rw [hu, hn, hclosed]
    rfl
  have hhand : c.pool.filterMap Thread.hand = [] := by
    refine List.filterMap_eq_nil_iff.mpr fun t ht => ?_
    cases t with
    | run r =>
      obtain ⟨max, node, pc⟩ := r
      have hout := h.cleared.outside hd _ ht
      cases pc <;> first | rfl | cases hout
    | _ => rfl
  have hacc := h.perm
  rw [hheld, hhand] at hacc
  exact hacc

/-- where the messages are -/
structure MessagesAccounted (c : Conf β T X) : Prop where
  /-- a message that its sender has pushed, or that was refused, is in the mailbox, in the hand of
  the driver that popped it, or destroyed, and never two of these or one of them twice -/
  account : (c.pool.filterMap Thread.given).Perm
    (c.sh.box.held ++ c.pool.filterMap Thread.hand ++ c.sh.destroyed)
  /-- when the destructor has finished, it is destroyed -/
  destroyed : Thread.delete .finished ∈ c.pool →
    (c.pool.filterMap Thread.given).Perm c.sh.destroyed

/-- **Every message dies once**, in every run of any number of senders and of drivers, called or
uncalled, and of the destructor, whatever of them comes too late. -/
theorem messages_accounted (as : List (Act β T X)) (c : Conf β T X)
    (h : TS.run step init as = some c) : MessagesAccounted c := by
  have hC := accounted_of_run h
  exact ⟨hC.perm, hC.finished⟩

/-- a message is handled, a second one is not, and the actor is destroyed -/
def handledAndDestroyed : List (Act Unit Nat Unit) :=
  let g : Choice := ⟨false, false, false, false⟩
  [.spawn (.send ⟨⟨16, 1 <<< 60, ()⟩, .fresh, .regLoad⟩)] ++ List.replicate 7 (.run 0 g) ++
    [.spawn (.run ⟨1, true, .acqLoad⟩)] ++ List.replicate 19 (.run 1 g) ++
    [.spawn (.send ⟨⟨17, 1 <<< 60, ()⟩, .fresh, .regLoad⟩)] ++ List.replicate 7 (.run 2 g) ++
    [.spawn (.delete .load)] ++ List.replicate 8 (.run 3 g)

theorem messages_accounted_destroyed :
    ∃ c : Conf Unit Nat Unit, Thread.delete .finished ∈ c.pool ∧
      c.sh.destroyed.map Message.addr = [16, 17] ∧ MessagesAccounted c :=
  ⟨_, List.mem_of_getElem? (i:=3) rfl, rfl, messages_accounted handledAndDestroyed _ rfl⟩

end Actor
end ActorZeta
