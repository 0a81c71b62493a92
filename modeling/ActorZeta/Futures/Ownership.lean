import ActorZeta.Futures.Operations

/-!
# Whose frame it is

Either the `unique_future` or the final awaiter destroys a frame.  Which of them does is decided
from reads that are made at different times, and in between a destructor may run a whole program.

* `Apart`          no operation meets another one on its object;
* `frames_owned`   then every frame is destroyed at most once, never before its final suspension,
                   and exactly once when its future is released and the final awaiter is through;
* `nothing_left`   when no object is left and the stack is empty, no frame is left.
-/

namespace ActorZeta
namespace Futures
variable {T X : Type} {m : Futures T X} {acts : List (Act T X)} {a : Handle} {s : Address}

/-- what is asked of the object whose destructor is next -/
def decidableNext (p : Nat → Prop) [DecidablePred p] :
    (K : List Task) → Decidable (∀ g, K.head? = some (.destructor g) → p g)
  | .destructor g :: _ => decidable_of_iff (p g)
    ⟨fun hp g' he => by cases he; exact hp, fun h => h g rfl⟩
  | [] | .body _ :: _ | .user :: _ | .reclaiming _ _ _ :: _ | .releasing _ _ :: _
  | .cancelled _ :: _ | .selfDestroying _ :: _ => isTrue nofun

instance (m : Futures T X) : (act : Act T X) → Decidable (m.Apart act)
  | .move _ _ | .takeReady _ | .detach _ | .inspect _ | .await _ =>
    inferInstanceAs (Decidable (_ = _))
  | .assign _ _ | .destroy _ | .endAwait _ => inferInstanceAs (Decidable (_ ∧ _))
  | .start _ => inferInstanceAs (Decidable (∀ _ ∈ _, _))
  | .library => decidableNext (fun g => m.busy g = false ∧ m.sourced g = false) m.control
  | .new | .promise | .settle _ _ | .coReturn _ | .finalSuspend | .drain _ | .leave =>
    inferInstanceAs (Decidable True)

theorem inv_of_run (h : TS.run step init acts = some m)
    (ha : ∀ v ∈ TS.visits step init acts, v.1.Apart v.2) : Inv none m :=
  TS.run_inv_of (fun _ _ _ hi ha hs => hi.step ha hs) Inv.init h ha

/-- the final awaiter of the frame has returned, if it was ever there -/
def Through (m : Futures T X) (a : Handle) : Prop :=
  Task.cancelled a ∉ m.control ∧ Task.selfDestroying a ∉ m.control

/-- what is known of the frames and the states at any moment -/
structure Owned (m : Futures T X) : Prop where
  /-- no frame is resumed, inspected or destroyed where it may not be, no freed state is read -/
  clean : m.undefined = false
  once : ∀ a, m.destroyed.count a ≤ 1
  /-- not while the body runs or waits, or before the final suspension -/
  late : ∀ {a : Handle} {fr : MethodFrame}, m.frames.get a = some fr → a ∈ m.destroyed →
    (fr.phase = .dying ∨ fr.phase = .freed) ∧ .body a ∉ m.control
  state : ∀ {s : Address} {c : Shared T X}, m.states.get s = some c → c.mem.freedBy.length ≤ 1
  /-- a coroutine that came to its final suspension and whose future is released is gone -/
  gone : ∀ {a : Handle} {fr : MethodFrame} {c : Shared T X}, m.frames.get a = some fr →
    fr.done = true ∨ fr.phase = .freed → m.states.get fr.state = some c → c.released = true →
    m.Through a →
      fr.phase = .freed ∧ m.destroyed.count a = 1 ∧ c.mem.alive = false ∧ c.mem.freedBy.length = 1

theorem Inv.owned (h : Inv none m) : Owned m where
  clean := h.clean
  once a := by
    cases hf : m.frames.get a with
    | none =>
      have ht := h.ledger.absent hf
      simp only [tally, Prod.mk.injEq] at ht
      omega
    | some fr =>
      obtain ⟨c, hc, -⟩ := h.made.state hf
      have hacc := h.ledger.frame hf hc
      unfold Accounted at hacc
      split at hacc <;> simp only [tally, Prod.mk.injEq] at hacc <;> omega
  late {a fr} hf hd := by
    obtain ⟨c, hc, -⟩ := h.made.state hf
    have hacc := h.ledger.frame hf hc
    have hpos := List.count_pos_iff.mpr hd
    have hbody : m.control.countP (Task.isBody a) = 0 → .body a ∉ m.control :=
      fun h0 hb => List.countP_eq_zero.mp h0 _ hb (decide_eq_true rfl)
    unfold Accounted at hacc
    split at hacc <;> simp only [tally, Prod.mk.injEq] at hacc
    · omega
    · omega
    · omega
    · omega
    · exact ⟨Or.inl ‹_›, hbody hacc.2.1.1⟩
    · exact ⟨Or.inr ‹_›, hbody hacc.2.1.1⟩
  state hc := by
    rw [(h.settled hc).freed]
    split <;> omega
  gone {a fr c} hf hp hc hr ht := by
    have hacc := h.ledger.frame hf hc
    have hset := h.settled hc
    have hdead : c.ready = true → c.mem.alive = false ∧ c.mem.freedBy.length = 1 := by
      intro hready
      have hal : c.mem.alive = false := by rw [hset.alive, hready, hr]; rfl
      exact ⟨hal, by rw [hset.freed, hal]; rfl⟩
    rcases hp with hp | hp
    · rcases Bool.or_eq_true_iff.mp hp with hp | hp
      · -- a parked frame whose future is gone has its final awaiter on the stack
        rw [of_decide_eq_true hp] at hacc
        obtain ⟨-, htally⟩ := hacc
        rw [hr, if_pos rfl] at htally
        simp only [tally, Prod.mk.injEq] at htally
        obtain ⟨t, hmem, hcan⟩ := List.countP_pos_iff.mp
          (show 0 < m.control.countP (Task.isCancelled a) by rw [htally.2.2.1]; exact Nat.one_pos)
        cases t with
        | cancelled b =>
          obtain rfl : b = a := of_decide_eq_true hcan
          exact absurd hmem ht.1
        | _ => cases hcan
      · rw [of_decide_eq_true hp] at hacc
        exact absurd (hacc.2.2.mp hr) ht.2
    · rw [hp] at hacc
      obtain ⟨hready, htally, -⟩ := hacc
      simp only [tally, Prod.mk.injEq] at htally
      exact ⟨hp, htally.2.2.2, hdead hready⟩

end Futures
end ActorZeta
