import ActorZeta.Futures.States
import ActorZeta.Lib.Holding
import Mathlib.Data.List.Count

/-!
# What holds in every state of the objects and the frames

The invariant is in parts, each about the components it needs: the objects `O`, the frames `F`,
the states `S`, the call stack `K` and the account `D` of the frames destroyed.

* `Made`      the coroutines and the states they make the results of correspond;
* `Custody`   every state whose future is not released is in exactly one object, together with the
              handle of its coroutine; an object in the second half of its `release()` holds
              nothing any more;
* `Accounted` for each phase of a frame, its entries on the call stack, what is known of its state,
              and how often it was destroyed;
* `Deaths`    the objects with operations on the call stack, and those about to die;
* `Waits`     who awaits what.
-/

namespace ActorZeta
namespace Futures
variable {T X : Type}

/-! ## entries of the call stack -/

namespace Task

def isBody (a : Handle) : Task → Bool
  | .body b => b = a
  | _ => false

/-- `destroy()` of the frame runs -/
def isDestroying (a : Handle) : Task → Bool
  | .reclaiming b _ _ | .selfDestroying b => b = a
  | _ => false

def isCancelled (a : Handle) : Task → Bool
  | .cancelled b => b = a
  | _ => false

/-- the second half of `release()` of the object -/
def isReleasing (g : Nat) : Task → Bool
  | .releasing g' _ => g' = g
  | _ => false

/-- an operation on the object, or its destructor -/
def touches (g : Nat) : Task → Bool
  | .destructor g' | .reclaiming _ g' _ | .releasing g' _ => g' = g
  | _ => false

/-- `release()` in the destructor of the object -/
def deletes (g : Nat) : Task → Bool
  | .reclaiming _ g' .destroy | .releasing g' .destroy => g' = g
  | _ => false

/-- the object dies at the end of it -/
def kills (g : Nat) : Task → Bool
  | .destructor g' | .reclaiming _ g' .destroy | .releasing g' .destroy => g' = g
  | _ => false

theorem touches_of_kills {t : Task} {g : Nat} (h : t.kills g = true) : t.touches g = true := by
  cases t with
  | destructor => exact h
  | reclaiming _ _ k => cases k <;> first | exact h | cases h
  | releasing _ k => cases k <;> first | exact h | cases h
  | _ => cases h

theorem operates_of_deletes {t : Task} {g : Nat} (h : t.deletes g = true) :
    t.operates g = true := by
  cases t with
  | reclaiming _ _ k => cases k <;> first | exact h | cases h
  | releasing _ k => cases k <;> first | exact h | cases h
  | _ => cases h

theorem touches_of_operates {t : Task} {g : Nat} (h : t.operates g = true) :
    t.touches g = true := by
  cases t <;> first | exact h | cases h

theorem operates_of_isReleasing {t : Task} {g : Nat} (h : t.isReleasing g = true) :
    t.operates g = true := by
  cases t <;> first | exact h | cases h

theorem isReleasing_of_not {t : Task} {g : Nat} (h : t.operates g = false) :
    t.isReleasing g = false := by
  cases hr : t.isReleasing g with
  | false => rfl
  | true => exact absurd (operates_of_isReleasing hr) (by rw [h]; exact Bool.false_ne_true)

end Task

/-! ## what an object holds -/

/-- the state that an object holds; in the second half of `release()` the pointer is there but
means nothing -/
def heldIn (O : Heap Object) (K : List Task) (g : Nat) : Option Address :=
  if K.any (Task.isReleasing g) then none else (O.get g).bind Object.state

/-- the coroutine that makes the result of a state -/
def makerIn (S : Heap (Shared T X)) (s : Address) : Option Handle := (S.get s).bind Shared.maker

/-- some state is there whose future has not been released -/
def Unreleased (S : Heap (Shared T X)) (s : Address) : Prop :=
  ∃ c, S.get s = some c ∧ c.released = false

structure Custody (O : Heap Object) (S : Heap (Shared T X)) (K : List Task) : Prop where
  holding : Holding (heldIn O K) (Unreleased S)
  handle : ∀ {g : Nat} {o : Object}, O.get g = some o → o.handle = (heldIn O K g).bind (makerIn S)
  reclaiming : ∀ {a : Handle} {g : Nat} {k : After}, .reclaiming a g k ∈ K →
    ∃ s, heldIn O K g = some s ∧ makerIn S s = some a

structure Made (F : Heap MethodFrame) (S : Heap (Shared T X)) : Prop where
  state : ∀ {a : Handle} {fr : MethodFrame}, F.get a = some fr →
    ∃ c, S.get fr.state = some c ∧ c.maker = some a
  frame : ∀ {s : Address} {c : Shared T X} {a : Handle}, S.get s = some c → c.maker = some a →
    ∃ fr, F.get a = some fr ∧ fr.state = s

/-! ## the frames -/

/-- how often a frame is on the call stack, as the body that runs, as the frame that is being
destroyed and as the one that will be, and how often it has been destroyed -/
def tally (a : Handle) (K : List Task) (D : List Handle) : Nat × Nat × Nat × Nat :=
  (K.countP (Task.isBody a), K.countP (Task.isDestroying a), K.countP (Task.isCancelled a),
    D.count a)

/-- the accounts of a frame in the phase `p`; `x` is a frame whose future is just about to release
the state -/
def Accounted (x : Option Handle) (K : List Task) (D : List Handle) (a : Handle)
    (c : Shared T X) : Phase → Prop
  | .running => c.ready = false ∧ c.mem.st.hasResult = false ∧ tally a K D = (1, 0, 0, 0)
  | .suspended _ => c.ready = false ∧ c.mem.st.hasResult = false ∧ tally a K D = (0, 0, 0, 0)
  | .leaving => c.ready = false ∧ tally a K D = (1, 0, 0, 0)
  | .parked => c.ready = true ∧ tally a K D = (0, 0, if c.released then 1 else 0, 0)
  | .dying => c.ready = true ∧ tally a K D = (0, 1, 0, 1) ∧
      (c.released = true ↔ .selfDestroying a ∈ K)
  | .freed => c.ready = true ∧ tally a K D = (0, 0, 0, 1) ∧ (c.released = true ∨ x = some a)

structure Ledger (x : Option Handle) (F : Heap MethodFrame) (S : Heap (Shared T X))
    (K : List Task) (D : List Handle) : Prop where
  frame : ∀ {a : Handle} {fr : MethodFrame} {c : Shared T X}, F.get a = some fr →
    S.get fr.state = some c → Accounted x K D a c fr.phase
  absent : ∀ {a : Handle}, F.get a = none → tally a K D = (0, 0, 0, 0)

/-! ## objects that die -/

/-- what lives in `p` is dead or dying -/
def Gone (F : Heap MethodFrame) (S : Heap (Shared T X)) : Home → Prop
  | .param a => ∃ fr, F.get a = some fr ∧ (fr.phase = .dying ∨ fr.phase = .freed)
  | .value s => ∃ c, S.get s = some c ∧ c.mem.alive = false
  | _ => True

/-- where objects live that their surroundings destroy -/
def Home.inner : Home → Bool
  | .param _ | .value _ => true
  | _ => false

structure Deaths (O : Heap Object) (F : Heap MethodFrame) (S : Heap (Shared T X))
    (K : List Task) : Prop where
  alive : ∀ {t : Task} {g : Nat}, t ∈ K → t.touches g = true → ∃ o, O.get g = some o
  once : ∀ (g : Nat), K.countP (Task.kills g) ≤ 1
  releasing : ∀ (g : Nat), K.countP (Task.isReleasing g) ≤ 1
  source : ∀ {t : Task} {h : Nat}, t ∈ K → t.takesFrom h = true →
    (∃ o, O.get h = some o) ∧ ∀ u ∈ K, u.deletes h = false
  apart : ∀ {t : Task} {h : Nat}, t ∈ K → t.takesFrom h = true → t.touches h = false
  order : K.Pairwise fun t u => ∀ h, t.takesFrom h = true → u.operates h = false
  home : ∀ {t : Task} {g : Nat} {o : Object}, t ∈ K → t.kills g = true → O.get g = some o →
    Gone F S o.home
  inner : ∀ {g : Nat} {o : Object}, .destructor g ∈ K → O.get g = some o → o.home.inner = true

/-! ## coroutines that wait -/

namespace MethodFrame

/-- a coroutine that has not come to its `co_return` -/
def Active (fr : MethodFrame) : Prop := fr.phase = .running ∨ ∃ g, fr.phase = .suspended g

end MethodFrame

structure Waits (O : Heap Object) (F : Heap MethodFrame) (S : Heap (Shared T X))
    (K : List Task) : Prop where
  owned : ∀ {a : Handle} {fr : MethodFrame} {g : Nat}, F.get a = some fr →
    fr.phase = .suspended g → ∃ o, O.get g = some o ∧ o.home = .awaiter a
  quiet : ∀ {a : Handle} {fr : MethodFrame} {g : Nat}, F.get a = some fr →
    fr.phase = .suspended g → ∀ t ∈ K, t.touches g = false ∧ t.takesFrom g = false
  continuation : ∀ {s : Address} {c : Shared T X} {a : Handle}, S.get s = some c →
    c.mem.st.continuation = some a →
      ∃ fr g, F.get a = some fr ∧ fr.phase = .suspended g ∧ heldIn O K g = some s
  outer : ∀ {i a : Handle} {fr : MethodFrame}, F.get i = some fr → fr.Active →
    fr.outer = some a → ∃ c, S.get fr.state = some c ∧ c.mem.st.continuation = some a

/-- the whole -/
structure Inv (x : Option Handle) (m : Futures T X) : Prop where
  clean : m.undefined = false
  settled : ∀ {s : Address} {c : Shared T X}, m.states.get s = some c → c.Settled
  made : Made m.frames m.states
  custody : Custody m.objects m.states m.control
  ledger : Ledger x m.frames m.states m.control m.destroyed
  deaths : Deaths m.objects m.frames m.states m.control
  waits : Waits m.objects m.frames m.states m.control

theorem Made.init : Made (.empty : Heap MethodFrame) (.empty : Heap (Shared T X)) where
  state h := nomatch h
  frame h := nomatch h

theorem Custody.init : Custody .empty (.empty : Heap (Shared T X)) [] where
  holding := Holding.nothing.congr (fun _ => rfl) fun _ =>
    ⟨fun ⟨_, h, _⟩ => (nomatch h), False.elim⟩
  handle h := nomatch h
  reclaiming h := nomatch h

theorem Ledger.init : Ledger none .empty (.empty : Heap (Shared T X)) [] [] where
  frame h := nomatch h
  absent _ := rfl

theorem Deaths.init : Deaths .empty .empty (.empty : Heap (Shared T X)) [] where
  alive h := nomatch h
  once _ := Nat.zero_le _
  releasing _ := Nat.zero_le _
  source h := nomatch h
  apart h := nomatch h
  order := .nil
  home h := nomatch h
  inner h := nomatch h

theorem Waits.init : Waits .empty .empty (.empty : Heap (Shared T X)) [] where
  owned h := nomatch h
  quiet h := nomatch h
  continuation h := nomatch h
  outer h := nomatch h

theorem Inv.init : Inv none (init : Futures T X) where
  clean := rfl
  settled h := nomatch h
  made := .init
  custody := .init
  ledger := .init
  deaths := .init
  waits := .init

end Futures
end ActorZeta
