import Mathlib.Algebra.Group.Nat.Defs

/-!
# The types of arguments and parameters

The C++ types that `send()` and `dispatch()` compare at compile time, and the checks themselves.

* `CppType`, `QualType`   object types, and the types of arguments and parameters;
* `decay`                 `std::decay_t`: no reference, no `const`, an array is a pointer;
* `Compiler`              what the compiler knows of the types of a program;
* `convertibleArg`, `compatibleArgs`, `validRttType`      the checks of `send()`;
* `acceptedMethod`        the checks of `dispatch_traits` and of `dispatch()`;
* `lp64`                  some arithmetic types.
-/

namespace ActorZeta

/-- an object type over the classes and scalars `τ`; `const` on an array is `const` on its
elements -/
inductive CppType (τ : Type) where
  | obj (t : τ) (isConst : Bool)
  | ptr (pointee : CppType τ) (isConst : Bool)
  | array (elem : CppType τ) (extent : Nat)
  deriving DecidableEq, Repr

inductive RefKind where
  | none
  | lvalue
  | rvalue
  deriving DecidableEq, Repr

/-- an object type or a reference to one: of a parameter, or what `Args` is deduced as (a reference
for an lvalue, none for an rvalue) -/
structure QualType (τ : Type) where
  ref : RefKind
  type : CppType τ
  deriving DecidableEq, Repr

namespace CppType
variable {τ : Type}

def isConst : CppType τ → Bool
  | obj _ c => c
  | ptr _ c => c
  | array e _ => e.isConst

def decay : CppType τ → CppType τ
  | obj t _ => obj t false
  | ptr p _ => ptr p false
  | array e _ => ptr e false

end CppType

/-- `std::decay_t` -/
def QualType.decay {τ : Type} (t : QualType τ) : CppType τ := t.type.decay

/-- What the compiler knows: the layout of the classes and scalars, where `alignof` is two to the
`alignLog`, and the answers of the type traits. -/
structure Compiler (τ : Type) where
  size : τ → Nat
  alignLog : τ → Nat
  isAbstract : τ → Bool
  isCopyConstructible : CppType τ → Bool
  isMoveConstructible : CppType τ → Bool
  isConvertible : CppType τ → CppType τ → Bool
  size_pos : ∀ t, 0 < size t

namespace Compiler
variable {τ : Type} (cc : Compiler τ)

def sizeOf : CppType τ → Nat
  | .obj t _ => cc.size t
  | .ptr _ _ => 8
  | .array e n => n * sizeOf e

/-- the logarithm of `alignof` -/
def logAlign : CppType τ → Nat
  | .obj t _ => cc.alignLog t
  | .ptr _ _ => 3
  | .array e _ => logAlign e

def alignOf (t : CppType τ) : Nat := 2 ^ cc.logAlign t

def isAbstractType : CppType τ → Bool
  | .obj t _ => cc.isAbstract t
  | _ => false

theorem sizeOf_decay_pos (t : CppType τ) : 0 < cc.sizeOf t.decay := by
  cases t with
  | obj t _ => exact cc.size_pos t
  | ptr _ _ => exact Nat.succ_pos 7
  | array _ _ => exact Nat.succ_pos 7

/-- an argument that is no array is as large as its copy -/
theorem sizeOf_decay {t : CppType τ} (h : ∀ e n, t ≠ .array e n) :
    cc.sizeOf t.decay = cc.sizeOf t ∧ cc.alignOf t.decay = cc.alignOf t := by
  cases t with
  | obj t _ => exact ⟨rfl, rfl⟩
  | ptr _ _ => exact ⟨rfl, rfl⟩
  | array e n => exact absurd rfl (h e n)

/-- what a message can hold -/
def validRttType (t : QualType τ) : Bool :=
  t.ref == .none && !cc.isAbstractType t.decay &&
    (cc.isCopyConstructible t.decay || cc.isMoveConstructible t.decay)

/-! ## dispatch_traits and dispatch() -/

def constLvalueRef (t : QualType τ) : Bool := t.ref == .lvalue && t.type.isConst

def nonConstLvalueRef (t : QualType τ) : Bool := t.ref == .lvalue && !t.type.isConst

def rvalueRefToMoveOnly (t : QualType τ) : Bool :=
  t.ref == .rvalue && cc.isMoveConstructible t.type && !cc.isCopyConstructible t.type

/-- `coroutine_parameter_check` -/
def coroutineParameterCheck (args : List (QualType τ)) : Bool :=
  !args.any constLvalueRef && !args.any cc.rvalueRefToMoveOnly

/-- the assertions of `dispatch()` -/
def validateArgsList (args : List (QualType τ)) : Bool :=
  (args.all fun t => cc.validRttType ⟨.none, t.decay⟩) && !args.any nonConstLvalueRef

def acceptedMethod (args : List (QualType τ)) : Bool :=
  cc.coroutineParameterCheck args && cc.validateArgsList args

/-- no parameter is an lvalue reference, of whatever kind -/
theorem acceptedMethod_ref {args : List (QualType τ)} (h : cc.acceptedMethod args = true)
    {t : QualType τ} (ht : t ∈ args) : t.ref ≠ .lvalue := by
  intro hl
  unfold acceptedMethod coroutineParameterCheck validateArgsList at h
  simp only [Bool.and_eq_true, Bool.not_eq_true', List.any_eq_false] at h
  have hc := h.1.1 t ht
  have hn := h.2.2 t ht
  unfold constLvalueRef at hc
  unfold nonConstLvalueRef at hn
  rw [hl] at hc hn
  rcases hconst : t.type.isConst with _ | _
  · rw [hconst] at hn
    exact hn rfl
  · rw [hconst] at hc
    exact hc rfl

/-! ## send() -/

variable [DecidableEq τ]

def convertibleArg (expected provided : QualType τ) : Bool :=
  expected.decay == provided.decay || cc.isConvertible provided.decay expected.decay

def compatibleArgs (expected provided : List (QualType τ)) : Bool :=
  expected.length == provided.length &&
    (List.zipWith (convertibleArg cc) expected provided).all id

/-- `validate_send_args` -/
def validateSendArgs (expected provided : List (QualType τ)) : Bool :=
  compatibleArgs cc expected provided &&
    provided.all fun t => validRttType cc ⟨.none, t.decay⟩

theorem validateSendArgs_length {expected provided : List (QualType τ)}
    (h : cc.validateSendArgs expected provided = true) : expected.length = provided.length := by
  unfold validateSendArgs compatibleArgs at h
  rw [Bool.and_eq_true, Bool.and_eq_true] at h
  exact beq_iff_eq.mp h.1.1

end Compiler

/-! ## the arithmetic types -/

inductive Arithmetic where
  | char
  | int
  | long
  deriving DecidableEq, Repr

/-- the arithmetic types on a machine of 64 bits -/
def lp64 : Compiler Arithmetic where
  size | .char => 1 | .int => 4 | .long => 8
  alignLog | .char => 0 | .int => 2 | .long => 3
  isAbstract _ := false
  isCopyConstructible | .array _ _ => false | _ => true
  isMoveConstructible | .array _ _ => false | _ => true
  isConvertible
    | .obj _ _, .obj _ _ => true
    | _, _ => false
  size_pos t := by cases t <;> decide

end ActorZeta
