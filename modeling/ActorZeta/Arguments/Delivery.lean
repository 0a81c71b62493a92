import ActorZeta.Arguments.Rtt

/-!
# Arguments, from send() to the method

`send()` stores what it was given, `dispatch()` reads by the signature of the method; the message
dies while the method is suspended.

* `Param`               a parameter in the frame of the method;
* `getArg`, `invokeActorMethod`   what `dispatch()` passes to the method, `none` where an object is
                        read at a type that it does not have;
* `Received`, `Arrive`  every argument arrives, converted, and stays;
* `arrive_iff`          when that is so;
* `converted_lost`      a conversion, a short array and a `T&&`, which `send()` lets through.
-/

namespace ActorZeta
variable {τ V : Type} [DecidableEq τ]

/-- a parameter of the method's coroutine: an object in its frame, or a reference into the body -/
inductive Param (τ V : Type) where
  | value (v : V)
  | reference (index : Nat) (type : CppType τ)

def Param.inBody : Param τ V → Bool
  | value _ => false
  | reference _ _ => true

/-- what the method reads, with the body or after the message was destroyed -/
def Param.read (body : Option (Rtt τ V)) : Param τ V → Option V
  | value v => some v
  | reference i t => body.bind fun r => r.get i t

/-- `get<I, List>`: a `T` is moved out of the body, `const T&` and `T&&` are bound to it -/
def getArg (r : Rtt τ V) (i : Nat) (t : QualType τ) : Option (Param τ V) :=
  (r.get i t.decay).map fun v => match t.ref with
    | .none => .value v
    | .lvalue => .reference i t.decay
    | .rvalue => .reference i t.decay

def getArgs (r : Rtt τ V) : Nat → List (QualType τ) → Option (List (Param τ V))
  | _, [] => some []
  | i, t :: ts => (getArg r i t).bind fun p => (getArgs r (i + 1) ts).map (p :: ·)

/-- `invoke_actor_method`, after the assertion of `dispatch()` on the number of arguments -/
def invokeActorMethod (r : Rtt τ V) (params : List (QualType τ)) : Option (List (Param τ V)) :=
  if params.length ≠ 0 ∧ r.objects.length ≠ params.length then none else getArgs r 0 params

/-- the argument, converted to the type of the parameter -/
def converted (convert : CppType τ → CppType τ → V → V) (t : QualType τ) (a : Arg τ V) : V :=
  if a.type.decay = t.decay then a.value else convert a.type.decay t.decay a.value

/-- the method gets what was sent: `dispatch()` reads each argument at its own type, and the
parameter is an object with its value, which outlives the message -/
structure Received (convert : CppType τ → CppType τ → V → V) (params : List (QualType τ))
    (args : List (Arg τ V)) (body : Rtt τ V) (ps : List (Param τ V)) : Prop where
  length : ps.length = params.length
  typed : ∀ (i : Nat) (t : QualType τ) (o : RttObject τ), params[i]? = some t →
    body.objects[i]? = some o → o.destroyer = t.decay
  value : ∀ (i : Nat) (t : QualType τ) (a : Arg τ V) (p : Param τ V), params[i]? = some t →
    args[i]? = some a → ps[i]? = some p → p.read (some body) = some (converted convert t a) ∧
      p.inBody = false ∧ p.read none = some (converted convert t a)

/-- the body is built at `data`, and everything in it is received -/
def Arrive (cc : Compiler τ) (convert : CppType τ → CppType τ → V → V) (data : Nat)
    (params : List (QualType τ)) (args : List (Arg τ V)) : Prop :=
  ∃ body, Rtt.ofArgs cc data args = some body ∧
    ∃ ps, invokeActorMethod body params = some ps ∧ Received convert params args body ps

theorem getArgs_some {r : Rtt τ V} (ts : List (QualType τ)) : ∀ i : Nat,
    (∀ (j : Nat) (t : QualType τ), ts[j]? = some t → ∃ p, getArg r (i + j) t = some p) →
    ∃ ps, getArgs r i ts = some ps := by
  induction ts with
  | nil => exact fun _ _ => ⟨[], rfl⟩
  | cons t ts ih =>
    intro i h
    obtain ⟨p, hp⟩ := h 0 t rfl
    obtain ⟨ps, hps⟩ := ih (i + 1) fun j u hu => by
      rw [show i + 1 + j = i + (j + 1) by omega]
      exact h (j + 1) u hu
    refine ⟨p :: ps, ?_⟩
    have hp : getArg r i t = some p := hp
    unfold getArgs
    rw [hp, Option.bind_some, hps]
    rfl

theorem getArgs_spec {r : Rtt τ V} (ts : List (QualType τ)) : ∀ (i : Nat) {ps : List (Param τ V)},
    getArgs r i ts = some ps → ps.length = ts.length ∧
      ∀ (j : Nat) (t : QualType τ) (p : Param τ V), ts[j]? = some t → ps[j]? = some p →
        getArg r (i + j) t = some p := by
  induction ts with
  | nil =>
    intro i ps h
    cases h
    exact ⟨rfl, fun j t p ht => by cases ht⟩
  | cons u ts ih =>
    intro i ps h
    obtain ⟨q, hq, h⟩ := Option.bind_eq_some_iff.mp h
    obtain ⟨qs, hqs, rfl⟩ := Option.map_eq_some_iff.mp h
    obtain ⟨hlen, hget⟩ := ih (i + 1) hqs
    refine ⟨by rw [List.length_cons, List.length_cons, hlen], fun j t p ht hp => ?_⟩
    cases j with
    | zero =>
      cases ht
      cases hp
      exact hq
    | succ j =>
      rw [show i + (j + 1) = i + 1 + j by omega]
      exact hget j t p ht hp

/-- where the method gets its parameters from -/
theorem invokeActorMethod_some {body : Rtt τ V} {params : List (QualType τ)}
    {ps : List (Param τ V)} (h : invokeActorMethod body params = some ps) :
    ps.length = params.length ∧ ∀ (j : Nat) (t : QualType τ) (p : Param τ V),
      params[j]? = some t → ps[j]? = some p → getArg body j t = some p := by
  obtain ⟨-, h⟩ := Option.ite_none_left_eq_some.mp h
  obtain ⟨hlen, hget⟩ := getArgs_spec params 0 h
  refine ⟨hlen, fun j t p ht hp => ?_⟩
  have hj := hget j t p ht hp
  rw [Nat.zero_add] at hj
  exact hj

/-- a `T&&` refers into the body -/
theorem getArg_rvalue {r : Rtt τ V} {i : Nat} {t : QualType τ} (ht : t.ref = .rvalue)
    {p : Param τ V} (h : getArg r i t = some p) : p.inBody = true := by
  obtain ⟨v, -, rfl⟩ := Option.map_eq_some_iff.mp h
  rw [ht]
  rfl

theorem getArg_value {r : Rtt τ V} {i : Nat} {t : QualType τ} (ht : t.ref = .none) {v : V}
    (hv : r.get i t.decay = some v) : getArg r i t = some (.value v) := by
  unfold getArg
  rw [hv, Option.map_some, ht]

/-- parameters by value, each of the type that was stored -/
theorem Rtt.Holds.invoke {body : Rtt τ V} {params : List (QualType τ)} {args : List (Arg τ V)}
    (hb : body.Holds args) (hlen : params.length = args.length)
    (hsame : ∀ (i : Nat) (t : QualType τ) (a : Arg τ V), params[i]? = some t →
      args[i]? = some a → t.decay = a.type.decay) (href : ∀ t ∈ params, t.ref = .none) :
    (∀ (i : Nat) (t : QualType τ) (a : Arg τ V), params[i]? = some t → args[i]? = some a →
      getArg body i t = some (.value a.value)) ∧
    ∃ ps, invokeActorMethod body params = some ps := by
  have hget : ∀ (i : Nat) (t : QualType τ) (a : Arg τ V), params[i]? = some t →
      args[i]? = some a → getArg body i t = some (.value a.value) := by
    intro i t a ht ha
    refine getArg_value (href t (List.mem_of_getElem? ht)) ?_
    rw [hsame i t a ht ha]
    exact hb.get ha
  refine ⟨hget, ?_⟩
  unfold invokeActorMethod
  rw [if_neg (fun hne => hne.2 (hb.length.trans hlen.symm))]
  refine getArgs_some params 0 fun i t ht => ?_
  obtain ⟨hi, -⟩ := List.getElem?_eq_some_iff.mp ht
  rw [Nat.zero_add]
  exact ⟨_, hget i t _ ht (List.getElem?_eq_getElem (by omega))⟩

/-- **When arguments arrive.**  For every method that `dispatch_traits` and `dispatch()`
accept and every argument list that `send()` accepts: exactly when no argument has to be converted,
no parameter is a `T&&`, and the decayed copies fit into the block that was sized for the types
before they decay. -/
theorem arrive_iff (cc : Compiler τ) (convert : CppType τ → CppType τ → V → V) (data : Nat)
    (params : List (QualType τ)) (args : List (Arg τ V))
    (hmethod : cc.acceptedMethod params = true)
    (hsend : cc.validateSendArgs params (args.map Arg.type) = true) :
    Arrive cc convert data params args ↔
      (∀ (i : Nat) (t : QualType τ) (a : Arg τ V), params[i]? = some t → args[i]? = some a →
        t.decay = a.type.decay) ∧
      (∀ t ∈ params, t.ref ≠ .rvalue) ∧
      cc.used data 0 (args.map fun a => a.type.decay) ≤ cc.getSize 0 (args.map Arg.type) := by
  have hlen : params.length = args.length := by
    rw [cc.validateSendArgs_length hsend, List.length_map]
  constructor
  · rintro ⟨body, hbody, ps, hps, hrec⟩
    have hholds := Rtt.ofArgs_holds hbody
    refine ⟨fun i t a ht ha => ?_, fun t ht href => ?_, ?_⟩
    · obtain ⟨o, ho, -⟩ := hholds.stored i a ha
      exact (hrec.typed i t _ ht ho).symm
    · obtain ⟨i, hi, rfl⟩ := List.getElem_of_mem ht
      obtain ⟨hlenps, hget⟩ := invokeActorMethod_some hps
      have hips : i < ps.length := by omega
      have hiargs : i < args.length := by omega
      have hp : ps[i]? = some ps[i] := List.getElem?_eq_getElem hips
      have ha : args[i]? = some args[i] := List.getElem?_eq_getElem hiargs
      have hti : params[i]? = some params[i] := List.getElem?_eq_getElem hi
      have hin := getArg_rvalue href (hget i _ _ hti hp)
      rw [(hrec.value i _ _ _ hti ha hp).2.1] at hin
      cases hin
    · refine (Rtt.ofArgs_isSome data args).mp ?_
      rw [hbody]
      rfl
  · rintro ⟨hsame, href, hfit⟩
    obtain ⟨body, hbody⟩ := Option.isSome_iff_exists.mp ((Rtt.ofArgs_isSome data args).mpr hfit)
    have hholds := Rtt.ofArgs_holds hbody
    have hnone : ∀ t ∈ params, t.ref = .none := by
      intro t ht
      have hl := cc.acceptedMethod_ref hmethod ht
      have hr := href t ht
      rcases hk : t.ref with _ | _ | _
      · rfl
      · exact absurd hk hl
      · exact absurd hk hr
    obtain ⟨hget, ps, hps⟩ := hholds.invoke hlen hsame hnone
    obtain ⟨hlenps, hspec⟩ := invokeActorMethod_some hps
    refine ⟨body, hbody, ps, hps, hlenps, fun i t o ht ho => ?_, fun i t a p ht ha hp => ?_⟩
    · obtain ⟨hi, -⟩ := List.getElem?_eq_some_iff.mp ht
      have hiargs : i < args.length := by omega
      have ha : args[i]? = some args[i] := List.getElem?_eq_getElem hiargs
      obtain ⟨x, hx, -⟩ := hholds.stored i _ ha
      rw [ho] at hx
      rw [Option.some.inj hx]
      exact (hsame i t _ ht ha).symm
    · have hval := hget i t a ht ha
      rw [hspec i t p ht hp] at hval
      have hconv : converted convert t a = a.value := if_pos (hsame i t a ht ha).symm
      rw [Option.some.inj hval, hconv]
      exact ⟨rfl, rfl, rfl⟩

/-! ## three argument lists -/

/-- `f(long, int)`, with a `const long` and an `int` -/
theorem arrive_iff_same : Arrive lp64 (fun _ _ v => v) 4096
    [⟨.none, .obj .long false⟩, ⟨.none, .obj .int false⟩]
    [⟨⟨.lvalue, .obj .long true⟩, (5 : Int)⟩, ⟨⟨.none, .obj .int false⟩, 7⟩] := by
  refine (arrive_iff lp64 _ 4096 _ _ (by decide) (by decide)).mpr ⟨?_, by decide, by decide⟩
  intro i t a ht ha
  match i with
  | 0 =>
    cases ht
    cases ha
    rfl
  | 1 =>
    cases ht
    cases ha
    rfl
  | i + 2 => cases ht

/-- What `send()` and `dispatch()` accept: `f(long)` with the `int` 7, which is read as a `long`;
`f(const char*)` with `"hi"`, three bytes for a pointer; and `f(long&&)`. -/
theorem converted_lost :
    (∃ (params : List (QualType Arithmetic)) (args : List (Arg Arithmetic Int)),
      params = [⟨.none, .obj .long false⟩] ∧ args = [⟨⟨.none, .obj .int false⟩, 7⟩] ∧
      lp64.acceptedMethod params = true ∧
      lp64.validateSendArgs params (args.map Arg.type) = true ∧
      ¬ Arrive lp64 (fun _ _ v => v) 4096 params args) ∧
    (∃ (params : List (QualType Arithmetic)) (args : List (Arg Arithmetic Int)),
      params = [⟨.none, .ptr (.obj .char true) false⟩] ∧
      args = [⟨⟨.lvalue, .array (.obj .char true) 3⟩, 9000⟩] ∧
      lp64.acceptedMethod params = true ∧
      lp64.validateSendArgs params (args.map Arg.type) = true ∧
      ¬ Arrive lp64 (fun _ _ v => v) 4096 params args) ∧
    (∃ (params : List (QualType Arithmetic)) (args : List (Arg Arithmetic Int)),
      params = [⟨.rvalue, .obj .long false⟩] ∧ args = [⟨⟨.none, .obj .long false⟩, 7⟩] ∧
      lp64.acceptedMethod params = true ∧
      lp64.validateSendArgs params (args.map Arg.type) = true ∧
      ¬ Arrive lp64 (fun _ _ v => v) 4096 params args) := by
  refine ⟨⟨_, _, rfl, rfl, by decide, by decide, ?_⟩, ⟨_, _, rfl, rfl, by decide, by decide, ?_⟩,
    ⟨_, _, rfl, rfl, by decide, by decide, ?_⟩⟩
  · rintro ⟨body, hbody, ps, -, hrec⟩
    obtain ⟨o, ho, -⟩ := (Rtt.ofArgs_holds hbody).stored 0 _ rfl
    have hlong : CppType.obj Arithmetic.int false = .obj .long false := hrec.typed 0 _ _ rfl ho
    cases hlong
  · rintro ⟨body, hbody, -⟩
    have hfit := (Rtt.ofArgs_isSome 4096 _).mp (Option.isSome_of_eq_some hbody)
    revert hfit
    decide
  · rintro ⟨body, -, ps, hps, hrec⟩
    obtain ⟨hlen, hget⟩ := invokeActorMethod_some hps
    have hlen : ps.length = 1 := hlen
    have hp : ps[0]? = some ps[0] := List.getElem?_eq_getElem (by omega)
    have hin := getArg_rvalue rfl (hget 0 _ _ rfl hp)
    rw [(hrec.value 0 _ _ _ rfl rfl hp).2.1] at hin
    cases hin

end ActorZeta
