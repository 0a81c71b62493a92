import ActorZeta.Arguments.Types

/-!
# rtt, the body of a message

The decayed copies of the arguments of `send()`, placed one after the other in a block whose size is
computed from the types before they decay.

* `alignUp`, `getSize`     the size of the block;
* `stdAlign`               `std::align`;
* `Rtt.pushBack`, `Rtt.ofArgs`   one argument, and the constructor; `none` where it aborts;
* `used`                   the bytes that the copies need, from the address of the block on;
* `ofArgs_isSome`          the constructor goes through if and only if they fit;
* `ofArgs_plain`           which they do, if none is an array or aligned more than the block;
* `Holds`                  what the body holds then: each argument, at the type it was stored at.
-/

namespace ActorZeta
variable {τ V : Type}

/-- `align_up`: `(n + align - 1) & ~(align - 1)`.  The `size_t` of the source is a `Nat` here and in
`getSize`: the sums would wrap around only if the copies of the arguments of one call took 2^64
bytes, or if a block reached the last address, and the addresses of a process have fewer bits. -/
def alignUp (n align : Nat) : Nat := (n + align - 1) - ((n + align - 1) &&& (align - 1))

theorem alignUp_eq (n k : Nat) :
    alignUp n (2 ^ k) = (n + 2 ^ k - 1) - (n + 2 ^ k - 1) % 2 ^ k := by
  unfold alignUp
  rw [Nat.and_two_pow_sub_one_eq_mod]

theorem le_alignUp (n k : Nat) : n ≤ alignUp n (2 ^ k) := by
  rw [alignUp_eq]
  have hpos : 0 < 2 ^ k := Nat.two_pow_pos k
  have hmod := Nat.mod_lt (n + 2 ^ k - 1) hpos
  omega

/-- an aligned base stays out of it -/
theorem alignUp_shift {base k : Nat} (h : 2 ^ k ∣ base) (n : Nat) :
    alignUp (base + n) (2 ^ k) = base + alignUp n (2 ^ k) := by
  obtain ⟨q, rfl⟩ := h
  have hpos : 0 < 2 ^ k := Nat.two_pow_pos k
  have hle := Nat.mod_le (n + 2 ^ k - 1) (2 ^ k)
  rw [alignUp_eq, alignUp_eq, show 2 ^ k * q + n + 2 ^ k - 1 = n + 2 ^ k - 1 + 2 ^ k * q by omega,
    Nat.add_mul_mod_self_left]
  omega

/-- `std::align`: the first aligned address, if the object fits into the space from there -/
def stdAlign (align size ptr space : Nat) : Option Nat :=
  if alignUp ptr align - ptr + size ≤ space then some (alignUp ptr align) else none

/-- an argument of `send()`: its type, and what a decayed copy of it holds -/
structure Arg (τ V : Type) where
  type : QualType τ
  value : V

/-- `objects_t`; the destroyer tells the type -/
structure RttObject (τ : Type) where
  offset : Nat
  destroyer : CppType τ

/-- the block from `data` on, with the objects that were constructed in it -/
structure Rtt (τ V : Type) where
  data : Nat
  capacity : Nat
  volume : Nat
  objects : List (RttObject τ)
  memory : Nat → Option (CppType τ × V)

namespace Compiler

/-- `getSize<N, Args...>()`; `sizeof` and `alignof` of a reference are those of what it refers to -/
def getSize (cc : Compiler τ) : Nat → List (QualType τ) → Nat
  | n, [] => n
  | n, t :: ts => getSize cc (alignUp n (cc.alignOf t.type) + cc.sizeOf t.type) ts

/-- where the copies end that are placed after the first `volume` bytes of a block at `base` -/
def used (cc : Compiler τ) (base : Nat) : Nat → List (CppType τ) → Nat
  | volume, [] => volume
  | volume, t :: ts =>
    used cc base (alignUp (base + volume) (cc.alignOf t) - base + cc.sizeOf t) ts

variable (cc : Compiler τ)

theorem le_used (base : Nat) (ts : List (CppType τ)) :
    ∀ volume, volume ≤ cc.used base volume ts := by
  induction ts with
  | nil => exact fun volume => Nat.le_refl volume
  | cons t ts ih =>
    intro volume
    have hal := le_alignUp (base + volume) (cc.logAlign t)
    have hih := ih (alignUp (base + volume) (cc.alignOf t) - base + cc.sizeOf t)
    unfold used
    unfold alignOf at hih ⊢
    omega

/-- no array among the arguments, and a block aligned for all of them: the copies fit exactly -/
theorem used_eq_getSize {base : Nat} {ts : List (QualType τ)}
    (hplain : ∀ t ∈ ts, ∀ e n, t.type ≠ .array e n)
    (haligned : ∀ t ∈ ts, cc.alignOf t.type ∣ base) :
    ∀ volume, cc.used base volume (ts.map QualType.decay) = cc.getSize volume ts := by
  induction ts with
  | nil => exact fun _ => rfl
  | cons t ts ih =>
    intro volume
    obtain ⟨hsize, halign⟩ := cc.sizeOf_decay (hplain t List.mem_cons_self)
    have hshift : alignUp (base + volume) (cc.alignOf t.type) =
        base + alignUp volume (cc.alignOf t.type) :=
      alignUp_shift (haligned t List.mem_cons_self) volume
    have htail := ih (fun u hu => hplain u (List.mem_cons_of_mem _ hu))
      (fun u hu => haligned u (List.mem_cons_of_mem _ hu))
    show cc.used base (alignUp (base + volume) (cc.alignOf t.type.decay) - base +
      cc.sizeOf t.type.decay) (ts.map QualType.decay) = _
    rw [halign, hsize, hshift, Nat.add_sub_cancel_left]
    exact htail _

end Compiler

namespace Rtt
variable (cc : Compiler τ)

/-- `try_to_align<T>()` -/
def tryToAlign (t : CppType τ) (r : Rtt τ V) : Option Nat :=
  stdAlign (cc.alignOf t) (cc.sizeOf t) (r.data + r.volume) (r.capacity - r.volume)

/-- `push_back_no_realloc`; `force_align` aborts where there is no room -/
def pushBack (r : Rtt τ V) (a : Arg τ V) : Option (Rtt τ V) :=
  let rawType := a.type.decay
  (r.tryToAlign cc rawType).map fun creationPlace =>
    let newOffset := creationPlace - r.data
    { r with
      memory := fun o => if o = newOffset then some (rawType, a.value) else r.memory o
      objects := r.objects ++ [⟨newOffset, rawType⟩]
      volume := newOffset + cc.sizeOf rawType }

/-- a block at `data` for arguments of these types -/
def allocated (data : Nat) (ts : List (QualType τ)) : Rtt τ V :=
  ⟨data, cc.getSize 0 ts, 0, [], fun _ => none⟩

/-- the constructor `rtt(resource, args...)`, when the resource gives the block at `data` -/
def ofArgs (data : Nat) (args : List (Arg τ V)) : Option (Rtt τ V) :=
  args.foldlM (pushBack cc) (allocated cc data (args.map Arg.type))

/-- `get<T>(index)`: the object at the offset, which must be a `T` -/
def get [DecidableEq τ] (r : Rtt τ V) (index : Nat) (t : CppType τ) : Option V :=
  match r.objects[index]? with
  | none => none
  | some o => match r.memory o.offset with
    | none => none
    | some (t', v) => if t' = t then some v else none

/-! ## what the body holds -/

/-- the body holds the arguments `args`: each at an offset of its own, at its decayed type -/
structure Holds (r : Rtt τ V) (args : List (Arg τ V)) : Prop where
  length : r.objects.length = args.length
  stored : ∀ (i : Nat) (a : Arg τ V), args[i]? = some a → ∃ o : Nat,
    r.objects[i]? = some ⟨o, a.type.decay⟩ ∧ o < r.volume ∧
      r.memory o = some (a.type.decay, a.value)

variable {cc}

/-- the step: an object goes behind the others, if there is room -/
theorem pushBack_some {r r' : Rtt τ V} {a : Arg τ V} (h : r.pushBack cc a = some r') :
    ∃ o, r.volume ≤ o ∧ o + cc.sizeOf a.type.decay = r'.volume ∧
      r'.objects = r.objects ++ [⟨o, a.type.decay⟩] ∧
      r'.memory = (fun x => if x = o then some (a.type.decay, a.value) else r.memory x) := by
  obtain ⟨place, hplace, rfl⟩ := Option.map_eq_some_iff.mp h
  have hal := le_alignUp (r.data + r.volume) (cc.logAlign a.type.decay)
  unfold tryToAlign stdAlign at hplace
  obtain ⟨-, hp⟩ := Option.ite_none_right_eq_some.mp hplace
  have hp : alignUp (r.data + r.volume) (2 ^ cc.logAlign a.type.decay) = place := Option.some.inj hp
  exact ⟨place - r.data, by omega, rfl, rfl, rfl⟩

theorem Holds.pushBack {r r' : Rtt τ V} {args : List (Arg τ V)} {a : Arg τ V} (hr : r.Holds args)
    (h : r.pushBack cc a = some r') : r'.Holds (args ++ [a]) := by
  obtain ⟨o, hle, hvol, hobj, hmem⟩ := pushBack_some h
  have hpos := cc.sizeOf_decay_pos a.type.type
  have hvol : o + cc.sizeOf a.type.type.decay = r'.volume := hvol
  refine ⟨?_, fun i b hb => ?_⟩
  · rw [hobj, List.length_append, List.length_append, hr.length]
    rfl
  · by_cases hi : i < args.length
    · rw [List.getElem?_append_left hi] at hb
      obtain ⟨x, hx, hlt, hval⟩ := hr.stored i b hb
      refine ⟨x, ?_, by omega, ?_⟩
      · rw [hobj, List.getElem?_append_left (by rw [hr.length]; exact hi)]
        exact hx
      · rw [hmem]
        dsimp only
        rw [if_neg (by omega)]
        exact hval
    · rw [List.getElem?_append_right (by omega)] at hb
      obtain ⟨h0, rfl⟩ : i - args.length = 0 ∧ a = b := by
        obtain ⟨hlt, hab⟩ := List.getElem?_eq_some_iff.mp hb
        have hlt' : i - args.length < 1 := hlt
        have h0 : i - args.length = 0 := by omega
        refine ⟨h0, ?_⟩
        rw [← hab]
        simp [h0]
      refine ⟨o, ?_, by omega, ?_⟩
      · rw [hobj, List.getElem?_append_right (by rw [hr.length]; omega), hr.length, h0]
        rfl
      · rw [hmem]
        exact if_pos rfl

theorem foldlM_holds {args : List (Arg τ V)} : ∀ {r r' : Rtt τ V} {held : List (Arg τ V)},
    r.Holds held → args.foldlM (Rtt.pushBack cc) r = some r' → r'.Holds (held ++ args) := by
  induction args with
  | nil =>
    intro r r' held hr h
    cases h
    rw [List.append_nil]
    exact hr
  | cons a args ih =>
    intro r r' held hr h
    rw [List.foldlM_cons] at h
    obtain ⟨r₁, h₁, h⟩ := Option.bind_eq_some_iff.mp h
    have := ih (hr.pushBack h₁) h
    rw [List.append_assoc] at this
    exact this

theorem ofArgs_holds {data : Nat} {args : List (Arg τ V)} {r : Rtt τ V}
    (h : ofArgs cc data args = some r) : r.Holds args := by
  have hnone : (allocated cc data (args.map Arg.type) : Rtt τ V).Holds [] :=
    ⟨rfl, fun i a ha => by cases ha⟩
  exact foldlM_holds hnone h

/-- `get` finds them -/
theorem Holds.get [DecidableEq τ] {r : Rtt τ V} {args : List (Arg τ V)} (hr : r.Holds args)
    {i : Nat} {a : Arg τ V} (ha : args[i]? = some a) : r.get i a.type.decay = some a.value := by
  obtain ⟨o, ho, -, hv⟩ := hr.stored i a ha
  unfold Rtt.get
  rw [ho]
  dsimp only
  rw [hv]
  exact if_pos rfl

/-- whether there is room is told by where the copy would end -/
theorem pushBack_cases (r : Rtt τ V) (a : Arg τ V) (hr : r.volume ≤ r.capacity) :
    (∃ r', r.pushBack cc a = some r' ∧ r'.data = r.data ∧ r'.capacity = r.capacity ∧
      r'.volume = alignUp (r.data + r.volume) (cc.alignOf a.type.decay) - r.data +
        cc.sizeOf a.type.decay ∧ r'.volume ≤ r'.capacity) ∨
    (r.pushBack cc a = none ∧ r.capacity <
      alignUp (r.data + r.volume) (cc.alignOf a.type.decay) - r.data + cc.sizeOf a.type.decay) := by
  have hal := le_alignUp (r.data + r.volume) (cc.logAlign a.type.decay)
  have hal : r.data + r.volume ≤ alignUp (r.data + r.volume) (cc.alignOf a.type.decay) := hal
  have hpos := cc.sizeOf_decay_pos a.type.type
  have hpos : 0 < cc.sizeOf a.type.decay := hpos
  by_cases hfit : alignUp (r.data + r.volume) (cc.alignOf a.type.decay) - (r.data + r.volume) +
      cc.sizeOf a.type.decay ≤ r.capacity - r.volume
  · left
    have hplace : r.tryToAlign cc a.type.decay =
        some (alignUp (r.data + r.volume) (cc.alignOf a.type.decay)) := if_pos hfit
    unfold Rtt.pushBack
    dsimp only
    rw [hplace]
    refine ⟨_, rfl, rfl, rfl, rfl, ?_⟩
    dsimp only
    omega
  · right
    have hplace : r.tryToAlign cc a.type.decay = none := if_neg hfit
    unfold Rtt.pushBack
    dsimp only
    rw [hplace]
    exact ⟨rfl, by omega⟩

/-- the run: the constructor goes through if and only if the last copy ends inside the block -/
theorem foldlM_isSome (args : List (Arg τ V)) : ∀ r : Rtt τ V, r.volume ≤ r.capacity →
    ((args.foldlM (Rtt.pushBack cc) r).isSome = true ↔
      cc.used r.data r.volume (args.map fun a => a.type.decay) ≤ r.capacity) := by
  induction args with
  | nil => exact fun r hr => ⟨fun _ => hr, fun _ => rfl⟩
  | cons a args ih =>
    intro r hr
    rw [List.foldlM_cons, List.map_cons, Compiler.used]
    rcases @pushBack_cases τ V cc r a hr with ⟨r', hr', hdata, hcap, hvol, hle⟩ | ⟨hnone, hbig⟩
    · rw [hr', ← hvol, ← hdata, ← hcap]
      exact ih r' hle
    · have hused := cc.le_used r.data (args.map fun a => a.type.decay)
        (alignUp (r.data + r.volume) (cc.alignOf a.type.decay) - r.data + cc.sizeOf a.type.decay)
      rw [hnone]
      constructor
      · intro h
        cases h
      · intro h
        exact absurd (Nat.le_trans hused h) (Nat.not_le_of_gt hbig)

theorem ofArgs_isSome (data : Nat) (args : List (Arg τ V)) :
    (ofArgs cc data args).isSome = true ↔
      cc.used data 0 (args.map fun a => a.type.decay) ≤ cc.getSize 0 (args.map Arg.type) :=
  foldlM_isSome args (allocated cc data (args.map Arg.type)) (Nat.zero_le _)

/-- arguments that are no arrays always fit, in a block that is aligned for them -/
theorem ofArgs_plain {data : Nat} {args : List (Arg τ V)}
    (hplain : ∀ a ∈ args, ∀ e n, a.type.type ≠ .array e n)
    (haligned : ∀ a ∈ args, cc.alignOf a.type.type ∣ data) :
    (ofArgs cc data args).isSome = true := by
  have hexact := cc.used_eq_getSize (List.forall_mem_map.mpr hplain)
    (List.forall_mem_map.mpr haligned) 0
  rw [List.map_map] at hexact
  exact (ofArgs_isSome data args).mpr (Nat.le_of_eq hexact)

end Rtt
end ActorZeta
