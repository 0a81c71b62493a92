import ActorZeta.Arguments.Rtt

/-!
# The layout of a body

The capacity of a block is computed from the types, the offsets by `std::align` from the space that
is left; the table of the offsets follows in the same block.

* `getSize_append`    the size of a prefix, and what one more type adds to it;
* `alignedCapacity`, `totalSize`   where the table starts, and where the block ends;
* `Laid`              each object is where the sizes of those before it put it;
* `rtt_layout`        the two computations agree.
-/

namespace ActorZeta
variable {τ V : Type}

theorem dvd_alignUp (n k : Nat) : 2 ^ k ∣ alignUp n (2 ^ k) := by
  rw [alignUp_eq]
  exact Nat.dvd_sub_mod (n + 2 ^ k - 1)

/-- `sizeof` and `alignof` of `objects_t`, an offset and a function pointer -/
def objectsSize : Nat := 16

def objectsAlign : Nat := 2 ^ 3

/-- `alignof(max_align_t)`, to which a resource aligns its blocks -/
def maxAlign : Nat := 2 ^ 4

namespace Compiler
variable (cc : Compiler τ)

/-- where the table starts in the block -/
def alignedCapacity (ts : List (QualType τ)) : Nat := alignUp (cc.getSize 0 ts) objectsAlign

def totalSize (ts : List (QualType τ)) : Nat :=
  cc.alignedCapacity ts + ts.length * objectsSize

theorem getSize_append (ts us : List (QualType τ)) :
    ∀ n, cc.getSize n (ts ++ us) = cc.getSize (cc.getSize n ts) us := by
  induction ts with
  | nil => exact fun _ => rfl
  | cons t ts ih => exact fun n => ih _

theorem le_getSize (ts : List (QualType τ)) : ∀ n, n ≤ cc.getSize n ts := by
  induction ts with
  | nil => exact fun n => Nat.le_refl n
  | cons t ts ih =>
    intro n
    have hal := le_alignUp n (cc.logAlign t.type)
    have hih := ih (alignUp n (cc.alignOf t.type) + cc.sizeOf t.type)
    unfold getSize
    unfold alignOf at hih ⊢
    omega

/-- a prefix needs no more than a longer one -/
theorem getSize_take_le {ts : List (QualType τ)} {i j : Nat} (hij : i ≤ j) :
    cc.getSize 0 (ts.take i) ≤ cc.getSize 0 (ts.take j) := by
  obtain ⟨us, hus⟩ : ∃ us, ts.take j = ts.take i ++ us := by
    refine ⟨(ts.take j).drop i, ?_⟩
    have hsplit := List.take_append_drop i (ts.take j)
    rw [List.take_take, Nat.min_eq_left hij] at hsplit
    exact hsplit.symm
  rw [hus, getSize_append]
  exact cc.le_getSize us _

/-- where an object starts, and that the next prefix ends with it -/
def offsetOf (ts : List (QualType τ)) (i : Nat) (t : QualType τ) : Nat :=
  alignUp (cc.getSize 0 (ts.take i)) (cc.alignOf t.type)

theorem offsetOf_end {ts : List (QualType τ)} {i : Nat} {t : QualType τ} (ht : ts[i]? = some t) :
    cc.offsetOf ts i t + cc.sizeOf t.type = cc.getSize 0 (ts.take (i + 1)) := by
  rw [List.take_add_one, ht, getSize_append]
  rfl

theorem alignOf_dvd {t : CppType τ} (h : cc.alignOf t ≤ maxAlign) {data : Nat}
    (hdata : maxAlign ∣ data) : cc.alignOf t ∣ data := by
  have hlog : cc.logAlign t ≤ 4 := (Nat.pow_le_pow_iff_right (by decide)).mp h
  exact Nat.dvd_trans (Nat.pow_dvd_pow 2 hlog) hdata

end Compiler

namespace Rtt
variable {cc : Compiler τ}

/-- `offset(index)` -/
def offset (r : Rtt τ V) (index : Nat) : Option Nat := r.objects[index]?.map RttObject.offset

/-- the objects of `args` are in the block at `data`, each where the sizes put it -/
structure Laid (cc : Compiler τ) (data : Nat) (r : Rtt τ V) (args : List (Arg τ V)) : Prop where
  data : r.data = data
  count : r.objects.length = args.length
  volume : r.volume = cc.getSize 0 (args.map Arg.type)
  offset : ∀ (i : Nat) (a : Arg τ V), args[i]? = some a →
    r.offset i = some (cc.offsetOf (args.map Arg.type) i a.type)

/-- the step: `std::align` finds the place that `getSize` has counted on -/
theorem Laid.pushBack {data : Nat} {r r' : Rtt τ V} {args : List (Arg τ V)} {a : Arg τ V}
    (hr : Laid cc data r args) (hroom : r.volume ≤ r.capacity)
    (hplain : ∀ e n, a.type.type ≠ .array e n) (haligned : cc.alignOf a.type.type ∣ data)
    (h : r.pushBack cc a = some r') : Laid cc data r' (args ++ [a]) ∧ r'.capacity = r.capacity ∧
      r'.volume ≤ r'.capacity := by
  obtain ⟨hsize, halign⟩ := cc.sizeOf_decay hplain
  have hsize : cc.sizeOf a.type.decay = cc.sizeOf a.type.type := hsize
  have halign : cc.alignOf a.type.decay = cc.alignOf a.type.type := halign
  obtain ⟨o, -, hend, hobj, -⟩ := pushBack_some h
  rcases @pushBack_cases τ V cc r a hroom with ⟨r₁, h₁, hdata, hcap, hvol, hle⟩ | ⟨hnone, -⟩
  · rw [h] at h₁
    cases h₁
    have hshift : alignUp (data + r.volume) (cc.alignOf a.type.type) =
        data + alignUp r.volume (cc.alignOf a.type.type) := alignUp_shift haligned r.volume
    rw [hr.data, halign, hshift, Nat.add_sub_cancel_left, hsize, hr.volume] at hvol
    have ho : o = alignUp (cc.getSize 0 (args.map Arg.type)) (cc.alignOf a.type.type) := by
      rw [hsize, hvol] at hend
      omega
    refine ⟨⟨hdata.trans hr.data, ?_, ?_, fun i b hb => ?_⟩, hcap, hle⟩
    · rw [hobj, List.length_append, List.length_append, hr.count]
      rfl
    · rw [hvol, List.map_append, Compiler.getSize_append]
      rfl
    · unfold Rtt.offset Compiler.offsetOf
      rw [hobj, List.map_append]
      by_cases hi : i < args.length
      · have hi' : i ≤ (args.map Arg.type).length := by
          rw [List.length_map]
          omega
        rw [List.getElem?_append_left (by rw [hr.count]; exact hi), List.take_append_of_le_length hi']
        rw [List.getElem?_append_left hi] at hb
        exact hr.offset i b hb
      · have hlen : i = args.length := by
          have hlt := (List.getElem?_eq_some_iff.mp hb).1
          rw [List.length_append] at hlt
          have hone : [a].length = 1 := rfl
          omega
        subst hlen
        rw [List.getElem?_append_right (Nat.le_refl _), Nat.sub_self] at hb
        cases hb
        have htake : (args.map Arg.type ++ [a].map Arg.type).take args.length =
            args.map Arg.type := by
          rw [← List.length_map (f:=Arg.type), List.take_left]
        rw [htake, ← ho, ← hr.count, List.getElem?_append_right (Nat.le_refl _), Nat.sub_self]
        rfl
  · rw [h] at hnone
    cases hnone

/-- the run -/
theorem foldlM_laid {data : Nat} {args : List (Arg τ V)}
    (hplain : ∀ a ∈ args, ∀ e n, a.type.type ≠ .array e n)
    (haligned : ∀ a ∈ args, cc.alignOf a.type.type ∣ data) :
    ∀ {r r' : Rtt τ V} {held : List (Arg τ V)}, Laid cc data r held → r.volume ≤ r.capacity →
      args.foldlM (Rtt.pushBack cc) r = some r' →
      Laid cc data r' (held ++ args) ∧ r'.capacity = r.capacity := by
  induction args with
  | nil =>
    intro r r' held hr _ h
    cases h
    rw [List.append_nil]
    exact ⟨hr, rfl⟩
  | cons a args ih =>
    intro r r' held hr hroom h
    rw [List.foldlM_cons] at h
    obtain ⟨r₁, h₁, h⟩ := Option.bind_eq_some_iff.mp h
    obtain ⟨hr₁, hcap, hroom₁⟩ := hr.pushBack hroom (hplain a List.mem_cons_self)
      (haligned a List.mem_cons_self) h₁
    obtain ⟨hlaid, hcap'⟩ := ih (fun b hb => hplain b (List.mem_cons_of_mem _ hb))
      (fun b hb => haligned b (List.mem_cons_of_mem _ hb)) hr₁ hroom₁ h
    rw [List.append_assoc] at hlaid
    exact ⟨hlaid, hcap'.trans hcap⟩

/-- the layout of a body: `offset` tells where an argument is -/
structure Layout [DecidableEq τ] (cc : Compiler τ) (data : Nat) (args : List (Arg τ V)) (r : Rtt τ V) : Prop where
  count : r.objects.length = args.length
  capacity : r.capacity = cc.getSize 0 (args.map Arg.type)
  full : r.volume = r.capacity
  /-- an object is in the block, at its alignment, and is the argument -/
  object : ∀ (i : Nat) (a : Arg τ V), args[i]? = some a → ∃ o, r.offset i = some o ∧
    cc.alignOf a.type.decay ∣ data + o ∧ o + cc.sizeOf a.type.decay ≤ r.capacity ∧
    r.get i a.type.decay = some a.value
  /-- an object ends before the next one starts -/
  disjoint : ∀ (i j : Nat) (a b : Arg τ V) (o p : Nat), i < j → args[i]? = some a →
    args[j]? = some b → r.offset i = some o → r.offset j = some p →
    o + cc.sizeOf a.type.decay ≤ p
  /-- the table is aligned, behind the objects and inside the block -/
  table : objectsAlign ∣ data + cc.alignedCapacity (args.map Arg.type) ∧
    r.capacity ≤ cc.alignedCapacity (args.map Arg.type) ∧
    cc.alignedCapacity (args.map Arg.type) + r.objects.length * objectsSize =
      cc.totalSize (args.map Arg.type)

/-- **The layout of a body.**  No argument is an array, and the block is aligned for any type: the
constructor never runs out of room, `getSize` has counted every byte that `std::align` hands out,
and the table fits behind. -/
theorem rtt_layout [DecidableEq τ] (cc : Compiler τ) (data : Nat) (args : List (Arg τ V))
    (hplain : ∀ a ∈ args, ∀ e n, a.type.type ≠ .array e n)
    (halign : ∀ a ∈ args, cc.alignOf a.type.type ≤ maxAlign) (hdata : maxAlign ∣ data) :
    ∃ r, ofArgs cc data args = some r ∧ Layout cc data args r := by
  have haligned : ∀ a ∈ args, cc.alignOf a.type.type ∣ data := fun a ha =>
    cc.alignOf_dvd (halign a ha) hdata
  obtain ⟨r, hr⟩ := Option.isSome_iff_exists.mp (ofArgs_plain hplain haligned)
  have hholds := ofArgs_holds hr
  have hnone : Laid cc data (allocated cc data (args.map Arg.type) : Rtt τ V) [] :=
    ⟨rfl, rfl, rfl, fun i a ha => by cases ha⟩
  obtain ⟨hlaid, hcap⟩ := foldlM_laid hplain haligned hnone (Nat.zero_le _) hr
  have hlaid : Laid cc data r args := hlaid
  have hcap : r.capacity = cc.getSize 0 (args.map Arg.type) := hcap
  have htype : ∀ (i : Nat) (a : Arg τ V), args[i]? = some a →
      (args.map Arg.type)[i]? = some a.type := by
    intro i a ha
    rw [List.getElem?_map, ha]
    rfl
  have hsize : ∀ (i : Nat) (a : Arg τ V), args[i]? = some a →
      cc.sizeOf a.type.decay = cc.sizeOf a.type.type ∧
        cc.alignOf a.type.decay = cc.alignOf a.type.type := fun i a ha =>
    cc.sizeOf_decay (hplain a (List.mem_of_getElem? ha))
  have hend : ∀ (i : Nat) (a : Arg τ V), args[i]? = some a →
      cc.offsetOf (args.map Arg.type) i a.type + cc.sizeOf a.type.decay =
        cc.getSize 0 ((args.map Arg.type).take (i + 1)) := by
    intro i a ha
    rw [(hsize i a ha).1]
    exact cc.offsetOf_end (htype i a ha)
  refine ⟨r, hr, hlaid.count, hcap, hlaid.volume.trans hcap.symm, fun i a ha => ?_, ?_, ?_⟩
  · refine ⟨_, hlaid.offset i a ha, ?_, ?_, hholds.get ha⟩
    · rw [(hsize i a ha).2]
      exact Nat.dvd_add (haligned a (List.mem_of_getElem? ha)) (dvd_alignUp _ _)
    · rw [hend i a ha, hcap]
      obtain ⟨hi, -⟩ := List.getElem?_eq_some_iff.mp (htype i a ha)
      have hle : cc.getSize 0 ((args.map Arg.type).take (i + 1)) ≤
          cc.getSize 0 ((args.map Arg.type).take (args.map Arg.type).length) :=
        cc.getSize_take_le hi
      rw [List.take_length] at hle
      exact hle
  · intro i j a b o p hij ha hb ho hp
    rw [hlaid.offset i a ha] at ho
    rw [hlaid.offset j b hb] at hp
    rw [← Option.some.inj ho, ← Option.some.inj hp, hend i a ha]
    exact Nat.le_trans (cc.getSize_take_le (show i + 1 ≤ j from hij)) (le_alignUp _ _)
  · refine ⟨?_, ?_, ?_⟩
    · exact Nat.dvd_add (Nat.dvd_trans (by decide) hdata) (dvd_alignUp _ 3)
    · rw [hcap]
      exact le_alignUp _ 3
    · rw [hlaid.count]
      unfold Compiler.totalSize
      rw [List.length_map]

/-- a `char`, a `long` and a `char` again: padding before the second -/
theorem rtt_layout_padded : ∃ r : Rtt Arithmetic Int,
    ofArgs lp64 4096 [⟨⟨.none, .obj .char false⟩, 97⟩, ⟨⟨.none, .obj .long false⟩, 3⟩,
      ⟨⟨.lvalue, .obj .char true⟩, 122⟩] = some r ∧ r.capacity = 17 ∧
    Layout lp64 4096 [⟨⟨.none, .obj .char false⟩, 97⟩, ⟨⟨.none, .obj .long false⟩, 3⟩,
      ⟨⟨.lvalue, .obj .char true⟩, 122⟩] r := by
  obtain ⟨r, hr, hlayout⟩ := rtt_layout lp64 4096 [⟨⟨.none, .obj .char false⟩, (97 : Int)⟩,
    ⟨⟨.none, .obj .long false⟩, 3⟩, ⟨⟨.lvalue, .obj .char true⟩, 122⟩] (by simp) (by decide)
    (by decide)
  refine ⟨r, hr, ?_, hlayout⟩
  rw [hlayout.capacity]
  decide

end Rtt
end ActorZeta
