import ActorZeta.Lib.Heap
import ActorZeta.Lib.Trans
import ActorZeta.Arguments.Layout

/-!
# rtt objects and the blocks of their resource

Any number of `rtt` objects of one memory resource, which are made, moved, assigned and destroyed.
The objects are in a block, and the seven fields of an `rtt` say which block, and where in it.

* `Block`, `RttFields`   a block of the resource, and an `rtt`;
* `Arena`                the resource with its blocks, the objects, and a log of what was destroyed
                         and returned;
* `Arena.clear`          `rtt::clear()`, which computes the size that it returns;
* `Arena.step`           constructors, moves, `operator=`, the destructor;
* `Arena.Inv`            a block has one owner, whose fields are those of the block;
* `rtt_lifetime`         every run.
-/

namespace ActorZeta
variable {τ V : Type}

/-- a block: its size, the table of the objects with its place, and the objects by their place -/
structure Block (τ V : Type) where
  size : Nat
  tableAt : Nat
  table : List (RttObject τ)
  memory : Nat → Option (CppType τ × V)

/-- the fields of an `rtt`; `objects_` points to a place in a block, the other two to its start -/
structure RttFields where
  memoryResource : Option Nat
  capacity : Nat
  volume : Nat
  allocation : Option Nat
  data : Option Nat
  objects : Option (Nat × Nat)
  objectsIdx : Nat

namespace RttFields

/-- after `clear()` -/
def cleared (h : RttFields) : RttFields := ⟨h.memoryResource, 0, 0, none, none, none, 0⟩

/-- moved from -/
def null : RttFields := ⟨none, 0, 0, none, none, none, 0⟩

end RttFields

/-- the resource and its `rtt` objects; `made` has the arguments that each block was made for -/
structure Arena (τ V : Type) where
  blocks : Heap (Block τ V)
  bodies : Heap RttFields
  destroyed : List (Nat × CppType τ × V)
  freed : List (Nat × Nat)
  made : List (List (Arg τ V))
  undefined : Bool

inductive RttOp (τ V : Type) where
  /-- `rtt(resource, args...)`, with a block at `data` -/
  | make (data : Nat) (args : List (Arg τ V))
  | move (src : Nat)
  /-- `rtt(allocator_arg, resource, other)` -/
  | moveExtended (src : Nat)
  | assign (dst src : Nat)
  | destroy (i : Nat)

namespace Arena

def init : Arena τ V := ⟨.empty, .empty, [], [], [], false⟩

/-- a null or dangling pointer, or an object that is not there -/
def undef (w : Arena τ V) : Arena τ V := { w with undefined := true }

section
variable [DecidableEq τ]

/-- `objects_[i].destroyer(data_ + objects_[i].offset)` -/
def destroyObject (w : Arena τ V) (h : RttFields) (i : Nat) : Arena τ V :=
  match h.objects, h.data with
  | some (b, place), some d => match (w.blocks.get b).filter fun blk => blk.tableAt == place with
    | none => w.undef
    | some blk => match blk.table[i]? with
      | none => w.undef
      | some e => match (w.blocks.get d).bind fun blk => blk.memory e.offset with
        | none => w.undef
        | some (t, v) =>
          if t = e.destroyer then { w with
            blocks := w.blocks.modify d fun blk =>
              { blk with memory := fun o => if o = e.offset then none else blk.memory o }
            destroyed := w.destroyed ++ [(d, t, v)] }
          else w.undef
  | _, _ => w.undef

/-- the loop of `clear()`, from the last object to the first -/
def destroyObjects (h : RttFields) : Nat → Arena τ V → Arena τ V
  | 0, w => w
  | i + 1, w => destroyObjects h i (w.destroyObject h i)

/-- `memory_resource_->deallocate(allocation_, size)` -/
def deallocate (w : Arena τ V) (resource : Option Nat) (b size : Nat) : Arena τ V :=
  match resource, w.blocks.get b with
  | some _, some _ => { w with blocks := w.blocks.free b, freed := w.freed ++ [(b, size)] }
  | _, _ => w.undef

/-- `clear()`, but for the fields -/
def clear (w : Arena τ V) (h : RttFields) : Arena τ V :=
  let w := destroyObjects h h.objectsIdx w
  match h.allocation with
  | some b => w.deallocate h.memoryResource b
      (alignUp h.capacity objectsAlign + h.objectsIdx * objectsSize)
  | none => w

/-- the constructor; no block without arguments -/
def make (cc : Compiler τ) (res data : Nat) (args : List (Arg τ V)) (w : Arena τ V) :
    Option (Arena τ V) :=
  if args.length = 0 then
    some { w with bodies := w.bodies.alloc ⟨some res, 0, 0, none, none, none, 0⟩ }
  else (Rtt.ofArgs cc data args).map fun r =>
    let tableAt := cc.alignedCapacity (args.map Arg.type)
    { w with
      blocks := w.blocks.alloc ⟨cc.totalSize (args.map Arg.type), tableAt, r.objects, r.memory⟩
      bodies := w.bodies.alloc ⟨some res, r.capacity, r.volume, some w.blocks.next,
        some w.blocks.next, some (w.blocks.next, tableAt), r.objects.length⟩
      made := w.made ++ [args] }

/-- one operation; `none` where an assertion fails -/
def step (cc : Compiler τ) (res : Nat) (w : Arena τ V) : RttOp τ V → Option (Arena τ V)
  | .make data args => w.make cc res data args
  | .move src => (w.bodies.get src).map fun h =>
      { w with bodies := (w.bodies.modify src fun _ => .null).alloc h }
  | .moveExtended src => (w.bodies.get src).bind fun h =>
      if h.memoryResource = some res then
        some { w with bodies :=
          (w.bodies.modify src fun _ => .null).alloc { h with memoryResource := some res } }
      else none
  | .assign dst src => (w.bodies.get dst).bind fun hd => (w.bodies.get src).bind fun hs =>
      if dst = src then some w
      else if hd.memoryResource = hs.memoryResource ∨ hd.memoryResource = none then
        let w := w.clear hd
        some { w with bodies := (w.bodies.modify dst fun _ => hs).modify src fun _ => .null }
      else none
  | .destroy i => (w.bodies.get i).map fun h =>
      { w.clear h with bodies := (w.clear h).bodies.free i }

/-- `get<T>(i)` -/
def get (w : Arena τ V) (h : RttFields) (i : Nat) (t : CppType τ) : Option V :=
  match h.objects, h.data with
  | some (b, place), some d =>
    if i < h.objectsIdx then
      match (w.blocks.get b).filter fun blk => blk.tableAt == place with
      | none => none
      | some blk => match blk.table[i]? with
        | none => none
        | some e => match (w.blocks.get d).bind fun blk => blk.memory e.offset with
          | none => none
          | some (t', v) => if t' = t then some v else none
    else none
  | _, _ => none

end

/-! ## a block and its owner -/

/-- the first `n` objects that a block was made for are in it -/
structure Stored (blk : Block τ V) (args : List (Arg τ V)) (n : Nat) : Prop where
  sorted : blk.table.Pairwise fun e f => e.offset < f.offset
  stored : ∀ (i : Nat) (a : Arg τ V), i < n → args[i]? = some a → ∃ o : Nat,
    blk.table[i]? = some ⟨o, a.type.decay⟩ ∧ blk.memory o = some (a.type.decay, a.value)

/-- an `rtt` that owns nothing -/
structure Empty (h : RttFields) : Prop where
  allocation : h.allocation = none
  data : h.data = none
  objects : h.objects = none
  objectsIdx : h.objectsIdx = 0

/-- an `rtt` that owns block `b` -/
structure Full (cc : Compiler τ) (w : Arena τ V) (h : RttFields) (b : Nat)
    (args : List (Arg τ V)) : Prop where
  made : w.made[b]? = some args
  resource : ∃ r, h.memoryResource = some r
  capacity : h.capacity = cc.getSize 0 (args.map Arg.type)
  allocation : h.allocation = some b
  data : h.data = some b
  objects : h.objects = some (b, cc.alignedCapacity (args.map Arg.type))
  objectsIdx : h.objectsIdx = args.length
  block : ∃ blk, w.blocks.get b = some blk ∧ blk.size = cc.totalSize (args.map Arg.type) ∧
    blk.tableAt = cc.alignedCapacity (args.map Arg.type) ∧ Stored blk args args.length

/-- the log of a block: its objects, the last first, and its size -/
def tagged (b : Nat) (args : List (Arg τ V)) : List (Nat × CppType τ × V) :=
  args.map fun a => (b, a.type.decay, a.value)

structure Inv (cc : Compiler τ) (w : Arena τ V) : Prop where
  defined : w.undefined = false
  count : w.made.length = w.blocks.next
  each : ∀ i h, w.bodies.get i = some h → Empty h ∨ ∃ b args, Full cc w h b args
  apart : ∀ i j h k b, w.bodies.get i = some h → w.bodies.get j = some k →
    h.allocation = some b → k.allocation = some b → i = j
  owned : ∀ b blk, w.blocks.get b = some blk → ∃ i h, w.bodies.get i = some h ∧
    h.allocation = some b
  quiet : ∀ b, w.blocks.get b ≠ none ∨ w.blocks.next ≤ b →
    w.destroyed.filter (fun e => e.1 == b) = [] ∧ w.freed.filter (fun e => e.1 == b) = []
  gone : ∀ b args, w.made[b]? = some args → w.blocks.get b = none →
    w.destroyed.filter (fun e => e.1 == b) = (tagged b args).reverse ∧
    w.freed.filter (fun e => e.1 == b) = [(b, cc.totalSize (args.map Arg.type))]

theorem tagged_take {b n : Nat} {args : List (Arg τ V)} {a : Arg τ V} (ha : args[n]? = some a) :
    (tagged b (args.take (n + 1))).reverse =
      (b, a.type.decay, a.value) :: (tagged b (args.take n)).reverse := by
  unfold tagged
  rw [List.take_add_one, ha, Option.toList_some, List.map_append, List.reverse_append]
  rfl

/-- an object of the block, found through the fields -/
theorem Stored.find {blk : Block τ V} {args : List (Arg τ V)} {n i : Nat} {a : Arg τ V}
    (hs : Stored blk args n) (hi : i < n) (ha : args[i]? = some a) : ∃ e, blk.table[i]? = some e ∧
      e.destroyer = a.type.decay ∧ blk.memory e.offset = some (e.destroyer, a.value) := by
  obtain ⟨o, ho, hm⟩ := hs.stored i a hi ha
  exact ⟨⟨o, a.type.decay⟩, ho, rfl, hm⟩

variable {cc : Compiler τ} {w : Arena τ V}

/-- what an owner knows does not depend on the other objects -/
theorem Full.of_get {w' : Arena τ V} {h : RttFields} {b : Nat} {args : List (Arg τ V)}
    (hf : Full cc w h b args) (hmade : w'.made[b]? = w.made[b]?)
    (hget : w'.blocks.get b = w.blocks.get b) : Full cc w' h b args := by
  refine ⟨hmade.trans hf.made, hf.resource, hf.capacity, hf.allocation, hf.data, hf.objects,
    hf.objectsIdx, ?_⟩
  obtain ⟨blk, hblk, hrest⟩ := hf.block
  exact ⟨blk, hget.trans hblk, hrest⟩

theorem Inv.init : Inv cc (Arena.init : Arena τ V) := by
  refine ⟨rfl, rfl, fun i h hg => ?_, fun i j h k b hg => ?_, fun b blk hg => ?_,
    fun b _ => ⟨rfl, rfl⟩, fun b args hm => ?_⟩
  · cases hg
  · cases hg
  · cases hg
  · cases hm

/-- the owners change hands: `from_` tells who an owner was before -/
theorem Inv.rename (hI : Inv cc w) {bodies : Heap RttFields} (was : Nat → Nat)
    (hwas : ∀ i h, bodies.get i = some h → Empty h ∨ w.bodies.get (was i) = some h)
    (hone : ∀ i j h k, bodies.get i = some h → bodies.get j = some k → h.allocation ≠ none →
      k.allocation ≠ none → was i = was j → i = j)
    (hall : ∀ i h, w.bodies.get i = some h → h.allocation ≠ none → ∃ j, bodies.get j = some h) :
    Inv cc { w with bodies := bodies } := by
  refine ⟨hI.defined, hI.count, fun i h hg => ?_, fun i j h k b hi hj hh hk => ?_,
    fun b blk hb => ?_, hI.quiet, hI.gone⟩
  · rcases hwas i h hg with he | hold
    · exact Or.inl he
    · rcases hI.each _ h hold with he | ⟨b, args, hf⟩
      · exact Or.inl he
      · exact Or.inr ⟨b, args, hf.of_get rfl rfl⟩
  · have hne : ∀ {x : RttFields}, x.allocation = some b → x.allocation ≠ none ∧ ¬ Empty x := by
      intro x hx
      refine ⟨by rw [hx]; exact Option.some_ne_none b, fun he => ?_⟩
      rw [he.allocation] at hx
      cases hx
    rcases hwas i h hi with he | hi'
    · exact absurd he (hne hh).2
    rcases hwas j k hj with he | hj'
    · exact absurd he (hne hk).2
    exact hone i j h k hi hj (hne hh).1 (hne hk).1 (hI.apart _ _ h k b hi' hj' hh hk)
  · obtain ⟨i, h, hi, ha⟩ := hI.owned b blk hb
    obtain ⟨j, hj⟩ := hall i h hi (by rw [ha]; exact Option.some_ne_none b)
    exact ⟨j, h, hj, ha⟩

/-- an owner and one that is moved from -/
theorem Inv.move (hI : Inv cc w) {src : Nat} {h : RttFields} (hg : w.bodies.get src = some h) :
    Inv cc { w with bodies := (w.bodies.modify src fun _ => .null).alloc h } := by
  have hnull : Empty RttFields.null := ⟨rfl, rfl, rfl, rfl⟩
  have hnew : ∀ {j k}, ((w.bodies.modify src fun _ => RttFields.null).alloc h).get j = some k →
      (j = w.bodies.next ∧ k = h) ∨ (j = src ∧ k = .null) ∨
        (j ≠ w.bodies.next ∧ j ≠ src ∧ w.bodies.get j = some k) := by
    intro j k hj
    rcases Heap.get_alloc_some hj with ⟨hn, hk⟩ | hj
    · exact Or.inl ⟨hn, hk⟩
    · obtain ⟨x, hx, hk⟩ := Heap.get_modify_some hj
      by_cases hjs : j = src
      · exact Or.inr (Or.inl ⟨hjs, by rw [hk, if_pos hjs]⟩)
      · rw [if_neg hjs] at hk
        exact Or.inr (Or.inr ⟨Heap.ne_next hx, hjs, by rw [hk]; exact hx⟩)
  refine hI.rename (fun j => if j = w.bodies.next then src else j) (fun j k hj => ?_)
    (fun i j x y hi hj hx hy hsame => ?_) fun j k hj ha => ?_
  · rcases hnew hj with ⟨rfl, rfl⟩ | ⟨-, rfl⟩ | ⟨hn, -, hj⟩
    · exact Or.inr (by rw [if_pos rfl]; exact hg)
    · exact Or.inl hnull
    · exact Or.inr (by rw [if_neg hn]; exact hj)
  · rcases hnew hi with ⟨rfl, -⟩ | ⟨-, rfl⟩ | ⟨hin, his, -⟩
    · rcases hnew hj with ⟨rfl, -⟩ | ⟨-, rfl⟩ | ⟨hjn, hjs, -⟩
      · rfl
      · exact absurd rfl hy
      · rw [if_pos rfl, if_neg hjn] at hsame
        exact absurd hsame.symm hjs
    · exact absurd rfl hx
    · rcases hnew hj with ⟨rfl, -⟩ | ⟨-, rfl⟩ | ⟨hjn, -, -⟩
      · rw [if_neg hin, if_pos rfl] at hsame
        exact absurd hsame his
      · exact absurd rfl hy
      · rw [if_neg hin, if_neg hjn] at hsame
        exact hsame
  · by_cases hjs : j = src
    · subst hjs
      rw [hg] at hj
      cases hj
      exact ⟨w.bodies.next, Heap.get_alloc_self⟩
    · refine ⟨j, Heap.get_alloc_of ?_⟩
      rw [Heap.get_modify_ne hjs]
      exact hj

/-- the objects of a body are at growing offsets -/
theorem foldlM_sorted {args : List (Arg τ V)} : ∀ {r r' : Rtt τ V},
    (r.objects.Pairwise fun e f => e.offset < f.offset) → (∀ e ∈ r.objects, e.offset < r.volume) →
    args.foldlM (Rtt.pushBack cc) r = some r' →
    (r'.objects.Pairwise fun e f => e.offset < f.offset) ∧ r'.capacity = r.capacity := by
  induction args with
  | nil =>
    intro r r' hs _ h
    cases h
    exact ⟨hs, rfl⟩
  | cons a args ih =>
    intro r r' hs hlt h
    rw [List.foldlM_cons] at h
    obtain ⟨r₁, h₁, h⟩ := Option.bind_eq_some_iff.mp h
    obtain ⟨o, hle, hvol, hobj, -⟩ := Rtt.pushBack_some h₁
    have hpos : 0 < cc.sizeOf a.type.decay := cc.sizeOf_decay_pos a.type.type
    have hcap : r₁.capacity = r.capacity := by
      obtain ⟨place, -, rfl⟩ := Option.map_eq_some_iff.mp h₁
      rfl
    have hs₁ : r₁.objects.Pairwise fun e f => e.offset < f.offset := by
      rw [hobj]
      refine List.pairwise_append.mpr ⟨hs, List.pairwise_singleton _ _, fun e he f hf => ?_⟩
      rw [List.mem_singleton.mp hf]
      exact Nat.lt_of_lt_of_le (hlt e he) hle
    have hlt₁ : ∀ e ∈ r₁.objects, e.offset < r₁.volume := by
      intro e he
      rw [hobj] at he
      rcases List.mem_append.mp he with he | he
      · have := hlt e he
        omega
      · rw [List.mem_singleton.mp he]
        show o < r₁.volume
        omega
    obtain ⟨hs', hcap'⟩ := ih hs₁ hlt₁ h
    exact ⟨hs', hcap'.trans hcap⟩

/-- a new block, and its owner -/
theorem Inv.make (hI : Inv cc w) {res data : Nat} {args : List (Arg τ V)} {w' : Arena τ V}
    (h : w.make cc res data args = some w') : Inv cc w' := by
  unfold Arena.make at h
  have hnone : w.bodies.get w.bodies.next = none := Heap.get_next
  by_cases hlen : args.length = 0
  · rw [if_pos hlen] at h
    cases h
    refine hI.rename id (fun j k hj => ?_) (fun j k _ _ _ _ _ _ h => h) fun j k hj _ => ?_
    · rcases Heap.get_alloc_some hj with ⟨-, rfl⟩ | hj
      · exact Or.inl ⟨rfl, rfl, rfl, rfl⟩
      · exact Or.inr hj
    · exact ⟨j, Heap.get_alloc_of hj⟩
  · rw [if_neg hlen] at h
    obtain ⟨r, hr, rfl⟩ := Option.map_eq_some_iff.mp h
    have hholds := Rtt.ofArgs_holds hr
    obtain ⟨hsorted, hcap⟩ := foldlM_sorted List.Pairwise.nil (fun e he => by cases he) hr
    have hquiet := hI.quiet w.blocks.next (Or.inr (Nat.le_refl _))
    have hmade : ∀ {c}, c < w.blocks.next → (w.made ++ [args])[c]? = w.made[c]? := by
      intro c hc
      rw [← hI.count] at hc
      exact List.getElem?_append_left hc
    have hlast : (w.made ++ [args])[w.blocks.next]? = some args := by
      rw [← hI.count, List.getElem?_append_right (Nat.le_refl _), Nat.sub_self]
      rfl
    refine ⟨hI.defined, ?_, fun j k hj => ?_, fun j l x y c hj hl hx hy => ?_, fun c x hc => ?_,
      fun c hc => ?_, fun c args' hm hc => ?_⟩
    · show (w.made ++ [args]).length = w.blocks.next + 1
      rw [List.length_append, hI.count]
      rfl
    · rcases Heap.get_alloc_some hj with ⟨-, rfl⟩ | hj
      · refine Or.inr ⟨w.blocks.next, args, hlast, ⟨res, rfl⟩, hcap, rfl, rfl, rfl, hholds.length,
          ⟨_, Heap.get_alloc_self, rfl, rfl, hsorted, fun i a _ ha => ?_⟩⟩
        obtain ⟨o, ho, -, hm⟩ := hholds.stored i a ha
        exact ⟨o, ho, hm⟩
      · rcases hI.each j k hj with he | ⟨c, args', hf⟩
        · exact Or.inl he
        · obtain ⟨blk, hblk, -⟩ := hf.block
          exact Or.inr ⟨c, args', hf.of_get (hmade (Heap.lt_next hblk))
            (Heap.get_alloc_ne (Heap.ne_next hblk))⟩
    · have hfresh : ∀ {j k}, w.bodies.get j = some k → k.allocation ≠ some w.blocks.next := by
        intro j k hj ha
        rcases hI.each j k hj with he | ⟨c, args', hf⟩
        · rw [he.allocation] at ha
          cases ha
        · obtain ⟨blk, hblk, -⟩ := hf.block
          rw [hf.allocation] at ha
          exact Heap.ne_next hblk (Option.some.inj ha)
      rcases Heap.get_alloc_some hj with ⟨rfl, rfl⟩ | hj
      · rcases Heap.get_alloc_some hl with ⟨rfl, rfl⟩ | hl
        · rfl
        · cases hx
          exact absurd hy (hfresh hl)
      · rcases Heap.get_alloc_some hl with ⟨rfl, rfl⟩ | hl
        · cases hy
          exact absurd hx (hfresh hj)
        · exact hI.apart j l x y c hj hl hx hy
    · rcases Heap.get_alloc_some hc with ⟨rfl, -⟩ | hc
      · exact ⟨w.bodies.next, _, Heap.get_alloc_self, rfl⟩
      · obtain ⟨j, k, hj, ha⟩ := hI.owned c x hc
        exact ⟨j, k, Heap.get_alloc_of hj, ha⟩
    · by_cases hcn : c = w.blocks.next
      · rw [hcn]
        exact hquiet
      · refine hI.quiet c ?_
        rcases hc with hc | hc
        · exact Or.inl (by rwa [Heap.get_alloc_ne hcn] at hc)
        · exact Or.inr (Nat.le_of_succ_le hc)
    · have hcn : c ≠ w.blocks.next := by
        rintro rfl
        rw [Heap.get_alloc_self] at hc
        cases hc
      have hlt : c < w.blocks.next := by
        have hc' := (List.getElem?_eq_some_iff.mp hm).1
        rw [List.length_append, hI.count] at hc'
        have hone : [args].length = 1 := rfl
        omega
      rw [hmade hlt] at hm
      rw [Heap.get_alloc_ne hcn] at hc
      exact hI.gone c args' hm hc

theorem tagged_filter (b : Nat) (args : List (Arg τ V)) :
    (tagged b args).reverse.filter (fun e => e.1 == b) = (tagged b args).reverse := by
  refine List.filter_eq_self.mpr fun e he => ?_
  obtain ⟨a, -, rfl⟩ := List.mem_map.mp (List.mem_reverse.mp he)
  exact beq_self_eq_true b

theorem tagged_filter_ne {b c : Nat} (hne : b ≠ c) (args : List (Arg τ V)) :
    (tagged b args).reverse.filter (fun e => e.1 == c) = [] := by
  refine List.filter_eq_nil_iff.mpr fun e he => ?_
  obtain ⟨a, -, rfl⟩ := List.mem_map.mp (List.mem_reverse.mp he)
  exact fun hbc => hne (beq_iff_eq.mp hbc)

/-! ## clear() -/

variable [DecidableEq τ]

/-- the step of the loop: the last object that is still there goes -/
theorem destroyObject_stored {h : RttFields} {b : Nat} {blk : Block τ V} {args : List (Arg τ V)}
    {n : Nat} {a : Arg τ V} (hget : w.blocks.get b = some blk) (hdata : h.data = some b)
    (hobj : h.objects = some (b, blk.tableAt)) (hs : Stored blk args (n + 1))
    (ha : args[n]? = some a) : ∃ B blk', w.destroyObject h n = { w with
        blocks := B, destroyed := w.destroyed ++ [(b, a.type.decay, a.value)] } ∧
      B.get b = some blk' ∧ blk'.tableAt = blk.tableAt ∧ Stored blk' args n ∧
      B.next = w.blocks.next ∧ ∀ c, c ≠ b → B.get c = w.blocks.get c := by
  obtain ⟨e, he, hdest, hmem⟩ := hs.find (Nat.lt_succ_self n) ha
  have hfilter : ((some blk).filter fun x : Block τ V => x.tableAt == blk.tableAt) = some blk := by
    simp
  have hbind : ((some blk).bind fun x : Block τ V => x.memory e.offset) =
      some (e.destroyer, a.value) := hmem
  let erase := fun x : Block τ V =>
    { x with memory := fun o => if o = e.offset then none else x.memory o }
  refine ⟨w.blocks.modify b erase, erase blk, ?_, Heap.get_modify_self hget, rfl, ⟨hs.sorted, ?_⟩,
    rfl, fun c hc => Heap.get_modify_ne hc⟩
  · unfold destroyObject
    rw [hobj, hdata]
    dsimp only
    rw [hget, hfilter]
    dsimp only
    rw [he]
    dsimp only
    rw [hbind]
    dsimp only
    rw [if_pos rfl, hdest]
  · intro i c hi hc
    obtain ⟨o, ho, hm⟩ := hs.stored i c (Nat.lt_succ_of_lt hi) hc
    refine ⟨o, ho, ?_⟩
    show (if o = e.offset then none else blk.memory o) = _
    rw [if_neg, hm]
    -- the objects before it are at smaller offsets
    obtain ⟨hin, hei⟩ := List.getElem?_eq_some_iff.mp ho
    obtain ⟨hen, hee⟩ := List.getElem?_eq_some_iff.mp he
    have hlt := List.pairwise_iff_getElem.mp hs.sorted i n hin hen hi
    rw [hei, hee] at hlt
    exact Nat.ne_of_lt hlt

/-- the run of the loop -/
theorem destroyObjects_stored {h : RttFields} {b : Nat} {args : List (Arg τ V)}
    (hdata : h.data = some b) (n : Nat) : ∀ {w : Arena τ V} {blk : Block τ V}, n ≤ args.length →
      w.blocks.get b = some blk → h.objects = some (b, blk.tableAt) → Stored blk args n →
      ∃ B, destroyObjects h n w = { w with
          blocks := B, destroyed := w.destroyed ++ (tagged b (args.take n)).reverse } ∧
        B.get b ≠ none ∧ B.next = w.blocks.next ∧ ∀ c, c ≠ b → B.get c = w.blocks.get c := by
  induction n with
  | zero =>
    intro w blk _ hget _ _
    refine ⟨w.blocks, ?_, ?_, rfl, fun _ _ => rfl⟩
    · show w = { w with destroyed := w.destroyed ++ [] }
      rw [List.append_nil]
    · rw [hget]
      exact Option.some_ne_none blk
  | succ n ih =>
    intro w blk hn hget hobj hs
    have ha : args[n]? = some args[n] := List.getElem?_eq_getElem hn
    obtain ⟨B, blk', hstep, hB, htable, hs', hnext, hother⟩ :=
      destroyObject_stored hget hdata hobj hs ha
    rw [← htable] at hobj
    obtain ⟨B', hrun, hB', hnext', hother'⟩ := ih (w:={ w with
      blocks := B, destroyed := w.destroyed ++ [(b, args[n].type.decay, args[n].value)] })
      (Nat.le_of_succ_le hn) hB hobj hs'
    refine ⟨B', ?_, hB', hnext'.trans hnext, fun c hc => (hother' c hc).trans (hother c hc)⟩
    show destroyObjects h n (w.destroyObject h n) = _
    rw [hstep, hrun, tagged_take ha, List.append_assoc]
    rfl

/-- `clear()` of an owner: its objects are destroyed, the last first, and the block is returned with
the size it has -/
theorem clear_full {h : RttFields} {b : Nat} {args : List (Arg τ V)} (hf : Full cc w h b args) :
    ∃ B, w.clear h = { w with
        blocks := B
        destroyed := w.destroyed ++ (tagged b args).reverse
        freed := w.freed ++ [(b, cc.totalSize (args.map Arg.type))] } ∧
      B.get b = none ∧ B.next = w.blocks.next ∧ ∀ c, c ≠ b → B.get c = w.blocks.get c := by
  obtain ⟨blk, hget, -, htable, hs⟩ := hf.block
  obtain ⟨r, hr⟩ := hf.resource
  have hobj : h.objects = some (b, blk.tableAt) := by rw [htable]; exact hf.objects
  obtain ⟨B, hrun, hB, hnext, hother⟩ :=
    destroyObjects_stored hf.data args.length (Nat.le_refl _) hget hobj hs
  rw [List.take_length] at hrun
  obtain ⟨x, hx⟩ := Option.ne_none_iff_exists'.mp hB
  refine ⟨B.free b, ?_, if_pos rfl, hnext, fun c hc => (Heap.get_free_ne hc).trans (hother c hc)⟩
  have hsize : alignUp h.capacity objectsAlign + h.objectsIdx * objectsSize =
      cc.totalSize (args.map Arg.type) := by
    rw [hf.capacity, hf.objectsIdx]
    unfold Compiler.totalSize
    rw [List.length_map]
    rfl
  unfold clear
  rw [hsize, hf.allocation, hf.objectsIdx, hrun]
  dsimp only
  unfold deallocate
  rw [hr]
  dsimp only
  rw [hx]

theorem destroyObject_bodies (h : RttFields) (i : Nat) : (w.destroyObject h i).bodies = w.bodies := by
  unfold destroyObject
  split
  · split
    · rfl
    · split
      · rfl
      · split
        · rfl
        · split <;> rfl
  · rfl

/-- `clear()` touches no other `rtt` -/
theorem clear_bodies (h : RttFields) : (w.clear h).bodies = w.bodies := by
  have hloop : ∀ n (w : Arena τ V), (destroyObjects h n w).bodies = w.bodies := by
    intro n
    induction n with
    | zero => exact fun _ => rfl
    | succ n ih => exact fun w => (ih _).trans (destroyObject_bodies h n)
  have hreturn : ∀ (w : Arena τ V) b size, (w.deallocate h.memoryResource b size).bodies =
      w.bodies := by
    intro w b size
    unfold deallocate
    split <;> rfl
  unfold clear
  dsimp only
  split
  · exact (hreturn _ _ _).trans (hloop _ w)
  · exact hloop _ w

theorem clear_empty {h : RttFields} (he : Empty h) : w.clear h = w := by
  unfold clear
  rw [he.objectsIdx, he.allocation]
  rfl

/-- an `rtt` is cleared where it stands -/
theorem Inv.clear (hI : Inv cc w) {i : Nat} {h : RttFields} (hg : w.bodies.get i = some h) :
    Inv cc { w.clear h with bodies := w.bodies.modify i fun _ => h.cleared } := by
  have hself : (w.bodies.modify i fun _ => h.cleared).get i = some h.cleared :=
    Heap.get_modify_self hg
  have hother : ∀ {j k}, (w.bodies.modify i fun _ => h.cleared).get j = some k →
      (j = i ∧ k = h.cleared) ∨ (j ≠ i ∧ w.bodies.get j = some k) := by
    intro j k hj
    by_cases hji : j = i
    · rw [hji, hself] at hj
      exact Or.inl ⟨hji, (Option.some.inj hj).symm⟩
    · rw [Heap.get_modify_ne hji] at hj
      exact Or.inr ⟨hji, hj⟩
  have hempty : Empty h.cleared := ⟨rfl, rfl, rfl, rfl⟩
  rcases hI.each i h hg with he | ⟨b, args, hf⟩
  · rw [clear_empty he]
    refine hI.rename id (fun j k hj => ?_) (fun j k _ _ _ _ _ _ h => h) fun j k hj ha => ?_
    · rcases hother hj with ⟨-, rfl⟩ | ⟨-, hj⟩
      · exact Or.inl hempty
      · exact Or.inr hj
    · refine ⟨j, ?_⟩
      rw [Heap.get_modify_ne, hj]
      rintro rfl
      rw [hg] at hj
      cases hj
      exact ha he.allocation
  · obtain ⟨B, hclear, hB, hnext, hsame⟩ := clear_full hf
    obtain ⟨blk, hblk, -⟩ := hf.block
    have hb : b < w.blocks.next := Heap.lt_next hblk
    rw [hclear]
    refine ⟨hI.defined, ?_, fun j k hj => ?_, fun j l x y c hj hl hx hy => ?_, fun c x hc => ?_,
      fun c hc => ?_, fun c args' hm hc => ?_⟩
    · rw [hnext]
      exact hI.count
    · rcases hother hj with ⟨-, rfl⟩ | ⟨hji, hold⟩
      · exact Or.inl hempty
      · rcases hI.each j k hold with he | ⟨c, args', hf'⟩
        · exact Or.inl he
        · refine Or.inr ⟨c, args', hf'.of_get rfl (hsame c ?_)⟩
          rintro rfl
          exact hji (hI.apart j i k h c hold hg hf'.allocation hf.allocation)
    · rcases hother hj with ⟨-, rfl⟩ | ⟨-, hj⟩
      · cases hx
      · rcases hother hl with ⟨-, rfl⟩ | ⟨-, hl⟩
        · cases hy
        · exact hI.apart j l x y c hj hl hx hy
    · have hcb : c ≠ b := by
        rintro rfl
        rw [hB] at hc
        cases hc
      rw [hsame c hcb] at hc
      obtain ⟨j, k, hj, ha⟩ := hI.owned c x hc
      refine ⟨j, k, ?_, ha⟩
      rw [Heap.get_modify_ne, hj]
      rintro rfl
      rw [hg] at hj
      cases hj
      rw [hf.allocation] at ha
      exact hcb (Option.some.inj ha).symm
    · have hcb : b ≠ c := by
        rintro rfl
        rcases hc with hc | hc
        · exact hc hB
        · rw [hnext] at hc
          exact absurd hb (Nat.not_lt_of_le hc)
      have hold : w.blocks.get c ≠ none ∨ w.blocks.next ≤ c := by
        rw [← hsame c hcb.symm, ← hnext]
        exact hc
      obtain ⟨hd, hfr⟩ := hI.quiet c hold
      refine ⟨?_, ?_⟩
      · rw [List.filter_append, hd, tagged_filter_ne hcb]
        rfl
      · rw [List.filter_append, hfr, List.filter_cons_of_neg (by simpa using hcb)]
        rfl
    · by_cases hcb : b = c
      · subst hcb
        have hargs : args' = args := by
          have hm' := hf.made
          rw [hm] at hm'
          exact Option.some.inj hm'
        obtain ⟨hd, hfr⟩ := hI.quiet b (Or.inl (by rw [hblk]; exact Option.some_ne_none blk))
        rw [hargs]
        refine ⟨?_, ?_⟩
        · rw [List.filter_append, hd, tagged_filter]
          rfl
        · rw [List.filter_append, hfr, List.filter_cons_of_pos (by simp)]
          rfl
      · rw [hsame c (Ne.symm hcb)] at hc
        obtain ⟨hd, hfr⟩ := hI.gone c args' hm hc
        refine ⟨?_, ?_⟩
        · rw [List.filter_append, hd, tagged_filter_ne hcb, List.append_nil]
        · rw [List.filter_append, hfr, List.filter_cons_of_neg (by simpa using hcb)]
          rfl

/-! ## every operation -/

/-- `operator=`: the fields of `src` go into the cleared `dst` -/
theorem Inv.assign (hI : Inv cc w) {dst src : Nat} {hd hs : RttFields} (hne : dst ≠ src)
    (hgd : w.bodies.get dst = some hd) (hgs : w.bodies.get src = some hs) :
    Inv cc { w.clear hd with
      bodies := (w.bodies.modify dst fun _ => hs).modify src fun _ => .null } := by
  have hnull : Empty RttFields.null := ⟨rfl, rfl, rfl, rfl⟩
  have hsame : ∀ j, j ≠ dst → ((w.bodies.modify dst fun _ => hd.cleared).get j) =
      w.bodies.get j := fun j hj => Heap.get_modify_ne hj
  have hnew : ∀ {j k}, ((w.bodies.modify dst fun _ => hs).modify src fun _ => .null).get j = some k →
      (j = src ∧ k = .null) ∨ (j = dst ∧ k = hs) ∨
        (j ≠ src ∧ j ≠ dst ∧ w.bodies.get j = some k) := by
    intro j k hj
    by_cases hjs : j = src
    · obtain ⟨x, -, hk⟩ := Heap.get_modify_some hj
      exact Or.inl ⟨hjs, by rw [hk, if_pos hjs]⟩
    · rw [Heap.get_modify_ne hjs] at hj
      by_cases hjd : j = dst
      · obtain ⟨x, -, hk⟩ := Heap.get_modify_some hj
        exact Or.inr (Or.inl ⟨hjd, by rw [hk, if_pos hjd]⟩)
      · rw [Heap.get_modify_ne hjd] at hj
        exact Or.inr (Or.inr ⟨hjs, hjd, hj⟩)
  refine (hI.clear hgd).rename (fun j => if j = dst then src else j) (fun j k hj => ?_)
    (fun i j x y hi hj hx hy heq => ?_) fun j k hj ha => ?_
  · rcases hnew hj with ⟨-, rfl⟩ | ⟨rfl, rfl⟩ | ⟨-, hjd, hj⟩
    · exact Or.inl hnull
    · refine Or.inr ?_
      rw [if_pos rfl]
      exact (hsame src hne.symm).trans hgs
    · refine Or.inr ?_
      rw [if_neg hjd]
      exact (hsame j hjd).trans hj
  · rcases hnew hi with ⟨-, rfl⟩ | ⟨rfl, -⟩ | ⟨his, hid, -⟩
    · exact absurd rfl hx
    · rcases hnew hj with ⟨-, rfl⟩ | ⟨rfl, -⟩ | ⟨hjs, hjd, -⟩
      · exact absurd rfl hy
      · rfl
      · rw [if_pos rfl, if_neg hjd] at heq
        exact absurd heq.symm hjs
    · rcases hnew hj with ⟨-, rfl⟩ | ⟨rfl, -⟩ | ⟨-, hjd, -⟩
      · exact absurd rfl hy
      · rw [if_neg hid, if_pos rfl] at heq
        exact absurd heq his
      · rw [if_neg hid, if_neg hjd] at heq
        exact heq
  · have hjd : j ≠ dst := by
      rintro rfl
      have hcl := Heap.get_modify_self (f:=fun _ => hd.cleared) hgd
      rw [hj] at hcl
      rw [Option.some.inj hcl] at ha
      exact ha rfl
    rw [hsame j hjd] at hj
    by_cases hjs : j = src
    · subst hjs
      rw [hgs] at hj
      cases hj
      refine ⟨dst, ?_⟩
      rw [Heap.get_modify_ne hne]
      exact Heap.get_modify_self hgd
    · refine ⟨j, ?_⟩
      rw [Heap.get_modify_ne hjs, Heap.get_modify_ne hjd]
      exact hj

/-- the destructor -/
theorem Inv.destroy (hI : Inv cc w) {i : Nat} {h : RttFields} (hg : w.bodies.get i = some h) :
    Inv cc { w.clear h with bodies := w.bodies.free i } := by
  refine (hI.clear hg).rename id (fun j k hj => ?_) (fun _ _ _ _ _ _ _ _ h => h)
    fun j k hj ha => ?_
  · obtain ⟨hne, hj⟩ := Heap.get_free_some hj
    exact Or.inr ((Heap.get_modify_ne hne).trans hj)
  · have hne : j ≠ i := by
      rintro rfl
      have hcl := Heap.get_modify_self (f:=fun _ => h.cleared) hg
      rw [hj] at hcl
      rw [Option.some.inj hcl] at ha
      exact ha rfl
    exact ⟨j, (Heap.get_free_ne hne).trans ((Heap.get_modify_ne hne).symm.trans hj)⟩

theorem Inv.step (hI : Inv cc w) {res : Nat} {op : RttOp τ V} {w' : Arena τ V}
    (h : w.step cc res op = some w') : Inv cc w' := by
  cases op with
  | make data args => exact hI.make h
  | move src =>
    obtain ⟨x, hx, rfl⟩ := Option.map_eq_some_iff.mp h
    exact hI.move hx
  | moveExtended src =>
    obtain ⟨x, hx, h⟩ := Option.bind_eq_some_iff.mp h
    obtain ⟨hres, h⟩ := Option.ite_none_right_eq_some.mp h
    cases h
    rw [← hres]
    exact hI.move hx
  | assign dst src =>
    obtain ⟨hd, hgd, h⟩ := Option.bind_eq_some_iff.mp h
    obtain ⟨hs, hgs, h⟩ := Option.bind_eq_some_iff.mp h
    by_cases hne : dst = src
    · rw [if_pos hne] at h
      cases h
      exact hI
    · rw [if_neg hne] at h
      obtain ⟨-, h⟩ := Option.ite_none_right_eq_some.mp h
      cases h
      rw [clear_bodies]
      exact hI.assign hne hgd hgs
  | destroy i =>
    obtain ⟨x, hx, rfl⟩ := Option.map_eq_some_iff.mp h
    rw [clear_bodies]
    exact hI.destroy hx

/-! ## every run -/

/-- block `b` is there: one `rtt` owns it and gets the arguments back, and nothing of it was
destroyed or returned -/
structure Alive (w : Arena τ V) (b : Nat) (args : List (Arg τ V)) : Prop where
  owner : ∃ i h, w.bodies.get i = some h ∧ h.allocation = some b ∧
    (∀ j k, w.bodies.get j = some k → k.allocation = some b → j = i) ∧
    ∀ n a, args[n]? = some a → w.get h n a.type.decay = some a.value
  destroyed : w.destroyed.filter (fun e => e.1 == b) = []
  freed : w.freed.filter (fun e => e.1 == b) = []

/-- block `b` was returned, once and with its size, and its objects were destroyed once, the last
first; no `rtt` points to it -/
structure Returned (cc : Compiler τ) (w : Arena τ V) (b : Nat) (args : List (Arg τ V)) : Prop where
  owner : ∀ i h, w.bodies.get i = some h → h.allocation ≠ some b
  destroyed : w.destroyed.filter (fun e => e.1 == b) = (tagged b args).reverse
  freed : w.freed.filter (fun e => e.1 == b) = [(b, cc.totalSize (args.map Arg.type))]

theorem Full.get {h : RttFields} {b : Nat} {args : List (Arg τ V)} (hf : Full cc w h b args) {n : Nat}
    {a : Arg τ V} (ha : args[n]? = some a) : w.get h n a.type.decay = some a.value := by
  obtain ⟨blk, hget, -, htable, hs⟩ := hf.block
  obtain ⟨hn, -⟩ := List.getElem?_eq_some_iff.mp ha
  obtain ⟨e, he, hdest, hmem⟩ := hs.find hn ha
  have hfilter : ((some blk).filter fun x : Block τ V => x.tableAt == blk.tableAt) = some blk := by
    simp
  have hbind : ((some blk).bind fun x : Block τ V => x.memory e.offset) =
      some (e.destroyer, a.value) := hmem
  unfold Arena.get
  rw [hf.objects, hf.data, ← htable]
  dsimp only
  rw [if_pos (by rw [hf.objectsIdx]; exact hn), hget, hfilter]
  dsimp only
  rw [he]
  dsimp only
  rw [hbind]
  exact if_pos hdest

/-- **Objects and blocks.**  After any operations on the `rtt` objects of a resource: each block that
was ever made is there with its objects and one owner, or was returned with the size it had, after
its objects were destroyed in reverse order, each once.  With the last `rtt` the last block goes. -/
theorem rtt_lifetime (cc : Compiler τ) (res : Nat) (ops : List (RttOp τ V)) (w : Arena τ V)
    (hrun : TS.run (Arena.step cc res) Arena.init ops = some w) :
    w.undefined = false ∧
    (∀ b args, w.made[b]? = some args → Alive w b args ∨ Returned cc w b args) ∧
    ((∀ i, w.bodies.get i = none) → ∀ b args, w.made[b]? = some args → Returned cc w b args) := by
  have hI : Inv cc w := TS.run_inv (fun s a t hs h => hs.step h) Inv.init hrun
  have hcases : ∀ b args, w.made[b]? = some args → Alive w b args ∨ Returned cc w b args := by
    intro b args hm
    rcases hget : w.blocks.get b with _ | blk
    · right
      obtain ⟨hd, hf⟩ := hI.gone b args hm hget
      refine ⟨fun i h hi ha => ?_, hd, hf⟩
      rcases hI.each i h hi with he | ⟨c, args', hfull⟩
      · rw [he.allocation] at ha
        cases ha
      · obtain ⟨blk, hblk, -⟩ := hfull.block
        rw [hfull.allocation] at ha
        rw [Option.some.inj ha, hget] at hblk
        cases hblk
    · left
      obtain ⟨i, h, hi, ha⟩ := hI.owned b blk hget
      obtain ⟨hd, hf⟩ := hI.quiet b (Or.inl (by rw [hget]; exact Option.some_ne_none blk))
      refine ⟨⟨i, h, hi, ha, fun j k hj hk => hI.apart j i k h b hj hi hk ha, ?_⟩, hd, hf⟩
      rcases hI.each i h hi with he | ⟨c, args', hfull⟩
      · rw [he.allocation] at ha
        cases ha
      · rw [hfull.allocation] at ha
        have hmade := hfull.made
        rw [Option.some.inj ha, hm] at hmade
        rw [Option.some.inj hmade]
        exact fun n a hna => hfull.get hna
  refine ⟨hI.defined, hcases, fun hnone b args hm => ?_⟩
  rcases hcases b args hm with halive | hgone
  · obtain ⟨i, h, hi, -⟩ := halive.owner
    rw [hnone i] at hi
    cases hi
  · exact hgone

/-- a body of a `char` and a `long` moves through three `rtt` objects, which are then destroyed -/
theorem rtt_lifetime_moved : ∃ w : Arena Arithmetic Int, TS.run (Arena.step lp64 1) Arena.init
    [.make 4096 [⟨⟨.none, .obj .char false⟩, 97⟩, ⟨⟨.none, .obj .long false⟩, 3⟩], .make 0 [],
      .assign 1 0, .moveExtended 1, .assign 2 2, .destroy 0, .destroy 2, .destroy 1] = some w ∧
    w.undefined = false ∧ Returned lp64 w 0 [⟨⟨.none, .obj .char false⟩, 97⟩,
      ⟨⟨.none, .obj .long false⟩, 3⟩] := by
  refine ⟨_, rfl, ?_⟩
  obtain ⟨hdef, -, hlast⟩ := rtt_lifetime lp64 1
    [.make 4096 [⟨⟨.none, .obj .char false⟩, (97 : Int)⟩, ⟨⟨.none, .obj .long false⟩, 3⟩], .make 0 [],
      .assign 1 0, .moveExtended 1, .assign 2 2, .destroy 0, .destroy 2, .destroy 1] _ rfl
  refine ⟨hdef, hlast (fun i => ?_) 0 _ rfl⟩
  match i with
  | 0 => rfl
  | 1 => rfl
  | 2 => rfl
  | i + 3 => exact Heap.bound _ _ (Nat.le_add_left 3 i)

end Arena
end ActorZeta
