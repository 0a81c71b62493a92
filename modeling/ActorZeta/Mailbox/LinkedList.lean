import ActorZeta.Lib.Linked
import ActorZeta.Mailbox.Default
import Mathlib.Logic.Function.Basic

/-!
# linked_list: the pointers

A list object at `l` has the two sentinels `head l` and `tail l`; `tail_.next` points back at the
last element.  The operations are the writes of the source in their order.

* `Memory`         every `next` pointer, and `size_` of the list objects that live;
* `ListOp`         the calls, with their arguments; `Memory.step` runs one;
* `Lists`          what the lists are for: sequences; `Lists.apply` is what a call does to them and
                   `Lists.Valid` what it may be given;
* `Represents`     the representation: the path from `head_` to `tail_` visits the sequence,
                   `tail_.next` is its last cell, no element is linked twice;
* `fetchLoop_fetched`     the loop of `fetch_more` links a chain as `Mailbox.fetched` says;
* `linked_list_refines`   every run of calls.
-/

namespace ActorZeta

/-! ## the nodes -/

/-- what a `node_pointer` points at: the sentinels of the list object at `l`, an element, nothing -/
inductive Node where
  | null
  | head (l : Nat)
  | tail (l : Nat)
  | elem (a : Nat)
  deriving DecidableEq, Repr

/-- `next` of every node; `size_` of the list objects, `none` where no object lives -/
structure Memory where
  next : Node → Node
  size : Nat → Option Nat

namespace Memory

def write (m : Memory) (n v : Node) : Memory := { m with next := Function.update m.next n v }

def setSize (m : Memory) (l : Nat) (k : Option Nat) : Memory :=
  { m with size := Function.update m.size l k }

theorem write_next (m : Memory) (n v k : Node) :
    (m.write n v).next k = if k = n then v else m.next k := Function.update_apply ..

theorem setSize_size (m : Memory) (l : Nat) (k : Option Nat) (i : Nat) :
    (m.setSize l k).size i = if i = l then k else m.size i := Function.update_apply ..

@[simp] theorem write_size (m : Memory) (n v : Node) : (m.write n v).size = m.size := rfl
@[simp] theorem setSize_next (m : Memory) (l : Nat) (k : Option Nat) :
    (m.setSize l k).next = m.next := rfl

/-! ## the operations -/

/-- `init()` -/
def init (m : Memory) (l : Nat) : Memory :=
  ((m.write (.head l) (.tail l)).write (.tail l) (.head l)).setSize l (some 0)

/-- `push_back(ptr)`, `k` being `size_` -/
def pushBack (m : Memory) (l k a : Nat) : Memory :=
  let m1 := m.write (m.next (.tail l)) (.elem a)
  let m2 := m1.write (.tail l) (.elem a)
  (m2.write (.elem a) (.tail l)).setSize l (some (k + 1))

def pushFront (m : Memory) (l k a : Nat) : Memory :=
  if k = 0 then m.pushBack l k a
  else
    let m1 := m.write (.elem a) (m.next (.head l))
    (m1.write (.head l) (.elem a)).setSize l (some (k + 1))

/-- `pop_front()`; `none` where its assertion fails or a sentinel would be promoted -/
def popFront (m : Memory) (l k : Nat) : Option (Memory × Option Nat) :=
  if k = 0 then some (m, none)
  else match m.next (.head l) with
    | .elem a =>
      let m1 := (m.write (.head l) (m.next (.elem a))).setSize l (some (k - 1))
      if k - 1 = 0 then
        if m1.next (.head l) = .tail l then some (m1.write (.tail l) (.head l), some a) else none
      else some (m1, some a)
    | _ => none

/-- `insert_after(pos, ptr)` -/
def insertAfter (m : Memory) (l k : Nat) (pos : Node) (a : Nat) : Option Memory :=
  if pos = .tail l then none
  else
    let next := m.next pos
    let m1 := m.write (.elem a) next
    let m2 := m1.write pos (.elem a)
    let m3 := if next = .tail l then m2.write (.tail l) (.elem a) else m2
    some (m3.setSize l (some (k + 1)))

/-- the loop of `drain(fn)` from the iterator `i` on, with the elements it hands to `fn`, which may
leave anything in their `next`; `none` when it is not over after `turns` turns -/
def drainLoop (l : Nat) (fn : Nat → Node) : Nat → Node → Memory → Option (Memory × List Nat)
  | turns, i, m =>
    if i = .tail l then some (m, [])
    else match turns, i with
      | turns + 1, .elem a =>
        let next := m.next (.elem a)
        (drainLoop l fn turns next (m.write (.elem a) (fn a))).map fun r => (r.1, a :: r.2)
      | _, _ => none

/-- `drain(fn)` -/
def drain (m : Memory) (l k : Nat) (fn : Nat → Node) : Option (Memory × List Nat) :=
  (drainLoop l fn k (m.next (.head l)) m).map fun r => (r.1.init l, r.2)

/-- what the move constructor and the move assignment share, `k` being `other.size_` -/
def relocate (m : Memory) (l other k : Nat) : Memory :=
  if k = 0 then m
  else
    let m1 := m.write (.head l) (m.next (.head other))
    let m2 := m1.write (.tail l) (m1.next (.tail other))
    let m3 := m2.write (m2.next (.tail l)) (.tail l)
    (m3.setSize l (some k)).init other

end Memory

/-- an `iterator` to insert behind -/
inductive Pos where
  | beforeBegin
  | element (b : Nat)
  | beforeEnd
  deriving DecidableEq, Repr

/-- the calls; `fn` is what a callback or a deleter leaves in the element it is given -/
inductive ListOp where
  | construct (l : Nat)
  | moveConstruct (l other : Nat)
  | moveAssign (l other : Nat) (fn : Nat → Node)
  | destroy (l : Nat) (fn : Nat → Node)
  | clear (l : Nat) (fn : Nat → Node)
  | pushBack (l a : Nat)
  | pushFront (l a : Nat)
  | popFront (l : Nat)
  | insertAfter (l : Nat) (pos : Pos) (a : Nat)
  | drain (l : Nat) (fn : Nat → Node)

/-- what a call returns, or hands to its callback or its deleter -/
inductive ListResult where
  | done
  | popped (a : Option Nat)
  | iterator (n : Node)
  | handed (as : List Nat)
  deriving DecidableEq, Repr

namespace Memory

/-- the node that an iterator points at -/
def iterator (m : Memory) (l : Nat) : Pos → Node
  | .beforeBegin => .head l
  | .element b => .elem b
  | .beforeEnd => m.next (.tail l)

/-- one call; `none` on an object that does not live, and where an assertion fails -/
def step (m : Memory) : ListOp → Option (Memory × ListResult)
  | .construct l => if m.size l = none then some (m.init l, .done) else none
  | .moveConstruct l other =>
    if m.size l = none then (m.size other).map fun k => ((m.init l).relocate l other k, .done)
    else none
  | .moveAssign l other fn =>
    (m.size l).bind fun k => (m.drain l k fn).bind fun r =>
      (r.1.size other).map fun k' => (r.1.relocate l other k', .handed r.2)
  | .destroy l fn =>
    (m.size l).bind fun k => (m.drain l k fn).map fun r => (r.1.setSize l none, .handed r.2)
  | .clear l fn => (m.size l).bind fun k => (m.drain l k fn).map fun r => (r.1, .handed r.2)
  | .pushBack l a => (m.size l).map fun k => (m.pushBack l k a, .done)
  | .pushFront l a => (m.size l).map fun k => (m.pushFront l k a, .done)
  | .popFront l =>
    (m.size l).bind fun k => (m.popFront l k).map fun r => (r.1, .popped r.2)
  | .insertAfter l pos a =>
    (m.size l).bind fun k => (m.insertAfter l k (m.iterator l pos) a).map fun m' =>
      (m', .iterator (.elem a))
  | .drain l fn => (m.size l).bind fun k => (m.drain l k fn).map fun r => (r.1, .handed r.2)

end Memory

/-! ## the sequences -/

/-- the elements of each list object, `none` where no object lives -/
abbrev Lists := Nat → Option (List Nat)

namespace Lists

/-- `a` is an element of no list but `l` -/
def Own (s : Lists) (l a : Nat) : Prop := ∀ l' xs, l' ≠ l → s l' = some xs → a ∉ xs

/-- `a` is an element of no list -/
def Unlinked (s : Lists) (a : Nat) : Prop := ∀ l xs, s l = some xs → a ∉ xs

/-- no element is in a list twice, or in two lists -/
structure Distinct (s : Lists) : Prop where
  nodup : ∀ l xs, s l = some xs → xs.Nodup
  own : ∀ l xs, s l = some xs → ∀ a ∈ xs, s.Own l a

end Lists

/-- the list has the element that the iterator points at -/
def Pos.Valid (xs : List Nat) : Pos → Prop
  | .element b => b ∈ xs
  | _ => True

/-- the number of elements up to and with the one that the iterator points at -/
def Pos.index (xs : List Nat) : Pos → Nat
  | .beforeBegin => 0
  | .element b => xs.idxOf b + 1
  | .beforeEnd => ActorZeta.beforeEnd xs

namespace Lists

def relocate (s : Lists) (l other : Nat) : Lists :=
  Function.update (Function.update s l (some ((s other).getD []))) other (some [])

/-- what a call may be given -/
def Valid (s : Lists) : ListOp → Prop
  | .construct l => s l = none
  | .moveConstruct l other => s l = none ∧ ∃ xs, s other = some xs
  | .moveAssign l other _ => (∃ xs, s l = some xs) ∧ ∃ xs, s other = some xs
  | .destroy l _ | .clear l _ | .drain l _ | .popFront l => ∃ xs, s l = some xs
  | .pushBack l a | .pushFront l a => (∃ xs, s l = some xs) ∧ s.Unlinked a
  | .insertAfter l pos a => (∃ xs, s l = some xs ∧ pos.Valid xs) ∧ s.Unlinked a

/-- what a call does to the sequences, and its result -/
def apply (s : Lists) : ListOp → Lists × ListResult
  | .construct l => (Function.update s l (some []), .done)
  | .moveConstruct l other => (relocate (Function.update s l (some [])) l other, .done)
  | .moveAssign l other _ =>
    (relocate (Function.update s l (some [])) l other, .handed ((s l).getD []))
  | .destroy l _ => (Function.update s l none, .handed ((s l).getD []))
  | .clear l _ | .drain l _ => (Function.update s l (some []), .handed ((s l).getD []))
  | .pushBack l a => (Function.update s l (some ((s l).getD [] ++ [a])), .done)
  | .pushFront l a => (Function.update s l (some (a :: (s l).getD [])), .done)
  | .popFront l =>
    (Function.update s l (some ((s l).getD []).tail), .popped ((s l).getD []).head?)
  | .insertAfter l pos a =>
    let xs := (s l).getD []
    (Function.update s l (some (ActorZeta.insertAfter xs (pos.index xs) a)), .iterator (.elem a))

end Lists

/-! ## the representation -/

open Linked

/-- the cells of the list object at `l` -/
def cells (l : Nat) (xs : List Nat) : List Node := .head l :: .tail l :: xs.map .elem

/-- the list object at `l` links the elements `xs` -/
structure Holds (m : Memory) (l : Nat) (xs : List Nat) : Prop where
  path : Path .elem m.next (m.next (.head l)) xs (.tail l)
  last : m.next (.tail l) = lastCell .elem (.head l) xs

/-- **Representation invariant.** -/
structure Represents (m : Memory) (s : Lists) : Prop where
  size : ∀ l, m.size l = (s l).map List.length
  holds : ∀ l xs, s l = some xs → Holds m l xs
  distinct : s.Distinct

section
variable {m m' : Memory} {s s' : Lists} {l other a : Nat} {xs ys : List Nat}

theorem head_ne_tail : Node.head l ≠ .tail other := fun h => by cases h
theorem head_ne_elem : Node.head l ≠ .elem a := fun h => by cases h
theorem tail_ne_elem : Node.tail l ≠ .elem a := fun h => by cases h

theorem Holds.congr (h : Holds m l xs) (hn : ∀ k ∈ cells l xs, m'.next k = m.next k) :
    Holds m' l xs := by
  have hhead : m'.next (.head l) = m.next (.head l) := hn _ List.mem_cons_self
  have htail : m'.next (.tail l) = m.next (.tail l) :=
    hn _ (List.mem_cons_of_mem _ List.mem_cons_self)
  constructor
  · rw [hhead]
    refine h.path.congr fun b hb => hn _ ?_
    exact List.mem_cons_of_mem _ (List.mem_cons_of_mem _ (List.mem_map_of_mem hb))
  · rw [htail]
    exact h.last

/-- an empty list object is two sentinels that point at each other -/
theorem holds_nil :
    Holds m l [] ↔ m.next (.head l) = .tail l ∧ m.next (.tail l) = .head l :=
  ⟨fun h => ⟨h.path, h.last⟩, fun h => ⟨h.1, h.2⟩⟩

theorem nodup_cells (h : xs.Nodup) : (Node.head l :: xs.map .elem).Nodup := by
  refine List.nodup_cons.mpr ⟨?_, h.map fun a b hab => Node.elem.inj hab⟩
  simp

theorem lastCell_ne_tail : lastCell Node.elem (.head l) xs ≠ .tail l := by
  intro h
  have hm : lastCell Node.elem (.head l) xs ∈ _ := lastCell_mem
  rw [h] at hm
  simp at hm

theorem lastCell_ne_elem (h : a ∉ xs) : lastCell Node.elem (.head l) xs ≠ .elem a := by
  intro he
  have hm : lastCell Node.elem (.head l) xs ∈ _ := lastCell_mem
  rw [he] at hm
  simp [h] at hm

/-- a new element behind any cell: its predecessor, its own pointer, and at the end the back
pointer of `tail_` -/
theorem Holds.insert (h : Holds m l (xs ++ ys)) (hd : (xs ++ ys).Nodup)
    (hlink : m'.next (lastCell .elem (.head l) xs) = .elem a)
    (hown : m'.next (.elem a) = m.next (lastCell .elem (.head l) xs))
    (htail : m'.next (.tail l) = if ys = [] then .elem a else m.next (.tail l))
    (hrest : ∀ k, k ≠ .elem a → k ≠ .tail l → k ≠ lastCell .elem (.head l) xs →
      m'.next k = m.next k) (ha : a ∉ xs ++ ys) : Holds m' l (xs ++ a :: ys) := by
  constructor
  · refine Path.insert h.path (nodup_cells hd) hlink hown fun k hk hkl => hrest k ?_ ?_ hkl
    · rintro rfl
      exact ha (by simpa using hk)
    · rintro rfl
      simp at hk
  · rw [htail, lastCell_append]
    by_cases hy : ys = []
    · rw [if_pos hy, hy]
      rfl
    · rw [if_neg hy, h.last, lastCell_append]
      obtain ⟨zs, z, rfl⟩ := (List.eq_nil_or_concat ys).resolve_left hy
      rw [List.concat_eq_append, ← List.cons_append, lastCell_concat, lastCell_concat]

/-! ## one list changes -/

theorem Lists.Distinct.update (hd : s.Distinct) (o : Option (List Nat))
    (ho : ∀ xs, o = some xs → xs.Nodup ∧ ∀ a ∈ xs, s.Own l a) :
    Lists.Distinct (Function.update s l o) := by
  have hl : ∀ l' xs, Function.update s l o l' = some xs →
      (l' = l ∧ o = some xs) ∨ (l' ≠ l ∧ s l' = some xs) := by
    intro l' xs h
    rw [Function.update_apply] at h
    split at h
    · exact Or.inl ⟨‹_›, h⟩
    · exact Or.inr ⟨‹_›, h⟩
  constructor
  · intro l' xs h
    rcases hl l' xs h with ⟨-, hx⟩ | ⟨-, hx⟩
    · exact (ho xs hx).1
    · exact hd.nodup l' xs hx
  · intro l1 xs1 h1 a ha l2 xs2 hne h2 ha2
    rcases hl l1 xs1 h1 with ⟨rfl, e1⟩ | ⟨n1, e1⟩
    · rcases hl l2 xs2 h2 with ⟨rfl, -⟩ | ⟨-, e2⟩
      · exact hne rfl
      · exact (ho xs1 e1).2 a ha l2 xs2 hne e2 ha2
    · rcases hl l2 xs2 h2 with ⟨rfl, e2⟩ | ⟨-, e2⟩
      · exact (ho xs2 e2).2 a ha2 l1 xs1 n1 e1 ha
      · exact hd.own l1 xs1 e1 a ha l2 xs2 hne e2 ha2

theorem Lists.Unlinked.own (h : s.Unlinked a) : s.Own l a := fun l' xs _ hl => h l' xs hl

/-- **Frame.**  A call that writes the sentinels of `l` and elements of no other list leaves the
other lists as they were. -/
theorem Represents.update (h : Represents m s) (o : Option (List Nat))
    (hsize : ∀ i, m'.size i = if i = l then o.map List.length else m.size i)
    (ho : ∀ xs, o = some xs → xs.Nodup ∧ (∀ a ∈ xs, s.Own l a) ∧ Holds m' l xs)
    (hw : ∀ k, m'.next k ≠ m.next k → k = .head l ∨ k = .tail l ∨ ∃ a, k = .elem a ∧ s.Own l a) :
    Represents m' (Function.update s l o) := by
  constructor
  · intro i
    rw [hsize, Function.update_apply]
    split
    · rfl
    · exact h.size i
  · intro l' xs hl
    rw [Function.update_apply] at hl
    split at hl
    · rename_i he
      rw [he]
      exact (ho xs hl).2.2
    · rename_i hne
      refine (h.holds l' xs hl).congr fun k hk => Classical.byContradiction fun hc => ?_
      rcases hw k hc with rfl | rfl | ⟨a, rfl, ha⟩
      · simp [cells, Ne.symm hne] at hk
      · simp [cells, Ne.symm hne] at hk
      · exact ha l' xs hne hl (by simpa [cells] using hk)
  · exact h.distinct.update o fun xs hx => ⟨(ho xs hx).1, (ho xs hx).2.1⟩

/-- an insertion between `xs` and `ys` -/
theorem Represents.insert (h : Represents m s) (hl : s l = some (xs ++ ys)) (hu : s.Unlinked a)
    (hsize : ∀ i, m'.size i = if i = l then some ((xs ++ ys).length + 1) else m.size i)
    (hlink : m'.next (lastCell .elem (.head l) xs) = .elem a)
    (hown : m'.next (.elem a) = m.next (lastCell .elem (.head l) xs))
    (htail : m'.next (.tail l) = if ys = [] then .elem a else m.next (.tail l))
    (hrest : ∀ k, k ≠ .elem a → k ≠ .tail l → k ≠ lastCell .elem (.head l) xs →
      m'.next k = m.next k) : Represents m' (Function.update s l (some (xs ++ a :: ys))) := by
  have ha : a ∉ xs ++ ys := hu l _ hl
  have hd : (xs ++ ys).Nodup := h.distinct.nodup l _ hl
  have hmem : ∀ b ∈ xs ++ a :: ys, b = a ∨ b ∈ xs ++ ys := by
    intro b hb
    rcases List.mem_append.mp hb with hb | hb
    · exact Or.inr (List.mem_append_left ys hb)
    · rcases List.mem_cons.mp hb with hb | hb
      · exact Or.inl hb
      · exact Or.inr (List.mem_append_right xs hb)
  refine h.update _ (fun i => ?_) ?_ ?_
  · rw [hsize i]
    simp [Nat.add_assoc]
  · rintro _ ⟨⟩
    refine ⟨?_, ?_, (h.holds l _ hl).insert hd hlink hown htail hrest ha⟩
    · exact List.nodup_middle.mpr (List.nodup_cons.mpr ⟨ha, hd⟩)
    · intro b hb
      rcases hmem b hb with rfl | hb
      · exact hu.own
      · exact h.distinct.own l _ hl b hb
  · intro k hk
    by_cases hka : k = .elem a
    · exact Or.inr (Or.inr ⟨a, hka, hu.own⟩)
    by_cases hkt : k = .tail l
    · exact Or.inr (Or.inl hkt)
    have hkl : k = lastCell .elem (.head l) xs :=
      Classical.byContradiction fun hkl => hk (hrest k hka hkt hkl)
    have hm : lastCell Node.elem (.head l) xs ∈ _ := lastCell_mem
    rw [← hkl] at hm
    rcases List.mem_cons.mp hm with rfl | hm
    · exact Or.inl rfl
    · obtain ⟨b, hb, rfl⟩ := List.mem_map.mp hm
      exact Or.inr (Or.inr ⟨b, rfl, h.distinct.own l _ hl b (List.mem_append_left ys hb)⟩)

/-! ## the operations keep the representation -/

theorem Represents.size_of (h : Represents m s) (hl : s l = some xs) : m.size l = some xs.length := by
  rw [h.size, hl]
  rfl

theorem Memory.pushBack_next (m : Memory) (l k a : Nat) (n : Node) :
    (m.pushBack l k a).next n =
      if n = .elem a then .tail l else if n = .tail l then .elem a
      else if n = m.next (.tail l) then .elem a else m.next n := by
  unfold Memory.pushBack
  rw [Memory.setSize_next, Memory.write_next, Memory.write_next, Memory.write_next]

theorem Represents.pushBack (h : Represents m s) (hl : s l = some xs) (hu : s.Unlinked a) :
    Represents (m.pushBack l xs.length a) (Function.update s l (some (xs ++ [a]))) := by
  have hh := h.holds l xs hl
  have hx : m.next (.tail l) = lastCell .elem (.head l) xs := hh.last
  have hne : lastCell Node.elem (.head l) xs ≠ .tail l := lastCell_ne_tail
  have hna : lastCell Node.elem (.head l) xs ≠ .elem a := lastCell_ne_elem (hu l xs hl)
  rw [← List.append_nil xs] at hl
  refine h.insert hl hu (fun i => ?_) ?_ ?_ ?_ fun k hka hkt hkl => ?_
  · rw [List.append_nil]
    exact Memory.setSize_size ..
  · rw [Memory.pushBack_next, if_neg hna, if_neg hne, if_pos hx.symm]
  · rw [Memory.pushBack_next, if_pos rfl, hh.path.next_lastCell]
  · rw [Memory.pushBack_next, if_neg tail_ne_elem, if_pos rfl, if_pos rfl]
  · rw [Memory.pushBack_next, if_neg hka, if_neg hkt, if_neg (hx ▸ hkl)]

theorem Represents.pushFront (h : Represents m s) (hl : s l = some xs) (hu : s.Unlinked a) :
    Represents (m.pushFront l xs.length a) (Function.update s l (some (a :: xs))) := by
  unfold Memory.pushFront
  cases xs with
  | nil => exact h.pushBack hl hu
  | cons x xs =>
    rw [if_neg (show (x :: xs).length ≠ 0 from Nat.succ_ne_zero _)]
    have hnext : ∀ n, (((m.write (.elem a) (m.next (.head l))).write (.head l) (.elem a)).setSize l
        (some ((x :: xs).length + 1))).next n = if n = .head l then .elem a
          else if n = .elem a then m.next (.head l) else m.next n := fun n => by
      rw [Memory.setSize_next, Memory.write_next, Memory.write_next]
    have hl' : s l = some ([] ++ x :: xs) := hl
    refine h.insert hl' hu (fun i => ?_) ?_ ?_ ?_ fun k hka _ hkl => ?_
    · exact Memory.setSize_size ..
    · exact (hnext _).trans (if_pos rfl)
    · rw [hnext, if_neg head_ne_elem.symm, if_pos rfl]
      rfl
    · rw [hnext, if_neg head_ne_tail.symm, if_neg tail_ne_elem, if_neg (List.cons_ne_nil x xs)]
    · rw [hnext, if_neg (show k ≠ .head l from hkl), if_neg hka]

/-- where an iterator points: behind the elements up to and with the one it is at -/
theorem Represents.iterator (h : Represents m s) (hl : s l = some xs) {pos : Pos} (hp : pos.Valid xs) :
    ∃ ys zs, xs = ys ++ zs ∧ pos.index xs = ys.length ∧
      m.iterator l pos = lastCell .elem (.head l) ys := by
  cases pos with
  | beforeBegin => exact ⟨[], xs, rfl, rfl, rfl⟩
  | beforeEnd => exact ⟨xs, [], (List.append_nil xs).symm, rfl, (h.holds l xs hl).last⟩
  | element b =>
    obtain ⟨ys, zs, rfl, hb⟩ := List.eq_append_cons_of_mem hp
    refine ⟨ys ++ [b], zs, List.append_cons ys b zs, ?_, ?_⟩
    · show (ys ++ b :: zs).idxOf b + 1 = _
      rw [List.idxOf_append_of_notMem hb, List.idxOf_cons_self, List.length_append]
      rfl
    · rw [lastCell_concat]
      rfl

theorem Represents.insertAfter (h : Represents m s) (hl : s l = some (xs ++ ys)) (hu : s.Unlinked a) :
    ∃ m', m.insertAfter l (xs ++ ys).length (lastCell .elem (.head l) xs) a = some m' ∧
      Represents m' (Function.update s l (some (xs ++ a :: ys))) ∧
      ∀ k, k ≠ .elem a → k ≠ .tail l → k ≠ lastCell .elem (.head l) xs → m'.next k = m.next k := by
  obtain ⟨q, hq, hqy⟩ := Path.append.mp (h.holds l _ hl).path
  have hnq : m.next (lastCell .elem (.head l) xs) = q := hq.next_lastCell
  have hend : q = .tail l ↔ ys = [] := by
    cases ys with
    | nil => exact iff_of_true hqy rfl
    | cons y ys =>
      refine iff_of_false (fun he => ?_) (List.cons_ne_nil y ys)
      rw [hqy.1] at he
      cases he
  have hnt : lastCell Node.elem (.head l) xs ≠ .tail l := lastCell_ne_tail
  have hna : lastCell Node.elem (.head l) xs ≠ .elem a :=
    lastCell_ne_elem fun hm => hu l _ hl (List.mem_append_left ys hm)
  unfold Memory.insertAfter
  rw [if_neg hnt]
  refine ⟨_, rfl, ?_⟩
  rw [and_comm]
  rw [hnq]
  generalize hp : lastCell Node.elem (.head l) xs = pos at *
  have hnext : ∀ n, ((if q = .tail l
      then ((m.write (.elem a) q).write pos (.elem a)).write (.tail l) (.elem a)
      else (m.write (.elem a) q).write pos (.elem a)).setSize l
        (some ((xs ++ ys).length + 1))).next n =
        if n = .tail l ∧ ys = [] then .elem a else if n = pos then .elem a
          else if n = .elem a then q else m.next n := by
    intro n
    rw [Memory.setSize_next]
    by_cases he : q = .tail l
    · rw [if_pos he, Memory.write_next, Memory.write_next, Memory.write_next]
      simp only [hend.mp he, and_true]
    · have hc : ¬(n = .tail l ∧ ys = []) := fun hc => he (hend.mpr hc.2)
      rw [if_neg he, Memory.write_next, Memory.write_next, if_neg hc]
  have hrest := fun (k : Node) (hka : k ≠ .elem a) (hkt : k ≠ .tail l) (hkp : k ≠ pos) =>
    (hnext k).trans (by rw [if_neg fun hc => hkt hc.1, if_neg hkp, if_neg hka])
  refine ⟨hrest, h.insert hl hu (fun i => ?_) ?_ ?_ ?_ (hp ▸ hrest)⟩
  · rw [Memory.setSize_size]
    split
    · rfl
    · split <;> rfl
  · rw [hp, hnext, if_neg fun hc => hnt hc.1, if_pos rfl]
  · rw [hnext, if_neg fun hc => tail_ne_elem hc.1.symm, if_neg hna.symm, if_pos rfl, hp, hnq]
  · rw [hnext, if_neg hnt.symm, if_neg tail_ne_elem]
    simp only [true_and]

theorem Memory.init_next (m : Memory) (l : Nat) (n : Node) :
    (m.init l).next n =
      if n = .tail l then .head l else if n = .head l then .tail l else m.next n := by
  unfold Memory.init
  rw [Memory.setSize_next, Memory.write_next, Memory.write_next]

/-- `init()`, after writes to elements of no other list -/
theorem Represents.init (h : Represents m s) (hsize : m'.size = m.size)
    (hw : ∀ k, m'.next k ≠ m.next k → ∃ a, k = .elem a ∧ s.Own l a) :
    Represents (m'.init l) (Function.update s l (some [])) := by
  refine h.update _ (fun i => ?_) ?_ fun k hk => ?_
  · rw [← hsize]
    exact Memory.setSize_size ..
  · rintro _ ⟨⟩
    refine ⟨List.nodup_nil, nofun, holds_nil.mpr ⟨?_, ?_⟩⟩
    · rw [Memory.init_next, if_neg head_ne_tail, if_pos rfl]
    · rw [Memory.init_next, if_pos rfl]
  · by_cases hkt : k = .tail l
    · exact Or.inr (Or.inl hkt)
    by_cases hkh : k = .head l
    · exact Or.inl hkh
    rw [Memory.init_next, if_neg hkt, if_neg hkh] at hk
    exact Or.inr (Or.inr (hw k hk))

/-- the loop of `drain` hands over the elements on the path, and ends -/
theorem drainLoop_path (fn : Nat → Node) {i : Node} (hp : Path .elem m.next i xs (.tail l))
    (hd : xs.Nodup) :
    ∃ m', Memory.drainLoop l fn xs.length i m = some (m', xs) ∧ m'.size = m.size ∧
      ∀ k, m'.next k ≠ m.next k → ∃ a ∈ xs, k = .elem a := by
  induction xs generalizing i m with
  | nil =>
    refine ⟨m, ?_, rfl, fun k hk => absurd rfl hk⟩
    unfold Memory.drainLoop
    rw [if_pos (show i = .tail l from hp)]
  | cons x xs ih =>
    obtain ⟨rfl, ht⟩ := hp
    obtain ⟨hx, hd'⟩ := List.nodup_cons.mp hd
    have hw : ∀ k, k ≠ .elem x → (m.write (.elem x) (fn x)).next k = m.next k := fun k hk => by
      rw [Memory.write_next, if_neg hk]
    -- the iterator has moved on before the callback had the element
    have ht' : Path .elem (m.write (.elem x) (fn x)).next (m.next (.elem x)) xs (.tail l) :=
      ht.congr fun b hb => hw _ fun he => hx (Node.elem.inj he ▸ hb)
    obtain ⟨m', hm', hs', hw'⟩ := ih ht' hd'
    refine ⟨m', ?_, hs', fun k hk => ?_⟩
    · show Memory.drainLoop l fn (xs.length + 1) (.elem x) m = _
      unfold Memory.drainLoop
      rw [if_neg tail_ne_elem.symm]
      dsimp only
      rw [hm']
      rfl
    · by_cases hkx : k = .elem x
      · exact ⟨x, List.mem_cons_self, hkx⟩
      · rw [← hw k hkx] at hk
        obtain ⟨a, ha, rfl⟩ := hw' k hk
        exact ⟨a, List.mem_cons_of_mem x ha, rfl⟩

theorem Represents.drain (h : Represents m s) (hl : s l = some xs) (fn : Nat → Node) :
    ∃ m', m.drain l xs.length fn = some (m', xs) ∧ Represents m' (Function.update s l (some [])) := by
  obtain ⟨m', hm', hs', hw'⟩ :=
    drainLoop_path fn (h.holds l xs hl).path (h.distinct.nodup l xs hl)
  refine ⟨m'.init l, ?_, h.init hs' fun k hk => ?_⟩
  · unfold Memory.drain
    rw [hm']
    rfl
  · obtain ⟨a, ha, rfl⟩ := hw' k hk
    exact ⟨a, rfl, h.distinct.own l xs hl a ha⟩

theorem Represents.popFront (h : Represents m s) (hl : s l = some xs) :
    ∃ m', m.popFront l xs.length = some (m', xs.head?) ∧
      Represents m' (Function.update s l (some xs.tail)) := by
  cases xs with
  | nil =>
    refine ⟨m, rfl, ?_⟩
    show Represents m (Function.update s l (some []))
    rw [← hl, Function.update_eq_self]
    exact h
  | cons x xs =>
    obtain ⟨⟨hx, ht⟩, hlast⟩ := h.holds l _ hl
    have hd := h.distinct.nodup l _ hl
    have hown := h.distinct.own l _ hl
    generalize hm1 : (m.write (.head l) (m.next (.elem x))).setSize l (some xs.length) = m1
    have hnext : ∀ n, m1.next n = if n = .head l then m.next (.elem x) else m.next n := fun n => by
      rw [← hm1, Memory.setSize_next, Memory.write_next]
    have hsize : ∀ i, m1.size i = if i = l then some xs.length else m.size i := fun i => by
      rw [← hm1]
      exact Memory.setSize_size ..
    have hpop : m.popFront l (x :: xs).length = if xs.length = 0 then
        if m1.next (.head l) = .tail l then some (m1.write (.tail l) (.head l), some x) else none
        else some (m1, some x) := by
      unfold Memory.popFront
      rw [if_neg (show (x :: xs).length ≠ 0 from Nat.succ_ne_zero _), hx, ← hm1]
      rfl
    have hhead : m1.next (.head l) = m.next (.elem x) := by rw [hnext, if_pos rfl]
    rw [hpop]
    cases xs with
    | nil =>
      -- the last element: `tail_.next` is repaired
      have he : m1.next (.head l) = .tail l := hhead.trans ht
      rw [if_pos (show [].length = 0 from rfl), if_pos he]
      refine ⟨_, rfl, h.update _ hsize ?_ fun k hk => ?_⟩
      · rintro _ ⟨⟩
        refine ⟨List.nodup_nil, nofun, holds_nil.mpr ⟨?_, ?_⟩⟩
        · rw [Memory.write_next, if_neg head_ne_tail, he]
        · rw [Memory.write_next, if_pos rfl]
      · by_cases hkt : k = .tail l
        · exact Or.inr (Or.inl hkt)
        · rw [Memory.write_next, if_neg hkt, hnext] at hk
          exact Or.inl (Classical.byContradiction fun hkh => hk (if_neg hkh))
    | cons y ys =>
      rw [if_neg (show (y :: ys).length ≠ 0 from Nat.succ_ne_zero _)]
      refine ⟨_, rfl, h.update _ hsize ?_ fun k hk => ?_⟩
      · rintro _ ⟨⟩
        refine ⟨(List.nodup_cons.mp hd).2, fun b hb => hown b (List.mem_cons_of_mem x hb), ?_, ?_⟩
        · rw [hhead]
          refine ht.congr fun b _ => ?_
          rw [hnext, if_neg head_ne_elem.symm]
        · rw [hnext, if_neg head_ne_tail.symm, hlast]
          rfl
      · rw [hnext] at hk
        exact Or.inl (Classical.byContradiction fun hkh => hk (if_neg hkh))

theorem Memory.relocate_next {l other k : Nat} {n z : Node} (hk : k ≠ 0)
    (hz : m.next (.tail other) = z) (hne : l ≠ other) :
    (m.relocate l other k).next n =
      if n = .tail other then .head other else if n = .head other then .tail other
      else if n = z then .tail l else if n = .tail l then z
      else if n = .head l then m.next (.head other) else m.next n := by
  unfold Memory.relocate
  rw [if_neg hk]
  dsimp only
  have ht : Node.tail other ≠ .tail l := fun h => hne (Node.tail.inj h).symm
  simp only [Memory.init_next, Memory.setSize_next, Memory.write_next, if_neg head_ne_tail.symm,
    if_true, hz]

/-- **Relocation.**  The elements of `other` become those of the empty list `l`: the last of them
points at the new `tail_`, and `other` is empty. -/
theorem Represents.relocate (h : Represents m s) (hl : s l = some []) (ho : s other = some xs) :
    Represents (m.relocate l other xs.length) (s.relocate l other) := by
  unfold Lists.relocate
  rw [ho, Option.getD_some]
  rcases List.eq_nil_or_concat xs with rfl | ⟨ys, z, rfl⟩
  · have hs : Function.update (Function.update s l (some [])) other (some []) = s := by
      rw [← hl, Function.update_eq_self, hl, ← ho, Function.update_eq_self]
    rw [hs]
    exact h
  rw [List.concat_eq_append] at ho ⊢
  have hlen : (ys ++ [z]).length ≠ 0 := by simp
  have hne : l ≠ other := by
    rintro rfl
    rw [hl] at ho
    simp at ho
  have hh := h.holds other _ ho
  have hz : m.next (.tail other) = .elem z := hh.last.trans lastCell_concat
  have hnext := fun n => Memory.relocate_next (n:=n) hlen hz hne
  have h1 : Represents (m.init other) (Function.update s other (some [])) :=
    h.init rfl fun k hk => absurd rfl hk
  rw [Function.update_comm hne]
  refine h1.update _ (fun i => ?_) ?_ fun k hk => ?_
  · unfold Memory.relocate Memory.init
    rw [if_neg hlen]
    simp only [Memory.setSize_size, Memory.write_size]
    by_cases hi : i = l
    · rw [if_pos hi, if_pos hi, if_neg (hi ▸ hne)]
      rfl
    · rw [if_neg hi, if_neg hi]
  · rintro _ ⟨⟩
    have hd := h.distinct.nodup other _ ho
    refine ⟨hd, fun b hb l' xs' hl' hs' => ?_, ?_, ?_⟩
    · rw [Function.update_apply] at hs'
      split at hs'
      · cases hs'
        exact List.not_mem_nil
      · exact h.distinct.own other _ ho b hb l' xs' ‹_› hs'
    · rw [hnext, if_neg head_ne_tail, if_neg fun he => hne (Node.head.inj he),
        if_neg head_ne_elem, if_neg head_ne_tail, if_pos rfl]
      refine hh.path.redirect ?_ fun b hb => ?_
      · rw [hnext, if_neg tail_ne_elem.symm, if_neg head_ne_elem.symm, if_pos rfl]
      · have hbz : Node.elem b ≠ .elem z := fun he =>
          (List.nodup_append.mp hd).2.2 b hb z (List.mem_singleton_self z) (Node.elem.inj he)
        rw [hnext, if_neg tail_ne_elem.symm, if_neg head_ne_elem.symm, if_neg hbz,
          if_neg tail_ne_elem.symm, if_neg head_ne_elem.symm]
    · rw [lastCell_concat, hnext, if_neg fun he => hne (Node.tail.inj he), if_neg head_ne_tail.symm,
        if_neg tail_ne_elem, if_pos rfl]
  · by_cases hkt : k = .tail l
    · exact Or.inr (Or.inl hkt)
    by_cases hkh : k = .head l
    · exact Or.inl hkh
    by_cases hkz : k = .elem z
    · refine Or.inr (Or.inr ⟨z, hkz, fun l' xs' hl' hs' => ?_⟩)
      rw [Function.update_apply] at hs'
      split at hs'
      · cases hs'
        exact List.not_mem_nil
      · exact h.distinct.own other _ ho z (by simp) l' xs' ‹_› hs'
    · rw [hnext, Memory.init_next, if_neg hkz, if_neg hkt, if_neg hkh] at hk
      exact absurd rfl hk

/-- **One call.**  What a call may be given it can do, with the result and the effect that it has
on the sequences. -/
theorem Represents.step (h : Represents m s) {op : ListOp} (hv : s.Valid op) :
    ∃ m', m.step op = some (m', (s.apply op).2) ∧ Represents m' (s.apply op).1 := by
  have hdrain : ∀ {l : Nat}, (∃ xs, s l = some xs) → ∀ fn, ∃ k, m.size l = some k ∧
      ∃ m', m.drain l k fn = some (m', (s l).getD []) ∧
        Represents m' (Function.update s l (some [])) := by
    rintro l ⟨xs, hl⟩ fn
    rw [hl]
    exact ⟨_, h.size_of hl, h.drain hl fn⟩
  cases op with
  | construct l =>
    refine ⟨m.init l, ?_, h.init rfl fun k hk => absurd rfl hk⟩
    have hn : m.size l = none := by
      rw [h.size, show s l = none from hv]
      rfl
    unfold Memory.step
    dsimp only
    rw [if_pos hn]
    rfl
  | moveConstruct l other =>
    obtain ⟨hl, xs, ho⟩ := hv
    have hne : other ≠ l := by
      rintro rfl
      rw [hl] at ho
      cases ho
    have h1 : Represents (m.init l) (Function.update s l (some [])) :=
      h.init rfl fun k hk => absurd rfl hk
    refine ⟨_, ?_, h1.relocate (Function.update_self ..)
      ((Function.update_of_ne hne ..).trans ho)⟩
    have hn : m.size l = none := by
      rw [h.size, hl]
      rfl
    unfold Memory.step
    dsimp only
    rw [if_pos hn, h.size_of ho]
    rfl
  | moveAssign l other fn =>
    obtain ⟨k, hk, m1, hm1, h1⟩ := hdrain hv.1 fn
    obtain ⟨xs, ho⟩ : ∃ xs, Function.update s l (some []) other = some xs := by
      rw [Function.update_apply]
      split
      · exact ⟨[], rfl⟩
      · exact hv.2
    refine ⟨_, ?_, h1.relocate (Function.update_self ..) ho⟩
    unfold Memory.step
    dsimp only
    rw [hk, Option.bind_some, hm1, Option.bind_some, h1.size_of ho]
    rfl
  | destroy l fn =>
    obtain ⟨k, hk, m1, hm1, h1⟩ := hdrain hv fn
    refine ⟨m1.setSize l none, ?_, ?_⟩
    · unfold Memory.step
      dsimp only
      rw [hk, Option.bind_some, hm1]
      rfl
    · have h2 : Represents (m1.setSize l none)
          (Function.update (Function.update s l (some [])) l none) :=
        h1.update none (fun i => Memory.setSize_size ..) nofun fun k hk => absurd rfl hk
      rwa [Function.update_idem] at h2
  | clear l fn =>
    obtain ⟨k, hk, m1, hm1, h1⟩ := hdrain hv fn
    refine ⟨m1, ?_, h1⟩
    unfold Memory.step
    dsimp only
    rw [hk, Option.bind_some, hm1]
    rfl
  | drain l fn =>
    obtain ⟨k, hk, m1, hm1, h1⟩ := hdrain hv fn
    refine ⟨m1, ?_, h1⟩
    unfold Memory.step
    dsimp only
    rw [hk, Option.bind_some, hm1]
    rfl
  | pushBack l a =>
    obtain ⟨⟨xs, hl⟩, hu⟩ := hv
    unfold Memory.step Lists.apply
    dsimp only
    rw [h.size_of hl, hl]
    exact ⟨_, rfl, h.pushBack hl hu⟩
  | pushFront l a =>
    obtain ⟨⟨xs, hl⟩, hu⟩ := hv
    unfold Memory.step Lists.apply
    dsimp only
    rw [h.size_of hl, hl]
    exact ⟨_, rfl, h.pushFront hl hu⟩
  | popFront l =>
    obtain ⟨xs, hl⟩ := hv
    obtain ⟨m1, hm1, h1⟩ := h.popFront hl
    unfold Memory.step Lists.apply
    dsimp only
    rw [h.size_of hl, hl, Option.bind_some, hm1]
    exact ⟨m1, rfl, h1⟩
  | insertAfter l pos a =>
    obtain ⟨⟨xs, hl, hp⟩, hu⟩ := hv
    obtain ⟨ys, zs, rfl, hi, hn⟩ := h.iterator hl hp
    obtain ⟨m1, hm1, h1, -⟩ := h.insertAfter hl hu
    unfold Memory.step Lists.apply
    dsimp only
    rw [h.size_of hl, hl, Option.bind_some, hn, hm1, Option.getD_some, hi, insertAfter_append]
    exact ⟨m1, rfl, h1⟩

end

/-! ## the loop of fetch_more -/

theorem Lists.Unlinked.update {s : Lists} {a : Nat} (h : s.Unlinked a) {ys : List Nat}
    (hy : a ∉ ys) (l : Nat) : Lists.Unlinked (Function.update s l (some ys)) a := by
  intro l' xs hl
  rw [Function.update_apply] at hl
  split at hl
  · cases hl
    exact hy
  · exact h l' xs hl

/-- the loop of `fetch_more()` from the node `head` on, with its two insertion points; `none` when it
is not over after `turns` turns -/
def Memory.fetchLoop (urgent normal : Nat) (high : Nat → Bool) (u n : Node) :
    Nat → Node → Memory → Option Memory
  | turns, head, m => match turns, head with
    | _, .null => some m
    | turns + 1, .elem a =>
      let next := m.next (.elem a)
      let (l, pos) := if high a then (urgent, u) else (normal, n)
      (m.size l).bind fun k => (m.insertAfter l k pos a).bind fun m' =>
        fetchLoop urgent normal high u n turns next m'
    | _, _ => none

/-- a message of the chain is inserted: the rest of the chain is as it was -/
theorem Represents.insertAfter_chain {m : Memory} {s : Lists} {l a : Nat} {xs ys as : List Nat}
    {p : Node} (h : Represents m s) (hl : s l = some (xs ++ ys)) (hu : s.Unlinked a)
    (hp : Path .elem m.next p as .null) (ha : a ∉ as) (has : ∀ b ∈ as, s.Unlinked b) :
    ∃ m', m.insertAfter l (xs ++ ys).length (lastCell .elem (.head l) xs) a = some m' ∧
      Represents m' (Function.update s l (some (xs ++ a :: ys))) ∧
      Path .elem m'.next p as .null ∧
      ∀ b ∈ as, Lists.Unlinked (Function.update s l (some (xs ++ a :: ys))) b := by
  obtain ⟨m', hm', h', hw⟩ := h.insertAfter hl hu
  refine ⟨m', hm', h', hp.congr fun b hb => hw _ ?_ tail_ne_elem.symm ?_, fun b hb => ?_⟩
  · rintro ⟨⟩
    exact ha hb
  · exact (lastCell_ne_elem fun hx => has b hb l _ hl (List.mem_append_left ys hx)).symm
  · refine (has b hb).update (fun hm => ?_) l
    rcases List.mem_append.mp hm with hx | hy
    · exact has b hb l _ hl (List.mem_append_left ys hx)
    · rcases List.mem_cons.mp hy with rfl | hy
      · exact ha hb
      · exact has b hb l _ hl (List.mem_append_right xs hy)

section
variable {β : Type} {m : Memory} {s : Lists} {urgent normal : Nat} {high : Nat → Bool}

/-- the loop, when it has inserted `ru` and `rn` behind the insertion points -/
theorem fetchLoop_represents {us ns ru rn chain : List (Message β)} {p : Node}
    (h : Represents m s) (hne : urgent ≠ normal)
    (hu : s urgent = some (us.map Message.addr ++ ru.map Message.addr))
    (hn : s normal = some (ns.map Message.addr ++ rn.map Message.addr))
    (hp : Path .elem m.next p (chain.map Message.addr) .null)
    (hd : (chain.map Message.addr).Nodup)
    (hc : ∀ a ∈ chain.map Message.addr, s.Unlinked a)
    (hh : ∀ msg ∈ chain, high msg.addr = msg.isHighPriority) :
    ∃ m' s', Memory.fetchLoop urgent normal high
        (lastCell .elem (.head urgent) (us.map Message.addr))
        (lastCell .elem (.head normal) (ns.map Message.addr)) chain.length p m = some m' ∧
      Represents m' s' ∧
      s' urgent = some ((Mailbox.distribute us.length ns.length chain
        (us ++ ru, ns ++ rn)).1.map Message.addr) ∧
      s' normal = some ((Mailbox.distribute us.length ns.length chain
        (us ++ ru, ns ++ rn)).2.map Message.addr) ∧
      ∀ l, l ≠ urgent → l ≠ normal → s' l = s l := by
  induction chain generalizing m s ru rn p with
  | nil =>
    cases (show p = .null from hp)
    refine ⟨m, s, rfl, h, ?_, ?_, fun _ _ _ => rfl⟩
    · rw [hu, ← List.map_append]
      rfl
    · rw [hn, ← List.map_append]
      rfl
  | cons msg chain ih =>
    obtain ⟨rfl, ht⟩ := hp
    obtain ⟨ha, hd'⟩ := List.nodup_cons.mp hd
    have hmsg : s.Unlinked msg.addr := hc _ List.mem_cons_self
    have hc' : ∀ a ∈ chain.map Message.addr, s.Unlinked a :=
      fun a hm => hc a (List.mem_cons_of_mem _ hm)
    have hh' : ∀ msg ∈ chain, high msg.addr = msg.isHighPriority :=
      fun msg hm => hh msg (List.mem_cons_of_mem _ hm)
    unfold Mailbox.distribute
    rw [List.length_cons]
    unfold Memory.fetchLoop
    dsimp only
    rw [hh msg List.mem_cons_self]
    cases hm : msg.isHighPriority with
    | true =>
      obtain ⟨m1, hm1, h1, hp1, hc1⟩ := h.insertAfter_chain hu hmsg ht ha hc'
      rw [if_pos rfl, if_pos rfl, insertAfter_append]
      dsimp only
      rw [h.size_of hu, Option.bind_some, hm1, Option.bind_some]
      have hu1 : Function.update s urgent (some (us.map Message.addr ++ msg.addr ::
          ru.map Message.addr)) urgent =
          some (us.map Message.addr ++ (msg :: ru).map Message.addr) := Function.update_self ..
      obtain ⟨m2, s2, hm2, h2, hu2, hn2, hs2⟩ := ih h1 hu1
        ((Function.update_of_ne hne.symm ..).trans hn) hp1 hd' hc1 hh'
      refine ⟨m2, s2, hm2, h2, hu2, hn2, fun l hlu hln => ?_⟩
      rw [hs2 l hlu hln, Function.update_of_ne hlu]
    | false =>
      obtain ⟨m1, hm1, h1, hp1, hc1⟩ := h.insertAfter_chain hn hmsg ht ha hc'
      rw [if_neg (by decide), if_neg (by decide), insertAfter_append]
      dsimp only
      rw [h.size_of hn, Option.bind_some, hm1, Option.bind_some]
      have hn1 : Function.update s normal (some (ns.map Message.addr ++ msg.addr ::
          rn.map Message.addr)) normal =
          some (ns.map Message.addr ++ (msg :: rn).map Message.addr) := Function.update_self ..
      obtain ⟨m2, s2, hm2, h2, hu2, hn2, hs2⟩ := ih h1 ((Function.update_of_ne hne ..).trans hu) hn1
        hp1 hd' hc1 hh'
      refine ⟨m2, s2, hm2, h2, hu2, hn2, fun l hlu hln => ?_⟩
      rw [hs2 l hlu hln, Function.update_of_ne hln]

/-- **The lists that `fetch_more()` leaves.**  A chain of messages that no list holds, from
`take_head()`, is linked into the two queues as `Mailbox.fetched` says. -/
theorem fetchLoop_fetched {mb : Mailbox β} {chain : List (Message β)} {p : Node}
    (h : Represents m s) (hne : urgent ≠ normal)
    (hu : s urgent = some (mb.urgent.map Message.addr))
    (hn : s normal = some (mb.normal.map Message.addr))
    (hp : Path .elem m.next p (chain.map Message.addr) .null)
    (hd : (chain.map Message.addr).Nodup) (hc : ∀ a ∈ chain.map Message.addr, s.Unlinked a)
    (hh : ∀ msg ∈ chain, high msg.addr = msg.isHighPriority) :
    ∃ m' s', Memory.fetchLoop urgent normal high (m.iterator urgent .beforeEnd)
        (m.iterator normal .beforeEnd) chain.length p m = some m' ∧
      Represents m' s' ∧ s' urgent = some ((mb.fetched chain).urgent.map Message.addr) ∧
      s' normal = some ((mb.fetched chain).normal.map Message.addr) ∧
      ∀ l, l ≠ urgent → l ≠ normal → s' l = s l := by
  have hiu : m.iterator urgent .beforeEnd = _ := (h.holds _ _ hu).last
  have hin : m.iterator normal .beforeEnd = _ := (h.holds _ _ hn).last
  rw [hiu, hin]
  have hu' : s urgent = some (mb.urgent.map Message.addr ++ ([] : List (Message β)).map
      Message.addr) := by simpa using hu
  have hn' : s normal = some (mb.normal.map Message.addr ++ ([] : List (Message β)).map
      Message.addr) := by simpa using hn
  have hf := fetchLoop_represents h hne hu' hn' hp hd hc hh
  simp only [List.append_nil] at hf
  exact hf

end

/-! ## runs -/

/-- the calls `ops` one after the other, with their results -/
def Memory.run (m : Memory) : List ListOp → Option (Memory × List ListResult)
  | [] => some (m, [])
  | op :: ops => (m.step op).bind fun r => (Memory.run r.1 ops).map fun q => (q.1, r.2 :: q.2)

namespace Lists

def run (s : Lists) : List ListOp → Lists × List ListResult
  | [] => (s, [])
  | op :: ops =>
    let r := s.apply op
    ((run r.1 ops).1, r.2 :: (run r.1 ops).2)

/-- every call of the run is given what it may be given -/
def ValidRun (s : Lists) : List ListOp → Prop
  | [] => True
  | op :: ops => s.Valid op ∧ ValidRun (s.apply op).1 ops

/-- no list objects -/
def empty : Lists := fun _ => none

end Lists

theorem Lists.ValidRun.take {s : Lists} {ops : List ListOp} (h : s.ValidRun ops) (n : Nat) :
    s.ValidRun (ops.take n) := by
  induction ops generalizing s n with
  | nil =>
    rw [List.take_nil]
    exact h
  | cons op ops ih =>
    cases n with
    | zero => exact trivial
    | succ n => exact ⟨h.1, ih h.2 n⟩

theorem Represents.run {m : Memory} {s : Lists} (h : Represents m s) {ops : List ListOp} (hv : s.ValidRun ops) :
    ∃ m', m.run ops = some (m', (s.run ops).2) ∧ Represents m' (s.run ops).1 := by
  induction ops generalizing m s with
  | nil => exact ⟨m, rfl, h⟩
  | cons op ops ih =>
    obtain ⟨m1, hm1, h1⟩ := h.step hv.1
    obtain ⟨m2, hm2, h2⟩ := ih h1 hv.2
    refine ⟨m2, ?_, h2⟩
    unfold Memory.run
    rw [hm1, Option.bind_some, hm2]
    rfl

theorem Represents.none {m : Memory} (h : ∀ l, m.size l = none) : Represents m Lists.empty :=
  ⟨h, nofun, nofun, nofun⟩

/-- **linked_list refines a sequence.**  From any memory without list objects, every run of calls
that are given what they may be given goes through with the results that the sequences give, and
after every one of its calls the memory represents the sequences. -/
theorem linked_list_refines {m : Memory} (hm : ∀ l, m.size l = none) {ops : List ListOp}
    (hv : Lists.empty.ValidRun ops) (n : Nat) :
    ∃ m', m.run (ops.take n) = some (m', (Lists.empty.run (ops.take n)).2) ∧
      Represents m' (Lists.empty.run (ops.take n)).1 :=
  (Represents.none hm).run (hv.take n)

/-- a list is filled at all its ends, moved, used again, and gets its elements back -/
theorem linked_list_refines_moved :
    ∃ m', Memory.run ⟨fun _ => .null, fun _ => none⟩
        [.construct 0, .pushFront 0 2, .insertAfter 0 .beforeEnd 3, .insertAfter 0 (.element 2) 5,
          .moveConstruct 1 0, .pushBack 0 4, .moveAssign 0 1 fun _ => .null, .popFront 0]
        = some (m', [.done, .done, .iterator (.elem 3), .iterator (.elem 5), .done, .done,
          .handed [4], .popped (some 2)]) := by
  have hv : Lists.empty.ValidRun [.construct 0, .pushFront 0 2, .insertAfter 0 .beforeEnd 3,
      .insertAfter 0 (.element 2) 5, .moveConstruct 1 0, .pushBack 0 4,
      .moveAssign 0 1 fun _ => .null, .popFront 0] := by
    have he : ∀ a, Lists.empty.Unlinked a := fun a l xs h => by cases h
    refine ⟨rfl, ⟨⟨_, rfl⟩, (he 2).update (by decide) 0⟩, ⟨⟨_, rfl, trivial⟩, ?_⟩,
      ⟨⟨_, rfl, show 2 ∈ [2, 3] by decide⟩, ?_⟩, ⟨rfl, _, rfl⟩, ⟨⟨_, rfl⟩, ?_⟩, ⟨⟨_, rfl⟩, _, rfl⟩, ⟨_, rfl⟩, trivial⟩
    · exact ((he 3).update (by decide) 0).update (by decide) 0
    · exact (((he 5).update (by decide) 0).update (by decide) 0).update (by decide) 0
    · exact ((((((he 4).update (by decide) 0).update (by decide) 0).update (by decide) 0).update
        (by decide) 0 |>.update (by decide) 1).update (by decide) 1).update (by decide) 0
  obtain ⟨m', hm', -⟩ := linked_list_refines (m:=⟨fun _ => .null, fun _ => none⟩)
    (fun _ => rfl) hv 8
  exact ⟨m', hm'⟩

end ActorZeta
