import Mathlib.Data.List.Perm.Basic
import ActorZeta.Allocation.Header

/-!
# Every block goes back where it came from

* `Object.Intact`        what is in memory for a frame or a message: its header, and its content;
* `Intact.store`         what is written elsewhere does not matter, `Intact.write` what is written
                         to the object;
* `Memory.Sound`         the invariant, with the calls of the resources;
* `blocks_given_back`    each call of `deallocate` is for one call of `allocate`, with its words.
-/

namespace ActorZeta.Allocation
open Bytes

variable {enc : Encoding Word Byte 8} {m : Nat → Byte} {w w' : Memory} {o : Object} {k : Kind}
  {a i : Nat} {size res : Word} {bs : List Byte}

/-! ## One object -/

variable (enc) in
/-- the object `o` and its header are in memory -/
structure Object.Intact (m : Nat → Byte) (o : Object) : Prop where
  behind : o.kind.front.toNat ≤ o.address
  header : words enc m (o.address - o.kind.front.toNat) = (o.resource, o.kind.stored o.size)
  content : load m o.address o.size.toNat = o.content
  resource : o.resource ≠ 0
  aligned : o.kind.align.toNat ∣ o.address
  fits : o.size.toNat + o.kind.front.toNat < 2 ^ 64

/-- the sums in `allocate_coro_frame` and `pmr_make_message` do not wrap around -/
theorem total_toNat (h : size.toNat + k.front.toNat < 2 ^ 64) :
    (k.front + size).toNat = k.front.toNat + size.toNat := by
  rw [BitVec.toNat_add]
  exact Nat.mod_eq_of_lt (by omega)

theorem words_store {raw : Nat} (h : Range.Apart ⟨a, bs.length⟩ ⟨raw, k.front.toNat⟩) :
    words enc (store m a bs) raw = words enc m raw := by
  unfold words
  rw [Kind.front_toNat] at h
  rw [enc.get_store (h.within (Range.Within.refl _) ⟨by dsimp only; omega, by dsimp only; omega⟩),
    enc.get_store (h.within (Range.Within.refl _) ⟨by dsimp only; omega, by dsimp only; omega⟩)]

/-- the header that is written is what is read -/
theorem words_put (raw : Nat) (r s : Word) :
    words enc (enc.put (enc.put m raw r) (raw + 8) s) raw = (r, s) := by
  unfold words
  rw [enc.get_put, enc.get_put_apart (Or.inr (Nat.le_refl _)), enc.get_put]

namespace Object.Intact
variable (h : o.Intact enc m)
include h

theorem range_eq : o.block.range
    = ⟨o.address - o.kind.front.toNat, o.kind.front.toNat + o.size.toNat⟩ :=
  congrArg (Range.mk _) (total_toNat h.fits)

theorem store (ha : Range.Apart ⟨a, bs.length⟩ o.block.range) :
    o.Intact enc (store m a bs) := by
  have hb := h.behind
  rw [h.range_eq] at ha
  refine ⟨hb, ?_, ?_, h.resource, h.aligned, h.fits⟩
  · rw [words_store (k:=o.kind) (ha.within (Range.Within.refl _)
      ⟨Nat.le_refl _, by dsimp only; omega⟩), h.header]
  · have hend : o.address + o.size.toNat
        ≤ o.address - o.kind.front.toNat + (o.kind.front.toNat + o.size.toNat) := by omega
    exact (load_store_apart (ha.within (Range.Within.refl _) ⟨Nat.sub_le _ _, hend⟩)).trans
      h.content

/-- the object itself is written to -/
theorem write {n : Nat} (hn : n + bs.length ≤ o.size.toNat) :
    Object.Intact enc (Bytes.store m (o.address + n) bs)
      { o with content := o.content.take n ++ bs ++ o.content.drop (n + bs.length) } := by
  have hb := h.behind
  refine ⟨hb, ?_, ?_, h.resource, h.aligned, h.fits⟩
  · show words enc _ (o.address - o.kind.front.toNat) = _
    rw [words_store (k:=o.kind) (Or.inr (by dsimp only; omega)), h.header]
  · show load _ o.address o.size.toNat = _
    rw [load_store_within hn, h.content]

end Object.Intact

variable (enc m) in
/-- a new object, when its block is at `a` -/
theorem intact_new (hsize : size.toNat + k.front.toNat < 2 ^ 64) (hres : res ≠ 0)
    (ha : k.align.toNat ∣ a) :
    Object.Intact enc (enc.put (enc.put m a res) (a + 8) (k.stored size))
      ⟨k, a + k.front.toNat, size, res, load (enc.put (enc.put m a res) (a + 8) (k.stored size))
        (a + k.front.toNat) size.toNat⟩ := by
  refine ⟨Nat.le_add_left _ _, ?_, rfl, hres, ?_, hsize⟩
  · show words enc _ (a + k.front.toNat - k.front.toNat) = _
    rw [Nat.add_sub_cancel, words_put]
  · have hsame : k.front.toNat = k.align.toNat := (Kind.front_toNat k).trans (Kind.align_toNat k).symm
    have hfront : k.align.toNat ∣ k.front.toNat := ⟨1, hsame.trans (Nat.mul_one _).symm⟩
    exact (Nat.dvd_add_right ha).mpr hfront

/-! ## All objects -/

variable (enc) in
structure Memory.Sound (w : Memory) : Prop where
  /-- a block is lent for each object, and for nothing else -/
  lent : w.lent.Perm (w.objects.map Object.block)
  given : w.given.Perm (w.returned ++ w.lent)
  apart : w.objects.Pairwise fun o p => Range.Apart o.block.range p.block.range
  intact : ∀ o ∈ w.objects, o.Intact enc w.bytes

theorem sound_init (bytes : Nat → Byte) : (Memory.init bytes).Sound enc :=
  ⟨List.Perm.refl _, List.Perm.refl _, List.Pairwise.nil, nofun⟩

namespace Memory
variable (enc) in
/-- a block is lent, its header is written, and the object behind it is there -/
def placed (w : Memory) (k : Kind) (size res : Word) (a : Nat) : Memory :=
  (((w.lend ⟨res, a, k.front + size, k.align⟩).storeWord enc a res).storeWord enc (a + 8)
    (k.stored size)).add k size res (a + k.front.toNat)

theorem find_some (h : w.find k i = some o) : w.objects[i]? = some o ∧ o.kind = k := by
  obtain ⟨ho, hk⟩ := Option.filter_eq_some_iff.mp h
  exact ⟨ho, of_decide_eq_true hk⟩

theorem find_of (h : w.objects[i]? = some o) : w.find o.kind i = some o :=
  Option.filter_eq_some_iff.mpr ⟨h, decide_eq_true rfl⟩

namespace Sound
variable (h : w.Sound enc)
include h

theorem mem_lent (ho : o ∈ w.objects) : o.block ∈ w.lent :=
  h.lent.mem_iff.mpr (List.mem_map_of_mem ho)

/-- another block is lent, and its object is there -/
theorem placed (hres : res ≠ 0) (ha : w.Offered k size a) :
    (w.placed enc k size res a).Sound enc := by
  obtain ⟨hsize, halign, hfree⟩ := ha
  have hnew := intact_new enc w.bytes hsize hres halign
  set o : Object := ⟨k, a + k.front.toNat, size, res,
    load (enc.put (enc.put w.bytes a res) (a + 8) (k.stored size)) (a + k.front.toNat)
      size.toNat⟩ with ho
  have hblock : o.block = ⟨res, a, k.front + size, k.align⟩ := by
    rw [ho, Object.block, Nat.add_sub_cancel]
  have hfree' : ∀ p ∈ w.objects, Range.Apart o.block.range p.block.range := fun p hp => by
    rw [hblock]
    exact hfree _ (h.mem_lent hp)
  -- the two words of the header are in the block of the object
  have hword : ∀ (v : Word) (n : Nat), n ≤ 8 → ∀ p ∈ w.objects,
      Range.Apart ⟨a + n, (enc.encode v).length⟩ p.block.range := fun v n hn p hp => by
    refine (hfree' p hp).within ⟨?_, ?_⟩ (Range.Within.refl _)
    · rw [hblock]
      exact Nat.le_add_right a n
    · rw [hblock, enc.length_encode]
      show a + n + 8 ≤ a + (k.front + size).toNat
      rw [total_toNat hsize, Kind.front_toNat]
      omega
  refine ⟨?_, ?_, List.pairwise_cons.mpr ⟨hfree', h.apart⟩, ?_⟩
  · show (_ :: w.lent).Perm (o.block :: w.objects.map Object.block)
    rw [hblock]
    exact h.lent.cons _
  · show (w.given ++ [_]).Perm (w.returned ++ _ :: w.lent)
    exact (List.perm_append_singleton _ _).trans ((h.given.cons _).trans List.perm_middle.symm)
  · intro p hp
    obtain rfl | hp := List.mem_cons.mp hp
    · exact hnew
    · exact ((h.intact p hp).store (hword res 0 (Nat.zero_le _) p hp)).store
        (hword (k.stored size) 8 (Nat.le_refl _) p hp)

/-- an object is written to -/
theorem write {n : Nat} (ho : w.objects[i]? = some o) (hn : n + bs.length ≤ o.size.toNat) :
    Memory.Sound enc
      { w with
        bytes := store w.bytes (o.address + n) bs
        objects := w.objects.set i { o with
          content := o.content.take n ++ bs ++ o.content.drop (n + bs.length) } } := by
  obtain ⟨hi, rfl⟩ := List.getElem?_eq_some_iff.mp ho
  have hown := h.intact _ (List.getElem_mem hi)
  have hb := hown.behind
  have hwithin : Range.Within ⟨w.objects[i].address + n, bs.length⟩
      w.objects[i].block.range := by
    rw [hown.range_eq]
    constructor
    · dsimp only
      omega
    · dsimp only
      omega
  have hold : (w.objects[i] :: w.objects.eraseIdx i).Perm w.objects :=
    List.getElem_cons_eraseIdx_perm hi
  have hnew := List.set_perm_cons_eraseIdx hi { w.objects[i] with
    content := w.objects[i].content.take n ++ bs ++ w.objects[i].content.drop (n + bs.length) }
  have hpair := (hold.pairwise_iff Range.Apart.symm).mpr h.apart
  obtain ⟨hfree, -⟩ := List.pairwise_cons.mp hpair
  refine ⟨?_, h.given, (hnew.pairwise_iff Range.Apart.symm).mpr ?_, fun p hp => ?_⟩
  · -- its block is the same
    exact (h.lent.trans (hold.symm.map Object.block)).trans (hnew.symm.map Object.block)
  · exact List.pairwise_cons.mpr (List.pairwise_cons.mp hpair)
  · obtain rfl | hp := List.mem_cons.mp (hnew.mem_iff.mp hp)
    · exact hown.write hn
    · exact (h.intact p (List.mem_of_mem_eraseIdx hp)).store
        ((hfree p hp).within hwithin (Range.Within.refl _))

/-- others write -/
theorem foreign (ha : ∀ b ∈ w.lent, Range.Apart ⟨a, bs.length⟩ b.range) :
    Memory.Sound enc { w with bytes := store w.bytes a bs } :=
  ⟨h.lent, h.given, h.apart, fun o ho => (h.intact o ho).store (ha _ (h.mem_lent ho))⟩

/-- an object is freed, and its block goes back -/
theorem giveBack (ho : w.objects[i]? = some o) : ((w.giveBack o.block).remove i).Sound enc := by
  obtain ⟨hi, rfl⟩ := List.getElem?_eq_some_iff.mp ho
  have hperm := List.getElem_cons_eraseIdx_perm hi
  have hlent : w.lent.Perm (w.objects[i].block :: (w.objects.eraseIdx i).map Object.block) :=
    h.lent.trans (hperm.symm.map Object.block)
  refine ⟨?_, ?_, h.apart.sublist (List.eraseIdx_sublist _ i), fun p hp =>
    h.intact p (List.mem_of_mem_eraseIdx hp)⟩
  · show (w.lent.erase _).Perm _
    have he := hlent.erase w.objects[i].block
    rwa [List.erase_cons_head] at he
  · show w.given.Perm ((w.returned ++ [w.objects[i].block]) ++ w.lent.erase w.objects[i].block)
    rw [List.append_assoc]
    exact h.given.trans ((List.perm_cons_erase (h.mem_lent (List.getElem_mem hi))).append_left _)

/-! ## The functions -/

/-- both forms of `operator delete` make the same call -/
theorem deallocate (ho : o ∈ w.objects) (hk : o.kind = .frame) :
    w.deallocateCoroFrame enc (some o.address) o.size = some (w.giveBack o.block) ∧
      w.deallocateCoroFrameUnsized enc (some o.address) = some (w.giveBack o.block) := by
  have hi := h.intact o ho
  obtain ⟨kind, address, size, resource, content⟩ := o
  obtain rfl : kind = .frame := hk
  obtain ⟨hr, hs⟩ := Prod.mk.inj hi.header
  constructor
  · unfold Memory.deallocateCoroFrame
    dsimp only [Kind.front] at hr ⊢
    rw [hr]
    exact if_neg hi.resource
  · unfold Memory.deallocateCoroFrameUnsized
    dsimp only [Kind.front, Kind.stored] at hr hs ⊢
    rw [hr, hs]
    exact if_neg hi.resource

/-- the deleter finds the block in the header -/
theorem discard (ho : o ∈ w.objects) (hk : o.kind = .message) :
    w.messageDeleter enc (some o.address) = w.giveBack o.block := by
  have hi := h.intact o ho
  obtain ⟨kind, address, size, resource, content⟩ := o
  obtain rfl : kind = .message := hk
  obtain ⟨hr, hs⟩ := Prod.mk.inj hi.header
  unfold Memory.messageDeleter
  dsimp only [Kind.front, Kind.stored] at hr hs ⊢
  rw [hr, hs]
  rfl

theorem step_delete (ho : w.objects[i]? = some o) (hk : o.kind = .frame) :
    step enc w (.delete i) = some ((w.giveBack o.block).remove i) ∧
      step enc w (.deleteUnsized i) = some ((w.giveBack o.block).remove i) := by
  obtain ⟨hsized, hunsized⟩ := h.deallocate (List.mem_of_getElem? ho) hk
  have hfind := find_of ho
  rw [hk] at hfind
  unfold step
  dsimp only
  rw [hfind, Option.bind_some, Option.bind_some, hsized, hunsized]
  exact ⟨rfl, rfl⟩

theorem step_discard (ho : w.objects[i]? = some o) (hk : o.kind = .message) :
    step enc w (.discard i) = some ((w.giveBack o.block).remove i) := by
  have hfind := find_of ho
  rw [hk] at hfind
  unfold step
  dsimp only
  rw [hfind, Option.map_some, h.discard (List.mem_of_getElem? ho) hk]

omit h in
/-- what `operator new` does: nothing, or an object is there -/
theorem operatorNew_cases {args : List FrameArg} {raw : Option Nat} {r : Memory × Option Nat}
    (hnew : w.operatorNew enc size args raw = some r) :
    extractResourceFromArgs args ≠ 0 ∧ ((raw = none ∧ r = (w, none)) ∨ ∃ a, raw = some a ∧
      r.2 = some (a + paddedSize.toNat) ∧
      r.1.add .frame size (extractResourceFromArgs args) (a + paddedSize.toNat)
        = w.placed enc .frame size (extractResourceFromArgs args) a) := by
  obtain ⟨res, hres, halloc⟩ := Option.bind_eq_some_iff.mp hnew
  obtain ⟨hne, rfl⟩ := extractResourceOrAbort_some.mp hres
  unfold Memory.allocateCoroFrame at halloc
  rw [if_neg hne] at halloc
  cases raw with
  | none =>
    cases halloc
    exact ⟨hne, Or.inl ⟨rfl, rfl⟩⟩
  | some a =>
    cases halloc
    exact ⟨hne, Or.inr ⟨a, rfl, rfl, rfl⟩⟩

omit h in
/-- the first argument that has a resource decides where the block of a frame comes from -/
theorem step_new {args : List FrameArg} {a : Nat}
    (hs : Allocation.step enc w (.new size args (some a)) = some w') : ∃ o, o.kind = .frame ∧
      o.size = size ∧ (args.map extractResourceImpl).find? (fun r => r ≠ 0) = some o.resource ∧
      w'.objects = o :: w.objects ∧ w'.given = w.given ++ [o.block] := by
  unfold Allocation.step at hs
  dsimp only at hs
  obtain ⟨-, hs⟩ := Option.ite_none_right_eq_some.mp hs
  obtain ⟨⟨w'', p⟩, hnew, hw'⟩ := Option.map_eq_some_iff.mp hs
  obtain ⟨hne, ⟨hraw, -⟩ | ⟨b, hb, hp, hr⟩⟩ := operatorNew_cases hnew
  · cases hraw
  · cases hb
    cases hp
    have hw : w' = w.placed enc .frame size (extractResourceFromArgs args) a := hw'.symm.trans hr
    rw [hw]
    refine ⟨_, rfl, rfl, ?_, rfl, ?_⟩
    · rw [extractResourceFromArgs_eq] at hne ⊢
      cases hf : (args.map extractResourceImpl).find? fun r => r ≠ 0 with
      | none =>
        rw [hf] at hne
        exact absurd rfl hne
      | some r => rfl
    · show w.given ++ [_] = w.given ++ [Object.block _]
      unfold Object.block
      rw [Nat.add_sub_cancel]

theorem step {act : Action} (hs : step enc w act = some w') : w'.Sound enc := by
  cases act with
  | new size args raw =>
    unfold Allocation.step at hs
    dsimp only at hs
    split at hs
    · rename_i hok
      obtain ⟨⟨w'', p⟩, hnew, hw'⟩ := Option.map_eq_some_iff.mp hs
      obtain ⟨hne, ⟨-, hr⟩ | ⟨a, ha, hp, hr⟩⟩ := operatorNew_cases hnew
      · cases hr
        cases hw'
        exact h
      · cases hp
        cases hw'
        have hplaced := h.placed hne (hok a ha)
        rwa [← hr] at hplaced
    · cases hs
  | make size res raw =>
    unfold Allocation.step Memory.pmrMakeMessage at hs
    dsimp only at hs
    split at hs
    · rename_i hok
      split at hs
      · cases hs
      · rename_i hne
        cases hs
        exact h.placed (k:=.message) hne hok
    · cases hs
  | write i offset bs =>
    obtain ⟨o, ho, hs⟩ := Option.bind_eq_some_iff.mp hs
    split at hs
    · rename_i hn
      cases hs
      exact h.write ho hn
    · cases hs
  | foreign a bs =>
    unfold Allocation.step at hs
    dsimp only at hs
    split at hs
    · rename_i ha
      cases hs
      exact h.foreign ha
    · cases hs
  | delete i =>
    obtain ⟨o, ho, -⟩ := Option.bind_eq_some_iff.mp hs
    obtain ⟨ho, hk⟩ := find_some ho
    rw [(h.step_delete ho hk).1] at hs
    cases hs
    exact h.giveBack ho
  | deleteUnsized i =>
    obtain ⟨o, ho, -⟩ := Option.bind_eq_some_iff.mp hs
    obtain ⟨ho, hk⟩ := find_some ho
    rw [(h.step_delete ho hk).2] at hs
    cases hs
    exact h.giveBack ho
  | discard i =>
    obtain ⟨o, ho, -⟩ := Option.map_eq_some_iff.mp hs
    obtain ⟨ho, hk⟩ := find_some ho
    rw [h.step_discard ho hk] at hs
    cases hs
    exact h.giveBack ho

end Sound
end Memory

/-! ## Every run -/

/-- **Blocks go back where they came from.**  Whatever coroutines and messages are made, used and
freed, in any order, and whatever others write elsewhere: each call of `deallocate` returns a block
that `allocate` gave, once, to the same resource and with the same address, size and alignment, and
only the blocks of the objects that exist are out; an object has its header and its content, it is
aligned, and its block is apart from the others.  A frame can be freed with its size or without,
and a message by its deleter: all make the call that returns the block.  The block of a frame is of
the resource that the first argument that has one supplies. -/
theorem blocks_given_back {acts : List Action}
    (h : TS.run (step enc) (Memory.init m) acts = some w) :
    w.given.Perm (w.returned ++ w.objects.map Object.block) ∧
      (w.objects.Pairwise fun o p => Range.Apart o.block.range p.block.range) ∧
      (∀ o ∈ w.objects,
        words enc w.bytes (o.address - o.kind.front.toNat) = (o.resource, o.kind.stored o.size) ∧
        load w.bytes o.address o.size.toNat = o.content ∧ o.kind.align.toNat ∣ o.address) ∧
      (∀ i o, w.objects[i]? = some o → ∃ w', w'.returned = w.returned ++ [o.block] ∧
        w'.objects = w.objects.eraseIdx i ∧
        (o.kind = .frame →
          step enc w (.delete i) = some w' ∧ step enc w (.deleteUnsized i) = some w') ∧
        (o.kind = .message → step enc w (.discard i) = some w')) ∧
      ∀ size args a w', step enc w (.new size args (some a)) = some w' → ∃ o, o.kind = .frame ∧
        o.size = size ∧ (args.map extractResourceImpl).find? (fun r => r ≠ 0) = some o.resource ∧
        w'.objects = o :: w.objects ∧ w'.given = w.given ++ [o.block] := by
  have hs : w.Sound enc := TS.run_inv (fun _ _ _ hw hst => hw.step hst) (sound_init m) h
  refine ⟨hs.given.trans (hs.lent.append_left _), hs.apart, fun o ho => ?_, fun i o ho => ?_,
    fun _ _ _ _ hnew => Memory.Sound.step_new hnew⟩
  · exact ⟨(hs.intact o ho).header, (hs.intact o ho).content, (hs.intact o ho).aligned⟩
  · exact ⟨_, rfl, rfl, fun hk => hs.step_delete ho hk, fun hk => hs.step_discard ho hk⟩

/-- two coroutines and a message, of two resources; a frame is freed with its size and the other one
without -/
def threeObjects : List Action :=
  [.new 100 [.plain, .owner 7] (some 4096), .make 120 9 8192,
    .new 48 [.resource 9, .owner 7] (some 16384), .write 0 4 [1, 2, 3], .foreign 64 [5],
    .delete 0, .new 24 [.owner 7] none, .write 0 0 [6], .deleteUnsized 1, .discard 0]

theorem threeObjects_run :
    ((TS.run (step (littleEndian 8)) (Memory.init fun _ => 0) threeObjects).map fun w =>
        (w.returned, w.objects))
      = some ([⟨9, 16384, 64, 16⟩, ⟨7, 4096, 116, 16⟩, ⟨9, 8192, 136, 16⟩], []) := by
  decide +kernel

theorem blocks_given_back_three :
    ∃ w, TS.run (step (littleEndian 8)) (Memory.init fun _ => 0) threeObjects = some w ∧
      w.returned = [⟨9, 16384, 64, 16⟩, ⟨7, 4096, 116, 16⟩, ⟨9, 8192, 136, 16⟩] ∧
      w.given.Perm w.returned := by
  obtain ⟨w, hrun, hw⟩ := Option.map_eq_some_iff.mp threeObjects_run
  obtain ⟨hreturned, hobjects⟩ := Prod.mk.inj hw
  have hgiven := (blocks_given_back hrun).1
  rw [hobjects, List.map_nil, List.append_nil] at hgiven
  exact ⟨w, hrun, hreturned, hgiven⟩

end ActorZeta.Allocation
