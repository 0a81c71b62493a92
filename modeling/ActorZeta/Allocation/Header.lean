import ActorZeta.Lib.Memory
import ActorZeta.Lib.Trans

/-!
# Blocks with a header

`operator new` and `operator delete` of the promise types, `pmr_make_message` and the deleter of
messages.  A frame or a message lies behind a header, which tells the resource and a size when the
object is freed, perhaps by someone who knows neither.

* `CoroFrameHeader`, `BlockHdr`      the headers, `paddedSize` and `kFront` what they take;
* `FrameArg`, `extractResourceFromArgs`   which resource the arguments of a coroutine supply;
* `Memory`                the bytes, the blocks that were lent and returned, and the objects;
* `allocateCoroFrame`, `deallocateCoroFrame`, `pmrMakeMessage`, `messageDeleter`   the functions
                          of the source;
* `step`                  objects are made, used and freed, and others write elsewhere.
-/

namespace ActorZeta.Allocation
open Bytes

/-- a pointer, or a `size_t` -/
abbrev Word := BitVec 64

abbrev Byte := BitVec 8

/-- `alignof(std::max_align_t)` -/
def maxAlignOf : Word := 16

structure CoroFrameHeader where
  resource : Word
  frameSize : Word

/-- the header of a message -/
structure BlockHdr where
  r : Word
  total : Word

/-- `sizeof` of both headers -/
def headerSize : Word := 16

/-- `coro_frame_header::padded_size()` -/
def paddedSize : Word := (headerSize + maxAlignOf - 1) &&& ~~~(maxAlignOf - 1)

/-- `alignof(message)`, of an object with pointers -/
def messageAlign : Word := 8

def alignUp (n a : Word) : Word := (n + (a - 1)) &&& ~~~(a - 1)

def kAllocAlign : Word := if maxAlignOf < messageAlign then messageAlign else maxAlignOf

def kFront : Word := alignUp headerSize messageAlign

/-! ## The resource -/

/-- an argument of a coroutine, among them `*this`: a resource, an object (or a pointer to one)
whose `resource()` gives one, or anything else -/
inductive FrameArg
  | resource (r : Word)
  | owner (r : Word)
  | plain

def extractResourceImpl : FrameArg → Word
  | .resource r => r
  | .owner r => r
  | .plain => 0

def extractResourceFromArgs : List FrameArg → Word
  | [] => 0
  | first :: rest =>
    let res := extractResourceImpl first
    if res ≠ 0 then res else extractResourceFromArgs rest

/-- `none` is `std::abort()` -/
def extractResourceOrAbort (args : List FrameArg) : Option Word :=
  let res := extractResourceFromArgs args
  if res = 0 then none else some res

/-- the first argument that has a resource decides -/
theorem extractResourceFromArgs_eq (args : List FrameArg) :
    extractResourceFromArgs args
      = ((args.map extractResourceImpl).find? fun r => r ≠ 0).getD 0 := by
  induction args with
  | nil => rfl
  | cons first rest ih =>
    rw [extractResourceFromArgs, List.map_cons, List.find?_cons]
    by_cases h : extractResourceImpl first ≠ 0
    · rw [decide_eq_true h]
      exact if_pos h
    · rw [decide_eq_false h]
      exact (if_neg h).trans ih

theorem extractResourceOrAbort_some {args : List FrameArg} {res : Word} :
    extractResourceOrAbort args = some res ↔ res ≠ 0 ∧ extractResourceFromArgs args = res := by
  unfold extractResourceOrAbort
  constructor
  · intro h
    dsimp only at h
    split at h
    · cases h
    · rename_i hne
      cases h
      exact ⟨hne, rfl⟩
  · rintro ⟨hne, rfl⟩
    exact if_neg hne

/-! ## Memory -/

/-- what `allocate` was asked for and gave, or what `deallocate` was called with -/
structure Block where
  resource : Word
  address : Nat
  size : Word
  align : Word
deriving DecidableEq

def Block.range (b : Block) : Range := ⟨b.address, b.size.toNat⟩

inductive Kind
  | frame
  | message
deriving DecidableEq

namespace Kind

/-- what lies before the object -/
def front : Kind → Word
  | frame => paddedSize
  | message => kFront

def align : Kind → Word
  | frame => maxAlignOf
  | message => kAllocAlign

/-- the second word of the header -/
def stored (size : Word) : Kind → Word
  | frame => size
  | message => kFront + size

@[simp] theorem front_toNat (k : Kind) : k.front.toNat = 16 := by
  cases k <;> decide

@[simp] theorem align_toNat (k : Kind) : k.align.toNat = 16 := by
  cases k <;> decide

end Kind

/-- a frame or a message: what it was made with, and what is in it -/
structure Object where
  kind : Kind
  address : Nat
  size : Word
  resource : Word
  content : List Byte
deriving DecidableEq

/-- the block that an object lies in -/
def Object.block (o : Object) : Block :=
  ⟨o.resource, o.address - o.kind.front.toNat, o.kind.front + o.size, o.kind.align⟩

structure Memory where
  bytes : Nat → Byte
  /-- the calls of `allocate` so far -/
  given : List Block
  /-- the calls of `deallocate` so far -/
  returned : List Block
  /-- what the resources have not got back -/
  lent : List Block
  objects : List Object

variable (enc : Encoding Word Byte 8)

/-- the two words at `raw` -/
def words (m : Nat → Byte) (raw : Nat) : Word × Word := (enc.get m raw, enc.get m (raw + 8))

namespace Memory
variable (w : Memory)

def init (bytes : Nat → Byte) : Memory := ⟨bytes, [], [], [], []⟩

/-- `allocate` gave `b` -/
def lend (b : Block) : Memory := { w with given := w.given ++ [b], lent := b :: w.lent }

/-- `deallocate` -/
def giveBack (b : Block) : Memory :=
  { w with returned := w.returned ++ [b], lent := w.lent.erase b }

def storeWord (a : Nat) (v : Word) : Memory := { w with bytes := enc.put w.bytes a v }

/-- `allocate_coro_frame`, when `allocate` gives `raw`; `none` is `std::abort()` -/
def allocateCoroFrame (res frameSize : Word) (raw : Option Nat) : Option (Memory × Option Nat) :=
  if res = 0 then none
  else
    match raw with
    | none => some (w, none)
    | some a =>
      let totalSize := paddedSize + frameSize
      let w := w.lend ⟨res, a, totalSize, maxAlignOf⟩
      let w := w.storeWord enc a res
      let w := w.storeWord enc (a + 8) frameSize
      some (w, some (a + paddedSize.toNat))

/-- `deallocate_coro_frame`; `none` is the assertion on the stored resource -/
def deallocateCoroFrame (frame : Option Nat) (frameSize : Word) : Option Memory :=
  match frame with
  | none => some w
  | some f =>
    let raw := f - paddedSize.toNat
    let header : CoroFrameHeader := ⟨enc.get w.bytes raw, enc.get w.bytes (raw + 8)⟩
    if header.resource = 0 then none
    else some (w.giveBack ⟨header.resource, raw, paddedSize + frameSize, maxAlignOf⟩)

/-- `deallocate_coro_frame_unsized` -/
def deallocateCoroFrameUnsized (frame : Option Nat) : Option Memory :=
  match frame with
  | none => some w
  | some f =>
    let raw := f - paddedSize.toNat
    let header : CoroFrameHeader := ⟨enc.get w.bytes raw, enc.get w.bytes (raw + 8)⟩
    if header.resource = 0 then none
    else some (w.giveBack ⟨header.resource, raw, paddedSize + header.frameSize, maxAlignOf⟩)

/-- `operator new` -/
def operatorNew (size : Word) (args : List FrameArg) (raw : Option Nat) :
    Option (Memory × Option Nat) :=
  (extractResourceOrAbort args).bind fun res => w.allocateCoroFrame enc res size raw

/-- `pmr_make_message`, when `allocate` gives `raw`; `none` is the assertion of `make_message` on
the resource -/
def pmrMakeMessage (res sizeOfMessage : Word) (raw : Nat) : Option (Memory × Nat) :=
  if res = 0 then none
  else
    let total := kFront + sizeOfMessage
    let w := w.lend ⟨res, raw, total, kAllocAlign⟩
    let w := w.storeWord enc raw res
    let w := w.storeWord enc (raw + 8) total
    some (w, raw + kFront.toNat)

/-- `message_deleter` -/
def messageDeleter (p : Option Nat) : Memory :=
  match p with
  | none => w
  | some p =>
    let base := p - kFront.toNat
    let hdr : BlockHdr := ⟨enc.get w.bytes base, enc.get w.bytes (base + 8)⟩
    w.giveBack ⟨hdr.r, base, hdr.total, kAllocAlign⟩

end Memory

/-! ## Steps -/

inductive Action
  /-- a coroutine is called, and the resource gives `raw` -/
  | new (size : Word) (args : List FrameArg) (raw : Option Nat)
  /-- a message is made -/
  | make (size res : Word) (raw : Nat)
  /-- the `i`-th object is written to: by its coroutine, or as a message -/
  | write (i offset : Nat) (bs : List Byte)
  /-- others write outside of the blocks that are lent -/
  | foreign (a : Nat) (bs : List Byte)
  /-- the `i`-th object, a frame, is destroyed by `operator delete` with its size or without -/
  | delete (i : Nat)
  | deleteUnsized (i : Nat)
  /-- the `i`-th object, a message, is deleted -/
  | discard (i : Nat)

namespace Memory
variable (w : Memory)

/-- what a resource may give: an aligned block apart from those that are lent.  The compiler makes
no object that is as large as the address space. -/
def Offered (k : Kind) (size : Word) (a : Nat) : Prop :=
  size.toNat + k.front.toNat < 2 ^ 64 ∧ k.align.toNat ∣ a ∧
    ∀ b ∈ w.lent, Range.Apart ⟨a, (k.front + size).toNat⟩ b.range

instance (k : Kind) (size : Word) (a : Nat) : Decidable (w.Offered k size a) :=
  inferInstanceAs (Decidable (_ ∧ _ ∧ _))

/-- the object at `a` is there -/
def add (k : Kind) (size res : Word) (a : Nat) : Memory :=
  { w with objects := ⟨k, a, size, res, load w.bytes a size.toNat⟩ :: w.objects }

/-- the `i`-th object is not there any more -/
def remove (i : Nat) : Memory := { w with objects := w.objects.eraseIdx i }

/-- the `i`-th object, if it is a `k` -/
def find (k : Kind) (i : Nat) : Option Object := w.objects[i]?.filter fun o => o.kind = k

end Memory

def step (w : Memory) : Action → Option Memory
  | .new size args raw =>
    if ∀ a ∈ raw, w.Offered .frame size a then
      (w.operatorNew enc size args raw).map fun
        | (w', none) => w'
        | (w', some a) => w'.add .frame size (extractResourceFromArgs args) a
    else none
  | .make size res raw =>
    if w.Offered .message size raw then
      (w.pmrMakeMessage enc res size raw).map fun (w', a) => w'.add .message size res a
    else none
  | .write i offset bs =>
    w.objects[i]?.bind fun o =>
      if offset + bs.length ≤ o.size.toNat then
        some { w with
          bytes := store w.bytes (o.address + offset) bs
          objects := w.objects.set i { o with
            content := o.content.take offset ++ bs ++ o.content.drop (offset + bs.length) } }
      else none
  | .foreign a bs =>
    if ∀ b ∈ w.lent, Range.Apart ⟨a, bs.length⟩ b.range then
      some { w with bytes := store w.bytes a bs }
    else none
  | .delete i =>
    (w.find .frame i).bind fun o =>
      (w.deallocateCoroFrame enc (some o.address) o.size).map (·.remove i)
  | .deleteUnsized i =>
    (w.find .frame i).bind fun o =>
      (w.deallocateCoroFrameUnsized enc (some o.address)).map (·.remove i)
  | .discard i =>
    (w.find .message i).map fun o => (w.messageDeleter enc (some o.address)).remove i

end ActorZeta.Allocation
