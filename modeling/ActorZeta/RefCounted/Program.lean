import ActorZeta.Lib.Pool
import ActorZeta.Lib.Tally
import Mathlib.Logic.Function.Basic

/-!
# ref_counted and intrusive_ptr: handles in any number of threads

An object is its address, with `rc_` while it lives.  A thread's handles are its own, so that what
an operation writes to them is part of the step in which it begins; each access to an `rc_` is a
step.  The counts do not overflow: every reference is a pointer somewhere.

* `Doing`       where a thread is inside `ref()` or `deref()`;
* `Holder`      a thread: its handles, and the pointers it got from `new` or `detach()`;
* `Counted`     the objects; `made`, `deleted` and `undefined` are accounts: the objects made and
                deleted so far, and whether an `rc_` was touched that is gone or zero;
* `Holder.call` the operations of `intrusive_ptr`;
* `Counted.go`  one access;
* `PtrAct.exec` a step of a thread; `Counted.step` of all of them.
-/

namespace ActorZeta

/-- `ref a old` is before the `fetch_add` on `a`, and releases `old` behind it; `deref a` is before
the load of `unique()`, `sub a` before the `fetch_sub`; `delete unique a` tells which of the two
decided to delete -/
inductive Doing where
  | idle
  | ref (a : Nat) (old : Option Nat)
  | deref (a : Nat)
  | sub (a : Nat)
  | delete (unique : Bool) (a : Nat)
  deriving DecidableEq, Repr

/-- `if (old) intrusive_ptr_release(old)` -/
def Doing.release : Option Nat → Doing
  | none => .idle
  | some a => .deref a

/-- `if (raw_ptr && add_ref) intrusive_ptr_add_ref(raw_ptr)`, and then the release of `old` -/
def Doing.addRef (raw : Option Nat) (addRef : Bool) (old : Option Nat) : Doing :=
  match raw with
  | some a => if addRef then .ref a old else .release old
  | none => .release old

structure Holder where
  handles : List (Option Nat)
  raws : List Nat
  doing : Doing
  deriving DecidableEq

/-- a raw pointer that a thread may pass on: it holds a reference itself -/
inductive RawPtr where
  | null
  | get (j : Nat)
  | detached (k : Nat)

/-- the operations; `i` and `j` are handles, `k` is a detached pointer.  `assign` is the assignment
of a raw pointer, `adopt` and `resetAdopt` have `add_ref = false`. -/
inductive PtrOp where
  | null
  | fromRaw (raw : RawPtr)
  | adopt (k : Nat)
  | copy (j : Nat)
  | move (j : Nat)
  | assignCopy (i j : Nat)
  | assignMove (i j : Nat)
  | assign (i : Nat) (raw : RawPtr)
  | reset (i : Nat) (raw : RawPtr)
  | resetAdopt (i k : Nat)
  | swap (i j : Nat)
  | detach (i : Nat)
  | destroy (i : Nat)

namespace Holder

def new : Holder := ⟨[], [], .idle⟩

/-- the value of a raw pointer -/
def pointer (t : Holder) : RawPtr → Option (Option Nat)
  | .null => some none
  | .get j => t.handles[j]?
  | .detached k => t.raws[k]?.map some

/-- a new handle: `set_ptr(raw_ptr, add_ref)` -/
def construct (t : Holder) (raw : Option Nat) (addRef : Bool) : Holder :=
  { t with handles := t.handles ++ [raw], doing := .addRef raw addRef none }

/-- `reset(new_value, add_ref)` on a handle that holds `old` -/
def resetPtr (t : Holder) (i : Nat) (old raw : Option Nat) (addRef : Bool) : Holder :=
  { t with handles := t.handles.set i raw, doing := .addRef raw addRef old }

/-- `operator=(intrusive_ptr other)` on a handle that holds `old`: the copy `other` has its
reference first, and is swapped in; it dies with `old` -/
def assignCopyPtr (t : Holder) (i : Nat) (old raw : Option Nat) : Holder :=
  { t with handles := t.handles.set i raw, doing := .addRef raw true old }

/-- an operation begins; `none` when it names a handle or a pointer that is not there -/
def call (t : Holder) : PtrOp → Option Holder
  | .null => some (t.construct none false)
  | .fromRaw raw => (t.pointer raw).map fun p => t.construct p true
  | .adopt k => t.raws[k]?.map fun a =>
      { t with raws := t.raws.eraseIdx k }.construct (some a) false
  | .copy j => t.handles[j]?.map fun p => t.construct p true
  | .move j => t.handles[j]?.map fun p => { t with handles := t.handles.set j none ++ [p] }
  | .assignCopy i j => t.handles[i]?.bind fun old => t.handles[j]?.map fun p =>
      t.assignCopyPtr i old p
  | .assignMove i j => t.handles[j]?.bind fun p =>
      let u := { t with handles := t.handles.set j none }
      u.handles[i]?.map fun old =>
        { u with handles := u.handles.set i p, doing := .release old }
  | .assign i raw | .reset i raw => t.handles[i]?.bind fun old => (t.pointer raw).map fun p =>
      t.resetPtr i old p true
  | .resetAdopt i k => t.handles[i]?.bind fun old => t.raws[k]?.map fun a =>
      { t with raws := t.raws.eraseIdx k }.resetPtr i old (some a) false
  | .swap i j => t.handles[i]?.bind fun p => t.handles[j]?.map fun q =>
      { t with handles := (t.handles.set i q).set j p }
  | .detach i => t.handles[i]?.map fun p =>
      { t with handles := t.handles.set i none, raws := t.raws ++ p.toList }
  | .destroy i => t.handles[i]?.map fun old =>
      { t with handles := t.handles.eraseIdx i, doing := .release old }

end Holder

/-- the objects, and the pointers that are on their way from one thread to another -/
structure Counted where
  rc : Nat → Option Nat
  passed : List Nat
  made : List Nat
  deleted : List Nat
  undefined : Bool

namespace Counted

def init : Counted := ⟨fun _ => none, [], [], [], false⟩

def setRc (w : Counted) (a : Nat) (n : Option Nat) : Counted :=
  { w with rc := Function.update w.rc a n }

/-- a thread touches an `rc_`, which its assertion wants to be positive -/
def touch (w : Counted) (t : Holder) (a : Nat) (f : Nat → Counted × Doing) : Counted × Holder :=
  match w.rc a with
  | some (n + 1) => ((f (n + 1)).1, { t with doing := (f (n + 1)).2 })
  | _ => ({ w with undefined := true }, { t with doing := .idle })

/-- one access of a thread that is inside an operation -/
def go (w : Counted) (t : Holder) : Option (Counted × Holder) :=
  match t.doing with
  | .idle => none
  | .ref a old => some (w.touch t a fun n => (w.setRc a (some (n + 1)), .release old))
  | .deref a => some (w.touch t a fun n => (w, if n = 1 then .delete true a else .sub a))
  | .sub a => some (w.touch t a fun n =>
      (w.setRc a (some (n - 1)), if n = 1 then .delete false a else .idle))
  | .delete _ a => match w.rc a with
    | some _ => some ({ w.setRc a none with deleted := w.deleted ++ [a] }, { t with doing := .idle })
    | none => some ({ w with undefined := true }, { t with doing := .idle })

end Counted

/-- what a thread does next: an operation, `new`, a pointer given to or taken from another thread,
or the next access of the operation it is inside of -/
inductive PtrAct where
  | call (op : PtrOp)
  | make (a : Nat)
  | pass (k : Nat)
  | take (k : Nat)
  | go

/-- a step of a thread -/
def PtrAct.exec (g : PtrAct) (w : Counted) (t : Holder) : Option (Counted × Holder) :=
  match g with
  | .go => w.go t
  | .call op => if t.doing = .idle then (t.call op).map fun t => (w, t) else none
  | .make a =>
    if t.doing = .idle ∧ w.rc a = none then
      some ({ w.setRc a (some 1) with made := w.made ++ [a] }, { t with raws := t.raws ++ [a] })
    else none
  | .pass k => if t.doing = .idle then t.raws[k]?.map fun a =>
      ({ w with passed := w.passed ++ [a] }, { t with raws := t.raws.eraseIdx k }) else none
  | .take k => if t.doing = .idle then w.passed[k]?.map fun a =>
      ({ w with passed := w.passed.eraseIdx k }, { t with raws := t.raws ++ [a] }) else none

/-- a thread starts without handles -/
def PtrAct.enter (w : Counted) (t : Holder) : Option Counted := if t = .new then some w else none

/-- a step of the threads together -/
abbrev Counted.step (c : TS.Conf Counted Holder) (a : TS.PoolAct Holder PtrAct) :
    Option (TS.Conf Counted Holder) := c.step PtrAct.enter PtrAct.exec a

end ActorZeta
