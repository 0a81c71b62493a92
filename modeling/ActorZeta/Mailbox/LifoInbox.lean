import ActorZeta.Lib.Trans
import ActorZeta.Lib.Linked
import ActorZeta.Mailbox.Atomic
import Mathlib.Logic.Function.Basic

/-!
# lifo_inbox: the word, the next pointers and the addresses

Any number of `push_front` calls against one consumer, one access to the shared memory at a time.
A node that was handed out may be freed and its address given to another push, whoever still holds
it as the head that he expects.

* `PushCall`      a call of `push_front`: one load, the write of `next`, the compare-exchange;
* `Reading`       where the consumer is;
* `Taken`         a pointer that `take_head()` returned, and what was read behind it so far;
* `LifoInbox`     the memory, the calls and the chains; `owner`, `log` and `bounced` are not in the
                  program: who may touch a node, the calls in the order in which they take effect,
                  and the pushes that have freed their node;
* `LifoInbox.step`   one access.
-/

namespace ActorZeta

/-- who may touch a node -/
inductive Owner where
  | producer (i : Nat)
  | stack
  | chain (j : Nat)
  | consumer
  deriving DecidableEq, Repr

/-- where a call of `push_front` is; behind the loop condition `last_element != eof` holds -/
inductive PushAt where
  | load
  | write (last : {x : Head // x ≠ .closedTag})
  | cas (last : {x : Head // x ≠ .closedTag})
  | bounce
  | done (r : EnqueueResult)
  deriving DecidableEq

structure PushCall (β : Type) where
  msg : Message β
  pos : PushAt
  deriving DecidableEq

/-- what the call has come to: it took effect with this result -/
def PushCall.result {β : Type} (c : PushCall β) : Option EnqueueResult :=
  match c.pos with
  | .bounce => some .queueClosed
  | .done r => some r
  | _ => none

/-- the node is still the caller's -/
def PushCall.live {β : Type} (c : PushCall β) : Bool :=
  match c.pos with
  | .done _ => false
  | _ => true

/-- where the consumer is; `taking closing last` is inside `take_head(new_head)`, with
`last_element` once it is loaded, and `closing` is `new_head == stack_closed_tag()` -/
inductive Reading where
  | idle
  | taking (closing : Bool) (last : Option Head)
  | closed
  deriving DecidableEq, Repr

/-- a pointer that was returned, and the messages read behind it so far -/
structure Taken (β : Type) where
  ptr : Option Nat
  handed : List (Message β)
  deriving DecidableEq

/-- what a call returns -/
inductive InboxReply where
  | pushed (r : EnqueueResult)
  | flag (ok : Bool)
  | pointer (p : Option Nat)
  deriving DecidableEq, Repr

/-- what the caller sees of a result -/
def InboxRet.reply {β : Type} : InboxRet β → InboxReply
  | .pushed r => .pushed r
  | .flag ok => .flag ok
  | .taken l => .pointer (l.head?.map Message.addr)

/-- a call that takes effect; `call` is the number of the push -/
structure InboxEvent (β : Type) where
  call : Option Nat
  op : InboxOp β
  ret : InboxReply
  deriving DecidableEq

structure LifoInbox (β : Type) where
  stack : Head
  next : Nat → Option Nat
  content : Nat → Message β
  owner : Nat → Option Owner
  pushes : List (PushCall β)
  reader : Reading
  chains : List (Taken β)
  log : List (InboxEvent β)
  bounced : List Nat

/-- the consumer's accesses, and those of the producers -/
inductive LifoAct (β : Type) where
  | push (m : Message β) (next : Option Nat)
  | produce (i : Nat)
  | tryBlock
  | tryUnblock
  | takeHead
  | close
  | read (weak : Bool)
  | walk (j : Nat)
  | free (a : Nat)
  deriving DecidableEq

/-- `last_element != blk ? last_element : nullptr` -/
def Head.ptr : Head → Option Nat
  | .node p => p
  | _ => none

/-- `new_head` -/
def newHead (closing : Bool) : Head := if closing then .closedTag else .emptyTag

namespace LifoInbox
variable {β : Type}

/-- an inbox at its construction, whatever the memory holds -/
def init (next : Nat → Option Nat) (content : Nat → Message β) : LifoInbox β :=
  ⟨.emptyTag, next, content, fun _ => none, [], .idle, [], [], []⟩

def setPush (s : LifoInbox β) (i : Nat) (c : PushCall β) (pos : PushAt) : LifoInbox β :=
  { s with pushes := s.pushes.set i { c with pos := pos } }

def emit (s : LifoInbox β) (call : Option Nat) (op : InboxOp β) (ret : InboxReply) : LifoInbox β :=
  { s with log := s.log ++ [⟨call, op, ret⟩] }

/-- push number `i` has seen `stack_`: the loop goes on, or the inbox is closed -/
def look (s : LifoInbox β) (i : Nat) (c : PushCall β) : LifoInbox β :=
  if h : s.stack = .closedTag then
    (s.setPush i c .bounce).emit (some i) (.push c.msg) (.pushed .queueClosed)
  else s.setPush i c (.write ⟨s.stack, h⟩)

/-- one access of push number `i` -/
def produce (s : LifoInbox β) (i : Nat) (c : PushCall β) : Option (LifoInbox β) :=
  match c.pos with
  | .load => some (s.look i c)
  | .write last =>
    let t : LifoInbox β := { s with next := Function.update s.next c.msg.addr last.1.ptr }
    some (t.setPush i c (.cas last))
  | .cas last =>
    if s.stack = last.1 then
      let t : LifoInbox β :=
        { s with stack := .node (some c.msg.addr)
                 owner := Function.update s.owner c.msg.addr (some .stack) }
      some ((t.setPush i c (.done (Push.pushed last))).emit (some i) (.push c.msg)
        (.pushed (Push.pushed last)))
    else some (s.look i c)
  | .bounce =>
    let t : LifoInbox β := { s with owner := Function.update s.owner c.msg.addr none
                                    bounced := s.bounced ++ [i] }
    some (t.setPush i c (.done .queueClosed))
  | .done _ => none

/-- `take_head(new_head)` returns `ptr` -/
def finish (s : LifoInbox β) (closing : Bool) (ptr : Option Nat) : LifoInbox β :=
  let t : LifoInbox β :=
    { s with owner := fun a =>
               if s.owner a = some .stack then some (.chain s.chains.length) else s.owner a
             reader := if closing then .closed else .idle
             chains := s.chains ++ [⟨ptr, []⟩] }
  t.emit none (if closing then .close else .takeHead) (.pointer ptr)

/-- `take_head(new_head)` has seen `stack_`: the loop goes on, or there is nothing to do -/
def glance (s : LifoInbox β) (closing : Bool) : LifoInbox β :=
  if s.stack = newHead closing then s.finish closing none
  else { s with reader := .taking closing (some s.stack) }

/-- one access of `take_head(new_head)`; `weak` is a spurious failure of the compare-exchange, and
`none` a failed assertion -/
def read (s : LifoInbox β) (weak : Bool) : Option (LifoInbox β) :=
  match s.reader with
  | .taking closing none =>
    if s.stack = .closedTag ∨ (s.stack = .blockedTag ∧ closing = false) then none
    else some (s.glance closing)
  | .taking closing (some last) =>
    if s.stack = last ∧ weak = false then
      if last = .closedTag ∨ (isEmptyOrBlockedTag last = true ∧ closing = false) then none
      else
        let t : LifoInbox β := { s with stack := newHead closing }
        some (t.finish closing (if isEmptyOrBlockedTag last then none else last.ptr))
    else some (s.glance closing)
  | _ => none

/-- one compare-exchange of the consumer -/
def exchange (s : LifoInbox β) (op : InboxOp β) (old new : Head) : Option (LifoInbox β) :=
  if s.reader = .idle then
    if s.stack = old then
      let t : LifoInbox β := { s with stack := new }
      some (t.emit none op (.flag true))
    else some (s.emit none op (.flag false))
  else none

/-- a node behind the chain number `j` is read, and handed to the consumer -/
def walk (s : LifoInbox β) (j : Nat) (c : Taken β) : Option (LifoInbox β) :=
  c.ptr.map fun a =>
    { s with owner := Function.update s.owner a (some .consumer)
             chains := s.chains.set j ⟨s.next a, c.handed ++ [s.content a]⟩ }

/-- one access; a push begins with a node that no one else owns, and the consumer frees nodes that
were handed to it -/
def step (s : LifoInbox β) : LifoAct β → Option (LifoInbox β)
  | .push m next =>
    if s.owner m.addr = none then
      some { s with next := Function.update s.next m.addr next
                    content := Function.update s.content m.addr m
                    owner := Function.update s.owner m.addr (some (.producer s.pushes.length))
                    pushes := s.pushes ++ [⟨m, .load⟩] }
    else none
  | .produce i => s.pushes[i]?.bind fun c => s.produce i c
  | .tryBlock => s.exchange .tryBlock .emptyTag .blockedTag
  | .tryUnblock => s.exchange .tryUnblock .blockedTag .emptyTag
  | .takeHead => if s.reader = .idle then some { s with reader := .taking false none } else none
  | .close => if s.reader = .idle then some { s with reader := .taking true none } else none
  | .read weak => s.read weak
  | .walk j => s.chains[j]?.bind fun c => s.walk j c
  | .free a =>
    if s.owner a = some .consumer then some { s with owner := Function.update s.owner a none }
    else none

end LifoInbox
end ActorZeta
