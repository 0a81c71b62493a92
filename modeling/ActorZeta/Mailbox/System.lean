import ActorZeta.Lib.Pool
import ActorZeta.Mailbox.Default

/-!
# default_mailbox: any number of producers against one consumer

* `Ledger`      the mailbox, with the messages that were accepted, returned and destroyed so far;
* a producer    a message inside `push_back_impl`;
* `Consumer`    the one thread that pops, counts, blocks, unblocks and at last closes;
* `Post.step`   one access to the inbox head by either side; the lists are the consumer's own, so
                what it does to them is part of the step before.

The consumer may fetch only from an inbox that is neither blocked nor closed: its `fetch_more`
asserts it.
-/

namespace ActorZeta

/-- the mailbox and its accounts, each in the order of the events -/
structure Ledger (β : Type) where
  box : Mailbox β
  accepted : List (Message β)
  returned : List (Message β)
  bounced : List (Message β)
  refused : List (Message β)
  deriving DecidableEq

/-- what an operation of the consumer answered -/
inductive Answer (β : Type) where
  | popped (m : Option (Message β))
  | size (n : Nat)
  | tryBlock (ok : Bool)
  | tryUnblock (ok : Bool)
  deriving DecidableEq

/-- the operations of the consumer -/
inductive MailboxOp where
  | pop
  | size
  | tryBlock
  | tryUnblock
  | close
  deriving DecidableEq, Repr

/-- where the consumer is -/
inductive Reader (β : Type) where
  | idle (last : Option (Answer β))
  | popping (t : TakeHead β)
  | sizing (t : TakeHead β)
  | closing (t : TakeHead β) (count : Nat)
  | closed (count : Nat)
  deriving DecidableEq

namespace Ledger
variable {β : Type}

def empty : Ledger β := ⟨.empty, [], [], [], []⟩

/-- the ledger after an access of `push_front` -/
def pushed (led : Ledger β) (m : Message β) (b : Inbox β) : Push → Ledger β
  | .done .queueClosed => { led with refused := led.refused ++ [m] }
  | .done _ => { led with box := { led.box with inbox := b }, accepted := led.accepted ++ [m] }
  | _ => led

/-- the turn of the loop in `pop_front_impl` -/
def popTurn (led : Ledger β) : Ledger β × Reader β :=
  match led.box.popCached with
  | some (m, box) =>
    ({ led with box := box, returned := led.returned ++ [m] }, .idle (some (.popped (some m))))
  | none => (led, .popping .load)

/-- the beginning of an operation -/
def start (led : Ledger β) : MailboxOp → Ledger β × Reader β
  | .pop => led.popTurn
  | .size => (led, .sizing .load)
  | .tryBlock =>
    ({ led with box := led.box.tryBlock.2 }, .idle (some (.tryBlock led.box.tryBlock.1)))
  | .tryUnblock =>
    ({ led with box := led.box.tryUnblock.2 }, .idle (some (.tryUnblock led.box.tryUnblock.1)))
  | .close => ({ led with box := led.box.drained,
                          bounced := led.bounced ++ (led.box.urgent ++ led.box.normal) },
      .closing .load led.box.cached)

/-- the consumer goes on with the operation it is inside of -/
def go (weak : Bool) (led : Ledger β) : Reader β → Option (Ledger β × Reader β)
  | .popping t => (led.box.fetchStep weak t).map fun r => match r.2 with
    | .done [] => ({ led with box := r.1 }, .idle (some (.popped none)))
    | .done _ => popTurn { led with box := r.1 }
    | t => ({ led with box := r.1 }, .popping t)
  | .sizing t => (led.box.fetchStep weak t).map fun r => match r.2 with
    | .done _ => ({ led with box := r.1 }, .idle (some (.size r.1.cached)))
    | t => ({ led with box := r.1 }, .sizing t)
  | .closing t n => (led.box.closeStep weak t).map fun r => match r.2 with
    | .done chain =>
      ({ led with box := r.1, bounced := led.bounced ++ chain }, .closed (n + chain.length))
    | t => ({ led with box := r.1 }, .closing t n)
  | _ => none

end Ledger

/-- a producer: its message, and where it is in `push_back_impl` -/
abbrev Producing (β : Type) := Message β × Push

/-- a mailbox with its producers and its consumer -/
structure Post (β : Type) where
  conf : TS.Conf (Ledger β) (Producing β)
  reader : Reader β

inductive PostAct (β : Type) where
  | send (m : Message β)
  | produce (i : Nat)
  | call (op : MailboxOp)
  | go (weak : Bool)
  deriving DecidableEq

/-- the consumer begins an operation or goes on with it -/
def PostAct.byConsumer {β : Type} : PostAct β → Bool
  | .call _ | .go _ => true
  | _ => false

namespace Post
variable {β : Type}

/-- one access of a producer -/
def produce (_ : Unit) (led : Ledger β) (t : Producing β) : Option (Ledger β × Producing β) :=
  (t.2.step led.box.inbox t.1).map fun r => (led.pushed t.1 r.1 r.2, (t.1, r.2))

def init : Post β := ⟨⟨.empty, []⟩, .idle none⟩

def led (s : Post β) : Ledger β := s.conf.sh
def prods (s : Post β) : List (Producing β) := s.conf.pool

def step (s : Post β) : PostAct β → Option (Post β)
  | .send m => (s.conf.step (fun led _ => some led) produce (.spawn (m, .load))).map
      fun c => { s with conf := c }
  | .produce i => (s.conf.step (fun led _ => some led) produce (.run i ())).map
      fun c => { s with conf := c }
  | .call op => match s.reader with
    | .idle _ => some ⟨⟨(s.led.start op).1, s.prods⟩, (s.led.start op).2⟩
    | _ => none
  | .go weak => (s.led.go weak s.reader).map fun r => ⟨⟨r.1, s.prods⟩, r.2⟩

end Post
end ActorZeta
