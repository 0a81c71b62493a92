import ActorZeta.Mailbox.System

/-!
# default_mailbox: nothing lost, nothing twice, in order

* `Account`     the accounts of the mailbox: what was accepted is what was returned, what is held
                and what the close destroyed, and within a priority it was returned in its order;
* `Account.pushed`, `.popTurn`, `.start`, `.go`   each access keeps it;
* `conservation`   the whole of it, for every run.
-/

namespace ActorZeta

namespace Reader
variable {β : Type}

/-- inside `close_impl` or past it -/
def shut : Reader β → Bool
  | .closing _ _ | .closed _ => true
  | _ => false

/-- what the consumer's place says about the close -/
def Closed (led : Ledger β) : Reader β → Prop
  | .closing _ n => led.bounced.length = n ∧ led.box.cached = 0 ∧ led.box.inbox ≠ .closed
  | .closed n => led.bounced.length = n ∧ led.box.cached = 0 ∧ led.box.inbox = .closed
  | _ => led.bounced = [] ∧ led.box.inbox ≠ .closed

theorem closed_open {led : Ledger β} {r : Reader β} (h : r.shut = false) :
    r.Closed led ↔ led.bounced = [] ∧ led.box.inbox ≠ .closed := by
  cases r with
  | closing t n => cases h
  | closed n => cases h
  | idle a => exact Iff.rfl
  | popping t => exact Iff.rfl
  | sizing t => exact Iff.rfl

end Reader

/-- the accounts, with the consumer at `r` -/
structure Account {β : Type} (led : Ledger β) (r : Reader β) : Prop where
  sorted : led.box.Sorted
  balance : led.accepted.Perm (led.returned ++ led.box.held ++ led.bounced)
  order : r.shut = false → ∀ high,
    ofPriority high led.accepted = ofPriority high led.returned ++ led.box.heldOf high
  fifo : ∀ high, ofPriority high led.returned <+: ofPriority high led.accepted
  closed : r.Closed led

namespace Account
variable {β : Type} {led : Ledger β} {r r' : Reader β} {a : Option (Answer β)}

theorem init : Account (.empty : Ledger β) (.idle none) where
  sorted := by intro high m hm; cases high <;> cases hm
  balance := List.Perm.refl _
  order := by intro _ high; cases high <;> rfl
  fifo := fun _ => List.prefix_refl _
  closed := ⟨rfl, nofun⟩

/-- the order gives the prefix -/
theorem of_order (hs : led.box.Sorted)
    (hb : led.accepted.Perm (led.returned ++ led.box.held ++ led.bounced))
    (ho : ∀ high, ofPriority high led.accepted
      = ofPriority high led.returned ++ led.box.heldOf high) (hc : r.Closed led) :
    Account led r :=
  ⟨hs, hb, fun _ => ho, fun high => ho high ▸ List.prefix_append _ _, hc⟩

/-- the accounts do not depend on where the consumer is inside of what it does -/
theorem moved (h : Account led r) (hs : r'.shut = r.shut) (hc : r'.Closed led) : Account led r' :=
  ⟨h.sorted, h.balance, fun he => h.order (hs ▸ he), h.fifo, hc⟩

/-- an access of a producer -/
theorem pushed (h : Account led r) {m : Message β} {p p' : Push} {b : Inbox β}
    (hp : p.step led.box.inbox m = some (b, p')) : Account (led.pushed m b p') r := by
  rcases Push.step_cases hp with ⟨-, rfl, last, rfl⟩ | ⟨rfl, hb, rfl⟩ | ⟨hb, rfl, rfl⟩
  · exact h
  · exact ⟨h.sorted, h.balance, h.order, h.fifo, by cases r <;> exact h.closed⟩
  · have e : led.pushed m (led.box.inbox.push m) (.done (Push.pushed led.box.inbox.head))
        = { led with box := { led.box with inbox := led.box.inbox.push m },
                     accepted := led.accepted ++ [m] } := by
      unfold Push.pushed
      split <;> rfl
    rw [e]
    have hne : led.box.inbox.push m ≠ .closed := by
      cases hi : led.box.inbox with
      | closed => exact absurd hi hb
      | blocked => exact nofun
      | stack l => exact nofun
    refine ⟨h.sorted, ?_, fun he high => ?_, fun high => ?_, ?_⟩
    · -- the message joins what is held
      have h1 : (led.returned ++ (m :: led.box.held) ++ led.bounced).Perm
          (m :: (led.returned ++ led.box.held ++ led.bounced)) := by
        rw [List.append_assoc, List.append_assoc]
        exact List.perm_middle
      have h2 := ((Mailbox.push_held led.box m hb).append_left led.returned).append_right led.bounced
      exact ((List.perm_append_singleton m _).trans (h.balance.cons m)).trans (h1.symm.trans h2.symm)
    · show ofPriority high (led.accepted ++ [m]) = _
      rw [ofPriority_append, h.order he high, Mailbox.push_heldOf led.box m hb high,
        List.append_assoc]
    · show _ <+: ofPriority high (led.accepted ++ [m])
      rw [ofPriority_append]
      exact (h.fifo high).trans (List.prefix_append _ _)
    · cases r with
      | closing t n => exact ⟨h.closed.1, h.closed.2.1, hne⟩
      | closed n => exact absurd h.closed.2.2 hb
      | idle a => exact ⟨h.closed.1, hne⟩
      | popping t => exact ⟨h.closed.1, hne⟩
      | sizing t => exact ⟨h.closed.1, hne⟩

/-- the mailbox is replaced by one that holds the same, in the same order -/
theorem rearranged (h : Account led r) (hn : r.shut = false) {box : Mailbox β} (hs : box.Sorted)
    (hp : box.held.Perm led.box.held) (ho : ∀ high, box.heldOf high = led.box.heldOf high)
    (hc : r'.Closed { led with box := box }) : Account { led with box := box } r' := by
  refine of_order hs ?_ (fun high => ?_) hc
  · exact h.balance.trans ((hp.symm.append_left _).append_right _)
  · rw [ho high]
    exact h.order hn high

/-- a message is taken from the lists -/
theorem popTurn (h : Account led r) (hn : r.shut = false) :
    Account led.popTurn.1 led.popTurn.2 := by
  have hc := (Reader.closed_open hn).mp h.closed
  unfold Ledger.popTurn
  split
  · rename_i m box hpop
    have hi := (Mailbox.popCached_some hpop).1
    refine of_order (Mailbox.popCached_sorted hpop h.sorted) ?_ (fun high => ?_)
      ⟨hc.1, by rw [hi]; exact hc.2⟩
    · have h1 := (((Mailbox.popCached_held hpop).append_left led.returned).append_right led.bounced)
      refine h.balance.trans (h1.trans ?_)
      simp
    · show ofPriority high led.accepted = ofPriority high (led.returned ++ [m]) ++ _
      rw [h.order hn high, Mailbox.popCached_heldOf hpop h.sorted high, ofPriority_append,
        List.append_assoc]
  · exact h.moved hn.symm hc

/-- blocking and unblocking: the tag changes, the messages stay -/
theorem retagged (h : Account led (.idle a)) {box : Mailbox β} {b : Inbox β} {ans : Answer β}
    (hb : box = { led.box with inbox := b }) (hc : b.chain = led.box.inbox.chain)
    (hn : b = .closed ↔ led.box.inbox = .closed) :
    Account { led with box := box } (.idle (some ans)) := by
  subst hb
  refine h.rearranged rfl h.sorted ?_ (Mailbox.heldOf_of_chain hc)
    ⟨h.closed.1, fun he => h.closed.2 (hn.mp he)⟩
  rw [Mailbox.held_of_chain hc]

/-- the consumer begins an operation -/
theorem start (h : Account led (.idle a)) (op : MailboxOp) :
    Account (led.start op).1 (led.start op).2 := by
  cases op with
  | pop => exact h.popTurn rfl
  | size => exact h.moved rfl h.closed
  | tryBlock =>
    obtain ⟨b, hb, hc, hn⟩ := led.box.tryBlock_inbox
    exact h.retagged hb hc hn
  | tryUnblock => exact h.retagged rfl (Inbox.tryUnblock_chain _) (Inbox.tryUnblock_closed _)
  | close =>
    -- the cached messages are destroyed, what is in the inbox stays held
    have hb0 := h.closed.1
    refine ⟨?_, ?_, nofun, h.fifo, ?_, rfl, h.closed.2⟩
    · intro high m hm
      cases high <;> cases hm
    · have hbal := h.balance
      rw [hb0] at hbal
      refine hbal.trans ?_
      show List.Perm _ (led.returned ++ led.box.inbox.chain ++
        (led.bounced ++ (led.box.urgent ++ led.box.normal)))
      rw [hb0]
      simp only [Mailbox.held, List.append_nil, List.nil_append, List.append_assoc]
      refine List.Perm.append_left _ ?_
      rw [← List.append_assoc]
      exact List.perm_append_comm
    · show (led.bounced ++ (led.box.urgent ++ led.box.normal)).length = led.box.cached
      rw [hb0]
      simp [Mailbox.cached]

/-- an access of `fetch_more` -/
theorem fetchStep (h : Account led r) (hn : r.shut = false) {weak : Bool} {box : Mailbox β}
    {t t' : TakeHead β} (hf : led.box.fetchStep weak t = some (box, t')) (hs : r'.shut = false) :
    Account { led with box := box } r' := by
  have hc := (Reader.closed_open hn).mp h.closed
  rcases Mailbox.fetchStep_cases hf with ⟨rfl, -⟩ | ⟨rfl, hb, -⟩ | ⟨l, -, hb, rfl, -⟩
  · exact h.moved (hs.trans hn.symm) ((Reader.closed_open hs).mpr hc)
  · exact h.moved (hs.trans hn.symm) ((Reader.closed_open hs).mpr hc)
  · exact h.rearranged hn (Mailbox.fetched_sorted h.sorted _ l) (Mailbox.fetched_held led.box l hb)
      (Mailbox.fetched_heldOf led.box l hb) ((Reader.closed_open hs).mpr ⟨hc.1, nofun⟩)

/-- an access of `close_impl` -/
theorem closeStep {t t' : TakeHead β} {n : Nat} (h : Account led (.closing t n)) {weak : Bool}
    {box : Mailbox β} (hf : led.box.closeStep weak t = some (box, t')) :
    (led.box = box ∧ ∃ last, t' = .cas last) ∨
    ∃ chain, t' = .done chain ∧
      Account { led with box := box, bounced := led.bounced ++ chain }
        (.closed (n + chain.length)) := by
  obtain ⟨hlen, hcached, hopen⟩ := h.closed
  rcases Mailbox.closeStep_cases hf with ⟨rfl, hl⟩ | ⟨rfl, hb, -⟩ | ⟨hb, rfl, rfl⟩
  · exact Or.inl ⟨rfl, hl⟩
  · exact absurd hb hopen
  · refine Or.inr ⟨_, rfl, h.sorted, ?_, nofun, h.fifo, ?_, hcached, rfl⟩
    · refine h.balance.trans ?_
      obtain ⟨hu, hm⟩ := Mailbox.cached_zero.mp hcached
      simp only [Mailbox.held, hu, hm, Inbox.chain, List.nil_append, List.append_nil,
        List.append_assoc]
      exact List.Perm.append_left _ List.perm_append_comm
    · show (led.bounced ++ led.box.inbox.chain).length = _
      rw [List.length_append, hlen]

/-- the consumer goes on -/
theorem go (h : Account led r) {weak : Bool} {led' : Ledger β}
    (hg : led.go weak r = some (led', r')) : Account led' r' := by
  cases r with
  | idle ans => cases hg
  | closed n => cases hg
  | popping t =>
    obtain ⟨⟨box, t'⟩, hf, he⟩ := Option.map_eq_some_iff.mp hg
    split at he
    · cases he; exact h.fetchStep rfl hf rfl
    · have ht : Account { led with box := box } (.popping .load) := h.fetchStep rfl hf rfl
      have hp := ht.popTurn rfl
      rw [show Ledger.popTurn { led with box := box } = (led', r') from he] at hp
      exact hp
    · cases he; exact h.fetchStep rfl hf rfl
  | sizing t =>
    obtain ⟨⟨box, t'⟩, hf, he⟩ := Option.map_eq_some_iff.mp hg
    split at he
    · cases he; exact h.fetchStep rfl hf rfl
    · cases he; exact h.fetchStep rfl hf rfl
  | closing t n =>
    obtain ⟨⟨box, t'⟩, hf, he⟩ := Option.map_eq_some_iff.mp hg
    rcases h.closeStep hf with ⟨hb, last, rfl⟩ | ⟨chain, rfl, ht⟩
    · cases he
      show Account { led with box := box } _
      rw [← hb]
      exact h.moved rfl h.closed
    · cases he; exact ht

end Account

/-! ## runs -/

namespace Post
variable {β : Type}

/-- the message of a producer whose push succeeded -/
def acceptedMessage : Producing β → Option (Message β)
  | (_, .done .queueClosed) => none
  | (m, .done _) => some m
  | _ => none

/-- the message of a producer whose push was refused -/
def refusedMessage : Producing β → Option (Message β)
  | (m, .done .queueClosed) => some m
  | _ => none

structure Inv (s : Post β) : Prop where
  account : Account s.led s.reader
  /-- `pop_front_impl` fetches from empty lists only -/
  looking : ∀ t, s.reader = .popping t → s.led.box.cached = 0
  accepted : s.led.accepted.Perm (s.prods.filterMap acceptedMessage)
  refused : s.led.refused.Perm (s.prods.filterMap refusedMessage)

theorem inv_init : Inv (init : Post β) :=
  ⟨Account.init, nofun, List.Perm.refl _, List.Perm.refl _⟩

/-- the ledgers of a push, by what it came to -/
theorem pushed_cases {led : Ledger β} {m : Message β} {p p' : Push} {b : Inbox β}
    (hp : p.step led.box.inbox m = some (b, p')) :
    (led.pushed m b p' = led ∧ ∃ last, p' = .cas last) ∨
    (led.box.inbox = .closed ∧ p' = .done .queueClosed ∧
      led.pushed m b p' = { led with refused := led.refused ++ [m] }) ∨
    (led.box.inbox ≠ .closed ∧ (∃ ok, ok ≠ .queueClosed ∧ p' = .done ok) ∧
      led.pushed m b p' = { led with box := { led.box with inbox := b },
                                     accepted := led.accepted ++ [m] }) := by
  rcases Push.step_cases hp with ⟨-, rfl, last, rfl⟩ | ⟨rfl, hb, rfl⟩ | ⟨hb, rfl, rfl⟩
  · exact Or.inl ⟨rfl, last, rfl⟩
  · exact Or.inr (Or.inl ⟨hb, rfl, rfl⟩)
  · unfold Push.pushed
    split
    · exact Or.inr (Or.inr ⟨hb, ⟨.unblockedReader, by decide, rfl⟩, rfl⟩)
    · exact Or.inr (Or.inr ⟨hb, ⟨.success, by decide, rfl⟩, rfl⟩)

theorem step_send {s t : Post β} {m : Message β} (h : s.step (.send m) = some t) :
    t.led = s.led ∧ t.prods = s.prods ++ [(m, .load)] ∧ t.reader = s.reader := by
  simp only [step, Option.map_eq_some_iff] at h
  obtain ⟨c, hc, rfl⟩ := h
  obtain ⟨hs, hp⟩ := TS.Conf.step_spawn hc
  exact ⟨(Option.some.inj hs).symm, hp, rfl⟩

theorem step_produce {s t : Post β} {i : Nat} (h : s.step (.produce i) = some t) :
    ∃ l₁ m p l₂ b p', s.prods = l₁ ++ (m, p) :: l₂ ∧ l₁.length = i ∧
      p.step s.led.box.inbox m = some (b, p') ∧ t.led = s.led.pushed m b p' ∧
      t.prods = l₁ ++ (m, p') :: l₂ ∧ t.reader = s.reader := by
  simp only [step, Option.map_eq_some_iff] at h
  obtain ⟨c, hc, rfl⟩ := h
  obtain ⟨l₁, ⟨m, p⟩, l₂, t', hpool, hlen, he, hpool'⟩ := TS.Conf.step_run hc
  obtain ⟨⟨b, p'⟩, hstep, heq⟩ := Option.map_eq_some_iff.mp he
  obtain ⟨hsh, rfl⟩ := Prod.mk.inj heq
  exact ⟨l₁, m, p, l₂, b, p', hpool, hlen, hstep, hsh.symm, hpool', rfl⟩

theorem step_call {s t : Post β} {op : MailboxOp} (h : s.step (.call op) = some t) :
    (∃ a, s.reader = .idle a) ∧ t.led = (s.led.start op).1 ∧ t.prods = s.prods ∧
      t.reader = (s.led.start op).2 := by
  cases hr : s.reader <;> simp only [step, hr] at h <;> cases h
  exact ⟨⟨_, rfl⟩, rfl, rfl, rfl⟩

theorem step_go {s t : Post β} {weak : Bool} (h : s.step (.go weak) = some t) :
    s.led.go weak s.reader = some (t.led, t.reader) ∧ t.prods = s.prods := by
  simp only [step, Option.map_eq_some_iff] at h
  obtain ⟨⟨led, r⟩, hg, rfl⟩ := h
  exact ⟨hg, rfl⟩

/-- a message before and after its push -/
theorem unfinished {b b' : Inbox β} {m : Message β} {p p' : Push}
    (h : p.step b m = some (b', p')) :
    acceptedMessage (m, p) = none ∧ refusedMessage (m, p) = none := by
  cases p with
  | load => exact ⟨rfl, rfl⟩
  | cas last => exact ⟨rfl, rfl⟩
  | done r => cases h

/-- the consumer neither accepts nor refuses -/
theorem popTurn_accounts (led : Ledger β) :
    led.popTurn.1.accepted = led.accepted ∧ led.popTurn.1.refused = led.refused := by
  unfold Ledger.popTurn
  split <;> exact ⟨rfl, rfl⟩

theorem start_accounts (led : Ledger β) (op : MailboxOp) :
    (led.start op).1.accepted = led.accepted ∧ (led.start op).1.refused = led.refused := by
  cases op with
  | pop => exact popTurn_accounts led
  | size | tryBlock | tryUnblock | close => exact ⟨rfl, rfl⟩

theorem go_accounts {led led' : Ledger β} {weak : Bool} {r r' : Reader β}
    (h : led.go weak r = some (led', r')) :
    led'.accepted = led.accepted ∧ led'.refused = led.refused := by
  cases r with
  | idle ans => cases h
  | closed n => cases h
  | popping t =>
    obtain ⟨⟨box, t'⟩, hf, he⟩ := Option.map_eq_some_iff.mp h
    split at he
    · cases he; exact ⟨rfl, rfl⟩
    · have hp := popTurn_accounts { led with box := box }
      rw [show Ledger.popTurn { led with box := box } = (led', r') from he] at hp
      exact hp
    · cases he; exact ⟨rfl, rfl⟩
  | sizing t =>
    obtain ⟨⟨box, t'⟩, hf, he⟩ := Option.map_eq_some_iff.mp h
    split at he <;> cases he <;> exact ⟨rfl, rfl⟩
  | closing t n =>
    obtain ⟨⟨box, t'⟩, hf, he⟩ := Option.map_eq_some_iff.mp h
    split at he <;> cases he <;> exact ⟨rfl, rfl⟩

/-- one access of a producer: its message is accepted or refused, or it looks again -/
theorem inv_produce {s t : Post β} {l₁ l₂ : List (Producing β)} {m : Message β} {p p' : Push}
    {b : Inbox β} (h : Inv s) (hpool : s.prods = l₁ ++ (m, p) :: l₂)
    (hp : p.step s.led.box.inbox m = some (b, p')) (hl : t.led = s.led.pushed m b p')
    (hpool' : t.prods = l₁ ++ (m, p') :: l₂) :
    t.led.accepted.Perm (t.prods.filterMap acceptedMessage) ∧
      t.led.refused.Perm (t.prods.filterMap refusedMessage) := by
  have hA := h.accepted
  have hR := h.refused
  rw [hpool] at hA hR
  obtain ⟨hna, hnr⟩ := unfinished hp
  rw [hl, hpool']
  rcases pushed_cases hp with ⟨he, last, rfl⟩ | ⟨-, rfl, he⟩ | ⟨-, ⟨ok, hok, rfl⟩, he⟩ <;> rw [he]
  · rw [TS.filterMap_replace acceptedMessage l₁ l₂ (show acceptedMessage (m, .cas last) = _ from
        hna.symm), TS.filterMap_replace refusedMessage l₁ l₂
        (show refusedMessage (m, .cas last) = _ from hnr.symm)]
    exact ⟨hA, hR⟩
  · rw [TS.filterMap_replace acceptedMessage l₁ l₂
        (show acceptedMessage (m, .done .queueClosed) = _ from hna.symm)]
    exact ⟨hA, (hR.append_right [m]).trans
      (TS.filterMap_replace_some refusedMessage l₁ l₂ hnr rfl).symm⟩
  · have hacc : acceptedMessage (m, .done ok) = some m := by
      cases ok <;> first | rfl | exact absurd rfl hok
    have href : refusedMessage (m, .done ok) = none := by
      cases ok <;> first | rfl | exact absurd rfl hok
    rw [TS.filterMap_replace refusedMessage l₁ l₂ (href.trans hnr.symm)]
    exact ⟨(hA.append_right [m]).trans
      (TS.filterMap_replace_some acceptedMessage l₁ l₂ hna hacc).symm, hR⟩

theorem pushed_cached (led : Ledger β) (m : Message β) (b : Inbox β) (p : Push) :
    (led.pushed m b p).box.cached = led.box.cached := by
  cases p with
  | load => rfl
  | cas last => rfl
  | done r => cases r <;> rfl

theorem popTurn_looking (led : Ledger β) {t : TakeHead β} (h : led.popTurn.2 = .popping t) :
    led.popTurn.1.box.cached = 0 := by
  unfold Ledger.popTurn at h ⊢
  split at h
  · cases h
  · rename_i hp
    exact Mailbox.popCached_none.mp hp

theorem start_looking (led : Ledger β) (op : MailboxOp) {t : TakeHead β}
    (h : (led.start op).2 = .popping t) : (led.start op).1.box.cached = 0 := by
  cases op with
  | pop => exact popTurn_looking led h
  | size | tryBlock | tryUnblock | close => cases h

/-- what the consumer does inside an operation: a fetch, the end of a pop, or the close -/
theorem go_cases {led led' : Ledger β} {weak : Bool} {r r' : Reader β}
    (h : led.go weak r = some (led', r')) :
    (led'.returned = led.returned ∧ (∀ m, r' ≠ .idle (some (.popped (some m)))) ∧
      (∀ t', r' = .popping t' → ∃ t, r = .popping t ∧ led' = led) ∧
      (r' = .idle (some (.popped none)) → ∃ t, r = .popping t ∧ led.box.inbox = .stack [])) ∨
    ∃ t t' box, r = .popping t ∧ led.box.fetchStep weak t = some (box, t') ∧
      Ledger.popTurn { led with box := box } = (led', r') := by
  cases r with
  | idle ans => cases h
  | closed n => cases h
  | popping t =>
    obtain ⟨⟨box, t'⟩, hf, he⟩ := Option.map_eq_some_iff.mp h
    rcases Mailbox.fetchStep_cases hf with ⟨rfl, last, rfl⟩ | ⟨rfl, hb, rfl⟩ | ⟨l, hl, hb, rfl, rfl⟩
    · cases he
      exact Or.inl ⟨rfl, nofun, fun _ _ => ⟨t, rfl, rfl⟩, nofun⟩
    · cases he
      exact Or.inl ⟨rfl, nofun, nofun, fun _ => ⟨t, rfl, hb⟩⟩
    · cases l with
      | nil => exact absurd rfl hl
      | cons x l => exact Or.inr ⟨t, _, _, rfl, hf, he⟩
  | sizing t =>
    obtain ⟨⟨box, t'⟩, hf, he⟩ := Option.map_eq_some_iff.mp h
    split at he <;> cases he <;> exact Or.inl ⟨rfl, nofun, nofun, nofun⟩
  | closing t n =>
    obtain ⟨⟨box, t'⟩, hf, he⟩ := Option.map_eq_some_iff.mp h
    split at he <;> cases he <;> exact Or.inl ⟨rfl, nofun, nofun, nofun⟩

theorem inv_step {s t : Post β} {a : PostAct β} (h : Inv s) (hs : s.step a = some t) : Inv t := by
  cases a with
  | send m =>
    obtain ⟨hl, hp, hr⟩ := step_send hs
    refine ⟨by rw [hl, hr]; exact h.account, by rw [hl, hr]; exact h.looking, ?_, ?_⟩
    · rw [hl, hp, List.filterMap_append]
      exact (List.append_nil _).symm ▸ h.accepted
    · rw [hl, hp, List.filterMap_append]
      exact (List.append_nil _).symm ▸ h.refused
  | produce i =>
    obtain ⟨l₁, m, p, l₂, b, p', hpool, -, hstep, hl, hpool', hr⟩ := step_produce hs
    obtain ⟨hA, hR⟩ := inv_produce h hpool hstep hl hpool'
    refine ⟨by rw [hl, hr]; exact h.account.pushed hstep, ?_, hA, hR⟩
    rw [hl, hr, pushed_cached]
    exact h.looking
  | call op =>
    obtain ⟨⟨ans, hi⟩, hl, hp, hr⟩ := step_call hs
    have hacc := h.account
    rw [hi] at hacc
    obtain ⟨hA, hR⟩ := start_accounts s.led op
    refine ⟨by rw [hl, hr]; exact hacc.start op, fun t ht => ?_, ?_, ?_⟩
    · rw [hr] at ht
      rw [hl]
      exact start_looking s.led op ht
    · rw [hl, hp, hA]; exact h.accepted
    · rw [hl, hp, hR]; exact h.refused
  | go weak =>
    obtain ⟨hg, hp⟩ := step_go hs
    obtain ⟨hA, hR⟩ := go_accounts hg
    refine ⟨h.account.go hg, fun t' ht => ?_, ?_, ?_⟩
    · rcases go_cases hg with ⟨-, -, hk, -⟩ | ⟨u, u', box, -, -, hpop⟩
      · obtain ⟨u, hu, hled⟩ := hk t' ht
        rw [hled]
        exact h.looking u hu
      · have hl := popTurn_looking { s.led with box := box } (t:=t') (by rw [hpop]; exact ht)
        rwa [hpop] at hl
    · rw [hp, hA]; exact h.accepted
    · rw [hp, hR]; exact h.refused

theorem inv_of_run {as : List (PostAct β)} {s : Post β} (h : TS.run step init as = some s) : Inv s :=
  TS.run_inv (fun _ _ _ => inv_step) inv_init h

/-! ## single steps -/

/-- a pop that takes a normal message leaves no urgent one fetched -/
theorem popTurn_normal {led : Ledger β} (hs : led.box.Sorted) {m : Message β}
    (h : led.popTurn.1.returned = led.returned ++ [m]) (hm : m.isHighPriority = false) :
    led.popTurn.1.box.urgent = [] := by
  unfold Ledger.popTurn at h ⊢
  split at h
  · rename_i x box hpop
    have hx : x = m := by simpa using h
    subst hx
    obtain ⟨-, ⟨hu, -⟩ | ⟨-, hu', -⟩⟩ := Mailbox.popCached_some hpop
    · have hxu : x.isHighPriority = true := hs true x (by show x ∈ led.box.urgent; rw [hu]; simp)
      rw [hxu] at hm
      cases hm
    · exact hu'
  · simp at h

theorem step_normal {s t : Post β} {a : PostAct β} (h : Inv s) (hs : s.step a = some t)
    {m : Message β} (hr : t.led.returned = s.led.returned ++ [m])
    (hm : m.isHighPriority = false) : t.led.box.urgent = [] := by
  cases a with
  | send m' =>
    obtain ⟨hl, -⟩ := step_send hs
    rw [hl] at hr
    simp at hr
  | produce i =>
    obtain ⟨l₁, m', p, l₂, b, p', -, -, hstep, hl, -⟩ := step_produce hs
    rw [hl] at hr
    rcases pushed_cases hstep with ⟨he, -⟩ | ⟨-, -, he⟩ | ⟨-, -, he⟩ <;> rw [he] at hr <;> simp at hr
  | call op =>
    obtain ⟨-, hl, -⟩ := step_call hs
    rw [hl] at hr ⊢
    cases op with
    | pop => exact popTurn_normal h.account.sorted hr hm
    | size | tryBlock | tryUnblock | close => simp [Ledger.start] at hr
  | go weak =>
    obtain ⟨hg, -⟩ := step_go hs
    rcases go_cases hg with ⟨he, -⟩ | ⟨u, u', box, hu, hf, hpop⟩
    · rw [he] at hr
      simp at hr
    · have ht : Account { s.led with box := box } (.popping .load) :=
        h.account.fetchStep (by rw [hu]; rfl) hf rfl
      have hsorted := ht.sorted
      have hn := popTurn_normal hsorted (m:=m) (by rw [hpop]; exact hr) hm
      rwa [hpop] at hn

/-- a pop takes a fetched message and answers it, or goes to the inbox -/
theorem popTurn_answer (led : Ledger β) :
    (led.popTurn.1.returned = led.returned ∧ led.popTurn.2 = .popping .load) ∨
    ∃ m, led.popTurn.1.returned = led.returned ++ [m] ∧
      led.popTurn.2 = .idle (some (.popped (some m))) := by
  unfold Ledger.popTurn
  split
  · rename_i m box hpop
    exact Or.inr ⟨m, rfl, rfl⟩
  · exact Or.inl ⟨rfl, rfl⟩

/-- what a step of the consumer says of the message that it hands out -/
def Tells (s t : Post β) : Prop :=
  (t.led.returned = s.led.returned ∧ ∀ m, t.reader ≠ .idle (some (.popped (some m)))) ∨
    ∃ m, t.led.returned = s.led.returned ++ [m] ∧ t.reader = .idle (some (.popped (some m)))

theorem Tells.answered {s t : Post β} (h : Tells s t) {m : Message β} :
    t.reader = .idle (some (.popped (some m))) ↔ t.led.returned = s.led.returned ++ [m] := by
  rcases h with ⟨hret, hne⟩ | ⟨x, hret, hx⟩
  · refine ⟨fun hm => absurd hm (hne m), fun hm => ?_⟩
    rw [hret] at hm
    simp at hm
  · rw [hret, hx]
    constructor
    · intro hm
      cases hm
      rfl
    · intro hm
      rw [List.append_cancel_left_eq, List.cons.injEq] at hm
      rw [hm.1]

theorem call_tells {s t : Post β} {op : MailboxOp} (hs : s.step (.call op) = some t) :
    Tells s t := by
  obtain ⟨-, hl, -, hr⟩ := step_call hs
  unfold Tells
  rw [hl, hr]
  cases op with
  | pop =>
    refine (popTurn_answer s.led).imp (fun ⟨hret, hload⟩ => ⟨hret, fun m hm => ?_⟩) id
    have hm' : s.led.popTurn.2 = .idle (some (.popped (some m))) := hm
    rw [hload] at hm'
    cases hm'
  | size | tryBlock | tryUnblock | close => exact Or.inl ⟨rfl, nofun⟩

theorem go_tells {s t : Post β} {weak : Bool} (hs : s.step (.go weak) = some t) : Tells s t := by
  obtain ⟨hg, -⟩ := step_go hs
  rcases go_cases hg with ⟨hret, hne, -⟩ | ⟨u, u', box, -, -, hpop⟩
  · exact Or.inl ⟨hret, hne⟩
  · have ha := popTurn_answer { s.led with box := box }
    rw [hpop] at ha
    refine ha.imp (fun ⟨hret, hload⟩ => ⟨hret, fun m hm => ?_⟩) id
    rw [show t.reader = .popping .load from hload] at hm
    cases hm

/-- a step of the consumer -/
theorem consumer_tells {s t : Post β} {a : PostAct β} (ha : a.byConsumer = true)
    (hs : s.step a = some t) : Tells s t := by
  cases a with
  | send m => cases ha
  | produce i => cases ha
  | call op => exact call_tells hs
  | go weak => exact go_tells hs

/-- and a producer hands nothing out -/
theorem step_returned {s t : Post β} {a : PostAct β} (hs : s.step a = some t) :
    t.led.returned = s.led.returned ∨ ∃ m, a.byConsumer = true ∧
      t.led.returned = s.led.returned ++ [m] ∧ t.reader = .idle (some (.popped (some m))) := by
  cases a with
  | send m => exact Or.inl (congrArg Ledger.returned (step_send hs).1)
  | produce i =>
    obtain ⟨l₁, m, p, l₂, b, p', -, -, hstep, hl, -⟩ := step_produce hs
    rw [hl]
    rcases pushed_cases hstep with ⟨he, -⟩ | ⟨-, -, he⟩ | ⟨-, -, he⟩ <;> rw [he] <;>
      exact Or.inl rfl
  | call op => exact (call_tells hs).imp And.left fun ⟨m, h⟩ => ⟨m, rfl, h⟩
  | go weak => exact (go_tells hs).imp And.left fun ⟨m, h⟩ => ⟨m, rfl, h⟩

/-- a pop that answers null has just seen the mailbox empty -/
theorem step_null {s t : Post β} {a : PostAct β} (h : Inv s) (ha : a.byConsumer = true)
    (hs : s.step a = some t) (hn : t.reader = .idle (some (.popped none))) :
    s.led.box.held = [] := by
  cases a with
  | send m => cases ha
  | produce i => cases ha
  | call op =>
    -- no operation ends in null before its first look at the inbox
    obtain ⟨-, -, -, hr⟩ := step_call hs
    rw [hn] at hr
    cases op with
    | pop =>
      rcases popTurn_answer s.led with ⟨-, hload⟩ | ⟨m, -, hm⟩
      · rw [show (s.led.start .pop).2 = .popping .load from hload] at hr
        cases hr
      · rw [show (s.led.start .pop).2 = .idle (some (.popped (some m))) from hm] at hr
        cases hr
    | size | tryBlock | tryUnblock | close => cases hr
  | go weak =>
    obtain ⟨hg, -⟩ := step_go hs
    rcases go_cases hg with ⟨-, -, -, hk⟩ | ⟨u, u', box, -, -, hpop⟩
    · obtain ⟨u, hu, hb⟩ := hk hn
      obtain ⟨hu', hm'⟩ := Mailbox.cached_zero.mp (h.looking u hu)
      simp [Mailbox.held, hu', hm', hb, Inbox.chain]
    · have h2 : (Ledger.popTurn { s.led with box := box }).2 = .idle (some (.popped none)) := by
        rw [hpop]; exact hn
      rcases popTurn_answer { s.led with box := box } with ⟨-, hload⟩ | ⟨m, -, hm⟩
      · rw [hload] at h2
        cases h2
      · rw [hm] at h2
        cases h2

/-- a closed inbox refuses: the next access of every producer destroys its message -/
theorem step_closed {s t : Post β} {a : PostAct β} (h : Inv s) (hs : s.step a = some t)
    (hc : s.led.box.inbox = .closed) :
    t.led.box.inbox = .closed ∧ t.led.accepted = s.led.accepted ∧
      ∀ i, a = .produce i → ∃ m p, s.prods[i]? = some (m, p) ∧
        t.prods[i]? = some (m, .done .queueClosed) ∧ t.led.refused = s.led.refused ++ [m] := by
  have hshut : ∃ n, s.reader = .closed n := by
    have hcl := h.account.closed
    cases hr : s.reader <;> rw [hr] at hcl
    · exact absurd hc hcl.2
    · exact absurd hc hcl.2
    · exact absurd hc hcl.2
    · exact absurd hc hcl.2.2
    · exact ⟨_, rfl⟩
  obtain ⟨n, hr⟩ := hshut
  cases a with
  | send m =>
    obtain ⟨hl, -⟩ := step_send hs
    rw [hl]
    exact ⟨hc, rfl, nofun⟩
  | produce i =>
    obtain ⟨l₁, m, p, l₂, b, p', hpool, hlen, hstep, hl, hpool', -⟩ := step_produce hs
    rcases Push.step_cases hstep with ⟨hb, -⟩ | ⟨rfl, hb, rfl⟩ | ⟨hb, -⟩
    · exact absurd hc hb
    · rw [hl]
      refine ⟨hc, rfl, fun j hj => ?_⟩
      cases hj
      refine ⟨m, p, ?_, ?_, rfl⟩
      · rw [hpool, ← hlen]; simp
      · rw [hpool', ← hlen]; simp
    · exact absurd hc hb
  | call op =>
    obtain ⟨⟨ans, hi⟩, -⟩ := step_call hs
    rw [hr] at hi
    cases hi
  | go weak =>
    obtain ⟨hg, -⟩ := step_go hs
    rw [hr] at hg
    cases hg

/-! ## the whole of it -/

/-- what a mailbox owes its users -/
structure Conserved (s : Post β) : Prop where
  /-- the accepted messages are the returned ones, the held ones and those the close destroyed -/
  balance : s.led.accepted.Perm (s.led.returned ++ s.led.box.held ++ s.led.bounced)
  /-- the accepted messages are those whose push succeeded -/
  accepted : s.led.accepted.Perm (s.prods.filterMap acceptedMessage)
  /-- the messages whose push was refused are destroyed, each once -/
  refused : s.led.refused.Perm (s.prods.filterMap refusedMessage)
  /-- within a priority the messages are returned in the order of their pushes -/
  fifo : ∀ high, ofPriority high s.led.returned <+: ofPriority high s.led.accepted
  /-- a normal message is returned only with no urgent one fetched -/
  urgentFirst : ∀ a t m, s.step a = some t → t.led.returned = s.led.returned ++ [m] →
    m.isHighPriority = false → t.led.box.urgent = []
  /-- a pop answers the message that it takes out, and takes out none without answering it -/
  answered : ∀ a t, a.byConsumer = true → s.step a = some t →
    ∀ m, t.reader = .idle (some (.popped (some m))) ↔ t.led.returned = s.led.returned ++ [m]
  returned : ∀ a t, s.step a = some t → t.led.returned = s.led.returned ∨
    ∃ m, a.byConsumer = true ∧ t.led.returned = s.led.returned ++ [m] ∧
      t.reader = .idle (some (.popped (some m)))
  /-- a pop goes to the inbox only when nothing fetched is left -/
  looking : ∀ t, s.reader = .popping t → s.led.box.urgent = [] ∧ s.led.box.normal = []
  /-- and answers null only when its last look at the inbox found nothing left -/
  null : ∀ a t, a.byConsumer = true → s.step a = some t →
    t.reader = .idle (some (.popped none)) → s.led.box.held = []
  /-- the close answers the number of messages it destroyed, which are all that were left -/
  closed : ∀ n, s.reader = .closed n → n = s.led.bounced.length ∧
    s.led.accepted.Perm (s.led.returned ++ s.led.bounced)
  /-- a closed inbox stays closed, and every push is refused at its next access -/
  late : ∀ a t, s.step a = some t → s.led.box.inbox = .closed →
    t.led.box.inbox = .closed ∧ t.led.accepted = s.led.accepted ∧
      ∀ i, a = .produce i → ∃ m p, s.prods[i]? = some (m, p) ∧
        t.prods[i]? = some (m, .done .queueClosed) ∧ t.led.refused = s.led.refused ++ [m]

/-- **Conservation and order**, in every run of any number of producers and one consumer. -/
theorem conservation (as : List (PostAct β)) (s : Post β) (h : TS.run step init as = some s) :
    Conserved s := by
  have hI := inv_of_run h
  have hbal := hI.account.balance
  refine ⟨hbal, hI.accepted, hI.refused, hI.account.fifo, fun a t m hs => step_normal hI hs,
    fun a t ha hs m => (consumer_tells ha hs).answered, fun a t hs => step_returned hs,
    fun t ht => Mailbox.cached_zero.mp (hI.looking t ht), fun a t ha hs => step_null hI ha hs,
    fun n hr => ?_, fun a t hs => step_closed hI hs⟩
  have hc := hI.account.closed
  rw [hr] at hc
  obtain ⟨hlen, hcached, hin⟩ := hc
  obtain ⟨hu, hm⟩ := Mailbox.cached_zero.mp hcached
  refine ⟨hlen.symm, ?_⟩
  simpa [Mailbox.held, hu, hm, hin, Inbox.chain] using hbal

/-- a normal message, an urgent one pushed after it, two pops, a third one that answers null, two
more messages, the close, and a push too late -/
def latePush : List (PostAct Unit) :=
  [.send ⟨8, 1 <<< 60, ()⟩, .send ⟨16, 0, ()⟩, .produce 0, .produce 0, .produce 1, .produce 1,
    .call .pop, .go false, .go false, .call .pop, .call .pop, .go false,
    .send ⟨24, 0, ()⟩, .send ⟨32, 1 <<< 60, ()⟩, .produce 2, .produce 3, .produce 3, .produce 2,
    .produce 2, .call .close, .go false, .go false, .send ⟨40, 0, ()⟩, .produce 4]

theorem conservation_late_push :
    ∃ s, TS.run step init latePush = some s ∧
      s.led.returned.map Message.addr = [16, 8] ∧ s.led.bounced.map Message.addr = [24, 32] ∧
      s.led.refused.map Message.addr = [40] ∧ s.reader = .closed 2 ∧ Conserved s :=
  ⟨_, rfl, rfl, rfl, rfl, rfl, conservation latePush _ rfl⟩

end Post
end ActorZeta
