import ActorZeta.Actor.Assertions
import ActorZeta.Lib.Simulation
import ActorZeta.Mailbox.Conservation

/-!
# The actor is the one consumer of its mailbox

`default_mailbox` promises its order to any number of producers and one consumer.  An actor has any
number of drivers, and a destructor; to the mailbox they are one consumer, who fetches only when he
may.

* `Thread.reading`   where a thread is inside of an operation of the consumer;
* `LedgerOf`        the mailbox of the actor and its accounts;
* `Access`       what the step of a thread is to the mailbox: nothing, an operation begun, or a step
                 inside of one;
* `Uses`         the actor and the mailbox with its one consumer, side by side;
* `uses_simulates`   every step of a run in time is answered there;
* `single_consumer`  so the mailbox keeps its promise.
-/

namespace ActorZeta

/-! ## where the consumer is -/

namespace Reader
variable {β : Type}

/-- without the last answer, and without the count of the close -/
def plain : Reader β → Reader β
  | .idle _ => .idle none
  | .closing t _ => .closing t 0
  | .closed _ => .closed 0
  | r => r

theorem plain_idle {r : Reader β} (h : r.plain = .idle none) : ∃ a, r = .idle a := by
  cases r with
  | idle a => exact ⟨a, rfl⟩
  | _ => cases h

theorem plain_popping {r : Reader β} {t : TakeHead β} (h : r.plain = .popping t) :
    r = .popping t := by
  cases r with
  | popping u => exact h
  | _ => cases h

theorem plain_sizing {r : Reader β} {t : TakeHead β} (h : r.plain = .sizing t) :
    r = .sizing t := by
  cases r with
  | sizing u => exact h
  | _ => cases h

theorem plain_closing {r : Reader β} {t : TakeHead β} (h : r.plain = .closing t 0) :
    ∃ n, r = .closing t n := by
  cases r with
  | closing u n =>
    cases h
    exact ⟨n, rfl⟩
  | _ => cases h

end Reader

/-- inside `pop_front()` or `empty()` -/
def RunPc.reading {β : Type} : RunPc β → Reader β
  | .fetching (.pop _) t => .popping t
  | .fetching _ t => .sizing t
  | _ => .idle none

/-- inside `close()` -/
def Destructor.reading {β : Type} : Destructor β → Reader β
  | .closing t => .closing t 0
  | .finished => .closed 0
  | _ => .idle none

def Thread.reading {β T X : Type} : Thread β T X → Reader β
  | .send _ => .idle none
  | .run r => r.pc.reading
  | .delete x => x.reading

/-- whoever is at the mailbox as its consumer holds `running`, or is past the drain -/
theorem Thread.reading_inside {β T X : Type} {t : Thread β T X} (h : t.reading ≠ .idle none) :
    t.role.holds = true ∨ t.role = .deleting true := by
  cases t with
  | send s => exact absurd rfl h
  | run r =>
    obtain ⟨max, node, pc⟩ := r
    cases pc with
    | fetching w t => cases w <;> exact Or.inl rfl
    | _ => exact absurd rfl h
  | delete x =>
    cases x with
    | closing t => exact Or.inr rfl
    | finished => exact Or.inr rfl
    | _ => exact absurd rfl h

/-! ## one step -/

section
variable {β : Type} {led led' : Ledger β} {r r' : Reader β} {m m' : ActorMem β}

/-- the ledger of the actor's mailbox -/
structure LedgerOf (led : Ledger β) (m : ActorMem β) : Prop where
  box : led.box = m.box
  accepted : led.accepted = m.accepted
  returned : led.returned = m.popped

/-- what a step of the actor is to the mailbox -/
inductive Access (led : Ledger β) (r : Reader β) : Ledger β → Reader β → Prop
  | skip : Access led r led r
  | call (op : MailboxOp) : (∃ a, r = .idle a) → Access led r (led.start op).1 (led.start op).2
  | go {weak : Bool} {q : Ledger β × Reader β} : led.go weak r = some q → Access led r q.1 q.2

/-- the step is one of the consumer, who comes to `place` -/
def Answered (led : Ledger β) (r : Reader β) (m' : ActorMem β) (place : Reader β) : Prop :=
  ∃ led' r', Access led r led' r' ∧ LedgerOf led' m' ∧ r'.plain = place

theorem Answered.skip {place : Reader β} (hb : LedgerOf led m') (hr : r.plain = place) :
    Answered led r m' place := ⟨led, r, .skip, hb, hr⟩

/-- the two list pops of `pop_front()` -/
theorem popTurn_ledger {n : Nat} {pc : RunPc β} (hb : LedgerOf led m)
    (h : Runner.popTurn m n = (m', pc)) :
    LedgerOf led.popTurn.1 m' ∧ led.popTurn.2.plain = pc.reading := by
  unfold Runner.popTurn at h
  unfold Ledger.popTurn
  rw [hb.box]
  cases hp : m.box.popCached with
  | some p =>
    rw [hp] at h
    cases h
    exact ⟨⟨rfl, hb.accepted, congrArg (· ++ [_]) hb.returned⟩, rfl⟩
  | none =>
    rw [hp] at h
    cases h
    exact ⟨hb, rfl⟩

theorem Answered.go (weak : Bool) {q : Ledger β × Reader β} (hq : led.go weak r = some q)
    (hb : LedgerOf q.1 m') : Answered led r m' q.2.plain := ⟨_, _, .go hq, hb, rfl⟩

/-- a driver goes to the lists for a message: `pop_front()` begins, or goes on after a fetch -/
theorem Answered.pop {g : Choice} {m₁ : ActorMem β} {pc pc' : RunPc β} {n : Nat}
    (hp : Runner.PopsFrom g m pc n m₁) (hb : LedgerOf led m) (hr : r.plain = pc.reading)
    (h : Runner.popTurn m₁ n = (m', pc')) : Answered led r m' pc'.reading := by
  cases hp with
  | loop =>
    have hb₁ : LedgerOf led m.touch := ⟨hb.box, hb.accepted, hb.returned⟩
    obtain ⟨hb', hr'⟩ := popTurn_ledger hb₁ h
    exact ⟨_, _, .call .pop (Reader.plain_idle hr), hb', hr'⟩
  | resumed =>
    have hb₁ : LedgerOf led { m with busy := false } := ⟨hb.box, hb.accepted, hb.returned⟩
    obtain ⟨hb', hr'⟩ := popTurn_ledger hb₁ h
    exact ⟨_, _, .call .pop (Reader.plain_idle hr), hb', hr'⟩
  | @fetched _ t chain box hchain hf =>
    obtain rfl := Reader.plain_popping hr
    rw [← hb.box] at hf
    have hb₁ : LedgerOf { led with box := box } { m.touch with box := box } :=
      ⟨rfl, hb.accepted, hb.returned⟩
    obtain ⟨hb', hr'⟩ := popTurn_ledger hb₁ h
    rw [← hr']
    refine .go g.weak ?_ hb'
    cases chain with
    | nil => exact absurd rfl hchain
    | cons x chain => simp only [Ledger.go, hf, Option.map_some]

/-- a driver inside `pop_front()` or `empty()` looks at the inbox once more -/
theorem Answered.again {g : Choice} {w : FetchFor} {t : TakeHead β} {last : Head}
    (hb : LedgerOf led m) (hr : r.plain = (RunPc.fetching w t).reading)
    (hf : m.box.fetchStep g.weak t = some (m.box, .cas last)) :
    Answered led r m.touch (RunPc.fetching w (.cas last)).reading := by
  rw [← hb.box] at hf
  have hb' : LedgerOf led m.touch := ⟨hb.box, hb.accepted, hb.returned⟩
  cases w with
  | pop n =>
    obtain rfl := Reader.plain_popping hr
    refine .go g.weak (q:=(led, .popping (.cas last))) ?_ hb'
    simp only [Ledger.go, hf, Option.map_some]
  | entry | race n =>
    obtain rfl := Reader.plain_sizing hr
    refine .go g.weak (q:=(led, .sizing (.cas last))) ?_ hb'
    simp only [Ledger.go, hf, Option.map_some]

/-- `empty()` has its answer -/
theorem Answered.size {g : Choice} {t : TakeHead β} {chain : List (Message β)} {box : Mailbox β}
    (hb : LedgerOf led m) (hr : r.plain = .sizing t)
    (hf : m.box.fetchStep g.weak t = some (box, .done chain)) :
    Answered led r { m.touch with box := box } (.idle none) := by
  obtain rfl := Reader.plain_sizing hr
  rw [← hb.box] at hf
  refine .go g.weak (q:=({ led with box := box }, .idle (some (.size box.cached)))) ?_
    ⟨rfl, hb.accepted, hb.returned⟩
  simp only [Ledger.go, hf, Option.map_some]

/-- and `pop_front()` has found nothing -/
theorem Answered.null {g : Choice} {t : TakeHead β} {box : Mailbox β} (hb : LedgerOf led m)
    (hr : r.plain = .popping t) (hf : m.box.fetchStep g.weak t = some (box, .done [])) :
    Answered led r { m.touch with box := box } (.idle none) := by
  obtain rfl := Reader.plain_popping hr
  rw [← hb.box] at hf
  refine .go g.weak (q:=({ led with box := box }, .idle (some (.popped none)))) ?_
    ⟨rfl, hb.accepted, hb.returned⟩
  simp only [Ledger.go, hf, Option.map_some]

theorem loopHead_reading (max n : Nat) :
    (Runner.loopHead max n : RunPc β).reading = .idle none := by
  unfold Runner.loopHead
  split <;> rfl

/-- a step of a driver -/
theorem run_answered {max : Nat} {g : Choice} {pc pc' : RunPc β}
    (h : Runner.stepPc max g m pc = some (m', pc')) (hb : LedgerOf led m)
    (hr : r.plain = pc.reading) : Answered led r m' pc'.reading := by
  have hbox : ∀ {m1 : ActorMem β}, m1.box = m.box → m1.accepted = m.accepted →
      m1.popped = m.popped → LedgerOf led m1 := fun h1 h2 h3 =>
    ⟨hb.box.trans h1.symm, hb.accepted.trans h2.symm, hb.returned.trans h3.symm⟩
  have hsame : m' = m ∨ m' = m.touch → LedgerOf led m' := by
    rintro (rfl | rfl)
    · exact hb
    · exact hbox rfl rfl rfl
  -- an operation that ends with the step it begins with
  have hcall : ∀ (op : MailboxOp) {m1 : ActorMem β}, r.plain = .idle none →
      LedgerOf (led.start op).1 m1 → Answered led r m1 (led.start op).2.plain := fun op _ hi hm =>
    ⟨_, _, .call op (Reader.plain_idle hi), hm, rfl⟩
  cases Runner.step_does h with
  | goOn hgo hm =>
    cases hgo with
    | entryFetch | race => exact hcall .size hr (hsame hm)
    | _ => exact .skip (hsame hm) hr
  | turnBack hback hm => cases hback <;> exact .skip (hsame hm) hr
  | unpark | unparkReady | unparkBusy =>
    refine hcall .tryUnblock hr ⟨?_, hb.accepted, hb.returned⟩
    show led.box.tryUnblock.2 = _
    rw [hb.box]
  | park | stay =>
    refine hcall .tryBlock hr ⟨?_, hb.accepted, hb.returned⟩
    show led.box.tryBlock.2 = _
    rw [hb.box]
  | fetchAgain hf => exact .again hb hr hf
  | entryEmpty hf hc | raceEmpty hf hc | raceLost hf hc => exact .size hb hr hf
  | entryFull hf hc =>
    rw [loopHead_reading]
    exact .size hb hr hf
  | nothing hf => exact .null hb hr hf
  | pop hp hpop => exact .pop hp hb hr (Runner.popTurn_some hpop)
  | fetch hp hnone => exact .pop hp hb hr (Runner.popTurn_none hnone)
  | drop | handle =>
    rw [loopHead_reading]
    exact .skip (hbox rfl rfl rfl) hr
  | _ => exact .skip (hbox rfl rfl rfl) hr

/-- a step of the destructor -/
theorem delete_answered {g : Choice} {x x' : Destructor β} (h : x.step g m = some (m', x'))
    (hb : LedgerOf led m) (hr : r.plain = x.reading) (hc : x = .members → m.box.inbox ≠ .closed) :
    Answered led r m' x'.reading := by
  have hbox : ∀ {m1 : ActorMem β}, m1.box = m.box → m1.accepted = m.accepted →
      m1.popped = m.popped → LedgerOf led m1 := fun h1 h2 h3 =>
    ⟨hb.box.trans h1.symm, hb.accepted.trans h2.symm, hb.returned.trans h3.symm⟩
  have hpub : ∀ n, (Destructor.publish m.word n : Destructor β).reading = .idle none := fun n => by
    unfold Destructor.publish
    split <;> rfl
  cases Destructor.step_does h with
  | load | publishAgain =>
    rw [hpub]
    exact .skip hb hr
  | wait hw hm => rcases hm with rfl | rfl <;> exact .skip (hbox rfl rfl rfl) hr
  | closed hclosed => exact absurd hclosed (hc rfl)
  | members =>
    refine ⟨_, _, .call .close (Reader.plain_idle hr), ⟨?_, hb.accepted, hb.returned⟩, rfl⟩
    show led.box.drained = _
    rw [hb.box]
  | @closeAgain t last hs =>
    obtain ⟨n, rfl⟩ := Reader.plain_closing hr
    rw [← hb.box] at hs
    refine .go g.weak (q:=(led, .closing (.cas last) n)) ?_ hb
    simp only [Ledger.go, hs, Option.map_some]
  | @close t chain box hs =>
    obtain ⟨n, rfl⟩ := Reader.plain_closing hr
    rw [← hb.box] at hs
    refine .go g.weak (q:=({ led with box := box, bounced := led.bounced ++ chain },
      .closed (n + chain.length))) ?_ ⟨rfl, hb.accepted, hb.returned⟩
    simp only [Ledger.go, hs, Option.map_some]
  | _ => exact .skip (hbox rfl rfl rfl) hr

/-- a step of a driver that does not hold `running` -/
theorem run_apart {max : Nat} {g : Choice} {node : Bool} {pc pc' : RunPc β}
    (h : Runner.stepPc max g m pc = some (m', pc')) (hpc : (pc.role node).holds = false)
    (hb : LedgerOf led m) : LedgerOf led m' ∧ pc'.reading = .idle none := by
  have hbox : ∀ {m1 : ActorMem β}, m1.box = m.box → m1.accepted = m.accepted →
      m1.popped = m.popped → LedgerOf led m1 := fun h1 h2 h3 =>
    ⟨hb.box.trans h1.symm, hb.accepted.trans h2.symm, hb.returned.trans h3.symm⟩
  cases Runner.step_does h with
  | acqLoad | acqBound | mark | acquire | acqAgain | ret => exact ⟨hbox rfl rfl rfl, rfl⟩
  | goOn hgo => cases hgo <;> cases hpc
  | turnBack hback => cases hback <;> cases hpc
  | pop hp | fetch hp => cases hp <;> cases hpc
  | @fetchAgain w => cases w <;> cases hpc
  | _ => cases hpc

/-- a step of the destructor before its end of the drain -/
theorem delete_apart {g : Choice} {x x' : Destructor β} (h : x.step g m = some (m', x'))
    (hx : x.role ≠ .deleting true) (hb : LedgerOf led m) :
    LedgerOf led m' ∧ x'.reading = .idle none := by
  have hbox : ∀ {m1 : ActorMem β}, m1.box = m.box → m1.accepted = m.accepted →
      m1.popped = m.popped → LedgerOf led m1 := fun h1 h2 h3 =>
    ⟨hb.box.trans h1.symm, hb.accepted.trans h2.symm, hb.returned.trans h3.symm⟩
  have hpub : ∀ n, (Destructor.publish m.word n : Destructor β).reading = .idle none := fun n => by
    unfold Destructor.publish
    split <;> rfl
  cases Destructor.step_does h with
  | load | publishAgain => exact ⟨hb, hpub _⟩
  | publishBound | publish | drained => exact ⟨hbox rfl rfl rfl, rfl⟩
  | wait hw hm => rcases hm with rfl | rfl <;> exact ⟨hbox rfl rfl rfl, rfl⟩
  | _ => exact absurd rfl hx

end

/-! ## side by side -/

namespace Actor
variable {β T X : Type} {c d : Conf β T X} {s s' : Post β}

/-- thread number `i` is inside `push_back()` with `msg` -/
def PushingAt (c : Conf β T X) (i : Nat) (msg : Message β) (p : Push) : Prop :=
  ∃ slot, c.pool[i]? = some (.send ⟨msg, slot, .pushing p⟩)

/-- the producers of the mailbox: `f` numbers the senders that are inside -/
structure Numbered (c : Conf β T X) (s : Post β) (f : Nat → Nat) : Prop where
  there : ∀ {i msg p}, PushingAt c i msg p → s.prods[f i]? = some (msg, p)
  apart : ∀ {i j msg msg' p p'}, PushingAt c i msg p → PushingAt c j msg' p' → f i = f j → i = j

/-- the actor and the mailbox with its one consumer -/
structure Uses (c : Conf β T X) (s : Post β) : Prop where
  ledger : LedgerOf s.led c.sh
  reading : ∀ u ∈ c.pool, u.reading ≠ .idle none → s.reader.plain = u.reading
  idle : s.reader.plain ≠ .idle none → ∃ u ∈ c.pool, u.reading = s.reader.plain
  producing : ∃ f, Numbered c s f

/-- the constructor blocks the inbox -/
theorem uses_init : ∃ s : Post β, TS.Reach Post.step Post.init s ∧ Uses (init : Conf β T X) s := by
  refine ⟨_, .single (a:=.call .tryBlock) rfl, ⟨rfl, rfl, rfl⟩,
    fun u hu => absurd hu List.not_mem_nil, fun h => absurd rfl h, id, ?_, ?_⟩
  · rintro i msg p ⟨slot, h⟩
    cases h
  · rintro i j msg msg' p p' ⟨slot, h⟩
    cases h

/-- thread number `i` moves; if it is inside `push_back()` then, it is producer number `f' i` -/
theorem Numbered.move {f f' : Nat → Nat} (h : Numbered c s f) {i : Nat} {t' : Thread β T X}
    (hp : d.pool = c.pool.set i t') (hf : ∀ j, j ≠ i → f' j = f j)
    (hs : ∀ {j msg p}, j ≠ i → PushingAt c j msg p → s'.prods[f j]? = some (msg, p))
    (ht : ∀ msg slot p, t' = .send ⟨msg, slot, .pushing p⟩ → s'.prods[f' i]? = some (msg, p) ∧
      ∀ {j msg p}, j ≠ i → PushingAt c j msg p → f j ≠ f' i) : Numbered d s' f' := by
  have hback : ∀ {j msg p}, PushingAt d j msg p →
      (j = i ∧ ∃ slot, t' = .send ⟨msg, slot, .pushing p⟩) ∨ j ≠ i ∧ PushingAt c j msg p := by
    rintro j msg p ⟨slot, hj⟩
    rw [hp] at hj
    by_cases hij : i = j
    · subst hij
      obtain ⟨hlt, hget⟩ := List.getElem?_eq_some_iff.mp hj
      rw [List.getElem_set_self] at hget
      exact Or.inl ⟨rfl, slot, hget⟩
    · rw [List.getElem?_set_ne hij] at hj
      exact Or.inr ⟨Ne.symm hij, slot, hj⟩
  constructor
  · intro j msg p hj
    rcases hback hj with ⟨rfl, slot, he⟩ | ⟨hne, hj⟩
    · exact (ht msg slot p he).1
    · rw [hf j hne]
      exact hs hne hj
  · intro j k msg msg' p p' hj hk hjk
    rcases hback hj with ⟨rfl, slot, he⟩ | ⟨hne, hj⟩ <;>
      rcases hback hk with ⟨rfl, slot', he'⟩ | ⟨hne', hk⟩
    · rfl
    · rw [hf k hne'] at hjk
      exact absurd hjk.symm ((ht msg slot p he).2 hne' hk)
    · rw [hf j hne] at hjk
      exact absurd hjk ((ht msg' slot' p' he').2 hne hj)
    · rw [hf j hne, hf k hne'] at hjk
      exact h.apart hj hk hjk

/-- and if it is not -/
theorem Numbered.leave {f : Nat → Nat} (h : Numbered c s f) {i : Nat} {t : Thread β T X}
    (hp : d.pool = c.pool.set i t) (ht : ∀ msg slot p, t ≠ .send ⟨msg, slot, .pushing p⟩)
    (hs : s'.prods = s.prods) : Numbered d s' f :=
  h.move hp (fun _ _ => rfl) (fun _ hj => by rw [hs]; exact h.there hj)
    fun msg slot p he => absurd he (ht msg slot p)

/-- what the consumer does is nothing to the producers -/
theorem access_reach {led' : Ledger β} {r' : Reader β} (h : Access s.led s.reader led' r') :
    TS.Reach Post.step s ⟨⟨led', s.prods⟩, r'⟩ := by
  cases h with
  | skip => exact .refl _
  | call op hi =>
    obtain ⟨a, ha⟩ := hi
    refine .single (a:=.call op) ?_
    simp only [Post.step, ha]
  | @go weak q hg =>
    refine .single (a:=.go weak) ?_
    simp only [Post.step, hg, Option.map_some]

/-! ### senders -/

/-- a sender is not the consumer -/
theorem Uses.aside (h : Uses c s) {i : Nat} {t t' : Thread β T X} (ht : c.pool[i]? = some t)
    (hp : d.pool = c.pool.set i t') (hr : t.reading = .idle none) (hr' : t'.reading = .idle none)
    (hs : s'.reader = s.reader) (hb : LedgerOf s'.led d.sh) (hf : ∃ f, Numbered d s' f) :
    Uses d s' := by
  refine ⟨hb, fun u hu hne => ?_, fun hne => ?_, hf⟩
  · rw [hs]
    rw [hp] at hu
    rcases List.mem_or_eq_of_mem_set hu with hu | rfl
    · exact h.reading u hu hne
    · exact absurd hr' hne
  · rw [hs] at hne ⊢
    obtain ⟨u, hu, he⟩ := h.idle hne
    obtain ⟨j, hj⟩ := List.mem_iff_getElem?.mp hu
    have hij : i ≠ j := by
      rintro rfl
      obtain rfl := Option.some.inj (ht.symm.trans hj)
      exact hne (he.symm.trans hr)
    refine ⟨u, ?_, he⟩
    rw [hp]
    exact List.mem_of_getElem? (i:=j) (by rw [List.getElem?_set_ne hij]; exact hj)

/-- a sender that is inside `push_back()` makes an access to the inbox, as a producer -/
theorem Uses.push (h : Uses c s) {i : Nat} {msg : Message β} {slot : State T X} {p p' : Push}
    {b : Inbox β} {x' : Sender β T X} (ht : c.pool[i]? = some (.send ⟨msg, slot, .pushing p⟩))
    (hs : p.step c.sh.box.inbox msg = some (b, p')) (hp : d.pool = c.pool.set i (.send x'))
    (hb : LedgerOf (s.led.pushed msg b p') d.sh)
    (hx : ∀ msg' slot' q, x' = ⟨msg', slot', .pushing q⟩ → msg' = msg ∧ q = p') :
    ∃ s', TS.Reach Post.step s s' ∧ Uses d s' := by
  obtain ⟨f, hf⟩ := h.producing
  have hthere := hf.there (i:=i) (p:=p) ⟨slot, ht⟩
  rw [← h.ledger.box] at hs
  have hstep : s.step (.produce (f i))
      = some ⟨⟨s.led.pushed msg b p', s.prods.set (f i) (msg, p')⟩, s.reader⟩ := by
    show Option.map _ (s.prods[f i]?.bind _) = _
    rw [hthere, Option.bind_some]
    simp only [Post.produce]
    show Option.map _ (Option.map _ (Option.map _ (p.step s.led.box.inbox msg))) = _
    rw [hs]
    rfl
  refine ⟨_, .single hstep, h.aside ht hp rfl rfl rfl hb ⟨f, ?_⟩⟩
  refine hf.move hp (fun _ _ => rfl) (fun hne hj => ?_) fun m sl q he =>
    ⟨?_, fun hne hj hji => ?_⟩
  · have hfj : f i ≠ f _ := fun hij => hne (hf.apart hj ⟨slot, ht⟩ hij.symm)
    show (s.prods.set (f i) (msg, p'))[_]? = _
    rw [List.getElem?_set_ne hfj]
    exact hf.there hj
  · obtain ⟨rfl, rfl⟩ := hx m sl q (Thread.send.inj he)
    exact List.getElem?_set_self (List.getElem?_eq_some_iff.mp hthere).1
  · exact hne (hf.apart hj ⟨slot, ht⟩ hji)

theorem Uses.sender (h : Uses c s) {i : Nat} {x x' : Sender β T X} {weak : Bool}
    (ht : c.pool[i]? = some (.send x)) (hx : x.step weak c.sh = some (d.sh, x'))
    (hp : d.pool = c.pool.set i (.send x')) : ∃ s', TS.Reach Post.step s s' ∧ Uses d s' := by
  obtain ⟨f, hf⟩ := h.producing
  have hb := h.ledger
  obtain ⟨sh, pool⟩ := d
  -- it does not touch the mailbox
  have hquiet : (∀ msg slot p, Thread.send x' ≠ .send ⟨msg, slot, .pushing p⟩) →
      sh.box = c.sh.box → sh.accepted = c.sh.accepted → sh.popped = c.sh.popped →
      ∃ s', TS.Reach Post.step s s' ∧ Uses ⟨sh, pool⟩ s' := fun hne h1 h2 h3 =>
    ⟨s, .refl s, h.aside ht hp rfl rfl rfl
      ⟨hb.box.trans h1.symm, hb.accepted.trans h2.symm, hb.returned.trans h3.symm⟩
      ⟨f, hf.leave hp hne rfl⟩⟩
  have hdo : Sender.Does weak c.sh x sh x' := Sender.step_does hx
  cases hdo with
  | @register msg slot n hc hd =>
    -- it is registered, and comes to the inbox
    refine ⟨⟨⟨s.led, s.prods ++ [(msg, .load)]⟩, s.reader⟩, .single (a:=.send msg) rfl,
      h.aside ht hp rfl rfl rfl ⟨hb.box, hb.accepted, hb.returned⟩
        ⟨Function.update f i s.prods.length, ?_⟩⟩
    refine hf.move hp (fun j hj => Function.update_of_ne hj ..) (fun _ hj => ?_) fun _ _ _ he => ?_
    · have hget := hf.there hj
      show (s.prods ++ [(msg, Push.load)])[_]? = _
      rw [List.getElem?_append_left (List.getElem?_eq_some_iff.mp hget).1]
      exact hget
    · cases he
      rw [Function.update_self]
      refine ⟨List.getElem?_concat_length .., fun _ hj hjl => ?_⟩
      have hlt := (List.getElem?_eq_some_iff.mp (hf.there hj)).1
      omega
  | look hpush =>
    refine h.push ht hpush hp ⟨hb.box, hb.accepted, hb.returned⟩ fun _ _ _ he => ?_
    cases he
    exact ⟨rfl, rfl⟩
  | pushRefused hpush hc =>
    exact h.push ht hpush hp ⟨hb.box, hb.accepted, hb.returned⟩ fun _ _ _ he => by cases he
  | @push msg slot p hpush hc =>
    refine h.push ht hpush hp ?_ fun _ _ _ he => by cases he
    cases hr : Push.pushed c.sh.box.inbox.head with
    | queueClosed => exact absurd hr (Push.pushed_ne _)
    | success | unblockedReader =>
      exact ⟨congrArg (fun mb => { mb with inbox := c.sh.box.inbox.push msg }) hb.box,
        congrArg (· ++ [msg]) hb.accepted, hb.returned⟩
  | _ => exact hquiet (fun _ _ _ he => by cases he) rfl rfl rfl

/-! ### the consumer -/

/-- nobody else is at the mailbox as its consumer -/
theorem alone_reading (hT : Teardown c) (hR : Recalled c) {l₁ l₂ : List (Thread β T X)}
    {t : Thread β T X} (hp : c.pool = l₁ ++ t :: l₂)
    (ht : t.role.holds = true ∨ t.role = .deleting true) {u : Thread β T X} (hu : u ∈ l₁ ++ l₂) :
    u.reading = .idle none := by
  have hpool : ∀ v ∈ l₁ ++ l₂, v ∈ c.pool := fun v hv => by
    rw [hp]
    exact (List.perm_middle.mem_iff).mpr (List.mem_cons_of_mem t hv)
  have htp : t ∈ c.pool := by
    rw [hp]
    exact List.mem_append_right _ List.mem_cons_self
  -- past the drain nobody holds `running`
  have hcross : ∀ {v w : Thread β T X}, v ∈ c.pool → w ∈ c.pool → v.role.holds = true →
      w.role = .deleting true → False := fun hv hw hvh hwd => by
    have hin := hT.drain.drained (hwd ▸ List.mem_map_of_mem hw) _ (List.mem_map_of_mem hv)
    rw [(Role.inside_false.mp hin).2.1] at hvh
    cases hvh
  by_contra hne
  rcases ht with ht | ht <;> rcases Thread.reading_inside hne with huh | hud
  · have hle : c.pool.countP (fun v : Thread β T X => v.role.holds) ≤ 1 := by
      have hholders := hT.drain.holders
      rw [List.countP_map] at hholders
      show c.pool.countP (Role.holds ∘ Thread.role) ≤ 1
      rw [hholders]
      exact Bool.toNat_le _
    rw [hp] at hle
    rw [TS.not_of_countP_le_one (p:=fun v : Thread β T X => v.role.holds) hle ht hu] at huh
    cases huh
  · exact hcross htp (hpool u hu) ht hud
  · exact hcross (hpool u hu) htp huh ht
  · obtain ⟨x, rfl⟩ := role_deleting ht
    obtain ⟨y, rfl⟩ := role_deleting hud
    have hle := hR.one.1
    rw [hp] at hle
    have := TS.not_of_countP_le_one (p:=Thread.isDelete) hle rfl hu
    cases this

/-- the consumer goes on -/
theorem Uses.consume (h : Uses c s) {l₁ l₂ : List (Thread β T X)} {t t' : Thread β T X}
    (hp : c.pool = l₁ ++ t :: l₂) (hp' : d.pool = l₁ ++ t' :: l₂)
    (halone : ∀ u ∈ l₁ ++ l₂, u.reading = .idle none)
    (ht : ∀ x, t ≠ .send x) (ht' : ∀ x, t' ≠ .send x)
    (hstep : s.reader.plain = t.reading → Answered s.led s.reader d.sh t'.reading) :
    ∃ s', TS.Reach Post.step s s' ∧ Uses d s' := by
  have hplace : s.reader.plain = t.reading := by
    by_cases hi : s.reader.plain = .idle none
    · rw [hi]
      by_contra hne
      exact hne (hi.symm.trans (h.reading t (hp ▸ List.mem_append_right _ List.mem_cons_self)
        (Ne.symm hne)))
    · obtain ⟨u, hu, he⟩ := h.idle hi
      rw [hp] at hu
      rcases List.mem_cons.mp (List.perm_middle.mem_iff.mp hu) with rfl | hu
      · exact he.symm
      · exact absurd (he.symm.trans (halone u hu)) hi
  obtain ⟨led', r', hacc, hb, hr⟩ := hstep hplace
  obtain ⟨f, hf⟩ := h.producing
  refine ⟨⟨⟨led', s.prods⟩, r'⟩, access_reach hacc, hb, fun u hu hne => ?_, fun _ => ?_, f, ?_⟩
  · rw [hp'] at hu
    rcases List.mem_cons.mp (List.perm_middle.mem_iff.mp hu) with rfl | hu
    · exact hr
    · exact absurd (halone u hu) hne
  · exact ⟨t', hp' ▸ List.mem_append_right _ List.mem_cons_self, hr.symm⟩
  · have hlen : l₁.length < c.pool.length := by
      rw [hp, List.length_append, List.length_cons]
      omega
    refine hf.leave (i:=l₁.length) (t:=t') ?_ (fun _ _ _ => ht' _) rfl
    rw [hp, hp', List.set_append_right _ _ (Nat.le_refl _), Nat.sub_self]
    rfl

/-- a thread begins outside of the mailbox -/
theorem enter_ledger {m m' : ActorMem β} {t : Thread β T X} {led : Ledger β}
    (h : enter m t = some m') (hb : LedgerOf led m) : LedgerOf led m' ∧ t.reading = .idle none ∧
      ∀ msg slot p, t ≠ .send ⟨msg, slot, .pushing p⟩ := by
  unfold enter at h
  split at h
  · split at h
    · rename_i hc
      obtain ⟨rfl, -⟩ := hc
      cases h
      exact ⟨hb, rfl, fun _ _ _ he => by cases he⟩
    · cases h
  · split at h
    · cases h
      exact ⟨⟨hb.box, hb.accepted, hb.returned⟩, rfl, fun _ _ _ he => by cases he⟩
    · cases h
  · split at h
    · cases h
      exact ⟨⟨hb.box, hb.accepted, hb.returned⟩, rfl, fun _ _ _ he => by cases he⟩
    · cases h
  · cases h

theorem Uses.spawn (h : Uses c s) {t : Thread β T X} (hs : step c (.spawn t) = some d) :
    Uses d s := by
  obtain ⟨he, hp⟩ := TS.Conf.step_spawn hs
  obtain ⟨hb, hr, hne⟩ := enter_ledger he h.ledger
  obtain ⟨f, hf⟩ := h.producing
  have hback : ∀ {i msg p}, PushingAt d i msg p → PushingAt c i msg p := by
    rintro i msg p ⟨slot, hi⟩
    rw [hp] at hi
    rcases Nat.lt_or_ge i c.pool.length with hlt | hge
    · rw [List.getElem?_append_left hlt] at hi
      exact ⟨slot, hi⟩
    · rw [List.getElem?_append_right hge] at hi
      exact absurd (List.mem_singleton.mp (List.mem_of_getElem? hi)).symm (hne msg slot p)
  refine ⟨hb, fun u hu hur => ?_, fun hi => ?_, f, fun hj => hf.there (hback hj),
    fun hi hj => hf.apart (hback hi) (hback hj)⟩
  · rw [hp] at hu
    rcases List.mem_append.mp hu with hu | hu
    · exact h.reading u hu hur
    · rw [List.mem_singleton.mp hu] at hur
      exact absurd hr hur
  · obtain ⟨u, hu, hur⟩ := h.idle hi
    exact ⟨u, hp ▸ List.mem_append_left _ hu, hur⟩

/-- what is in time is answered -/
theorem uses_simulates : TS.Simulates (TS.restrict step inTime)
    Post.step (fun (c : Conf β T X) (s : Post β) => (Teardown c ∧ Recalled c) ∧ Uses c s) := by
  rintro c a d s ⟨⟨hT, hR⟩, h⟩ hs
  have hs1 := (TS.restrict_some.mp hs).2
  suffices hU : ∃ s', TS.Reach Post.step s s' ∧ Uses d s' by
    obtain ⟨s', hreach, hU⟩ := hU
    exact ⟨s', hreach, ⟨hT.step hs, hR.step hT hs1⟩, hU⟩
  cases a with
  | spawn t => exact ⟨s, .refl s, h.spawn hs1⟩
  | run i g =>
    obtain ⟨l₁, t, l₂, t', hp, hlen, he, hp'⟩ := TS.Conf.step_run hs1
    have ht : c.pool[i]? = some t := by
      rw [hp, ← hlen, List.getElem?_append_right (Nat.le_refl _), Nat.sub_self]
      rfl
    have hset : d.pool = c.pool.set i t' := by
      rw [hp, hp', ← hlen, List.set_append_right _ _ (Nat.le_refl _), Nat.sub_self]
      rfl
    obtain ⟨f, hf⟩ := h.producing
    have hrun : ∀ (r : Runner β) (x : Sender β T X), Thread.run r ≠ .send x := fun r x he => by
      cases he
    have hdel : ∀ (y : Destructor β) (x : Sender β T X), Thread.delete y ≠ .send x :=
      fun y x he => by cases he
    -- a driver or the destructor that is not at the mailbox
    have hapart : LedgerOf s.led d.sh ∧ t'.reading = .idle none → t.reading = .idle none →
        (∀ x, t' ≠ .send x) → ∃ s', TS.Reach Post.step s s' ∧ Uses d s' :=
      fun ⟨hb, hr'⟩ hr hne => ⟨s, .refl s, h.aside ht hset hr hr' rfl hb
        ⟨f, hf.leave hset (fun _ _ _ => hne _) rfl⟩⟩
    rcases exec_cases he with ⟨x, x', rfl, rfl, hx⟩ | ⟨max, node, pc, pc', rfl, rfl, hx⟩ |
      ⟨x, x', rfl, rfl, hx⟩
    · exact h.sender ht hx hset
    · by_cases hh : (pc.role node).holds = true
      · exact h.consume hp hp' (fun u hu => alone_reading hT hR hp (Or.inl hh) hu) (hrun _)
          (hrun _) fun hr => run_answered hx h.ledger hr
      · refine hapart (run_apart hx (Bool.eq_false_iff.mpr hh) h.ledger) ?_ (hrun _)
        by_contra hne
        rcases Thread.reading_inside hne with hin | hin
        · exact hh hin
        · obtain ⟨y, hy⟩ := role_deleting hin
          cases hy
    · by_cases hd : x.role = .deleting true
      · refine h.consume hp hp' (fun u hu => alone_reading hT hR hp (Or.inr hd) hu) (hdel _)
          (hdel _) fun hr => delete_answered hx h.ledger hr fun hm hc => ?_
        -- only the destructor that has finished has closed the inbox
        have hf := hR.closed hc
        rw [hp] at hf
        subst hm
        rcases List.mem_cons.mp (List.perm_middle.mem_iff.mp hf) with hf | hf
        · cases hf
        · have := alone_reading hT hR hp (Or.inr hd) hf
          cases this
      · refine hapart (delete_apart hx hd h.ledger) ?_ (hdel _)
        by_contra hne
        rcases Thread.reading_inside hne with hin | hin
        · cases x <;> cases hin
        · exact hd hin

/-- what the mailbox of an actor owes it -/
structure SingleConsumer (c : Conf β T X) : Prop where
  /-- a mailbox with producers and one consumer, who fetches only when he may, has come to the same
  contents and accounts -/
  mailbox : ∃ s : Post β, TS.Reach Post.step Post.init s ∧ s.led.box = c.sh.box ∧
    s.led.accepted = c.sh.accepted ∧ s.led.returned = c.sh.popped
  /-- the drivers pop the messages of one priority in the order in which they were accepted -/
  order : ∀ high, ofPriority high c.sh.popped <+: ofPriority high c.sh.accepted
  /-- and until the destructor comes to the mailbox, the others are in it, in this order -/
  held : (∀ x, Thread.delete x ∈ c.pool → x.reading = .idle none) → ∀ high,
    ofPriority high c.sh.accepted = ofPriority high c.sh.popped ++ c.sh.box.heldOf high

/-- **One consumer.**  In every run of any number of senders, of drivers, called or uncalled, and of
the destructor, if few enough calls are made at a time and no driver comes too late, the mailbox
has one consumer, and what it promises to him the actor gets. -/
theorem single_consumer (as : List (Act β T X)) (c : Conf β T X)
    (h : TS.run (TS.restrict step inTime) init as = some c) : SingleConsumer c := by
  obtain ⟨s0, hs0, hU0⟩ := uses_init (β:=β) (T:=T) (X:=X)
  obtain ⟨s, hs, -, hU⟩ := uses_simulates.run ⟨⟨Teardown.init, Recalled.init⟩, hU0⟩ h
  obtain ⟨bs, hbs⟩ := hs0.trans hs
  have hacc := (Post.inv_of_run hbs).account
  obtain ⟨hbox, haccepted, hreturned⟩ := hU.ledger
  refine ⟨⟨s, ⟨bs, hbs⟩, hbox, haccepted, hreturned⟩, fun high => ?_, fun hx high => ?_⟩
  · rw [← haccepted, ← hreturned]
    exact hacc.fifo high
  · have hopen : s.reader.shut = false := by
      refine Bool.eq_false_iff.mpr fun hshut => ?_
      have hne : s.reader.plain ≠ .idle none := fun hi => by
        obtain ⟨a, ha⟩ := Reader.plain_idle hi
        rw [ha] at hshut
        cases hshut
      obtain ⟨u, hu, he⟩ := hU.idle hne
      rw [← he] at hne
      cases u with
      | send x => exact hne rfl
      | delete x => exact hne (hx x hu)
      | run r =>
        obtain ⟨max, node, pc⟩ := r
        have hpc : s.reader.plain = pc.reading := he.symm
        cases hr : s.reader with
        | closing t n =>
          rw [hr] at hpc
          cases pc with
          | fetching w t => cases w <;> cases hpc
          | _ => cases hpc
        | closed n =>
          rw [hr] at hpc
          cases pc with
          | fetching w t => cases w <;> cases hpc
          | _ => cases hpc
        | _ => rw [hr] at hshut; cases hshut
    rw [← haccepted, ← hreturned, ← hbox]
    exact hacc.order hopen high

/-- a message is handled, and the actor is destroyed with another one in it -/
theorem single_consumer_destroyed :
    ∃ c : Conf Unit Nat Unit, c.sh.popped.map Message.addr = [16] ∧
      c.sh.accepted.map Message.addr = [16, 17] ∧ SingleConsumer c :=
  ⟨_, rfl, rfl, single_consumer handledAndDestroyed _ rfl⟩

end Actor
end ActorZeta
