import Mathlib.Data.List.Induction
import ActorZeta.Actor.Steps

/-!
# The bound on compare-exchange attempts

Every compare-exchange loop on the state word counts its attempts and aborts the process at
`kMaxCasAttempts`.

* `Thread.loop`        the loop a thread is in: the word it expects, the attempts it has made;
* `exec_loop`          what one step of a thread does to its loop;
* `looks`              how often a loop has met a word that was not the one it last saw;
* `trips_iff_beaten`   a run trips the bound if and only if some loop is beaten that often;
* `no_trips_of_few_writes`   which takes as many writes by others, if no attempt fails spuriously;
* `contention_trips`   a thousand senders do that.
-/

namespace ActorZeta
variable {β T X : Type}

/-- the compare-exchange loop a thread is in -/
def Thread.loop : Thread β T X → Option (ActorState × Nat)
  | .send ⟨_, _, .regCas current n⟩ => some (current, n)
  | .send ⟨_, _, .leaveCas _ current n⟩ => some (current, n)
  | .run ⟨_, _, .acqCas current n⟩ => some (current, n)
  | .run ⟨_, _, .guardCas _ _ _ o n⟩ => some (o.current, n)
  | .delete (.publishCas current n) => some (current, n)
  | .delete (.termCas current n) => some (current, n)
  | _ => none

namespace Actor

/-- what a step does to the loop of its thread, where `w` is the word before it and `w'` the word
after it: it aborts, it enters a loop after a load, it leaves the loop, or it has failed once more -/
inductive LoopStep (weak : Bool) (w w' : ActorState) (aborted : Bool) :
    Option (ActorState × Nat) → Option (ActorState × Nat) → Prop where
  | abort (cur : ActorState) (n : Nat) (h : casAttempt n = none) (ha : aborted = true) :
      LoopStep weak w w' aborted (some (cur, n)) (some (cur, n))
  | load (hw : w' = w) : LoopStep weak w w' aborted none (some (w, 0))
  | outside : LoopStep weak w w' aborted none none
  | leave (cur : ActorState) (n : Nat) (h : casAttempt n ≠ none) :
      LoopStep weak w w' aborted (some (cur, n)) none
  | fail (cur : ActorState) (n : Nat) (h : casAttempt n = some (n + 1))
      (hf : w ≠ cur ∨ weak = true) (hw : w' = w) :
      LoopStep weak w w' aborted (some (cur, n)) (some (w, n + 1))

theorem sender_loop {weak : Bool} {m m' : ActorMem β} {s s' : Sender β T X}
    (h : s.step weak m = some (m', s')) :
    LoopStep weak m.word m'.word m'.aborted (Thread.send s).loop (Thread.send s').loop := by
  cases Sender.step_does h with
  | regLoad | leaveLoad => exact .load rfl
  | regBound hc | leaveBound hc => exact .abort _ _ hc rfl
  | refused hc hd | register hc hd => exact .leave _ _ (by rw [hc]; simp)
  | leave hc => exact .leave _ _ (by rw [hc]; simp)
  | regAgain hc hf | leaveAgain hc hf => exact .fail _ _ hc hf rfl
  | look | pushRefused | push | ret => exact .outside

theorem delete_loop {g : Choice} {m m' : ActorMem β} {d d' : Destructor β}
    (h : d.step g m = some (m', d')) :
    LoopStep g.weak m.word m'.word m'.aborted (Thread.delete d : Thread β T X).loop
      (Thread.delete d' : Thread β T X).loop := by
  have hpublish : ∀ n, (Thread.delete (Destructor.publish m.word n) : Thread β T X).loop = none ∨
      (Thread.delete (Destructor.publish m.word n) : Thread β T X).loop = some (m.word, n) :=
    fun n => by
      unfold Destructor.publish
      split
      · exact Or.inl rfl
      · exact Or.inr rfl
  cases Destructor.step_does h with
  | load =>
    rcases hpublish 0 with hp | hp
    · rw [hp]
      exact .outside
    · rw [hp]
      exact .load rfl
  | publishAgain hc hf =>
    rcases hpublish _ with hp | hp
    · rw [hp]
      exact .leave _ _ (by rw [hc]; simp)
    · rw [hp]
      exact .fail _ _ hc hf rfl
  | termLoad => exact .load rfl
  | publishBound hc | termBound hc => exact .abort _ _ hc rfl
  | publish hc | term hc => exact .leave _ _ (by rw [hc]; simp)
  | termAgain hc hf => exact .fail _ _ hc hf rfl
  | wait | drained | closed | members | closeAgain | close => exact .outside

/-- the loop of a driver at `pc` -/
def runLoop (pc : RunPc β) : Option (ActorState × Nat) :=
  match pc with
  | .acqCas current n => some (current, n)
  | .guardCas _ _ _ o n => some (o.current, n)
  | _ => none

theorem loop_run (max : Nat) (node : Bool) (pc : RunPc β) :
    (Thread.run ⟨max, node, pc⟩ : Thread β T X).loop = runLoop pc := by
  cases pc <;> rfl

theorem loopHead_loop (max handled : Nat) : runLoop (Runner.loopHead max handled : RunPc β) = none := by
  unfold Runner.loopHead
  split <;> rfl

theorem run_loop {max : Nat} {g : Choice} {m m' : ActorMem β} {pc pc' : RunPc β}
    (h : Runner.stepPc max g m pc = some (m', pc')) :
    LoopStep g.weak m.word m'.word m'.aborted (runLoop pc) (runLoop pc') := by
  cases Runner.step_does h with
  | acqLoad | guardLoad => exact .load rfl
  | acqBound hc | guardBound hc => exact .abort _ _ hc rfl
  | mark hc hr | acquire hc hr | release hc hr => exact .leave _ _ (by rw [hc]; simp)
  | acqAgain hc hf | guardAgain hc hf => exact .fail _ _ hc hf rfl
  | goOn hgo => cases hgo <;> exact .outside
  | turnBack hback => cases hback <;> exact .outside
  | pop hp | fetch hp => cases hp <;> exact .outside
  | entryFull | drop | handle =>
    rw [loopHead_loop]
    exact .outside
  | _ => exact .outside

/-- **One step of a thread and its loop.** -/
theorem exec_loop {g : Choice} {m m' : ActorMem β} {t t' : Thread β T X}
    (h : Actor.exec g m t = some (m', t')) :
    LoopStep g.weak m.word m'.word m'.aborted t.loop t'.loop := by
  rcases Actor.exec_cases h with ⟨s, s', rfl, rfl, hs⟩ | ⟨max, node, pc, pc', rfl, rfl, hs⟩ |
    ⟨d, d', rfl, rfl, hs⟩
  · exact sender_loop hs
  · rw [loop_run, loop_run]
    exact run_loop hs
  · exact delete_loop hs

/-- a thread begins outside its loops -/
theorem enter_loop {m m' : ActorMem β} {t : Thread β T X} (h : Actor.enter m t = some m') :
    t.loop = none ∧ m'.aborted = m.aborted := by
  cases t with
  | send s =>
    obtain ⟨msg, slot, pc⟩ := s
    obtain ⟨⟨hpc, -⟩, hm⟩ := Option.ite_none_right_eq_some.mp h
    cases hm
    rw [hpc]
    exact ⟨rfl, rfl⟩
  | run r =>
    obtain ⟨max, node, pc⟩ := r
    cases pc with
    | acqLoad =>
      obtain ⟨-, h⟩ := Option.ite_none_right_eq_some.mp h
      cases h
      exact ⟨rfl, rfl⟩
    | _ => cases h
  | delete d =>
    cases d with
    | load =>
      obtain ⟨-, h⟩ := Option.ite_none_right_eq_some.mp h
      cases h
      exact ⟨rfl, rfl⟩
    | _ => cases h

/-! ## what beats a loop -/

def inLoop (c : Conf β T X) (i : Nat) : Bool := (c.pool[i]?.bind Thread.loop).isSome

/-- thread `i` looks at the word: it was beaten if the word is not the one it last saw, or if its
compare-exchange fails spuriously; outside a loop it begins anew -/
def look (i : Nat) (k : ActorState × Nat) (v : Conf β T X × Act β T X) : ActorState × Nat :=
  match v.2 with
  | .run j g => if j = i then
      (v.1.sh.word, if inLoop v.1 i then k.2 + (g.weak || v.1.sh.word != k.1).toNat else 0)
    else k
  | .spawn _ => k

/-- the word thread `i` last saw, and how often its present loop was beaten -/
def looks (i : Nat) (V : List (Conf β T X × Act β T X)) : ActorState × Nat :=
  V.foldl (look i) (.idle, 0)

theorem looks_snoc (i : Nat) (V : List (Conf β T X × Act β T X)) (v : Conf β T X × Act β T X) :
    looks i (V ++ [v]) = look i (looks i V) v := by
  unfold looks
  rw [List.foldl_append]
  rfl

/-- a loop is not beaten more often than there were steps -/
theorem looks_le (i : Nat) (V : List (Conf β T X × Act β T X)) : (looks i V).2 ≤ V.length := by
  induction V using List.reverseRecOn with
  | nil => exact Nat.le_refl 0
  | append_singleton V v ih =>
    rw [looks_snoc, List.length_append]
    unfold look
    split
    · split
      · dsimp only
        split
        · have hb := Bool.toNat_le (‹Choice›.weak || v.1.sh.word != (looks i V).1)
          show _ ≤ V.length + 1
          omega
        · exact Nat.zero_le _
      · exact Nat.le_succ_of_le ih
    · exact Nat.le_succ_of_le ih

/-- only a process that lives takes steps -/
theorem step_alive {c d : Conf β T X} {i : Nat} {g : Choice} (hs : step c (.run i g) = some d) :
    c.sh.aborted = false := by
  obtain ⟨t, t', -, he, -⟩ := TS.Conf.step_set hs
  unfold exec at he
  split at he
  · cases he
  · exact Bool.eq_false_iff.mpr ‹_›

/-- the counters are what the looks say, as long as the process lives -/
def Counted (V : List (Conf β T X × Act β T X)) (c : Conf β T X) : Prop :=
  c.sh.aborted = false → ∀ i k, c.pool[i]?.bind Thread.loop = some k → looks i V = k

theorem pool_set_ne {l : List (Thread β T X)} {i j : Nat} (h : j ≠ i) (t : Thread β T X) :
    (l.set j t)[i]?.bind Thread.loop = l[i]?.bind Thread.loop := by
  rw [List.getElem?_set_ne h]

/-- **The account of one step.** -/
theorem counted_step {V : List (Conf β T X × Act β T X)} {c d : Conf β T X} {a : Act β T X}
    (h : Counted V c) (hs : step c a = some d) : Counted (V ++ [(c, a)]) d := by
  intro hd i k hk
  rw [looks_snoc]
  cases a with
  | spawn t =>
    obtain ⟨he, hpool⟩ := TS.Conf.step_spawn hs
    obtain ⟨hloop, hab⟩ := enter_loop he
    refine h (hab.symm.trans hd) i k ?_
    rw [hpool] at hk
    rcases Nat.lt_or_ge i c.pool.length with hi | hi
    · rw [List.getElem?_append_left hi] at hk
      exact hk
    · rw [List.getElem?_append_right hi] at hk
      cases hidx : i - c.pool.length with
      | zero =>
        rw [hidx] at hk
        have hk : t.loop = some k := hk
        rw [hloop] at hk
        cases hk
      | succ n =>
        rw [hidx] at hk
        cases hk
  | run j g =>
    obtain ⟨t, ht, h'⟩ := Option.bind_eq_some_iff.mp hs
    obtain ⟨⟨sh, t'⟩, he, rfl⟩ := Option.map_eq_some_iff.mp h'
    have hc : c.sh.aborted = false := step_alive hs
    have hstep := exec_loop he
    by_cases hji : j = i
    · subst hji
      have hnew : t'.loop = some k := by
        have hi : j < c.pool.length := (List.getElem?_eq_some_iff.mp ht).1
        have hget : (c.pool.set j t')[j]? = some t' := List.getElem?_set_self hi
        have hk : (c.pool.set j t')[j]?.bind Thread.loop = some k := hk
        rw [hget] at hk
        exact hk
      have hold : c.pool[j]?.bind Thread.loop = t.loop := by rw [ht]; rfl
      have hlook : look j (looks j V) (c, .run j g) = (c.sh.word,
          if t.loop.isSome then
            (looks j V).2 + (g.weak || c.sh.word != (looks j V).1).toNat else 0) := by
        unfold look inLoop
        rw [hold]
        exact if_pos rfl
      rw [hlook]
      have hV := h hc j
      rw [hold] at hV
      rw [hnew] at hstep
      generalize t.loop = old at hstep hV
      cases hstep with
      | abort cur n hn ha =>
        have hd : sh.aborted = false := hd
        rw [ha] at hd
        cases hd
      | load hw => rfl
      | fail cur n hn hf hw =>
        rw [hV (cur, n) rfl]
        have hbeat : (g.weak || c.sh.word != cur) = true := by
          rcases hf with hf | hf
          · simp [hf]
          · simp [hf]
        dsimp only
        rw [hbeat]
        rfl
    · have hlook : look i (looks i V) (c, .run j g) = looks i V := if_neg hji
      rw [hlook]
      refine h hc i k ?_
      rw [← hk]
      exact (pool_set_ne hji t').symm

/-- the step is an attempt that reaches the bound -/
def Trips (c : Conf β T X) (a : Act β T X) : Prop :=
  ∃ i g k, a = .run i g ∧ c.pool[i]?.bind Thread.loop = some k ∧ casAttempt k.2 = none

/-- the counter of a loop is what the looks before the step say -/
theorem looks_of_visit {as : List (Act β T X)} {c : Conf β T X} (h : TS.run step init as = some c)
    {V W : List (Conf β T X × Act β T X)} {v : Conf β T X × Act β T X}
    (hv : TS.visits step init as = V ++ v :: W) {i : Nat} {g : Choice} (ha : v.2 = .run i g)
    {k : ActorState × Nat} (hk : v.1.pool[i]?.bind Thread.loop = some k) : looks i V = k := by
  obtain ⟨bs, u, hbs, hvis, hst⟩ := TS.visits_split h hv
  have hJ : Counted ([] ++ TS.visits step init bs) v.1 := by
    refine TS.run_history (J:=Counted) (fun _ _ _ _ hc hs => counted_step hc hs) ?_ hbs
    intro _ i k hk
    cases hk
  rw [List.nil_append, hvis] at hJ
  rw [ha] at hst
  exact hJ (step_alive hst) i k hk

/-- a loop that was not beaten often enough does not trip the bound -/
theorem not_trips_of_looks {as : List (Act β T X)} {c : Conf β T X}
    (h : TS.run step init as = some c)
    (hall : ∀ V v W, TS.visits step init as = V ++ v :: W → ∀ i g, v.2 = .run i g →
      inLoop v.1 i = true → (looks i V).2 + 1 < kMaxCasAttempts) :
    ∀ v ∈ TS.visits step init as, ¬ Trips v.1 v.2 := by
  rintro v hmem ⟨i, g, k, ha, hk, hcas⟩
  obtain ⟨V, W, hv⟩ := List.append_of_mem hmem
  have hlt := hall V v W hv i g ha (by unfold inLoop; rw [hk]; rfl)
  rw [looks_of_visit h hv ha hk] at hlt
  have hsome : casAttempt k.2 = some (k.2 + 1) := if_pos hlt
  rw [hcas] at hsome
  cases hsome

/-- **When contention trips the bound.**  A run reaches `kMaxCasAttempts` on no compare-exchange
loop if and only if no loop is beaten that often: at an attempt it finds the word changed since it
last looked, or fails spuriously, fewer than `kMaxCasAttempts - 1` times. -/
theorem trips_iff_beaten (as : List (Act β T X)) (c : Conf β T X)
    (h : TS.run step init as = some c) :
    (∀ v ∈ TS.visits step init as, ¬ Trips v.1 v.2) ↔
      ∀ V v W, TS.visits step init as = V ++ v :: W → ∀ i g, v.2 = .run i g →
        inLoop v.1 i = true → (looks i V).2 + 1 < kMaxCasAttempts := by
  refine ⟨fun hno V v W hv i g ha hin => ?_, not_trips_of_looks h⟩
  obtain ⟨k, hk⟩ := Option.isSome_iff_exists.mp hin
  rw [looks_of_visit h hv ha hk]
  refine Nat.lt_of_not_le fun hle => ?_
  have hmem : v ∈ TS.visits step init as := by
    rw [hv]
    exact List.mem_append_right _ (List.mem_cons_self ..)
  exact hno v hmem ⟨i, g, k, ha, hk, if_neg (Nat.not_lt_of_le hle)⟩

/-- two senders read the word, the second one registers, and the first one is beaten -/
def overtaken : List (Act Unit Nat Unit) :=
  let g : Choice := ⟨false, false, false, false⟩
  [.spawn (.send ⟨⟨16, 1 <<< 60, ()⟩, .fresh, .regLoad⟩),
    .spawn (.send ⟨⟨17, 1 <<< 60, ()⟩, .fresh, .regLoad⟩),
    .run 0 g, .run 1 g, .run 1 g, .run 0 g, .run 0 g]

theorem trips_iff_beaten_overtaken : ∃ c, TS.run step init overtaken = some c ∧
    (looks 0 (TS.visits step init overtaken)).2 = 1 ∧
      ∀ v ∈ TS.visits step init overtaken, ¬ Trips v.1 v.2 := by
  refine ⟨_, rfl, by decide +kernel, (trips_iff_beaten overtaken _ rfl).mpr ?_⟩
  intro V v W hv i g _ _
  have hlen : 7 = (V ++ v :: W).length := congrArg List.length hv
  rw [List.length_append, List.length_cons] at hlen
  have hle := looks_le i V
  have hmax : kMaxCasAttempts = 1000 := rfl
  omega

/-! ## who beats a loop -/

/-- the step writes another word -/
def writes (v : Conf β T X × Act β T X) : Bool :=
  match step v.1 v.2 with
  | some d => d.sh.word != v.1.sh.word
  | none => false

/-- the writes of the others while thread `i` is in its loop -/
def overwrite (i n : Nat) (v : Conf β T X × Act β T X) : Nat :=
  match v.2 with
  | .run j _ => if j = i then (if inLoop v.1 i then n else 0) else n + (writes v).toNat
  | .spawn _ => n

/-- how often others have written the word since thread `i` entered its present loop -/
def overwrites (i : Nat) (V : List (Conf β T X × Act β T X)) : Nat := V.foldl (overwrite i) 0

theorem overwrites_snoc (i : Nat) (V : List (Conf β T X × Act β T X))
    (v : Conf β T X × Act β T X) : overwrites i (V ++ [v]) = overwrite i (overwrites i V) v := by
  unfold overwrites
  rw [List.foldl_append]
  rfl

/-- no step of thread `i` fails spuriously -/
def Strong (i : Nat) (V : List (Conf β T X × Act β T X)) : Prop :=
  ∀ v ∈ V, ∀ g, v.2 = .run i g → g.weak = false

/-- every time a loop was beaten somebody else has written, and once more if it is about to be -/
def Paid (V : List (Conf β T X × Act β T X)) (c : Conf β T X) : Prop :=
  c.sh.aborted = false → ∀ i, inLoop c i = true → Strong i V →
    (looks i V).2 + (c.sh.word != (looks i V).1).toNat ≤ overwrites i V

theorem paid_step {V : List (Conf β T X × Act β T X)} {c d : Conf β T X} {a : Act β T X}
    (h : Paid V c) (hs : step c a = some d) : Paid (V ++ [(c, a)]) d := by
  intro hd i hin hstrong
  have hold : Strong i V := fun v hv => hstrong v (List.mem_append_left _ hv)
  rw [looks_snoc, overwrites_snoc]
  cases a with
  | spawn t =>
    obtain ⟨he, hpool⟩ := TS.Conf.step_spawn hs
    obtain ⟨hloop, hab⟩ := enter_loop he
    show (looks i V).2 + (d.sh.word != (looks i V).1).toNat ≤ overwrites i V
    rw [enter_word he]
    refine h (hab.symm.trans hd) i ?_ hold
    unfold inLoop at hin ⊢
    rw [hpool] at hin
    rcases Nat.lt_or_ge i c.pool.length with hi | hi
    · rwa [List.getElem?_append_left hi] at hin
    · rw [List.getElem?_append_right hi] at hin
      cases hidx : i - c.pool.length with
      | zero =>
        rw [hidx] at hin
        change t.loop.isSome = true at hin
        rw [hloop] at hin
        cases hin
      | succ n =>
        rw [hidx] at hin
        cases hin
  | run j g =>
    have hc : c.sh.aborted = false := step_alive hs
    obtain ⟨t, t', ht, he, hpool⟩ := TS.Conf.step_set hs
    by_cases hji : j = i
    · subst hji
      have hweak : g.weak = false := hstrong _ (List.mem_append_right _ (List.mem_singleton.mpr rfl))
        g rfl
      have hnow : inLoop c j = t.loop.isSome := by
        unfold inLoop
        rw [ht]
        rfl
      have hlook : look j (looks j V) (c, .run j g) = (c.sh.word,
          if t.loop.isSome then
            (looks j V).2 + (g.weak || c.sh.word != (looks j V).1).toNat else 0) := by
        rw [← hnow]
        exact if_pos rfl
      have hover : overwrite j (overwrites j V) (c, .run j g) =
          if t.loop.isSome then overwrites j V else 0 := by
        rw [← hnow]
        exact if_pos rfl
      have hnew : t'.loop.isSome = true := by
        unfold inLoop at hin
        rw [hpool, List.getElem?_set_self (List.getElem?_eq_some_iff.mp ht).1] at hin
        exact hin
      have hold : t.loop.isSome = true →
          (looks j V).2 + (c.sh.word != (looks j V).1).toNat ≤ overwrites j V := fun hsome =>
        h hc j (hnow.trans hsome) hold
      rw [hlook, hover, hweak]
      have hstep := exec_loop he
      generalize t.loop = old at hstep hold
      generalize t'.loop = new at hstep hnew
      cases hstep with
      | abort cur n hn ha =>
        rw [ha] at hd
        cases hd
      | load hw =>
        rw [hw]
        simp
      | fail cur n hn hf hw =>
        have hpaid := hold rfl
        rw [hw]
        simpa using hpaid
      | outside | leave => cases hnew
    · have hlook : look i (looks i V) (c, .run j g) = looks i V := if_neg hji
      have hover : overwrite i (overwrites i V) (c, .run j g) =
          overwrites i V + (d.sh.word != c.sh.word).toNat := by
        unfold overwrite writes
        rw [hs]
        exact if_neg hji
      rw [hlook, hover]
      have hpaid := h hc i (by
        unfold inLoop at hin ⊢
        rwa [hpool, pool_set_ne hji] at hin) hold
      by_cases hw : d.sh.word = c.sh.word
      · rw [hw]
        simpa using hpaid
      · have hle := Bool.toNat_le (d.sh.word != (looks i V).1)
        have hone : (d.sh.word != c.sh.word).toNat = 1 := by
          rw [bne_iff_ne.mpr hw]
          rfl
        omega

/-- **What it takes to trip the bound.**  In a run without spurious failures in which, during any
one loop, others write fewer than `kMaxCasAttempts - 1` words, no loop reaches the bound. -/
theorem no_trips_of_few_writes (as : List (Act β T X)) (c : Conf β T X)
    (h : TS.run step init as = some c) (hstrong : ∀ i, Strong i (TS.visits step init as))
    (hfew : ∀ V v W, TS.visits step init as = V ++ v :: W → ∀ i g, v.2 = .run i g →
      inLoop v.1 i = true → overwrites i V + 1 < kMaxCasAttempts) :
    ∀ v ∈ TS.visits step init as, ¬ Trips v.1 v.2 := by
  refine not_trips_of_looks h fun V v W hv i g ha hin => ?_
  obtain ⟨bs, u, hbs, hvis, hst⟩ := TS.visits_split h hv
  have hJ : Paid ([] ++ TS.visits step init bs) v.1 := by
    refine TS.run_history (J:=Paid) (fun _ _ _ _ hp hs => paid_step hp hs) ?_ hbs
    intro _ i hin
    cases hin
  rw [List.nil_append, hvis] at hJ
  rw [ha] at hst
  have hV : Strong i V := fun w hw => hstrong i w (by
    rw [hv]
    exact List.mem_append_left _ hw)
  have hpaid := hJ (step_alive hst) i hin hV
  have hlt := hfew V v W hv i g ha hin
  omega

/-! ## contention that does -/

/-- the word with `k` senders registered -/
def registered : Nat → ActorState
  | 0 => .idle
  | k + 1 => (registered k).addSender

/-- no spurious failure -/
def strong : Choice := ⟨false, false, false, false⟩

def senderAt (pc : SendPc) : Thread Unit Nat Unit := .send ⟨⟨16, 1 <<< 60, ()⟩, .fresh, pc⟩

/-- one sender has been beaten by `k` others, who have just registered -/
def crowd (k : Nat) : Conf Unit Nat Unit :=
  ⟨{ ActorMem.init with word := registered k },
    senderAt (.regCas (registered k) k) :: List.replicate k (senderAt (.pushing .load))⟩

theorem registered_alive (k : Nat) : (registered k).isDestroying = false := by
  induction k with
  | zero => rfl
  | succ k ih =>
    show (registered k).addSender.isDestroying = false
    rw [ActorState.isDestroying_addSender, ih]

theorem addSender_ne (w : ActorState) : w.addSender ≠ w := by
  intro h
  have h := congrArg BitVec.toNat h
  have e : w.addSender.toNat = (w.toNat + 8) % 2 ^ 32 := BitVec.toNat_add w _
  have hlt := w.isLt
  omega

/-- the youngest thread moves -/
theorem step_last (m : ActorMem Unit) (l : List (Thread Unit Nat Unit)) (t : Thread Unit Nat Unit)
    (g : Choice) : step ⟨m, l ++ [t]⟩ (.run l.length g) =
      (exec g m t).map fun r => ⟨r.1, l ++ [r.2]⟩ := by
  show ((l ++ [t])[l.length]?).bind _ = _
  rw [List.getElem?_concat_length, Option.bind_some]
  congr 1
  funext r
  rw [List.set_append_right _ _ (Nat.le_refl _), Nat.sub_self]
  rfl

/-- a registration that nobody disturbs -/
theorem exec_register {m : ActorMem Unit} {n : Nat} (ha : m.aborted = false)
    (hd : m.word.isDestroying = false) (hn : n + 1 < kMaxCasAttempts) :
    exec strong m (senderAt (.regCas m.word n)) =
      some ({ m with word := m.word.addSender }, senderAt (.pushing .load)) := by
  unfold exec senderAt
  simp only [ha, Sender.step, casAttempt, if_pos hn, hd, strong]
  rfl

/-- an attempt on a word that has changed -/
theorem exec_beaten {m : ActorMem Unit} {w : ActorState} {n : Nat} (ha : m.aborted = false)
    (hd : w.isDestroying = false) (hw : m.word ≠ w) (hn : n + 1 < kMaxCasAttempts) :
    exec strong m (senderAt (.regCas w n)) = some (m, senderAt (.regCas m.word (n + 1))) := by
  unfold exec senderAt
  simp only [ha, Sender.step, casAttempt, if_pos hn, hd, hw, strong]
  rfl

/-- an attempt too many -/
theorem exec_bound {m : ActorMem Unit} {w : ActorState} {n : Nat} (ha : m.aborted = false)
    (hn : casAttempt n = none) :
    exec strong m (senderAt (.regCas w n)) = some (m.abort, senderAt (.regCas w n)) := by
  unfold exec senderAt
  simp only [ha, Sender.step, hn]
  rfl

/-- another sender registers, and the first one is beaten once more -/
theorem crowd_grows {k : Nat} (hk : k + 1 < kMaxCasAttempts) :
    TS.run step (crowd k) [.spawn (senderAt .regLoad), .run (k + 1) strong, .run (k + 1) strong,
      .run 0 strong] = some (crowd (k + 1)) := by
  have hlen : (crowd k).pool.length = k + 1 := by simp [crowd]
  have hlast := fun t => step_last (crowd k).sh (crowd k).pool t strong
  rw [hlen] at hlast
  have h1 : step (crowd k) (.spawn (senderAt .regLoad)) =
      some ⟨(crowd k).sh, (crowd k).pool ++ [senderAt .regLoad]⟩ := rfl
  have h2 : step ⟨(crowd k).sh, (crowd k).pool ++ [senderAt .regLoad]⟩ (.run (k + 1) strong) =
      some ⟨(crowd k).sh, (crowd k).pool ++ [senderAt (.regCas (registered k) 0)]⟩ := by
    rw [hlast]
    rfl
  have h3 : step ⟨(crowd k).sh, (crowd k).pool ++ [senderAt (.regCas (registered k) 0)]⟩
      (.run (k + 1) strong) = some ⟨(crowd (k + 1)).sh,
        (crowd k).pool ++ [senderAt (.pushing .load)]⟩ := by
    rw [hlast, show registered k = (crowd k).sh.word from rfl,
      exec_register rfl (registered_alive k) (by decide)]
    rfl
  have h4 : step ⟨(crowd (k + 1)).sh, (crowd k).pool ++ [senderAt (.pushing .load)]⟩
      (.run 0 strong) = some (crowd (k + 1)) := by
    show (exec strong (crowd (k + 1)).sh (senderAt (.regCas (registered k) k))).map _ = _
    rw [exec_beaten rfl (registered_alive k) (addSender_ne _) hk]
    show some (TS.Conf.mk _ (senderAt (.regCas (registered (k + 1)) (k + 1)) ::
      (List.replicate k (senderAt (.pushing .load)) ++ [senderAt (.pushing .load)]))) = _
    rw [← List.replicate_succ']
    rfl
  rw [TS.run_cons_some]
  refine ⟨_, h1, TS.run_cons_some.mpr ⟨_, h2, TS.run_cons_some.mpr ⟨_, h3, ?_⟩⟩⟩
  exact TS.run_cons_some.mpr ⟨_, h4, rfl⟩

theorem crowd_bound {k : Nat} (hk : casAttempt k = none) :
    step (crowd k) (.run 0 strong) = some ⟨(crowd k).sh.abort, (crowd k).pool⟩ := by
  show (exec strong (crowd k).sh (senderAt (.regCas (registered k) k))).map _ = _
  rw [exec_bound rfl hk]
  rfl

/-- a step of a sender, with no spurious failure -/
def bySender : Act Unit Nat Unit → Bool
  | .spawn (.send _) => true
  | .run _ g => g == strong
  | _ => false

theorem crowd_reached {k : Nat} (hk : k < kMaxCasAttempts) :
    ∃ as, TS.run step init as = some (crowd k) ∧ ∀ a ∈ as, bySender a = true := by
  induction k with
  | zero =>
    refine ⟨[.spawn (senderAt .regLoad), .run 0 strong], rfl, ?_⟩
    decide
  | succ k ih =>
    obtain ⟨as, has, hall⟩ := ih (Nat.lt_of_succ_lt hk)
    refine ⟨as ++ [.spawn (senderAt .regLoad), .run (k + 1) strong, .run (k + 1) strong,
      .run 0 strong], ?_, fun a ha => ?_⟩
    · rw [TS.run_append, has]
      exact crowd_grows hk
    · rcases List.mem_append.mp ha with ha | ha
      · exact hall a ha
      · simp only [List.mem_cons, List.not_mem_nil, or_false] at ha
        rcases ha with rfl | rfl | rfl | rfl <;> rfl

/-- **Contention is not a broken state machine**: a thousand calls of `send()` on a fresh actor, and
no spurious failure, abort the process. -/
theorem contention_trips : ∃ (as : List (Act Unit Nat Unit)) (c : Conf Unit Nat Unit),
    TS.run step init as = some c ∧ (∀ a ∈ as, bySender a = true) ∧
      (∃ v ∈ TS.visits step init as, Trips v.1 v.2) ∧ c.sh.aborted = true := by
  obtain ⟨as, has, hall⟩ := crowd_reached (k:=kMaxCasAttempts - 1) (by decide)
  have hcas : casAttempt (kMaxCasAttempts - 1) = none := by decide
  have hs := crowd_bound hcas
  refine ⟨as ++ [.run 0 strong], _, TS.run_snoc.mpr ⟨_, has, hs⟩, fun a ha => ?_,
    ⟨(crowd (kMaxCasAttempts - 1), .run 0 strong), ?_, 0, strong, _, rfl, rfl, hcas⟩, rfl⟩
  · rcases List.mem_append.mp ha with ha | ha
    · exact hall a ha
    · rw [List.mem_singleton.mp ha]
      rfl
  · rw [TS.visits_snoc has]
    exact List.mem_append_right _ (List.mem_singleton.mpr rfl)

end Actor
end ActorZeta
