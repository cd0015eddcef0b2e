import Rodos.DuplicateSuppression
import Rodos.SemaphoreExclusion

namespace Rodos.SeenNodesProtector

open NetworkMessage DuplicateSuppression TransitionSystem
open SemaphoreMachine (int32)
open SemaphoreExclusion (int32_of_lt)

variable {T : Type} [DecidableEq T]

/-- The semaphore `seenNodesProtector` without its priorities. -/
structure Protector (T : Type) where
  owner : Option T
  ownerEnterCnt : Int
  deriving DecidableEq, Repr

namespace Protector

def occupied (p : Protector T) (caller : T) : Prop := p.owner ≠ none ∧ p.owner ≠ some caller

instance (p : Protector T) (caller : T) : Decidable (p.occupied caller) := by
  unfold occupied
  infer_instance

def take (p : Protector T) (caller : T) : Protector T :=
  ⟨some caller, int32 (p.ownerEnterCnt + 1)⟩

/-- What `enter` does after it has waited. -/
def takeOver (p : Protector T) (caller : T) : Protector T :=
  take { p with ownerEnterCnt := 0 } caller

/-- The waiter is what `findNextWaitingFor` returns. -/
def leave (p : Protector T) (caller : T) (waiter : Option T) : Protector T :=
  if p.owner ≠ some caller then p
  else if 0 < int32 (p.ownerEnterCnt - 1) then
    { p with ownerEnterCnt := int32 (p.ownerEnterCnt - 1) }
  else ⟨waiter, int32 (p.ownerEnterCnt - 1)⟩

end Protector

/-- What the return of `messageSeen` makes of the protector. -/
def exitProtector (o : Outcome) (p : Protector T) (caller : T) (waiter : Option T) : Protector T :=
  if o.left then p.leave caller waiter else p

/-- A call of `messageSeen` by a thread that need not wait, with nobody waiting. -/
def callMessageSeen (t : SeenNodes) (msg : NetworkMessage) (p : Protector T) (caller : T) :
    Protector T :=
  exitProtector (messageSeen t msg) (p.take caller) caller none

/-- The exit in `RODOS_ASSERT_IFNOT_RETURN`: the table is full and the sender
is not in it. -/
def TableFull (t : SeenNodes) (msg : NetworkMessage) : Prop :=
  find t (getSenderNode msg) = none ∧ maxNumberOfNodes ≤ t.numberOfNodes

def Open (p : Protector T) (caller : T) : Prop :=
  p.owner = none ∧ p.ownerEnterCnt = 0 ∨
    p.owner = some caller ∧ 1 ≤ p.ownerEnterCnt ∧ p.ownerEnterCnt < 2 ^ 31 - 1

theorem left_compare (t : SeenNodes) (node : Nat) (x : Int) :
    (compareTime t node x).left = true := by
  rw [compareTime]
  split
  · split <;> rfl
  · rfl

theorem left_iff (t : SeenNodes) (msg : NetworkMessage) :
    (messageSeen t msg).left = true ↔ ¬ TableFull t msg := by
  rw [messageSeen, TableFull]
  cases find t (getSenderNode msg) with
  | some node => simp [left_compare]
  | none =>
    by_cases hroom : t.numberOfNodes < maxNumberOfNodes
    · simp [hroom, left_compare]
    · simp [hroom, not_lt.mp hroom]

theorem leave_take {p : Protector T} {caller : T} (h : Open p caller) :
    (p.take caller).leave caller none = p := by
  obtain ⟨owner, cnt⟩ := p
  rw [Protector.leave, Protector.take]
  obtain ⟨rfl, rfl⟩ | ⟨rfl, hpos, hlt⟩ := h
  · have hup : int32 (0 + 1) = 1 := by decide
    have hdown : int32 (1 - 1) = 0 := by decide
    simp only [hup, hdown, ne_eq, not_true_eq_false, if_false, lt_self_iff_false]
  · change 1 ≤ cnt at hpos
    change cnt < 2 ^ 31 - 1 at hlt
    have hup : int32 (cnt + 1) = cnt + 1 := int32_of_lt (by omega) (by omega)
    have hdown : int32 (cnt + 1 - 1) = cnt := by
      rw [Int.add_sub_cancel]
      exact int32_of_lt (by omega) (by omega)
    simp only [hup, hdown, ne_eq, not_true_eq_false, if_false]
    rw [if_pos (by omega)]

omit [DecidableEq T] in
theorem take_ne {p : Protector T} {caller : T} (h : Open p caller) : p.take caller ≠ p := by
  obtain ⟨owner, cnt⟩ := p
  intro heq
  have hcnt := congrArg Protector.ownerEnterCnt heq
  rw [Protector.take] at hcnt
  simp only at hcnt
  obtain ⟨-, rfl⟩ | ⟨-, hpos, hlt⟩ := h
  · exact absurd hcnt (by decide)
  · change 1 ≤ cnt at hpos
    change cnt < 2 ^ 31 - 1 at hlt
    rw [int32_of_lt (by omega) (by omega)] at hcnt
    omega

/-- A call restores the protector exactly if it does not take the exit of the
assertion. -/
theorem callMessageSeen_eq_iff {p : Protector T} {caller : T} (h : Open p caller) (t : SeenNodes)
    (msg : NetworkMessage) : callMessageSeen t msg p caller = p ↔ ¬ TableFull t msg := by
  rw [callMessageSeen, exitProtector]
  rw [← left_iff]
  constructor
  · intro heq
    by_contra hleft
    rw [if_neg hleft] at heq
    exact take_ne h heq
  · intro hleft
    rw [if_pos hleft]
    exact leave_take h

section Node

variable [Fintype T]

/-- Where a gateway thread is: not in `messageSeen`, suspended in `enter`, or
past it. -/
inductive Progress
  | outside
  | waiting (msg : NetworkMessage)
  | inside (msg : NetworkMessage)

def Progress.isOutside : Progress → Bool
  | .outside => true
  | _ => false

def Progress.isWaiting : Progress → Bool
  | .waiting _ => true
  | _ => false

structure Node (T : Type) where
  table : SeenNodes
  protector : Protector T
  threads : T → Progress

/-- A thread calls `messageSeen`, wakes up in `enter` with the protector, or
goes on to the return. -/
inductive Event (T : Type)
  | call (t : T) (msg : NetworkMessage)
  | wake (t : T)
  | finish (t : T) (waiter : Option T)

/-- Some waiting thread, and none only if there is none. -/
def NextWaiting (s : Node T) : Option T → Prop
  | none => ∀ u, (s.threads u).isWaiting = false
  | some w => (s.threads w).isWaiting = true

instance (s : Node T) (waiter : Option T) : Decidable (NextWaiting s waiter) := by
  unfold NextWaiting
  cases waiter <;> infer_instance

def step (e : Event T) (s : Node T) : Option (Node T) :=
  match e with
  | .call t msg =>
    match s.threads t with
    | .outside =>
      if s.protector.occupied t then
        some { s with threads := Function.update s.threads t (.waiting msg) }
      else some { s with
        protector := s.protector.take t
        threads := Function.update s.threads t (.inside msg) }
    | _ => none
  | .wake t =>
    match s.threads t with
    | .waiting msg =>
      if s.protector.occupied t then none
      else some { s with
        protector := s.protector.takeOver t
        threads := Function.update s.threads t (.inside msg) }
    | _ => none
  | .finish t waiter =>
    match s.threads t with
    | .inside msg =>
      if NextWaiting s waiter then
        some {
          table := (messageSeen s.table msg).table
          protector := exitProtector (messageSeen s.table msg) s.protector t waiter
          threads := Function.update s.threads t .outside }
      else none
    | _ => none

def Start (s : Node T) : Prop :=
  s.table.numberOfNodes = 0 ∧ s.protector = ⟨none, 0⟩ ∧ ∀ t, s.threads t = .outside

inductive Step (s : Node T) : Event T → Node T → Prop
  | wait (t : T) (msg : NetworkMessage) (ht : s.threads t = .outside)
    (ho : s.protector.occupied t) :
    Step s (.call t msg) { s with threads := Function.update s.threads t (.waiting msg) }
  | enter (t : T) (msg : NetworkMessage) (ht : s.threads t = .outside)
    (ho : ¬ s.protector.occupied t) :
    Step s (.call t msg) { s with
      protector := s.protector.take t
      threads := Function.update s.threads t (.inside msg) }
  | wake (t : T) (msg : NetworkMessage) (ht : s.threads t = .waiting msg)
    (ho : ¬ s.protector.occupied t) :
    Step s (.wake t) { s with
      protector := s.protector.takeOver t
      threads := Function.update s.threads t (.inside msg) }
  | finish (t : T) (waiter : Option T) (msg : NetworkMessage) (ht : s.threads t = .inside msg)
    (hw : NextWaiting s waiter) :
    Step s (.finish t waiter) {
      table := (messageSeen s.table msg).table
      protector := exitProtector (messageSeen s.table msg) s.protector t waiter
      threads := Function.update s.threads t .outside }

theorem step_iff {e : Event T} {s s' : Node T} : step e s = some s' ↔ Step s e s' := by
  constructor
  · intro h
    cases e with
    | call t msg =>
      cases ht : s.threads t with
      | outside =>
        simp only [step, ht] at h
        split at h
        · rename_i ho
          exact Option.some.inj h ▸ .wait t msg ht ho
        · rename_i ho
          exact Option.some.inj h ▸ .enter t msg ht ho
      | waiting m | inside m => simp [step, ht] at h
    | wake t =>
      cases ht : s.threads t with
      | waiting m =>
        simp only [step, ht] at h
        split at h
        · cases h
        · rename_i ho
          exact Option.some.inj h ▸ .wake t m ht ho
      | outside | inside m => simp [step, ht] at h
    | finish t waiter =>
      cases ht : s.threads t with
      | inside m =>
        simp only [step, ht] at h
        split at h
        · rename_i hw
          exact Option.some.inj h ▸ .finish t waiter m ht hw
        · cases h
      | outside | waiting m => simp [step, ht] at h
  · intro h
    cases h with
    | wait t msg ht ho => simp only [step, ht, if_pos ho]
    | enter t msg ht ho => simp only [step, ht, if_neg ho]
    | wake t msg ht ho => simp only [step, ht, if_neg ho]
    | finish t waiter msg ht hw => simp only [step, ht, if_pos hw]

structure Registered (senders : Finset Int) (t : SeenNodes) : Prop where
  distinct : Distinct t
  known : ∀ i < t.numberOfNodes, (t.seenNodes i).nodeID ∈ senders

theorem Registered.not_tableFull {senders : Finset Int} {t : SeenNodes} {msg : NetworkMessage}
    (h : Registered senders t) (hcard : senders.card ≤ maxNumberOfNodes)
    (hs : getSenderNode msg ∈ senders) : ¬ TableFull t msg := by
  rintro ⟨hf, hfull⟩
  have hk : ∀ s, find t s ≠ none → s ∈ senders := by
    intro s hne
    obtain ⟨node, hnode⟩ := Option.ne_none_iff_exists'.mp hne
    obtain ⟨hlt, rfl⟩ := find_spec hnode
    exact h.known node hlt
  have hroom := room_of_known h.distinct hk hs hf
  omega

theorem Registered.compareTime {senders : Finset Int} {t : SeenNodes} (h : Registered senders t)
    (node : Nat) (x : Int) : Registered senders (compareTime t node x).table := by
  have hset : Registered senders (setTime t node x) := by
    refine ⟨?_, ?_⟩
    · intro i j hi hj hid
      rw [setTime_nodeID, setTime_nodeID] at hid
      exact h.distinct i j hi hj hid
    · intro i hi
      rw [setTime_nodeID]
      exact h.known i hi
  rw [DuplicateSuppression.compareTime]
  split
  · split
    · exact hset
    · exact h
  · exact hset

theorem Registered.messageSeen {senders : Finset Int} {t : SeenNodes} {msg : NetworkMessage}
    (h : Registered senders t) (hs : getSenderNode msg ∈ senders) :
    Registered senders (messageSeen t msg).table := by
  rw [DuplicateSuppression.messageSeen]
  cases hf : find t (getSenderNode msg) with
  | some node => exact h.compareTime node _
  | none =>
    simp only
    split
    · apply Registered.compareTime
      refine ⟨enroll_distinct h.distinct hf _, ?_⟩
      intro i hi
      obtain hi | rfl := Nat.lt_succ_iff_lt_or_eq.mp hi
      · rw [enroll_nodeID _ _ _ hi]
        exact h.known i hi
      · simpa [enroll] using hs
    · exact h

/-- Who owns the protector is in `messageSeen`, and who waits for it waits for
such a thread. -/
structure Balanced (senders : Finset Int) (s : Node T) : Prop where
  table : Registered senders s.table
  senders : ∀ t msg, s.threads t = .waiting msg ∨ s.threads t = .inside msg →
    getSenderNode msg ∈ senders
  inside : ∀ t msg, s.threads t = .inside msg → s.protector = ⟨some t, 1⟩
  waiting : ∀ t msg, s.threads t = .waiting msg → s.protector.owner ≠ none
  owner : ∀ t, s.protector.owner = some t → s.threads t ≠ .outside
  free : s.protector.owner = none → s.protector.ownerEnterCnt = 0

def FromSenders (senders : Finset Int) : Event T → Prop
  | .call _ msg => getSenderNode msg ∈ senders
  | _ => True

section

variable {senders : Finset Int} {s s' : Node T}

omit [Fintype T] in
theorem Balanced.senders_update (h : Balanced senders s) {t : T} {p : Progress}
    (hp : ∀ m, p = .waiting m ∨ p = .inside m → getSenderNode m ∈ senders) (u : T)
    (m : NetworkMessage) (hu : Function.update s.threads t p u = .waiting m ∨
      Function.update s.threads t p u = .inside m) : getSenderNode m ∈ senders := by
  by_cases hut : u = t
  · rw [hut, Function.update_self] at hu
    exact hp m hu
  · rw [Function.update_of_ne hut] at hu
    exact h.senders u m hu

omit [Fintype T] in
theorem balanced_wait {t : T} {msg : NetworkMessage} (h : Balanced senders s)
    (hs : getSenderNode msg ∈ senders) (ht : s.threads t = .outside)
    (ho : s.protector.occupied t) :
    Balanced senders { s with threads := Function.update s.threads t (.waiting msg) } := by
  refine ⟨h.table, h.senders_update ?_, ?_, ?_, ?_, h.free⟩
  · rintro m (⟨⟨⟩⟩ | ⟨⟨⟩⟩)
    exact hs
  · intro u m hu
    by_cases hut : u = t
    · subst hut
      simp at hu
    · simp only [Function.update_of_ne hut] at hu
      exact h.inside u m hu
  · intro u m _
    exact ho.1
  · intro u hu
    have hut : u ≠ t := by
      rintro rfl
      exact ho.2 hu
    simp only [Function.update_of_ne hut]
    exact h.owner u hu

omit [Fintype T] in
theorem balanced_inside {t : T} {msg : NetworkMessage} (h : Balanced senders s)
    (hs : getSenderNode msg ∈ senders) (halone : ∀ u m, s.threads u = .inside m → u = t) :
    Balanced senders { s with
      protector := ⟨some t, 1⟩
      threads := Function.update s.threads t (.inside msg) } := by
  refine ⟨h.table, h.senders_update ?_, ?_, ?_, ?_, ?_⟩
  · rintro m (⟨⟨⟩⟩ | ⟨⟨⟩⟩)
    exact hs
  · intro u m hu
    by_cases hut : u = t
    · rw [hut]
    · simp only [Function.update_of_ne hut] at hu
      exact absurd (halone u m hu) hut
  · intro u m _
    exact Option.some_ne_none t
  · intro u hu
    obtain rfl := Option.some.inj hu
    simp
  · intro hnone
    cases hnone

omit [Fintype T] in
theorem Balanced.alone {t : T} (h : Balanced senders s) (ho : ¬ s.protector.occupied t) (u : T)
    (m : NetworkMessage) (hu : s.threads u = .inside m) : u = t := by
  have howner := congrArg Protector.owner (h.inside u m hu)
  by_contra hne
  apply ho
  refine ⟨?_, ?_⟩ <;> rw [howner]
  · exact Option.some_ne_none u
  · exact fun heq => hne (Option.some.inj heq)

omit [Fintype T] in
theorem balanced_finish {t : T} {msg : NetworkMessage} {waiter : Option T}
    (h : Balanced senders s) (hcard : senders.card ≤ maxNumberOfNodes)
    (ht : s.threads t = .inside msg) (hw : NextWaiting s waiter) :
    Balanced senders {
      table := (messageSeen s.table msg).table
      protector := exitProtector (messageSeen s.table msg) s.protector t waiter
      threads := Function.update s.threads t .outside } := by
  have hs := h.senders t msg (.inr ht)
  have hleft : (messageSeen s.table msg).left = true :=
    (left_iff s.table msg).mpr (h.table.not_tableFull hcard hs)
  have hcnt : int32 (1 - 1) = 0 := by decide
  have hexit : exitProtector (messageSeen s.table msg) s.protector t waiter = ⟨waiter, 0⟩ := by
    rw [exitProtector, Protector.leave]
    rw [if_pos hleft, h.inside t msg ht]
    simp only [ne_eq, not_true_eq_false, if_false, hcnt, lt_self_iff_false]
  rw [hexit]
  refine ⟨h.table.messageSeen hs, h.senders_update ?_, ?_, ?_, ?_, fun _ => rfl⟩
  · rintro m (⟨⟨⟩⟩ | ⟨⟨⟩⟩)
  · intro u m hu
    by_cases hut : u = t
    · subst hut
      simp at hu
    · simp only [Function.update_of_ne hut] at hu
      have howner := (h.inside u m hu).symm.trans (h.inside t msg ht)
      exact absurd (Option.some.inj (congrArg Protector.owner howner)) hut
  · intro u m hu
    by_cases hut : u = t
    · subst hut
      simp at hu
    · simp only [Function.update_of_ne hut] at hu
      cases waiter with
      | none =>
        have hnot := hw u
        rw [hu] at hnot
        cases hnot
      | some w => exact Option.some_ne_none w
  · intro u hu
    cases waiter with
    | none => cases hu
    | some w =>
      obtain rfl := Option.some.inj hu
      have hwait : (s.threads w).isWaiting = true := hw
      have hne : w ≠ t := by
        rintro rfl
        rw [ht] at hwait
        cases hwait
      simp only [Function.update_of_ne hne]
      intro hout
      rw [hout] at hwait
      cases hwait

theorem step_balanced {e : Event T} (h : Balanced senders s)
    (hcard : senders.card ≤ maxNumberOfNodes) (he : FromSenders senders e)
    (hs : step e s = some s') : Balanced senders s' := by
  cases step_iff.mp hs with
  | wait t msg ht ho => exact balanced_wait h he ht ho
  | enter t msg ht ho =>
    have hfree : s.protector.owner = none := by
      by_contra hne
      apply ho
      refine ⟨hne, ?_⟩
      intro heq
      exact h.owner t heq ht
    have htake : s.protector.take t = ⟨some t, 1⟩ := by
      rw [Protector.take]
      rw [h.free hfree]
      rfl
    rw [htake]
    exact balanced_inside h he (h.alone ho)
  | wake t msg ht ho => exact balanced_inside h (h.senders t msg (.inl ht)) (h.alone ho)
  | finish t waiter msg ht hw => exact balanced_finish h hcard ht hw

omit [Fintype T] [DecidableEq T] in
theorem start_balanced (h : Start s) : Balanced senders s := by
  obtain ⟨htable, hprot, hout⟩ := h
  refine ⟨⟨?_, ?_⟩, ?_, ?_, ?_, ?_, ?_⟩
  · intro i j hi
    rw [htable] at hi
    exact absurd hi (Nat.not_lt_zero i)
  · intro i hi
    rw [htable] at hi
    exact absurd hi (Nat.not_lt_zero i)
  · intro t msg ht
    rw [hout] at ht
    obtain ht | ht := ht <;> cases ht
  · intro t msg ht
    rw [hout] at ht
    cases ht
  · intro t msg ht
    rw [hout] at ht
    cases ht
  · intro t ht
    rw [hprot] at ht
    cases ht
  · intro _
    rw [hprot]

theorem reachable_balanced (hcard : senders.card ≤ maxNumberOfNodes)
    (h : ReachableUnder Start step (fun e _ => FromSenders senders e) s) : Balanced senders s := by
  apply h.invariant (Balanced senders) (fun s hs => start_balanced hs)
  intro e s s' hb he hs
  exact step_balanced hb hcard he hs

def NoCall : Event T → Prop
  | .call _ _ => False
  | _ => True

def Settled (s : Node T) : Prop := (∀ t, s.threads t = .outside) ∧ s.protector = ⟨none, 0⟩

def Progress.rounds : Progress → Nat
  | .outside => 0
  | .inside _ => 1
  | .waiting _ => 2

def pending (s : Node T) : Nat := ∑ t, (s.threads t).rounds

theorem pending_lt {t : T} {pr : Progress} (h : pr.rounds < (s.threads t).rounds)
    (hthreads : s'.threads = Function.update s.threads t pr) : pending s' < pending s := by
  rw [pending]
  apply Finset.sum_lt_sum
  · intro u _
    by_cases hut : u = t
    · subst hut
      simp only [hthreads, Function.update_self]
      exact h.le
    · simp only [hthreads, Function.update_of_ne hut]
      exact le_rfl
  · refine ⟨t, Finset.mem_univ t, ?_⟩
    simp only [hthreads, Function.update_self]
    exact h

omit [DecidableEq T] in
theorem exists_nextWaiting (s : Node T) : ∃ waiter, NextWaiting s waiter := by
  by_cases h : ∃ w, (s.threads w).isWaiting = true
  · obtain ⟨w, hw⟩ := h
    exact ⟨some w, hw⟩
  · refine ⟨none, ?_⟩
    intro u
    by_contra hu
    exact h ⟨u, by simpa using hu⟩

theorem exists_step (h : Balanced senders s) (hpending : ¬ ∀ t, s.threads t = .outside) :
    ∃ e s', NoCall e ∧ step e s = some s' := by
  obtain ⟨o, ho⟩ : ∃ o, s.protector.owner = some o := by
    obtain ⟨t, ht⟩ := not_forall.mp hpending
    apply Option.ne_none_iff_exists'.mp
    cases hpr : s.threads t with
    | outside => exact absurd hpr ht
    | waiting msg => exact h.waiting t msg hpr
    | inside msg =>
      rw [h.inside t msg hpr]
      exact Option.some_ne_none t
  have hfree : ¬ s.protector.occupied o := fun hocc => hocc.2 ho
  cases hpr : s.threads o with
  | outside => exact absurd hpr (h.owner o ho)
  | waiting msg => exact ⟨.wake o, _, trivial, step_iff.mpr (.wake o msg hpr hfree)⟩
  | inside msg =>
    obtain ⟨waiter, hw⟩ := exists_nextWaiting s
    exact ⟨.finish o waiter, _, trivial, step_iff.mpr (.finish o waiter msg hpr hw)⟩

theorem noCall_pending {e : Event T} (he : NoCall e) (hs : step e s = some s') :
    pending s' < pending s := by
  cases step_iff.mp hs with
  | wait t msg | enter t msg => exact he.elim
  | wake t msg ht ho => exact pending_lt (t := t) (by rw [ht]; exact Nat.one_lt_two) rfl
  | finish t waiter msg ht hw => exact pending_lt (t := t) (by rw [ht]; exact Nat.one_pos) rfl

omit [Fintype T] [DecidableEq T] in
theorem settled_of_balanced (h : Balanced senders s) (hout : ∀ t, s.threads t = .outside) :
    Settled s := by
  refine ⟨hout, ?_⟩
  have hnone : s.protector.owner = none := by
    by_contra hne
    obtain ⟨o, ho⟩ := Option.ne_none_iff_exists'.mp hne
    exact h.owner o ho (hout o)
  have hcnt := h.free hnone
  generalize s.protector = p at *
  obtain ⟨owner, cnt⟩ := p
  obtain rfl : owner = none := hnone
  obtain rfl : cnt = 0 := hcnt
  rfl

/-- With no further calls every thread returns, in whatever order they go on. -/
theorem settles (hcard : senders.card ≤ maxNumberOfNodes) (h : Balanced senders s) :
    Inevitable step NoCall Settled s := by
  by_cases hout : ∀ t, s.threads t = .outside
  · exact .now (settled_of_balanced h hout)
  · apply Inevitable.of_decreasing
      (fun s => Balanced senders s ∧ ¬ ∀ t, s.threads t = .outside) pending
    · intro s hs
      exact exists_step hs.1 hs.2
    · intro e s s' hs he hstep
      have hfrom : FromSenders senders e := by
        cases e with
        | call t msg => exact he.elim
        | wake t | finish t waiter => trivial
      have hb := step_balanced hs.1 hcard hfrom hstep
      by_cases hout' : ∀ t, s'.threads t = .outside
      · exact .inl (settled_of_balanced hb hout')
      · exact .inr ⟨⟨hb, hout'⟩, noCall_pending he hstep⟩
    · exact ⟨h, hout⟩

end

variable (T) in
/-- A call leaves the protector as it was exactly if it does not find the
table full. While the messages come from no more senders than the table
holds, a thread that has returned never owns the protector, and no thread in
`messageSeen` stays there. -/
theorem protector_balanced :
    (∀ (p : Protector T) (caller : T), Open p caller → ∀ (t : SeenNodes) (msg : NetworkMessage),
      callMessageSeen t msg p caller = p ↔ ¬ TableFull t msg) ∧
    ∀ senders : Finset Int, senders.card ≤ maxNumberOfNodes → ∀ s : Node T,
      ReachableUnder Start step (fun e _ => FromSenders senders e) s →
      (∀ t, s.threads t = .outside → s.protector.owner ≠ some t) ∧
        Inevitable step NoCall Settled s := by
  refine ⟨fun p caller h => callMessageSeen_eq_iff h, ?_⟩
  intro senders hcard s hs
  have hb := reachable_balanced hcard hs
  refine ⟨?_, settles hcard hb⟩
  intro t ht howner
  exact hb.owner t howner ht

end Node

def messageFrom (sender : Int32) : NetworkMessage :=
  prepareNetworkMessage blank 100 [] { request with senderNode := sender }

def twoGateways : Node Bool := ⟨emptyTable, ⟨none, 0⟩, fun _ => .outside⟩

theorem start_twoGateways : Start twoGateways := ⟨rfl, rfl, fun _ => rfl⟩

def handles (sender : Int32) : List (Event Bool) :=
  [.call false (messageFrom sender), .finish false none]

instance (senders : Finset Int) (e : Event Bool) : Decidable (FromSenders senders e) := by
  unfold FromSenders
  cases e <;> infer_instance

theorem protector_balanced_twoGateways :
    callMessageSeen emptyTable (messageFrom 1) ⟨none, 0⟩ false = ⟨none, 0⟩ ∧
    ∃ s : Node Bool, (s.threads true).isWaiting = true ∧ Inevitable step NoCall Settled s := by
  obtain ⟨hcall, hrun⟩ := protector_balanced Bool
  obtain ⟨s, hs, hwait⟩ := exists_reachable Start step
    (fun e _ => FromSenders ({1, 2} : Finset Int) e) twoGateways start_twoGateways
    [.call false (messageFrom 1), .call true (messageFrom 2)]
    (fun s => (s.threads true).isWaiting = true) (by decide +kernel)
  refine ⟨(hcall _ _ (.inl ⟨rfl, rfl⟩) _ _).mpr ?_, s, hwait, (hrun {1, 2} (by decide) s hs).2⟩
  rintro ⟨-, hfull⟩
  exact absurd hfull (by decide)

/-- The first gateway gets messages of eleven senders, then the second one. -/
def eleventhSender : List (Event Bool) :=
  (List.range 11).flatMap (fun k => handles (Int32.ofNat k)) ++ [.call true (messageFrom 0)]

def tenSenders : SeenNodes := tableAt (fun k => messageFrom (Int32.ofNat k)) emptyTable 10

/-- The message of one more sender does not leave the protector. The gateway
that has returned owns it, and the other one waits with no step left but a
further message for the first. -/
theorem eleventhSender_blocks :
    callMessageSeen tenSenders (messageFrom 10) ⟨none, 0⟩ false = ⟨some false, 1⟩ ∧
    ∃ s : Node Bool, Reachable Start step s ∧ s.threads false = .outside ∧
      s.protector.owner = some false ∧ (s.threads true).isWaiting = true ∧
      ∀ e, NoCall e → step e s = none := by
  obtain ⟨s, hs, hout, howner, hwait⟩ := exists_reachable Start step (fun _ _ => True) twoGateways
    start_twoGateways eleventhSender
    (fun s => (s.threads false).isOutside = true ∧ s.protector.owner = some false ∧
      (s.threads true).isWaiting = true) (by decide +kernel)
  have hfalse : s.threads false = .outside := by
    cases hpr : s.threads false with
    | outside => rfl
    | waiting m | inside m => simp [hpr, Progress.isOutside] at hout
  refine ⟨by decide +kernel, s, hs, hfalse, howner, hwait, ?_⟩
  intro e he
  cases hstep : step e s with
  | none => rfl
  | some s' =>
    cases step_iff.mp hstep with
    | wait t msg | enter t msg => exact he.elim
    | wake t msg ht ho =>
      cases t with
      | false => cases hfalse.symm.trans ht
      | true =>
        apply absurd _ ho
        rw [Protector.occupied, howner]
        decide
    | finish t waiter msg ht hw =>
      cases t with
      | false => cases hfalse.symm.trans ht
      | true =>
        rw [ht] at hwait
        cases hwait

end Rodos.SeenNodesProtector
