import Rodos.RoundRobin
import Rodos.TransitionSystem

namespace Rodos.YieldPreselection

open ThreadSelection RoundRobin TransitionSystem

variable {T G : Type} [DecidableEq T]

/-- The statements of `Thread::yield`, of the test in `schedulerWrapper` and
of `Scheduler::schedule` up to its store of the next scheduling time, each
with the local variables that are still needed. -/
inductive Pc (T : Type)
  | resetTime
  | readCounter
  | beginFind (start : Nat)
  | find (start : Nat) (timeNow : Int) (rest : List T) (acc : T × Int)
  | compareCounter (start : Nat) (acc : T × Int)
  | sameThread (start : Nat) (acc : T × Int)
  | lock (start : Nat) (acc : T × Int)
  | stopTimer (start : Nat) (acc : T × Int)
  | preselect (start : Nat) (acc : T × Int)
  | preselectEarliest (acc : T × Int)
  | wrapper
  | count
  | fetch
  | findFromISR (timeNow : Int) (rest : List T) (acc : T × Int)
  | clear (acc : T × Int)
  | checkStack (acc : T × Int)
  | stamp (next : T) (sel : Int)
  | nextEvent (next : T) (sel : Int)
  | storeTime (next : T) (time : Int)
  | stored (next : T)
  | returned
  deriving DecidableEq, Repr

structure Machine (T G : Type) where
  sched : Scheduler T G
  current : T
  yieldSchedulingLock : Bool
  now : Int
  pc : Pc T
  late : List T

/-- The search that decides has already read the state of this thread. -/
def Inspected (t : T) : Pc T → Prop
  | .resetTime | .readCounter | .beginFind _ => False
  | .find _ _ rest _ | .findFromISR _ rest _ => t ∉ rest
  | _ => True

instance (t : T) (pc : Pc T) : Decidable (Inspected t pc) := by
  cases pc <;> unfold Inspected <;> infer_instance

inductive Event (T G : Type)
  | exec
  | resume (t : T)
  | elapse (now : Int)
  | preempt (sched : Scheduler T G) (now : Int)

def setTime (s : Scheduler T G) (time : Int) : Scheduler T G :=
  { s with timeToTryAgainToSchedule := time }

section

variable (idlethread : T) (threadList : List T) (stackViolation : T → Bool)

def exec (m : Machine T G) : Machine T G :=
  match m.pc with
  | .resetTime => { m with sched := setTime m.sched 0, pc := .readCounter }
  | .readCounter => { m with pc := .beginFind m.sched.scheduleCounter }
  | .beginFind start =>
    { m with pc := .find start m.now threadList (idlethread, endOfTime), late := [] }
  | .find start _ [] acc => { m with pc := .compareCounter start acc }
  | .find start timeNow (iter :: rest) acc =>
    { m with pc := .find start timeNow rest (selectStep m.sched.threads timeNow iter acc) }
  | .compareCounter start acc =>
    { m with pc := if start ≠ m.sched.scheduleCounter then .returned else .sameThread start acc }
  | .sameThread start acc =>
    { m with pc := if acc.1 = m.current then .returned else .lock start acc }
  | .lock start acc => { m with yieldSchedulingLock := true, pc := .stopTimer start acc }
  | .stopTimer start acc => { m with pc := .preselect start acc }
  | .preselect start acc =>
    if start = m.sched.scheduleCounter then
      { m with
        sched := { m.sched with preSelectedNextToRun := some acc.1 }, pc := .preselectEarliest acc }
    else { m with pc := .wrapper }
  | .preselectEarliest acc =>
    { m with
      sched := { m.sched with preSelectedEarliestSuspendedUntil := acc.2 }, pc := .wrapper }
  | .wrapper =>
    { m with pc := if m.now < m.sched.timeToTryAgainToSchedule then .returned else .count }
  | .count =>
    { m with
      sched := { m.sched with scheduleCounter := (m.sched.scheduleCounter + 1) % 2 ^ 64 },
      pc := .fetch }
  | .fetch =>
    match m.sched.preSelectedNextToRun with
    | some t => { m with pc := .clear (t, m.sched.preSelectedEarliestSuspendedUntil) }
    | none => { m with pc := .findFromISR m.now threadList (idlethread, endOfTime), late := [] }
  | .findFromISR _ [] acc => { m with pc := .clear acc }
  | .findFromISR timeNow (iter :: rest) acc =>
    { m with pc := .findFromISR timeNow rest (selectStep m.sched.threads timeNow iter acc) }
  | .clear acc =>
    { m with sched := { m.sched with preSelectedNextToRun := none }, pc := .checkStack acc }
  | .checkStack acc =>
    if stackViolation acc.1 then
      { m with
        sched := { m.sched with threads := deactivate m.sched.threads acc.1 },
        pc := .stamp idlethread acc.2 }
    else { m with pc := .stamp acc.1 acc.2 }
  | .stamp next sel =>
    { m with
      sched := { m.sched with
        threads := setActivation m.sched.threads next m.sched.scheduleCounter },
      pc := .nextEvent next sel }
  | .nextEvent next sel =>
    let time := min sel (Int.bmod (timeSliceForSamePriority + m.now) (2 ^ 64))
    { m with pc := .storeTime next time }
  | .storeTime next time => { m with sched := setTime m.sched time, pc := .stored next }
  | .stored next => { m with pc := .stored next }
  | .returned => { m with pc := .returned }

def Finished : Pc T → Prop
  | .stored _ | .returned => True
  | _ => False

instance (pc : Pc T) : Decidable (Finished pc) := by
  cases pc <;> unfold Finished <;> infer_instance

/-- One event of a run that ends with the store of the next scheduling time
or with the return from `yield`. An interrupt may resume any thread at any
point; as long as the lock is open a tick may run other threads first, which
changes the kernel's variables and advances the schedule counter. -/
def step (e : Event T G) (m : Machine T G) : Option (Machine T G) :=
  if Finished m.pc then none else
  match e with
  | .exec => some (exec idlethread threadList stackViolation m)
  | .resume t => some { m with
      sched := { m.sched with
        threads := resumeThread m.sched.threads t, timeToTryAgainToSchedule := 0 },
      late := if Inspected t m.pc then t :: m.late else m.late }
  | .elapse now => if m.now ≤ now then some { m with now := now } else none
  | .preempt sched now =>
    if m.yieldSchedulingLock = false ∧ m.now ≤ now ∧
        m.sched.scheduleCounter < sched.scheduleCounter ∧ sched.preSelectedNextToRun = none then
      some { m with sched := sched, now := now, late := [] }
    else none

end

def Start (m : Machine T G) : Prop :=
  m.pc = .resetTime ∧ m.yieldSchedulingLock = false ∧ m.sched.preSelectedNextToRun = none ∧
    m.late = []

/-- The steps that lose no wake-up: the selected thread passes the stack
check, and no interrupt has resumed a thread that outranks it after the
search had already passed that thread. -/
def Undisturbed (stackViolation : T → Bool) (_ : Event T G) (m : Machine T G) : Prop :=
  match m.pc with
  | .checkStack acc => stackViolation acc.1 = false
  | .storeTime next _ =>
    ∀ t ∈ m.late, (m.sched.threads t).priority ≤ (m.sched.threads next).priority
  | _ => True

/-- A ready thread that outranks the selected one is looked at again by the
next tick. -/
def WakeUpKept (threadList : List T) (m : Machine T G) (next : T) : Prop :=
  (∃ t ∈ threadList, (m.sched.threads t).suspendedUntil < m.now ∧
    (m.sched.threads next).priority < (m.sched.threads t).priority) →
  m.sched.timeToTryAgainToSchedule ≤ m.now

/-- Every thread outside `rest` that outranks the candidate either was
resumed late or wakes up no earlier than the time noted. -/
def Covered (threadList : List T) (m : Machine T G) (rest : List T) (acc : T × Int) : Prop :=
  ∀ t ∈ threadList, t ∉ rest → t ∈ m.late ∨
    (m.sched.threads t).priority ≤ (m.sched.threads acc.1).priority ∨
    acc.2 ≤ (m.sched.threads t).suspendedUntil

/-- The facts known before a preselection is published: it is still absent,
and the candidate counts only if the schedule counter has not moved. -/
def Searching (threadList : List T) (m : Machine T G) (start : Nat) (rest : List T)
    (acc : T × Int) : Prop :=
  m.sched.preSelectedNextToRun = none ∧ start ≤ m.sched.scheduleCounter ∧
    (start = m.sched.scheduleCounter → Covered threadList m rest acc)

def Preselected (threadList : List T) (m : Machine T G) : Prop :=
  ∀ t, m.sched.preSelectedNextToRun = some t →
    Covered threadList m [] (t, m.sched.preSelectedEarliestSuspendedUntil)

def Facts (threadList : List T) (m : Machine T G) : Prop :=
  match m.pc with
  | .resetTime | .readCounter => m.sched.preSelectedNextToRun = none
  | .beginFind start =>
    m.sched.preSelectedNextToRun = none ∧ start ≤ m.sched.scheduleCounter
  | .find start _ rest acc => Searching threadList m start rest acc
  | .compareCounter start acc | .sameThread start acc | .lock start acc =>
    Searching threadList m start [] acc
  | .stopTimer start acc | .preselect start acc =>
    m.yieldSchedulingLock = true ∧ Searching threadList m start [] acc
  | .preselectEarliest acc =>
    m.yieldSchedulingLock = true ∧ m.sched.preSelectedNextToRun = some acc.1 ∧
      Covered threadList m [] acc
  | .wrapper | .count | .fetch => m.yieldSchedulingLock = true ∧ Preselected threadList m
  | .findFromISR _ rest acc => m.yieldSchedulingLock = true ∧ Covered threadList m rest acc
  | .clear acc | .checkStack acc => m.yieldSchedulingLock = true ∧ Covered threadList m [] acc
  | .stamp next sel | .nextEvent next sel | .storeTime next sel =>
    m.yieldSchedulingLock = true ∧ Covered threadList m [] (next, sel)
  | .stored next => ∀ t ∈ threadList,
    (m.sched.threads t).priority ≤ (m.sched.threads next).priority ∨
      m.sched.timeToTryAgainToSchedule ≤ (m.sched.threads t).suspendedUntil
  | .returned => True

section

variable {idlethread : T} {threadList : List T} {stackViolation : T → Bool}

omit [DecidableEq T] in
theorem Covered.start {m : Machine T G} : Covered threadList m threadList (idlethread, endOfTime) :=
  fun _ ht hn => absurd ht hn

theorem Covered.select {m m' : Machine T G} {iter : T} {rest : List T} {acc : T × Int}
    {timeNow : Int} (h : Covered threadList m (iter :: rest) acc)
    (hs : m'.sched = m.sched) (hl : m'.late = m.late) :
    Covered threadList m' rest (selectStep m.sched.threads timeNow iter acc) := by
  intro t ht hr
  rw [hs, hl]
  by_cases hi : t = iter
  · subst hi
    exact .inr (selectStep_covers _ _ _ _)
  · obtain ⟨hp, hsel⟩ := selectStep_grows m.sched.threads timeNow iter acc
    obtain h | h | h := h t ht (by simp [hi, hr])
    · exact .inl h
    · exact .inr (.inl (h.trans hp))
    · exact .inr (.inr (hsel.trans h))

omit [DecidableEq T] in
/-- Only the fields that the search reads matter. -/
theorem Covered.of_eq {m m' : Machine T G} {rest : List T} {acc acc' : T × Int}
    (h : Covered threadList m rest acc) (hl : m'.late = m.late) (hn : acc'.1 = acc.1)
    (ha : acc'.2 ≤ acc.2)
    (hp : ∀ t, (m'.sched.threads t).priority = (m.sched.threads t).priority)
    (hs : ∀ t, (m'.sched.threads t).suspendedUntil = (m.sched.threads t).suspendedUntil) :
    Covered threadList m' rest acc' := by
  intro t ht hr
  rw [hl, hp, hp, hs, hn]
  obtain h | h | h := h t ht hr
  · exact .inl h
  · exact .inr (.inl h)
  · exact .inr (.inr (ha.trans h))

theorem exec_facts {m : Machine T G} (h : Facts threadList m)
    (hok : Undisturbed stackViolation .exec m) :
    Facts threadList (exec idlethread threadList stackViolation m) := by
  obtain ⟨sched, current, lck, now, pc, late⟩ := m
  cases pc with
  | resetTime => exact h
  | readCounter => exact ⟨h, Nat.le_refl _⟩
  | beginFind start => exact ⟨h.1, h.2, fun _ => Covered.start⟩
  | find start timeNow rest acc =>
    cases rest with
    | nil => exact h
    | cons iter rest => exact ⟨h.1, h.2.1, fun he => (h.2.2 he).select rfl rfl⟩
  | compareCounter start acc =>
    simp only [exec]
    split
    · trivial
    · exact h
  | sameThread start acc =>
    simp only [exec]
    split
    · trivial
    · exact h
  | lock start acc => exact ⟨rfl, h⟩
  | stopTimer start acc => exact h
  | preselect start acc =>
    simp only [exec]
    split
    · next he => exact ⟨h.1, rfl, h.2.2.2 he⟩
    · refine ⟨h.1, fun t ht => ?_⟩
      cases h.2.1.symm.trans ht
  | preselectEarliest acc =>
    refine ⟨h.1, fun t ht => ?_⟩
    obtain rfl : acc.1 = t := Option.some.inj (h.2.1.symm.trans ht)
    exact h.2.2
  | wrapper =>
    simp only [exec]
    split
    · trivial
    · exact h
  | count => exact h
  | fetch =>
    simp only [exec]
    split
    · next t ht => exact ⟨h.1, h.2 t ht⟩
    · exact ⟨h.1, Covered.start⟩
  | findFromISR timeNow rest acc =>
    cases rest with
    | nil => exact h
    | cons iter rest => exact ⟨h.1, h.2.select rfl rfl⟩
  | clear acc => exact h
  | checkStack acc =>
    simp only [exec]
    rw [if_neg (by rw [show stackViolation acc.1 = false from hok]; decide)]
    exact h
  | stamp next sel =>
    exact ⟨h.1, h.2.of_eq rfl rfl le_rfl (setActivation_priority _ _ · _)
      (setActivation_suspendedUntil _ _ · _)⟩
  | nextEvent next sel =>
    exact ⟨h.1, h.2.of_eq rfl rfl (min_le_left _ _) (fun _ => rfl) (fun _ => rfl)⟩
  | storeTime next time =>
    intro t ht
    obtain hl | hc := h.2 t ht (by simp)
    · exact .inl (hok t hl)
    · exact hc
  | stored next => exact h
  | returned => trivial

theorem Covered.resume {m m' : Machine T G} {u : T} {rest : List T} {acc : T × Int}
    (h : Covered threadList m rest acc) (hth : m'.sched.threads = resumeThread m.sched.threads u)
    (hl : m'.late = if u ∉ rest then u :: m.late else m.late) :
    Covered threadList m' rest acc := by
  intro t ht hr
  rw [hth, hl, resumeThread_priority, resumeThread_priority]
  by_cases hu : t = u
  · subst hu
    simp [hr]
  · have hs : (resumeThread m.sched.threads u t).suspendedUntil =
        (m.sched.threads t).suspendedUntil := by simp [resumeThread, hu]
    rw [hs]
    obtain h | h := h t ht hr
    · exact .inl (by split <;> simp [h])
    · exact .inr h

theorem step_facts {e : Event T G} {m m' : Machine T G} (h : Facts threadList m)
    (hok : Undisturbed stackViolation e m)
    (hs : step idlethread threadList stackViolation e m = some m') : Facts threadList m' := by
  unfold step at hs
  split at hs
  · cases hs
  next hf =>
  cases e with
  | exec =>
    cases hs
    exact exec_facts h hok
  | resume u =>
    cases hs
    obtain ⟨sched, current, lck, now, pc, late⟩ := m
    cases pc with
    | resetTime | readCounter | beginFind start | returned => exact h
    | find start timeNow rest acc => exact ⟨h.1, h.2.1, fun he => (h.2.2 he).resume rfl rfl⟩
    | compareCounter start acc | sameThread start acc | lock start acc =>
      exact ⟨h.1, h.2.1, fun he => (h.2.2 he).resume rfl (by simp [Inspected])⟩
    | stopTimer start acc | preselect start acc =>
      exact ⟨h.1, h.2.1, h.2.2.1, fun he => (h.2.2.2 he).resume rfl (by simp [Inspected])⟩
    | preselectEarliest acc => exact ⟨h.1, h.2.1, h.2.2.resume rfl (by simp [Inspected])⟩
    | wrapper | count | fetch =>
      exact ⟨h.1, fun t ht => (h.2 t ht).resume rfl (by simp [Inspected])⟩
    | findFromISR timeNow rest acc => exact ⟨h.1, h.2.resume rfl rfl⟩
    | clear acc | checkStack acc | stamp next sel | nextEvent next sel | storeTime next sel =>
      exact ⟨h.1, h.2.resume rfl (by simp [Inspected])⟩
    | stored next => exact absurd trivial hf
  | elapse now =>
    simp only [Option.ite_none_right_eq_some, Option.some.injEq] at hs
    obtain ⟨_, rfl⟩ := hs
    obtain ⟨sched, current, lck, now, pc, late⟩ := m
    cases pc <;> exact h
  | preempt sched now =>
    simp only [Option.ite_none_right_eq_some, Option.some.injEq] at hs
    obtain ⟨⟨hlock, _, hcount, hnone⟩, rfl⟩ := hs
    obtain ⟨sched', current, lck, now', pc, late⟩ := m
    -- once the lock is taken no tick gets through, and before that the counter tells
    cases pc with
    | resetTime | readCounter => exact hnone
    | beginFind start => exact ⟨hnone, h.2.trans hcount.le⟩
    | find start timeNow rest acc | compareCounter start acc | sameThread start acc
    | lock start acc =>
      exact ⟨hnone, h.2.1.trans hcount.le, fun he => absurd (he ▸ h.2.1) (not_le.mpr hcount)⟩
    | stored next => exact absurd trivial hf
    | returned => trivial
    | _ => exact absurd (h.1.symm.trans hlock) (by decide)

theorem facts_of_reachable {m : Machine T G}
    (h : ReachableUnder Start (step idlethread threadList stackViolation)
      (Undisturbed stackViolation) m) : Facts threadList m := by
  refine h.invariant (Facts threadList) (fun m hm => ?_) (fun _ _ _ hi hok hs => step_facts hi hok hs)
  obtain ⟨hpc, _, hnone, _⟩ := hm
  simp only [Facts, hpc]
  exact hnone

/-- In a run all of whose steps are undisturbed no resume is forgotten: once
the next scheduling time is stored, a ready thread that outranks the
selected one makes the next tick schedule again. -/
theorem wakeUpKept_of_undisturbed {m : Machine T G}
    (h : ReachableUnder Start (step idlethread threadList stackViolation)
      (Undisturbed stackViolation) m) (next : T) (hpc : m.pc = .stored next) :
    WakeUpKept threadList m next := by
  have hf := facts_of_reachable h
  simp only [Facts, hpc] at hf
  rintro ⟨t, ht, hready, hprio⟩
  obtain hle | htime := hf t ht
  · omega
  · omega

/-- A thread that was resumed late is ready, so when it outranks the
selected thread and the stored time lies ahead, its wake-up is lost. -/
theorem not_wakeUpKept_of_late {m : Machine T G} (next t : T) (time : Int)
    (hlate : ∀ u ∈ m.late, (m.sched.threads u).suspendedUntil = 0)
    (hpc : m.pc = .storeTime next time) (ht : t ∈ m.late) (hmem : t ∈ threadList)
    (hprio : (m.sched.threads next).priority < (m.sched.threads t).priority)
    (hnow : 0 < m.now) (htime : m.now < time) :
    ¬ WakeUpKept threadList (exec idlethread threadList stackViolation m) next := by
  intro hk
  have hready : (m.sched.threads t).suspendedUntil < m.now := by rw [hlate t ht]; exact hnow
  simp only [WakeUpKept, exec, hpc, setTime] at hk
  exact absurd (hk ⟨t, hmem, hready, hprio⟩) (not_le.mpr htime)

theorem late_resumed {m : Machine T G}
    (h : ReachableUnder Start (step idlethread threadList (fun _ => false)) (fun _ _ => True) m) :
    ∀ t ∈ m.late, (m.sched.threads t).suspendedUntil = 0 := by
  refine h.invariant (fun m => ∀ t ∈ m.late, (m.sched.threads t).suspendedUntil = 0)
    (fun m hm => ?_) (fun e m m' hi _ hs => ?_)
  · rw [hm.2.2.2]
    simp
  · unfold step at hs
    split at hs
    · cases hs
    cases e with
    | exec =>
      cases hs
      obtain ⟨sched, current, lck, now, pc, late⟩ := m
      cases pc with
      | find start timeNow rest acc | findFromISR timeNow rest acc =>
        cases rest <;> exact hi
      | beginFind start => exact fun t ht => absurd ht (by simp [exec])
      | stamp next sel =>
        intro t ht
        exact (setActivation_suspendedUntil _ _ _ _).trans (hi t ht)
      | preselect start acc =>
        simp only [exec]
        split <;> exact hi
      | fetch =>
        simp only [exec]
        split
        · exact hi
        · simp
      | _ => exact hi
    | resume u =>
      cases hs
      intro t ht
      by_cases hu : t = u
      · subst hu; simp [resumeThread]
      · have hl : t ∈ m.late := by
          split at ht
          · exact (List.mem_cons.mp ht).resolve_left hu
          · exact ht
        simpa [resumeThread, hu] using hi t hl
    | elapse now =>
      simp only [Option.ite_none_right_eq_some, Option.some.injEq] at hs
      obtain ⟨_, rfl⟩ := hs
      exact hi
    | preempt sched now =>
      simp only [Option.ite_none_right_eq_some, Option.some.injEq] at hs
      obtain ⟨_, rfl⟩ := hs
      simp

end

instance (stackViolation : T → Bool) (e : Event T G) (m : Machine T G) :
    Decidable (Undisturbed stackViolation e m) := by
  unfold Undisturbed
  split <;> infer_instance

instance (threadList : List T) (m : Machine T G) (next : T) :
    Decidable (WakeUpKept threadList m next) := by
  unfold WakeUpKept
  infer_instance

/-- Thread 1 yields to thread 2 of the same priority while thread 3, of a
higher priority, sleeps without a time limit. -/
def sleeper : Machine (Fin 4) Unit where
  sched :=
    { threads := ![⟨0, 0, 0, none⟩, ⟨1, 0, 2, none⟩, ⟨1, 0, 1, none⟩, ⟨5, endOfTime, 0, none⟩]
      scheduleCounter := 2
      preSelectedNextToRun := none
      preSelectedEarliestSuspendedUntil := endOfTime
      timeToTryAgainToSchedule := 0 }
  current := ⟨1, by decide⟩
  yieldSchedulingLock := false
  now := 10
  pc := .resetTime
  late := []

def statements (n : Nat) : List (Event (Fin 4) Unit) := List.replicate n .exec

theorem wakeUpKept_sleeper :
    ∃ m : Machine (Fin 4) Unit, m.pc = .stored 3 ∧ WakeUpKept [1, 2, 3, 0] m 3 := by
  obtain ⟨m, hr, hpc⟩ := exists_reachable Start (step 0 [1, 2, 3, 0] (fun _ => false))
    (Undisturbed (fun _ => false)) sleeper ⟨rfl, rfl, rfl, rfl⟩
    (statements 5 ++ .resume 3 :: statements 17) (fun m => m.pc = .stored 3) (by decide)
  exact ⟨m, hpc, wakeUpKept_of_undisturbed hr 3 hpc⟩

/-- An interrupt resumes thread 3 when the search has just passed it. The
reused preselection still hands over to thread 2, and the stored time
postpones thread 3 by a full time slice. -/
theorem wakeUp_lost_sleeper :
    ∃ m : Machine (Fin 4) Unit, Reachable Start (step 0 [1, 2, 3, 0] (fun _ => false)) m ∧
      m.pc = .stored 2 ∧ ¬ WakeUpKept [1, 2, 3, 0] m 2 :=
  exists_reachable Start (step 0 [1, 2, 3, 0] (fun _ => false)) (fun _ _ => True) sleeper
    ⟨rfl, rfl, rfl, rfl⟩ (statements 8 ++ .resume 3 :: statements 14)
    (fun m => m.pc = .stored 2 ∧ ¬ WakeUpKept [1, 2, 3, 0] m 2) (by decide)

end Rodos.YieldPreselection
