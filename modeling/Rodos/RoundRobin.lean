import Rodos.ThreadSelection

namespace Rodos.RoundRobin

open ThreadSelection

variable {T G : Type} [DecidableEq T]

def timeSliceForSamePriority : Int := 100 * 1000000

/-- The variables `Scheduler::schedule` works on. The schedule counter and
the activation stamps are 64-bit words. -/
structure Scheduler (T G : Type) where
  threads : T → Thread G
  scheduleCounter : Nat
  preSelectedNextToRun : Option T
  preSelectedEarliestSuspendedUntil : Int
  timeToTryAgainToSchedule : Int

/-- What one call of the scheduler finds: the thread list, which threads
fail the stack check, and the two readings of the clock. -/
structure Situation (T : Type) where
  threadList : List T
  stackViolation : T → Bool
  timeNow : Int
  timeLater : Int

def schedule (idlethread : T) (c : Situation T) (s : Scheduler T G) : T × Scheduler T G :=
  let counter := (s.scheduleCounter + 1) % 2 ^ 64
  let choice := match s.preSelectedNextToRun with
    | some t => (t, s.preSelectedEarliestSuspendedUntil)
    | none => findNextToRun s.threads idlethread c.threadList c.timeNow
  let threads := if c.stackViolation choice.1 then deactivate s.threads choice.1 else s.threads
  let next := if c.stackViolation choice.1 then idlethread else choice.1
  (next,
    { threads := setActivation threads next counter
      scheduleCounter := counter
      preSelectedNextToRun := none
      preSelectedEarliestSuspendedUntil := s.preSelectedEarliestSuspendedUntil
      timeToTryAgainToSchedule :=
        min choice.2 (Int.bmod (timeSliceForSamePriority + c.timeLater) (2 ^ 64)) })

theorem schedule_threads (idlethread : T) (c : Situation T) (s : Scheduler T G)
    (hstack : ∀ t, c.stackViolation t = false) :
    (schedule idlethread c s).2.threads =
      setActivation s.threads (schedule idlethread c s).1 ((s.scheduleCounter + 1) % 2 ^ 64) := by
  simp [schedule, hstack]

/-- Everything the rest of the system may do between two calls: all fields
of all threads may change, except the stamps, which only the scheduler
writes. -/
structure Round (T G : Type) extends Situation T where
  fields : T → Thread G

def interlude (r : Round T G) (s : Scheduler T G) : Scheduler T G :=
  { s with threads := fun t => { r.fields t with lastActivation := (s.threads t).lastActivation } }

def boot (fields : T → Thread G) : Scheduler T G where
  threads := fun t => { fields t with lastActivation := 0 }
  scheduleCounter := 0
  preSelectedNextToRun := none
  preSelectedEarliestSuspendedUntil := endOfTime
  timeToTryAgainToSchedule := 0

def before (idlethread : T) (rounds : Nat → Round T G) : Nat → Scheduler T G
  | 0 => boot (rounds 0).fields
  | n + 1 => (schedule idlethread (rounds n).toSituation
      (interlude (rounds n) (before idlethread rounds n))).2

def activated (idlethread : T) (rounds : Nat → Round T G) (n : Nat) : T :=
  (schedule idlethread (rounds n).toSituation
    (interlude (rounds n) (before idlethread rounds n))).1

/-- Round-robin among equal priorities, for two calls `i` and `j` of a run:
a thread that gets the processor twice, while another one of its priority is
ready all the time, shares it with the other one in between. -/
def SharesTurns (idlethread : T) (rounds : Nat → Round T G) (i j : Nat) : Prop :=
  ∀ (t u : T) (p : Int), u ≠ t →
    activated idlethread rounds i = t → activated idlethread rounds j = t →
    (∀ k, i ≤ k → k ≤ j → ((rounds k).fields t).priority = p) →
    (∀ k, i < k → k ≤ j → u ∈ (rounds k).threadList ∧ ((rounds k).fields u).priority = p ∧
      ((rounds k).fields u).suspendedUntil < (rounds k).timeNow) →
    ∃ k, i < k ∧ k < j ∧ activated idlethread rounds k = u

def stamp (idlethread : T) (rounds : Nat → Round T G) (n : Nat) (t : T) : Nat :=
  ((before idlethread rounds n).threads t).lastActivation

section

variable (idlethread : T) (rounds : Nat → Round T G)

theorem before_preSelected (n : Nat) :
    (before idlethread rounds n).preSelectedNextToRun = none := by
  cases n <;> rfl

theorem before_counter (n : Nat) :
    (before idlethread rounds n).scheduleCounter = n % 2 ^ 64 := by
  induction n with
  | zero => rfl
  | succ n ih =>
    change ((before idlethread rounds n).scheduleCounter + 1) % 2 ^ 64 = (n + 1) % 2 ^ 64
    rw [ih]
    omega

variable (hstack : ∀ n t, (rounds n).stackViolation t = false)
include hstack

theorem activated_eq (n : Nat) :
    activated idlethread rounds n =
      (findNextToRun (interlude (rounds n) (before idlethread rounds n)).threads idlethread
        (rounds n).threadList (rounds n).timeNow).1 := by
  simp [activated, schedule, interlude, before_preSelected, hstack]

theorem stamp_succ (n : Nat) (t : T) :
    stamp idlethread rounds (n + 1) t =
      if t = activated idlethread rounds n then (n + 1) % 2 ^ 64 else stamp idlethread rounds n t := by
  have hc : ((before idlethread rounds n).scheduleCounter + 1) % 2 ^ 64 = (n + 1) % 2 ^ 64 := by
    rw [before_counter idlethread rounds n]
    omega
  rw [stamp, before, schedule_threads _ _ _ (hstack n), setActivation_stamp]
  simp only [interlude, hc]
  rfl

theorem stamp_le (n : Nat) (t : T) : stamp idlethread rounds n t ≤ n := by
  induction n with
  | zero => exact Nat.le_refl 0
  | succ n ih =>
    rw [stamp_succ idlethread rounds hstack n]
    split
    · exact Nat.mod_le _ _
    · exact ih.trans (Nat.le_succ n)

theorem stamp_mono (m n : Nat) (hmn : m ≤ n) (hn : n < 2 ^ 64) (t : T) :
    stamp idlethread rounds m t ≤ stamp idlethread rounds n t := by
  induction n, hmn using Nat.le_induction with
  | base => exact Nat.le_refl _
  | succ n hmn ih =>
    rw [stamp_succ idlethread rounds hstack n]
    split
    · have h := stamp_le idlethread rounds hstack m t
      omega
    · exact ih (by omega)

theorem stamp_kept (m n : Nat) (hmn : m ≤ n) (t : T)
    (hidle : ∀ k, m ≤ k → k < n → activated idlethread rounds k ≠ t) :
    stamp idlethread rounds n t = stamp idlethread rounds m t := by
  induction n, hmn using Nat.le_induction with
  | base => rfl
  | succ n hmn ih =>
    rw [stamp_succ idlethread rounds hstack n,
      if_neg (Ne.symm (hidle n hmn (Nat.lt_succ_self n)))]
    exact ih (fun k hk hkn => hidle k hk (by omega))

/-- As long as the 64-bit schedule counter has not wrapped, the search
prefers the thread that waited longest, so turns alternate. -/
theorem sharesTurns_of_lt (i j : Nat) (hij : i < j) (hj : j < 2 ^ 64) :
    SharesTurns idlethread rounds i j := by
  intro t u p hne hti htj hpt hu
  by_contra hnone
  have hidle : ∀ k, i + 1 ≤ k → k < j → activated idlethread rounds k ≠ u :=
    fun k hk hkj he => hnone ⟨k, hk, hkj, he⟩
  have hut : stamp idlethread rounds j u ≤ i := by
    rw [stamp_kept idlethread rounds hstack (i + 1) j hij u hidle,
      stamp_succ idlethread rounds hstack i, if_neg (by rw [hti]; exact hne)]
    exact stamp_le idlethread rounds hstack i u
  have htt : i + 1 ≤ stamp idlethread rounds j t := by
    have h := stamp_mono idlethread rounds hstack (i + 1) j hij hj t
    rw [stamp_succ idlethread rounds hstack i, if_pos hti.symm] at h
    omega
  obtain ⟨hmem, hprio, hready⟩ := hu j hij (Nat.le_refl j)
  have hrank := rank_le_findNextToRun (interlude (rounds j) (before idlethread rounds j)).threads
    idlethread (rounds j).threadList (rounds j).timeNow u hmem hready
  rw [← activated_eq idlethread rounds hstack, htj] at hrank
  refine not_lt.mpr hrank ((rank_lt_iff _ _).mpr (.inr ⟨?_, ?_⟩))
  · exact (hpt j hij.le (Nat.le_refl j)).trans hprio.symm
  · change stamp idlethread rounds j u < stamp idlethread rounds j t
    omega

end

def twoWorkers : Nat → Round (Fin 3) Unit := fun _ =>
  { threadList := [1, 2, 0]
    stackViolation := fun _ => false
    timeNow := 1
    timeLater := 1
    fields := fun t => ⟨if t = 0 then 0 else 1, 0, 0, none⟩ }

theorem sharesTurns_twoWorkers :
    ∃ k, 0 < k ∧ k < 2 ∧ activated 0 twoWorkers k = 2 :=
  sharesTurns_of_lt 0 twoWorkers (fun _ _ => rfl) 0 2 (by decide) (by decide) 1 2 1 (by decide)
    (by decide) (by decide) (fun _ _ _ => rfl) (fun _ _ _ => by simp [twoWorkers])

theorem twoWorkers_activated (n : Nat) :
    activated 0 twoWorkers n =
      if stamp 0 twoWorkers n 2 < stamp 0 twoWorkers n 1 then 2 else 1 := by
  rw [activated_eq 0 twoWorkers (fun _ _ => rfl)]
  unfold stamp
  by_cases h : ((before 0 twoWorkers n).threads 2).lastActivation <
      ((before 0 twoWorkers n).threads 1).lastActivation <;>
    simp [findNextToRun, selectLoop, selectStep, interlude, twoWorkers, h]

theorem twoWorkers_stamps (k : Nat) (hk : 2 * k + 1 < 2 ^ 64) :
    stamp 0 twoWorkers (2 * k + 1) 1 = 2 * k + 1 ∧ stamp 0 twoWorkers (2 * k + 1) 2 = 2 * k := by
  induction k with
  | zero => decide
  | succ k ih =>
    obtain ⟨h1, h2⟩ := ih (by omega)
    have ha : activated 0 twoWorkers (2 * k + 1) = 2 := by
      rw [twoWorkers_activated, h1, h2, if_pos (by omega)]
    have hb1 : stamp 0 twoWorkers (2 * k + 2) 1 = 2 * k + 1 := by
      rw [stamp_succ 0 twoWorkers (fun _ _ => rfl), ha, if_neg (by decide), h1]
    have hb2 : stamp 0 twoWorkers (2 * k + 2) 2 = 2 * k + 2 := by
      rw [stamp_succ 0 twoWorkers (fun _ _ => rfl), ha, if_pos rfl]
      omega
    have hc : activated 0 twoWorkers (2 * k + 2) = 1 := by
      rw [twoWorkers_activated, hb1, hb2, if_neg (by omega)]
    constructor
    · change stamp 0 twoWorkers (2 * k + 2 + 1) 1 = _
      rw [stamp_succ 0 twoWorkers (fun _ _ => rfl), hc, if_pos rfl]
      omega
    · change stamp 0 twoWorkers (2 * k + 2 + 1) 2 = _
      rw [stamp_succ 0 twoWorkers (fun _ _ => rfl), hc, if_neg (by decide), hb2]
      omega

/-- At the call that wraps the counter a worker is stamped 0 and is
preferred again at the next call, although the other one is ready. -/
theorem not_sharesTurns_twoWorkers : ¬ SharesTurns 0 twoWorkers (2 ^ 64 - 1) (2 ^ 64) := by
  intro h
  obtain ⟨h1, h2⟩ := twoWorkers_stamps (2 ^ 63 - 1) (by norm_num)
  have hn : 2 * (2 ^ 63 - 1) + 1 = 2 ^ 64 - 1 := by norm_num
  have hs : 2 ^ 64 - 1 + 1 = 2 ^ 64 := by norm_num
  rw [hn] at h1 h2
  have ha : activated 0 twoWorkers (2 ^ 64 - 1) = 2 := by
    rw [twoWorkers_activated, h1, h2, if_pos (by norm_num)]
  have hb1 : stamp 0 twoWorkers (2 ^ 64) 1 = 2 ^ 64 - 1 := by
    rw [← hs, stamp_succ 0 twoWorkers (fun _ _ => rfl), ha, if_neg (by decide), h1]
    rfl
  have hb2 : stamp 0 twoWorkers (2 ^ 64) 2 = 0 := by
    rw [← hs, stamp_succ 0 twoWorkers (fun _ _ => rfl), ha, if_pos rfl]
    rfl
  have hb : activated 0 twoWorkers (2 ^ 64) = 2 := by
    rw [twoWorkers_activated, hb1, hb2, if_pos (by norm_num)]
  obtain ⟨k, hk, hk', _⟩ := h 2 1 1 (by decide) ha hb (fun _ _ _ => rfl)
    (fun _ _ _ => by simp [twoWorkers])
  omega

end Rodos.RoundRobin
