import Rodos.SemaphoreBookkeeping

namespace Rodos.SemaphoreHandOff

open ListScan ThreadSelection SemaphoreMachine SemaphoreOwnership SemaphoreExclusion SemaphoreScopes
  SemaphoreBookkeeping TransitionSystem

variable {T G : Type}

def callerPriority : Pc T G → Option Int
  | .enterCeiling _ cp | .enter _ cp _ _ => some cp
  | _ => none

/-- The priority at which a thread that is in `enter` has called it. -/
def ownPriority (m : Machine T G) (t : T) : Int :=
  (callerPriority (m.pc t)).getD (m.threads t).priority

def Blocked (m : Machine T G) (g : G) (t : T) : Prop := (m.threads t).waitingFor = some g

instance [DecidableEq G] (m : Machine T G) (g : G) : DecidablePred (Blocked m g) :=
  fun t => inferInstanceAs (Decidable ((m.threads t).waitingFor = some g))

def Highest (m : Machine T G) (g : G) (w : T) : Prop :=
  ∀ u, Blocked m g u → ownPriority m u ≤ ownPriority m w

section

variable [DecidableEq T] [DecidableEq G] [Fintype G] (idlethread : T) (threadList : List T)

def HandsOverByPriority (m : Machine T G) (g : G) : Prop :=
  ∃ w, ((execScope idlethread threadList m).semaphores g).owner = some w ∧ Blocked m g w ∧
    Highest m g w

end

section

variable [DecidableEq T] [DecidableEq G] [Fintype G] {idlethread : T} {threadList : List T}
  {m : Machine T G}

/-- The final `leave` hands over by priority exactly if the blocked thread
that comes first by current priority, activation and place in the thread list
is one of highest own priority. -/
theorem handsOverByPriority_iff (hlist : ∀ t, t ∈ threadList)
    (h : Reachable (Start idlethread) (scopedStep idlethread threadList) m) {g : G}
    (hpc : m.pc m.current = .leaveCeiling g) (hb : ∃ t, Blocked m g t) :
    HandsOverByPriority idlethread threadList m g ↔
      ∃ w, Leads (fun t => rank (m.threads t)) (threadList.filter (fun t => decide (Blocked m g t))) w ∧
        Highest m g w := by
  obtain ⟨t, ht⟩ := hb
  obtain ⟨ho, hbook⟩ := reachable_bookkeeping hlist h
  obtain ⟨w, hw, hlead⟩ :=
    findNextWaitingFor_spec hlist (fun t ht => waiter_rank ho hbook ht) ht
  have howner : ((execScope idlethread threadList m).semaphores g).owner = some w := by
    rw [leaveCeiling_step ho hbook hpc, hw]
    simp [release, setPc, noteLeft, setSemaphore]
  constructor
  · rintro ⟨v, hv, _, hhigh⟩
    obtain rfl : w = v := Option.some.inj (howner.symm.trans hv)
    exact ⟨w, hlead, hhigh⟩
  · rintro ⟨v, hv, hhigh⟩
    obtain rfl : v = w := hv.unique hlead
    exact ⟨v, howner, (findNextWaitingFor_waits hw).2, hhigh⟩

end

theorem handsOverByPriority_threeWorkers :
    ∃ m : Machine (Fin 4) Unit, (m.pc m.current = .leaveCeiling () ∧ Blocked m () 2 ∧ Blocked m () 3) ∧
      (HandsOverByPriority 0 [1, 2, 3, 0] m () ↔
        ∃ w, Leads (fun t => rank (m.threads t))
          ([1, 2, 3, 0].filter (fun t => decide (Blocked m () t))) w ∧ Highest m () w) := by
  obtain ⟨m, hr, hm⟩ := exists_reachable (Start 0) (scopedStep 0 [1, 2, 3, 0]) (fun _ _ => True)
    threeWorkers start_threeWorkers upToLastLeave
    (fun m => m.pc m.current = .leaveCeiling () ∧ Blocked m () 2 ∧ Blocked m () 3)
    (by decide +kernel)
  exact ⟨m, hm, handsOverByPriority_iff (by decide) hr hm.1 ⟨2, hm.2.1⟩⟩

/-- Both sleepers block one after the other and wait at the ceiling, so the
one that was activated first gets the semaphore. -/
def blockInTurn : List (Event (Fin 4) Unit) :=
  .call (.enter ()) :: statements 4 ++ [.resume secondWorker, .tick, .call (.enter ())] ++
    statements 2 ++ [.resume thirdWorker, .tick, .call (.enter ())] ++ statements 2 ++
    .call (.leave ()) :: statements 3

theorem not_handsOverByPriority_sleepers :
    ∃ m : Machine (Fin 4) Unit, Reachable (Start 0) (scopedStep 0 [1, 2, 3, 0]) m ∧
      m.pc m.current = .leaveCeiling () ∧ Blocked m () 2 ∧ Blocked m () 3 ∧
      ¬ HandsOverByPriority 0 [1, 2, 3, 0] m () := by
  obtain ⟨m, hr, hpc, h2, h3, hown, hlt⟩ := exists_reachable (Start 0) (scopedStep 0 [1, 2, 3, 0])
    (fun _ _ => True) sleepers start_sleepers blockInTurn
    (fun m => m.pc m.current = .leaveCeiling () ∧ Blocked m () 2 ∧ Blocked m () 3 ∧
      ((execScope 0 [1, 2, 3, 0] m).semaphores ()).owner = some 2 ∧
      ownPriority m 2 < ownPriority m 3) (by decide +kernel)
  refine ⟨m, hr, hpc, h2, h3, ?_⟩
  rintro ⟨w, hw, _, hhigh⟩
  obtain rfl : 2 = w := Option.some.inj (hown.symm.trans hw)
  exact absurd (hhigh 3 h3) (not_le.mpr hlt)

end Rodos.SemaphoreHandOff
