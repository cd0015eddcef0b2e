import Rodos.SemaphoreHandOff

namespace Rodos.PriorityInversion

open ThreadSelection SemaphoreMachine SemaphoreOwnership SemaphoreExclusion SemaphoreScopes
  SemaphoreBookkeeping SemaphoreHandOff TransitionSystem

variable {T G : Type}

/-- A thread that owns semaphores and is not suspended runs at least at the
own priority of every thread blocked on one of them. -/
def NoInversion (m : Machine T G) : Prop :=
  ∀ t u g, (m.semaphores g).owner = some t → (m.threads t).suspendedUntil < m.now →
    Blocked m g u → ownPriority m u ≤ (m.threads t).priority

def Covers (m : Machine T G) (t : T) (p : Int) : Prop :=
  ∀ u g, (m.semaphores g).owner = some t → Blocked m g u → ownPriority m u ≤ p

section

variable [DecidableEq T]

/-- The priority that a step stores or relies on covers every thread it
could delay: `enter` is called at most at the ceiling; a waiter that was woken
gets a priority back that covers the threads blocked on its semaphores, or
suspends itself again under an owner of at least its own priority; and the
priority that `leave` restores covers the threads blocked on the semaphores
that are kept. -/
def KeepsBoost (e : Event T G) (m : Machine T G) : Prop :=
  match e with
  | .exec => match m.pc m.current with
    | .enterPriority _ => (m.threads m.current).priority ≤ ceilingPriority
    | .enter g cp prev .suspendClear =>
      match (m.semaphores g).owner with
      | some o => if o = m.current then Covers m m.current prev else cp ≤ (m.threads o).priority
      | none => Covers m m.current prev
    | .leavePriority _ p _ => Covers m m.current p
    | _ => True
  | _ => True

end

structure Covered (m : Machine T G) : Prop where
  boosted : ∀ t u g cp, (m.semaphores g).owner = some t → Blocked m g u →
    callerPriority (m.pc u) = some cp → cp ≤ (m.threads t).priority
  bounded : ∀ t cp, callerPriority (m.pc t) = some cp → cp ≤ ceilingPriority

theorem Covered.of_frame {m m' : Machine T G} (hc : Covered m)
    (hown : ∀ g, (m'.semaphores g).owner = (m.semaphores g).owner)
    (hblk : ∀ u g, Blocked m' g u → Blocked m g u)
    (hpc : ∀ u cp, callerPriority (m'.pc u) = some cp → callerPriority (m.pc u) = some cp)
    (hprio : ∀ t, (m'.threads t).priority = (m.threads t).priority) : Covered m' where
  boosted := by
    intro t u g cp ho hb hp
    rw [hprio]
    exact hc.boosted t u g cp (hown g ▸ ho) (hblk u g hb) (hpc u cp hp)
  bounded := fun t cp hp => hc.bounded t cp (hpc t cp hp)

section

variable [DecidableEq T] [DecidableEq G] [Fintype G] {idlethread : T} {threadList : List T}
  {m m' : Machine T G}

omit [DecidableEq T] [DecidableEq G] [Fintype G] in
theorem Covers.le {t u : T} {g : G} {p cp : Int} (h : Covers m t p)
    (ho : (m.semaphores g).owner = some t) (hb : Blocked m g u)
    (hcp : callerPriority (m.pc u) = some cp) : cp ≤ p := by
  have hle := h u g ho hb
  simpa [ownPriority, hcp] using hle

omit [DecidableEq T] [DecidableEq G] [Fintype G] in
theorem not_blocked_of_pc (ho : Ownership idlethread m) (hb : Bookkeeping idlethread m) {pc : Pc T G}
    (hpc : m.pc m.current = pc) (hne : ∀ g cp prev, pc ≠ .enter g cp prev .suspendClear) (g : G) :
    ¬ Blocked m g m.current := by
  intro hblk
  obtain ⟨cp, prev, hwait⟩ := waiter_pc ho hb hblk
  exact hne g cp prev (hpc.symm.trans hwait)

omit [DecidableEq G] [Fintype G] in
theorem callerPriority_update {pc : Pc T G} (hnone : callerPriority pc = none) {u : T} {cp : Int}
    (h : callerPriority (Function.update m.pc m.current pc u) = some cp) :
    callerPriority (m.pc u) = some cp := by
  by_cases hu : u = m.current
  · rw [hu, Function.update_self, hnone] at h
    cases h
  · rwa [Function.update_of_ne hu] at h

omit [DecidableEq G] [Fintype G] in
theorem Covered.bounded_update (hc : Covered m) (pc : Pc T G)
    (hpc : m'.pc = Function.update m.pc m.current pc)
    (hle : ∀ cp, callerPriority pc = some cp → cp ≤ ceilingPriority) (t : T) (cp : Int)
    (hcp : callerPriority (m'.pc t) = some cp) : cp ≤ ceilingPriority := by
  by_cases ht : t = m.current
  · rw [hpc, ht, Function.update_self] at hcp
    exact hle cp hcp
  · rw [hpc, Function.update_of_ne ht] at hcp
    exact hc.bounded t cp hcp

omit [DecidableEq G] [Fintype G] in
/-- If the running thread is not blocked afterwards, the others have to be covered. -/
theorem Covered.of_others (hc : Covered m) (pc : Pc T G)
    (hpc : m'.pc = Function.update m.pc m.current pc)
    (hle : ∀ cp, callerPriority pc = some cp → cp ≤ ceilingPriority)
    (hself : ∀ g, Blocked m' g m.current → callerPriority pc = none)
    (hothers : ∀ t u g cp, u ≠ m.current → (m'.semaphores g).owner = some t → Blocked m' g u →
      callerPriority (m.pc u) = some cp → cp ≤ (m'.threads t).priority) : Covered m' where
  boosted := by
    intro t u g cp hown hblk hcp
    by_cases hu : u = m.current
    · subst hu
      rw [hpc, Function.update_self, hself g hblk] at hcp
      cases hcp
    · rw [hpc, Function.update_of_ne hu] at hcp
      exact hothers t u g cp hu hown hblk hcp
  bounded := hc.bounded_update pc hpc hle

omit [DecidableEq T] [DecidableEq G] [Fintype G] in
theorem owner_of_blocked (hb : Bookkeeping idlethread m) {g : G} {t u : T}
    (hfree : ¬ occupied m t g) (hblk : Blocked m g u) : (m.semaphores g).owner = some t := by
  by_contra hother
  exact hfree ⟨hb.free u g hblk, hother⟩

omit [Fintype G] in
theorem take_covered (hb : Bookkeeping idlethread m) (hc : Covered m) {g : G} {cp : Int}
    (cnt : Int) (hfree : ¬ occupied m m.current g) :
    Covered (takeOver m m.current g cp (m.threads m.current).priority cnt) := by
  refine hc.of_others (.enterYield g) rfl (fun _ h => by cases h) (fun _ _ => rfl) ?_
  intro t u h c hu hown hblk hcp
  have hblocked : Blocked m h u := by
    simpa [Blocked, takeOver, setPc, setPriority, setThread, setSemaphore, hu] using hblk
  have hprio : ((takeOver m m.current g cp (m.threads m.current).priority cnt).threads t).priority =
      (m.threads t).priority := update_field Thread.priority _ _ _ _ rfl
  have howner : (m.semaphores h).owner = some t := by
    by_cases hg : h = g
    · subst hg
      have ht : m.current = t := by
        simpa [takeOver, setPc, setPriority, setThread, setSemaphore] using hown
      exact ht ▸ owner_of_blocked hb hfree hblocked
    · simpa [takeOver, setPc, setPriority, setThread, setSemaphore, hg] using hown
  rw [hprio]
  exact hc.boosted t u h c howner hblocked hcp

omit [DecidableEq G] [Fintype G] in
theorem block_covered (hc : Covered m) {g : G} {cp : Int} {o : T}
    (hpc : m.pc m.current = .enterCeiling g cp) (howner : (m.semaphores g).owner = some o)
    (hne : o ≠ m.current) :
    Covered (yield idlethread threadList (block (setPriority (boosted m o cp) m.current
      ceilingPriority) m.current g cp (m.threads m.current).priority)) := by
  have hcpb : cp ≤ ceilingPriority := hc.bounded m.current cp (by simp [hpc, callerPriority])
  constructor
  · intro t u h c hown hblk hcp
    simp only [boosted_eq, block, setPc, setPriority, setThread, Blocked, yield_semaphores,
      yield_waitingFor, yield_pc, yield_priority] at hown hblk hcp ⊢
    by_cases hu : u = m.current
    · -- the new waiter has boosted the owner
      subst hu
      simp only [Function.update_self, callerPriority, Option.some.injEq] at hblk hcp
      subst hblk hcp
      obtain rfl : o = t := Option.some.inj (howner.symm.trans hown)
      simp only [Function.update_of_ne hne, Function.update_self]
      split
      · exact le_refl _
      · next hlow => exact not_lt.mp hlow
    · simp only [Function.update_of_ne hu] at hcp hblk
      have hblocked : Blocked m h u := by
        by_cases huo : u = o
        · subst huo
          simpa [Blocked] using hblk
        · simpa [Blocked, huo] using hblk
      have hle := hc.boosted t u h c hown hblocked hcp
      by_cases ht : t = m.current
      · subst ht
        simpa using hc.bounded u c hcp
      · simp only [Function.update_of_ne ht]
        by_cases hto : t = o
        · subst hto
          simp only [Function.update_self]
          split
          · next hlow => exact hle.trans hlow.le
          · exact hle
        · simpa only [Function.update_of_ne hto] using hle
  · refine hc.bounded_update (.enter g cp (m.threads m.current).priority .suspendClear) ?_
      (fun c h => Option.some.inj h ▸ hcpb)
    simp [boosted_eq, block, setPc, setPriority, setThread]

omit [Fintype G] in
theorem wakeTake_covered (hb : Bookkeeping idlethread m) (hc : Covered m) {g : G} {cp prev : Int}
    (hfree : ¬ occupied m m.current g) (hcov : Covers m m.current prev) :
    Covered (takeOver (setThread m m.current (fun th => { th with waitingFor := none })) m.current g
      cp prev 0) := by
  refine hc.of_others (.enterYield g) rfl (fun _ h => by cases h) (fun _ _ => rfl) ?_
  intro t u h c hu hown hblk hcp
  have hblocked : Blocked m h u := by
    simpa [Blocked, takeOver, setPc, setPriority, setThread, setSemaphore, hu] using hblk
  have howner : (m.semaphores h).owner = some t := by
    by_cases hg : h = g
    · subst hg
      have ht : m.current = t := by
        simpa [takeOver, setPc, setPriority, setThread, setSemaphore] using hown
      exact ht ▸ owner_of_blocked hb hfree hblocked
    · simpa [takeOver, setPc, setPriority, setThread, setSemaphore, hg] using hown
  by_cases ht : t = m.current
  · subst ht
    simpa [takeOver, setPc, setPriority, setThread, setSemaphore] using hcov.le howner hblocked hcp
  · simpa [takeOver, setPc, setPriority, setThread, setSemaphore, ht] using
      hc.boosted t u h c howner hblocked hcp

omit [DecidableEq G] [Fintype G] in
theorem wakeBlock_covered (hc : Covered m) {g : G} {cp prev : Int} {o : T}
    (hpc : m.pc m.current = .enter g cp prev .suspendClear)
    (howner : (m.semaphores g).owner = some o) (hle : cp ≤ (m.threads o).priority) :
    Covered (yield idlethread threadList (block m m.current g cp prev)) := by
  constructor
  · intro t u h c hown hblk hcp
    have hprio : ((yield idlethread threadList (block m m.current g cp prev)).threads t).priority =
        (m.threads t).priority := by
      rw [yield_priority]
      exact update_field Thread.priority _ _ _ _ rfl
    rw [hprio]
    simp only [block, setPc, setThread, Blocked, yield_semaphores, yield_waitingFor, yield_pc]
      at hown hblk hcp
    by_cases hu : u = m.current
    · subst hu
      simp only [Function.update_self, callerPriority, Option.some.injEq] at hblk hcp
      subst hblk hcp
      obtain rfl : o = t := Option.some.inj (howner.symm.trans hown)
      exact hle
    · simp only [Function.update_of_ne hu] at hblk hcp
      exact hc.boosted t u h c hown hblk hcp
  · refine hc.bounded_update (.enter g cp prev .suspendClear) (yield_pc _)
      (fun c h => Option.some.inj h ▸ ?_)
    exact hc.bounded m.current cp (by simp [hpc, callerPriority])

omit [Fintype G] in
/-- The thread that a semaphore is handed over to waits at the ceiling. -/
theorem release_covered (ho : Ownership idlethread m) (hb : Bookkeeping idlethread m)
    (hc : Covered m) (g : G) :
    Covered (release m m.current g (findNextWaitingFor m.threads idlethread threadList g)) := by
  refine hc.of_others (.leavePriority g (m.semaphores g).ownerPriority
    (findNextWaitingFor m.threads idlethread threadList g)) ?_ (fun _ h => by cases h)
    (fun _ _ => rfl) ?_
  · simp [release, setPc, noteLeft, setSemaphore]
  intro t u h c hu hown hblk hcp
  have hprio : ((release m m.current g (findNextWaitingFor m.threads idlethread threadList g)).threads
      t).priority = (m.threads t).priority := by
    simp only [release, setPc, wake_threads, noteLeft, setSemaphore]
    split
    · rfl
    · rfl
  have hblocked : Blocked m h u := by
    simp only [Blocked, release, setPc, wake_threads, noteLeft, setSemaphore] at hblk
    split at hblk
    · cases hblk
    · exact hblk
  rw [hprio]
  by_cases hg : h = g
  · subst hg
    have hnext : findNextWaitingFor m.threads idlethread threadList h = some t := by
      simpa [release, setPc, noteLeft, setSemaphore] using hown
    obtain ⟨cp, prev, hpc⟩ := waiter_pc ho hb (findNextWaitingFor_waits hnext).2
    exact (hc.bounded u c hcp).trans (hb.ceiling t h cp prev hpc)
  · have howner : (m.semaphores h).owner = some t := by
      simpa [release, setPc, noteLeft, setSemaphore, hg] using hown
    exact hc.boosted t u h c howner hblocked hcp

omit [DecidableEq G] [Fintype G] in
theorem restore_covered (hc : Covered m) {g : G} {p : Int} {w : Option T}
    (hcov : Covers m m.current p) :
    Covered (setPc (setPriority m m.current p) m.current (.leaveYieldTest g w)) := by
  refine hc.of_others (.leaveYieldTest g w) rfl (fun _ h => by cases h) (fun _ _ => rfl) ?_
  intro t u h c hu hown hblk hcp
  have howner : (m.semaphores h).owner = some t := hown
  have hblocked : Blocked m h u := by
    simpa [Blocked, setPc, setPriority, setThread, hu] using hblk
  by_cases ht : t = m.current
  · subst ht
    simpa [setPc, setPriority, setThread] using hcov.le howner hblocked hcp
  · simpa [setPc, setPriority, setThread, ht] using hc.boosted t u h c howner hblocked hcp

theorem scopedExec_covered (ho : Ownership idlethread m) (hb : Bookkeeping idlethread m)
    (hc : Covered m) (hok : KeepsBoost .exec m) (hs : ScopedExec idlethread threadList m m') :
    Covered m' := by
  cases hs with
  | read g hpc =>
    simp only [KeepsBoost, hpc] at hok
    have hself := not_blocked_of_pc ho hb hpc (by simp)
    refine hc.of_others (.enterCeiling g (m.threads m.current).priority) rfl
      (fun c h => Option.some.inj h ▸ hok) (fun h hblk => absurd hblk (hself h)) ?_
    exact fun t u h c _ hown hblk hcp => hc.boosted t u h c hown hblk hcp
  | take g cp hpc hfree => exact take_covered hb hc _ hfree
  | block g cp o hpc howner hne => exact block_covered hc hpc howner hne
  | wakeTake g cp prev hpc hfree =>
    refine wakeTake_covered hb hc hfree ?_
    simp only [KeepsBoost, hpc] at hok
    cases howner : (m.semaphores g).owner with
    | none =>
      rw [howner] at hok
      exact hok
    | some o =>
      have hself : o = m.current := by
        by_contra hne
        exact hfree ⟨by simp [howner], by simp [howner, hne]⟩
      simpa [howner, hself] using hok
  | wakeBlock g cp prev o hpc howner hne =>
    simp only [KeepsBoost, hpc, howner, if_neg hne] at hok
    exact wakeBlock_covered hc hpc howner hok
  | release g hpc => exact release_covered ho hb hc g
  | restore g p w hpc =>
    simp only [KeepsBoost, hpc] at hok
    exact restore_covered hc hok
  | entered g hpc =>
    exact hc.of_frame (fun _ => rfl) (fun _ _ h => h) (fun _ _ => callerPriority_update rfl)
      (fun _ => rfl)
  | count g hpc =>
    refine hc.of_frame ?_ (fun _ _ h => h) (fun _ _ => callerPriority_update rfl) (fun _ => rfl)
    intro h
    by_cases hg : h = g
    · simp [setPc, setSemaphore, hg]
    · simp [setPc, setSemaphore, hg]
  | yield pc hpc =>
    have hnone : callerPriority pc = none := by
      obtain ⟨g, _, rfl⟩ | ⟨_, rfl⟩ := hpc
      · rfl
      · rfl
    refine hc.of_frame (by simp [setPc]) ?_ ?_ (by simp [setPc])
    · intro u g
      simp [Blocked, setPc]
    · intro u cp
      rw [yield_pc]
      exact callerPriority_update hnone
  | move pc hpc =>
    have hnone : callerPriority pc = none := by
      obtain ⟨g, _, rfl | ⟨_, rfl⟩⟩ | ⟨g, _, rfl | rfl⟩ | ⟨g, w, _, rfl | rfl⟩ | ⟨_, rfl⟩ := hpc
      all_goals rfl
    exact hc.of_frame (fun _ => rfl) (fun _ _ h => h) (fun _ _ => callerPriority_update hnone)
      (fun _ => rfl)

omit [Fintype G] in
theorem call_covered (hc : Covered m) (c : Call G) : Covered (call idlethread threadList m c) := by
  cases c with
  | enter g =>
    simp only [call]
    split
    · exact hc.of_frame (fun _ => rfl) (fun _ _ h => h) (fun _ _ => callerPriority_update rfl)
        (fun _ => rfl)
    · exact hc
  | leave g =>
    simp only [call]
    split
    · exact hc.of_frame (fun _ => rfl) (fun _ _ h => h) (fun _ _ => callerPriority_update rfl)
        (fun _ => rfl)
    · exact hc
  | sleep time =>
    refine hc.of_frame (by simp [call, setThread]) ?_ (by simp [call, setThread]) ?_
    · intro u g hblk
      by_cases hu : u = m.current
      · subst hu
        simp [Blocked, call, setThread] at hblk
      · simpa [Blocked, call, setThread, hu] using hblk
    · intro t
      simp only [call, yield_priority, setThread]
      exact update_field Thread.priority _ _ _ _ rfl

theorem scopedStep_covered {e : Event T G} (ho : Ownership idlethread m)
    (hb : Bookkeeping idlethread m) (hc : Covered m) (hok : KeepsBoost e m)
    (hs : scopedStep idlethread threadList e m = some m') : Covered m' := by
  cases e with
  | exec =>
    simp only [scopedStep, Option.ite_none_left_eq_some, Option.some.injEq] at hs
    obtain ⟨hpc, rfl⟩ := hs
    exact scopedExec_covered ho hb hc hok (scopedExec_of_bookkeeping ho hb hpc)
  | call c =>
    simp only [scopedStep, step, Option.ite_none_right_eq_some, Option.some.injEq] at hs
    obtain ⟨_, rfl⟩ := hs
    exact call_covered hc c
  | tick =>
    cases hs
    exact hc.of_frame (fun _ => rfl) (by simp [Blocked, switchTo]) (fun _ _ h => h)
      (by simp [switchTo])
  | resume t =>
    cases hs
    exact hc.of_frame (fun _ => rfl) (fun _ _ h => (resumeThread_waitingFor h).2) (fun _ _ h => h)
      (by simp [resume])
  | elapse now =>
    simp only [scopedStep, step, Option.ite_none_right_eq_some, Option.some.injEq] at hs
    obtain ⟨_, rfl⟩ := hs
    exact hc.of_frame (fun _ => rfl) (fun _ _ h => h) (fun _ _ h => h) (fun _ => rfl)

omit [DecidableEq T] [DecidableEq G] [Fintype G] in
theorem start_covered (h : Start idlethread m) : Covered m := by
  obtain ⟨_, _, _, _, hpc, hwait, _, _, _⟩ := h
  constructor
  · intro t u g cp _ hblk
    simp [Blocked, hwait] at hblk
  · intro t cp hcp
    simp [hpc, callerPriority] at hcp

/-- In a run all of whose steps keep the boost there is no priority
inversion through semaphores. -/
theorem noInversion_of_keepsBoost (hlist : ∀ t, t ∈ threadList)
    (h : ReachableUnder (Start idlethread) (scopedStep idlethread threadList) KeepsBoost m) :
    NoInversion m := by
  have hc := h.invariant_with Covered (fun _ hs => start_covered hs)
    (fun _ _ _ hr hi hok hs =>
      scopedStep_covered (reachable_bookkeeping hlist hr).1 (reachable_bookkeeping hlist hr).2 hi hok hs)
  obtain ⟨ho, hb⟩ := reachable_bookkeeping hlist h
  intro t u g hown _ hblk
  obtain ⟨cp, prev, hpc⟩ := waiter_pc ho hb hblk
  have hle := hc.boosted t u g cp hown hblk (by simp [hpc, callerPriority])
  simpa [ownPriority, hpc, callerPriority] using hle

end

instance (m : Machine (Fin 4) Unit) (t : Fin 4) (p : Int) : Decidable (Covers m t p) := by
  unfold Covers
  infer_instance

instance (e : Event (Fin 4) Unit) (m : Machine (Fin 4) Unit) : Decidable (KeepsBoost e m) := by
  unfold KeepsBoost
  split
  · split <;> first | infer_instance | (split <;> infer_instance)
  · infer_instance

theorem noInversion_sleepers :
    ∃ m : Machine (Fin 4) Unit, ((m.semaphores ()).owner = some 1 ∧ Blocked m () 3) ∧
      NoInversion m := by
  obtain ⟨m, hr, hm⟩ := exists_reachable (Start 0) (scopedStep 0 [1, 2, 3, 0]) KeepsBoost sleepers
    start_sleepers blockInTurn
    (fun m => (m.semaphores ()).owner = some 1 ∧ Blocked m () 3) (by decide +kernel)
  exact ⟨m, hm, noInversion_of_keepsBoost (by decide) hr⟩

/-- The semaphore goes to the waiter of priority 20, which ends its call at
that priority although the one of priority 30 is still blocked. -/
theorem not_noInversion_sleepers :
    ∃ m : Machine (Fin 4) Unit, Reachable (Start 0) (scopedStep 0 [1, 2, 3, 0]) m ∧
      ¬ NoInversion m := by
  obtain ⟨m, hr, hown, hready, hblk, hlt⟩ := exists_reachable (Start 0) (scopedStep 0 [1, 2, 3, 0])
    (fun _ _ => True) sleepers start_sleepers (blockInTurn ++ statements 5)
    (fun m => (m.semaphores ()).owner = some 2 ∧ (m.threads 2).suspendedUntil < m.now ∧
      Blocked m () 3 ∧ (m.threads 2).priority < ownPriority m 3) (by decide +kernel)
  exact ⟨m, hr, fun h => absurd (h 2 3 () hown hready hblk) (not_le.mpr hlt)⟩

end Rodos.PriorityInversion
