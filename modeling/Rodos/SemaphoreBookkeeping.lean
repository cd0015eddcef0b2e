import Rodos.SemaphoreScopes

namespace Rodos.SemaphoreBookkeeping

open ThreadSelection SemaphoreMachine SemaphoreOwnership SemaphoreExclusion SemaphoreScopes
  TransitionSystem

variable {T G : Type}

/-- What holds between any two atomic steps. A thread suspended in `enter`
waits at least at the ceiling, and only for a semaphore that has an owner. -/
structure Bookkeeping (idlethread : T) (m : Machine T G) : Prop where
  stable : ∀ t, inScope (m.pc t) = false ∧ m.pc t ≠ .fault
  idlePc : m.pc idlethread = .outside
  idlePriority : (m.threads idlethread).priority = 0
  idleOwner : ∀ g, (m.semaphores g).owner ≠ some idlethread
  ceiling : ∀ t g cp prev, m.pc t = .enter g cp prev .suspendClear →
    ceilingPriority ≤ (m.threads t).priority
  suspended : ∀ t g, (m.threads t).waitingFor = some g → (m.threads t).suspendedUntil = endOfTime
  free : ∀ t g, (m.threads t).waitingFor = some g → (m.semaphores g).owner ≠ none
  now : 0 < m.now ∧ m.now ≤ endOfTime

theorem suspendClear_of_waiting {g : G} {pc : Pc T G} (h : Waiting g pc) (hs : inScope pc = false) :
    ∃ cp prev, pc = .enter g cp prev .suspendClear := by
  unfold Waiting at h
  split at h <;> simp_all [inScope]

section

variable {idlethread : T} {m : Machine T G}

theorem waiter_pc (ho : Ownership idlethread m) (hb : Bookkeeping idlethread m) {t : T} {g : G}
    (hw : (m.threads t).waitingFor = some g) :
    ∃ cp prev, m.pc t = .enter g cp prev .suspendClear :=
  suspendClear_of_waiting (ho.registered t g hw) (hb.stable t).1

/-- Every waiter outranks the idle thread, with which the search begins. -/
theorem waiter_rank (ho : Ownership idlethread m) (hb : Bookkeeping idlethread m) {t : T} {g : G}
    (hw : (m.threads t).waitingFor = some g) :
    rank (m.threads idlethread) < rank (m.threads t) := by
  obtain ⟨cp, prev, hpc⟩ := waiter_pc ho hb hw
  have hc := hb.ceiling t g cp prev hpc
  rw [rank_lt_iff, hb.idlePriority]
  have hpos : (0 : Int) < ceilingPriority := by decide
  exact .inl (hpos.trans_le hc)

variable [DecidableEq T] [DecidableEq G] [Fintype G] {threadList : List T}

omit [Fintype G] in
theorem findNextWaitingFor_none (ho : Ownership idlethread m) (hb : Bookkeeping idlethread m)
    (hlist : ∀ t, t ∈ threadList) {g : G}
    (h : findNextWaitingFor m.threads idlethread threadList g = none) (t : T) :
    (m.threads t).waitingFor ≠ some g := by
  intro hw
  obtain ⟨w, hf, _⟩ := findNextWaitingFor_spec hlist (fun t ht => waiter_rank ho hb ht) hw
  rw [h] at hf
  cases hf

omit [DecidableEq T] [DecidableEq G] [Fintype G] in
theorem runs_ne_idle (hb : Bookkeeping idlethread m)
    (hpc : ¬ (m.pc m.current = .outside ∨ m.pc m.current = .fault)) : m.current ≠ idlethread := by
  intro hi
  exact hpc (.inl (hi ▸ hb.idlePc))

theorem scopedExec_of_bookkeeping (ho : Ownership idlethread m) (hb : Bookkeeping idlethread m)
    (hpc : ¬ (m.pc m.current = .outside ∨ m.pc m.current = .fault)) :
    ScopedExec idlethread threadList m (execScope idlethread threadList m) := by
  refine scopedExec_execScope (hb.stable _).1 (fun h => hpc (.inl h)) (hb.stable _).2
    (runs_ne_idle hb hpc) ?_
  intro g hg hw
  have hr := ho.registered m.current g hw
  rw [hg] at hr
  exact hr

theorem scopedExec_bookkeeping {m' : Machine T G} (ho : Ownership idlethread m)
    (hb : Bookkeeping idlethread m) (hlist : ∀ t, t ∈ threadList) (hidle : m.current ≠ idlethread)
    (hs : ScopedExec idlethread threadList m m') : Bookkeeping idlethread m' where
  stable := by
    intro t
    by_cases ht : t = m.current
    · subst ht
      exact hs.stable_self
    · rw [hs.pc_of_ne t ht]
      exact hb.stable t
  idlePc := by
    rw [hs.pc_of_ne idlethread hidle.symm]
    exact hb.idlePc
  idlePriority := by
    obtain h | ⟨g, hg⟩ := (hs.priority_of_ne idlethread hidle.symm).2
    · rw [h]
      exact hb.idlePriority
    · exact absurd hg (hb.idleOwner g)
  idleOwner := by
    intro g hg
    obtain h | ⟨h, _⟩ | ⟨_, h⟩ := hs.owner_cases g
    · exact hb.idleOwner g (h ▸ hg)
    · exact hidle (Option.some.inj (h.symm.trans hg))
    · exact (findNextWaitingFor_waits (h.symm.trans hg)).1 rfl
  ceiling := by
    intro t g cp prev hpc
    by_cases ht : t = m.current
    · subst ht
      exact hs.ceiling_self (fun prev h => hb.ceiling _ _ _ _ h) hpc
    · rw [hs.pc_of_ne t ht] at hpc
      exact (hb.ceiling t g cp prev hpc).trans (hs.priority_of_ne t ht).1
  suspended := by
    intro t g hw
    obtain ⟨hold, hsame⟩ | ⟨_, hnew, _⟩ := hs.registers hw
    · rw [hsame]
      exact hb.suspended t g hold
    · exact hnew
  free := by
    intro t g hw hnone
    obtain ⟨hold, _⟩ | ⟨_, _, hocc⟩ := hs.registers hw
    · obtain h | ⟨h, _⟩ | ⟨_, h⟩ := hs.owner_cases g
      · exact hb.free t g hold (h ▸ hnone)
      · rw [h] at hnone
        cases hnone
      · exact findNextWaitingFor_none ho hb hlist (h.symm.trans hnone) t hold
    · exact hocc hnone
  now := by
    rw [hs.now_eq]
    exact hb.now

omit [DecidableEq T] [DecidableEq G] [Fintype G] in
theorem Bookkeeping.of_threads {m' : Machine T G} (hb : Bookkeeping idlethread m)
    (hsem : m'.semaphores = m.semaphores) (hpc : m'.pc = m.pc)
    (hprio : ∀ t, (m'.threads t).priority = (m.threads t).priority)
    (hw : ∀ t g, (m'.threads t).waitingFor = some g → (m.threads t).waitingFor = some g ∧
      (m'.threads t).suspendedUntil = (m.threads t).suspendedUntil)
    (hnow : 0 < m'.now ∧ m'.now ≤ endOfTime) : Bookkeeping idlethread m' where
  stable := hpc ▸ hb.stable
  idlePc := hpc ▸ hb.idlePc
  idlePriority := (hprio idlethread).trans hb.idlePriority
  idleOwner := hsem ▸ hb.idleOwner
  ceiling := fun t g cp prev h => (hprio t).symm ▸ hb.ceiling t g cp prev (hpc ▸ h)
  suspended := fun t g h => (hw t g h).2.trans (hb.suspended t g (hw t g h).1)
  free := fun t g h => hsem ▸ hb.free t g (hw t g h).1
  now := hnow

omit [DecidableEq G] [Fintype G] in
theorem setPc_bookkeeping (hb : Bookkeeping idlethread m) (pc : Pc T G)
    (hidle : m.current ≠ idlethread) (hpc : inScope pc = false ∧ pc ≠ .fault)
    (hclear : ∀ g cp prev, pc ≠ .enter g cp prev .suspendClear) :
    Bookkeeping idlethread (setPc m m.current pc) := by
  refine ⟨?_, ?_, hb.idlePriority, hb.idleOwner, ?_, hb.suspended, hb.free, hb.now⟩
  · intro t
    by_cases ht : t = m.current
    · subst ht
      simpa [setPc] using hpc
    · simpa [setPc, ht] using hb.stable t
  · simpa [setPc, hidle.symm] using hb.idlePc
  · intro t g cp prev h
    by_cases ht : t = m.current
    · subst ht
      simp [setPc, hclear] at h
    · simp only [setPc, Function.update_of_ne ht] at h
      exact hb.ceiling t g cp prev h

omit [Fintype G] in
theorem call_bookkeeping (hb : Bookkeeping idlethread m) (c : Call G) (hidle : m.current ≠ idlethread) :
    Bookkeeping idlethread (call idlethread threadList m c) := by
  cases c with
  | enter g =>
    simp only [call]
    split
    · exact setPc_bookkeeping hb _ hidle (by simp [inScope]) (by simp)
    · exact hb
  | leave g =>
    simp only [call]
    split
    · have hd : Bookkeeping idlethread
          (noteDepth m m.current g (m.history.depth m.current g - 1)) :=
        ⟨hb.stable, hb.idlePc, hb.idlePriority, hb.idleOwner, hb.ceiling, hb.suspended, hb.free, hb.now⟩
      exact setPc_bookkeeping hd (.leaveCheck g) hidle (by simp [inScope]) (by simp)
    · exact hb
  | sleep time =>
    refine hb.of_threads (by simp [call, setThread]) (by simp [call, setThread]) ?_ ?_ ?_
    · intro t
      simp only [call, yield_priority, setThread]
      exact update_field Thread.priority _ _ _ _ rfl
    · intro t g hw
      by_cases ht : t = m.current
      · subst ht
        simp [call, setThread] at hw
      · simpa [call, setThread, ht] using hw
    · simpa [call, setThread] using hb.now

omit [DecidableEq T] [DecidableEq G] [Fintype G] in
theorem not_inWindow {pc : Pc T G} (h : inScope pc = false) : ¬ InWindow m pc := by
  cases pc with
  | enter g cp prev e =>
    cases e with
    | suspendClear => exact id
    | _ => simp [inScope] at h
  | leave g prev l => simp [inScope] at h
  | _ => simp [InWindow]

theorem scopedStep_invariant {e : Event T G} {m' : Machine T G} (hlist : ∀ t, t ∈ threadList)
    (h : Ownership idlethread m ∧ Bookkeeping idlethread m)
    (hs : scopedStep idlethread threadList e m = some m') :
    Ownership idlethread m' ∧ Bookkeeping idlethread m' := by
  obtain ⟨ho, hb⟩ := h
  cases e with
  | exec =>
    simp only [scopedStep, Option.ite_none_left_eq_some, Option.some.injEq] at hs
    obtain ⟨hpc, rfl⟩ := hs
    exact ⟨runScope_ownership _ ho, scopedExec_bookkeeping ho hb hlist (runs_ne_idle hb hpc)
      (scopedExec_of_bookkeeping ho hb hpc)⟩
  | call c =>
    simp only [scopedStep, step, Option.ite_none_right_eq_some, Option.some.injEq] at hs
    obtain ⟨⟨hidle, hpc⟩, rfl⟩ := hs
    exact ⟨call_ownership ho c hpc, call_bookkeeping hb c hidle⟩
  | tick =>
    cases hs
    refine ⟨switchTo_ownership ho _ (fun h => absurd h (not_inWindow (hb.stable _).1)), ?_⟩
    exact hb.of_threads rfl rfl (by simp [switchTo]) (by simp [switchTo]) hb.now
  | resume t =>
    cases hs
    refine ⟨resume_ownership ho t, hb.of_threads rfl rfl (by simp [resume]) ?_ hb.now⟩
    intro u g hw
    obtain ⟨hu, hw⟩ := resumeThread_waitingFor hw
    exact ⟨hw, by simp [resume, resumeThread, hu]⟩
  | elapse now =>
    simp only [scopedStep, step, Option.ite_none_right_eq_some, Option.some.injEq] at hs
    obtain ⟨⟨hle, hend⟩, rfl⟩ := hs
    exact ⟨ho.of_threads rfl rfl rfl (fun _ _ hg => hg),
      hb.of_threads rfl rfl (fun _ => rfl) (fun _ _ hw => ⟨hw, rfl⟩) ⟨hb.now.1.trans_le hle, hend⟩⟩

omit [DecidableEq T] [DecidableEq G] [Fintype G] in
theorem start_bookkeeping (h : Start idlethread m) : Bookkeeping idlethread m := by
  obtain ⟨_, hpos, hend, hprio, hpc, hwait, hsem, _, _⟩ := h
  refine ⟨?_, hpc _, hprio, ?_, ?_, ?_, ?_, hpos, hend⟩
  · intro t
    simp [hpc, inScope]
  · intro g
    simp [hsem]
  · intro t g cp prev hp
    rw [hpc] at hp
    cases hp
  · intro t g hw
    rw [hwait] at hw
    cases hw
  · intro t g hw
    rw [hwait] at hw
    cases hw

theorem reachable_bookkeeping {ok : Event T G → Machine T G → Prop} (hlist : ∀ t, t ∈ threadList)
    (h : ReachableUnder (Start idlethread) (scopedStep idlethread threadList) ok m) :
    Ownership idlethread m ∧ Bookkeeping idlethread m :=
  h.invariant (fun m => Ownership idlethread m ∧ Bookkeeping idlethread m)
    (fun _ hs => ⟨start_ownership hs, start_bookkeeping hs⟩)
    (fun _ _ _ hi _ hs => scopedStep_invariant hlist hi hs)

end

def executing : Pc T G → Option G
  | .enterPriority g | .enterCeiling g _ | .enter g _ _ _ | .enterYield g | .enterReturn g
  | .leaveCheck g | .leaveCount g | .leaveTest g | .leaveCeiling g | .leave g _ _
  | .leavePriority g _ _ | .leaveYieldTest g _ => some g
  | _ => none

section

variable [DecidableEq T] [DecidableEq G] [Fintype G] (idlethread : T) (threadList : List T)

/-- The bookkeeping of a semaphore as its callers rely on it: the counter
counts, a free semaphore has no waiters, the last `leave` and only this one
hands over to exactly one waiter, and a `leave` by anybody else does nothing. -/
structure Consistent (m : Machine T G) : Prop where
  counted : ∀ t g, (m.semaphores g).owner = some t → executing (m.pc t) ≠ some g →
    (m.semaphores g).ownerEnterCnt = m.history.depth t g ∧ 1 ≤ m.history.depth t g ∧
      ∀ u, u ≠ t → m.history.depth u g = 0
  unwaited : ∀ g, (m.semaphores g).owner = none → ∀ t, (m.threads t).waitingFor ≠ some g
  last : ∀ g, m.pc m.current = .leaveTest g →
    (execScope idlethread threadList m).pc m.current =
      if m.history.depth m.current g = 0 then .leaveCeiling g else .outside
  handsOver : ∀ g, m.pc m.current = .leaveCeiling g → (∃ t, (m.threads t).waitingFor = some g) →
    ∃ w, (m.threads w).waitingFor = some g ∧
      ((execScope idlethread threadList m).semaphores g).owner = some w ∧
      ((execScope idlethread threadList m).threads w).suspendedUntil < m.now ∧
      ∀ t, t ≠ w → (m.threads t).waitingFor = some g →
        ((execScope idlethread threadList m).threads t).waitingFor = some g ∧
        m.now ≤ ((execScope idlethread threadList m).threads t).suspendedUntil
  foreign : ∀ g, (m.semaphores g).owner ≠ some m.current →
    (call idlethread threadList m (.leave g)).semaphores = m.semaphores ∧
    (m.pc m.current = .leaveCheck g →
      (execScope idlethread threadList m).semaphores = m.semaphores ∧
      (execScope idlethread threadList m).pc m.current = .outside)
  foreignStays : ∀ e m' t g, scopedStep idlethread threadList e m = some m' →
    m.pc t = .leaveCheck g → (m.semaphores g).owner ≠ some t → (m'.semaphores g).owner ≠ some t

end

section

variable [DecidableEq T] [DecidableEq G] [Fintype G] {idlethread : T} {threadList : List T}
  {m : Machine T G}

theorem scopedStep_counting {e : Event T G} {m' : Machine T G} (ho : Ownership idlethread m)
    (hc : Counting m) (hok : NoOverflow e m)
    (hs : scopedStep idlethread threadList e m = some m') : Counting m' := by
  cases e with
  | exec =>
    simp only [scopedStep, Option.ite_none_left_eq_some, Option.some.injEq] at hs
    obtain ⟨_, rfl⟩ := hs
    exact runScope_counting _ ho hc hok
  | call c | tick | resume t | elapse now =>
    simp only [scopedStep] at hs
    exact step_counting ho hc hok hs

theorem reachable_counting (hlist : ∀ t, t ∈ threadList)
    (h : ReachableUnder (Start idlethread) (scopedStep idlethread threadList) NoOverflow m) :
    Counting m :=
  h.invariant_with Counting (fun _ hs => start_counting hs)
    (fun _ _ _ hr hi hok hs => scopedStep_counting (reachable_bookkeeping hlist hr).1 hi hok hs)

omit [DecidableEq T] [Fintype G] in
theorem settled_of_away {g : G} {own : Option T} {cnt : Int} {t : T} {d : Nat} {pc : Pc T G}
    (h : CountFacts g own cnt t d pc) (hpc : executing pc ≠ some g) (hf : pc ≠ .fault) :
    Settled own cnt t d := by
  cases pc with
  | enter g' cp prev e | leave g' prev l | enterYield g' | enterReturn g' | leaveCheck g'
  | leaveCount g' | leaveTest g' | leaveCeiling g' =>
    have hg : g' ≠ g := fun heq => hpc (congrArg some heq)
    simpa only [CountFacts, if_neg hg] using h
  | fault => exact absurd rfl hf
  | outside | enterPriority g' | enterCeiling g' cp | leavePriority g' p w | leaveYieldTest g' w
  | leaveYield | leaveReturn => exact h

omit [Fintype G] in
theorem call_semaphores (m : Machine T G) (c : Call G) :
    (call idlethread threadList m c).semaphores = m.semaphores := by
  cases c with
  | enter g | leave g =>
    simp only [call]
    split <;> rfl
  | sleep time => simp [call, setThread]

omit [DecidableEq T] [Fintype G] in
theorem counted_of_counting (ho : Ownership idlethread m) (hc : Counting m)
    (hb : Bookkeeping idlethread m) {t : T} {g : G} (hown : (m.semaphores g).owner = some t)
    (haway : executing (m.pc t) ≠ some g) :
    (m.semaphores g).ownerEnterCnt = m.history.depth t g ∧ 1 ≤ m.history.depth t g ∧
      ∀ u, u ≠ t → m.history.depth u g = 0 := by
  obtain ⟨hpos, hcnt⟩ := settled_of_away (hc.facts t g) haway (hb.stable t).2
  refine ⟨hcnt hown, hpos.mpr hown, ?_⟩
  intro u hu
  by_contra hd
  have hou := owner_of_depth (ho.facts u g) (hc.facts u g) (Nat.pos_of_ne_zero hd)
  exact hu (Option.some.inj (hou.symm.trans hown))

theorem leaveTest_step (hc : Counting m) {g : G} (hpc : m.pc m.current = .leaveTest g) :
    (execScope idlethread threadList m).pc m.current =
      if m.history.depth m.current g = 0 then .leaveCeiling g else .outside := by
  have hcnt := hc.facts m.current g
  rw [hpc] at hcnt
  simp only [CountFacts, if_pos] at hcnt
  rw [execScope_plain (by simp [hpc, inScope]) (by simp [hpc, opensScope]), exec, hpc]
  simp only [execAt, setPc, Function.update_self, hcnt, Int.natCast_pos, Nat.pos_iff_ne_zero, ne_eq,
    ite_not]

theorem leaveCeiling_step (ho : Ownership idlethread m) (hb : Bookkeeping idlethread m) {g : G}
    (hpc : m.pc m.current = .leaveCeiling g) :
    execScope idlethread threadList m =
      release m m.current g (findNextWaitingFor m.threads idlethread threadList g) := by
  refine scope_leave hpc (runs_ne_idle hb (by simp [hpc])) ?_
  intro hw
  have hr := ho.registered m.current g hw
  rw [hpc] at hr
  exact hr

theorem handsOver_of_bookkeeping (hlist : ∀ t, t ∈ threadList) (ho : Ownership idlethread m)
    (hb : Bookkeeping idlethread m) {g : G} (hpc : m.pc m.current = .leaveCeiling g) {t : T}
    (ht : (m.threads t).waitingFor = some g) :
    ∃ w, (m.threads w).waitingFor = some g ∧
      ((execScope idlethread threadList m).semaphores g).owner = some w ∧
      ((execScope idlethread threadList m).threads w).suspendedUntil < m.now ∧
      ∀ t, t ≠ w → (m.threads t).waitingFor = some g →
        ((execScope idlethread threadList m).threads t).waitingFor = some g ∧
        m.now ≤ ((execScope idlethread threadList m).threads t).suspendedUntil := by
  obtain ⟨w, hw, _⟩ :=
    findNextWaitingFor_spec hlist (fun t ht => waiter_rank ho hb ht) ht
  rw [leaveCeiling_step ho hb hpc, hw]
  refine ⟨w, (findNextWaitingFor_waits hw).2, ?_, ?_, ?_⟩
  · simp [release, setPc, noteLeft, setSemaphore]
  · simpa [release, setPc, wake_threads] using hb.now.1
  · intro u hu hg
    have hwu : w ≠ u := Ne.symm hu
    have hs := hb.suspended u g hg
    simpa [release, setPc, wake_threads, noteLeft, setSemaphore, hwu, hg, hs] using hb.now.2

theorem leaveCheck_step {g : G} (hown : (m.semaphores g).owner ≠ some m.current)
    (hpc : m.pc m.current = .leaveCheck g) :
    (execScope idlethread threadList m).semaphores = m.semaphores ∧
      (execScope idlethread threadList m).pc m.current = .outside := by
  rw [execScope_plain (by simp [hpc, inScope]) (by simp [hpc, opensScope]), exec, hpc]
  simp [execAt, setPc, hown]

theorem foreign_stays (ho : Ownership idlethread m) (hb : Bookkeeping idlethread m)
    {e : Event T G} {m' : Machine T G} {t : T} {g : G}
    (hs : scopedStep idlethread threadList e m = some m') (hpc : m.pc t = .leaveCheck g)
    (hown : (m.semaphores g).owner ≠ some t) : (m'.semaphores g).owner ≠ some t := by
  cases e with
  | exec =>
    simp only [scopedStep, Option.ite_none_left_eq_some, Option.some.injEq] at hs
    obtain ⟨hrun, rfl⟩ := hs
    intro hg
    obtain h | ⟨h, hat⟩ | ⟨_, h⟩ := (scopedExec_of_bookkeeping ho hb hrun).owner_cases g
    · exact hown (h.symm.trans hg)
    · obtain rfl : m.current = t := Option.some.inj (h.symm.trans hg)
      rw [hpc] at hat
      simp at hat
    · obtain ⟨cp, prev, hw⟩ := waiter_pc ho hb (findNextWaitingFor_waits (h.symm.trans hg)).2
      rw [hpc] at hw
      cases hw
  | call c =>
    simp only [scopedStep, step, Option.ite_none_right_eq_some, Option.some.injEq] at hs
    obtain ⟨_, rfl⟩ := hs
    rwa [call_semaphores]
  | tick | resume u =>
    cases hs
    exact hown
  | elapse now =>
    simp only [scopedStep, step, Option.ite_none_right_eq_some, Option.some.injEq] at hs
    obtain ⟨_, rfl⟩ := hs
    exact hown

/-- In a run in which no counter overflows the bookkeeping of every
semaphore is consistent between any two atomic steps. -/
theorem consistent_of_reachable (hlist : ∀ t, t ∈ threadList)
    (h : ReachableUnder (Start idlethread) (scopedStep idlethread threadList) NoOverflow m) :
    Consistent idlethread threadList m := by
  obtain ⟨ho, hb⟩ := reachable_bookkeeping hlist h
  have hc := reachable_counting hlist h
  constructor
  · exact fun t g => counted_of_counting ho hc hb
  · exact fun g hnone t hw => hb.free t g hw hnone
  · exact fun g => leaveTest_step hc
  · exact fun g hpc ⟨t, ht⟩ => handsOver_of_bookkeeping hlist ho hb hpc ht
  · exact fun g hown => ⟨call_semaphores m (.leave g), leaveCheck_step hown⟩
  · exact fun e m' t g => foreign_stays ho hb

end

def upToLastLeave : List (Event (Fin 4) Unit) :=
  .call (.enter ()) :: statements 3 ++ .call (.enter ()) :: statements 2 ++
    .call (.enter ()) :: statements 2 ++ statements 1 ++ .call (.leave ()) :: statements 3

theorem consistent_threeWorkers :
    ∃ m : Machine (Fin 4) Unit, (m.pc m.current = .leaveCeiling () ∧
      (m.threads 2).waitingFor = some () ∧ (m.threads 3).waitingFor = some ()) ∧
      Consistent 0 [1, 2, 3, 0] m := by
  obtain ⟨m, hr, hm⟩ := exists_reachable (Start 0) (scopedStep 0 [1, 2, 3, 0]) NoOverflow
    threeWorkers start_threeWorkers upToLastLeave
    (fun m => m.pc m.current = .leaveCeiling () ∧
      (m.threads 2).waitingFor = some () ∧ (m.threads 3).waitingFor = some ()) (by decide +kernel)
  exact ⟨m, hm, consistent_of_reachable (by decide) hr⟩

def oneWorker : Machine (Fin 2) Unit where
  threads := ![⟨0, 0, 0, none⟩, ⟨10, 0, 1, none⟩]
  semaphores := fun _ => ⟨none, 0, 0⟩
  pc := fun _ => .outside
  current := 1
  schedulerRunning := true
  scheduleCounter := 1
  now := 1
  history := ⟨fun _ _ => 0, fun _ => 0, fun _ _ => 0, fun _ => none⟩

structure Nested (n : Nat) (m : Machine (Fin 2) Unit) : Prop where
  threads : m.threads = oneWorker.threads
  owner : (m.semaphores ()).owner = if n = 0 then none else some 1
  count : (m.semaphores ()).ownerEnterCnt = int32 n
  pc : m.pc = fun _ => .outside
  current : m.current = 1
  running : m.schedulerRunning = true
  now : m.now = 1
  depth : m.history.depth 1 () = n

theorem oneWorker_yields {m : Machine (Fin 2) Unit} (hth : m.threads = oneWorker.threads)
    (hcur : m.current = 1) (hnow : m.now = 1) (hpc : m.pc 1 = .enterYield ()) :
    scopedStep 0 [1, 0] .exec m = some (setPc m 1 (.enterReturn ())) := by
  have hat : m.pc m.current = .enterYield () := by rw [hcur, hpc]
  have hnext : nextToRun 0 [1, 0] (setPc m 1 (.enterReturn ())) =
      (setPc m 1 (.enterReturn ())).current := by
    simp [nextToRun, findNextToRun, selectLoop, selectStep, setPc, hth, hcur, hnow, oneWorker]
  rw [scopedStep, if_neg (by simp [hat]), execScope_plain (by simp [hat, inScope])
    (by simp [hat, opensScope]), exec, hat, execAt, hcur, yield, if_pos hnext]

theorem nested_step {n : Nat} {m : Machine (Fin 2) Unit}
    (hr : Reachable (Start 0) (scopedStep 0 [1, 0]) m) (h : Nested n m) :
    ∃ m', Reachable (Start 0) (scopedStep 0 [1, 0]) m' ∧ Nested (n + 1) m' := by
  obtain ⟨hth, hown, hcnt, hpc, hcur, hrun, hnow, hd⟩ := h
  have hcall : scopedStep 0 [1, 0] (.call (.enter ())) m = some (setPc m 1 (.enterPriority ())) := by
    simp [scopedStep, step, call, hcur, hpc, hrun]
  have hread : scopedStep 0 [1, 0] .exec (setPc m 1 (.enterPriority ())) =
      some (setPc (noteEntry m 1 ()) 1 (.enterCeiling () 10)) := by
    simp [scopedStep, execScope, runScope, exec, execAt, setPc, noteEntry, hcur, hth, oneWorker,
      inScope]
  have htake : scopedStep 0 [1, 0] .exec (setPc (noteEntry m 1 ()) 1 (.enterCeiling () 10)) =
      some (takeOver (noteEntry m 1 ()) 1 () 10 10 (int32 n)) := by
    have hat : (setPc (noteEntry m 1 ()) 1 (.enterCeiling () 10)).pc
        (setPc (noteEntry m 1 ()) 1 (.enterCeiling () 10)).current = .enterCeiling () 10 := by
      simp [setPc, noteEntry, hcur]
    rw [scopedStep, if_neg (by simp [hat]), scope_enter_free hat
      (by simp [occupied, setPc, noteEntry, hcur, hown])]
    simp [setPc, noteEntry, hcur, hth, oneWorker, takeOver, setSemaphore, hcnt, setPriority, setThread]
  have hyield := oneWorker_yields (m := takeOver (noteEntry m 1 ()) 1 () 10 10 (int32 n))
    (by simp [takeOver, setPc, setPriority, setThread, setSemaphore, noteEntry, hth, oneWorker])
    hcur hnow (by simp [takeOver, setPc])
  have hreturn : scopedStep 0 [1, 0] .exec
      (setPc (takeOver (noteEntry m 1 ()) 1 () 10 10 (int32 n)) 1 (.enterReturn ())) =
      some (setPc (noteDepth (takeOver (noteEntry m 1 ()) 1 () 10 10 (int32 n)) 1 () (n + 1)) 1
        .outside) := by
    simp [scopedStep, execScope, runScope, exec, execAt, setPc, takeOver, noteEntry, noteDepth,
      setPriority, setThread, setSemaphore, hcur, hd, inScope]
  refine ⟨_, ((((hr.step trivial hcall).step trivial hread).step trivial htake).step trivial
    hyield).step trivial hreturn, ?_⟩
  constructor <;> simp [setPc, noteDepth, takeOver, noteEntry, setPriority, setThread, setSemaphore,
    hth, hcur, hrun, hnow, hpc, oneWorker, int32]

theorem reachable_nested (n : Nat) :
    ∃ m, Reachable (Start 0) (scopedStep 0 [1, 0]) m ∧ Nested n m := by
  induction n with
  | zero =>
    refine ⟨oneWorker, .start ?_, ?_⟩
    · exact ⟨rfl, by decide, by decide, rfl, fun _ => rfl, by decide, fun _ => ⟨rfl, rfl⟩, fun _ _ => rfl,
        fun _ => rfl⟩
    · exact ⟨rfl, rfl, rfl, rfl, rfl, rfl, rfl, rfl⟩
  | succ n ih =>
    obtain ⟨m, hr, hn⟩ := ih
    exact nested_step hr hn

/-- The counter has 32 bits, so 2³¹ nested calls make it negative. -/
theorem not_consistent_oneWorker :
    ∃ m : Machine (Fin 2) Unit,
      Reachable (Start 0) (scopedStep 0 [1, 0]) m ∧ ¬ Consistent 0 [1, 0] m := by
  obtain ⟨m, hr, hn⟩ := reachable_nested (2 ^ 31)
  refine ⟨m, hr, fun h => ?_⟩
  have hown : (m.semaphores ()).owner = some 1 := hn.owner
  have hcnt := (h.counted 1 () hown (by simp [hn.pc, executing])).1
  rw [hn.count, hn.depth] at hcnt
  exact absurd hcnt (by decide)

end Rodos.SemaphoreBookkeeping
