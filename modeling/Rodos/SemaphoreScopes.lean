import Rodos.SemaphoreExclusion

namespace Rodos.SemaphoreScopes

open ThreadSelection SemaphoreMachine SemaphoreOwnership SemaphoreExclusion TransitionSystem

variable {T G : Type}

def inScope : Pc T G → Bool
  | .enter _ _ _ .suspendClear => false
  | .enter _ _ _ _ | .leave _ _ _ => true
  | _ => false

section

variable [DecidableEq T] [DecidableEq G] [Fintype G] (idlethread : T) (threadList : List T)

/-- Execute statements of the running thread until it is outside its
priority ceiling or has suspended itself in it. -/
def runScope : Nat → Machine T G → Machine T G
  | 0, m => m
  | n + 1, m =>
    if inScope ((exec idlethread threadList m).pc m.current) then
      runScope n (exec idlethread threadList m)
    else exec idlethread threadList m

/-- One atomic step: a single statement, or a priority ceiling up to its end
or to a suspension. The longest one searches the whole thread list. -/
def execScope (m : Machine T G) : Machine T G :=
  runScope idlethread threadList (threadList.length + 16) m

def scopedStep (e : Event T G) (m : Machine T G) : Option (Machine T G) :=
  match e with
  | .exec =>
    if m.pc m.current = .outside ∨ m.pc m.current = .fault then none
    else some (execScope idlethread threadList m)
  | e => step idlethread threadList e m

end

section

variable [DecidableEq T]

def boosted (m : Machine T G) (o : T) (cp : Int) : Machine T G :=
  if (m.threads o).priority < cp then setPriority m o cp else m

def block (m : Machine T G) (t : T) (g : G) (cp prev : Int) : Machine T G :=
  setPc (setThread m t (fun th => { th with waitingFor := some g, suspendedUntil := endOfTime })) t
    (.enter g cp prev .suspendClear)

def wake (m : Machine T G) : Option T → Machine T G
  | none => m
  | some w => resume m w

variable [DecidableEq G]

def takeOver (m : Machine T G) (t : T) (g : G) (cp prev cnt : Int) : Machine T G :=
  setPc (setPriority (setSemaphore m g (fun _ => ⟨some t, int32 (cnt + 1), cp⟩)) t prev) t
    (.enterYield g)


def release (m : Machine T G) (t : T) (g : G) (waiter : Option T) : Machine T G :=
  setPc (wake (noteLeft (setSemaphore m g (fun s => ⟨waiter, s.ownerEnterCnt, 0⟩)) t g) waiter) t
    (.leavePriority g (m.semaphores g).ownerPriority waiter)

end

section

variable [DecidableEq T] (m : Machine T G) (o u : T) (cp : Int) (w : Option T)

theorem boosted_eq : boosted m o cp =
    setPriority m o (if (m.threads o).priority < cp then cp else (m.threads o).priority) := by
  rw [boosted]
  split
  · rfl
  · simp [setPriority, setThread]

theorem wake_threads : (wake m w).threads u =
    if w = some u then { m.threads u with waitingFor := none, suspendedUntil := 0 }
    else m.threads u := by
  cases w with
  | none => rfl
  | some w =>
    by_cases h : w = u
    · subst h
      simp [wake, resume, resumeThread]
    · simp [wake, resume, resumeThread, h, Ne.symm h]

@[simp] theorem wake_pc : (wake m w).pc = m.pc := by cases w <;> rfl

@[simp] theorem wake_semaphores : (wake m w).semaphores = m.semaphores := by cases w <;> rfl

@[simp] theorem wake_now : (wake m w).now = m.now := by cases w <;> rfl

end

section

variable [DecidableEq T] [DecidableEq G] [Fintype G] {idlethread : T} {threadList : List T}

theorem runScope_last (n : Nat) (m : Machine T G)
    (h : inScope ((exec idlethread threadList m).pc m.current) = false) :
    runScope idlethread threadList (n + 1) m = exec idlethread threadList m := by
  simp [runScope, h]

theorem scope_enter_free {m : Machine T G} {g : G} {cp : Int}
    (hpc : m.pc m.current = .enterCeiling g cp) (hfree : ¬ occupied m m.current g) :
    execScope idlethread threadList m =
      takeOver m m.current g cp (m.threads m.current).priority (m.semaphores g).ownerEnterCnt := by
  have hf : ¬ ((m.semaphores g).owner ≠ none ∧ (m.semaphores g).owner ≠ some m.current) := hfree
  simp [execScope, runScope, exec, execAt, execEnter, hpc, setPc, setPriority, setThread,
    setSemaphore, inScope, occupied, hf, takeOver]

theorem scope_enter_blocked {m : Machine T G} {g : G} {cp : Int} {o : T}
    (hpc : m.pc m.current = .enterCeiling g cp) (ho : (m.semaphores g).owner = some o)
    (hne : o ≠ m.current) :
    execScope idlethread threadList m =
      yield idlethread threadList (block (setPriority (boosted m o cp) m.current ceilingPriority)
        m.current g cp (m.threads m.current).priority) := by
  by_cases hlt : (m.threads o).priority < cp
  · simp [execScope, runScope, exec, execAt, execEnter, hpc, setPc, setPriority, setThread,
      inScope, occupied, ho, hne, hne.symm, hlt, boosted, block, Function.update_comm hne]
  · simp [execScope, runScope, exec, execAt, execEnter, hpc, setPc, setPriority, setThread,
      inScope, occupied, ho, hne, hlt, boosted, block]

theorem scope_wake_free {m : Machine T G} {g : G} {cp prev : Int}
    (hpc : m.pc m.current = .enter g cp prev .suspendClear) (hfree : ¬ occupied m m.current g) :
    execScope idlethread threadList m =
      takeOver (setThread m m.current (fun th => { th with waitingFor := none })) m.current g cp
        prev 0 := by
  have hf : ¬ ((m.semaphores g).owner ≠ none ∧ (m.semaphores g).owner ≠ some m.current) := hfree
  simp [execScope, runScope, exec, execAt, execEnter, hpc, setPc, setPriority, setThread,
    setSemaphore, inScope, occupied, hf, takeOver]

theorem scope_wake_blocked {m : Machine T G} {g : G} {cp prev : Int}
    (hpc : m.pc m.current = .enter g cp prev .suspendClear) (hocc : occupied m m.current g) :
    execScope idlethread threadList m =
      yield idlethread threadList (block m m.current g cp prev) := by
  have hf : (m.semaphores g).owner ≠ none ∧ (m.semaphores g).owner ≠ some m.current := hocc
  simp [execScope, runScope, exec, execAt, execEnter, hpc, setPc, setPriority, setThread,
    inScope, occupied, hf, block]

omit [DecidableEq G] [Fintype G] in
theorem setPc_setPc (m : Machine T G) (t : T) (a b : Pc T G) :
    setPc (setPc m t a) t b = setPc m t b := by
  simp [setPc]

theorem runScope_find (n : Nat) (m : Machine T G) (g : G) (prev p : Int) (rest : List T) (next : T)
    (hpc : m.pc m.current = .leave g prev (.find p rest next)) :
    runScope idlethread threadList (rest.length + n) m =
      runScope idlethread threadList n
        (setPc m m.current (.leave g prev (.find p [] (waiterLoop m.threads g rest next)))) := by
  induction rest generalizing m next with
  | nil =>
    have hsame : setPc m m.current (.leave g prev (.find p [] (waiterLoop m.threads g [] next))) = m := by
      rw [waiterLoop, ← hpc, setPc, Function.update_eq_self]
    rw [hsame, List.length_nil, Nat.zero_add]
  | cons iter rest ih =>
    have hexec : exec idlethread threadList m =
        setPc m m.current (.leave g prev (.find p rest (waiterStep m.threads g iter next))) := by
      simp [exec, execAt, execLeave, hpc]
    rw [List.length_cons, Nat.succ_add, runScope, hexec, if_pos (by simp [setPc, inScope])]
    refine (ih _ (waiterStep m.threads g iter next) (by simp [setPc])).trans ?_
    exact congrArg _ (setPc_setPc m m.current _ _)

theorem runScope_next (n : Nat) (m : Machine T G)
    (h : inScope ((exec idlethread threadList m).pc m.current) = true) :
    runScope idlethread threadList (n + 1) m =
      runScope idlethread threadList n (exec idlethread threadList m) := by
  simp [runScope, h]

def searching (idlethread : T) (threadList : List T) (m : Machine T G) (t : T) (g : G) :
    Machine T G :=
  setPc (noteLeft (setSemaphore (setPriority m t ceilingPriority) g
    (fun s => ⟨none, s.ownerEnterCnt, 0⟩)) t g) t
    (.leave g (m.threads t).priority (.find (m.semaphores g).ownerPriority threadList idlethread))

theorem runScope_searching (n : Nat) {m : Machine T G} {g : G}
    (hpc : m.pc m.current = .leaveCeiling g) :
    runScope idlethread threadList (n + 5) m =
      runScope idlethread threadList n (searching idlethread threadList m m.current g) := by
  have hexec : exec idlethread threadList (exec idlethread threadList (exec idlethread threadList
      (exec idlethread threadList (exec idlethread threadList m)))) =
      searching idlethread threadList m m.current g := by
    simp [exec, execAt, execLeave, hpc, setPc, setPriority, setThread, setSemaphore, noteLeft,
      searching]
  rw [runScope_next, runScope_next, runScope_next, runScope_next, runScope_next, hexec]
  all_goals simp [exec, execAt, execLeave, hpc, setPc, setPriority, setThread, setSemaphore, noteLeft,
      inScope]

theorem scope_leave {m : Machine T G} {g : G} (hpc : m.pc m.current = .leaveCeiling g)
    (hidle : m.current ≠ idlethread) (hwait : (m.threads m.current).waitingFor ≠ some g) :
    execScope idlethread threadList m =
      release m m.current g (findNextWaitingFor m.threads idlethread threadList g) := by
  have hloop : waiterLoop (searching idlethread threadList m m.current g).threads g threadList
      idlethread = waiterLoop m.threads g threadList idlethread := by
    apply waiterLoop_congr
    · exact fun t => update_field Thread.waitingFor _ _ _ _ rfl
    · intro t ht
      have htc : t ≠ m.current := by
        rintro rfl
        exact hwait ht
      simp [searching, setPc, noteLeft, setSemaphore, setPriority, setThread, htc]
    · simp [searching, setPc, noteLeft, setSemaphore, setPriority, setThread, hidle.symm]
  have hfind : (searching idlethread threadList m m.current g).pc
      (searching idlethread threadList m m.current g).current =
      .leave g (m.threads m.current).priority
        (.find (m.semaphores g).ownerPriority threadList idlethread) := by
    simp [searching, setPc, noteLeft, setSemaphore, setPriority, setThread]
  rw [execScope, runScope_searching (threadList.length + 11) hpc,
    runScope_find 11 _ _ _ _ _ _ hfind, hloop]
  rw [findNextWaitingFor]
  by_cases hnone : waiterLoop m.threads g threadList idlethread = idlethread
  · simp [hnone, runScope, exec, execAt, execLeave, searching, setPc, noteLeft, setSemaphore,
      setPriority, setThread, inScope, release, wake]
  · have hne : waiterLoop m.threads g threadList idlethread ≠ m.current := by
      intro he
      exact hwait (he ▸ waiterLoop_waits m.threads g threadList idlethread hnone)
    simp [hnone, hne, hne.symm, runScope, exec, execAt, execLeave, searching, setPc, noteLeft, setSemaphore,
      setPriority, setThread, inScope, release, wake, resume, resumeThread, Function.update_comm hne]

theorem runScope_ownership (n : Nat) {m : Machine T G} (ho : Ownership idlethread m) :
    Ownership idlethread (runScope idlethread threadList n m) := by
  induction n generalizing m with
  | zero => exact ho
  | succ n ih =>
    rw [runScope]
    split
    · exact ih (exec_ownership ho)
    · exact exec_ownership ho

/-- The processor is given away at the end of a scope only. -/
theorem exec_current {m : Machine T G}
    (h : inScope ((exec idlethread threadList m).pc m.current) = true) :
    (exec idlethread threadList m).current = m.current := by
  revert h
  rw [exec]
  cases hpc : m.pc m.current with
  | enter g cp prev e =>
    intro h
    cases e with
    | suspendYield => simp [execAt, execEnter, setPc, inScope] at h
    | boostTest | boost =>
      simp only [execAt, execEnter]
      split
      · rfl
      · rfl
    | setCeiling | test | loop | suspendRead | suspendCeiling p | suspendSignaler p | suspendTime p
    | suspendRestore p | suspendClear | resetCount | takeOwner | takePriority | takeCount
    | restore => rfl
  | leave g prev l =>
    intro _
    cases l with
    | find p rest next =>
      cases rest with
      | nil => rfl
      | cons iter rest => rfl
    | setCeiling | clearOwner | readPriority | clearPriority p | handOff p w | resumeSignaler p w
    | resumeTime p w | restore p w => rfl
  | _ => simp [execAt, setPc, setPriority, setThread, setSemaphore, noteEntry, noteDepth, inScope]

theorem exec_countOk {m : Machine T G} (ho : Ownership idlethread m) (hc : Counting m)
    (hok : CountOk m m.current (m.pc m.current))
    (h : inScope ((exec idlethread threadList m).pc m.current) = true) :
    CountOk (exec idlethread threadList m) m.current ((exec idlethread threadList m).pc m.current) := by
  revert h
  rw [exec]
  cases hpc : m.pc m.current with
  | enter g cp prev e =>
    intro _
    have hf := ho.facts m.current g
    rw [hpc] at hf hok
    cases e with
    | setCeiling =>
      simpa [execAt, execEnter, setPc, setPriority, setThread, CountOk] using hok
    | test =>
      by_cases hoccupied : occupied m m.current g
      · simp [execAt, execEnter, setPc, CountOk, hoccupied]
      · simpa [execAt, execEnter, setPc, CountOk, hoccupied] using hok
    | boostTest | boost =>
      cases howner : (m.semaphores g).owner with
      | none => simp [execAt, execEnter, howner, setPc, CountOk]
      | some o =>
        by_cases hlow : (m.threads o).priority < cp
        · simp [execAt, execEnter, howner, hlow, setPc, setPriority, setThread, CountOk]
        · simp [execAt, execEnter, howner, hlow, setPc, setPriority, setThread, CountOk]
    | loop =>
      by_cases hoccupied : occupied m m.current g
      · simp [execAt, execEnter, setPc, CountOk, hoccupied]
      · simp [execAt, execEnter, setPc, CountOk, hoccupied]
    | resetCount => simp [execAt, execEnter, setPc, setSemaphore, CountOk]
    | takeOwner =>
      have hcnt : (m.semaphores g).ownerEnterCnt + 1 < 2 ^ 31 := by
        obtain hown | ⟨hnone, -⟩ := hf rfl
        · exact hok hown
        · rw [hc.free g hnone]
          norm_num
      simpa [execAt, execEnter, setPc, setSemaphore, CountOk] using hcnt
    | takePriority =>
      simpa [execAt, execEnter, setPc, setSemaphore, CountOk] using hok
    | suspendRead | suspendCeiling p | suspendSignaler p | suspendTime p | suspendRestore p
    | suspendYield | suspendClear | takeCount | restore =>
      simp [execAt, execEnter, setPc, setPriority, setThread, setSemaphore, CountOk]
  | leave g prev l =>
    intro _
    rw [execAt]
    obtain ⟨l', hl⟩ | ⟨p, w, hl⟩ := execLeave_pc idlethread threadList m m.current prev g l
    · rw [hl]
      trivial
    · rw [hl]
      trivial
  | enterCeiling g cp =>
    rw [hpc] at hok
    simpa [execAt, setPc, inScope, CountOk] using hok
  | leaveCheck g | leaveTest g | leaveYieldTest g w =>
    simp only [execAt]
    split
    · simp [setPc, inScope]
    · simp [setPc, inScope]
  | outside | fault => simp [execAt, hpc, inScope]
  | enterPriority g | enterYield g | enterReturn g | leaveCount g | leaveCeiling g
  | leavePriority g p w | leaveYield | leaveReturn =>
    simp [execAt, setPc, setPriority, setThread, setSemaphore, noteEntry, noteDepth, inScope, CountOk]

theorem runScope_counting (n : Nat) {m : Machine T G} (ho : Ownership idlethread m)
    (hc : Counting m) (hok : CountOk m m.current (m.pc m.current)) :
    Counting (runScope idlethread threadList n m) := by
  induction n generalizing m with
  | zero => exact hc
  | succ n ih =>
    rw [runScope]
    split
    · next h =>
      refine ih (exec_ownership ho) (exec_counting ho hc hok) ?_
      rw [exec_current h]
      exact exec_countOk ho hc hok h
    · exact exec_counting ho hc hok

def opensScope : Pc T G → Bool
  | .enterCeiling _ _ | .enter _ _ _ .suspendClear | .leaveCeiling _ => true
  | _ => false

theorem execScope_plain {m : Machine T G} (hin : inScope (m.pc m.current) = false)
    (hopen : opensScope (m.pc m.current) = false) :
    execScope idlethread threadList m = exec idlethread threadList m := by
  apply runScope_last
  rw [exec]
  cases hpc : m.pc m.current with
  | enterCeiling g cp | leaveCeiling g => simp [hpc, opensScope] at hopen
  | enter g cp prev e => cases e <;> simp [hpc, inScope, opensScope] at hin hopen
  | leave g prev l => simp [hpc, inScope] at hin
  | leaveCheck g | leaveTest g | leaveYieldTest g w =>
    simp only [execAt]
    split <;> simp [setPc, inScope]
  | _ => simp [execAt, setPc, setPriority, setThread, setSemaphore, noteEntry, noteDepth, inScope, hpc]

inductive ScopedExec (idlethread : T) (threadList : List T) (m : Machine T G) : Machine T G → Prop
  | read (g : G) (hpc : m.pc m.current = .enterPriority g) :
    ScopedExec idlethread threadList m
      (setPc (noteEntry m m.current g) m.current
        (.enterCeiling g (m.threads m.current).priority))
  | take (g : G) (cp : Int) (hpc : m.pc m.current = .enterCeiling g cp)
    (hfree : ¬ occupied m m.current g) :
    ScopedExec idlethread threadList m
      (takeOver m m.current g cp (m.threads m.current).priority (m.semaphores g).ownerEnterCnt)
  | block (g : G) (cp : Int) (o : T) (hpc : m.pc m.current = .enterCeiling g cp)
    (ho : (m.semaphores g).owner = some o) (hne : o ≠ m.current) :
    ScopedExec idlethread threadList m
      (yield idlethread threadList (block (setPriority (boosted m o cp) m.current ceilingPriority)
        m.current g cp (m.threads m.current).priority))
  | wakeTake (g : G) (cp prev : Int) (hpc : m.pc m.current = .enter g cp prev .suspendClear)
    (hfree : ¬ occupied m m.current g) :
    ScopedExec idlethread threadList m
      (takeOver (setThread m m.current (fun th => { th with waitingFor := none })) m.current g cp
        prev 0)
  | wakeBlock (g : G) (cp prev : Int) (o : T)
    (hpc : m.pc m.current = .enter g cp prev .suspendClear)
    (ho : (m.semaphores g).owner = some o) (hne : o ≠ m.current) :
    ScopedExec idlethread threadList m
      (yield idlethread threadList (SemaphoreScopes.block m m.current g cp prev))
  | entered (g : G) (hpc : m.pc m.current = .enterReturn g) :
    ScopedExec idlethread threadList m
      (setPc (noteDepth m m.current g (m.history.depth m.current g + 1)) m.current .outside)
  | count (g : G) (hpc : m.pc m.current = .leaveCount g) :
    ScopedExec idlethread threadList m
      (setPc (setSemaphore m g (fun s => { s with ownerEnterCnt := int32 (s.ownerEnterCnt - 1) }))
        m.current (.leaveTest g))
  | release (g : G) (hpc : m.pc m.current = .leaveCeiling g) :
    ScopedExec idlethread threadList m
      (release m m.current g (findNextWaitingFor m.threads idlethread threadList g))
  | restore (g : G) (p : Int) (w : Option T) (hpc : m.pc m.current = .leavePriority g p w) :
    ScopedExec idlethread threadList m
      (setPc (setPriority m m.current p) m.current (.leaveYieldTest g w))
  | yield (pc : Pc T G)
    (hpc : (∃ g, m.pc m.current = .enterYield g ∧ pc = .enterReturn g) ∨
      m.pc m.current = .leaveYield ∧ pc = .leaveReturn) :
    ScopedExec idlethread threadList m (yield idlethread threadList (setPc m m.current pc))
  | move (pc : Pc T G)
    (hpc : (∃ g, m.pc m.current = .leaveCheck g ∧
        (pc = .outside ∨ (m.semaphores g).owner = some m.current ∧ pc = .leaveCount g)) ∨
      (∃ g, m.pc m.current = .leaveTest g ∧ (pc = .outside ∨ pc = .leaveCeiling g)) ∨
      (∃ g w, m.pc m.current = .leaveYieldTest g w ∧ (pc = .outside ∨ pc = .leaveYield)) ∨
      m.pc m.current = .leaveReturn ∧ pc = .outside) :
    ScopedExec idlethread threadList m (setPc m m.current pc)

omit [DecidableEq T] [DecidableEq G] [Fintype G] in
theorem owner_of_occupied {m : Machine T G} {t : T} {g : G} (h : occupied m t g) :
    ∃ o, (m.semaphores g).owner = some o ∧ o ≠ t := by
  obtain ⟨o, ho⟩ := Option.ne_none_iff_exists'.mp h.1
  refine ⟨o, ho, ?_⟩
  rintro rfl
  exact h.2 ho

theorem scopedExec_execScope {m : Machine T G} (hin : inScope (m.pc m.current) = false)
    (hpc : m.pc m.current ≠ .outside) (hfault : m.pc m.current ≠ .fault)
    (hidle : m.current ≠ idlethread)
    (hwait : ∀ g, m.pc m.current = .leaveCeiling g → (m.threads m.current).waitingFor ≠ some g) :
    ScopedExec idlethread threadList m (execScope idlethread threadList m) := by
  have hplain : ∀ pc, m.pc m.current = pc → opensScope pc = false →
      execScope idlethread threadList m = execAt idlethread threadList m m.current pc := by
    rintro pc rfl hopen
    exact execScope_plain hin hopen
  cases hc : m.pc m.current with
  | outside => exact absurd hc hpc
  | fault => exact absurd hc hfault
  | leave g prev l => simp [hc, inScope] at hin
  | enterCeiling g cp =>
    by_cases hocc : occupied m m.current g
    · obtain ⟨o, ho, hne⟩ := owner_of_occupied hocc
      rw [scope_enter_blocked hc ho hne]
      exact .block g cp o hc ho hne
    · rw [scope_enter_free hc hocc]
      exact .take g cp hc hocc
  | enter g cp prev e =>
    obtain rfl : e = .suspendClear := by
      cases e <;> simp [hc, inScope] at hin
      rfl
    by_cases hocc : occupied m m.current g
    · obtain ⟨o, ho, hne⟩ := owner_of_occupied hocc
      rw [scope_wake_blocked hc hocc]
      exact .wakeBlock g cp prev o hc ho hne
    · rw [scope_wake_free hc hocc]
      exact .wakeTake g cp prev hc hocc
  | leaveCeiling g =>
    rw [scope_leave hc hidle (hwait g hc)]
    exact .release g hc
  | enterPriority g =>
    rw [hplain _ hc rfl]
    exact .read g hc
  | enterReturn g =>
    rw [hplain _ hc rfl]
    exact .entered g hc
  | leaveCount g =>
    rw [hplain _ hc rfl]
    exact .count g hc
  | leavePriority g p w =>
    rw [hplain _ hc rfl]
    exact .restore g p w hc
  | enterYield g =>
    rw [hplain _ hc rfl]
    exact .yield _ (.inl ⟨g, hc, rfl⟩)
  | leaveYield =>
    rw [hplain _ hc rfl]
    exact .yield _ (.inr ⟨hc, rfl⟩)
  | leaveCheck g =>
    rw [hplain _ hc rfl]
    refine .move _ (.inl ⟨g, hc, ?_⟩)
    split
    · exact .inl rfl
    · next h => exact .inr ⟨not_not.mp h, rfl⟩
  | leaveTest g =>
    rw [hplain _ hc rfl]
    refine .move _ (.inr (.inl ⟨g, hc, ?_⟩))
    split
    · exact .inl rfl
    · exact .inr rfl
  | leaveYieldTest g w =>
    rw [hplain _ hc rfl]
    refine .move _ (.inr (.inr (.inl ⟨g, w, hc, ?_⟩)))
    split
    · exact .inr rfl
    · exact .inl rfl
  | leaveReturn =>
    rw [hplain _ hc rfl]
    exact .move _ (.inr (.inr (.inr ⟨hc, rfl⟩)))

section

variable {m m' : Machine T G} (hs : ScopedExec idlethread threadList m m')

include hs

theorem ScopedExec.pc_of_ne (u : T) (hu : u ≠ m.current) : m'.pc u = m.pc u := by
  cases hs <;> simp [boosted_eq, setPc, setPriority, setThread, setSemaphore, noteEntry, noteDepth,
    noteLeft, takeOver, SemaphoreScopes.block, SemaphoreScopes.release, hu]

theorem ScopedExec.now_eq : m'.now = m.now := by
  cases hs <;> simp [boosted_eq, setPc, setPriority, setThread, setSemaphore, noteEntry, noteDepth,
    noteLeft, takeOver, SemaphoreScopes.block, SemaphoreScopes.release]

theorem ScopedExec.stable_self :
    inScope (m'.pc m.current) = false ∧ m'.pc m.current ≠ .fault := by
  cases hs with
  | yield pc hpc =>
    have hplace : inScope pc = false ∧ pc ≠ .fault := by
      obtain ⟨g, -, rfl⟩ | ⟨-, rfl⟩ := hpc
      · exact ⟨rfl, by simp⟩
      · exact ⟨rfl, by simp⟩
    simpa [setPc] using hplace
  | move pc hpc =>
    have hplace : inScope pc = false ∧ pc ≠ .fault := by
      obtain ⟨g, -, rfl | ⟨-, rfl⟩⟩ | ⟨g, -, rfl | rfl⟩ | ⟨g, w, -, rfl | rfl⟩ | ⟨-, rfl⟩ := hpc
      all_goals exact ⟨rfl, by simp⟩
    simpa [setPc] using hplace
  | read | take | block | wakeTake | wakeBlock | entered | count | release | restore =>
    simp [setPc, takeOver, SemaphoreScopes.block, SemaphoreScopes.release, inScope]

/-- The priority of another thread is only raised, and only if it owns a
semaphore. -/
theorem ScopedExec.priority_of_ne (u : T) (hu : u ≠ m.current) :
    (m.threads u).priority ≤ (m'.threads u).priority ∧
      ((m'.threads u).priority = (m.threads u).priority ∨ ∃ g, (m.semaphores g).owner = some u) := by
  cases hs with
  | block g cp o hpc ho hne =>
    by_cases hboost : u = o
    · subst hboost
      refine ⟨?_, .inr ⟨g, ho⟩⟩
      simp only [boosted_eq, SemaphoreScopes.block, setPc, setPriority, setThread, yield_priority,
        Function.update_of_ne hu, Function.update_self]
      split
      · next hlow => exact hlow.le
      · exact le_refl _
    · simp [boosted_eq, SemaphoreScopes.block, setPc, setPriority, setThread, hu, hboost]
  | release g hpc =>
    have hsame : ((SemaphoreScopes.release m m.current g
        (findNextWaitingFor m.threads idlethread threadList g)).threads u).priority =
        (m.threads u).priority := by
      simp only [SemaphoreScopes.release, setPc, wake_threads, noteLeft, setSemaphore]
      split
      · rfl
      · rfl
    exact ⟨hsame.ge, .inl hsame⟩
  | read | take | wakeTake | wakeBlock | entered | count | restore | yield | move =>
    simp [setPc, setPriority, setThread, setSemaphore, noteEntry, noteDepth, takeOver,
      SemaphoreScopes.block, hu]

theorem ScopedExec.ceiling_self {g : G} {cp prev : Int}
    (hc : ∀ prev, m.pc m.current = .enter g cp prev .suspendClear →
      ceilingPriority ≤ (m.threads m.current).priority)
    (hpc : m'.pc m.current = .enter g cp prev .suspendClear) :
    ceilingPriority ≤ (m'.threads m.current).priority := by
  cases hs with
  | block g' cp' o hpc' ho hne =>
    simp [boosted_eq, SemaphoreScopes.block, setPc, setPriority, setThread]
  | wakeBlock g' cp' prev' o hpc' ho hne =>
    simp only [SemaphoreScopes.block, setPc, yield_pc, Function.update_self, Pc.enter.injEq] at hpc
    obtain ⟨rfl, rfl, -, -⟩ := hpc
    simpa [SemaphoreScopes.block, setPc, setThread] using hc prev' hpc'
  | yield pc hplace =>
    simp only [setPc, yield_pc, Function.update_self] at hpc
    obtain ⟨g', -, rfl⟩ | ⟨-, rfl⟩ := hplace
    · cases hpc
    · cases hpc
  | move pc hplace =>
    simp only [setPc, Function.update_self] at hpc
    obtain ⟨g, -, rfl | ⟨-, rfl⟩⟩ | ⟨g, -, rfl | rfl⟩ | ⟨g, w, -, rfl | rfl⟩ | ⟨-, rfl⟩ := hplace
    all_goals cases hpc
  | read | take | wakeTake | entered | count | release | restore =>
    simp [setPc, takeOver, SemaphoreScopes.release] at hpc

/-- A thread is registered as waiting by its own suspension only, which it
makes while the semaphore has another owner. -/
theorem ScopedExec.registers {u : T} {g : G} (hw : (m'.threads u).waitingFor = some g) :
    ((m.threads u).waitingFor = some g ∧
      (m'.threads u).suspendedUntil = (m.threads u).suspendedUntil) ∨
    u = m.current ∧ (m'.threads u).suspendedUntil = endOfTime ∧
      (m'.semaphores g).owner ≠ none := by
  cases hs with
  | block g' cp o hpc ho hne =>
    simp only [boosted_eq, SemaphoreScopes.block, setPc, setPriority, setThread, yield_waitingFor,
      yield_suspendedUntil, yield_semaphores] at hw ⊢
    by_cases hu : u = m.current
    · subst hu
      simp only [Function.update_self, Option.some.injEq] at hw
      subst hw
      simp [ho]
    · left
      simp only [Function.update_of_ne hu] at hw ⊢
      by_cases hboost : u = o
      · subst hboost
        simpa using hw
      · simpa [hboost] using hw
  | wakeBlock g' cp prev o hpc ho hne =>
    simp only [SemaphoreScopes.block, setPc, setThread, yield_waitingFor, yield_suspendedUntil,
      yield_semaphores] at hw ⊢
    by_cases hu : u = m.current
    · subst hu
      simp only [Function.update_self, Option.some.injEq] at hw
      subst hw
      simp [ho]
    · left
      simpa [hu] using hw
  | wakeTake g' cp prev hpc hfree =>
    left
    by_cases hu : u = m.current
    · simp [takeOver, setPc, setPriority, setThread, setSemaphore, hu] at hw
    · simpa [takeOver, setPc, setPriority, setThread, setSemaphore, hu] using hw
  | release g' hpc =>
    left
    simp only [SemaphoreScopes.release, setPc, wake_threads, noteLeft, setSemaphore] at hw ⊢
    split at hw
    · cases hw
    · next hwaits =>
      rw [if_neg hwaits]
      exact ⟨hw, rfl⟩
  | take g' cp hpc hfree | restore g' p w hpc =>
    left
    by_cases hu : u = m.current
    · subst hu
      simpa [takeOver, setPc, setPriority, setThread, setSemaphore] using hw
    · simpa [takeOver, setPc, setPriority, setThread, setSemaphore, hu] using hw
  | read | entered | count | yield | move =>
    left
    simpa [setPc, setSemaphore, noteEntry, noteDepth] using hw

theorem ScopedExec.owner_cases (g : G) :
    (m'.semaphores g).owner = (m.semaphores g).owner ∨
    (m'.semaphores g).owner = some m.current ∧ ((∃ cp, m.pc m.current = .enterCeiling g cp) ∨
      ∃ cp prev, m.pc m.current = .enter g cp prev .suspendClear) ∨
    m.pc m.current = .leaveCeiling g ∧
      (m'.semaphores g).owner = findNextWaitingFor m.threads idlethread threadList g := by
  cases hs with
  | take g' cp hpc hfree =>
    by_cases hg : g = g'
    · subst hg
      exact .inr (.inl ⟨by simp [takeOver, setPc, setPriority, setThread, setSemaphore],
        .inl ⟨cp, hpc⟩⟩)
    · left
      simp [takeOver, setPc, setPriority, setThread, setSemaphore, hg]
  | wakeTake g' cp prev hpc hfree =>
    by_cases hg : g = g'
    · subst hg
      exact .inr (.inl ⟨by simp [takeOver, setPc, setPriority, setThread, setSemaphore],
        .inr ⟨cp, prev, hpc⟩⟩)
    · left
      simp [takeOver, setPc, setPriority, setThread, setSemaphore, hg]
  | release g' hpc =>
    by_cases hg : g = g'
    · subst hg
      exact .inr (.inr ⟨hpc, by simp [SemaphoreScopes.release, setPc, noteLeft, setSemaphore]⟩)
    · left
      simp [SemaphoreScopes.release, setPc, noteLeft, setSemaphore, hg]
  | count g' hpc =>
    left
    by_cases hg : g = g'
    · subst hg
      simp [setPc, setSemaphore]
    · simp [setPc, setSemaphore, hg]
  | read | block | wakeBlock | entered | restore | yield | move =>
    left
    simp [boosted_eq, setPc, setPriority, setThread, noteEntry, noteDepth, SemaphoreScopes.block]

end

end

end Rodos.SemaphoreScopes
