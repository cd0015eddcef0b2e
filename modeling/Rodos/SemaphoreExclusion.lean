import Rodos.SemaphoreOwnership
import Rodos.TransitionSystem

namespace Rodos.SemaphoreExclusion

open ThreadSelection SemaphoreMachine SemaphoreOwnership TransitionSystem

variable {T G : Type}

/-- Away from the semaphore: the outstanding calls of `enter` and the
ownership go together, and the counter counts them. -/
def Settled (own : Option T) (cnt : Int) (t : T) (d : Nat) : Prop :=
  (0 < d ↔ own = some t) ∧ (own = some t → cnt = d)

section

variable [DecidableEq G]

/-- How the outstanding calls of a thread, the owner and the counter are
related at each place. -/
def CountFacts (g : G) (own : Option T) (cnt : Int) (t : T) (d : Nat) : Pc T G → Prop
  | .enter g' _ _ e => if g' = g then match e with
      | .setCeiling | .test => Settled own cnt t d
      | .resetCount => d = 0
      | .takeOwner => (own = some t → cnt = d) ∧ (own = none → d = 0)
      | .takePriority | .takeCount => cnt = d
      | .restore => cnt = d + 1
      | _ => d = 0 ∧ (own = some t → cnt = 0)
    else Settled own cnt t d
  | .enterYield g' | .enterReturn g' => if g' = g then cnt = d + 1 else Settled own cnt t d
  | .leaveCheck g' =>
    if g' = g then (0 < d → own = some t) ∧ (own = some t → cnt = d + 1) else Settled own cnt t d
  | .leaveCount g' => if g' = g then cnt = d + 1 else Settled own cnt t d
  | .leaveTest g' => if g' = g then cnt = d else Settled own cnt t d
  | .leaveCeiling g' => if g' = g then cnt = 0 ∧ d = 0 else Settled own cnt t d
  | .leave g' _ l => if g' = g then match l with
      | .setCeiling | .clearOwner => cnt = 0 ∧ d = 0
      | .readPriority | .clearPriority _ | .find _ _ _ | .handOff _ _ => d = 0
      | _ => d = 0 ∧ own ≠ some t
    else Settled own cnt t d
  | .fault => (0 < d → own = some t) ∧ (own = some t → cnt = d)
  | _ => Settled own cnt t d

end

structure Counting [DecidableEq G] (m : Machine T G) : Prop where
  facts : ∀ t g, CountFacts g (m.semaphores g).owner (m.semaphores g).ownerEnterCnt t
    (m.history.depth t g) (m.pc t)
  free : ∀ g, (m.semaphores g).owner = none → (m.semaphores g).ownerEnterCnt = 0
  bound : ∀ g, (m.semaphores g).ownerEnterCnt < 2 ^ 31

/-- The counter of a semaphore that is entered once more by its owner has
not reached its largest value. -/
def CountOk (m : Machine T G) (t : T) : Pc T G → Prop
  | .enterCeiling g _ | .enter g _ _ .setCeiling | .enter g _ _ .test | .enter g _ _ .takeOwner
  | .enter g _ _ .takePriority | .enter g _ _ .takeCount =>
    (m.semaphores g).owner = some t → (m.semaphores g).ownerEnterCnt + 1 < 2 ^ 31
  | _ => True

theorem int32_of_lt {x : Int} (hl : 0 ≤ x) (hu : x < 2 ^ 31) : int32 x = x := by
  rw [int32]
  rw [Int.bmod_def]
  omega

theorem owner_of_depth [DecidableEq G] {g : G} {own : Option T} {cnt : Int} {t : T} {d : Nat}
    {r : Prop} {pc : Pc T G} (ho : OwnerFacts g own r t pc) (hc : CountFacts g own cnt t d pc)
    (hd : 0 < d) : own = some t := by
  have hpos : d ≠ 0 := Nat.ne_of_gt hd
  cases pc with
  | enter g' cp prev e =>
    by_cases hg : g' = g
    · simp only [CountFacts, if_pos hg] at hc
      cases e with
      | setCeiling | test => exact hc.1.mp hd
      | boostTest | boost | loop | suspendRead | suspendCeiling p | suspendSignaler p
      | suspendTime p | suspendRestore p | suspendYield | suspendClear => exact absurd hc.1 hpos
      | resetCount => exact absurd hc hpos
      | takeOwner =>
        obtain hown | ⟨hnone, -⟩ := ho hg
        · exact hown
        · exact absurd (hc.2 hnone) hpos
      | takePriority | takeCount | restore => exact ho hg
    · simp only [CountFacts, if_neg hg] at hc
      exact hc.1.mp hd
  | leave g' prev l =>
    by_cases hg : g' = g
    · simp only [CountFacts, if_pos hg] at hc
      cases l with
      | setCeiling | clearOwner => exact ho hg
      | readPriority | clearPriority p | find p rest next | handOff p w => exact absurd hc hpos
      | resumeSignaler p w | resumeTime p w | restore p w => exact absurd hc.1 hpos
    · simp only [CountFacts, if_neg hg] at hc
      exact hc.1.mp hd
  | enterYield g' | enterReturn g' | leaveCount g' | leaveTest g' | leaveCeiling g' =>
    by_cases hg : g' = g
    · exact ho hg
    · simp only [CountFacts, if_neg hg] at hc
      exact hc.1.mp hd
  | leaveCheck g' =>
    by_cases hg : g' = g
    · simp only [CountFacts, if_pos hg] at hc
      exact hc.1 hd
    · simp only [CountFacts, if_neg hg] at hc
      exact hc.1.mp hd
  | fault => exact hc.1 hd
  | outside | enterPriority g' | enterCeiling g' cp | leavePriority g' p w | leaveYieldTest g' w
  | leaveYield | leaveReturn => exact hc.1.mp hd

theorem Settled.frame {own own' : Option T} {cnt cnt' : Int} {u : T} {d : Nat}
    (h : Settled own cnt u d) (hold : own ≠ some u) (hnew : own' ≠ some u) :
    Settled own' cnt' u d :=
  ⟨iff_of_false (fun hd => hold (h.1.mp hd)) hnew, fun heq => absurd heq hnew⟩

/-- A thread that is not the owner stays so, unless the semaphore is handed over to it
while it waits. -/
theorem CountFacts.frame [DecidableEq G] {g : G} {own own' : Option T} {cnt cnt' : Int} {u : T}
    {d : Nat} {pc : Pc T G} (hc : CountFacts g own cnt u d pc) (ho : OwnerFacts g own False u pc)
    (h : own' = own ∧ cnt' = cnt ∨
      own ≠ some u ∧ (own' ≠ some u ∨ Waiting g pc ∧ cnt' = 0)) :
    CountFacts g own' cnt' u d pc := by
  obtain ⟨rfl, rfl⟩ | ⟨hold, h⟩ := h
  · exact hc
  by_cases hw : Waiting g pc
  · -- in the suspension only the counter of an owner is known
    have hcnt : own' = some u → cnt' = 0 := fun heq => (h.resolve_left (not_not.mpr heq)).2
    cases pc with
    | enter g' cp prev e =>
      cases e with
      | suspendTime p | suspendRestore p | suspendYield | suspendClear =>
        have hg : g' = g := hw
        simp only [CountFacts, if_pos hg] at hc ⊢
        exact ⟨hc.1, hcnt⟩
      | _ => exact hw.elim
    | _ => exact hw.elim
  have hnew : own' ≠ some u := h.resolve_right fun hwaits => hw hwaits.1
  cases pc with
  | enter g' cp prev e =>
    by_cases hg : g' = g
    · simp only [CountFacts, if_pos hg] at hc ⊢
      cases e with
      | setCeiling | test => exact hc.frame hold hnew
      | boostTest | boost | loop | suspendRead | suspendCeiling p | suspendSignaler p
      | suspendTime p | suspendRestore p | suspendYield | suspendClear =>
        exact ⟨hc.1, fun heq => absurd heq hnew⟩
      | resetCount => exact hc
      | takeOwner =>
        obtain hown | ⟨-, hruns⟩ := ho hg
        · exact absurd hown hold
        · exact hruns.elim
      | takePriority | takeCount | restore => exact absurd (ho hg) hold
    · simp only [CountFacts, if_neg hg] at hc ⊢
      exact hc.frame hold hnew
  | leave g' prev l =>
    by_cases hg : g' = g
    · simp only [CountFacts, if_pos hg] at hc ⊢
      cases l with
      | setCeiling | clearOwner => exact absurd (ho hg) hold
      | readPriority | clearPriority p | find p rest next | handOff p w => exact hc
      | resumeSignaler p w | resumeTime p w | restore p w => exact ⟨hc.1, hnew⟩
    · simp only [CountFacts, if_neg hg] at hc ⊢
      exact hc.frame hold hnew
  | enterYield g' | enterReturn g' | leaveCount g' | leaveTest g' | leaveCeiling g' =>
    by_cases hg : g' = g
    · exact absurd (ho hg) hold
    · simp only [CountFacts, if_neg hg] at hc ⊢
      exact hc.frame hold hnew
  | leaveCheck g' =>
    by_cases hg : g' = g
    · simp only [CountFacts, if_pos hg] at hc ⊢
      exact ⟨fun hd => absurd (hc.1 hd) hold, fun heq => absurd heq hnew⟩
    · simp only [CountFacts, if_neg hg] at hc ⊢
      exact hc.frame hold hnew
  | fault => exact ⟨fun hd => absurd (hc.1 hd) hold, fun heq => absurd heq hnew⟩
  | outside | enterPriority g' | enterCeiling g' cp | leavePriority g' p w | leaveYieldTest g' w
  | leaveYield | leaveReturn =>
    have hsettled : Settled own cnt u d := hc
    exact hsettled.frame hold hnew

section

variable [DecidableEq T] [DecidableEq G] [Fintype G] {idlethread : T} {threadList : List T}

/-- What the running thread writes to a semaphore leaves the relations of
every other thread as they are. -/
theorem exec_semaphore_of_ne {m : Machine T G} (h : Ownership idlethread m) (hc : Counting m)
    (g : G) (u : T) (hu : u ≠ m.current) :
    let s := m.semaphores g
    let s' := (exec idlethread threadList m).semaphores g
    s'.owner = s.owner ∧ s'.ownerEnterCnt = s.ownerEnterCnt ∨
      s.owner ≠ some u ∧ (s'.owner ≠ some u ∨ Waiting g (m.pc u) ∧ s'.ownerEnterCnt = 0) := by
  intro s s'
  obtain hs | ⟨hown, hs⟩ := (exec_writes m g).of_ne (h.facts m.current g) hu
  · exact .inl ⟨congrArg Semaphore.owner hs, congrArg Semaphore.ownerEnterCnt hs⟩
  · refine .inr ⟨hown, hs.imp_right ?_⟩
    rintro ⟨⟨prev, p, hpc⟩, hnone, hcnt⟩
    exact ⟨h.chosen _ _ _ _ _ hpc, hcnt.trans (hc.free g hnone)⟩

section Calls

variable {m : Machine T G} {g g' : G} {cp prev : Int}

omit [Fintype G] in
theorem execEnter_count (h : Ownership idlethread m) (hc : Counting m) {e : EnterPc}
    (hpc : m.pc m.current = .enter g cp prev e) (hok : CountOk m m.current (.enter g cp prev e)) :
    let m' := execEnter idlethread threadList m m.current g cp prev e
    CountFacts g (m'.semaphores g).owner (m'.semaphores g).ownerEnterCnt m.current
      (m.history.depth m.current g) (m'.pc m.current) := by
  have ho := h.facts m.current g
  have hf := hc.facts m.current g
  rw [hpc] at ho hf
  intro m'
  simp only [CountFacts, if_pos] at hf
  cases e with
  | setCeiling =>
    simpa [m', execEnter, setPc, setPriority, setThread, CountFacts] using hf
  | test =>
    obtain ⟨hiff, hcnt⟩ := hf
    by_cases hoccupied : occupied m m.current g
    · have hd : m.history.depth m.current g = 0 :=
        Nat.eq_zero_of_not_pos fun hd => hoccupied.2 (hiff.mp hd)
      simp [m', execEnter, setPc, CountFacts, hoccupied, hoccupied.2, hd]
    · have hd : (m.semaphores g).owner = none → m.history.depth m.current g = 0 := by
        intro hnone
        rw [hnone] at hiff
        simpa using hiff
      simpa [m', execEnter, setPc, CountFacts, hoccupied] using ⟨hcnt, hd⟩
  | boostTest =>
    cases howner : (m.semaphores g).owner with
    | none => simp [m', execEnter, howner, setPc, CountFacts, hf.1]
    | some o =>
      rw [howner] at hf
      by_cases hlow : (m.threads o).priority < cp
      · simpa [m', execEnter, howner, hlow, setPc, CountFacts] using hf
      · simpa [m', execEnter, howner, hlow, setPc, CountFacts] using hf
  | boost =>
    cases howner : (m.semaphores g).owner with
    | none => simp [m', execEnter, howner, setPc, CountFacts, hf.1]
    | some o =>
      rw [howner] at hf
      simpa [m', execEnter, howner, setPc, setPriority, setThread, CountFacts] using hf
  | loop =>
    by_cases hoccupied : occupied m m.current g
    · simpa [m', execEnter, setPc, CountFacts, hoccupied] using hf
    · simp [m', execEnter, setPc, CountFacts, hoccupied, hf.1]
  | suspendRead | suspendCeiling p | suspendSignaler p | suspendTime p | suspendRestore p
  | suspendYield | suspendClear =>
    simpa [m', execEnter, setPc, setPriority, setThread, CountFacts] using hf
  | resetCount => simp [m', execEnter, setPc, setSemaphore, CountFacts, hf]
  | takeOwner =>
    have hcnt : (m.semaphores g).ownerEnterCnt = m.history.depth m.current g := by
      obtain hown | ⟨hnone, -⟩ := ho rfl
      · exact hf.1 hown
      · rw [hc.free g hnone, hf.2 hnone]
        rfl
    simpa [m', execEnter, setPc, setSemaphore, CountFacts] using hcnt
  | takePriority => simpa [m', execEnter, setPc, setSemaphore, CountFacts] using hf
  | takeCount =>
    have hi := int32_of_lt (x := (m.semaphores g).ownerEnterCnt + 1) (by omega) (hok (ho rfl))
    rw [hf] at hi
    simp [m', execEnter, setPc, setSemaphore, CountFacts, hi, hf]
  | restore => simpa [m', execEnter, setPc, setPriority, setThread, CountFacts] using hf

omit [Fintype G] in
theorem execEnter_count_of_ne (hg : g' ≠ g) {d : Nat} (hsettled : Settled (m.semaphores g).owner
    (m.semaphores g).ownerEnterCnt m.current d) (e : EnterPc) :
    let m' := execEnter idlethread threadList m m.current g' cp prev e
    CountFacts g (m'.semaphores g).owner (m'.semaphores g).ownerEnterCnt m.current d
      (m'.pc m.current) := by
  intro m'
  have hsemaphore : m'.semaphores g = m.semaphores g :=
    execEnter_semaphores_of_ne _ _ _ _ _ (Ne.symm hg) _ _
  have hplace : (∃ e', m'.pc m.current = .enter g' cp prev e') ∨
      m'.pc m.current = .enterYield g' ∨ m'.pc m.current = .fault := execEnter_pc ..
  rw [hsemaphore]
  obtain ⟨e', he⟩ | he | he := hplace
  · rw [he]
    simpa only [CountFacts, if_neg hg] using hsettled
  · rw [he]
    simpa only [CountFacts, if_neg hg] using hsettled
  · rw [he]
    exact ⟨hsettled.1.mp, hsettled.2⟩

omit [Fintype G] in
theorem execLeave_count (h : Ownership idlethread m) (hc : Counting m) {l : LeavePc T}
    (hpc : m.pc m.current = .leave g prev l) :
    let m' := execLeave idlethread threadList m m.current g prev l
    CountFacts g (m'.semaphores g).owner (m'.semaphores g).ownerEnterCnt m.current
      (m.history.depth m.current g) (m'.pc m.current) := by
  have ho := h.facts m.current g
  have hf := hc.facts m.current g
  rw [hpc] at ho hf
  intro m'
  simp only [CountFacts, if_pos] at hf
  cases l with
  | setCeiling => simpa [m', execLeave, setPc, setPriority, setThread, CountFacts] using hf
  | clearOwner => simp [m', execLeave, setPc, setSemaphore, noteLeft, CountFacts, hf.2]
  | readPriority | clearPriority p =>
    simpa [m', execLeave, setPc, setSemaphore, CountFacts] using hf
  | find p rest next =>
    have hnone : (m.semaphores g).owner = none := (ho rfl).1
    cases rest with
    | nil =>
      by_cases hidle : next = idlethread
      · simp [m', execLeave, setPc, CountFacts, hidle, hf, hnone]
      · simp [m', execLeave, setPc, CountFacts, hidle, hf]
    | cons iter rest => simpa [m', execLeave, setPc, CountFacts] using hf
  | handOff p w =>
    have hw := (h.chosen _ _ _ _ _ hpc).ne hpc
    simp [m', execLeave, setPc, setSemaphore, CountFacts, hf, hw]
  | resumeSignaler p w | resumeTime p w =>
    simpa [m', execLeave, setPc, setThread, CountFacts] using hf
  | restore p w =>
    have hsettled : Settled (m.semaphores g).owner (m.semaphores g).ownerEnterCnt m.current
        (m.history.depth m.current g) :=
      ⟨iff_of_false (by simp [hf.1]) hf.2, fun heq => absurd heq hf.2⟩
    simpa [m', execLeave, setPc, setPriority, setThread, CountFacts] using hsettled

omit [Fintype G] in
theorem execLeave_count_of_ne (hg : g' ≠ g) {d : Nat} (hsettled : Settled (m.semaphores g).owner
    (m.semaphores g).ownerEnterCnt m.current d) (l : LeavePc T) :
    let m' := execLeave idlethread threadList m m.current g' prev l
    CountFacts g (m'.semaphores g).owner (m'.semaphores g).ownerEnterCnt m.current d
      (m'.pc m.current) := by
  intro m'
  have hsemaphore : m'.semaphores g = m.semaphores g :=
    execLeave_semaphores_of_ne _ _ _ _ _ (Ne.symm hg) _
  have hplace : (∃ l', m'.pc m.current = .leave g' prev l') ∨
      ∃ p w, m'.pc m.current = .leavePriority g' p w := execLeave_pc ..
  rw [hsemaphore]
  obtain ⟨l', hl⟩ | ⟨p, w, hl⟩ := hplace
  · rw [hl]
    simpa only [CountFacts, if_neg hg] using hsettled
  · rw [hl]
    exact hsettled

/-- A caller that is not the owner has no call outstanding. -/
theorem leaveCheck_count {d : Nat} (hf : CountFacts g (m.semaphores g).owner
    (m.semaphores g).ownerEnterCnt m.current d (.leaveCheck g')) :
    CountFacts g (m.semaphores g).owner (m.semaphores g).ownerEnterCnt m.current d
      ((execAt idlethread threadList m m.current (.leaveCheck g')).pc m.current) := by
  by_cases hg : g' = g
  · subst hg
    simp only [CountFacts, if_pos] at hf
    by_cases hown : (m.semaphores g').owner = some m.current
    · simpa [execAt, setPc, CountFacts, hown] using hf.2 hown
    · have hd : ¬0 < d := fun hd => hown (hf.1 hd)
      simpa [execAt, setPc, CountFacts, Settled, hown] using hd
  · simp only [CountFacts, if_neg hg] at hf
    by_cases hown : (m.semaphores g').owner = some m.current
    · simpa [execAt, setPc, CountFacts, hg, hown] using hf
    · simpa [execAt, setPc, CountFacts, hown] using hf

theorem leaveTest_count {d : Nat} {r : Prop}
    (ho : OwnerFacts g (m.semaphores g).owner r m.current (.leaveTest g'))
    (hf : CountFacts g (m.semaphores g).owner (m.semaphores g).ownerEnterCnt m.current d
      (.leaveTest g')) :
    CountFacts g (m.semaphores g).owner (m.semaphores g).ownerEnterCnt m.current d
      ((execAt idlethread threadList m m.current (.leaveTest g')).pc m.current) := by
  by_cases hg : g' = g
  · subst hg
    have hown : (m.semaphores g').owner = some m.current := ho rfl
    simp only [CountFacts, if_pos] at hf
    by_cases hcnt : 0 < (m.semaphores g').ownerEnterCnt
    · have hd : 0 < d := by omega
      simpa [execAt, setPc, CountFacts, Settled, hcnt, hown, hd] using hf
    · have hd : d = 0 := by omega
      simpa [execAt, setPc, CountFacts, hcnt, hd] using hf
  · simp only [CountFacts, if_neg hg] at hf
    by_cases hcnt : 0 < (m.semaphores g').ownerEnterCnt
    · simpa [execAt, setPc, CountFacts, hcnt] using hf
    · simpa [execAt, setPc, CountFacts, hg, hcnt] using hf

end Calls

theorem exec_count_self {m : Machine T G} (h : Ownership idlethread m) (hc : Counting m)
    (hok : CountOk m m.current (m.pc m.current)) (g : G) :
    CountFacts g ((exec idlethread threadList m).semaphores g).owner
      ((exec idlethread threadList m).semaphores g).ownerEnterCnt m.current
      ((exec idlethread threadList m).history.depth m.current g)
      ((exec idlethread threadList m).pc m.current) := by
  have ho := h.facts m.current g
  have hf := hc.facts m.current g
  have hb := hc.bound g
  rw [exec]
  cases hpc : m.pc m.current with
  | enter g' cp prev e =>
    rw [execAt, execEnter_history]
    by_cases hg : g' = g
    · subst hg
      rw [hpc] at hok
      exact execEnter_count h hc hpc hok
    · rw [hpc] at hf
      exact execEnter_count_of_ne hg (by simpa only [CountFacts, if_neg hg] using hf) e
  | leave g' prev l =>
    rw [execAt, (execLeave_history idlethread threadList m m.current prev g' l).1]
    by_cases hg : g' = g
    · subst hg
      exact execLeave_count h hc hpc
    · rw [hpc] at hf
      exact execLeave_count_of_ne hg (by simpa only [CountFacts, if_neg hg] using hf) l
  | enterReturn g' =>
    rw [hpc] at ho hf
    by_cases hg : g' = g
    · subst hg
      have hown : (m.semaphores g').owner = some m.current := ho rfl
      simp only [CountFacts, if_pos] at hf
      simp [execAt, setPc, noteDepth, CountFacts, Settled, hown, hf]
    · simpa [execAt, setPc, noteDepth, CountFacts, hg, Ne.symm hg] using hf
  | leaveCount g' =>
    rw [hpc] at hf
    by_cases hg : g' = g
    · subst hg
      simp only [CountFacts, if_pos] at hf
      have hi := int32_of_lt (x := (m.semaphores g').ownerEnterCnt - 1) (by omega) (by omega)
      rw [hf] at hi
      simpa [execAt, setPc, setSemaphore, CountFacts, hf] using hi
    · simpa [execAt, setPc, setSemaphore, CountFacts, hg, Ne.symm hg] using hf
  | enterPriority g' | enterCeiling g' cp =>
    rw [hpc] at hf
    have hsettled : Settled (m.semaphores g).owner (m.semaphores g).ownerEnterCnt m.current
        (m.history.depth m.current g) := hf
    by_cases hg : g' = g
    · simpa [execAt, setPc, noteEntry, CountFacts, hg] using hsettled
    · simpa [execAt, setPc, noteEntry, CountFacts, hg] using hsettled
  | leaveCheck g' =>
    rw [hpc] at hf
    exact leaveCheck_count hf
  | leaveTest g' =>
    rw [hpc] at ho hf
    exact leaveTest_count ho hf
  | leaveCeiling g' =>
    rw [hpc] at hf
    by_cases hg : g' = g
    · simpa [execAt, setPc, CountFacts, hg] using hf
    · simpa [execAt, setPc, CountFacts, hg] using hf
  | leaveYieldTest g' w =>
    rw [hpc] at hf
    by_cases hyields : w ≠ none ∧ (m.semaphores g').ownerPriority = 0
    · simpa only [execAt, setPc, Function.update_self, if_pos hyields, CountFacts] using hf
    · simpa only [execAt, setPc, Function.update_self, if_neg hyields, CountFacts] using hf
  | outside | fault =>
    rw [hpc] at hf
    simpa only [execAt, hpc] using hf
  | enterYield g' | leavePriority g' p w | leaveYield | leaveReturn =>
    rw [hpc] at hf
    simpa [execAt, setPc, setPriority, setThread, CountFacts] using hf

omit [DecidableEq T] [Fintype G] in
theorem Writes.counter {g : G} {s s' : Semaphore T} {r : Prop} {t : T} {d : Nat} {pc : Pc T G}
    (h : Writes g s t pc s') (ho : OwnerFacts g s.owner r t pc)
    (hf : CountFacts g s.owner s.ownerEnterCnt t d pc)
    (hfree : s.owner = none → s.ownerEnterCnt = 0) (hb : s.ownerEnterCnt < 2 ^ 31)
    (hok : ∀ cp prev, pc = .enter g cp prev .takeCount → s.ownerEnterCnt + 1 < 2 ^ 31) :
    (s'.owner = none → s'.ownerEnterCnt = 0) ∧ s'.ownerEnterCnt < 2 ^ 31 := by
  cases h with
  | nothing | takePriority cp prev | clearPriority prev p => exact ⟨hfree, hb⟩
  | resetCount cp prev => exact ⟨fun _ => rfl, by norm_num⟩
  | takeOwner cp prev | handOff prev p w => exact ⟨fun hn => absurd hn (by simp), hb⟩
  | takeCount cp prev =>
    simp only [CountFacts, if_pos] at hf
    have hlt := hok cp prev rfl
    have hi := int32_of_lt (x := s.ownerEnterCnt + 1) (by omega) hlt
    exact ⟨fun hn => absurd hn (by simp [ho rfl]), hi.trans_lt hlt⟩
  | leaveCount =>
    simp only [CountFacts, if_pos] at hf
    have hi := int32_of_lt (x := s.ownerEnterCnt - 1) (by omega) (by omega)
    exact ⟨fun hn => absurd hn (by simp [ho rfl]), hi.trans_lt (by omega)⟩
  | clearOwner prev =>
    simp only [CountFacts, if_pos] at hf
    exact ⟨fun _ => hf.1, hb⟩

theorem exec_counter {m : Machine T G} (h : Ownership idlethread m) (hc : Counting m)
    (hok : CountOk m m.current (m.pc m.current)) (g : G) :
    let s' := (exec idlethread threadList m).semaphores g
    (s'.owner = none → s'.ownerEnterCnt = 0) ∧ s'.ownerEnterCnt < 2 ^ 31 := by
  have ho := h.facts m.current g
  refine Writes.counter (exec_writes m g) ho (hc.facts m.current g) (hc.free g) (hc.bound g) ?_
  intro cp prev hpc
  rw [hpc] at ho hok
  exact hok (ho rfl)

theorem exec_counting {m : Machine T G} (h : Ownership idlethread m) (hc : Counting m)
    (hok : CountOk m m.current (m.pc m.current)) : Counting (exec idlethread threadList m) where
  facts := by
    intro u g
    by_cases hu : u = m.current
    · subst hu
      exact exec_count_self h hc hok g
    · rw [exec_pc_of_ne m u hu, (exec_history_of_ne m u hu).1]
      refine (hc.facts u g).frame ?_ (exec_semaphore_of_ne h hc g u hu)
      simpa [Ne.symm hu] using h.facts u g
  free := fun g => (exec_counter h hc hok g).1
  bound := fun g => (exec_counter h hc hok g).2

omit [DecidableEq T] [Fintype G] in
theorem Counting.of_eq {m m' : Machine T G} (h : Counting m) (hs : m'.semaphores = m.semaphores)
    (hp : m'.pc = m.pc) (hd : m'.history = m.history) : Counting m' := by
  constructor
  · rw [hs, hp, hd]
    exact h.facts
  · rw [hs]
    exact h.free
  · rw [hs]
    exact h.bound

omit [Fintype G] in
theorem call_counting {m : Machine T G} (hc : Counting m) (c : Call G)
    (ho : m.pc m.current = .outside) : Counting (call idlethread threadList m c) := by
  have hset : ∀ t g, m.pc t = .outside → Settled (m.semaphores g).owner
      (m.semaphores g).ownerEnterCnt t (m.history.depth t g) := by
    intro t g ht
    have hf := hc.facts t g
    rwa [ht] at hf
  cases c with
  | enter g =>
    simp only [call]
    split
    · refine ⟨fun u g' => ?_, hc.free, hc.bound⟩
      by_cases hu : u = m.current
      · subst hu
        simpa [setPc, CountFacts] using hset m.current g' ho
      · simpa [setPc, hu] using hc.facts u g'
    · exact hc
  | leave g =>
    simp only [call]
    split
    · refine ⟨fun u g' => ?_, hc.free, hc.bound⟩
      by_cases hu : u = m.current
      · subst hu
        have hs := hset m.current g' ho
        by_cases hg : g = g'
        · subst hg
          simp only [setPc, noteDepth, Function.update_self, CountFacts, if_pos]
          obtain ⟨hs1, hs2⟩ := hs
          refine ⟨fun hd => hs1.mp (by omega), fun he => ?_⟩
          have h1 := hs1.mpr he
          have h2 := hs2 he
          omega
        · simpa [setPc, noteDepth, CountFacts, hg, Ne.symm hg] using hs
      · simpa [setPc, noteDepth, hu] using hc.facts u g'
    · exact hc
  | sleep time => refine hc.of_eq ?_ ?_ ?_ <;> simp [call, setThread]

omit [DecidableEq T] [Fintype G] in
theorem start_counting {m : Machine T G} (h : Start idlethread m) : Counting m := by
  obtain ⟨_, _, _, _, hpc, _, hsem, hd, _⟩ := h
  constructor
  · intro t g
    rw [hpc, (hsem g).1, (hsem g).2, hd]
    simp [CountFacts, Settled]
  · exact fun g _ => (hsem g).2
  · intro g
    rw [(hsem g).2]
    decide

end

/-- An interrupt may resume any thread and a tick may call the scheduler
between any two statements. -/
inductive Event (T G : Type)
  | exec
  | call (c : Call G)
  | tick
  | resume (t : T)
  | elapse (now : Int)
  deriving DecidableEq, Repr

section

variable [DecidableEq T] [DecidableEq G] [Fintype G] (idlethread : T) (threadList : List T)

def step (e : Event T G) (m : Machine T G) : Option (Machine T G) :=
  match e with
  | .exec =>
    if m.pc m.current = .outside ∨ m.pc m.current = .fault then none
    else some (exec idlethread threadList m)
  | .call c =>
    if m.current ≠ idlethread ∧ m.pc m.current = .outside then
      some (call idlethread threadList m c)
    else none
  | .tick => some (switchTo m (nextToRun idlethread threadList m))
  | .resume t => some (resume m t)
  | .elapse now => if m.now ≤ now ∧ now ≤ endOfTime then some { m with now := now } else none

/-- No tick takes the processor away between a test that found the semaphore
free, or the release, and the store that names the next owner. -/
def Undivided (e : Event T G) (m : Machine T G) : Prop :=
  match e with
  | .tick => InWindow m (m.pc m.current) → nextToRun idlethread threadList m = m.current
  | _ => True

end

/-- No owner enters once more when the counter has its largest value. -/
def NoOverflow (e : Event T G) (m : Machine T G) : Prop :=
  match e with
  | .exec => CountOk m m.current (m.pc m.current)
  | _ => True

/-- Between a returned `enter` and the matching last `leave`. -/
def Inside (m : Machine T G) (g : G) (t : T) : Prop := 0 < m.history.depth t g

def MutualExclusion (m : Machine T G) : Prop :=
  ∀ g t u, Inside m g t → Inside m g u → t = u

section

variable [DecidableEq T] [DecidableEq G] [Fintype G] {idlethread : T} {threadList : List T}

theorem step_ownership {e : Event T G} {m m' : Machine T G} (ho : Ownership idlethread m)
    (hok : Undivided idlethread threadList e m) (hs : step idlethread threadList e m = some m') :
    Ownership idlethread m' := by
  cases e with
  | exec =>
    simp only [step, Option.ite_none_left_eq_some, Option.some.injEq] at hs
    obtain ⟨_, rfl⟩ := hs
    exact exec_ownership ho
  | call c =>
    simp only [step, Option.ite_none_right_eq_some, Option.some.injEq] at hs
    obtain ⟨⟨_, hpc⟩, rfl⟩ := hs
    exact call_ownership ho c hpc
  | tick =>
    cases hs
    exact switchTo_ownership ho _ hok
  | resume t =>
    cases hs
    exact resume_ownership ho t
  | elapse now =>
    simp only [step, Option.ite_none_right_eq_some, Option.some.injEq] at hs
    obtain ⟨_, rfl⟩ := hs
    exact ho.of_threads rfl rfl rfl (fun _ _ hg => hg)

theorem step_counting {e : Event T G} {m m' : Machine T G} (ho : Ownership idlethread m)
    (hc : Counting m) (hok : NoOverflow e m) (hs : step idlethread threadList e m = some m') :
    Counting m' := by
  cases e with
  | exec =>
    simp only [step, Option.ite_none_left_eq_some, Option.some.injEq] at hs
    obtain ⟨_, rfl⟩ := hs
    exact exec_counting ho hc hok
  | call c =>
    simp only [step, Option.ite_none_right_eq_some, Option.some.injEq] at hs
    obtain ⟨⟨_, hpc⟩, rfl⟩ := hs
    exact call_counting hc c hpc
  | tick | resume t =>
    cases hs
    exact hc.of_eq rfl rfl rfl
  | elapse now =>
    simp only [step, Option.ite_none_right_eq_some, Option.some.injEq] at hs
    obtain ⟨_, rfl⟩ := hs
    exact hc.of_eq rfl rfl rfl

theorem reachable_ownership {ok : Event T G → Machine T G → Prop} {m : Machine T G}
    (hok : ∀ e m, ok e m → Undivided idlethread threadList e m)
    (h : ReachableUnder (Start idlethread) (step idlethread threadList) ok m) :
    Ownership idlethread m :=
  h.invariant (Ownership idlethread) (fun _ hs => start_ownership hs)
    (fun _ _ _ hi ho hs => step_ownership hi (hok _ _ ho) hs)

/-- In a run that is never divided and in which no counter overflows at most
one thread is inside a semaphore, whatever the other switches and wake-ups are. -/
theorem mutualExclusion_of_undivided {m : Machine T G}
    (h : ReachableUnder (Start idlethread) (step idlethread threadList)
      (fun e m => Undivided idlethread threadList e m ∧ NoOverflow e m) m) : MutualExclusion m := by
  have ho := reachable_ownership (fun _ _ hok => hok.1) h
  have hc := h.invariant_with Counting (fun _ hs => start_counting hs)
    (fun _ _ _ hr hi hok hs =>
      step_counting (reachable_ownership (fun _ _ hok => hok.1) hr) hi hok.2 hs)
  intro g t u ht hu
  have hto := owner_of_depth (ho.facts t g) (hc.facts t g) ht
  have huo := owner_of_depth (ho.facts u g) (hc.facts u g) hu
  exact Option.some.inj (hto.symm.trans huo)

end

instance (m : Machine T G) (pc : Pc T G) : Decidable (InWindow m pc) := by
  unfold InWindow
  split <;> infer_instance

instance [DecidableEq T] (m : Machine T G) (t : T) (pc : Pc T G) : Decidable (CountOk m t pc) := by
  unfold CountOk
  split <;> infer_instance

instance [DecidableEq T] (idlethread : T) (threadList : List T) (e : Event T G)
    (m : Machine T G) : Decidable (Undivided idlethread threadList e m) := by
  unfold Undivided
  split <;> infer_instance

instance [DecidableEq T] (e : Event T G) (m : Machine T G) : Decidable (NoOverflow e m) := by
  unfold NoOverflow
  split <;> infer_instance

instance (m : Machine T G) (g : G) (t : T) : Decidable (Inside m g t) :=
  inferInstanceAs (Decidable (0 < m.history.depth t g))

def threeWorkers : Machine (Fin 4) Unit where
  threads := ![⟨0, 0, 0, none⟩, ⟨10, 0, 1, none⟩, ⟨10, 0, 0, none⟩, ⟨10, 0, 0, none⟩]
  semaphores := fun _ => ⟨none, 0, 0⟩
  pc := fun _ => .outside
  current := 1
  schedulerRunning := true
  scheduleCounter := 1
  now := 1
  history := ⟨fun _ _ => 0, fun _ => 0, fun _ _ => 0, fun _ => none⟩

theorem start_threeWorkers : Start 0 threeWorkers :=
  ⟨rfl, by decide, by decide, rfl, fun _ => rfl, by decide, fun _ => ⟨rfl, rfl⟩, fun _ _ => rfl,
    fun _ => rfl⟩

def sleepers : Machine (Fin 4) Unit where
  threads := ![⟨0, 0, 0, none⟩, ⟨10, 0, 1, none⟩, ⟨20, 100, 0, none⟩, ⟨30, 100, 0, none⟩]
  semaphores := fun _ => ⟨none, 0, 0⟩
  pc := fun _ => .outside
  current := 1
  schedulerRunning := true
  scheduleCounter := 1
  now := 1
  history := ⟨fun _ _ => 0, fun _ => 0, fun _ _ => 0, fun _ => none⟩

theorem start_sleepers : Start 0 sleepers :=
  ⟨rfl, by decide, by decide, rfl, fun _ => rfl, by decide, fun _ => ⟨rfl, rfl⟩, fun _ _ => rfl,
    fun _ => rfl⟩

def secondWorker : Fin 4 := 2

def thirdWorker : Fin 4 := 3

def statements (n : Nat) : List (Event (Fin 4) Unit) := List.replicate n .exec

/-- Thread 1 enters, threads 2 and 3 block, and thread 1 releases the
semaphore up to the point where it has no owner. -/
def upToRelease : List (Event (Fin 4) Unit) :=
  .call (.enter ()) :: statements 9 ++ .call (.enter ()) :: statements 12 ++
    .call (.enter ()) :: statements 12 ++ statements 1 ++ .call (.leave ()) :: statements 6

theorem mutualExclusion_threeWorkers :
    ∃ m : Machine (Fin 4) Unit, Inside m () 2 ∧ MutualExclusion m := by
  obtain ⟨m, hr, hi⟩ := exists_reachable (Start 0) (step 0 [1, 2, 3, 0])
    (fun e m => Undivided 0 [1, 2, 3, 0] e m ∧ NoOverflow e m) threeWorkers start_threeWorkers
    (upToRelease ++ statements 23 ++ [.tick] ++ statements 1)
    (fun m => Inside m () 2) (by decide +kernel)
  exact ⟨m, hi, mutualExclusion_of_undivided hr⟩

/-- The release is cut by a tick after an interrupt has resumed thread 2,
which finds the semaphore free and enters. Thread 1 then goes on with its
hand-off and lets thread 3 in as well. -/
theorem not_mutualExclusion_threeWorkers :
    ∃ m : Machine (Fin 4) Unit,
      Reachable (fun m => Start 0 m ∧ ∀ t, (m.threads t).priority < ceilingPriority)
        (step 0 [1, 2, 3, 0]) m ∧ ¬ MutualExclusion m := by
  obtain ⟨m, hr, h2, h3⟩ := exists_reachable
    (fun m => Start 0 m ∧ ∀ t, (m.threads t).priority < ceilingPriority) (step 0 [1, 2, 3, 0])
    (fun _ _ => True) threeWorkers ⟨start_threeWorkers, by decide⟩
    (upToRelease ++ [.resume 2, .tick] ++ statements 31 ++ [.tick] ++ statements 1 ++ [.tick] ++
      statements 1) (fun m => Inside m () 2 ∧ Inside m () 3) (by decide +kernel)
  exact ⟨m, hr, fun h => absurd (h () 2 3 h2 h3) (by decide)⟩

end Rodos.SemaphoreExclusion
