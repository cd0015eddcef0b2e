import Rodos.SemaphoreExclusion

namespace Rodos.PriorityRestoration

open ThreadSelection SemaphoreMachine SemaphoreOwnership SemaphoreExclusion TransitionSystem

variable {T G : Type}

section

variable [DecidableEq G]

/-- How the priority that a thread had at its latest call of `enter` on a
semaphore travels through the owner's record and the locals of the two
functions, until `leave` restores it. -/
def RecordFacts (g : G) (own : Option T) (ownerPriority : Int) (t : T) (entered : Int)
    (lastLeft : Option G) : Pc T G → Prop
  | .enterCeiling g' cp =>
    if g' = g then cp = entered else own = some t → ownerPriority = entered
  | .enter g' cp _ e => if g' = g then match e with
      | .takeCount | .restore => ownerPriority = entered
      | _ => cp = entered
    else own = some t → ownerPriority = entered
  | .leave g' _ l => if g' = g then match l with
      | .setCeiling | .clearOwner => ownerPriority = entered
      | .readPriority => ownerPriority = entered ∧ lastLeft = some g
      | .clearPriority p | .find p _ _ | .handOff p _ => p = entered ∧ lastLeft = some g
      | .resumeSignaler p _ | .resumeTime p _ | .restore p _ =>
        p = entered ∧ lastLeft = some g ∧ own ≠ some t
    else own = some t → ownerPriority = entered
  | .leavePriority g' p _ => (g' = g → p = entered ∧ lastLeft = some g) ∧
      (own = some t → ownerPriority = entered)
  | _ => own = some t → ownerPriority = entered

end

def Resting : Pc T G → Prop
  | .outside | .enterPriority _ | .leaveCheck _ | .leaveYieldTest _ _ | .leaveYield | .leaveReturn =>
    True
  | _ => False

structure Recorded [DecidableEq G] (m : Machine T G) : Prop where
  facts : ∀ t g, RecordFacts g (m.semaphores g).owner (m.semaphores g).ownerPriority t
    (m.history.entered t g) (m.history.lastLeft t) (m.pc t)
  restored : ∀ t, Resting (m.pc t) → (∀ g, (m.semaphores g).owner ≠ some t) →
    ∀ g, m.history.lastLeft t = some g → (m.threads t).priority = m.history.entered t g

theorem RecordFacts.frame [DecidableEq G] {g : G} {own own' : Option T} {p p' : Int} {u : T}
    {entered : Int} {lastLeft : Option G} {pc : Pc T G}
    (hr : RecordFacts g own p u entered lastLeft pc) (ho : OwnerFacts g own False u pc)
    (h : own' = own ∧ p' = p ∨ own ≠ some u ∧ (own' ≠ some u ∨ Waiting g pc)) :
    RecordFacts g own' p' u entered lastLeft pc := by
  obtain ⟨rfl, rfl⟩ | ⟨hold, h⟩ := h
  · exact hr
  by_cases hw : Waiting g pc
  · -- in the suspension the priority is still in the local variable
    cases pc with
    | enter g' cp prev e =>
      cases e with
      | suspendTime p | suspendRestore p | suspendYield | suspendClear =>
        have hg : g' = g := hw
        simpa only [RecordFacts, if_pos hg] using hr
      | _ => exact hw.elim
    | _ => exact hw.elim
  have hnew : own' = some u → p' = entered := fun heq => absurd heq (h.resolve_right hw)
  cases pc with
  | enterCeiling g' cp =>
    by_cases hg : g' = g
    · simpa only [RecordFacts, if_pos hg] using hr
    · simpa only [RecordFacts, if_neg hg] using hnew
  | enter g' cp prev e =>
    by_cases hg : g' = g
    · simp only [RecordFacts, if_pos hg] at hr ⊢
      cases e with
      | takeCount | restore => exact absurd (ho hg) hold
      | setCeiling | test | boostTest | boost | loop | suspendRead | suspendCeiling p
      | suspendSignaler p | suspendTime p | suspendRestore p | suspendYield | suspendClear
      | resetCount | takeOwner | takePriority => exact hr
    · simpa only [RecordFacts, if_neg hg] using hnew
  | leave g' prev l =>
    by_cases hg : g' = g
    · simp only [RecordFacts, if_pos hg] at hr ⊢
      cases l with
      | setCeiling | clearOwner => exact absurd (ho hg) hold
      | readPriority => exact (ho hg).2.elim
      | clearPriority p | find p rest next | handOff p w => exact hr
      | resumeSignaler p w | resumeTime p w | restore p w =>
        exact ⟨hr.1, hr.2.1, h.resolve_right hw⟩
    · simpa only [RecordFacts, if_neg hg] using hnew
  | leavePriority g' p w => exact ⟨hr.1, hnew⟩
  | outside | enterPriority g' | enterYield g' | enterReturn g' | leaveCheck g' | leaveCount g'
  | leaveTest g' | leaveCeiling g' | leaveYieldTest g' w | leaveYield | leaveReturn | fault =>
    exact hnew

section

variable [DecidableEq T] [DecidableEq G] [Fintype G] {idlethread : T} {threadList : List T}
  {m : Machine T G}

theorem exec_record_of_ne (h : Ownership idlethread m) (g : G) (u : T) (hu : u ≠ m.current) :
    let s := m.semaphores g
    let s' := (exec idlethread threadList m).semaphores g
    s'.owner = s.owner ∧ s'.ownerPriority = s.ownerPriority ∨
      s.owner ≠ some u ∧ (s'.owner ≠ some u ∨ Waiting g (m.pc u)) := by
  intro s s'
  obtain hs | ⟨hown, hs⟩ := (exec_writes m g).of_ne (h.facts m.current g) hu
  · exact .inl ⟨congrArg Semaphore.owner hs, congrArg Semaphore.ownerPriority hs⟩
  · refine .inr ⟨hown, hs.imp_right ?_⟩
    rintro ⟨⟨prev, p, hpc⟩, -⟩
    exact h.chosen _ _ _ _ _ hpc

section Calls

variable {g g' : G} {entered prev : Int} {lastLeft : Option G}

omit [Fintype G] in
/-- Up to `takePriority` the priority at the call is in the local variable, then in the
owner's record. -/
theorem execEnter_record {cp : Int} {e : EnterPc}
    (hf : RecordFacts g (m.semaphores g).owner (m.semaphores g).ownerPriority m.current entered
      lastLeft (.enter g cp prev e)) :
    let m' := execEnter idlethread threadList m m.current g cp prev e
    RecordFacts g (m'.semaphores g).owner (m'.semaphores g).ownerPriority m.current entered lastLeft
      (m'.pc m.current) := by
  cases e with
  | setCeiling | suspendRead | suspendCeiling p | suspendSignaler p | suspendTime p
  | suspendRestore p | suspendYield | suspendClear | resetCount | takeOwner | takePriority =>
    have hcp : cp = entered := by simpa only [RecordFacts, if_pos] using hf
    simp [execEnter, setPc, setPriority, setThread, setSemaphore, RecordFacts, hcp]
  | test | loop =>
    have hcp : cp = entered := by simpa only [RecordFacts, if_pos] using hf
    by_cases hoccupied : occupied m m.current g
    · simp [execEnter, setPc, RecordFacts, hoccupied, hcp]
    · simp [execEnter, setPc, RecordFacts, hoccupied, hcp]
  | boostTest =>
    have hcp : cp = entered := by simpa only [RecordFacts, if_pos] using hf
    cases howner : (m.semaphores g).owner with
    | none => simp [execEnter, howner, setPc, RecordFacts]
    | some o =>
      simp only [execEnter, howner, setPc, Function.update_self]
      split
      · simpa only [RecordFacts, if_pos] using hcp
      · simpa only [RecordFacts, if_pos] using hcp
  | boost =>
    have hcp : cp = entered := by simpa only [RecordFacts, if_pos] using hf
    cases howner : (m.semaphores g).owner with
    | none => simp [execEnter, howner, setPc, RecordFacts]
    | some o => simp [execEnter, howner, setPc, setPriority, setThread, RecordFacts, hcp]
  | takeCount | restore =>
    have hrecord : (m.semaphores g).ownerPriority = entered := by
      simpa only [RecordFacts, if_pos] using hf
    simp [execEnter, setPc, setPriority, setThread, setSemaphore, RecordFacts, hrecord]

omit [Fintype G] in
/-- `leave` reads the record before it is cleared, and keeps it until it is restored. -/
theorem execLeave_record (h : Ownership idlethread m) {l : LeavePc T}
    (hpc : m.pc m.current = .leave g prev l)
    (hf : RecordFacts g (m.semaphores g).owner (m.semaphores g).ownerPriority m.current entered
      (m.history.lastLeft m.current) (.leave g prev l)) :
    let m' := execLeave idlethread threadList m m.current g prev l
    RecordFacts g (m'.semaphores g).owner (m'.semaphores g).ownerPriority m.current entered
      (m'.history.lastLeft m.current) (m'.pc m.current) := by
  have ho := h.facts m.current g
  rw [hpc] at ho
  cases l with
  | setCeiling | clearOwner =>
    have hrecord : (m.semaphores g).ownerPriority = entered := by
      simpa only [RecordFacts, if_pos] using hf
    simp [execLeave, setPc, setPriority, setThread, setSemaphore, noteLeft, RecordFacts, hrecord]
  | readPriority =>
    obtain ⟨hrecord, hlast⟩ : (m.semaphores g).ownerPriority = entered ∧
        m.history.lastLeft m.current = some g := by simpa only [RecordFacts, if_pos] using hf
    simp [execLeave, setPc, RecordFacts, hrecord, hlast]
  | clearPriority p =>
    obtain ⟨hp, hlast⟩ : p = entered ∧ m.history.lastLeft m.current = some g := by
      simpa only [RecordFacts, if_pos] using hf
    simp [execLeave, setPc, setSemaphore, RecordFacts, hp, hlast]
  | find p rest next =>
    obtain ⟨hp, hlast⟩ : p = entered ∧ m.history.lastLeft m.current = some g := by
      simpa only [RecordFacts, if_pos] using hf
    obtain ⟨hnone, -⟩ := ho rfl
    cases rest with
    | nil =>
      by_cases hidle : next = idlethread
      · simp [execLeave, setPc, RecordFacts, hidle, hp, hlast, hnone]
      · simp [execLeave, setPc, RecordFacts, hidle, hp, hlast]
    | cons iter rest => simp [execLeave, setPc, RecordFacts, hp, hlast]
  | handOff p w =>
    obtain ⟨hp, hlast⟩ : p = entered ∧ m.history.lastLeft m.current = some g := by
      simpa only [RecordFacts, if_pos] using hf
    have hw := (h.chosen _ _ _ _ _ hpc).ne hpc
    simp [execLeave, setPc, setSemaphore, RecordFacts, hp, hlast, hw]
  | resumeSignaler p w | resumeTime p w | restore p w =>
    obtain ⟨hp, hlast, hown⟩ : p = entered ∧ m.history.lastLeft m.current = some g ∧
        (m.semaphores g).owner ≠ some m.current := by simpa only [RecordFacts, if_pos] using hf
    simp [execLeave, setPc, setPriority, setThread, RecordFacts, hp, hlast, hown]

omit [Fintype G] in
theorem execEnter_record_of_ne (hg : g' ≠ g) (hrecord : (m.semaphores g).owner = some m.current →
    (m.semaphores g).ownerPriority = entered) (cp : Int) (e : EnterPc) :
    let m' := execEnter idlethread threadList m m.current g' cp prev e
    RecordFacts g (m'.semaphores g).owner (m'.semaphores g).ownerPriority m.current entered lastLeft
      (m'.pc m.current) := by
  intro m'
  have hsemaphore : m'.semaphores g = m.semaphores g :=
    execEnter_semaphores_of_ne _ _ _ _ _ (Ne.symm hg) _ _
  have hplace : (∃ e', m'.pc m.current = .enter g' cp prev e') ∨
      m'.pc m.current = .enterYield g' ∨ m'.pc m.current = .fault := execEnter_pc ..
  rw [hsemaphore]
  obtain ⟨e', he⟩ | he | he := hplace
  · rw [he]
    simpa only [RecordFacts, if_neg hg] using hrecord
  · rw [he]
    exact hrecord
  · rw [he]
    exact hrecord

omit [Fintype G] in
theorem execLeave_record_of_ne (hg : g' ≠ g) (hrecord : (m.semaphores g).owner = some m.current →
    (m.semaphores g).ownerPriority = entered) (l : LeavePc T) :
    let m' := execLeave idlethread threadList m m.current g' prev l
    RecordFacts g (m'.semaphores g).owner (m'.semaphores g).ownerPriority m.current entered lastLeft
      (m'.pc m.current) := by
  intro m'
  have hsemaphore : m'.semaphores g = m.semaphores g :=
    execLeave_semaphores_of_ne _ _ _ _ _ (Ne.symm hg) _
  have hplace : (∃ l', m'.pc m.current = .leave g' prev l') ∨
      ∃ p w, m'.pc m.current = .leavePriority g' p w := execLeave_pc ..
  rw [hsemaphore]
  obtain ⟨l', hl⟩ | ⟨p, w, hl⟩ := hplace
  · rw [hl]
    simpa only [RecordFacts, if_neg hg] using hrecord
  · rw [hl]
    exact ⟨fun heq => absurd heq hg, hrecord⟩

end Calls

theorem exec_record_self (h : Ownership idlethread m) (hr : Recorded m) (g : G) :
    RecordFacts g ((exec idlethread threadList m).semaphores g).owner
      ((exec idlethread threadList m).semaphores g).ownerPriority m.current
      ((exec idlethread threadList m).history.entered m.current g)
      ((exec idlethread threadList m).history.lastLeft m.current)
      ((exec idlethread threadList m).pc m.current) := by
  have ho := h.facts m.current g
  have hf := hr.facts m.current g
  rw [exec]
  cases hpc : m.pc m.current with
  | enter g' cp prev e =>
    rw [hpc] at hf
    rw [execAt, execEnter_history]
    by_cases hg : g' = g
    · subst hg
      exact execEnter_record hf
    · exact execEnter_record_of_ne hg (by simpa only [RecordFacts, if_neg hg] using hf) cp e
  | leave g' prev l =>
    rw [hpc] at hf
    rw [execAt, (execLeave_history idlethread threadList m m.current prev g' l).2]
    by_cases hg : g' = g
    · subst hg
      exact execLeave_record h hpc hf
    · exact execLeave_record_of_ne hg (by simpa only [RecordFacts, if_neg hg] using hf) l
  | enterPriority g' =>
    rw [hpc] at hf
    have hrecord : (m.semaphores g).owner = some m.current → (m.semaphores g).ownerPriority =
        m.history.entered m.current g := hf
    by_cases hg : g' = g
    · simp [execAt, setPc, noteEntry, RecordFacts, hg]
    · simpa [execAt, setPc, noteEntry, RecordFacts, hg, Ne.symm hg] using hrecord
  | enterCeiling g' cp =>
    rw [hpc] at hf
    simpa [execAt, setPc, RecordFacts] using hf
  | leaveCount g' =>
    rw [hpc] at hf
    by_cases hg : g' = g
    · subst hg
      simpa [execAt, setPc, setSemaphore, RecordFacts] using hf
    · simpa [execAt, setPc, setSemaphore, RecordFacts, Ne.symm hg] using hf
  | leaveCheck g' =>
    rw [hpc] at hf
    by_cases howner : (m.semaphores g').owner = some m.current
    · simpa [execAt, setPc, RecordFacts, howner] using hf
    · simpa [execAt, setPc, RecordFacts, howner] using hf
  | leaveTest g' =>
    rw [hpc] at hf
    by_cases hcnt : 0 < (m.semaphores g').ownerEnterCnt
    · simpa [execAt, setPc, RecordFacts, hcnt] using hf
    · simpa [execAt, setPc, RecordFacts, hcnt] using hf
  | leaveCeiling g' =>
    rw [hpc] at ho hf
    by_cases hg : g' = g
    · simpa [execAt, setPc, RecordFacts, hg] using hf (ho hg)
    · simpa [execAt, setPc, RecordFacts, hg] using hf
  | leavePriority g' p w =>
    rw [hpc] at hf
    simpa [execAt, setPc, setPriority, setThread, RecordFacts] using hf.2
  | leaveYieldTest g' w =>
    rw [hpc] at hf
    by_cases hyields : w ≠ none ∧ (m.semaphores g').ownerPriority = 0
    · simpa only [execAt, setPc, Function.update_self, if_pos hyields, RecordFacts] using hf
    · simpa only [execAt, setPc, Function.update_self, if_neg hyields, RecordFacts] using hf
  | enterYield g' | enterReturn g' | leaveYield | leaveReturn =>
    rw [hpc] at hf
    simpa [execAt, setPc, noteDepth, RecordFacts] using hf
  | outside | fault =>
    rw [hpc] at hf
    simpa only [execAt, hpc] using hf

/-- Only the boost writes another thread's priority, that of the owner. -/
theorem exec_priority_of_ne (u : T) (hu : u ≠ m.current) :
    ((exec idlethread threadList m).threads u).priority = (m.threads u).priority ∨
      ∃ g, (m.semaphores g).owner = some u := by
  rw [exec]
  cases m.pc m.current with
  | enter g' cp prev e =>
    cases e with
    | boost =>
      cases howner : (m.semaphores g').owner with
      | none => exact .inl (by simp [execAt, execEnter, howner, setPc])
      | some o =>
        by_cases heq : u = o
        · exact .inr ⟨g', heq ▸ howner⟩
        · exact .inl (by simp [execAt, execEnter, howner, setPc, setPriority, setThread, heq])
    | boostTest =>
      left
      cases howner : (m.semaphores g').owner with
      | none => simp [execAt, execEnter, howner, setPc]
      | some o => simp [execAt, execEnter, howner, setPc]
    | setCeiling | test | loop | suspendRead | suspendCeiling p | suspendSignaler p | suspendTime p
    | suspendRestore p | suspendYield | suspendClear | resetCount | takeOwner | takePriority
    | takeCount | restore =>
      left
      simp [execAt, execEnter, setPc, setPriority, setThread, setSemaphore, hu]
  | leave g' prev l =>
    left
    cases l with
    | find p rest next =>
      cases rest with
      | nil => rfl
      | cons iter rest => rfl
    | resumeSignaler p w | resumeTime p w => exact update_field Thread.priority _ _ _ _ rfl
    | setCeiling | clearOwner | readPriority | clearPriority p | handOff p w | restore p w =>
      simp [execAt, execLeave, setPc, setPriority, setThread, setSemaphore, noteLeft, hu]
  | outside | enterPriority g' | enterCeiling g' cp | enterYield g' | enterReturn g' | leaveCheck g'
  | leaveCount g' | leaveTest g' | leaveCeiling g' | leavePriority g' p w | leaveYieldTest g' w
  | leaveYield | leaveReturn | fault =>
    left
    simp [execAt, setPc, setPriority, setThread, setSemaphore, noteEntry, noteDepth, hu]

theorem exec_restored_self (h : Ownership idlethread m) (hr : Recorded m)
    (hrest : Resting ((exec idlethread threadList m).pc m.current))
    (hfree : ∀ g, ((exec idlethread threadList m).semaphores g).owner ≠ some m.current) (g : G)
    (hleft : (exec idlethread threadList m).history.lastLeft m.current = some g) :
    ((exec idlethread threadList m).threads m.current).priority =
      (exec idlethread threadList m).history.entered m.current g := by
  have ho := fun g => h.facts m.current g
  have hold := hr.restored m.current
  revert hrest hfree hleft
  rw [exec]
  cases hpc : m.pc m.current with
  | enter g' cp prev e =>
    intro hrest
    rw [execAt] at hrest
    obtain ⟨e', he⟩ | he | he := execEnter_pc idlethread threadList m m.current prev g' cp e
    · rw [he] at hrest
      exact hrest.elim
    · rw [he] at hrest
      exact hrest.elim
    · rw [he] at hrest
      exact hrest.elim
  | leave g' prev l =>
    intro hrest
    rw [execAt] at hrest
    obtain ⟨l', hl⟩ | ⟨p, w, hl⟩ := execLeave_pc idlethread threadList m m.current prev g' l
    · rw [hl] at hrest
      exact hrest.elim
    · rw [hl] at hrest
      exact hrest.elim
  | leavePriority g' p w =>
    have hp := hr.facts m.current g'
    rw [hpc] at hp
    obtain ⟨hp, hg⟩ := hp.1 rfl
    intro _ _ hleft
    obtain rfl : g' = g := Option.some.inj (hg.symm.trans hleft)
    simpa [execAt, setPc, setPriority, setThread] using hp
  | enterReturn g' =>
    have hown := ho g'
    rw [hpc] at hown
    intro _ hfree
    exact absurd (hown rfl) (hfree g')
  | leaveTest g' =>
    have hown := ho g'
    rw [hpc] at hown
    intro _ hfree
    exact absurd (hown rfl) (hfree g')
  | leaveCheck g' | leaveYieldTest g' w | leaveYield | leaveReturn =>
    rw [hpc] at hold
    intro _ hfree hleft
    simp only [execAt, yield_semaphores, yield_history] at hfree hleft
    simpa [execAt, setPc] using hold trivial hfree g hleft
  | outside =>
    rw [hpc] at hold
    exact fun _ hfree => hold trivial hfree g
  | enterPriority g' | enterCeiling g' cp | enterYield g' | leaveCount g' | leaveCeiling g' =>
    intro hrest
    simp [execAt, setPc, setSemaphore, Resting] at hrest
  | fault =>
    intro hrest
    rw [execAt, hpc] at hrest
    exact hrest.elim

theorem exec_recorded (h : Ownership idlethread m) (hr : Recorded m) :
    Recorded (exec idlethread threadList m) where
  facts := by
    intro u g
    by_cases hu : u = m.current
    · subst hu
      exact exec_record_self h hr g
    · obtain ⟨-, hentered, hlast⟩ := exec_history_of_ne m u hu
      rw [exec_pc_of_ne m u hu, hentered, hlast]
      refine (hr.facts u g).frame ?_ (exec_record_of_ne h g u hu)
      simpa [Ne.symm hu] using h.facts u g
  restored := by
    intro u hrest hfree g hleft
    by_cases hu : u = m.current
    · subst hu
      exact exec_restored_self h hr hrest hfree g hleft
    · have hnone : ∀ g, (m.semaphores g).owner ≠ some u := by
        intro g hg
        obtain ho | ho := exec_owner h g u hu
        · exact hfree g (ho.trans hg)
        · exact ho hg
      rw [exec_pc_of_ne m u hu] at hrest
      obtain ⟨-, hentered, hlast⟩ := exec_history_of_ne m u hu
      rw [hlast] at hleft
      rw [hentered]
      obtain hp | ⟨g', hg⟩ := exec_priority_of_ne u hu
      · rw [hp]
        exact hr.restored u hrest hnone g hleft
      · exact absurd hg (hnone g')

omit [DecidableEq T] [Fintype G] in
theorem Recorded.of_eq {m' : Machine T G} (hr : Recorded m) (hs : m'.semaphores = m.semaphores)
    (hp : m'.pc = m.pc) (hh : m'.history = m.history)
    (hprio : ∀ t, (m'.threads t).priority = (m.threads t).priority) : Recorded m' := by
  constructor
  · rw [hs, hp, hh]
    exact hr.facts
  · intro t
    rw [hs, hp, hh, hprio]
    exact hr.restored t

omit [Fintype G] in
theorem setPc_recorded (hr : Recorded m) (ho : m.pc m.current = .outside) (pc : Pc T G)
    (hf : ∀ g own p t entered lastLeft,
      RecordFacts g own p t entered lastLeft .outside → RecordFacts g own p t entered lastLeft pc) :
    Recorded (setPc m m.current pc) := by
  constructor
  · intro t g
    have hfacts := hr.facts t g
    by_cases ht : t = m.current
    · subst ht
      rw [ho] at hfacts
      simpa [setPc] using hf _ _ _ _ _ _ hfacts
    · simpa [setPc, ht] using hfacts
  · intro t hrest
    by_cases ht : t = m.current
    · subst ht
      exact hr.restored m.current (by simp [ho, Resting])
    · simp only [setPc, Function.update_of_ne ht] at hrest
      exact hr.restored t hrest

omit [Fintype G] in
theorem call_recorded (hr : Recorded m) (c : Call G) (ho : m.pc m.current = .outside) :
    Recorded (call idlethread threadList m c) := by
  cases c with
  | enter g =>
    simp only [call]
    split
    · exact setPc_recorded hr ho _ (fun _ _ _ _ _ _ h => h)
    · exact hr
  | leave g =>
    simp only [call]
    split
    · have hd : Recorded (noteDepth m m.current g (m.history.depth m.current g - 1)) :=
        ⟨hr.facts, hr.restored⟩
      exact setPc_recorded hd ho (.leaveCheck g) (fun _ _ _ _ _ _ h => h)
    · exact hr
  | sleep time =>
    refine hr.of_eq (by simp [call, setThread]) (by simp [call, setThread])
      (by simp [call, setThread]) ?_
    intro t
    simp only [call, yield_priority, setThread]
    exact update_field Thread.priority _ _ _ _ rfl

theorem step_recorded {e : Event T G} {m' : Machine T G} (ho : Ownership idlethread m)
    (hr : Recorded m) (hs : step idlethread threadList e m = some m') : Recorded m' := by
  cases e with
  | exec =>
    simp only [step, Option.ite_none_left_eq_some, Option.some.injEq] at hs
    obtain ⟨_, rfl⟩ := hs
    exact exec_recorded ho hr
  | call c =>
    simp only [step, Option.ite_none_right_eq_some, Option.some.injEq] at hs
    obtain ⟨⟨_, hpc⟩, rfl⟩ := hs
    exact call_recorded hr c hpc
  | tick =>
    cases hs
    exact hr.of_eq rfl rfl rfl (by simp [switchTo])
  | resume t =>
    cases hs
    exact hr.of_eq rfl rfl rfl (by simp [resume])
  | elapse now =>
    simp only [step, Option.ite_none_right_eq_some, Option.some.injEq] at hs
    obtain ⟨_, rfl⟩ := hs
    exact hr.of_eq rfl rfl rfl (fun _ => rfl)

omit [DecidableEq T] [Fintype G] in
theorem start_recorded (h : Start idlethread m) : Recorded m := by
  obtain ⟨_, _, _, _, hpc, _, hsem, _, hleft⟩ := h
  constructor
  · intro t g
    rw [hpc, (hsem g).1]
    simp [RecordFacts]
  · intro t _ _ g hg
    rw [hleft] at hg
    cases hg

/-- A thread that has left all its semaphores has the priority back at which
it called `enter` while it owned none exactly if its latest call on the
semaphore it left last was made at this priority. -/
theorem restored_iff
    (h : ReachableUnder (Start idlethread) (step idlethread threadList)
      (Undivided idlethread threadList) m) {t : T} {g : G} (hpc : m.pc t = .outside)
    (hfree : ∀ g, (m.semaphores g).owner ≠ some t) (hleft : m.history.lastLeft t = some g) :
    (m.threads t).priority = m.history.base t ↔ m.history.entered t g = m.history.base t := by
  have hr := h.invariant_with Recorded (fun _ hs => start_recorded hs)
    (fun _ _ _ hr hi _ hs => step_recorded (reachable_ownership (fun _ _ hok => hok) hr) hi hs)
  rw [hr.restored t (by simp [hpc, Resting]) hfree g hleft]

end

/-- Thread 1 has entered and thread 3 is blocked, so that thread 1 runs at
its priority. -/
def upToBoost : List (Event (Fin 4) Unit) :=
  .call (.enter ()) :: statements 10 ++ [.resume thirdWorker, .tick, .call (.enter ())] ++
    statements 13

theorem restored_iff_sleepers :
    ∃ m : Machine (Fin 4) Unit, (m.threads 1).priority = 10 ∧ m.history.lastLeft 1 = some () ∧
      ((m.threads 1).priority = m.history.base 1 ↔ m.history.entered 1 () = m.history.base 1) := by
  obtain ⟨m, hr, hpc, hfree, hleft, hp⟩ := exists_reachable (Start 0) (step 0 [1, 2, 3, 0])
    (Undivided 0 [1, 2, 3, 0]) sleepers start_sleepers
    (upToBoost ++ .call (.leave ()) :: statements 29 ++ .call (.sleep 50) :: statements 1)
    (fun m => m.pc 1 = .outside ∧ (∀ g, (m.semaphores g).owner ≠ some 1) ∧
      m.history.lastLeft 1 = some () ∧ (m.threads 1).priority = 10) (by decide +kernel)
  exact ⟨m, hp, hleft, restored_iff hr hpc hfree hleft⟩

/-- Thread 1 enters once more while it is boosted. The record of its priority
is overwritten, and after both calls of `leave` it keeps the boost. -/
theorem not_restored_sleepers :
    ∃ m : Machine (Fin 4) Unit, Reachable (Start 0) (step 0 [1, 2, 3, 0]) m ∧
      m.pc 1 = .outside ∧ (∀ g, (m.semaphores g).owner ≠ some 1) ∧
      m.history.lastLeft 1 = some () ∧ (m.threads 1).priority ≠ m.history.base 1 :=
  exists_reachable (Start 0) (step 0 [1, 2, 3, 0]) (fun _ _ => True) sleepers start_sleepers
    (upToBoost ++ .call (.enter ()) :: statements 10 ++ .call (.leave ()) :: statements 3 ++
      .call (.leave ()) :: statements 29)
    (fun m => m.pc 1 = .outside ∧ (∀ g, (m.semaphores g).owner ≠ some 1) ∧
      m.history.lastLeft 1 = some () ∧ (m.threads 1).priority ≠ m.history.base 1) (by decide +kernel)

end Rodos.PriorityRestoration
