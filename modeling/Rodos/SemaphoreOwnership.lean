import Rodos.SemaphoreMachine

namespace Rodos.SemaphoreOwnership

open ThreadSelection SemaphoreMachine

variable {T G : Type}

/-- The thread is suspended in `enter` with the semaphore as its signaler,
or on the way into or out of this suspension. -/
def Waiting (g : G) : Pc T G → Prop
  | .enter g' _ _ (.suspendTime _) | .enter g' _ _ (.suspendRestore _) | .enter g' _ _ .suspendYield
  | .enter g' _ _ .suspendClear => g' = g
  | _ => False

/-- What a thread knows about the owner of a semaphore from the place it has
reached. Two windows rely on the owner being absent: from the test that found
it so to the caller's own entry, and from the release to the hand-off. -/
def OwnerFacts (g : G) (own : Option T) (running : Prop) (t : T) : Pc T G → Prop
  | .enter g' _ _ e => g' = g → match e with
    | .resetCount | .takeOwner => own = some t ∨ own = none ∧ running
    | .takePriority | .takeCount | .restore => own = some t
    | _ => True
  | .enterYield g' | .enterReturn g' | .leaveCount g' | .leaveTest g' | .leaveCeiling g' =>
    g' = g → own = some t
  | .leave g' _ l => g' = g → match l with
    | .setCeiling | .clearOwner => own = some t
    | .readPriority | .clearPriority _ | .find _ _ _ | .handOff _ _ => own = none ∧ running
    | _ => True
  | _ => True

def InWindow (m : Machine T G) : Pc T G → Prop
  | .enter g _ _ .resetCount | .enter g _ _ .takeOwner => (m.semaphores g).owner = none
  | .leave _ _ .readPriority | .leave _ _ (.clearPriority _) | .leave _ _ (.find _ _ _)
  | .leave _ _ (.handOff _ _) => True
  | _ => False

structure Ownership (idlethread : T) (m : Machine T G) : Prop where
  facts : ∀ t g, OwnerFacts g (m.semaphores g).owner (m.current = t) t (m.pc t)
  registered : ∀ t g, (m.threads t).waitingFor = some g → Waiting g (m.pc t)
  candidate : ∀ t g prev p rest next, m.pc t = .leave g prev (.find p rest next) →
    next = idlethread ∨ Waiting g (m.pc next)
  chosen : ∀ t g prev p w, m.pc t = .leave g prev (.handOff p w) → Waiting g (m.pc w)

theorem Waiting.ne {m : Machine T G} {g g' : G} {prev : Int} {l : LeavePc T} {w : T}
    (hw : Waiting g (m.pc w)) (ht : m.pc m.current = .leave g' prev l) : w ≠ m.current := by
  rintro rfl
  rw [ht] at hw
  exact hw

theorem Ownership.running {idlethread : T} {m : Machine T G} (h : Ownership idlethread m) {t : T} {g : G} {prev : Int}
    {l : LeavePc T} (hpc : m.pc t = .leave g prev l)
    (hl : (∃ p rest next, l = .find p rest next) ∨ ∃ p w, l = .handOff p w) : m.current = t := by
  have hf := h.facts t g
  rw [hpc] at hf
  obtain ⟨p, rest, next, rfl⟩ | ⟨p, w, rfl⟩ := hl
  · exact (hf rfl).2
  · exact (hf rfl).2

/-- A thread that is not running relies on the owner of a semaphore only if
it is the owner itself. -/
theorem OwnerFacts.frame {g : G} {own own' : Option T} {u : T} {pc : Pc T G} (r : Prop)
    (h : OwnerFacts g own False u pc) (ho : own' = own ∨ own ≠ some u) :
    OwnerFacts g own' r u pc := by
  have hkeeps : own = some u → own' = some u := by
    intro hown
    obtain rfl | hne := ho
    · exact hown
    · exact absurd hown hne
  cases pc with
  | enter g' cp prev e =>
    intro hg
    cases e with
    | resetCount | takeOwner =>
      obtain hown | ⟨-, hruns⟩ := h hg
      · exact .inl (hkeeps hown)
      · exact hruns.elim
    | takePriority | takeCount | restore => exact hkeeps (h hg)
    | setCeiling | test | boostTest | boost | loop | suspendRead | suspendCeiling p
    | suspendSignaler p | suspendTime p | suspendRestore p | suspendYield | suspendClear => trivial
  | leave g' prev l =>
    intro hg
    cases l with
    | setCeiling | clearOwner => exact hkeeps (h hg)
    | readPriority | clearPriority p | find p rest next | handOff p w => exact (h hg).2.elim
    | resumeSignaler p w | resumeTime p w | restore p w => trivial
  | enterYield g' | enterReturn g' | leaveCount g' | leaveTest g' | leaveCeiling g' =>
    exact fun hg => hkeeps (h hg)
  | _ => trivial

inductive Writes (g : G) (s : Semaphore T) (t : T) : Pc T G → Semaphore T → Prop
  | nothing (pc : Pc T G) : Writes g s t pc s
  | resetCount (cp prev : Int) :
    Writes g s t (.enter g cp prev .resetCount) { s with ownerEnterCnt := 0 }
  | takeOwner (cp prev : Int) : Writes g s t (.enter g cp prev .takeOwner) { s with owner := some t }
  | takePriority (cp prev : Int) :
    Writes g s t (.enter g cp prev .takePriority) { s with ownerPriority := cp }
  | takeCount (cp prev : Int) : Writes g s t (.enter g cp prev .takeCount)
    { s with ownerEnterCnt := int32 (s.ownerEnterCnt + 1) }
  | leaveCount : Writes g s t (.leaveCount g)
    { s with ownerEnterCnt := int32 (s.ownerEnterCnt - 1) }
  | clearOwner (prev : Int) : Writes g s t (.leave g prev .clearOwner) { s with owner := none }
  | clearPriority (prev p : Int) :
    Writes g s t (.leave g prev (.clearPriority p)) { s with ownerPriority := 0 }
  | handOff (prev p : Int) (w : T) :
    Writes g s t (.leave g prev (.handOff p w)) { s with owner := some w }

/-- A semaphore is written when its owner is the running thread or absent, and
another thread becomes its owner only if it is handed over to it. -/
theorem Writes.of_ne {g : G} {s s' : Semaphore T} {r : Prop} {t u : T} {pc : Pc T G}
    (h : Writes g s t pc s') (hf : OwnerFacts g s.owner r t pc) (hu : u ≠ t) :
    s' = s ∨ s.owner ≠ some u ∧ (s'.owner ≠ some u ∨
      (∃ prev p, pc = .leave g prev (.handOff p u)) ∧ s.owner = none ∧
        s'.ownerEnterCnt = s.ownerEnterCnt) := by
  have hne : some t ≠ some u := fun heq => hu (Option.some.inj heq).symm
  cases h with
  | nothing => exact .inl rfl
  | resetCount cp prev | takeOwner cp prev =>
    have hown : s.owner ≠ some u := by
      obtain hown | ⟨hown, -⟩ := hf rfl
      · rwa [hown]
      · simp [hown]
    exact .inr ⟨hown, .inl (by assumption)⟩
  | takePriority cp prev | takeCount cp prev | leaveCount =>
    have hown : s.owner ≠ some u := by rwa [hf rfl]
    exact .inr ⟨hown, .inl hown⟩
  | clearOwner prev => exact .inr ⟨by rwa [hf rfl], .inl (by simp)⟩
  | clearPriority prev p =>
    have hown : s.owner ≠ some u := by simp [(hf rfl).1]
    exact .inr ⟨hown, .inl hown⟩
  | handOff prev p w =>
    have hown := (hf rfl).1
    refine .inr ⟨by simp [hown], ?_⟩
    by_cases hw : w = u
    · exact .inr ⟨⟨prev, p, by rw [hw]⟩, hown, rfl⟩
    · exact .inl (fun heq => hw (Option.some.inj heq))

section

variable [DecidableEq T] {idlethread : T} {threadList : List T}

@[simp] theorem yield_pc (m : Machine T G) : (yield idlethread threadList m).pc = m.pc := by
  rw [yield]
  split <;> rfl

@[simp] theorem yield_semaphores (m : Machine T G) :
    (yield idlethread threadList m).semaphores = m.semaphores := by
  rw [yield]
  split <;> rfl

@[simp] theorem yield_history (m : Machine T G) :
    (yield idlethread threadList m).history = m.history := by
  rw [yield]
  split <;> rfl

@[simp] theorem yield_waitingFor (m : Machine T G) (t : T) :
    ((yield idlethread threadList m).threads t).waitingFor = (m.threads t).waitingFor := by
  rw [yield]
  split
  · rfl
  · exact setActivation_waitingFor _ _ _ _

@[simp] theorem yield_priority (m : Machine T G) (t : T) :
    ((yield idlethread threadList m).threads t).priority = (m.threads t).priority := by
  rw [yield]
  split
  · rfl
  · exact setActivation_priority _ _ _ _

@[simp] theorem yield_suspendedUntil (m : Machine T G) (t : T) :
    ((yield idlethread threadList m).threads t).suspendedUntil = (m.threads t).suspendedUntil := by
  rw [yield]
  split
  · rfl
  · exact setActivation_suspendedUntil _ _ _ _

@[simp] theorem yield_now (m : Machine T G) : (yield idlethread threadList m).now = m.now := by
  rw [yield]
  split <;> rfl

section Calls

variable [DecidableEq G] (idlethread threadList) (m : Machine T G) (t : T) (prev : Int)

theorem execEnter_history (g : G) (cp : Int) (e : EnterPc) :
    (execEnter idlethread threadList m t g cp prev e).history = m.history := by
  cases e with
  | boostTest | boost =>
    simp only [execEnter]
    split
    · rfl
    · rfl
  | suspendYield =>
    simp only [execEnter, yield_history]
    rfl
  | setCeiling | test | loop | suspendRead | suspendCeiling p | suspendSignaler p | suspendTime p
  | suspendRestore p | suspendClear | resetCount | takeOwner | takePriority | takeCount | restore =>
    rfl

theorem execLeave_history (g : G) (l : LeavePc T) :
    (execLeave idlethread threadList m t g prev l).history.depth = m.history.depth ∧
      (execLeave idlethread threadList m t g prev l).history.entered = m.history.entered := by
  cases l with
  | find p rest next =>
    cases rest with
    | nil => exact ⟨rfl, rfl⟩
    | cons iter rest => exact ⟨rfl, rfl⟩
  | setCeiling | clearOwner | readPriority | clearPriority p | handOff p w | resumeSignaler p w
  | resumeTime p w | restore p w => exact ⟨rfl, rfl⟩

variable {g g' : G}

theorem execEnter_semaphores_of_ne (hg : g ≠ g') (cp : Int) (e : EnterPc) :
    (execEnter idlethread threadList m t g' cp prev e).semaphores g = m.semaphores g := by
  cases e with
  | boostTest | boost =>
    simp only [execEnter]
    split
    · rfl
    · rfl
  | suspendYield =>
    simp only [execEnter, yield_semaphores]
    rfl
  | resetCount | takeOwner | takePriority | takeCount => exact Function.update_of_ne hg _ _
  | setCeiling | test | loop | suspendRead | suspendCeiling p | suspendSignaler p | suspendTime p
  | suspendRestore p | suspendClear | restore => rfl

theorem execLeave_semaphores_of_ne (hg : g ≠ g') (l : LeavePc T) :
    (execLeave idlethread threadList m t g' prev l).semaphores g = m.semaphores g := by
  cases l with
  | find p rest next =>
    cases rest with
    | nil => rfl
    | cons iter rest => rfl
  | clearOwner | clearPriority p | handOff p w => exact Function.update_of_ne hg _ _
  | setCeiling | readPriority | resumeSignaler p w | resumeTime p w | restore p w => rfl

theorem execEnter_pc (g : G) (cp : Int) (e : EnterPc) :
    let pc := (execEnter idlethread threadList m t g cp prev e).pc t
    (∃ e', pc = .enter g cp prev e') ∨ pc = .enterYield g ∨ pc = .fault := by
  cases e with
  | boostTest | boost =>
    simp only [execEnter]
    split
    · exact .inl ⟨_, Function.update_self ..⟩
    · exact .inr (.inr (Function.update_self ..))
  | suspendYield =>
    simp only [execEnter, yield_pc]
    exact .inl ⟨_, Function.update_self ..⟩
  | restore => exact .inr (.inl (Function.update_self ..))
  | setCeiling | test | loop | suspendRead | suspendCeiling p | suspendSignaler p | suspendTime p
  | suspendRestore p | suspendClear | resetCount | takeOwner | takePriority | takeCount =>
    exact .inl ⟨_, Function.update_self ..⟩

theorem execLeave_pc (g : G) (l : LeavePc T) :
    let pc := (execLeave idlethread threadList m t g prev l).pc t
    (∃ l', pc = .leave g prev l') ∨ ∃ p w, pc = .leavePriority g p w := by
  cases l with
  | find p rest next =>
    cases rest with
    | nil => exact .inl ⟨_, Function.update_self ..⟩
    | cons iter rest => exact .inl ⟨_, Function.update_self ..⟩
  | restore p w => exact .inr ⟨p, w, Function.update_self ..⟩
  | setCeiling | clearOwner | readPriority | clearPriority p | handOff p w | resumeSignaler p w
  | resumeTime p w => exact .inl ⟨_, Function.update_self ..⟩

variable {u : T} (hu : u ≠ t)
include hu

theorem execEnter_pc_of_ne (g : G) (cp : Int) (e : EnterPc) :
    (execEnter idlethread threadList m t g cp prev e).pc u = m.pc u := by
  cases e with
  | boostTest | boost =>
    simp only [execEnter]
    split
    · exact Function.update_of_ne hu _ _
    · exact Function.update_of_ne hu _ _
  | suspendYield =>
    simp only [execEnter, yield_pc]
    exact Function.update_of_ne hu _ _
  | setCeiling | test | loop | suspendRead | suspendCeiling p | suspendSignaler p | suspendTime p
  | suspendRestore p | suspendClear | resetCount | takeOwner | takePriority | takeCount | restore =>
    exact Function.update_of_ne hu _ _

theorem execLeave_pc_of_ne (g : G) (l : LeavePc T) :
    (execLeave idlethread threadList m t g prev l).pc u = m.pc u := by
  cases l with
  | find p rest next =>
    cases rest with
    | nil => exact Function.update_of_ne hu _ _
    | cons iter rest => exact Function.update_of_ne hu _ _
  | setCeiling | clearOwner | readPriority | clearPriority p | handOff p w | resumeSignaler p w
  | resumeTime p w | restore p w => exact Function.update_of_ne hu _ _

theorem execLeave_lastLeft_of_ne (g : G) (l : LeavePc T) :
    (execLeave idlethread threadList m t g prev l).history.lastLeft u = m.history.lastLeft u := by
  cases l with
  | clearOwner => exact Function.update_of_ne hu _ _
  | find p rest next =>
    cases rest with
    | nil => rfl
    | cons iter rest => rfl
  | setCeiling | readPriority | clearPriority p | handOff p w | resumeSignaler p w
  | resumeTime p w | restore p w => rfl

end Calls

variable [DecidableEq G] [Fintype G]

theorem exec_pc_of_ne (m : Machine T G) (u : T) (hu : u ≠ m.current) :
    (exec idlethread threadList m).pc u = m.pc u := by
  rw [exec]
  cases m.pc m.current with
  | enter g cp prev e => exact execEnter_pc_of_ne _ _ m m.current prev hu g cp e
  | leave g prev l => exact execLeave_pc_of_ne _ _ m m.current prev hu g l
  | _ => simp [execAt, setPc, setPriority, setThread, setSemaphore, noteEntry, noteDepth, hu]

theorem exec_history_of_ne (m : Machine T G) (u : T) (hu : u ≠ m.current) :
    (exec idlethread threadList m).history.depth u = m.history.depth u ∧
      (exec idlethread threadList m).history.entered u = m.history.entered u ∧
      (exec idlethread threadList m).history.lastLeft u = m.history.lastLeft u := by
  rw [exec]
  cases m.pc m.current with
  | enter g cp prev e =>
    rw [execAt, execEnter_history]
    exact ⟨rfl, rfl, rfl⟩
  | leave g prev l =>
    obtain ⟨hdepth, hentered⟩ := execLeave_history idlethread threadList m m.current prev g l
    exact ⟨congrFun hdepth u, congrFun hentered u, execLeave_lastLeft_of_ne _ _ m _ prev hu g l⟩
  | _ => simp [execAt, setPc, setPriority, setThread, setSemaphore, noteEntry, noteDepth, hu]

theorem exec_writes (m : Machine T G) (g : G) : Writes g (m.semaphores g) m.current
    (m.pc m.current) ((exec idlethread threadList m).semaphores g) := by
  rw [exec]
  cases m.pc m.current with
  | enter g' cp prev e =>
    by_cases hg : g = g'
    · subst hg
      cases e with
      | resetCount | takeOwner | takePriority | takeCount =>
        simp only [execAt, execEnter, setPc, setSemaphore, Function.update_self]
        constructor
      | boostTest | boost =>
        simp only [execAt, execEnter]
        split
        · exact .nothing _
        · exact .nothing _
      | suspendYield =>
        simp only [execAt, execEnter, yield_semaphores]
        exact .nothing _
      | setCeiling | test | loop | suspendRead | suspendCeiling p | suspendSignaler p
      | suspendTime p | suspendRestore p | suspendClear | restore => exact .nothing _
    · rw [execAt, execEnter_semaphores_of_ne _ _ _ _ _ hg]
      exact .nothing _
  | leave g' prev l =>
    by_cases hg : g = g'
    · subst hg
      cases l with
      | clearOwner | clearPriority p | handOff p w =>
        simp only [execAt, execLeave, setPc, setSemaphore, noteLeft, Function.update_self]
        constructor
      | find p rest next =>
        cases rest with
        | nil => exact .nothing _
        | cons iter rest => exact .nothing _
      | setCeiling | readPriority | resumeSignaler p w | resumeTime p w | restore p w =>
        exact .nothing _
    · rw [execAt, execLeave_semaphores_of_ne _ _ _ _ _ hg]
      exact .nothing _
  | leaveCount g' =>
    by_cases hg : g = g'
    · subst hg
      simp only [execAt, setPc, setSemaphore, Function.update_self]
      exact .leaveCount
    · simp only [execAt, setPc, setSemaphore, Function.update_of_ne hg]
      exact .nothing _
  | _ =>
    simp only [execAt, setPc, setPriority, setThread, noteEntry, noteDepth, yield_semaphores]
    exact .nothing _

/-- Only three statements write the owner, and each of them knows it. -/
theorem exec_owner {m : Machine T G} (h : Ownership idlethread m) (g : G) (u : T)
    (hu : u ≠ m.current) :
    ((exec idlethread threadList m).semaphores g).owner = (m.semaphores g).owner ∨
      (m.semaphores g).owner ≠ some u := by
  obtain hs | ⟨hown, -⟩ := (exec_writes m g).of_ne (h.facts m.current g) hu
  · exact .inl (congrArg Semaphore.owner hs)
  · exact .inr hown

omit [DecidableEq T] [DecidableEq G] [Fintype G] in
theorem owner_of_not_occupied {m : Machine T G} {t : T} {g : G} (h : ¬ occupied m t g) :
    (m.semaphores g).owner = some t ∨ (m.semaphores g).owner = none := by
  by_contra hother
  rw [not_or] at hother
  exact h ⟨hother.2, hother.1⟩

omit [Fintype G] in
theorem execEnter_facts {m : Machine T G} {g : G} {cp prev : Int} {e : EnterPc}
    (hf : OwnerFacts g (m.semaphores g).owner (m.current = m.current) m.current
      (.enter g cp prev e)) :
    let m' := execEnter idlethread threadList m m.current g cp prev e
    OwnerFacts g (m'.semaphores g).owner (m'.current = m.current) m.current (m'.pc m.current) := by
  cases e with
  | test | loop =>
    by_cases hoccupied : occupied m m.current g
    · simp [execEnter, setPc, OwnerFacts, hoccupied]
    · simpa [execEnter, setPc, OwnerFacts, hoccupied] using owner_of_not_occupied hoccupied
  | boostTest =>
    cases howner : (m.semaphores g).owner with
    | none => simp [execEnter, howner, setPc, OwnerFacts]
    | some o =>
      by_cases hlow : (m.threads o).priority < cp
      · simp [execEnter, howner, hlow, setPc, OwnerFacts]
      · simp [execEnter, howner, hlow, setPc, OwnerFacts]
  | boost =>
    cases howner : (m.semaphores g).owner with
    | none => simp [execEnter, howner, setPc, OwnerFacts]
    | some o => simp [execEnter, howner, setPc, setPriority, setThread, OwnerFacts]
  | resetCount => simpa [execEnter, setPc, setSemaphore, OwnerFacts] using hf rfl
  | takeOwner => simp [execEnter, setPc, setSemaphore, OwnerFacts]
  | takePriority | takeCount | restore =>
    have hown : (m.semaphores g).owner = some m.current := hf rfl
    simp [execEnter, setPc, setPriority, setThread, setSemaphore, OwnerFacts, hown]
  | setCeiling | suspendRead | suspendCeiling p | suspendSignaler p | suspendTime p
  | suspendRestore p | suspendYield | suspendClear =>
    simp [execEnter, setPc, setPriority, setThread, OwnerFacts]

omit [Fintype G] in
theorem execLeave_facts {m : Machine T G} {g : G} {prev : Int} {l : LeavePc T}
    (hf : OwnerFacts g (m.semaphores g).owner (m.current = m.current) m.current (.leave g prev l)) :
    let m' := execLeave idlethread threadList m m.current g prev l
    OwnerFacts g (m'.semaphores g).owner (m'.current = m.current) m.current (m'.pc m.current) := by
  cases l with
  | setCeiling =>
    have hown : (m.semaphores g).owner = some m.current := hf rfl
    simp [execLeave, setPc, setPriority, setThread, OwnerFacts, hown]
  | clearOwner => simp [execLeave, setPc, setSemaphore, noteLeft, OwnerFacts]
  | readPriority | clearPriority p =>
    have hnone : (m.semaphores g).owner = none := (hf rfl).1
    simp [execLeave, setPc, setSemaphore, OwnerFacts, hnone]
  | find p rest next =>
    have hnone : (m.semaphores g).owner = none := (hf rfl).1
    cases rest with
    | nil =>
      by_cases hidle : next = idlethread
      · simp [execLeave, setPc, OwnerFacts, hidle]
      · simp [execLeave, setPc, OwnerFacts, hidle, hnone]
    | cons iter rest => simp [execLeave, setPc, OwnerFacts, hnone]
  | handOff p w | resumeSignaler p w | resumeTime p w | restore p w =>
    simp [execLeave, setPc, setPriority, setThread, setSemaphore, OwnerFacts]

theorem exec_facts_self {m : Machine T G} (h : Ownership idlethread m) (g : G) :
    OwnerFacts g ((exec idlethread threadList m).semaphores g).owner
      ((exec idlethread threadList m).current = m.current) m.current
      ((exec idlethread threadList m).pc m.current) := by
  have hf := h.facts m.current g
  rw [exec]
  cases hpc : m.pc m.current with
  | enter g' cp prev e =>
    rw [hpc] at hf
    by_cases hg : g' = g
    · subst hg
      exact execEnter_facts hf
    · rw [execAt]
      obtain ⟨e', he⟩ | he | he := execEnter_pc idlethread threadList m m.current prev g' cp e
      · rw [he]
        exact fun heq => absurd heq hg
      · rw [he]
        exact fun heq => absurd heq hg
      · rw [he]
        trivial
  | leave g' prev l =>
    rw [hpc] at hf
    by_cases hg : g' = g
    · subst hg
      exact execLeave_facts hf
    · rw [execAt]
      obtain ⟨l', hl⟩ | ⟨p, w, hl⟩ := execLeave_pc idlethread threadList m m.current prev g' l
      · rw [hl]
        exact fun heq => absurd heq hg
      · rw [hl]
        trivial
  | leaveCheck g' =>
    by_cases hown : (m.semaphores g').owner = some m.current
    · simp only [execAt, setPc, Function.update_self, if_neg (not_not.mpr hown)]
      exact fun hg => hg ▸ hown
    · simp only [execAt, setPc, Function.update_self, if_pos hown]
      trivial
  | leaveCount g' =>
    rw [hpc] at hf
    by_cases hg : g' = g
    · subst hg
      simpa [execAt, setPc, setSemaphore, OwnerFacts] using hf rfl
    · simp [execAt, setPc, setSemaphore, OwnerFacts, hg]
  | leaveTest g' =>
    rw [hpc] at hf
    by_cases hcnt : 0 < (m.semaphores g').ownerEnterCnt
    · simp [execAt, setPc, OwnerFacts, hcnt]
    · simpa [execAt, setPc, OwnerFacts, hcnt] using hf
  | leaveYieldTest g' w =>
    simp only [execAt, setPc, Function.update_self]
    split
    · trivial
    · trivial
  | enterYield g' | leaveCeiling g' =>
    rw [hpc] at hf
    simpa [execAt, setPc, OwnerFacts] using hf
  | outside | fault => simp [execAt, hpc, OwnerFacts]
  | enterPriority g' | enterCeiling g' cp | enterReturn g' | leavePriority g' p w | leaveYield
  | leaveReturn => simp [execAt, setPc, setPriority, setThread, noteEntry, noteDepth, OwnerFacts]

omit [Fintype G] in
theorem execEnter_waitingFor_of_ne (m : Machine T G) (t u : T) (hu : u ≠ t) (g : G)
    (cp prev : Int) (e : EnterPc) :
    ((execEnter idlethread threadList m t g cp prev e).threads u).waitingFor =
      (m.threads u).waitingFor := by
  cases e with
  | boostTest =>
    simp only [execEnter]
    split
    · rfl
    · rfl
  | boost =>
    simp only [execEnter]
    split
    · exact update_field Thread.waitingFor _ _ _ _ rfl
    · rfl
  | suspendYield =>
    simp only [execEnter, yield_waitingFor]
    rfl
  | setCeiling | suspendCeiling p | suspendSignaler p | suspendTime p | suspendRestore p
  | suspendClear | restore => exact congrArg Thread.waitingFor (Function.update_of_ne hu _ _)
  | test | loop | suspendRead | resetCount | takeOwner | takePriority | takeCount => rfl

omit [Fintype G] in
theorem execLeave_waitingFor {m : Machine T G} {t u : T} {g g' : G} {prev : Int} {l : LeavePc T}
    (hw : ((execLeave idlethread threadList m t g' prev l).threads u).waitingFor = some g) :
    (m.threads u).waitingFor = some g := by
  cases l with
  | resumeSignaler p w =>
    by_cases hu : u = w
    · simp [execLeave, setPc, setThread, hu] at hw
    · simpa [execLeave, setPc, setThread, hu] using hw
  | setCeiling | resumeTime p w | restore p w =>
    refine Eq.trans (Eq.symm ?_) hw
    exact update_field Thread.waitingFor _ _ _ _ rfl
  | find p rest next =>
    cases rest with
    | nil => exact hw
    | cons iter rest => exact hw
  | clearOwner | readPriority | clearPriority p | handOff p w => exact hw

omit [Fintype G] in
/-- A thread registers itself as the last thing before it suspends itself. -/
theorem execEnter_registered {m : Machine T G} {t : T} {g g' : G} {cp prev : Int} {e : EnterPc}
    (hf : (m.threads t).waitingFor = some g → Waiting g (.enter g' cp prev e : Pc T G))
    (hw : ((execEnter idlethread threadList m t g' cp prev e).threads t).waitingFor = some g) :
    Waiting g ((execEnter idlethread threadList m t g' cp prev e).pc t) := by
  cases e with
  | suspendSignaler p =>
    simpa [execEnter, setPc, setThread, Waiting] using hw
  | suspendTime p | suspendRestore p | suspendYield =>
    have hg : g' = g := hf (by simpa [execEnter, setPc, setPriority, setThread] using hw)
    simpa [execEnter, setPc, Waiting] using hg
  | suspendClear => simp [execEnter, setPc, setThread] at hw
  | boostTest =>
    refine False.elim (hf ?_)
    simp only [execEnter] at hw
    split at hw
    · exact hw
    · exact hw
  | boost =>
    refine False.elim (hf ?_)
    simp only [execEnter] at hw
    split at hw
    · refine Eq.trans (Eq.symm ?_) hw
      exact update_field Thread.waitingFor _ _ _ _ rfl
    · exact hw
  | setCeiling | test | loop | suspendRead | suspendCeiling p | resetCount | takeOwner
  | takePriority | takeCount | restore =>
    refine False.elim (hf ?_)
    simpa [execEnter, setPc, setPriority, setThread, setSemaphore] using hw

theorem exec_waitingFor_of_ne (m : Machine T G) (u : T) (hu : u ≠ m.current) (g : G)
    (hw : ((exec idlethread threadList m).threads u).waitingFor = some g) :
    (m.threads u).waitingFor = some g := by
  revert hw
  rw [exec]
  cases hpc : m.pc m.current with
  | enter g' cp prev e =>
    rw [execAt, execEnter_waitingFor_of_ne _ _ _ hu]
    exact id
  | leave g' prev l => exact execLeave_waitingFor
  | _ => simp [execAt, setPc, setPriority, setThread, setSemaphore, noteEntry, noteDepth, hu]

theorem exec_registered_self {m : Machine T G} (h : Ownership idlethread m) (g : G)
    (hw : ((exec idlethread threadList m).threads m.current).waitingFor = some g) :
    Waiting g ((exec idlethread threadList m).pc m.current) := by
  have hf := h.registered m.current g
  revert hw
  rw [exec]
  cases hpc : m.pc m.current with
  | enter g' cp prev e =>
    rw [hpc] at hf
    exact execEnter_registered hf
  | leave g' prev l =>
    rw [hpc] at hf
    exact fun hw => False.elim (hf (execLeave_waitingFor hw))
  | _ =>
    rw [hpc] at hf
    intro hw
    refine False.elim (hf ?_)
    simpa [execAt, setPc, setPriority, setThread, setSemaphore, noteEntry, noteDepth] using hw

theorem exec_search {m : Machine T G} {g : G} {prev : Int} {l : LeavePc T}
    (h : (exec idlethread threadList m).pc m.current = .leave g prev l) :
    (∀ p rest next, l = .find p rest next → next = idlethread ∨ ∃ iter last,
      m.pc m.current = .leave g prev (.find p (iter :: rest) last) ∧
        next = waiterStep m.threads g iter last) ∧
    ∀ p w, l = .handOff p w →
      w ≠ idlethread ∧ m.pc m.current = .leave g prev (.find p [] w) := by
  rw [exec] at h
  cases hpc : m.pc m.current with
  | enter g' cp prev' e =>
    rw [hpc, execAt] at h
    obtain ⟨e', he⟩ | he | he := execEnter_pc idlethread threadList m m.current prev' g' cp e
    · cases he.symm.trans h
    · cases he.symm.trans h
    · cases he.symm.trans h
  | leave g' prev' l' =>
    rw [hpc] at h
    cases l' with
    | find p' rest' next' =>
      cases rest' with
      | nil =>
        simp only [execAt, execLeave, setPc, Function.update_self, Pc.leave.injEq] at h
        obtain ⟨rfl, rfl, rfl⟩ := h
        split <;> simp_all
      | cons iter rest =>
        simp only [execAt, execLeave, setPc, Function.update_self, Pc.leave.injEq] at h
        obtain ⟨rfl, rfl, rfl⟩ := h
        simp_all
    | restore p' w => simp [execAt, execLeave, setPc] at h
    | _ =>
      simp only [execAt, execLeave, setPc, setPriority, setThread, setSemaphore, noteLeft,
        Function.update_self, Pc.leave.injEq] at h
      obtain ⟨rfl, rfl, rfl⟩ := h
      simp_all
  | leaveCheck g' | leaveTest g' | leaveYieldTest g' w =>
    rw [hpc] at h
    simp only [execAt, setPc, Function.update_self] at h
    split at h
    · cases h
    · cases h
  | leaveCeiling g' =>
    rw [hpc] at h
    simp only [execAt, setPc, Function.update_self, Pc.leave.injEq] at h
    obtain ⟨rfl, rfl, rfl⟩ := h
    simp
  | _ =>
    rw [hpc] at h
    simp [execAt, setPc, setPriority, setThread, setSemaphore, noteEntry, noteDepth, hpc] at h

theorem exec_ownership {m : Machine T G} (h : Ownership idlethread m) :
    Ownership idlethread (exec idlethread threadList m) where
  facts := by
    intro u g
    by_cases hu : u = m.current
    · subst hu
      exact exec_facts_self h g
    · rw [exec_pc_of_ne m u hu]
      refine OwnerFacts.frame _ ?_ (exec_owner h g u hu)
      simpa [Ne.symm hu] using h.facts u g
  registered := by
    intro u g hw
    by_cases hu : u = m.current
    · subst hu
      exact exec_registered_self h g hw
    · rw [exec_pc_of_ne m u hu]
      exact h.registered u g (exec_waitingFor_of_ne m u hu g hw)
  candidate := by
    intro u g prev p rest next hpc
    have hu : u = m.current := by
      by_contra hu
      rw [exec_pc_of_ne m u hu] at hpc
      exact hu (h.running hpc (.inl ⟨_, _, _, rfl⟩)).symm
    subst hu
    obtain hn | ⟨iter, last, ht, hn⟩ := (exec_search hpc).1 _ _ _ rfl
    · exact .inl hn
    rw [waiterStep_eq] at hn
    split at hn
    · next hc =>
      have hw := h.registered iter g hc.1
      rw [hn, exec_pc_of_ne m iter (hw.ne ht)]
      exact .inr hw
    · rw [hn]
      obtain hi | hw := h.candidate _ _ _ _ _ _ ht
      · exact .inl hi
      · rw [exec_pc_of_ne m last (hw.ne ht)]
        exact .inr hw
  chosen := by
    intro u g prev p w hpc
    have hu : u = m.current := by
      by_contra hu
      rw [exec_pc_of_ne m u hu] at hpc
      exact hu (h.running hpc (.inr ⟨_, _, rfl⟩)).symm
    subst hu
    obtain ⟨hi, ht⟩ := (exec_search hpc).2 _ _ rfl
    have hw := (h.candidate _ _ _ _ _ _ ht).resolve_left hi
    rw [exec_pc_of_ne m w (hw.ne ht)]
    exact hw

omit [DecidableEq T] [DecidableEq G] [Fintype G] in
theorem OwnerFacts.of_not_inWindow {m : Machine T G} {g : G} {r r' : Prop} {t : T} {pc : Pc T G}
    (hf : OwnerFacts g (m.semaphores g).owner r t pc) (hin : ¬ InWindow m pc) :
    OwnerFacts g (m.semaphores g).owner r' t pc := by
  cases pc with
  | enter g' cp prev e =>
    cases e with
    | resetCount | takeOwner =>
      intro hg
      obtain hown | ⟨hnone, -⟩ := hf hg
      · exact .inl hown
      · exact absurd (hg ▸ hnone) hin
    | _ => exact hf
  | leave g' prev l =>
    cases l with
    | readPriority | clearPriority p | find p rest next | handOff p w => exact absurd trivial hin
    | _ => exact hf
  | _ => exact hf

omit [DecidableEq G] [Fintype G] in
theorem switchTo_ownership {m : Machine T G} (h : Ownership idlethread m) (next : T)
    (hw : InWindow m (m.pc m.current) → next = m.current) :
    Ownership idlethread (switchTo m next) where
  facts := by
    intro u g
    change OwnerFacts g (m.semaphores g).owner (next = u) u (m.pc u)
    have hf := h.facts u g
    by_cases hu : m.current = u
    · subst hu
      by_cases hin : InWindow m (m.pc m.current)
      · simpa [hw hin] using hf
      · exact hf.of_not_inWindow hin
    · simp only [hu] at hf
      exact hf.frame _ (.inl rfl)
  registered := by
    intro u g hg
    exact h.registered u g (by simpa [switchTo] using hg)
  candidate := h.candidate
  chosen := h.chosen

omit [DecidableEq G] [Fintype G] in
theorem yield_ownership {m : Machine T G} (h : Ownership idlethread m)
    (hw : ¬ InWindow m (m.pc m.current)) : Ownership idlethread (yield idlethread threadList m) := by
  rw [yield]
  split
  · exact h
  · exact switchTo_ownership h _ (fun hin => absurd hin hw)

omit [DecidableEq G] [Fintype G] in
theorem setPc_ownership {m : Machine T G} (h : Ownership idlethread m) (pc : Pc T G)
    (ho : m.pc m.current = .outside)
    (hf : ∀ g, OwnerFacts g (m.semaphores g).owner True m.current pc)
    (hl : ∀ g prev l, pc ≠ .leave g prev l) : Ownership idlethread (setPc m m.current pc) where
  facts := by
    intro u g
    by_cases hu : u = m.current
    · subst hu
      simpa [setPc] using hf g
    · simpa [setPc, hu] using h.facts u g
  registered := by
    intro u g hg
    have hr := h.registered u g hg
    by_cases hu : u = m.current
    · subst hu
      rw [ho] at hr
      exact hr.elim
    · simpa [setPc, hu] using hr
  candidate := by
    intro u g prev p rest next hpc
    by_cases hu : u = m.current
    · subst hu
      simp [setPc, hl] at hpc
    · simp only [setPc, Function.update_of_ne hu] at hpc ⊢
      exact absurd (h.running hpc (.inl ⟨_, _, _, rfl⟩)) (Ne.symm hu)
  chosen := by
    intro u g prev p w hpc
    by_cases hu : u = m.current
    · subst hu
      simp [setPc, hl] at hpc
    · simp only [setPc, Function.update_of_ne hu] at hpc ⊢
      exact absurd (h.running hpc (.inr ⟨_, _, rfl⟩)) (Ne.symm hu)

omit [DecidableEq T] [DecidableEq G] [Fintype G] in
theorem Ownership.of_threads {m m' : Machine T G} (h : Ownership idlethread m)
    (hs : m'.semaphores = m.semaphores) (hp : m'.pc = m.pc) (hc : m'.current = m.current)
    (hw : ∀ t g, (m'.threads t).waitingFor = some g → (m.threads t).waitingFor = some g) :
    Ownership idlethread m' where
  facts := by
    rw [hs, hp, hc]
    exact h.facts
  registered := by
    rw [hp]
    exact fun t g hg => h.registered t g (hw t g hg)
  candidate := by
    rw [hp]
    exact h.candidate
  chosen := by
    rw [hp]
    exact h.chosen

omit [Fintype G] in
theorem call_ownership {m : Machine T G} (h : Ownership idlethread m) (c : Call G)
    (ho : m.pc m.current = .outside) : Ownership idlethread (call idlethread threadList m c) := by
  cases c with
  | enter g =>
    simp only [call]
    split
    · exact setPc_ownership h _ ho (fun _ => trivial) (by simp)
    · exact h
  | leave g =>
    simp only [call]
    split
    · have hd : Ownership idlethread
          (noteDepth m m.current g (m.history.depth m.current g - 1)) :=
        h.of_threads rfl rfl rfl (fun _ _ hg => hg)
      exact setPc_ownership hd (.leaveCheck g) ho (fun _ => trivial) (by simp)
    · exact h
  | sleep time =>
    refine yield_ownership (h.of_threads rfl rfl rfl ?_) ?_
    · intro t g hg
      by_cases ht : t = m.current
      · subst ht; simp [setThread] at hg
      · simpa [setThread, ht] using hg
    · simp [setThread, ho, InWindow]

omit [DecidableEq G] [Fintype G] in
theorem resume_ownership {m : Machine T G} (h : Ownership idlethread m) (t : T) :
    Ownership idlethread (resume m t) :=
  h.of_threads rfl rfl rfl (fun _ _ hg => (resumeThread_waitingFor hg).2)

omit [DecidableEq T] [DecidableEq G] [Fintype G] in
theorem start_ownership {m : Machine T G} (h : Start idlethread m) : Ownership idlethread m := by
  obtain ⟨_, _, _, _, hpc, hwait, _, _, _⟩ := h
  constructor
  · intro t g
    rw [hpc]
    trivial
  · intro t g hg
    rw [hwait] at hg
    cases hg
  · intro t g prev p rest next hp
    rw [hpc] at hp
    cases hp
  · intro t g prev p w hp
    rw [hpc] at hp
    cases hp

end

end Rodos.SemaphoreOwnership
