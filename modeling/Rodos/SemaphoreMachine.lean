import Rodos.ThreadSelection

namespace Rodos.SemaphoreMachine

open ThreadSelection

variable {T G : Type}

structure Semaphore (T : Type) where
  owner : Option T
  ownerEnterCnt : Int
  ownerPriority : Int
  deriving DecidableEq, Repr

/-- The statements of `Semaphore::enter` inside its priority ceiling. The
ones of `Thread::suspendCallerUntil` carry the priority its own scope saved. -/
inductive EnterPc
  | setCeiling
  | test
  | boostTest
  | boost
  | loop
  | suspendRead
  | suspendCeiling (previous : Int)
  | suspendSignaler (previous : Int)
  | suspendTime (previous : Int)
  | suspendRestore (previous : Int)
  | suspendYield
  | suspendClear
  | resetCount
  | takeOwner
  | takePriority
  | takeCount
  | restore
  deriving DecidableEq, Repr

inductive LeavePc (T : Type)
  | setCeiling
  | clearOwner
  | readPriority
  | clearPriority (ownerPriority : Int)
  | find (ownerPriority : Int) (rest : List T) (next : T)
  | handOff (ownerPriority : Int) (waiter : T)
  | resumeSignaler (ownerPriority : Int) (waiter : T)
  | resumeTime (ownerPriority : Int) (waiter : T)
  | restore (ownerPriority : Int) (waiter : Option T)
  deriving DecidableEq, Repr

inductive Pc (T G : Type)
  | outside
  | enterPriority (g : G)
  | enterCeiling (g : G) (callerPriority : Int)
  | enter (g : G) (callerPriority previousPriority : Int) (at_ : EnterPc)
  | enterYield (g : G)
  | enterReturn (g : G)
  | leaveCheck (g : G)
  | leaveCount (g : G)
  | leaveTest (g : G)
  | leaveCeiling (g : G)
  | leave (g : G) (previousPriority : Int) (at_ : LeavePc T)
  | leavePriority (g : G) (ownerPriority : Int) (waiter : Option T)
  | leaveYieldTest (g : G) (waiter : Option T)
  | leaveYield
  | leaveReturn
  | fault
  deriving DecidableEq, Repr

/-- What has happened so far, for the statements about runs: the returned and
not yet matched calls of `enter`, the priority at the latest call made while
owning nothing, the priority at the latest call on each semaphore, and the
semaphore that was released last. -/
structure History (T G : Type) where
  depth : T → G → Nat
  base : T → Int
  entered : T → G → Int
  lastLeft : T → Option G

structure Machine (T G : Type) where
  threads : T → Thread G
  semaphores : G → Semaphore T
  pc : T → Pc T G
  current : T
  schedulerRunning : Bool
  scheduleCounter : Nat
  now : Int
  history : History T G

variable [DecidableEq T] [DecidableEq G]

def setPc (m : Machine T G) (t : T) (pc : Pc T G) : Machine T G :=
  { m with pc := Function.update m.pc t pc }

def setThread (m : Machine T G) (t : T) (f : Thread G → Thread G) : Machine T G :=
  { m with threads := Function.update m.threads t (f (m.threads t)) }

def setPriority (m : Machine T G) (t : T) (p : Int) : Machine T G :=
  setThread m t (fun th => { th with priority := p })

def setSemaphore (m : Machine T G) (g : G) (f : Semaphore T → Semaphore T) : Machine T G :=
  { m with semaphores := Function.update m.semaphores g (f (m.semaphores g)) }

def switchTo (m : Machine T G) (next : T) : Machine T G :=
  let counter := (m.scheduleCounter + 1) % 2 ^ 64
  { m with
    current := next
    scheduleCounter := counter
    threads := setActivation m.threads next counter }

def noteEntry [Fintype G] (m : Machine T G) (t : T) (g : G) : Machine T G :=
  let p := (m.threads t).priority
  let h := m.history
  { m with history := { h with
    base := if ∀ g, (m.semaphores g).owner ≠ some t then Function.update h.base t p else h.base
    entered := Function.update h.entered t (Function.update (h.entered t) g p) } }

def noteDepth (m : Machine T G) (t : T) (g : G) (n : Nat) : Machine T G :=
  { m with history := { m.history with
    depth := Function.update m.history.depth t (Function.update (m.history.depth t) g n) } }

def noteLeft (m : Machine T G) (t : T) (g : G) : Machine T G :=
  { m with history := { m.history with
    lastLeft := Function.update m.history.lastLeft t (some g) } }

def int32 (x : Int) : Int := Int.bmod x (2 ^ 32)

def occupied (m : Machine T G) (t : T) (g : G) : Prop :=
  (m.semaphores g).owner ≠ none ∧ (m.semaphores g).owner ≠ some t

instance (m : Machine T G) (t : T) (g : G) : Decidable (occupied m t g) := by
  unfold occupied
  infer_instance

section

variable (idlethread : T) (threadList : List T)

def nextToRun (m : Machine T G) : T :=
  (findNextToRun m.threads idlethread threadList m.now).1

/-- The processor goes to the selected thread. If the caller is selected it
returns at once. -/
def yield (m : Machine T G) : Machine T G :=
  if nextToRun idlethread threadList m = m.current then m
  else switchTo m (nextToRun idlethread threadList m)

def execEnter (m : Machine T G) (t : T) (g : G) (cp prev : Int) : EnterPc → Machine T G
  | .setCeiling => setPc (setPriority m t ceilingPriority) t (.enter g cp prev .test)
  | .test => setPc m t (.enter g cp prev (if occupied m t g then .boostTest else .takeOwner))
  | .boostTest =>
    match (m.semaphores g).owner with
    | some o =>
      setPc m t (.enter g cp prev (if (m.threads o).priority < cp then .boost else .loop))
    | none => setPc m t .fault
  | .boost =>
    match (m.semaphores g).owner with
    | some o => setPc (setPriority m o cp) t (.enter g cp prev .loop)
    | none => setPc m t .fault
  | .loop => setPc m t (.enter g cp prev (if occupied m t g then .suspendRead else .resetCount))
  | .suspendRead => setPc m t (.enter g cp prev (.suspendCeiling (m.threads t).priority))
  | .suspendCeiling p =>
    setPc (setPriority m t ceilingPriority) t (.enter g cp prev (.suspendSignaler p))
  | .suspendSignaler p =>
    setPc (setThread m t (fun th => { th with waitingFor := some g })) t
      (.enter g cp prev (.suspendTime p))
  | .suspendTime p =>
    setPc (setThread m t (fun th => { th with suspendedUntil := endOfTime })) t
      (.enter g cp prev (.suspendRestore p))
  | .suspendRestore p => setPc (setPriority m t p) t (.enter g cp prev .suspendYield)
  | .suspendYield => yield idlethread threadList (setPc m t (.enter g cp prev .suspendClear))
  | .suspendClear =>
    setPc (setThread m t (fun th => { th with waitingFor := none })) t (.enter g cp prev .loop)
  | .resetCount =>
    setPc (setSemaphore m g (fun s => { s with ownerEnterCnt := 0 })) t (.enter g cp prev .takeOwner)
  | .takeOwner =>
    setPc (setSemaphore m g (fun s => { s with owner := some t })) t (.enter g cp prev .takePriority)
  | .takePriority =>
    setPc (setSemaphore m g (fun s => { s with ownerPriority := cp })) t (.enter g cp prev .takeCount)
  | .takeCount =>
    setPc (setSemaphore m g (fun s => { s with ownerEnterCnt := int32 (s.ownerEnterCnt + 1) })) t
      (.enter g cp prev .restore)
  | .restore => setPc (setPriority m t prev) t (.enterYield g)

def execLeave (m : Machine T G) (t : T) (g : G) (prev : Int) : LeavePc T → Machine T G
  | .setCeiling => setPc (setPriority m t ceilingPriority) t (.leave g prev .clearOwner)
  | .clearOwner =>
    setPc (noteLeft (setSemaphore m g (fun s => { s with owner := none })) t g) t
      (.leave g prev .readPriority)
  | .readPriority => setPc m t (.leave g prev (.clearPriority (m.semaphores g).ownerPriority))
  | .clearPriority p =>
    setPc (setSemaphore m g (fun s => { s with ownerPriority := 0 })) t
      (.leave g prev (.find p threadList idlethread))
  | .find p [] next =>
    setPc m t (.leave g prev (if next = idlethread then .restore p none else .handOff p next))
  | .find p (iter :: rest) next =>
    setPc m t (.leave g prev (.find p rest (waiterStep m.threads g iter next)))
  | .handOff p w =>
    setPc (setSemaphore m g (fun s => { s with owner := some w })) t
      (.leave g prev (.resumeSignaler p w))
  | .resumeSignaler p w =>
    setPc (setThread m w (fun th => { th with waitingFor := none })) t
      (.leave g prev (.resumeTime p w))
  | .resumeTime p w =>
    setPc (setThread m w (fun th => { th with suspendedUntil := 0 })) t
      (.leave g prev (.restore p (some w)))
  | .restore p w => setPc (setPriority m t prev) t (.leavePriority g p w)

def execAt [Fintype G] (m : Machine T G) (t : T) : Pc T G → Machine T G
  | .outside => m
  | .enterPriority g => setPc (noteEntry m t g) t (.enterCeiling g (m.threads t).priority)
  | .enterCeiling g cp => setPc m t (.enter g cp (m.threads t).priority .setCeiling)
  | .enter g cp prev e => execEnter idlethread threadList m t g cp prev e
  | .enterYield g => yield idlethread threadList (setPc m t (.enterReturn g))
  | .enterReturn g => setPc (noteDepth m t g (m.history.depth t g + 1)) t .outside
  | .leaveCheck g =>
    setPc m t (if (m.semaphores g).owner ≠ some t then .outside else .leaveCount g)
  | .leaveCount g =>
    setPc (setSemaphore m g (fun s => { s with ownerEnterCnt := int32 (s.ownerEnterCnt - 1) })) t
      (.leaveTest g)
  | .leaveTest g =>
    setPc m t (if 0 < (m.semaphores g).ownerEnterCnt then .outside else .leaveCeiling g)
  | .leaveCeiling g => setPc m t (.leave g (m.threads t).priority .setCeiling)
  | .leave g prev l => execLeave idlethread threadList m t g prev l
  | .leavePriority g p w => setPc (setPriority m t p) t (.leaveYieldTest g w)
  | .leaveYieldTest g w =>
    setPc m t (if w ≠ none ∧ (m.semaphores g).ownerPriority = 0 then .leaveYield else .outside)
  | .leaveYield => yield idlethread threadList (setPc m t .leaveReturn)
  | .leaveReturn => setPc m t .outside
  | .fault => m

def exec [Fintype G] (m : Machine T G) : Machine T G :=
  execAt idlethread threadList m m.current (m.pc m.current)

end

inductive Call (G : Type)
  | enter (g : G)
  | leave (g : G)
  | sleep (reactivationTime : Int)
  deriving DecidableEq, Repr

/-- A thread that is in none of the two functions calls one of them, or
suspends itself for some other reason. -/
def call (idlethread : T) (threadList : List T) (m : Machine T G) : Call G → Machine T G
  | .enter g => if m.schedulerRunning then setPc m m.current (.enterPriority g) else m
  | .leave g =>
    if m.schedulerRunning then
      setPc (noteDepth m m.current g (m.history.depth m.current g - 1)) m.current (.leaveCheck g)
    else m
  | .sleep time =>
    yield idlethread threadList
      (setThread m m.current (fun th => { th with waitingFor := none, suspendedUntil := time }))

def resume (m : Machine T G) (t : T) : Machine T G :=
  { m with threads := resumeThread m.threads t }

def Start (idlethread : T) (m : Machine T G) : Prop :=
  m.schedulerRunning = true ∧ 0 < m.now ∧ m.now ≤ endOfTime ∧
    (m.threads idlethread).priority = 0 ∧ (∀ t, m.pc t = .outside) ∧
    (∀ t, (m.threads t).waitingFor = none) ∧
    (∀ g, (m.semaphores g).owner = none ∧ (m.semaphores g).ownerEnterCnt = 0) ∧
    (∀ t g, m.history.depth t g = 0) ∧ ∀ t, m.history.lastLeft t = none

end Rodos.SemaphoreMachine
