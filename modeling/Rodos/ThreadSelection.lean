import Rodos.ListScan

namespace Rodos.ThreadSelection

open ListScan

def endOfTime : Int := 2 ^ 63 - 1

def maxThreadPriority : Int := 1000

def networkreaderPriority : Int := maxThreadPriority + 2

def ceilingPriority : Int := networkreaderPriority + 1

/-- The fields of a thread that the scheduler, `resume` and the semaphores
read and write. A signaler is an address, so its type is a parameter. -/
structure Thread (G : Type) where
  priority : Int
  suspendedUntil : Int
  lastActivation : Nat
  waitingFor : Option G
  deriving DecidableEq, Repr

variable {T G : Type}

section

variable [DecidableEq T]

def setActivation (th : T → Thread G) (t : T) (stamp : Nat) : T → Thread G :=
  Function.update th t { th t with lastActivation := stamp }

def deactivate (th : T → Thread G) (t : T) : T → Thread G :=
  Function.update th t { th t with suspendedUntil := endOfTime }

/-- The stores of `Thread::resume` to the thread itself. -/
def resumeThread (th : T → Thread G) (t : T) : T → Thread G :=
  Function.update th t { th t with waitingFor := none, suspendedUntil := 0 }

theorem update_field {F : Type} (f : Thread G → F) (th : T → Thread G) (t u : T) (v : Thread G)
    (hv : f v = f (th t)) : f (Function.update th t v u) = f (th u) := by
  by_cases h : u = t
  · rw [h, Function.update_self, hv]
  · rw [Function.update_of_ne h]

@[simp] theorem setActivation_stamp (th : T → Thread G) (t u : T) (stamp : Nat) :
    (setActivation th t stamp u).lastActivation =
      if u = t then stamp else (th u).lastActivation := by
  rw [setActivation]
  split
  · next h => rw [h, Function.update_self]
  · next h => rw [Function.update_of_ne h]

@[simp] theorem setActivation_priority (th : T → Thread G) (t u : T) (stamp : Nat) :
    (setActivation th t stamp u).priority = (th u).priority :=
  update_field Thread.priority th t u _ rfl

@[simp] theorem setActivation_suspendedUntil (th : T → Thread G) (t u : T) (stamp : Nat) :
    (setActivation th t stamp u).suspendedUntil = (th u).suspendedUntil :=
  update_field Thread.suspendedUntil th t u _ rfl

@[simp] theorem setActivation_waitingFor (th : T → Thread G) (t u : T) (stamp : Nat) :
    (setActivation th t stamp u).waitingFor = (th u).waitingFor :=
  update_field Thread.waitingFor th t u _ rfl

@[simp] theorem resumeThread_priority (th : T → Thread G) (t u : T) :
    (resumeThread th t u).priority = (th u).priority :=
  update_field Thread.priority th t u _ rfl

theorem resumeThread_waitingFor {th : T → Thread G} {t u : T} {g : G}
    (h : (resumeThread th t u).waitingFor = some g) : u ≠ t ∧ (th u).waitingFor = some g := by
  by_cases hu : u = t
  · subst hu; simp [resumeThread] at h
  · simpa [resumeThread, hu] using h

end

def earlier (a b : Int) : Int := if a < b then a else b

/-- One round of the loop of `findNextToRun`, on the candidate and on the
earliest wake-up time found so far. -/
def selectStep (th : T → Thread G) (timeNow : Int) (iter : T) : T × Int → T × Int
  | (next, sel) =>
    if (th iter).suspendedUntil < timeNow then
      if (th iter).priority > (th next).priority then (iter, sel)
      else if (th iter).priority = (th next).priority then
        if (th iter).lastActivation < (th next).lastActivation then (iter, sel) else (next, sel)
      else (next, sel)
    else if (th iter).priority ≥ (th next).priority then
      (next, earlier sel (th iter).suspendedUntil)
    else (next, sel)

def selectLoop (th : T → Thread G) (timeNow : Int) : List T → T × Int → T × Int
  | [], acc => acc
  | iter :: rest, acc => selectLoop th timeNow rest (selectStep th timeNow iter acc)

/-- The thread to run next and the earliest time at which a thread of at
least its priority wakes up. The interrupt version of the source differs
only in how it loads the same fields. -/
def findNextToRun (th : T → Thread G) (idlethread : T) (threadList : List T) (timeNow : Int) :
    T × Int :=
  selectLoop th timeNow threadList (idlethread, endOfTime)

def waiterStep [DecidableEq G] (th : T → Thread G) (signaler : G) (iter next : T) : T :=
  if (th iter).waitingFor = some signaler then
    if (th iter).priority > (th next).priority then iter
    else if (th iter).priority = (th next).priority then
      if (th iter).lastActivation < (th next).lastActivation then iter else next
    else next
  else next

def waiterLoop [DecidableEq G] (th : T → Thread G) (signaler : G) : List T → T → T
  | [], next => next
  | iter :: rest, next => waiterLoop th signaler rest (waiterStep th signaler iter next)

def findNextWaitingFor [DecidableEq T] [DecidableEq G] (th : T → Thread G) (idlethread : T)
    (threadList : List T) (signaler : G) : Option T :=
  let next := waiterLoop th signaler threadList idlethread
  if next = idlethread then none else some next

/-- The order both searches maximise: a larger priority first, and among
equal priorities the smaller activation stamp. -/
def rank (t : Thread G) : Int ×ₗ ℕᵒᵈ := toLex (t.priority, OrderDual.toDual t.lastActivation)

theorem rank_lt_iff (a b : Thread G) :
    rank a < rank b ↔ a.priority < b.priority ∨
      a.priority = b.priority ∧ b.lastActivation < a.lastActivation := by
  simp only [rank, Prod.Lex.toLex_lt_toLex, OrderDual.toDual_lt_toDual]

theorem selectStep_fst (th : T → Thread G) (timeNow : Int) (iter next : T) (sel : Int) :
    (selectStep th timeNow iter (next, sel)).1 =
      if (th iter).suspendedUntil < timeNow ∧ rank (th next) < rank (th iter) then iter else next := by
  simp only [rank_lt_iff]
  rw [selectStep]
  grind

theorem selectStep_grows (th : T → Thread G) (timeNow : Int) (iter : T) (acc : T × Int) :
    (th acc.1).priority ≤ (th (selectStep th timeNow iter acc).1).priority ∧
      (selectStep th timeNow iter acc).2 ≤ acc.2 := by
  rw [selectStep, earlier]
  grind

/-- A thread that has been looked at either does not outrank the candidate
or its wake-up time is not before the earliest one noted. -/
theorem selectStep_covers (th : T → Thread G) (timeNow : Int) (iter : T) (acc : T × Int) :
    (th iter).priority ≤ (th (selectStep th timeNow iter acc).1).priority ∨
      (selectStep th timeNow iter acc).2 ≤ (th iter).suspendedUntil := by
  rw [selectStep, earlier]
  grind

theorem selectLoop_fst (th : T → Thread G) (timeNow : Int) (ts : List T) (next : T) (sel : Int) :
    (selectLoop th timeNow ts (next, sel)).1 =
      scan (fun t => rank (th t)) next
        (ts.filter (fun t => decide ((th t).suspendedUntil < timeNow))) := by
  induction ts generalizing next sel with
  | nil => rfl
  | cons iter rest ih =>
    have hstep := selectStep_fst th timeNow iter next sel
    rw [selectLoop, ← Prod.mk.eta (p := selectStep th timeNow iter (next, sel)), ih, hstep]
    by_cases hr : (th iter).suspendedUntil < timeNow <;> simp [hr, scan]

theorem findNextToRun_fst (th : T → Thread G) (idlethread : T) (threadList : List T)
    (timeNow : Int) :
    (findNextToRun th idlethread threadList timeNow).1 =
      scan (fun t => rank (th t)) idlethread
        (threadList.filter (fun t => decide ((th t).suspendedUntil < timeNow))) :=
  selectLoop_fst th timeNow threadList idlethread endOfTime

theorem rank_le_findNextToRun (th : T → Thread G) (idlethread : T) (threadList : List T)
    (timeNow : Int) (t : T) (ht : t ∈ threadList) (hready : (th t).suspendedUntil < timeNow) :
    rank (th t) ≤ rank (th (findNextToRun th idlethread threadList timeNow).1) := by
  rw [findNextToRun_fst]
  apply le_scan (fun t => rank (th t))
  simp [ht, hready]

theorem waiterStep_eq [DecidableEq G] (th : T → Thread G) (signaler : G) (iter next : T) :
    waiterStep th signaler iter next =
      if (th iter).waitingFor = some signaler ∧ rank (th next) < rank (th iter)
        then iter else next := by
  simp only [rank_lt_iff]
  rw [waiterStep]
  grind

theorem waiterLoop_eq [DecidableEq G] (th : T → Thread G) (signaler : G) (ts : List T) (next : T) :
    waiterLoop th signaler ts next =
      scan (fun t => rank (th t)) next
        (ts.filter (fun t => decide ((th t).waitingFor = some signaler))) := by
  induction ts generalizing next with
  | nil => rfl
  | cons iter rest ih =>
    rw [waiterLoop, ih, waiterStep_eq]
    by_cases hw : (th iter).waitingFor = some signaler <;> simp [hw, scan]

/-- The search reads only the idle thread and the threads that wait. -/
theorem waiterLoop_congr [DecidableEq G] {th th' : T → Thread G} {signaler : G}
    (hw : ∀ t, (th' t).waitingFor = (th t).waitingFor)
    (hth : ∀ t, (th t).waitingFor = some signaler → th' t = th t) (ts : List T) (next : T)
    (hnext : th' next = th next) :
    waiterLoop th' signaler ts next = waiterLoop th signaler ts next := by
  induction ts generalizing next with
  | nil => rfl
  | cons iter rest ih =>
    have hstep : waiterStep th' signaler iter next = waiterStep th signaler iter next := by
      rw [waiterStep_eq, waiterStep_eq, hw, hnext]
      by_cases hi : (th iter).waitingFor = some signaler
      · rw [hth iter hi]
      · simp [hi]
    rw [waiterLoop, waiterLoop, hstep]
    refine ih _ ?_
    rw [waiterStep_eq]
    split
    · next hc => exact hth iter hc.1
    · exact hnext

theorem waiterLoop_waits [DecidableEq G] (th : T → Thread G) (signaler : G) (ts : List T) (next : T)
    (h : waiterLoop th signaler ts next ≠ next) :
    (th (waiterLoop th signaler ts next)).waitingFor = some signaler := by
  have hm := scan_mem (fun t => rank (th t)) next
    (ts.filter (fun t => decide ((th t).waitingFor = some signaler)))
  rw [← waiterLoop_eq] at hm
  simpa using (List.mem_filter.mp ((List.mem_cons.mp hm).resolve_left h)).2

theorem findNextWaitingFor_spec [DecidableEq T] [DecidableEq G] {th : T → Thread G} {idlethread : T}
    {threadList : List T} {signaler : G} (hlist : ∀ t, t ∈ threadList)
    (hrank : ∀ t, (th t).waitingFor = some signaler → rank (th idlethread) < rank (th t))
    {t : T} (ht : (th t).waitingFor = some signaler) :
    ∃ w, findNextWaitingFor th idlethread threadList signaler = some w ∧
      Leads (fun t => rank (th t))
        (threadList.filter (fun t => decide ((th t).waitingFor = some signaler))) w := by
  obtain ⟨before, after, he, hb, ha⟩ := scan_leads (fun t => rank (th t)) idlethread
    (threadList.filter (fun t => decide ((th t).waitingFor = some signaler)))
  have hle := le_scan (fun t => rank (th t)) idlethread
    (threadList.filter (fun t => decide ((th t).waitingFor = some signaler))) t
    (List.mem_cons_of_mem _ (by simp [hlist, ht]))
  rw [← waiterLoop_eq] at he hb ha hle
  have hne : waiterLoop th signaler threadList idlethread ≠ idlethread := by
    intro hi
    rw [hi] at hle
    exact absurd (hrank t ht) (not_lt.mpr hle)
  cases before with
  | nil =>
    rw [List.nil_append, List.cons.injEq] at he
    exact absurd he.1.symm hne
  | cons b before =>
    rw [List.cons_append, List.cons.injEq] at he
    refine ⟨_, ?_, before, after, he.2, fun u hu => hb u (List.mem_cons_of_mem _ hu), ha⟩
    simp [findNextWaitingFor, hne]

theorem findNextWaitingFor_waits [DecidableEq T] [DecidableEq G] {th : T → Thread G}
    {idlethread w : T} {threadList : List T} {signaler : G}
    (h : findNextWaitingFor th idlethread threadList signaler = some w) :
    w ≠ idlethread ∧ (th w).waitingFor = some signaler := by
  rw [findNextWaitingFor] at h
  simp only [Option.ite_none_left_eq_some, Option.some.injEq] at h
  obtain ⟨hne, rfl⟩ := h
  exact ⟨hne, waiterLoop_waits th signaler threadList idlethread hne⟩

end Rodos.ThreadSelection
