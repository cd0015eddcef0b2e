import Rodos.ThreadSelection
import Rodos.TransitionSystem

namespace Rodos.DriverWakeups

open ThreadSelection TransitionSystem

inductive Kind
  | readFinished
  | writeFinished
  | dataReady
  deriving DecidableEq

/-- The call whose `yield` a thread has not come back from. -/
inductive Place (D : Type)
  | running
  | suspendUntil (k : Kind) (d : D)
  | suspendCallerUntil
  deriving DecidableEq

variable {T D G : Type}

/-- `caller` are the pointers to the registered threads, three at each driver. -/
structure System (T D G : Type) where
  threads : T → Thread G
  place : T → Place D
  caller : Kind → D → Option T
  now : Int

section Callers

variable [DecidableEq D] {s : System T D G} {k : Kind} {d : D}

def setCaller (s : System T D G) (k : Kind) (d : D) (t : Option T) : System T D G :=
  { s with caller := Function.update s.caller k (Function.update (s.caller k) d t) }

theorem setCaller_self (s : System T D G) (k : Kind) (d : D) (x : Option T) :
    (setCaller s k d x).caller k d = x := by
  simp [setCaller]

theorem setCaller_cases {x : Option T} {k' : Kind} {d' : D} {u : T}
    (h : (setCaller s k d x).caller k' d' = some u) :
    (k' = k ∧ d' = d ∧ x = some u) ∨ s.caller k' d' = some u := by
  by_cases hk : k' = k
  · subst hk
    by_cases hd : d' = d
    · subst hd
      rw [setCaller_self] at h
      exact .inl ⟨rfl, rfl, h⟩
    · simp only [setCaller, Function.update_self, Function.update_of_ne hd] at h
      exact .inr h
  · simp only [setCaller, Function.update_of_ne hk] at h
    exact .inr h

end Callers

variable [DecidableEq T]

def setThread (s : System T D G) (t : T) (place : Place D) (f : Thread G → Thread G) :
    System T D G :=
  { s with
    threads := Function.update s.threads t (f (s.threads t))
    place := Function.update s.place t place }

section Calls

variable [DecidableEq D]

/-- Whether the driver has finished is up to the driver. -/
def suspendUntil (k : Kind) (t : T) (d : D) (finished : Bool) (reactivationTime : Int)
    (s : System T D G) : System T D G :=
  if finished then s
  else setThread (setCaller s k d (some t)) t (.suspendUntil k d)
    fun th => { th with suspendedUntil := reactivationTime }

def suspendUntilReadFinished (t : T) (d : D) (isReadFinished : Bool) (reactivationTime : Int) :
    System T D G → System T D G :=
  suspendUntil .readFinished t d isReadFinished reactivationTime

def suspendUntilWriteFinished (t : T) (d : D) (isWriteFinished : Bool) (reactivationTime : Int) :
    System T D G → System T D G :=
  suspendUntil .writeFinished t d isWriteFinished reactivationTime

def suspendUntilDataReady (t : T) (d : D) (isDataReady : Bool) (reactivationTime : Int) :
    System T D G → System T D G :=
  suspendUntil .dataReady t d isDataReady reactivationTime

def upCall (k : Kind) (d : D) (s : System T D G) : System T D G :=
  let threads :=
    match s.caller k d with
    | none => s.threads
    | some t => resumeThread s.threads t
  setCaller { s with threads := threads } k d none

def upCallWriteFinished : D → System T D G → System T D G := upCall .writeFinished

def upCallReadFinished : D → System T D G → System T D G := upCall .readFinished

def upCallDataReady : D → System T D G → System T D G := upCall .dataReady

def suspendCallerUntil (t : T) (reactivationTime : Int) (signaler : Option G) (s : System T D G) :
    System T D G :=
  setThread s t .suspendCallerUntil
    fun th => { th with waitingFor := signaler, suspendedUntil := reactivationTime }

/-- `yield` comes back to a thread that is not suspended any more. -/
def comeBack (t : T) (s : System T D G) : System T D G :=
  match s.place t with
  | .suspendCallerUntil => setThread s t .running fun th => { th with waitingFor := none }
  | _ => setThread s t .running id

end Calls

/-- A semaphore makes its callers wait and resumes one of those that wait for it. -/
inductive Event (T D G : Type)
  | suspendUntilReadFinished (t : T) (d : D) (isReadFinished : Bool) (reactivationTime : Int)
  | suspendUntilWriteFinished (t : T) (d : D) (isWriteFinished : Bool) (reactivationTime : Int)
  | suspendUntilDataReady (t : T) (d : D) (isDataReady : Bool) (reactivationTime : Int)
  | suspendCallerUntil (t : T) (reactivationTime : Int)
  | enter (t : T) (semaphore : G)
  | leave (semaphore : G) (waiter : T)
  | comeBack (t : T)
  | upCallReadFinished (d : D)
  | upCallWriteFinished (d : D)
  | upCallDataReady (d : D)
  | elapse (now : Int)

def HitsWaiting (s : System T D G) : Prop :=
  ∀ k d t, s.caller k d = some t → s.place t = .suspendUntil k d

section Waiting

variable {s : System T D G} {t : T}

theorem HitsWaiting.setThread (h : HitsWaiting s)
    (hnot : ∀ k d, s.caller k d ≠ some t) (place : Place D) (f : Thread G → Thread G) :
    HitsWaiting (setThread s t place f) := by
  intro k d u hu
  change Function.update s.place t place u = _
  rw [Function.update_of_ne, h k d u hu]
  rintro rfl
  exact hnot k d hu

theorem HitsWaiting.suspendCallerUntil (h : HitsWaiting s) (hrunning : s.place t = .running)
    (reactivationTime : Int) (signaler : Option G) :
    HitsWaiting (suspendCallerUntil t reactivationTime signaler s) := by
  refine h.setThread (fun k d hcaller => ?_) _ _
  cases hrunning.symm.trans (h k d t hcaller)

theorem HitsWaiting.comeBack (h : HitsWaiting s)
    (hplace : ∀ k d, s.place t = .suspendUntil k d → s.caller k d ≠ some t) :
    HitsWaiting (comeBack t s) := by
  have hnot : ∀ k d, s.caller k d ≠ some t := fun k d hcaller =>
    hplace k d (h k d t hcaller) hcaller
  rw [DriverWakeups.comeBack]
  split <;> exact h.setThread hnot _ _

theorem not_hitsWaiting_comeBack {k : Kind} {d : D} (hcaller : s.caller k d = some t) :
    ¬HitsWaiting (comeBack t s) := by
  have hleft : ∀ f, ¬HitsWaiting (setThread s t .running f) := fun f h => by
    have hplace := h k d t hcaller
    change Function.update s.place t .running t = _ at hplace
    rw [Function.update_self] at hplace
    cases hplace
  rw [comeBack]
  split <;> exact hleft _

end Waiting

variable [DecidableEq D]

def step [DecidableEq G] : Event T D G → System T D G → Option (System T D G)
  | .suspendUntilReadFinished t d finished time, s =>
    if s.place t = .running then some (suspendUntilReadFinished t d finished time s) else none
  | .suspendUntilWriteFinished t d finished time, s =>
    if s.place t = .running then some (suspendUntilWriteFinished t d finished time s) else none
  | .suspendUntilDataReady t d finished time, s =>
    if s.place t = .running then some (suspendUntilDataReady t d finished time s) else none
  | .suspendCallerUntil t time, s =>
    if s.place t = .running then some (suspendCallerUntil t time none s) else none
  | .enter t semaphore, s =>
    if s.place t = .running then some (suspendCallerUntil t endOfTime (some semaphore) s) else none
  | .leave semaphore waiter, s =>
    if (s.threads waiter).waitingFor = some semaphore then
      some { s with threads := resumeThread s.threads waiter }
    else none
  | .comeBack t, s =>
    if s.place t ≠ .running ∧ (s.threads t).suspendedUntil < s.now then some (comeBack t s) else none
  | .upCallReadFinished d, s => some (upCallReadFinished d s)
  | .upCallWriteFinished d, s => some (upCallWriteFinished d s)
  | .upCallDataReady d, s => some (upCallDataReady d s)
  | .elapse now, s => if s.now ≤ now then some { s with now := now } else none

def Started (s : System T D G) : Prop :=
  (∀ t, s.place t = .running) ∧ ∀ k d, s.caller k d = none

/-- A thread does not come back from `suspendUntil` while it is still registered, as it
does when its reactivation time is reached. -/
def NotTimedOut : Event T D G → System T D G → Prop
  | .comeBack t, s =>
    match s.place t with
    | .suspendUntil k d => s.caller k d ≠ some t
    | _ => True
  | _, _ => True

section Invariant

variable {s : System T D G} {t : T}

theorem HitsWaiting.suspendUntil (h : HitsWaiting s) (hrunning : s.place t = .running) (k : Kind)
    (d : D) (finished : Bool) (reactivationTime : Int) :
    HitsWaiting (suspendUntil k t d finished reactivationTime s) := by
  rw [DriverWakeups.suspendUntil]
  split
  · exact h
  · intro k' d' u hu
    change Function.update s.place t (.suspendUntil k d) u = _
    obtain ⟨rfl, rfl, heq⟩ | hold := setCaller_cases hu
    · rw [← Option.some.inj heq, Function.update_self]
    · have hplace := h k' d' u hold
      rw [Function.update_of_ne, hplace]
      rintro rfl
      cases hrunning.symm.trans hplace

theorem HitsWaiting.upCall (h : HitsWaiting s) (k : Kind) (d : D) : HitsWaiting (upCall k d s) := by
  intro k' d' u hu
  obtain ⟨_, _, heq⟩ | hold := setCaller_cases hu
  · cases heq
  · exact h k' d' u hold

theorem upCall_threads_of_ne {k : Kind} {d : D} (h : s.caller k d ≠ some t) :
    (upCall k d s).threads t = s.threads t := by
  rw [DriverWakeups.upCall]
  cases hcaller : s.caller k d with
  | none => rfl
  | some u =>
    have hu : t ≠ u := by
      rintro rfl
      exact h hcaller
    exact Function.update_of_ne hu _ _

/-- Whoever an upcall resumes is inside of the matching call. -/
theorem HitsWaiting.resumed (h : HitsWaiting s) {k : Kind} {d : D}
    (hchanged : (DriverWakeups.upCall k d s).threads t ≠ s.threads t) :
    s.place t = .suspendUntil k d := by
  by_cases hcaller : s.caller k d = some t
  · exact h k d t hcaller
  · exact absurd (upCall_threads_of_ne hcaller) hchanged

theorem HitsWaiting.step [DecidableEq G] {e : Event T D G} {s' : System T D G} (h : HitsWaiting s)
    (hnot : NotTimedOut e s) (hstep : step e s = some s') : HitsWaiting s' := by
  cases e with
  | suspendUntilReadFinished t d finished time =>
    obtain ⟨hrunning, hcall⟩ := Option.ite_none_right_eq_some.mp hstep
    cases hcall
    exact h.suspendUntil hrunning .readFinished d finished time
  | suspendUntilWriteFinished t d finished time =>
    obtain ⟨hrunning, hcall⟩ := Option.ite_none_right_eq_some.mp hstep
    cases hcall
    exact h.suspendUntil hrunning .writeFinished d finished time
  | suspendUntilDataReady t d finished time =>
    obtain ⟨hrunning, hcall⟩ := Option.ite_none_right_eq_some.mp hstep
    cases hcall
    exact h.suspendUntil hrunning .dataReady d finished time
  | suspendCallerUntil t time =>
    obtain ⟨hrunning, hcall⟩ := Option.ite_none_right_eq_some.mp hstep
    cases hcall
    exact h.suspendCallerUntil hrunning time none
  | enter t semaphore =>
    obtain ⟨hrunning, hcall⟩ := Option.ite_none_right_eq_some.mp hstep
    cases hcall
    exact h.suspendCallerUntil hrunning endOfTime (some semaphore)
  | leave semaphore waiter =>
    obtain ⟨_, hcall⟩ := Option.ite_none_right_eq_some.mp hstep
    cases hcall
    exact h
  | comeBack t =>
    obtain ⟨_, hcall⟩ := Option.ite_none_right_eq_some.mp hstep
    cases hcall
    refine h.comeBack fun k d hplace => ?_
    rw [NotTimedOut, hplace] at hnot
    exact hnot
  | upCallReadFinished d =>
    cases hstep
    exact h.upCall .readFinished d
  | upCallWriteFinished d =>
    cases hstep
    exact h.upCall .writeFinished d
  | upCallDataReady d =>
    cases hstep
    exact h.upCall .dataReady d
  | elapse now =>
    obtain ⟨_, hcall⟩ := Option.ite_none_right_eq_some.mp hstep
    cases hcall
    exact h

end Invariant

variable [DecidableEq G]

/-- Upcalls hit only waiting threads until a thread comes back that is still registered,
and no longer. -/
theorem upCalls_hit_waiting {s : System T D G} (h : ReachableUnder Started step NotTimedOut s) :
    HitsWaiting s ∧
      (∀ k d t, (upCall k d s).threads t ≠ s.threads t → s.place t = .suspendUntil k d) ∧
      ∀ e s', step e s = some s' → (HitsWaiting s' ↔ NotTimedOut e s) := by
  have hwaiting : HitsWaiting s := by
    refine h.invariant HitsWaiting ?_ ?_
    · rintro s ⟨_, hnone⟩ k d t hcaller
      cases (hnone k d).symm.trans hcaller
    · intro e s s' hinv hnot hstep
      exact hinv.step hnot hstep
  refine ⟨hwaiting, fun k d t hchanged => hwaiting.resumed hchanged, ?_⟩
  refine fun e s' hstep => ⟨fun hafter => ?_, fun hnot => hwaiting.step hnot hstep⟩
  cases e with
  | comeBack t =>
    obtain ⟨_, hcall⟩ := Option.ite_none_right_eq_some.mp hstep
    cases hcall
    rw [NotTimedOut]
    split
    · exact fun hcaller => not_hitsWaiting_comeBack hcaller hafter
    · trivial
  | _ => trivial

instance (e : Event T D G) (s : System T D G) : Decidable (NotTimedOut e s) := by
  unfold NotTimedOut
  split
  · split <;> infer_instance
  · infer_instance

def single : System Unit Unit Unit where
  threads := fun _ => ⟨0, 0, 0, none⟩
  place := fun _ => .running
  caller := fun _ _ => none
  now := 1

theorem started_single : Started single := ⟨fun _ => rfl, fun _ _ => rfl⟩

/-- The driver is ready before the reactivation time, and the thread waits for a
semaphore afterwards. -/
theorem upCalls_hit_waiting_single :
    ∃ s : System Unit Unit Unit, s.place () = .suspendCallerUntil ∧
      (s.threads ()).suspendedUntil = endOfTime ∧ HitsWaiting s := by
  obtain ⟨s, hs, hplace, htime⟩ := exists_reachable Started step NotTimedOut single started_single
    [.suspendUntilReadFinished () () false 10, .upCallReadFinished (), .comeBack (), .enter () (),
      .elapse 11, .upCallReadFinished ()]
    (fun s => s.place () = .suspendCallerUntil ∧ (s.threads ()).suspendedUntil = endOfTime)
    (by decide +kernel)
  exact ⟨s, hplace, htime, (upCalls_hit_waiting hs).1⟩

/-- The thread has timed out and waits for a semaphore when the driver is ready. -/
theorem upCall_hits_other_wait :
    ∃ s : System Unit Unit Unit, Reachable Started step s ∧ ¬HitsWaiting s ∧
      s.place () = .suspendCallerUntil ∧ (s.threads ()).suspendedUntil = endOfTime ∧
      ((upCallReadFinished () s).threads ()).suspendedUntil = 0 := by
  obtain ⟨s, hs, hcaller, hplace, htime, hwoken⟩ := exists_reachable Started step (fun _ _ => True)
    single started_single
    [.suspendUntilReadFinished () () false 10, .elapse 11, .comeBack (), .enter () ()]
    (fun s => s.caller .readFinished () = some () ∧ s.place () = .suspendCallerUntil ∧
      (s.threads ()).suspendedUntil = endOfTime ∧
      ((upCallReadFinished () s).threads ()).suspendedUntil = 0) (by decide +kernel)
  refine ⟨s, hs, fun hwaiting => ?_, hplace, htime, hwoken⟩
  cases hplace.symm.trans (hwaiting .readFinished () () hcaller)

end Rodos.DriverWakeups
