import Rodos.ThreadSelection

namespace Rodos.NextToRun

open ListScan ThreadSelection

variable {T G : Type}

def selectStepFromISR (th : T → Thread G) (timeNow : Int) (iter : T) : T × Int → T × Int
  | (next, sel) =>
    let iterSuspendedUntil := (th iter).suspendedUntil
    let iterPrio := (th iter).priority
    let nextThreadToRunPrio := (th next).priority
    if iterSuspendedUntil < timeNow then
      if iterPrio > nextThreadToRunPrio then (iter, sel)
      else if iterPrio = nextThreadToRunPrio then
        if (th iter).lastActivation < (th next).lastActivation then (iter, sel) else (next, sel)
      else (next, sel)
    else if iterPrio ≥ nextThreadToRunPrio then (next, earlier sel iterSuspendedUntil)
    else (next, sel)

def selectLoopFromISR (th : T → Thread G) (timeNow : Int) : List T → T × Int → T × Int
  | [], acc => acc
  | iter :: rest, acc => selectLoopFromISR th timeNow rest (selectStepFromISR th timeNow iter acc)

def findNextToRunFromISR (th : T → Thread G) (idlethread : T) (threadList : List T)
    (timeNow : Int) : T × Int :=
  selectLoopFromISR th timeNow threadList (idlethread, endOfTime)

def Ready (th : T → Thread G) (timeNow : Int) (t : T) : Prop := (th t).suspendedUntil < timeNow

structure Selects (th : T → Thread G) (threadList : List T) (timeNow : Int) (next : T)
    (selectedEarliestSuspendedUntil : Int) : Prop where
  mem : next ∈ threadList
  ready : Ready th timeNow next
  highest : ∀ t ∈ threadList, Ready th timeNow t → (th t).priority ≤ (th next).priority
  oldest : ∀ t ∈ threadList, Ready th timeNow t → (th t).priority = (th next).priority →
    (th next).lastActivation ≤ (th t).lastActivation
  wakeUp : ∀ t ∈ threadList, ¬Ready th timeNow t → (th next).priority ≤ (th t).priority →
    selectedEarliestSuspendedUntil ≤ (th t).suspendedUntil
  noted : selectedEarliestSuspendedUntil = endOfTime ∨
    ∃ t ∈ threadList, ¬Ready th timeNow t ∧ selectedEarliestSuspendedUntil = (th t).suspendedUntil

section

variable {th : T → Thread G} {timeNow : Int} {iter : T} {acc : T × Int}

theorem selectLoopFromISR_eq (ts : List T) (acc : T × Int) :
    selectLoopFromISR th timeNow ts acc = selectLoop th timeNow ts acc := by
  induction ts generalizing acc with
  | nil => rfl
  | cons iter rest ih =>
    rw [selectLoopFromISR, selectLoop, ih]
    rfl

theorem selectStep_notes (hnot : ¬Ready th timeNow iter)
    (hprio : (th acc.1).priority ≤ (th iter).priority) :
    (selectStep th timeNow iter acc).2 ≤ (th iter).suspendedUntil := by
  rw [Ready] at hnot
  unfold selectStep earlier
  dsimp only
  rw [if_neg hnot, if_pos hprio]
  dsimp only
  split
  · rename_i hlt
    exact hlt.le
  · exact le_refl _

theorem selectStep_snd :
    (selectStep th timeNow iter acc).2 = acc.2 ∨
      ¬Ready th timeNow iter ∧ (selectStep th timeNow iter acc).2 = (th iter).suspendedUntil := by
  rw [selectStep, earlier, Ready]
  grind

theorem selectLoop_grows (ts : List T) (acc : T × Int) :
    (th acc.1).priority ≤ (th (selectLoop th timeNow ts acc).1).priority ∧
      (selectLoop th timeNow ts acc).2 ≤ acc.2 := by
  induction ts generalizing acc with
  | nil => exact ⟨le_refl _, le_refl _⟩
  | cons iter rest ih =>
    obtain ⟨hprio, hsel⟩ := selectStep_grows th timeNow iter acc
    obtain ⟨hprio', hsel'⟩ := ih (selectStep th timeNow iter acc)
    exact ⟨hprio.trans hprio', hsel'.trans hsel⟩

/-- A thread that does not rank below the last candidate did not rank below the one of
its own round. -/
theorem selectLoop_notes {ts : List T} {t : T} (ht : t ∈ ts) (hnot : ¬Ready th timeNow t)
    (hprio : (th (selectLoop th timeNow ts acc).1).priority ≤ (th t).priority) :
    (selectLoop th timeNow ts acc).2 ≤ (th t).suspendedUntil := by
  induction ts generalizing acc with
  | nil => cases ht
  | cons iter rest ih =>
    rw [selectLoop] at hprio ⊢
    obtain rfl | ht := List.mem_cons.mp ht
    · have hgrows := @selectLoop_grows _ _ th timeNow (t :: rest) acc
      have hrest := @selectLoop_grows _ _ th timeNow rest (selectStep th timeNow t acc)
      exact hrest.2.trans (selectStep_notes hnot (hgrows.1.trans hprio))
    · exact ih ht hprio

theorem selectLoop_snd (ts : List T) (acc : T × Int) :
    (selectLoop th timeNow ts acc).2 = acc.2 ∨ ∃ t ∈ ts, ¬Ready th timeNow t ∧
      (selectLoop th timeNow ts acc).2 = (th t).suspendedUntil := by
  induction ts generalizing acc with
  | nil => exact .inl rfl
  | cons iter rest ih =>
    rw [selectLoop]
    obtain heq | ⟨t, ht, hnot, heq⟩ := ih (selectStep th timeNow iter acc)
    · rw [heq]
      obtain hsame | ⟨hnot, hnoted⟩ := @selectStep_snd _ _ th timeNow iter acc
      · exact .inl hsame
      · exact .inr ⟨iter, List.mem_cons_self, hnot, hnoted⟩
    · exact .inr ⟨t, List.mem_cons_of_mem iter ht, hnot, heq⟩

end

section

variable {th : T → Thread G} {idlethread : T} {threadList : List T} {timeNow : Int}

theorem findNextToRun_mem (hidle : idlethread ∈ threadList) (hready : Ready th timeNow idlethread) :
    (findNextToRun th idlethread threadList timeNow).1 ∈ threadList ∧
      Ready th timeNow (findNextToRun th idlethread threadList timeNow).1 := by
  have hmem := scan_mem (fun t => rank (th t)) idlethread
    (threadList.filter (fun t => decide ((th t).suspendedUntil < timeNow)))
  rw [← findNextToRun_fst] at hmem
  obtain heq | hmem := List.mem_cons.mp hmem
  · rw [heq]
    exact ⟨hidle, hready⟩
  · obtain ⟨hmem, hdecide⟩ := List.mem_filter.mp hmem
    exact ⟨hmem, by simpa [Ready] using hdecide⟩

/-- Both functions select a ready thread of the highest priority that has waited longest, and
a time that is not later than the end of any suspension that matters to it. -/
theorem findNextToRun_selects (hidle : idlethread ∈ threadList)
    (hready : Ready th timeNow idlethread) :
    Selects th threadList timeNow (findNextToRun th idlethread threadList timeNow).1
        (findNextToRun th idlethread threadList timeNow).2 ∧
      findNextToRunFromISR th idlethread threadList timeNow =
        findNextToRun th idlethread threadList timeNow := by
  obtain ⟨hmem, hnext⟩ := findNextToRun_mem hidle hready
  have hrank : ∀ t ∈ threadList, Ready th timeNow t →
      ¬rank (th (findNextToRun th idlethread threadList timeNow).1) < rank (th t) :=
    fun t ht hr => not_lt.mpr (rank_le_findNextToRun th idlethread threadList timeNow t ht hr)
  simp only [rank_lt_iff, not_or, not_and, not_lt] at hrank
  refine ⟨⟨hmem, hnext, ?_, ?_, ?_, ?_⟩, selectLoopFromISR_eq threadList (idlethread, endOfTime)⟩
  · intro t ht hr
    exact (hrank t ht hr).1
  · intro t ht hr heq
    exact (hrank t ht hr).2 heq.symm
  · intro t ht hnot hprio
    exact selectLoop_notes ht hnot hprio
  · exact selectLoop_snd threadList (idlethread, endOfTime)

end

/-- An idle thread, two threads of the same priority and a more important one that sleeps. -/
def fourThreads : Nat → Thread Unit
  | 0 => ⟨0, 0, 9, none⟩
  | 1 => ⟨5, 0, 3, none⟩
  | 2 => ⟨5, 0, 2, none⟩
  | _ => ⟨7, 40, 1, none⟩

theorem findNextToRun_selects_four :
    findNextToRun fourThreads 0 [0, 1, 2, 3] 10 = (2, 40) ∧ Selects fourThreads [0, 1, 2, 3] 10 2 40 :=
  ⟨by decide, (@findNextToRun_selects _ _ fourThreads 0 [0, 1, 2, 3] 10 (by decide)
    (show (fourThreads 0).suspendedUntil < 10 by decide)).1⟩

end Rodos.NextToRun
