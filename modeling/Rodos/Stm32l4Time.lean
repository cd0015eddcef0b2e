import Rodos.MachineInt
import Rodos.TransitionSystem

namespace Rodos.Stm32l4Time

open MachineInt TransitionSystem

def interruptFreq : Nat := 100

def clockFreq : Nat := 1000000

def reloadValue : Nat := clockFreq / interruptFreq

def clockPeriodNanosec : Int := 1000000000 / clockFreq

def interruptPeriodNanosec : Int := 1000000000 / interruptFreq

/-- The access of `getNanoTime` that comes next. `at_` are the ticks at the moment when
the counter was read. -/
inductive Pc
  | idle
  | readTime
  | readCount (returnTime : Int)
  | compare (returnTime : Int) (count at_ : Nat)

/-- A value that `getNanoTime` has returned, and the ticks at the moment when it read
the counter. -/
structure Reading where
  ticks : Nat
  value : Int
  deriving DecidableEq

/-- The timer counts `cnt`, its interrupt is pending or not. -/
structure System where
  ticks : Nat
  cnt : Nat
  pending : Bool
  nanoTime : Int
  pc : Pc
  returned : List Reading

inductive Event
  | tick
  | interrupt
  | call
  | caller

/-- Without a drift. -/
def irqHandler (nanoTime : Int) : Int := int64 (nanoTime + interruptPeriodNanosec)

def passedTime (count : Nat) : Int := count * clockPeriodNanosec

def getNanoTimeStep (s : System) : Option System :=
  match s.pc with
  | .idle => none
  | .readTime => some { s with pc := .readCount s.nanoTime }
  | .readCount returnTime => some { s with pc := .compare returnTime s.cnt s.ticks }
  | .compare returnTime count at_ =>
    if returnTime ≠ s.nanoTime then some { s with pc := .readTime }
    else some { s with
      pc := .idle
      returned := s.returned ++ [⟨at_, int64 (returnTime + passedTime count)⟩] }

/-- The timer counts up to the value in its register, and the interrupt is handled
before the next one comes. -/
def step : Event → System → Option System
  | .tick, s =>
    if s.cnt = reloadValue then
      if s.pending then none
      else some { s with ticks := s.ticks + 1, cnt := 0, pending := true }
    else some { s with ticks := s.ticks + 1, cnt := s.cnt + 1 }
  | .interrupt, s =>
    if s.pending then some { s with pending := false, nanoTime := irqHandler s.nanoTime } else none
  | .call, s =>
    match s.pc with
    | .idle => some { s with pc := .readTime }
    | _ => none
  | .caller, s => getNanoTimeStep s

def started : System where
  ticks := 0
  cnt := 0
  pending := false
  nanoTime := 0
  pc := .idle
  returned := []

structure ExactClock (s : System) : Prop where
  exact : ∀ r ∈ s.returned, r.value = r.ticks * clockPeriodNanosec
  monotone : (s.returned.map Reading.value).Pairwise (· ≤ ·)

section Invariant

/-- An update of the timer comes every `reloadValue + 1` ticks. -/
def updates (ticks : Nat) : Nat := ticks / (reloadValue + 1)

theorem reloadValue_eq : reloadValue = 10000 := rfl

theorem clockPeriodNanosec_eq : clockPeriodNanosec = 1000 := by decide

theorem interruptPeriodNanosec_eq : interruptPeriodNanosec = 10000000 := by decide

theorem updates_wrap {n : Nat} (h : n % (reloadValue + 1) = reloadValue) :
    (n + 1) % (reloadValue + 1) = 0 ∧ updates (n + 1) = updates n + 1 := by
  unfold updates
  rw [reloadValue_eq] at *
  omega

theorem updates_count {n : Nat} (h : n % (reloadValue + 1) ≠ reloadValue) :
    (n + 1) % (reloadValue + 1) = n % (reloadValue + 1) + 1 ∧ updates (n + 1) = updates n := by
  unfold updates
  rw [reloadValue_eq] at *
  omega

def Base (ticks : Nat) (time : Int) : Prop :=
  ∃ handled : Nat, handled ≤ updates ticks ∧ time = int64 (handled * interruptPeriodNanosec)

def Result (r : Reading) : Prop :=
  ∃ base, Base r.ticks base ∧ r.value = int64 (base + passedTime (r.ticks % (reloadValue + 1)))

def CallerOk (s : System) : Prop :=
  match s.pc with
  | .idle | .readTime => True
  | .readCount returnTime => Base s.ticks returnTime
  | .compare returnTime count at_ =>
    Base at_ returnTime ∧ count = at_ % (reloadValue + 1) ∧ at_ ≤ s.ticks ∧
      ∀ r ∈ s.returned, r.ticks ≤ at_

structure Inv (s : System) : Prop where
  cnt : s.cnt = s.ticks % (reloadValue + 1)
  base : ∃ handled : Nat, handled + s.pending.toNat = updates s.ticks ∧
    s.nanoTime = int64 (handled * interruptPeriodNanosec)
  caller : CallerOk s
  result : ∀ r ∈ s.returned, Result r
  before : ∀ r ∈ s.returned, r.ticks ≤ s.ticks
  inOrder : (s.returned.map Reading.ticks).Pairwise (· ≤ ·)

theorem Base.mono {n m : Nat} {time : Int} (h : Base n time) (hle : n ≤ m) : Base m time := by
  obtain ⟨handled, hhandled, htime⟩ := h
  exact ⟨handled, hhandled.trans (Nat.div_le_div_right hle), htime⟩

variable {s t : System}

theorem CallerOk.mono (h : CallerOk s) (hpc : t.pc = s.pc) (hreturned : t.returned = s.returned)
    (hticks : s.ticks ≤ t.ticks) : CallerOk t := by
  rw [CallerOk] at h ⊢
  rw [hpc, hreturned]
  split at h
  · trivial
  · trivial
  · exact h.mono hticks
  · exact ⟨h.1, h.2.1, h.2.2.1.trans hticks, h.2.2.2⟩

theorem inv_started : Inv started where
  cnt := rfl
  base := ⟨0, rfl, rfl⟩
  caller := trivial
  result := nofun
  before := nofun
  inOrder := .nil

theorem Inv.tick (h : Inv s) (hstep : step .tick s = some t) : Inv t := by
  obtain ⟨handled, hhandled, htime⟩ := h.base
  have hbefore : ∀ r ∈ s.returned, r.ticks ≤ s.ticks + 1 := fun r hr =>
    Nat.le_succ_of_le (h.before r hr)
  rw [step] at hstep
  split at hstep
  · rename_i hwrap
    obtain ⟨hcnt, hupdates⟩ := updates_wrap (h.cnt.symm.trans hwrap)
    split at hstep
    · cases hstep
    · rename_i hpending
      cases hstep
      rw [Bool.not_eq_true] at hpending
      rw [hpending] at hhandled
      refine ⟨hcnt.symm, ⟨handled, ?_, htime⟩, h.caller.mono rfl rfl (Nat.le_succ _), h.result, hbefore,
        h.inOrder⟩
      rw [hupdates, ← hhandled]
      rfl
  · rename_i hcount
    obtain ⟨hcnt, hupdates⟩ := updates_count (h.cnt ▸ hcount)
    cases hstep
    refine ⟨?_, ⟨handled, ?_, htime⟩, h.caller.mono rfl rfl (Nat.le_succ _), h.result, hbefore, h.inOrder⟩
    · rw [hcnt, h.cnt]
    · rw [hupdates, hhandled]

theorem Inv.interrupt (h : Inv s) (hstep : step .interrupt s = some t) : Inv t := by
  obtain ⟨handled, hhandled, htime⟩ := h.base
  obtain ⟨hpending, hirq⟩ := Option.ite_none_right_eq_some.mp hstep
  cases hirq
  refine ⟨h.cnt, ⟨handled + 1, ?_, ?_⟩, h.caller.mono rfl rfl (Nat.le_refl _), h.result, h.before,
    h.inOrder⟩
  · rw [← hhandled, hpending]
    rfl
  · rw [irqHandler, htime, int64_add, Nat.cast_add, Nat.cast_one, add_one_mul]

theorem Inv.caller_step (h : Inv s) (hstep : getNanoTimeStep s = some t) : Inv t := by
  obtain ⟨handled, hhandled, htime⟩ := h.base
  have hcaller := h.caller
  cases hpc : s.pc with
  | idle =>
    rw [getNanoTimeStep, hpc] at hstep
    cases hstep
  | readTime =>
    rw [getNanoTimeStep, hpc] at hstep
    cases hstep
    exact ⟨h.cnt, ⟨handled, hhandled, htime⟩, ⟨handled, Nat.le.intro hhandled, htime⟩, h.result,
      h.before, h.inOrder⟩
  | readCount returnTime =>
    rw [CallerOk, hpc] at hcaller
    rw [getNanoTimeStep, hpc] at hstep
    cases hstep
    exact ⟨h.cnt, ⟨handled, hhandled, htime⟩, ⟨hcaller, h.cnt, Nat.le_refl _, h.before⟩,
      h.result, h.before, h.inOrder⟩
  | compare returnTime count at_ =>
    rw [CallerOk, hpc] at hcaller
    obtain ⟨hbase, rfl, hat, hlast⟩ := hcaller
    rw [getNanoTimeStep, hpc] at hstep
    dsimp only at hstep
    split at hstep
    · cases hstep
      exact ⟨h.cnt, ⟨handled, hhandled, htime⟩, trivial, h.result, h.before, h.inOrder⟩
    · cases hstep
      refine ⟨h.cnt, ⟨handled, hhandled, htime⟩, trivial, ?_, ?_, ?_⟩
      · exact forall_mem_record h.result ⟨returnTime, hbase, rfl⟩
      · exact forall_mem_record h.before hat
      · exact pairwise_record h.inOrder hlast

theorem Inv.step {e : Event} (h : Inv s) (hstep : step e s = some t) : Inv t := by
  cases e with
  | tick => exact h.tick hstep
  | interrupt => exact h.interrupt hstep
  | call =>
    rw [Stm32l4Time.step] at hstep
    split at hstep
    · cases hstep
      exact ⟨h.cnt, h.base, trivial, h.result, h.before, h.inOrder⟩
    · cases hstep
  | caller => exact h.caller_step hstep

theorem Result.exact_iff {r : Reading} (h : Result r) :
    r.value = r.ticks * clockPeriodNanosec ↔ r.ticks ≤ reloadValue := by
  obtain ⟨base, ⟨handled, hhandled, hbase⟩, hvalue⟩ := h
  rw [hvalue, hbase, int64_add]
  unfold passedTime updates at *
  rw [reloadValue_eq] at *
  rw [clockPeriodNanosec_eq, interruptPeriodNanosec_eq]
  constructor
  · intro hexact
    have hle := int64_le (x := handled * 10000000 + ↑(r.ticks % (10000 + 1)) * 1000) (by omega)
    omega
  · intro hfirst
    rw [int64_eq (by omega) (by omega)]
    omega

theorem Inv.exact_iff (h : Inv s) :
    ExactClock s ↔ ∀ r ∈ s.returned, r.ticks ≤ reloadValue := by
  constructor
  · intro hexact r hr
    exact (h.result r hr).exact_iff.mp (hexact.exact r hr)
  · intro hfirst
    have hexact : ∀ r ∈ s.returned, r.value = r.ticks * clockPeriodNanosec := fun r hr =>
      (h.result r hr).exact_iff.mpr (hfirst r hr)
    refine ⟨hexact, pairwise_value h.inOrder fun r hr r' hr' hle => ?_⟩
    rw [hexact r hr, hexact r' hr', clockPeriodNanosec_eq]
    omega

end Invariant

theorem inv_of_reachable {s : System} (h : Reachable (fun s => s = started) step s) : Inv s := by
  refine h.invariant Inv ?_ ?_
  · rintro s rfl
    exact inv_started
  · intro e s t hinv _ hstep
    exact hinv.step hstep

/-- The clock is exact as long as no call reads the counter after the first update. -/
theorem exactClock_iff {s : System} (h : Reachable (fun s => s = started) step s) :
    ExactClock s ↔ ∀ r ∈ s.returned, r.ticks ≤ reloadValue :=
  (inv_of_reachable h).exact_iff

theorem exactClock_iff_two :
    ∃ s : System, s.returned = [⟨1, 1000⟩, ⟨2, 2000⟩] ∧ ExactClock s := by
  obtain ⟨s, hs, hreturned⟩ := exists_reachable (fun s => s = started) step (fun _ _ => True)
    started rfl
    [.tick, .call, .caller, .caller, .caller, .call, .caller, .tick, .caller, .tick, .caller]
    (fun s => s.returned = [⟨1, 1000⟩, ⟨2, 2000⟩]) (by decide +kernel)
  refine ⟨s, hreturned, (exactClock_iff hs).mpr ?_⟩
  rw [hreturned]
  decide

theorem reachable_ticks {n : Nat} (hn : n ≤ reloadValue) :
    Reachable (fun s => s = started) step { started with ticks := n, cnt := n } := by
  induction n with
  | zero => exact .start rfl
  | succ n ih =>
    refine (ih (Nat.le_of_succ_le hn)).step (e := .tick) trivial ?_
    exact if_neg (Nat.ne_of_lt hn)

/-- The first update has been handled at once, and the clock is one tick late. -/
theorem clock_late :
    ∃ s : System, Reachable (fun s => s = started) step s ∧ s.returned = [⟨10001, 10000000⟩] ∧
      ¬ExactClock s := by
  have hwrap := (reachable_ticks (Nat.le_refl reloadValue)).step (e := .tick) trivial rfl
  have hirq := hwrap.step (e := .interrupt) trivial rfl
  have hcall := hirq.step (e := .call) trivial rfl
  have htime := hcall.step (e := .caller) trivial rfl
  have hcount := htime.step (e := .caller) trivial rfl
  have hreturn := hcount.step (e := .caller) trivial rfl
  refine ⟨_, hreturn, rfl, fun hexact => ?_⟩
  have hvalue := hexact.exact ⟨10001, 10000000⟩ (List.mem_singleton_self _)
  exact absurd hvalue (by decide)

end Rodos.Stm32l4Time
