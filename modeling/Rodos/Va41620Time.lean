import Rodos.MachineInt
import Rodos.TransitionSystem

namespace Rodos.Va41620Time

open MachineInt TransitionSystem

def reloadValue : Nat := 4294967295

def seconds : Int := 1000000000

def clockPeriodNanosec (clockFreq : Nat) : Int := seconds / clockFreq

/-- The register that `getNanoTime` reads next. `at_` are the elapsed ticks at the moment
when the low word was read. -/
inductive Pc
  | idle
  | readHigh
  | readLow (countHigh : Nat)
  | readAgain (prevCountHigh countLow at_ : Nat)
  deriving DecidableEq

/-- What a call has computed, and the elapsed ticks at the moment when it read the low
word for the last time. -/
structure Reading where
  ticks : Nat
  totalCount : Int
  value : Int
  deriving DecidableEq

/-- The two timers count down, `elapsed` and `begun` are the ticks since the start and
those when the running call was made. -/
structure System where
  elapsed : Nat
  low : Nat
  high : Nat
  pc : Pc
  begun : Nat
  returned : List Reading

inductive Event
  | tick
  | call
  | caller

def decrement (count : Nat) : Nat := if count = 0 then reloadValue else count - 1

def totalCount (countHigh countLow : Nat) : Int :=
  int64 ((reloadValue - countHigh) <<< 32 ||| (reloadValue - countLow) : Nat)

def getNanoTimeStep (clockFreq : Nat) (s : System) : Option System :=
  match s.pc with
  | .idle => none
  | .readHigh => some { s with pc := .readLow s.high }
  | .readLow countHigh => some { s with pc := .readAgain countHigh s.low s.elapsed }
  | .readAgain prevCountHigh countLow at_ =>
    if s.high ≠ prevCountHigh then some { s with pc := .readLow s.high }
    else
      let total := totalCount s.high countLow
      some { s with
        pc := .idle
        returned := s.returned ++ [⟨at_, total, int64 (total * clockPeriodNanosec clockFreq)⟩] }

/-- The high word is decremented when the low word wraps. -/
def step (clockFreq : Nat) : Event → System → Option System
  | .tick, s => some { s with
      elapsed := s.elapsed + 1
      low := decrement s.low
      high := if s.low = 0 then decrement s.high else s.high }
  | .call, s =>
    match s.pc with
    | .idle => some { s with pc := .readHigh, begun := s.elapsed }
    | _ => none
  | .caller, s => getNanoTimeStep clockFreq s

def started : System where
  elapsed := 0
  low := reloadValue
  high := reloadValue
  pc := .idle
  begun := 0
  returned := []

/-- Fewer than `2 ^ 32` ticks pass during a call. -/
def FewTicks : Event → System → Prop
  | .tick, s => s.pc ≠ .idle → s.elapsed + 1 < s.begun + 2 ^ 32
  | _, _ => True

structure ConsistentReads (clockFreq : Nat) (s : System) : Prop where
  totalCount : ∀ r ∈ s.returned, r.totalCount = int64 r.ticks
  exact : ∀ r ∈ s.returned, r.ticks < 2 ^ 63 → r.totalCount = r.ticks
  monotone : (∀ r ∈ s.returned, r.ticks * clockPeriodNanosec clockFreq < 2 ^ 63) →
    (s.returned.map Reading.value).Pairwise (· ≤ ·)

section Registers

def lowAt (n : Nat) : Nat := reloadValue - n % 2 ^ 32

def highAt (n : Nat) : Nat := reloadValue - n / 2 ^ 32 % 2 ^ 32

theorem lowAt_succ (n : Nat) : decrement (lowAt n) = lowAt (n + 1) := by
  unfold decrement lowAt reloadValue
  split <;> omega

theorem highAt_succ (n : Nat) :
    (if lowAt n = 0 then decrement (highAt n) else highAt n) = highAt (n + 1) := by
  unfold decrement lowAt highAt reloadValue
  split
  · split <;> omega
  · omega

theorem highAt_unchanged {n m : Nat} (hle : n ≤ m) (hfew : m < n + 2 ^ 32)
    (heq : highAt n = highAt m) : n / 2 ^ 32 = m / 2 ^ 32 := by
  unfold highAt reloadValue at heq
  omega

theorem totalCount_eq {n m : Nat} (h : n / 2 ^ 32 = m / 2 ^ 32) :
    totalCount (highAt n) (lowAt m) = int64 m := by
  have hlow : reloadValue - lowAt m = m % 2 ^ 32 := by
    rw [lowAt, reloadValue]
    omega
  have hhigh : reloadValue - highAt n = m / 2 ^ 32 % 2 ^ 32 := by
    rw [highAt, reloadValue]
    omega
  have hsum : m / 2 ^ 32 % 2 ^ 32 * 2 ^ 32 + m % 2 ^ 32 = m % 2 ^ 64 := by omega
  rw [totalCount, hlow, hhigh, ← Nat.shiftLeft_add_eq_or_of_lt (Nat.mod_lt _ (by decide)),
    Nat.shiftLeft_eq, hsum, int64_mod]

end Registers

section Invariant

variable {clockFreq : Nat}

def CallerOk (s : System) : Prop :=
  match s.pc with
  | .idle | .readHigh => True
  | .readLow countHigh => ∃ n, s.begun ≤ n ∧ n ≤ s.elapsed ∧ countHigh = highAt n
  | .readAgain prevCountHigh countLow at_ =>
    (∃ n, s.begun ≤ n ∧ n ≤ at_ ∧ prevCountHigh = highAt n) ∧ at_ ≤ s.elapsed ∧
      countLow = lowAt at_ ∧ ∀ r ∈ s.returned, r.ticks ≤ at_

structure Inv (clockFreq : Nat) (s : System) : Prop where
  low : s.low = lowAt s.elapsed
  high : s.high = highAt s.elapsed
  few : s.pc ≠ .idle → s.begun ≤ s.elapsed ∧ s.elapsed < s.begun + 2 ^ 32
  caller : CallerOk s
  totalCount : ∀ r ∈ s.returned, r.totalCount = int64 r.ticks
  value : ∀ r ∈ s.returned, r.value = int64 (r.totalCount * clockPeriodNanosec clockFreq)
  before : ∀ r ∈ s.returned, r.ticks ≤ s.elapsed
  inOrder : (s.returned.map Reading.ticks).Pairwise (· ≤ ·)

theorem inv_started : Inv clockFreq started where
  low := rfl
  high := rfl
  few h := absurd rfl h
  caller := trivial
  totalCount := nofun
  value := nofun
  before := nofun
  inOrder := .nil

variable {s t : System}

theorem CallerOk.tick (h : CallerOk s) (low high : Nat) :
    CallerOk { s with elapsed := s.elapsed + 1, low := low, high := high } := by
  unfold CallerOk at *
  dsimp only
  split at h
  · trivial
  · trivial
  · obtain ⟨n, hbegun, hn, hcount⟩ := h
    exact ⟨n, hbegun, Nat.le_succ_of_le hn, hcount⟩
  · exact ⟨h.1, Nat.le_succ_of_le h.2.1, h.2.2⟩

theorem Inv.returns (h : Inv clockFreq s) {n countLow at_ : Nat} (hbegun : s.begun ≤ n)
    (hn : n ≤ at_) (hat : at_ ≤ s.elapsed) (hlow : countLow = lowAt at_)
    (hlast : ∀ r ∈ s.returned, r.ticks ≤ at_) (hround : s.elapsed < s.begun + 2 ^ 32)
    (hsame : s.high = highAt n) :
    Inv clockFreq { s with
      pc := .idle
      returned := s.returned ++ [⟨at_, Va41620Time.totalCount s.high countLow,
        int64 (Va41620Time.totalCount s.high countLow * clockPeriodNanosec clockFreq)⟩] } := by
  have hunchanged := highAt_unchanged (hn.trans hat) (by omega) (hsame.symm.trans h.high)
  have htotal : Va41620Time.totalCount s.high countLow = int64 at_ := by
    rw [hsame, hlow]
    exact totalCount_eq (by omega)
  refine ⟨h.low, h.high, fun hidle => absurd rfl hidle, trivial, ?_, ?_, ?_, ?_⟩
  · refine forall_mem_record h.totalCount ?_
    dsimp only
    exact htotal
  · refine forall_mem_record h.value ?_
    dsimp only
  · exact forall_mem_record h.before hat
  · exact pairwise_record h.inOrder hlast

theorem Inv.caller_step (h : Inv clockFreq s) (hstep : getNanoTimeStep clockFreq s = some t) :
    Inv clockFreq t := by
  have hcaller := h.caller
  cases hpc : s.pc with
  | idle =>
    rw [getNanoTimeStep, hpc] at hstep
    cases hstep
  | readHigh =>
    have hfew := h.few (by simp [hpc])
    rw [getNanoTimeStep, hpc] at hstep
    cases hstep
    exact ⟨h.low, h.high, fun _ => hfew, ⟨s.elapsed, hfew.1, Nat.le_refl _, h.high⟩, h.totalCount,
      h.value, h.before, h.inOrder⟩
  | readLow countHigh =>
    have hfew := h.few (by simp [hpc])
    rw [CallerOk, hpc] at hcaller
    rw [getNanoTimeStep, hpc] at hstep
    cases hstep
    exact ⟨h.low, h.high, fun _ => hfew, ⟨hcaller, Nat.le_refl _, h.low, h.before⟩, h.totalCount,
      h.value, h.before, h.inOrder⟩
  | readAgain prevCountHigh countLow at_ =>
    have hfew := h.few (by simp [hpc])
    rw [CallerOk, hpc] at hcaller
    obtain ⟨⟨n, hbegun, hn, hprev⟩, hat, hlow, hlast⟩ := hcaller
    rw [getNanoTimeStep, hpc] at hstep
    dsimp only at hstep
    split at hstep
    · cases hstep
      exact ⟨h.low, h.high, fun _ => hfew, ⟨s.elapsed, hfew.1, Nat.le_refl _, h.high⟩, h.totalCount,
        h.value, h.before, h.inOrder⟩
    · rename_i hsame
      cases hstep
      rw [not_not, hprev] at hsame
      exact h.returns hbegun hn hat hlow hlast hfew.2 hsame

theorem Inv.step {e : Event} (h : Inv clockFreq s) (hok : FewTicks e s)
    (hstep : step clockFreq e s = some t) : Inv clockFreq t := by
  cases e with
  | tick =>
    cases hstep
    refine ⟨?_, ?_, fun hrunning => ?_, h.caller.tick _ _, h.totalCount, h.value,
      fun r hr => Nat.le_succ_of_le (h.before r hr), h.inOrder⟩
    · rw [h.low, lowAt_succ]
    · rw [h.low, h.high, highAt_succ]
    · exact ⟨Nat.le_succ_of_le (h.few hrunning).1, hok hrunning⟩
  | call =>
    rw [Va41620Time.step] at hstep
    split at hstep
    · cases hstep
      refine ⟨h.low, h.high, fun _ => ⟨Nat.le_refl _, ?_⟩, trivial, h.totalCount, h.value, h.before,
        h.inOrder⟩
      dsimp only
      omega
    · cases hstep
  | caller => exact h.caller_step hstep

theorem clockPeriodNanosec_nonneg (clockFreq : Nat) : 0 ≤ clockPeriodNanosec clockFreq :=
  Int.ediv_nonneg (by decide) (Int.natCast_nonneg clockFreq)

theorem value_eq {n : Nat} {period : Int} (hperiod : 0 ≤ period) (hfits : n * period < 2 ^ 63) :
    int64 (int64 n * period) = n * period := by
  have hnonneg : 0 ≤ n * period := Int.mul_nonneg (Int.natCast_nonneg n) hperiod
  obtain rfl | hpos : period = 0 ∨ 1 ≤ period := by omega
  · rw [Int.mul_zero, Int.mul_zero]
    rfl
  · have hle : (n : Int) ≤ n * period := le_mul_of_one_le_right (Int.natCast_nonneg n) hpos
    rw [int64_eq (x := n) (by omega) (by omega), int64_eq (by omega) hfits]

theorem Inv.consistentReads (h : Inv clockFreq s) : ConsistentReads clockFreq s := by
  refine ⟨h.totalCount, fun r hr hlt => ?_, fun hfits => ?_⟩
  · rw [h.totalCount r hr, int64_eq (by omega) (by omega)]
  · have hperiod := clockPeriodNanosec_nonneg clockFreq
    have hvalue : ∀ r ∈ s.returned, r.value = r.ticks * clockPeriodNanosec clockFreq := by
      intro r hr
      rw [h.value r hr, h.totalCount r hr, value_eq hperiod (hfits r hr)]
    refine pairwise_value h.inOrder fun r hr r' hr' hle => ?_
    rw [hvalue r hr, hvalue r' hr']
    exact Int.mul_le_mul_of_nonneg_right (Int.ofNat_le.mpr hle) hperiod

end Invariant

variable {clockFreq : Nat}

theorem inv_of_reachable {s : System}
    (h : ReachableUnder (fun s => s = started) (step clockFreq) FewTicks s) : Inv clockFreq s := by
  refine h.invariant (Inv clockFreq) ?_ ?_
  · rintro s rfl
    exact inv_started
  · intro e s t hinv hok hstep
    exact hinv.step hok hstep

/-- Both words of a reading belong to the moment when the low word was read. -/
theorem reads_consistent {s : System}
    (h : ReachableUnder (fun s => s = started) (step clockFreq) FewTicks s) :
    ConsistentReads clockFreq s :=
  (inv_of_reachable h).consistentReads

def ticked (n : Nat) : System := { started with elapsed := n, low := lowAt n, high := highAt n }

theorem reachable_ticked (clockFreq n : Nat) :
    ReachableUnder (fun s => s = started) (step clockFreq) FewTicks (ticked n) := by
  induction n with
  | zero => exact .start rfl
  | succ n ih =>
    refine ReachableUnder.step (e := Event.tick) ih (fun hrunning => absurd rfl hrunning) ?_
    rw [step, ticked, lowAt_succ, highAt_succ]
    rfl

instance (e : Event) (s : System) : Decidable (FewTicks e s) := by
  unfold FewTicks
  split <;> infer_instance

/-- The low word wraps after the first read of the high word. -/
theorem reads_consistent_wrapped :
    ∃ s : System, s.returned = [⟨4294967296, 4294967296, 214748364800⟩] ∧
      ConsistentReads 20000000 s := by
  obtain ⟨s, hs, hreturned⟩ := (reachable_ticked 20000000 4294967295).exists_run
    [.call, .caller, .tick, .caller, .caller, .caller, .caller]
    (fun s => s.returned = [⟨4294967296, 4294967296, 214748364800⟩]) (by decide +kernel)
  exact ⟨s, hreturned, reads_consistent hs⟩

/-- The count is negative in the second half of the range of the counter. -/
theorem totalCount_negative :
    ¬∀ s, ReachableUnder (fun s => s = started) (step 20000000) FewTicks s →
      ∀ r ∈ s.returned, r.totalCount = r.ticks := by
  intro hequal
  obtain ⟨s, hs, r, hr, hticks, htotal⟩ := (reachable_ticked 20000000 (2 ^ 63)).exists_run
    [.call, .caller, .caller, .caller]
    (fun s => ∃ r ∈ s.returned, r.ticks = 2 ^ 63 ∧ r.totalCount = -2 ^ 63) (by decide +kernel)
  have heq := hequal s hs r hr
  omega

end Rodos.Va41620Time
