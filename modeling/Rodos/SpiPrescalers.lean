import Rodos.ListScan
import Rodos.MachineInt

namespace Rodos.SpiPrescalers

open ListScan MachineInt OrderDual

def maxScrdvValue : Nat := 255

def maxClkprescaleValue : Nat := 127

structure Match where
  clkprescale : Nat
  scrdv : Nat
  absoluteBaudrateError : Nat

section Search

-- The frequency of the clock and the baud rate that is asked for.
variable (sysclkFrequency baudrate : Int)

def clockFrequencyNoPrescaler : Int := sysclkFrequency.tdiv 4

def baudrateResult (scrdv clkprescale : Nat) : Int :=
  (clockFrequencyNoPrescaler sysclkFrequency).tdiv ((scrdv + 1) * clkprescale : Nat)

def absoluteBaudrateError (scrdv clkprescale : Nat) : Nat :=
  let baudrateError := int32 (baudrate - baudrateResult sysclkFrequency scrdv clkprescale)
  ((if baudrateError > 0 then baudrateError else int32 (-baudrateError)) % 2 ^ 32).toNat

def candidate (scrdv clkprescale : Nat) : Match :=
  ⟨clkprescale, scrdv, absoluteBaudrateError sysclkFrequency baudrate scrdv clkprescale⟩

def visit (best : Match) (scrdv clkprescale : Nat) : Match :=
  let absoluteBaudrateError := absoluteBaudrateError sysclkFrequency baudrate scrdv clkprescale
  if absoluteBaudrateError < best.absoluteBaudrateError then
    ⟨clkprescale, scrdv, absoluteBaudrateError⟩
  else best

/-- The loops, up to some `clkprescale` for each `scrdv`. -/
def search (maxUsefulClkprescale : Nat → Nat) : Match :=
  (List.range (maxScrdvValue + 1)).foldl
    (fun best scrdv => (List.range' 1 (maxUsefulClkprescale scrdv)).foldl
      (fun best clkprescale => visit sysclkFrequency baudrate best scrdv clkprescale) best)
    ⟨0, 0, 2 ^ 32 - 1⟩

def maxUsefulClkprescale (scrdv : Nat) : Nat :=
  if scrdv + 1 > maxClkprescaleValue then maxClkprescaleValue else scrdv + 1

def calculatePrescalers : Match := search sysclkFrequency baudrate maxUsefulClkprescale

end Search

section Errors

variable {sysclkFrequency baudrate : Int}

theorem baudrateResult_bounds (hclock : 0 ≤ sysclkFrequency ∧ sysclkFrequency < 2 ^ 31)
    (scrdv clkprescale : Nat) : 0 ≤ baudrateResult sysclkFrequency scrdv clkprescale ∧
      baudrateResult sysclkFrequency scrdv clkprescale < 2 ^ 31 := by
  have hquarter : clockFrequencyNoPrescaler sysclkFrequency = sysclkFrequency / 4 :=
    Int.tdiv_eq_ediv_of_nonneg hclock.1
  have hnonneg : 0 ≤ sysclkFrequency / 4 := by omega
  have hle := Int.ediv_le_self (((scrdv + 1) * clkprescale : Nat) : Int) hnonneg
  rw [baudrateResult, hquarter, Int.tdiv_eq_ediv_of_nonneg hnonneg]
  exact ⟨Int.ediv_nonneg hnonneg (Int.natCast_nonneg _), by omega⟩

theorem absoluteBaudrateError_eq (hclock : 0 ≤ sysclkFrequency ∧ sysclkFrequency < 2 ^ 31)
    (hbaudrate : 0 ≤ baudrate ∧ baudrate < 2 ^ 31) (scrdv clkprescale : Nat) :
    absoluteBaudrateError sysclkFrequency baudrate scrdv clkprescale =
      (baudrate - baudrateResult sysclkFrequency scrdv clkprescale).natAbs := by
  obtain ⟨hlow, hhigh⟩ := baudrateResult_bounds hclock scrdv clkprescale
  simp only [absoluteBaudrateError]
  rw [int32_eq (by omega) (by omega), int32_eq (by omega) (by omega)]
  split <;> omega

end Errors

section Candidates

variable {sysclkFrequency baudrate : Int} {maxUseful : Nat → Nat}

def Within (maxUseful : Nat → Nat) (scrdv clkprescale : Nat) : Prop :=
  scrdv ≤ maxScrdvValue ∧ 1 ≤ clkprescale ∧ clkprescale ≤ maxUseful scrdv

variable (sysclkFrequency baudrate maxUseful) in
def candidates : List Match :=
  (List.range (maxScrdvValue + 1)).flatMap fun scrdv =>
    (List.range' 1 (maxUseful scrdv)).map (candidate sysclkFrequency baudrate scrdv)

theorem mem_candidates {m : Match} : m ∈ candidates sysclkFrequency baudrate maxUseful ↔
    Within maxUseful m.scrdv m.clkprescale ∧
      m = candidate sysclkFrequency baudrate m.scrdv m.clkprescale := by
  rw [candidates, List.mem_flatMap]
  constructor
  · rintro ⟨scrdv, hscrdv, hm⟩
    obtain ⟨clkprescale, hclk, rfl⟩ := List.mem_map.mp hm
    obtain ⟨hlow, hhigh⟩ := List.mem_range'_1.mp hclk
    have hle : clkprescale ≤ maxUseful scrdv := by omega
    exact ⟨⟨Nat.le_of_lt_succ (List.mem_range.mp hscrdv), hlow, hle⟩, rfl⟩
  · rintro ⟨⟨hscrdv, hlow, hhigh⟩, heq⟩
    refine ⟨m.scrdv, List.mem_range.mpr (Nat.lt_succ_of_le hscrdv), List.mem_map.mpr ?_⟩
    exact ⟨m.clkprescale, List.mem_range'_1.mpr ⟨hlow, by omega⟩, heq.symm⟩

theorem search_eq_scan : search sysclkFrequency baudrate maxUseful =
    scan (fun m => toDual m.absoluteBaudrateError) ⟨0, 0, 2 ^ 32 - 1⟩
      (candidates sysclkFrequency baudrate maxUseful) := by
  rw [← foldl_eq_scan, candidates, List.foldl_flatMap, search]
  congr 1
  funext best scrdv
  rw [List.foldl_map]
  rfl

theorem search_spec (hclock : 0 ≤ sysclkFrequency ∧ sysclkFrequency < 2 ^ 31)
    (hbaudrate : 0 ≤ baudrate ∧ baudrate < 2 ^ 31) (hfirst : Within maxUseful 0 1) :
    search sysclkFrequency baudrate maxUseful ∈ candidates sysclkFrequency baudrate maxUseful ∧
      ∀ scrdv clkprescale, Within maxUseful scrdv clkprescale →
        (search sysclkFrequency baudrate maxUseful).absoluteBaudrateError ≤
          absoluteBaudrateError sysclkFrequency baudrate scrdv clkprescale := by
  have hmem := scan_mem (fun m => toDual m.absoluteBaudrateError) ⟨0, 0, 2 ^ 32 - 1⟩
    (candidates sysclkFrequency baudrate maxUseful)
  have hmin := le_scan (fun m => toDual m.absoluteBaudrateError) ⟨0, 0, 2 ^ 32 - 1⟩
    (candidates sysclkFrequency baudrate maxUseful)
  rw [← search_eq_scan] at hmem hmin
  have hbest : ∀ scrdv clkprescale, Within maxUseful scrdv clkprescale →
      (search sysclkFrequency baudrate maxUseful).absoluteBaudrateError ≤
        absoluteBaudrateError sysclkFrequency baudrate scrdv clkprescale := by
    intro scrdv clkprescale hwithin
    have hcandidate : candidate sysclkFrequency baudrate scrdv clkprescale ∈
        candidates sysclkFrequency baudrate maxUseful := mem_candidates.mpr ⟨hwithin, rfl⟩
    exact hmin _ (List.mem_cons_of_mem _ hcandidate)
  refine ⟨?_, hbest⟩
  obtain hinit | hmem := List.mem_cons.mp hmem
  · -- every pair has got a smaller error than the one to begin with
    have hle := hbest 0 1 hfirst
    have hbounds := baudrateResult_bounds hclock 0 1
    rw [hinit, absoluteBaudrateError_eq hclock hbaudrate] at hle
    dsimp only at hle
    omega
  · exact hmem

end Candidates

section Pruning

theorem maxUsefulClkprescale_eq (scrdv : Nat) :
    maxUsefulClkprescale scrdv = min maxClkprescaleValue (scrdv + 1) := by
  rw [maxUsefulClkprescale]
  split <;> omega

/-- The factors of the product may change places. -/
theorem exists_useful {scrdv clkprescale : Nat}
    (h : Within (fun _ => maxClkprescaleValue) scrdv clkprescale) :
    ∃ scrdv' clkprescale', Within maxUsefulClkprescale scrdv' clkprescale' ∧
      (scrdv' + 1) * clkprescale' = (scrdv + 1) * clkprescale := by
  obtain ⟨hscrdv, hlow, hhigh⟩ := h
  have hhigh : clkprescale ≤ maxClkprescaleValue := hhigh
  obtain hlt | hle := Nat.lt_or_ge (scrdv + 1) clkprescale
  · have hclk : clkprescale - 1 + 1 = clkprescale := Nat.sub_add_cancel hlow
    have hmax : maxClkprescaleValue ≤ maxScrdvValue := by decide
    refine ⟨clkprescale - 1, scrdv + 1, ⟨by omega, Nat.le_add_left _ _, ?_⟩, ?_⟩
    · rw [maxUsefulClkprescale_eq, hclk]
      exact le_min (by omega) hlt.le
    · rw [hclk, Nat.mul_comm]
  · refine ⟨scrdv, clkprescale, ⟨hscrdv, hlow, ?_⟩, rfl⟩
    rw [maxUsefulClkprescale_eq]
    exact le_min hhigh hle

end Pruning

/-- The search over all pairs. -/
def unprunedPrescalers (sysclkFrequency baudrate : Int) : Match :=
  search sysclkFrequency baudrate fun _ => maxClkprescaleValue

section Results

variable {sysclkFrequency baudrate : Int}

theorem baudrateResult_congr {scrdv clkprescale scrdv' clkprescale' : Nat}
    (h : (scrdv' + 1) * clkprescale' = (scrdv + 1) * clkprescale) :
    baudrateResult sysclkFrequency scrdv' clkprescale' =
      baudrateResult sysclkFrequency scrdv clkprescale := by
  rw [baudrateResult, h, baudrateResult]

/-- The pruned search misses no baud rate: no pair has got a smaller error than its result, and
the search over all pairs comes to the same error. -/
theorem prescalers_optimal (hclock : 0 ≤ sysclkFrequency ∧ sysclkFrequency < 2 ^ 31)
    (hbaudrate : 0 ≤ baudrate ∧ baudrate < 2 ^ 31) :
    (calculatePrescalers sysclkFrequency baudrate).scrdv ≤ 255 ∧
      1 ≤ (calculatePrescalers sysclkFrequency baudrate).clkprescale ∧
      (calculatePrescalers sysclkFrequency baudrate).clkprescale ≤ 127 ∧
      (∀ scrdv ≤ 255, ∀ clkprescale, 1 ≤ clkprescale → clkprescale ≤ 127 →
        |baudrate - baudrateResult sysclkFrequency
            (calculatePrescalers sysclkFrequency baudrate).scrdv
            (calculatePrescalers sysclkFrequency baudrate).clkprescale| ≤
          |baudrate - baudrateResult sysclkFrequency scrdv clkprescale|) ∧
      (calculatePrescalers sysclkFrequency baudrate).absoluteBaudrateError =
        (unprunedPrescalers sysclkFrequency baudrate).absoluteBaudrateError := by
  have hone : Within maxUsefulClkprescale 0 1 := ⟨Nat.zero_le _, le_rfl, by decide⟩
  have hone' : Within (fun _ => maxClkprescaleValue) 0 1 := ⟨Nat.zero_le _, le_rfl, by decide⟩
  obtain ⟨hmem, hbest⟩ := search_spec hclock hbaudrate hone
  obtain ⟨hmem', hbest'⟩ := search_spec hclock hbaudrate hone'
  obtain ⟨⟨hscrdv, hlow, hhigh⟩, hresult⟩ := mem_candidates.mp hmem
  obtain ⟨hwithin', hresult'⟩ := mem_candidates.mp hmem'
  rw [maxUsefulClkprescale_eq] at hhigh
  have hhigh := hhigh.trans (min_le_left _ _)
  have herror : (calculatePrescalers sysclkFrequency baudrate).absoluteBaudrateError = _ :=
    congrArg Match.absoluteBaudrateError hresult
  have herror' : (unprunedPrescalers sysclkFrequency baudrate).absoluteBaudrateError = _ :=
    congrArg Match.absoluteBaudrateError hresult'
  have hall : ∀ scrdv clkprescale, Within (fun _ => maxClkprescaleValue) scrdv clkprescale →
      (calculatePrescalers sysclkFrequency baudrate).absoluteBaudrateError ≤
        absoluteBaudrateError sysclkFrequency baudrate scrdv clkprescale := by
    intro scrdv clkprescale hwithin
    obtain ⟨scrdv', clkprescale', huseful, hproduct⟩ := exists_useful hwithin
    have hle := hbest scrdv' clkprescale' huseful
    rw [absoluteBaudrateError_eq hclock hbaudrate, baudrateResult_congr hproduct,
      ← absoluteBaudrateError_eq hclock hbaudrate] at hle
    exact hle
  refine ⟨hscrdv, hlow, hhigh, ?_, ?_⟩
  · intro scrdv hscrdv clkprescale hlow hhigh
    have hle := hall scrdv clkprescale ⟨hscrdv, hlow, hhigh⟩
    rw [herror] at hle
    simp only [candidate, absoluteBaudrateError_eq hclock hbaudrate] at hle
    rw [Int.abs_eq_natAbs, Int.abs_eq_natAbs]
    exact Int.ofNat_le.mpr hle
  · apply le_antisymm
    · rw [herror']
      exact hall _ _ hwithin'
    · rw [herror]
      exact hbest' _ _ ⟨hscrdv, hlow, hhigh⟩

/-- A baud rate of 1 MHz from a clock of 80 MHz. -/
theorem prescalers_optimal_oneMHz : (calculatePrescalers 80000000 1000000).scrdv ≤ 255 ∧
    1 ≤ (calculatePrescalers 80000000 1000000).clkprescale ∧
    |1000000 - baudrateResult 80000000 (calculatePrescalers 80000000 1000000).scrdv
      (calculatePrescalers 80000000 1000000).clkprescale| = 0 := by
  obtain ⟨hscrdv, hlow, -, hbest, -⟩ := prescalers_optimal (show 0 ≤ (80000000 : Int) ∧ _ by decide)
    (show 0 ≤ (1000000 : Int) ∧ _ by decide)
  have hexact := hbest 4 (by decide) 4 (by decide) (by decide)
  exact ⟨hscrdv, hlow, le_antisymm hexact (abs_nonneg _)⟩

end Results

end Rodos.SpiPrescalers
