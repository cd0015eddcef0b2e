import Rodos.MachineInt

namespace Rodos.EcssTime

open MachineInt

def SECONDS : Int := 1000000000

def splitTimeECSS (localTime : Int) : Option (UInt32 × UInt32) := do
  let seconds := UInt32.ofInt (localTime.tdiv SECONDS)
  let whole ← checked64 (seconds.toNat * SECONDS)
  let preFraction ← checked64 (localTime - whole)
  let preFraction ← checked64 (preFraction * 2 ^ 32)
  let fraction := UInt32.ofInt (preFraction.tdiv SECONDS)
  return (seconds, fraction)

inductive FractSize
  | fractSize16Bit
  | fractSize32Bit

def FractSize.bits : FractSize → Nat
  | fractSize16Bit => 16
  | fractSize32Bit => 32

def ECSSTimeToLocalTime (seconds fraction : UInt32) (fractSize : FractSize) : Option Int := do
  let whole ← checked64 (SECONDS * seconds.toNat)
  let scaled ← checked64 (SECONDS * fraction.toNat)
  checked64 (whole + scaled >>> fractSize.bits)

theorem toNat_ofInt {x : Int} (hlow : 0 ≤ x) (hhigh : x < 2 ^ 32) :
    ((UInt32.ofInt x).toNat : Int) = x := by
  rw [UInt32.ofInt, UInt32.toNat_ofNat', Int.natCast_mod, Int.toNat_of_nonneg (by omega)]
  omega

theorem ECSSTimeToLocalTime_eq (seconds fraction : UInt32) (fractSize : FractSize) :
    ECSSTimeToLocalTime seconds fraction fractSize =
      some (SECONDS * seconds.toNat + SECONDS * fraction.toNat / 2 ^ fractSize.bits) := by
  have hseconds : seconds.toNat < 4294967296 := seconds.toNat_lt
  have hfraction : fraction.toNat < 4294967296 := fraction.toNat_lt
  rw [ECSSTimeToLocalTime, SECONDS]
  rw [checked64_bind (by omega) (by omega),
    checked64_bind (by omega) (by omega), Int.shiftRight_eq_div_pow]
  have hsize : fractSize.bits = 16 ∨ fractSize.bits = 32 := by
    cases fractSize
    · exact .inl rfl
    · exact .inr rfl
  rcases hsize with hbits | hbits
  · rw [hbits]
    exact checked64_eq (by omega) (by omega)
  · rw [hbits]
    exact checked64_eq (by omega) (by omega)

theorem splitTimeECSS_eq {localTime : Int} (hlow : 0 ≤ localTime)
    (hhigh : localTime < 2 ^ 32 * SECONDS) :
    ∃ seconds fraction, splitTimeECSS localTime = some (seconds, fraction) ∧
      (seconds.toNat : Int) = localTime / SECONDS ∧
      (fraction.toNat : Int) = localTime % SECONDS * 2 ^ 32 / SECONDS := by
  rw [SECONDS] at hhigh
  have hdiv : localTime.tdiv 1000000000 = localTime / 1000000000 :=
    Int.tdiv_eq_ediv_of_nonneg hlow
  have hseconds := @toNat_ofInt (localTime / 1000000000) (by omega) (by omega)
  have hrest : localTime - localTime / 1000000000 * 1000000000 = localTime % 1000000000 := by
    omega
  have hshift : (localTime % 1000000000 * 2 ^ 32).tdiv 1000000000 =
      localTime % 1000000000 * 2 ^ 32 / 1000000000 :=
    Int.tdiv_eq_ediv_of_nonneg (by omega)
  refine ⟨_, _, ?_, hseconds,
    @toNat_ofInt (localTime % 1000000000 * 2 ^ 32 / 1000000000) (by omega) (by omega)⟩
  rw [splitTimeECSS, SECONDS]
  rw [hdiv, checked64_bind (by omega) (by omega), hseconds,
    checked64_bind (by omega) (by omega), hrest, checked64_bind (by omega) (by omega), hshift]
  rfl

section Order

variable {time later : Int}

/-- The whole seconds decide first, then the fractions. -/
theorem splitTimeECSS_lt (hlow : 0 ≤ time) (hlater : time < later)
    (hhigh : later < 2 ^ 32 * SECONDS) {split splitLater : UInt32 × UInt32}
    (hsplit : splitTimeECSS time = some split)
    (hsplitLater : splitTimeECSS later = some splitLater) :
    split.1 < splitLater.1 ∨ split.1 = splitLater.1 ∧ split.2 < splitLater.2 := by
  obtain ⟨seconds, fraction, heq, hseconds, hfraction⟩ := splitTimeECSS_eq hlow (hlater.trans hhigh)
  obtain ⟨seconds', fraction', heq', hseconds', hfraction'⟩ :=
    splitTimeECSS_eq (hlow.trans hlater.le) hhigh
  obtain rfl := Option.some.inj (heq.symm.trans hsplit)
  obtain rfl := Option.some.inj (heq'.symm.trans hsplitLater)
  dsimp only
  rw [UInt32.lt_iff_toNat_lt, UInt32.lt_iff_toNat_lt, ← UInt32.toNat_inj]
  unfold SECONDS at *
  omega

end Order

/-- The conversions lose less than two nanoseconds, keep the order and do not overflow. -/
theorem splitTimeECSS_roundTrip :
    (∀ time, 0 ≤ time → time < 2 ^ 32 * SECONDS →
      ∃ seconds fraction, splitTimeECSS time = some (seconds, fraction) ∧
        (ECSSTimeToLocalTime seconds fraction .fractSize32Bit = some time ∨
          ECSSTimeToLocalTime seconds fraction .fractSize32Bit = some (time - 1))) ∧
    (∀ time later, 0 ≤ time → time < later → later < 2 ^ 32 * SECONDS →
      ∀ split splitLater, splitTimeECSS time = some split → splitTimeECSS later = some splitLater →
        split.1 < splitLater.1 ∨ split.1 = splitLater.1 ∧ split.2 < splitLater.2) ∧
    ∀ seconds fraction fractSize, ∃ time,
      ECSSTimeToLocalTime seconds fraction fractSize = some time := by
  refine ⟨?_, ?_, ?_⟩
  · intro time hlow hhigh
    obtain ⟨seconds, fraction, hsplit, hseconds, hfraction⟩ := splitTimeECSS_eq hlow hhigh
    refine ⟨seconds, fraction, hsplit, ?_⟩
    rw [ECSSTimeToLocalTime_eq, FractSize.bits, Option.some.injEq, Option.some.injEq]
    unfold SECONDS at *
    omega
  · intro time later hlow hlater hhigh split splitLater hsplit hsplitLater
    exact splitTimeECSS_lt hlow hlater hhigh hsplit hsplitLater
  · intro seconds fraction fractSize
    exact ⟨_, ECSSTimeToLocalTime_eq seconds fraction fractSize⟩

/-- A nanosecond is lost. -/
theorem splitTimeECSS_roundTrip_third :
    ECSSTimeToLocalTime 1 1431655763 .fractSize32Bit = some 1333333333 ∨
      ECSSTimeToLocalTime 1 1431655763 .fractSize32Bit = some (1333333333 - 1) := by
  obtain ⟨seconds, fraction, hsplit, htime⟩ :=
    splitTimeECSS_roundTrip.1 1333333333 (by decide) (by decide)
  have hvalue : splitTimeECSS 1333333333 = some (1, 1431655763) := by decide +kernel
  obtain ⟨rfl, rfl⟩ := Prod.mk.inj (Option.some.inj (hsplit.symm.trans hvalue))
  exact htime

end Rodos.EcssTime
