import Rodos.Transducer
import Rodos.WordGenerators

namespace Rodos

open Function WordGenerators Transducer

structure RandomKiss where
  x : BitVec 64
  y : BitVec 64
  z : BitVec 64
  c : BitVec 64
  deriving DecidableEq

namespace RandomKiss

def nextX (x : BitVec 64) : BitVec 64 := 6906969069 * x + 1234567

def nextY (y : BitVec 64) : BitVec 64 :=
  let y := y ^^^ y <<< 13
  let y := y ^^^ y >>> 17
  y ^^^ y <<< 43

/-- The addition of the carry to `t` may wrap around, and then nothing is carried. -/
def nextZC (z c : BitVec 64) : BitVec 64 × BitVec 64 :=
  let t := z <<< 58 + c
  let c := z >>> 6
  let z := z + t
  (z, c + if z < t then 1 else 0)

def next (s : RandomKiss) : RandomKiss where
  x := nextX s.x
  y := nextY s.y
  z := (nextZC s.z s.c).1
  c := (nextZC s.z s.c).2

def KISS64 (s : RandomKiss) : RandomKiss × BitVec 64 :=
  (s.next, s.next.x + s.next.y + s.next.z)

inductive Call
  | uint64Rand
  | uint32Rand
  | setRandSeed (x : BitVec 64)
  deriving DecidableEq

def call (s : RandomKiss) : Call → RandomKiss × List Nat
  | .uint64Rand => (s.next, [(KISS64 s).2.toNat])
  | .uint32Rand => (s.next, [((KISS64 s).2.setWidth 32).toNat])
  | .setRandSeed x => ({ s with x := x }, [])

def Call.draws : Call → Nat
  | .uint64Rand | .uint32Rand => 1
  | .setRandSeed _ => 0

def draws (calls : List Call) : Nat := (calls.map Call.draws).sum

def Unseeded (calls : List Call) : Prop := ∀ x, .setRandSeed x ∉ calls

/-- The carry that the multiplication by `2 ^ 58 + 1` leaves is lost here. -/
def LosesCarry (s : RandomKiss) : Prop := 2 ^ 64 ≤ s.z.toNat * 2 ^ 58 % 2 ^ 64 + s.c.toNat

instance (s : RandomKiss) : Decidable s.LosesCarry := Nat.decLe _ _

def wordAndCarry (s : RandomKiss) : Nat × Nat := (s.z.toNat, s.c.toNat)

section Parts

theorem nextX_eq : nextX = congruential (1 + 4 * 1726742267) (1 + 2 * 617283) := by
  funext x
  rw [nextX, congruential]
  congr 1

theorem minimalPeriod_nextX (x : BitVec 64) : minimalPeriod nextX x = 2 ^ 64 := by
  have hn : (2 : BitVec 64) ^ 63 ≠ 0 := by decide +kernel
  have hzero : (2 : BitVec 64) ^ (63 + 1) = 0 := by decide +kernel
  rw [nextX_eq]
  exact minimalPeriod_congruential hn hzero _ _ x

theorem nextX_injective : Injective nextX := by
  apply injective_of_minimalPeriod_pos
  intro x
  rw [minimalPeriod_nextX]
  positivity

theorem nextY_injective : Injective nextY := by
  intro y y' h
  apply xor_shiftLeft_injective (by decide : 0 < 13)
  apply xor_ushiftRight_injective (by decide : 0 < 17)
  apply xor_shiftLeft_injective (by decide : 0 < 43)
  exact h

theorem nextY_ne_zero {y : BitVec 64} (h : y ≠ 0) : nextY y ≠ 0 := by
  have hzero : nextY 0 = 0 := by decide
  rw [← hzero]
  exact nextY_injective.ne h

variable (z c : BitVec 64)

theorem toNat_nextZC : (nextZC z c).1.toNat =
      (z.toNat + (z.toNat * 2 ^ 58 + c.toNat)) % 2 ^ 64 ∧
    (nextZC z c).2.toNat = z.toNat / 2 ^ 6 +
      if (z.toNat + (z.toNat * 2 ^ 58 + c.toNat)) % 2 ^ 64 <
        (z.toNat * 2 ^ 58 + c.toNat) % 2 ^ 64 then 1 else 0 := by
  have ht : (z <<< 58 + c).toNat = (z.toNat * 2 ^ 58 + c.toNat) % 2 ^ 64 := by
    rw [BitVec.toNat_add, BitVec.toNat_shiftLeft, Nat.shiftLeft_eq, Nat.mod_add_mod]
  have hz : (z + (z <<< 58 + c)).toNat =
      (z.toNat + (z.toNat * 2 ^ 58 + c.toNat)) % 2 ^ 64 := by
    rw [BitVec.toNat_add, ht, Nat.add_mod_mod]
  have hdiv : (z >>> 6).toNat = z.toNat / 2 ^ 6 := by
    rw [BitVec.toNat_ushiftRight, Nat.shiftRight_eq_div_pow]
  have hlt := z.isLt
  have hone : (1 : BitVec 64).toNat = 1 := rfl
  refine ⟨hz, ?_⟩
  rw [nextZC]
  simp only [BitVec.lt_def, hz, ht]
  split
  · rw [BitVec.toNat_add, hdiv, hone]
    omega
  · rw [add_zero, hdiv, Nat.add_zero]

theorem carry_le : (nextZC z c).2.toNat ≤ 2 ^ 58 := by
  have hlt := z.isLt
  rw [(toNat_nextZC z c).2]
  split <;> omega

/-- Either the second addition carries or the first one, which loses it. -/
theorem carry_split (q t z : Nat) (hz : z < 2 ^ 64) (ht : t ≤ 2 ^ 64) :
    q + (if (z + t) % 2 ^ 64 < t % 2 ^ 64 then 1 else 0) + (if 2 ^ 64 ≤ t then 1 else 0) =
      (q * 2 ^ 64 + (z + t)) / 2 ^ 64 := by
  rw [Nat.mul_comm q, Nat.mul_add_div (by norm_num)]
  split <;> split <;> omega

/-- The word and the carry are those of a multiplication, but for a carry that is lost. -/
theorem nextZC_spec (h : c.toNat ≤ 2 ^ 58) :
    (nextZC z c).1.toNat = (multiplyWithCarry (2 ^ 58 + 1) (2 ^ 64) (z.toNat, c.toNat)).1 ∧
      (nextZC z c).2.toNat + (if 2 ^ 64 ≤ z.toNat * 2 ^ 58 % 2 ^ 64 + c.toNat then 1 else 0) =
        (multiplyWithCarry (2 ^ 58 + 1) (2 ^ 64) (z.toNat, c.toNat)).2 := by
  obtain ⟨hz, hc⟩ := toNat_nextZC z c
  have hlt := z.isLt
  rw [hz, hc, multiplyWithCarry]
  generalize c.toNat = c at *
  obtain ⟨q, r, hr, hzq⟩ : ∃ q r, r < 2 ^ 6 ∧ z.toNat = q * 2 ^ 6 + r :=
    ⟨z.toNat / 2 ^ 6, z.toNat % 2 ^ 6, by omega, by omega⟩
  generalize z.toNat = z at *
  subst hzq
  have hq : (q * 2 ^ 6 + r) / 2 ^ 6 = q := by omega
  have hlow : (q * 2 ^ 6 + r) * 2 ^ 58 % 2 ^ 64 = r * 2 ^ 58 := by omega
  have hpow : 2 ^ 6 * 2 ^ 58 = 2 ^ 64 := by norm_num
  have hsum : ∀ a, (a + 1) * (q * 2 ^ 6 + r) + c =
      q * (2 ^ 6 * a) + (q * 2 ^ 6 + r + (r * a + c)) := by
    intro a
    ring
  have hword : ∀ a, q * 2 ^ 6 + r + ((q * 2 ^ 6 + r) * a + c) =
      q * (2 ^ 6 * a) + (q * 2 ^ 6 + r + (r * a + c)) := by
    intro a
    ring
  have ht : ∀ a, (q * 2 ^ 6 + r) * a + c = r * a + c + q * (2 ^ 6 * a) := by
    intro a
    ring
  dsimp only
  rw [hq, hlow, hsum, hword, ht, hpow, Nat.add_mul_mod_self_right]
  constructor
  · rfl
  · have hwrap : r * 2 ^ 58 + c ≤ 2 ^ 64 := by omega
    rw [Nat.mul_add_mod_self_right]
    exact carry_split q (r * 2 ^ 58 + c) (q * 2 ^ 6 + r) hlt hwrap

end Parts

section States

variable {s : RandomKiss}

theorem wordAndCarry_next (hc : s.c.toNat ≤ 2 ^ 58) (h : ¬ s.LosesCarry) :
    s.next.wordAndCarry = multiplyWithCarry (2 ^ 58 + 1) (2 ^ 64) s.wordAndCarry := by
  obtain ⟨hword, hcarry⟩ := nextZC_spec s.z s.c hc
  rw [LosesCarry] at h
  rw [if_neg h, Nat.add_zero] at hcarry
  exact Prod.ext hword hcarry

theorem carried (hc : s.c.toNat ≤ 2 ^ 58) :
    Carried (2 ^ 58 + 1) (2 ^ 64) s.wordAndCarry :=
  ⟨s.z.isLt, Nat.lt_succ_of_le hc⟩

theorem next_injOn : Set.InjOn next {s | s.c.toNat ≤ 2 ^ 58 ∧ ¬ s.LosesCarry} := by
  intro s hs t ht h
  obtain ⟨hsc, hslost⟩ := hs
  obtain ⟨htc, htlost⟩ := ht
  obtain ⟨hx, hy, -, -⟩ := RandomKiss.mk.inj h
  have hzc := congrArg wordAndCarry h
  rw [wordAndCarry_next hsc hslost, wordAndCarry_next htc htlost] at hzc
  obtain ⟨hz, hc⟩ := Prod.mk.inj
    (multiplyWithCarry_injOn _ _ (carried hsc) (carried htc) hzc)
  have hxeq : s.x = t.x := nextX_injective hx
  have hyeq : s.y = t.y := nextY_injective hy
  have hzeq : s.z = t.z := BitVec.eq_of_toNat_eq hz
  have hceq : s.c = t.c := BitVec.eq_of_toNat_eq hc
  rw [RandomKiss.mk.injEq]
  exact ⟨hxeq, hyeq, hzeq, hceq⟩

end States

section Runs

theorem draws_cons (c : Call) (calls : List Call) : draws (c :: calls) = draws calls + c.draws := by
  rw [draws, draws, List.map_cons, List.sum_cons, Nat.add_comm]

theorem after_part {B : Type} (part : RandomKiss → B) (f : B → B) {calls : List Call}
    (h : ∀ c ∈ calls, ∀ s, part (call s c).1 = f^[c.draws] (part s)) (s : RandomKiss) :
    part (after call s calls) = f^[draws calls] (part s) := by
  induction calls generalizing s with
  | nil => rfl
  | cons c calls ih =>
    obtain ⟨hc, hcalls⟩ := List.forall_mem_cons.mp h
    rw [after_cons, ih hcalls, hc, draws_cons, iterate_add_apply]

variable (s : RandomKiss) {calls : List Call}

theorem y_after (calls : List Call) : (after call s calls).y = nextY^[draws calls] s.y := by
  apply after_part
  intro c _ s
  cases c with
  | uint64Rand | uint32Rand | setRandSeed x => rfl

theorem x_after (h : Unseeded calls) : (after call s calls).x = nextX^[draws calls] s.x := by
  apply after_part
  intro c hc s
  cases c with
  | uint64Rand | uint32Rand => rfl
  | setRandSeed x => exact absurd hc (h x)

theorem carry_after (calls : List Call) (h : 0 < draws calls ∨ s.c.toNat ≤ 2 ^ 58) :
    (after call s calls).c.toNat ≤ 2 ^ 58 := by
  induction calls generalizing s with
  | nil =>
    obtain h | h := h
    · exact absurd h (Nat.lt_irrefl 0)
    · exact h
  | cons c calls ih =>
    rw [after_cons]
    apply ih
    cases c with
    | uint64Rand | uint32Rand => exact .inr (carry_le s.z s.c)
    | setRandSeed x =>
      obtain h | h := h
      · rw [draws_cons, Call.draws, Nat.add_zero] at h
        exact .inl h
      · exact .inr h

def KeepsCarry (s : RandomKiss) (calls : List Call) : Prop :=
  ∀ early, early <+: calls → early ≠ calls → ¬ (after call s early).LosesCarry

theorem KeepsCarry.tail {s : RandomKiss} {c : Call} {calls : List Call}
    (h : KeepsCarry s (c :: calls)) : KeepsCarry (call s c).1 calls := by
  intro early hearly hne
  have hcons := h (c :: early) (List.cons_prefix_cons.mpr ⟨rfl, hearly⟩)
    (fun heq => hne (List.cons.inj heq).2)
  rwa [after_cons] at hcons

theorem wordAndCarry_after {s : RandomKiss} {calls : List Call} (hc : s.c.toNat ≤ 2 ^ 58)
    (h : KeepsCarry s calls) : (after call s calls).wordAndCarry =
      (multiplyWithCarry (2 ^ 58 + 1) (2 ^ 64))^[draws calls] s.wordAndCarry := by
  induction calls generalizing s with
  | nil => rfl
  | cons c calls ih =>
    have hfirst : ¬ s.LosesCarry := h [] (List.nil_prefix) (List.cons_ne_nil c calls).symm
    have hcarry : (call s c).1.c.toNat ≤ 2 ^ 58 := by
      cases c with
      | uint64Rand | uint32Rand => exact carry_le s.z s.c
      | setRandSeed x => exact hc
    have hone : (call s c).1.wordAndCarry =
        (multiplyWithCarry (2 ^ 58 + 1) (2 ^ 64))^[c.draws] s.wordAndCarry := by
      cases c with
      | uint64Rand | uint32Rand => exact wordAndCarry_next hc hfirst
      | setRandSeed x => rfl
    rw [after_cons, ih hcarry h.tail, hone, draws_cons, iterate_add_apply]

theorem y_ne_zero_after (hy : s.y ≠ 0) (calls : List Call) : (after call s calls).y ≠ 0 := by
  rw [y_after]
  exact Iterate.rec (fun y => y ≠ 0) hy (fun y => nextY_ne_zero) (draws calls)

theorem x_after_eq_iff (h : Unseeded calls) :
    (after call s calls).x = s.x ↔ 2 ^ 64 ∣ draws calls := by
  rw [x_after s h, ← minimalPeriod_nextX s.x]
  exact isPeriodicPt_iff_minimalPeriod_dvd

end Runs

structure Drawn (s : RandomKiss) (calls : List Call) (t : RandomKiss) : Prop where
  recurs : Unseeded calls → (t.x = s.x ↔ 2 ^ 64 ∣ draws calls)
  shifted : t.y = nextY^[draws calls] s.y
  alive : s.y ≠ 0 → t.y ≠ 0
  carry : 0 < draws calls → t.c.toNat ≤ 2 ^ 58
  multiplied : s.c.toNat ≤ 2 ^ 58 → KeepsCarry s calls →
    t.wordAndCarry = (multiplyWithCarry (2 ^ 58 + 1) (2 ^ 64))^[draws calls] s.wordAndCarry

/-- With any seeds no state comes back before `2 ^ 64` numbers have been drawn, and the shift
register loses nothing. From a carry that fits into the multiplier the third part is the
multiplication with carry that it stands for until a carry is lost. Up to there no two states lead
to the same one. -/
theorem kiss_draws : (∀ s calls, Drawn s calls (after call s calls)) ∧ Injective nextY ∧
    Set.InjOn next {s | s.c.toNat ≤ 2 ^ 58 ∧ ¬ s.LosesCarry} := by
  refine ⟨?_, nextY_injective, next_injOn⟩
  intro s calls
  refine ⟨x_after_eq_iff s, y_after s calls, ?_, ?_, wordAndCarry_after⟩
  · intro hy
    exact y_ne_zero_after s hy calls
  · intro hdraws
    exact carry_after s calls (.inl hdraws)

/-- The seeds that the library starts with. -/
def initial : RandomKiss :=
  ⟨1066149217761810, 362436362436362436, 1234567890987654321, 123456123456123456⟩

def twoDraws : List Call := [.uint64Rand, .setRandSeed 5, .uint32Rand]

theorem kiss_draws_initial : (after call initial twoDraws).y ≠ 0 ∧
    (after call initial twoDraws).c.toNat ≤ 2 ^ 58 ∧
    (after call initial [.uint64Rand]).x ≠ initial.x ∧
    (after call initial [.uint64Rand]).wordAndCarry =
      multiplyWithCarry (2 ^ 58 + 1) (2 ^ 64) initial.wordAndCarry := by
  obtain ⟨hdrawn, -⟩ := kiss_draws
  have htwo := hdrawn initial twoDraws
  have hone := hdrawn initial [.uint64Rand]
  refine ⟨htwo.alive (by decide), htwo.carry (by decide), ?_, ?_⟩
  · intro hx
    have hdvd := (hone.recurs (by simp [Unseeded])).mp hx
    exact absurd hdvd (by decide)
  · apply hone.multiplied (by decide)
    intro early hearly hne
    obtain rfl | rfl : early = [] ∨ early = [.uint64Rand] := by
      simpa [List.prefix_cons_iff] using hearly
    · decide
    · exact absurd rfl hne

/-- Here the carry is lost, and nothing is carried into the next word. -/
example : (next ⟨1, 1, 63, 2 ^ 58⟩).wordAndCarry = (63, 0) := by decide

end RandomKiss

end Rodos
