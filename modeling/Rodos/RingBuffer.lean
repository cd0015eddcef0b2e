import Mathlib

namespace Rodos.RingBuffer

variable {α : Type} {len : Nat}

theorem succ_mod (hlen : 0 < len) (k : Nat) :
    (if k % len < len - 1 then k % len + 1 else 0) = (k + 1) % len := by
  have hlt := Nat.mod_lt k hlen
  rw [Nat.add_mod_eq_ite]
  by_cases hone : len = 1
  · subst hone
    simp [Nat.mod_one]
  · rw [Nat.mod_eq_of_lt (show 1 < len by omega)]
    split_ifs <;> omega

/-- Numbers that are less than a round apart are in different cells. -/
theorem mod_ne {a b : Nat} (hlt : a < b) (hround : b < a + len) : a % len ≠ b % len := by
  intro h
  obtain ⟨k, hk⟩ := (Nat.modEq_iff_dvd' hlt.le).mp h
  obtain rfl | hpos := Nat.eq_zero_or_pos k
  · omega
  · have hle : len * 1 ≤ len * k := Nat.mul_le_mul_left len hpos
    omega

theorem map_range_rotate (f : Nat → α) (r : Nat) :
    (List.range len).map (fun i => f ((r + i) % len)) = ((List.range len).map f).rotate r := by
  apply List.ext_getElem
  · simp
  · intro i hleft hright
    simp [List.getElem_rotate, Nat.add_comm]

/-- The entries of a log from number `start` on lie in the cells of a ring, each in
the cell of its number. -/
structure Ring (len : Nat) (cells : Nat → α) (readX writeX : Nat) (log : List α) (start : Nat) :
    Prop where
  read : readX = start % len
  write : writeX = log.length % len
  start_le : start ≤ log.length
  room : log.length < start + len
  holds : ∀ k, start ≤ k → k < log.length → log[k]? = some (cells (k % len))

/-- The cells from one index to the other, in the order of the ring. -/
def contents (len : Nat) (cells : Nat → α) (readX writeX : Nat) : List α :=
  (List.range (if readX ≤ writeX then writeX - readX else len - readX + writeX)).map
    fun i => cells ((readX + i) % len)

theorem ring_empty (hlen : 0 < len) (cells : Nat → α) : Ring len cells 0 0 [] 0 where
  read := (Nat.zero_mod len).symm
  write := (Nat.zero_mod len).symm
  start_le := Nat.le_refl 0
  room := by simpa using hlen
  holds k _ hk := absurd hk (Nat.not_lt_zero k)

namespace Ring

variable {cells : Nat → α} {readX writeX : Nat} {log : List α} {start : Nat}
  (h : Ring len cells readX writeX log start)
include h

theorem len_pos : 0 < len := by
  have hstart := h.start_le
  have hroom := h.room
  omega

theorem read_lt : readX < len := h.read ▸ Nat.mod_lt start h.len_pos

theorem write_lt : writeX < len := h.write ▸ Nat.mod_lt log.length h.len_pos

theorem empty_iff : readX = writeX ↔ start = log.length := by
  rw [h.read, h.write]
  refine ⟨fun heq => ?_, fun heq => by rw [heq]⟩
  by_contra hne
  exact mod_ne (Nat.lt_of_le_of_ne h.start_le hne) h.room heq

theorem full_iff : (log.length + 1) % len = readX ↔ log.length + 1 = start + len := by
  have hstart := h.start_le
  have hroom := h.room
  rw [h.read]
  constructor
  · intro heq
    by_contra hne
    exact mod_ne (show start < log.length + 1 by omega) (by omega) heq.symm
  · intro heq
    rw [heq, Nat.add_mod_right]

theorem update {p : Nat} (hbehind : log.length ≤ p) (hround : p < start + len) (v : α) :
    Ring len (Function.update cells (p % len) v) readX writeX log start := by
  refine ⟨h.read, h.write, h.start_le, h.room, fun k hstart hk => ?_⟩
  rw [h.holds k hstart hk, Function.update_of_ne]
  exact mod_ne (by omega) (by omega)

theorem append (more : List α) (hroom : log.length + more.length < start + len)
    (hcells : ∀ i < more.length, more[i]? = some (cells ((log.length + i) % len))) :
    Ring len cells readX ((log.length + more.length) % len) (log ++ more) start := by
  have hstart := h.start_le
  refine ⟨h.read, by simp, by simp; omega, by simpa using hroom, fun k hk hlast => ?_⟩
  rw [List.length_append] at hlast
  by_cases hold : k < log.length
  · rw [List.getElem?_append_left hold]
    exact h.holds k hk hold
  · rw [List.getElem?_append_right (by omega), hcells _ (by omega), Nat.add_sub_cancel' (by omega)]

theorem push {v : α} (hcell : cells writeX = v) (hroom : log.length + 1 < start + len) :
    Ring len cells readX ((log.length + 1) % len) (log ++ [v]) start := by
  refine h.append [v] hroom fun i hi => ?_
  obtain rfl : i = 0 := by simpa using hi
  rw [Nat.add_zero, ← h.write, hcell]
  rfl

theorem first (hstart : start < log.length) : log[start]? = some (cells readX) := by
  rw [h.read]
  exact h.holds start (Nat.le_refl start) hstart

theorem drop {n : Nat} (hn : start + n ≤ log.length) :
    Ring len cells ((start + n) % len) writeX log (start + n) := by
  have hroom := h.room
  exact ⟨rfl, h.write, hn, by omega, fun k hk hlast => h.holds k (by omega) hlast⟩

theorem pop (hstart : start < log.length) :
    Ring len cells ((start + 1) % len) writeX log (start + 1) :=
  h.drop hstart

theorem count_eq :
    (if readX ≤ writeX then writeX - readX else len - readX + writeX) = log.length - start := by
  have hstart := h.start_le
  have hroom := h.room
  have hread := h.read_lt
  have hsum : (readX + (log.length - start)) % len = writeX := by
    rw [h.read, h.write, Nat.mod_add_mod, Nat.add_sub_cancel' hstart]
  by_cases hwrap : readX + (log.length - start) < len
  · rw [Nat.mod_eq_of_lt hwrap] at hsum
    rw [if_pos (by omega)]
    omega
  · rw [Nat.mod_eq_sub_mod (by omega), Nat.mod_eq_of_lt (by omega)] at hsum
    rw [if_neg (by omega)]
    omega

theorem contents_eq : contents len cells readX writeX = log.drop start := by
  refine List.ext_getElem? fun i => ?_
  rw [contents, h.count_eq, List.getElem?_map, List.getElem?_drop]
  by_cases hi : i < log.length - start
  · rw [List.getElem?_range hi, Option.map_some, h.holds (start + i) (by omega) (by omega), h.read,
      Nat.mod_add_mod]
  · rw [List.getElem?_eq_none (by simpa using hi), List.getElem?_eq_none (by omega)]
    rfl

end Ring

end Rodos.RingBuffer
