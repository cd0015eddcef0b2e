import Rodos.SharedRingBuffer

namespace Rodos.CyclicReading

open SharedRingBuffer

variable {poolSize n : Nat} {W : Type}

section Methods

def put (poolSize : Nat) (newdata : Fin n → W) (b : RingBuffer n W) : RingBuffer n W where
  writeIndex := if b.writeIndex + 1 ≥ poolSize then 0 else b.writeIndex + 1
  readIndex := b.readIndex
  currentWrite := uint32Max
  vals := Function.update b.vals b.writeIndex newdata
  writeCnt := (b.writeCnt + 1) % 2 ^ 64
  readCnt := b.readCnt
  occupiedCnt := if b.occupiedCnt < poolSize then b.occupiedCnt + 1 else b.occupiedCnt

def readFrom (poolSize : Nat) (b : RingBuffer n W) : Nat :=
  let readIndex := if b.readIndex = b.currentWrite then b.readIndex + 1 else b.readIndex
  let readIndex := if readIndex ≥ poolSize then 0 else readIndex
  if b.writeCnt < poolSize ∧ readIndex ≥ b.writeIndex then 0 else readIndex

/-- A complete call of `get`, with the value that it returns true for. -/
def get (poolSize : Nat) (b : RingBuffer n W) : Option (Fin n → W) × RingBuffer n W :=
  if b.writeCnt = 0 then (none, b)
  else
    let readIndex := readFrom poolSize b
    (some (b.vals readIndex), { b with
      readIndex := if readIndex + 1 ≥ poolSize then 0 else readIndex + 1
      occupiedCnt := if b.occupiedCnt > 0 then b.occupiedCnt - 1 else b.occupiedCnt
      readCnt := (b.readCnt + 1) % 2 ^ 64 })

end Methods

section Alone

abbrev Alone (sideStep : System n W → Option (System n W)) : System n W → System n W → Prop :=
  Relation.ReflTransGen fun s t => sideStep s = some t

def copied (old new : Fin n → W) (i : Nat) : Fin n → W := fun k => if (k : Nat) < i then new k else old k

theorem copied_zero (old new : Fin n → W) : copied old new 0 = old := by
  funext k
  exact if_neg (Nat.not_lt_zero _)

theorem copied_all (old new : Fin n → W) : copied old new n = new := by
  funext k
  exact if_pos k.isLt

theorem update_copied (old new : Fin n → W) {i : Nat} (h : i < n) :
    Function.update (copied old new i) ⟨i, h⟩ (new ⟨i, h⟩) = copied old new (i + 1) := by
  funext k
  by_cases hk : k = ⟨i, h⟩
  · rw [hk, Function.update_self]
    exact (if_pos (Nat.lt_succ_self i)).symm
  · have hne : (k : Nat) ≠ i := fun heq => hk (Fin.ext heq)
    rw [Function.update_of_ne hk]
    apply if_congr _ rfl rfl
    omega

variable (poolSize)

theorem put_copies (s : System n W) (newdata : Fin n → W) {i : Nat} (hi : i ≤ n) :
    Alone (putStep poolSize)
      { s with
        vals := Function.update s.vals s.writeIndex (copied (s.vals s.writeIndex) newdata i)
        put := .copy newdata i }
      { s with
        vals := Function.update s.vals s.writeIndex newdata
        put := .advance
        written := s.written + 1 } := by
  induction hi using Nat.decreasingInduction with
  | self =>
    rw [copied_all]
    apply Relation.ReflTransGen.single
    rw [putStep]
    exact dif_neg (lt_irrefl n)
  | of_succ i hlt ih =>
    refine .head ?_ ih
    rw [putStep]
    dsimp only
    rw [dif_pos hlt, Function.update_self, update_copied, Function.update_idem]

theorem put_counts (s : System n W) :
    Alone (putStep poolSize) { s with put := .testOccupied }
      { s with
        occupiedCnt := if s.occupiedCnt < poolSize then s.occupiedCnt + 1 else s.occupiedCnt
        put := .countWrite } := by
  by_cases hroom : s.occupiedCnt < poolSize
  · have htest : putStep poolSize { s with put := .testOccupied } =
        some { s with put := .incOccupied } := by
      rw [putStep, if_pos hroom]
    rw [if_pos hroom]
    exact .head htest (.single rfl)
  · have htest : putStep poolSize { s with put := .testOccupied } =
        some { s with put := .countWrite } := by
      rw [putStep, if_neg hroom]
    rw [if_neg hroom]
    exact .single htest

theorem put_alone (s : System n W) (newdata : Fin n → W) :
    ∃ t, Alone (putStep poolSize) { s with put := .announce newdata } t ∧ t.put = .idle ∧
      t.toRingBuffer = put poolSize newdata s.toRingBuffer := by
  have hcopies := put_copies poolSize { s with currentWrite := s.writeIndex } newdata (Nat.zero_le n)
  rw [copied_zero, Function.update_eq_self] at hcopies
  have hcounts := put_counts poolSize { s with
    currentWrite := s.writeIndex
    vals := Function.update s.vals s.writeIndex newdata
    writeIndex := if s.writeIndex + 1 ≥ poolSize then 0 else s.writeIndex + 1
    written := s.written + 1 }
  have hadvance := hcopies.tail rfl
  have hwrap := hadvance.tail rfl
  have hcount := (hwrap.trans hcounts).tail rfl
  exact ⟨_, .head rfl (hcount.tail rfl), rfl, rfl⟩

theorem get_copies (s : System n W) (fromRing : Fin n → W) {i : Nat} (hi : i ≤ n) :
    Alone (getStep poolSize)
      { s with get := .copy (copied fromRing (s.vals s.readIndex) i) i }
      { s with get := .advance (s.vals s.readIndex) } := by
  induction hi using Nat.decreasingInduction with
  | self =>
    rw [copied_all]
    apply Relation.ReflTransGen.single
    rw [getStep]
    exact dif_neg (lt_irrefl n)
  | of_succ i hlt ih =>
    refine .head ?_ ih
    rw [getStep]
    dsimp only
    rw [dif_pos hlt, update_copied]

theorem get_counts (s : System n W) (fromRing : Fin n → W) :
    Alone (getStep poolSize) { s with get := .testOccupied fromRing }
      { s with
        occupiedCnt := if 0 < s.occupiedCnt then s.occupiedCnt - 1 else s.occupiedCnt
        get := .countRead fromRing } := by
  by_cases hsome : 0 < s.occupiedCnt
  · have htest : getStep poolSize { s with get := .testOccupied fromRing } =
        some { s with get := .decOccupied fromRing } := by
      simp only [getStep, if_pos hsome]
    rw [if_pos hsome]
    exact .head htest (.single rfl)
  · have htest : getStep poolSize { s with get := .testOccupied fromRing } =
        some { s with get := .countRead fromRing } := by
      simp only [getStep, if_neg hsome]
    rw [if_neg hsome]
    exact .single htest

theorem get_jumps (s : System n W) (fromRing : Fin n → W) :
    Alone (getStep poolSize) { s with get := .testCurrent fromRing }
      { s with
        readIndex := if s.readIndex = s.currentWrite then s.readIndex + 1 else s.readIndex
        get := .wrapJump fromRing } := by
  by_cases hcurrent : s.readIndex = s.currentWrite
  · have htest : getStep poolSize { s with get := .testCurrent fromRing } =
        some { s with get := .jump fromRing } := by
      simp only [getStep, if_pos hcurrent]
    rw [if_pos hcurrent]
    exact .head htest (.single rfl)
  · have htest : getStep poolSize { s with get := .testCurrent fromRing } =
        some { s with get := .wrapJump fromRing } := by
      simp only [getStep, if_neg hcurrent]
    rw [if_neg hcurrent]
    exact .single htest

theorem get_compares (s : System n W) (fromRing : Fin n → W) :
    Alone (getStep poolSize) { s with get := .compareCnt fromRing }
      { s with
        readIndex := if s.writeCnt < poolSize ∧ s.readIndex ≥ s.writeIndex then 0 else s.readIndex
        get := .copy fromRing 0 } := by
  by_cases hfew : s.writeCnt < poolSize
  · have htest : getStep poolSize { s with get := .compareCnt fromRing } =
        some { s with get := .compareIndex fromRing } := by
      simp only [getStep, if_pos hfew]
    simp only [hfew, true_and]
    exact .head htest (.single rfl)
  · have htest : getStep poolSize { s with get := .compareCnt fromRing } =
        some { s with get := .copy fromRing 0 } := by
      simp only [getStep, if_neg hfew]
    rw [if_neg fun h => hfew h.1]
    exact .single htest

theorem get_alone (s : System n W) (fromRing : Fin n → W) :
    ∃ t, Alone (getStep poolSize) { s with get := .testEmpty fromRing } t ∧ t.get = .idle ∧
      t.toRingBuffer = (get poolSize s.toRingBuffer).2 ∧
      t.gots = s.gots ++ (get poolSize s.toRingBuffer).1.toList := by
  rw [get]
  by_cases hempty : s.writeCnt = 0
  · have htest : getStep poolSize { s with get := .testEmpty fromRing } =
        some { s with get := .idle } := by
      simp only [getStep, if_pos hempty]
    rw [if_pos hempty]
    exact ⟨_, .single htest, rfl, rfl, (List.append_nil _).symm⟩
  · have htest : getStep poolSize { s with get := .testEmpty fromRing } =
        some { s with get := .testCurrent fromRing } := by
      simp only [getStep, if_neg hempty]
    rw [if_neg hempty]
    have hjumped := (get_jumps poolSize s fromRing).tail rfl
    have hcompared := get_compares poolSize { s with
      readIndex :=
        if (if s.readIndex = s.currentWrite then s.readIndex + 1 else s.readIndex) ≥ poolSize then 0
        else if s.readIndex = s.currentWrite then s.readIndex + 1 else s.readIndex } fromRing
    have hcopied := get_copies poolSize { s with readIndex := readFrom poolSize s.toRingBuffer }
      fromRing (Nat.zero_le n)
    rw [copied_zero] at hcopied
    have hwrapped := (hcopied.tail rfl).tail rfl
    have hcounted := get_counts poolSize { s with
      readIndex :=
        if readFrom poolSize s.toRingBuffer + 1 ≥ poolSize then 0
        else readFrom poolSize s.toRingBuffer + 1 } (s.vals (readFrom poolSize s.toRingBuffer))
    have hread := (hwrapped.trans hcounted).tail rfl
    exact ⟨_, .head htest ((hjumped.trans hcompared).trans hread), rfl, rfl, rfl⟩

end Alone

inductive Call (n : Nat) (W : Type)
  | put (newdata : Fin n → W)
  | get

def call (poolSize : Nat) : Call n W → RingBuffer n W → RingBuffer n W
  | .put newdata, b => put poolSize newdata b
  | .get, b => (get poolSize b).2

def execute (poolSize : Nat) (calls : List (Call n W)) (b : RingBuffer n W) : RingBuffer n W :=
  calls.foldl (fun b c => call poolSize c b) b

def gets (poolSize : Nat) : Nat → RingBuffer n W → List (Option (Fin n → W))
  | 0, _ => []
  | k + 1, b => (get poolSize b).1 :: gets poolSize k (get poolSize b).2

def puts : List (Call n W) → List (Fin n → W)
  | [] => []
  | .put newdata :: calls => newdata :: puts calls
  | .get :: calls => puts calls

def latest {α : Type} (poolSize : Nat) (log : List α) : List α := log.drop (log.length - poolSize)

structure Holds (poolSize : Nat) (b : RingBuffer n W) (log : List (Fin n → W)) : Prop where
  write : b.writeIndex = log.length % poolSize
  count : b.writeCnt = log.length % 2 ^ 64
  current : b.currentWrite = uint32Max
  read : b.readIndex < poolSize
  vals : ∀ k < log.length, log.length ≤ k + poolSize → log[k]? = some (b.vals (k % poolSize))

section Runs

variable {b : RingBuffer n W} {log : List (Fin n → W)}

theorem holds_constructed (hpool : 0 < poolSize) (vals : Nat → Fin n → W) :
    Holds poolSize (constructed vals).toRingBuffer [] where
  write := (Nat.zero_mod poolSize).symm
  count := rfl
  current := rfl
  read := hpool
  vals _ hk := absurd hk (Nat.not_lt_zero _)

theorem Holds.put (hpool : 0 < poolSize) (h : Holds poolSize b log) (newdata : Fin n → W) :
    Holds poolSize (put poolSize newdata b) (log ++ [newdata]) := by
  have hlength : (log ++ [newdata]).length = log.length + 1 := List.length_append
  refine ⟨?_, ?_, rfl, h.read, fun k hk hlast => ?_⟩
  · have hnext := Rodos.RingBuffer.succ_mod hpool log.length
    change (if b.writeIndex + 1 ≥ poolSize then 0 else b.writeIndex + 1) = _
    rw [hlength, ← hnext, h.write]
    split_ifs <;> omega
  · change (b.writeCnt + 1) % 2 ^ 64 = _
    rw [hlength, h.count, Nat.mod_add_mod]
  · change _ = some (Function.update b.vals b.writeIndex newdata (k % poolSize))
    rw [hlength] at hk hlast
    rw [h.write]
    by_cases hnew : k = log.length
    · subst hnew
      rw [Function.update_self, List.getElem?_concat_length]
    · have hlt : k < log.length := by omega
      have hne : k % poolSize ≠ log.length % poolSize := Rodos.RingBuffer.mod_ne hlt (by omega)
      rw [Function.update_of_ne hne, List.getElem?_append_left hlt]
      exact h.vals k hlt (by omega)

/-- The read index is brought back to the entries that have been written. -/
theorem Holds.readFrom_eq (hmax : poolSize < 2 ^ 32) (h : Holds poolSize b log)
    (hlog : log.length < 2 ^ 64) :
    readFrom poolSize b = if log.length < poolSize ∧ log.length ≤ b.readIndex then 0
      else b.readIndex := by
  have hread := h.read
  have hcurrent : b.readIndex ≠ b.currentWrite := by
    rw [h.current, uint32Max]
    omega
  have hcount : b.writeCnt = log.length := h.count.trans (Nat.mod_eq_of_lt hlog)
  simp only [readFrom, if_neg hcurrent, if_neg (Nat.not_le.mpr hread), hcount, h.write]
  by_cases hpart : log.length < poolSize
  · rw [Nat.mod_eq_of_lt hpart]
  · rw [if_neg fun hc => hpart hc.1, if_neg fun hc => hpart hc.1]

theorem get_of_pos (hlog : log.length < 2 ^ 64) (h : Holds poolSize b log) (hne : log ≠ []) :
    (get poolSize b).1 = some (b.vals (readFrom poolSize b)) := by
  have hcount : b.writeCnt ≠ 0 := by
    rw [h.count, Nat.mod_eq_of_lt hlog]
    exact List.length_eq_zero_iff.not.mpr hne
  rw [get, if_neg hcount]

theorem Holds.get (hpool : 0 < poolSize) (h : Holds poolSize b log) :
    Holds poolSize (get poolSize b).2 log := by
  rw [CyclicReading.get]
  split
  · exact h
  · refine ⟨h.write, h.count, h.current, ?_, h.vals⟩
    dsimp only
    split_ifs <;> omega

theorem vals_get (b : RingBuffer n W) : (get poolSize b).2.vals = b.vals := by
  rw [get]
  split <;> rfl

theorem Holds.execute (hpool : 0 < poolSize) (calls : List (Call n W)) (h : Holds poolSize b log) :
    Holds poolSize (execute poolSize calls b) (log ++ puts calls) := by
  induction calls generalizing b log with
  | nil => rwa [puts, List.append_nil]
  | cons c calls ih =>
    cases c with
    | put newdata =>
      have hrest := ih (h.put hpool newdata)
      rwa [List.append_assoc, List.singleton_append] at hrest
    | get => exact ih (h.get hpool)

section Round

variable (hmax : poolSize < 2 ^ 32) (hlog : log.length < 2 ^ 64)
include hmax hlog

theorem readFrom_lt (h : Holds poolSize b log) (hne : log ≠ []) :
    readFrom poolSize b < min log.length poolSize := by
  have hpos := List.length_pos_iff.mpr hne
  have hread := h.read
  rw [h.readFrom_eq hmax hlog]
  split_ifs <;> omega

/-- The next call goes on behind the entry read, and from the last one written to the
first. -/
theorem readFrom_get (hpool : 0 < poolSize) (h : Holds poolSize b log) (hne : log ≠ []) :
    readFrom poolSize (get poolSize b).2 =
      (readFrom poolSize b + 1) % min log.length poolSize := by
  have hlt := readFrom_lt hmax hlog h hne
  have hcount : b.writeCnt ≠ 0 := by
    rw [h.count, Nat.mod_eq_of_lt hlog]
    exact List.length_eq_zero_iff.not.mpr hne
  have hindex : (get poolSize b).2.readIndex =
      if readFrom poolSize b + 1 ≥ poolSize then 0 else readFrom poolSize b + 1 := by
    rw [get, if_neg hcount]
  rw [(h.get hpool).readFrom_eq hmax hlog, hindex]
  by_cases hlast : readFrom poolSize b + 1 = min log.length poolSize
  · rw [hlast, Nat.mod_self]
    split_ifs <;> omega
  · rw [Nat.mod_eq_of_lt (by omega)]
    split_ifs <;> omega

theorem gets_eq (hpool : 0 < poolSize) (k : Nat) (h : Holds poolSize b log) (hne : log ≠ []) :
    gets poolSize k b = (List.range k).map
      fun i => some (b.vals ((readFrom poolSize b + i) % min log.length poolSize)) := by
  induction k generalizing b with
  | zero => rfl
  | succ k ih =>
    have hlt := readFrom_lt hmax hlog h hne
    rw [gets, ih (h.get hpool), readFrom_get hmax hlog hpool h hne, vals_get,
      get_of_pos hlog h hne, List.range_succ_eq_map, List.map_cons, List.map_map]
    refine congrArg₂ List.cons ?_ ?_
    · rw [Nat.add_zero, Nat.mod_eq_of_lt hlt]
    · apply List.map_congr_left
      intro i _
      rw [Function.comp_apply, Nat.mod_add_mod, Nat.succ_eq_one_add, Nat.add_assoc]

end Round

theorem latest_eq (h : Holds poolSize b log) :
    latest poolSize log =
      ((List.range (min log.length poolSize)).map b.vals).rotate log.length := by
  rw [← Rodos.RingBuffer.map_range_rotate]
  apply List.ext_getElem?
  intro i
  rw [latest, List.getElem?_drop, List.getElem?_map]
  by_cases hi : i < min log.length poolSize
  · rw [List.getElem?_range hi, h.vals _ (by omega) (by omega), Option.map_some]
    congr 2
    obtain hpart | hfull := Nat.lt_or_ge log.length poolSize
    · rw [Nat.min_eq_left hpart.le, Nat.sub_eq_zero_of_le hpart.le, Nat.zero_add,
        Nat.add_mod_left, Nat.mod_eq_of_lt (by omega), Nat.mod_eq_of_lt (by omega)]
    · rw [Nat.min_eq_right hfull, ← Nat.add_mod_right (log.length - poolSize + i)]
      congr 1
      omega
  · rw [List.getElem?_eq_none (by omega), List.getElem?_eq_none (by rw [List.length_range]; omega)]
    rfl

theorem length_latest (log : List (Fin n → W)) :
    (latest poolSize log).length = min log.length poolSize := by
  rw [latest, List.length_drop]
  omega

theorem gets_perm (hpool : 0 < poolSize) (hmax : poolSize < 2 ^ 32) (hlog : log.length < 2 ^ 64)
    (h : Holds poolSize b log) :
    (gets poolSize (latest poolSize log).length b).Perm ((latest poolSize log).map some) := by
  by_cases hne : log = []
  · subst hne
    rw [latest, List.drop_nil]
    exact List.Perm.nil
  · rw [length_latest, gets_eq hmax hlog hpool _ h hne,
      Rodos.RingBuffer.map_range_rotate (fun i => some (b.vals i)), latest_eq h, List.map_rotate,
      List.map_map]
    exact (List.rotate_perm _ _).trans (List.rotate_perm _ _).symm

theorem get_none_iff (hlog : log.length < 2 ^ 64) (h : Holds poolSize b log) :
    (get poolSize b).1 = none ↔ log = [] := by
  constructor
  · intro hnone
    by_contra hne
    rw [get_of_pos hlog h hne] at hnone
    cases hnone
  · rintro rfl
    have hcount : b.writeCnt = 0 := h.count
    rw [get, if_pos hcount]

theorem get_mem_latest (hmax : poolSize < 2 ^ 32) (hlog : log.length < 2 ^ 64)
    (h : Holds poolSize b log) {val : Fin n → W} (hval : (get poolSize b).1 = some val) :
    val ∈ latest poolSize log := by
  have hne : log ≠ [] := fun hnil => by
    rw [(get_none_iff hlog h).mpr hnil] at hval
    cases hval
  rw [get_of_pos hlog h hne] at hval
  rw [latest_eq h, List.mem_rotate, List.mem_map]
  exact ⟨_, List.mem_range.mpr (readFrom_lt hmax hlog h hne), Option.some.inj hval⟩

end Runs

/-- As long as fewer than 2^64 values are put, `get` returns false exactly before the first
one, and otherwise goes round the latest values. -/
theorem cyclic_reading (hpool : 0 < poolSize) (hmax : poolSize < 2 ^ 32)
    (vals : Nat → Fin n → W) (calls : List (Call n W)) (hcalls : (puts calls).length < 2 ^ 64) :
    let b := execute poolSize calls (constructed vals).toRingBuffer
    ((get poolSize b).1 = none ↔ puts calls = []) ∧
    (∀ val, (get poolSize b).1 = some val → val ∈ latest poolSize (puts calls)) ∧
    (gets poolSize (latest poolSize (puts calls)).length b).Perm
      ((latest poolSize (puts calls)).map some) := by
  have hholds := (holds_constructed hpool vals).execute hpool calls
  rw [List.nil_append] at hholds
  exact ⟨get_none_iff hcalls hholds, fun _ => get_mem_latest hmax hcalls hholds,
    gets_perm hpool hmax hcalls hholds⟩

/-- Three values put into two entries, read from the middle of a round on. -/
theorem cyclic_reading_three :
    (gets 2 2 (execute 2 [.put ![1], .put ![2], .get, .put ![3]]
      (constructed fun _ => ![0]).toRingBuffer)).Perm [some ![2], some ![3]] :=
  (cyclic_reading (by decide) (by decide) (fun _ => ![(0 : Nat)])
    [.put ![1], .put ![2], .get, .put ![3]] (by decide)).2.2

theorem length_puts (k : Nat) (newdata : Fin n → W) :
    (puts (List.replicate k (Call.put newdata))).length = k := by
  induction k with
  | zero => rfl
  | succ k ih => rw [List.replicate_succ, puts, List.length_cons, ih]

/-- The counter of the values has gone round. -/
theorem get_wraps :
    puts (List.replicate (2 ^ 64) (Call.put ![(1 : Nat)])) ≠ [] ∧
    (get 1 (execute 1 (List.replicate (2 ^ 64) (Call.put ![1]))
      (constructed fun _ => ![0]).toRingBuffer)).1 = none := by
  have hlength := length_puts (2 ^ 64) ![(1 : Nat)]
  have hholds := (holds_constructed Nat.one_pos fun _ => ![(0 : Nat)]).execute Nat.one_pos
    (List.replicate (2 ^ 64) (Call.put ![1]))
  have hcount := hholds.count
  rw [List.nil_append, hlength, Nat.mod_self] at hcount
  constructor
  · intro hnil
    rw [hnil] at hlength
    cases hlength
  · rw [get, if_pos hcount]

end Rodos.CyclicReading
