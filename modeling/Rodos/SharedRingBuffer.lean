import Rodos.RingBuffer
import Rodos.TransitionSystem

namespace Rodos.SharedRingBuffer

open TransitionSystem

variable {poolSize n : Nat} {W : Type}

def uint32Max : Nat := 2 ^ 32 - 1

structure RingBuffer (n : Nat) (W : Type) where
  writeIndex : Nat
  readIndex : Nat
  currentWrite : Nat
  vals : Nat → Fin n → W
  writeCnt : Nat
  readCnt : Nat
  occupiedCnt : Nat

inductive PutPc (n : Nat) (W : Type)
  | idle
  | announce (newdata : Fin n → W)
  | copy (newdata : Fin n → W) (i : Nat)
  | advance
  | wrap
  | testOccupied
  | incOccupied
  | countWrite
  | withdraw

inductive GetPc (n : Nat) (W : Type)
  | idle
  | testEmpty (fromRing : Fin n → W)
  | testCurrent (fromRing : Fin n → W)
  | jump (fromRing : Fin n → W)
  | wrapJump (fromRing : Fin n → W)
  | compareCnt (fromRing : Fin n → W)
  | compareIndex (fromRing : Fin n → W)
  | copy (fromRing : Fin n → W) (i : Nat)
  | advance (fromRing : Fin n → W)
  | wrap (fromRing : Fin n → W)
  | testOccupied (fromRing : Fin n → W)
  | decOccupied (fromRing : Fin n → W)
  | countRead (fromRing : Fin n → W)

/-- The buffer with its writer and its reader. The values that have been put and got so
far are recorded, and how many of them have been copied into the buffer. -/
structure System (n : Nat) (W : Type) extends RingBuffer n W where
  put : PutPc n W
  get : GetPc n W
  puts : List (Fin n → W)
  gots : List (Fin n → W)
  written : Nat

inductive Event (n : Nat) (W : Type)
  | put (newdata : Fin n → W)
  | writer
  | get (fromRing : Fin n → W)
  | reader

def putStep (poolSize : Nat) (s : System n W) : Option (System n W) :=
  match s.put with
  | .idle => none
  | .announce newdata => some { s with currentWrite := s.writeIndex, put := .copy newdata 0 }
  | .copy newdata i =>
    if h : i < n then
      let words := Function.update (s.vals s.writeIndex) ⟨i, h⟩ (newdata ⟨i, h⟩)
      some { s with
        vals := Function.update s.vals s.writeIndex words
        put := .copy newdata (i + 1) }
    else some { s with put := .advance, written := s.written + 1 }
  | .advance => some { s with writeIndex := s.writeIndex + 1, put := .wrap }
  | .wrap => some { s with
      writeIndex := if s.writeIndex ≥ poolSize then 0 else s.writeIndex
      put := .testOccupied }
  | .testOccupied =>
    some { s with put := if s.occupiedCnt < poolSize then .incOccupied else .countWrite }
  | .incOccupied => some { s with occupiedCnt := s.occupiedCnt + 1, put := .countWrite }
  | .countWrite => some { s with writeCnt := (s.writeCnt + 1) % 2 ^ 64, put := .withdraw }
  | .withdraw => some { s with currentWrite := uint32Max, put := .idle }

def getStep (poolSize : Nat) (s : System n W) : Option (System n W) :=
  match s.get with
  | .idle => none
  | .testEmpty fromRing =>
    some { s with get := if s.writeCnt = 0 then .idle else .testCurrent fromRing }
  | .testCurrent fromRing =>
    some { s with get := if s.readIndex = s.currentWrite then .jump fromRing else .wrapJump fromRing }
  | .jump fromRing => some { s with readIndex := s.readIndex + 1, get := .wrapJump fromRing }
  | .wrapJump fromRing => some { s with
      readIndex := if s.readIndex ≥ poolSize then 0 else s.readIndex
      get := .compareCnt fromRing }
  | .compareCnt fromRing =>
    some { s with get := if s.writeCnt < poolSize then .compareIndex fromRing else .copy fromRing 0 }
  | .compareIndex fromRing => some { s with
      readIndex := if s.readIndex ≥ s.writeIndex then 0 else s.readIndex
      get := .copy fromRing 0 }
  | .copy fromRing i =>
    if h : i < n then
      let words := Function.update fromRing ⟨i, h⟩ (s.vals s.readIndex ⟨i, h⟩)
      some { s with get := .copy words (i + 1) }
    else some { s with get := .advance fromRing }
  | .advance fromRing => some { s with readIndex := s.readIndex + 1, get := .wrap fromRing }
  | .wrap fromRing => some { s with
      readIndex := if s.readIndex ≥ poolSize then 0 else s.readIndex
      get := .testOccupied fromRing }
  | .testOccupied fromRing =>
    some { s with get := if 0 < s.occupiedCnt then .decOccupied fromRing else .countRead fromRing }
  | .decOccupied fromRing =>
    some { s with occupiedCnt := s.occupiedCnt - 1, get := .countRead fromRing }
  | .countRead fromRing => some { s with
      readCnt := (s.readCnt + 1) % 2 ^ 64
      get := .idle
      gots := s.gots ++ [fromRing] }

def step (poolSize : Nat) : Event n W → System n W → Option (System n W)
  | .put newdata, s =>
    match s.put with
    | .idle => some { s with put := .announce newdata, puts := s.puts ++ [newdata] }
    | _ => none
  | .writer, s => putStep poolSize s
  | .get fromRing, s =>
    match s.get with
    | .idle => some { s with get := .testEmpty fromRing }
    | _ => none
  | .reader, s => getStep poolSize s

def constructed (vals : Nat → Fin n → W) : System n W where
  writeIndex := 0
  readIndex := 0
  currentWrite := uint32Max
  vals := vals
  writeCnt := 0
  readCnt := 0
  occupiedCnt := 0
  put := .idle
  get := .idle
  puts := []
  gots := []
  written := 0

/-- The entry to which `put` copies its next word. -/
def storesTo (s : System n W) : Option Nat :=
  match s.put with
  | .copy _ i => if i < n then some s.writeIndex else none
  | _ => none

/-- The entry from which `get` copies its next word. -/
def loadsFrom (s : System n W) : Option Nat :=
  match s.get with
  | .copy _ i => if i < n then some s.readIndex else none
  | _ => none

/-- The entry that `put` has written in part. -/
def insidePut (s : System n W) : Option Nat :=
  match s.put with
  | .copy _ i => if 0 < i ∧ i < n then some s.writeIndex else none
  | _ => none

/-- The entry that `get` has read in part. -/
def insideGet (s : System n W) : Option Nat :=
  match s.get with
  | .copy _ i => if 0 < i ∧ i < n then some s.readIndex else none
  | _ => none

structure Whole (poolSize : Nat) (s : System n W) : Prop where
  gots : ∀ v ∈ s.gots, v ∈ s.puts
  writes : ∀ p, storesTo s = some p → p < poolSize
  reads : ∀ p, loadsFrom s = some p → p < poolSize

/-- No word is copied to an entry that `get` has read in part, and none from an entry that
`put` has written in part. -/
def Separate : Event n W → System n W → Prop
  | .writer, s => storesTo s = none ∨ storesTo s ≠ insideGet s
  | .reader, s => loadsFrom s = none ∨ loadsFrom s ≠ insidePut s
  | _, _ => True

instance : (e : Event n W) → (s : System n W) → Decidable (Separate e s)
  | .writer, s => inferInstanceAs (Decidable (storesTo s = none ∨ storesTo s ≠ insideGet s))
  | .reader, s => inferInstanceAs (Decidable (loadsFrom s = none ∨ loadsFrom s ≠ insidePut s))
  | .put _, _ => isTrue trivial
  | .get _, _ => isTrue trivial

section Invariant

def PutOk (poolSize : Nat) (s : System n W) : Prop :=
  match s.put with
  | .idle | .withdraw => s.writeIndex = s.written % poolSize ∧ s.writeCnt ≤ s.written
  | .announce newdata =>
    s.writeIndex = s.written % poolSize ∧ s.writeCnt ≤ s.written ∧ newdata ∈ s.puts
  | .copy newdata i =>
    s.writeIndex = s.written % poolSize ∧ s.writeCnt ≤ s.written ∧ newdata ∈ s.puts ∧ i ≤ n ∧
      ∀ k : Fin n, k < i → s.vals s.writeIndex k = newdata k
  | .advance => s.writeIndex = (s.written - 1) % poolSize ∧ s.writeCnt < s.written
  | .wrap => s.writeIndex = (s.written - 1) % poolSize + 1 ∧ s.writeCnt < s.written
  | .testOccupied | .incOccupied | .countWrite =>
    s.writeIndex = s.written % poolSize ∧ s.writeCnt < s.written

/-- The words that `get` has copied are from one value, which is still in its place. -/
def GetOk (poolSize : Nat) (s : System n W) : Prop :=
  match s.get with
  | .idle | .testEmpty _ => s.readIndex < poolSize
  | .testCurrent _ | .jump _ | .compareCnt _ | .compareIndex _ =>
    s.readIndex < poolSize ∧ 0 < s.written
  | .wrapJump _ => s.readIndex ≤ poolSize ∧ 0 < s.written
  | .copy fromRing i => s.readIndex < poolSize ∧ s.readIndex < s.written ∧ i ≤ n ∧
      (0 < i → ∃ v ∈ s.puts, (∀ k : Fin n, k < i → fromRing k = v k) ∧
        (i < n → s.vals s.readIndex = v))
  | .advance fromRing | .testOccupied fromRing | .decOccupied fromRing | .countRead fromRing =>
    s.readIndex < poolSize ∧ fromRing ∈ s.puts
  | .wrap fromRing => s.readIndex ≤ poolSize ∧ fromRing ∈ s.puts

structure Inv (poolSize : Nat) (s : System n W) : Prop where
  put : PutOk poolSize s
  get : GetOk poolSize s
  stored : ∀ p < poolSize, p < s.written → s.vals p ∈ s.puts ∨ insidePut s = some p
  gots : ∀ v ∈ s.gots, v ∈ s.puts

theorem inv_constructed (hpool : 0 < poolSize) (vals : Nat → Fin n → W) :
    Inv poolSize (constructed vals) :=
  ⟨⟨(Nat.zero_mod poolSize).symm, Nat.le_refl 0⟩, hpool, fun _ _ hp => absurd hp (Nat.not_lt_zero _),
    nofun⟩

variable {s t : System n W}

theorem PutOk.bounds (h : PutOk poolSize s) :
    s.writeIndex ≤ s.written ∧ s.writeCnt ≤ s.written := by
  have hmod := Nat.mod_le s.written poolSize
  have hmod' := Nat.mod_le (s.written - 1) poolSize
  rw [PutOk] at h
  split at h <;> omega

/-- What `get` has found out stays true while its entry is not written. -/
theorem GetOk.mono (h : GetOk poolSize s) (hget : t.get = s.get)
    (hread : t.readIndex = s.readIndex) (hwritten : s.written ≤ t.written)
    (hputs : s.puts ⊆ t.puts)
    (hvals : insideGet s = some s.readIndex → t.vals s.readIndex = s.vals s.readIndex) :
    GetOk poolSize t := by
  rw [GetOk] at h ⊢
  rw [hget, hread]
  split at h
  · exact h
  · exact h
  · exact ⟨h.1, h.2.trans_le hwritten⟩
  · exact ⟨h.1, h.2.trans_le hwritten⟩
  · exact ⟨h.1, h.2.trans_le hwritten⟩
  · exact ⟨h.1, h.2.trans_le hwritten⟩
  · exact ⟨h.1, h.2.trans_le hwritten⟩
  · rename_i fromRing i hpc
    refine ⟨h.1, h.2.1.trans_le hwritten, h.2.2.1, fun hi => ?_⟩
    obtain ⟨v, hv, hwords, hplace⟩ := h.2.2.2 hi
    refine ⟨v, hputs hv, hwords, fun hlt => ?_⟩
    rw [hvals (by rw [insideGet, hpc]; exact if_pos ⟨hi, hlt⟩)]
    exact hplace hlt
  · exact ⟨h.1, hputs h.2⟩
  · exact ⟨h.1, hputs h.2⟩
  · exact ⟨h.1, hputs h.2⟩
  · exact ⟨h.1, hputs h.2⟩
  · exact ⟨h.1, hputs h.2⟩

theorem Inv.stored_of_none (h : Inv poolSize s) (hnone : insidePut s = none) {p : Nat}
    (hp : p < poolSize) (hwritten : p < s.written) : s.vals p ∈ s.puts := by
  refine (h.stored p hp hwritten).resolve_right ?_
  rw [hnone]
  nofun

theorem Inv.store (h : Inv poolSize s) (hseparate : Separate .writer s) {newdata : Fin n → W}
    {i : Nat} (hpc : s.put = .copy newdata i) (hi : i < n) :
    Inv poolSize { s with
      vals := Function.update s.vals s.writeIndex
        (Function.update (s.vals s.writeIndex) ⟨i, hi⟩ (newdata ⟨i, hi⟩))
      put := .copy newdata (i + 1) } := by
  have hput := h.put
  rw [PutOk, hpc] at hput
  obtain ⟨hindex, hcnt, hnew, _, hwords⟩ := hput
  have hstores : storesTo s = some s.writeIndex := by
    rw [storesTo, hpc]
    exact if_pos hi
  have hwords' : ∀ k : Fin n, (k : Nat) < i + 1 →
      Function.update (s.vals s.writeIndex) ⟨i, hi⟩ (newdata ⟨i, hi⟩) k = newdata k := by
    intro k hk
    by_cases heq : k = ⟨i, hi⟩
    · rw [heq, Function.update_self]
    · rw [Function.update_of_ne heq]
      exact hwords k (by
        have hne : (k : Nat) ≠ i := fun hval => heq (Fin.ext hval)
        omega)
  refine ⟨⟨hindex, hcnt, hnew, hi, ?_⟩, h.get.mono rfl rfl (Nat.le_refl _) (List.Subset.refl _) ?_,
    ?_, h.gots⟩
  · intro k hk
    dsimp only
    rw [Function.update_self]
    exact hwords' k hk
  · intro hinside
    obtain hnone | hne := hseparate
    · rw [hstores] at hnone
      cases hnone
    · have hplace : s.readIndex ≠ s.writeIndex := fun heq => by
        rw [hstores, hinside, heq] at hne
        exact hne rfl
      dsimp only
      rw [Function.update_of_ne hplace]
  · intro p hp hwritten
    dsimp only
    by_cases heq : p = s.writeIndex
    · subst heq
      rw [Function.update_self]
      by_cases hlast : i + 1 < n
      · exact .inr (if_pos ⟨Nat.succ_pos i, hlast⟩)
      · left
        convert hnew using 1
        exact funext fun k => hwords' k (by omega)
    · rw [Function.update_of_ne heq]
      refine (h.stored p hp hwritten).imp_right fun hinside => ?_
      rw [insidePut, hpc] at hinside
      dsimp only at hinside
      split at hinside
      · exact absurd (Option.some.inj hinside).symm heq
      · cases hinside

theorem Inv.stored_all (h : Inv poolSize s) {newdata : Fin n → W} {i : Nat}
    (hpc : s.put = .copy newdata i) (hi : ¬i < n) :
    Inv poolSize { s with put := .advance, written := s.written + 1 } := by
  have hput := h.put
  rw [PutOk, hpc] at hput
  obtain ⟨hindex, hcnt, hnew, _, hwords⟩ := hput
  have hnone : insidePut s = none := by
    rw [insidePut, hpc]
    exact if_neg fun hmid => hi hmid.2
  refine ⟨⟨hindex, Nat.lt_succ_of_le hcnt⟩,
    h.get.mono rfl rfl (Nat.le_succ _) (List.Subset.refl _) fun _ => rfl, ?_, h.gots⟩
  intro p hp hwritten
  dsimp only at hwritten ⊢
  left
  by_cases hold : p < s.written
  · exact h.stored_of_none hnone hp hold
  · obtain rfl : p = s.writeIndex := by
      rw [hindex, Nat.mod_eq_of_lt (by omega)]
      omega
    convert hnew using 1
    exact funext fun k => hwords k (by omega)

/-- Every other statement of `put` moves the indices and the counters only. -/
theorem Inv.writer_moves (h : Inv poolSize s) (hnone : insidePut s = none) (hput : PutOk poolSize t)
    (hvals : t.vals = s.vals) (hputs : t.puts = s.puts) (hwritten : t.written = s.written)
    (hget : t.get = s.get) (hread : t.readIndex = s.readIndex) (hgots : t.gots = s.gots) :
    Inv poolSize t := by
  refine ⟨hput, h.get.mono hget hread hwritten.ge ?_ fun _ => by rw [hvals], fun p hp hw => ?_, ?_⟩
  · rw [hputs]
    exact List.Subset.refl _
  · rw [hvals, hputs]
    exact .inl (h.stored_of_none hnone hp (hwritten ▸ hw))
  · rw [hgots, hputs]
    exact h.gots

theorem Inv.putStep (hpool : 0 < poolSize) (h : Inv poolSize s) (hseparate : Separate .writer s)
    (hstep : putStep poolSize s = some t) : Inv poolSize t := by
  have hput := h.put
  cases hpc : s.put with
  | idle =>
    rw [SharedRingBuffer.putStep, hpc] at hstep
    cases hstep
  | announce newdata =>
    rw [PutOk, hpc] at hput
    have hnone : insidePut s = none := by rw [insidePut, hpc]
    rw [SharedRingBuffer.putStep, hpc] at hstep
    cases hstep
    exact h.writer_moves hnone
      ⟨hput.1, hput.2.1, hput.2.2, Nat.zero_le n, fun k hk => absurd hk (Nat.not_lt_zero _)⟩
      rfl rfl rfl rfl rfl rfl
  | copy newdata i =>
    rw [SharedRingBuffer.putStep, hpc] at hstep
    dsimp only at hstep
    split at hstep
    · rename_i hi
      cases hstep
      exact h.store hseparate hpc hi
    · rename_i hi
      cases hstep
      exact h.stored_all hpc hi
  | advance =>
    rw [PutOk, hpc] at hput
    have hnone : insidePut s = none := by rw [insidePut, hpc]
    rw [SharedRingBuffer.putStep, hpc] at hstep
    cases hstep
    exact h.writer_moves hnone ⟨congrArg (· + 1) hput.1, hput.2⟩ rfl rfl rfl rfl rfl rfl
  | wrap =>
    rw [PutOk, hpc] at hput
    have hnone : insidePut s = none := by rw [insidePut, hpc]
    rw [SharedRingBuffer.putStep, hpc] at hstep
    cases hstep
    refine h.writer_moves hnone ⟨?_, hput.2⟩ rfl rfl rfl rfl rfl rfl
    have hnext := Rodos.RingBuffer.succ_mod hpool (s.written - 1)
    rw [Nat.sub_add_cancel (by omega)] at hnext
    dsimp only
    rw [hput.1, ← hnext]
    split_ifs <;> omega
  | testOccupied =>
    rw [PutOk, hpc] at hput
    have hnone : insidePut s = none := by rw [insidePut, hpc]
    rw [SharedRingBuffer.putStep, hpc] at hstep
    cases hstep
    refine h.writer_moves hnone ?_ rfl rfl rfl rfl rfl rfl
    rw [PutOk]
    split_ifs <;> exact hput
  | incOccupied =>
    rw [PutOk, hpc] at hput
    have hnone : insidePut s = none := by rw [insidePut, hpc]
    rw [SharedRingBuffer.putStep, hpc] at hstep
    cases hstep
    exact h.writer_moves hnone hput rfl rfl rfl rfl rfl rfl
  | countWrite =>
    rw [PutOk, hpc] at hput
    have hnone : insidePut s = none := by rw [insidePut, hpc]
    rw [SharedRingBuffer.putStep, hpc] at hstep
    cases hstep
    exact h.writer_moves hnone ⟨hput.1, (Nat.mod_le _ _).trans hput.2⟩ rfl rfl rfl rfl rfl rfl
  | withdraw =>
    rw [PutOk, hpc] at hput
    have hnone : insidePut s = none := by rw [insidePut, hpc]
    rw [SharedRingBuffer.putStep, hpc] at hstep
    cases hstep
    exact h.writer_moves hnone hput rfl rfl rfl rfl rfl rfl

theorem Inv.exists_put (hpool : 0 < poolSize) (h : Inv poolSize s) (hwritten : 0 < s.written) :
    ∃ v, v ∈ s.puts := by
  obtain hstored | hinside := h.stored 0 hpool hwritten
  · exact ⟨_, hstored⟩
  · rw [insidePut] at hinside
    split at hinside
    · rename_i newdata i hpc
      have hput := h.put
      rw [PutOk, hpc] at hput
      exact ⟨newdata, hput.2.2.1⟩
    · cases hinside

theorem Inv.load (h : Inv poolSize s) (hseparate : Separate .reader s) {fromRing : Fin n → W}
    {i : Nat} (hpc : s.get = .copy fromRing i) (hi : i < n) :
    Inv poolSize { s with
      get := .copy (Function.update fromRing ⟨i, hi⟩ (s.vals s.readIndex ⟨i, hi⟩)) (i + 1) } := by
  have hget := h.get
  rw [GetOk, hpc] at hget
  obtain ⟨hread, hwritten, _, hvalue⟩ := hget
  have hplace : ∃ v ∈ s.puts, (∀ k : Fin n, k < i → fromRing k = v k) ∧ s.vals s.readIndex = v := by
    obtain rfl | hpos := Nat.eq_zero_or_pos i
    · have hloads : loadsFrom s = some s.readIndex := by
        rw [loadsFrom, hpc]
        exact if_pos hi
      obtain hstored | hinside := h.stored s.readIndex hread hwritten
      · exact ⟨_, hstored, fun k hk => absurd hk (Nat.not_lt_zero _), rfl⟩
      · obtain hnone | hne := hseparate
        · rw [hloads] at hnone
          cases hnone
        · exact absurd (hloads.trans hinside.symm) hne
    · obtain ⟨v, hv, hwords, hsame⟩ := hvalue hpos
      exact ⟨v, hv, hwords, hsame hi⟩
  obtain ⟨v, hv, hwords, rfl⟩ := hplace
  refine ⟨h.put, ⟨hread, hwritten, hi, fun _ => ⟨_, hv, fun k hk => ?_, fun _ => rfl⟩⟩, h.stored,
    h.gots⟩
  by_cases heq : k = ⟨i, hi⟩
  · rw [heq, Function.update_self]
  · have hne : (k : Nat) ≠ i := fun hval => heq (Fin.ext hval)
    rw [Function.update_of_ne heq]
    exact hwords k (by omega)

theorem Inv.loaded (hpool : 0 < poolSize) (h : Inv poolSize s) {fromRing : Fin n → W} {i : Nat}
    (hpc : s.get = .copy fromRing i) (hi : ¬i < n) : fromRing ∈ s.puts := by
  have hget := h.get
  rw [GetOk, hpc] at hget
  obtain ⟨_, hwritten, _, hvalue⟩ := hget
  obtain ⟨v, hv, hsame⟩ : ∃ v ∈ s.puts, ∀ k : Fin n, fromRing k = v k := by
    obtain rfl | hpos := Nat.eq_zero_or_pos i
    · obtain ⟨v, hv⟩ := h.exists_put hpool (by omega)
      exact ⟨v, hv, fun k => absurd (Nat.zero_lt_of_lt k.isLt) hi⟩
    · obtain ⟨v, hv, hwords, _⟩ := hvalue hpos
      exact ⟨v, hv, fun k => hwords k (by omega)⟩
  convert hv using 1
  exact funext hsame

theorem wrapped_lt (hpool : 0 < poolSize) (index : Nat) :
    (if index ≥ poolSize then 0 else index) < poolSize := by
  split_ifs <;> omega

section GetPlaces

variable {fromRing : Fin n → W} (h : Inv poolSize s) (hstep : getStep poolSize s = some t)
include h hstep

theorem Inv.testsEmpty (hpc : s.get = .testEmpty fromRing) : Inv poolSize t := by
  have hget := h.get
  have hbounds := h.put.bounds
  rw [GetOk, hpc] at hget
  rw [SharedRingBuffer.getStep, hpc] at hstep
  cases hstep
  refine ⟨h.put, ?_, h.stored, h.gots⟩
  rw [GetOk]
  split_ifs
  · exact hget
  · exact ⟨hget, by dsimp only; omega⟩

theorem Inv.testsCurrent (hpc : s.get = .testCurrent fromRing) : Inv poolSize t := by
  have hget := h.get
  rw [GetOk, hpc] at hget
  rw [SharedRingBuffer.getStep, hpc] at hstep
  cases hstep
  refine ⟨h.put, ?_, h.stored, h.gots⟩
  rw [GetOk]
  split_ifs
  · exact hget
  · exact ⟨hget.1.le, hget.2⟩

theorem Inv.comparesCnt (hpc : s.get = .compareCnt fromRing) : Inv poolSize t := by
  have hget := h.get
  have hbounds := h.put.bounds
  rw [GetOk, hpc] at hget
  rw [SharedRingBuffer.getStep, hpc] at hstep
  cases hstep
  refine ⟨h.put, ?_, h.stored, h.gots⟩
  rw [GetOk]
  split_ifs
  · exact hget
  · exact ⟨hget.1, by dsimp only; omega, Nat.zero_le n, fun hlt => absurd hlt (Nat.not_lt_zero 0)⟩

theorem Inv.comparesIndex (hpc : s.get = .compareIndex fromRing) : Inv poolSize t := by
  have hget := h.get
  have hbounds := h.put.bounds
  rw [GetOk, hpc] at hget
  rw [SharedRingBuffer.getStep, hpc] at hstep
  cases hstep
  refine ⟨h.put, ⟨?_, ?_, Nat.zero_le n, fun hlt => absurd hlt (Nat.not_lt_zero 0)⟩, h.stored,
    h.gots⟩
  · dsimp only
    split_ifs <;> omega
  · dsimp only
    split_ifs <;> omega

theorem Inv.copies {i : Nat} (hpool : 0 < poolSize) (hseparate : Separate .reader s)
    (hpc : s.get = .copy fromRing i) : Inv poolSize t := by
  have hget := h.get
  rw [GetOk, hpc] at hget
  rw [SharedRingBuffer.getStep, hpc] at hstep
  dsimp only at hstep
  split at hstep
  · rename_i hi
    cases hstep
    exact h.load hseparate hpc hi
  · rename_i hi
    cases hstep
    exact ⟨h.put, ⟨hget.1, h.loaded hpool hpc hi⟩, h.stored, h.gots⟩

theorem Inv.moves (hpool : 0 < poolSize) (hpc : s.get = .jump fromRing ∨ s.get = .wrapJump fromRing ∨
    s.get = .advance fromRing ∨ s.get = .wrap fromRing) : Inv poolSize t := by
  have hget := h.get
  obtain hpc | hpc | hpc | hpc := hpc
  · rw [GetOk, hpc] at hget
    rw [SharedRingBuffer.getStep, hpc] at hstep
    cases hstep
    exact ⟨h.put, ⟨hget.1, hget.2⟩, h.stored, h.gots⟩
  · rw [GetOk, hpc] at hget
    rw [SharedRingBuffer.getStep, hpc] at hstep
    cases hstep
    exact ⟨h.put, ⟨wrapped_lt hpool s.readIndex, hget.2⟩, h.stored, h.gots⟩
  · rw [GetOk, hpc] at hget
    rw [SharedRingBuffer.getStep, hpc] at hstep
    cases hstep
    exact ⟨h.put, ⟨hget.1, hget.2⟩, h.stored, h.gots⟩
  · rw [GetOk, hpc] at hget
    rw [SharedRingBuffer.getStep, hpc] at hstep
    cases hstep
    exact ⟨h.put, ⟨wrapped_lt hpool s.readIndex, hget.2⟩, h.stored, h.gots⟩

/-- The places behind the copy, where only the counters change. -/
theorem Inv.finishes (hpc : s.get = .testOccupied fromRing ∨ s.get = .decOccupied fromRing ∨
    s.get = .countRead fromRing) : Inv poolSize t := by
  have hget := h.get
  obtain hpc | hpc | hpc := hpc
  · rw [GetOk, hpc] at hget
    rw [SharedRingBuffer.getStep, hpc] at hstep
    cases hstep
    refine ⟨h.put, ?_, h.stored, h.gots⟩
    rw [GetOk]
    split_ifs <;> exact hget
  · rw [GetOk, hpc] at hget
    rw [SharedRingBuffer.getStep, hpc] at hstep
    cases hstep
    exact ⟨h.put, hget, h.stored, h.gots⟩
  · rw [GetOk, hpc] at hget
    rw [SharedRingBuffer.getStep, hpc] at hstep
    cases hstep
    exact ⟨h.put, hget.1, h.stored, forall_mem_record h.gots hget.2⟩

theorem Inv.getStep (hpool : 0 < poolSize) (hseparate : Separate .reader s) : Inv poolSize t := by
  cases hpc : s.get with
  | idle =>
    rw [SharedRingBuffer.getStep, hpc] at hstep
    cases hstep
  | testEmpty fromRing => exact h.testsEmpty hstep hpc
  | testCurrent fromRing => exact h.testsCurrent hstep hpc
  | jump fromRing => exact h.moves hstep hpool (.inl hpc)
  | wrapJump fromRing => exact h.moves hstep hpool (.inr (.inl hpc))
  | compareCnt fromRing => exact h.comparesCnt hstep hpc
  | compareIndex fromRing => exact h.comparesIndex hstep hpc
  | copy fromRing i => exact h.copies hstep hpool hseparate hpc
  | advance fromRing => exact h.moves hstep hpool (.inr (.inr (.inl hpc)))
  | wrap fromRing => exact h.moves hstep hpool (.inr (.inr (.inr hpc)))
  | testOccupied fromRing => exact h.finishes hstep (.inl hpc)
  | decOccupied fromRing => exact h.finishes hstep (.inr (.inl hpc))
  | countRead fromRing => exact h.finishes hstep (.inr (.inr hpc))

end GetPlaces

theorem Inv.step {e : Event n W} (hpool : 0 < poolSize) (h : Inv poolSize s)
    (hseparate : Separate e s) (hstep : step poolSize e s = some t) : Inv poolSize t := by
  cases e with
  | put newdata =>
    rw [SharedRingBuffer.step] at hstep
    split at hstep
    · rename_i hpc
      cases hstep
      have hput := h.put
      rw [PutOk, hpc] at hput
      have hnone : insidePut s = none := by rw [insidePut, hpc]
      have hsub := List.subset_append_left s.puts [newdata]
      refine ⟨⟨hput.1, hput.2, List.mem_append_right _ (List.mem_singleton_self _)⟩,
        h.get.mono rfl rfl (Nat.le_refl _) hsub fun _ => rfl, ?_, fun v hv => hsub (h.gots v hv)⟩
      exact fun p hp hw => .inl (hsub (h.stored_of_none hnone hp hw))
    · cases hstep
  | writer => exact h.putStep hpool hseparate hstep
  | get fromRing =>
    rw [SharedRingBuffer.step] at hstep
    split at hstep
    · rename_i hpc
      cases hstep
      have hget := h.get
      rw [GetOk, hpc] at hget
      exact ⟨h.put, hget, h.stored, h.gots⟩
    · cases hstep
  | reader => exact h.getStep hstep hpool hseparate

theorem Inv.whole (hpool : 0 < poolSize) (h : Inv poolSize s) : Whole poolSize s := by
  refine ⟨h.gots, fun p hp => ?_, fun p hp => ?_⟩
  · rw [storesTo] at hp
    split at hp
    · rename_i newdata i hpc
      have hput := h.put
      rw [PutOk, hpc] at hput
      split_ifs at hp
      rw [← Option.some.inj hp, hput.1]
      exact Nat.mod_lt _ hpool
    · cases hp
  · rw [loadsFrom] at hp
    split at hp
    · rename_i fromRing i hpc
      have hget := h.get
      rw [GetOk, hpc] at hget
      split_ifs at hp
      rw [← Option.some.inj hp]
      exact hget.1
    · cases hp

end Invariant

/-- As long as the copies of an entry do not overlap, `get` yields values that have been put
as a whole. -/
theorem get_whole (hpool : 2 ≤ poolSize) {vals : Nat → Fin n → W} {s : System n W}
    (h : ReachableUnder (fun s => s = constructed vals) (step poolSize) Separate s) :
    Whole poolSize s := by
  have hpos : 0 < poolSize := by omega
  have hinv : Inv poolSize s := by
    refine h.invariant (Inv poolSize) ?_ ?_
    · rintro s rfl
      exact inv_constructed hpos vals
    · intro e s t hinv hseparate hstep
      exact hinv.step hpos hseparate hstep
  exact hinv.whole hpos

section

def zeros : Fin 2 → Bool := fun _ => false

def ones : Fin 2 → Bool := fun _ => true

def putFor (newdata : Fin 2 → Bool) (statements : Nat) : List (Event 2 Bool) :=
  .put newdata :: List.replicate statements .writer

def getFor (statements : Nat) : List (Event 2 Bool) :=
  .get zeros :: List.replicate statements .reader

/-- `put` fills the other entry while `get` is copying. -/
theorem get_whole_other : ∃ s : System 2 Bool, s.gots = [ones] ∧ Whole 2 s := by
  obtain ⟨s, hs, hgots⟩ := exists_reachable (fun s => s = constructed fun _ => zeros) (step 2)
    Separate (constructed fun _ => zeros) rfl
    (putFor ones 10 ++ getFor 6 ++ putFor zeros 10 ++ List.replicate 7 .reader)
    (fun s => s.gots = [ones]) (by decide +kernel)
  exact ⟨s, hgots, get_whole (by decide) hs⟩

/-- `put` comes round to the entry that `get` is copying. -/
theorem get_mixture :
    ∃ s : System 2 Bool, Reachable (fun s => s = constructed fun _ => zeros) (step 2) s ∧
      ¬Whole 2 s := by
  obtain ⟨s, hs, v, hv, hnot⟩ := exists_reachable (fun s => s = constructed fun _ => zeros) (step 2)
    (fun _ _ => True) (constructed fun _ => zeros) rfl
    (putFor ones 10 ++ putFor ones 10 ++ getFor 5 ++ putFor zeros 9 ++ List.replicate 7 .reader)
    (fun s => ∃ v ∈ s.gots, v ∉ s.puts) (by decide +kernel)
  exact ⟨s, hs, fun hwhole => hnot (hwhole.gots v hv)⟩

end

end Rodos.SharedRingBuffer
