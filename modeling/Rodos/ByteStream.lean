import Rodos.ByteMemory
import Rodos.MachineInt
import Rodos.RingBuffer

namespace Rodos.ByteStream

open ByteMemory MachineInt RingBuffer

structure ByteStreamRingBuffer where
  buffer : Int → Int
  writeX : Int
  readX : Int

def wordBytes (v : Int) : List UInt8 := toBigEndian 4 (v % 2 ^ 32).toNat

def loadWord (m : Nat → UInt8) (i : Nat) : Int := int32 (ofBigEndian (read m (4 * i) 4))

def storeWord (m : Nat → UInt8) (i : Nat) (v : Int) : Nat → UInt8 := write m (4 * i) (wordBytes v)

def wordsInObject (bytes : Int) : Int := (int32 (bytes + 3)).tdiv 4

namespace ByteStreamRingBuffer

variable (LEN : Nat)

def WORDS : Int := int32 ((LEN + 3) / 4 : Nat)

def writeWord (r : ByteStreamRingBuffer) (val : Int) : ByteStreamRingBuffer :=
  let buffer := Function.update r.buffer r.writeX val
  let writeX := (r.writeX + 1).tmod (WORDS LEN)
  if writeX = r.readX then
    { buffer := buffer
      writeX := writeX
      readX := (int32 (r.readX + 1 + wordsInObject (buffer r.readX))).tmod (WORDS LEN) }
  else { buffer := buffer, writeX := writeX, readX := r.readX }

def readWord (r : ByteStreamRingBuffer) : Int × ByteStreamRingBuffer :=
  (r.buffer r.readX, { r with readX := (r.readX + 1).tmod (WORDS LEN) })

def writeLoop (source : Nat → UInt8) (i : Nat) : Nat → ByteStreamRingBuffer → ByteStreamRingBuffer
  | 0, r => r
  | n + 1, r => writeLoop source (i + 1) n (writeWord LEN r (loadWord source i))

/-- The loop runs once for every four bytes that are begun. -/
def write (r : ByteStreamRingBuffer) (buf : Nat → UInt8) (len : Nat) :
    Bool × ByteStreamRingBuffer :=
  if WORDS LEN ≤ wordsInObject len then (false, r)
  else if len = 0 then (true, r)
  else (true, writeLoop LEN buf 0 ((len + 3) / 4) (writeWord LEN r len))

def readLoop (i : Nat) : Nat → ByteStreamRingBuffer → (Nat → UInt8) →
    (Nat → UInt8) × ByteStreamRingBuffer
  | 0, r, destination => (destination, r)
  | n + 1, r, destination =>
    readLoop (i + 1) n (readWord LEN r).2 (storeWord destination i (readWord LEN r).1)

def read (r : ByteStreamRingBuffer) (buf : Nat → UInt8) (maxLen : Int) :
    Int × (Nat → UInt8) × ByteStreamRingBuffer :=
  if r.readX = r.writeX then (0, buf, r)
  else
    let objectLen := (readWord LEN r).1
    let r := (readWord LEN r).2
    if maxLen < objectLen then
      (-1, buf, { r with readX := (int32 (r.readX + wordsInObject objectLen)).tmod (WORDS LEN) })
    else (objectLen, readLoop LEN 0 ((objectLen.toNat + 3) / 4) r buf)

end ByteStreamRingBuffer

open ByteStreamRingBuffer (WORDS writeWord readWord writeLoop readLoop)

def Holds (W : Nat) (r : ByteStreamRingBuffer) (ws : List Int) : Prop :=
  ∃ (log : List Int) (start readX writeX : Nat), r.readX = readX ∧ r.writeX = writeX ∧
    Ring W (fun i : Nat => r.buffer i) readX writeX log start ∧ log.drop start = ws

section Words

variable {LEN W : Nat} {r : ByteStreamRingBuffer} {ws : List Int} {v : Int}

theorem tmod_add (k n W : Nat) : ((k % W : Nat) + n : Int).tmod W = ((k + n) % W : Nat) := by
  rw [← Int.natCast_add, ← Int.ofNat_tmod, Nat.mod_add_mod]

theorem Holds.length_lt (h : Holds W r ws) : ws.length < W := by
  obtain ⟨log, start, readX, writeX, _, _, hring, rfl⟩ := h
  have hroom := hring.room
  have hstart := hring.start_le
  rw [List.length_drop]
  omega

theorem Holds.readX_lt (h : Holds W r ws) : 0 ≤ r.readX ∧ r.readX < W := by
  obtain ⟨log, start, readX, writeX, hread, _, hring, _⟩ := h
  have hlt := hring.read_lt
  omega

theorem Holds.isEmpty_iff (h : Holds W r ws) : r.readX = r.writeX ↔ ws = [] := by
  obtain ⟨log, start, readX, writeX, hread, hwrite, hring, rfl⟩ := h
  have hstart := hring.start_le
  rw [hread, hwrite, Int.natCast_inj, hring.empty_iff, List.drop_eq_nil_iff]
  omega

theorem Holds.drop (h : Holds W r ws) {n : Nat} (hn : n ≤ ws.length) :
    Holds W { r with readX := (r.readX + n).tmod W } (ws.drop n) := by
  obtain ⟨log, start, readX, writeX, hread, hwrite, hring, rfl⟩ := h
  have hstart := hring.start_le
  rw [List.length_drop] at hn
  refine ⟨log, start + n, (start + n) % W, writeX, ?_, hwrite, hring.drop (by omega), ?_⟩
  · dsimp only
    rw [hread, hring.read, tmod_add]
  · rw [List.drop_drop]

theorem Holds.head (h : Holds W r (v :: ws)) : r.buffer r.readX = v := by
  obtain ⟨log, start, readX, writeX, hread, hwrite, hring, hlog⟩ := h
  have hlt : start < log.length := by
    by_contra hge
    rw [List.drop_eq_nil_of_le (Nat.not_lt.mp hge)] at hlog
    cases hlog
  have hfirst := hring.first hlt
  rw [← Nat.add_zero start, ← List.getElem?_drop, hlog] at hfirst
  rw [hread]
  exact (Option.some.inj hfirst).symm

theorem Holds.readWord (hW : WORDS LEN = W) (h : Holds W r (v :: ws)) :
    (readWord LEN r).1 = v ∧ Holds W (readWord LEN r).2 ws := by
  refine ⟨h.head, ?_⟩
  have hdrop := h.drop (n := 1) (by rw [List.length_cons]; omega)
  rwa [← hW] at hdrop

theorem Holds.full_iff (h : Holds W r ws) :
    (r.writeX + 1).tmod W = r.readX ↔ ws.length + 1 = W := by
  obtain ⟨log, start, readX, writeX, hread, hwrite, hring, rfl⟩ := h
  have hstart := hring.start_le
  have hnext := tmod_add log.length 1 W
  rw [hread, hwrite, hring.write]
  rw [Int.natCast_one] at hnext
  rw [hnext, Int.natCast_inj, hring.full_iff, List.length_drop]
  omega

/-- A word is written, and words are skipped to make room for it. -/
theorem Holds.push (h : Holds W r ws) {n : Nat} (hn : n ≤ ws.length)
    (hroom : ws.length + 1 < n + W) (v : Int) :
    Holds W ⟨Function.update r.buffer r.writeX v, (r.writeX + 1).tmod W, (r.readX + n).tmod W⟩
      (ws.drop n ++ [v]) := by
  obtain ⟨log, start, readX, writeX, hread, hwrite, hring, rfl⟩ := h
  have hstart := hring.start_le
  rw [List.length_drop] at hn hroom
  have hcells : (fun i : Nat => Function.update r.buffer r.writeX v i) =
      Function.update (fun i : Nat => r.buffer i) (log.length % W) v := by
    rw [hwrite, hring.write]
    exact Function.update_comp_eq_of_injective r.buffer Nat.cast_injective _ v
  have hupdate := (hring.update (Nat.le_refl log.length) hring.room v).drop (n := n) (by omega)
  have hself : Function.update (fun i : Nat => r.buffer i) (log.length % W) v writeX = v := by
    rw [hring.write, Function.update_self]
  have hpush := hupdate.push hself (by omega)
  refine ⟨log ++ [v], start + n, (start + n) % W, (log.length + 1) % W, ?_, ?_, ?_, ?_⟩
  · dsimp only
    rw [hread, hring.read, tmod_add]
  · dsimp only
    rw [hwrite, hring.write]
    exact tmod_add log.length 1 W
  · dsimp only
    rw [hcells]
    exact hpush
  · rw [List.drop_drop, List.drop_append_of_le_length (by omega)]

end Words

/-- An object in the ring: its words and its length in bytes. -/
structure Item where
  words : List Int
  len : Nat

namespace Item

def encode (it : Item) : List Int := it.len :: it.words

def object (it : Item) : List UInt8 := (it.words.flatMap wordBytes).take it.len

structure Valid (it : Item) : Prop where
  pos : 0 < it.len
  le : it.len ≤ 2 ^ 31 - 4
  count : it.words.length = (it.len + 3) / 4

end Item

section Items

variable {LEN W : Nat} {r : ByteStreamRingBuffer} {items : List Item} {it : Item} {part : List Int}
  {v : Int}

theorem wordsInObject_eq {len : Nat} (hlen : len ≤ 2 ^ 31 - 4) :
    wordsInObject len = ((len + 3) / 4 : Nat) := by
  rw [wordsInObject, int32_eq (by omega) (by omega)]
  rfl

def words (items : List Item) (part : List Int) : List Int := items.flatMap Item.encode ++ part

theorem words_cons :
    words (it :: items) part = (it.len : Int) :: (it.words ++ words items part) := by
  rw [words, List.flatMap_cons, List.append_assoc]
  rfl

/-- When the ring is full the oldest object makes room. -/
theorem writeWord_eq (hW : WORDS LEN = W) (hmax : W ≤ 2 ^ 30) (h : Holds W r (words items part))
    (hvalid : ∀ it ∈ items, it.Valid) (hpart : part.length + 1 < W) (v : Int) :
    ∃ k ≤ items.length, Holds W (writeWord LEN r v) (words (items.drop k) (part ++ [v])) := by
  obtain ⟨hnonneg, hlt⟩ := h.readX_lt
  by_cases hfull : (words items part).length + 1 = W
  · cases items with
    | nil =>
      rw [words, List.flatMap_nil, List.nil_append] at hfull
      omega
    | cons it items =>
      have hit := hvalid it List.mem_cons_self
      have hcount := hit.count
      have hdrop : (words (it :: items) part).drop (1 + it.words.length) = words items part := by
        rw [words_cons, Nat.add_comm, List.drop_succ_cons, List.drop_left]
      have hlength : 1 + it.words.length ≤ (words (it :: items) part).length := by
        rw [words_cons, List.length_cons, List.length_append]
        omega
      have hhead : Function.update r.buffer r.writeX v r.readX = it.len := by
        have hne : r.readX ≠ r.writeX := by
          rw [ne_eq, h.isEmpty_iff, words_cons]
          exact List.cons_ne_nil _ _
        rw [Function.update_of_ne hne]
        rw [words_cons] at h
        exact h.head
      have hpush := h.push hlength (by omega) v
      refine ⟨1, by rw [List.length_cons]; omega, ?_⟩
      rw [writeWord, hW]
      rw [if_pos (h.full_iff.mpr hfull), hhead, wordsInObject_eq hit.le, ← hcount,
        int32_eq (by omega) (by omega), Int.add_assoc]
      rw [hdrop, words, List.append_assoc] at hpush
      rw [List.drop_one, List.tail_cons]
      exact_mod_cast hpush
  · have hlength := h.length_lt
    have hpush := h.push (Nat.zero_le _) (by omega) v
    refine ⟨0, Nat.zero_le _, ?_⟩
    rw [writeWord, hW]
    rw [if_neg (fun heq => hfull (h.full_iff.mp heq))]
    rw [Int.natCast_zero, Int.add_zero, Int.tmod_eq_of_lt hnonneg hlt, List.drop_zero, words,
      List.append_assoc] at hpush
    exact hpush

theorem writeLoop_eq (hW : WORDS LEN = W) (hmax : W ≤ 2 ^ 30) (source : Nat → UInt8) (i n : Nat)
    (h : Holds W r (words items part)) (hvalid : ∀ it ∈ items, it.Valid)
    (hpart : part.length + n < W) :
    ∃ k ≤ items.length, Holds W (writeLoop LEN source i n r)
      (words (items.drop k) (part ++ (List.range' i n).map (loadWord source))) := by
  induction n generalizing i r items part with
  | zero =>
    refine ⟨0, Nat.zero_le _, ?_⟩
    rwa [List.range'_zero, List.map_nil, List.append_nil, List.drop_zero]
  | succ n ih =>
    obtain ⟨k, hk, hword⟩ := writeWord_eq hW hmax h hvalid (by omega) (loadWord source i)
    obtain ⟨k', hk', hloop⟩ := ih (i + 1) hword
      (fun it hit => hvalid it (List.mem_of_mem_drop hit))
      (by rw [List.length_append, List.length_singleton]; omega)
    rw [List.length_drop] at hk'
    refine ⟨k + k', by omega, ?_⟩
    rw [List.drop_drop, List.append_assoc] at hloop
    rw [List.range'_succ, List.map_cons]
    exact hloop

def storeWords (m : Nat → UInt8) (i : Nat) : List Int → Nat → UInt8
  | [] => m
  | v :: ws => storeWords (storeWord m i v) (i + 1) ws

theorem readLoop_eq (hW : WORDS LEN = W) (ws rest : List Int) (i : Nat) (dest : Nat → UInt8)
    (h : Holds W r (ws ++ rest)) :
    ∃ r', readLoop LEN i ws.length r dest = (storeWords dest i ws, r') ∧ Holds W r' rest := by
  induction ws generalizing i r dest with
  | nil => exact ⟨r, rfl, h⟩
  | cons v ws ih =>
    obtain ⟨hv, hrest⟩ := Holds.readWord hW h
    obtain ⟨r', hloop, hr'⟩ := ih (i + 1) (storeWord dest i v) hrest
    refine ⟨r', ?_, hr'⟩
    rw [List.length_cons, readLoop, hv]
    exact hloop

end Items

section Bytes

theorem length_wordBytes (v : Int) : (wordBytes v).length = 4 := length_toBigEndian 4 _

theorem wordBytes_loadWord (m : Nat → UInt8) (i : Nat) :
    wordBytes (loadWord m i) = read m (4 * i) 4 := by
  have hlt := ofBigEndian_lt (read m (4 * i) 4)
  rw [length_read] at hlt
  have hvalue : (int32 (ofBigEndian (read m (4 * i) 4)) % 2 ^ 32).toNat =
      ofBigEndian (read m (4 * i) 4) := by
    have hmod := Int.bmod_emod (x := (ofBigEndian (read m (4 * i) 4) : Int)) (m := 2 ^ 32)
    rw [int32]
    omega
  have hbytes := toBigEndian_ofBigEndian (read m (4 * i) 4)
  rw [length_read] at hbytes
  rw [wordBytes, loadWord, hvalue, hbytes]

theorem flatMap_loadWord (m : Nat → UInt8) (i n : Nat) :
    ((List.range' i n).map (loadWord m)).flatMap wordBytes = read m (4 * i) (4 * n) := by
  induction n generalizing i with
  | zero => rfl
  | succ n ih =>
    rw [List.range'_succ, List.map_cons, List.flatMap_cons, ih, wordBytes_loadWord,
      Nat.mul_succ 4 n, Nat.add_comm _ 4, read_add]
    rfl

theorem storeWords_outside (m : Nat → UInt8) (i : Nat) (ws : List Int) {k : Nat}
    (hk : k < 4 * i ∨ 4 * (i + ws.length) ≤ k) : storeWords m i ws k = m k := by
  induction ws generalizing m i with
  | nil => rfl
  | cons v ws ih =>
    rw [List.length_cons] at hk
    rw [storeWords, ih _ _ (by omega), storeWord, write_outside]
    rw [length_wordBytes]
    omega

theorem read_storeWords (m : Nat → UInt8) (i : Nat) (ws : List Int) :
    read (storeWords m i ws) (4 * i) (4 * ws.length) = ws.flatMap wordBytes := by
  induction ws generalizing m i with
  | nil => rfl
  | cons v ws ih =>
    have hfirst : read (storeWords (storeWord m i v) (i + 1) ws) (4 * i) 4 = wordBytes v := by
      have hword := read_write m (4 * i) (wordBytes v)
      rw [length_wordBytes] at hword
      rw [← hword, read_eq_iff]
      intro k hk
      exact storeWords_outside _ _ _ (.inl (by omega))
    rw [List.length_cons, storeWords, Nat.mul_succ, Nat.add_comm _ 4, read_add, hfirst,
      List.flatMap_cons, ← ih (storeWord m i v) (i + 1)]
    rfl

end Bytes

end Rodos.ByteStream
