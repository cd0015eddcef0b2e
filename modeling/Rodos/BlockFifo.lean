import Rodos.LockFreeFifo

namespace Rodos.BlockFifo

open RingBuffer TransitionSystem LockFreeFifo

variable {α : Type} {len : Nat}

section Queue

/-- What a user sees of a queue: the elements, the part that has been handed out for
writing, and the number of elements that have been handed out for reading. -/
structure Queue (α : Type) where
  items : List α
  toWrite : List α
  toRead : Nat

/-- A call and what it returns. Of a part that is handed out this is what can be read
there. -/
inductive Event (α : Type)
  | put (val : α) (ok : Bool)
  | get (val : Option α)
  | getBufferToWrite (region : List α)
  | write (i : Nat) (val : α)
  | writeConcluded (n : Nat)
  | getBufferToRead (region : List α)
  | readConcluded (n : Nat)

inductive QueueStep (capacity : Nat) : Event α → Queue α → Queue α → Prop
  | put (q : Queue α) (val : α) (hroom : q.items.length < capacity) :
      QueueStep capacity (.put val true) q { q with items := q.items ++ [val], toWrite := [] }
  | putFull (q : Queue α) (val : α) (hfull : q.items.length = capacity) :
      QueueStep capacity (.put val false) q { q with toWrite := [] }
  | get (q : Queue α) :
      QueueStep capacity (.get q.items.head?) q { q with items := q.items.tail, toRead := 0 }
  | getBufferToWrite (q : Queue α) (region : List α)
      (hroom : q.items.length + region.length ≤ capacity)
      (hsome : 0 < region.length ↔ q.items.length < capacity) :
      QueueStep capacity (.getBufferToWrite region) q { q with toWrite := region }
  | write (q : Queue α) (i : Nat) (val : α) (hi : i < q.toWrite.length) :
      QueueStep capacity (.write i val) q { q with toWrite := q.toWrite.set i val }
  | writeConcluded (q : Queue α) (n : Nat) (hn : n ≤ q.toWrite.length) :
      QueueStep capacity (.writeConcluded n) q
        { q with items := q.items ++ q.toWrite.take n, toWrite := [] }
  | getBufferToRead (q : Queue α) (region : List α) (hnext : region <+: q.items)
      (hsome : 0 < region.length ↔ 0 < q.items.length) :
      QueueStep capacity (.getBufferToRead region) q { q with toRead := region.length }
  | readConcluded (q : Queue α) (n : Nat) (hn : n ≤ q.toRead) :
      QueueStep capacity (.readConcluded n) q { q with items := q.items.drop n, toRead := 0 }

inductive QueueRun (capacity : Nat) : List (Event α) → Queue α → Queue α → Prop
  | nil (q : Queue α) : QueueRun capacity [] q q
  | cons {e : Event α} {es : List (Event α)} {q r u : Queue α} :
      QueueStep capacity e q r → QueueRun capacity es r u → QueueRun capacity (e :: es) q u

end Queue

section Methods

/-- The loop of `advanceIndexEx`. -/
def wrapIndex (len newIndex : Nat) : Nat :=
  if 0 < len ∧ len ≤ newIndex then wrapIndex len (newIndex - len) else newIndex
termination_by newIndex
decreasing_by omega

theorem wrapIndex_eq (hlen : 0 < len) (newIndex : Nat) : wrapIndex len newIndex = newIndex % len := by
  induction newIndex using Nat.strongRecOn with
  | ind newIndex ih =>
    rw [wrapIndex]
    split
    · rename_i hge
      rw [ih _ (by omega), ← Nat.mod_eq_sub_mod hge.2]
    · rw [Nat.mod_eq_of_lt (by omega)]

def advanceIndexEx (len index advanceSize : Nat) : Nat := wrapIndex len (index + advanceSize)

theorem advanceIndexEx_mod (hlen : 0 < len) (k n : Nat) :
    advanceIndexEx len (k % len) n = (k + n) % len := by
  rw [advanceIndexEx, wrapIndex_eq hlen, Nat.mod_add_mod]

def getBufferToWrite (len : Nat) (f : Fifo α) : Option Nat × Nat :=
  let r := f.readX
  let w := f.writeX
  if r = advanceIndex len w then (none, 0)
  else if r > w then (some w, r - w - 1)
  else (some w, if r = 0 then len - w - 1 else len - w)

def writeConcluded (len : Nat) (f : Fifo α) (numOfWrittenElements : Nat) : Fifo α :=
  { f with writeX := advanceIndexEx len f.writeX numOfWrittenElements }

def getBufferToRead (len : Nat) (f : Fifo α) : Option Nat × Nat :=
  let r := f.readX
  let w := f.writeX
  if r = w then (none, 0)
  else if r < w then (some r, w - r)
  else (some r, len - r)

def readConcluded (len : Nat) (f : Fifo α) (sizeRed : Nat) : Fifo α :=
  { f with readX := advanceIndexEx len f.readX sizeRed }

end Methods

inductive Call (α : Type)
  | put (val : α)
  | get
  | getBufferToWrite
  | write (i : Nat) (val : α)
  | writeConcluded (n : Nat)
  | getBufferToRead
  | readConcluded (n : Nat)

/-- The fifo and what its users have got from it last. -/
structure System (α : Type) extends Fifo α where
  toWrite : Option Nat × Nat
  toRead : Option Nat × Nat

def region (buffer : Nat → α) : Option Nat × Nat → List α
  | (none, _) => []
  | (some x, maxLen) => (List.range maxLen).map fun i => buffer (x + i)

/-- A part that has been handed out is used up by the next call on that side. -/
def step (len : Nat) (s : System α) : Call α → Option (Event α × System α)
  | .put val =>
    let r := s.toFifo.put len val
    some (.put val r.1, { s with toFifo := r.2, toWrite := (none, 0) })
  | .get =>
    let r := s.toFifo.get len
    some (.get r.1, { s with toFifo := r.2, toRead := (none, 0) })
  | .getBufferToWrite =>
    let r := getBufferToWrite len s.toFifo
    some (.getBufferToWrite (region s.buffer r), { s with toWrite := r })
  | .write i val =>
    match s.toWrite with
    | (none, _) => none
    | (some w, maxLen) =>
      if i < maxLen then
        some (.write i val, { s with buffer := Function.update s.buffer (w + i) val })
      else none
  | .writeConcluded n =>
    if n ≤ s.toWrite.2 then
      some (.writeConcluded n,
        { s with toFifo := writeConcluded len s.toFifo n, toWrite := (none, 0) })
    else none
  | .getBufferToRead =>
    let r := getBufferToRead len s.toFifo
    some (.getBufferToRead (region s.buffer r), { s with toRead := r })
  | .readConcluded n =>
    if n ≤ s.toRead.2 then
      some (.readConcluded n,
        { s with toFifo := readConcluded len s.toFifo n, toRead := (none, 0) })
    else none

def execute (len : Nat) : List (Call α) → System α → Option (List (Event α) × System α)
  | [], s => some ([], s)
  | c :: cs, s => do
    let (e, t) ← step len s c
    let (es, u) ← execute len cs t
    return (e :: es, u)

def constructed (buffer : Nat → α) : System α where
  toFifo := ⟨buffer, 0, 0, 0, 0⟩
  toWrite := (none, 0)
  toRead := (none, 0)

def items (len : Nat) (f : Fifo α) : List α := contents len f.buffer f.readX f.writeX

def queue (len : Nat) (s : System α) : Queue α where
  items := items len s.toFifo
  toWrite := region s.buffer s.toWrite
  toRead := s.toRead.2

structure Regions (len : Nat) (s : System α) : Prop where
  write_inside : ∀ w maxLen, s.toWrite = (some w, maxLen) → w + maxLen ≤ len
  write_unread : ∀ w maxLen, s.toWrite = (some w, maxLen) → ∀ i < maxLen,
    ∀ j < s.getElementCount len, (s.readX + j) % len ≠ w + i
  read_inside : ∀ r maxLen, s.toRead = (some r, maxLen) → r + maxLen ≤ len
  read_next : s.toRead.2 ≤ (items len s.toFifo).length ∧
    region s.buffer s.toRead = (items len s.toFifo).take s.toRead.2
  write_pos_iff : 0 < (getBufferToWrite len s.toFifo).2 ↔ (items len s.toFifo).length < len - 1
  read_pos_iff : 0 < (getBufferToRead len s.toFifo).2 ↔ items len s.toFifo ≠ []

section Invariant

def Handed (len x bound : Nat) (r : Option Nat × Nat) : Prop :=
  r = (none, 0) ∨ ∃ maxLen, r = (some x, maxLen) ∧ x + maxLen ≤ len ∧ maxLen ≤ bound

theorem Handed.mono {x bound bound' : Nat} {r : Option Nat × Nat} (h : Handed len x bound r)
    (hle : bound ≤ bound') : Handed len x bound' r := by
  obtain rfl | ⟨maxLen, rfl, hinside, hbound⟩ := h
  · exact .inl rfl
  · exact .inr ⟨maxLen, rfl, hinside, hbound.trans hle⟩

theorem Handed.le {x bound : Nat} {r : Option Nat × Nat} (h : Handed len x bound r) :
    r.2 ≤ bound := by
  obtain rfl | ⟨maxLen, rfl, _, hbound⟩ := h
  · exact Nat.zero_le _
  · exact hbound

theorem Handed.length_region {x bound : Nat} {r : Option Nat × Nat} (h : Handed len x bound r)
    (buffer : Nat → α) : (region buffer r).length = r.2 := by
  obtain rfl | ⟨maxLen, rfl, _, _⟩ := h
  · rfl
  · exact List.length_map _ |>.trans List.length_range

theorem Handed.getElem?_region {x bound k : Nat} {r : Option Nat × Nat} (h : Handed len x bound r)
    (hx : x = k % len) (buffer : Nat → α) {i : Nat} (hi : i < r.2) :
    (region buffer r)[i]? = some (buffer ((k + i) % len)) := by
  obtain rfl | ⟨maxLen, rfl, hinside, _⟩ := h
  · exact absurd hi (Nat.not_lt_zero i)
  · have hplace : (k + i) % len = x + i := by
      dsimp only at hi
      rw [hx, ← Nat.mod_add_mod, ← hx, Nat.mod_eq_of_lt (by omega)]
    rw [hplace, region, List.getElem?_map, List.getElem?_range hi, Option.map_some]

structure Inv (len : Nat) (s : System α) (log : List α) (start : Nat) : Prop where
  stores : s.Stores len log start
  toWrite : Handed len s.writeX (start + len - 1 - log.length) s.toWrite
  toRead : Handed len s.readX (log.length - start) s.toRead

variable {f : Fifo α} {s t : System α} {log : List α} {start : Nat}

theorem items_eq (h : f.Stores len log start) : items len f = log.drop start :=
  h.contents_eq

theorem queue_eq (h : Inv len s log start) :
    queue len s = ⟨log.drop start, region s.buffer s.toWrite, s.toRead.2⟩ := by
  rw [queue, items_eq h.stores]

theorem getBufferToWrite_spec (h : f.Stores len log start) :
    Handed len f.writeX (start + len - 1 - log.length) (getBufferToWrite len f) ∧
      (0 < (getBufferToWrite len f).2 ↔ log.length + 1 < start + len) := by
  have hfull := h.isFull_iff
  rw [Fifo.isFull, decide_eq_true_iff] at hfull
  have hcount := h.count_eq
  have hread := h.read_lt
  have hwrite := h.write_lt
  have hstart := h.start_le
  have hroom := h.room
  rw [getBufferToWrite]
  split
  · rename_i heq
    have hlength := hfull.mp heq.symm
    exact ⟨.inl rfl, by simp; omega⟩
  · rename_i hne
    have hlength : log.length + 1 ≠ start + len := fun heq => hne (hfull.mpr heq).symm
    split
    · rename_i hlt
      rw [if_neg (by omega)] at hcount
      exact ⟨.inr ⟨_, rfl, by omega, by omega⟩, by dsimp only; omega⟩
    · rename_i hge
      rw [if_pos (by omega)] at hcount
      exact ⟨.inr ⟨_, rfl, by split <;> omega, by split <;> omega⟩, by dsimp only; split <;> omega⟩

theorem getBufferToRead_spec (h : f.Stores len log start) :
    Handed len f.readX (log.length - start) (getBufferToRead len f) ∧
      (0 < (getBufferToRead len f).2 ↔ start < log.length) := by
  have hempty := h.empty_iff
  have hcount := h.count_eq
  have hread := h.read_lt
  have hwrite := h.write_lt
  have hstart := h.start_le
  rw [getBufferToRead]
  split
  · rename_i heq
    have hlength := hempty.mp heq
    exact ⟨.inl rfl, by simp; omega⟩
  · rename_i hne
    have hlength : start ≠ log.length := fun heq => hne (hempty.mpr heq)
    split
    · rename_i hlt
      rw [if_pos (by omega)] at hcount
      exact ⟨.inr ⟨_, rfl, by omega, by omega⟩, by dsimp only; omega⟩
    · rename_i hge
      rw [if_neg (by omega)] at hcount
      exact ⟨.inr ⟨_, rfl, by omega, by omega⟩, by dsimp only; omega⟩

theorem region_toRead (h : f.Stores len log start) {r : Option Nat × Nat}
    (hregion : Handed len f.readX (log.length - start) r) :
    region f.buffer r = (log.drop start).take r.2 := by
  have hle := hregion.le
  refine List.ext_getElem? fun i => ?_
  by_cases hi : i < r.2
  · rw [hregion.getElem?_region h.read f.buffer hi, List.getElem?_take_of_lt hi, List.getElem?_drop,
      h.holds (start + i) (by omega) (by omega)]
  · have hlength := hregion.length_region f.buffer
    rw [List.getElem?_eq_none (by omega), List.getElem?_eq_none (by simp; omega)]

def Simulates (len : Nat) (s : System α) (e : Event α) (t : System α) : Prop :=
  ∃ log start, Inv len t log start ∧ QueueStep (len - 1) e (queue len s) (queue len t)

theorem put_readX (len : Nat) (f : Fifo α) (val : α) : (f.put len val).2.readX = f.readX := by
  rw [Fifo.put]
  split <;> rfl

theorem get_frame (len : Nat) (f : Fifo α) :
    (f.get len).2.writeX = f.writeX ∧ (f.get len).2.buffer = f.buffer := by
  rw [Fifo.get]
  split <;> exact ⟨rfl, rfl⟩

theorem Inv.put (h : Inv len s log start) (val : α) :
    Simulates len s (.put val (s.toFifo.put len val).1)
      { s with toFifo := (s.toFifo.put len val).2, toWrite := (none, 0) } := by
  have hstart := h.stores.start_le
  have hroom := h.stores.room
  by_cases hfull : log.length + 1 = start + len
  · rw [h.stores.put_full hfull]
    have hinv : Inv len { s with putErrors := s.putErrors + 1, toWrite := (none, 0) } log start :=
      ⟨h.stores, .inl rfl, h.toRead⟩
    refine ⟨log, start, hinv, ?_⟩
    rw [queue_eq h, queue_eq hinv]
    exact .putFull _ val (by simp; omega)
  · obtain ⟨hok, hstores⟩ := h.stores.put_room (by omega) val
    have hinv : Inv len { s with toFifo := (s.toFifo.put len val).2, toWrite := (none, 0) }
        (log ++ [val]) start := by
      refine ⟨hstores, .inl rfl, ?_⟩
      change Handed len (s.toFifo.put len val).2.readX _ _
      rw [put_readX]
      exact h.toRead.mono (by simp; omega)
    refine ⟨log ++ [val], start, hinv, ?_⟩
    rw [hok, queue_eq h, queue_eq hinv, List.drop_append_of_le_length hstart]
    exact .put _ val (by simp; omega)

theorem Inv.get (h : Inv len s log start) :
    Simulates len s (.get (s.toFifo.get len).1)
      { s with toFifo := (s.toFifo.get len).2, toRead := (none, 0) } := by
  have hstart := h.stores.start_le
  by_cases hempty : start = log.length
  · rw [h.stores.get_empty hempty]
    have hinv : Inv len { s with getErrors := s.getErrors + 1, toRead := (none, 0) } log start :=
      ⟨h.stores, h.toWrite, .inl rfl⟩
    refine ⟨log, start, hinv, ?_⟩
    rw [queue_eq h, queue_eq hinv, List.drop_eq_nil_of_le (by omega)]
    exact .get ⟨[], _, _⟩
  · obtain ⟨hval, hstores⟩ := h.stores.get_some (by omega)
    obtain ⟨hwriteX, hbuffer⟩ := get_frame len s.toFifo
    have hinv : Inv len { s with toFifo := (s.toFifo.get len).2, toRead := (none, 0) }
        log (start + 1) := by
      refine ⟨hstores, ?_, .inl rfl⟩
      change Handed len (s.toFifo.get len).2.writeX _ _
      rw [hwriteX]
      exact h.toWrite.mono (by omega)
    refine ⟨log, start + 1, hinv, ?_⟩
    rw [queue_eq h, queue_eq hinv, hbuffer, hval, ← List.tail_drop, ← List.head?_drop]
    exact .get ⟨log.drop start, region s.buffer s.toWrite, s.toRead.2⟩

theorem Inv.getBufferToWrite (h : Inv len s log start) :
    Simulates len s (.getBufferToWrite (region s.buffer (getBufferToWrite len s.toFifo)))
      { s with toWrite := BlockFifo.getBufferToWrite len s.toFifo } := by
  have hstart := h.stores.start_le
  obtain ⟨hregion, hsome⟩ := getBufferToWrite_spec h.stores
  have hle := hregion.le
  have hinv : Inv len { s with toWrite := BlockFifo.getBufferToWrite len s.toFifo } log start :=
    ⟨h.stores, hregion, h.toRead⟩
  refine ⟨log, start, hinv, ?_⟩
  rw [queue_eq h, queue_eq hinv]
  refine .getBufferToWrite _ _ ?_ ?_
  · rw [hregion.length_region, List.length_drop]
    have hroom := h.stores.room
    omega
  · rw [hregion.length_region, hsome, List.length_drop]
    omega

theorem Inv.getBufferToRead (h : Inv len s log start) :
    Simulates len s (.getBufferToRead (region s.buffer (getBufferToRead len s.toFifo)))
      { s with toRead := BlockFifo.getBufferToRead len s.toFifo } := by
  obtain ⟨hregion, hsome⟩ := getBufferToRead_spec h.stores
  have hinv : Inv len { s with toRead := BlockFifo.getBufferToRead len s.toFifo } log start :=
    ⟨h.stores, h.toWrite, hregion⟩
  refine ⟨log, start, hinv, ?_⟩
  rw [queue_eq h, queue_eq hinv, ← hregion.length_region s.buffer]
  refine .getBufferToRead _ _ ?_ ?_
  · rw [region_toRead h.stores hregion]
    exact List.take_prefix _ _
  · rw [hregion.length_region, hsome, List.length_drop]
    omega

theorem region_update {w maxLen i : Nat} (hi : i < maxLen) (buffer : Nat → α) (val : α) :
    region (Function.update buffer (w + i) val) (some w, maxLen) =
      (region buffer (some w, maxLen)).set i val := by
  refine List.ext_getElem? fun j => ?_
  rw [region, region, List.getElem?_map, List.getElem?_set, List.length_map, List.length_range,
    List.getElem?_map]
  by_cases hj : j < maxLen
  · rw [List.getElem?_range hj]
    by_cases heq : i = j
    · subst heq
      simp [hi]
    · rw [if_neg heq, Option.map_some, Option.map_some, Function.update_of_ne (by omega)]
  · rw [List.getElem?_eq_none (by simpa using hj), if_neg (by omega)]
    rfl

theorem Inv.write (h : Inv len s log start) {w maxLen i : Nat}
    (hregion : s.toWrite = (some w, maxLen)) (hi : i < maxLen) (val : α) :
    Simulates len s (.write i val)
      { s with buffer := Function.update s.buffer (w + i) val } := by
  have hroom := h.stores.room
  obtain hnone | ⟨maxLen', hsome, hinside, hbound⟩ := h.toWrite
  · rw [hregion] at hnone
    cases hnone
  · rw [hregion] at hsome
    cases hsome
    have hplace : (log.length + i) % len = s.writeX + i := by
      rw [h.stores.write, ← Nat.mod_add_mod, ← h.stores.write, Nat.mod_eq_of_lt (by omega)]
    have hstores := Ring.update h.stores (p := log.length + i) (by omega) (by omega) val
    rw [hplace] at hstores
    have hinv : Inv len { s with buffer := Function.update s.buffer (s.writeX + i) val }
        log start := ⟨hstores, h.toWrite, h.toRead⟩
    refine ⟨log, start, hinv, ?_⟩
    rw [queue_eq h, queue_eq hinv, hregion, region_update hi]
    refine .write ⟨_, _, _⟩ i val ?_
    simpa [region] using hi

theorem Inv.writeConcluded (h : Inv len s log start) {n : Nat} (hn : n ≤ s.toWrite.2) :
    Simulates len s (.writeConcluded n)
      { s with toFifo := writeConcluded len s.toFifo n, toWrite := (none, 0) } := by
  have hroom := h.stores.room
  have hstart := h.stores.start_le
  have hbound := h.toWrite.le
  have hregion := h.toWrite.length_region s.buffer
  have hlength : ((region s.buffer s.toWrite).take n).length = n := by
    rw [List.length_take]
    omega
  have hstores := h.stores.append ((region s.buffer s.toWrite).take n) (by omega) (by
    intro i hi
    rw [List.getElem?_take_of_lt (by omega)]
    exact h.toWrite.getElem?_region h.stores.write s.buffer (by omega))
  rw [hlength, ← advanceIndexEx_mod h.stores.len_pos, ← h.stores.write] at hstores
  have hinv : Inv len { s with toFifo := BlockFifo.writeConcluded len s.toFifo n, toWrite := (none, 0) }
      (log ++ (region s.buffer s.toWrite).take n) start :=
    ⟨hstores, .inl rfl, h.toRead.mono (by rw [List.length_append]; omega)⟩
  refine ⟨_, start, hinv, ?_⟩
  rw [queue_eq h, queue_eq hinv, List.drop_append_of_le_length hstart]
  exact .writeConcluded ⟨log.drop start, _, _⟩ n (hregion.symm ▸ hn)

theorem Inv.readConcluded (h : Inv len s log start) {n : Nat} (hn : n ≤ s.toRead.2) :
    Simulates len s (.readConcluded n)
      { s with toFifo := readConcluded len s.toFifo n, toRead := (none, 0) } := by
  have hbound := h.toRead.le
  have hstart := h.stores.start_le
  have hstores := h.stores.drop (n := n) (by omega)
  rw [← advanceIndexEx_mod h.stores.len_pos, ← h.stores.read] at hstores
  have hinv : Inv len { s with toFifo := BlockFifo.readConcluded len s.toFifo n, toRead := (none, 0) }
      log (start + n) := ⟨hstores, h.toWrite.mono (by omega), .inl rfl⟩
  refine ⟨log, start + n, hinv, ?_⟩
  rw [queue_eq h, queue_eq hinv, ← List.drop_drop]
  exact .readConcluded ⟨log.drop start, _, _⟩ n hn

theorem Inv.step (h : Inv len s log start) {c : Call α} {e : Event α}
    (hstep : step len s c = some (e, t)) : Simulates len s e t := by
  cases c with
  | put val =>
    cases hstep
    exact h.put val
  | get =>
    cases hstep
    exact h.get
  | getBufferToWrite =>
    cases hstep
    exact h.getBufferToWrite
  | write i val =>
    rw [BlockFifo.step] at hstep
    split at hstep
    · cases hstep
    · rename_i hregion
      split at hstep
      · cases hstep
        exact h.write hregion ‹_› val
      · cases hstep
  | writeConcluded n =>
    rw [BlockFifo.step] at hstep
    split at hstep
    · cases hstep
      exact h.writeConcluded ‹_›
    · cases hstep
  | getBufferToRead =>
    cases hstep
    exact h.getBufferToRead
  | readConcluded n =>
    rw [BlockFifo.step] at hstep
    split at hstep
    · cases hstep
      exact h.readConcluded ‹_›
    · cases hstep

theorem Inv.execute (h : Inv len s log start) {cs : List (Call α)} {es : List (Event α)}
    (hrun : execute len cs s = some (es, t)) :
    ∃ log start, Inv len t log start ∧ QueueRun (len - 1) es (queue len s) (queue len t) := by
  induction cs generalizing s log start es with
  | nil =>
    cases hrun
    exact ⟨log, start, h, .nil _⟩
  | cons c cs ih =>
    obtain ⟨⟨e, u⟩, hstep, hrest⟩ := Option.bind_eq_some_iff.mp hrun
    obtain ⟨⟨es', v⟩, hrest, hresult⟩ := Option.bind_eq_some_iff.mp hrest
    cases hresult
    obtain ⟨log', start', hinv, hqueue⟩ := h.step hstep
    obtain ⟨log'', start'', hinv', hqueues⟩ := ih hinv hrest
    exact ⟨log'', start'', hinv', .cons hqueue hqueues⟩

theorem Inv.regions (h : Inv len s log start) : Regions len s where
  write_inside w maxLen hregion := by
    obtain hnone | ⟨_, hsome, hinside, _⟩ := h.toWrite
    · cases hregion.symm.trans hnone
    · cases hregion.symm.trans hsome
      exact hinside
  write_unread w maxLen hregion i hi j hj := by
    obtain hnone | ⟨_, hsome, hinside, hbound⟩ := h.toWrite
    · cases hregion.symm.trans hnone
    · cases hregion.symm.trans hsome
      have hstart := h.stores.start_le
      have hcount := h.stores.getElementCount_eq
      have hplace : (log.length + i) % len = s.writeX + i := by
        rw [h.stores.write, ← Nat.mod_add_mod, ← h.stores.write, Nat.mod_eq_of_lt (by omega)]
      rw [h.stores.read, Nat.mod_add_mod, ← hplace]
      exact mod_ne (by omega) (by omega)
  read_inside r maxLen hregion := by
    obtain hnone | ⟨_, hsome, hinside, _⟩ := h.toRead
    · cases hregion.symm.trans hnone
    · cases hregion.symm.trans hsome
      exact hinside
  read_next := by
    rw [items_eq h.stores, List.length_drop]
    exact ⟨h.toRead.le, region_toRead h.stores h.toRead⟩
  write_pos_iff := by
    have hstart := h.stores.start_le
    rw [(getBufferToWrite_spec h.stores).2, items_eq h.stores, List.length_drop]
    omega
  read_pos_iff := by
    rw [(getBufferToRead_spec h.stores).2, items_eq h.stores, Ne, List.drop_eq_nil_iff]
    omega

end Invariant

theorem inv_constructed (hlen : 0 < len) (buffer : Nat → α) :
    Inv len (constructed buffer) [] 0 :=
  ⟨ring_empty hlen buffer, .inl rfl, .inl rfl⟩

/-- Whatever the users do, the fifo answers as a queue of `len - 1` elements does, and
the parts that it hands out are the free and the next elements of that queue. -/
theorem blockFifo_refines_queue (hlen : 2 ≤ len) (buffer : Nat → α) {cs : List (Call α)}
    {es : List (Event α)} {s : System α}
    (hrun : execute len cs (constructed buffer) = some (es, s)) :
    QueueRun (len - 1) es ⟨[], [], 0⟩ (queue len s) ∧ Regions len s := by
  have hstart := inv_constructed (by omega : 0 < len) buffer
  obtain ⟨log, start, hinv, hqueue⟩ := hstart.execute hrun
  rw [queue_eq hstart] at hqueue
  exact ⟨hqueue, hinv.regions⟩

/-- The second part for writing lies behind the end of the ring. -/
theorem blockFifo_refines_queue_wrapped :
    ∃ (es : List (Event Nat)) (s : System Nat), QueueRun 3 es ⟨[], [], 0⟩ (queue 4 s) ∧
      (queue 4 s).items = [6, 7, 8] ∧ Regions 4 s := by
  have hrun : (execute 4
      [.put 5, .getBufferToWrite, .write 0 6, .write 1 7, .writeConcluded 2, .get,
        .getBufferToWrite, .write 0 8, .writeConcluded 1] (constructed fun _ => 0)).any
      (fun r => decide ((queue 4 r.2).items = [6, 7, 8])) = true := by
    decide +kernel
  obtain ⟨⟨es, s⟩, hrun, hitems⟩ := (Option.any_eq_true _ _).mp hrun
  obtain ⟨hqueue, hregions⟩ := blockFifo_refines_queue (by decide) _ hrun
  exact ⟨es, s, hqueue, of_decide_eq_true hitems, hregions⟩

end Rodos.BlockFifo
