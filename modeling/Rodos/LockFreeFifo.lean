import Rodos.RingBuffer
import Rodos.TransitionSystem

namespace Rodos.LockFreeFifo

open RingBuffer TransitionSystem

variable {α : Type} {len : Nat}

structure Fifo (α : Type) where
  buffer : Nat → α
  writeX : Nat
  readX : Nat
  putErrors : UInt32
  getErrors : UInt32

def advanceIndex (len index : Nat) : Nat := if index < len - 1 then index + 1 else 0

theorem advanceIndex_mod (hlen : 0 < len) (k : Nat) : advanceIndex len (k % len) = (k + 1) % len :=
  succ_mod hlen k

namespace Fifo

def put (len : Nat) (f : Fifo α) (val : α) : Bool × Fifo α :=
  let index := advanceIndex len f.writeX
  if index = f.readX then (false, { f with putErrors := f.putErrors + 1 })
  else (true, { f with buffer := Function.update f.buffer f.writeX val, writeX := index })

def get (len : Nat) (f : Fifo α) : Option α × Fifo α :=
  if f.readX = f.writeX then (none, { f with getErrors := f.getErrors + 1 })
  else (some (f.buffer f.readX), { f with readX := advanceIndex len f.readX })

def getElementCount (len : Nat) (f : Fifo α) : Nat :=
  let r := f.readX
  let w := f.writeX
  if r ≤ w then w - r else len - r + w

def getFreeSpaceCount (len : Nat) (f : Fifo α) : Nat := len - getElementCount len f - 1

def isFull (len : Nat) (f : Fifo α) : Bool := advanceIndex len f.writeX = f.readX

def isEmpty (f : Fifo α) : Bool := f.readX = f.writeX

/-- The entries of the log that have not been taken out lie in the buffer. -/
def Stores (len : Nat) (f : Fifo α) (log : List α) (start : Nat) : Prop :=
  Ring len f.buffer f.readX f.writeX log start

variable {f : Fifo α} {log : List α} {start : Nat}

theorem Stores.isFull_iff (h : Stores len f log start) :
    f.isFull len = true ↔ log.length + 1 = start + len := by
  rw [isFull, decide_eq_true_iff, h.write, advanceIndex_mod h.len_pos]
  exact h.full_iff

theorem Stores.isEmpty_iff (h : Stores len f log start) : f.isEmpty = true ↔ start = log.length := by
  rw [isEmpty, decide_eq_true_iff]
  exact h.empty_iff

theorem Stores.put_full (h : Stores len f log start) (hfull : log.length + 1 = start + len)
    (val : α) : f.put len val = (false, { f with putErrors := f.putErrors + 1 }) := by
  rw [put, h.write, advanceIndex_mod h.len_pos]
  exact if_pos (h.full_iff.mpr hfull)

theorem Stores.put_room (h : Stores len f log start) (hroom : log.length + 1 < start + len)
    (val : α) : (f.put len val).1 = true ∧ Stores len (f.put len val).2 (log ++ [val]) start := by
  have hnot : ¬advanceIndex len f.writeX = f.readX := by
    rw [h.write, advanceIndex_mod h.len_pos]
    exact fun heq => absurd (h.full_iff.mp heq) (by omega)
  rw [put]
  simp only [if_neg hnot, true_and]
  rw [Stores, h.write, advanceIndex_mod h.len_pos, ← h.write]
  have hstore := Ring.update h (Nat.le_refl _) (by omega) val
  rw [← h.write] at hstore
  exact hstore.push (Function.update_self _ _ _) hroom

theorem Stores.get_empty (h : Stores len f log start) (hempty : start = log.length) :
    f.get len = (none, { f with getErrors := f.getErrors + 1 }) :=
  if_pos (h.empty_iff.mpr hempty)

theorem Stores.get_some (h : Stores len f log start) (hsome : start < log.length) :
    (f.get len).1 = log[start]? ∧ Stores len (f.get len).2 log (start + 1) := by
  have hnot : ¬f.readX = f.writeX := fun heq => absurd (h.empty_iff.mp heq) (by omega)
  rw [get, if_neg hnot]
  refine ⟨(h.first hsome).symm, ?_⟩
  rw [Stores, h.read, advanceIndex_mod h.len_pos]
  exact h.pop hsome

theorem Stores.getElementCount_eq (h : Stores len f log start) :
    f.getElementCount len = log.length - start :=
  h.count_eq

theorem Stores.getFreeSpaceCount_eq (h : Stores len f log start) :
    f.getFreeSpaceCount len = len - 1 - (log.length - start) := by
  rw [getFreeSpaceCount, h.getElementCount_eq]
  omega

end Fifo

inductive PutPc (α : Type)
  | idle
  | enter (val : α)
  | test (val : α) (index : Nat)
  | select (val : α) (index : Nat)
  | store (val : α) (index place : Nat)
  | publish (val : α) (index : Nat)

inductive GetPc (α : Type)
  | idle
  | enter
  | compare (index : Nat)
  | select
  | load (place : Nat)
  | advance (val : α)
  | publish (val : α) (index : Nat)

structure System (α : Type) extends Fifo α where
  putPc : PutPc α
  getPc : GetPc α
  puts : List α
  gots : List α

inductive Event (α : Type)
  | put (val : α)
  | writer
  | get
  | reader

def writerStep (len : Nat) (s : System α) : Option (System α) :=
  match s.putPc with
  | .idle => none
  | .enter val => some { s with putPc := .test val (advanceIndex len s.writeX) }
  | .test val index =>
    if index = s.readX then some { s with putErrors := s.putErrors + 1, putPc := .idle }
    else some { s with putPc := .select val index }
  | .select val index => some { s with putPc := .store val index s.writeX }
  | .store val index place =>
    some { s with buffer := Function.update s.buffer place val, putPc := .publish val index }
  | .publish val index =>
    some { s with writeX := index, putPc := .idle, puts := s.puts ++ [val] }

def readerStep (len : Nat) (s : System α) : Option (System α) :=
  match s.getPc with
  | .idle => none
  | .enter => some { s with getPc := .compare s.readX }
  | .compare index =>
    if index = s.writeX then some { s with getErrors := s.getErrors + 1, getPc := .idle }
    else some { s with getPc := .select }
  | .select => some { s with getPc := .load s.readX }
  | .load place => some { s with getPc := .advance (s.buffer place) }
  | .advance val => some { s with getPc := .publish val (advanceIndex len s.readX) }
  | .publish val index =>
    some { s with readX := index, getPc := .idle, gots := s.gots ++ [val] }

def step (len : Nat) : Event α → System α → Option (System α)
  | .put val, s =>
    match s.putPc with
    | .idle => some { s with putPc := .enter val }
    | _ => none
  | .writer, s => writerStep len s
  | .get, s =>
    match s.getPc with
    | .idle => some { s with getPc := .enter }
    | _ => none
  | .reader, s => readerStep len s

def constructed (buffer : Nat → α) : System α where
  buffer := buffer
  writeX := 0
  readX := 0
  putErrors := 0
  getErrors := 0
  putPc := .idle
  getPc := .idle
  puts := []
  gots := []

def stored (s : System α) : Nat := s.puts.length - s.gots.length

/-- What the writer finds when it reads `readX`. -/
def PutFails (s : System α) : Prop := ∃ val index, s.putPc = .test val index ∧ index = s.readX

/-- What the reader finds when it compares the indices. -/
def GetFails (s : System α) : Prop := ∃ index, s.getPc = .compare index ∧ index = s.writeX

/-- With the step from `s` to `t` a call of `put` counts an error or ends without its value. -/
def PutRefused (s t : System α) : Prop :=
  t.putErrors ≠ s.putErrors ∨ t.putPc = .idle ∧ t.puts = s.puts

def GetRefused (s t : System α) : Prop :=
  t.getErrors ≠ s.getErrors ∨ t.getPc = .idle ∧ t.gots = s.gots

structure Consistent (len : Nat) (s : System α) : Prop where
  inOrder : s.gots <+: s.puts
  separate : ∀ val index place, s.putPc = .store val index place → s.getPc ≠ .load place
  putFails : ∀ t, writerStep len s = some t → PutRefused s t → stored s = len - 1
  getFails : ∀ t, readerStep len s = some t → GetRefused s t → stored s = 0
  readX_lt : s.readX < len
  writeX_lt : s.writeX < len
  getElementCount_eq : s.putPc = .idle → s.getPc = .idle → s.getElementCount len = stored s
  getFreeSpaceCount_eq : s.putPc = .idle → s.getPc = .idle →
    s.getFreeSpaceCount len = len - 1 - stored s

section Invariant

def PutOk (len : Nat) (s : System α) : Prop :=
  match s.putPc with
  | .idle | .enter _ => True
  | .test _ index => index = (s.puts.length + 1) % len
  | .select _ index =>
    index = (s.puts.length + 1) % len ∧ s.puts.length + 1 < s.gots.length + len
  | .store _ index place =>
    index = (s.puts.length + 1) % len ∧ s.puts.length + 1 < s.gots.length + len ∧
      place = s.writeX
  | .publish val index =>
    index = (s.puts.length + 1) % len ∧ s.puts.length + 1 < s.gots.length + len ∧
      s.buffer s.writeX = val

def GetOk (len : Nat) (s : System α) : Prop :=
  match s.getPc with
  | .idle | .enter => True
  | .compare index => index = s.readX
  | .select => s.gots.length < s.puts.length
  | .load place => s.gots.length < s.puts.length ∧ place = s.readX
  | .advance val => s.gots.length < s.puts.length ∧ s.puts[s.gots.length]? = some val
  | .publish val index =>
    s.gots.length < s.puts.length ∧ s.puts[s.gots.length]? = some val ∧
      index = (s.gots.length + 1) % len

structure Inv (len : Nat) (s : System α) : Prop where
  stores : s.Stores len s.puts s.gots.length
  inOrder : s.gots = s.puts.take s.gots.length
  put : PutOk len s
  get : GetOk len s

variable {s t : System α}

theorem inv_constructed (hlen : 0 < len) (buffer : Nat → α) : Inv len (constructed buffer) :=
  ⟨ring_empty hlen buffer, rfl, trivial, trivial⟩

theorem GetOk.append (h : GetOk len s) (hpc : t.getPc = s.getPc) (hread : t.readX = s.readX)
    (hgots : t.gots = s.gots) (more : List α) (hputs : t.puts = s.puts ++ more) : GetOk len t := by
  have hlater : ∀ {v : α}, s.gots.length < s.puts.length → s.puts[s.gots.length]? = some v →
      (s.puts ++ more)[s.gots.length]? = some v := by
    intro v hlt hv
    rw [List.getElem?_append_left hlt, hv]
  rw [GetOk] at h ⊢
  rw [hpc, hread, hgots, hputs, List.length_append]
  split at h
  · trivial
  · trivial
  · exact h
  · exact Nat.lt_add_right _ h
  · exact ⟨Nat.lt_add_right _ h.1, h.2⟩
  · exact ⟨Nat.lt_add_right _ h.1, hlater h.1 h.2⟩
  · exact ⟨Nat.lt_add_right _ h.1, hlater h.1 h.2.1, h.2.2⟩

theorem PutOk.mono (h : PutOk len s) (hpc : t.putPc = s.putPc) (hwrite : t.writeX = s.writeX)
    (hbuffer : t.buffer = s.buffer) (hputs : t.puts = s.puts)
    (hgots : s.gots.length ≤ t.gots.length) : PutOk len t := by
  rw [PutOk] at h ⊢
  rw [hpc, hwrite, hbuffer, hputs]
  split at h
  · trivial
  · trivial
  · exact h
  · exact ⟨h.1, by omega⟩
  · exact ⟨h.1, by omega, h.2.2⟩
  · exact ⟨h.1, by omega, h.2.2⟩

theorem Inv.writerStep (h : Inv len s) (hstep : writerStep len s = some t) : Inv len t := by
  obtain ⟨hstores, horder, hput, hget⟩ := h
  have hlen := hstores.len_pos
  cases hpc : s.putPc with
  | idle =>
    rw [LockFreeFifo.writerStep, hpc] at hstep
    cases hstep
  | enter val =>
    rw [LockFreeFifo.writerStep, hpc] at hstep
    cases hstep
    refine ⟨hstores, horder, ?_, hget⟩
    change advanceIndex len s.writeX = (s.puts.length + 1) % len
    rw [hstores.write, advanceIndex_mod hlen]
  | test val index =>
    rw [PutOk, hpc] at hput
    rw [LockFreeFifo.writerStep, hpc] at hstep
    dsimp only at hstep hput
    split at hstep
    · cases hstep
      exact ⟨hstores, horder, trivial, hget⟩
    · rename_i hroom
      cases hstep
      have hle := hstores.room
      have hnot : s.puts.length + 1 ≠ s.gots.length + len := fun hfull =>
        hroom (hput.trans (hstores.full_iff.mpr hfull))
      exact ⟨hstores, horder, ⟨hput, by dsimp only; omega⟩, hget⟩
  | select val index =>
    rw [PutOk, hpc] at hput
    rw [LockFreeFifo.writerStep, hpc] at hstep
    cases hstep
    exact ⟨hstores, horder, ⟨hput.1, hput.2, rfl⟩, hget⟩
  | store val index place =>
    rw [PutOk, hpc] at hput
    obtain ⟨hindex, hroom, rfl⟩ := hput
    rw [LockFreeFifo.writerStep, hpc] at hstep
    cases hstep
    have hupdate := Ring.update hstores (Nat.le_refl _) hstores.room val
    rw [← hstores.write] at hupdate
    exact ⟨hupdate, horder, ⟨hindex, hroom, Function.update_self _ _ _⟩, hget⟩
  | publish val index =>
    rw [PutOk, hpc] at hput
    obtain ⟨rfl, hroom, hval⟩ := hput
    rw [LockFreeFifo.writerStep, hpc] at hstep
    cases hstep
    refine ⟨hstores.push hval hroom, ?_, trivial, hget.append rfl rfl rfl [val] rfl⟩
    change s.gots = (s.puts ++ [val]).take s.gots.length
    rw [List.take_append_of_le_length hstores.start_le]
    exact horder

theorem Inv.readerStep (h : Inv len s) (hstep : readerStep len s = some t) : Inv len t := by
  obtain ⟨hstores, horder, hput, hget⟩ := h
  have hlen := hstores.len_pos
  cases hpc : s.getPc with
  | idle =>
    rw [LockFreeFifo.readerStep, hpc] at hstep
    cases hstep
  | enter =>
    rw [LockFreeFifo.readerStep, hpc] at hstep
    cases hstep
    exact ⟨hstores, horder, hput, rfl⟩
  | compare index =>
    rw [GetOk, hpc] at hget
    rw [LockFreeFifo.readerStep, hpc] at hstep
    dsimp only at hstep hget
    split at hstep
    · cases hstep
      exact ⟨hstores, horder, hput, trivial⟩
    · rename_i hsome
      cases hstep
      have hle := hstores.start_le
      have hnot : s.gots.length ≠ s.puts.length := fun hempty =>
        hsome (hget.trans (hstores.empty_iff.mpr hempty))
      refine ⟨hstores, horder, hput, ?_⟩
      change s.gots.length < s.puts.length
      omega
  | select =>
    rw [GetOk, hpc] at hget
    rw [LockFreeFifo.readerStep, hpc] at hstep
    cases hstep
    exact ⟨hstores, horder, hput, hget, rfl⟩
  | load place =>
    rw [GetOk, hpc] at hget
    obtain ⟨hsome, rfl⟩ := hget
    rw [LockFreeFifo.readerStep, hpc] at hstep
    cases hstep
    exact ⟨hstores, horder, hput, hsome, hstores.first hsome⟩
  | advance val =>
    rw [GetOk, hpc] at hget
    rw [LockFreeFifo.readerStep, hpc] at hstep
    cases hstep
    refine ⟨hstores, horder, hput, hget.1, hget.2, ?_⟩
    change advanceIndex len s.readX = (s.gots.length + 1) % len
    rw [hstores.read, advanceIndex_mod hlen]
  | publish val index =>
    rw [GetOk, hpc] at hget
    obtain ⟨hsome, hval, rfl⟩ := hget
    rw [LockFreeFifo.readerStep, hpc] at hstep
    cases hstep
    have hlength : (s.gots ++ [val]).length = s.gots.length + 1 := List.length_append
    refine ⟨?_, ?_, hput.mono rfl rfl rfl rfl ?_, trivial⟩
    · change Ring len s.buffer _ s.writeX s.puts (s.gots ++ [val]).length
      rw [hlength]
      exact hstores.pop hsome
    · change s.gots ++ [val] = s.puts.take (s.gots ++ [val]).length
      rw [hlength, List.take_add_one, hval, ← horder, Option.toList_some]
    · change s.gots.length ≤ (s.gots ++ [val]).length
      omega

theorem Inv.step {e : Event α} (h : Inv len s) (hstep : step len e s = some t) : Inv len t := by
  cases e with
  | put val =>
    rw [LockFreeFifo.step] at hstep
    split at hstep
    · cases hstep
      exact ⟨h.stores, h.inOrder, trivial, h.get⟩
    · cases hstep
  | writer => exact h.writerStep hstep
  | get =>
    rw [LockFreeFifo.step] at hstep
    split at hstep
    · cases hstep
      exact ⟨h.stores, h.inOrder, h.put, trivial⟩
    · cases hstep
  | reader => exact h.readerStep hstep

theorem Inv.separate (h : Inv len s) {val : α} {index place : Nat}
    (hput : s.putPc = .store val index place) : s.getPc ≠ .load place := by
  intro hget
  have hwrites := h.put
  have hreads := h.get
  rw [PutOk, hput] at hwrites
  rw [GetOk, hget] at hreads
  have hempty := h.stores.empty_iff.mp (hreads.2.symm.trans hwrites.2.2)
  exact absurd hempty hreads.1.ne

theorem Inv.putFails (h : Inv len s) (hfails : PutFails s) :
    s.puts.length + 1 = s.gots.length + len := by
  obtain ⟨val, index, hpc, hindex⟩ := hfails
  have hput := h.put
  rw [PutOk, hpc] at hput
  exact h.stores.full_iff.mp (hput.symm.trans hindex)

theorem Inv.getFails (h : Inv len s) (hfails : GetFails s) : s.gots.length = s.puts.length := by
  obtain ⟨index, hpc, hindex⟩ := hfails
  have hget := h.get
  rw [GetOk, hpc] at hget
  exact h.stores.empty_iff.mp (hget.symm.trans hindex)

theorem Inv.stored_of_getFails (h : Inv len s) (hfails : GetFails s) : stored s = 0 := by
  have hempty := h.getFails hfails
  rw [stored]
  omega

theorem putFails_of_refused (hstep : LockFreeFifo.writerStep len s = some t)
    (hrefused : PutRefused s t) : PutFails s := by
  cases hpc : s.putPc with
  | idle =>
    rw [LockFreeFifo.writerStep, hpc] at hstep
    cases hstep
  | test val index =>
    rw [LockFreeFifo.writerStep, hpc] at hstep
    dsimp only at hstep
    split at hstep
    · exact ⟨val, index, hpc, by assumption⟩
    · cases hstep
      obtain herror | ⟨hidle, -⟩ := hrefused
      · exact absurd rfl herror
      · cases hidle
  | publish val index =>
    rw [LockFreeFifo.writerStep, hpc] at hstep
    cases hstep
    obtain herror | ⟨-, hputs⟩ := hrefused
    · exact absurd rfl herror
    · exact absurd hputs (by simp)
  | _ =>
    rw [LockFreeFifo.writerStep, hpc] at hstep
    cases hstep
    obtain herror | ⟨hidle, -⟩ := hrefused
    · exact absurd rfl herror
    · cases hidle

theorem getFails_of_refused (hstep : LockFreeFifo.readerStep len s = some t)
    (hrefused : GetRefused s t) : GetFails s := by
  cases hpc : s.getPc with
  | idle =>
    rw [LockFreeFifo.readerStep, hpc] at hstep
    cases hstep
  | compare index =>
    rw [LockFreeFifo.readerStep, hpc] at hstep
    dsimp only at hstep
    split at hstep
    · exact ⟨index, hpc, by assumption⟩
    · cases hstep
      obtain herror | ⟨hidle, -⟩ := hrefused
      · exact absurd rfl herror
      · cases hidle
  | publish val index =>
    rw [LockFreeFifo.readerStep, hpc] at hstep
    cases hstep
    obtain herror | ⟨-, hgots⟩ := hrefused
    · exact absurd rfl herror
    · exact absurd hgots (by simp)
  | _ =>
    rw [LockFreeFifo.readerStep, hpc] at hstep
    cases hstep
    obtain herror | ⟨hidle, -⟩ := hrefused
    · exact absurd rfl herror
    · cases hidle

theorem Inv.consistent (h : Inv len s) : Consistent len s where
  inOrder := by
    rw [h.inOrder]
    exact List.take_prefix _ _
  separate _ _ _ hput := h.separate hput
  putFails t hstep hrefused := by
    have hfull := h.putFails (putFails_of_refused hstep hrefused)
    rw [stored]
    omega
  getFails t hstep hrefused := h.stored_of_getFails (getFails_of_refused hstep hrefused)
  readX_lt := h.stores.read_lt
  writeX_lt := h.stores.write_lt
  getElementCount_eq _ _ := h.stores.getElementCount_eq
  getFreeSpaceCount_eq _ _ := h.stores.getFreeSpaceCount_eq

end Invariant

theorem inv_of_reachable (hlen : 0 < len) {buffer : Nat → α} {s : System α}
    (h : Reachable (fun s => s = constructed buffer) (step len) s) : Inv len s := by
  refine h.invariant (Inv len) ?_ ?_
  · rintro s rfl
    exact inv_constructed hlen buffer
  · intro e s t hinv _ hstep
    exact hinv.step hstep

/-- However the accesses of the writer and the reader are interleaved, the fifo
keeps the order, and a call is refused only by the access that finds it full or empty. -/
theorem fifo_consistent (hlen : 2 ≤ len) {buffer : Nat → α} {s : System α}
    (h : Reachable (fun s => s = constructed buffer) (step len) s) : Consistent len s :=
  (inv_of_reachable (by omega) h).consistent

/-- A value is put and got, the accesses of the second `put` and the `get` mixed. -/
theorem fifo_consistent_mixed :
    ∃ s : System Nat, s.puts = [5, 6] ∧ s.gots = [5] ∧ Consistent 3 s := by
  obtain ⟨s, hs, hputs, hgots⟩ := exists_reachable
    (fun s => s = constructed fun _ => (0 : Nat)) (step 3) (fun _ _ => True)
    (constructed fun _ => 0) rfl
    [.put 5, .writer, .writer, .writer, .writer, .writer, .get, .put 6, .reader, .writer, .reader,
      .writer, .reader, .writer, .reader, .writer, .reader, .writer, .reader]
    (fun s => s.puts = [5, 6] ∧ s.gots = [5]) (by decide +kernel)
  exact ⟨s, hputs, hgots, fifo_consistent (by decide) hs⟩

section Whole

def putWhole (len : Nat) (s : System α) (val : α) : System α :=
  { s with
    toFifo := (s.toFifo.put len val).2
    puts := if (s.toFifo.put len val).1 then s.puts ++ [val] else s.puts }

def getWhole (len : Nat) (s : System α) : System α :=
  { s with
    toFifo := (s.toFifo.get len).2
    gots := s.gots ++ (s.toFifo.get len).1.toList }

variable {init : System α → Prop} {s t : System α}

theorem reachable_writerStep (h : Reachable init (step len) s)
    (hstep : writerStep len s = some t) : Reachable init (step len) t :=
  ReachableUnder.step (e := Event.writer) h trivial hstep

theorem reachable_readerStep (h : Reachable init (step len) s)
    (hstep : readerStep len s = some t) : Reachable init (step len) t :=
  ReachableUnder.step (e := Event.reader) h trivial hstep

theorem reachable_putWhole (h : Reachable init (step len) s) (hpc : s.putPc = .idle) (val : α) :
    Reachable init (step len) (putWhole len s val) := by
  obtain ⟨f, putPc, getPc, puts, gots⟩ := s
  obtain rfl : putPc = .idle := hpc
  have hcall := h.step (e := .put val) trivial rfl
  have hindex := hcall.step (e := .writer) trivial rfl
  by_cases hfull : advanceIndex len f.writeX = f.readX
  · refine hindex.step (e := .writer) trivial ?_
    simp [step, writerStep, putWhole, Fifo.put, hfull]
  · have htest : Reachable init (step len)
        ⟨f, .select val (advanceIndex len f.writeX), getPc, puts, gots⟩ := by
      refine hindex.step (e := .writer) trivial ?_
      exact if_neg hfull
    have hselect := htest.step (e := .writer) trivial rfl
    have hstore := hselect.step (e := .writer) trivial rfl
    refine hstore.step (e := .writer) trivial ?_
    simp [step, writerStep, putWhole, Fifo.put, hfull]

theorem reachable_getWhole (h : Reachable init (step len) s) (hpc : s.getPc = .idle) :
    Reachable init (step len) (getWhole len s) := by
  obtain ⟨f, putPc, getPc, puts, gots⟩ := s
  obtain rfl : getPc = .idle := hpc
  have hcall := h.step (e := .get) trivial rfl
  have hread := hcall.step (e := .reader) trivial rfl
  by_cases hempty : f.readX = f.writeX
  · refine hread.step (e := .reader) trivial ?_
    simp [step, readerStep, getWhole, Fifo.get, hempty]
  · have hcompare : Reachable init (step len) ⟨f, putPc, .select, puts, gots⟩ := by
      refine hread.step (e := .reader) trivial ?_
      exact if_neg hempty
    have hselect := hcompare.step (e := .reader) trivial rfl
    have hload := hselect.step (e := .reader) trivial rfl
    have hadvance := hload.step (e := .reader) trivial rfl
    refine hadvance.step (e := .reader) trivial ?_
    simp [step, readerStep, getWhole, Fifo.get, hempty]

theorem Inv.puts_putWhole (h : Inv len s) (val : α) :
    (putWhole len s val).puts = if stored s = len - 1 then s.puts else s.puts ++ [val] := by
  have hstart := h.stores.start_le
  have hroom := h.stores.room
  change (if (s.toFifo.put len val).1 then s.puts ++ [val] else s.puts) = _
  rw [stored]
  by_cases hfull : s.puts.length + 1 = s.gots.length + len
  · rw [h.stores.put_full hfull, if_neg Bool.false_ne_true, if_pos (by omega)]
  · rw [if_pos (h.stores.put_room (by omega) val).1, if_neg (by omega)]

/-- What a step of the reader does to the records: it takes the value out, or the call goes
on or fails. -/
theorem readerStep_cases (h : readerStep len s = some t) :
    t.puts = s.puts ∧ t.putPc = s.putPc ∧
      ((∃ val index, s.getPc = .publish val index ∧ t.gots = s.gots ++ [val]) ∨
        (∀ val index, s.getPc ≠ .publish val index) ∧ t.gots = s.gots ∧
          (t.getPc = .idle → GetFails s)) := by
  cases hpc : s.getPc with
  | idle =>
    rw [readerStep, hpc] at h
    cases h
  | compare index =>
    rw [readerStep, hpc] at h
    dsimp only at h
    split at h
    · rename_i hempty
      cases h
      exact ⟨rfl, rfl, .inr ⟨by simp, rfl, fun _ => ⟨index, hpc, hempty⟩⟩⟩
    · cases h
      exact ⟨rfl, rfl, .inr ⟨by simp, rfl, by simp⟩⟩
  | publish val index =>
    rw [readerStep, hpc] at h
    cases h
    exact ⟨rfl, rfl, .inl ⟨val, index, rfl, rfl⟩⟩
  | _ =>
    rw [readerStep, hpc] at h
    cases h
    exact ⟨rfl, rfl, .inr ⟨by simp, rfl, by simp⟩⟩

end Whole

end Rodos.LockFreeFifo
