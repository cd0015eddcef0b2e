import Rodos.Va41620Uart

namespace Rodos.Va41620UartReceive

open RingBuffer TransitionSystem LockFreeFifo
open Va41620Uart (uartBufSize)

/-- A byte read from `DATA`, how many bytes were waiting then and whether it has been stored. -/
structure Arrival where
  c : UInt8
  waiting : Nat
  stored : Bool

/-- What the thread that receives does next: one access to what the interrupt uses too, together
with accesses to what is its own. -/
inductive Pc
  | idle
  | getBufferToRead (size : Nat)
  | memcpy (p readCnt i : Nat) (buf : List UInt8)
  | compare
  | load
  | advance (c : UInt8)
  | clear (temp : Int32)

/-- The receiving side of the driver, with the bytes that have come, the overruns of the
hardware, what the calls of the thread have returned, the errors that have been reported and
those that the interrupt has counted while the counter was being reset, and how many bytes had
been stored at the last call of `upCallDataReady`. -/
structure Uart where
  receiveBuffer : Fifo UInt8
  rxErrCnt : Int32
  pc : Pc
  arrivals : List Arrival
  overruns : Nat
  returned : List (List UInt8)
  reported : Int32
  missed : Int32
  readyAt : Nat

inductive Event
  | read (size : Nat)
  | getcharNoWait
  | getRXErrorCnt
  | thread
  | rxIrq (bytes : List UInt8) (rxovr : Bool)

namespace Uart

def stored (u : Uart) : List UInt8 := (u.arrivals.filter (fun a => a.stored)).map Arrival.c

def got (u : Uart) : List UInt8 := u.returned.flatten

def waiting (u : Uart) : List UInt8 := BlockFifo.items uartBufSize u.receiveBuffer

def ret (u : Uart) (buf : List UInt8) : Uart :=
  { u with pc := .idle, returned := u.returned ++ [buf] }

def threadStep (u : Uart) : Option Uart :=
  match u.pc with
  | .idle => none
  | .getBufferToRead size =>
    match BlockFifo.getBufferToRead uartBufSize u.receiveBuffer with
    | (none, _) => some (u.ret [])
    | (some p, readCnt) => some { u with pc := .memcpy p (min readCnt size) 0 [] }
  | .memcpy p readCnt i buf =>
    if i < readCnt then
      some { u with pc := .memcpy p readCnt (i + 1) (buf ++ [u.receiveBuffer.buffer (p + i)]) }
    else
      some ({ u with
        receiveBuffer := BlockFifo.readConcluded uartBufSize u.receiveBuffer readCnt }.ret buf)
  | .compare =>
    if u.receiveBuffer.readX = u.receiveBuffer.writeX then
      some ({ u with
        receiveBuffer :=
          { u.receiveBuffer with getErrors := u.receiveBuffer.getErrors + 1 } }.ret [])
    else some { u with pc := .load }
  | .load => some { u with pc := .advance (u.receiveBuffer.buffer u.receiveBuffer.readX) }
  | .advance c =>
    some ({ u with
      receiveBuffer :=
        { u.receiveBuffer with
          readX := advanceIndex uartBufSize u.receiveBuffer.readX } }.ret [c])
  | .clear temp =>
    some { u with
      rxErrCnt := 0
      pc := .idle
      reported := u.reported + temp
      missed := u.missed + (u.rxErrCnt - temp) }

/-- One round of the loop of `rxIrqHandler`. -/
def receive (u : Uart) (c : UInt8) : Uart :=
  let r := u.receiveBuffer.put uartBufSize c
  { u with
    receiveBuffer := r.2
    rxErrCnt := if r.1 then u.rxErrCnt else u.rxErrCnt + 1
    arrivals := u.arrivals ++ [⟨c, u.receiveBuffer.getElementCount uartBufSize, r.1⟩] }

/-- The interrupt, with the bytes that are read from `DATA` while there are any. -/
def rxIrqHandler (bytes : List UInt8) (rxovr : Bool) (u : Uart) : Uart :=
  let received := bytes.foldl receive u
  let told := if bytes = [] then u else { received with readyAt := received.stored.length }
  if rxovr then { told with rxErrCnt := told.rxErrCnt + 1, overruns := told.overruns + 1 } else told

def step : Event → Uart → Option Uart
  | .read size, u =>
    match u.pc with
    | .idle => if size = 0 then some (u.ret []) else some { u with pc := .getBufferToRead size }
    | _ => none
  | .getcharNoWait, u =>
    match u.pc with
    | .idle => some { u with pc := .compare }
    | _ => none
  | .getRXErrorCnt, u =>
    match u.pc with
    | .idle => some { u with pc := .clear u.rxErrCnt }
    | _ => none
  | .thread, u => u.threadStep
  | .rxIrq bytes rxovr, u => some (u.rxIrqHandler bytes rxovr)

def isDataReady (u : Uart) : Bool := !u.receiveBuffer.isEmpty

def constructed (buffer : Nat → UInt8) : Uart where
  receiveBuffer := ⟨buffer, 0, 0, 0, 0⟩
  rxErrCnt := 0
  pc := .idle
  arrivals := []
  overruns := 0
  returned := []
  reported := 0
  missed := 0
  readyAt := 0

def Init (u : Uart) : Prop := ∃ buffer, u = constructed buffer

def errors (u : Uart) : Nat := u.arrivals.countP (fun a => !a.stored) + u.overruns

def ThreadOk (u : Uart) : Prop :=
  match u.pc with
  | .idle | .getBufferToRead _ | .compare | .clear _ => True
  | .memcpy p readCnt i buf =>
    p = u.receiveBuffer.readX ∧ i ≤ readCnt ∧ p + readCnt ≤ uartBufSize ∧
      u.got.length + readCnt ≤ u.stored.length ∧ buf = (u.stored.drop u.got.length).take i
  | .load => u.got.length < u.stored.length
  | .advance c => u.stored[u.got.length]? = some c

structure Core (u : Uart) : Prop where
  stores : u.receiveBuffer.Stores uartBufSize u.stored u.got.length
  order : u.got = u.stored.take u.got.length
  full : ∀ a ∈ u.arrivals, a.stored = decide (a.waiting < uartBufSize - 1)
  counted : Int32.ofNat u.errors = u.reported + u.rxErrCnt + u.missed
  thread : u.ThreadOk

structure Inv (u : Uart) : Prop extends Core u where
  ready : u.readyAt = u.stored.length

theorem inv_constructed (buffer : Nat → UInt8) : Inv (constructed buffer) where
  stores := ring_empty (by decide) buffer
  order := rfl
  full := List.forall_mem_nil _
  counted := rfl
  thread := trivial
  ready := rfl

section Interrupt

variable {u v : Uart}

/-- What the thread has found out stays true when a byte is stored. -/
theorem ThreadOk.append (h : ThreadOk u) (horder : u.got.length ≤ u.stored.length)
    (hpc : v.pc = u.pc) (hread : v.receiveBuffer.readX = u.receiveBuffer.readX)
    (hreturned : v.returned = u.returned) {more : List UInt8}
    (hstored : v.stored = u.stored ++ more) : ThreadOk v := by
  have hgot : v.got = u.got := by rw [got, hreturned, got]
  rw [ThreadOk] at h ⊢
  rw [hpc, hread, hgot, hstored]
  split at h
  · trivial
  · trivial
  · trivial
  · trivial
  · obtain ⟨hp, hi, hinside, hbound, hbuf⟩ := h
    refine ⟨hp, hi, hinside, ?_, ?_⟩
    · rw [List.length_append]
      omega
    · rw [List.drop_append_of_le_length horder, List.take_append_of_le_length, hbuf]
      rw [List.length_drop]
      omega
  · rw [List.length_append]
    omega
  · have hlt := (List.getElem?_eq_some_iff.mp h).1
    rw [List.getElem?_append_left hlt]
    exact h

theorem put_readX (f : Fifo UInt8) (c : UInt8) : (f.put uartBufSize c).2.readX = f.readX := by
  rw [Fifo.put]
  split <;> rfl

theorem stored_receive (u : Uart) (c : UInt8) : (u.receive c).stored =
    u.stored ++ if (u.receiveBuffer.put uartBufSize c).1 then [c] else [] := by
  rw [stored, receive, stored]
  rw [List.filter_append, List.map_append]
  cases (u.receiveBuffer.put uartBufSize c).1 <;> rfl

theorem errors_receive (u : Uart) (c : UInt8) : (u.receive c).errors =
    u.errors + if (u.receiveBuffer.put uartBufSize c).1 then 0 else 1 := by
  rw [errors, receive, errors]
  dsimp only
  rw [List.countP_append, List.countP_singleton]
  cases (u.receiveBuffer.put uartBufSize c).1 with
  | true => simp
  | false =>
    simp
    omega

theorem Core.receive (h : Core u) (c : UInt8) : Core (u.receive c) := by
  have hstart := h.stores.start_le
  have hroom := h.stores.room
  have hcount := h.stores.getElementCount_eq
  have hstored := stored_receive u c
  have herrors := errors_receive u c
  have hread := put_readX u.receiveBuffer c
  have hsize : uartBufSize = 256 := rfl
  by_cases hfull : u.stored.length + 1 = u.got.length + uartBufSize
  · have hput := h.stores.put_full hfull c
    rw [hput, if_neg Bool.false_ne_true] at hstored herrors
    rw [List.append_nil] at hstored
    refine ⟨?_, ?_, ?_, ?_, ?_⟩
    · rw [hstored]
      rw [Uart.receive, hput]
      exact h.stores
    · rw [hstored]
      exact h.order
    · refine List.forall_mem_append.mpr ⟨h.full, List.forall_mem_singleton.mpr ?_⟩
      dsimp only
      rw [hput, hcount]
      apply (decide_eq_false _).symm
      omega
    · have hcounted := h.counted
      rw [herrors, Int32.ofNat_add, hcounted]
      rw [Uart.receive, hput]
      dsimp only
      rw [if_neg Bool.false_ne_true]
      grind
    · exact h.thread.append hstart rfl hread rfl (hstored.trans (List.append_nil _).symm)
  · obtain ⟨hok, hstores⟩ := h.stores.put_room (by omega) c
    rw [if_pos hok] at hstored herrors
    refine ⟨?_, ?_, ?_, ?_, ?_⟩
    · rw [hstored]
      exact hstores
    · rw [hstored]
      change u.got = (u.stored ++ [c]).take u.got.length
      rw [List.take_append_of_le_length hstart]
      exact h.order
    · refine List.forall_mem_append.mpr ⟨h.full, List.forall_mem_singleton.mpr ?_⟩
      dsimp only
      rw [hok, hcount]
      apply (decide_eq_true _).symm
      omega
    · have hcounted := h.counted
      rw [herrors, Nat.add_zero, hcounted]
      rw [Uart.receive]
      dsimp only
      rw [if_pos hok]
    · exact h.thread.append hstart rfl hread rfl hstored

theorem Core.foldl_receive (h : Core u) (bytes : List UInt8) : Core (bytes.foldl Uart.receive u) := by
  induction bytes generalizing u with
  | nil => exact h
  | cons c bytes ih => exact ih (h.receive c)

theorem Inv.overrun (h : Inv u) :
    Inv { u with rxErrCnt := u.rxErrCnt + 1, overruns := u.overruns + 1 } := by
  refine ⟨⟨h.stores, h.order, h.full, ?_, h.thread⟩, h.ready⟩
  have hcounted := h.counted
  rw [errors] at hcounted ⊢
  dsimp only
  rw [← Nat.add_assoc, Int32.ofNat_add, hcounted]
  grind

theorem Inv.rxIrqHandler (h : Inv u) (bytes : List UInt8) (rxovr : Bool) :
    Inv (u.rxIrqHandler bytes rxovr) := by
  have htold : Inv (if bytes = [] then u else
      { bytes.foldl Uart.receive u with readyAt := (bytes.foldl Uart.receive u).stored.length }) := by
    split
    · exact h
    · obtain ⟨hstores, horder, hfull, hcounted, hthread⟩ := h.toCore.foldl_receive bytes
      exact ⟨⟨hstores, horder, hfull, hcounted, hthread⟩, rfl⟩
  rw [Uart.rxIrqHandler]
  split
  · exact htold.overrun
  · exact htold

end Interrupt

section Thread

variable {u v : Uart}

theorem got_ret (u : Uart) (buf : List UInt8) : (u.ret buf).got = u.got ++ buf := by
  rw [got, ret, got]
  rw [List.flatten_append, List.flatten_singleton]

theorem Inv.ret (h : Inv u) {buf : List UInt8} {f : Fifo UInt8}
    (hbuf : buf = (u.stored.drop u.got.length).take buf.length)
    (hf : f.Stores uartBufSize u.stored (u.got.length + buf.length)) :
    Inv ({ u with receiveBuffer := f }.ret buf) := by
  have hgot : ({ u with receiveBuffer := f }.ret buf).got = u.got ++ buf := got_ret _ _
  refine ⟨⟨?_, ?_, h.full, h.counted, trivial⟩, h.ready⟩
  · rw [hgot, List.length_append]
    exact hf
  · change _ = u.stored.take _
    rw [hgot, List.length_append]
    rw [List.take_add, ← h.order, ← hbuf]

theorem Inv.getBufferToRead (h : Inv u) {size : Nat} (hpc : u.pc = .getBufferToRead size)
    (hv : u.threadStep = some v) : Inv v := by
  have hspec := (BlockFifo.getBufferToRead_spec h.stores).1
  rw [threadStep, hpc] at hv
  dsimp only at hv
  split at hv
  · obtain rfl := Option.some.inj hv
    exact h.ret rfl h.stores
  · rename_i p readCnt hget
    obtain rfl := Option.some.inj hv
    rw [hget] at hspec
    obtain hnone | ⟨maxLen, hsome, hinside, hbound⟩ := hspec
    · cases hnone
    · rw [Prod.mk.injEq, Option.some.injEq] at hsome
      obtain ⟨rfl, rfl⟩ := hsome
      have hmin : min readCnt size ≤ readCnt := Nat.min_le_left _ _
      have hstart := h.stores.start_le
      refine ⟨⟨h.stores, h.order, h.full, h.counted, ?_⟩, h.ready⟩
      refine ⟨rfl, Nat.zero_le _, by omega, ?_, rfl⟩
      change u.got.length + min readCnt size ≤ u.stored.length
      omega

theorem Inv.memcpy (h : Inv u) {p readCnt i : Nat} {buf : List UInt8}
    (hpc : u.pc = .memcpy p readCnt i buf) (hv : u.threadStep = some v) : Inv v := by
  have hthread := h.thread
  rw [ThreadOk, hpc] at hthread
  obtain ⟨rfl, hi, hinside, hbound, hbuf⟩ := hthread
  rw [threadStep, hpc] at hv
  dsimp only at hv
  split at hv
  · rename_i hlt
    obtain rfl := Option.some.inj hv
    refine ⟨⟨h.stores, h.order, h.full, h.counted, ?_⟩, h.ready⟩
    refine ⟨rfl, hlt, hinside, hbound, ?_⟩
    have hplace : (u.got.length + i) % uartBufSize = u.receiveBuffer.readX + i := by
      have hread := h.stores.read
      rw [hread, ← Nat.mod_add_mod, ← hread]
      exact Nat.mod_eq_of_lt (by omega)
    have hbyte := h.stores.holds (u.got.length + i) (by omega) (by omega)
    rw [hplace] at hbyte
    change _ = (u.stored.drop u.got.length).take (i + 1)
    rw [List.take_add_one, ← hbuf, List.getElem?_drop, hbyte]
    rfl
  · rename_i hge
    obtain rfl := Option.some.inj hv
    have hlength : buf.length = readCnt := by
      rw [hbuf, List.length_take, List.length_drop]
      omega
    have hstores := h.stores.drop hbound
    rw [← BlockFifo.advanceIndexEx_mod h.stores.len_pos, ← h.stores.read] at hstores
    apply h.ret
    · rw [hlength, hbuf]
      congr 1
      omega
    · rw [hlength]
      exact hstores

theorem Inv.threadStep (h : Inv u) (hv : u.threadStep = some v) : Inv v := by
  have hthread := h.thread
  cases hpc : u.pc with
  | idle =>
    rw [Uart.threadStep, hpc] at hv
    cases hv
  | getBufferToRead size => exact h.getBufferToRead hpc hv
  | memcpy p readCnt i buf => exact h.memcpy hpc hv
  | compare =>
    rw [Uart.threadStep, hpc] at hv
    dsimp only at hv
    split at hv
    · obtain rfl := Option.some.inj hv
      exact h.ret rfl h.stores
    · rename_i hne
      obtain rfl := Option.some.inj hv
      have hnot : u.got.length ≠ u.stored.length := fun heq => hne (h.stores.empty_iff.mpr heq)
      exact ⟨⟨h.stores, h.order, h.full, h.counted,
        Nat.lt_of_le_of_ne h.stores.start_le hnot⟩, h.ready⟩
  | load =>
    rw [ThreadOk, hpc] at hthread
    rw [Uart.threadStep, hpc] at hv
    obtain rfl := Option.some.inj hv
    exact ⟨⟨h.stores, h.order, h.full, h.counted, h.stores.first hthread⟩, h.ready⟩
  | advance c =>
    rw [ThreadOk, hpc] at hthread
    rw [Uart.threadStep, hpc] at hv
    obtain rfl := Option.some.inj hv
    have hlt := (List.getElem?_eq_some_iff.mp hthread).1
    have hstores := h.stores.pop hlt
    rw [← advanceIndex_mod h.stores.len_pos, ← h.stores.read] at hstores
    apply h.ret
    · rw [List.length_singleton, List.take_one, List.head?_drop, hthread]
      rfl
    · exact hstores
  | clear temp =>
    have hcounted := h.counted
    rw [Uart.threadStep, hpc] at hv
    obtain rfl := Option.some.inj hv
    refine ⟨⟨h.stores, h.order, h.full, ?_, trivial⟩, h.ready⟩
    change Int32.ofNat u.errors = u.reported + temp + 0 + (u.missed + (u.rxErrCnt - temp))
    rw [hcounted]
    grind

theorem Inv.step {e : Event} (h : Inv u) (hv : Uart.step e u = some v) : Inv v := by
  cases e with
  | read size =>
    rw [Uart.step] at hv
    split at hv
    · split at hv
      · obtain rfl := Option.some.inj hv
        exact h.ret rfl h.stores
      · obtain rfl := Option.some.inj hv
        exact ⟨⟨h.stores, h.order, h.full, h.counted, trivial⟩, h.ready⟩
    · cases hv
  | getcharNoWait | getRXErrorCnt =>
    rw [Uart.step] at hv
    split at hv
    · obtain rfl := Option.some.inj hv
      exact ⟨⟨h.stores, h.order, h.full, h.counted, trivial⟩, h.ready⟩
    · cases hv
  | thread => exact h.threadStep hv
  | rxIrq bytes rxovr =>
    obtain rfl := Option.some.inj hv
    exact h.rxIrqHandler bytes rxovr

end Thread

/-- What the calls return is what has come, in order and without the bytes that have been
dropped. Those have found the buffer full and are counted with the overruns, though the count
may be lost if it grows while it is being read. -/
structure Receives (u : Uart) : Prop where
  order : u.returned.flatten ++ u.waiting = u.stored
  full : ∀ a ∈ u.arrivals, a.stored = decide (a.waiting < uartBufSize - 1)
  counted : Int32.ofNat u.errors = u.reported + u.rxErrCnt + u.missed
  ready : u.readyAt = u.stored.length
  dataReady : u.isDataReady = true ↔ u.waiting ≠ []

theorem Inv.waiting_eq {u : Uart} (h : Inv u) : u.waiting = u.stored.drop u.got.length :=
  BlockFifo.items_eq h.stores

theorem Inv.receives {u : Uart} (h : Inv u) : Receives u where
  order := by
    rw [h.waiting_eq]
    change u.got ++ _ = _
    conv_lhs => rw [h.order]
    rw [List.length_take, Nat.min_eq_left h.stores.start_le]
    exact List.take_append_drop _ _
  full := h.full
  counted := h.counted
  ready := h.ready
  dataReady := by
    have hempty := h.stores.isEmpty_iff
    have hstart := h.stores.start_le
    rw [isDataReady, h.waiting_eq, Ne, List.drop_eq_nil_iff, Bool.not_eq_true',
      ← Bool.not_eq_true, hempty]
    omega

/-- Whatever the thread calls and whenever the interrupt comes. -/
theorem receives_in_order {u : Uart} (h : Reachable Init step u) : Receives u := by
  have hinv : Inv u := by
    apply h.invariant Inv
    · rintro u ⟨buffer, rfl⟩
      exact inv_constructed buffer
    · intro e u v ih _ hv
      exact ih.step hv
  exact hinv.receives

/-- Bytes come while `read` copies and while `getRXErrorCnt` resets the counter. -/
def mixed : List Event :=
  [.rxIrq [1, 2, 3] false, .read 2, .thread, .thread, .rxIrq [4] true, .thread, .thread,
    .getRXErrorCnt, .rxIrq [5] true, .thread]

theorem receives_in_order_mixed : ∃ u : Uart,
    (u.returned = [[1, 2]] ∧ u.waiting = [3, 4, 5] ∧ u.reported = 1 ∧ u.missed = 1) ∧
      Receives u := by
  obtain ⟨u, hu, hstate⟩ := exists_reachable Init step (fun _ _ => True)
    (constructed (fun _ => 0)) ⟨_, rfl⟩ mixed
    (fun u => u.returned = [[1, 2]] ∧ u.waiting = [3, 4, 5] ∧ u.reported = 1 ∧ u.missed = 1)
    (by decide +kernel)
  exact ⟨u, hstate, receives_in_order hu⟩

end Uart

end Rodos.Va41620UartReceive
