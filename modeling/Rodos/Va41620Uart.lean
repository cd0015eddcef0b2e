import Rodos.BlockFifo
import Rodos.RegisterBits

namespace Rodos.Va41620Uart

open RingBuffer TransitionSystem LockFreeFifo RegisterBits

def uartBufSize : Nat := 256

def irqRx : BitVec 32 := 0x01
def irqRxTo : BitVec 32 := 0x04
def irqTx : BitVec 32 := 0x10
def irqTxEmpty : BitVec 32 := 0x40

structure Result where
  buf : List UInt8
  taken : Nat

def Result.bytes (r : Result) : List UInt8 := r.buf.take r.taken

/-- What the thread that sends does next: one access to what the interrupt uses too, together
with accesses to what is its own. -/
inductive Pc
  | idle
  | getBufferToWrite (buf : List UInt8)
  | memcpy (buf : List UInt8) (p size i : Nat)
  | put (c : UInt8)
  | store (c : UInt8) (index : Nat)
  | advance (c : UInt8) (index : Nat)
  | startFifoTX (call : Result)
  | set (value : BitVec 32) (call : Result)

def Pc.starting : Pc → Bool
  | .startFifoTX _ | .set .. => true
  | _ => false

/-- The sending side of the driver, with the bytes written to `DATA`, the bytes taken by calls,
the calls that have returned, and how many bytes had been written at the last call of
`upCallWriteFinished`. -/
structure Uart where
  transmitBuffer : Fifo UInt8
  irqEnb : BitVec 32
  pc : Pc
  data : List UInt8
  taken : List UInt8
  returned : List Result
  finishedAt : Nat

inductive Event
  | write (buf : List UInt8)
  | putcharNoWait (c : UInt8)
  | thread
  | txIrq (wrrdy wrbusy : Bool) (ready : Nat)

namespace Uart

def isFifoTXRunning (u : Uart) : Bool := u.irqEnb &&& irqTx != 0

/-- What `IRQ_ENB` gets in `startFifoTX` and `finishFifoTX`. -/
def started (value : BitVec 32) : BitVec 32 := clearAndSet (irqTx ||| irqTxEmpty) irqTx value

def finished (value : BitVec 32) : BitVec 32 := clearAndSet (irqTx ||| irqTxEmpty) irqTxEmpty value

def ret (u : Uart) (call : Result) : Uart :=
  { u with pc := .idle, returned := u.returned ++ [call] }

def threadStep (u : Uart) : Option Uart :=
  match u.pc with
  | .idle => none
  | .getBufferToWrite buf =>
    match BlockFifo.getBufferToWrite uartBufSize u.transmitBuffer with
    | (none, _) => some (u.ret ⟨buf, 0⟩)
    | (some p, spaceinbuffer) =>
      some { u with pc := .memcpy buf p (min buf.length spaceinbuffer) 0 }
  | .memcpy buf p size i =>
    if i < size then
      some { u with
        transmitBuffer :=
          { u.transmitBuffer with
            buffer := Function.update u.transmitBuffer.buffer (p + i) (buf.getD i 0) }
        pc := .memcpy buf p size (i + 1) }
    else
      some { u with
        transmitBuffer := BlockFifo.writeConcluded uartBufSize u.transmitBuffer size
        taken := u.taken ++ buf.take size
        pc := .startFifoTX ⟨buf, size⟩ }
  | .put c =>
    let index := advanceIndex uartBufSize u.transmitBuffer.writeX
    if index = u.transmitBuffer.readX then
      some ({ u with
        transmitBuffer :=
          { u.transmitBuffer with putErrors := u.transmitBuffer.putErrors + 1 } }.ret ⟨[c], 0⟩)
    else some { u with pc := .store c index }
  | .store c index =>
    some { u with
      transmitBuffer :=
        { u.transmitBuffer with
          buffer := Function.update u.transmitBuffer.buffer u.transmitBuffer.writeX c }
      pc := .advance c index }
  | .advance c index =>
    some { u with
      transmitBuffer := { u.transmitBuffer with writeX := index }
      taken := u.taken ++ [c]
      pc := .startFifoTX ⟨[c], 1⟩ }
  | .startFifoTX call => some { u with pc := .set u.irqEnb call }
  | .set value call => some ({ u with irqEnb := started value }.ret call)

/-- The loop of `txIrqHandler`, where `WRRDY` is read as set so many times. -/
def drain : Nat → Uart → Uart
  | 0, u => u
  | ready + 1, u =>
    match u.transmitBuffer.get uartBufSize with
    | (none, f) => { u with transmitBuffer := f }
    | (some c, f) => drain ready { u with transmitBuffer := f, data := u.data ++ [c] }

def finishFifoTX (u : Uart) : Uart := { u with irqEnb := finished u.irqEnb }

/-- The interrupt, with what it reads from `TXSTATUS`. -/
def txIrqHandler (wrrdy wrbusy : Bool) (ready : Nat) (u : Uart) : Uart :=
  if u.isFifoTXRunning && wrrdy then
    let u := u.drain ready
    if u.transmitBuffer.isEmpty then u.finishFifoTX else u
  else if !wrbusy then
    { u with irqEnb := clearAndSet irqTxEmpty 0 u.irqEnb, finishedAt := u.data.length }
  else u

def step : Event → Uart → Option Uart
  | .write buf, u =>
    match u.pc with
    | .idle =>
      if buf = [] then some (u.ret ⟨buf, 0⟩) else some { u with pc := .getBufferToWrite buf }
    | _ => none
  | .putcharNoWait c, u =>
    match u.pc with
    | .idle => some { u with pc := .put c }
    | _ => none
  | .thread, u => u.threadStep
  | .txIrq wrrdy wrbusy ready, u => some (u.txIrqHandler wrrdy wrbusy ready)

/-- The state that the constructor and `init` leave. -/
def initialised (buffer : Nat → UInt8) : Uart where
  transmitBuffer := ⟨buffer, 0, 0, 0, 0⟩
  irqEnb := irqRx ||| irqRxTo
  pc := .idle
  data := []
  taken := []
  returned := []
  finishedAt := 0

def Init (u : Uart) : Prop := ∃ buffer, u = initialised buffer

def waiting (u : Uart) : List UInt8 := BlockFifo.items uartBufSize u.transmitBuffer

/-- With what it reads from `TXSTATUS`. -/
def isWriteFinished (u : Uart) (wrbusy : Bool) : Bool := u.transmitBuffer.isEmpty && !wrbusy

/-- An interrupt is enabled that sends or one that tells the user, or all has been told. -/
def Announces (u : Uart) : Prop :=
  u.irqEnb &&& irqTx ≠ 0 ∨ u.irqEnb &&& irqTxEmpty ≠ 0 ∨ u.finishedAt = u.taken.length

def Receiving (value : BitVec 32) : Prop :=
  value &&& ~~~(irqTx ||| irqTxEmpty) = irqRx ||| irqRxTo

section Masks

variable (value : BitVec 32)

theorem started_irqTx : started value &&& irqTx ≠ 0 := by
  rw [started, clearAndSet_and_of_subset value (by decide)]
  decide

theorem finished_irqTx : finished value &&& irqTx = 0 := by
  rw [finished, clearAndSet_and_of_subset value (by decide)]
  decide

theorem finished_irqTxEmpty : finished value &&& irqTxEmpty ≠ 0 := by
  rw [finished, clearAndSet_and_of_subset value (by decide)]
  decide

theorem told_irqTx : clearAndSet irqTxEmpty 0 value &&& irqTx = value &&& irqTx :=
  clearAndSet_and_of_disjoint value (by decide) (by decide)

variable {value}

theorem Receiving.started (h : Receiving value) : Receiving (Uart.started value) := by
  rw [Receiving] at h ⊢
  rw [Uart.started, clearAndSet_and_of_disjoint value (by decide) (by decide), h]

theorem Receiving.finished (h : Receiving value) : Receiving (Uart.finished value) := by
  rw [Receiving] at h ⊢
  rw [Uart.finished, clearAndSet_and_of_disjoint value (by decide) (by decide), h]

theorem Receiving.told (h : Receiving value) : Receiving (clearAndSet irqTxEmpty 0 value) := by
  rw [Receiving] at h ⊢
  rw [clearAndSet_and_of_disjoint value (by decide) (by decide), h]

end Masks

def ThreadOk (u : Uart) : Prop :=
  match u.pc with
  | .idle | .getBufferToWrite _ | .put _ => True
  | .startFifoTX call => call.taken ≤ call.buf.length
  | .memcpy buf p size i =>
    p = u.transmitBuffer.writeX ∧ i ≤ size ∧ size ≤ buf.length ∧ p + size ≤ uartBufSize ∧
      u.taken.length + size < u.data.length + uartBufSize ∧
      ∀ j < i, buf[j]? = some (u.transmitBuffer.buffer (p + j))
  | .store _ index =>
    index = (u.taken.length + 1) % uartBufSize ∧
      u.taken.length + 1 < u.data.length + uartBufSize
  | .advance c index =>
    index = (u.taken.length + 1) % uartBufSize ∧
      u.taken.length + 1 < u.data.length + uartBufSize ∧
      u.transmitBuffer.buffer u.transmitBuffer.writeX = c
  | .set value call => Receiving value ∧ call.taken ≤ call.buf.length

/-- Unless the thread is about to enable it, the interrupt is enabled that sends what waits. -/
def Armed (u : Uart) : Prop :=
  u.pc.starting = false →
    (u.irqEnb &&& irqTx ≠ 0 ∨ u.data.length = u.taken.length) ∧ u.Announces

def underWay (u : Uart) : List UInt8 :=
  match u.pc with
  | .startFifoTX call | .set _ call => call.bytes
  | _ => []

structure Inv (u : Uart) : Prop where
  stores : u.transmitBuffer.Stores uartBufSize u.taken u.data.length
  order : u.data = u.taken.take u.data.length
  taken : u.taken = u.returned.flatMap Result.bytes ++ u.underWay
  fits : ∀ r ∈ u.returned, r.taken ≤ r.buf.length
  thread : u.ThreadOk
  armed : u.Armed
  receiving : Receiving u.irqEnb

theorem inv_initialised (buffer : Nat → UInt8) : Inv (initialised buffer) where
  stores := ring_empty (by decide) buffer
  order := rfl
  taken := rfl
  fits := List.forall_mem_nil _
  thread := trivial
  armed := fun _ => ⟨.inr rfl, .inr (.inr rfl)⟩
  receiving := show (irqRx ||| irqRxTo) &&& ~~~(irqTx ||| irqTxEmpty) = irqRx ||| irqRxTo by decide

section Interrupt

structure Drained (u v : Uart) (n : Nat) : Prop where
  frame : v = { u with transmitBuffer := v.transmitBuffer, data := u.taken.take n }
  buffer : v.transmitBuffer.buffer = u.transmitBuffer.buffer
  writeX : v.transmitBuffer.writeX = u.transmitBuffer.writeX
  stores : v.transmitBuffer.Stores uartBufSize u.taken n
  from_le : u.data.length ≤ n

theorem get_frame (f : Fifo UInt8) :
    (f.get uartBufSize).2.buffer = f.buffer ∧ (f.get uartBufSize).2.writeX = f.writeX := by
  rw [Fifo.get]
  split <;> exact ⟨rfl, rfl⟩

theorem drain_drained (ready : Nat) {u : Uart}
    (hstores : u.transmitBuffer.Stores uartBufSize u.taken u.data.length)
    (horder : u.data = u.taken.take u.data.length) :
    Drained u (u.drain ready) (min (u.data.length + ready) u.taken.length) := by
  induction ready generalizing u with
  | zero =>
    have hn : min (u.data.length + 0) u.taken.length = u.data.length := by
      have hle := hstores.start_le
      omega
    rw [hn]
    refine ⟨?_, rfl, rfl, hstores, Nat.le_refl _⟩
    rw [← horder]
    rfl
  | succ ready ih =>
    obtain ⟨hbuffer, hwrite⟩ := get_frame u.transmitBuffer
    have hle := hstores.start_le
    rw [drain]
    by_cases hempty : u.data.length = u.taken.length
    · have hn : min (u.data.length + (ready + 1)) u.taken.length = u.data.length := by omega
      rw [hstores.get_empty hempty, hn]
      refine ⟨?_, rfl, rfl, hstores, Nat.le_refl _⟩
      rw [← horder]
    · have hlt : u.data.length < u.taken.length := by omega
      obtain ⟨hval, hnext⟩ := hstores.get_some hlt
      rw [List.getElem?_eq_getElem hlt] at hval
      cases hget : u.transmitBuffer.get uartBufSize with
      | mk val f =>
        rw [hget] at hval hnext hbuffer hwrite
        dsimp only at hval hnext hbuffer hwrite
        subst hval
        have hlength : (u.data ++ [u.taken[u.data.length]]).length = u.data.length + 1 := by
          rw [List.length_append, List.length_singleton]
        have htake : u.data ++ [u.taken[u.data.length]] = u.taken.take (u.data.length + 1) := by
          rw [List.take_add_one, ← horder, List.getElem?_eq_getElem hlt]
          rfl
        have hdrained : Drained
            { u with transmitBuffer := f, data := u.data ++ [u.taken[u.data.length]] } _ _ :=
          ih (by rw [hlength]; exact hnext) (by rw [hlength]; exact htake)
        dsimp only at hdrained ⊢
        rw [hlength, Nat.add_assoc, Nat.add_comm 1] at hdrained
        refine ⟨hdrained.frame, hdrained.buffer.trans hbuffer, hdrained.writeX.trans hwrite,
          hdrained.stores, ?_⟩
        omega

/-- What the thread has found out stays true while the interrupt takes bytes out. -/
theorem ThreadOk.mono {u v : Uart} (h : ThreadOk u) (hpc : v.pc = u.pc)
    (hwrite : v.transmitBuffer.writeX = u.transmitBuffer.writeX)
    (hbuffer : v.transmitBuffer.buffer = u.transmitBuffer.buffer) (htaken : v.taken = u.taken)
    (hdata : u.data.length ≤ v.data.length) : ThreadOk v := by
  rw [ThreadOk] at h ⊢
  rw [hpc, hwrite, hbuffer, htaken]
  split at h
  · trivial
  · trivial
  · trivial
  · exact h
  · obtain ⟨hp, hi, hsize, hinside, hroom, hcopied⟩ := h
    exact ⟨hp, hi, hsize, hinside, by omega, hcopied⟩
  · exact ⟨h.1, by omega⟩
  · exact ⟨h.1, by omega, h.2.2⟩
  · exact h

variable {u v : Uart}

theorem Inv.drain (h : Inv u) (ready : Nat) :
    Drained u (u.drain ready) (min (u.data.length + ready) u.taken.length) :=
  drain_drained ready h.stores h.order

theorem Inv.drained (h : Inv u) {n : Nat} (hd : Drained u v n) (hn : n ≤ u.taken.length)
    {value : BitVec 32} (hvalue : Receiving value)
    (harmed : Armed { v with irqEnb := value }) : Inv { v with irqEnb := value } := by
  have hlength : (u.taken.take n).length = n := by
    rw [List.length_take]
    omega
  have hframe := hd.frame
  have hpc : v.pc = u.pc := by rw [hframe]
  have htaken : v.taken = u.taken := by rw [hframe]
  have hreturned : v.returned = u.returned := by rw [hframe]
  have hdata : v.data = u.taken.take n := by rw [hframe]
  have hdataLength : v.data.length = n := by rw [hdata, hlength]
  refine ⟨?_, ?_, ?_, ?_, ?_, harmed, hvalue⟩
  · change v.transmitBuffer.Stores uartBufSize v.taken v.data.length
    rw [htaken, hdataLength]
    exact hd.stores
  · change v.data = v.taken.take v.data.length
    rw [htaken, hdataLength, hdata]
  · have hcall := h.taken
    rw [underWay] at hcall ⊢
    dsimp only
    rw [htaken, hreturned, hpc]
    exact hcall
  · change ∀ r ∈ v.returned, r.taken ≤ r.buf.length
    rw [hreturned]
    exact h.fits
  · apply h.thread.mono
    · exact hpc
    · exact hd.writeX
    · exact hd.buffer
    · exact htaken
    · exact hd.from_le.trans_eq hdataLength.symm

theorem Inv.txIrqHandler (h : Inv u) (wrrdy wrbusy : Bool) (ready : Nat) :
    Inv (u.txIrqHandler wrrdy wrbusy ready) := by
  rw [Uart.txIrqHandler]
  split
  · rename_i hsends
    have hrunning : u.irqEnb &&& irqTx ≠ 0 := by
      have hboth := (Bool.and_eq_true _ _ ▸ hsends).1
      simpa [isFifoTXRunning] using hboth
    have hd := h.drain ready
    have hframe := hd.frame
    have hn : min (u.data.length + ready) u.taken.length ≤ u.taken.length := Nat.min_le_right _ _
    generalize u.drain ready = v at hd hframe ⊢
    dsimp only
    split
    · rename_i hempty
      have hall := hd.stores.isEmpty_iff.mp hempty
      have hirq : v.irqEnb = u.irqEnb := by rw [hframe]
      have hdata : v.data.length = v.taken.length := by
        rw [hframe]
        rw [hall, List.length_take, Nat.min_self]
      rw [finishFifoTX, hirq]
      apply h.drained hd hn h.receiving.finished
      exact fun _ => ⟨.inr hdata, .inr (.inl (finished_irqTxEmpty u.irqEnb))⟩
    · have hv : v = { v with irqEnb := u.irqEnb } := by
        conv_lhs => rw [hframe]
        conv_rhs => rw [hframe]
      rw [hv]
      apply h.drained hd hn h.receiving
      exact fun _ => ⟨.inl hrunning, .inl hrunning⟩
  · split
    · refine ⟨h.stores, h.order, h.taken, h.fits, h.thread, ?_, h.receiving.told⟩
      intro hstarting
      obtain ⟨hsent, -⟩ := h.armed hstarting
      rw [Announces]
      dsimp only
      rw [told_irqTx]
      obtain hrunning | hall := hsent
      · exact ⟨.inl hrunning, .inl hrunning⟩
      · exact ⟨.inr hall, .inr (.inr hall)⟩
    · exact h

end Interrupt

section Thread

variable {u v : Uart}

theorem inv_ret (u : Uart) {call : Result}
    (hstores : u.transmitBuffer.Stores uartBufSize u.taken u.data.length)
    (horder : u.data = u.taken.take u.data.length)
    (htaken : u.taken = u.returned.flatMap Result.bytes ++ call.bytes)
    (hsent : u.irqEnb &&& irqTx ≠ 0 ∨ u.data.length = u.taken.length) (hannounces : u.Announces)
    (hreceiving : Receiving u.irqEnb) (hfits : ∀ r ∈ u.returned, r.taken ≤ r.buf.length)
    (hcall : call.taken ≤ call.buf.length) : Inv (u.ret call) := by
  refine ⟨hstores, horder, ?_, ?_, trivial, fun _ => ⟨hsent, hannounces⟩, hreceiving⟩
  · change u.taken = (u.returned ++ [call]).flatMap Result.bytes ++ []
    rw [List.flatMap_append, List.flatMap_singleton, List.append_nil]
    exact htaken
  · exact List.forall_mem_append.mpr ⟨hfits, List.forall_mem_singleton.mpr hcall⟩

theorem place_eq (h : Inv u) {size i : Nat} (hinside : u.transmitBuffer.writeX + size ≤ uartBufSize)
    (hi : i < size) : (u.taken.length + i) % uartBufSize = u.transmitBuffer.writeX + i := by
  have hwrite := h.stores.write
  rw [hwrite, ← Nat.mod_add_mod, ← hwrite]
  exact Nat.mod_eq_of_lt (by omega)

theorem Inv.getBufferToWrite (h : Inv u) {buf : List UInt8} (hpc : u.pc = .getBufferToWrite buf)
    (hv : u.threadStep = some v) : Inv v := by
  have hstarting : u.pc.starting = false := congrArg Pc.starting hpc
  obtain ⟨hsent, hannounces⟩ := h.armed hstarting
  have htaken := h.taken
  rw [underWay, hpc] at htaken
  have hspec := (BlockFifo.getBufferToWrite_spec h.stores).1
  have hroom := h.stores.room
  rw [threadStep, hpc] at hv
  dsimp only at hv htaken
  split at hv
  · obtain rfl := Option.some.inj hv
    exact inv_ret u h.stores h.order htaken hsent hannounces h.receiving h.fits
      (Nat.zero_le _)
  · rename_i p spaceinbuffer hget
    obtain rfl := Option.some.inj hv
    rw [hget] at hspec
    obtain hnone | ⟨maxLen, hsome, hinside, hbound⟩ := hspec
    · cases hnone
    · rw [Prod.mk.injEq, Option.some.injEq] at hsome
      obtain ⟨rfl, rfl⟩ := hsome
      refine ⟨h.stores, h.order, htaken, h.fits, ?_, fun _ => ⟨hsent, hannounces⟩, h.receiving⟩
      have hsize : min buf.length spaceinbuffer ≤ spaceinbuffer := Nat.min_le_right _ _
      refine ⟨rfl, Nat.zero_le _, Nat.min_le_left _ _, by omega, by dsimp only; omega, ?_⟩
      intro j hj
      exact absurd hj (Nat.not_lt_zero j)

theorem Inv.memcpy (h : Inv u) {buf : List UInt8} {p size i : Nat}
    (hpc : u.pc = .memcpy buf p size i) (hv : u.threadStep = some v) : Inv v := by
  have hstarting : u.pc.starting = false := congrArg Pc.starting hpc
  obtain ⟨hsent, hannounces⟩ := h.armed hstarting
  have htaken := h.taken
  rw [underWay, hpc] at htaken
  have hthread := h.thread
  rw [ThreadOk, hpc] at hthread
  obtain ⟨rfl, hi, hsize, hinside, hroom, hcopied⟩ := hthread
  rw [threadStep, hpc] at hv
  dsimp only at hv htaken
  split at hv
  · rename_i hlt
    obtain rfl := Option.some.inj hv
    have hplace := place_eq h hinside hlt
    have hstores : Ring uartBufSize (Function.update u.transmitBuffer.buffer
        ((u.taken.length + i) % uartBufSize) (buf.getD i 0)) _ _ u.taken u.data.length :=
      Ring.update h.stores (by omega) (by omega) _
    rw [hplace] at hstores
    refine ⟨hstores, h.order, htaken, h.fits, ?_, fun _ => ⟨hsent, hannounces⟩, h.receiving⟩
    refine ⟨rfl, hlt, hsize, hinside, hroom, ?_⟩
    intro j hj
    by_cases hji : j = i
    · subst hji
      dsimp only
      rw [Function.update_self, List.getD_eq_getElem?_getD, List.getElem?_eq_getElem (by omega),
        Option.getD_some]
    · dsimp only
      rw [Function.update_of_ne (by omega)]
      exact hcopied j (by omega)
  · rename_i hge
    obtain rfl := Option.some.inj hv
    have hlength : (buf.take size).length = size := by
      rw [List.length_take]
      omega
    have hstores := h.stores.append (buf.take size) (by omega) (by
      intro j hj
      rw [List.getElem?_take_of_lt (by omega), place_eq h hinside (by omega)]
      exact hcopied j (by omega))
    rw [hlength, ← BlockFifo.advanceIndexEx_mod h.stores.len_pos, ← h.stores.write] at hstores
    refine ⟨hstores, ?_, ?_, h.fits, hsize, ?_, h.receiving⟩
    · change u.data = (u.taken ++ buf.take size).take u.data.length
      rw [List.take_append_of_le_length h.stores.start_le]
      exact h.order
    · change u.taken ++ buf.take size = u.returned.flatMap Result.bytes ++ buf.take size
      rw [List.append_nil] at htaken
      rw [← htaken]
    · intro hfalse
      cases hfalse

theorem Inv.put (h : Inv u) {c : UInt8} (hpc : u.pc = .put c) (hv : u.threadStep = some v) :
    Inv v := by
  have hstarting : u.pc.starting = false := congrArg Pc.starting hpc
  obtain ⟨hsent, hannounces⟩ := h.armed hstarting
  have htaken := h.taken
  rw [underWay, hpc] at htaken
  have hindex : advanceIndex uartBufSize u.transmitBuffer.writeX =
      (u.taken.length + 1) % uartBufSize := by
    rw [h.stores.write, advanceIndex_mod h.stores.len_pos]
  have hle := h.stores.room
  rw [threadStep, hpc] at hv
  dsimp only at hv htaken
  split at hv
  · obtain rfl := Option.some.inj hv
    exact inv_ret { u with transmitBuffer := _ } h.stores h.order htaken hsent hannounces
      h.receiving h.fits (Nat.zero_le _)
  · rename_i hroom
    obtain rfl := Option.some.inj hv
    refine ⟨h.stores, h.order, htaken, h.fits, ⟨hindex, ?_⟩, fun _ => ⟨hsent, hannounces⟩, h.receiving⟩
    have hnot : u.taken.length + 1 ≠ u.data.length + uartBufSize :=
      fun hfull => hroom (hindex.trans (h.stores.full_iff.mpr hfull))
    dsimp only
    omega

theorem Inv.store (h : Inv u) {c : UInt8} {index : Nat} (hpc : u.pc = .store c index)
    (hv : u.threadStep = some v) : Inv v := by
  have hstarting : u.pc.starting = false := congrArg Pc.starting hpc
  have htaken := h.taken
  rw [underWay, hpc] at htaken
  have hthread := h.thread
  rw [ThreadOk, hpc] at hthread
  rw [threadStep, hpc] at hv
  obtain rfl := Option.some.inj hv
  have hstores := Ring.update h.stores (Nat.le_refl _) h.stores.room c
  rw [← h.stores.write] at hstores
  exact ⟨hstores, h.order, htaken, h.fits, ⟨hthread.1, hthread.2, Function.update_self _ _ _⟩,
    fun _ => h.armed hstarting, h.receiving⟩

theorem Inv.advance (h : Inv u) {c : UInt8} {index : Nat} (hpc : u.pc = .advance c index)
    (hv : u.threadStep = some v) : Inv v := by
  have htaken := h.taken
  rw [underWay, hpc, List.append_nil] at htaken
  have hthread := h.thread
  rw [ThreadOk, hpc] at hthread
  obtain ⟨rfl, hroom, hval⟩ := hthread
  rw [threadStep, hpc] at hv
  obtain rfl := Option.some.inj hv
  refine ⟨h.stores.push hval hroom, ?_, ?_, h.fits, Nat.le_refl _, ?_, h.receiving⟩
  · change u.data = (u.taken ++ [c]).take u.data.length
    rw [List.take_append_of_le_length h.stores.start_le]
    exact h.order
  · change u.taken ++ [c] = u.returned.flatMap Result.bytes ++ [c]
    rw [← htaken]
  · intro hfalse
    cases hfalse

theorem Inv.threadStep (h : Inv u) (hv : u.threadStep = some v) : Inv v := by
  cases hpc : u.pc with
  | idle =>
    rw [Uart.threadStep, hpc] at hv
    cases hv
  | getBufferToWrite buf => exact h.getBufferToWrite hpc hv
  | memcpy buf p size i => exact h.memcpy hpc hv
  | put c => exact h.put hpc hv
  | store c index => exact h.store hpc hv
  | advance c index => exact h.advance hpc hv
  | startFifoTX call =>
    have htaken := h.taken
    rw [underWay, hpc] at htaken
    have hcall := h.thread
    rw [ThreadOk, hpc] at hcall
    rw [Uart.threadStep, hpc] at hv
    obtain rfl := Option.some.inj hv
    refine ⟨h.stores, h.order, htaken, h.fits, ⟨h.receiving, hcall⟩, ?_, h.receiving⟩
    intro hfalse
    cases hfalse
  | set value call =>
    have htaken := h.taken
    rw [underWay, hpc] at htaken
    have hthread := h.thread
    rw [ThreadOk, hpc] at hthread
    rw [Uart.threadStep, hpc] at hv
    obtain rfl := Option.some.inj hv
    have hrunning := started_irqTx value
    exact inv_ret { u with irqEnb := started value } h.stores h.order htaken
      (.inl hrunning) (.inl hrunning) (Receiving.started hthread.1) h.fits hthread.2

theorem Inv.step {e : Event} (h : Inv u) (hv : Uart.step e u = some v) : Inv v := by
  cases e with
  | write buf =>
    rw [Uart.step] at hv
    split at hv
    · rename_i hpc
      have hstarting : u.pc.starting = false := congrArg Pc.starting hpc
      have htaken := h.taken
      rw [underWay, hpc] at htaken
      split at hv
      · obtain rfl := Option.some.inj hv
        obtain ⟨hsent, hannounces⟩ := h.armed hstarting
        exact inv_ret u h.stores h.order htaken hsent hannounces h.receiving h.fits
          (Nat.zero_le _)
      · obtain rfl := Option.some.inj hv
        exact ⟨h.stores, h.order, htaken, h.fits, trivial, fun _ => h.armed hstarting, h.receiving⟩
    · cases hv
  | putcharNoWait c =>
    rw [Uart.step] at hv
    split at hv
    · rename_i hpc
      have hstarting : u.pc.starting = false := congrArg Pc.starting hpc
      have htaken := h.taken
      rw [underWay, hpc] at htaken
      obtain rfl := Option.some.inj hv
      exact ⟨h.stores, h.order, htaken, h.fits, trivial, fun _ => h.armed hstarting, h.receiving⟩
    · cases hv
  | thread => exact h.threadStep hv
  | txIrq wrrdy wrbusy ready =>
    obtain rfl := Option.some.inj hv
    exact h.txIrqHandler wrrdy wrbusy ready

end Thread

/-- Nothing is lost, sent twice or sent out of order, nothing that waits is forgotten by the
interrupts, and the user is told when all has been sent. -/
structure Transmits (u : Uart) : Prop where
  order : u.data ++ u.waiting = u.taken
  taken : u.pc = .idle → u.taken = u.returned.flatMap Result.bytes
  fits : ∀ r ∈ u.returned, r.taken ≤ r.buf.length
  sends : u.pc = .idle → u.waiting ≠ [] → u.irqEnb &&& irqTx ≠ 0
  announces : u.pc = .idle → u.Announces
  receiving : Receiving u.irqEnb
  finished : ∀ wrbusy, u.isWriteFinished wrbusy = true → u.data = u.taken ∧ wrbusy = false
  flush : u.irqEnb &&& irqTx ≠ 0 → ∀ wrbusy ready, u.waiting.length ≤ ready →
    ∀ v, v = u.txIrqHandler true wrbusy ready →
      v.data = u.taken ∧ v.irqEnb &&& irqTxEmpty ≠ 0 ∧
        ∀ wrrdy ready', (v.txIrqHandler wrrdy false ready').finishedAt = u.taken.length

section Results

variable {u : Uart} (h : Inv u)
include h

theorem Inv.waiting_eq : u.waiting = u.taken.drop u.data.length := BlockFifo.items_eq h.stores

theorem Inv.flush (hrunning : u.irqEnb &&& irqTx ≠ 0) (wrbusy : Bool) {ready : Nat}
    (hready : u.waiting.length ≤ ready) :
    (u.txIrqHandler true wrbusy ready).data = u.taken ∧
      (u.txIrqHandler true wrbusy ready).irqEnb = finished u.irqEnb := by
  have hd := h.drain ready
  have hframe := hd.frame
  have hall : min (u.data.length + ready) u.taken.length = u.taken.length := by
    rw [h.waiting_eq, List.length_drop] at hready
    omega
  have hsends : (u.isFifoTXRunning && true) = true := by
    rw [Bool.and_true, isFifoTXRunning]
    simpa using hrunning
  rw [hall] at hd hframe
  rw [Uart.txIrqHandler, if_pos hsends]
  generalize u.drain ready = v at hd hframe ⊢
  have hempty : v.transmitBuffer.isEmpty = true := hd.stores.isEmpty_iff.mpr rfl
  dsimp only
  rw [if_pos hempty, finishFifoTX]
  have hdata : v.data = u.taken := by
    rw [hframe]
    exact List.take_length
  have hirq : v.irqEnb = u.irqEnb := by rw [hframe]
  exact ⟨hdata, congrArg finished hirq⟩

theorem Inv.transmits : Transmits u where
  order := by
    rw [h.waiting_eq]
    conv_lhs => rw [h.order]
    rw [List.length_take, Nat.min_eq_left h.stores.start_le]
    exact List.take_append_drop _ _
  taken hidle := by
    have htaken := h.taken
    rwa [underWay, hidle, List.append_nil] at htaken
  fits := h.fits
  sends hidle hwaiting := by
    obtain ⟨hrunning | hall, -⟩ := h.armed (congrArg Pc.starting hidle)
    · exact hrunning
    · rw [h.waiting_eq, hall, List.drop_length] at hwaiting
      exact absurd rfl hwaiting
  announces hidle := (h.armed (congrArg Pc.starting hidle)).2
  receiving := h.receiving
  finished wrbusy hfinished := by
    rw [isWriteFinished, Bool.and_eq_true, Bool.not_eq_true'] at hfinished
    have hall := h.stores.isEmpty_iff.mp hfinished.1
    refine ⟨?_, hfinished.2⟩
    rw [h.order, hall]
    exact List.take_length
  flush := by
    rintro hrunning wrbusy ready hready v rfl
    obtain ⟨hdata, hirq⟩ := h.flush hrunning wrbusy hready
    refine ⟨hdata, ?_, ?_⟩
    · rw [hirq]
      exact finished_irqTxEmpty _
    · intro wrrdy ready'
      generalize u.txIrqHandler true wrbusy ready = v at hdata hirq
      have hstopped : v.isFifoTXRunning = false := by
        rw [isFifoTXRunning, hirq, finished_irqTx]
        rfl
      rw [Uart.txIrqHandler, hstopped]
      exact congrArg List.length hdata

end Results

/-- Whatever the thread sends and whenever the interrupt comes. -/
theorem transmits_in_order {u : Uart} (h : Reachable Init step u) : Transmits u := by
  have hinv : Inv u := by
    apply h.invariant Inv
    · rintro u ⟨buffer, rfl⟩
      exact inv_initialised buffer
    · intro e u v ih _ hv
      exact ih.step hv
  exact hinv.transmits

/-- The interrupt sends a part of what `write` has taken, and once more while `putcharNoWait`
has read `IRQ_ENB` and not yet written it. -/
def mixed : List Event :=
  .write [1, 2, 3] :: List.replicate 7 .thread ++ [.txIrq true true 2, .putcharNoWait 4] ++
    List.replicate 4 .thread ++ [.txIrq true true 1, .thread]

theorem transmits_in_order_mixed : ∃ u : Uart,
    (u.pc.starting = false ∧ u.data = [1, 2, 3] ∧ u.taken = [1, 2, 3, 4]) ∧ Transmits u := by
  obtain ⟨u, hu, hstate⟩ := exists_reachable Init step (fun _ _ => True)
    (initialised (fun _ => 0)) ⟨_, rfl⟩ mixed
    (fun u => u.pc.starting = false ∧ u.data = [1, 2, 3] ∧ u.taken = [1, 2, 3, 4])
    (by decide +kernel)
  exact ⟨u, hstate, transmits_in_order hu⟩

end Uart

end Rodos.Va41620Uart
