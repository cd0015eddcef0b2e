import Rodos.LockFreeFifo
import Rodos.Va41620Can

namespace Rodos.Va41620Receive

open AccessTrace TransitionSystem
open LockFreeFifo (putWhole readerStep stored)
open Va41620Can (Buffer CanController CanFilter CanMessage findFilter firstTxBufferIndex
  handleInterruptFromRxBuffer numSoftwareFilters registerMetadata setBuffer)

def rxBufferSize : Nat := 10

section Fields

/-- `BitField::read` of a sub value. -/
def readSubValue (offset length value : UInt32) : UInt32 :=
  (value &&& (((1 <<< length) - 1) <<< offset)) >>> offset

def getIde (metadata : UInt32) : Bool := readSubValue 19 1 metadata != 0

def getId (metadata : UInt32) : UInt32 :=
  if getIde metadata then (readSubValue 21 11 metadata <<< 18) ||| readSubValue 1 18 metadata
  else readSubValue 21 11 metadata

def getRTR (metadata : UInt32) : Bool :=
  if getIde metadata then readSubValue 0 1 metadata != 0 else readSubValue 20 1 metadata != 0

/-- A byte of the words of a message in memory, and of what lies behind them. -/
def byteAt (behind : Nat → UInt8) (data : Nat → UInt16) (i : Nat) : UInt8 :=
  if i < 8 then
    if i % 2 = 0 then (data (i / 2)).toUInt8 else (data (i / 2) >>> 8).toUInt8
  else behind i

end Fields

/-- What an interrupt finds in the registers of its buffer. -/
structure Registers where
  id0 : UInt16
  id1 : UInt16
  data : Nat → UInt16
  cnstat : UInt32

namespace Registers

def buffer (r : Registers) : Buffer :=
  ⟨r.data, r.id0, r.id1, .rxFull, (readSubValue 12 4 r.cnstat).toUInt8⟩

def message (r : Registers) : CanMessage :=
  ⟨fun k => r.data (3 - k), registerMetadata r.id0 r.id1, (readSubValue 12 4 r.cnstat).toUInt8⟩

/-- The frame as the manual of the controller lays it out. -/
def ide (r : Registers) : Bool := r.id1.toNat / 8 % 2 = 1

def rtr (r : Registers) : Bool :=
  if r.ide then r.id0.toNat % 2 = 1 else r.id1.toNat / 16 % 2 = 1

def id (r : Registers) : Nat :=
  if r.ide then r.id1.toNat / 2 ^ 5 * 2 ^ 18 + r.id1.toNat % 8 * 2 ^ 15 + r.id0.toNat / 2
  else r.id1.toNat / 2 ^ 5

def dlc (r : Registers) : Nat := r.cnstat.toNat / 2 ^ 12 % 2 ^ 4

def bytes (r : Registers) : List UInt8 :=
  [r.data 3, r.data 2, r.data 1, r.data 0].flatMap fun word : UInt16 =>
    [word.toUInt8, (word >>> 8).toUInt8]

end Registers

section Read

/-- Which of the pointers that `read` is given are not null. -/
structure ReadCall where
  recBuf : Bool
  canID : Bool
  ide : Bool
  rtr : Bool

/-- What `read` writes where the pointers lead, and its value. -/
structure ReadResult where
  recBuf : Option (List UInt8)
  canID : Option UInt32
  ide : Option Bool
  rtr : Option Bool
  returned : Int

/-- The part of `read` after it has got a message. -/
def deliver (behind : Nat → UInt8) (call : ReadCall) (message : CanMessage) : ReadResult where
  canID := if call.canID then some (getId message.metadata) else none
  ide := if call.ide then some (getIde message.metadata) else none
  rtr := if call.rtr then some (getRTR message.metadata) else none
  recBuf :=
    if call.recBuf then some ((List.range message.length.toNat).map (byteAt behind message.data))
    else none
  returned := MachineInt.int8 message.length.toNat

/-- The result that a call should have for a frame. -/
structure ReadAs (frame : Registers) (call : ReadCall) (result : ReadResult) : Prop where
  canID : result.canID.map UInt32.toNat = if call.canID then some frame.id else none
  ide : result.ide = if call.ide then some frame.ide else none
  rtr : result.rtr = if call.rtr then some frame.rtr else none
  recBuf : result.recBuf = if call.recBuf then some (frame.bytes.take frame.dlc) else none
  returned : result.returned = frame.dlc

end Read

/-- A frame with the number of frames that each receive buffer held when it came. -/
structure Arrival (O : Type) where
  frame : Registers
  stored : O → Nat

/-- The controller with the receive buffers of its users and their calls of `read`. The
frames that have come and the results of `read` are recorded, for a call without a
result the number of frames there were. -/
structure System (O : Type) where
  controller : CanController O
  rxBuf : O → LockFreeFifo.System CanMessage
  calls : O → Option ReadCall
  arrivals : List (Arrival O)
  reads : O → List (ReadCall × ReadResult)
  refused : O → List Nat

/-- The accesses of `read` to the receive buffer are separate steps, an interrupt is not
interrupted. -/
inductive Event (O : Type)
  | received (bufferId : Int) (frame : Registers)
  | read (o : O) (call : ReadCall)
  | reader (o : O)

section Steps

variable {O : Type} [DecidableEq O]

def addRxFrame (s : System O) (o : O) (message : CanMessage) : System O :=
  { s with rxBuf := Function.update s.rxBuf o (putWhole rxBufferSize (s.rxBuf o) message) }

def received (s : System O) (bufferId : Int) (frame : Registers) : Option (System O) :=
  let r := handleInterruptFromRxBuffer (setBuffer s.controller bufferId frame.buffer) bufferId
  let s := { s with
    controller := r.value.2
    arrivals := s.arrivals ++ [⟨frame, fun o => stored (s.rxBuf o)⟩] }
  match r.value.1 with
  | some (some o, message) => some (addRxFrame s o message)
  | some (none, _) => none
  | none => some s

def readStep (behind : Nat → UInt8) (s : System O) (o : O) (call : ReadCall)
    (fifo : LockFreeFifo.System CanMessage) : System O :=
  let stepped := { s with rxBuf := Function.update s.rxBuf o fifo }
  match (s.rxBuf o).getPc, fifo.getPc with
  | .publish message _, _ => { stepped with
      calls := Function.update s.calls o none
      reads := Function.update s.reads o (s.reads o ++ [(call, deliver behind call message)]) }
  | _, .idle => { stepped with
      calls := Function.update s.calls o none
      refused := Function.update s.refused o (s.refused o ++ [stored (s.rxBuf o)]) }
  | _, _ => stepped

def step (behind : Nat → UInt8) : Event O → System O → Option (System O)
  | .received bufferId frame, s =>
    if 0 ≤ bufferId ∧ bufferId < firstTxBufferIndex then received s bufferId frame else none
  | .read o call, s =>
    (LockFreeFifo.step rxBufferSize .get (s.rxBuf o)).map fun fifo => { s with
      rxBuf := Function.update s.rxBuf o fifo
      calls := Function.update s.calls o (some call) }
  | .reader o, s =>
    match s.calls o, readerStep rxBufferSize (s.rxBuf o) with
    | some call, some fifo => some (readStep behind s o call fifo)
    | _, _ => none

/-- The table has been filled, and no frame has come so far. -/
def Ready (c : CanController O) (contents : O → Nat → CanMessage) (s : System O) : Prop :=
  s = ⟨c, fun o => LockFreeFifo.constructed (contents o), fun _ => none, [], fun _ => [], fun _ => []⟩

end Steps

section Purpose

variable {O : Type}

def firstOwner (c : CanController O) (frame : Registers) : Option O :=
  ((List.range c.usedFilterCounter.toNat).find? fun i : Nat =>
    (c.softwareFilters i).matches (registerMetadata frame.id0 frame.id1)).bind fun i : Nat =>
      (c.softwareFilters i).owner

/-- The frames for one of the users that have not found its receive buffer full. -/
def accepted [DecidableEq O] (c : CanController O) (o : O) (arrivals : List (Arrival O)) :
    List Registers :=
  (arrivals.filter fun a => firstOwner c a.frame = some o ∧ a.stored o ≠ rxBufferSize - 1).map
    Arrival.frame

structure Delivers [DecidableEq O] (c : CanController O) (s : System O) : Prop where
  queued : ∀ o, (s.rxBuf o).puts = (accepted c o s.arrivals).map Registers.message
  reads : ∀ o, List.Forall₂ (fun frame r => ReadAs frame r.1 r.2)
    ((accepted c o s.arrivals).take (s.reads o).length) (s.reads o)
  refused : ∀ o, ∀ n ∈ s.refused o, n = 0
  copied : ∀ o, ∀ r ∈ s.reads o, ∀ bytes, r.2.recBuf = some bytes → bytes.length ≤ 8
  returned : ∀ o, ∀ r ∈ s.reads o, r.2.returned ≤ 8
  served : ∀ bufferId frame, (received s bufferId frame).isSome

/-- A frame that gets into a receive buffer has at most eight bytes. -/
def Short : Event O → System O → Prop
  | .received _ frame, s =>
    match firstOwner s.controller frame with
    | some o => stored (s.rxBuf o) ≠ rxBufferSize - 1 → frame.dlc ≤ 8
    | none => True
  | _, _ => True

def Owned (c : CanController O) : Prop :=
  ∀ i : Nat, i < c.usedFilterCounter.toNat → (c.softwareFilters i).owner.isSome

end Purpose

section FieldLemmas

theorem toNat_mask {offset length : UInt32} (hwidth : offset.toNat + length.toNat ≤ 32)
    (hlength : length.toNat < 32) (hoff : offset.toNat < 32) :
    (((1 : UInt32) <<< length - 1) <<< offset).toNat = (2 ^ length.toNat - 1) <<< offset.toNat := by
  have hone : ((1 : UInt32) <<< length).toNat = 2 ^ length.toNat := by
    rw [UInt32.toNat_shiftLeft, Nat.mod_eq_of_lt hlength, UInt32.toNat_one, Nat.one_shiftLeft]
    exact Nat.mod_eq_of_lt (Nat.pow_lt_pow_right (by decide) hlength)
  have hmask : ((1 : UInt32) <<< length - 1).toNat = 2 ^ length.toNat - 1 := by
    rw [UInt32.toNat_sub_of_le, hone, UInt32.toNat_one]
    rw [UInt32.le_iff_toNat_le, hone, UInt32.toNat_one]
    exact Nat.one_le_two_pow
  rw [UInt32.toNat_shiftLeft, hmask, Nat.mod_eq_of_lt hoff]
  refine Nat.mod_eq_of_lt ?_
  rw [Nat.shiftLeft_eq]
  calc (2 ^ length.toNat - 1) * 2 ^ offset.toNat
      < 2 ^ length.toNat * 2 ^ offset.toNat :=
        Nat.mul_lt_mul_of_pos_right (Nat.sub_lt (Nat.two_pow_pos _) Nat.one_pos) (Nat.two_pow_pos _)
    _ = 2 ^ (offset.toNat + length.toNat) := by rw [Nat.add_comm, Nat.pow_add]
    _ ≤ 2 ^ 32 := Nat.pow_le_pow_right (by decide) hwidth

theorem toNat_readSubValue {offset length : UInt32} (value : UInt32)
    (hwidth : offset.toNat + length.toNat ≤ 32) (hlength : length.toNat < 32)
    (hoff : offset.toNat < 32) :
    (readSubValue offset length value).toNat =
      value.toNat / 2 ^ offset.toNat % 2 ^ length.toNat := by
  rw [readSubValue, UInt32.toNat_shiftRight, UInt32.toNat_and, toNat_mask hwidth hlength hoff,
    Nat.mod_eq_of_lt hoff, Nat.shiftRight_and_distrib, Nat.shiftLeft_shiftRight,
    Nat.and_two_pow_sub_one_eq_mod, Nat.shiftRight_eq_div_pow]

theorem toNat_registerMetadata (id0 id1 : UInt16) :
    (registerMetadata id0 id1).toNat = id1.toNat * 2 ^ 16 + id0.toNat := by
  have h0 := id0.toNat_lt
  have h1 := id1.toNat_lt
  have hshift : (id1.toUInt32 <<< 16).toNat = id1.toNat <<< 16 := by
    rw [UInt32.toNat_shiftLeft, UInt16.toNat_toUInt32]
    refine Nat.mod_eq_of_lt ?_
    change id1.toNat <<< 16 < 2 ^ 32
    rw [Nat.shiftLeft_eq]
    omega
  rw [registerMetadata, UInt32.toNat_or, hshift, UInt16.toNat_toUInt32, Nat.or_comm,
    ← Nat.shiftLeft_add_eq_or_of_lt h0, Nat.shiftLeft_eq]

theorem readSubValue_ne_zero {offset : UInt32} (value : UInt32) (hoff : offset.toNat < 32) :
    (readSubValue offset 1 value != 0) = decide (value.toNat / 2 ^ offset.toNat % 2 = 1) := by
  have hbit : (readSubValue offset 1 value).toNat = value.toNat / 2 ^ offset.toNat % 2 :=
    toNat_readSubValue value hoff (by decide) hoff
  rw [Bool.eq_iff_iff, bne_iff_ne, decide_eq_true_iff, ← hbit, ne_eq, ← UInt32.toNat_inj,
    UInt32.toNat_zero]
  omega

theorem getIde_message (r : Registers) : getIde r.message.metadata = r.ide := by
  have h0 := r.id0.toNat_lt
  have h1 := r.id1.toNat_lt
  rw [getIde, Registers.ide]
  rw [readSubValue_ne_zero _ (by decide), Registers.message, toNat_registerMetadata]
  refine decide_eq_decide.mpr ?_
  change (r.id1.toNat * 2 ^ 16 + r.id0.toNat) / 2 ^ 19 % 2 = 1 ↔ _
  omega

theorem getRTR_message (r : Registers) : getRTR r.message.metadata = r.rtr := by
  have h0 := r.id0.toNat_lt
  have h1 := r.id1.toNat_lt
  rw [getRTR, Registers.rtr]
  rw [getIde_message, readSubValue_ne_zero _ (by decide), readSubValue_ne_zero _ (by decide),
    Registers.message, toNat_registerMetadata]
  split
  · refine decide_eq_decide.mpr ?_
    change (r.id1.toNat * 2 ^ 16 + r.id0.toNat) / 2 ^ 0 % 2 = 1 ↔ _
    omega
  · refine decide_eq_decide.mpr ?_
    change (r.id1.toNat * 2 ^ 16 + r.id0.toNat) / 2 ^ 20 % 2 = 1 ↔ _
    omega

theorem getId_message (r : Registers) : (getId r.message.metadata).toNat = r.id := by
  have h0 := r.id0.toNat_lt
  have h1 := r.id1.toNat_lt
  have hhigh : (readSubValue 21 11 r.message.metadata).toNat = r.id1.toNat / 2 ^ 5 := by
    rw [toNat_readSubValue _ (by decide) (by decide) (by decide), Registers.message,
      toNat_registerMetadata]
    change (r.id1.toNat * 2 ^ 16 + r.id0.toNat) / 2 ^ 21 % 2 ^ 11 = _
    omega
  have hlow : (readSubValue 1 18 r.message.metadata).toNat =
      r.id1.toNat % 8 * 2 ^ 15 + r.id0.toNat / 2 := by
    rw [toNat_readSubValue _ (by decide) (by decide) (by decide), Registers.message,
      toNat_registerMetadata]
    change (r.id1.toNat * 2 ^ 16 + r.id0.toNat) / 2 ^ 1 % 2 ^ 18 = _
    omega
  rw [getId, Registers.id]
  rw [getIde_message]
  split
  · have hshift : (readSubValue 21 11 r.message.metadata <<< 18).toNat =
        (r.id1.toNat / 2 ^ 5) <<< 18 := by
      rw [UInt32.toNat_shiftLeft, hhigh]
      refine Nat.mod_eq_of_lt ?_
      change (r.id1.toNat / 2 ^ 5) <<< 18 < 2 ^ 32
      rw [Nat.shiftLeft_eq]
      omega
    rw [UInt32.toNat_or, hshift, hlow, ← Nat.shiftLeft_add_eq_or_of_lt (by omega),
      Nat.shiftLeft_eq, Nat.add_assoc]
  · exact hhigh

theorem length_message (r : Registers) : r.message.length.toNat = r.dlc := by
  have hdlc : (readSubValue 12 4 r.cnstat).toNat = r.dlc :=
    toNat_readSubValue _ (by decide) (by decide) (by decide)
  rw [Registers.message, UInt32.toNat_toUInt8, hdlc]
  rw [Registers.dlc]
  omega

theorem bytes_message (behind : Nat → UInt8) (r : Registers) {n : Nat} (hn : n ≤ 8) :
    (List.range n).map (byteAt behind r.message.data) = r.bytes.take n := by
  have hall : (List.range 8).map (byteAt behind r.message.data) = r.bytes := rfl
  rw [← hall, ← List.map_take, List.take_range, Nat.min_eq_left hn]

theorem readAs_deliver (behind : Nat → UInt8) (call : ReadCall) (r : Registers) (h : r.dlc ≤ 8) :
    ReadAs r call (deliver behind call r.message) where
  canID := by
    rw [deliver, apply_ite (Option.map UInt32.toNat), Option.map_some, getId_message,
      Option.map_none]
  ide := by
    rw [deliver, getIde_message]
  rtr := by
    rw [deliver, getRTR_message]
  recBuf := by
    rw [deliver, length_message, bytes_message behind r h]
  returned := by
    simp only [deliver]
    rw [length_message]
    exact MachineInt.int8_eq (by omega) (by omega)

theorem ReadAs.copied {frame : Registers} {call : ReadCall} {result : ReadResult}
    (h : ReadAs frame call result) {bytes : List UInt8} (hbytes : result.recBuf = some bytes) :
    bytes.length ≤ 8 := by
  rw [h.recBuf] at hbytes
  split at hbytes
  · rw [← Option.some.inj hbytes, List.length_take]
    exact Nat.min_le_right _ _
  · cases hbytes

end FieldLemmas

theorem forall₂_exists {A B : Type} {R : A → B → Prop} {l : List A} {l' : List B}
    (h : List.Forall₂ R l l') : ∀ b ∈ l', ∃ a ∈ l, R a b := by
  induction h with
  | nil => exact List.forall_mem_nil _
  | cons hab _ ih =>
    rw [List.forall_mem_cons]
    refine ⟨⟨_, List.mem_cons_self, hab⟩, fun b hb => ?_⟩
    obtain ⟨a, ha, hab⟩ := ih b hb
    exact ⟨a, List.mem_cons_of_mem _ ha, hab⟩

section Routing

variable {O : Type}

theorem value_findFilter (softwareFilters : Int → CanFilter O) (metadata : UInt32) (l : List Nat) :
    (findFilter softwareFilters metadata l).value =
      (l.find? fun i : Nat => (softwareFilters i).matches metadata).map
        fun i : Nat => softwareFilters i := by
  induction l with
  | nil => rfl
  | cons i rest ih =>
    rw [findFilter, Traced.value_bind, List.find?_cons]
    by_cases hmatches : (softwareFilters i).matches metadata = true
    · rw [if_pos hmatches, hmatches]
      rfl
    · rw [if_neg hmatches, ih, Bool.eq_false_iff.mpr hmatches]

theorem handleInterruptFromRxBuffer_value (c : CanController O) (bufferId : Int)
    (frame : Registers) :
    (handleInterruptFromRxBuffer (setBuffer c bufferId frame.buffer) bufferId).value.1 =
      ((List.range c.usedFilterCounter.toNat).find? fun i : Nat =>
        (c.softwareFilters i).matches (registerMetadata frame.id0 frame.id1)).map fun i : Nat =>
          ((c.softwareFilters i).owner, frame.message) := by
  have hbuffer : (setBuffer c bufferId frame.buffer).buffers bufferId = frame.buffer :=
    Function.update_self _ _ _
  rw [handleInterruptFromRxBuffer]
  rw [Traced.value_bind, Traced.value_pure, hbuffer]
  dsimp only
  rw [value_findFilter, Option.map_map]
  rfl

theorem accepted_append [DecidableEq O] (c : CanController O) (o : O) (l : List (Arrival O))
    (a : Arrival O) :
    accepted c o (l ++ [a]) = accepted c o l ++
      if firstOwner c a.frame = some o ∧ a.stored o ≠ rxBufferSize - 1 then [a.frame] else [] := by
  rw [accepted]
  rw [List.filter_append, List.map_append, List.filter_cons, List.filter_nil]
  by_cases haccepted : firstOwner c a.frame = some o ∧ a.stored o ≠ rxBufferSize - 1
  · rw [if_pos haccepted, if_pos (decide_eq_true haccepted)]
    rfl
  · rw [if_neg haccepted, if_neg (by simpa only [decide_eq_true_iff] using haccepted)]
    rfl

theorem received_eq [DecidableEq O] (s : System O) (howned : Owned s.controller) (bufferId : Int)
    (frame : Registers) :
    received s bufferId frame = some { s with
      controller := (handleInterruptFromRxBuffer
        (setBuffer s.controller bufferId frame.buffer) bufferId).value.2
      arrivals := s.arrivals ++ [⟨frame, fun o => stored (s.rxBuf o)⟩]
      rxBuf := fun o => if firstOwner s.controller frame = some o then
        putWhole rxBufferSize (s.rxBuf o) frame.message else s.rxBuf o } := by
  unfold received
  dsimp only
  rw [handleInterruptFromRxBuffer_value]
  cases hfind : (List.range s.controller.usedFilterCounter.toNat).find? fun i : Nat =>
      (s.controller.softwareFilters i).matches (registerMetadata frame.id0 frame.id1) with
  | none =>
    have hfirst : firstOwner s.controller frame = none := by rw [firstOwner, hfind, Option.bind_none]
    simp [hfirst]
  | some i =>
    have hi := List.mem_range.mp (List.mem_of_find?_eq_some hfind)
    obtain ⟨o, ho⟩ := Option.isSome_iff_exists.mp (howned i hi)
    have hfirst : firstOwner s.controller frame = some o := by
      rw [firstOwner, hfind, Option.bind_some, ho]
    simp only [Option.map_some, ho, addRxFrame, hfirst, Option.some.injEq]
    congr 1
    funext o'
    by_cases heq : o' = o
    · rw [heq, Function.update_self, if_pos rfl]
    · rw [Function.update_of_ne heq, if_neg (Ne.symm heq)]

end Routing

section Invariant

variable {O : Type} [DecidableEq O] {c : CanController O} {contents : O → Nat → CanMessage}
  {behind : Nat → UInt8} {s t : System O}

structure UserOk (behind : Nat → UInt8) (memory : Nat → CanMessage) (frames : List Registers)
    (f : LockFreeFifo.System CanMessage) (results : List (ReadCall × ReadResult))
    (empty : List Nat) : Prop where
  fifo : Reachable (fun f => f = LockFreeFifo.constructed memory) (LockFreeFifo.step rxBufferSize) f
  idle : f.putPc = .idle
  queued : f.puts = frames.map Registers.message
  reads : List.Forall₂ (fun m r => r.2 = deliver behind r.1 m) f.gots results
  refused : ∀ n ∈ empty, n = 0
  short : ∀ frame ∈ frames, frame.dlc ≤ 8

structure Inv (c : CanController O) (contents : O → Nat → CanMessage) (behind : Nat → UInt8)
    (s : System O) : Prop where
  filters : s.controller.softwareFilters = c.softwareFilters
  counter : s.controller.usedFilterCounter = c.usedFilterCounter
  users : ∀ o, UserOk behind (contents o) (accepted c o s.arrivals) (s.rxBuf o) (s.reads o)
    (s.refused o)

theorem inv_ready (h : Ready c contents s) : Inv c contents behind s := by
  obtain rfl := h
  exact ⟨rfl, rfl, fun o => ⟨.start rfl, rfl, rfl, .nil, nofun, nofun⟩⟩

theorem Inv.firstOwner_eq (h : Inv c contents behind s) :
    firstOwner s.controller = firstOwner c := by
  unfold firstOwner
  rw [h.filters, h.counter]

theorem Inv.owned (h : Inv c contents behind s) (howned : Owned c) : Owned s.controller := by
  rw [Owned]
  rw [h.filters, h.counter]
  exact howned

section

variable {memory : Nat → CanMessage} {frames : List Registers}
  {f f' : LockFreeFifo.System CanMessage} {reads : List (ReadCall × ReadResult)}
  {refused : List Nat}

theorem UserOk.inv (h : UserOk behind memory frames f reads refused) :
    LockFreeFifo.Inv rxBufferSize f :=
  LockFreeFifo.inv_of_reachable (by decide) h.fifo

theorem UserOk.putWhole (h : UserOk behind memory frames f reads refused) (frame : Registers)
    (hshort : stored f ≠ rxBufferSize - 1 → frame.dlc ≤ 8) :
    UserOk behind memory (frames ++ if stored f ≠ rxBufferSize - 1 then [frame] else [])
      (putWhole rxBufferSize f frame.message) reads refused := by
  refine ⟨LockFreeFifo.reachable_putWhole h.fifo h.idle _, h.idle, ?_, h.reads, h.refused, ?_⟩
  · rw [h.inv.puts_putWhole, h.queued, ite_not]
    split
    · rw [List.append_nil]
    · rw [List.map_append]
      rfl
  · intro frame' hframe'
    obtain hold | hnew := List.mem_append.mp hframe'
    · exact h.short frame' hold
    · split_ifs at hnew with hroom
      · rw [List.mem_singleton.mp hnew]
        exact hshort hroom
      · cases hnew

theorem UserOk.go_on (h : UserOk behind memory frames f reads refused)
    (hfifo : Reachable (fun f => f = LockFreeFifo.constructed memory)
      (LockFreeFifo.step rxBufferSize) f')
    (hidle : f'.putPc = f.putPc) (hputs : f'.puts = f.puts) (hgots : f'.gots = f.gots) :
    UserOk behind memory frames f' reads refused :=
  ⟨hfifo, hidle.trans h.idle, hputs.trans h.queued, hgots.symm ▸ h.reads, h.refused, h.short⟩

theorem UserOk.get (h : UserOk behind memory frames f reads refused) (call : ReadCall)
    (message : CanMessage)
    (hfifo : Reachable (fun f => f = LockFreeFifo.constructed memory)
      (LockFreeFifo.step rxBufferSize) f')
    (hidle : f'.putPc = f.putPc) (hputs : f'.puts = f.puts)
    (hgots : f'.gots = f.gots ++ [message]) :
    UserOk behind memory frames f' (reads ++ [(call, deliver behind call message)]) refused := by
  refine ⟨hfifo, hidle.trans h.idle, hputs.trans h.queued, ?_, h.refused, h.short⟩
  rw [hgots]
  exact List.rel_append h.reads (.cons rfl .nil)

theorem UserOk.readAs (h : UserOk behind memory frames f reads refused) :
    List.Forall₂ (fun frame r => ReadAs frame r.1 r.2) (frames.take reads.length) reads := by
  have hgots : f.gots = (frames.take reads.length).map Registers.message := by
    rw [h.inv.inOrder, h.reads.length_eq, h.queued, List.map_take]
  have hreads := h.reads
  rw [hgots, List.forall₂_map_left_iff] at hreads
  have hshort : ∀ frame ∈ frames.take reads.length, frame.dlc ≤ 8 := fun frame hframe =>
    h.short frame (List.mem_of_mem_take hframe)
  refine ((List.forall₂_and_left (frames.take reads.length) reads).mpr ⟨hshort, hreads⟩).imp ?_
  rintro frame ⟨call, result⟩ ⟨hdlc, hresult⟩
  obtain rfl : result = deliver behind call frame.message := hresult
  exact readAs_deliver behind call frame hdlc

end

theorem Inv.received (howned : Owned c) (h : Inv c contents behind s) {bufferId : Int}
    {frame : Registers} (hshort : Short (.received bufferId frame) s)
    (hstep : received s bufferId frame = some t) : Inv c contents behind t := by
  rw [received_eq s (h.owned howned)] at hstep
  cases hstep
  rw [Short, h.firstOwner_eq] at hshort
  refine ⟨h.filters, h.counter, fun o => ?_⟩
  dsimp only
  rw [h.firstOwner_eq, accepted_append]
  by_cases hfirst : firstOwner c frame = some o
  · rw [hfirst] at hshort
    simp only [hfirst, true_and, if_true]
    exact (h.users o).putWhole frame hshort
  · simp only [hfirst, false_and, if_false, List.append_nil]
    exact h.users o

theorem Inv.user (h : Inv c contents behind s) {o : O} {fifo : LockFreeFifo.System CanMessage}
    (calls : O → Option ReadCall) {reads : List (ReadCall × ReadResult)} {refused : List Nat}
    (huser : UserOk behind (contents o) (accepted c o s.arrivals) fifo reads refused) :
    Inv c contents behind { s with
      rxBuf := Function.update s.rxBuf o fifo
      calls := calls
      reads := Function.update s.reads o reads
      refused := Function.update s.refused o refused } := by
  refine ⟨h.filters, h.counter, fun o' => ?_⟩
  dsimp only
  by_cases heq : o' = o
  · subst heq
    rw [Function.update_self, Function.update_self, Function.update_self]
    exact huser
  · rw [Function.update_of_ne heq, Function.update_of_ne heq, Function.update_of_ne heq]
    exact h.users o'

theorem Inv.readStep (h : Inv c contents behind s) {o : O} {call : ReadCall}
    {fifo : LockFreeFifo.System CanMessage}
    (hstep : readerStep rxBufferSize (s.rxBuf o) = some fifo) :
    Inv c contents behind (readStep behind s o call fifo) := by
  have huser := h.users o
  obtain ⟨hputs, hidle, hcases⟩ := LockFreeFifo.readerStep_cases hstep
  have hfifo := LockFreeFifo.reachable_readerStep huser.fifo hstep
  rw [Va41620Receive.readStep]
  dsimp only
  split
  · rename_i message index hpc
    obtain ⟨val, index', hpc', hgots⟩ | ⟨hnot, _⟩ := hcases
    · obtain ⟨rfl, rfl⟩ := LockFreeFifo.GetPc.publish.inj (hpc.symm.trans hpc')
      convert h.user (Function.update s.calls o none)
        (huser.get call message hfifo hidle hputs hgots) using 2
      exact (Function.update_eq_self o s.refused).symm
    · exact absurd hpc (hnot message index)
  · rename_i hpc hnot
    obtain ⟨val, index, hpc', _⟩ | ⟨_, hgots, hfails⟩ := hcases
    · exact absurd hpc' (hnot val index)
    · have hnext := huser.go_on hfifo hidle hputs hgots
      have hempty := huser.inv.stored_of_getFails (hfails hpc)
      convert h.user (Function.update s.calls o none)
        { hnext with refused := forall_mem_record huser.refused hempty } using 2
      exact (Function.update_eq_self o s.reads).symm
  · rename_i hnot _
    obtain ⟨val, index, hpc', _⟩ | ⟨_, hgots, _⟩ := hcases
    · exact absurd hpc' (hnot val index)
    · convert h.user s.calls (huser.go_on hfifo hidle hputs hgots) using 2
      · exact (Function.update_eq_self o s.reads).symm
      · exact (Function.update_eq_self o s.refused).symm

theorem Inv.step {e : Event O} (howned : Owned c) (h : Inv c contents behind s) (hshort : Short e s)
    (hstep : step behind e s = some t) : Inv c contents behind t := by
  cases e with
  | received bufferId frame =>
    obtain ⟨_, hreceived⟩ := Option.ite_none_right_eq_some.mp hstep
    exact h.received howned hshort hreceived
  | read o call =>
    obtain ⟨fifo, hget, rfl⟩ := Option.map_eq_some_iff.mp hstep
    have huser := h.users o
    have hfifo := ReachableUnder.step huser.fifo trivial hget
    have hsame : fifo.putPc = (s.rxBuf o).putPc ∧ fifo.puts = (s.rxBuf o).puts ∧
        fifo.gots = (s.rxBuf o).gots := by
      rw [LockFreeFifo.step] at hget
      split at hget
      · cases hget
        exact ⟨rfl, rfl, rfl⟩
      · cases hget
    convert h.user (Function.update s.calls o (some call))
      (huser.go_on hfifo hsame.1 hsame.2.1 hsame.2.2) using 2
    · exact (Function.update_eq_self o s.reads).symm
    · exact (Function.update_eq_self o s.refused).symm
  | reader o =>
    rw [Va41620Receive.step] at hstep
    split at hstep
    · rename_i call fifo _ hfifo
      cases hstep
      exact h.readStep hfifo
    · cases hstep

theorem Inv.delivers (howned : Owned c) (h : Inv c contents behind s) : Delivers c s where
  queued o := (h.users o).queued
  reads o := (h.users o).readAs
  refused o := (h.users o).refused
  copied o r hr bytes hbytes := by
    obtain ⟨frame, _, hread⟩ := forall₂_exists (h.users o).readAs r hr
    exact hread.copied hbytes
  returned o r hr := by
    obtain ⟨frame, hframe, hread⟩ := forall₂_exists (h.users o).readAs r hr
    rw [hread.returned]
    have hdlc := (h.users o).short frame (List.mem_of_mem_take hframe)
    omega
  served bufferId frame := by
    rw [received_eq s (h.owned howned)]
    rfl

end Invariant

variable {O : Type} [DecidableEq O]

/-- Frames of at most eight bytes come to their users in order and as they are. -/
theorem read_delivers {c : CanController O} (howned : Owned c) {contents : O → Nat → CanMessage}
    {behind : Nat → UInt8} {s : System O}
    (h : ReachableUnder (Ready c contents) (step behind) Short s) : Delivers c s := by
  have hinv : Inv c contents behind s := by
    refine h.invariant (Inv c contents behind) (fun s hs => inv_ready hs) ?_
    intro e s t hinv hshort hstep
    exact hinv.step howned hshort hstep
  exact hinv.delivers howned

instance (e : Event O) (s : System O) : Decidable (Short e s) := by
  unfold Short
  split
  · split <;> infer_instance
  · infer_instance

section

/-- Two filters, the first for one id and the second for every other. -/
def twoFilters : CanController Bool where
  softwareFilters := fun i =>
    if i = 0 then Va41620Can.canFilter 5 0 false false true
    else Va41620Can.canFilter 0 0x7ff false false false
  txBufferOwners := fun _ => none
  usedTxBufferCounter := 2
  usedFilterCounter := 2
  buffers := fun _ => ⟨fun _ => 0, 0, 0, .rxReady, 0⟩

theorem owned_twoFilters : Owned twoFilters := by
  intro i _
  rw [twoFilters]
  dsimp only
  split <;> rfl

def noMessages : Bool → Nat → CanMessage := fun _ _ => ⟨fun _ => 0, 0, 0⟩

def standardFrame (id : UInt16) (dlc : UInt32) : Registers :=
  ⟨0, id <<< 5, fun k => k.toUInt16, dlc <<< 12⟩

def readAll : ReadCall := ⟨true, true, true, true⟩

def wholeRead (o : Bool) : List (Event Bool) := .read o readAll :: List.replicate 6 (.reader o)

def start : System Bool :=
  ⟨twoFilters, fun o => LockFreeFifo.constructed (noMessages o), fun _ => none, [], fun _ => [],
    fun _ => []⟩

/-- Two frames for two users. -/
theorem read_delivers_two : ∃ s : System Bool,
    (s.reads true).map (fun r => r.2.returned) = [8] ∧
      (s.reads false).map (fun r => r.2.canID) = [some 6] ∧ Delivers twoFilters s := by
  obtain ⟨s, hs, htrue, hfalse⟩ := exists_reachable (Ready twoFilters noMessages)
    (step fun _ => 0) Short start rfl
    (.received 0 (standardFrame 6 3) :: .received 1 (standardFrame 5 8) ::
      wholeRead true ++ wholeRead false)
    (fun s => (s.reads true).map (fun r => r.2.returned) = [8] ∧
      (s.reads false).map (fun r => r.2.canID) = [some 6]) (by decide +kernel)
  exact ⟨s, htrue, hfalse, read_delivers owned_twoFilters hs⟩

/-- The length code of a frame can be fifteen. -/
theorem read_exceeds : ∃ s : System Bool,
    Reachable (Ready twoFilters noMessages) (step fun _ => 0) s ∧ ¬Delivers twoFilters s := by
  obtain ⟨s, hs, r, hr, hlong⟩ := exists_reachable (Ready twoFilters noMessages)
    (step fun _ => 0) (fun _ _ => True) start rfl
    (.received 0 (standardFrame 5 15) :: wholeRead true)
    (fun s => ∃ r ∈ s.reads true, 8 < r.2.returned) (by decide +kernel)
  exact ⟨s, hs, fun hdelivers => absurd (hdelivers.returned true r hr) (by omega)⟩

end

end Rodos.Va41620Receive
