import Rodos.AccessTrace
import Rodos.MachineInt
import Rodos.TransitionSystem

namespace Rodos.Va41620Can

open AccessTrace MachineInt TransitionSystem

def numBuffersTotal : Int := 15

def numRxBuffers : Int := 3

def numTxBuffers : Int := numBuffersTotal - numRxBuffers

def firstTxBufferIndex : Int := numRxBuffers

def numSoftwareFilters : Int := 10

section Frames

def subValue (offset length value : UInt32) : UInt32 :=
  (value <<< offset) &&& (((1 <<< length) - 1) <<< offset)

def frameMetadata (id : UInt32) (ide rtr : Bool) : UInt32 :=
  subValue 0 1 (if ide && rtr then 1 else 0) |||
  subValue 1 18 (if ide then id &&& 0x3ffff else 0) |||
  subValue 19 1 (if ide then 1 else 0) |||
  subValue 20 1 (if ide || rtr then 1 else 0) |||
  subValue 21 11 (if ide then id >>> 18 else id)

def registerMetadata (id0 id1 : UInt16) : UInt32 := id0.toUInt32 ||| (id1.toUInt32 <<< 16)

def generateForMask (idMask : UInt32) (ide : Bool) : UInt32 :=
  subValue 0 1 (if ide then 0 else 1) |||
  subValue 1 18 (if ide then idMask &&& 0x3ffff else 0x3ffff) |||
  subValue 19 1 0 |||
  subValue 20 1 0 |||
  subValue 21 11 (if ide then idMask >>> 18 else idMask)

structure CanMessage where
  data : Nat → UInt16
  metadata : UInt32
  length : UInt8

/-- `memcpy` to the four words of a message. -/
def payload (sendBuf : List UInt8) (k : Nat) : UInt16 :=
  (sendBuf.getD (2 * k) 0).toUInt16 ||| ((sendBuf.getD (2 * k + 1) 0).toUInt16 <<< 8)

end Frames

inductive St
  | rxReady
  | rxFull
  | txNotActive
  | txOnce
  deriving DecidableEq

structure Buffer where
  data : Nat → UInt16
  id0 : UInt16
  id1 : UInt16
  st : St
  dlc : UInt8

structure CanFilter (O : Type) where
  mask : UInt32
  value : UInt32
  owner : Option O

def canFilter {O : Type} (id idMask : UInt32) (ide rtr : Bool) (owner : O) : CanFilter O :=
  ⟨generateForMask idMask ide, frameMetadata id ide rtr, some owner⟩

def CanFilter.matches {O : Type} (f : CanFilter O) (data : UInt32) : Bool :=
  (data ^^^ f.value) &&& ~~~f.mask == 0

/-- The tables are memory, of which only a part belongs to them. -/
structure CanController (O : Type) where
  softwareFilters : Int → CanFilter O
  txBufferOwners : Int → Option O
  usedTxBufferCounter : Int
  usedFilterCounter : Int
  buffers : Int → Buffer

inductive Access
  | softwareFilter (i : Int)
  | txBufferOwner (i : Int)
  | txBuffer (i : Int)
  deriving DecidableEq

def InBounds : Access → Prop
  | .softwareFilter i => 0 ≤ i ∧ i < numSoftwareFilters
  | .txBufferOwner i => 0 ≤ i ∧ i < numTxBuffers
  | .txBuffer i => firstTxBufferIndex ≤ i ∧ i < numBuffersTotal

section Methods

variable {O : Type}

def addOwner (c : CanController O) (owner : O) : Traced Access (Int × CanController O) :=
  let txBufferIndex := c.usedTxBufferCounter
  let counted := { c with usedTxBufferCounter := int8 (c.usedTxBufferCounter + 1) }
  if txBufferIndex ≥ numTxBuffers then pure (-1, counted)
  else do
    Traced.touch (.txBufferOwner txBufferIndex)
    pure (txBufferIndex, { counted with
      txBufferOwners := Function.update c.txBufferOwners txBufferIndex (some owner) })

def addIncomingFilter (c : CanController O) (id idMask : UInt32) (ide rtr : Bool) (filterOwner : O) :
    Traced Access (Bool × CanController O) :=
  let filterIndex := c.usedFilterCounter
  let counted := { c with usedFilterCounter := int8 (c.usedFilterCounter + 1) }
  if filterIndex ≥ numSoftwareFilters then pure (false, counted)
  else do
    Traced.touch (.softwareFilter filterIndex)
    pure (true, { counted with
      softwareFilters := Function.update c.softwareFilters filterIndex
        (canFilter id idMask ide rtr filterOwner) })

def isTxBufferEmpty (c : CanController O) (bufferIndex : Int) : Traced Access Bool := do
  Traced.touch (.txBuffer (firstTxBufferIndex + bufferIndex))
  pure ((c.buffers (firstTxBufferIndex + bufferIndex)).st = .txNotActive)

def putIntoTxBuffer (c : CanController O) (txBufferIdx : Int) (msg : CanMessage) :
    Traced Access (Bool × CanController O) := do
  let empty ← isTxBufferEmpty c txBufferIdx
  if empty then
    Traced.touch (.txBuffer (firstTxBufferIndex + txBufferIdx))
    pure (true, { c with buffers := Function.update c.buffers (firstTxBufferIndex + txBufferIdx) {
      data := fun k => msg.data (3 - k)
      id0 := msg.metadata.toUInt16
      id1 := (msg.metadata >>> 16).toUInt16
      st := .txOnce
      dlc := msg.length } })
  else pure (false, c)

def findFilter (softwareFilters : Int → CanFilter O) (incomingFrameMetadata : UInt32) :
    List Nat → Traced Access (Option (CanFilter O))
  | [] => pure none
  | i :: rest => do
    Traced.touch (.softwareFilter i)
    if (softwareFilters i).matches incomingFrameMetadata then pure (some (softwareFilters i))
    else findFilter softwareFilters incomingFrameMetadata rest

def handleInterruptFromRxBuffer (c : CanController O) (bufferId : Int) :
    Traced Access (Option (Option O × CanMessage) × CanController O) := do
  let buffer := c.buffers bufferId
  let incomingFrameMetadata := registerMetadata buffer.id0 buffer.id1
  let activeFilters := c.usedFilterCounter
  let found ← findFilter c.softwareFilters incomingFrameMetadata (List.range activeFilters.toNat)
  let msg : CanMessage := ⟨fun k => buffer.data (3 - k), incomingFrameMetadata, buffer.dlc⟩
  pure (found.map fun f => (f.owner, msg),
    { c with buffers := Function.update c.buffers bufferId { buffer with st := .rxReady, dlc := 0 } })

def handleInterruptFromTxBuffer (c : CanController O) (bufferId : Int) :
    Traced Access (Option O) := do
  Traced.touch (.txBufferOwner (bufferId - firstTxBufferIndex))
  pure (c.txBufferOwners (bufferId - firstTxBufferIndex))

end Methods

/-- The controller with the objects that use it, and what it has accessed so far. -/
structure System (O : Type) where
  controller : CanController O
  txBufferIdx : O → Option Int
  accesses : List Access
  delivered : List (Option O × CanMessage)

/-- `construct` is the constructor of `HW_HAL_CAN`. In the last two events the hardware
has received or sent a frame. -/
inductive Event (O : Type)
  | construct (o : O)
  | addIncomingFilter (o : O) (id idMask : UInt32) (ide rtr : Bool)
  | write (o : O) (sendBuf : List UInt8) (canId : UInt32) (ide : Bool)
  | isWriteFinished (o : O)
  | received (bufferId : Int) (frame : Buffer)
  | sent (bufferId : Int)

section Steps

variable {O : Type}

def System.after {α : Type} (s : System O) (x : Traced Access (α × CanController O)) : System O :=
  { s with controller := x.value.2, accesses := s.accesses ++ x.accesses }

def setBuffer (c : CanController O) (bufferId : Int) (buffer : Buffer) : CanController O :=
  { c with buffers := Function.update c.buffers bufferId buffer }

def write (c : CanController O) (txBufferIdx : Int) (sendBuf : List UInt8) (canId : UInt32)
    (ide : Bool) : Traced Access (Bool × CanController O) :=
  if sendBuf.length > 8 then pure (false, c)
  else putIntoTxBuffer c txBufferIdx
    ⟨payload sendBuf, frameMetadata canId ide false, sendBuf.length.toUInt8⟩

def step [DecidableEq O] : Event O → System O → Option (System O)
  | .construct o, s =>
    match s.txBufferIdx o with
    | some _ => none
    | none =>
      let r := addOwner s.controller o
      some { s.after r with txBufferIdx := Function.update s.txBufferIdx o (some r.value.1) }
  | .addIncomingFilter o id idMask ide rtr, s =>
    match s.txBufferIdx o with
    | none => none
    | some _ => some (s.after (addIncomingFilter s.controller id idMask ide rtr o))
  | .write o sendBuf canId ide, s =>
    match s.txBufferIdx o with
    | none => none
    | some txBufferIdx => some (s.after (write s.controller txBufferIdx sendBuf canId ide))
  | .isWriteFinished o, s =>
    match s.txBufferIdx o with
    | none => none
    | some txBufferIdx =>
      some { s with accesses := s.accesses ++ (isTxBufferEmpty s.controller txBufferIdx).accesses }
  | .received bufferId frame, s =>
    if 0 ≤ bufferId ∧ bufferId < firstTxBufferIndex then
      let r := handleInterruptFromRxBuffer (setBuffer s.controller bufferId frame) bufferId
      some { s.after r with delivered := s.delivered ++ r.value.1.toList }
    else none
  | .sent bufferId, s =>
    if firstTxBufferIndex ≤ bufferId ∧ bufferId < numBuffersTotal then
      let buffer := { s.controller.buffers bufferId with st := .txNotActive }
      let r := handleInterruptFromTxBuffer s.controller bufferId
      some { s with
        controller := setBuffer s.controller bufferId buffer
        accesses := s.accesses ++ r.accesses }
    else none

/-- A new controller: its tables are empty, whatever lies around them. -/
def Constructed (s : System O) : Prop :=
  s.controller.usedTxBufferCounter = 0 ∧ s.controller.usedFilterCounter = 0 ∧
    (∀ o, s.txBufferIdx o = none) ∧ s.accesses = []

def Rejected : Event O → System O → Prop
  | .construct o, s => (addOwner s.controller o).value.1 = -1
  | .addIncomingFilter o id idMask ide rtr, s =>
    (addIncomingFilter s.controller id idMask ide rtr o).value.1 = false
  | _, _ => False

/-- The tables are the same, and so are the accesses and the deliveries of later
interrupts. -/
structure Unaffected (c c' : CanController O) : Prop where
  softwareFilters : c'.softwareFilters = c.softwareFilters
  txBufferOwners : c'.txBufferOwners = c.txBufferOwners
  interrupts : ∀ bufferId frame,
    let r := handleInterruptFromRxBuffer (setBuffer c bufferId frame) bufferId
    let r' := handleInterruptFromRxBuffer (setBuffer c' bufferId frame) bufferId
    r'.value.1 = r.value.1 ∧ r'.accesses = r.accesses

/-- No filter is added to a full table, no owner after the counter has wrapped, and
nobody uses the buffer of an owner that was rejected. -/
def Respected : Event O → System O → Prop
  | .construct _, s => 0 ≤ s.controller.usedTxBufferCounter
  | .addIncomingFilter .., s => s.controller.usedFilterCounter < numSoftwareFilters
  | .write o sendBuf _ _, s => sendBuf.length ≤ 8 → s.txBufferIdx o ≠ some (-1)
  | .isWriteFinished o, s => s.txBufferIdx o ≠ some (-1)
  | _, _ => True

end Steps

section Invariant

variable {O : Type} {c : CanController O} {s t : System O}

structure Inv (s : System O) : Prop where
  filters : 0 ≤ s.controller.usedFilterCounter ∧
    s.controller.usedFilterCounter ≤ numSoftwareFilters
  owners : ∀ o txBufferIdx, s.txBufferIdx o = some txBufferIdx →
    txBufferIdx = -1 ∨ 0 ≤ txBufferIdx ∧ txBufferIdx < numTxBuffers
  inBounds : ∀ a ∈ s.accesses, InBounds a

theorem addOwner_full (owner : O) (hfull : c.usedTxBufferCounter ≥ numTxBuffers) :
    addOwner c owner = pure (-1, { c with
      usedTxBufferCounter := int8 (c.usedTxBufferCounter + 1) }) :=
  if_pos hfull

theorem addOwner_room (owner : O) (hroom : c.usedTxBufferCounter < numTxBuffers) :
    addOwner c owner = (do
      Traced.touch (.txBufferOwner c.usedTxBufferCounter)
      pure (c.usedTxBufferCounter, { c with
        usedTxBufferCounter := int8 (c.usedTxBufferCounter + 1)
        txBufferOwners := Function.update c.txBufferOwners c.usedTxBufferCounter (some owner) })) :=
  if_neg (by omega)

theorem within_addOwner (owner : O) (hcounter : 0 ≤ c.usedTxBufferCounter) :
    (addOwner c owner).Within InBounds := by
  by_cases hroom : c.usedTxBufferCounter < numTxBuffers
  · rw [addOwner_room owner hroom, Traced.within_bind, Traced.within_touch]
    exact ⟨⟨hcounter, hroom⟩, Traced.within_pure _⟩
  · rw [addOwner_full owner (by omega)]
    exact Traced.within_pure _

theorem addOwner_value (owner : O) (hcounter : 0 ≤ c.usedTxBufferCounter) :
    ((addOwner c owner).value.1 = -1 ∨
      0 ≤ (addOwner c owner).value.1 ∧ (addOwner c owner).value.1 < numTxBuffers) ∧
    (addOwner c owner).value.2.usedFilterCounter = c.usedFilterCounter := by
  by_cases hroom : c.usedTxBufferCounter < numTxBuffers
  · rw [addOwner_room owner hroom]
    exact ⟨.inr ⟨hcounter, hroom⟩, rfl⟩
  · rw [addOwner_full owner (by omega)]
    exact ⟨.inl rfl, rfl⟩

theorem within_addIncomingFilter (id idMask : UInt32) (ide rtr : Bool) (filterOwner : O)
    (hcounter : 0 ≤ c.usedFilterCounter) :
    (addIncomingFilter c id idMask ide rtr filterOwner).Within InBounds := by
  rw [addIncomingFilter]
  simp only [Traced.within_ite, Traced.within_pure, Traced.within_bind, Traced.within_touch,
    and_true, implies_true, true_and]
  intro hroom
  exact ⟨hcounter, by omega⟩

theorem addIncomingFilter_value (id idMask : UInt32) (ide rtr : Bool) (filterOwner : O)
    (hcounter : 0 ≤ c.usedFilterCounter) (hroom : c.usedFilterCounter < numSoftwareFilters) :
    (addIncomingFilter c id idMask ide rtr filterOwner).value.1 = true ∧
    (addIncomingFilter c id idMask ide rtr filterOwner).value.2.usedFilterCounter =
      c.usedFilterCounter + 1 := by
  rw [addIncomingFilter]
  rw [if_neg (by omega)]
  refine ⟨rfl, ?_⟩
  simp only [Traced.value_bind, Traced.value_pure]
  rw [numSoftwareFilters] at hroom
  exact int8_eq (by omega) (by omega)

theorem within_isTxBufferEmpty {bufferIndex : Int} (hlow : 0 ≤ bufferIndex)
    (hhigh : bufferIndex < numTxBuffers) : (isTxBufferEmpty c bufferIndex).Within InBounds := by
  rw [isTxBufferEmpty]
  simp only [Traced.within_bind, Traced.within_touch, Traced.within_pure, and_true]
  rw [numTxBuffers] at hhigh
  exact ⟨by unfold firstTxBufferIndex; omega, by unfold firstTxBufferIndex; omega⟩

theorem within_putIntoTxBuffer {txBufferIdx : Int} (hlow : 0 ≤ txBufferIdx)
    (hhigh : txBufferIdx < numTxBuffers) (msg : CanMessage) :
    (putIntoTxBuffer c txBufferIdx msg).Within InBounds := by
  have hbuffer := within_isTxBufferEmpty (c := c) hlow hhigh
  have htouch := hbuffer
  rw [isTxBufferEmpty] at htouch
  simp only [Traced.within_bind, Traced.within_touch, Traced.within_pure, and_true] at htouch
  rw [putIntoTxBuffer]
  simp only [Traced.within_bind, Traced.within_ite, Traced.within_touch, Traced.within_pure,
    and_true, implies_true]
  exact ⟨hbuffer, fun _ => htouch⟩

theorem putIntoTxBuffer_value (txBufferIdx : Int) (msg : CanMessage) :
    (putIntoTxBuffer c txBufferIdx msg).value.2.usedFilterCounter = c.usedFilterCounter := by
  rw [putIntoTxBuffer]
  simp only [Traced.value_bind]
  split <;> rfl

theorem within_write {txBufferIdx : Int} {sendBuf : List UInt8} (canId : UInt32) (ide : Bool)
    (h : sendBuf.length ≤ 8 → 0 ≤ txBufferIdx ∧ txBufferIdx < numTxBuffers) :
    (write c txBufferIdx sendBuf canId ide).Within InBounds := by
  rw [write]
  split
  · exact Traced.within_pure _
  · obtain ⟨hlow, hhigh⟩ := h (by omega)
    exact within_putIntoTxBuffer hlow hhigh _

theorem write_value (txBufferIdx : Int) (sendBuf : List UInt8) (canId : UInt32) (ide : Bool) :
    (write c txBufferIdx sendBuf canId ide).value.2.usedFilterCounter = c.usedFilterCounter := by
  rw [write]
  split
  · rfl
  · exact putIntoTxBuffer_value txBufferIdx _

theorem within_findFilter (softwareFilters : Int → CanFilter O) (incomingFrameMetadata : UInt32)
    {l : List Nat} (h : ∀ i ∈ l, (i : Int) < numSoftwareFilters) :
    (findFilter softwareFilters incomingFrameMetadata l).Within InBounds := by
  induction l with
  | nil => exact Traced.within_pure none
  | cons i rest ih =>
    rw [List.forall_mem_cons] at h
    simp only [findFilter, Traced.within_bind, Traced.within_touch, Traced.within_ite,
      Traced.within_pure, implies_true, true_and]
    exact ⟨⟨Int.natCast_nonneg i, h.1⟩, fun _ => ih h.2⟩

theorem within_handleInterruptFromRxBuffer (bufferId : Int)
    (hcounter : c.usedFilterCounter ≤ numSoftwareFilters) :
    (handleInterruptFromRxBuffer c bufferId).Within InBounds := by
  rw [handleInterruptFromRxBuffer]
  simp only [Traced.within_bind, Traced.within_pure, and_true]
  refine within_findFilter _ _ fun i hi => ?_
  rw [List.mem_range] at hi
  omega

theorem within_handleInterruptFromTxBuffer {bufferId : Int} (hlow : firstTxBufferIndex ≤ bufferId)
    (hhigh : bufferId < numBuffersTotal) :
    (handleInterruptFromTxBuffer c bufferId).Within InBounds := by
  rw [handleInterruptFromTxBuffer]
  simp only [Traced.within_bind, Traced.within_touch, Traced.within_pure, and_true]
  unfold firstTxBufferIndex at *
  exact ⟨by omega, by unfold numTxBuffers; omega⟩

theorem inv_constructed (h : Constructed s) : Inv s := by
  obtain ⟨_, hfilters, howners, haccesses⟩ := h
  refine ⟨by rw [hfilters]; decide, fun o txBufferIdx ho => ?_, by rw [haccesses]; nofun⟩
  cases (howners o).symm.trans ho

theorem Inv.after (h : Inv s) {α : Type} {x : Traced Access (α × CanController O)}
    (hx : x.Within InBounds)
    (hfilters : 0 ≤ x.value.2.usedFilterCounter ∧
      x.value.2.usedFilterCounter ≤ numSoftwareFilters) : Inv (s.after x) :=
  ⟨hfilters, h.owners, List.forall_mem_append.mpr ⟨h.inBounds, hx⟩⟩

theorem Inv.index (h : Inv s) {o : O} {txBufferIdx : Int} (ho : s.txBufferIdx o = some txBufferIdx)
    (hnot : s.txBufferIdx o ≠ some (-1)) : 0 ≤ txBufferIdx ∧ txBufferIdx < numTxBuffers := by
  obtain rfl | hrange := h.owners o txBufferIdx ho
  · exact absurd ho hnot
  · exact hrange

theorem Inv.construct [DecidableEq O] (h : Inv s) (o : O)
    (hcounter : 0 ≤ s.controller.usedTxBufferCounter) :
    Inv { s.after (addOwner s.controller o) with
      txBufferIdx :=
        Function.update s.txBufferIdx o (some (addOwner s.controller o).value.1) } := by
  obtain ⟨hindex, hfilters⟩ := addOwner_value o hcounter
  have hafter := h.after (within_addOwner o hcounter) (hfilters ▸ h.filters)
  refine ⟨hafter.filters, fun o' txBufferIdx ho' => ?_, hafter.inBounds⟩
  dsimp only at ho'
  by_cases heq : o' = o
  · rw [heq, Function.update_self] at ho'
    rw [← Option.some.inj ho']
    exact hindex
  · rw [Function.update_of_ne heq] at ho'
    exact h.owners o' txBufferIdx ho'

theorem Inv.step [DecidableEq O] {e : Event O} (h : Inv s) (hok : Respected e s)
    (hstep : step e s = some t) : Inv t := by
  have hfilters := h.filters
  cases e with
  | construct o =>
    rw [Va41620Can.step] at hstep
    split at hstep
    · cases hstep
    · cases hstep
      exact h.construct o hok
  | addIncomingFilter o id idMask ide rtr =>
    rw [Va41620Can.step] at hstep
    split at hstep
    · cases hstep
    · cases hstep
      obtain ⟨_, hcounter⟩ := addIncomingFilter_value id idMask ide rtr o hfilters.1 hok
      refine h.after (within_addIncomingFilter id idMask ide rtr o hfilters.1) ?_
      rw [hcounter]
      change s.controller.usedFilterCounter < numSoftwareFilters at hok
      omega
  | write o sendBuf canId ide =>
    rw [Va41620Can.step] at hstep
    split at hstep
    · cases hstep
    · rename_i txBufferIdx ho
      cases hstep
      refine h.after (within_write canId ide fun hlength => h.index ho (hok hlength)) ?_
      rw [write_value]
      exact hfilters
  | isWriteFinished o =>
    rw [Va41620Can.step] at hstep
    split at hstep
    · cases hstep
    · rename_i txBufferIdx ho
      cases hstep
      obtain ⟨hlow, hhigh⟩ := h.index ho hok
      exact ⟨hfilters, h.owners,
        List.forall_mem_append.mpr ⟨h.inBounds, within_isTxBufferEmpty hlow hhigh⟩⟩
  | received bufferId frame =>
    obtain ⟨_, hreceived⟩ := Option.ite_none_right_eq_some.mp hstep
    cases hreceived
    have hafter := h.after
      (within_handleInterruptFromRxBuffer (c := setBuffer s.controller bufferId frame) bufferId
        hfilters.2) hfilters
    exact ⟨hafter.filters, hafter.owners, hafter.inBounds⟩
  | sent bufferId =>
    obtain ⟨hrange, hsent⟩ := Option.ite_none_right_eq_some.mp hstep
    cases hsent
    exact ⟨hfilters, h.owners, List.forall_mem_append.mpr
      ⟨h.inBounds, within_handleInterruptFromTxBuffer hrange.1 hrange.2⟩⟩

/-- Only an owner can be rejected, and that is not noticed by anyone else. -/
theorem Inv.unaffected [DecidableEq O] {e : Event O} (h : Inv s) (hok : Respected e s)
    (hrejected : Rejected e s) (hstep : Va41620Can.step e s = some t) :
    Unaffected s.controller t.controller := by
  cases e with
  | construct o =>
    have hcounter : 0 ≤ s.controller.usedTxBufferCounter := hok
    rw [Va41620Can.step] at hstep
    split at hstep
    · cases hstep
    · cases hstep
      by_cases hroom : s.controller.usedTxBufferCounter < numTxBuffers
      · rw [Rejected, addOwner_room o hroom] at hrejected
        change s.controller.usedTxBufferCounter = -1 at hrejected
        omega
      · rw [System.after]
        rw [addOwner_full o (by omega)]
        exact ⟨rfl, rfl, fun _ _ => ⟨rfl, rfl⟩⟩
  | addIncomingFilter o id idMask ide rtr =>
    obtain ⟨haccepted, _⟩ := addIncomingFilter_value id idMask ide rtr o h.filters.1 hok
    rw [Rejected, haccepted] at hrejected
    cases hrejected
  | _ => cases hrejected

end Invariant

structure TablesSafe {O : Type} [DecidableEq O] (s : System O) : Prop where
  inBounds : ∀ a ∈ s.accesses, InBounds a
  rejected : ∀ e t, Respected e s → Rejected e s → step e s = some t →
    Unaffected s.controller t.controller

variable {O : Type} [DecidableEq O]

/-- The tables are safe as long as their limits are respected. -/
theorem tables_safe {s : System O} (h : ReachableUnder Constructed step Respected s) :
    TablesSafe s := by
  have hinv : Inv s := by
    refine h.invariant Inv (fun s hs => inv_constructed hs) ?_
    intro e s t hinv hok hstep
    exact hinv.step hok hstep
  refine ⟨hinv.inBounds, ?_⟩
  intro e t hok hrejected hstep
  exact hinv.unaffected hok hrejected hstep

instance (e : Event O) (s : System O) : Decidable (Respected e s) := by
  unfold Respected
  split <;> infer_instance

def fresh : System Nat where
  controller := {
    softwareFilters := fun _ => ⟨0, 0, none⟩
    txBufferOwners := fun _ => none
    usedTxBufferCounter := 0
    usedFilterCounter := 0
    buffers := fun i =>
      ⟨fun _ => 0, 0, 0, if i < firstTxBufferIndex then .rxReady else .txNotActive, 0⟩ }
  txBufferIdx := fun _ => none
  accesses := []
  delivered := []

theorem constructed_fresh : Constructed fresh := ⟨rfl, rfl, fun _ => rfl, rfl⟩

/-- A thirteenth owner is rejected and receives nevertheless. -/
theorem tables_safe_thirteen :
    ∃ s : System Nat, s.txBufferIdx 12 = some (-1) ∧ s.delivered.length = 1 ∧ TablesSafe s := by
  obtain ⟨s, hs, hindex, hdelivered⟩ := exists_reachable Constructed step Respected fresh
    constructed_fresh
    ((List.range 13).map .construct ++
      [.addIncomingFilter 12 0 0 false false, .received 0 ⟨fun _ => 0, 0, 0, .rxFull, 8⟩,
        .write 11 [1, 2] 5 false, .isWriteFinished 11, .sent 14])
    (fun s => s.txBufferIdx 12 = some (-1) ∧ s.delivered.length = 1) (by decide +kernel)
  exact ⟨s, hindex, hdelivered, tables_safe hs⟩

theorem not_tablesSafe_of_mem {s : System O} {a : Access} (ha : a ∈ s.accesses)
    (hnot : ¬InBounds a) : ¬TablesSafe s :=
  fun hsafe => hnot (hsafe.inBounds a ha)

/-- A frame after the eleventh filter, a frame written by the thirteenth owner, and the
129th owner. -/
theorem tables_unsafe :
    (∃ s : System Nat, Reachable Constructed step s ∧ .softwareFilter 10 ∈ s.accesses ∧
      ¬TablesSafe s) ∧
    (∃ s : System Nat, Reachable Constructed step s ∧ .txBuffer 2 ∈ s.accesses ∧ ¬TablesSafe s) ∧
    ∃ s : System Nat, Reachable Constructed step s ∧ .txBufferOwner (-128) ∈ s.accesses ∧
      ¬TablesSafe s := by
  refine ⟨?_, ?_, ?_⟩
  · obtain ⟨s, hs, haccess⟩ := exists_reachable Constructed step (fun _ _ => True) fresh
      constructed_fresh
      ([.construct 0] ++ List.replicate 11 (.addIncomingFilter 0 1 0 false false) ++
        [.received 0 ⟨fun _ => 0, 0, 0, .rxFull, 8⟩])
      (fun s => .softwareFilter 10 ∈ s.accesses) (by decide +kernel)
    exact ⟨s, hs, haccess, not_tablesSafe_of_mem haccess fun hin => absurd hin.2 (by decide)⟩
  · obtain ⟨s, hs, haccess⟩ := exists_reachable Constructed step (fun _ _ => True) fresh
      constructed_fresh ((List.range 13).map .construct ++ [.write 12 [] 0 false])
      (fun s => .txBuffer 2 ∈ s.accesses) (by decide +kernel)
    exact ⟨s, hs, haccess, not_tablesSafe_of_mem haccess fun hin => absurd hin.1 (by decide)⟩
  · obtain ⟨s, hs, haccess⟩ := exists_reachable Constructed step (fun _ _ => True) fresh
      constructed_fresh ((List.range 129).map .construct)
      (fun s => .txBufferOwner (-128) ∈ s.accesses) (by decide +kernel)
    exact ⟨s, hs, haccess, not_tablesSafe_of_mem haccess fun hin => absurd hin.1 (by decide)⟩

end Rodos.Va41620Can
