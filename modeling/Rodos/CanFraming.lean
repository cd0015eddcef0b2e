import Rodos.NetworkMessage

namespace Rodos.CanFraming

open ByteMemory NetworkMessage

def canLinkNodeBits : Nat := 8

def canLinkTopicBits : Nat := 16

def canLinkId : Nat := 0x1C <<< (canLinkNodeBits + canLinkTopicBits)

def uint32Ones (n : Nat) : Nat := 1 <<< n - 1

/-- What one frame carries over the bus. -/
structure Telegram where
  canID : Nat
  bytes : List UInt8
  deriving DecidableEq, Repr

def canId (outMsg : NetworkMessage) : Nat :=
  canLinkId ||| ((getTopicId outMsg &&& uint32Ones canLinkTopicBits) <<< canLinkNodeBits) |||
    (unsigned 4 (getSenderNode outMsg) &&& uint32Ones canLinkNodeBits)

/-- The outer loop of `sendNetworkMsg`. Behind the sequence counter the first
frame has the length of the message, the others have data only. Each round
takes at least one byte. -/
def frameLoop (canID : Nat) : Nat → UInt8 → List UInt8 → List UInt8 → List Telegram
  | 0, _, _, _ => []
  | fuel + 1, sequenceCounter, length, messageData =>
    if messageData = [] then []
    else ⟨canID, sequenceCounter :: length ++ messageData.take (7 - length.length)⟩ ::
      frameLoop canID fuel (sequenceCounter + 1) [] (messageData.drop (7 - length.length))

def telegrams (outMsg : NetworkMessage) : List Telegram :=
  frameLoop (canId outMsg) (getLen outMsg) 0 (toBigEndian 2 (getLen outMsg)) (userData outMsg)

inductive CanErrorType
  | noError
  | unknown
  | errorActive
  | errorPassive
  | bof
  | stuff
  | noAck
  deriving DecidableEq, Repr

inductive WriteResult
  | written
  | failed (errorType : CanErrorType)
  deriving DecidableEq, Repr

def givesUp : CanErrorType → Bool
  | .unknown | .errorActive | .errorPassive | .bof => true
  | .noError | .stuff | .noAck => false

/-- What has reached the bus and what the call has returned, if it has, when
the calls of `can.write` end as listed. -/
def transmit : List Telegram → List WriteResult → List Telegram × Option Bool
  | [], _ => ([], some true)
  | _ :: _, [] => ([], none)
  | t :: ts, .written :: rs => (t :: (transmit ts rs).1, (transmit ts rs).2)
  | t :: ts, .failed e :: rs => if givesUp e then ([], some false) else transmit (t :: ts) rs

def sendNetworkMsg (outMsg : NetworkMessage) (writes : List WriteResult) :
    List Telegram × Option Bool :=
  transmit (telegrams outMsg) writes

theorem sendNetworkMsg_true {outMsg : NetworkMessage} {writes : List WriteResult}
    {ts : List Telegram} (h : sendNetworkMsg outMsg writes = (ts, some true)) :
    ts = telegrams outMsg := by
  have main : ∀ (rs : List WriteResult) (us : List Telegram),
      (transmit us rs).2 = some true → (transmit us rs).1 = us := by
    intro rs
    induction rs with
    | nil =>
      intro us hus
      cases us with
      | nil => rfl
      | cons u us => simp [transmit] at hus
    | cons r rs ih =>
      intro us hus
      cases us with
      | nil => rfl
      | cons u us =>
        cases r with
        | written =>
          simp only [transmit] at hus ⊢
          rw [ih us hus]
        | failed e =>
          simp only [transmit] at hus ⊢
          split at hus
          · simp at hus
          · next he =>
            rw [if_neg he]
            exact ih (u :: us) hus
  have hsent := main writes (telegrams outMsg)
  change transmit (telegrams outMsg) writes = (ts, some true) at h
  rw [h] at hsent
  exact hsent rfl

structure CanMsg where
  canID : Nat
  data : Vector UInt8 8
  len : Int
  deriving DecidableEq, Repr

/-- A frame that `can.read` delivers: it has passed the filter of the link
and has at most eight bytes. -/
def CanMsg.Valid (f : CanMsg) : Prop :=
  f.canID / 2 ^ (canLinkNodeBits + canLinkTopicBits) = 0x1C ∧ 0 ≤ f.len ∧ f.len ≤ 8

instance (f : CanMsg) : Decidable f.Valid := by
  unfold CanMsg.Valid
  infer_instance

theorem CanMsg.Valid.canID_ne {f : CanMsg} (h : f.Valid) : f.canID ≠ 0 := by
  intro h0
  have hid := h.1
  rw [h0] at hid
  simp at hid

def CanMsg.telegram (f : CanMsg) : Telegram := ⟨f.canID, f.data.toList.take f.len.toNat⟩

def CanMsg.sequence (f : CanMsg) : UInt8 := f.data[0]

def CanMsg.declaredLen (f : CanMsg) : Nat := ofBigEndian [f.data[1], f.data[2]]

def CanMsg.userDataBegin (f : CanMsg) : Nat := if f.sequence = 0 then 3 else 1

def CanMsg.payload (f : CanMsg) : List UInt8 :=
  (f.data.toList.take f.len.toNat).drop f.userDataBegin

/-- The message that is being put together. The data pointer is an offset
into `userDataC`. -/
structure Assembly where
  currentMsg : NetworkMessage
  currentReceiveCANId : Nat
  currentDataPointer : Nat
  bytesReceived : Nat
  sequenceCounter : UInt8

def startMsg (a : Assembly) (now : Int) (canMsg : CanMsg) : Assembly where
  currentMsg :=
    putLen (putTopicId (putSentTime (putSenderThreadId (putSenderNode
      (putMaxStepsToForward a.currentMsg 5)
      (canMsg.canID &&& uint32Ones canLinkNodeBits : Nat)) 0) now)
      ((canMsg.canID >>> canLinkNodeBits) &&& uint32Ones canLinkTopicBits)) canMsg.declaredLen
  currentReceiveCANId := canMsg.canID
  currentDataPointer := 0
  bytesReceived := 0
  sequenceCounter := 0

def openMsg (a : Assembly) (now : Int) (canMsg : CanMsg) : Assembly :=
  if canMsg.sequence = 0 then startMsg a now canMsg else a

def accepts (a : Assembly) (canMsg : CanMsg) : Prop :=
  if a.currentReceiveCANId = 0 then ¬ 0 < canMsg.sequence
  else canMsg.canID = a.currentReceiveCANId ∧ canMsg.sequence = a.sequenceCounter

instance (a : Assembly) (canMsg : CanMsg) : Decidable (accepts a canMsg) := by
  unfold accepts
  infer_instance

def storePayload (a : Assembly) (canMsg : CanMsg) : Assembly :=
  { a with
    currentMsg :=
      ⟨write a.currentMsg.bytes (headerSize + a.currentDataPointer) canMsg.payload⟩
    currentDataPointer := a.currentDataPointer + canMsg.payload.length
    bytesReceived := ((a.bytesReceived + canMsg.len - canMsg.userDataBegin) % 2 ^ 16).toNat }

def finishFrame (a : Assembly) : Bool × Assembly :=
  if getLen a.currentMsg ≤ a.bytesReceived then
    (true, { a with currentMsg := setCheckSum a.currentMsg, currentReceiveCANId := 0 })
  else (false, { a with sequenceCounter := a.sequenceCounter + 1 })

def appendCANMsg (a : Assembly) (now : Int) (canMsg : CanMsg) : Bool × Assembly :=
  if accepts (openMsg a now canMsg) canMsg then
    finishFrame (storePayload (openMsg a now canMsg) canMsg)
  else (false, openMsg a now canMsg)

end Rodos.CanFraming
