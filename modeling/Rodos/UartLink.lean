import Rodos.HeaderCodec
import Rodos.S3pFraming

namespace Rodos.UartLink

open ByteMemory NetworkMessage S3pFraming

def maxUartMessageLength : Nat := maxNetworkMessageLength

/-- The bytes that have left the UART and the number of calls of `write`. -/
structure Transmitter where
  wire : List UInt8
  attempts : Nat
  errFlag : Bool

section

variable (written : Nat → Bool) (maxNumOfRetriesPerWrite : Nat)

/-- Try to write a byte, with the given number of retries left. Which of the
calls of `write` succeed is up to the UART. -/
def retry (c : UInt8) : Nat → Transmitter → Transmitter
  | retries, t =>
    if written t.attempts then { t with wire := t.wire ++ [c], attempts := t.attempts + 1 }
    else match retries with
      | 0 => { t with attempts := t.attempts + 1, errFlag := true }
      | retries + 1 => retry c retries { t with attempts := t.attempts + 1 }

def putByte (t : Transmitter) (c : UInt8) : Transmitter :=
  retry written c (maxNumOfRetriesPerWrite - 1) t

def sendNetworkMsg (t : Transmitter) (outgoingMessage : NetworkMessage) : Bool × Transmitter :=
  let outputBuffer := read outgoingMessage.bytes 0 (numberOfBytesToSend outgoingMessage)
  let t := (sendMsg outputBuffer).foldl (putByte written maxNumOfRetriesPerWrite)
    { t with errFlag := false }
  (!t.errFlag, t)

end

/-- The result, the message, the number of bytes reported and what is left of
the input. There is no result while the message is not complete. -/
def getNetworkMsg (inMsg : NetworkMessage) (input : List UInt8) :
    Option (Bool × NetworkMessage × Int × List UInt8) :=
  (getMsg maxUartMessageLength input (-1) inMsg.bytes).map
    (fun (n, bytes, rest) => (n != -1, ⟨bytes⟩, n, rest))

def idle : Transmitter := ⟨[], 0, false⟩

/-- Sent without an error and received into a buffer with any content, the
message is complete and passes the checks of the gateway. -/
def Delivers (written : Nat → Bool) (maxNumOfRetriesPerWrite : Nat) (msg inMsg : NetworkMessage)
    (following : List UInt8) : Prop :=
  ∃ t received numberOfReceivedBytes,
    sendNetworkMsg written maxNumOfRetriesPerWrite idle msg = (true, t) ∧
    getNetworkMsg inMsg (t.wire ++ following) =
      some (true, received, numberOfReceivedBytes, following) ∧
    read received.bytes 0 (headerSize + getLen msg) = read msg.bytes 0 (headerSize + getLen msg) ∧
    numberOfReceivedBytes = numberOfBytesToSend msg ∧
    acceptsSize received numberOfReceivedBytes ∧ isCheckSumOk received

section

variable {written : Nat → Bool} (hw : ∀ n, written n = true) (retries : Nat)
include hw

theorem foldl_putByte (bs : List UInt8) (t : Transmitter) :
    bs.foldl (putByte written retries) t =
      ⟨t.wire ++ bs, t.attempts + bs.length, t.errFlag⟩ := by
  induction bs generalizing t with
  | nil => simp
  | cons b bs ih =>
    have hput : putByte written retries t b = ⟨t.wire ++ [b], t.attempts + 1, t.errFlag⟩ := by
      unfold putByte retry
      rw [if_pos (hw t.attempts)]
    rw [List.foldl_cons, hput, ih, List.length_cons]
    simp only [List.append_assoc, List.singleton_append, Transmitter.mk.injEq, true_and, and_true]
    omega

theorem sendNetworkMsg_eq (msg : NetworkMessage) :
    ∃ attempts, sendNetworkMsg written retries idle msg =
      (true, ⟨sendMsg (read msg.bytes 0 (numberOfBytesToSend msg)), attempts, false⟩) := by
  simp only [sendNetworkMsg, foldl_putByte hw retries]
  exact ⟨_, rfl⟩

end

theorem getNetworkMsg_sendMsg (inMsg : NetworkMessage) (bytes following : List UInt8) :
    getNetworkMsg inMsg (sendMsg bytes ++ following) =
      some (true, (⟨write inMsg.bytes 0 (bytes.take maxUartMessageLength)⟩ : NetworkMessage),
        ((min bytes.length maxUartMessageLength : Nat) : Int), following) := by
  rw [getNetworkMsg]
  rw [getMsg_sendMsg (by positivity) bytes following inMsg.bytes]
  have hne : (min (bytes.length : Int) maxUartMessageLength != -1) = true := by
    simp only [bne_iff_ne, ne_eq]
    omega
  simp [hne]

section

variable {written : Nat → Bool} (hw : ∀ n, written n = true) (retries : Nat)
  (netMsg : NetworkMessage) (topicId : UInt32) (info : NetMsgInfo) {data : List UInt8}
  (hdata : data.length ≤ maxNetworkMessageLength) (inMsg : NetworkMessage)
  (following : List UInt8)
include hw hdata

theorem delivers_of_short (hshort : headerSize + data.length ≤ maxUartMessageLength) :
    Delivers written retries (prepareNetworkMessage netMsg topicId data info) inMsg following := by
  have hlen := getLen_prepareNetworkMessage netMsg topicId info hdata
  have hsize := numberOfBytesToSend_prepareNetworkMessage netMsg topicId info hdata
  have hok := isCheckSumOk_prepareNetworkMessage netMsg topicId data info
  generalize prepareNetworkMessage netMsg topicId data info = msg at *
  obtain ⟨attempts, hsent⟩ := sendNetworkMsg_eq hw retries msg
  have hget := getNetworkMsg_sendMsg inMsg (read msg.bytes 0 (numberOfBytesToSend msg)) following
  rw [length_read, hsize, List.take_of_length_le (by rw [length_read]; exact hshort),
    Nat.min_eq_left hshort] at hget
  have hbytes : ∀ i < headerSize + getLen msg,
      write inMsg.bytes 0 (read msg.bytes 0 (headerSize + data.length)) i = msg.bytes i := by
    intro i hi
    exact write_read_of_lt inMsg.bytes msg.bytes (hlen ▸ hi)
  have hheader : header ⟨write inMsg.bytes 0 (read msg.bytes 0 (headerSize + data.length))⟩ =
      header msg := header_congr (fun i hi => hbytes i (by omega))
  rw [hsize] at hsent
  refine ⟨_, _, _, hsent, hget, ?_, ?_, .inr ⟨?_, ?_⟩, (isCheckSumOk_congr hbytes).mpr hok⟩
  · rw [read_eq_iff]
    intro i hi
    rw [Nat.zero_add]
    exact hbytes i hi
  · rw [hsize]
  · omega
  · have hlen' : getLen _ = getLen msg := congrArg Header.len hheader
    rw [numberOfBytesToSend] at hsize ⊢
    rw [hlen', hsize]

theorem not_delivers_of_long (hlong : maxUartMessageLength < headerSize + data.length) :
    ¬ Delivers written retries (prepareNetworkMessage netMsg topicId data info) inMsg
      following := by
  have hsize := numberOfBytesToSend_prepareNetworkMessage netMsg topicId info hdata
  generalize prepareNetworkMessage netMsg topicId data info = msg at *
  obtain ⟨attempts, hsent⟩ := sendNetworkMsg_eq hw retries msg
  have hget := getNetworkMsg_sendMsg inMsg (read msg.bytes 0 (numberOfBytesToSend msg)) following
  rw [length_read, hsize, Nat.min_eq_right hlong.le] at hget
  intro h
  obtain ⟨t, received, n, hsend, hreceive, -, hn, -⟩ := h
  obtain rfl := (Prod.mk.inj (hsend.symm.trans hsent)).2
  rw [hsize] at hreceive hn
  have hcount := (Prod.mk.inj (Prod.mk.inj (Prod.mk.inj (Option.some.inj
    (hreceive.symm.trans hget))).2).2).1
  omega

/-- The limit of the receiver is that of the user data, while what is sent
also has a header. -/
theorem delivers_iff_short :
    Delivers written retries (prepareNetworkMessage netMsg topicId data info) inMsg following ↔
      headerSize + data.length ≤ maxUartMessageLength := by
  constructor
  · intro h
    by_contra hlong
    exact not_delivers_of_long hw retries netMsg topicId info hdata inMsg following
      (not_le.mp hlong) h
  · exact delivers_of_short hw retries netMsg topicId info hdata inMsg following

end

theorem delivers_iff_short_request :
    Delivers (fun _ => true) 1000 (prepareNetworkMessage blank 100 [1, 254, 3] request) blank [] :=
  (delivers_iff_short (fun _ => rfl) 1000 blank 100 request (by decide) blank []).mpr (by decide)

def longData : List UInt8 := List.replicate 1265 0xFE

theorem not_delivers_longData : longData.length ≤ maxNetworkMessageLength ∧
    ¬ Delivers (fun _ => true) 1000 (prepareNetworkMessage blank 100 longData request) blank [] := by
  have hlen : longData.length = 1265 := List.length_replicate
  have hmax : longData.length ≤ maxNetworkMessageLength := by
    rw [hlen]
    decide
  refine ⟨hmax, not_delivers_of_long (fun _ => rfl) 1000 blank 100 request hmax blank [] ?_⟩
  rw [hlen]
  decide

end Rodos.UartLink
