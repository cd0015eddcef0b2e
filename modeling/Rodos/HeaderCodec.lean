import Rodos.NetworkMessage

namespace Rodos

open ByteMemory NetworkMessage

/-- What the middleware knows about a message besides its topic and data. -/
structure NetMsgInfo where
  senderNode : Int32
  senderThreadId : UInt32
  sentTime : Int64
  receiverNode : Int32
  receiverNodesBitMap : UInt32
  linkId : UInt32
  messageType : UInt16

/-- The values the `get_` accessors return. -/
@[ext] structure Header where
  receiverNode : Int
  receiverNodesBitMap : Nat
  maxStepsToForward : Int
  checkSum : Nat
  type : Nat
  len : Nat
  senderNode : Int
  sentTime : Int
  senderThreadId : Nat
  topicId : Nat
deriving DecidableEq

namespace NetworkMessage

def header (msg : NetworkMessage) : Header where
  receiverNode := getReceiverNode msg
  receiverNodesBitMap := getReceiverNodesBitMap msg
  maxStepsToForward := getMaxStepsToForward msg
  checkSum := getCheckSum msg
  type := getType msg
  len := getLen msg
  senderNode := getSenderNode msg
  sentTime := getSentTime msg
  senderThreadId := getSenderThreadId msg
  topicId := getTopicId msg

def setUserData (msg : NetworkMessage) (data : List UInt8) : NetworkMessage :=
  putLen ⟨write msg.bytes headerSize (data.take maxNetworkMessageLength)⟩
    (min data.length maxNetworkMessageLength)

def getUserData (msg : NetworkMessage) (maxLen : Nat) : List UInt8 :=
  read msg.bytes headerSize (min maxLen (getLen msg))

end NetworkMessage

/-- The size check of `Gateway::run`. A link that does not know the size of
what it has received reports a negative one. -/
def acceptsSize (networkInMessage : NetworkMessage) (realMsgSize : Int) : Prop :=
  realMsgSize < 0 ∨
    (headerSize : Int) ≤ realMsgSize ∧ realMsgSize = numberOfBytesToSend networkInMessage

/-- The bytes of the message before the call survive where nothing is stored. -/
def prepareNetworkMessage (netMsg : NetworkMessage) (topicId : UInt32) (data : List UInt8)
    (netMsgInfo : NetMsgInfo) : NetworkMessage :=
  let netMsg := putReceiverNode netMsg netMsgInfo.receiverNode.toInt
  let netMsg := putReceiverNodesBitMap netMsg netMsgInfo.receiverNodesBitMap.toNat
  let netMsg := putMaxStepsToForward netMsg 10
  let netMsg := putSenderNode netMsg netMsgInfo.senderNode.toInt
  let netMsg := putTopicId netMsg topicId.toNat
  let netMsg := putSentTime netMsg netMsgInfo.sentTime.toInt
  let netMsg := putType netMsg netMsgInfo.messageType.toNat
  let netMsg := putSenderThreadId netMsg netMsgInfo.senderThreadId.toNat
  setCheckSum (setUserData netMsg (data.take (2 ^ 16 - 1)))

theorem bmod_unsigned_mod (n : Nat) (x : Int) :
    Int.bmod ((unsigned n x % 256 ^ n : Nat) : Int) (256 ^ n) = Int.bmod x (256 ^ n) := by
  have h0 : (0 : Int) ≤ x % 256 ^ n := Int.emod_nonneg _ (by positivity)
  have hcast : ((unsigned n x : Nat) : Int) = x % 256 ^ n := Int.toNat_of_nonneg h0
  have hmod := Int.emod_bmod x (256 ^ n)
  rw [Int.natCast_emod, hcast]
  push_cast at hmod ⊢
  rw [Int.emod_emod, hmod]

theorem bmod_int16 (x : Int16) : Int.bmod x.toInt (256 ^ 2) = x.toInt := by
  have h1 := x.le_toInt
  have h2 := x.toInt_lt
  apply Int.bmod_eq_of_le_mul_two <;> norm_num <;> omega

theorem bmod_int32 (x : Int32) : Int.bmod x.toInt (256 ^ 4) = x.toInt := by
  have h1 := x.le_toInt
  have h2 := x.toInt_lt
  apply Int.bmod_eq_of_le_mul_two <;> norm_num <;> omega

theorem bmod_int64 (x : Int64) : Int.bmod x.toInt (256 ^ 8) = x.toInt := by
  have h1 := x.le_toInt
  have h2 := x.toInt_lt
  apply Int.bmod_eq_of_le_mul_two <;> norm_num <;> omega

theorem getField_write (off : Nat) (bs : List UInt8) (msg : NetworkMessage) (start k : Nat)
    (h : start + k ≤ off) : getField start k ⟨write msg.bytes off bs⟩ = getField start k msg := by
  unfold getField
  rw [read_write_of_disjoint msg.bytes off bs start k (.inl h)]

theorem header_eq_fields (msg : NetworkMessage) : header msg =
    { receiverNode := Int.bmod (getField 0 4 msg) (256 ^ 4)
      receiverNodesBitMap := getField 4 4 msg
      maxStepsToForward := Int.bmod (getField 8 2 msg) (256 ^ 2)
      checkSum := getField 10 2 msg
      type := getField 12 2 msg
      len := getField 14 2 msg
      senderNode := Int.bmod (getField 16 4 msg) (256 ^ 4)
      sentTime := Int.bmod (getField 20 8 msg) (256 ^ 8)
      senderThreadId := getField 28 4 msg
      topicId := getField 32 4 msg } :=
  rfl

section Agreement

variable {msg msg' : NetworkMessage}

theorem getField_congr {off n : Nat}
    (h : ∀ k < n, msg'.bytes (off + k) = msg.bytes (off + k)) :
    getField off n msg' = getField off n msg := by
  unfold getField
  rw [(read_eq_iff msg'.bytes msg.bytes off n).mpr h]

theorem header_congr (h : ∀ i < headerSize, msg'.bytes i = msg.bytes i) :
    header msg' = header msg := by
  have hfield (off n : Nat) (hle : off + n ≤ headerSize) :
      getField off n msg' = getField off n msg :=
    getField_congr (fun k hk => h (off + k) (by omega))
  rw [headerSize] at hfield
  simp (disch := omega) only [header_eq_fields, hfield, -Nat.reducePow]

theorem isCheckSumOk_congr (h : ∀ i < headerSize + getLen msg, msg'.bytes i = msg.bytes i) :
    isCheckSumOk msg' ↔ isCheckSumOk msg := by
  have hheader : header msg' = header msg := header_congr (fun i hi => h i (by omega))
  have hlen : getLen msg' = getLen msg := congrArg Header.len hheader
  have hsum : getCheckSum msg' = getCheckSum msg := congrArg Header.checkSum hheader
  unfold isCheckSumOk calculateCheckSum
  rw [hlen, hsum, (read_eq_iff msg'.bytes msg.bytes 12 _).mpr]
  intro i hi
  apply h
  rw [headerSize] at hi ⊢
  omega

end Agreement

section RouterFields

variable (msg : NetworkMessage)

theorem header_putReceiverNode (x : Int) :
    header (putReceiverNode msg x) = { header msg with receiverNode := Int.bmod x (256 ^ 4) } := by
  rw [putReceiverNode]
  simp (disch := omega) only [header_eq_fields, getField_putField, getField_putField_of_disjoint,
    bmod_unsigned_mod, -Nat.reducePow]

theorem header_putReceiverNodesBitMap (x : Nat) :
    header (putReceiverNodesBitMap msg x) =
      { header msg with receiverNodesBitMap := x % 256 ^ 4 } := by
  rw [putReceiverNodesBitMap]
  simp (disch := omega) only [header_eq_fields, getField_putField, getField_putField_of_disjoint,
    -Nat.reducePow]

theorem header_putMaxStepsToForward (x : Int) :
    header (putMaxStepsToForward msg x) =
      { header msg with maxStepsToForward := Int.bmod x (256 ^ 2) } := by
  rw [putMaxStepsToForward]
  simp (disch := omega) only [header_eq_fields, getField_putField, getField_putField_of_disjoint,
    bmod_unsigned_mod, -Nat.reducePow]

/-- The step from one message to another that gives it the header `h` and
touches neither the user data nor the verdict of the checksum. -/
structure Rewrites (h : Header) (msg msg' : NetworkMessage) : Prop where
  header : header msg' = h
  checkSum : isCheckSumOk msg' ↔ isCheckSumOk msg
  userData : ∀ i, headerSize ≤ i → msg'.bytes i = msg.bytes i

theorem rewrites_putField {off n : Nat} (hoff : off + n ≤ 10) (v : Nat) {h : Header}
    (hh : NetworkMessage.header (putField off n msg v) = h) :
    Rewrites h msg (putField off n msg v) where
  header := hh
  checkSum := by
    have hlen : getLen (putField off n msg v) = getLen msg :=
      getField_putField_of_disjoint off n msg v 14 2 (by omega)
    have hsum : getCheckSum (putField off n msg v) = getCheckSum msg :=
      getField_putField_of_disjoint off n msg v 10 2 (by omega)
    unfold isCheckSumOk calculateCheckSum
    rw [hlen, hsum, read_putField off n msg v 12 _ (by omega)]
  userData := by
    intro i hi
    apply write_outside
    rw [length_toBigEndian]
    rw [headerSize] at hi
    omega

theorem putReceiverNode_rewrites (x : Int32) :
    Rewrites { header msg with receiverNode := x.toInt } msg (putReceiverNode msg x.toInt) := by
  apply rewrites_putField msg (by omega)
  have h := header_putReceiverNode msg x.toInt
  rwa [bmod_int32] at h

theorem putReceiverNodesBitMap_rewrites (x : UInt32) :
    Rewrites { header msg with receiverNodesBitMap := x.toNat } msg
      (putReceiverNodesBitMap msg x.toNat) := by
  apply rewrites_putField msg (by omega)
  have hx : x.toNat < 256 ^ 4 := x.toNat_lt
  have h := header_putReceiverNodesBitMap msg x.toNat
  rwa [Nat.mod_eq_of_lt hx] at h

theorem putMaxStepsToForward_rewrites (x : Int16) :
    Rewrites { header msg with maxStepsToForward := x.toInt } msg
      (putMaxStepsToForward msg x.toInt) := by
  apply rewrites_putField msg (by omega)
  have h := header_putMaxStepsToForward msg x.toInt
  rwa [bmod_int16] at h

end RouterFields

section Prepared

variable (netMsg : NetworkMessage) (topicId : UInt32) (data : List UInt8) (info : NetMsgInfo)

theorem setUserData_eq (h : data.length ≤ maxNetworkMessageLength) :
    setUserData netMsg data = putLen ⟨write netMsg.bytes headerSize data⟩ data.length := by
  rw [setUserData]
  rw [List.take_of_length_le h, Nat.min_eq_left h]

theorem isCheckSumOk_prepareNetworkMessage :
    isCheckSumOk (prepareNetworkMessage netMsg topicId data info) :=
  isCheckSumOk_setCheckSum _

variable {data}

theorem prepareNetworkMessage_eq (h : data.length ≤ maxNetworkMessageLength) :
    prepareNetworkMessage netMsg topicId data info = setCheckSum (putLen ⟨write
      (putSenderThreadId (putType (putSentTime (putTopicId (putSenderNode (putMaxStepsToForward
        (putReceiverNodesBitMap (putReceiverNode netMsg info.receiverNode.toInt)
          info.receiverNodesBitMap.toNat) 10) info.senderNode.toInt) topicId.toNat)
        info.sentTime.toInt) info.messageType.toNat) info.senderThreadId.toNat).bytes
      headerSize data⟩ data.length) := by
  have hlen : data.length ≤ 2 ^ 16 - 1 := by unfold maxNetworkMessageLength at h; omega
  have htake : data.take (2 ^ 16 - 1) = data := List.take_of_length_le hlen
  rw [prepareNetworkMessage]
  rw [htake]
  simp only [setUserData_eq _ _ h]

theorem header_prepareNetworkMessage (h : data.length ≤ maxNetworkMessageLength) :
    header (prepareNetworkMessage netMsg topicId data info) =
      { receiverNode := info.receiverNode.toInt
        receiverNodesBitMap := info.receiverNodesBitMap.toNat
        maxStepsToForward := 10
        checkSum := (calculateCheckSum (prepareNetworkMessage netMsg topicId data info)).toNat
        type := info.messageType.toNat
        len := data.length
        senderNode := info.senderNode.toInt
        sentTime := info.sentTime.toInt
        senderThreadId := info.senderThreadId.toNat
        topicId := topicId.toNat } := by
  have hsum : getCheckSum (prepareNetworkMessage netMsg topicId data info) =
      (calculateCheckSum (prepareNetworkMessage netMsg topicId data info)).toNat :=
    (isCheckSumOk_prepareNetworkMessage netMsg topicId data info).symm
  have hlen : data.length < 256 ^ 2 := by unfold maxNetworkMessageLength at h; omega
  have htopic : topicId.toNat < 256 ^ 4 := topicId.toNat_lt
  have hmap : info.receiverNodesBitMap.toNat < 256 ^ 4 := info.receiverNodesBitMap.toNat_lt
  have hthread : info.senderThreadId.toNat < 256 ^ 4 := info.senderThreadId.toNat_lt
  have htype : info.messageType.toNat < 256 ^ 2 := info.messageType.toNat_lt
  have hsteps : Int.bmod 10 (256 ^ 2) = 10 :=
    Int.bmod_eq_of_le_mul_two (by norm_num) (by norm_num)
  unfold header
  rw [hsum, prepareNetworkMessage_eq _ _ _ h]
  unfold getReceiverNode getReceiverNodesBitMap getMaxStepsToForward getType getLen getSenderNode
    getSentTime getSenderThreadId getTopicId setCheckSum putCheckSum putLen putReceiverNode
    putReceiverNodesBitMap putMaxStepsToForward putSenderNode putTopicId putSentTime putType
    putSenderThreadId headerSize
  simp (disch := first | omega | assumption) only [getField_putField,
    getField_putField_of_disjoint, getField_write, bmod_unsigned_mod, bmod_int32, bmod_int64,
    Nat.mod_eq_of_lt, hsteps, -Nat.reducePow]

theorem getLen_prepareNetworkMessage (h : data.length ≤ maxNetworkMessageLength) :
    getLen (prepareNetworkMessage netMsg topicId data info) = data.length :=
  congrArg Header.len (header_prepareNetworkMessage netMsg topicId info h)

theorem userData_prepareNetworkMessage (h : data.length ≤ maxNetworkMessageLength) :
    userData (prepareNetworkMessage netMsg topicId data info) = data := by
  rw [userData]
  rw [getLen_prepareNetworkMessage netMsg topicId info h, prepareNetworkMessage_eq _ _ _ h]
  rw [setCheckSum, putCheckSum, putLen]
  rw [read_putField _ _ _ _ _ _ (.inr (by decide)), read_putField _ _ _ _ _ _ (.inr (by decide)),
    read_write]

theorem getUserData_prepareNetworkMessage (h : data.length ≤ maxNetworkMessageLength)
    (maxLen : Nat) :
    getUserData (prepareNetworkMessage netMsg topicId data info) maxLen = data.take maxLen := by
  rw [getUserData]
  rw [← take_read]
  exact congrArg (List.take maxLen) (userData_prepareNetworkMessage netMsg topicId info h)

theorem numberOfBytesToSend_prepareNetworkMessage (h : data.length ≤ maxNetworkMessageLength) :
    numberOfBytesToSend (prepareNetworkMessage netMsg topicId data info) =
      headerSize + data.length := by
  rw [numberOfBytesToSend]
  rw [getLen_prepareNetworkMessage netMsg topicId info h]
  apply Nat.mod_eq_of_lt
  rw [maxNetworkMessageLength] at h
  rw [headerSize]
  omega

/-- Every accessor returns what was put, and the fields that routers change
can be overwritten without disturbing the others. -/
theorem header_codec (h : data.length ≤ maxNetworkMessageLength) :
    let msg := prepareNetworkMessage netMsg topicId data info
    header msg =
        { receiverNode := info.receiverNode.toInt
          receiverNodesBitMap := info.receiverNodesBitMap.toNat
          maxStepsToForward := 10
          checkSum := (calculateCheckSum msg).toNat
          type := info.messageType.toNat
          len := data.length
          senderNode := info.senderNode.toInt
          sentTime := info.sentTime.toInt
          senderThreadId := info.senderThreadId.toNat
          topicId := topicId.toNat } ∧
      (∀ maxLen, getUserData msg maxLen = data.take maxLen) ∧
      numberOfBytesToSend msg = headerSize + data.length ∧ isCheckSumOk msg ∧
      ∀ msg : NetworkMessage,
        (∀ x : Int32, Rewrites { header msg with receiverNode := x.toInt } msg
          (putReceiverNode msg x.toInt)) ∧
        (∀ x : UInt32, Rewrites { header msg with receiverNodesBitMap := x.toNat } msg
          (putReceiverNodesBitMap msg x.toNat)) ∧
        ∀ x : Int16, Rewrites { header msg with maxStepsToForward := x.toInt } msg
          (putMaxStepsToForward msg x.toInt) := by
  intro msg
  refine ⟨header_prepareNetworkMessage netMsg topicId info h,
    getUserData_prepareNetworkMessage netMsg topicId info h,
    numberOfBytesToSend_prepareNetworkMessage netMsg topicId info h,
    isCheckSumOk_prepareNetworkMessage netMsg topicId data info, ?_⟩
  intro m
  exact ⟨putReceiverNode_rewrites m, putReceiverNodesBitMap_rewrites m,
    putMaxStepsToForward_rewrites m⟩

end Prepared

def request : NetMsgInfo where
  senderNode := -2
  senderThreadId := 0xFE02
  sentTime := 1000000000
  receiverNode := 7
  receiverNodesBitMap := 0x80
  linkId := 0
  messageType := 4

def blank : NetworkMessage := ⟨fun _ => 0⟩

theorem header_codec_request : ([1, 254, 3] : List UInt8).length ≤ maxNetworkMessageLength ∧
    (header (prepareNetworkMessage blank 100 [1, 254, 3] request)).senderNode = -2 ∧
    getUserData (prepareNetworkMessage blank 100 [1, 254, 3] request) 2 = [1, 254] := by
  have h : ([1, 254, 3] : List UInt8).length ≤ maxNetworkMessageLength := by decide
  obtain ⟨hheader, hdata, -⟩ := header_codec blank 100 request h
  refine ⟨h, ?_, hdata 2⟩
  rw [hheader]
  decide

end Rodos
