import Rodos.HeaderCodec
import Rodos.StructFormat

namespace Rodos.PythonMiddleware

open ByteMemory NetworkMessage StructFormat

def exemptFormat : List Code := [.i, .I, .h, .H]

def coveredFormat : List Code := [.H, .H, .i, .Q, .I, .I]

/-- `PARSE_STRING`, that is `!iIhHHHiQII`. -/
def parseString : List Code := exemptFormat ++ coveredFormat

/-- The ten header attributes of the Python class, integers without a width. -/
@[ext] structure Fields where
  receiverNode : Int
  receiverNodeBitMap : Int
  maxStepsToForward : Int
  checksum : Int
  type : Int
  len : Int
  senderNode : Int
  sentTime : Int
  senderThreadId : Int
  topicid : Int
deriving DecidableEq

namespace Fields

def zero : Fields := ⟨0, 0, 0, 0, 0, 0, 0, 0, 0, 0⟩

def exempt (f : Fields) : List Int :=
  [f.receiverNode, f.receiverNodeBitMap, f.maxStepsToForward, f.checksum]

def covered (f : Fields) : List Int :=
  [f.type, f.len, f.senderNode, f.sentTime, f.senderThreadId, f.topicid]

def toList (f : Fields) : List Int := f.exempt ++ f.covered

def ofList : List Int → Option Fields
  | [a, b, c, d, e, f, g, h, i, j] => some ⟨a, b, c, d, e, f, g, h, i, j⟩
  | _ => none

def InRange (f : Fields) : Prop := List.Forall₂ Code.InRange parseString f.toList

def ofHeader (h : Header) : Fields where
  receiverNode := h.receiverNode
  receiverNodeBitMap := h.receiverNodesBitMap
  maxStepsToForward := h.maxStepsToForward
  checksum := h.checkSum
  type := h.type
  len := h.len
  senderNode := h.senderNode
  sentTime := h.sentTime
  senderThreadId := h.senderThreadId
  topicid := h.topicId

theorem ofList_toList (f : Fields) : ofList f.toList = some f := rfl

theorem toList_injective {f g : Fields} (h : f.toList = g.toList) : f = g := by
  simp only [toList, exempt, covered, List.cons_append, List.nil_append, List.cons.injEq,
    and_true] at h
  obtain ⟨h0, h1, h2, h3, h4, h5, h6, h7, h8, h9⟩ := h
  exact Fields.ext h0 h1 h2 h3 h4 h5 h6 h7 h8 h9

end Fields

structure Message where
  fields : Fields
  header : List Int
  rawHeader : List UInt8
  userDataC : List UInt8
  rawMsg : List UInt8

namespace Message

/-- There is no result when `struct.pack` raises. -/
def updateHeader (self : Message) : Option Message :=
  (pack parseString self.fields.toList).map (fun raw =>
    { self with header := self.fields.toList, rawHeader := raw })

def parseHeader (self : Message) : Option Message :=
  ((unpack parseString (self.rawMsg.take 36)).bind Fields.ofList).bind (fun fields =>
    (updateHeader { self with rawHeader := self.rawMsg.take 36, fields := fields }).map (fun self =>
      { self with userDataC := self.rawMsg.drop 36 }))

/-- An object before the constructor looks at the bytes it is given. -/
def empty (rawMsg : List UInt8) : Message := ⟨Fields.zero, List.replicate 10 0, [], [], rawMsg⟩

/-- The constructor. It sets the attributes to zero after it has parsed. -/
def new (rawBytes : List UInt8) : Option Message :=
  (if rawBytes.length ≠ 0 then parseHeader (empty rawBytes) else some (empty [])).map (fun self =>
    { self with fields := Fields.zero })

def getUserData (self : Message) : List UInt8 := self.userDataC.take 1300

def getBinaryMsg (self : Message) : Option (List UInt8) :=
  if self.header.length < 10 then some []
  else self.updateHeader.bind (fun self =>
    (pack parseString self.header).map (fun packedHeader => packedHeader ++ self.userDataC))

end Message

def rotateRight (checksum : Nat) : Nat :=
  (if checksum &&& 0x01 ≠ 0 then ((checksum &&& 0xFFFF) >>> 1) ||| 0x8000
    else (checksum &&& 0xFFFF) >>> 1) &&& 0xFFFF

def calcCheckSum (data : List UInt8) : Nat :=
  data.foldl (fun checksum b =>
    (rotateRight (checksum &&& 0xFFFF) &&& 0xFFFF) + (b.toNat &&& 0xFF)) 0 &&& 0xFFFF

def Message.calcChecksum (self : Message) : Nat :=
  calcCheckSum ((self.rawHeader ++ self.getUserData).drop 12)

def stamped (nodeNumber now : Int) (f : Fields) : Fields :=
  { f with sentTime := now, senderNode := nodeNumber }

/-- The bytes that the link interface gets. The node number and the time are
those of the gateway. -/
def sendNetworkMessage (nodeNumber now : Int) (msg : Message) : Option (List UInt8) :=
  (Message.updateHeader { msg with fields := stamped nodeNumber now msg.fields }).bind (fun msg =>
    Message.getBinaryMsg
      { msg with fields := { msg.fields with checksum := (msg.calcChecksum : Nat) } })

def forwardHandler (nodeNumber now : Int) (data : List UInt8) (topicId : Int) :
    Option (List UInt8) :=
  (Message.new []).bind (fun msg =>
    (Message.updateHeader
      { msg with
        fields := { msg.fields with topicid := topicId, len := data.length, senderNode := 0xFF }
        userDataC := data }).bind (sendNetworkMessage nodeNumber now))

/-- What analyseAndDistributeMessagesFromNetwork makes of the bytes of a message. -/
def receive (data : List UInt8) : Option Message := (Message.new data).bind Message.parseHeader

theorem rotateRight_toNat (c : UInt16) :
    rotateRight c.toNat = (NetworkMessage.rotateRight c).toNat := by
  have hc : c.toNat < 2 ^ 16 := c.toNat_lt
  have hmask : c.toNat &&& 0xFFFF = c.toNat := by
    rw [show 0xFFFF = 2 ^ 16 - 1 from rfl, Nat.and_two_pow_sub_one_eq_mod, Nat.mod_eq_of_lt hc]
  have hlow : (c &&& 1 = 1) ↔ c.toNat &&& 0x01 ≠ 0 := by
    rw [← UInt16.toNat_inj, UInt16.toNat_and]
    simp only [UInt16.toNat_one, Nat.and_one_is_mod]
    omega
  rw [rotateRight, NetworkMessage.rotateRight]
  rw [hmask]
  have hshift : c.toNat >>> 1 < 2 ^ 15 := by
    rw [Nat.shiftRight_eq_div_pow]
    omega
  have htop : (c.toNat >>> 1 ||| 0x8000) < 2 ^ 16 := Nat.or_lt_two_pow (by omega) (by norm_num)
  rw [show 0xFFFF = 2 ^ 16 - 1 from rfl, Nat.and_two_pow_sub_one_eq_mod]
  by_cases hodd : c &&& 1 = 1
  · rw [if_pos (hlow.mp hodd), if_pos hodd, Nat.mod_eq_of_lt htop, UInt16.toNat_or,
      UInt16.toNat_shiftRight]
    rfl
  · rw [if_neg (fun h => hodd (hlow.mpr h)), if_neg hodd, Nat.mod_eq_of_lt (by omega),
      UInt16.toNat_shiftRight]
    rfl

theorem calcCheckSum_eq (data : List UInt8) : calcCheckSum data = (checkSum data).toNat := by
  have hmask (n : Nat) : n &&& 0xFFFF = n % 2 ^ 16 := Nat.and_two_pow_sub_one_eq_mod n 16
  have hbyte (b : UInt8) : b.toNat &&& 0xFF = b.toNat := by
    have hb : b.toNat < 2 ^ 8 := b.toNat_lt
    rw [show 0xFF = 2 ^ 8 - 1 from rfl, Nat.and_two_pow_sub_one_eq_mod, Nat.mod_eq_of_lt hb]
  rw [calcCheckSum, checkSum]
  rw [hmask]
  suffices h : ∀ (n : Nat) (c : UInt16), n % 2 ^ 16 = c.toNat →
      data.foldl (fun checksum b =>
        (rotateRight (checksum &&& 0xFFFF) &&& 0xFFFF) + (b.toNat &&& 0xFF)) n % 2 ^ 16 =
      (data.foldl (fun checksum b => NetworkMessage.rotateRight checksum + b.toUInt16) c).toNat by
    exact h 0 0 rfl
  induction data with
  | nil => exact fun n c h => h
  | cons b data ih =>
    intro n c h
    rw [List.foldl_cons, List.foldl_cons]
    apply ih
    rw [hmask n, h, rotateRight_toNat, hmask, Nat.mod_eq_of_lt (UInt16.toNat_lt _), hbyte,
      UInt16.toNat_add, UInt8.toNat_toUInt16]

/-- The attributes as the accessors return them, but for the time, which
Python takes to be unsigned. -/
def fieldsOf (msg : NetworkMessage) : Fields where
  receiverNode := getReceiverNode msg
  receiverNodeBitMap := getReceiverNodesBitMap msg
  maxStepsToForward := getMaxStepsToForward msg
  checksum := getCheckSum msg
  type := getType msg
  len := getLen msg
  senderNode := getSenderNode msg
  sentTime := getField 20 8 msg
  senderThreadId := getSenderThreadId msg
  topicid := getTopicId msg

theorem unpack_header (msg : NetworkMessage) :
    unpack parseString (read msg.bytes 0 headerSize) = some (fieldsOf msg).toList := by
  have hsize : headerSize = (parseString.map Code.size).sum := by decide
  rw [hsize, unpack_read]
  unfold fieldsOf getReceiverNode getReceiverNodesBitMap getMaxStepsToForward getCheckSum getType
    getLen getSenderNode getSenderThreadId getTopicId getField
  simp only [parseString, exemptFormat, coveredFormat, valuesAt, Code.decode, Code.signed,
    Code.size, Fields.toList, Fields.exempt, Fields.covered, List.cons_append, List.nil_append,
    if_true, Bool.false_eq_true, if_false, Nat.zero_add, Nat.reduceAdd, -Nat.reducePow]

theorem fieldsOf_eq {msg : NetworkMessage} (h : 0 ≤ getSentTime msg) :
    fieldsOf msg = Fields.ofHeader (header msg) := by
  have htime : (getField 20 8 msg : Int) = getSentTime msg := by
    have hlt : getField 20 8 msg < 256 ^ 8 := by
      have hread := ofBigEndian_lt (read msg.bytes 20 8)
      rwa [length_read] at hread
    unfold getSentTime at h ⊢
    rw [Int.bmod_def] at h ⊢
    push_cast at h ⊢
    split at h <;> omega
  rw [fieldsOf, Fields.ofHeader, header]
  rw [htime]

theorem updateHeader_eq {self : Message} {raw : List UInt8}
    (h : pack parseString self.fields.toList = some raw) :
    self.updateHeader = some { self with header := self.fields.toList, rawHeader := raw } := by
  rw [Message.updateHeader]
  rw [h, Option.map_some]

section Parsing

variable {self : Message} {msg : NetworkMessage} {n : Nat}

theorem parseHeader_eq (hn : headerSize ≤ n) (hraw : self.rawMsg = read msg.bytes 0 n) :
    ∃ self', self.parseHeader = some self' ∧ self'.fields = fieldsOf msg ∧
      self'.userDataC = read msg.bytes headerSize (n - headerSize) ∧
      self'.rawMsg = self.rawMsg := by
  have hsize : 36 = headerSize := by decide
  have hunpack := unpack_header msg
  obtain ⟨raw, hpack⟩ := pack_unpack hunpack
  have htake : self.rawMsg.take 36 = read msg.bytes 0 headerSize := by
    rw [hraw, take_read, hsize, Nat.min_eq_left hn]
  have hdrop : self.rawMsg.drop 36 = read msg.bytes headerSize (n - headerSize) := by
    rw [hraw, drop_read, hsize, Nat.zero_add]
  generalize fieldsOf msg = f at *
  refine ⟨⟨f, f.toList, raw, self.rawMsg.drop 36, self.rawMsg⟩, ?_, rfl, hdrop, rfl⟩
  rw [Message.parseHeader]
  rw [htake, hunpack, Option.bind_some, Fields.ofList_toList, Option.bind_some,
    updateHeader_eq hpack, Option.map_some]

theorem receive_eq (hn : headerSize ≤ n) :
    ∃ self', receive (read msg.bytes 0 n) = some self' ∧ self'.fields = fieldsOf msg ∧
      self'.userDataC = read msg.bytes headerSize (n - headerSize) := by
  have hne : (read msg.bytes 0 n).length ≠ 0 := by
    rw [length_read]
    rw [headerSize] at hn
    omega
  have hempty : (Message.empty (read msg.bytes 0 n)).rawMsg = read msg.bytes 0 n := rfl
  obtain ⟨made, hmade, -, -, hraw⟩ := parseHeader_eq hn hempty
  have hnew : Message.new (read msg.bytes 0 n) = some { made with fields := Fields.zero } := by
    rw [Message.new]
    rw [if_pos hne, hmade, Option.map_some]
  have hagain : ({ made with fields := Fields.zero } : Message).rawMsg = read msg.bytes 0 n := hraw
  obtain ⟨self', hself, hfields, hdata, -⟩ := parseHeader_eq hn hagain
  refine ⟨self', ?_, hfields, hdata⟩
  rw [receive]
  rw [hnew, Option.bind_some, hself]

end Parsing

section Sending

variable {nodeNumber now : Int} {self : Message}

theorem getBinaryMsg_eq {raw : List UInt8} (hlen : self.header.length = 10)
    (h : pack parseString self.fields.toList = some raw) :
    self.getBinaryMsg = some (raw ++ self.userDataC) := by
  rw [Message.getBinaryMsg]
  rw [if_neg (by omega), updateHeader_eq h, Option.bind_some]
  change (pack parseString self.fields.toList).map _ = _
  rw [h, Option.map_some]

theorem inRange_checksum {f : Fields} (h : f.InRange) (c : UInt16) :
    ({ f with checksum := (c.toNat : Int) } : Fields).InRange := by
  have hc : Code.H.InRange c.toNat := by
    have := c.toNat_lt
    simp only [Code.InRange, Code.signed, Code.size, Bool.false_eq_true, if_false]
    omega
  rw [Fields.InRange] at h ⊢
  simp only [parseString, exemptFormat, coveredFormat, Fields.toList, Fields.exempt,
    Fields.covered, List.cons_append, List.nil_append, List.forall₂_cons] at h ⊢
  obtain ⟨h0, h1, h2, -, h4⟩ := h
  exact ⟨h0, h1, h2, hc, h4⟩

theorem drop_pack_checksum {f : Fields} {c : Int} {raw packed : List UInt8}
    (h : pack parseString f.toList = some raw)
    (h' : pack parseString ({ f with checksum := c } : Fields).toList = some packed)
    (data : List UInt8) : (packed ++ data).drop 12 = (raw ++ data).drop 12 := by
  have hlen : raw.length = 36 := length_pack h
  have hlen' : packed.length = 36 := length_pack h'
  have hdrop : raw.drop 12 = packed.drop 12 := drop_pack_append h h' rfl rfl
  rw [List.drop_append_of_le_length (by omega), List.drop_append_of_le_length (by omega), hdrop]

/-- The second packing puts in the checksum of the first. -/
theorem sendNetworkMessage_eq (hr : (stamped nodeNumber now self.fields).InRange) :
    ∃ packed, sendNetworkMessage nodeNumber now self = some (packed ++ self.userDataC) ∧
      pack parseString ({ stamped nodeNumber now self.fields with
        checksum := ((checkSum ((packed ++ self.getUserData).drop 12)).toNat : Int) } :
          Fields).toList = some packed := by
  obtain ⟨raw, hraw⟩ := exists_pack hr
  obtain ⟨packed, hpacked⟩ :=
    exists_pack (inRange_checksum hr (checkSum ((raw ++ self.getUserData).drop 12)))
  have hdrop := drop_pack_checksum hraw hpacked self.getUserData
  refine ⟨packed, ?_, ?_⟩
  · unfold sendNetworkMessage
    rw [updateHeader_eq hraw, Option.bind_some]
    apply getBinaryMsg_eq rfl
    rw [← hpacked, ← calcCheckSum_eq]
    rfl
  · rw [hdrop]
    exact hpacked

def received (buffer : Nat → UInt8) (bytes : List UInt8) : NetworkMessage :=
  ⟨write buffer 0 bytes⟩

theorem fieldsOf_received {f : Fields} {packed : List UInt8}
    (h : pack parseString f.toList = some packed) (data : List UInt8) (buffer : Nat → UInt8) :
    fieldsOf (received buffer (packed ++ data)) = f := by
  have hlen : packed.length = headerSize := length_pack h
  have hread : read (received buffer (packed ++ data)).bytes 0 headerSize = packed := by
    have hall := read_write buffer 0 (packed ++ data)
    have htake := congrArg (List.take headerSize) hall
    rw [take_read, List.length_append, hlen, Nat.min_eq_left (Nat.le_add_right _ _),
      ← hlen, List.take_left] at htake
    rw [← hlen]
    exact htake
  have hunpack := unpack_header (received buffer (packed ++ data))
  rw [hread, unpack_pack h] at hunpack
  exact (Fields.toList_injective (Option.some.inj hunpack)).symm

structure Carries (msg : NetworkMessage) (data : List UInt8) (topicId senderNode sentTime : Int) :
    Prop where
  checkSum : isCheckSumOk msg
  len : getLen msg = data.length
  userData : userData msg = data
  topicId : (getTopicId msg : Int) = topicId
  senderNode : getSenderNode msg = senderNode
  sentTime : getSentTime msg = sentTime

theorem getSentTime_eq {msg : NetworkMessage} (hfield : (getField 20 8 msg : Int) = now)
    (hnow : now < 2 ^ 63) : getSentTime msg = now := by
  unfold getSentTime
  rw [hfield]
  apply Int.bmod_eq_of_le_mul_two <;> push_cast <;> omega

theorem sendNetworkMessage_carries (hr : (stamped nodeNumber now self.fields).InRange)
    (hlen : self.fields.len = self.userDataC.length)
    (hmax : self.userDataC.length ≤ maxNetworkMessageLength) (hnow : now < 2 ^ 63)
    (buffer : Nat → UInt8) :
    ∃ bytes, sendNetworkMessage nodeNumber now self = some bytes ∧
      Carries (received buffer bytes) self.userDataC self.fields.topicid nodeNumber now := by
  obtain ⟨packed, hsend, hpack⟩ := sendNetworkMessage_eq hr
  have hdata : self.getUserData = self.userDataC := List.take_of_length_le hmax
  rw [hdata] at hpack
  have hsize : packed.length = headerSize := length_pack hpack
  have hfields := fieldsOf_received hpack self.userDataC buffer
  have hread := read_write buffer 0 (packed ++ self.userDataC)
  rw [List.length_append, hsize] at hread
  have hgetLen : getLen (received buffer (packed ++ self.userDataC)) = self.userDataC.length := by
    have h := congrArg Fields.len hfields
    exact Int.ofNat.inj (h.trans hlen)
  have htail (k : Nat) (hk : k ≤ headerSize) :
      read (received buffer (packed ++ self.userDataC)).bytes k
        (headerSize - k + self.userDataC.length) = (packed ++ self.userDataC).drop k := by
    have h := congrArg (List.drop k) hread
    rw [drop_read, Nat.zero_add, Nat.sub_add_comm hk] at h
    exact h
  have hsender : getSenderNode (received buffer (packed ++ self.userDataC)) = nodeNumber := by
    have h := congrArg Fields.senderNode hfields
    simp only [fieldsOf, stamped] at h
    exact h
  refine ⟨_, hsend, ?_, hgetLen, ?_, congrArg Fields.topicid hfields, hsender,
    getSentTime_eq (congrArg Fields.sentTime hfields) hnow⟩
  · have hsum := congrArg Fields.checksum hfields
    rw [isCheckSumOk, calculateCheckSum]
    rw [hgetLen, htail 12 (by decide)]
    exact Int.ofNat.inj hsum.symm
  · have h := htail headerSize le_rfl
    rw [Nat.sub_self, Nat.zero_add, ← hsize, List.drop_left] at h
    rw [NetworkMessage.userData]
    rw [hgetLen, ← hsize]
    exact h

/-- What `forwardHandler` sets before it sends. -/
def requested (topicId : Int) (data : List UInt8) : Fields :=
  { Fields.zero with topicid := topicId, len := data.length, senderNode := 0xFF }

theorem requested_inRange {data : List UInt8} {topicId : Int}
    (hdata : data.length ≤ maxNetworkMessageLength) (htopic : 0 ≤ topicId ∧ topicId < 2 ^ 32)
    (hnode : -2 ^ 31 ≤ nodeNumber ∧ nodeNumber < 2 ^ 31) (hnow : 0 ≤ now ∧ now < 2 ^ 63) :
    (stamped nodeNumber now (requested topicId data)).InRange := by
  rw [maxNetworkMessageLength] at hdata
  rw [Fields.InRange]
  simp only [parseString, exemptFormat, coveredFormat, Fields.toList, Fields.exempt,
    Fields.covered, List.cons_append, List.nil_append, List.forall₂_cons, stamped, requested,
    Fields.zero, Code.InRange, Code.signed, Code.size, if_true, Bool.false_eq_true, if_false]
  norm_num
  omega

theorem forwardHandler_eq {data : List UInt8} {topicId : Int}
    (hdata : data.length ≤ maxNetworkMessageLength) (htopic : 0 ≤ topicId ∧ topicId < 2 ^ 32) :
    ∃ msg : Message, forwardHandler nodeNumber now data topicId =
        sendNetworkMessage nodeNumber now msg ∧ msg.userDataC = data ∧
      msg.fields = requested topicId data := by
  have hr : (stamped 0xFF 0 (requested topicId data)).InRange :=
    requested_inRange hdata htopic (by omega) (by omega)
  obtain ⟨raw, hraw⟩ := exists_pack hr
  have hnew : Message.new [] = some (Message.empty []) := rfl
  refine ⟨⟨requested topicId data, (requested topicId data).toList, raw, data, []⟩, ?_, rfl, rfl⟩
  rw [forwardHandler]
  rw [hnew, Option.bind_some, updateHeader_eq, Option.bind_some]
  · rfl
  · exact hraw

end Sending

/-- The two implementations agree on the bytes of a message: what Python
sends has the values that were set, and what it receives has the values that
the accessors return. -/
theorem wire_format_agrees :
    (∀ (data : List UInt8) (topicId nodeNumber now : Int) (buffer : Nat → UInt8),
      data.length ≤ maxNetworkMessageLength → 0 ≤ topicId ∧ topicId < 2 ^ 32 →
      -2 ^ 31 ≤ nodeNumber ∧ nodeNumber < 2 ^ 31 → 0 ≤ now ∧ now < 2 ^ 63 →
      ∃ bytes, forwardHandler nodeNumber now data topicId = some bytes ∧
        Carries (received buffer bytes) data topicId nodeNumber now) ∧
    (∀ (msg : Message) (nodeNumber now : Int) (buffer : Nat → UInt8),
      (stamped nodeNumber now msg.fields).InRange → now < 2 ^ 63 →
      msg.fields.len = msg.userDataC.length → msg.userDataC.length ≤ maxNetworkMessageLength →
      ∃ bytes, sendNetworkMessage nodeNumber now msg = some bytes ∧
        Carries (received buffer bytes) msg.userDataC msg.fields.topicid nodeNumber now) ∧
    ∀ (msg : NetworkMessage) (n : Nat), headerSize ≤ n → 0 ≤ getSentTime msg →
      ∃ parsed, receive (read msg.bytes 0 n) = some parsed ∧
        parsed.fields = Fields.ofHeader (header msg) ∧
        parsed.userDataC = read msg.bytes headerSize (n - headerSize) := by
  refine ⟨?_, ?_, ?_⟩
  · intro data topicId nodeNumber now buffer hdata htopic hnode hnow
    obtain ⟨msg, hforward, rfl, hfields⟩ := forwardHandler_eq hdata htopic
    have hr := requested_inRange hdata htopic hnode hnow
    rw [← hfields] at hr
    have hlen : msg.fields.len = msg.userDataC.length := congrArg Fields.len hfields
    have htopicid : msg.fields.topicid = topicId := congrArg Fields.topicid hfields
    rw [hforward, ← htopicid]
    exact sendNetworkMessage_carries hr hlen hdata hnow.2 buffer
  · intro msg nodeNumber now buffer hr hnow hlen hmax
    exact sendNetworkMessage_carries hr hlen hmax hnow buffer
  · intro msg n hn htime
    obtain ⟨parsed, hparsed, hfields, hdata⟩ := receive_eq hn
    exact ⟨parsed, hparsed, hfields.trans (fieldsOf_eq htime), hdata⟩

theorem wire_format_agrees_blank :
    (∃ bytes, forwardHandler (-2) 1000000000 [1, 254, 3] 100 = some bytes ∧
      Carries (received blank.bytes bytes) [1, 254, 3] 100 (-2) 1000000000) ∧
    ∃ parsed, receive (read blank.bytes 0 headerSize) = some parsed ∧
      parsed.fields.senderNode = (header blank).senderNode := by
  obtain ⟨hforward, -, hreceive⟩ := wire_format_agrees
  have htime : 0 ≤ getSentTime blank := by decide +kernel
  obtain ⟨parsed, hparsed, hfields, -⟩ := hreceive blank headerSize le_rfl htime
  refine ⟨hforward [1, 254, 3] 100 (-2) 1000000000 blank.bytes (by decide) (by decide) (by decide)
    (by decide), parsed, hparsed, ?_⟩
  rw [hfields, Fields.ofHeader]

end Rodos.PythonMiddleware
