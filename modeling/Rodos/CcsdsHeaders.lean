import Rodos.BitFields

namespace Rodos.CcsdsHeaders

open ByteMemory BitMemory BitFields

section BigEndian

def uint16ToBigEndian (buff : Nat → UInt8) (off : Nat) (value : UInt16) : Nat → UInt8 :=
  write buff off (toBigEndian 2 value.toNat)

def uint32ToBigEndian (buff : Nat → UInt8) (off : Nat) (value : UInt32) : Nat → UInt8 :=
  write buff off (toBigEndian 4 value.toNat)

def bigEndianToUint16 (buff : Nat → UInt8) (off : Nat) : UInt16 :=
  UInt16.ofNat (ofBigEndian (read buff off 2))

def bigEndianToUint32 (buff : Nat → UInt8) (off : Nat) : UInt32 :=
  UInt32.ofNat (ofBigEndian (read buff off 4))

variable (buf : Nat → UInt8) (off : Nat)

theorem uint16ToBigEndian_eq (value : UInt16) :
    uint16ToBigEndian buf off value = setBits buf (8 * off) 16 value.toNat :=
  write_toBigEndian buf off 2 value.toNat

theorem uint32ToBigEndian_eq (value : UInt32) :
    uint32ToBigEndian buf off value = setBits buf (8 * off) 32 value.toNat :=
  write_toBigEndian buf off 4 value.toNat

theorem bigEndianToUint16_eq : bigEndianToUint16 buf off = .ofNat (getBits buf (8 * off) 16) := by
  rw [bigEndianToUint16, ofBigEndian_read]

theorem bigEndianToUint32_eq : bigEndianToUint32 buf off = .ofNat (getBits buf (8 * off) 32) := by
  rw [bigEndianToUint32, ofBigEndian_read]

end BigEndian

structure UplinkSPHeader where
  version : UInt8
  type : UInt8
  secondaryHeaderFlag : UInt8
  applicationId : UInt16
  sequenceFlags : UInt8
  sequenceCounter : UInt16
  length : UInt16
  pusSecondaryHeaderFlag : UInt8
  pusVersion : UInt8
  ackType : UInt8
  serviceType : UInt8
  serviceSubtype : UInt8
  sourceID : UInt8
  deriving DecidableEq

namespace UplinkSPHeader

def headerSize : Nat := 10

def serialize (h : UplinkSPHeader) (buf : Nat → UInt8) : Nat → UInt8 :=
  let buf := setBitField buf 0 3 h.version.toNat
  let buf := setBitField buf 3 1 h.type.toNat
  let buf := setBitField buf 4 1 h.secondaryHeaderFlag.toNat
  let buf := setBitField buf 5 11 h.applicationId.toNat
  let buf := setBitField buf 16 2 h.sequenceFlags.toNat
  let buf := setBitField buf 18 14 h.sequenceCounter.toNat
  let buf := uint16ToBigEndian buf 4 h.length
  let buf := setBitField buf 48 1 h.pusSecondaryHeaderFlag.toNat
  let buf := setBitField buf 49 3 h.pusVersion.toNat
  let buf := setBitField buf 52 4 h.ackType.toNat
  let buf := write buf 7 [h.serviceType]
  let buf := write buf 8 [h.serviceSubtype]
  write buf 9 [h.sourceID]

def deserialize (buf : Nat → UInt8) : UplinkSPHeader where
  version := .ofNat (getBitField buf 0 3)
  type := .ofNat (getBitField buf 3 1)
  secondaryHeaderFlag := .ofNat (getBitField buf 4 1)
  applicationId := .ofNat (getBitField buf 5 11)
  sequenceFlags := .ofNat (getBitField buf 16 2)
  sequenceCounter := .ofNat (getBitField buf 18 14)
  length := bigEndianToUint16 buf 4
  pusSecondaryHeaderFlag := .ofNat (getBitField buf 48 1)
  pusVersion := .ofNat (getBitField buf 49 3)
  ackType := .ofNat (getBitField buf 52 4)
  serviceType := buf 7
  serviceSubtype := buf 8
  sourceID := buf 9

def codec : Codec UplinkSPHeader where
  widths := [3, 1, 1, 11, 2, 14, 16, 1, 3, 4, 8, 8, 8]
  values h := [h.version.toNat, h.type.toNat, h.secondaryHeaderFlag.toNat, h.applicationId.toNat,
    h.sequenceFlags.toNat, h.sequenceCounter.toNat, h.length.toNat,
    h.pusSecondaryHeaderFlag.toNat, h.pusVersion.toNat, h.ackType.toNat, h.serviceType.toNat,
    h.serviceSubtype.toNat, h.sourceID.toNat]
  build l := ⟨.ofNat (l.getD 0 0), .ofNat (l.getD 1 0), .ofNat (l.getD 2 0), .ofNat (l.getD 3 0),
    .ofNat (l.getD 4 0), .ofNat (l.getD 5 0), .ofNat (l.getD 6 0), .ofNat (l.getD 7 0),
    .ofNat (l.getD 8 0), .ofNat (l.getD 9 0), .ofNat (l.getD 10 0), .ofNat (l.getD 11 0),
    .ofNat (l.getD 12 0)⟩
  size := headerSize
  serialize := serialize
  deserialize := deserialize
  sum_widths := rfl
  length_values _ := rfl
  build_values h := by simp
  serialize_eq h m := by
    simp only [serialize, setBitField_eq, uint16ToBigEndian_eq, write_single, Nat.reduceLeDiff]
    rfl
  deserialize_eq m := by
    simp only [deserialize, getBitField_eq, bigEndianToUint16_eq, byte_getBits m 7,
      byte_getBits m 8, byte_getBits m 9, Nat.reduceLeDiff]
    rfl

end UplinkSPHeader

structure UplinkTFHeader where
  version : UInt8
  bypassFlag : UInt8
  controllCommandFlag : UInt8
  spare1 : UInt8
  spacecraftID : UInt16
  virtualChannelID : UInt8
  frameLength : UInt16
  frameSequenceNr : UInt8
  sequenceFlags : UInt8
  multiplexAceessPoint : UInt8
  deriving DecidableEq

namespace UplinkTFHeader

def headerSize : Nat := 6

def serialize (h : UplinkTFHeader) (buf : Nat → UInt8) : Nat → UInt8 :=
  let buf := setBitField buf 0 2 h.version.toNat
  let buf := setBitField buf 2 1 h.bypassFlag.toNat
  let buf := setBitField buf 3 1 h.controllCommandFlag.toNat
  let buf := setBitField buf 4 2 h.spare1.toNat
  let buf := setBitField buf 6 10 h.spacecraftID.toNat
  let buf := setBitField buf 16 6 h.virtualChannelID.toNat
  let buf := setBitField buf 22 10 h.frameLength.toNat
  let buf := write buf 4 [h.frameSequenceNr]
  let buf := setBitField buf 40 2 h.sequenceFlags.toNat
  setBitField buf 42 6 h.multiplexAceessPoint.toNat

def deserialize (buf : Nat → UInt8) : UplinkTFHeader where
  version := .ofNat (getBitField buf 0 2)
  bypassFlag := .ofNat (getBitField buf 2 1)
  controllCommandFlag := .ofNat (getBitField buf 3 1)
  spare1 := .ofNat (getBitField buf 4 2)
  spacecraftID := .ofNat (getBitField buf 6 10)
  virtualChannelID := .ofNat (getBitField buf 16 6)
  frameLength := .ofNat (getBitField buf 22 10)
  frameSequenceNr := buf 4
  sequenceFlags := .ofNat (getBitField buf 40 2)
  multiplexAceessPoint := .ofNat (getBitField buf 42 6)

def codec : Codec UplinkTFHeader where
  widths := [2, 1, 1, 2, 10, 6, 10, 8, 2, 6]
  values h := [h.version.toNat, h.bypassFlag.toNat, h.controllCommandFlag.toNat, h.spare1.toNat,
    h.spacecraftID.toNat, h.virtualChannelID.toNat, h.frameLength.toNat, h.frameSequenceNr.toNat,
    h.sequenceFlags.toNat, h.multiplexAceessPoint.toNat]
  build l := ⟨.ofNat (l.getD 0 0), .ofNat (l.getD 1 0), .ofNat (l.getD 2 0), .ofNat (l.getD 3 0),
    .ofNat (l.getD 4 0), .ofNat (l.getD 5 0), .ofNat (l.getD 6 0), .ofNat (l.getD 7 0),
    .ofNat (l.getD 8 0), .ofNat (l.getD 9 0)⟩
  size := headerSize
  serialize := serialize
  deserialize := deserialize
  sum_widths := rfl
  length_values _ := rfl
  build_values h := by simp
  serialize_eq h m := by
    simp only [serialize, setBitField_eq, write_single, Nat.reduceLeDiff]
    rfl
  deserialize_eq m := by
    simp only [deserialize, getBitField_eq, byte_getBits m 4, Nat.reduceLeDiff]
    rfl

end UplinkTFHeader

structure UplinkTFTrailer where
  crc : UInt16
  deriving DecidableEq

namespace UplinkTFTrailer

def headerSize : Nat := 2

def serialize (h : UplinkTFTrailer) (buf : Nat → UInt8) : Nat → UInt8 :=
  uint16ToBigEndian buf 0 h.crc

def deserialize (buf : Nat → UInt8) : UplinkTFTrailer where
  crc := bigEndianToUint16 buf 0

def codec : Codec UplinkTFTrailer where
  widths := [16]
  values h := [h.crc.toNat]
  build l := ⟨.ofNat (l.getD 0 0)⟩
  size := headerSize
  serialize := serialize
  deserialize := deserialize
  sum_widths := rfl
  length_values _ := rfl
  build_values h := by simp
  serialize_eq h m := by
    simp only [serialize, uint16ToBigEndian_eq]
    rfl
  deserialize_eq m := by
    simp only [deserialize, bigEndianToUint16_eq]
    rfl

end UplinkTFTrailer

structure DownlinkSPHeader where
  version : UInt8
  typeId : UInt8
  secHeaderFlag : UInt8
  applicationId : UInt16
  groupingFlags : UInt8
  sourceSeqCnt : UInt16
  dataPackLen : UInt16
  secondaryFlag : UInt8
  pusVersion : UInt8
  spare : UInt8
  service : UInt8
  subservice : UInt8
  destination : UInt8
  timeStampSeconds : UInt32
  timeStampFraction : UInt16
  deriving DecidableEq

namespace DownlinkSPHeader

def headerSize : Nat := 16

def serialize (h : DownlinkSPHeader) (buf : Nat → UInt8) : Nat → UInt8 :=
  let buf := setBitField buf 0 3 h.version.toNat
  let buf := setBitField buf 3 1 h.typeId.toNat
  let buf := setBitField buf 4 1 h.secHeaderFlag.toNat
  let buf := setBitField buf 5 11 h.applicationId.toNat
  let buf := setBitField buf 16 2 h.groupingFlags.toNat
  let buf := setBitField buf 18 14 h.sourceSeqCnt.toNat
  let buf := uint16ToBigEndian buf 4 h.dataPackLen
  let buf := setBitField buf 48 1 h.secondaryFlag.toNat
  let buf := setBitField buf 49 3 h.pusVersion.toNat
  let buf := setBitField buf 52 4 h.spare.toNat
  let buf := write buf 7 [h.service]
  let buf := write buf 8 [h.subservice]
  let buf := write buf 9 [h.destination]
  let buf := uint32ToBigEndian buf 10 h.timeStampSeconds
  uint16ToBigEndian buf 14 h.timeStampFraction

def deserialize (buf : Nat → UInt8) : DownlinkSPHeader where
  version := .ofNat (getBitField buf 0 3)
  typeId := .ofNat (getBitField buf 3 1)
  secHeaderFlag := .ofNat (getBitField buf 4 1)
  applicationId := .ofNat (getBitField buf 5 11)
  groupingFlags := .ofNat (getBitField buf 16 2)
  sourceSeqCnt := .ofNat (getBitField buf 18 14)
  dataPackLen := bigEndianToUint16 buf 4
  secondaryFlag := .ofNat (getBitField buf 48 1)
  pusVersion := .ofNat (getBitField buf 49 3)
  spare := .ofNat (getBitField buf 52 4)
  service := buf 7
  subservice := buf 8
  destination := buf 9
  timeStampSeconds := bigEndianToUint32 buf 10
  timeStampFraction := bigEndianToUint16 buf 14

def codec : Codec DownlinkSPHeader where
  widths := [3, 1, 1, 11, 2, 14, 16, 1, 3, 4, 8, 8, 8, 32, 16]
  values h := [h.version.toNat, h.typeId.toNat, h.secHeaderFlag.toNat, h.applicationId.toNat,
    h.groupingFlags.toNat, h.sourceSeqCnt.toNat, h.dataPackLen.toNat, h.secondaryFlag.toNat,
    h.pusVersion.toNat, h.spare.toNat, h.service.toNat, h.subservice.toNat, h.destination.toNat,
    h.timeStampSeconds.toNat, h.timeStampFraction.toNat]
  build l := ⟨.ofNat (l.getD 0 0), .ofNat (l.getD 1 0), .ofNat (l.getD 2 0), .ofNat (l.getD 3 0),
    .ofNat (l.getD 4 0), .ofNat (l.getD 5 0), .ofNat (l.getD 6 0), .ofNat (l.getD 7 0),
    .ofNat (l.getD 8 0), .ofNat (l.getD 9 0), .ofNat (l.getD 10 0), .ofNat (l.getD 11 0),
    .ofNat (l.getD 12 0), .ofNat (l.getD 13 0), .ofNat (l.getD 14 0)⟩
  size := headerSize
  serialize := serialize
  deserialize := deserialize
  sum_widths := rfl
  length_values _ := rfl
  build_values h := by simp
  serialize_eq h m := by
    simp only [serialize, setBitField_eq, uint16ToBigEndian_eq,
      uint32ToBigEndian_eq, write_single, Nat.reduceLeDiff]
    rfl
  deserialize_eq m := by
    simp only [deserialize, getBitField_eq, bigEndianToUint16_eq, bigEndianToUint32_eq,
      byte_getBits m 7, byte_getBits m 8, byte_getBits m 9, Nat.reduceLeDiff]
    rfl

end DownlinkSPHeader

structure DownlinkTFHeader where
  version : UInt8
  spaceCraftId : UInt16
  virtualChanId : UInt8
  opControlFlag : UInt8
  masterChanFrameCnt : UInt8
  virtualChanFrameCnt : UInt8
  secondHeaderFlag : UInt8
  synchFlag : UInt8
  packetOrderFlag : UInt8
  segmentLenId : UInt8
  firstHeaderPtr : UInt16
  deriving DecidableEq

namespace DownlinkTFHeader

def headerSize : Nat := 6

def serialize (h : DownlinkTFHeader) (buf : Nat → UInt8) : Nat → UInt8 :=
  let buf := setBitField buf 0 2 h.version.toNat
  let buf := setBitField buf 2 10 h.spaceCraftId.toNat
  let buf := setBitField buf 12 3 h.virtualChanId.toNat
  let buf := setBitField buf 15 1 h.opControlFlag.toNat
  let buf := write buf 2 [h.masterChanFrameCnt]
  let buf := write buf 3 [h.virtualChanFrameCnt]
  let buf := setBitField buf 32 1 h.secondHeaderFlag.toNat
  let buf := setBitField buf 33 1 h.synchFlag.toNat
  let buf := setBitField buf 34 1 h.packetOrderFlag.toNat
  let buf := setBitField buf 35 2 h.segmentLenId.toNat
  setBitField buf 37 11 h.firstHeaderPtr.toNat

def deserialize (buf : Nat → UInt8) : DownlinkTFHeader where
  version := .ofNat (getBitField buf 0 2)
  spaceCraftId := .ofNat (getBitField buf 2 10)
  virtualChanId := .ofNat (getBitField buf 12 3)
  opControlFlag := .ofNat (getBitField buf 15 1)
  masterChanFrameCnt := buf 2
  virtualChanFrameCnt := buf 3
  secondHeaderFlag := .ofNat (getBitField buf 32 1)
  synchFlag := .ofNat (getBitField buf 33 1)
  packetOrderFlag := .ofNat (getBitField buf 34 1)
  segmentLenId := .ofNat (getBitField buf 35 2)
  firstHeaderPtr := .ofNat (getBitField buf 37 11)

def codec : Codec DownlinkTFHeader where
  widths := [2, 10, 3, 1, 8, 8, 1, 1, 1, 2, 11]
  values h := [h.version.toNat, h.spaceCraftId.toNat, h.virtualChanId.toNat, h.opControlFlag.toNat,
    h.masterChanFrameCnt.toNat, h.virtualChanFrameCnt.toNat, h.secondHeaderFlag.toNat,
    h.synchFlag.toNat, h.packetOrderFlag.toNat, h.segmentLenId.toNat, h.firstHeaderPtr.toNat]
  build l := ⟨.ofNat (l.getD 0 0), .ofNat (l.getD 1 0), .ofNat (l.getD 2 0), .ofNat (l.getD 3 0),
    .ofNat (l.getD 4 0), .ofNat (l.getD 5 0), .ofNat (l.getD 6 0), .ofNat (l.getD 7 0),
    .ofNat (l.getD 8 0), .ofNat (l.getD 9 0), .ofNat (l.getD 10 0)⟩
  size := headerSize
  serialize := serialize
  deserialize := deserialize
  sum_widths := rfl
  length_values _ := rfl
  build_values h := by simp
  serialize_eq h m := by
    simp only [serialize, setBitField_eq, write_single, Nat.reduceLeDiff]
    rfl
  deserialize_eq m := by
    simp only [deserialize, getBitField_eq, byte_getBits m 2, byte_getBits m 3, Nat.reduceLeDiff]
    rfl

end DownlinkTFHeader

structure DownlinkTFTrailer where
  control : UInt8
  version : UInt8
  status : UInt8
  commandOpProcedure : UInt8
  virtualChanel : UInt8
  spare1 : UInt8
  noRF : UInt8
  noBitLock : UInt8
  lockOut : UInt8
  wait : UInt8
  retransmit : UInt8
  farmBCnt : UInt8
  spare2 : UInt8
  reportValue : UInt8
  crc : UInt16
  deriving DecidableEq

namespace DownlinkTFTrailer

def headerSize : Nat := 6

def serialize (h : DownlinkTFTrailer) (buf : Nat → UInt8) : Nat → UInt8 :=
  let buf := setBitField buf 0 1 h.control.toNat
  let buf := setBitField buf 1 2 h.version.toNat
  let buf := setBitField buf 3 3 h.status.toNat
  let buf := setBitField buf 6 2 h.commandOpProcedure.toNat
  let buf := setBitField buf 8 6 h.virtualChanel.toNat
  let buf := setBitField buf 14 2 h.spare1.toNat
  let buf := setBitField buf 16 1 h.noRF.toNat
  let buf := setBitField buf 17 1 h.noBitLock.toNat
  let buf := setBitField buf 18 1 h.lockOut.toNat
  let buf := setBitField buf 19 1 h.wait.toNat
  let buf := setBitField buf 20 1 h.retransmit.toNat
  let buf := setBitField buf 21 2 h.farmBCnt.toNat
  let buf := setBitField buf 23 1 h.spare2.toNat
  let buf := write buf 3 [h.reportValue]
  uint16ToBigEndian buf 4 h.crc

def deserialize (buf : Nat → UInt8) : DownlinkTFTrailer where
  control := .ofNat (getBitField buf 0 1)
  version := .ofNat (getBitField buf 1 2)
  status := .ofNat (getBitField buf 3 3)
  commandOpProcedure := .ofNat (getBitField buf 6 2)
  virtualChanel := .ofNat (getBitField buf 8 6)
  spare1 := .ofNat (getBitField buf 14 2)
  noRF := .ofNat (getBitField buf 16 1)
  noBitLock := .ofNat (getBitField buf 17 1)
  lockOut := .ofNat (getBitField buf 18 1)
  wait := .ofNat (getBitField buf 19 1)
  retransmit := .ofNat (getBitField buf 20 1)
  farmBCnt := .ofNat (getBitField buf 21 2)
  spare2 := .ofNat (getBitField buf 23 1)
  reportValue := buf 3
  crc := bigEndianToUint16 buf 4

def codec : Codec DownlinkTFTrailer where
  widths := [1, 2, 3, 2, 6, 2, 1, 1, 1, 1, 1, 2, 1, 8, 16]
  values h := [h.control.toNat, h.version.toNat, h.status.toNat, h.commandOpProcedure.toNat,
    h.virtualChanel.toNat, h.spare1.toNat, h.noRF.toNat, h.noBitLock.toNat, h.lockOut.toNat,
    h.wait.toNat, h.retransmit.toNat, h.farmBCnt.toNat, h.spare2.toNat, h.reportValue.toNat,
    h.crc.toNat]
  build l := ⟨.ofNat (l.getD 0 0), .ofNat (l.getD 1 0), .ofNat (l.getD 2 0), .ofNat (l.getD 3 0),
    .ofNat (l.getD 4 0), .ofNat (l.getD 5 0), .ofNat (l.getD 6 0), .ofNat (l.getD 7 0),
    .ofNat (l.getD 8 0), .ofNat (l.getD 9 0), .ofNat (l.getD 10 0), .ofNat (l.getD 11 0),
    .ofNat (l.getD 12 0), .ofNat (l.getD 13 0), .ofNat (l.getD 14 0)⟩
  size := headerSize
  serialize := serialize
  deserialize := deserialize
  sum_widths := rfl
  length_values _ := rfl
  build_values h := by simp
  serialize_eq h m := by
    simp only [serialize, setBitField_eq, uint16ToBigEndian_eq,
      write_single, Nat.reduceLeDiff]
    rfl
  deserialize_eq m := by
    simp only [deserialize, getBitField_eq, bigEndianToUint16_eq, byte_getBits m 3,
      Nat.reduceLeDiff]
    rfl

end DownlinkTFTrailer

end Rodos.CcsdsHeaders
