import Rodos.CcsdsHeaders
import Rodos.Crc

namespace Rodos.CcsdsEnvelop

open ByteMemory BitMemory CcsdsHeaders Crc

def tfMaxLen : Nat := 1024

def downlinkTfLen : Nat := 1000

def crcSeed : UInt16 := 0xffff

def uint16 (x : Int) : Nat := (x % 65536).toNat

/-- The indices are places in `buf`, and `userDataBuf` points to one. -/
structure CCSDSEnvelop where
  /-- The byte of the memory in front of `buf`. -/
  inFront : UInt8
  buf : Nat → UInt8
  indexOfCurrentUserData : Nat
  lenOfCurrentTF : Nat
  lenOfCurrentSP : Nat
  lenOfCurrentUserData : Nat
  indexOfCurrentSP : Nat
  userDataBuf : Nat

namespace CCSDSEnvelop

/-- The bytes from a place of the memory on that may lie one byte in front of
`buf`. -/
def view (e : CCSDSEnvelop) (p : Int) : Nat → UInt8 :=
  fun i => if p + i < 0 then e.inFront else e.buf (p + i).toNat

def crc (e : CCSDSEnvelop) : UInt16 :=
  computeCRC (read e.buf 0 (e.lenOfCurrentTF - 2)) crcSeed

end CCSDSEnvelop

theorem uint16_eq {x : Int} {n : Nat} (h : x = n) (hn : n < 65536) : uint16 x = n := by
  rw [uint16]
  omega

theorem view_eq (e : CCSDSEnvelop) (p : Nat) : e.view p = pointer e.buf p := by
  funext i
  have hplace : (p + i : Int).toNat = p + i := by omega
  simp only [CCSDSEnvelop.view, pointer, hplace]
  rw [if_neg (by omega)]

structure UplinkEnvelop extends CCSDSEnvelop where
  tfHeader : UplinkTFHeader
  spHeader : UplinkSPHeader
  tfTrailer : UplinkTFTrailer

namespace UplinkEnvelop

section Ground

def beginNewTF (e : UplinkEnvelop) : UplinkEnvelop :=
  { e with
    buf := write e.buf 0 (List.replicate tfMaxLen 0xff)
    lenOfCurrentSP := 0
    lenOfCurrentUserData := 0
    indexOfCurrentUserData := 0
    lenOfCurrentTF := UplinkTFHeader.headerSize + UplinkTFTrailer.headerSize
    indexOfCurrentSP := UplinkTFHeader.headerSize }

def maxUserLen (e : UplinkEnvelop) : Nat :=
  let maxUserLen : Int := tfMaxLen - uint16 (e.indexOfCurrentSP + UplinkSPHeader.headerSize) -
    UplinkTFTrailer.headerSize
  uint16 (if maxUserLen < 0 then 0 else maxUserLen)

def beginNewSP (e : UplinkEnvelop) : Nat × UplinkEnvelop :=
  (maxUserLen e, { e with
    indexOfCurrentUserData := uint16 (e.indexOfCurrentSP + UplinkSPHeader.headerSize)
    userDataBuf := uint16 (e.indexOfCurrentSP + UplinkSPHeader.headerSize)
    lenOfCurrentSP := 0
    lenOfCurrentUserData := 0 })

def commitSP (e : UplinkEnvelop) : UplinkEnvelop :=
  if e.lenOfCurrentUserData = 0 then { e with lenOfCurrentSP := 0 }
  else
    let lenOfCurrentSP := uint16 (UplinkSPHeader.headerSize + e.lenOfCurrentUserData)
    let length := uint16 ((UplinkSPHeader.headerSize - 6) + e.lenOfCurrentUserData - 1)
    let spHeader := { e.spHeader with length := .ofNat length }
    { e with
      lenOfCurrentSP := lenOfCurrentSP
      spHeader := spHeader
      buf := through e.buf e.indexOfCurrentSP spHeader.serialize
      indexOfCurrentSP := uint16 (e.indexOfCurrentSP + lenOfCurrentSP)
      lenOfCurrentTF := uint16 (e.lenOfCurrentTF + lenOfCurrentSP) }

/-- The trailer is written twice, the second time with the checksum. -/
def commitTF (e : UplinkEnvelop) : UplinkEnvelop :=
  let tfHeader := { e.tfHeader with frameLength := .ofNat (uint16 (e.lenOfCurrentTF - 1)) }
  let trailer := e.lenOfCurrentTF - UplinkTFTrailer.headerSize
  let e := { e with tfHeader := tfHeader, buf := tfHeader.serialize e.buf }
  let e := { e with buf := through e.buf trailer e.tfTrailer.serialize }
  let tfTrailer : UplinkTFTrailer := { e.tfTrailer with crc := e.crc }
  { e with tfTrailer := tfTrailer, buf := through e.buf trailer tfTrailer.serialize }

end Ground

section Spacecraft

def checkoutTF (e : UplinkEnvelop) : Bool × UplinkEnvelop :=
  let tfHeader := UplinkTFHeader.deserialize e.buf
  let lenOfCurrentTF := uint16 (tfHeader.frameLength.toNat + 1)
  let tfTrailer := UplinkTFTrailer.deserialize
    (e.view (lenOfCurrentTF - UplinkTFTrailer.headerSize))
  let e := { e with
    indexOfCurrentSP := 0
    tfHeader := tfHeader
    lenOfCurrentTF := lenOfCurrentTF
    tfTrailer := tfTrailer }
  if tfMaxLen < lenOfCurrentTF then (false, e)
  else if lenOfCurrentTF < UplinkTFHeader.headerSize then (false, e)
  else (e.crc = tfTrailer.crc, e)

def checkoutNextSP (e : UplinkEnvelop) : Bool × UplinkEnvelop :=
  let index := if e.indexOfCurrentSP = 0 then UplinkTFHeader.headerSize
    else uint16 (e.indexOfCurrentSP + e.lenOfCurrentSP)
  let e := { e with indexOfCurrentSP := index }
  if e.lenOfCurrentTF < index + UplinkSPHeader.headerSize + UplinkTFTrailer.headerSize then
    (false, e)
  else
    let spHeader := UplinkSPHeader.deserialize (pointer e.buf index)
    let lenOfCurrentUserData :=
      uint16 (spHeader.length.toNat + 1 - (UplinkSPHeader.headerSize - 6))
    let lenOfCurrentSP := uint16 (lenOfCurrentUserData + UplinkSPHeader.headerSize)
    let e := { e with
      spHeader := spHeader
      lenOfCurrentUserData := lenOfCurrentUserData
      lenOfCurrentSP := lenOfCurrentSP
      indexOfCurrentUserData := uint16 (index + UplinkSPHeader.headerSize)
      userDataBuf := uint16 (index + UplinkSPHeader.headerSize) }
    if spHeader.applicationId = 0x7ff ∨ e.lenOfCurrentTF < index + lenOfCurrentSP then (false, e)
    else (true, e)

end Spacecraft

end UplinkEnvelop

structure Stamp where
  seconds : UInt32
  fraction : UInt16

/-- The envelope with the counters that all of them share. -/
structure DownlinkEnvelop extends CCSDSEnvelop where
  tfHeader : DownlinkTFHeader
  spHeader : DownlinkSPHeader
  tfTrailer : DownlinkTFTrailer
  downlinkApidSequenceCounter : Nat → UInt32
  downlinkVirtualChanFrameCnt : Nat → UInt32
  downlinkMasterFramecounter : UInt32

namespace DownlinkEnvelop

section Spacecraft

def initDefaultSPHeader (e : DownlinkEnvelop) : DownlinkEnvelop :=
  { e with spHeader := ⟨0, 0, 1, 0, 0x3, 0, 9, 0, 0, 0, 3, 25, 0, 0, 0⟩ }

def beginNewTF (e : DownlinkEnvelop) : DownlinkEnvelop :=
  { e with
    buf := write e.buf 0 (List.replicate tfMaxLen 0xff)
    lenOfCurrentSP := 0
    lenOfCurrentUserData := 0
    indexOfCurrentUserData := 0
    lenOfCurrentTF := downlinkTfLen
    indexOfCurrentSP := DownlinkTFHeader.headerSize }

def maxUserLen (e : DownlinkEnvelop) : Nat :=
  let maxUserLen : Int := downlinkTfLen -
    uint16 (e.indexOfCurrentSP + DownlinkSPHeader.headerSize) - DownlinkTFTrailer.headerSize
  uint16 (if maxUserLen < 0 then 0 else maxUserLen)

def beginNewSP (e : DownlinkEnvelop) : Nat × DownlinkEnvelop :=
  (maxUserLen e, { e with
    indexOfCurrentUserData := uint16 (e.indexOfCurrentSP + DownlinkSPHeader.headerSize)
    userDataBuf := uint16 (e.indexOfCurrentSP + DownlinkSPHeader.headerSize)
    lenOfCurrentSP := 0
    lenOfCurrentUserData := 0 })

def stamped (e : DownlinkEnvelop) (now : Stamp) : DownlinkSPHeader :=
  { e.spHeader with
    dataPackLen := .ofNat (uint16 (uint16 (DownlinkSPHeader.headerSize + e.lenOfCurrentUserData) - 6 - 1))
    timeStampSeconds := now.seconds
    timeStampFraction := now.fraction
    sourceSeqCnt :=
      (e.downlinkApidSequenceCounter (e.spHeader.applicationId &&& 2047).toNat).toUInt16 }

def commitSP (e : DownlinkEnvelop) (now : Stamp) : DownlinkEnvelop :=
  if e.lenOfCurrentUserData = 0 then { e with lenOfCurrentSP := 0 }
  else
    let lenOfCurrentSP := uint16 (DownlinkSPHeader.headerSize + e.lenOfCurrentUserData)
    let apid := (e.spHeader.applicationId &&& 2047).toNat
    { e with
      lenOfCurrentSP := lenOfCurrentSP
      spHeader := e.stamped now
      downlinkApidSequenceCounter := Function.update e.downlinkApidSequenceCounter apid
        (e.downlinkApidSequenceCounter apid + 1)
      buf := through e.buf e.indexOfCurrentSP (e.stamped now).serialize
      indexOfCurrentSP := uint16 (e.indexOfCurrentSP + lenOfCurrentSP) }

/-- The rest to the end of the frame is an idle packet. -/
def addIdleSP (e : DownlinkEnvelop) (now : Stamp) : DownlinkEnvelop :=
  let (restLen, e) := e.beginNewSP
  if restLen = 0 then e
  else
    let e := e.initDefaultSPHeader
    let e := { e with spHeader := { e.spHeader with applicationId := 0x7ff } }
    let e := { e with lenOfCurrentUserData := restLen }
    e.commitSP now

/-- The trailer is written twice, the second time with the checksum. -/
def commitClcwToTF (e : DownlinkEnvelop) : DownlinkEnvelop :=
  let trailer := e.lenOfCurrentTF - DownlinkTFTrailer.headerSize
  let e := { e with buf := through e.buf trailer e.tfTrailer.serialize }
  let tfTrailer := { e.tfTrailer with crc := e.crc }
  { e with tfTrailer := tfTrailer, buf := through e.buf trailer tfTrailer.serialize }

def commitTF (e : DownlinkEnvelop) (now : Stamp) : DownlinkEnvelop :=
  let e := e.addIdleSP now
  let channel := (e.tfHeader.virtualChanId &&& 7).toNat
  let tfHeader := { e.tfHeader with
    masterChanFrameCnt := e.downlinkMasterFramecounter.toUInt8
    virtualChanFrameCnt := (e.downlinkVirtualChanFrameCnt channel).toUInt8 }
  let e := { e with
    downlinkMasterFramecounter := e.downlinkMasterFramecounter + 1
    downlinkVirtualChanFrameCnt := Function.update e.downlinkVirtualChanFrameCnt channel
      (e.downlinkVirtualChanFrameCnt channel + 1)
    tfHeader := tfHeader
    buf := tfHeader.serialize e.buf }
  e.commitClcwToTF

end Spacecraft

section Ground

def checkoutTF (e : DownlinkEnvelop) : Bool × DownlinkEnvelop :=
  let tfTrailer := DownlinkTFTrailer.deserialize
    (pointer e.buf (downlinkTfLen - DownlinkTFTrailer.headerSize))
  let e := { e with
    indexOfCurrentSP := 0
    tfHeader := DownlinkTFHeader.deserialize e.buf
    lenOfCurrentTF := downlinkTfLen
    tfTrailer := tfTrailer }
  (e.crc = tfTrailer.crc, e)

def checkoutNextSP (e : DownlinkEnvelop) : Bool × DownlinkEnvelop :=
  let index := if e.indexOfCurrentSP = 0 then DownlinkTFHeader.headerSize
    else uint16 (e.indexOfCurrentSP + e.lenOfCurrentSP)
  let e := { e with indexOfCurrentSP := index }
  if e.lenOfCurrentTF < index + DownlinkSPHeader.headerSize + DownlinkTFTrailer.headerSize then
    (false, e)
  else
    let spHeader := DownlinkSPHeader.deserialize (pointer e.buf index)
    let lenOfCurrentSP := uint16 (spHeader.dataPackLen.toNat + 6 + 1)
    let e := { e with
      spHeader := spHeader
      lenOfCurrentSP := lenOfCurrentSP
      lenOfCurrentUserData := uint16 (lenOfCurrentSP - DownlinkSPHeader.headerSize)
      indexOfCurrentUserData := uint16 (index + DownlinkSPHeader.headerSize)
      userDataBuf := uint16 (index + DownlinkSPHeader.headerSize) }
    if spHeader.typeId ≠ 0 ∨ spHeader.applicationId = 0x7ff ∨
        e.lenOfCurrentTF < index + lenOfCurrentSP then (false, e)
    else (true, e)

end Ground

end DownlinkEnvelop

end Rodos.CcsdsEnvelop
