import Mathlib

namespace Rodos.Crc

/-- The entry that the constructor of `CRC` puts at a place of the table. -/
def lookUpTable (i : Nat) : UInt16 :=
  let tmp : UInt16 := 0
  let tmp := if i &&& 1 ≠ 0 then tmp ^^^ 0x1021 else tmp
  let tmp := if i &&& 2 ≠ 0 then tmp ^^^ 0x2042 else tmp
  let tmp := if i &&& 4 ≠ 0 then tmp ^^^ 0x4084 else tmp
  let tmp := if i &&& 8 ≠ 0 then tmp ^^^ 0x8108 else tmp
  let tmp := if i &&& 16 ≠ 0 then tmp ^^^ 0x1231 else tmp
  let tmp := if i &&& 32 ≠ 0 then tmp ^^^ 0x2462 else tmp
  let tmp := if i &&& 64 ≠ 0 then tmp ^^^ 0x48C4 else tmp
  if i &&& 128 ≠ 0 then tmp ^^^ 0x9188 else tmp

/-- One round of the loop of `CRC::computeCRC`. -/
def crcByte (currentValue : UInt16) (data : UInt8) : UInt16 :=
  ((currentValue <<< 8) &&& (0xFF00 : UInt16)) ^^^
    lookUpTable (((currentValue >>> 8) ^^^ data.toUInt16) &&& (0x00FF : UInt16)).toNat

def computeCRC (buf : List UInt8) (initialValue : UInt16) : UInt16 :=
  buf.foldl crcByte initialValue

end Rodos.Crc
