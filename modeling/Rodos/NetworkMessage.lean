import Rodos.ByteMemory

namespace Rodos

open ByteMemory

/-- The packed bytes of a message: the header, the user data and, past the
end of the buffer, whatever lies behind it in memory. -/
structure NetworkMessage where
  bytes : Nat → UInt8

namespace NetworkMessage

def headerSize : Nat := 36

def maxNetworkMessageLength : Nat := 1300

def putField (off n : Nat) (msg : NetworkMessage) (v : Nat) : NetworkMessage :=
  ⟨write msg.bytes off (toBigEndian n v)⟩

def getField (off n : Nat) (msg : NetworkMessage) : Nat := ofBigEndian (read msg.bytes off n)

def unsigned (n : Nat) (v : Int) : Nat := (v % 256 ^ n).toNat

def putReceiverNode (msg : NetworkMessage) (x : Int) : NetworkMessage :=
  putField 0 4 msg (unsigned 4 x)

def putReceiverNodesBitMap (msg : NetworkMessage) (x : Nat) : NetworkMessage := putField 4 4 msg x

def putMaxStepsToForward (msg : NetworkMessage) (x : Int) : NetworkMessage :=
  putField 8 2 msg (unsigned 2 x)

def putCheckSum (msg : NetworkMessage) (x : Nat) : NetworkMessage := putField 10 2 msg x

def putType (msg : NetworkMessage) (x : Nat) : NetworkMessage := putField 12 2 msg x

def putLen (msg : NetworkMessage) (x : Nat) : NetworkMessage := putField 14 2 msg x

def putSenderNode (msg : NetworkMessage) (x : Int) : NetworkMessage :=
  putField 16 4 msg (unsigned 4 x)

def putSentTime (msg : NetworkMessage) (x : Int) : NetworkMessage := putField 20 8 msg (unsigned 8 x)

def putSenderThreadId (msg : NetworkMessage) (x : Nat) : NetworkMessage := putField 28 4 msg x

def putTopicId (msg : NetworkMessage) (x : Nat) : NetworkMessage := putField 32 4 msg x

def getReceiverNode (msg : NetworkMessage) : Int := Int.bmod (getField 0 4 msg) (256 ^ 4)

def getReceiverNodesBitMap (msg : NetworkMessage) : Nat := getField 4 4 msg

def getMaxStepsToForward (msg : NetworkMessage) : Int := Int.bmod (getField 8 2 msg) (256 ^ 2)

def getCheckSum (msg : NetworkMessage) : Nat := getField 10 2 msg

def getType (msg : NetworkMessage) : Nat := getField 12 2 msg

def getLen (msg : NetworkMessage) : Nat := getField 14 2 msg

def getSenderNode (msg : NetworkMessage) : Int := Int.bmod (getField 16 4 msg) (256 ^ 4)

def getSentTime (msg : NetworkMessage) : Int := Int.bmod (getField 20 8 msg) (256 ^ 8)

def getSenderThreadId (msg : NetworkMessage) : Nat := getField 28 4 msg

def getTopicId (msg : NetworkMessage) : Nat := getField 32 4 msg

/-- The first `get_len()` bytes of `userDataC`. -/
def userData (msg : NetworkMessage) : List UInt8 := read msg.bytes headerSize (getLen msg)

def rotateRight (c : UInt16) : UInt16 := if c &&& 1 = 1 then (c >>> 1) ||| 0x8000 else c >>> 1

def checkSum (buf : List UInt8) : UInt16 :=
  buf.foldl (fun checksum b => rotateRight checksum + b.toUInt16) 0

def calculateCheckSum (msg : NetworkMessage) : UInt16 :=
  checkSum (read msg.bytes 12 (headerSize - 12 + getLen msg))

def isCheckSumOk (msg : NetworkMessage) : Prop := (calculateCheckSum msg).toNat = getCheckSum msg

def setCheckSum (msg : NetworkMessage) : NetworkMessage :=
  putCheckSum msg (calculateCheckSum msg).toNat

def numberOfBytesToSend (msg : NetworkMessage) : Nat := (headerSize + getLen msg) % 2 ^ 16

theorem getField_putField (off n : Nat) (msg : NetworkMessage) (v : Nat) :
    getField off n (putField off n msg v) = v % 256 ^ n :=
  ofBigEndian_read_write msg.bytes off n v

theorem read_putField (off n : Nat) (msg : NetworkMessage) (v start k : Nat)
    (h : start + k ≤ off ∨ off + n ≤ start) :
    read (putField off n msg v).bytes start k = read msg.bytes start k := by
  apply read_write_of_disjoint
  rwa [length_toBigEndian]

theorem getField_putField_of_disjoint (off n : Nat) (msg : NetworkMessage) (v start k : Nat)
    (h : start + k ≤ off ∨ off + n ≤ start) :
    getField start k (putField off n msg v) = getField start k msg := by
  unfold getField
  rw [read_putField off n msg v start k h]

/-- The checksum does not cover its own field. -/
theorem isCheckSumOk_setCheckSum (msg : NetworkMessage) : isCheckSumOk (setCheckSum msg) := by
  have hlen : getLen (setCheckSum msg) = getLen msg :=
    getField_putField_of_disjoint 10 2 msg _ 14 2 (by omega)
  have hsum : calculateCheckSum (setCheckSum msg) = calculateCheckSum msg := by
    rw [calculateCheckSum]
    rw [hlen]
    apply congrArg
    exact read_putField 10 2 msg _ 12 _ (by omega)
  have hlt : (calculateCheckSum msg).toNat < 256 ^ 2 := by
    have := (calculateCheckSum msg).toNat_lt
    omega
  rw [isCheckSumOk]
  rw [hsum]
  rw [getCheckSum, setCheckSum, putCheckSum]
  rw [getField_putField, Nat.mod_eq_of_lt hlt]

end NetworkMessage

end Rodos
