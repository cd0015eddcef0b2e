import Rodos.ByteMemory

namespace Rodos.S3pFraming

open ByteMemory

def bom : UInt16 := 0xFE02

def eom : UInt16 := 0xFE03

def stuff : UInt16 := 0xFE7E

def noData : UInt16 := 0xFEAA

def command : UInt16 := 0xFE00

def mark : UInt16 := 0x00FE

def msb (c : UInt16) : UInt8 := (c >>> 8).toUInt8

def lsb (c : UInt16) : UInt8 := (c &&& 0xFF).toUInt8

def putCommand (c : UInt16) : List UInt8 := if c = noData then [] else [msb c, lsb c]

def putDataByte (c : UInt8) : List UInt8 := if c.toUInt16 = mark then putCommand stuff else [c]

def sendMsg (s : List UInt8) : List UInt8 :=
  putCommand bom ++ s.flatMap putDataByte ++ putCommand eom

theorem toUInt16_eq_mark (c : UInt8) : c.toUInt16 = mark ↔ c = 0xFE := by
  revert c
  decide +kernel

/-- The loop of `getMsg` on the bytes to come. It waits for more of them, and
so has no result, when they end before the message does. A command other than
the three of the framing does nothing. -/
def getMsg (maxLen : Int) : List UInt8 → Int → (Nat → UInt8) →
    Option (Int × (Nat → UInt8) × List UInt8)
  | [], _, _ => none
  | c :: input, len, msg =>
    if c.toUInt16 ≠ mark ∧ 0 ≤ len ∧ len < maxLen then
      getMsg maxLen input (len + 1) (write msg len.toNat [c])
    else if c.toUInt16 = mark then
      match input with
      | [] => none
      | d :: input =>
        let dualByte := command ||| d.toUInt16
        if dualByte = bom then getMsg maxLen input 0 msg
        else if dualByte = eom then
          if 0 ≤ len then some (len, msg, input) else getMsg maxLen input len msg
        else if dualByte = stuff then
          if 0 ≤ len ∧ len < maxLen then
            getMsg maxLen input (len + 1) (write msg len.toNat [mark.toUInt8])
          else getMsg maxLen input len msg
        else getMsg maxLen input len msg
    else getMsg maxLen input len msg

section

variable {maxLen len : Int} {msg : Nat → UInt8}

theorem getMsg_mark (d : UInt8) (input : List UInt8) :
    getMsg maxLen (0xFE :: d :: input) len msg =
      if command ||| d.toUInt16 = bom then getMsg maxLen input 0 msg
      else if command ||| d.toUInt16 = eom then
        if 0 ≤ len then some (len, msg, input) else getMsg maxLen input len msg
      else if command ||| d.toUInt16 = stuff then
        if 0 ≤ len ∧ len < maxLen then
          getMsg maxLen input (len + 1) (write msg len.toNat [mark.toUInt8])
        else getMsg maxLen input len msg
      else getMsg maxLen input len msg := by
  have hmark : (0xFE : UInt8).toUInt16 = mark := by decide
  rw [getMsg.eq_def]
  simp only [ne_eq, hmark, not_true_eq_false, false_and, if_false, if_true]

theorem getMsg_plain {c : UInt8} (hc : c.toUInt16 ≠ mark) (input : List UInt8) (h : 0 ≤ len) :
    getMsg maxLen (c :: input) len msg =
      if len < maxLen then getMsg maxLen input (len + 1) (write msg len.toNat [c])
      else getMsg maxLen input len msg := by
  rw [getMsg.eq_def]
  simp only [ne_eq, hc, not_false_eq_true, h, true_and, if_false]

theorem getMsg_bom (input : List UInt8) :
    getMsg maxLen (putCommand bom ++ input) len msg = getMsg maxLen input 0 msg := by
  have hbytes : putCommand bom = [0xFE, 0x02] := by decide
  have hdual : command ||| (0x02 : UInt8).toUInt16 = bom := by decide
  rw [hbytes]
  refine (getMsg_mark 0x02 input).trans ?_
  rw [if_pos hdual]

theorem getMsg_eom (input : List UInt8) (h : 0 ≤ len) :
    getMsg maxLen (putCommand eom ++ input) len msg = some (len, msg, input) := by
  have hbytes : putCommand eom = [0xFE, 0x03] := by decide
  have hdual : command ||| (0x03 : UInt8).toUInt16 = eom := by decide
  rw [hbytes]
  refine (getMsg_mark 0x03 input).trans ?_
  rw [hdual, if_neg (by decide), if_pos rfl, if_pos h]

/-- One byte of the message is stored while there is room and dropped after
that, whether it had to be stuffed or not. -/
theorem getMsg_putDataByte (c : UInt8) (input : List UInt8) (h : 0 ≤ len) :
    getMsg maxLen (putDataByte c ++ input) len msg =
      if len < maxLen then getMsg maxLen input (len + 1) (write msg len.toNat [c])
      else getMsg maxLen input len msg := by
  rw [putDataByte]
  by_cases hc : c.toUInt16 = mark
  · have hbytes : putCommand stuff = [0xFE, 0x7E] := by decide
    have hdual : command ||| (0x7E : UInt8).toUInt16 = stuff := by decide
    have hbyte : c = mark.toUInt8 := by
      rw [← hc]
      simp
    rw [if_pos hc, hbytes]
    refine (getMsg_mark 0x7E input).trans ?_
    rw [hdual, if_neg (by decide), if_neg (by decide), if_pos rfl, ← hbyte]
    simp only [h, true_and]
  · rw [if_neg hc]
    exact getMsg_plain hc input h

theorem getMsg_data (data rest : List UInt8) (h : 0 ≤ len) (hlen : len ≤ maxLen) :
    getMsg maxLen (data.flatMap putDataByte ++ putCommand eom ++ rest) len msg =
      some (min (len + data.length) maxLen,
        write msg len.toNat (data.take (maxLen - len).toNat), rest) := by
  induction data generalizing len msg with
  | nil =>
    rw [List.flatMap_nil, List.nil_append, getMsg_eom rest h, List.take_nil, write_nil]
    simp [hlen]
  | cons c data ih =>
    rw [List.flatMap_cons, List.append_assoc, List.append_assoc, getMsg_putDataByte c _ h,
      ← List.append_assoc]
    by_cases hroom : len < maxLen
    · have htake : (maxLen - len).toNat = (maxLen - (len + 1)).toNat + 1 := by omega
      have hoff : (len + 1).toNat = len.toNat + 1 := by omega
      rw [if_pos hroom, ih (by omega) (by omega), htake, List.take_succ_cons, hoff, ← write_cons,
        List.length_cons]
      congr 2
      push_cast
      omega
    · have hfull : (maxLen - len).toNat = 0 := by omega
      rw [if_neg hroom, ih h hlen, hfull, List.take_zero, List.take_zero, List.length_cons]
      congr 2
      push_cast
      omega

end

theorem getMsg_sendMsg {maxLen : Int} (hmax : 0 ≤ maxLen) (data rest : List UInt8)
    (msg : Nat → UInt8) :
    getMsg maxLen (sendMsg data ++ rest) (-1) msg =
      some (min (data.length : Int) maxLen, write msg 0 (data.take maxLen.toNat), rest) := by
  rw [sendMsg]
  rw [List.append_assoc, List.append_assoc, getMsg_bom, ← List.append_assoc,
    getMsg_data data rest le_rfl hmax]
  simp

end Rodos.S3pFraming
