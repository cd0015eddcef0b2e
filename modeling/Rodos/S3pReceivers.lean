import Rodos.S3pFraming
import Rodos.Transducer

namespace Rodos.S3pReceivers

open ByteMemory S3pFraming Transducer

inductive Upcall
  | message (bytes : List UInt8)
  | executeCommand (code : UInt16)
  deriving DecidableEq

section Synchronous

/-- `getMsg` together with the commands that it executes. -/
def receiveMsg (maxLen : Int) : List UInt8 → Int → (Nat → UInt8) →
    List UInt16 × Option (Int × (Nat → UInt8) × List UInt8)
  | [], _, _ => ([], none)
  | c :: input, len, msg =>
    if c.toUInt16 ≠ mark ∧ 0 ≤ len ∧ len < maxLen then
      receiveMsg maxLen input (len + 1) (write msg len.toNat [c])
    else if c.toUInt16 = mark then
      match input with
      | [] => ([], none)
      | d :: input =>
        let dualByte := command ||| d.toUInt16
        if dualByte = bom then receiveMsg maxLen input 0 msg
        else if dualByte = eom then
          if 0 ≤ len then ([], some (len, msg, input)) else receiveMsg maxLen input len msg
        else if dualByte = stuff then
          if 0 ≤ len ∧ len < maxLen then
            receiveMsg maxLen input (len + 1) (write msg len.toNat [mark.toUInt8])
          else receiveMsg maxLen input len msg
        else
          let (commands, received) := receiveMsg maxLen input len msg
          (dualByte :: commands, received)
    else receiveMsg maxLen input len msg

theorem receiveMsg_snd (maxLen : Int) (input : List UInt8) (len : Int) (msg : Nat → UInt8) :
    (receiveMsg maxLen input len msg).2 = getMsg maxLen input len msg := by
  fun_induction receiveMsg maxLen input len msg <;> unfold getMsg <;> simp_all +zetaDelta

theorem length_of_getMsg {maxLen : Int} {input : List UInt8} {len : Int} {msg : Nat → UInt8}
    {r : Int × (Nat → UInt8) × List UInt8} (h : getMsg maxLen input len msg = some r) :
    r.2.2.length < input.length := by
  fun_induction getMsg maxLen input len msg with
  | case1 | case3 => cases h
  | case5 =>
    cases h
    simp
  | _ => grind

/-- The calls of `getMsg` on what arrives, each with a buffer of its own. The
last call does not return. -/
def getMsgs (maxLen : Int) (buffers : Nat → Nat → UInt8) (input : List UInt8) : List Upcall :=
  match h : receiveMsg maxLen input (-1) (buffers 0) with
  | (commands, none) => commands.map .executeCommand
  | (commands, some (len, msg, rest)) =>
    commands.map .executeCommand ++
      .message (read msg 0 len.toNat) :: getMsgs maxLen (fun k => buffers (k + 1)) rest
termination_by input.length
decreasing_by
  have hsnd := receiveMsg_snd maxLen input (-1) (buffers 0)
  rw [h] at hsnd
  exact length_of_getMsg hsnd.symm

end Synchronous

section Asynchronous

structure S3pReceiverAsynchronous where
  len : Int
  msg : Option (Nat → UInt8)
  maxLen : Int
  dualByte : UInt16

def started : S3pReceiverAsynchronous := ⟨-1, none, 1300, 0⟩

namespace S3pReceiverAsynchronous

def put (r : S3pReceiverAsynchronous) (c : UInt8) : S3pReceiverAsynchronous :=
  match r.msg with
  | some msg =>
    if 0 ≤ r.len ∧ r.len < r.maxLen then
      { r with msg := some (write msg r.len.toNat [c]), len := r.len + 1 }
    else r
  | none => r

/-- The message that `endOfMessage` is told the length of lies in the buffer. -/
def finish (r : S3pReceiverAsynchronous) : S3pReceiverAsynchronous × List Upcall :=
  if 0 ≤ r.len then
    ({ r with msg := none, len := -1 },
      (r.msg.map (fun msg => Upcall.message (read msg 0 r.len.toNat))).toList)
  else (r, [])

def dispatch (r : S3pReceiverAsynchronous) (dualByte : UInt16) (inputByte : UInt8) :
    S3pReceiverAsynchronous × List Upcall :=
  if dualByte = 0 then (r.put inputByte, [])
  else if dualByte = stuff then (r.put mark.toUInt8, [])
  else if dualByte = eom then r.finish
  else if dualByte = bom then (if r.msg.isSome then { r with len := 0 } else r, [])
  else (r, [.executeCommand dualByte])

/-- A request gives a buffer, or none, and a new limit. -/
def request (requestBufferToWrite : Int → Option (Nat → UInt8) × Int)
    (r : S3pReceiverAsynchronous) : S3pReceiverAsynchronous :=
  match r.msg with
  | some _ => r
  | none => { r with
      msg := (requestBufferToWrite r.maxLen).1
      maxLen := (requestBufferToWrite r.maxLen).2 }

def putByte (requestBufferToWrite : Int → Option (Nat → UInt8) × Int)
    (r : S3pReceiverAsynchronous) (inputByte : UInt8) : S3pReceiverAsynchronous × List Upcall :=
  let r := r.request requestBufferToWrite
  let dualByte := (r.dualByte <<< 8) ||| inputByte.toUInt16
  if inputByte.toUInt16 = mark then ({ r with dualByte := dualByte }, [])
  else
    let (r, calls) := r.dispatch (if msb dualByte = 0 then 0 else dualByte) inputByte
    ({ r with dualByte := 0 }, calls)

/-- Each byte comes with the buffer that is given if one is requested. -/
def putNext (maxLen : Int) (r : S3pReceiverAsynchronous) (next : UInt8 × (Nat → UInt8)) :
    S3pReceiverAsynchronous × List Upcall :=
  r.putByte (fun _ => (some next.2, maxLen)) next.1

end S3pReceiverAsynchronous

end Asynchronous

section Decoder

/-- The part of a message that has arrived, if one has begun, and whether the
last byte was a mark. -/
structure Decoder where
  marked : Bool
  message : Option (List UInt8)
  deriving DecidableEq

def idle : Decoder := ⟨false, none⟩

variable (maxLen : Int)

def store (c : UInt8) (message : Option (List UInt8)) : Option (List UInt8) :=
  message.map (fun m => if (m.length : Int) < maxLen then m ++ [c] else m)

def perform (message : Option (List UInt8)) (d : UInt8) : Option (List UInt8) × List Upcall :=
  if d = 0x02 then (some [], [])
  else if d = 0x03 then (none, (message.map Upcall.message).toList)
  else if d = 0x7E then (store maxLen 0xFE message, [])
  else (message, [.executeCommand (command ||| d.toUInt16)])

/-- The receiver as a machine that is given one byte after the other. A mark
after a mark is a mark again or the code of a command. -/
def decode (again : Bool) (s : Decoder) (c : UInt8) : Decoder × List Upcall :=
  if s.marked then
    if again ∧ c = 0xFE then (s, [])
    else (⟨false, (perform maxLen s.message c).1⟩, (perform maxLen s.message c).2)
  else if c = 0xFE then ({ s with marked := true }, [])
  else ({ s with message := store maxLen c s.message }, [])

def Holds (message : Option (List UInt8)) (len : Int) (msg : Nat → UInt8) : Prop :=
  match message with
  | none => len = -1
  | some m => len = m.length ∧ read msg 0 m.length = m

end Decoder

theorem command_eq (d : UInt8) : (command ||| d.toUInt16 = bom ↔ d = 0x02) ∧
    (command ||| d.toUInt16 = eom ↔ d = 0x03) ∧ (command ||| d.toUInt16 = stuff ↔ d = 0x7E) := by
  revert d
  decide +kernel

theorem Holds.nonneg_iff {message : Option (List UInt8)} {len : Int} {msg : Nat → UInt8}
    (h : Holds message len msg) : 0 ≤ len ↔ message.isSome := by
  cases message with
  | none =>
    obtain rfl : len = -1 := h
    decide
  | some m =>
    obtain ⟨rfl, -⟩ := h
    simp

theorem Holds.store (maxLen : Int) {message : Option (List UInt8)} {len : Int} {msg : Nat → UInt8}
    (h : Holds message len msg) (c : UInt8) :
    if 0 ≤ len ∧ len < maxLen then
      Holds (store maxLen c message) (len + 1) (write msg len.toNat [c])
    else Holds (S3pReceivers.store maxLen c message) len msg := by
  cases message with
  | none =>
    obtain rfl : len = -1 := h
    rw [if_neg (by omega)]
    rfl
  | some m =>
    obtain ⟨rfl, hm⟩ := h
    simp only [S3pReceivers.store, Option.map_some, Int.natCast_nonneg, true_and, Int.toNat_natCast]
    split
    · have hfront : read (write msg m.length [c]) 0 m.length = m := by
        rw [read_write_of_disjoint _ _ _ _ _ (.inl (by omega)), hm]
      have hback : read (write msg m.length [c]) m.length 1 = [c] := read_write msg m.length [c]
      refine ⟨by simp, ?_⟩
      rw [List.length_append, List.length_singleton, read_add, hfront, Nat.zero_add, hback]
    · exact ⟨rfl, hm⟩

section

variable (maxLen : Int) (again : Bool) (message : Option (List UInt8))

@[simp] theorem decode_mark : decode maxLen again ⟨false, message⟩ 0xFE = (⟨true, message⟩, []) :=
  rfl

theorem decode_plain {c : UInt8} (hc : c ≠ 0xFE) :
    decode maxLen again ⟨false, message⟩ c = (⟨false, store maxLen c message⟩, []) := by
  simp [decode, hc]

theorem decode_code {d : UInt8} (hd : again = true → d ≠ 0xFE) :
    decode maxLen again ⟨true, message⟩ d =
      (⟨false, (perform maxLen message d).1⟩, (perform maxLen message d).2) := by
  cases again with
  | false => rfl
  | true => simp [decode, hd rfl]

theorem output_command {d : UInt8} (hd : again = true → d ≠ 0xFE) (input : List UInt8) :
    output (decode maxLen again) ⟨false, message⟩ (0xFE :: d :: input) =
      (perform maxLen message d).2 ++
        output (decode maxLen again) ⟨false, (perform maxLen message d).1⟩ input := by
  rw [output_cons, output_cons, decode_mark, decode_code maxLen again message hd]
  rfl

end

section Synchronous

variable (maxLen : Int)

def upcalls : List UInt16 × Option (Int × (Nat → UInt8) × List UInt8) → List Upcall
  | (commands, none) => commands.map .executeCommand
  | (commands, some (len, msg, rest)) => commands.map .executeCommand ++
      .message (read msg 0 len.toNat) :: output (decode maxLen false) idle rest

theorem upcalls_cons (code : UInt16) (commands : List UInt16)
    (received : Option (Int × (Nat → UInt8) × List UInt8)) :
    upcalls maxLen (code :: commands, received) =
      .executeCommand code :: upcalls maxLen (commands, received) := by
  cases received <;> rfl

theorem output_receiveMsg (input : List UInt8) (len : Int) (msg : Nat → UInt8)
    {message : Option (List UInt8)} (h : Holds message len msg) :
    output (decode maxLen false) ⟨false, message⟩ input =
      upcalls maxLen (receiveMsg maxLen input len msg) := by
  fun_induction receiveMsg maxLen input len msg generalizing message with
  | case1 => rfl
  | case2 c input len msg hc ih =>
    obtain ⟨hplain, hroom⟩ := hc
    rw [ne_eq, toUInt16_eq_mark] at hplain
    have hstore := h.store maxLen c
    rw [if_pos hroom] at hstore
    rw [output_cons, decode_plain maxLen false message hplain]
    exact ih hstore
  | case3 c len msg hc hmark =>
    obtain rfl := (toUInt16_eq_mark c).mp hmark
    rfl
  | case4 c len msg hc hmark d input dualByte hcode =>
    rename_i ih
    obtain rfl := (toUInt16_eq_mark c).mp hmark
    obtain rfl := (command_eq d).1.mp hcode
    rw [output_command maxLen false message (by simp)]
    exact ih ⟨rfl, rfl⟩
  | case5 c len msg hc hmark d input dualByte hbom hcode =>
    rename_i hopen
    obtain rfl := (toUInt16_eq_mark c).mp hmark
    obtain rfl := (command_eq d).2.1.mp hcode
    rw [output_command maxLen false message (by simp)]
    obtain ⟨m, rfl⟩ := Option.isSome_iff_exists.mp (h.nonneg_iff.mp hopen)
    obtain ⟨rfl, hm⟩ := h
    simp [upcalls, perform, hm, idle]
  | case6 c len msg hc hmark d input dualByte hbom hcode hopen =>
    rename_i ih
    obtain rfl := (toUInt16_eq_mark c).mp hmark
    obtain rfl := (command_eq d).2.1.mp hcode
    rw [output_command maxLen false message (by simp)]
    obtain rfl : message = none := by
      rw [h.nonneg_iff] at hopen
      simpa using hopen
    exact ih h
  | case7 c len msg hc hmark d input dualByte hbom heom hcode hroom =>
    rename_i ih
    obtain rfl := (toUInt16_eq_mark c).mp hmark
    obtain rfl := (command_eq d).2.2.mp hcode
    rw [output_command maxLen false message (by simp)]
    have hstore := h.store maxLen 0xFE
    rw [if_pos hroom] at hstore
    exact ih hstore
  | case8 c len msg hc hmark d input dualByte hbom heom hcode hroom =>
    rename_i ih
    obtain rfl := (toUInt16_eq_mark c).mp hmark
    obtain rfl := (command_eq d).2.2.mp hcode
    rw [output_command maxLen false message (by simp)]
    have hstore := h.store maxLen 0xFE
    rw [if_neg hroom] at hstore
    exact ih hstore
  | case9 c len msg hc hmark d input dualByte hbom heom hstuff commands received heq =>
    rename_i ih
    obtain rfl := (toUInt16_eq_mark c).mp hmark
    obtain ⟨hd1, hd2, hd3⟩ := command_eq d
    rw [output_command maxLen false message (by simp), upcalls_cons, ← heq, ← ih h]
    simp [perform, ← hd1, ← hd2, ← hd3, dualByte, hbom, heom, hstuff]
  | case10 c input len msg hc hplain ih =>
    rw [toUInt16_eq_mark] at hplain
    have hstore := h.store maxLen c
    rw [if_neg (fun hroom => hc ⟨(toUInt16_eq_mark c).not.mpr hplain, hroom⟩)] at hstore
    rw [output_cons, decode_plain maxLen false message hplain]
    exact ih hstore

theorem getMsgs_eq (buffers : Nat → Nat → UInt8) (input : List UInt8) :
    getMsgs maxLen buffers input = output (decode maxLen false) idle input := by
  induction hn : input.length using Nat.strongRecOn generalizing buffers input with
  | ind n ih =>
    have hout : output (decode maxLen false) idle input =
        upcalls maxLen (receiveMsg maxLen input (-1) (buffers 0)) :=
      output_receiveMsg maxLen input (-1) (buffers 0) rfl
    have hsnd := receiveMsg_snd maxLen input (-1) (buffers 0)
    rw [getMsgs]
    split
    · rename_i commands hget
      rw [hout, hget]
      rfl
    · rename_i commands len msg rest hget
      rw [hget] at hsnd
      have hlt : rest.length < input.length := length_of_getMsg hsnd.symm
      rw [hout, hget, ih rest.length (hn ▸ hlt) _ rest rfl]
      rfl

end Synchronous

section Asynchronous

open S3pReceiverAsynchronous

def Registers (marked : Bool) (dualByte : UInt16) : Prop :=
  if marked then dualByte = 0x00FE ∨ dualByte = 0xFEFE else dualByte = 0

structure Matches (maxLen : Int) (r : S3pReceiverAsynchronous) (s : Decoder) : Prop where
  registers : Registers s.marked r.dualByte
  limit : r.msg.isSome → r.maxLen = maxLen
  holds : match r.msg with
    | some msg => Holds s.message r.len msg
    | none => s.message = none ∧ r.len = -1

theorem registers_mark {marked : Bool} {dualByte : UInt16} (h : Registers marked dualByte) :
    Registers true ((dualByte <<< 8) ||| 0x00FE) := by
  cases marked with
  | false =>
    obtain rfl : dualByte = 0 := h
    exact .inl (by decide)
  | true =>
    obtain rfl | rfl := h
    · exact .inr (by decide)
    · exact .inr (by decide)

/-- What the register is taken for when the byte after it is no mark. -/
theorem registers_other {marked : Bool} {dualByte : UInt16} (h : Registers marked dualByte)
    (c : UInt8) :
    (if msb ((dualByte <<< 8) ||| c.toUInt16) = 0 then (0 : UInt16)
      else (dualByte <<< 8) ||| c.toUInt16) =
      if marked then command ||| c.toUInt16 else (0 : UInt16) := by
  cases marked with
  | false =>
    obtain rfl : dualByte = 0 := h
    revert c
    decide +kernel
  | true =>
    obtain rfl | rfl := h
    all_goals
      revert c
      decide +kernel

theorem command_ne_zero (d : UInt8) : command ||| d.toUInt16 ≠ 0 := by
  revert d
  decide +kernel

structure Ready (maxLen : Int) (r : S3pReceiverAsynchronous) (message : Option (List UInt8)) :
    Prop where
  limit : r.maxLen = maxLen
  holds : ∃ msg, r.msg = some msg ∧ Holds message r.len msg

theorem Matches.request {maxLen : Int} {r : S3pReceiverAsynchronous} {s : Decoder}
    (h : Matches maxLen r s) (buffer : Nat → UInt8) :
    Ready maxLen (r.request (fun _ => (some buffer, maxLen))) s.message ∧
      (r.request (fun _ => (some buffer, maxLen))).dualByte = r.dualByte := by
  have hholds := h.holds
  rw [S3pReceiverAsynchronous.request]
  cases hmsg : r.msg with
  | some msg =>
    rw [hmsg] at hholds
    exact ⟨⟨h.limit (by simp [hmsg]), msg, hmsg, hholds⟩, rfl⟩
  | none =>
    rw [hmsg] at hholds
    refine ⟨⟨rfl, buffer, rfl, ?_⟩, rfl⟩
    rw [hholds.1]
    exact hholds.2

theorem Ready.put {maxLen : Int} {r : S3pReceiverAsynchronous} {message : Option (List UInt8)}
    (h : Ready maxLen r message) (c : UInt8) : Ready maxLen (r.put c) (store maxLen c message) := by
  obtain ⟨msg, hmsg, hholds⟩ := h.holds
  have hstore := hholds.store maxLen c
  rw [S3pReceiverAsynchronous.put]
  rw [hmsg, h.limit]
  by_cases hroom : 0 ≤ r.len ∧ r.len < maxLen
  · rw [if_pos hroom] at hstore
    simp only [if_pos hroom]
    exact ⟨rfl, _, rfl, hstore⟩
  · rw [if_neg hroom] at hstore
    simp only [if_neg hroom]
    exact ⟨h.limit, msg, hmsg, hstore⟩

theorem Ready.matches {maxLen : Int} {r : S3pReceiverAsynchronous} {message : Option (List UInt8)}
    (h : Ready maxLen r message) {marked : Bool} {dualByte : UInt16}
    (hreg : Registers marked dualByte) :
    Matches maxLen { r with dualByte := dualByte } ⟨marked, message⟩ := by
  obtain ⟨msg, hmsg, hholds⟩ := h.holds
  refine ⟨hreg, fun _ => h.limit, ?_⟩
  rw [hmsg]
  exact hholds

theorem Ready.finish {maxLen : Int} {r : S3pReceiverAsynchronous}
    {message : Option (List UInt8)} (h : Ready maxLen r message) :
    Matches maxLen { r.finish.1 with dualByte := 0 } ⟨false, none⟩ ∧
      r.finish.2 = (message.map Upcall.message).toList := by
  obtain ⟨msg, hmsg, hholds⟩ := h.holds
  rw [S3pReceiverAsynchronous.finish]
  have hopen := hholds.nonneg_iff
  cases message with
  | none =>
    rw [if_neg (by simpa using hopen)]
    exact ⟨h.matches rfl, rfl⟩
  | some m =>
    obtain ⟨hlen, hm⟩ := hholds
    rw [if_pos (by simp [hlen])]
    refine ⟨⟨rfl, by simp, rfl, rfl⟩, ?_⟩
    simp [hmsg, hlen, hm]

theorem Ready.dispatch {maxLen : Int} {r : S3pReceiverAsynchronous}
    {message : Option (List UInt8)} (h : Ready maxLen r message) (d : UInt8) :
    Matches maxLen { (r.dispatch (command ||| d.toUInt16) d).1 with dualByte := 0 }
        ⟨false, (perform maxLen message d).1⟩ ∧
      (r.dispatch (command ||| d.toUInt16) d).2 = (perform maxLen message d).2 := by
  obtain ⟨hbom, heom, hstuff⟩ := command_eq d
  obtain ⟨msg, hmsg, hholds⟩ := h.holds
  rw [S3pReceiverAsynchronous.dispatch, perform]
  rw [if_neg (command_ne_zero d)]
  simp only [hbom, heom, hstuff]
  by_cases h02 : d = 0x02
  · subst h02
    have hbegin : Ready maxLen { r with len := 0 } (some []) := ⟨h.limit, msg, hmsg, rfl, rfl⟩
    rw [if_neg (by decide), if_neg (by decide), if_pos rfl, if_pos rfl, if_pos (by simp [hmsg])]
    exact ⟨hbegin.matches rfl, rfl⟩
  by_cases h03 : d = 0x03
  · subst h03
    rw [if_neg (by decide), if_pos rfl, if_neg (by decide), if_pos rfl]
    exact h.finish
  by_cases h7E : d = 0x7E
  · subst h7E
    exact ⟨(h.put 0xFE).matches rfl, rfl⟩
  · rw [if_neg h7E, if_neg h03, if_neg h02, if_neg h02, if_neg h03, if_neg h7E]
    exact ⟨h.matches rfl, rfl⟩

theorem Matches.putNext {maxLen : Int} {r : S3pReceiverAsynchronous} {s : Decoder}
    (h : Matches maxLen r s) (next : UInt8 × (Nat → UInt8)) :
    Matches maxLen (r.putNext maxLen next).1 (decode maxLen true s next.1).1 ∧
      (r.putNext maxLen next).2 = (decode maxLen true s next.1).2 := by
  obtain ⟨c, buffer⟩ := next
  obtain ⟨hready, hreg⟩ := h.request buffer
  have hregisters := h.registers
  rw [S3pReceiverAsynchronous.putNext, putByte]
  simp only [hreg, registers_other hregisters, toUInt16_eq_mark]
  by_cases hc : c = 0xFE
  · subst hc
    rw [if_pos rfl]
    have hmark := hready.matches (registers_mark hregisters)
    obtain ⟨marked, message⟩ := s
    cases marked with
    | false => exact ⟨hmark, rfl⟩
    | true => exact ⟨hmark, rfl⟩
  · rw [if_neg hc]
    obtain ⟨marked, message⟩ := s
    cases marked with
    | false =>
      rw [decode_plain maxLen true message hc]
      exact ⟨(hready.put c).matches rfl, rfl⟩
    | true =>
      rw [decode_code maxLen true message (fun _ => hc)]
      exact hready.dispatch c

theorem putNext_eq (maxLen : Int) (input : List (UInt8 × (Nat → UInt8))) :
    output (putNext maxLen) started input =
      output (decode maxLen true) idle (input.map Prod.fst) := by
  have hstart : Matches maxLen started idle := ⟨rfl, by simp [started], rfl, rfl⟩
  generalize started = r at hstart
  generalize idle = s at hstart
  induction input generalizing r s with
  | nil => rfl
  | cons next input ih =>
    obtain ⟨hnext, hout⟩ := hstart.putNext next
    rw [List.map_cons, output_cons, output_cons, hout, ih _ _ hnext]

end Asynchronous

end Rodos.S3pReceivers
