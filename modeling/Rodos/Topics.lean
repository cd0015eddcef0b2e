import Rodos.HeaderCodec

namespace Rodos

open ByteMemory NetworkMessage

def crcBit (state : UInt8 × UInt16) : UInt8 × UInt16 :=
  (state.1 <<< 1,
    if (state.1 &&& (0x80 : UInt8)) ^^^ ((state.2 &&& (0x8000 : UInt16)) >>> 8).toUInt8 ≠ 0
    then (state.2 <<< 1) ^^^ 0x1021 else state.2 <<< 1)

def computeCrc (buf : List UInt8) (initialValue : UInt16) : UInt16 :=
  buf.foldl (fun currentValue curChar => (crcBit^[8] (curChar, currentValue)).2) initialValue

def printable (a : UInt8) : UInt8 := if a ≤ 0x20 ∨ 0x7e ≤ a then a % (0x7e - 0x20) + 0x20 else a

def hash (str : String) : UInt16 :=
  let crc := computeCrc (str.toList.map (fun c => UInt8.ofNat c.toNat)) 0xffff
  ((printable (crc >>> 8).toUInt8).toUInt16 <<< 8) ||| (printable crc.toUInt8).toUInt16

def firstUserTopicId : Nat := 1000

/-- The id of a topic that is created with the id -1. -/
def topicIdOf (name : String) : Nat :=
  let topicId := (hash name).toNat
  if topicId < firstUserTopicId then topicId + firstUserTopicId else topicId

example : topicIdOf "udp async topic" = 22582 := by decide +kernel

structure Subscriber where
  object : Nat
  isEnabled : Bool

/-- The filter, if there is one, is an object of the application too. A topic
transports a type, which has at least one byte. -/
structure Topic where
  topicId : Nat
  msgLen : Nat
  msgLen_pos : 0 < msgLen
  topicFilter : Option Nat
  mySubscribers : List Subscriber

/-- What the objects of the application make of the bytes handed to them, for
each object, topic id and message. -/
structure Application where
  prolog : Nat → Nat → NetMsgInfo → List UInt8 → List UInt8
  epilog : Nat → Nat → NetMsgInfo → List UInt8 → List UInt8
  put : Nat → Nat → NetMsgInfo → List UInt8 → List UInt8

/-- A call that is handed `len` bytes and may change them in place. -/
def callInPlace (f : List UInt8 → List UInt8) (data len : Nat) (m : Nat → UInt8) : Nat → UInt8 :=
  write m data ((f (read m data len)).take len)

/-- The memory and what the subscribers have been handed. -/
structure Delivery where
  bytes : Nat → UInt8
  handed : List (List UInt8)

namespace Topic

variable (app : Application) (t : Topic) (netMsgInfo : NetMsgInfo) (data lenToSend : Nat)

def callFilter (f : Nat → Nat → NetMsgInfo → List UInt8 → List UInt8) (m : Nat → UInt8) :
    Nat → UInt8 :=
  match t.topicFilter with
  | some filter => callInPlace (f filter t.topicId netMsgInfo) data lenToSend m
  | none => m

def callSubscribers : List Subscriber → (Nat → UInt8) → Delivery
  | [], m => ⟨m, []⟩
  | s :: subscribers, m =>
    if s.isEnabled then
      ⟨(callSubscribers subscribers
          (callInPlace (app.put s.object t.topicId netMsgInfo) data lenToSend m)).bytes,
        read m data lenToSend :: (callSubscribers subscribers
          (callInPlace (app.put s.object t.topicId netMsgInfo) data lenToSend m)).handed⟩
    else callSubscribers subscribers m

/-- Without sending to the network. -/
def publishMsgPart (m : Nat → UInt8) : Delivery :=
  ⟨t.callFilter netMsgInfo data lenToSend app.epilog
      (t.callSubscribers app netMsgInfo data lenToSend t.mySubscribers
        (t.callFilter netMsgInfo data lenToSend app.prolog m)).bytes,
    (t.callSubscribers app netMsgInfo data lenToSend t.mySubscribers
      (t.callFilter netMsgInfo data lenToSend app.prolog m)).handed⟩

def publish (m : Nat → UInt8) : Delivery := t.publishMsgPart app netMsgInfo data t.msgLen m

end Topic

theorem callInPlace_outside (f : List UInt8 → List UInt8) (data len : Nat) (m : Nat → UInt8)
    {i : Nat} (h : i < data ∨ data + len ≤ i) : callInPlace f data len m i = m i := by
  apply write_outside
  rw [List.length_take]
  omega

namespace Topic

variable (app : Application) (t : Topic) (netMsgInfo : NetMsgInfo) (data lenToSend : Nat)

theorem callFilter_outside (f : Nat → Nat → NetMsgInfo → List UInt8 → List UInt8)
    (m : Nat → UInt8) {i : Nat} (h : i < data ∨ data + lenToSend ≤ i) :
    t.callFilter netMsgInfo data lenToSend f m i = m i := by
  rw [callFilter]
  cases t.topicFilter with
  | none => rfl
  | some filter => exact callInPlace_outside _ data lenToSend m h

theorem callSubscribers_outside (subscribers : List Subscriber) (m : Nat → UInt8) {i : Nat}
    (h : i < data ∨ data + lenToSend ≤ i) :
    (t.callSubscribers app netMsgInfo data lenToSend subscribers m).bytes i = m i := by
  induction subscribers generalizing m with
  | nil => rfl
  | cons s subscribers ih =>
    rw [callSubscribers]
    split
    · exact (ih _).trans (callInPlace_outside _ data lenToSend m h)
    · exact ih m

theorem publish_outside (m : Nat → UInt8) {i : Nat} (h : i < data ∨ data + t.msgLen ≤ i) :
    (t.publish app netMsgInfo data m).bytes i = m i := by
  have hprolog := t.callFilter_outside netMsgInfo data t.msgLen app.prolog m h
  have hput := t.callSubscribers_outside app netMsgInfo data t.msgLen t.mySubscribers
    (t.callFilter netMsgInfo data t.msgLen app.prolog m) h
  exact (t.callFilter_outside netMsgInfo data t.msgLen app.epilog _ h).trans (hput.trans hprolog)

end Topic

end Rodos
