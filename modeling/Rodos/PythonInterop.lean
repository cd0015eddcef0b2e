import Rodos.PythonMiddleware
import Rodos.PythonUartLink
import Rodos.RemoteDelivery

namespace Rodos.PythonInterop

open ByteMemory NetworkMessage DuplicateSuppression S3pFraming
open UartLink (Transmitter sendNetworkMsg putByte retry maxUartMessageLength)
open PythonMiddleware (Message Carries received forwardHandler)
open LocalDelivery (topicsOf)
open CanDelivery (Content contentOf)
open RemoteDelivery (Passive audience publication contentOf_prepareNetworkMessage)

def toS3p (data : List UInt8) : List UInt8 :=
  [0xFE, 0x02] ++ data.flatMap (fun b => if b = 0xFE then [0xFE, 0x7E] else [b]) ++ [0xFE, 0x03]

structure Topic where
  topicId : Int
  handlers : List Nat

def Topic.publishFromGateway (t : Topic) (data : List UInt8) : List (Nat × List UInt8) :=
  t.handlers.map (fun h => (h, data))

/-- Which handlers are called with what. Nothing happens where Python raises:
`pollMessage` goes on with the next message. -/
def analyseAndDistributeMessagesFromNetwork (nodeNumber : Int) (localTopics : List Topic)
    (data : List UInt8) : List (Nat × List UInt8) :=
  match PythonMiddleware.receive data with
  | none => []
  | some receivedMsg =>
    if receivedMsg.fields.senderNode = nodeNumber ∨ receivedMsg.fields.senderNode = 41716 then []
    else if data.length < 36 then []
    else localTopics.flatMap (fun top =>
      if top.topicId = receivedMsg.fields.topicid then
        top.publishFromGateway receivedMsg.userDataC
      else [])

structure Call where
  topicId : Int
  data : List UInt8
  now : Int

/-- What the Python side writes to the UART, which is nothing where it raises. -/
def Call.written (nodeNumber : Int) (c : Call) : List UInt8 :=
  ((forwardHandler nodeNumber c.now c.data c.topicId).map toS3p).getD []

/-- The thread of the gateway: its node, `networkInMessage` and the bytes that
have come in over the UART. -/
structure GatewayThread where
  node : Node
  networkInMessage : NetworkMessage
  input : List UInt8

instance (networkInMessage : NetworkMessage) (realMsgSize : Int) :
    Decidable (acceptsSize networkInMessage realMsgSize) :=
  inferInstanceAs (Decidable (realMsgSize < 0 ∨
    (headerSize : Int) ≤ realMsgSize ∧ realMsgSize = numberOfBytesToSend networkInMessage))

section

variable (order : ByteOrder) (app : Application) (i : Nat)

/-- What `Gateway::run` does with a message that the link reports. -/
def GatewayThread.distribute (thread : GatewayThread) (complete : Bool)
    (networkInMessage : NetworkMessage) (realMsgSize : Int) (input : List UInt8) :
    Distribution × GatewayThread :=
  if complete ∧ acceptsSize networkInMessage realMsgSize then
    let received := (thread.node.analyseAndDistributeMessagesFromNetwork order app i
      networkInMessage.bytes).value
    (received.distribution, ⟨received.node, ⟨received.distribution.bytes⟩, input⟩)
  else (⟨networkInMessage.bytes, [], []⟩, ⟨thread.node, networkInMessage, input⟩)

/-- A pass through the loop of `Gateway::run`. There is none while no message
is complete. -/
def GatewayThread.pass (thread : GatewayThread) : Option (Distribution × GatewayThread) :=
  (UartLink.getNetworkMsg thread.networkInMessage thread.input).map
    (fun (complete, networkInMessage, realMsgSize, input) =>
      thread.distribute order app i complete networkInMessage realMsgSize input)

def GatewayThread.run (thread : GatewayThread) :
    Nat → Option (List Distribution × GatewayThread)
  | 0 => some ([], thread)
  | n + 1 => (thread.pass order app i).bind (fun (d, thread) =>
      (thread.run n).map (fun (ds, thread) => (d :: ds, thread)))

end

/-- The messages a gateway sends, and whether the UART has taken them all. -/
def transmit (written : Nat → Bool) (maxNumOfRetriesPerWrite : Nat) (t : Transmitter) :
    List NetworkMessage → Bool × Transmitter
  | [] => (true, t)
  | msg :: msgs =>
    let (ok, t) := sendNetworkMsg written maxNumOfRetriesPerWrite t msg
    let (okRest, t) := transmit written maxNumOfRetriesPerWrite t msgs
    (ok && okRest, t)

section Framing

section

open PythonUartLink S3pRoundTrip Transducer

def frame (m : List UInt8) : List Symbol := .bom :: m.map .data ++ [.eom]

end

variable (written : Nat → Bool) (retries : Nat)

end Framing

section ToPython

variable (nodeNumber : Int) (localTopics : List Topic)

def calledWith (topicId : Int) (data : List UInt8) : List (Nat × List UInt8) :=
  (localTopics.filter (fun top => top.topicId = topicId)).flatMap (fun top =>
    top.publishFromGateway data)

theorem numberOfBytesToSend_eq {msg : NetworkMessage} (h : getLen msg ≤ maxNetworkMessageLength) :
    numberOfBytesToSend msg = headerSize + getLen msg := by
  obtain ⟨m⟩ := msg
  exact ReceiveBounds.numberOfBytesToSend_eq h

/-- What a gateway of the node is given to send, and its `networkOutMessage`. -/
structure Publication where
  networkOutMessage : NetworkMessage
  topicId : UInt32
  data : List UInt8
  netMsgInfo : NetMsgInfo

def Publication.message (p : Publication) : NetworkMessage :=
  prepareNetworkMessage p.networkOutMessage p.topicId p.data p.netMsgInfo

def Publication.calls (p : Publication) : List (Nat × List UInt8) :=
  if p.netMsgInfo.senderNode.toInt = nodeNumber ∨ p.netMsgInfo.senderNode.toInt = 41716 then []
  else calledWith localTopics p.topicId.toNat (p.data.take maxNetworkMessageLength)

end ToPython

section FromPython

/-- A call whose message fits through the UART and is neither a topic report
nor one for the routers. -/
structure Call.Sendable (c : Call) : Prop where
  fits : headerSize + c.data.length ≤ maxUartMessageLength
  topicId : 0 < c.topicId ∧ c.topicId < 2 ^ 32
  noRouter : c.topicId ≠ defaultRouterTopicId
  now : 0 ≤ c.now ∧ c.now < 2 ^ 63

structure Reads (nodeNumber : Int) (c : Call) (bytes : List UInt8) : Prop where
  length : bytes.length = headerSize + c.data.length
  carries : ∀ buffer, Carries (received buffer bytes) c.data c.topicId nodeNumber c.now
  steps : ∀ buffer, getMaxStepsToForward (received buffer bytes) = 0

variable {nodeNumber : Int} (hnode : -2 ^ 31 ≤ nodeNumber ∧ nodeNumber < 2 ^ 31)
include hnode

end FromPython

structure Awaits (nodeNumber now : Int) (node : Node) : Prop where
  other : nodeNumber ≠ node.myNodeNr
  wellFormed : WellFormed node.seenNodes
  room : find node.seenNodes nodeNumber = none → node.seenNodes.numberOfNodes < maxNumberOfNodes
  older : ∀ last, stored node.seenNodes nodeNumber = some last → last < now

/-- Who listens to the topic is handed the data, and nothing is sent on. -/
structure Hears (node : Node) (c : Call) (d : Distribution) : Prop where
  handed : d.handed.map (List.take c.data.length) =
    audience (topicsOf node c.topicId.toNat) c.data
  sent : d.sent = []

section Node

variable {nodeNumber : Int} {node : Node} {c : Call} {m : Nat → UInt8}
  (h : Awaits nodeNumber c.now node) (hcarries : Carries ⟨m⟩ c.data c.topicId nodeNumber c.now)
include h hcarries

theorem Awaits.judges (h0 : 0 ≤ c.now) :
    Judges node.seenNodes ⟨m⟩ (messageSeen node.seenNodes ⟨m⟩) := by
  apply messageSeen_judges h.wellFormed
  · rw [hcarries.senderNode]
    exact h.room
  · rw [hcarries.sentTime]
    exact h0

theorem Awaits.accepts (h0 : 0 ≤ c.now) : node.Accepts ⟨m⟩ := by
  refine ⟨hcarries.senderNode.trans_ne h.other, hcarries.checkSum, ?_⟩
  rw [Bool.eq_false_iff, ne_eq, (h.judges hcarries h0).seen]
  rintro ⟨last, hlast, hle, -⟩
  rw [hcarries.senderNode] at hlast
  rw [hcarries.sentTime] at hle
  have hless := h.older last hlast
  omega

/-- Once the message has been entered the node takes what is sent later. -/
theorem Awaits.enrolled (h0 : 0 ≤ c.now) {later : Int} (hlater : c.now < later) :
    Awaits nodeNumber later (node.enrolled ⟨m⟩) := by
  have hjudges := h.judges hcarries h0
  obtain ⟨-, -, hseen⟩ := h.accepts hcarries h0
  have hstored := hjudges.stored nodeNumber
  rw [if_pos ⟨hcarries.senderNode.symm, hseen⟩, hcarries.sentTime] at hstored
  refine ⟨h.other, hjudges.wellFormed, ?_, ?_⟩
  · intro hnone
    have hsome : find (messageSeen node.seenNodes ⟨m⟩).table nodeNumber ≠ none := by
      rw [find_ne_none_iff, hstored]
      exact Option.some_ne_none _
    exact absurd hnone hsome
  · intro last hlast
    obtain rfl := Option.some.inj (hstored.symm.trans hlast)
    exact hlater

variable (order : ByteOrder) {app : Application} (happ : Passive app) (i : Nat)
  (hc : c.Sendable) (hsteps : getMaxStepsToForward ⟨m⟩ = 0)
include happ hc hsteps

end Node

section Pass

structure Served (nodeNumber : Int) (c : Call) (thread : GatewayThread) (following : List UInt8)
    (pass : Option (Distribution × GatewayThread)) (d : Distribution) (thread' : GatewayThread) :
    Prop where
  pass : pass = some (d, thread')
  hears : Hears thread.node c d
  input : thread'.input = following
  topicList : thread'.node.topicList = thread.node.topicList
  awaits : ∀ later, c.now < later → Awaits nodeNumber later thread'.node

variable (order : ByteOrder) (app : Application) (i : Nat) {thread : GatewayThread}
  {bytes following : List UInt8}

end Pass

section Runs

variable {nodeNumber : Int} (hnode : -2 ^ 31 ≤ nodeNumber ∧ nodeNumber < 2 ^ 31)
  (order : ByteOrder) {app : Application} (happ : Passive app) (i : Nat)
include hnode happ

end Runs

def threeBytes : Publication := ⟨blank, 100, [1, 254, 3], request⟩

end Rodos.PythonInterop
