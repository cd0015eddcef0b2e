import Rodos.DuplicateSuppression
import Rodos.Routing

namespace Rodos

open AccessTrace Traced ByteMemory NetworkMessage DuplicateSuppression

/-- The topics are those of the application. The constructor of a topic
reports the id of `defaultRouterTopic` as a duplicate. -/
structure Node where
  myNodeNr : Int
  gateways : Nat → Gateway
  routers : List Router
  topicList : List Topic
  topicList_ids : ∀ t ∈ topicList, t.topicId ≠ defaultRouterTopicId
  seenNodes : SeenNodes

structure Received where
  node : Node
  distribution : Distribution

def receivedInfo (linkIdentifier : Nat) (msg : NetworkMessage) : NetMsgInfo where
  senderNode := Int32.ofInt (getSenderNode msg)
  senderThreadId := UInt32.ofNat (getSenderThreadId msg)
  sentTime := Int64.ofInt (getSentTime msg)
  receiverNode := Int32.ofInt (getReceiverNode msg)
  receiverNodesBitMap := UInt32.ofNat (getReceiverNodesBitMap msg)
  linkId := UInt32.ofNat linkIdentifier
  messageType := UInt16.ofNat (getType msg)

def receivedInfoAt (linkIdentifier : Nat) (m : Nat → UInt8) : Traced Span NetMsgInfo := do
  touch ⟨20, 8⟩
  touch ⟨16, 4⟩
  touch ⟨28, 4⟩
  touch ⟨0, 4⟩
  touch ⟨4, 4⟩
  touch ⟨12, 2⟩
  pure (receivedInfo linkIdentifier (messageAt m 0))

def messageSeenAt (seenNodes : SeenNodes) (m : Nat → UInt8) : Traced Span Outcome := do
  touch ⟨16, 4⟩
  touch ⟨20, 8⟩
  pure (messageSeen seenNodes (messageAt m 0))

def decMaxStepsToForwardAt (m : Nat → UInt8) : Traced Span (Nat → UInt8) := do
  let maxStepsToForward ← getAt 0 m 8 2 getMaxStepsToForward
  touch ⟨8, 2⟩
  pure (putMaxStepsToForward (messageAt m 0) (maxStepsToForward - 1)).bytes

def reportSpan : ListAccess → List Span
  | .own _ => []
  | .wanted i => [⟨headerSize + 4 + 4 * i, 4⟩]

namespace Node

variable (order : ByteOrder) (app : Application) (node : Node) (i : Nat)

def publishTopic (netMsgInfo : NetMsgInfo) (topicId : Nat) (d : Distribution) (t : Topic) :
    Distribution :=
  if t.topicId = topicId then
    { d with
      bytes := (t.publish app netMsgInfo headerSize d.bytes).bytes
      handed := d.handed ++ (t.publish app netMsgInfo headerSize d.bytes).handed }
  else d

def publishTopics (netMsgInfo : NetMsgInfo) (topicId : Nat) (m : Nat → UInt8) : Distribution :=
  node.topicList.foldl (publishTopic app netMsgInfo topicId) ⟨m, [], []⟩

/-- The loop over all topics, of which `defaultRouterTopic` is one. -/
def publishLocally (netMsgInfo : NetMsgInfo) (topicId : Nat) (m : Nat → UInt8) :
    Traced Span Distribution :=
  if topicId = defaultRouterTopicId then
    publishToRouters node.gateways (node.gateways i).linkinterface.linkIdentifier headerSize
      node.routers (node.publishTopics app netMsgInfo topicId m)
  else pure (node.publishTopics app netMsgInfo topicId m)

def distribute (topicId : Nat) (m : Nat → UInt8) : Traced Span Distribution := do
  let netMsgInfo ← receivedInfoAt (node.gateways i).linkinterface.linkIdentifier m
  let d ← node.publishLocally app i netMsgInfo topicId m
  let forwarded ← publishToRouters node.gateways
    (node.gateways i).linkinterface.linkIdentifier 0 node.routers d
  pure { forwarded with handed := d.handed }

def receiveReportAt (m : Nat → UInt8) : Traced Span Received := do
  touch ⟨headerSize, 4⟩
  let g ← ((node.gateways i).receiveReport (reportOf order (messageAt m 0))).spread reportSpan
  pure ⟨{ node with gateways := Function.update node.gateways i g }, ⟨m, [], []⟩⟩

/-- The part of `AnalyseAndDistributeMessagesFromNetwork` after the checks. -/
def analyseAccepted (m : Nat → UInt8) : Traced Span Received := do
  let topicId ← getAt 0 m 32 4 getTopicId
  if topicId = 0 then
    if (node.gateways i).getTopicsToForwardFromOutside then node.receiveReportAt order i m
    else pure ⟨node, ⟨m, [], []⟩⟩
  else do
    let d ← node.distribute app i topicId m
    pure ⟨node, d⟩

def analyseAndDistributeMessagesFromNetwork (m : Nat → UInt8) : Traced Span Received := do
  let senderNode ← getAt 0 m 16 4 getSenderNode
  if senderNode = node.myNodeNr then pure ⟨node, ⟨m, [], []⟩⟩
  else do
    let ok ← isCheckSumOkAt 0 m
    if ok then do
      let outcome ← messageSeenAt node.seenNodes m
      if outcome.seen then pure ⟨{ node with seenNodes := outcome.table }, ⟨m, [], []⟩⟩
      else do
        let m ← decMaxStepsToForwardAt m
        analyseAccepted order app { node with seenNodes := outcome.table } i m
    else pure ⟨node, ⟨m, [], []⟩⟩

/-- The message is not from this node, has the right checksum and has not been
seen. -/
def Accepts (msg : NetworkMessage) : Prop :=
  getSenderNode msg ≠ node.myNodeNr ∧ isCheckSumOk msg ∧
    (messageSeen node.seenNodes msg).seen = false

def enrolled (msg : NetworkMessage) : Node :=
  { node with seenNodes := (messageSeen node.seenNodes msg).table }

def decremented (msg : NetworkMessage) : NetworkMessage :=
  putMaxStepsToForward msg (getMaxStepsToForward msg - 1)

variable (m : Nat → UInt8)

theorem value_decMaxStepsToForwardAt :
    (decMaxStepsToForwardAt m).value = (decremented ⟨m⟩).bytes := by
  rw [decMaxStepsToForwardAt, decremented]
  rw [value_bind, value_getAt, value_bind, value_pure, messageAt_zero]

theorem value_messageSeenAt (seenNodes : SeenNodes) :
    (messageSeenAt seenNodes m).value = messageSeen seenNodes ⟨m⟩ := by
  rw [messageSeenAt]
  rw [value_bind, value_bind, value_pure, messageAt_zero]

theorem analyse_of_accepts (h : node.Accepts ⟨m⟩) :
    (node.analyseAndDistributeMessagesFromNetwork order app i m).value =
      ((node.enrolled ⟨m⟩).analyseAccepted order app i (decremented ⟨m⟩).bytes).value := by
  obtain ⟨hsender, hsum, hseen⟩ := h
  rw [analyseAndDistributeMessagesFromNetwork]
  rw [value_bind, value_getAt, messageAt_zero, if_neg hsender, value_bind,
    if_pos ((value_isCheckSumOkAt 0 m).mpr (by rwa [messageAt_zero])), value_bind,
    value_messageSeenAt, if_neg (by simp [hseen]), value_bind, value_decMaxStepsToForwardAt]
  rfl

theorem analyse_of_not_accepts (h : ¬ node.Accepts ⟨m⟩) :
    (node.analyseAndDistributeMessagesFromNetwork order app i m).value.distribution =
      ⟨m, [], []⟩ := by
  rw [analyseAndDistributeMessagesFromNetwork]
  rw [value_bind, value_getAt, messageAt_zero]
  split
  · rfl
  · rename_i hsender
    rw [value_bind]
    split
    · rename_i hsum
      rw [value_bind, value_messageSeenAt]
      split
      · rfl
      · rename_i hseen
        rw [value_isCheckSumOkAt, messageAt_zero] at hsum
        exact absurd ⟨hsender, hsum, Bool.eq_false_iff.mpr hseen⟩ h
    · rfl

theorem analyseAccepted_of_topic (h : getTopicId ⟨m⟩ ≠ 0) :
    (node.analyseAccepted order app i m).value =
      ⟨node, (node.distribute app i (getTopicId ⟨m⟩) m).value⟩ := by
  rw [analyseAccepted]
  rw [value_bind, value_getAt, messageAt_zero, if_neg h, value_bind, value_pure]

theorem value_receivedInfoAt (linkIdentifier : Nat) :
    (receivedInfoAt linkIdentifier m).value = receivedInfo linkIdentifier ⟨m⟩ := by
  rw [receivedInfoAt]
  simp only [value_bind, value_pure, messageAt_zero]

def published (msg : NetworkMessage) : Distribution :=
  (node.publishLocally app i
    (receivedInfo (node.gateways i).linkinterface.linkIdentifier msg) (getTopicId msg)
    msg.bytes).value

theorem distribute_spec (P : Distribution → Prop)
    (h : ∀ forwarded, RoutedBy node.routers 0 (node.published app i ⟨m⟩) forwarded →
      P { forwarded with handed := (node.published app i ⟨m⟩).handed }) :
    P (node.distribute app i (getTopicId ⟨m⟩) m).value := by
  rw [distribute]
  rw [value_bind, value_receivedInfoAt, value_bind, value_bind, value_pure]
  apply h
  exact routedBy_publishToRouters _ _ _ _ _

end Node

structure PublishedFrom (m : Nat → UInt8) (d : Distribution) : Prop where
  bytes : ∀ j < headerSize, d.bytes j = m j
  sent : ∀ s ∈ d.sent, s.base = headerSize

section

variable {m : Nat → UInt8} {d : Distribution} (h : PublishedFrom m d)
include h

theorem PublishedFrom.publishTopic (app : Application) (netMsgInfo : NetMsgInfo) (topicId : Nat)
    (t : Topic) : PublishedFrom m (Node.publishTopic app netMsgInfo topicId d t) := by
  rw [Node.publishTopic]
  split
  · refine ⟨?_, h.sent⟩
    intro j hj
    exact (t.publish_outside app netMsgInfo headerSize d.bytes (.inl hj)).trans (h.bytes j hj)
  · exact h

theorem PublishedFrom.foldl (app : Application) (netMsgInfo : NetMsgInfo) (topicId : Nat)
    (topics : List Topic) :
    PublishedFrom m (topics.foldl (Node.publishTopic app netMsgInfo topicId) d) := by
  induction topics generalizing d with
  | nil => exact h
  | cons t topics ih => exact ih (h.publishTopic app netMsgInfo topicId t)

theorem PublishedFrom.route {routers : List Router} {d' : Distribution}
    (hd' : RoutedBy routers headerSize d d') : PublishedFrom m d' := by
  refine ⟨?_, ?_⟩
  · intro j hj
    exact (hd'.bytes j (.inl (by omega))).trans (h.bytes j hj)
  · intro s hs
    obtain hs | ⟨r, -, -, hsends⟩ := hd'.sent s hs
    · exact h.sent s hs
    · exact hsends.2.2.1

end

namespace Node

variable (order : ByteOrder) (app : Application) (node : Node) (i : Nat)

theorem foldl_publishTopic_of_ne {netMsgInfo : NetMsgInfo} {topicId : Nat} {topics : List Topic}
    (h : ∀ t ∈ topics, t.topicId ≠ topicId) (d : Distribution) :
    topics.foldl (publishTopic app netMsgInfo topicId) d = d := by
  induction topics with
  | nil => rfl
  | cons t topics ih =>
    obtain ⟨ht, htopics⟩ := List.forall_mem_cons.mp h
    rw [List.foldl_cons, publishTopic, if_neg ht, ih htopics]

/-- No topic of the application has the id of `defaultRouterTopic`. -/
theorem publishTopics_router (netMsgInfo : NetMsgInfo) {topicId : Nat}
    (h : topicId = defaultRouterTopicId) (m : Nat → UInt8) :
    node.publishTopics app netMsgInfo topicId m = ⟨m, [], []⟩ :=
  foldl_publishTopic_of_ne app (h ▸ node.topicList_ids) _

theorem publishedFrom_publishLocally (netMsgInfo : NetMsgInfo) (topicId : Nat) (m : Nat → UInt8) :
    PublishedFrom m (node.publishLocally app i netMsgInfo topicId m).value := by
  have hstart : PublishedFrom m ⟨m, [], []⟩ := ⟨fun _ _ => rfl, List.forall_mem_nil _⟩
  have htopics : PublishedFrom m (node.publishTopics app netMsgInfo topicId m) :=
    hstart.foldl app netMsgInfo topicId node.topicList
  rw [publishLocally]
  split
  · exact htopics.route (routedBy_publishToRouters _ _ _ _ _)
  · exact htopics

theorem publishedFrom_published (msg : NetworkMessage) :
    PublishedFrom msg.bytes (node.published app i msg) :=
  node.publishedFrom_publishLocally app i _ _ msg.bytes

end Node

theorem bytes_decremented (msg : NetworkMessage) {j : Nat} (h : j < 8 ∨ 10 ≤ j) :
    (Node.decremented msg).bytes j = msg.bytes j := by
  apply write_outside
  rw [length_toBigEndian]
  omega

theorem header_decremented (msg : NetworkMessage) : header (Node.decremented msg) =
    { header msg with
      maxStepsToForward := Int.bmod (getMaxStepsToForward msg - 1) (256 ^ 2) } :=
  header_putMaxStepsToForward msg _

theorem messageAt_decremented (msg : NetworkMessage) :
    messageAt (Node.decremented msg).bytes headerSize = messageAt msg.bytes headerSize := by
  rw [messageAt]
  congr
  funext j
  apply bytes_decremented
  rw [headerSize]
  omega

theorem numberOfTopics_decremented (order : ByteOrder) (msg : NetworkMessage) :
    (reportOf order (Node.decremented msg)).numberOfTopics =
      (reportOf order msg).numberOfTopics := by
  apply order.uint32_congr
  intro k _
  apply bytes_decremented
  rw [headerSize]
  omega

theorem getLen_decremented (msg : NetworkMessage) :
    getLen (Node.decremented msg) = getLen msg :=
  congrArg Header.len (header_decremented msg)

theorem getTopicId_decremented (msg : NetworkMessage) :
    getTopicId (Node.decremented msg) = getTopicId msg :=
  congrArg Header.topicId (header_decremented msg)

namespace Node

/-- A router has sent the message on: it has been accepted, its counter is
still positive after it has been decremented and, apart from the checksum, its
header is as it was then. -/
structure Forwards (node : Node) (msg : NetworkMessage) (s : Sending) : Prop where
  accepts : node.Accepts msg
  router : ∃ r ∈ node.routers, r.isEnabled = true ∧ s.gateway ∈ r.gateways
  steps : 0 < getMaxStepsToForward (decremented msg)
  header : ∀ j < headerSize, j < 10 ∨ 12 ≤ j → s.message.bytes j = (decremented msg).bytes j

variable (order : ByteOrder) (app : Application) (node : Node) (i : Nat) (m : Nat → UInt8)

theorem forwards_of_sends {msg : NetworkMessage} {d : Distribution} (hacc : node.Accepts msg)
    (hd : PublishedFrom (decremented msg).bytes d) {r : Router} (hr : r ∈ node.routers)
    (henabled : r.isEnabled = true) {s : Sending} (hs : r.Sends 0 d.bytes s) :
    node.Forwards msg s := by
  obtain ⟨hroutes, hgateway, -, m', hsame, hmessage⟩ := hs
  have hheader : NetworkMessage.header ⟨d.bytes⟩ = NetworkMessage.header (decremented msg) :=
    header_congr hd.bytes
  have hsteps := congrArg Header.maxStepsToForward hheader
  simp only [NetworkMessage.header] at hsteps
  refine ⟨hacc, ⟨r, hr, henabled, hgateway⟩, ?_, ?_⟩
  · have hpos := hroutes.1
    rwa [messageAt_zero, hsteps] at hpos
  · intro j hj hsum
    rw [hmessage, messageAt_zero]
    exact (hsame j (by omega)).trans (hd.bytes j hj)

theorem sent_of_received {r : Received} {d : Distribution} {P : Sending → Prop}
    (hr : r.distribution = d) (hd : ∀ s ∈ d.sent, P s) : ∀ s ∈ r.distribution.sent, P s := by
  subst hr
  exact hd

theorem analyseAccepted_of_report (h : getTopicId ⟨m⟩ = 0) :
    (node.analyseAccepted order app i m).value.distribution = ⟨m, [], []⟩ := by
  rw [analyseAccepted]
  rw [value_bind, value_getAt, messageAt_zero, if_pos h]
  split
  · rfl
  · rfl

theorem sent_analyse :
    ∀ s ∈ (node.analyseAndDistributeMessagesFromNetwork order app i m).value.distribution.sent,
      s.base = headerSize ∨ s.base = 0 ∧ node.Forwards ⟨m⟩ s := by
  by_cases hacc : node.Accepts ⟨m⟩
  · have haccepted := node.analyse_of_accepts order app i m hacc
    by_cases htopic : getTopicId (decremented ⟨m⟩) = 0
    · refine sent_of_received ((congrArg Received.distribution haccepted).trans
        (analyseAccepted_of_report order app (node.enrolled ⟨m⟩) i _ htopic)) ?_
      exact List.forall_mem_nil _
    · refine sent_of_received (congrArg Received.distribution (haccepted.trans
        (analyseAccepted_of_topic order app (node.enrolled ⟨m⟩) i _ htopic))) ?_
      apply distribute_spec app (node.enrolled ⟨m⟩) i (decremented ⟨m⟩).bytes
        (fun d => ∀ s ∈ d.sent, s.base = headerSize ∨ s.base = 0 ∧ node.Forwards ⟨m⟩ s)
      intro forwarded hforwarded s hs
      have hpublished := (node.enrolled ⟨m⟩).publishedFrom_published app i (decremented ⟨m⟩)
      obtain hs | ⟨r, hr, henabled, hsends⟩ := hforwarded.sent s hs
      · exact .inl (hpublished.sent s hs)
      · exact .inr ⟨hsends.2.2.1, node.forwards_of_sends hacc hpublished hr henabled hsends⟩
  · refine sent_of_received (node.analyse_of_not_accepts order app i m hacc) ?_
    exact List.forall_mem_nil _

end Node

end Rodos
