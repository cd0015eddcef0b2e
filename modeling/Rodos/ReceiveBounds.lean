import Rodos.GatewayReceive

namespace Rodos.ReceiveBounds

open AccessTrace Traced ByteMemory NetworkMessage DuplicateSuppression

/-- The links that do not report the size of what they have received. -/
inductive SizelessLink
  | udp
  | sharedMemory

/-- The copy constructor and the assignment: the bytes read are those written. -/
def copyMessage (oldMsg : Nat → UInt8) (m : Nat → UInt8) : Traced Span (Nat → UInt8) := do
  let n ← numberOfBytesToSendAt 0 oldMsg
  touch ⟨0, n⟩
  pure (write m 0 (ByteMemory.read oldMsg 0 n))

/-- What has arrived is put into a slot of a fifo and fetched from there. With
shared memory the sender has put it there. -/
def getNetworkMsg (link : SizelessLink) (delivered slot inMsg : Nat → UInt8) :
    Traced Span (Nat → UInt8) :=
  match link with
  | .udp => do
    let slot ← copyMessage delivered slot
    copyMessage slot inMsg
  | .sharedMemory => copyMessage delivered inMsg

/-- One round of `Gateway::run` for a link that reports the size -1. -/
def receive (order : ByteOrder) (app : Application) (node : Node) (i : Nat) (link : SizelessLink)
    (delivered slot networkInMessage : Nat → UInt8) : Traced Span Received := do
  let m ← getNetworkMsg link delivered slot networkInMessage
  node.analyseAndDistributeMessagesFromNetwork order app i m

def InMessage (s : Span) : Prop := s.start + s.length ≤ networkMessageSize

def Safe (order : ByteOrder) (app : Application) (node : Node) (i : Nat) (link : SizelessLink)
    (delivered slot networkInMessage : Nat → UInt8) : Prop :=
  Within InMessage (receive order app node i link delivered slot networkInMessage) ∧
    numberOfBytesToSend ⟨delivered⟩ = headerSize + getLen ⟨delivered⟩

def received (delivered networkInMessage : Nat → UInt8) : Nat → UInt8 :=
  write networkInMessage 0 (ByteMemory.read delivered 0 (headerSize + getLen ⟨delivered⟩))

/-- A report that is taken entry by entry counts no more of them than fit into
the user data. -/
def ReportFits (order : ByteOrder) (g : Gateway) (msg : NetworkMessage) : Prop :=
  getTopicId msg = 0 → g.getTopicsToForwardFromOutside = true →
    g.linkinterface.isBroadcastLink = true →
    headerSize + 4 + 4 * (reportOf order msg).numberOfTopics ≤ networkMessageSize

/-- User data that a router takes for a message, because of its topic id, has
the length of one that fits into the user data. -/
def EmbeddedFits (routers : List Router) (msg : NetworkMessage) : Prop :=
  getTopicId msg = defaultRouterTopicId →
    ∀ r ∈ routers, r.isEnabled = true → r.Routes (messageAt msg.bytes headerSize) →
      headerSize + headerSize + getLen (messageAt msg.bytes headerSize) ≤ networkMessageSize

def Fits (order : ByteOrder) (node : Node) (i : Nat) (delivered networkInMessage : Nat → UInt8) :
    Prop :=
  getLen ⟨delivered⟩ ≤ maxNetworkMessageLength ∧
    (node.Accepts ⟨received delivered networkInMessage⟩ →
      ReportFits order (node.gateways i) ⟨received delivered networkInMessage⟩ ∧
        EmbeddedFits node.routers ⟨received delivered networkInMessage⟩)

section Accessors

variable {base : Nat} {m : Nat → UInt8}

@[simp] theorem within_getAt {α : Type} (off n : Nat) (get : NetworkMessage → α) :
    Within InMessage (getAt base m off n get) ↔ base + off + n ≤ networkMessageSize := by
  simp [getAt, InMessage]

theorem within_calculateCheckSumAt : Within InMessage (calculateCheckSumAt base m) ↔
    base + headerSize + getLen (messageAt m base) ≤ networkMessageSize := by
  simp only [calculateCheckSumAt, within_bind, within_getAt, within_touch, within_pure, and_true,
    value_getAt, InMessage, headerSize]
  omega

theorem within_isCheckSumOkAt : Within InMessage (isCheckSumOkAt base m) ↔
    base + headerSize + getLen (messageAt m base) ≤ networkMessageSize := by
  simp only [isCheckSumOkAt, within_bind, within_calculateCheckSumAt, within_getAt,
    within_pure, and_true, headerSize]
  omega

theorem within_setCheckSumAt : Within InMessage (setCheckSumAt base m) ↔
    base + headerSize + getLen (messageAt m base) ≤ networkMessageSize := by
  simp only [setCheckSumAt, within_bind, within_calculateCheckSumAt, within_touch,
    within_pure, and_true, InMessage, headerSize]
  omega

variable (h : base + headerSize + getLen (messageAt m base) ≤ networkMessageSize)
include h

theorem within_sendNetworkMsg (link : Linkinterface) :
    Within InMessage (link.sendNetworkMsg base m) := by
  have hsize : numberOfBytesToSend (messageAt m base) ≤
      headerSize + getLen (messageAt m base) := Nat.mod_le _ _
  rw [headerSize] at h hsize
  rw [Linkinterface.sendNetworkMsg]
  cases link.kind
  all_goals
    simp only [numberOfBytesToSendAt, within_bind, within_getAt, within_touch,
      within_pure, and_true, value_getAt, InMessage, headerSize]
    omega

theorem within_sendTo (gateways : Nat → Gateway) (linkid i : Nat) (sent : List Sending) :
    Within InMessage (Router.sendTo gateways linkid base m i sent) := by
  have hsend := within_sendNetworkMsg h (gateways i).linkinterface
  rw [headerSize] at h
  simp only [Router.sendTo, Router.shouldRouteThisMsgToGateway, within_bind, within_ite,
    within_getAt, within_pure]
  refine ⟨⟨fun _ => trivial, fun _ => ⟨by omega, trivial⟩⟩, fun _ => ⟨hsend, trivial⟩,
    fun _ => trivial⟩

end Accessors

section Routing

variable {base : Nat} (hbase : base + headerSize ≤ networkMessageSize) (gateways : Nat → Gateway)
  (linkid : Nat)
include hbase

theorem within_routeMsg (r : Router) (m : Nat → UInt8) :
    Within InMessage (r.routeMsg gateways linkid base m) ↔ (r.Routes (messageAt m base) →
      base + headerSize + getLen (messageAt m base) ≤ networkMessageSize) := by
  have hshould : Within InMessage (r.shouldRouteThisMsg base m) := by
    rw [headerSize] at hbase
    simp only [Router.shouldRouteThisMsg, within_bind, within_getAt, within_ite, within_pure]
    refine ⟨by omega, fun _ => trivial, fun _ => ⟨by omega, fun _ => trivial, fun _ => trivial⟩⟩
  have hsame := value_setCheckSumAt base m
  have hlen : getLen (messageAt (setCheckSumAt base m).value base) = getLen (messageAt m base) :=
    hsame.getField (by omega)
  rw [Router.routeMsg]
  rw [within_bind, and_iff_right hshould, within_ite, r.value_shouldRouteThisMsg,
    and_iff_left (fun _ => within_pure _), within_bind, within_setCheckSumAt]
  constructor
  · intro h hroutes
    exact (h hroutes).1
  · intro h hroutes
    refine ⟨h hroutes, (within_bind _ _).mpr ⟨?_, within_pure _⟩⟩
    refine (within_forEach (fun _ => True) (fun _ _ _ _ => trivial) (Q := fun _ => True) ?_
      trivial).mpr (fun _ _ => trivial)
    intro i _ sent _
    have hroom := h hroutes
    rw [← hlen] at hroom
    exact iff_of_true (within_sendTo hroom gateways linkid i sent) trivial

theorem within_put (r : Router) (d : Distribution) :
    Within InMessage (r.put gateways linkid base d) ↔ (r.isEnabled = true →
      r.Routes (messageAt d.bytes base) →
      base + headerSize + getLen (messageAt d.bytes base) ≤ networkMessageSize) := by
  rw [Router.put]
  rw [within_ite, and_iff_left (fun _ => within_pure _), within_bind,
    within_routeMsg hbase gateways linkid]
  simp only [within_pure, and_true]

theorem within_publishToRouters (routers : List Router) (d : Distribution) :
    Within InMessage (publishToRouters gateways linkid base routers d) ↔
      ∀ r ∈ routers, r.isEnabled = true → r.Routes (messageAt d.bytes base) →
        base + headerSize + getLen (messageAt d.bytes base) ≤ networkMessageSize := by
  rw [publishToRouters]
  refine within_forEach (RoutedBy routers base d) ?_ ?_ (RoutedBy.refl routers base d)
  · intro r hr d' h
    exact h.put gateways linkid hr
  · intro r _ d' h
    have hlen : getLen (messageAt d'.bytes base) = getLen (messageAt d.bytes base) :=
      h.bytes.getField (by omega)
    have hroutes : r.Routes (messageAt d'.bytes base) ↔ r.Routes (messageAt d.bytes base) :=
      ⟨Router.Routes.congr h.bytes, Router.Routes.congr (fun j hj => (h.bytes j hj).symm)⟩
    rw [within_put hbase gateways linkid, hlen, hroutes]

end Routing

section Report

variable {P : ListAccess → Prop} (hown : ∀ i, P (.own i)) (g : Gateway) (r : TopicListReport)
include hown

theorem within_add (topicId : Nat) : Within P (r.add topicId) := by
  have hfind : Within P (r.find topicId) := within_search (fun i _ => by simp [hown i])
  simp [TopicListReport.add, hfind, hown]

theorem within_addTopicsToForward :
    Within P (g.addTopicsToForward r) ↔ ∀ i < r.numberOfTopics, P (.wanted i) := by
  rw [Gateway.addTopicsToForward]
  rw [within_bind, and_iff_left (within_pure _),
    within_forEach (fun _ => True) (fun _ _ _ _ => trivial) (Q := fun i => P (.wanted i)) ?_
      trivial]
  · simp only [List.mem_range]
  · intro i _ subscribers _
    simp [Gateway.addWanted, within_add hown]

theorem within_setTopicsToForward :
    Within P (g.setTopicsToForward r) ↔ ∀ i < maxSubscribers, P (.wanted i) := by
  rw [Gateway.setTopicsToForward]
  rw [within_bind, and_iff_left (within_pure _),
    within_forEach (fun _ => True) (fun _ _ _ _ => trivial) (Q := fun i => P (.wanted i)) ?_
      trivial]
  · simp only [List.mem_range]
  · intro i _ entries _
    simp [hown]

theorem within_receiveReport (houtside : g.getTopicsToForwardFromOutside = true) :
    Within P (g.receiveReport r) ↔
      ∀ i < (if g.linkinterface.isBroadcastLink then r.numberOfTopics else maxSubscribers),
        P (.wanted i) := by
  rw [Gateway.receiveReport]
  rw [if_pos houtside, within_bind, and_iff_left (within_pure _)]
  split
  · exact within_addTopicsToForward hown g r
  · exact within_setTopicsToForward hown g r

end Report

theorem within_receiveReportAt (order : ByteOrder) (node : Node) (i : Nat) (m : Nat → UInt8)
    (houtside : (node.gateways i).getTopicsToForwardFromOutside = true) :
    Within InMessage (node.receiveReportAt order i m) ↔
      ((node.gateways i).linkinterface.isBroadcastLink = true →
        headerSize + 4 + 4 * (reportOf order ⟨m⟩).numberOfTopics ≤ networkMessageSize) := by
  have hown : ∀ k, (fun a => ∀ s ∈ reportSpan a, InMessage s) (.own k) := by
    intro k
    exact List.forall_mem_nil _
  have hcount : InMessage ⟨headerSize, 4⟩ := by
    rw [InMessage]
    decide
  rw [Node.receiveReportAt]
  rw [within_bind, within_touch, and_iff_right hcount, within_bind, and_iff_left (within_pure _),
    within_spread, within_receiveReport hown _ _ houtside, messageAt_zero]
  simp only [reportSpan, List.forall_mem_singleton, InMessage, networkMessageSize, headerSize,
    maxNetworkMessageLength, maxSubscribers]
  generalize (reportOf order ⟨m⟩).numberOfTopics = n
  split
  · rename_i hbroadcast
    rw [imp_iff_right hbroadcast]
    constructor
    · intro h
      by_contra hn
      have hlast := h (n - 1) (by omega)
      omega
    · intro hn k hk
      omega
  · rename_i hswitch
    refine iff_of_true ?_ (fun hbroadcast => absurd hbroadcast hswitch)
    intro k hk
    omega

theorem within_receivedInfoAt (linkIdentifier : Nat) (m : Nat → UInt8) :
    Within InMessage (receivedInfoAt linkIdentifier m) := by
  simp [receivedInfoAt, InMessage, networkMessageSize, headerSize, maxNetworkMessageLength]

theorem within_messageSeenAt (seenNodes : SeenNodes) (m : Nat → UInt8) :
    Within InMessage (messageSeenAt seenNodes m) := by
  simp [messageSeenAt, InMessage, networkMessageSize, headerSize, maxNetworkMessageLength]

theorem within_decMaxStepsToForwardAt (m : Nat → UInt8) :
    Within InMessage (decMaxStepsToForwardAt m) := by
  simp [decMaxStepsToForwardAt, InMessage, networkMessageSize, headerSize, maxNetworkMessageLength]

theorem within_publishLocally (app : Application) (node : Node) (i : Nat)
    (netMsgInfo : NetMsgInfo) (m : Nat → UInt8) :
    Within InMessage (node.publishLocally app i netMsgInfo (getTopicId ⟨m⟩) m) ↔
      EmbeddedFits node.routers ⟨m⟩ := by
  rw [Node.publishLocally, EmbeddedFits]
  rw [within_ite, and_iff_left (fun _ => within_pure _)]
  apply imp_congr_right
  intro hrouter
  rw [Node.publishTopics_router app node netMsgInfo hrouter]
  exact within_publishToRouters (by decide) node.gateways _ node.routers _

section Analyse

variable (order : ByteOrder) (app : Application) (node : Node) (i : Nat) {m : Nat → UInt8}
  (hlen : getLen ⟨m⟩ ≤ maxNetworkMessageLength)
include hlen

theorem within_distribute : Within InMessage (node.distribute app i (getTopicId ⟨m⟩) m) ↔
    EmbeddedFits node.routers ⟨m⟩ := by
  rw [Node.distribute]
  rw [within_bind, and_iff_right (within_receivedInfoAt _ m), within_bind, within_publishLocally]
  apply and_iff_left
  refine (within_bind _ _).mpr ⟨?_, within_pure _⟩
  refine (within_publishToRouters (by decide) node.gateways _ node.routers _).mpr ?_
  intro r _ _ _
  have hpublished := node.publishedFrom_publishLocally app i
    (receivedInfoAt (node.gateways i).linkinterface.linkIdentifier m).value (getTopicId ⟨m⟩) m
  generalize (node.publishLocally app i _ _ m).value = d at hpublished
  have hheader : header ⟨d.bytes⟩ = header ⟨m⟩ := header_congr hpublished.bytes
  have hlen' : getLen ⟨d.bytes⟩ = getLen ⟨m⟩ := congrArg Header.len hheader
  rw [messageAt_zero, hlen']
  rw [networkMessageSize]
  omega

theorem within_analyseAccepted : Within InMessage (node.analyseAccepted order app i m) ↔
    ReportFits order (node.gateways i) ⟨m⟩ ∧ EmbeddedFits node.routers ⟨m⟩ := by
  have hrouter : 0 ≠ defaultRouterTopicId := by decide +kernel
  rw [Node.analyseAccepted]
  rw [within_bind, and_iff_right ((within_getAt 32 4 getTopicId).mpr (by decide)), value_getAt,
    messageAt_zero]
  by_cases htopic : getTopicId ⟨m⟩ = 0
  · have hembedded : EmbeddedFits node.routers ⟨m⟩ := by
      intro h
      exact absurd (htopic.symm.trans h) hrouter
    rw [if_pos htopic, and_iff_left hembedded]
    rw [ReportFits]
    rw [imp_iff_right htopic]
    by_cases houtside : (node.gateways i).getTopicsToForwardFromOutside = true
    · rw [if_pos houtside, imp_iff_right houtside]
      exact within_receiveReportAt order node i m houtside
    · rw [if_neg houtside]
      exact iff_of_true (within_pure _) (fun h => absurd h houtside)
  · have hreport : ReportFits order (node.gateways i) ⟨m⟩ := fun h => absurd h htopic
    rw [if_neg htopic, and_iff_right hreport, within_bind, and_iff_left (within_pure _)]
    exact within_distribute app node i hlen

theorem within_analyse :
    Within InMessage (node.analyseAndDistributeMessagesFromNetwork order app i m) ↔
      (node.Accepts ⟨m⟩ →
        ReportFits order (node.gateways i) ⟨m⟩ ∧ EmbeddedFits node.routers ⟨m⟩) := by
  have hsum : Within InMessage (isCheckSumOkAt 0 m) := by
    rw [within_isCheckSumOkAt, messageAt_zero]
    rw [networkMessageSize]
    omega
  have haccepted : Within InMessage
      ((node.enrolled ⟨m⟩).analyseAccepted order app i (Node.decremented ⟨m⟩).bytes) ↔
        ReportFits order (node.gateways i) ⟨m⟩ ∧ EmbeddedFits node.routers ⟨m⟩ := by
    rw [within_analyseAccepted order app (node.enrolled ⟨m⟩) i (by rwa [getLen_decremented])]
    rw [ReportFits, EmbeddedFits]
    rw [getTopicId_decremented, numberOfTopics_decremented, messageAt_decremented]
    rfl
  rw [Node.analyseAndDistributeMessagesFromNetwork]
  rw [within_bind, and_iff_right ((within_getAt 16 4 getSenderNode).mpr (by decide)), value_getAt,
    within_ite, and_iff_right (fun _ => within_pure _), within_bind, and_iff_right hsum, within_ite,
    and_iff_left (fun _ => within_pure _), within_bind, and_iff_right (within_messageSeenAt _ m),
    within_ite, and_iff_right (fun _ => within_pure _), within_bind,
    and_iff_right (within_decMaxStepsToForwardAt m), Node.value_messageSeenAt,
    Node.value_decMaxStepsToForwardAt, value_isCheckSumOkAt, messageAt_zero]
  constructor
  · intro h hacc
    exact haccepted.mp (h hacc.1 hacc.2.1 (Bool.eq_false_iff.mp hacc.2.2))
  · intro h hsender hok hseen
    exact haccepted.mpr (h ⟨hsender, hok, Bool.eq_false_iff.mpr hseen⟩)

end Analyse

section Fetch

variable (delivered slot m : Nat → UInt8)

theorem within_copyMessage : Within InMessage (copyMessage delivered m) ↔
    numberOfBytesToSend ⟨delivered⟩ ≤ networkMessageSize := by
  have hfield : 0 + 14 + 2 ≤ networkMessageSize := by decide
  simp [copyMessage, numberOfBytesToSendAt, InMessage, hfield]

theorem value_copyMessage : (copyMessage delivered m).value =
    write m 0 (ByteMemory.read delivered 0 (numberOfBytesToSend ⟨delivered⟩)) := by
  rw [copyMessage, numberOfBytesToSendAt]
  rw [value_bind, value_getAt, value_bind, value_pure, messageAt_zero]

variable {delivered}

theorem received_eq {j : Nat} (hj : j < headerSize + getLen ⟨delivered⟩) :
    received delivered m j = delivered j :=
  write_read_of_lt m delivered hj

theorem getLen_received : getLen ⟨received delivered m⟩ = getLen ⟨delivered⟩ := by
  have hheader : header ⟨received delivered m⟩ = header ⟨delivered⟩ :=
    header_congr (fun j hj => received_eq m (by omega))
  exact congrArg Header.len hheader

theorem received_received : received (received delivered slot) m = received delivered m := by
  have hread : ByteMemory.read (received delivered slot) 0 (headerSize + getLen ⟨delivered⟩) =
      ByteMemory.read delivered 0 (headerSize + getLen ⟨delivered⟩) := by
    rw [read_eq_iff]
    intro j hj
    rw [Nat.zero_add]
    exact received_eq slot hj
  rw [received, getLen_received, hread]
  rfl

variable (hlen : getLen ⟨delivered⟩ ≤ maxNetworkMessageLength)
include hlen

theorem numberOfBytesToSend_eq :
    numberOfBytesToSend ⟨delivered⟩ = headerSize + getLen ⟨delivered⟩ := by
  apply Nat.mod_eq_of_lt
  unfold headerSize maxNetworkMessageLength at *
  omega

theorem value_copyMessage_eq : (copyMessage delivered m).value = received delivered m := by
  rw [value_copyMessage, numberOfBytesToSend_eq hlen]
  rfl

theorem within_copyMessage_of_fits : Within InMessage (copyMessage delivered m) := by
  rw [within_copyMessage, numberOfBytesToSend_eq hlen]
  rw [networkMessageSize]
  omega

theorem getNetworkMsg_spec (link : SizelessLink) :
    Within InMessage (getNetworkMsg link delivered slot m) ∧
      (getNetworkMsg link delivered slot m).value = received delivered m := by
  cases link with
  | udp =>
    have hlen' : getLen ⟨received delivered slot⟩ ≤ maxNetworkMessageLength := by
      rwa [getLen_received slot]
    rw [getNetworkMsg]
    rw [within_bind, value_bind, value_copyMessage_eq slot hlen, value_copyMessage_eq m hlen',
      received_received slot m]
    exact ⟨⟨within_copyMessage_of_fits slot hlen, within_copyMessage_of_fits m hlen'⟩, rfl⟩
  | sharedMemory =>
    exact ⟨within_copyMessage_of_fits m hlen, value_copyMessage_eq m hlen⟩

end Fetch

section

variable (order : ByteOrder) (app : Application) (node : Node) (i : Nat) (link : SizelessLink)
  (delivered slot networkInMessage : Nat → UInt8)

/-- The first copy of a message that is too long leaves the buffer, or else its
size has wrapped around. -/
theorem getLen_le_of_safe (h : Safe order app node i link delivered slot networkInMessage) :
    getLen ⟨delivered⟩ ≤ maxNetworkMessageLength := by
  obtain ⟨hwithin, hsize⟩ := h
  have hcopy : Within InMessage (getNetworkMsg link delivered slot networkInMessage) :=
    ((within_bind _ _).mp hwithin).1
  have hle : numberOfBytesToSend ⟨delivered⟩ ≤ networkMessageSize := by
    cases link with
    | udp => exact (within_copyMessage delivered slot).mp ((within_bind _ _).mp hcopy).1
    | sharedMemory => exact (within_copyMessage delivered networkInMessage).mp hcopy
  rw [hsize] at hle
  rw [networkMessageSize] at hle
  omega

theorem safe_iff_fits : Safe order app node i link delivered slot networkInMessage ↔
    Fits order node i delivered networkInMessage := by
  rw [Fits]
  rw [← and_iff_right_of_imp (getLen_le_of_safe order app node i link delivered slot
    networkInMessage)]
  apply and_congr_right
  intro hlen
  obtain ⟨hwithin, hvalue⟩ := getNetworkMsg_spec slot networkInMessage hlen link
  have hlen' : getLen ⟨received delivered networkInMessage⟩ ≤ maxNetworkMessageLength := by
    rwa [getLen_received networkInMessage]
  rw [Safe, receive]
  rw [and_iff_left (numberOfBytesToSend_eq hlen), within_bind, and_iff_right hwithin, hvalue,
    within_analyse order app node i hlen']

end

/-- A message whose header says that it has one byte of user data more than
the buffer can hold. -/
def oversized : NetworkMessage := putLen blank 1301

def lonely : Node where
  myNodeNr := 1
  gateways _ := TopicReports.started.gateway
  routers := []
  topicList := []
  topicList_ids := List.forall_mem_nil _
  seenNodes := emptyTable

def inert : Application := ⟨fun _ _ _ => id, fun _ _ _ => id, fun _ _ _ => id⟩

theorem not_safe_oversized :
    ¬ Safe .little inert lonely 0 .udp oversized.bytes blank.bytes blank.bytes := by
  intro h
  have hle := getLen_le_of_safe _ _ _ _ _ _ _ _ h
  exact absurd hle (by decide +kernel)

end Rodos.ReceiveBounds
