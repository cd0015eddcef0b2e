import Rodos.HopLimit

namespace Rodos.Flooding

open AccessTrace Traced ByteMemory NetworkMessage DuplicateSuppression TransitionSystem
open HopLimit (Transports transports_spec prepareNetworkMessage_spec)

/-- To how many gateways the routers of the node send, if each sends to all of its own. -/
def fanout (node : Node) : Nat := (node.routers.map (fun r => r.gateways.length)).sum

/-- A message that a gateway of a node has given to its link. A copy of a publication knows which
one it is, and whether the routers have sent it because it had come in. -/
structure Copy where
  node : Nat
  gateway : Nat
  message : NetworkMessage
  publication : Option Nat
  forwarded : Bool

/-- What has been sent stays in flight: it may be lost, delayed, delivered to several nodes and
delivered again. Of the publications the sender and the time are kept. -/
structure Network where
  nodes : Nat → Node
  flight : List Copy
  publications : List (Int × Int)

inductive Event
  | publish (n i : Nat) (networkOutMessage : NetworkMessage) (topicId : UInt32)
    (data : List UInt8) (netMsgInfo : NetMsgInfo)
  | putGeneric (n k : Nat) (localMessage : NetworkMessage) (topicId : UInt32)
    (data : List UInt8) (netMsgInfo : NetMsgInfo)
  | inject (n i : Nat) (msg : NetworkMessage)
  | reconfigure (n : Nat) (node : Node)
  | deliver (k n i : Nat) (inMsg : NetworkMessage)

section Steps

variable (order : ByteOrder) (app : Nat → Application) (wired : Nat × Nat → Nat × Nat → Bool)

/-- The sender and the time of a message, by which the nodes know it again. -/
def identity (msg : NetworkMessage) : Int × Int := (getSenderNode msg, getSentTime msg)

def Network.publication (s : Network) (n : Nat) (msg : NetworkMessage)
    (sent : List (Nat × NetworkMessage)) : Network where
  nodes := s.nodes
  flight := s.flight ++ sent.map (fun c => ⟨n, c.1, c.2, some s.publications.length, false⟩)
  publications := s.publications ++ [identity msg]

/-- `Gateway::put`, for a message published on the node. -/
def publish (s : Network) (n i : Nat) (networkOutMessage : NetworkMessage) (topicId : UInt32)
    (data : List UInt8) (netMsgInfo : NetMsgInfo) : Network :=
  if (((s.nodes n).gateways i).put topicId.toNat).value then
    s.publication n (prepareNetworkMessage networkOutMessage topicId data netMsgInfo)
      [(i, prepareNetworkMessage networkOutMessage topicId data netMsgInfo)]
  else s

/-- `Router::putGeneric`, for a message published on the node. -/
def putGeneric (s : Network) (n : Nat) (r : Router) (localMessage : NetworkMessage)
    (topicId : UInt32) (data : List UInt8) (netMsgInfo : NetMsgInfo) : Network :=
  s.publication n (prepareNetworkMessage localMessage topicId data netMsgInfo)
    ((r.routeMsg (s.nodes n).gateways 0 0
      (prepareNetworkMessage localMessage topicId data netMsgInfo).bytes).value.2.map
        (fun sending => (sending.gateway, sending.message)))

/-- What routers send on because of a message that has come in. A message that lies in the user
data of another is no copy of its publication. -/
def forward (n : Nat) (publication : Option Nat) (sending : Sending) : Copy :=
  ⟨n, sending.gateway, sending.message, if sending.base = 0 then publication else none, true⟩

def receive (s : Network) (n : Nat) (publication : Option Nat) (received : Received) : Network :=
  { s with
    nodes := Function.update s.nodes n received.node
    flight := s.flight ++ received.distribution.sent.map (forward n publication) }

/-- The application, the topology and what the links do are up to the events. What the node has
seen stays as it is when it is reconfigured. -/
def step (e : Event) (s : Network) : Option Network :=
  match e with
  | .publish n i networkOutMessage topicId data netMsgInfo =>
    some (publish s n i networkOutMessage topicId data netMsgInfo)
  | .putGeneric n k localMessage topicId data netMsgInfo =>
    ((s.nodes n).routers[k]?).map
      (fun r => putGeneric s n r localMessage topicId data netMsgInfo)
  | .inject n i msg => some { s with flight := s.flight ++ [⟨n, i, msg, none, false⟩] }
  | .reconfigure n node =>
    some { s with
      nodes := Function.update s.nodes n { node with seenNodes := (s.nodes n).seenNodes } }
  | .deliver k n i inMsg =>
    (s.flight[k]?).bind (fun c =>
      if wired (c.node, c.gateway) (n, i) ∧
          Transports ((s.nodes n).gateways i).linkinterface.kind c.message inMsg then
        some (receive s n c.publication
          ((s.nodes n).analyseAndDistributeMessagesFromNetwork order (app n) i inMsg.bytes).value)
      else none)

end Steps

def Init (limit : Nat → Nat) (s : Network) : Prop :=
  s.flight = [] ∧ s.publications = [] ∧
    ∀ n, (s.nodes n).seenNodes.numberOfNodes = 0 ∧ fanout (s.nodes n) ≤ limit n

/-- The node has room for the sender, and the message is not more than five seconds older than
the last one of its sender. -/
def Recent (node : Node) (msg : NetworkMessage) : Prop :=
  0 ≤ getSentTime msg ∧
    (find node.seenNodes (getSenderNode msg) = none →
      node.seenNodes.numberOfNodes < maxNumberOfNodes) ∧
    ∀ last ∈ stored node.seenNodes (getSenderNode msg), last ≤ getSentTime msg + 5 * seconds

/-- No CAN link, which gives a message a new time, delivers to a gateway, and no link delivers a
message too late. -/
def Ok (limit : Nat → Nat) (e : Event) (s : Network) : Prop :=
  match e with
  | .reconfigure n node => fanout node ≤ limit n
  | .deliver _ n i inMsg => ((s.nodes n).gateways i).linkinterface.kind ≠ .can ∧
      Recent (s.nodes n) inMsg
  | _ => True

instance (node : Node) (msg : NetworkMessage) : Decidable (Recent node msg) :=
  inferInstanceAs (Decidable (_ ∧ (_ → _) ∧ ∀ last ∈ stored _ _, _))

instance (limit : Nat → Nat) (e : Event) (s : Network) : Decidable (Ok limit e s) :=
  match e with
  | .reconfigure n node => inferInstanceAs (Decidable (fanout node ≤ limit n))
  | .deliver _ n i inMsg =>
    inferInstanceAs (Decidable (((s.nodes n).gateways i).linkinterface.kind ≠ .can ∧
      Recent (s.nodes n) inMsg))
  | .publish .. | .putGeneric .. | .inject .. => .isTrue trivial

section Counting

variable (gateways : Nat → Gateway) (linkid : Nat)

theorem length_sent_routeMsg (base : Nat) (r : Router) (m : Nat → UInt8) :
    (r.routeMsg gateways linkid base m).value.2.length ≤ r.gateways.length := by
  apply Router.value_routeMsg gateways linkid base r m (fun p => p.2.length ≤ r.gateways.length)
  · exact Nat.zero_le _
  · intro _
    have hround : ∀ i ∈ r.gateways, ∀ sent : List Sending,
        (Router.sendTo gateways linkid base (setCheckSumAt base m).value i sent).value.length ≤
          sent.length + 1 := by
      intro i _ sent
      obtain hsent | hsent :=
        Router.value_sendTo gateways linkid base (setCheckSumAt base m).value i sent
      · rw [hsent]
        exact Nat.le_succ _
      · rw [hsent, List.length_append]
        exact le_rfl
    have hloop := value_forEach_le List.length (fun _ => 1) hround []
    simpa using hloop

def direct (d : Distribution) : Nat := d.sent.countP (fun s => s.base = 0)

theorem direct_put (r : Router) (d : Distribution) :
    direct (r.put gateways linkid 0 d).value ≤ direct d + r.gateways.length := by
  rw [Router.put]
  split
  · have hlength := length_sent_routeMsg gateways linkid 0 r d.bytes
    have hcount := List.countP_le_length (p := fun s : Sending => decide (s.base = 0))
      (l := (r.routeMsg gateways linkid 0 d.bytes).value.2)
    rw [value_bind, value_pure, direct, direct, List.countP_append]
    omega
  · exact Nat.le_add_right _ _

theorem direct_publishToRouters (routers : List Router) (d : Distribution) :
    direct (publishToRouters gateways linkid 0 routers d).value ≤
      direct d + (routers.map (fun r => r.gateways.length)).sum := by
  apply value_forEach_le
  intro r _ d
  exact direct_put gateways linkid r d

end Counting

section Reception

variable (order : ByteOrder) (app : Application) (node : Node) (i : Nat) (m : Nat → UInt8)

theorem analyseAccepted_node :
    (node.analyseAccepted order app i m).value.node.seenNodes = node.seenNodes ∧
      (node.analyseAccepted order app i m).value.node.routers = node.routers := by
  by_cases htopic : getTopicId ⟨m⟩ = 0
  · rw [Node.analyseAccepted]
    rw [value_bind, value_getAt, messageAt_zero, if_pos htopic]
    split
    · exact ⟨rfl, rfl⟩
    · exact ⟨rfl, rfl⟩
  · rw [node.analyseAccepted_of_topic order app i m htopic]
    exact ⟨rfl, rfl⟩

theorem analyse_routers :
    (node.analyseAndDistributeMessagesFromNetwork order app i m).value.node.routers =
      node.routers := by
  rw [Node.analyseAndDistributeMessagesFromNetwork]
  rw [value_bind]
  split
  · rfl
  · rw [value_bind]
    split
    · rw [value_bind]
      split
      · rfl
      · rw [value_bind]
        exact (analyseAccepted_node order app _ i _).2
    · rfl

theorem analyse_seenNodes_of_accepts (h : node.Accepts ⟨m⟩) :
    (node.analyseAndDistributeMessagesFromNetwork order app i m).value.node.seenNodes =
      (messageSeen node.seenNodes ⟨m⟩).table := by
  rw [node.analyse_of_accepts order app i m h]
  exact (analyseAccepted_node order app (node.enrolled ⟨m⟩) i _).1

/-- A message that is not accepted may have been looked up all the same. -/
theorem analyse_seenNodes_of_not_accepts (h : ¬ node.Accepts ⟨m⟩) :
    (node.analyseAndDistributeMessagesFromNetwork order app i m).value.node.seenNodes =
        node.seenNodes ∨
      (messageSeen node.seenNodes ⟨m⟩).seen = true ∧
        (node.analyseAndDistributeMessagesFromNetwork order app i m).value.node.seenNodes =
          (messageSeen node.seenNodes ⟨m⟩).table := by
  rw [Node.analyseAndDistributeMessagesFromNetwork]
  rw [value_bind, value_getAt, messageAt_zero]
  split
  · exact .inl rfl
  · rename_i hsender
    rw [value_bind]
    split
    · rename_i hsum
      rw [value_isCheckSumOkAt, messageAt_zero] at hsum
      rw [value_bind, Node.value_messageSeenAt]
      split
      · rename_i hseen
        exact .inr ⟨hseen, rfl⟩
      · rename_i hseen
        exact absurd ⟨hsender, hsum, Bool.eq_false_iff.mpr hseen⟩ h
    · exact .inl rfl

theorem direct_eq_zero {d : Distribution} (h : ∀ s ∈ d.sent, s.base = headerSize) :
    direct d = 0 := by
  apply List.countP_eq_zero.mpr
  intro s hs
  rw [h s hs]
  decide

theorem direct_analyseAccepted :
    direct (node.analyseAccepted order app i m).value.distribution ≤ fanout node := by
  by_cases htopic : getTopicId ⟨m⟩ = 0
  · rw [node.analyseAccepted_of_report order app i m htopic]
    exact Nat.zero_le _
  · rw [node.analyseAccepted_of_topic order app i m htopic]
    have hpublished := node.publishedFrom_published app i ⟨m⟩
    have hrouted := direct_publishToRouters node.gateways
      (node.gateways i).linkinterface.linkIdentifier node.routers (node.published app i ⟨m⟩)
    rw [direct_eq_zero hpublished.sent, Nat.zero_add] at hrouted
    dsimp only
    rw [Node.distribute]
    rw [value_bind, Node.value_receivedInfoAt, value_bind, value_bind, value_pure]
    exact hrouted

theorem direct_analyse :
    direct (node.analyseAndDistributeMessagesFromNetwork order app i m).value.distribution ≤
      fanout node := by
  by_cases hacc : node.Accepts ⟨m⟩
  · rw [node.analyse_of_accepts order app i m hacc]
    exact direct_analyseAccepted order app (node.enrolled ⟨m⟩) i _
  · rw [node.analyse_of_not_accepts order app i m hacc]
    exact Nat.zero_le _

end Reception

/-- What the table knows of a sender is never forgotten, and the times do not fall. -/
def Grows (t t' : SeenNodes) : Prop :=
  ∀ s last, stored t s = some last → ∃ last', stored t' s = some last' ∧ last ≤ last'

section Tables

variable (order : ByteOrder) (app : Application) {node : Node} (i : Nat) {m : Nat → UInt8}

theorem Grows.refl (t : SeenNodes) : Grows t t := fun _ last h => ⟨last, h, le_rfl⟩

theorem judges_of_recent (hwf : WellFormed node.seenNodes) (hrecent : Recent node ⟨m⟩) :
    Judges node.seenNodes ⟨m⟩ (messageSeen node.seenNodes ⟨m⟩) :=
  messageSeen_judges hwf hrecent.2.1 hrecent.1

theorem newer_of_accepts (hwf : WellFormed node.seenNodes) (hrecent : Recent node ⟨m⟩)
    (hacc : node.Accepts ⟨m⟩) {last : Int}
    (hlast : stored node.seenNodes (getSenderNode ⟨m⟩) = some last) : last < getSentTime ⟨m⟩ := by
  have hjudges := judges_of_recent hwf hrecent
  have hnot : ¬ Seen node.seenNodes ⟨m⟩ := by
    rw [← hjudges.seen, hacc.2.2]
    exact Bool.false_ne_true
  by_contra hold
  exact hnot ⟨last, hlast, not_lt.mp hold, hrecent.2.2 last hlast⟩

theorem table_of_accepts (hwf : WellFormed node.seenNodes) (hrecent : Recent node ⟨m⟩)
    (hacc : node.Accepts ⟨m⟩) :
    stored (node.analyseAndDistributeMessagesFromNetwork order app i m).value.node.seenNodes
      (getSenderNode ⟨m⟩) = some (getSentTime ⟨m⟩) := by
  rw [analyse_seenNodes_of_accepts order app node i m hacc,
    (judges_of_recent hwf hrecent).stored, if_pos ⟨rfl, hacc.2.2⟩]

theorem table_analyse (hwf : WellFormed node.seenNodes) (hrecent : Recent node ⟨m⟩) :
    WellFormed (node.analyseAndDistributeMessagesFromNetwork order app i m).value.node.seenNodes ∧
      Grows node.seenNodes
        (node.analyseAndDistributeMessagesFromNetwork order app i m).value.node.seenNodes := by
  have hjudges := judges_of_recent hwf hrecent
  by_cases hacc : node.Accepts ⟨m⟩
  · rw [analyse_seenNodes_of_accepts order app node i m hacc]
    refine ⟨hjudges.wellFormed, ?_⟩
    intro s last hlast
    by_cases hs : s = getSenderNode ⟨m⟩
    · rw [hs] at hlast ⊢
      refine ⟨getSentTime ⟨m⟩, ?_, (newer_of_accepts hwf hrecent hacc hlast).le⟩
      rw [hjudges.stored, if_pos ⟨rfl, hacc.2.2⟩]
    · refine ⟨last, ?_, le_rfl⟩
      rw [hjudges.stored, if_neg (fun hc => hs hc.1)]
      exact hlast
  · obtain hsame | ⟨hseen, htable⟩ := analyse_seenNodes_of_not_accepts order app node i m hacc
    · rw [hsame]
      exact ⟨hwf, Grows.refl _⟩
    · rw [htable]
      refine ⟨hjudges.wellFormed, ?_⟩
      intro s last hlast
      refine ⟨last, ?_, le_rfl⟩
      rw [hjudges.stored, if_neg (fun hc => Bool.false_ne_true (hc.2.symm.trans hseen))]
      exact hlast

end Tables

/-- How often the routers of a node have sent copies of a publication on. -/
def forwards (s : Network) (n j : Nat) : Nat :=
  s.flight.countP (fun c => c.node = n ∧ c.forwarded = true ∧ c.publication = some j)

/-- What holds in every run. A node that has forwarded a copy of a publication remembers a message
of its sender that is not older. -/
structure Bounded (limit : Nat → Nat) (s : Network) : Prop where
  tables : ∀ n, WellFormed (s.nodes n).seenNodes
  fanout : ∀ n, fanout (s.nodes n) ≤ limit n
  copies : ∀ c ∈ s.flight, ∀ j, c.publication = some j →
    getLen c.message ≤ maxNetworkMessageLength ∧ s.publications[j]? = some (identity c.message)
  remembered : ∀ c ∈ s.flight, c.forwarded = true → ∀ j, c.publication = some j →
    ∃ last, stored (s.nodes c.node).seenNodes (getSenderNode c.message) = some last ∧
      getSentTime c.message ≤ last
  once : ∀ n j, forwards s n j ≤ limit n

section Runs

variable {limit : Nat → Nat} {s : Network}

theorem identity_congr {msg msg' : NetworkMessage} (h : header msg = header msg') :
    identity msg = identity msg' := by
  have hsender := congrArg Header.senderNode h
  have htime := congrArg Header.sentTime h
  simp only [header] at hsender htime
  rw [identity]
  rw [hsender, htime]
  rfl

theorem identity_inj {msg msg' : NetworkMessage} (h : identity msg = identity msg') :
    getSenderNode msg = getSenderNode msg' ∧ getSentTime msg = getSentTime msg' := by
  rwa [identity, identity, Prod.mk.injEq] at h

theorem identity_of_forwards {node : Node} {msg : NetworkMessage} {sending : Sending}
    (h : node.Forwards msg sending) :
    identity sending.message = identity msg ∧ getLen sending.message = getLen msg := by
  have hfield : ∀ off n, 12 ≤ off → off + n ≤ headerSize →
      getField off n sending.message = getField off n msg := by
    intro off n hlow hhigh
    apply getField_congr
    intro k hk
    rw [h.header (off + k) (by omega) (.inr (by omega))]
    exact bytes_decremented msg (.inr (by omega))
  have hsender := hfield 16 4 (by decide) (by decide)
  have htime := hfield 20 8 (by decide) (by decide)
  have hlen := hfield 14 2 (by decide) (by decide)
  unfold identity getSenderNode getSentTime
  rw [hsender, htime]
  exact ⟨rfl, hlen⟩

theorem identity_of_transports {kind : LinkKind} (hkind : kind ≠ .can) {msg inMsg : NetworkMessage}
    (h : Transports kind msg inMsg) (hlen : getLen msg ≤ maxNetworkMessageLength) :
    identity inMsg = identity msg ∧ getLen inMsg = getLen msg := by
  have hbytes : ∀ j < headerSize + getLen msg, inMsg.bytes j = msg.bytes j := by
    cases kind with
    | can => exact absurd rfl hkind
    | uart | udp | sharedMemory => exact h hlen
  have hheader : header inMsg = header msg := header_congr (fun j hj => hbytes j (by omega))
  exact ⟨identity_congr hheader, congrArg Header.len hheader⟩

theorem forwards_append {flight copies : List Copy} (h : ∀ c ∈ copies, c.forwarded = false)
    (publications : List (Int × Int)) (n j : Nat) :
    forwards { s with flight := flight ++ copies, publications := publications } n j =
      forwards { s with flight := flight } n j := by
  have hnone : copies.countP (fun c => c.node = n ∧ c.forwarded = true ∧
      c.publication = some j) = 0 := by
    apply List.countP_eq_zero.mpr
    intro c hc
    simp [h c hc]
  unfold forwards
  rw [List.countP_append, hnone, Nat.add_zero]

theorem Bounded.publication (h : Bounded limit s) (n : Nat) (msg : NetworkMessage)
    (sent : List (Nat × NetworkMessage)) (hsent : ∀ c ∈ sent,
      getLen c.2 ≤ maxNetworkMessageLength ∧ identity c.2 = identity msg) :
    Bounded limit (s.publication n msg sent) where
  tables := h.tables
  fanout := h.fanout
  copies := by
    refine List.forall_mem_append.mpr ⟨?_, ?_⟩
    · intro c hc j hj
      obtain ⟨hlen, hidentity⟩ := h.copies c hc j hj
      obtain ⟨hlt, -⟩ := List.getElem?_eq_some_iff.mp hidentity
      refine ⟨hlen, ?_⟩
      rw [← hidentity]
      exact List.getElem?_append_left hlt
    · rw [List.forall_mem_map]
      rintro c hc _ ⟨⟩
      refine ⟨(hsent c hc).1, ?_⟩
      rw [(hsent c hc).2]
      exact List.getElem?_concat_length
  remembered := by
    refine List.forall_mem_append.mpr ⟨h.remembered, ?_⟩
    rw [List.forall_mem_map]
    rintro c - ⟨⟩
  once := by
    intro m j
    refine (forwards_append ?_ _ m j).trans_le (h.once m j)
    rw [List.forall_mem_map]
    exact fun _ _ => rfl

theorem Bounded.inject (h : Bounded limit s) (n i : Nat) (msg : NetworkMessage) :
    Bounded limit { s with flight := s.flight ++ [⟨n, i, msg, none, false⟩] } where
  tables := h.tables
  fanout := h.fanout
  copies := by
    refine List.forall_mem_append.mpr ⟨h.copies, List.forall_mem_singleton.mpr ?_⟩
    rintro _ ⟨⟩
  remembered := by
    refine List.forall_mem_append.mpr ⟨h.remembered, List.forall_mem_singleton.mpr ?_⟩
    rintro ⟨⟩
  once := by
    intro m j
    exact (forwards_append (List.forall_mem_singleton.mpr rfl) _ m j).trans_le (h.once m j)

/-- A node may change if it forgets nothing. -/
theorem Bounded.update (h : Bounded limit s) {n : Nat} {node : Node}
    (hwf : WellFormed node.seenNodes) (hfanout : Flooding.fanout node ≤ limit n)
    (hgrows : Grows (s.nodes n).seenNodes node.seenNodes) :
    Bounded limit { s with nodes := Function.update s.nodes n node } where
  tables := by
    intro m
    by_cases hm : m = n
    · rw [hm]
      simpa using hwf
    · simpa [hm] using h.tables m
  fanout := by
    intro m
    by_cases hm : m = n
    · rw [hm]
      simpa using hfanout
    · simpa [hm] using h.fanout m
  copies := h.copies
  remembered := by
    intro c hc hforwarded j hj
    obtain ⟨last, hlast, hle⟩ := h.remembered c hc hforwarded j hj
    by_cases hnode : c.node = n
    · rw [hnode] at hlast ⊢
      obtain ⟨last', hlast', hle'⟩ := hgrows _ last hlast
      exact ⟨last', by simpa using hlast', hle.trans hle'⟩
    · exact ⟨last, by simpa [hnode] using hlast, hle⟩
  once := h.once

theorem forwards_eq_zero (h : Bounded limit s) {n : Nat} {inMsg : NetworkMessage}
    (hrecent : Recent (s.nodes n) inMsg) (hacc : (s.nodes n).Accepts inMsg) {j : Nat}
    (hj : s.publications[j]? = some (identity inMsg)) : forwards s n j = 0 := by
  apply List.countP_eq_zero.mpr
  intro c hc hcounts
  obtain ⟨rfl, hforwarded, hpublication⟩ := of_decide_eq_true hcounts
  obtain ⟨last, hlast, hle⟩ := h.remembered c hc hforwarded j hpublication
  have hsame : identity c.message = identity inMsg :=
    Option.some.inj ((h.copies c hc j hpublication).2.symm.trans hj)
  obtain ⟨hsender, htime⟩ := identity_inj hsame
  rw [hsender] at hlast
  rw [htime] at hle
  exact absurd hle (not_le.mpr (newer_of_accepts (h.tables c.node) hrecent hacc hlast))

/-- Of what is sent on, only the message itself is a copy of its publication. -/
theorem countP_forward (n : Nat) (publication : Option Nat) (m j : Nat) (sent : List Sending) :
    (sent.map (forward n publication)).countP (fun c => c.node = m ∧ c.forwarded = true ∧
      c.publication = some j) ≤
      if m = n ∧ publication = some j then sent.countP (fun sending => sending.base = 0)
      else 0 := by
  rw [List.countP_map]
  split
  · apply List.countP_mono_left
    intro sending _ hcounts
    obtain ⟨-, -, hpublication⟩ := of_decide_eq_true hcounts
    rw [forward] at hpublication
    by_contra hbase
    rw [if_neg (by simpa using hbase)] at hpublication
    cases hpublication
  · rename_i hother
    apply Nat.le_of_eq
    apply List.countP_eq_zero.mpr
    intro sending _ hcounts
    obtain ⟨hnode, -, hpublication⟩ := of_decide_eq_true hcounts
    rw [forward] at hpublication
    split at hpublication
    · exact hother ⟨hnode.symm, hpublication⟩
    · cases hpublication

section Delivery

variable {c : Copy} {n : Nat} {inMsg : NetworkMessage} {received : Received}

theorem Bounded.carried (h : Bounded limit s) (hc : c ∈ s.flight) {kind : LinkKind}
    (htransports : Transports kind c.message inMsg) (hkind : kind ≠ .can) {j : Nat}
    (hj : c.publication = some j) :
    (identity inMsg = identity c.message ∧ getLen inMsg = getLen c.message) ∧
      getLen c.message ≤ maxNetworkMessageLength ∧
      s.publications[j]? = some (identity inMsg) := by
  obtain ⟨hlen, hidentity⟩ := h.copies c hc j hj
  have hsame := identity_of_transports hkind htransports hlen
  refine ⟨hsame, hlen, ?_⟩
  rw [hsame.1]
  exact hidentity

theorem forwards_of_publication {node : Node} {sending : Sending}
    (hsends : sending.base = headerSize ∨ sending.base = 0 ∧ node.Forwards inMsg sending) {j : Nat}
    (hj : (forward n c.publication sending).publication = some j) :
    c.publication = some j ∧ node.Forwards inMsg sending := by
  rw [forward] at hj
  obtain hbase | ⟨hbase, hforwards⟩ := hsends
  · rw [hbase] at hj
    cases hj
  · rw [hbase] at hj
    exact ⟨hj, hforwards⟩

theorem copies_receive (h : Bounded limit s)
    (hcarried : ∀ j, c.publication = some j → getLen inMsg ≤ maxNetworkMessageLength ∧
      s.publications[j]? = some (identity inMsg))
    (hsent : ∀ sending ∈ received.distribution.sent, ∀ j,
      (forward n c.publication sending).publication = some j →
        c.publication = some j ∧ (s.nodes n).Forwards inMsg sending) :
    ∀ c' ∈ (receive s n c.publication received).flight, ∀ j, c'.publication = some j →
      getLen c'.message ≤ maxNetworkMessageLength ∧
        s.publications[j]? = some (identity c'.message) := by
  refine List.forall_mem_append.mpr ⟨h.copies, ?_⟩
  rw [List.forall_mem_map]
  intro sending hsending j hj
  obtain ⟨hpublication, hforwards⟩ := hsent sending hsending j hj
  obtain ⟨hle, hidentity⟩ := hcarried j hpublication
  obtain ⟨hsame, hlength⟩ := identity_of_forwards hforwards
  refine ⟨hlength.trans_le hle, ?_⟩
  change s.publications[j]? = some (identity sending.message)
  rw [hsame]
  exact hidentity

theorem remembered_receive
    (hstored : (s.nodes n).Accepts inMsg →
      stored received.node.seenNodes (getSenderNode inMsg) = some (getSentTime inMsg))
    (hsent : ∀ sending ∈ received.distribution.sent, ∀ j,
      (forward n c.publication sending).publication = some j →
        c.publication = some j ∧ (s.nodes n).Forwards inMsg sending) :
    ∀ c' ∈ received.distribution.sent.map (forward n c.publication), c'.forwarded = true →
      ∀ j, c'.publication = some j → ∃ last,
        stored ((receive s n c.publication received).nodes c'.node).seenNodes
          (getSenderNode c'.message) = some last ∧ getSentTime c'.message ≤ last := by
  rw [List.forall_mem_map]
  intro sending hsending _ j hj
  obtain ⟨-, hforwards⟩ := hsent sending hsending j hj
  obtain ⟨hsame, -⟩ := identity_of_forwards hforwards
  obtain ⟨hsender, htime⟩ := identity_inj hsame
  refine ⟨getSentTime inMsg, ?_, htime.le⟩
  change stored (Function.update s.nodes n received.node n).seenNodes
    (getSenderNode sending.message) = _
  rw [Function.update_self, hsender]
  exact hstored hforwards.accepts

theorem once_receive (h : Bounded limit s) (hrecent : Recent (s.nodes n) inMsg)
    (hidentity : ∀ j, c.publication = some j → s.publications[j]? = some (identity inMsg))
    (hdirect : direct received.distribution ≤ Flooding.fanout (s.nodes n))
    (hempty : ¬(s.nodes n).Accepts inMsg → received.distribution.sent = []) (m j : Nat) :
    forwards (receive s n c.publication received) m j ≤ limit m := by
  have hcount := countP_forward n c.publication m j received.distribution.sent
  have hold := h.once m j
  unfold forwards receive at *
  rw [List.countP_append]
  split at hcount
  · rename_i hcopy
    obtain ⟨rfl, hpublication⟩ := hcopy
    have hlimit := h.fanout m
    by_cases hacc : (s.nodes m).Accepts inMsg
    · have hnone := forwards_eq_zero h hrecent hacc (hidentity j hpublication)
      unfold forwards at hnone
      unfold direct at hdirect
      omega
    · rw [hempty hacc] at hcount ⊢
      simpa using hold
  · omega

theorem Bounded.deliver (h : Bounded limit s) (order : ByteOrder) (app : Application)
    (hc : c ∈ s.flight) {i : Nat}
    (htransports : Transports ((s.nodes n).gateways i).linkinterface.kind c.message inMsg)
    (hkind : ((s.nodes n).gateways i).linkinterface.kind ≠ .can)
    (hrecent : Recent (s.nodes n) inMsg) :
    Bounded limit (receive s n c.publication
      ((s.nodes n).analyseAndDistributeMessagesFromNetwork order app i inMsg.bytes).value) := by
  have hsends := (s.nodes n).sent_analyse order app i inMsg.bytes
  have hdirect := direct_analyse order app (s.nodes n) i inMsg.bytes
  have hrouters := analyse_routers order app (s.nodes n) i inMsg.bytes
  obtain ⟨hwf, hgrows⟩ := table_analyse order app i (h.tables n) hrecent
  have hstored := table_of_accepts order app i (h.tables n) hrecent
  have hempty := (s.nodes n).analyse_of_not_accepts order app i inMsg.bytes
  generalize ((s.nodes n).analyseAndDistributeMessagesFromNetwork order app i
    inMsg.bytes).value = received at *
  have hfanout : Flooding.fanout received.node ≤ limit n := by
    rw [Flooding.fanout, hrouters]
    exact h.fanout n
  have hupdated := h.update hwf hfanout hgrows
  have hcarried := fun j (hj : c.publication = some j) => h.carried hc htransports hkind hj
  have hsent : ∀ sending ∈ received.distribution.sent, ∀ j,
      (forward n c.publication sending).publication = some j →
        c.publication = some j ∧ (s.nodes n).Forwards inMsg sending :=
    fun sending hsending j hj => forwards_of_publication (hsends sending hsending) hj
  constructor
  · exact hupdated.tables
  · exact hupdated.fanout
  · refine copies_receive h (fun j hj => ?_) hsent
    obtain ⟨⟨-, hlen⟩, hle, hidentity⟩ := hcarried j hj
    exact ⟨hlen.trans_le hle, hidentity⟩
  · exact List.forall_mem_append.mpr ⟨hupdated.remembered, remembered_receive hstored hsent⟩
  · exact once_receive h hrecent (fun j hj => (hcarried j hj).2.2) hdirect
      fun hacc => by rw [hempty hacc]

end Delivery

section Publications

variable (netMsg : NetworkMessage) (topicId : UInt32) (data : List UInt8) (info : NetMsgInfo)

theorem Bounded.publish (h : Bounded limit s) (n i : Nat) :
    Bounded limit (publish s n i netMsg topicId data info) := by
  rw [Flooding.publish]
  split
  · apply h.publication
    rw [List.forall_mem_singleton]
    exact ⟨(prepareNetworkMessage_spec netMsg topicId data info).1, rfl⟩
  · exact h

/-- A router that sends what is published on its own node changes nothing but the checksum. -/
theorem Bounded.putGeneric (h : Bounded limit s) (n : Nat) (r : Router) :
    Bounded limit (putGeneric s n r netMsg topicId data info) := by
  apply h.publication
  rw [List.forall_mem_map]
  intro sending hsending
  obtain ⟨-, -, -, m', hsame, hmessage⟩ := r.sent_routeMsg _ _ _ _ sending hsending
  have hfield : ∀ off k, 12 ≤ off → getField off k sending.message =
      getField off k (prepareNetworkMessage netMsg topicId data info) := by
    intro off k hoff
    rw [hmessage, hsame.getField (.inr hoff), messageAt_zero]
  have hsender := hfield 16 4 (by decide)
  have htime := hfield 20 8 (by decide)
  have hlen : getLen sending.message =
      getLen (prepareNetworkMessage netMsg topicId data info) := hfield 14 2 (by decide)
  refine ⟨hlen.trans_le (prepareNetworkMessage_spec netMsg topicId data info).1, ?_⟩
  unfold identity getSenderNode getSentTime
  dsimp only
  rw [hsender, htime]

end Publications

variable {order : ByteOrder} {app : Nat → Application} {wired : Nat × Nat → Nat × Nat → Bool}

theorem Bounded.step {e : Event} {t : Network} (h : Bounded limit s) (hok : Ok limit e s)
    (hs : step order app wired e s = some t) : Bounded limit t := by
  cases e with
  | publish n i networkOutMessage topicId data info =>
    cases hs
    exact h.publish networkOutMessage topicId data info n i
  | putGeneric n k localMessage topicId data info =>
    obtain ⟨r, -, rfl⟩ := Option.map_eq_some_iff.mp hs
    exact h.putGeneric localMessage topicId data info n r
  | inject n i msg =>
    cases hs
    exact h.inject n i msg
  | reconfigure n node =>
    cases hs
    have hwf : WellFormed { node with seenNodes := (s.nodes n).seenNodes }.seenNodes := h.tables n
    exact h.update hwf hok (Grows.refl _)
  | deliver k n i inMsg =>
    obtain ⟨hkind, hrecent⟩ := hok
    obtain ⟨c, hc, hs⟩ := Option.bind_eq_some_iff.mp hs
    split at hs
    · rename_i hdelivers
      cases hs
      exact h.deliver order (app n) (List.mem_of_getElem? hc) hdelivers.2 hkind hrecent
    · cases hs

variable (order app wired)

end Runs

section Ring

open HopLimit (relay link circular onLink news)

/-- Nodes 1 and 2 send everything to each other over UART. -/
def ring : Network where
  nodes n := relay n (fun i => link .uart (n * 10 + i))
  flight := []
  publications := []

end Ring

end Rodos.Flooding
