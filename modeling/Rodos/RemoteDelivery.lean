import Rodos.HopLimit
import Rodos.LocalDelivery

namespace Rodos.RemoteDelivery

open AccessTrace Traced ByteMemory NetworkMessage DuplicateSuppression TransitionSystem HopLimit
open CanDelivery (Content contentOf carried)
open LocalDelivery (topicsOf handedFrom)

/-- No filter and no subscriber of the application changes what it is handed. -/
structure Passive (app : Application) : Prop where
  prolog : ∀ filter topicId info, app.prolog filter topicId info = id
  epilog : ∀ filter topicId info, app.epilog filter topicId info = id
  put : ∀ object topicId info, app.put object topicId info = id

/-- What the subscribers of the topics are handed of `data`, each as much as its topic takes. -/
def audience (topics : List Topic) (data : List UInt8) : List (List UInt8) :=
  topics.flatMap (fun t =>
    (t.mySubscribers.filter (fun s => s.isEnabled)).map (fun _ => data.take t.msgLen))

section Passive

variable {app : Application} (h : Passive app) (t : Topic) (netMsgInfo : NetMsgInfo)
  (data lenToSend : Nat) (m : Nat → UInt8)
include h

theorem callFilter_passive :
    t.callFilter netMsgInfo data lenToSend app.prolog m = m ∧
      t.callFilter netMsgInfo data lenToSend app.epilog m = m := by
  unfold Topic.callFilter
  cases t.topicFilter with
  | none => exact ⟨rfl, rfl⟩
  | some filter =>
    refine ⟨?_, ?_⟩
    · change callInPlace (app.prolog filter t.topicId netMsgInfo) data lenToSend m = m
      rw [h.prolog]
      exact LocalDelivery.callInPlace_id data lenToSend m
    · change callInPlace (app.epilog filter t.topicId netMsgInfo) data lenToSend m = m
      rw [h.epilog]
      exact LocalDelivery.callInPlace_id data lenToSend m

theorem callSubscribers_passive (subscribers : List Subscriber) :
    t.callSubscribers app netMsgInfo data lenToSend subscribers m =
      ⟨m, (subscribers.filter (fun s => s.isEnabled)).map (fun _ => read m data lenToSend)⟩ := by
  induction subscribers with
  | nil => rfl
  | cons s subscribers ih =>
    rw [Topic.callSubscribers]
    rw [h.put, LocalDelivery.callInPlace_id, ih]
    cases hs : s.isEnabled <;> simp [hs]

theorem publish_passive : t.publish app netMsgInfo data m =
    ⟨m, (t.mySubscribers.filter (fun s => s.isEnabled)).map (fun _ => read m data t.msgLen)⟩ := by
  rw [Topic.publish, Topic.publishMsgPart]
  rw [(callFilter_passive h t netMsgInfo data t.msgLen m).1,
    callSubscribers_passive h t netMsgInfo data t.msgLen m]
  rw [(callFilter_passive h t netMsgInfo data t.msgLen m).2]

/-- As far as the user data reaches, it is what everyone is handed. -/
theorem handedFrom_passive (topics : List Topic) (len : Nat) :
    (handedFrom app netMsgInfo topics m).map (List.take len) =
      audience topics (read m headerSize len) := by
  induction topics with
  | nil => rfl
  | cons t topics ih =>
    rw [handedFrom]
    rw [publish_passive h, List.map_append, ih]
    have hcut : List.take len (read m headerSize t.msgLen) =
        List.take t.msgLen (read m headerSize len) := by
      rw [take_read, take_read, Nat.min_comm]
    simp only [audience, List.flatMap_cons, List.map_map, List.append_cancel_right_eq]
    apply List.map_congr_left
    intro s _
    exact hcut

theorem bytes_foldl_passive (topicId : Nat) (topics : List Topic) (d : Distribution) :
    (topics.foldl (Node.publishTopic app netMsgInfo topicId) d).bytes = d.bytes ∧
      (topics.foldl (Node.publishTopic app netMsgInfo topicId) d).sent = d.sent := by
  induction topics generalizing d with
  | nil => exact ⟨rfl, rfl⟩
  | cons t topics ih =>
    obtain ⟨hbytes, hsent⟩ := ih (Node.publishTopic app netMsgInfo topicId d t)
    rw [List.foldl_cons, hbytes, hsent]
    rw [Node.publishTopic]
    split
    · rw [publish_passive h]
      exact ⟨rfl, rfl⟩
    · exact ⟨rfl, rfl⟩

theorem published_passive (node : Node) (i : Nat) {msg : NetworkMessage}
    (htopic : getTopicId msg ≠ defaultRouterTopicId) :
    (node.published app i msg).bytes = msg.bytes ∧ (node.published app i msg).sent = [] := by
  rw [Node.published, Node.publishLocally]
  rw [if_neg htopic, value_pure]
  exact bytes_foldl_passive h _ _ _ _

end Passive

structure Copied (base : Nat) (m : Nat → UInt8) (s : Sending) : Prop where
  place : s.base = base
  message : ∃ m', SameButCheckSum base m' m ∧ s.message = messageAt m' base
  checkSum : isCheckSumOk s.message

section Routers

variable (base : Nat) (gateways : Nat → Gateway) (linkid : Nat) (m : Nat → UInt8)

theorem messageAt_setCheckSumAt :
    messageAt (setCheckSumAt base m).value base = setCheckSum (messageAt m base) := by
  have hvalue : (setCheckSumAt base m).value =
      write m (base + 10) (toBigEndian 2 (calculateCheckSum (messageAt m base)).toNat) := rfl
  rw [hvalue]
  rw [setCheckSum, putCheckSum, putField, messageAt]
  congr
  funext j
  unfold write
  simp only [messageAt]
  by_cases hj : 10 ≤ j
  · have hsub : base + j - (base + 10) = j - 10 := by omega
    simp [hj, hsub]
  · simp [hj]

theorem copied_routeMsg (r : Router) :
    ∀ s ∈ (r.routeMsg gateways linkid base m).value.2, Copied base m s := by
  apply Router.value_routeMsg gateways linkid base r m (fun p => ∀ s ∈ p.2, Copied base m s)
  · exact List.forall_mem_nil _
  · intro _
    apply value_forEach (fun sent : List Sending => ∀ s ∈ sent, Copied base m s)
    · intro i _ sent ih
      obtain hsent | hsent :=
        Router.value_sendTo gateways linkid base (setCheckSumAt base m).value i sent
      · rw [hsent]
        exact ih
      · rw [hsent, List.forall_mem_append]
        refine ⟨ih, List.forall_mem_singleton.mpr ⟨rfl, ⟨_, value_setCheckSumAt base m, rfl⟩, ?_⟩⟩
        have hok := isCheckSumOk_setCheckSum (messageAt m base)
        rwa [← messageAt_setCheckSumAt] at hok
    · exact List.forall_mem_nil _

variable {base m}

theorem Copied.congr {m' : Nat → UInt8} (hm : SameButCheckSum base m m') {s : Sending}
    (hs : Copied base m s) : Copied base m' s := by
  obtain ⟨hbase, ⟨m'', hsame, hmessage⟩, hok⟩ := hs
  exact ⟨hbase, ⟨m'', hsame.trans hm, hmessage⟩, hok⟩

structure Copying (base : Nat) (d d' : Distribution) : Prop where
  bytes : SameButCheckSum base d'.bytes d.bytes
  sent : ∀ s ∈ d'.sent, Copied base d.bytes s

theorem Copying.route {d d' : Distribution} (h : Copying base d d')
    {routed : Traced Span ((Nat → UInt8) × List Sending)}
    (hsame : SameButCheckSum base routed.value.1 d'.bytes)
    (hcopied : ∀ s ∈ routed.value.2, Copied base d'.bytes s) (handed : List (List UInt8)) :
    Copying base d
      (routed >>= fun routed => pure ⟨routed.1, handed, d'.sent ++ routed.2⟩).value := by
  refine ⟨hsame.trans h.bytes, List.forall_mem_append.mpr ⟨h.sent, ?_⟩⟩
  intro s hs
  exact (hcopied s hs).congr h.bytes

variable (base) in
theorem copying_publishToRouters (routers : List Router) (d : Distribution)
    (hsent : d.sent = []) :
    Copying base d (publishToRouters gateways linkid base routers d).value := by
  rw [publishToRouters]
  apply value_forEach (Copying base d)
  · intro r _ d' ih
    rw [Router.put]
    split
    · exact ih.route (r.bytes_routeMsg gateways linkid base d'.bytes)
        (copied_routeMsg base gateways linkid d'.bytes r) _
    · exact ih
  · refine ⟨fun _ _ => rfl, ?_⟩
    rw [hsent]
    exact List.forall_mem_nil _

end Routers

section Contents

theorem contentOf_congr {msg msg' : NetworkMessage}
    (h : ∀ j < headerSize + getLen msg, j < 8 ∨ 12 ≤ j → msg'.bytes j = msg.bytes j) :
    contentOf msg' = contentOf msg := by
  have hfield : ∀ off n, 12 ≤ off → off + n ≤ headerSize →
      getField off n msg' = getField off n msg := by
    intro off n hoff hn
    exact getField_congr (fun k hk => h (off + k) (by omega) (by omega))
  have hlen : getLen msg' = getLen msg := hfield 14 2 (by decide) (by decide)
  have htopic : getTopicId msg' = getTopicId msg := hfield 32 4 (by decide) (by decide)
  have hsender : getSenderNode msg' = getSenderNode msg := by
    unfold getSenderNode
    rw [hfield 16 4 (by decide) (by decide)]
  have hdata : userData msg' = userData msg := by
    unfold userData
    rw [hlen, read_eq_iff]
    intro k hk
    exact h (headerSize + k) (by omega) (.inr (by unfold headerSize; omega))
  rw [contentOf, contentOf]
  rw [htopic, hsender, hlen, hdata]

theorem contentOf_decremented (msg : NetworkMessage) :
    contentOf (Node.decremented msg) = contentOf msg :=
  contentOf_congr (fun _ _ hj => bytes_decremented msg (by omega))

theorem contentOf_copied {m : Nat → UInt8} {s : Sending} (h : Copied 0 m s) :
    contentOf s.message = contentOf ⟨m⟩ := by
  obtain ⟨-, ⟨m', hsame, hmessage⟩, -⟩ := h
  rw [hmessage, messageAt_zero]
  apply contentOf_congr
  intro j _ hj
  exact hsame j (by omega)

/-- What is published, as far as a message has room for it. -/
def publication (topicId : UInt32) (data : List UInt8) (netMsgInfo : NetMsgInfo) : Content where
  topicId := topicId.toNat
  senderNode := netMsgInfo.senderNode.toInt
  len := (data.take maxNetworkMessageLength).length
  data := data.take maxNetworkMessageLength

theorem contentOf_prepareNetworkMessage (netMsg : NetworkMessage) (topicId : UInt32)
    (data : List UInt8) (netMsgInfo : NetMsgInfo) :
    contentOf (prepareNetworkMessage netMsg topicId data netMsgInfo) =
      publication topicId data netMsgInfo := by
  have hfits : (data.take maxNetworkMessageLength).length ≤ maxNetworkMessageLength :=
    List.length_take_le _ _
  have hheader := header_prepareNetworkMessage netMsg topicId netMsgInfo hfits
  have hdata := userData_prepareNetworkMessage netMsg topicId netMsgInfo hfits
  rw [prepareNetworkMessage_take] at hheader hdata
  simp only [header, Header.mk.injEq] at hheader
  obtain ⟨-, -, -, -, -, hlen, hsender, -, -, htopic⟩ := hheader
  rw [contentOf, publication]
  rw [hlen, hsender, htopic, hdata]

/-- What a CAN link leaves of the topic id and the sender. -/
def overCan (c : Content) : Content :=
  { c with topicId := c.topicId % 2 ^ 16, senderNode := c.senderNode % 2 ^ 8 }

/-- What arrives of a content on a way with or without CAN links. -/
def along (c : Content) : Bool → Content
  | true => overCan c
  | false => c

theorem carried_eq (msg : NetworkMessage) : carried msg = overCan (contentOf msg) := by
  rw [carried, overCan, contentOf]

theorem overCan_along (c : Content) (viaCan : Bool) : overCan (along c viaCan) = overCan c := by
  cases viaCan with
  | false => rfl
  | true =>
    rw [along, overCan, overCan]
    rw [Nat.mod_mod, Int.emod_emod]

theorem contentOf_transported {kind : LinkKind} {msg inMsg : NetworkMessage}
    (h : Transports kind msg inMsg) (hlen : getLen msg ≤ maxNetworkMessageLength) {c : Content}
    {viaCan : Bool} (hc : contentOf msg = along c viaCan) :
    contentOf inMsg = along c (viaCan || kind = .can) := by
  cases kind with
  | can =>
    obtain ⟨hcarried, -⟩ := h
    rw [hcarried, carried_eq, hc, overCan_along]
    rw [decide_eq_true rfl, Bool.or_true, along]
  | uart | udp | sharedMemory =>
    have hsame : contentOf inMsg = contentOf msg := contentOf_congr (fun j hj _ => h hlen j hj)
    rw [hsame, hc]
    simp

end Contents

/-- The message has the content of a publication, which is not one for the routers. -/
def Genuine (published : Set Content) (viaCan : Bool) (msg : NetworkMessage) : Prop :=
  ∃ c ∈ published, c.len ≤ maxNetworkMessageLength ∧
    c.topicId % 2 ^ 16 ≠ defaultRouterTopicId ∧ contentOf msg = along c viaCan

section Distribute

variable {app : Application} {node : Node} {i : Nat} {m : Nat → UInt8} {P : Sending → Prop}

theorem sent_distribute
    (h : ∀ s ∈ (publishToRouters node.gateways (node.gateways i).linkinterface.linkIdentifier 0
      node.routers (node.published app i ⟨m⟩)).value.sent, P s) :
    ∀ s ∈ (node.distribute app i (getTopicId ⟨m⟩) m).value.sent, P s := by
  rw [Node.distribute]
  rw [value_bind, Node.value_receivedInfoAt, value_bind, value_bind, value_pure]
  exact h

variable (order : ByteOrder) (happ : Passive app)
  (hne : getTopicId ⟨m⟩ ≠ defaultRouterTopicId)
include happ hne

theorem copied_of_sent :
    ∀ s ∈ (node.analyseAndDistributeMessagesFromNetwork order app i m).value.distribution.sent,
      Copied 0 (Node.decremented ⟨m⟩).bytes s := by
  by_cases hacc : node.Accepts ⟨m⟩
  · have haccepted := node.analyse_of_accepts order app i m hacc
    by_cases htopic : getTopicId (Node.decremented ⟨m⟩) = 0
    · refine Node.sent_of_received ((congrArg Received.distribution haccepted).trans
        (Node.analyseAccepted_of_report order app (node.enrolled ⟨m⟩) i _ htopic)) ?_
      exact List.forall_mem_nil _
    · refine Node.sent_of_received (congrArg Received.distribution (haccepted.trans
        (Node.analyseAccepted_of_topic order app (node.enrolled ⟨m⟩) i _ htopic))) ?_
      have hne' : getTopicId (Node.decremented ⟨m⟩) ≠ defaultRouterTopicId :=
        (getTopicId_decremented ⟨m⟩).trans_ne hne
      obtain ⟨hbytes, hsent⟩ := published_passive happ (node.enrolled ⟨m⟩) i hne'
      have hcopied := (copying_publishToRouters 0 (node.enrolled ⟨m⟩).gateways
        ((node.enrolled ⟨m⟩).gateways i).linkinterface.linkIdentifier
        (node.enrolled ⟨m⟩).routers _ hsent).sent
      rw [hbytes] at hcopied
      exact sent_distribute hcopied
  · refine Node.sent_of_received (node.analyse_of_not_accepts order app i m hacc) ?_
    exact List.forall_mem_nil _

theorem handed_accepted (hacc : node.Accepts ⟨m⟩) (htopic : getTopicId ⟨m⟩ ≠ 0) :
    ((node.analyseAndDistributeMessagesFromNetwork order app i m).value.distribution.handed).map
        (List.take (getLen ⟨m⟩)) =
      audience (topicsOf node (getTopicId ⟨m⟩)) (userData ⟨m⟩) := by
  have hdata := congrArg Content.data (contentOf_decremented ⟨m⟩)
  have hne' : getTopicId (Node.decremented ⟨m⟩) ≠ defaultRouterTopicId :=
    (getTopicId_decremented ⟨m⟩).trans_ne hne
  rw [LocalDelivery.handed_analyse hacc htopic, LocalDelivery.published_handed_of_ne hne',
    getTopicId_decremented, handedFrom_passive happ]
  simp only [contentOf, userData, getLen_decremented] at hdata
  rw [hdata]
  rfl

end Distribute

section Genuine

variable {published : Set Content} {viaCan : Bool} {msg : NetworkMessage}

theorem Genuine.getLen_le (h : Genuine published viaCan msg) :
    getLen msg ≤ maxNetworkMessageLength := by
  obtain ⟨c, -, hlen, -, hcontent⟩ := h
  have hlen' := congrArg Content.len hcontent
  cases viaCan with
  | false | true => exact hlen'.trans_le hlen

theorem Genuine.topic_ne (h : Genuine published viaCan msg) :
    getTopicId msg ≠ defaultRouterTopicId := by
  obtain ⟨c, -, -, htopic, hcontent⟩ := h
  have htopic' : getTopicId msg = (along c viaCan).topicId := congrArg Content.topicId hcontent
  rw [htopic']
  cases viaCan with
  | true => exact htopic
  | false =>
    intro hrouter
    apply htopic
    have hsmall : defaultRouterTopicId < 2 ^ 16 := by decide +kernel
    change c.topicId = _ at hrouter
    rw [hrouter]
    exact Nat.mod_eq_of_lt hsmall

theorem Genuine.congr (h : Genuine published viaCan msg) {msg' : NetworkMessage}
    (hsame : contentOf msg' = contentOf msg) : Genuine published viaCan msg' := by
  rw [Genuine] at h ⊢
  rwa [hsame]

theorem Genuine.transported (h : Genuine published viaCan msg) {kind : LinkKind}
    {inMsg : NetworkMessage} (htransports : Transports kind msg inMsg) :
    Genuine published (viaCan || kind = .can) inMsg := by
  have hmax := h.getLen_le
  obtain ⟨c, hc, hlen, htopic, hcontent⟩ := h
  exact ⟨c, hc, hlen, htopic, contentOf_transported htransports hmax hcontent⟩

variable (order : ByteOrder) (node : Node) (i : Nat)

theorem handed_eq_nil (app : Application) (m : Nat → UInt8)
    (h : ¬ (node.Accepts ⟨m⟩ ∧ getTopicId ⟨m⟩ ≠ 0)) :
    (node.analyseAndDistributeMessagesFromNetwork order app i m).value.distribution.handed =
      [] := by
  by_cases hacc : node.Accepts ⟨m⟩
  · have htopic : getTopicId ⟨m⟩ = 0 := by
      by_contra hne
      exact h ⟨hacc, hne⟩
    have hnone := (congrArg Received.distribution (node.analyse_of_accepts order app i m
      hacc)).trans (Node.analyseAccepted_of_report order app (node.enrolled ⟨m⟩) i _
        ((getTopicId_decremented ⟨m⟩).trans htopic))
    rw [hnone]
  · rw [node.analyse_of_not_accepts order app i m hacc]

end Genuine

/-- The message that comes in has the content, and its data are handed to all who listen to its
topic or, if it is not accepted, to nobody. -/
structure Delivers (order : ByteOrder) (app : Application) (node : Node) (i : Nat) (c : Content)
    (inMsg : NetworkMessage) : Prop where
  content : contentOf inMsg = c
  handed : node.Accepts inMsg ∧ c.topicId ≠ 0 →
    ((node.analyseAndDistributeMessagesFromNetwork order app i
        inMsg.bytes).value.distribution.handed).map (List.take c.len) =
      audience (topicsOf node c.topicId) c.data
  nothing : ¬ (node.Accepts inMsg ∧ c.topicId ≠ 0) →
    (node.analyseAndDistributeMessagesFromNetwork order app i
      inMsg.bytes).value.distribution.handed = []

theorem Genuine.delivers {published : Set Content} {viaCan : Bool} {msg : NetworkMessage}
    (h : Genuine published viaCan msg) (order : ByteOrder) {app : Application}
    (happ : Passive app) (node : Node) (i : Nat) {c : Content} (hc : contentOf msg = c) :
    Delivers order app node i c msg := by
  subst hc
  refine ⟨rfl, ?_, ?_⟩
  · rintro ⟨hacc, htopic⟩
    exact handed_accepted order happ h.topic_ne hacc htopic
  · intro hnot
    exact handed_eq_nil order node i app msg.bytes hnot

/-- What is published is among the publications and is no message for the routers. -/
def Ok (published : Set Content) (e : Event) (_ : Network) : Prop :=
  match e with
  | .publish _ _ _ topicId data netMsgInfo | .putGeneric _ _ _ topicId data netMsgInfo =>
    publication topicId data netMsgInfo ∈ published ∧ topicId.toNat % 2 ^ 16 ≠ defaultRouterTopicId
  | _ => True

instance (published : Set Content) [DecidablePred (· ∈ published)] (e : Event) (s : Network) :
    Decidable (Ok published e s) :=
  match e with
  | .publish _ _ _ topicId data netMsgInfo | .putGeneric _ _ _ topicId data netMsgInfo =>
    inferInstanceAs (Decidable (publication topicId data netMsgInfo ∈ published ∧
      topicId.toNat % 2 ^ 16 ≠ defaultRouterTopicId))
  | .inject .. | .reconfigure .. | .deliver .. => .isTrue trivial

def AllGenuine (published : Set Content) (s : Network) : Prop :=
  ∀ c ∈ s.flight, ∀ p, c.path = some p →
    Genuine published p.sinceCan.isSome c.message ∧ isCheckSumOk c.message

section Runs

variable {published : Set Content} {order : ByteOrder} {app : Nat → Application}
  {wired : Nat × Nat → Nat × Nat → Bool}

theorem genuine_prepared (netMsg : NetworkMessage) {topicId : UInt32} {data : List UInt8}
    {netMsgInfo : NetMsgInfo} (h : publication topicId data netMsgInfo ∈ published ∧
      topicId.toNat % 2 ^ 16 ≠ defaultRouterTopicId) :
    Genuine published false (prepareNetworkMessage netMsg topicId data netMsgInfo) :=
  ⟨_, h.1, List.length_take_le _ _, h.2, contentOf_prepareNetworkMessage netMsg topicId data _⟩

theorem AllGenuine.send {s : Network} (h : AllGenuine published s) {copies : List Copy}
    (hcopies : ∀ c ∈ copies, ∀ p, c.path = some p →
      Genuine published p.sinceCan.isSome c.message ∧ isCheckSumOk c.message) :
    AllGenuine published (s.send copies) :=
  List.forall_mem_append.mpr ⟨h, hcopies⟩

theorem isSome_sinceCan_extend (kind : LinkKind) (p : HopLimit.Path) :
    (p.extend kind).sinceCan.isSome = (p.sinceCan.isSome || kind = .can) := by
  rw [HopLimit.Path.extend]
  split <;> simp_all

theorem AllGenuine.receive {s : Network} (h : AllGenuine published s) {c : Copy}
    (hc : c ∈ s.flight) (happ : ∀ n, Passive (app n)) {n i : Nat} {inMsg : NetworkMessage}
    (htransports : Transports (LinkKind.of s n i) c.message inMsg) :
    AllGenuine published (HopLimit.receive s n i c.path
      ((s.nodes n).analyseAndDistributeMessagesFromNetwork order (app n) i inMsg.bytes).value) := by
  refine List.forall_mem_append.mpr ⟨h, ?_⟩
  rw [List.forall_mem_map]
  intro sending hsending p hp
  rw [forwarded] at hp
  cases hpath : c.path with
  | none => simp [hpath] at hp
  | some p' =>
    have hin := ((h c hc p' hpath).1).transported htransports
    have hcopied := copied_of_sent order (happ n) hin.topic_ne sending hsending
    rw [hcopied.place, if_pos rfl, hpath, Option.map_some, Option.some.injEq] at hp
    rw [← hp, isSome_sinceCan_extend]
    refine ⟨hin.congr ?_, hcopied.checkSum⟩
    exact (contentOf_copied hcopied).trans (contentOf_decremented inMsg)

theorem AllGenuine.step {e : Event} {s t : Network} (h : AllGenuine published s)
    (happ : ∀ n, Passive (app n)) (hok : Ok published e s)
    (hs : HopLimit.step order app wired e s = some t) : AllGenuine published t := by
  cases e with
  | publish n i networkOutMessage topicId data info =>
    cases hs
    rw [publish]
    split
    · apply h.send
      rw [List.forall_mem_singleton]
      rintro p ⟨⟩
      exact ⟨genuine_prepared networkOutMessage hok,
        isCheckSumOk_prepareNetworkMessage networkOutMessage topicId data info⟩
    · exact h
  | putGeneric n k localMessage topicId data info =>
    obtain ⟨r, -, rfl⟩ := Option.map_eq_some_iff.mp hs
    apply h.send
    rw [List.forall_mem_map]
    rintro sending hsending p ⟨⟩
    have hcopied := copied_routeMsg 0 _ _ _ r sending hsending
    exact ⟨(genuine_prepared localMessage hok).congr (contentOf_copied hcopied), hcopied.checkSum⟩
  | inject n i msg =>
    cases hs
    apply h.send
    rw [List.forall_mem_singleton]
    rintro p ⟨⟩
  | reconfigure n node =>
    cases hs
    exact h
  | deliver k n i inMsg =>
    obtain ⟨c, hc, hs⟩ := Option.bind_eq_some_iff.mp hs
    split at hs
    · rename_i hdelivers
      cases hs
      exact h.receive (List.mem_of_getElem? hc) happ hdelivers.2
    · cases hs

theorem reachable_allGenuine (happ : ∀ n, Passive (app n)) {s : Network}
    (h : ReachableUnder Init (HopLimit.step order app wired) (Ok published) s) :
    AllGenuine published s := by
  apply h.invariant (AllGenuine published)
  · intro s hs
    rw [AllGenuine]
    rw [show s.flight = [] from hs]
    exact List.forall_mem_nil _
  · intro e s t ih hok hs
    exact ih.step happ hok hs

variable (order app wired)

/-- Wherever in the network a message comes in, over whatever routers and links it has come:
what the subscribers there are handed is what has been published under their topic. -/
theorem handed_as_published (happ : ∀ n, Passive (app n)) {s : Network}
    (h : ReachableUnder Init (HopLimit.step order app wired) (Ok published) s) {c : Copy}
    (hc : c ∈ s.flight) {p : HopLimit.Path} (hp : c.path = some p) :
    ∃ pub ∈ published, contentOf c.message = along pub p.sinceCan.isSome ∧
      ∀ n i inMsg, Transports (LinkKind.of s n i) c.message inMsg →
        Delivers order (app n) (s.nodes n) i
          (along pub (p.sinceCan.isSome || LinkKind.of s n i = .can)) inMsg ∧
        (LinkKind.of s n i ≠ .can → isCheckSumOk inMsg) := by
  obtain ⟨hgenuine, hsum⟩ := reachable_allGenuine happ h c hc p hp
  have hmax := hgenuine.getLen_le
  obtain ⟨pub, hpub, hlen, htopic, hcontent⟩ := hgenuine
  refine ⟨pub, hpub, hcontent, ?_⟩
  intro n i inMsg htransports
  have harrived := contentOf_transported htransports hmax hcontent
  have hin : Genuine published _ inMsg := ⟨pub, hpub, hlen, htopic, harrived⟩
  refine ⟨hin.delivers order (happ n) (s.nodes n) i harrived, ?_⟩
  intro hkind
  have hbytes : ∀ j < headerSize + getLen c.message, inMsg.bytes j = c.message.bytes j := by
    cases hof : LinkKind.of s n i with
    | can => exact absurd hof hkind
    | uart | udp | sharedMemory =>
      rw [hof] at htransports
      exact htransports hmax
  exact (isCheckSumOk_congr hbytes).mpr hsum

end Runs

section Circle

theorem passive_inert : Passive ReceiveBounds.inert :=
  ⟨fun _ _ _ => rfl, fun _ _ _ => rfl, fun _ _ _ => rfl⟩

def publicationOfNews : Content := publication 1000 [7] news

def overBoth : List Event :=
  [.publish 5 0 blank 1000 [7] news, .deliver 0 1 0 (onLink 10 142 1),
    .deliver 1 2 0 (onLink 5 158 2)]

/-- Node 2 has sent on what has come from node 5 over node 1. -/
theorem handed_as_published_circle : ∃ s c, c ∈ s.flight ∧ c.path = some ⟨2, some 1⟩ ∧
    contentOf c.message = overCan publicationOfNews ∧
    ∀ n i inMsg, Transports (LinkKind.of s n i) c.message inMsg →
      Delivers .little ReceiveBounds.inert (s.nodes n) i (overCan publicationOfNews) inMsg ∧
      (LinkKind.of s n i ≠ .can → isCheckSumOk inMsg) := by
  obtain ⟨s, hs, c, hc, hpath⟩ := exists_reachable Init
    (HopLimit.step .little (fun _ => ReceiveBounds.inert) circular)
    (Ok {c | c = publicationOfNews}) circle rfl overBoth
    (fun s => ∃ c ∈ s.flight, c.path = some ⟨2, some 1⟩) (by decide +kernel)
  obtain ⟨pub, rfl, hcontent, hdelivers⟩ := handed_as_published .little
    (fun _ => ReceiveBounds.inert) circular (fun _ => passive_inert) hs hc hpath
  exact ⟨s, c, hc, hpath, hcontent, hdelivers⟩

end Circle

end Rodos.RemoteDelivery
