import Rodos.GatewayReceive

namespace Rodos.LocalDelivery

open AccessTrace Traced ByteMemory NetworkMessage DuplicateSuppression

/-- Two states of the buffer that hold the same message with `len` bytes of
user data. What lies behind the buffer is the same. -/
def SameMessage (len : Nat) (m m' : Nat → UInt8) : Prop :=
  ∀ j, j < headerSize + len ∨ networkMessageSize ≤ j → m j = m' j

/-- Whatever the application does, what its subscribers are handed does not
depend on what earlier messages have left in the buffer. -/
def Independent (order : ByteOrder) (node : Node) (i : Nat) (msg : NetworkMessage) : Prop :=
  ∀ (app : Application) (m' : Nat → UInt8), SameMessage (getLen msg) msg.bytes m' →
    (node.analyseAndDistributeMessagesFromNetwork order app i m').value.distribution.handed =
      (node.analyseAndDistributeMessagesFromNetwork order app i msg.bytes).value.distribution.handed

def Listens (t : Topic) : Prop := ∃ s ∈ t.mySubscribers, s.isEnabled = true

/-- The topic reaches into the part of the buffer that the message has not
filled. -/
def Stale (len : Nat) (t : Topic) : Prop := len < min t.msgLen maxNetworkMessageLength

/-- No subscriber listens to a topic that is longer than the message, nor to
one that comes after such a topic with a filter. -/
def Clean (len : Nat) (topics : List Topic) : Prop :=
  (∀ t ∈ topics, Stale len t → ¬ Listens t) ∧
    topics.Pairwise (fun t u => Stale len t → t.topicFilter.isSome → ¬ Listens u)

def topicsOf (node : Node) (topicId : Nat) : List Topic :=
  node.topicList.filter (fun t => t.topicId = topicId)

def Covered (node : Node) (msg : NetworkMessage) : Prop :=
  Clean (getLen msg) (topicsOf node (getTopicId msg)) ∧
    (getTopicId msg = defaultRouterTopicId → getLen msg < maxNetworkMessageLength →
      ∀ r ∈ node.routers, r.isEnabled = false)

section Agreement

variable {S : Nat → Prop} {m m' : Nat → UInt8}

theorem callInPlace_agree (f : List UInt8 → List UInt8) {data len : Nat}
    (hS : ∀ k < len, S (data + k)) (h : ∀ j, S j → m j = m' j) :
    ∀ j, S j → callInPlace f data len m j = callInPlace f data len m' j := by
  intro j hj
  have hread : read m data len = read m' data len :=
    (read_eq_iff m m' data len).mpr (fun k hk => h _ (hS k hk))
  rw [callInPlace]
  rw [hread]
  exact write_congr _ _ (h j hj)

variable (app : Application) (t : Topic) (netMsgInfo : NetMsgInfo) {data lenToSend : Nat}
  (hS : ∀ k < lenToSend, S (data + k))
include hS

theorem callFilter_agree (f : Nat → Nat → NetMsgInfo → List UInt8 → List UInt8)
    (h : ∀ j, S j → m j = m' j) :
    ∀ j, S j → t.callFilter netMsgInfo data lenToSend f m j =
      t.callFilter netMsgInfo data lenToSend f m' j := by
  unfold Topic.callFilter
  cases t.topicFilter with
  | none => exact h
  | some filter => exact callInPlace_agree _ hS h

theorem callSubscribers_agree (subscribers : List Subscriber) (h : ∀ j, S j → m j = m' j) :
    (t.callSubscribers app netMsgInfo data lenToSend subscribers m).handed =
        (t.callSubscribers app netMsgInfo data lenToSend subscribers m').handed ∧
      ∀ j, S j → (t.callSubscribers app netMsgInfo data lenToSend subscribers m).bytes j =
        (t.callSubscribers app netMsgInfo data lenToSend subscribers m').bytes j := by
  induction subscribers generalizing m m' with
  | nil => exact ⟨rfl, h⟩
  | cons s subscribers ih =>
    unfold Topic.callSubscribers
    split
    · obtain ⟨hhanded, hbytes⟩ :=
        ih (callInPlace_agree (app.put s.object t.topicId netMsgInfo) hS h)
      have hread : read m data lenToSend = read m' data lenToSend :=
        (read_eq_iff m m' data lenToSend).mpr (fun k hk => h _ (hS k hk))
      exact ⟨congrArg₂ List.cons hread hhanded, hbytes⟩
    · exact ih h

end Agreement

theorem publish_agree {S : Nat → Prop} {m m' : Nat → UInt8} (app : Application) (t : Topic)
    (netMsgInfo : NetMsgInfo) {data : Nat} (hS : ∀ k < t.msgLen, S (data + k))
    (h : ∀ j, S j → m j = m' j) :
    (t.publish app netMsgInfo data m).handed = (t.publish app netMsgInfo data m').handed ∧
      ∀ j, S j → (t.publish app netMsgInfo data m).bytes j =
        (t.publish app netMsgInfo data m').bytes j := by
  have hprolog := callFilter_agree t netMsgInfo hS app.prolog h
  obtain ⟨hhanded, hbytes⟩ := callSubscribers_agree app t netMsgInfo hS t.mySubscribers hprolog
  exact ⟨hhanded, callFilter_agree t netMsgInfo hS app.epilog hbytes⟩

theorem callSubscribers_of_not_listens (app : Application) (t : Topic) (netMsgInfo : NetMsgInfo)
    (data lenToSend : Nat) {subscribers : List Subscriber}
    (h : ∀ s ∈ subscribers, s.isEnabled = false) (m : Nat → UInt8) :
    t.callSubscribers app netMsgInfo data lenToSend subscribers m = ⟨m, []⟩ := by
  induction subscribers with
  | nil => rfl
  | cons s subscribers ih =>
    obtain ⟨hs, hrest⟩ := List.forall_mem_cons.mp h
    rw [Topic.callSubscribers]
    rw [if_neg (by simp [hs]), ih hrest]

section

variable {t : Topic} (h : ¬ Listens t) (app : Application) (netMsgInfo : NetMsgInfo) (data : Nat)
  (m : Nat → UInt8)
include h

theorem publish_handed_of_not_listens : (t.publish app netMsgInfo data m).handed = [] := by
  have hdisabled : ∀ s ∈ t.mySubscribers, s.isEnabled = false := by
    simpa [Listens] using h
  rw [Topic.publish, Topic.publishMsgPart]
  rw [callSubscribers_of_not_listens app t netMsgInfo data t.msgLen hdisabled]

theorem publish_bytes_of_not_listens (hfilter : t.topicFilter = none) :
    (t.publish app netMsgInfo data m).bytes = m := by
  have hdisabled : ∀ s ∈ t.mySubscribers, s.isEnabled = false := by
    simpa [Listens] using h
  rw [Topic.publish, Topic.publishMsgPart]
  rw [callSubscribers_of_not_listens app t netMsgInfo data t.msgLen hdisabled]
  simp [Topic.callFilter, hfilter]

end

def handedFrom (app : Application) (netMsgInfo : NetMsgInfo) :
    List Topic → (Nat → UInt8) → List (List UInt8)
  | [], _ => []
  | t :: topics, m => (t.publish app netMsgInfo headerSize m).handed ++
      handedFrom app netMsgInfo topics (t.publish app netMsgInfo headerSize m).bytes

theorem handedFrom_eq_nil (app : Application) (netMsgInfo : NetMsgInfo) {topics : List Topic}
    (h : ∀ t ∈ topics, ¬ Listens t) (m : Nat → UInt8) :
    handedFrom app netMsgInfo topics m = [] := by
  induction topics generalizing m with
  | nil => rfl
  | cons t topics ih =>
    obtain ⟨ht, htopics⟩ := List.forall_mem_cons.mp h
    rw [handedFrom, publish_handed_of_not_listens ht, ih htopics, List.append_nil]

theorem foldl_publishTopic (app : Application) (netMsgInfo : NetMsgInfo) (topicId : Nat)
    (topics : List Topic) (d : Distribution) :
    (topics.foldl (Node.publishTopic app netMsgInfo topicId) d).handed =
      d.handed ++
        handedFrom app netMsgInfo (topics.filter (fun t => t.topicId = topicId)) d.bytes := by
  induction topics generalizing d with
  | nil => simp [handedFrom]
  | cons t topics ih =>
    rw [List.foldl_cons, ih]
    rw [Node.publishTopic]
    split
    · rename_i ht
      simp [ht, handedFrom]
    · rename_i ht
      simp [ht]

theorem handedFrom_congr (app : Application) (netMsgInfo : NetMsgInfo) {len : Nat}
    {topics : List Topic} (h : Clean len topics) {m m' : Nat → UInt8} (hm : SameMessage len m m') :
    handedFrom app netMsgInfo topics m = handedFrom app netMsgInfo topics m' := by
  induction topics generalizing m m' with
  | nil => rfl
  | cons t topics ih =>
    obtain ⟨hlisten, hpairs⟩ := h
    obtain ⟨ht, hlisten⟩ := List.forall_mem_cons.mp hlisten
    obtain ⟨hafter, hpairs⟩ := List.pairwise_cons.mp hpairs
    by_cases hstale : Stale len t
    · have hnot := ht hstale
      rw [handedFrom, handedFrom, publish_handed_of_not_listens hnot,
        publish_handed_of_not_listens hnot]
      cases hfilter : t.topicFilter with
      | none =>
        rw [publish_bytes_of_not_listens hnot _ _ _ _ hfilter,
          publish_bytes_of_not_listens hnot _ _ _ _ hfilter]
        exact congrArg _ (ih ⟨hlisten, hpairs⟩ hm)
      | some filter =>
        have hrest : ∀ u ∈ topics, ¬ Listens u :=
          fun u hu => hafter u hu hstale (by rw [hfilter]; rfl)
        rw [handedFrom_eq_nil app netMsgInfo hrest, handedFrom_eq_nil app netMsgInfo hrest]
    · have hcover : ∀ k < t.msgLen, headerSize + k < headerSize + len ∨
          networkMessageSize ≤ headerSize + k := by
        intro k hk
        rw [Stale] at hstale
        rw [networkMessageSize]
        omega
      obtain ⟨hhanded, hbytes⟩ := publish_agree
        (S := fun j => j < headerSize + len ∨ networkMessageSize ≤ j) app t netMsgInfo hcover hm
      rw [handedFrom, handedFrom, hhanded, ih ⟨hlisten, hpairs⟩ hbytes]

section Spy

variable (k : Nat)

def copyDown (bs : List UInt8) : List UInt8 :=
  match bs[k]? with
  | some b => bs.set 0 b
  | none => bs

/-- An application whose filters look at the byte `k`. -/
def spy : Application where
  prolog _ _ _ := copyDown k
  epilog _ _ _ := id
  put _ _ _ := id

theorem callInPlace_id (data len : Nat) (m : Nat → UInt8) : callInPlace id data len m = m := by
  funext j
  by_cases hj : data ≤ j ∧ j < data + len
  · have hlt : j - data < len := by omega
    have hadd : data + (j - data) = j := by omega
    simp [callInPlace, write, hj, hlt, hadd]
  · exact callInPlace_outside id data len m (by omega)

theorem callInPlace_copyDown {data len : Nat} (hlen : 0 < len) (m : Nat → UInt8) :
    callInPlace (copyDown k) data len m =
      if k < len then Function.update m data (m (data + k)) else m := by
  by_cases hk : k < len
  · have hcopy : copyDown k (ByteMemory.read m data len) =
        (ByteMemory.read m data len).set 0 (m (data + k)) := by
      simp [copyDown, hk]
    rw [if_pos hk]
    funext j
    by_cases hj : data ≤ j ∧ j < data + len
    · have hlt : j - data < len := by omega
      have hadd : data + (j - data) = j := by omega
      by_cases hzero : j = data
      · subst hzero
        simp [callInPlace, hcopy, write, hlen]
      · have hpos : 0 ≠ j - data := by omega
        simp [callInPlace, hcopy, write, hj, hlt, hadd, hzero, hpos]
    · rw [callInPlace_outside _ data len m (by omega), Function.update_of_ne (by omega)]
  · have hcopy : copyDown k (ByteMemory.read m data len) = ByteMemory.read m data len := by
      simp [copyDown, hk]
    rw [if_neg hk]
    rw [callInPlace]
    rw [hcopy]
    exact callInPlace_id data len m

variable (t : Topic) (netMsgInfo : NetMsgInfo) (m : Nat → UInt8)

def peeked : Nat → UInt8 :=
  if t.topicFilter.isSome ∧ k < t.msgLen then Function.update m headerSize (m (headerSize + k))
  else m

theorem peeked_at : peeked k t m (headerSize + k) = m (headerSize + k) := by
  rw [peeked]
  split
  · by_cases hk : headerSize + k = headerSize
    · rw [hk, Function.update_self]
    · rw [Function.update_of_ne hk]
  · rfl

theorem peeked_front {t : Topic} (h : t.topicFilter.isSome ∧ k < t.msgLen) :
    peeked k t m headerSize = m (headerSize + k) := by
  rw [peeked]
  rw [if_pos h, Function.update_self]

theorem peeked_front_ne {m m' : Nat → UInt8} (hk : m (headerSize + k) ≠ m' (headerSize + k))
    (hfront : m headerSize ≠ m' headerSize) :
    peeked k t m headerSize ≠ peeked k t m' headerSize := by
  by_cases h : t.topicFilter.isSome ∧ k < t.msgLen
  · rw [peeked_front k m h, peeked_front k m' h]
    exact hk
  · unfold peeked
    rw [if_neg h, if_neg h]
    exact hfront

theorem callFilter_prolog_spy :
    t.callFilter netMsgInfo headerSize t.msgLen (spy k).prolog m = peeked k t m := by
  rw [Topic.callFilter, peeked]
  cases t.topicFilter with
  | none => simp
  | some filter => simpa [spy] using callInPlace_copyDown k t.msgLen_pos m

theorem callFilter_epilog_spy :
    t.callFilter netMsgInfo headerSize t.msgLen (spy k).epilog m = m := by
  rw [Topic.callFilter]
  cases t.topicFilter with
  | none => rfl
  | some filter => exact callInPlace_id headerSize t.msgLen m

theorem callSubscribers_spy (subscribers : List Subscriber) :
    t.callSubscribers (spy k) netMsgInfo headerSize t.msgLen subscribers m =
      ⟨m, (subscribers.filter (fun s => s.isEnabled)).map
        (fun _ => ByteMemory.read m headerSize t.msgLen)⟩ := by
  induction subscribers with
  | nil => rfl
  | cons s subscribers ih =>
    have hcall :
        callInPlace ((spy k).put s.object t.topicId netMsgInfo) headerSize t.msgLen m = m :=
      callInPlace_id headerSize t.msgLen m
    rw [Topic.callSubscribers]
    rw [hcall, ih]
    cases hs : s.isEnabled <;> simp [hs]

theorem publish_spy : t.publish (spy k) netMsgInfo headerSize m =
    ⟨peeked k t m, (t.mySubscribers.filter (fun s => s.isEnabled)).map
      (fun _ => ByteMemory.read (peeked k t m) headerSize t.msgLen)⟩ := by
  rw [Topic.publish, Topic.publishMsgPart]
  rw [callFilter_prolog_spy, callSubscribers_spy, callFilter_epilog_spy]

variable {t m} {m' : Nat → UInt8} {topics : List Topic}

theorem read_of_handed_eq (hlisten : Listens t)
    (h : (t.publish (spy k) netMsgInfo headerSize m).handed =
      (t.publish (spy k) netMsgInfo headerSize m').handed) :
    ∀ j < t.msgLen, peeked k t m (headerSize + j) = peeked k t m' (headerSize + j) := by
  rw [publish_spy, publish_spy, List.map_inj_left] at h
  obtain ⟨s, hs, henabled⟩ := hlisten
  exact (read_eq_iff _ _ _ _).mp (h s (List.mem_filter.mpr ⟨hs, henabled⟩))

theorem handedFrom_spy_cons
    (h : handedFrom (spy k) netMsgInfo (t :: topics) m =
      handedFrom (spy k) netMsgInfo (t :: topics) m') :
    (t.publish (spy k) netMsgInfo headerSize m).handed =
        (t.publish (spy k) netMsgInfo headerSize m').handed ∧
      handedFrom (spy k) netMsgInfo topics (peeked k t m) =
        handedFrom (spy k) netMsgInfo topics (peeked k t m') := by
  rw [handedFrom, handedFrom] at h
  have hlen : (t.publish (spy k) netMsgInfo headerSize m).handed.length =
      (t.publish (spy k) netMsgInfo headerSize m').handed.length := by
    rw [publish_spy, publish_spy, List.length_map, List.length_map]
  obtain ⟨hhanded, hrest⟩ := List.append_inj h hlen
  rw [publish_spy, publish_spy] at hrest
  exact ⟨hhanded, hrest⟩

theorem not_listens_of_front (hk : m (headerSize + k) ≠ m' (headerSize + k))
    (hfront : m headerSize ≠ m' headerSize)
    (h : handedFrom (spy k) netMsgInfo topics m = handedFrom (spy k) netMsgInfo topics m') :
    ∀ t ∈ topics, ¬ Listens t := by
  induction topics generalizing m m' with
  | nil => exact List.forall_mem_nil _
  | cons t topics ih =>
    obtain ⟨hhanded, hrest⟩ := handedFrom_spy_cons k netMsgInfo h
    have hfront' := peeked_front_ne k t hk hfront
    rw [List.forall_mem_cons]
    refine ⟨?_, ih (by rwa [peeked_at, peeked_at]) hfront' hrest⟩
    intro hlisten
    exact hfront' (read_of_handed_eq k netMsgInfo hlisten hhanded 0 t.msgLen_pos)

/-- The spy tells two states of the buffer apart unless all topics are clean. -/
theorem clean_of_handedFrom_eq (hk : m (headerSize + k) ≠ m' (headerSize + k))
    (h : handedFrom (spy k) netMsgInfo topics m = handedFrom (spy k) netMsgInfo topics m') :
    Clean k topics := by
  induction topics generalizing m m' with
  | nil => exact ⟨List.forall_mem_nil _, List.Pairwise.nil⟩
  | cons t topics ih =>
    obtain ⟨hhanded, hrest⟩ := handedFrom_spy_cons k netMsgInfo h
    have hk' : peeked k t m (headerSize + k) ≠ peeked k t m' (headerSize + k) := by
      rwa [peeked_at, peeked_at]
    obtain ⟨hlisten, hpairs⟩ := ih hk' hrest
    rw [Clean]
    rw [List.forall_mem_cons, List.pairwise_cons]
    refine ⟨⟨?_, hlisten⟩, ?_, hpairs⟩
    · intro hstale ht
      exact hk' (read_of_handed_eq k netMsgInfo ht hhanded k
        (lt_of_lt_of_le hstale (min_le_left _ _)))
    · intro u hu hstale hfilter
      have hlt : k < t.msgLen := lt_of_lt_of_le hstale (min_le_left _ _)
      refine not_listens_of_front k netMsgInfo hk' ?_ hrest u hu
      rwa [peeked_front k m ⟨hfilter, hlt⟩, peeked_front k m' ⟨hfilter, hlt⟩]

end Spy

section Routers

variable (gateways : Nat → Gateway) (linkid base : Nat)

theorem publishToRouters_of_disabled {routers : List Router}
    (h : ∀ r ∈ routers, r.isEnabled = false) (d : Distribution) :
    publishToRouters gateways linkid base routers d = pure d := by
  rw [publishToRouters]
  induction routers with
  | nil => rfl
  | cons r routers ih =>
    obtain ⟨hr, hrouters⟩ := List.forall_mem_cons.mp h
    rw [forEach, Router.put, if_neg (by simp [hr])]
    exact ih hrouters

def Extends (l : List (List UInt8)) (d : Distribution) : Prop := l <+: d.handed

theorem Extends.head_inj {x y : List UInt8} {d d' : Distribution} (h : Extends [x] d)
    (h' : Extends [y] d') (heq : d.handed = d'.handed) : x = y := by
  obtain ⟨t, ht⟩ := h
  obtain ⟨t', ht'⟩ := h'
  exact (List.cons.inj (ht.trans (heq.trans ht'.symm))).1

theorem Extends.route {l : List (List UInt8)} {d : Distribution} (h : Extends l d)
    (routed : Traced Span ((Nat → UInt8) × List Sending)) (x : List UInt8) :
    Extends l (routed >>= fun routed =>
      pure ⟨routed.1, d.handed ++ [x], d.sent ++ routed.2⟩).value :=
  h.trans (List.prefix_append _ _)

theorem extends_publishToRouters (routers : List Router) {l : List (List UInt8)}
    {d : Distribution} (h : Extends l d) :
    Extends l (publishToRouters gateways linkid base routers d).value := by
  rw [publishToRouters]
  apply value_forEach (Extends l)
  · intro r _ d' ih
    rw [Router.put]
    split
    · exact ih.route _ _
    · exact ih
  · exact h

theorem Extends.first {d : Distribution}
    (routed : Traced Span ((Nat → UInt8) × List Sending)) (x : List UInt8) :
    Extends (d.handed ++ [x]) (routed >>= fun routed =>
      pure ⟨routed.1, d.handed ++ [x], d.sent ++ routed.2⟩).value :=
  List.prefix_refl _

/-- A router is handed a whole message, however short the user data is. -/
theorem extends_of_enabled {routers : List Router} (h : ∃ r ∈ routers, r.isEnabled = true)
    (d : Distribution) :
    Extends (d.handed ++ [ByteMemory.read d.bytes base networkMessageSize])
      (publishToRouters gateways linkid base routers d).value := by
  induction routers with
  | nil =>
    obtain ⟨r, hr, -⟩ := h
    cases hr
  | cons r routers ih =>
    rw [publishToRouters]
    rw [forEach, value_bind, Router.put]
    by_cases hr : r.isEnabled = true
    · rw [if_pos hr]
      exact extends_publishToRouters gateways linkid base routers (Extends.first _ _)
    · rw [if_neg hr]
      obtain ⟨r', hr', henabled⟩ := h
      obtain rfl | hmem := List.mem_cons.mp hr'
      · exact absurd henabled hr
      · exact ih ⟨r', hmem, henabled⟩

theorem extends_of_enabled_nil {routers : List Router} (h : ∃ r ∈ routers, r.isEnabled = true)
    (m : Nat → UInt8) :
    Extends [ByteMemory.read m base networkMessageSize]
      (publishToRouters gateways linkid base routers ⟨m, [], []⟩).value :=
  extends_of_enabled gateways linkid base h ⟨m, [], []⟩

end Routers

section Received

variable {node : Node} {order : ByteOrder} {app : Application} {i : Nat} {m m' : Nat → UInt8}

theorem published_handed_of_ne {msg : NetworkMessage} (h : getTopicId msg ≠ defaultRouterTopicId) :
    (node.published app i msg).handed =
      handedFrom app (receivedInfo (node.gateways i).linkinterface.linkIdentifier msg)
        (topicsOf node (getTopicId msg)) msg.bytes := by
  rw [Node.published, Node.publishLocally]
  rw [if_neg h, value_pure]
  rw [Node.publishTopics]
  rw [foldl_publishTopic, List.nil_append]
  rfl

theorem topicsOf_router : topicsOf node defaultRouterTopicId = [] := by
  rw [topicsOf]
  rw [List.filter_eq_nil_iff]
  intro t ht
  simpa using node.topicList_ids t ht

theorem published_of_router {msg : NetworkMessage} (h : getTopicId msg = defaultRouterTopicId) :
    node.published app i msg =
      (publishToRouters node.gateways (node.gateways i).linkinterface.linkIdentifier headerSize
        node.routers ⟨msg.bytes, [], []⟩).value := by
  rw [Node.published, Node.publishLocally]
  rw [if_pos h, Node.publishTopics_router app node _ h]

theorem handed_of_received {r : Received} {d : Distribution} {l : List (List UInt8)}
    (hr : r = ⟨node, d⟩) (hd : d.handed = l) : r.distribution.handed = l := by
  subst hr
  exact hd

theorem handed_analyse (hacc : node.Accepts ⟨m⟩) (htopic : getTopicId ⟨m⟩ ≠ 0) :
    (node.analyseAndDistributeMessagesFromNetwork order app i m).value.distribution.handed =
      ((node.enrolled ⟨m⟩).published app i (Node.decremented ⟨m⟩)).handed := by
  have htopic' : getTopicId (Node.decremented ⟨m⟩) ≠ 0 := by
    rwa [getTopicId_decremented]
  refine handed_of_received ((node.analyse_of_accepts order app i m hacc).trans
    (Node.analyseAccepted_of_topic order app (node.enrolled ⟨m⟩) i _ htopic')) ?_
  apply Node.distribute_spec app (node.enrolled ⟨m⟩) i (Node.decremented ⟨m⟩).bytes
    (fun d => d.handed = _)
  intro forwarded _
  rfl

theorem SameMessage.header {len : Nat} (h : SameMessage len m m') : header ⟨m'⟩ = header ⟨m⟩ :=
  header_congr (fun j hj => (h j (.inl (by omega))).symm)

theorem SameMessage.accepts (h : SameMessage (getLen ⟨m⟩) m m') (hacc : node.Accepts ⟨m⟩) :
    node.Accepts ⟨m'⟩ := by
  have hsender := congrArg Header.senderNode h.header
  have htime := congrArg Header.sentTime h.header
  simp only [NetworkMessage.header] at hsender htime
  have hsum : isCheckSumOk ⟨m'⟩ ↔ isCheckSumOk ⟨m⟩ :=
    isCheckSumOk_congr (fun j hj => (h j (.inl hj)).symm)
  rw [Node.Accepts, messageSeen]
  rw [hsender, htime, hsum]
  exact hacc

theorem SameMessage.decremented {len : Nat} (h : SameMessage len m m') :
    SameMessage len (Node.decremented ⟨m⟩).bytes (Node.decremented ⟨m'⟩).bytes := by
  have hsteps := congrArg Header.maxStepsToForward h.header
  simp only [NetworkMessage.header] at hsteps
  intro j hj
  unfold Node.decremented putMaxStepsToForward putField
  rw [hsteps]
  exact write_congr _ _ (h j hj)

theorem receivedInfo_congr (linkIdentifier : Nat) {msg msg' : NetworkMessage}
    (h : NetworkMessage.header msg' = NetworkMessage.header msg) :
    receivedInfo linkIdentifier msg' = receivedInfo linkIdentifier msg := by
  simp only [NetworkMessage.header, Header.mk.injEq] at h
  obtain ⟨hreceiver, hbitmap, -, -, htype, -, hsender, htime, hthread, -⟩ := h
  unfold receivedInfo
  rw [hreceiver, hbitmap, htype, hsender, htime, hthread]

theorem clean_of_full {len : Nat} (h : maxNetworkMessageLength ≤ len) (topics : List Topic) :
    Clean len topics := by
  have hnot : ∀ t, ¬ Stale len t := by
    intro t hstale
    rw [Stale] at hstale
    omega
  refine ⟨fun t _ hstale => absurd hstale (hnot t), ?_⟩
  apply List.pairwise_of_forall
  intro t u hstale
  exact absurd hstale (hnot t)

def altered (m : Nat → UInt8) (len : Nat) : Nat → UInt8 :=
  Function.update m (headerSize + len) (m (headerSize + len) + 1)

theorem sameMessage_altered {len : Nat} (h : len < maxNetworkMessageLength) (m : Nat → UInt8) :
    SameMessage len m (altered m len) := by
  intro j hj
  rw [networkMessageSize] at hj
  exact (Function.update_of_ne (by omega) _ _).symm

theorem altered_ne (m : Nat → UInt8) (len : Nat) :
    (Node.decremented ⟨m⟩).bytes (headerSize + len) ≠
      (Node.decremented ⟨altered m len⟩).bytes (headerSize + len) := by
  have hafter : 10 ≤ headerSize + len := Nat.le_add_right_of_le (by decide)
  rw [bytes_decremented _ (.inr hafter), bytes_decremented _ (.inr hafter)]
  simp [altered]

end Received

section Main

variable (order : ByteOrder) {node : Node} (i : Nat) {msg : NetworkMessage}
  (hacc : node.Accepts msg) (htopic : 0 < getTopicId msg)
include hacc htopic

theorem handed_eq_handedFrom (hne : getTopicId msg ≠ defaultRouterTopicId) (app : Application)
    {m' : Nat → UInt8} (h : SameMessage (getLen msg) msg.bytes m') :
    (node.analyseAndDistributeMessagesFromNetwork order app i m').value.distribution.handed =
      handedFrom app (receivedInfo (node.gateways i).linkinterface.linkIdentifier
          (Node.decremented msg)) (topicsOf node (getTopicId msg))
            (Node.decremented ⟨m'⟩).bytes := by
  obtain ⟨m⟩ := msg
  have htopic' : getTopicId ⟨m'⟩ = getTopicId ⟨m⟩ := congrArg Header.topicId h.header
  have hheader : header (Node.decremented ⟨m'⟩) = header (Node.decremented ⟨m⟩) :=
    h.decremented.header
  rw [handed_analyse (h.accepts hacc) (by omega), published_handed_of_ne]
  · rw [getTopicId_decremented, htopic', receivedInfo_congr _ hheader]
    rfl
  · rw [getTopicId_decremented, htopic']
    exact hne

theorem handed_eq_routers (hrouter : getTopicId msg = defaultRouterTopicId) (app : Application)
    {m' : Nat → UInt8} (h : SameMessage (getLen msg) msg.bytes m') :
    (node.analyseAndDistributeMessagesFromNetwork order app i m').value.distribution.handed =
      (publishToRouters node.gateways (node.gateways i).linkinterface.linkIdentifier headerSize
        node.routers ⟨(Node.decremented ⟨m'⟩).bytes, [], []⟩).value.handed := by
  obtain ⟨m⟩ := msg
  have htopic' : getTopicId ⟨m'⟩ = getTopicId ⟨m⟩ := congrArg Header.topicId h.header
  have hrouter' : getTopicId (Node.decremented ⟨m'⟩) = defaultRouterTopicId :=
    (getTopicId_decremented ⟨m'⟩).trans (htopic'.trans hrouter)
  rw [handed_analyse (h.accepts hacc) (by omega), published_of_router hrouter']
  rfl

theorem independent_of_covered (h : Covered node msg) : Independent order node i msg := by
  intro app m' hsame
  have hself : SameMessage (getLen msg) msg.bytes msg.bytes := fun _ _ => rfl
  by_cases hrouter : getTopicId msg = defaultRouterTopicId
  · rw [handed_eq_routers order i hacc htopic hrouter app hsame,
      handed_eq_routers order i hacc htopic hrouter app hself]
    by_cases hfull : maxNetworkMessageLength ≤ getLen msg
    · have hbytes : m' = msg.bytes := by
        funext j
        apply (hsame j _).symm
        rw [networkMessageSize]
        omega
      rw [hbytes]
    · have hdisabled := h.2 hrouter (not_le.mp hfull)
      rw [publishToRouters_of_disabled _ _ _ hdisabled,
        publishToRouters_of_disabled _ _ _ hdisabled, value_pure, value_pure]
  · rw [handed_eq_handedFrom order i hacc htopic hrouter app hsame,
      handed_eq_handedFrom order i hacc htopic hrouter app hself]
    exact (handedFrom_congr app _ h.1 (SameMessage.decremented hsame)).symm

theorem covered_of_independent (h : Independent order node i msg) : Covered node msg := by
  have hself : SameMessage (getLen msg) msg.bytes msg.bytes := fun _ _ => rfl
  by_cases hfull : maxNetworkMessageLength ≤ getLen msg
  · exact ⟨clean_of_full hfull _, fun _ hlt => absurd hfull (not_le.mpr hlt)⟩
  have hsame := sameMessage_altered (not_le.mp hfull) msg.bytes
  have heq := h (spy (getLen msg)) (altered msg.bytes (getLen msg)) hsame
  by_cases hrouter : getTopicId msg = defaultRouterTopicId
  · refine ⟨?_, ?_⟩
    · rw [hrouter, topicsOf_router]
      exact ⟨List.forall_mem_nil _, List.Pairwise.nil⟩
    · intro _ _ r hr
      by_contra henabled
      rw [handed_eq_routers order i hacc htopic hrouter _ hsame,
        handed_eq_routers order i hacc htopic hrouter _ hself] at heq
      have hsome : ∃ r ∈ node.routers, r.isEnabled = true :=
        ⟨r, hr, Bool.of_not_eq_false henabled⟩
      have hread := Extends.head_inj (extends_of_enabled_nil _ _ headerSize hsome _)
        (extends_of_enabled_nil _ _ headerSize hsome _) heq
      have hlt : getLen msg < networkMessageSize := by
        rw [networkMessageSize]
        omega
      exact altered_ne msg.bytes _ ((read_eq_iff _ _ _ _).mp hread (getLen msg) hlt).symm
  · refine ⟨?_, fun hrouter' => absurd hrouter' hrouter⟩
    rw [handed_eq_handedFrom order i hacc htopic hrouter _ hsame,
      handed_eq_handedFrom order i hacc htopic hrouter _ hself] at heq
    exact clean_of_handedFrom_eq _ _ (altered_ne msg.bytes _) heq.symm

/-- The topic decides how much its subscribers are handed, whatever length the
message has. -/
theorem independent_iff_covered : Independent order node i msg ↔ Covered node msg :=
  ⟨covered_of_independent order i hacc htopic, independent_of_covered order i hacc htopic⟩

end Main

theorem userTopic_ne : 100 ≠ defaultRouterTopicId := by
  decide +kernel

def listener (msgLen : Nat) (h : 0 < msgLen) : Node where
  myNodeNr := 1
  gateways _ := TopicReports.started.gateway
  routers := []
  topicList := [⟨100, msgLen, h, none, [⟨0, true⟩]⟩]
  topicList_ids := List.forall_mem_singleton.mpr userTopic_ne
  seenNodes := emptyTable

def threeBytes : NetworkMessage := prepareNetworkMessage blank 100 [1, 254, 3] request

theorem accepts_threeBytes {msgLen : Nat} (h : 0 < msgLen) :
    (listener msgLen h).Accepts threeBytes := by
  have hsender : getSenderNode threeBytes ≠ 1 := by decide +kernel
  have hseen : (messageSeen emptyTable threeBytes).seen = false := by decide +kernel
  exact ⟨hsender, isCheckSumOk_prepareNetworkMessage _ _ _ _, hseen⟩

theorem topicsOf_listener (msgLen : Nat) (h : 0 < msgLen) :
    topicsOf (listener msgLen h) (getTopicId threeBytes) = (listener msgLen h).topicList := by
  have htopic : getTopicId threeBytes = 100 := by decide +kernel
  rw [topicsOf]
  rw [htopic]
  rfl

theorem getLen_threeBytes : getLen threeBytes = 3 := by
  decide +kernel

theorem independent_iff_covered_threeBytes :
    Independent .little (listener 3 (by decide)) 0 threeBytes := by
  refine (independent_iff_covered .little 0 (accepts_threeBytes (by decide))
    (by decide +kernel)).mpr ⟨?_, ?_⟩
  · rw [topicsOf_listener, getLen_threeBytes]
    refine ⟨List.forall_mem_singleton.mpr ?_, List.pairwise_singleton _ _⟩
    intro hstale
    exact absurd hstale (by unfold Stale; decide)
  · intro _ _
    exact List.forall_mem_nil _

/-- Three bytes are received and four are handed over. -/
theorem not_independent_threeBytes :
    (listener 4 (by decide)).Accepts threeBytes ∧ 0 < getTopicId threeBytes ∧
      ¬ Independent .little (listener 4 (by decide)) 0 threeBytes := by
  have htopic : 0 < getTopicId threeBytes := by decide +kernel
  refine ⟨accepts_threeBytes (by decide), htopic, ?_⟩
  intro h
  have hclean := (covered_of_independent .little 0 (accepts_threeBytes (by decide)) htopic h).1.1
  rw [topicsOf_listener, getLen_threeBytes] at hclean
  have hstale : Stale 3 ⟨100, 4, by decide, none, [⟨0, true⟩]⟩ := by
    rw [Stale]
    decide
  exact hclean _ (List.mem_singleton_self _) hstale ⟨⟨0, true⟩, List.mem_singleton_self _, rfl⟩

end Rodos.LocalDelivery
