import Rodos.CanDelivery
import Rodos.ReceiveBounds
import Rodos.UartLink

namespace Rodos.HopLimit

open AccessTrace Traced ByteMemory NetworkMessage CanFraming CanReceiver TransitionSystem
open CanDelivery (contentOf carried)

/-- What a link makes of a message that it delivers. The CAN link builds the
header anew, the others carry the message as it is. -/
def Transports (kind : LinkKind) (msg inMsg : NetworkMessage) : Prop :=
  match kind with
  | .uart | .udp | .sharedMemory => getLen msg ≤ maxNetworkMessageLength →
      ∀ j < headerSize + getLen msg, inMsg.bytes j = msg.bytes j
  | .can => contentOf inMsg = carried msg ∧ getMaxStepsToForward inMsg = 5

instance (kind : LinkKind) (msg inMsg : NetworkMessage) :
    Decidable (Transports kind msg inMsg) :=
  match kind with
  | .uart | .udp | .sharedMemory =>
    inferInstanceAs (Decidable (getLen msg ≤ maxNetworkMessageLength →
      ∀ j < headerSize + getLen msg, inMsg.bytes j = msg.bytes j))
  | .can =>
    inferInstanceAs (Decidable (contentOf inMsg = carried msg ∧ getMaxStepsToForward inMsg = 5))

section Can

theorem getMaxStepsToForward_startMsg (a : Assembly) (now : Int) (f : CanMsg) :
    getMaxStepsToForward (startMsg a now f).currentMsg = 5 := by
  have hfield : getField 8 2 (startMsg a now f).currentMsg = unsigned 2 5 % 256 ^ 2 := by
    unfold startMsg putLen putTopicId putSentTime putSenderThreadId putSenderNode
      putMaxStepsToForward
    simp (disch := omega) only [getField_putField_of_disjoint, getField_putField, -Nat.reducePow]
  unfold getMaxStepsToForward
  rw [hfield, bmod_unsigned_mod]
  decide

def Counts (a : Assembly) : Prop :=
  a.currentReceiveCANId ≠ 0 → getMaxStepsToForward a.currentMsg = 5

theorem openMsg_counts {a : Assembly} (h : Counts a) (now : Int) (f : CanMsg) :
    Counts (openMsg a now f) := by
  rw [openMsg]
  split
  · intro _
    exact getMaxStepsToForward_startMsg a now f
  · exact h

theorem getMaxStepsToForward_congr {msg msg' : NetworkMessage}
    (h : ∀ j, 8 ≤ j → j < 10 → msg'.bytes j = msg.bytes j) :
    getMaxStepsToForward msg' = getMaxStepsToForward msg := by
  have hfield : getField 8 2 msg' = getField 8 2 msg :=
    getField_congr (fun k hk => h (8 + k) (by omega) (by omega))
  unfold getMaxStepsToForward
  rw [hfield]

theorem storePayload_counts {a : Assembly} (h : Counts a) (f : CanMsg) :
    Counts (storePayload a f) := by
  intro hid
  refine (getMaxStepsToForward_congr ?_).trans (h hid)
  intro j _ hj
  exact write_outside _ _ _ _ (.inl (by unfold headerSize; omega))

theorem getMaxStepsToForward_setCheckSum (msg : NetworkMessage) :
    getMaxStepsToForward (setCheckSum msg) = getMaxStepsToForward msg := by
  apply getMaxStepsToForward_congr
  intro j _ hj
  exact write_outside _ _ _ _ (.inl hj)

theorem appendCANMsg_counts {a : Assembly} (h : Counts a) (now : Int) {f : CanMsg}
    (hf : f.canID ≠ 0) :
    Counts (appendCANMsg a now f).2 ∧ ((appendCANMsg a now f).1 = true →
      getMaxStepsToForward (appendCANMsg a now f).2.currentMsg = 5) := by
  have hopen := openMsg_counts h now f
  have hcurrent : accepts (openMsg a now f) f → (openMsg a now f).currentReceiveCANId ≠ 0 := by
    intro hacc hid
    rw [accepts] at hacc
    rw [if_pos hid, UInt8.lt_iff_toNat_lt] at hacc
    have hfirst : f.sequence = 0 := UInt8.toNat_inj.mp (Nat.eq_zero_of_not_pos hacc)
    rw [openMsg] at hid
    rw [if_pos hfirst] at hid
    exact hf hid
  have hstored := storePayload_counts hopen f
  rw [appendCANMsg]
  split
  · rename_i hacc
    have hsteps := hstored (hcurrent hacc)
    rw [finishFrame]
    split
    · refine ⟨fun hid => absurd rfl hid, fun _ => ?_⟩
      exact (getMaxStepsToForward_setCheckSum _).trans hsteps
    · exact ⟨fun _ => hsteps, fun hdone => by cases hdone⟩
  · exact ⟨hopen, fun hdone => by cases hdone⟩

structure Rebuilds (s : Session) : Prop where
  counts : Counts s.assembly
  delivered : ∀ d ∈ s.delivered, getMaxStepsToForward d = 5

theorem Rebuilds.append {s : Session} (h : Rebuilds s) (now : Int) {f : CanMsg} (hf : f.Valid) :
    Rebuilds (s.append now f) := by
  obtain ⟨hcounts, hdone⟩ := appendCANMsg_counts h.counts now hf.canID_ne
  refine ⟨hcounts, ?_⟩
  rw [Session.append]
  split
  · rename_i hcompletes
    rw [List.forall_mem_append, List.forall_mem_singleton]
    exact ⟨h.delivered, hdone hcompletes⟩
  · exact h.delivered

theorem reachable_rebuilds {r : Receiver} (h : ReachableUnder Start step HasRoom r) :
    Rebuilds r.session := by
  apply h.invariant_with (fun r => Rebuilds r.session)
  · intro r hstart
    obtain ⟨-, -, hid, -, -, hdelivered, -⟩ := hstart
    refine ⟨fun hne => absurd hid hne, ?_⟩
    rw [hdelivered]
    exact List.forall_mem_nil _
  · intro e r r' hr ih _ hs
    have hserved := reachable_served hr
    cases round_of_step hs with
    | call hphase => exact ih
    | endScan now kept hphase => exact ih
    | take now f kept rest hphase hb =>
      refine ih.append now (hserved.parked_valid ?_)
      rw [(hserved.facts_scan hphase).1]
      exact List.mem_append_right _ List.mem_cons_self
    | pass now f kept rest hphase hb => exact ih
    | nothing now hphase => exact ⟨ih.counts, ih.delivered⟩
    | read now f hphase hv hb =>
      have hnote : Rebuilds (r.session.note f) := ⟨ih.counts, ih.delivered⟩
      exact hnote.append now hv
    | park now f hphase hv hb => exact ⟨ih.counts, ih.delivered⟩

end Can

section Links

theorem transports_can {ms : List CanDelivery.Sent} {arrivals : List CanMsg}
    (harr : CanDelivery.Arrives ms arrivals) {l : CanPool.LinkinterfaceCAN}
    (h : ReachableUnder CanPool.Init CanPool.step (fun _ l => CanDelivery.LeavesRoom l) l)
    (hrec : l.session.received <+: arrivals) :
    ∀ d ∈ l.session.delivered, ∃ m ∈ ms, Transports .can m.msg d := by
  obtain ⟨r, hr, hsim⟩ := CanDelivery.exists_receiver h
  rw [← hsim.session_eq] at hrec ⊢
  intro d hd
  have hsub := CanDelivery.delivered_subperm harr (reachable_served hr) hrec
  obtain ⟨m, hm, hcontent⟩ := List.mem_map.mp (hsub.subset (List.mem_map_of_mem hd))
  exact ⟨m, hm, hcontent.symm, (reachable_rebuilds hr).delivered d hd⟩

theorem transports_of_prefix {kind : LinkKind} (hkind : kind ≠ .can) {msg inMsg : NetworkMessage}
    (h : getLen msg ≤ maxNetworkMessageLength →
      ∀ j < headerSize + getLen msg, inMsg.bytes j = msg.bytes j) : Transports kind msg inMsg := by
  cases kind with
  | can => exact absurd rfl hkind
  | uart | udp | sharedMemory => exact h

theorem transports_sizeless (link : ReceiveBounds.SizelessLink) {msg : NetworkMessage}
    {delivered : Nat → UInt8} (h : ∀ j < numberOfBytesToSend msg, delivered j = msg.bytes j)
    (slot networkInMessage : Nat → UInt8) {kind : LinkKind} (hkind : kind ≠ .can) :
    Transports kind msg
      ⟨(ReceiveBounds.getNetworkMsg link delivered slot networkInMessage).value⟩ := by
  apply transports_of_prefix hkind
  intro hlen j hj
  obtain ⟨m⟩ := msg
  have hsize := ReceiveBounds.numberOfBytesToSend_eq hlen
  have hheader : header ⟨delivered⟩ = header ⟨m⟩ :=
    header_congr (fun k hk => h k (by rw [hsize]; omega))
  have hlen' : getLen ⟨delivered⟩ = getLen ⟨m⟩ := congrArg Header.len hheader
  obtain ⟨-, hvalue⟩ := ReceiveBounds.getNetworkMsg_spec slot networkInMessage
    (hlen'.le.trans hlen) link
  have hreceived : ReceiveBounds.received delivered networkInMessage j = delivered j :=
    ReceiveBounds.received_eq networkInMessage (by omega)
  have hsent : delivered j = m j := h j (by omega)
  rw [hvalue]
  exact hreceived.trans hsent

/-- The size check of the gateway drops what the receiver has cut off. -/
theorem transports_uart {msg inMsg received : NetworkMessage} {following : List UInt8} {size : Int}
    (hget : UartLink.getNetworkMsg inMsg
      (S3pFraming.sendMsg (read msg.bytes 0 (numberOfBytesToSend msg)) ++ following) =
        some (true, received, size, following))
    (hsize : acceptsSize received size) : Transports .uart msg received := by
  apply transports_of_prefix (by decide)
  intro hlen
  obtain ⟨m⟩ := msg
  have hn := ReceiveBounds.numberOfBytesToSend_eq hlen
  rw [UartLink.getNetworkMsg_sendMsg, length_read, take_read, hn] at hget
  simp only [Option.some.injEq, Prod.mk.injEq, true_and, and_true] at hget
  obtain ⟨rfl, rfl⟩ := hget
  generalize hcut : min UartLink.maxUartMessageLength (headerSize + getLen ⟨m⟩) = cut at *
  have hbytes : ∀ j < cut, write inMsg.bytes 0 (read m 0 cut) j = m j :=
    fun j hj => write_read_of_lt inMsg.bytes m hj
  have hmax : UartLink.maxUartMessageLength = 1300 := rfl
  have hwhole : cut = headerSize + getLen ⟨m⟩ := by
    by_contra hne
    have hheader : header ⟨write inMsg.bytes 0 (read m 0 cut)⟩ = header ⟨m⟩ :=
      header_congr (fun j hj => hbytes j (by unfold headerSize at *; omega))
    have hlen' : getLen ⟨write inMsg.bytes 0 (read m 0 cut)⟩ = getLen ⟨m⟩ :=
      congrArg Header.len hheader
    rw [acceptsSize] at hsize
    rw [ReceiveBounds.numberOfBytesToSend_eq (hlen'.le.trans hlen), hlen'] at hsize
    omega
  rw [← hwhole]
  exact hbytes

end Links

/-- How often routers have forwarded a message on its way, in all and since a
CAN link has delivered it last. -/
structure Path where
  forwards : Nat
  sinceCan : Option Nat
  deriving DecidableEq

def Path.extend (kind : LinkKind) (p : Path) : Path where
  forwards := p.forwards + 1
  sinceCan := if kind = .can then some 1 else p.sinceCan.map (fun k => k + 1)

/-- A message that has been given to a link by a gateway of a node. It has a
path if it comes from `prepareNetworkMessage`. -/
structure Copy where
  node : Nat
  gateway : Nat
  message : NetworkMessage
  path : Option Path

/-- What has been sent stays in flight: it may be lost, delayed, delivered to
several nodes and delivered again. -/
structure Network where
  nodes : Nat → Node
  flight : List Copy

inductive Event
  | publish (n i : Nat) (networkOutMessage : NetworkMessage) (topicId : UInt32)
    (data : List UInt8) (netMsgInfo : NetMsgInfo)
  | putGeneric (n k : Nat) (localMessage : NetworkMessage) (topicId : UInt32)
    (data : List UInt8) (netMsgInfo : NetMsgInfo)
  | inject (n i : Nat) (msg : NetworkMessage)
  | reconfigure (n : Nat) (node : Node)
  | deliver (k n i : Nat) (inMsg : NetworkMessage)

section

variable (order : ByteOrder) (app : Nat → Application) (wired : Nat × Nat → Nat × Nat → Bool)

def Network.send (s : Network) (copies : List Copy) : Network :=
  { s with flight := s.flight ++ copies }

/-- `Gateway::put`, for a message published on the node. -/
def publish (s : Network) (n i : Nat) (networkOutMessage : NetworkMessage) (topicId : UInt32)
    (data : List UInt8) (netMsgInfo : NetMsgInfo) : Network :=
  if (((s.nodes n).gateways i).put topicId.toNat).value then
    s.send [⟨n, i, prepareNetworkMessage networkOutMessage topicId data netMsgInfo, some ⟨0, none⟩⟩]
  else s

/-- `Router::putGeneric`, for a message published on the node. -/
def putGeneric (s : Network) (n : Nat) (r : Router) (localMessage : NetworkMessage)
    (topicId : UInt32) (data : List UInt8) (netMsgInfo : NetMsgInfo) : Network :=
  s.send ((r.routeMsg (s.nodes n).gateways 0 0
    (prepareNetworkMessage localMessage topicId data netMsgInfo).bytes).value.2.map
      (fun sending => ⟨n, sending.gateway, sending.message, some ⟨1, none⟩⟩))

def LinkKind.of (s : Network) (n i : Nat) : LinkKind := ((s.nodes n).gateways i).linkinterface.kind

/-- What routers send on because of a message that has come in. A message that
lies in the user data of another is not counted as one that was prepared. -/
def forwarded (kind : LinkKind) (n : Nat) (path : Option Path) (sending : Sending) : Copy :=
  ⟨n, sending.gateway, sending.message,
    if sending.base = 0 then path.map (Path.extend kind) else none⟩

def receive (s : Network) (n i : Nat) (path : Option Path) (received : Received) : Network where
  nodes := Function.update s.nodes n received.node
  flight := s.flight ++
    received.distribution.sent.map (forwarded (LinkKind.of s n i) n path)

/-- The application, the topology and what the links do are up to the events. -/
def step (e : Event) (s : Network) : Option Network :=
  match e with
  | .publish n i networkOutMessage topicId data netMsgInfo =>
    some (publish s n i networkOutMessage topicId data netMsgInfo)
  | .putGeneric n k localMessage topicId data netMsgInfo =>
    ((s.nodes n).routers[k]?).map
      (fun r => putGeneric s n r localMessage topicId data netMsgInfo)
  | .inject n i msg => some (s.send [⟨n, i, msg, none⟩])
  | .reconfigure n node => some { s with nodes := Function.update s.nodes n node }
  | .deliver k n i inMsg =>
    (s.flight[k]?).bind (fun c =>
      if wired (c.node, c.gateway) (n, i) ∧ Transports (LinkKind.of s n i) c.message inMsg then
        some (receive s n i c.path ((s.nodes n).analyseAndDistributeMessagesFromNetwork order
          (app n) i inMsg.bytes).value)
      else none)

def Init (s : Network) : Prop := s.flight = []

end

/-- The counter is positive and leaves no more forwards than are allowed. -/
def Limited (c : Copy) : Prop :=
  ∀ p, c.path = some p → getLen c.message ≤ maxNetworkMessageLength ∧
    1 ≤ getMaxStepsToForward c.message ∧
    (p.sinceCan = none → p.forwards + getMaxStepsToForward c.message ≤ 11) ∧
    ∀ k, p.sinceCan = some k → k + getMaxStepsToForward c.message ≤ 5

section Counter

theorem getMaxStepsToForward_range (msg : NetworkMessage) :
    -32768 ≤ getMaxStepsToForward msg ∧ getMaxStepsToForward msg < 32768 := by
  unfold getMaxStepsToForward
  have hlow := Int.le_bmod (x := (getField 8 2 msg : Int)) (m := 256 ^ 2) (by norm_num)
  have hhigh := Int.bmod_lt (x := (getField 8 2 msg : Int)) (m := 256 ^ 2) (by norm_num)
  norm_num at hlow hhigh
  norm_num
  exact ⟨hlow, hhigh⟩

theorem getMaxStepsToForward_decremented {msg : NetworkMessage}
    (h : -32768 < getMaxStepsToForward msg) :
    getMaxStepsToForward (Node.decremented msg) = getMaxStepsToForward msg - 1 := by
  have hheader := congrArg Header.maxStepsToForward (header_decremented msg)
  simp only [header] at hheader
  obtain ⟨-, hhigh⟩ := getMaxStepsToForward_range msg
  have hwrap : Int.bmod (getMaxStepsToForward msg - 1) (256 ^ 2) =
      getMaxStepsToForward msg - 1 :=
    Int.bmod_eq_of_le_mul_two (by norm_num; omega) (by norm_num; omega)
  exact hheader.trans hwrap

theorem forwards_spec {node : Node} {msg : NetworkMessage} {s : Sending}
    (h : node.Forwards msg s) (hmin : -32768 < getMaxStepsToForward msg) :
    getLen s.message = getLen msg ∧ 1 ≤ getMaxStepsToForward s.message ∧
      getMaxStepsToForward s.message = getMaxStepsToForward msg - 1 := by
  have hsteps : getMaxStepsToForward s.message = getMaxStepsToForward (Node.decremented msg) :=
    getMaxStepsToForward_congr
      (fun j _ hj => h.header j (by unfold headerSize; omega) (.inl hj))
  have hlen : getLen s.message = getLen (Node.decremented msg) :=
    getField_congr
      (fun k hk => h.header (14 + k) (by unfold headerSize; omega) (.inr (by omega)))
  have hpos := h.steps
  rw [← hsteps] at hpos
  refine ⟨hlen.trans (getLen_decremented msg), by omega, ?_⟩
  exact hsteps.trans (getMaxStepsToForward_decremented hmin)

theorem setUserData_take (msg : NetworkMessage) (data : List UInt8) {n : Nat}
    (h : maxNetworkMessageLength ≤ n) : setUserData msg (data.take n) = setUserData msg data := by
  have hlen : min (min n data.length) maxNetworkMessageLength =
      min data.length maxNetworkMessageLength := by omega
  unfold setUserData
  rw [List.take_take, List.length_take, min_eq_left h, hlen]

theorem prepareNetworkMessage_take (netMsg : NetworkMessage) (topicId : UInt32)
    (data : List UInt8) (info : NetMsgInfo) :
    prepareNetworkMessage netMsg topicId (data.take maxNetworkMessageLength) info =
      prepareNetworkMessage netMsg topicId data info := by
  have hlong : maxNetworkMessageLength ≤ 2 ^ 16 - 1 := by decide
  unfold prepareNetworkMessage
  simp only [setUserData_take _ _ hlong, setUserData_take _ _ le_rfl]

theorem prepareNetworkMessage_spec (netMsg : NetworkMessage) (topicId : UInt32)
    (data : List UInt8) (info : NetMsgInfo) :
    getLen (prepareNetworkMessage netMsg topicId data info) ≤ maxNetworkMessageLength ∧
      getMaxStepsToForward (prepareNetworkMessage netMsg topicId data info) = 10 := by
  have hfits : (data.take maxNetworkMessageLength).length ≤ maxNetworkMessageLength :=
    List.length_take_le _ _
  have hheader := header_prepareNetworkMessage netMsg topicId info hfits
  rw [prepareNetworkMessage_take] at hheader
  have hlen := congrArg Header.len hheader
  have hsteps := congrArg Header.maxStepsToForward hheader
  simp only [header] at hlen hsteps
  exact ⟨hlen.trans_le hfits, hsteps⟩

theorem transports_spec {kind : LinkKind} {msg inMsg : NetworkMessage}
    (h : Transports kind msg inMsg) (hlen : getLen msg ≤ maxNetworkMessageLength) :
    getLen inMsg = getLen msg ∧
      getMaxStepsToForward inMsg = if kind = .can then 5 else getMaxStepsToForward msg := by
  cases kind with
  | can =>
    obtain ⟨hcontent, hsteps⟩ := h
    have hlen' : getLen inMsg = getLen msg := congrArg CanDelivery.Content.len hcontent
    exact ⟨hlen', hsteps⟩
  | uart | udp | sharedMemory =>
    have hbytes := h hlen
    have hheader : header inMsg = header msg :=
      header_congr (fun j hj => hbytes j (by omega))
    refine ⟨congrArg Header.len hheader, ?_⟩
    rw [if_neg (by decide)]
    exact getMaxStepsToForward_congr
      (fun j _ hj => hbytes j (by unfold headerSize; omega))

end Counter

section Limit

theorem limited_of_prepared {msg : NetworkMessage} (hlen : getLen msg ≤ maxNetworkMessageLength)
    (hsteps : getMaxStepsToForward msg = 10) (n i : Nat) {forwards : Nat} (h : forwards ≤ 1) :
    Limited ⟨n, i, msg, some ⟨forwards, none⟩⟩ := by
  rintro p ⟨⟩
  rw [hsteps]
  refine ⟨hlen, by decide, fun _ => ?_, ?_⟩
  · push_cast
    omega
  · rintro k ⟨⟩

theorem limited_publish (n i : Nat) (netMsg : NetworkMessage) (topicId : UInt32)
    (data : List UInt8) (info : NetMsgInfo) :
    Limited ⟨n, i, prepareNetworkMessage netMsg topicId data info, some ⟨0, none⟩⟩ := by
  obtain ⟨hlen, hsteps⟩ := prepareNetworkMessage_spec netMsg topicId data info
  exact limited_of_prepared hlen hsteps n i (by decide)

/-- A router that sends what is published on its own node does not decrement
the counter. -/
theorem limited_putGeneric {r : Router} {netMsg : NetworkMessage} {topicId : UInt32}
    {data : List UInt8} {info : NetMsgInfo} {s : Sending}
    (h : r.Sends 0 (prepareNetworkMessage netMsg topicId data info).bytes s) (n : Nat) :
    Limited ⟨n, s.gateway, s.message, some ⟨1, none⟩⟩ := by
  obtain ⟨hlen, hsteps⟩ := prepareNetworkMessage_spec netMsg topicId data info
  obtain ⟨-, -, -, m', hsame, hmessage⟩ := h
  have hsteps' : getMaxStepsToForward s.message = 10 := by
    rw [hmessage, hsame.getMaxStepsToForward, messageAt_zero, hsteps]
  have hlen' : getLen s.message ≤ maxNetworkMessageLength := by
    have hfield : getLen (messageAt m' 0) = getLen (messageAt _ 0) := hsame.getField (by omega)
    rw [hmessage, hfield, messageAt_zero]
    exact hlen
  exact limited_of_prepared hlen' hsteps' n s.gateway le_rfl

/-- Each forward takes one from the counter, except that the CAN link starts
it anew. -/
theorem limited_forwarded {c : Copy} (h : Limited c) {kind : LinkKind} {inMsg : NetworkMessage}
    (htransports : Transports kind c.message inMsg) {node : Node} {s : Sending}
    (hs : s.base = headerSize ∨ s.base = 0 ∧ node.Forwards inMsg s) (n : Nat) :
    Limited (forwarded kind n c.path s) := by
  intro p hp
  obtain hbase | ⟨hbase, hforwards⟩ := hs
  · rw [forwarded, hbase, if_neg (by decide)] at hp
    cases hp
  · rw [forwarded, if_pos hbase] at hp
    obtain ⟨q, hq, rfl⟩ := Option.map_eq_some_iff.mp hp
    obtain ⟨hlen, hpos, hall, hcan⟩ := h q hq
    obtain ⟨hlen', hsteps⟩ := transports_spec htransports hlen
    have hmin : -32768 < getMaxStepsToForward inMsg := by
      rw [hsteps]
      split <;> omega
    obtain ⟨hlen'', hpos', hsteps'⟩ := forwards_spec hforwards hmin
    refine ⟨(hlen''.trans hlen').trans_le hlen, hpos', ?_⟩
    rw [forwarded, hsteps', hsteps]
    by_cases hkind : kind = .can
    · rw [if_pos hkind, Path.extend, if_pos hkind]
      refine ⟨fun hsince => by simp at hsince, ?_⟩
      rintro k ⟨⟩
      decide
    · rw [if_neg hkind, Path.extend, if_neg hkind]
      refine ⟨?_, ?_⟩
      · intro hsince
        have := hall (Option.map_eq_none_iff.mp hsince)
        push_cast
        omega
      · intro k hk
        obtain ⟨k', hk', rfl⟩ := Option.map_eq_some_iff.mp hk
        have := hcan k' hk'
        push_cast
        omega

variable {order : ByteOrder} {app : Nat → Application} {wired : Nat × Nat → Nat × Nat → Bool}

def AllLimited (s : Network) : Prop := ∀ c ∈ s.flight, Limited c

theorem AllLimited.send {s : Network} (h : AllLimited s) {copies : List Copy}
    (hcopies : ∀ c ∈ copies, Limited c) : AllLimited (s.send copies) :=
  List.forall_mem_append.mpr ⟨h, hcopies⟩

theorem AllLimited.step {e : Event} {s t : Network} (h : AllLimited s)
    (hs : step order app wired e s = some t) : AllLimited t := by
  cases e with
  | publish n i networkOutMessage topicId data info =>
    cases hs
    rw [publish]
    split
    · exact h.send (List.forall_mem_singleton.mpr
        (limited_publish n i networkOutMessage topicId data info))
    · exact h
  | putGeneric n k localMessage topicId data info =>
    obtain ⟨r, -, rfl⟩ := Option.map_eq_some_iff.mp hs
    apply h.send
    rw [List.forall_mem_map]
    intro sending hsending
    exact limited_putGeneric (r.sent_routeMsg _ _ _ _ sending hsending) n
  | inject n i msg =>
    cases hs
    apply h.send
    rw [List.forall_mem_singleton]
    rintro p ⟨⟩
  | reconfigure n node =>
    cases hs
    exact h
  | deliver k n i inMsg =>
    obtain ⟨c, hc, hs⟩ := Option.bind_eq_some_iff.mp hs
    split at hs
    · rename_i hdelivers
      cases hs
      refine List.forall_mem_append.mpr ⟨h, ?_⟩
      rw [List.forall_mem_map]
      intro sending hsending
      have hc' : Limited c := h c (List.mem_of_getElem? hc)
      have hsent := (s.nodes n).sent_analyse order (app n) i inMsg.bytes sending hsending
      exact limited_forwarded hc' hdelivers.2 hsent n
    · cases hs

theorem reachable_allLimited {s : Network} (h : Reachable Init (step order app wired) s) :
    AllLimited s := by
  apply h.invariant AllLimited
  · intro s hs
    rw [AllLimited]
    rw [show s.flight = [] from hs]
    exact List.forall_mem_nil _
  · intro e s t ih _ hs
    exact ih.step hs

variable (order app wired)

/-- A message is forwarded at most ten times on a path on which no CAN link
delivers it, and at most four times from one delivery by a CAN link to the
next. A message that comes in with a counter that is not positive is not
forwarded, unless the counter is the one that wraps around. -/
theorem hop_limit :
    (∀ s, Reachable Init (step order app wired) s → ∀ c ∈ s.flight, ∀ p, c.path = some p →
      (p.sinceCan = none → p.forwards ≤ 10) ∧ ∀ k, p.sinceCan = some k → k ≤ 4) ∧
    ∀ (node : Node) (n i : Nat) (inMsg : NetworkMessage), -32768 < getMaxStepsToForward inMsg →
      getMaxStepsToForward inMsg ≤ 0 →
      ∀ s ∈ (node.analyseAndDistributeMessagesFromNetwork order (app n) i
        inMsg.bytes).value.distribution.sent, s.base ≠ 0 := by
  refine ⟨?_, ?_⟩
  · intro s hs c hc p hp
    obtain ⟨-, hpos, hall, hcan⟩ := reachable_allLimited hs c hc p hp
    refine ⟨?_, ?_⟩
    · intro hsince
      have := hall hsince
      omega
    · intro k hk
      have := hcan k hk
      omega
  · intro node n i inMsg hmin hsteps s hs hbase
    obtain hdata | ⟨-, hforwards⟩ := node.sent_analyse order (app n) i inMsg.bytes s hs
    · rw [hbase] at hdata
      exact absurd hdata (by decide)
    · have hpos := hforwards.steps
      rw [getMaxStepsToForward_decremented hmin] at hpos
      omega

end Limit

section Circle

def link (kind : LinkKind) (linkIdentifier : Nat) : Gateway where
  linkinterface := ⟨kind, linkIdentifier, false⟩
  forwardAll := true
  isEnabled := true
  getTopicsToForwardFromOutside := false
  externalsubscribers := ⟨0, fun _ => 0⟩

def relay (myNodeNr : Int) (gateways : Nat → Gateway) : Node :=
  { ReceiveBounds.lonely with
    myNodeNr := myNodeNr
    gateways := gateways
    routers := [⟨true, false, [1]⟩] }

/-- Node 1 sends over CAN to node 2, which sends over UART. -/
def circle : Network where
  nodes n :=
    if n = 2 then relay 2 (fun i => if i = 0 then link .can 1 else link .uart 2)
    else relay n (fun i => if i = 1 then link .can 2 else link .uart (i + 10))
  flight := []

/-- Node 5 sends to node 1, and nodes 1 and 2 send to each other. -/
def circular (a b : Nat × Nat) : Bool :=
  (a, b) ∈ [((5, 0), (1, 0)), ((1, 1), (2, 0)), ((2, 1), (1, 2))]

def onLink (steps checkSum time : UInt8) : NetworkMessage :=
  ⟨fun j => ([0, 0, 0, 0, 0, 0, 0, 0, 0, steps, 72, checkSum, 0, 0, 0, 1, 0, 0, 0, 5,
    0, 0, 0, 0, time, 0, 0, 0, 0, 0, 0, 0, 0, 0, 3, 232, 7][j]?).getD 0⟩

def news : NetMsgInfo where
  senderNode := 5
  senderThreadId := 0
  sentTime := 0x1000000
  receiverNode := 0
  receiverNodesBitMap := 0
  linkId := 0
  messageType := 0

/-- The CAN link of node 2 gives the message a new time and the counter 5 each
time it comes round. -/
def rounds : List Event :=
  [.publish 5 0 blank 1000 [7] news, .deliver 0 1 0 (onLink 10 142 1),
    .deliver 1 2 0 (onLink 5 158 2), .deliver 2 1 2 (onLink 4 158 2),
    .deliver 3 2 0 (onLink 5 174 3), .deliver 4 1 2 (onLink 4 174 3),
    .deliver 5 2 0 (onLink 5 190 4), .deliver 6 1 2 (onLink 4 190 4),
    .deliver 7 2 0 (onLink 5 206 5), .deliver 8 1 2 (onLink 4 206 5),
    .deliver 9 2 0 (onLink 5 222 6), .deliver 10 1 2 (onLink 4 222 6)]

theorem exists_round : ∃ s, Reachable Init
      (step .little (fun _ => ReceiveBounds.inert) circular) s ∧
    ∃ c ∈ s.flight, c.path = some ⟨11, some 2⟩ :=
  exists_reachable Init (step .little (fun _ => ReceiveBounds.inert) circular) (fun _ _ => True)
    circle rfl rounds (fun s => ∃ c ∈ s.flight, c.path = some ⟨11, some 2⟩) (by decide +kernel)

theorem hop_limit_circle :
    (∃ s, Reachable Init (step .little (fun _ => ReceiveBounds.inert) circular) s ∧
      (∃ c ∈ s.flight, c.path = some ⟨11, some 2⟩) ∧
      ∀ c ∈ s.flight, ∀ p, c.path = some p →
        (p.sinceCan = none → p.forwards ≤ 10) ∧ ∀ k, p.sinceCan = some k → k ≤ 4) ∧
    getMaxStepsToForward (onLink 0 142 1) = 0 ∧
    ∀ s ∈ ((circle.nodes 1).analyseAndDistributeMessagesFromNetwork .little ReceiveBounds.inert 0
      (onLink 0 142 1).bytes).value.distribution.sent, s.base ≠ 0 := by
  obtain ⟨hpaths, hreceived⟩ := hop_limit .little (fun _ => ReceiveBounds.inert) circular
  obtain ⟨s, hs, hround⟩ := exists_round
  have hzero : getMaxStepsToForward (onLink 0 142 1) = 0 := by decide +kernel
  refine ⟨⟨s, hs, hround, hpaths s hs⟩, hzero, ?_⟩
  exact hreceived (circle.nodes 1) 1 0 (onLink 0 142 1) (by rw [hzero]; decide) hzero.le

def wrapping : NetworkMessage := putMaxStepsToForward (onLink 0 142 1) (-32768)

theorem not_hop_limit_circle :
    (∃ s, Reachable Init (step .little (fun _ => ReceiveBounds.inert) circular) s ∧
      ∃ c ∈ s.flight, ∃ p, c.path = some p ∧ ¬ p.forwards ≤ 10) ∧
    getMaxStepsToForward wrapping = -32768 ∧
    ∃ s ∈ ((circle.nodes 1).analyseAndDistributeMessagesFromNetwork .little ReceiveBounds.inert 0
      wrapping.bytes).value.distribution.sent, s.base = 0 := by
  obtain ⟨s, hs, c, hc, hpath⟩ := exists_round
  refine ⟨⟨s, hs, c, hc, _, hpath, by decide⟩, ?_, ?_⟩
  · decide +kernel
  · decide +kernel

end Circle

end Rodos.HopLimit
