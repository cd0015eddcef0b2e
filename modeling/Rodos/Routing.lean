import Rodos.TopicReports
import Rodos.Topics

namespace Rodos

open AccessTrace Traced ByteMemory NetworkMessage

/-- Consecutive bytes, counted from the start of the received message. -/
structure Span where
  start : Nat
  length : Nat

def messageAt (m : Nat → UInt8) (base : Nat) : NetworkMessage := ⟨fun i => m (base + i)⟩

section

variable {α : Type} (base : Nat) (m : Nat → UInt8)

def getAt (off n : Nat) (get : NetworkMessage → α) : Traced Span α := do
  touch ⟨base + off, n⟩
  pure (get (messageAt m base))

def calculateCheckSumAt : Traced Span UInt16 := do
  let len ← getAt base m 14 2 getLen
  touch ⟨base + 12, headerSize - 12 + len⟩
  pure (calculateCheckSum (messageAt m base))

def isCheckSumOkAt : Traced Span Bool := do
  let calculated ← calculateCheckSumAt base m
  let checkSum ← getAt base m 10 2 getCheckSum
  pure (calculated.toNat == checkSum)

def setCheckSumAt : Traced Span (Nat → UInt8) := do
  let calculated ← calculateCheckSumAt base m
  touch ⟨base + 10, 2⟩
  pure (write m (base + 10) (toBigEndian 2 calculated.toNat))

def numberOfBytesToSendAt : Traced Span Nat := getAt base m 14 2 numberOfBytesToSend

/-- A CAN link that meets no error takes all of the user data. -/
def Linkinterface.sendNetworkMsg (link : Linkinterface) : Traced Span NetworkMessage :=
  match link.kind with
  | .uart | .udp | .sharedMemory => do
    let n ← numberOfBytesToSendAt base m
    touch ⟨base, n⟩
    pure (messageAt m base)
  | .can => do
    let dataLength ← getAt base m 14 2 getLen
    touch ⟨base + 16, 4⟩
    touch ⟨base + 32, 4⟩
    touch ⟨base + headerSize, dataLength⟩
    pure (messageAt m base)

end

/-- A message that a router has given to a gateway, with the place it was
taken from. -/
structure Sending where
  gateway : Nat
  base : Nat
  message : NetworkMessage

structure Router where
  isEnabled : Bool
  forwardTopicReports : Bool
  gateways : List Nat

namespace Router

def shouldRouteThisMsg (r : Router) (base : Nat) (m : Nat → UInt8) : Traced Span Bool := do
  let maxStepsToForward ← getAt base m 8 2 getMaxStepsToForward
  if maxStepsToForward ≤ 0 then pure false
  else do
    let topicId ← getAt base m 32 4 getTopicId
    if topicId = 0 ∧ r.forwardTopicReports = false then pure false else pure true

def shouldRouteThisMsgToGateway (linkid : Nat) (gateway : Gateway) (base : Nat)
    (m : Nat → UInt8) : Traced Span Bool :=
  if gateway.linkinterface.linkIdentifier = linkid then pure false
  else do
    let topicId ← getAt base m 32 4 getTopicId
    pure (gateway.shouldTopicForwarded topicId).value

variable (gateways : Nat → Gateway) (linkid base : Nat)

def sendTo (m : Nat → UInt8) (i : Nat) (sent : List Sending) : Traced Span (List Sending) := do
  let should ← shouldRouteThisMsgToGateway linkid (gateways i) base m
  if should then do
    let msg ← (gateways i).linkinterface.sendNetworkMsg base m
    pure (sent ++ [⟨i, base, msg⟩])
  else pure sent

/-- The bytes of the message, with a new checksum, and what is sent. -/
def routeMsg (r : Router) (m : Nat → UInt8) : Traced Span ((Nat → UInt8) × List Sending) := do
  let should ← r.shouldRouteThisMsg base m
  if should then do
    let m ← setCheckSumAt base m
    let sent ← forEach (sendTo gateways linkid base m) r.gateways []
    pure (m, sent)
  else pure (m, [])

end Router

/-- The memory, what the subscribers have been handed and what the routers
have sent. -/
structure Distribution where
  bytes : Nat → UInt8
  handed : List (List UInt8)
  sent : List Sending

def networkMessageSize : Nat := headerSize + maxNetworkMessageLength

def defaultRouterTopicId : Nat := topicIdOf "routerTopic"

def Router.put (gateways : Nat → Gateway) (linkid base : Nat) (r : Router) (d : Distribution) :
    Traced Span Distribution :=
  if r.isEnabled then do
    let routed ← r.routeMsg gateways linkid base d.bytes
    pure ⟨routed.1, d.handed ++ [ByteMemory.read d.bytes base networkMessageSize],
      d.sent ++ routed.2⟩
  else pure d

def publishToRouters (gateways : Nat → Gateway) (linkid base : Nat) (routers : List Router)
    (d : Distribution) : Traced Span Distribution :=
  forEach (Router.put gateways linkid base) routers d

@[simp] theorem messageAt_zero (m : Nat → UInt8) : messageAt m 0 = ⟨m⟩ := by
  simp [messageAt]

section

variable (base : Nat) (m : Nat → UInt8)

@[simp] theorem value_getAt {α : Type} (off n : Nat) (get : NetworkMessage → α) :
    (getAt base m off n get).value = get (messageAt m base) := by
  rw [getAt]
  rw [value_bind, value_pure]

@[simp] theorem value_isCheckSumOkAt :
    (isCheckSumOkAt base m).value = true ↔ isCheckSumOk (messageAt m base) :=
  beq_iff_eq

@[simp] theorem value_sendNetworkMsg (link : Linkinterface) :
    (link.sendNetworkMsg base m).value = messageAt m base := by
  rw [Linkinterface.sendNetworkMsg]
  cases link.kind <;> rfl

def SameButCheckSum (m m' : Nat → UInt8) : Prop := ∀ j, j < base + 10 ∨ base + 12 ≤ j → m j = m' j

theorem value_setCheckSumAt : SameButCheckSum base (setCheckSumAt base m).value m := by
  intro j hj
  apply write_outside
  rw [length_toBigEndian]
  omega

variable {base m} {m' : Nat → UInt8}

theorem SameButCheckSum.trans {m'' : Nat → UInt8} (h : SameButCheckSum base m m')
    (h' : SameButCheckSum base m' m'') : SameButCheckSum base m m'' :=
  fun j hj => (h j hj).trans (h' j hj)

theorem SameButCheckSum.getField (h : SameButCheckSum base m m') {off n : Nat}
    (hoff : off + n ≤ 10 ∨ 12 ≤ off) :
    getField off n (messageAt m base) = getField off n (messageAt m' base) := by
  apply getField_congr
  intro k hk
  apply h
  omega

theorem SameButCheckSum.getMaxStepsToForward (h : SameButCheckSum base m m') :
    getMaxStepsToForward (messageAt m base) = getMaxStepsToForward (messageAt m' base) := by
  unfold NetworkMessage.getMaxStepsToForward
  rw [h.getField (by omega)]

end

namespace Router

def Routes (r : Router) (msg : NetworkMessage) : Prop :=
  0 < getMaxStepsToForward msg ∧ (getTopicId msg ≠ 0 ∨ r.forwardTopicReports = true)

theorem value_shouldRouteThisMsg (r : Router) (base : Nat) (m : Nat → UInt8) :
    (r.shouldRouteThisMsg base m).value = true ↔ r.Routes (messageAt m base) := by
  simp only [shouldRouteThisMsg, Routes, value_bind, value_getAt]
  generalize getMaxStepsToForward (messageAt m base) = maxStepsToForward
  split
  · simp [*]
  · simp only [value_bind, value_getAt]
    split <;> simp_all [or_iff_not_imp_left]

section

variable (gateways : Nat → Gateway) (linkid base : Nat)

theorem value_sendTo (m : Nat → UInt8) (i : Nat) (sent : List Sending) :
    (sendTo gateways linkid base m i sent).value = sent ∨
      (sendTo gateways linkid base m i sent).value = sent ++ [⟨i, base, messageAt m base⟩] := by
  rw [sendTo]
  rw [value_bind]
  split
  · right
    rw [value_bind, value_sendNetworkMsg]
    rfl
  · left
    rfl

variable (r : Router) (m : Nat → UInt8)

theorem value_routeMsg (P : (Nat → UInt8) × List Sending → Prop) (hno : P (m, []))
    (hyes : r.Routes (messageAt m base) → P ((setCheckSumAt base m).value,
      (forEach (sendTo gateways linkid base (setCheckSumAt base m).value) r.gateways []).value)) :
    P (r.routeMsg gateways linkid base m).value := by
  rw [routeMsg]
  rw [value_bind]
  split
  · rename_i hshould
    simp only [value_bind]
    exact hyes ((r.value_shouldRouteThisMsg base m).mp hshould)
  · exact hno

theorem bytes_routeMsg : SameButCheckSum base (r.routeMsg gateways linkid base m).value.1 m := by
  apply value_routeMsg gateways linkid base r m (fun p => SameButCheckSum base p.1 m)
  · exact fun _ _ => rfl
  · exact fun _ => value_setCheckSumAt base m

def Sends (msg : Nat → UInt8) (s : Sending) : Prop :=
  r.Routes (messageAt msg base) ∧ s.gateway ∈ r.gateways ∧ s.base = base ∧
    ∃ m', SameButCheckSum base m' msg ∧ s.message = messageAt m' base

theorem sent_routeMsg :
    ∀ s ∈ (r.routeMsg gateways linkid base m).value.2, r.Sends base m s := by
  apply value_routeMsg gateways linkid base r m (fun p => ∀ s ∈ p.2, r.Sends base m s)
  · exact List.forall_mem_nil _
  · intro hroutes
    apply value_forEach (fun sent : List Sending => ∀ s ∈ sent, r.Sends base m s)
    · intro i hi sent ih
      obtain hsent | hsent := value_sendTo gateways linkid base (setCheckSumAt base m).value i sent
      · rw [hsent]
        exact ih
      · rw [hsent, List.forall_mem_append]
        refine ⟨ih, List.forall_mem_singleton.mpr ?_⟩
        exact ⟨hroutes, hi, rfl, _, value_setCheckSumAt base m, rfl⟩
    · exact List.forall_mem_nil _

theorem Routes.congr {r : Router} {base : Nat} {m m' : Nat → UInt8}
    (h : SameButCheckSum base m m') (hr : r.Routes (messageAt m base)) :
    r.Routes (messageAt m' base) := by
  have htopic : getTopicId (messageAt m base) = getTopicId (messageAt m' base) :=
    h.getField (by omega)
  rw [Routes, h.getMaxStepsToForward, htopic] at hr
  exact hr

theorem Sends.congr {r : Router} {base : Nat} {m m' : Nat → UInt8} {s : Sending}
    (h : SameButCheckSum base m m') (hs : r.Sends base m s) : r.Sends base m' s := by
  obtain ⟨hroutes, hgateway, hbase, m'', hsame, hmessage⟩ := hs
  exact ⟨hroutes.congr h, hgateway, hbase, m'', hsame.trans h, hmessage⟩

end

end Router

structure RoutedBy (routers : List Router) (base : Nat) (d d' : Distribution) : Prop where
  bytes : SameButCheckSum base d'.bytes d.bytes
  sent : ∀ s ∈ d'.sent, s ∈ d.sent ∨ ∃ r ∈ routers, r.isEnabled ∧ r.Sends base d.bytes s

theorem RoutedBy.route {routers : List Router} {base : Nat} {d d' : Distribution}
    (h : RoutedBy routers base d d') {r : Router} (hr : r ∈ routers) (henabled : r.isEnabled = true)
    {routed : Traced Span ((Nat → UInt8) × List Sending)}
    (hsame : SameButCheckSum base routed.value.1 d'.bytes)
    (hsends : ∀ s ∈ routed.value.2, r.Sends base d'.bytes s) (handed : List (List UInt8)) :
    RoutedBy routers base d
      (routed >>= fun routed => pure ⟨routed.1, handed, d'.sent ++ routed.2⟩).value := by
  refine ⟨hsame.trans h.bytes, List.forall_mem_append.mpr ⟨h.sent, ?_⟩⟩
  intro s hs
  exact .inr ⟨r, hr, henabled, (hsends s hs).congr h.bytes⟩

theorem RoutedBy.put {routers : List Router} {base : Nat} {d d' : Distribution}
    (h : RoutedBy routers base d d') (gateways : Nat → Gateway) (linkid : Nat) {r : Router}
    (hr : r ∈ routers) : RoutedBy routers base d (r.put gateways linkid base d').value := by
  rw [Router.put]
  split
  · rename_i henabled
    exact h.route hr henabled (r.bytes_routeMsg gateways linkid base d'.bytes)
      (r.sent_routeMsg gateways linkid base d'.bytes) _
  · exact h

theorem RoutedBy.refl (routers : List Router) (base : Nat) (d : Distribution) :
    RoutedBy routers base d d :=
  ⟨fun _ _ => rfl, fun _ hs => .inl hs⟩

theorem routedBy_publishToRouters (gateways : Nat → Gateway) (linkid base : Nat)
    (routers : List Router) (d : Distribution) :
    RoutedBy routers base d (publishToRouters gateways linkid base routers d).value := by
  rw [publishToRouters]
  apply value_forEach (RoutedBy routers base d)
  · intro r hr d' h
    exact h.put gateways linkid hr
  · exact RoutedBy.refl routers base d

end Rodos
