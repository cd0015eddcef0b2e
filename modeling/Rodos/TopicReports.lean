import Rodos.AccessTrace
import Rodos.HeaderCodec
import Rodos.TransitionSystem

namespace Rodos

open AccessTrace Traced ByteMemory NetworkMessage TransitionSystem

def maxSubscribers : Nat := 60

/-- Past the end of the array, `topicList` is whatever lies behind it. -/
structure TopicListReport where
  numberOfTopics : Nat
  topicList : Nat → Nat

/-- An index of `topicList`, in the list of the gateway or in a report that
is given to it. -/
inductive ListAccess
  | own (i : Nat)
  | wanted (i : Nat)
  deriving DecidableEq

def ListAccess.index : ListAccess → Nat
  | .own i => i
  | .wanted i => i

namespace TopicListReport

def init (r : TopicListReport) : TopicListReport := { r with numberOfTopics := 0 }

def find (r : TopicListReport) (topicId : Nat) : Traced ListAccess Bool :=
  search (fun i => do touch (.own i); pure (topicId == r.topicList i)) (List.range r.numberOfTopics)

def add (r : TopicListReport) (topicId : Nat) : Traced ListAccess TopicListReport :=
  if r.numberOfTopics < maxSubscribers - 1 then do
    let found ← r.find topicId
    if found then pure r
    else do
      touch (.own r.numberOfTopics)
      pure ⟨r.numberOfTopics + 1, Function.update r.topicList r.numberOfTopics topicId⟩
  else pure r

end TopicListReport

/-- The order of the bytes of an integer in memory. -/
inductive ByteOrder
  | little
  | big
  deriving DecidableEq

def ByteOrder.uint32 (order : ByteOrder) (m : Nat → UInt8) (off : Nat) : Nat :=
  match order with
  | .little => ofBigEndian (ByteMemory.read m off 4).reverse
  | .big => ofBigEndian (ByteMemory.read m off 4)

theorem ByteOrder.uint32_congr (order : ByteOrder) {m m' : Nat → UInt8} {off : Nat}
    (h : ∀ k < 4, m (off + k) = m' (off + k)) : order.uint32 m off = order.uint32 m' off := by
  unfold ByteOrder.uint32
  rw [(read_eq_iff m m' off 4).mpr h]

def reportOf (order : ByteOrder) (msg : NetworkMessage) : TopicListReport where
  numberOfTopics := order.uint32 msg.bytes headerSize
  topicList i := order.uint32 msg.bytes (headerSize + 4 + 4 * i)

inductive LinkKind
  | uart
  | udp
  | sharedMemory
  | can
  deriving DecidableEq

structure Linkinterface where
  kind : LinkKind
  linkIdentifier : Nat
  isBroadcastLink : Bool

structure Gateway where
  linkinterface : Linkinterface
  forwardAll : Bool
  isEnabled : Bool
  getTopicsToForwardFromOutside : Bool
  externalsubscribers : TopicListReport

namespace Gateway

def enable (g : Gateway) (onOff : Bool) : Gateway := { g with isEnabled := onOff }

/-- The report is copied as a whole. -/
def setTopicsToForward (g : Gateway) (topicList : TopicListReport) : Traced ListAccess Gateway := do
  let copied ← forEach (fun i entries => do
      touch (.wanted i)
      touch (.own i)
      pure (Function.update entries i (topicList.topicList i)))
    (List.range maxSubscribers) g.externalsubscribers.topicList
  pure { g with
    getTopicsToForwardFromOutside := false
    externalsubscribers := ⟨topicList.numberOfTopics, copied⟩ }

def addWanted (topicsWanted : TopicListReport) (i : Nat) (subscribers : TopicListReport) :
    Traced ListAccess TopicListReport := do
  touch (.wanted i)
  subscribers.add (topicsWanted.topicList i)

def addTopicsToForward (g : Gateway) (topicsWanted : TopicListReport) :
    Traced ListAccess Gateway := do
  let added ← forEach (addWanted topicsWanted) (List.range topicsWanted.numberOfTopics)
    g.externalsubscribers
  pure { g with getTopicsToForwardFromOutside := false, externalsubscribers := added }

/-- The form of `addTopicsToForward` that is given one to four topics. -/
def addTopicIdsToForward (g : Gateway) (topicId1 : Nat) (topicId2 topicId3 topicId4 : Option Nat) :
    Traced ListAccess Gateway := do
  let added ← forEach (fun topicId subscribers => TopicListReport.add subscribers topicId)
    (topicId1 :: [topicId2, topicId3, topicId4].reduceOption) g.externalsubscribers
  pure { g with getTopicsToForwardFromOutside := false, externalsubscribers := added }

def resetTopicsToForward (g : Gateway) : Gateway :=
  { g with
    getTopicsToForwardFromOutside := false
    externalsubscribers := g.externalsubscribers.init }

def shouldTopicForwarded (g : Gateway) (topicId : Nat) : Traced ListAccess Bool :=
  if g.forwardAll then pure true else g.externalsubscribers.find topicId

/-- Whether `put` sends what is published under the topic to the link. -/
def put (g : Gateway) (topicId : Nat) : Traced ListAccess Bool :=
  if !g.isEnabled then pure false
  else if g.forwardAll then pure true
  else if topicId ≠ 0 then g.externalsubscribers.find topicId
  else pure true

/-- The branch of `AnalyseAndDistributeMessagesFromNetwork` for a message
with topic id 0. -/
def receiveReport (g : Gateway) (topicList : TopicListReport) : Traced ListAccess Gateway :=
  if g.getTopicsToForwardFromOutside then
    (if g.linkinterface.isBroadcastLink then g.addTopicsToForward topicList
      else g.setTopicsToForward topicList) >>=
      fun g => pure { g with getTopicsToForwardFromOutside := true }
  else pure g

end Gateway

namespace TopicReports

/-- An accepted message with topic id 0, a call from the application, a local
publication or the question of a router. -/
inductive Event
  | received (msg : NetworkMessage)
  | setTopicsToForward (topicList : TopicListReport)
  | addTopicsToForward (topicsWanted : TopicListReport)
  | addTopicIdsToForward (topicId1 : Nat) (topicId2 topicId3 topicId4 : Option Nat)
  | resetTopicsToForward
  | enable (onOff : Bool)
  | put (topicId : Nat)
  | shouldTopicForwarded (topicId : Nat)

/-- The gateway and the accesses to `topicList` so far. -/
structure State where
  gateway : Gateway
  accesses : List ListAccess

def State.after (s : State) (x : Traced ListAccess Gateway) : State :=
  ⟨x.value, s.accesses ++ x.accesses⟩

/-- What the constructor leaves: an empty list over uninitialised entries. -/
def Init (s : State) : Prop :=
  s.gateway.externalsubscribers.numberOfTopics = 0 ∧
    s.gateway.getTopicsToForwardFromOutside = true ∧ s.accesses = []

def step (order : ByteOrder) (e : Event) (s : State) : Option State :=
  match e with
  | .received msg =>
    if getTopicId msg = 0 then some (s.after (s.gateway.receiveReport (reportOf order msg)))
    else none
  | .setTopicsToForward topicList => some (s.after (s.gateway.setTopicsToForward topicList))
  | .addTopicsToForward topicsWanted => some (s.after (s.gateway.addTopicsToForward topicsWanted))
  | .addTopicIdsToForward topicId1 topicId2 topicId3 topicId4 =>
    some (s.after (s.gateway.addTopicIdsToForward topicId1 topicId2 topicId3 topicId4))
  | .resetTopicsToForward => some (s.after (pure s.gateway.resetTopicsToForward))
  | .enable onOff => some (s.after (pure (s.gateway.enable onOff)))
  | .put topicId => some (s.after (s.gateway.put topicId >>= fun _ => pure s.gateway))
  | .shouldTopicForwarded topicId =>
    some (s.after (s.gateway.shouldTopicForwarded topicId >>= fun _ => pure s.gateway))

def InList (a : ListAccess) : Prop := a.index < maxSubscribers

def Bounded (s : State) : Prop :=
  s.gateway.externalsubscribers.numberOfTopics ≤ maxSubscribers ∧ ∀ a ∈ s.accesses, InList a

/-- A report that is taken, from the network or from a caller, does not count
more topics than it has room for. -/
def ReportFits (order : ByteOrder) (e : Event) (s : State) : Prop :=
  match e with
  | .received msg => s.gateway.getTopicsToForwardFromOutside = true →
      (reportOf order msg).numberOfTopics ≤ maxSubscribers
  | .setTopicsToForward topicList => topicList.numberOfTopics ≤ maxSubscribers
  | .addTopicsToForward topicsWanted => topicsWanted.numberOfTopics ≤ maxSubscribers
  | _ => True

def HasRoom (r : TopicListReport) : Prop := r.numberOfTopics ≤ maxSubscribers

def Fits (x : Traced ListAccess Gateway) : Prop :=
  Within InList x ∧ HasRoom x.value.externalsubscribers

theorem bounded_after {s : State} (hs : Bounded s) (x : Traced ListAccess Gateway) :
    Bounded (s.after x) ↔ Fits x := by
  simp only [Bounded, State.after, Fits, HasRoom, Within, List.forall_mem_append]
  have := hs.2
  tauto

theorem within_find {r : TopicListReport} (h : HasRoom r) (topicId : Nat) :
    Within InList (r.find topicId) := by
  apply within_search
  intro i hi
  have hlt : i < maxSubscribers := lt_of_lt_of_le (List.mem_range.mp hi) h
  simpa [InList, ListAccess.index] using hlt

theorem add_fits {r : TopicListReport} (h : HasRoom r) (topicId : Nat) :
    Within InList (r.add topicId) ∧ HasRoom (r.add topicId).value := by
  rw [TopicListReport.add]
  split
  · rename_i hroom
    have hlt : r.numberOfTopics < maxSubscribers := by omega
    simp only [within_bind, within_ite, within_pure, within_touch, value_bind]
    refine ⟨⟨within_find h topicId, fun _ => trivial, fun _ => ⟨hlt, trivial⟩⟩, ?_⟩
    split
    · exact h
    · exact hlt
  · exact ⟨within_pure r, h⟩

section

variable {g : Gateway}

theorem setTopicsToForward_fits (topicList : TopicListReport) :
    Fits (g.setTopicsToForward topicList) ↔ topicList.numberOfTopics ≤ maxSubscribers := by
  have hcopy : Within InList (g.setTopicsToForward topicList) := by
    refine (within_bind _ _).mpr ⟨?_, within_pure _⟩
    refine (within_forEach (fun _ => True) (fun _ _ _ _ => trivial)
      (Q := fun i => i < maxSubscribers) ?_ trivial).mpr (fun i => List.mem_range.mp)
    intro i _ _ _
    simp [InList, ListAccess.index]
  exact and_iff_right hcopy

theorem addTopicsToForward_fits (hg : HasRoom g.externalsubscribers)
    (topicsWanted : TopicListReport) :
    Fits (g.addTopicsToForward topicsWanted) ↔ topicsWanted.numberOfTopics ≤ maxSubscribers := by
  have hinv : ∀ i ∈ List.range topicsWanted.numberOfTopics, ∀ r, HasRoom r →
      HasRoom (Gateway.addWanted topicsWanted i r).value :=
    fun i _ r hr => (add_fits hr (topicsWanted.topicList i)).2
  have hround : ∀ i ∈ List.range topicsWanted.numberOfTopics, ∀ r, HasRoom r →
      (Within InList (Gateway.addWanted topicsWanted i r) ↔ i < maxSubscribers) := by
    intro i _ r hr
    have hadd := (add_fits hr (topicsWanted.topicList i)).1
    rw [Gateway.addWanted, within_bind, within_touch, and_iff_left hadd]
    rfl
  have hvalue : HasRoom (g.addTopicsToForward topicsWanted).value.externalsubscribers :=
    value_forEach HasRoom hinv hg
  rw [Fits]
  rw [and_iff_left hvalue, Gateway.addTopicsToForward, within_bind, and_iff_left (within_pure _),
    within_forEach HasRoom hinv hround hg]
  simp only [List.mem_range]
  exact forall_lt_iff_le

theorem addTopicIdsToForward_fits (hg : HasRoom g.externalsubscribers) (topicId1 : Nat)
    (topicId2 topicId3 topicId4 : Option Nat) :
    Fits (g.addTopicIdsToForward topicId1 topicId2 topicId3 topicId4) := by
  have hinv : ∀ topicId ∈ topicId1 :: [topicId2, topicId3, topicId4].reduceOption,
      ∀ r, HasRoom r → HasRoom (TopicListReport.add r topicId).value :=
    fun topicId _ r hr => (add_fits hr topicId).2
  refine ⟨(within_bind _ _).mpr ⟨?_, within_pure _⟩, value_forEach HasRoom hinv hg⟩
  refine (within_forEach HasRoom hinv (Q := fun _ => True) ?_ hg).mpr (fun _ _ => trivial)
  intro topicId _ r hr
  exact iff_of_true (add_fits hr topicId).1 trivial

theorem within_shouldTopicForwarded (hg : HasRoom g.externalsubscribers) (topicId : Nat) :
    Within InList (g.shouldTopicForwarded topicId) := by
  simp [Gateway.shouldTopicForwarded, within_find hg topicId]

theorem within_put (hg : HasRoom g.externalsubscribers) (topicId : Nat) :
    Within InList (g.put topicId) := by
  simp [Gateway.put, within_find hg topicId]

theorem fits_bind_flag (x : Traced ListAccess Gateway) (outside : Bool) :
    Fits (x >>= fun g => pure { g with getTopicsToForwardFromOutside := outside }) ↔ Fits x := by
  simp [Fits]

theorem receiveReport_fits (hg : HasRoom g.externalsubscribers)
    (topicList : TopicListReport) :
    Fits (g.receiveReport topicList) ↔ (g.getTopicsToForwardFromOutside = true →
      topicList.numberOfTopics ≤ maxSubscribers) := by
  rw [Gateway.receiveReport]
  split
  · rename_i houtside
    rw [imp_iff_right houtside, fits_bind_flag]
    split
    · exact addTopicsToForward_fits hg topicList
    · exact setTopicsToForward_fits topicList
  · rename_i houtside
    exact iff_of_true ⟨within_pure g, hg⟩ (fun h => absurd h houtside)

end

theorem step_bounded_iff {order : ByteOrder} {e : Event} {s t : State} (hs : Bounded s)
    (ht : step order e s = some t) : Bounded t ↔ ReportFits order e s := by
  have hcount := hs.1
  cases e with
  | received msg =>
    obtain ⟨-, ht⟩ := Option.ite_none_right_eq_some.mp ht
    cases ht
    rw [bounded_after hs]
    exact receiveReport_fits hcount _
  | setTopicsToForward topicList =>
    cases ht
    rw [bounded_after hs]
    exact setTopicsToForward_fits topicList
  | addTopicsToForward topicsWanted =>
    cases ht
    rw [bounded_after hs]
    exact addTopicsToForward_fits hcount topicsWanted
  | addTopicIdsToForward topicId1 topicId2 topicId3 topicId4 =>
    cases ht
    rw [bounded_after hs]
    exact iff_of_true (addTopicIdsToForward_fits hcount _ _ _ _) trivial
  | resetTopicsToForward =>
    cases ht
    rw [bounded_after hs]
    exact iff_of_true ⟨within_pure _, Nat.zero_le _⟩ trivial
  | enable onOff =>
    cases ht
    rw [bounded_after hs]
    exact iff_of_true ⟨within_pure _, hcount⟩ trivial
  | put topicId =>
    cases ht
    rw [bounded_after hs]
    exact iff_of_true ⟨(within_bind _ _).mpr ⟨within_put hcount topicId, within_pure _⟩, hcount⟩
      trivial
  | shouldTopicForwarded topicId =>
    cases ht
    rw [bounded_after hs]
    exact iff_of_true ⟨(within_bind _ _).mpr
      ⟨within_shouldTopicForwarded hcount topicId, within_pure _⟩, hcount⟩ trivial

/-- As long as no report counts more topics than it has room for, the list
stays within its bounds, and the first one that does breaks them. -/
theorem topicList_bounded (order : ByteOrder) (s : State)
    (h : ReachableUnder Init (step order) (ReportFits order) s) :
    Bounded s ∧ ∀ e t, step order e s = some t → (Bounded t ↔ ReportFits order e s) := by
  have hs : Bounded s := by
    apply h.invariant
    · intro s hinit
      obtain ⟨hcount, -, haccesses⟩ := hinit
      exact ⟨hcount ▸ Nat.zero_le _, haccesses ▸ List.forall_mem_nil _⟩
    · intro e s t hs hok ht
      exact (step_bounded_iff hs ht).mpr hok
  exact ⟨hs, fun e t ht => step_bounded_iff hs ht⟩

def started : State where
  gateway :=
    { linkinterface := ⟨.udp, 1, false⟩
      forwardAll := false
      isEnabled := true
      getTopicsToForwardFromOutside := true
      externalsubscribers := ⟨0, fun _ => 0⟩ }
  accesses := []

/-- A message whose user data is a report with nothing but a count. -/
def countOnly (count : UInt8) : NetworkMessage :=
  prepareNetworkMessage blank 0 [count, 0, 0, 0] request

theorem started_receives (count : UInt8) (htopic : getTopicId (countOnly count) = 0) :
    step .little (.received (countOnly count)) started =
      some (started.after
        (started.gateway.receiveReport (reportOf .little (countOnly count)))) := by
  simp only [step, if_pos htopic]

theorem topicList_bounded_countOnly :
    ∃ t, step .little (.received (countOnly 60)) started = some t ∧ Bounded t := by
  have hinit : Init started := ⟨rfl, rfl, rfl⟩
  have hfits : ReportFits .little (.received (countOnly 60)) started := by
    intro _
    decide +kernel
  have hstep := started_receives 60 (by decide +kernel)
  exact ⟨_, hstep, ((topicList_bounded .little started (.start hinit)).2 _ _ hstep).mpr hfits⟩

theorem not_bounded_countOnly : isCheckSumOk (countOnly 61) ∧
    ∃ s t, Reachable Init (step .little) s ∧
      step .little (.received (countOnly 61)) s = some t ∧ ¬ Bounded t := by
  have hinit : Init started := ⟨rfl, rfl, rfl⟩
  refine ⟨isCheckSumOk_prepareNetworkMessage _ _ _ _, started, _, .start hinit,
    started_receives 61 (by decide +kernel), ?_⟩
  intro h
  exact absurd h.1 (by decide +kernel)

end TopicReports

end Rodos
