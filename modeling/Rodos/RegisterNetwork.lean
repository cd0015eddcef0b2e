import Rodos.DistributedTopics
import Rodos.SoftState

namespace Rodos.RegisterNetwork

open AccessTrace Traced TransitionSystem SoftState DistributedTopics

section Topics

/-- The loop of `receiverNodesBitMap2Index`; the bits that are left decide how long it takes. -/
def scan : Nat → Int → UInt32 → Int → Int
  | 0, _, _, indexFound => indexFound
  | fuel + 1, index, bitmap, indexFound =>
    if bitmap = 0 then indexFound
    else if bitmap &&& 0x01 ≠ 0 then
      if indexFound ≠ -2 then -1 else scan fuel (index + 1) (bitmap >>> 1) index
    else scan fuel (index + 1) (bitmap >>> 1) indexFound

/-- What it returns for a topic that is not always broadcast. -/
def receiverNodesBitMap2Index (receiverNodesBitMap : UInt32) : Int :=
  scan 32 0 receiverNodesBitMap (-2)

end Topics

section Protocol

-- The nodes and their topics, and which of the topics have subscribers.
variable {T : Type} [DecidableEq T] (nodeNr : Nat → UInt32) (topicList : Nat → List T)
  (topicId : T → Nat) (listens : T → Bool)

def nodeIndex (n : Nat) : UInt8 := ((nodeNr n).toNat % maxNumOfNodes).toUInt8

/-- The preparations of `run`: the topics that have subscribers. -/
def localTopics (n : Nat) : Traced ListAccess TopicListReport :=
  forEach (fun iter report => if listens iter then report.add (topicId iter) else pure report)
    (topicList n) ⟨0, fun _ => 0⟩

def topicListFromMyNode (n : Nat) : TopicListPerNode :=
  ⟨nodeNr n, nodeIndex nodeNr n, (localTopics topicList topicId listens n).value⟩

/-- Where the thread of a node is in `run`: before the loop over the nodes, at one of them, or
in the loop over the topics for a dead one, before or after a bit map has been loaded. -/
inductive Run (T : Type)
  | waiting
  | published
  | test (definitionOfVeryOld : Int) (i : Nat)
  | remove (definitionOfVeryOld : Int) (i : Nat) (topics : List T)
  | store (definitionOfVeryOld : Int) (i : Nat) (iter : T) (receiverNodesBitMap : UInt32)
      (topics : List T)

def Run.removing : Run T → Bool
  | .remove .. | .store .. => true
  | _ => false

/-- `notes` has every report that has come, and a search for dead nodes when it has ended.
`quiet` has a search when it begins, and of a report that comes while bits are being cleared
only the time. -/
structure Node (T : Type) extends DistributedTopicRegister T where
  run : Run T
  clock : Int
  notes : List (Note Nat Nat Int)
  quiet : List (Note Nat Nat Int)

/-- Reports that have been sent stay in flight: they may be lost, late, and come more than once. -/
structure Network (T : Type) where
  nodes : Nat → Node T
  flight : List TopicListPerNode

/-- The time loop of a node sends a report, its thread makes the next access, a report comes to
a node, and what is published on a node. -/
inductive Event (T : Type)
  | tick (n : Nat)
  | exec (n : Nat) (now : Int)
  | deliver (k n : Nat) (now : Int)
  | publish (n : Nat) (topic : T)

def Network.update (s : Network T) (n : Nat) (node : Node T) : Network T :=
  { s with nodes := Function.update s.nodes n node }

/-- The next access of the search for dead nodes. -/
def exec (topicList : List T) (now : Int) (node : Node T) : Option (Node T) :=
  let node := { node with clock := now }
  match node.run with
  | .waiting => none
  | .published => some { node with
      run := .test (now - 10 * seconds) 0
      quiet := node.quiet ++ [.swept (now - 10 * seconds)] }
  | .test definitionOfVeryOld i =>
    if i < maxNumOfNodes then
      if node.lastReportTimeOfNode i < definitionOfVeryOld then
        some { node with run := .remove definitionOfVeryOld i topicList }
      else some { node with run := .test definitionOfVeryOld (i + 1) }
    else some { node with
      run := .waiting
      notes := node.notes ++ [.swept definitionOfVeryOld] }
  | .remove definitionOfVeryOld i [] =>
    some { node with run := .test definitionOfVeryOld (i + 1) }
  | .remove definitionOfVeryOld i (iter :: topics) =>
    some { node with
      run := .store definitionOfVeryOld i iter (node.receiverNodesBitMap iter) topics }
  | .store definitionOfVeryOld i iter receiverNodesBitMap topics =>
    some { node with
      run := .remove definitionOfVeryOld i topics
      receiverNodesBitMap := Function.update node.receiverNodesBitMap iter
        (receiverNodesBitMap &&& ~~~(1 <<< i.toUInt32)) }

/-- The thread of the gateway hands a report to `put`, which the search cannot interrupt. -/
def receive (topicList : List T) (topicId : T → Nat) (nodeNumber : UInt32)
    (report : TopicListPerNode) (now : Int) (node : Node T) : Node T :=
  let node := { node with
    toDistributedTopicRegister :=
      (put topicList topicId nodeNumber report now node.toDistributedTopicRegister).value
    clock := now }
  if report.nodeNr = nodeNumber then node
  else
    let keys := {id | lists report.topicListReport id}
    { node with
      notes := node.notes ++ [.heard report.nodeIndex.toNat keys now]
      quiet := node.quiet ++ [.heard report.nodeIndex.toNat
        (if node.run.removing then ∅ else keys) now] }

def step : Event T → Network T → Option (Network T)
  | .tick n, s =>
    match (s.nodes n).run with
    | .waiting => some { s.update n { s.nodes n with run := .published } with
        flight := s.flight ++ [topicListFromMyNode nodeNr topicList topicId listens n] }
    | _ => none
  | .exec n now, s =>
    if (s.nodes n).clock ≤ now ∧ now ≤ endOfTime then
      (exec (topicList n) now (s.nodes n)).map (s.update n)
    else none
  | .deliver k n now, s =>
    (s.flight[k]?).bind (fun report =>
      if (s.nodes n).clock ≤ now ∧ now ≤ endOfTime then
        some (s.update n (receive (topicList n) topicId (nodeNr n) report now (s.nodes n)))
      else none)
  | .publish n topic, s =>
    some (s.update n { s.nodes n with
      toDistributedTopicRegister := publish topicId topic (s.nodes n).toDistributedTopicRegister })

def Init (s : Network T) : Prop :=
  (∀ n, ∀ i < maxNumOfNodes, (s.nodes n).lastReportTimeOfNode i = endOfTime) ∧
    (∀ n topic, (s.nodes n).receiverNodesBitMap topic =
      if topicId topic < allTopicsBelowThisAreBroadcast then ~~~0 else 0) ∧
    s.flight = [] ∧
    ∀ n, (s.nodes n).run = .waiting ∧ (s.nodes n).notes = [] ∧ (s.nodes n).quiet = []

/-- Another node with the index has a subscriber to the topic. -/
def Subscribed (n id j : Nat) : Prop :=
  ∃ m, nodeNr m ≠ nodeNr n ∧ (nodeIndex nodeNr m).toNat = j ∧
    ∃ topic ∈ topicList m, listens topic = true ∧ topicId topic = id

end Protocol

section Scan

variable (bitmap : UInt32)

def bit (j : Nat) : Prop := bitmap.toNat.testBit j = true

variable {bitmap}

end Scan

section Bits

variable {T : Type} [DecidableEq T] {topicId : T → Nat} {i : UInt32} (hi : i.toNat < 32)

include hi in
theorem bit_clear (b : UInt32) {j : Nat} (hj : j < 32) :
    bit (b &&& ~~~(1 <<< i)) j ↔ bit b j ∧ i.toNat ≠ j := by
  rw [bit, bit, UInt32.toNat_and, Nat.testBit_and, Bool.and_eq_true, UInt32.toNat_not,
    toNat_bit hi, UInt32.size, Nat.sub_sub, Nat.add_comm 1, Nat.testBit_two_pow_sub_succ
    (Nat.pow_lt_pow_right (by decide) hi), Nat.testBit_two_pow]
  simp [hj]

include hi in
theorem bit_registerTopics {report : TopicListReport}
    (hreport : report.numberOfTopics ≤ maxSubscribers) (topicList : List T) (bitMaps : T → UInt32)
    (topic : T) (j : Nat) :
    bit ((registerTopics topicList topicId report (1 <<< i) bitMaps).value topic) j ↔
      bit (bitMaps topic) j ∨
        topic ∈ topicList ∧ i.toNat = j ∧ lists report (topicId topic) := by
  induction topicList generalizing bitMaps with
  | nil => simp [registerTopics, forEach]
  | cons iter topicList ih =>
    have hfind : (report.find (topicId iter)).value = true ↔ lists report (topicId iter) := by
      rw [value_find]
      constructor
      · rintro ⟨k, hk, hlisted⟩
        exact ⟨k, hk, by omega, hlisted⟩
      · rintro ⟨k, hk, -, hlisted⟩
        exact ⟨k, hk, hlisted⟩
    unfold registerTopics at ih ⊢
    rw [forEach, value_bind, ih, value_bind, value_pure, value_spread, List.mem_cons]
    by_cases hlists : lists report (topicId iter)
    · rw [if_pos (hfind.mpr hlists)]
      by_cases htopic : topic = iter
      · subst htopic
        rw [Function.update_self, bit, testBit_setBit _ hi, ← bit]
        tauto
      · rw [Function.update_of_ne htopic]
        tauto
    · rw [if_neg (hfind.not.mpr hlists)]
      by_cases htopic : topic = iter
      · subst htopic
        tauto
      · tauto

end Bits

section Reports

variable {T : Type} {topicId : T → Nat} {listens : T → Bool}

theorem lists_add {report : TopicListReport} (hroom : report.numberOfTopics < maxSubscribers - 1)
    (id : Nat) : (report.add id).value.numberOfTopics ≤ report.numberOfTopics + 1 ∧
      ∀ id', lists (report.add id).value id' ↔ lists report id' ∨ id' = id := by
  have hmax : maxSubscribers = 60 := rfl
  rw [TopicListReport.add]
  rw [if_pos hroom, value_bind]
  by_cases hfound : (report.find id).value = true
  · rw [if_pos hfound, value_pure]
    refine ⟨Nat.le_succ _, ?_⟩
    intro id'
    refine ⟨.inl, ?_⟩
    rintro (hold | rfl)
    · exact hold
    · obtain ⟨k, hk, hlisted⟩ := value_find.mp hfound
      exact ⟨k, hk, by omega, hlisted⟩
  · rw [if_neg hfound, value_bind, value_pure]
    refine ⟨le_rfl, ?_⟩
    intro id'
    constructor
    · rintro ⟨k, hk, hk', hlisted⟩
      dsimp only at hk hlisted
      by_cases hlast : k = report.numberOfTopics
      · rw [hlast, Function.update_self] at hlisted
        exact .inr hlisted.symm
      · rw [Function.update_of_ne hlast] at hlisted
        exact .inl ⟨k, by omega, hk', hlisted⟩
    · rintro (⟨k, hk, hk', hlisted⟩ | rfl)
      · refine ⟨k, Nat.lt_succ_of_lt hk, hk', ?_⟩
        dsimp only
        rw [Function.update_of_ne (by omega)]
        exact hlisted
      · refine ⟨report.numberOfTopics, Nat.lt_succ_self _, by omega, ?_⟩
        dsimp only
        rw [Function.update_self]

theorem lists_empty (id : Nat) : ¬ lists ⟨0, fun _ => 0⟩ id := by
  rintro ⟨k, hk, -, -⟩
  exact absurd hk (Nat.not_lt_zero k)

variable (topicId listens) (topicList : Nat → List T) (n : Nat)

theorem localTopics_sound :
    (localTopics topicList topicId listens n).value.numberOfTopics ≤ maxSubscribers ∧
      ∀ id, lists (localTopics topicList topicId listens n).value id →
        ∃ topic ∈ topicList n, listens topic = true ∧ topicId topic = id := by
  have hmax : maxSubscribers = 60 := rfl
  rw [localTopics]
  apply value_forEach (fun report => report.numberOfTopics ≤ maxSubscribers ∧
    ∀ id, lists report id → ∃ topic ∈ topicList n, listens topic = true ∧ topicId topic = id)
  · rintro topic htopic report ⟨hfits, hsound⟩
    split
    · rename_i hlistens
      by_cases hroom : report.numberOfTopics < maxSubscribers - 1
      · obtain ⟨hnumber, hlists⟩ := lists_add hroom (topicId topic)
        refine ⟨by omega, ?_⟩
        intro id hid
        obtain hold | rfl := (hlists id).mp hid
        · exact hsound id hold
        · exact ⟨topic, htopic, hlistens, rfl⟩
      · rw [TopicListReport.add]
        rw [if_neg hroom]
        exact ⟨hfits, hsound⟩
    · exact ⟨hfits, hsound⟩
  · exact ⟨Nat.zero_le _, fun id hid => absurd hid (lists_empty id)⟩

end Reports

section Runs

variable {T : Type} [DecidableEq T] {nodeNr : Nat → UInt32} {topicList : Nat → List T}
  {topicId : T → Nat} {listens : T → Bool}

theorem toNat_nodeIndex_lt (n : Nat) : (nodeIndex nodeNr n).toNat < 32 := by
  have hlt : (nodeNr n).toNat % maxNumOfNodes < 32 := Nat.mod_lt _ (by decide)
  have hbyte : (nodeNr n).toNat % maxNumOfNodes < UInt8.size := hlt.trans (by decide)
  rw [nodeIndex]
  exact (UInt8.toNat_ofNat_of_lt' hbyte).trans_lt hlt

section Nodes

/-- The bits that reports decide. -/
def Counts (topicList : List T) (topicId : T → Nat) (topic : T) (j : Nat) : Prop :=
  topic ∈ topicList ∧ allTopicsBelowThisAreBroadcast ≤ topicId topic ∧ j < 32

/-- Behind a search for dead nodes no bit is that of a node which is as old as that. -/
structure Searching (topicList : List T) (topicId : T → Nat) (node : Node T) (old : Int)
    (behind : T → Nat → Prop) : Prop where
  noted : .swept old ∈ node.quiet
  past : old ≤ node.clock
  fresh : ∀ topic j, Counts topicList topicId topic j → behind topic j →
    bit (node.receiverNodesBitMap topic) j → old ≤ node.lastReportTimeOfNode j

/-- A node that is being removed is not known for anything. -/
structure Removing (topicList : List T) (node : Node T) (i : Nat) (topics : List T) : Prop where
  index : i < 32
  mem : ∀ topic ∈ topics, topic ∈ topicList
  gone : ∀ id, (id, i) ∉ (directory node.quiet).known

/-- Between a load and the store no bit is cleared, and what comes then is not known. -/
structure Loaded (topicList : List T) (topicId : T → Nat) (node : Node T) (iter : T)
    (receiverNodesBitMap : UInt32) : Prop where
  stays : ∀ j, Counts topicList topicId iter j → bit receiverNodesBitMap j →
    bit (node.receiverNodesBitMap iter) j
  keeps : ∀ j, Counts topicList topicId iter j →
    (topicId iter, j) ∈ (directory node.quiet).known → bit receiverNodesBitMap j

def Run.Ok (topicList : List T) (topicId : T → Nat) (node : Node T) : Run T → Prop
  | .waiting | .published => True
  | .test old i => Searching topicList topicId node old fun _ j => j < i
  | .remove old i topics =>
    Searching topicList topicId node old (fun topic j => j < i ∨ j = i ∧ topic ∉ topics) ∧
      Removing topicList node i topics
  | .store old i iter receiverNodesBitMap topics =>
    Searching topicList topicId node old (fun topic j => j < i ∨ j = i ∧ topic ∉ iter :: topics) ∧
      Removing topicList node i (iter :: topics) ∧
      Loaded topicList topicId node iter receiverNodesBitMap

/-- What a node has noted is in order and not later than its clock. The bits are those of the
nodes that have been heard, and all of those that have been heard while no bits were cleared. -/
structure Coherent (topicList : List T) (topicId : T → Nat) (node : Node T) : Prop where
  times : ∀ j < 32,
    node.lastReportTimeOfNode j = ((directory node.notes).lastHeard j).getD endOfTime
  quietTimes : (directory node.quiet).lastHeard = (directory node.notes).lastHeard
  heard : ∀ topic j, Counts topicList topicId topic j → bit (node.receiverNodesBitMap topic) j →
    (topicId topic, j) ∈ (directory node.notes).known
  kept : ∀ topic j, Counts topicList topicId topic j →
    (topicId topic, j) ∈ (directory node.quiet).known → bit (node.receiverNodesBitMap topic) j
  search : node.run.Ok topicList topicId node
  ordered : Ordered node.notes
  quietOrdered : Ordered node.quiet
  past : ∀ note ∈ node.notes, note.time ≤ node.clock
  quietPast : ∀ note ∈ node.quiet, note.time ≤ node.clock

variable {topics : List T} {node : Node T} {now old : Int}

theorem ordered_concat {notes : List (SoftState.Note Nat Nat Int)} {note : SoftState.Note Nat Nat Int}
    (h : Ordered notes) (hnote : ∀ peer keys time, note = .heard peer keys time →
      ∀ earlier ∈ notes, earlier.time ≤ time) : Ordered (notes ++ [note]) := by
  refine List.pairwise_append.mpr ⟨h, List.pairwise_singleton _ _, ?_⟩
  intro earlier hearlier later hlater peer keys time heq
  rw [List.mem_singleton.mp hlater] at heq
  exact hnote peer keys time heq earlier hearlier

omit [DecidableEq T] in
theorem Run.Ok.mono {node' : Node T} {run : Run T} (h : run.Ok topics topicId node)
    (hquiet : ∀ old, .swept old ∈ node.quiet → .swept old ∈ node'.quiet)
    (hclock : node.clock ≤ node'.clock)
    (hfresh : ∀ old ≤ node.clock, ∀ topic j, Counts topics topicId topic j →
      bit (node'.receiverNodesBitMap topic) j →
      (bit (node.receiverNodesBitMap topic) j → old ≤ node.lastReportTimeOfNode j) →
      old ≤ node'.lastReportTimeOfNode j)
    (hgrows : ∀ topic j, Counts topics topicId topic j → bit (node.receiverNodesBitMap topic) j →
      bit (node'.receiverNodesBitMap topic) j)
    (hknown : run.removing = true →
      (directory node'.quiet).known ⊆ (directory node.quiet).known) :
    run.Ok topics topicId node' := by
  have hsearching : ∀ old behind, Searching topics topicId node old behind →
      Searching topics topicId node' old behind := by
    intro old behind hs
    refine ⟨hquiet old hs.noted, hs.past.trans hclock, ?_⟩
    intro topic j hcounts hbehind hbit
    exact hfresh old hs.past topic j hcounts hbit (hs.fresh topic j hcounts hbehind)
  cases run with
  | waiting | published => trivial
  | test old i => exact hsearching _ _ h
  | remove old i rest =>
    obtain ⟨hs, hr⟩ := h
    exact ⟨hsearching _ _ hs, hr.index, hr.mem, fun id hid => hr.gone id (hknown rfl hid)⟩
  | store old i iter bitMap rest =>
    obtain ⟨hs, hr, hl⟩ := h
    refine ⟨hsearching _ _ hs, ⟨hr.index, hr.mem, fun id hid => hr.gone id (hknown rfl hid)⟩, ?_⟩
    refine ⟨fun j hcounts hbit => hgrows iter j hcounts (hl.stays j hcounts hbit), ?_⟩
    intro j hcounts hid
    exact hl.keeps j hcounts (hknown rfl hid)

variable (h : Coherent topics topicId node)
include h

omit [DecidableEq T] in
theorem Coherent.wait (hclock : node.clock ≤ now) :
    Coherent topics topicId { node with clock := now } := by
  refine ⟨h.times, h.quietTimes, h.heard, h.kept, ?_, h.ordered, h.quietOrdered,
    fun note hnote => (h.past note hnote).trans hclock,
    fun note hnote => (h.quietPast note hnote).trans hclock⟩
  exact h.search.mono (fun _ hold => hold) hclock (fun _ _ _ _ _ hbit himp => himp hbit)
    (fun _ _ _ hbit => hbit) fun _ => subset_rfl

omit [DecidableEq T] in
/-- The time of a node that counts as dead is that of its last report. -/
theorem Coherent.dead {i : Nat} (hi : i < 32) (hnoted : .swept old ∈ node.quiet)
    (hdead : node.lastReportTimeOfNode i < old) (id : Nat) :
    (id, i) ∉ (directory node.quiet).known := by
  intro hid
  obtain ⟨time, htime, hfresh⟩ := fresh_of_known h.quietOrdered _ hid
  have hlast := h.times i hi
  rw [← h.quietTimes, htime, Option.getD_some] at hlast
  have hold := hfresh old hnoted
  omega

omit [DecidableEq T] in
theorem Coherent.begins :
    Coherent topics topicId { node with
      run := .test (node.clock - 10 * seconds) 0
      quiet := node.quiet ++ [.swept (node.clock - 10 * seconds)] } := by
  have hseconds : 0 < seconds := by decide
  have hold : node.clock - 10 * seconds ≤ node.clock := by omega
  refine ⟨h.times, ?_, h.heard, ?_, ?_, h.ordered, ?_, h.past, ?_⟩
  · rw [directory_concat]
    exact h.quietTimes
  · rw [directory_concat]
    intro topic j hcounts hid
    exact h.kept topic j hcounts hid.1
  · refine ⟨List.mem_append_right _ (List.mem_singleton_self _), hold, ?_⟩
    intro topic j _ hbehind
    exact absurd hbehind (Nat.not_lt_zero j)
  · exact ordered_concat h.quietOrdered (fun _ _ _ heq => by cases heq)
  · exact List.forall_mem_append.mpr ⟨h.quietPast, List.forall_mem_singleton.mpr hold⟩

omit [DecidableEq T] in
theorem Coherent.tests {i : Nat} (hrun : node.run = .test old i) (hi : i < 32) :
    Coherent topics topicId { node with
      run := if node.lastReportTimeOfNode i < old then .remove old i topics
        else .test old (i + 1) } := by
  have hs := h.search
  rw [hrun] at hs
  refine ⟨h.times, h.quietTimes, h.heard, h.kept, ?_, h.ordered, h.quietOrdered, h.past,
    h.quietPast⟩
  change Run.Ok topics topicId _ (if node.lastReportTimeOfNode i < old then _ else _)
  split
  · rename_i hdead
    refine ⟨⟨hs.noted, hs.past, ?_⟩, hi, fun _ htopic => htopic, h.dead hi hs.noted hdead⟩
    rintro topic j hcounts (hj | ⟨-, hnot⟩)
    · exact hs.fresh topic j hcounts hj
    · exact absurd hcounts.1 hnot
  · rename_i halive
    refine ⟨hs.noted, hs.past, ?_⟩
    intro topic j hcounts hj hbit
    obtain hj | rfl := Nat.lt_succ_iff_lt_or_eq.mp hj
    · exact hs.fresh topic j hcounts hj hbit
    · exact not_lt.mp halive

omit [DecidableEq T] in
theorem Coherent.ends {i : Nat} (hrun : node.run = .test old i) (hi : ¬ i < 32) :
    Coherent topics topicId { node with
      run := .waiting
      notes := node.notes ++ [.swept old] } := by
  have hs := h.search
  rw [hrun] at hs
  refine ⟨?_, ?_, ?_, h.kept, trivial, ?_, h.quietOrdered, ?_, h.quietPast⟩
  · rw [directory_concat]
    exact h.times
  · rw [directory_concat]
    exact h.quietTimes
  · rw [directory_concat]
    intro topic j hcounts hbit
    refine ⟨h.heard topic j hcounts hbit, ?_⟩
    intro time htime
    have hj : j < 32 := hcounts.2.2
    have hfresh := hs.fresh topic j hcounts (by omega) hbit
    rw [h.times j hj, htime, Option.getD_some] at hfresh
    exact hfresh
  · exact ordered_concat h.ordered (fun _ _ _ heq => by cases heq)
  · exact List.forall_mem_append.mpr ⟨h.past, List.forall_mem_singleton.mpr hs.past⟩

omit [DecidableEq T] in
theorem Coherent.removed {i : Nat} (hrun : node.run = .remove old i []) :
    Coherent topics topicId { node with run := .test old (i + 1) } := by
  have hs := h.search
  rw [hrun] at hs
  refine ⟨h.times, h.quietTimes, h.heard, h.kept, ⟨hs.1.noted, hs.1.past, ?_⟩, h.ordered,
    h.quietOrdered, h.past, h.quietPast⟩
  intro topic j hcounts hj
  refine hs.1.fresh topic j hcounts ?_
  obtain hj | rfl := Nat.lt_succ_iff_lt_or_eq.mp hj
  · exact .inl hj
  · exact .inr ⟨rfl, List.not_mem_nil⟩

omit [DecidableEq T] in
theorem Coherent.loads {i : Nat} {iter : T} {rest : List T}
    (hrun : node.run = .remove old i (iter :: rest)) :
    Coherent topics topicId { node with
      run := .store old i iter (node.receiverNodesBitMap iter) rest } := by
  have hs := h.search
  rw [hrun] at hs
  refine ⟨h.times, h.quietTimes, h.heard, h.kept, ⟨⟨hs.1.noted, hs.1.past, hs.1.fresh⟩,
    ⟨hs.2.index, hs.2.mem, hs.2.gone⟩, ?_⟩, h.ordered, h.quietOrdered, h.past, h.quietPast⟩
  exact ⟨fun _ _ hbit => hbit, fun j hcounts => h.kept iter j hcounts⟩

theorem Coherent.stores {i : Nat} {iter : T} {bitMap : UInt32} {rest : List T}
    (hrun : node.run = .store old i iter bitMap rest) :
    Coherent topics topicId { node with
      run := .remove old i rest
      receiverNodesBitMap := Function.update node.receiverNodesBitMap iter
        (bitMap &&& ~~~(1 <<< i.toUInt32)) } := by
  have hs := h.search
  rw [hrun] at hs
  obtain ⟨hsearching, hremoving, hloaded⟩ := hs
  have hi : i.toUInt32.toNat = i :=
    UInt32.toNat_ofNat_of_lt' (hremoving.index.trans (by decide))
  have hstored : ∀ j, j < 32 → (bit (bitMap &&& ~~~(1 <<< i.toUInt32)) j ↔ bit bitMap j ∧ i ≠ j) := by
    intro j hj
    rw [bit_clear (by rw [hi]; exact hremoving.index) bitMap hj, hi]
  -- no bit is set by the store
  have hless : ∀ topic j, Counts topics topicId topic j →
      bit (Function.update node.receiverNodesBitMap iter (bitMap &&& ~~~(1 <<< i.toUInt32)) topic) j →
      bit (node.receiverNodesBitMap topic) j ∧ (topic = iter → i ≠ j) := by
    intro topic j hcounts hbit
    by_cases htopic : topic = iter
    · subst htopic
      rw [Function.update_self, hstored j hcounts.2.2] at hbit
      exact ⟨hloaded.stays j hcounts hbit.1, fun _ => hbit.2⟩
    · rw [Function.update_of_ne htopic] at hbit
      exact ⟨hbit, fun heq => absurd heq htopic⟩
  refine ⟨h.times, h.quietTimes, ?_, ?_, ⟨⟨hsearching.noted, hsearching.past, ?_⟩,
    hremoving.index, ?_, hremoving.gone⟩, h.ordered, h.quietOrdered, h.past, h.quietPast⟩
  · intro topic j hcounts hbit
    exact h.heard topic j hcounts (hless topic j hcounts hbit).1
  · intro topic j hcounts hid
    change bit (Function.update node.receiverNodesBitMap iter _ topic) j
    by_cases htopic : topic = iter
    · subst htopic
      rw [Function.update_self, hstored j hcounts.2.2]
      refine ⟨hloaded.keeps j hcounts hid, ?_⟩
      rintro rfl
      exact hremoving.gone _ hid
    · rw [Function.update_of_ne htopic]
      exact h.kept topic j hcounts hid
  · intro topic j hcounts hbehind hbit
    obtain ⟨hbefore, hother⟩ := hless topic j hcounts hbit
    refine hsearching.fresh topic j hcounts ?_ hbefore
    obtain hj | ⟨rfl, hnot⟩ := hbehind
    · exact .inl hj
    · refine .inr ⟨rfl, ?_⟩
      rw [List.mem_cons, not_or]
      exact ⟨fun heq => hother heq rfl, hnot⟩
  · intro topic htopic
    exact hremoving.mem topic (List.mem_cons_of_mem _ htopic)

theorem Coherent.exec {node' : Node T} (hclock : node.clock ≤ now)
    (hexec : exec topics now node = some node') : Coherent topics topicId node' := by
  have hwait := h.wait hclock
  cases hrun : node.run with
  | waiting =>
    simp only [RegisterNetwork.exec, hrun] at hexec
    cases hexec
  | published =>
    simp only [RegisterNetwork.exec, hrun] at hexec
    cases hexec
    exact hwait.begins
  | test old i =>
    simp only [RegisterNetwork.exec, hrun] at hexec
    split at hexec
    · rename_i hi
      have htests := hwait.tests hrun hi
      split at hexec
      · rename_i hdead
        cases hexec
        rw [if_pos hdead] at htests
        exact htests
      · rename_i halive
        cases hexec
        rw [if_neg halive] at htests
        exact htests
    · rename_i hi
      cases hexec
      exact hwait.ends hrun hi
  | remove old i rest =>
    cases rest with
    | nil =>
      simp only [RegisterNetwork.exec, hrun] at hexec
      cases hexec
      exact hwait.removed hrun
    | cons iter rest =>
      simp only [RegisterNetwork.exec, hrun] at hexec
      cases hexec
      exact hwait.loads hrun
  | store old i iter bitMap rest =>
    simp only [RegisterNetwork.exec, hrun] at hexec
    cases hexec
    exact hwait.stores hrun

theorem Coherent.publish (topic : T) :
    Coherent topics topicId { node with
      toDistributedTopicRegister :=
        DistributedTopics.publish topicId topic node.toDistributedTopicRegister } := by
  have htimes : (DistributedTopics.publish topicId topic
      node.toDistributedTopicRegister).lastReportTimeOfNode = node.lastReportTimeOfNode := by
    rw [DistributedTopics.publish]
    split <;> rfl
  have hbits : ∀ topic' j, Counts topics topicId topic' j → (DistributedTopics.publish topicId topic
      node.toDistributedTopicRegister).receiverNodesBitMap topic' =
        node.receiverNodesBitMap topic' := by
    intro topic' j hcounts
    rw [DistributedTopics.publish]
    split
    · rename_i hbroadcast
      have hne : topic' ≠ topic := by
        rintro rfl
        exact absurd hcounts.2.1 (Nat.not_le.mpr hbroadcast)
      exact Function.update_of_ne hne _ _
    · rfl
  refine ⟨?_, h.quietTimes, ?_, ?_, ?_, h.ordered, h.quietOrdered, h.past, h.quietPast⟩
  · rw [htimes]
    exact h.times
  · intro topic' j hcounts
    rw [hbits topic' j hcounts]
    exact h.heard topic' j hcounts
  · intro topic' j hcounts
    rw [hbits topic' j hcounts]
    exact h.kept topic' j hcounts
  · refine h.search.mono (fun _ hold => hold) le_rfl ?_ ?_ fun _ => subset_rfl
    · intro old _ topic' j hcounts hbit himp
      rw [hbits topic' j hcounts] at hbit
      rw [htimes]
      exact himp hbit
    · intro topic' j hcounts hbit
      rw [hbits topic' j hcounts]
      exact hbit

/-- A report that comes while bits are being cleared adds nothing to what stays known. -/
theorem Coherent.receive {nodeNumber : UInt32} {report : TopicListPerNode}
    (hclock : node.clock ≤ now) (hindex : report.nodeIndex.toNat < 32)
    (hfits : report.topicListReport.numberOfTopics ≤ maxSubscribers) :
    Coherent topics topicId (receive topics topicId nodeNumber report now node) := by
  rw [RegisterNetwork.receive]
  by_cases hown : report.nodeNr = nodeNumber
  · simp only [if_pos hown, DistributedTopics.put, value_pure]
    exact h.wait hclock
  · have hshift : report.nodeIndex.toUInt32.toNat = report.nodeIndex.toNat :=
      UInt8.toNat_toUInt32 _
    simp only [if_neg hown, DistributedTopics.put, value_bind, value_pure]
    have hbits := fun topic j => @bit_registerTopics T _ topicId _ (by rw [hshift]; exact hindex)
      _ hfits topics node.receiverNodesBitMap topic j
    rw [hshift] at hbits
    have hlater : ∀ notes : List (SoftState.Note Nat Nat Int),
        (∀ note ∈ notes, note.time ≤ node.clock) → ∀ note ∈ notes, note.time ≤ now :=
      fun notes hnotes note hnote => (hnotes note hnote).trans hclock
    exact {
      times := by
        intro j hj
        rw [directory_concat]
        simp only [Directory.after, Directory.hear]
        by_cases hpeer : j = report.nodeIndex.toNat
        · rw [hpeer, Function.update_self, Function.update_self, Option.getD_some]
        · rw [Function.update_of_ne hpeer, Function.update_of_ne hpeer]
          exact h.times j hj
      quietTimes := by
        rw [directory_concat, directory_concat]
        simp only [Directory.after, Directory.hear]
        rw [h.quietTimes]
      heard := by
        intro topic j hcounts hbit
        rw [directory_concat]
        obtain hbefore | ⟨-, hsame, hlists⟩ := (hbits topic j).mp hbit
        · exact .inl (h.heard topic j hcounts hbefore)
        · exact .inr ⟨hsame.symm, hlists⟩
      kept := by
        intro topic j hcounts hid
        rw [directory_concat] at hid
        refine (hbits topic j).mpr ?_
        obtain hbefore | ⟨hsame, hlists⟩ := hid
        · exact .inl (h.kept topic j hcounts hbefore)
        · split at hlists
          · cases hlists
          · exact .inr ⟨hcounts.1, hsame.symm, hlists⟩
      search := by
        refine h.search.mono (fun old hold => List.mem_append_left _ hold) hclock ?_ ?_ ?_
        · intro old hold topic j hcounts hbit himp
          change old ≤ Function.update node.lastReportTimeOfNode _ _ j
          by_cases hpeer : j = report.nodeIndex.toNat
          · rw [hpeer, Function.update_self]
            exact hold.trans hclock
          · rw [Function.update_of_ne hpeer]
            obtain hbefore | ⟨-, hsame, -⟩ := (hbits topic j).mp hbit
            · exact himp hbefore
            · exact absurd hsame.symm hpeer
        · intro topic j _ hbit
          exact (hbits topic j).mpr (.inl hbit)
        · intro hremoving
          rw [directory_concat, if_pos hremoving]
          rintro e (hbefore | ⟨-, hnone⟩)
          · exact hbefore
          · cases hnone
      ordered := by
        refine ordered_concat h.ordered ?_
        rintro peer keys time ⟨⟩
        exact hlater _ h.past
      quietOrdered := by
        refine ordered_concat h.quietOrdered ?_
        rintro peer keys time ⟨⟩
        exact hlater _ h.quietPast
      past := List.forall_mem_append.mpr
        ⟨hlater _ h.past, List.forall_mem_singleton.mpr le_rfl⟩
      quietPast := List.forall_mem_append.mpr
        ⟨hlater _ h.quietPast, List.forall_mem_singleton.mpr le_rfl⟩ }

end Nodes

section Steps

variable (nodeNr topicList topicId listens)

def Authentic (n : Nat) (node : Node T) : Prop :=
  ∀ peer keys time, .heard peer keys time ∈ node.notes →
    ∀ id ∈ keys, Subscribed nodeNr topicList topicId listens n id peer

structure AllCoherent (s : Network T) : Prop where
  nodes : ∀ n, Coherent (topicList n) topicId (s.nodes n)
  authentic : ∀ n, Authentic nodeNr topicList topicId listens n (s.nodes n)
  flight : ∀ report ∈ s.flight, ∃ m, report = topicListFromMyNode nodeNr topicList topicId listens m

variable {nodeNr topicList topicId listens} {s : Network T} {n : Nat} {now : Int}
  (h : AllCoherent nodeNr topicList topicId listens s)
include h

omit [DecidableEq T] in
theorem AllCoherent.update {node : Node T} (hnode : Coherent (topicList n) topicId node)
    (hauthentic : Authentic nodeNr topicList topicId listens n node) :
    AllCoherent nodeNr topicList topicId listens (s.update n node) := by
  refine ⟨?_, ?_, h.flight⟩
  · intro m
    by_cases hm : m = n
    · subst hm
      simp only [Network.update, Function.update_self]
      exact hnode
    · simp only [Network.update, Function.update_of_ne hm]
      exact h.nodes m
  · intro m
    by_cases hm : m = n
    · subst hm
      simp only [Network.update, Function.update_self]
      exact hauthentic
    · simp only [Network.update, Function.update_of_ne hm]
      exact h.authentic m

omit h in
theorem heard_exec {topics : List T} {node node' : Node T} (hexec : exec topics now node = some node')
    {peer : Nat} {keys : Set Nat} {time : Int} (hmem : .heard peer keys time ∈ node'.notes) :
    .heard peer keys time ∈ node.notes := by
  cases hrun : node.run with
  | waiting =>
    simp only [exec, hrun] at hexec
    cases hexec
  | published | store old i iter bitMap rest =>
    simp only [exec, hrun] at hexec
    cases hexec
    exact hmem
  | test old i =>
    simp only [exec, hrun] at hexec
    split at hexec
    · split at hexec <;> cases hexec <;> exact hmem
    · cases hexec
      obtain hold | hnew := List.mem_append.mp hmem
      · exact hold
      · cases List.mem_singleton.mp hnew
  | remove old i rest =>
    cases rest <;> simp only [exec, hrun] at hexec <;> cases hexec <;> exact hmem

theorem AllCoherent.receive {report : TopicListPerNode} (hreport : report ∈ s.flight)
    (hclock : (s.nodes n).clock ≤ now) :
    AllCoherent nodeNr topicList topicId listens
      (s.update n (receive (topicList n) topicId (nodeNr n) report now (s.nodes n))) := by
  obtain ⟨m, rfl⟩ := h.flight report hreport
  obtain ⟨hfits, hsound⟩ := localTopics_sound topicId listens topicList m
  refine h.update ((h.nodes n).receive hclock (toNat_nodeIndex_lt m) hfits) ?_
  rw [RegisterNetwork.receive]
  split
  · exact h.authentic n
  · rename_i hne
    intro peer keys time hmem
    obtain hmem | hmem := List.mem_append.mp hmem
    · exact h.authentic n peer keys time hmem
    · obtain ⟨rfl, rfl, rfl⟩ := SoftState.Note.heard.inj (List.mem_singleton.mp hmem)
      intro id hid
      obtain ⟨topic, htopic, hlistens, hsame⟩ := hsound id hid
      exact ⟨m, hne, rfl, topic, htopic, hlistens, hsame⟩

omit [DecidableEq T] in
theorem AllCoherent.tick : AllCoherent nodeNr topicList topicId listens
    (s.update n { s.nodes n with run := .published }) := by
  have hn := h.nodes n
  refine h.update ?_ (h.authentic n)
  exact ⟨hn.times, hn.quietTimes, hn.heard, hn.kept, trivial, hn.ordered, hn.quietOrdered, hn.past,
    hn.quietPast⟩

theorem AllCoherent.step {e : Event T} {t : Network T}
    (hs : step nodeNr topicList topicId listens e s = some t) :
    AllCoherent nodeNr topicList topicId listens t := by
  cases e with
  | tick n =>
    rw [RegisterNetwork.step] at hs
    split at hs
    · cases hs
      obtain ⟨hnodes, hauthentic, -⟩ := h.tick
      exact ⟨hnodes, hauthentic,
        List.forall_mem_append.mpr ⟨h.flight, List.forall_mem_singleton.mpr ⟨n, rfl⟩⟩⟩
    · cases hs
  | exec n now =>
    rw [RegisterNetwork.step] at hs
    split at hs
    · rename_i hclock
      obtain ⟨node, hexec, rfl⟩ := Option.map_eq_some_iff.mp hs
      refine h.update ((h.nodes n).exec hclock.1 hexec) ?_
      intro peer keys time hmem
      exact h.authentic n peer keys time (heard_exec hexec hmem)
    · cases hs
  | deliver k n now =>
    obtain ⟨report, hreport, hs⟩ := Option.bind_eq_some_iff.mp hs
    split at hs
    · rename_i hclock
      cases hs
      exact h.receive (List.mem_of_getElem? hreport) hclock.1
    · cases hs
  | publish n topic =>
    cases hs
    exact h.update ((h.nodes n).publish topic) (h.authentic n)

end Steps

end Runs

section Main

variable {T : Type} [DecidableEq T] (nodeNr : Nat → UInt32) (topicList : Nat → List T)
  (topicId : T → Nat) (listens : T → Bool)

end Main

section Pair

end Pair

end Rodos.RegisterNetwork
