import Rodos.TopicReports

namespace Rodos.DistributedTopics

open AccessTrace Traced TransitionSystem

def maxNumOfNodes : Nat := 32

def allTopicsBelowThisAreBroadcast : Nat := 10

def seconds : Int := 1000000000

def endOfTime : Int := 0x7FFFFFFFFFFFFFFF

structure TopicListPerNode where
  nodeNr : UInt32
  nodeIndex : UInt8
  topicListReport : TopicListReport

inductive Access
  | lastReportTimeOfNode (i : Nat)
  | topicList (i : Nat)
  | shift (amount : Nat)
  deriving DecidableEq

def InBounds : Access → Prop
  | .lastReportTimeOfNode i => i < maxNumOfNodes
  | .topicList i => i < maxSubscribers
  | .shift amount => amount < 32

/-- The bit maps are in the topics, and past its end the array is whatever lies behind it. -/
structure DistributedTopicRegister (T : Type) where
  lastReportTimeOfNode : Nat → Int
  receiverNodesBitMap : T → UInt32

section Methods

variable {T : Type} [DecidableEq T] (topicList : List T) (topicId : T → Nat)

def registerTopics (report : TopicListReport) (oneAtBitPos : UInt32) (bitMaps : T → UInt32) :
    Traced Access (T → UInt32) :=
  forEach (fun iter bitMaps => do
      let found ← (report.find (topicId iter)).spread fun a => [.topicList a.index]
      pure (if found then Function.update bitMaps iter (bitMaps iter ||| oneAtBitPos) else bitMaps))
    topicList bitMaps

def put (nodeNumber : UInt32) (hisTopics : TopicListPerNode) (now : Int)
    (d : DistributedTopicRegister T) : Traced Access (DistributedTopicRegister T) :=
  if hisTopics.nodeNr = nodeNumber then pure d
  else do
    touch (.shift hisTopics.nodeIndex.toNat)
    let oneAtBitPos := 1 <<< hisTopics.nodeIndex.toUInt32
    touch (.lastReportTimeOfNode hisTopics.nodeIndex.toNat)
    let bitMaps ← registerTopics topicList topicId hisTopics.topicListReport oneAtBitPos
      d.receiverNodesBitMap
    pure ⟨Function.update d.lastReportTimeOfNode hisTopics.nodeIndex.toNat now, bitMaps⟩

def clearBit (i : Nat) (bitMaps : T → UInt32) : T → UInt32 :=
  topicList.foldl (fun bitMaps iter =>
    Function.update bitMaps iter (bitMaps iter &&& ~~~(1 <<< i.toUInt32))) bitMaps

def isDead (now : Int) (d : DistributedTopicRegister T) (i : Nat) : Bool :=
  d.lastReportTimeOfNode i < now - 10 * seconds

def removeIfDead (now : Int) (d : DistributedTopicRegister T) (i : Nat) (bitMaps : T → UInt32) :
    Traced Access (T → UInt32) := do
  touch (.lastReportTimeOfNode i)
  if isDead now d i then
    touch (.shift i)
    pure (clearBit topicList i bitMaps)
  else pure bitMaps

/-- The search for dead nodes in the loop of `run`. -/
def removeDeadNodes (now : Int) (d : DistributedTopicRegister T) :
    Traced Access (DistributedTopicRegister T) := do
  let bitMaps ← forEach (removeIfDead topicList now d) (List.range maxNumOfNodes)
    d.receiverNodesBitMap
  pure { d with receiverNodesBitMap := bitMaps }

def publish (topic : T) (d : DistributedTopicRegister T) : DistributedTopicRegister T :=
  if topicId topic < allTopicsBelowThisAreBroadcast then
    { d with receiverNodesBitMap := Function.update d.receiverNodesBitMap topic (~~~0) }
  else d

end Methods

/-- A report of another node has come or a node has been found dead. -/
inductive Note
  | report (hisTopics : TopicListPerNode)
  | removed (i : Nat)

structure System (T : Type) extends DistributedTopicRegister T where
  accesses : List Access
  notes : List Note

inductive Event (T : Type)
  | put (hisTopics : TopicListPerNode) (now : Int)
  | tick (now : Int)
  | publish (topic : T)

section Steps

variable {T : Type} [DecidableEq T]

def System.after (s : System T) (x : Traced Access (DistributedTopicRegister T))
    (notes : List Note) : System T :=
  ⟨x.value, s.accesses ++ x.accesses, s.notes ++ notes⟩

def step (topicList : List T) (topicId : T → Nat) (nodeNumber : UInt32) :
    Event T → System T → Option (System T)
  | .put hisTopics now, s =>
    some (s.after (put topicList topicId nodeNumber hisTopics now s.toDistributedTopicRegister)
      (if hisTopics.nodeNr = nodeNumber then [] else [.report hisTopics]))
  | .tick now, s =>
    some (s.after (removeDeadNodes topicList now s.toDistributedTopicRegister)
      (((List.range maxNumOfNodes).filter (isDead now s.toDistributedTopicRegister)).map .removed))
  | .publish topic, s =>
    some (s.after (pure (publish topicId topic s.toDistributedTopicRegister)) [])

def Constructed (topicId : T → Nat) (s : System T) : Prop :=
  (∀ i < maxNumOfNodes, s.lastReportTimeOfNode i = endOfTime) ∧
    (∀ topic, s.receiverNodesBitMap topic =
      if topicId topic < allTopicsBelowThisAreBroadcast then ~~~0 else 0) ∧
    s.accesses = [] ∧ s.notes = []

def lists (report : TopicListReport) (topicId : Nat) : Prop :=
  ∃ k, k < report.numberOfTopics ∧ k < maxSubscribers ∧ report.topicList k = topicId

/-- A report of the node that lists the topic has come, and the node has not been found dead
since. -/
def Reported (topicId i : Nat) (notes : List Note) : Prop :=
  ∃ before hisTopics after, notes = before ++ .report hisTopics :: after ∧
    hisTopics.nodeIndex.toNat = i ∧ lists hisTopics.topicListReport topicId ∧
    .removed i ∉ after

structure Sound (topicList : List T) (topicId : T → Nat) (s : System T) : Prop where
  inBounds : ∀ a ∈ s.accesses, InBounds a
  reported : ∀ topic ∈ topicList, allTopicsBelowThisAreBroadcast ≤ topicId topic → ∀ i < 32,
    (s.receiverNodesBitMap topic).toNat.testBit i = true → Reported (topicId topic) i s.notes

/-- A report has the index of a node, and the search for a local topic does not go past the
end of its list. -/
def WellFormed (topicList : List T) (topicId : T → Nat) (nodeNumber : UInt32) :
    Event T → System T → Prop
  | .put hisTopics _, _ => hisTopics.nodeNr = nodeNumber ∨
    hisTopics.nodeIndex.toNat < maxNumOfNodes ∧
      (hisTopics.topicListReport.numberOfTopics ≤ maxSubscribers ∨
        ∀ topic ∈ topicList, ∃ k < maxSubscribers,
          hisTopics.topicListReport.topicList k = topicId topic)
  | _, _ => True

end Steps

section Bits

theorem toNat_bit {i : UInt32} (hi : i.toNat < 32) : ((1 : UInt32) <<< i).toNat = 2 ^ i.toNat := by
  rw [UInt32.toNat_shiftLeft, Nat.mod_eq_of_lt hi, UInt32.toNat_one, Nat.one_shiftLeft]
  exact Nat.mod_eq_of_lt (Nat.pow_lt_pow_right (by decide) hi)

theorem testBit_setBit (b : UInt32) {i : UInt32} (hi : i.toNat < 32) (j : Nat) :
    (b ||| (1 <<< i)).toNat.testBit j = true ↔ b.toNat.testBit j = true ∨ i.toNat = j := by
  rw [UInt32.toNat_or, Nat.testBit_or, Bool.or_eq_true, toNat_bit hi, Nat.testBit_two_pow,
    decide_eq_true_iff]

theorem testBit_clearBit (b : UInt32) {i : UInt32} (hi : i.toNat < 32) {j : Nat} :
    (b &&& ~~~(1 <<< i)).toNat.testBit j = true → b.toNat.testBit j = true ∧ i.toNat ≠ j := by
  rw [UInt32.toNat_and, Nat.testBit_and, Bool.and_eq_true, UInt32.toNat_not, toNat_bit hi]
  intro h
  refine ⟨h.1, ?_⟩
  rintro rfl
  have hbit := h.2
  rw [UInt32.size, Nat.sub_sub, Nat.add_comm 1, Nat.testBit_two_pow_sub_succ
    (Nat.pow_lt_pow_right (by decide) hi), Nat.testBit_two_pow_self] at hbit
  simp at hbit

end Bits

section Invariant

variable {T : Type} [DecidableEq T] {topicList : List T} {topicId : T → Nat} {nodeNumber : UInt32}
  {s t : System T}

theorem value_find {report : TopicListReport} {id : Nat} :
    (report.find id).value = true ↔ ∃ k < report.numberOfTopics, report.topicList k = id := by
  rw [TopicListReport.find]
  rw [value_search]
  refine exists_congr fun k => and_congr List.mem_range ?_
  rw [value_bind, value_pure, beq_iff_eq, eq_comm]

theorem within_find {report : TopicListReport} {id : Nat}
    (h : report.numberOfTopics ≤ maxSubscribers ∨ ∃ k < maxSubscribers, report.topicList k = id) :
    ((report.find id).spread fun a => [Access.topicList a.index]).Within InBounds := by
  rw [within_spread]
  simp only [List.mem_singleton, forall_eq]
  by_cases hfits : report.numberOfTopics ≤ maxSubscribers
  · exact TopicReports.within_find hfits id
  · have hfound := h.resolve_left hfits
    have hrange : List.range report.numberOfTopics = List.range maxSubscribers ++
        (List.range (report.numberOfTopics - maxSubscribers)).map (maxSubscribers + ·) := by
      rw [← List.range_add, Nat.add_sub_cancel' (by omega)]
    have hsame : report.find id =
        TopicListReport.find { report with numberOfTopics := maxSubscribers } id := by
      rw [TopicListReport.find]
      rw [hrange]
      refine search_append _ ?_
      obtain ⟨k, hk, hlisted⟩ := hfound
      exact ⟨k, List.mem_range.mpr hk, by simp [hlisted]⟩
    rw [hsame]
    exact TopicReports.within_find (Nat.le_refl _) id

theorem lists_of_find {report : TopicListReport} {id : Nat}
    (h : report.numberOfTopics ≤ maxSubscribers ∨ ∃ k < maxSubscribers, report.topicList k = id)
    (hfound : (report.find id).value = true) : lists report id := by
  obtain ⟨k, hk, hlisted⟩ := value_find.mp hfound
  by_cases hfits : report.numberOfTopics ≤ maxSubscribers
  · exact ⟨k, hk, by omega, hlisted⟩
  · obtain ⟨k, hk, hlisted⟩ := h.resolve_left hfits
    exact ⟨k, by omega, hk, hlisted⟩

section Loops

variable {report : TopicListReport} {bitMaps : T → UInt32} {i : UInt32}
  (hlist : ∀ topic ∈ topicList, report.numberOfTopics ≤ maxSubscribers ∨
    ∃ k < maxSubscribers, report.topicList k = topicId topic)
include hlist

theorem within_registerTopics :
    (registerTopics topicList topicId report (1 <<< i) bitMaps).Within InBounds := by
  rw [registerTopics]
  refine (within_forEach (fun _ => True) (fun _ _ _ _ => trivial) (Q := fun _ => True) ?_
    trivial).mpr fun _ _ => trivial
  intro topic htopic bitMaps' _
  rw [within_bind]
  exact iff_of_true ⟨within_find (hlist topic htopic), within_pure _⟩ trivial

theorem value_registerTopics (hi : i.toNat < 32) (topic : T) (j : Nat) :
    ((registerTopics topicList topicId report (1 <<< i) bitMaps).value topic).toNat.testBit j =
        true →
      (bitMaps topic).toNat.testBit j = true ∨ i.toNat = j ∧ lists report (topicId topic) := by
  revert topic j
  refine value_forEach (fun bitMaps' : T → UInt32 => ∀ topic j,
    (bitMaps' topic).toNat.testBit j = true → (bitMaps topic).toNat.testBit j = true ∨
      i.toNat = j ∧ lists report (topicId topic)) ?_ fun _ _ => .inl
  intro iter hiter bitMaps' hbits topic j
  rw [value_bind, value_pure, value_spread]
  split
  · rename_i hfound
    by_cases heq : topic = iter
    · rw [heq, Function.update_self, testBit_setBit _ hi]
      rintro (hold | rfl)
      · exact hbits iter j hold
      · exact .inr ⟨rfl, lists_of_find (hlist iter hiter) hfound⟩
    · rw [Function.update_of_ne heq]
      exact hbits topic j
  · exact hbits topic j

end Loops

theorem clearBit_le (i : Nat) (hi : i < 32) (bitMaps : T → UInt32) (topic : T) {j : Nat} :
    (clearBit topicList i bitMaps topic).toNat.testBit j = true →
      (bitMaps topic).toNat.testBit j = true ∧ (topic ∈ topicList → i ≠ j) := by
  have hi' : i.toUInt32.toNat = i := UInt32.toNat_ofNat_of_lt' (hi.trans (by decide))
  rw [clearBit]
  induction topicList generalizing bitMaps with
  | nil => exact fun hbit => ⟨hbit, nofun⟩
  | cons iter rest ih =>
    intro hbit
    obtain ⟨hbit, hrest⟩ := ih _ hbit
    dsimp only at hbit
    by_cases heq : topic = iter
    · rw [heq, Function.update_self] at hbit
      obtain ⟨hold, hne⟩ := testBit_clearBit _ (by rw [hi']; exact hi) hbit
      rw [hi'] at hne
      exact ⟨heq ▸ hold, fun _ => hne⟩
    · rw [Function.update_of_ne heq] at hbit
      exact ⟨hbit, fun hmem => hrest ((List.mem_cons.mp hmem).resolve_left heq)⟩

theorem removeIfDead_le (now : Int) (d : DistributedTopicRegister T) {l : List Nat}
    (hl : ∀ i ∈ l, i < 32) (bitMaps : T → UInt32) {topic : T} (htopic : topic ∈ topicList) {j : Nat} :
    ((forEach (removeIfDead topicList now d) l bitMaps).value topic).toNat.testBit j = true →
      (bitMaps topic).toNat.testBit j = true ∧ (j ∈ l → isDead now d j = false) := by
  induction l generalizing bitMaps with
  | nil => exact fun hbit => ⟨hbit, nofun⟩
  | cons i l ih =>
    intro hbit
    obtain ⟨hi, hl⟩ := List.forall_mem_cons.mp hl
    rw [forEach, value_bind] at hbit
    obtain ⟨hbit, hrest⟩ := ih hl _ hbit
    rw [removeIfDead, value_bind] at hbit
    by_cases hdead : isDead now d i = true
    · rw [if_pos hdead, value_bind, value_pure] at hbit
      obtain ⟨hold, hne⟩ := clearBit_le i hi bitMaps topic hbit
      exact ⟨hold, fun hmem => hrest ((List.mem_cons.mp hmem).resolve_left (hne htopic).symm)⟩
    · rw [if_neg hdead, value_pure] at hbit
      refine ⟨hbit, fun hmem => ?_⟩
      obtain rfl | hmem := List.mem_cons.mp hmem
      · exact Bool.eq_false_iff.mpr hdead
      · exact hrest hmem

theorem removeDeadNodes_le (now : Int) (d : DistributedTopicRegister T) {topic : T}
    (htopic : topic ∈ topicList) {j : Nat} (hj : j < 32) :
    ((removeDeadNodes topicList now d).value.receiverNodesBitMap topic).toNat.testBit j = true →
      (d.receiverNodesBitMap topic).toNat.testBit j = true ∧ isDead now d j = false := by
  have hrange : ∀ i ∈ List.range maxNumOfNodes, i < 32 := fun _ => List.mem_range.mp
  rw [removeDeadNodes]
  rw [value_bind, value_pure]
  dsimp only
  intro hbit
  obtain ⟨hold, hlive⟩ := removeIfDead_le now d hrange d.receiverNodesBitMap htopic hbit
  exact ⟨hold, hlive (List.mem_range.mpr hj)⟩

theorem within_removeDeadNodes (now : Int) (d : DistributedTopicRegister T) :
    (removeDeadNodes topicList now d).Within InBounds := by
  rw [removeDeadNodes]
  rw [within_bind]
  refine ⟨?_, within_pure _⟩
  refine (within_forEach (fun _ => True) (fun _ _ _ _ => trivial) (Q := fun _ => True) ?_
    trivial).mpr fun _ _ => trivial
  intro i hi bitMaps _
  have hi' : i < maxNumOfNodes := List.mem_range.mp hi
  simp only [removeIfDead, within_bind, within_ite, within_touch, within_pure, and_true,
    implies_true, iff_true]
  exact ⟨hi', fun _ => hi'⟩

omit [DecidableEq T] in
theorem sound_constructed (h : Constructed topicId s) : Sound topicList topicId s := by
  obtain ⟨_, hbitMaps, haccesses, _⟩ := h
  refine ⟨by rw [haccesses]; exact List.forall_mem_nil _, ?_⟩
  intro topic _ hid i _ hbit
  rw [hbitMaps, if_neg (Nat.not_lt.mpr hid), UInt32.toNat_zero, Nat.zero_testBit] at hbit
  cases hbit

theorem Reported.append {id i : Nat} {notes : List Note} (h : Reported id i notes)
    {more : List Note} (hmore : .removed i ∉ more) : Reported id i (notes ++ more) := by
  obtain ⟨before, hisTopics, after, rfl, hindex, hlists, hafter⟩ := h
  refine ⟨before, hisTopics, after ++ more, ?_, hindex, hlists, ?_⟩
  · rw [List.append_assoc, List.cons_append]
  · exact fun hmem => (List.mem_append.mp hmem).elim hafter hmore

theorem Sound.put (h : Sound topicList topicId s) {hisTopics : TopicListPerNode} {now : Int}
    (hok : WellFormed topicList topicId nodeNumber (.put hisTopics now) s)
    (hstep : step topicList topicId nodeNumber (.put hisTopics now) s = some t) :
    Sound topicList topicId t := by
  rw [step, DistributedTopics.put] at hstep
  by_cases hown : hisTopics.nodeNr = nodeNumber
  · rw [if_pos hown, if_pos hown] at hstep
    cases hstep
    refine ⟨List.forall_mem_append.mpr ⟨h.inBounds, within_pure _⟩, ?_⟩
    intro topic htopic hid i hi hbit
    exact (h.reported topic htopic hid i hi hbit).append List.not_mem_nil
  · obtain ⟨hindex, hlist⟩ := hok.resolve_left hown
    have hlist' : ∀ topic ∈ topicList, hisTopics.topicListReport.numberOfTopics ≤ maxSubscribers ∨
        ∃ k < maxSubscribers, hisTopics.topicListReport.topicList k = topicId topic :=
      fun topic htopic => hlist.imp_right fun hall => hall topic htopic
    have hshift : hisTopics.nodeIndex.toUInt32.toNat = hisTopics.nodeIndex.toNat :=
      UInt8.toNat_toUInt32 _
    rw [if_neg hown, if_neg hown] at hstep
    cases hstep
    refine ⟨List.forall_mem_append.mpr ⟨h.inBounds, ?_⟩, ?_⟩
    · change Traced.Within InBounds _
      simp only [within_bind, within_touch, within_pure, and_true]
      exact ⟨hindex, hindex, within_registerTopics hlist'⟩
    · intro topic htopic hid i hi hbit
      have hset := value_registerTopics hlist' (by rw [hshift]; exact hindex) topic i hbit
      obtain hold | ⟨rfl, hlists⟩ := hset
      · exact (h.reported topic htopic hid i hi hold).append (by simp)
      · exact ⟨s.notes, hisTopics, [], rfl, hshift.symm, hlists, List.not_mem_nil⟩

theorem Sound.tick (h : Sound topicList topicId s) {now : Int}
    (hstep : step topicList topicId nodeNumber (.tick now) s = some t) :
    Sound topicList topicId t := by
  cases hstep
  refine ⟨List.forall_mem_append.mpr ⟨h.inBounds, within_removeDeadNodes _ _⟩, ?_⟩
  intro topic htopic hid i hi hbit
  obtain ⟨hold, hlive⟩ := removeDeadNodes_le now s.toDistributedTopicRegister htopic hi hbit
  refine (h.reported topic htopic hid i hi hold).append fun hmem => ?_
  obtain ⟨k, hk, hsame⟩ := List.mem_map.mp hmem
  obtain rfl := Note.removed.inj hsame
  rw [(List.mem_filter.mp hk).2] at hlive
  cases hlive

theorem Sound.publish (h : Sound topicList topicId s) {topic : T}
    (hstep : step topicList topicId nodeNumber (.publish topic) s = some t) :
    Sound topicList topicId t := by
  cases hstep
  refine ⟨List.forall_mem_append.mpr ⟨h.inBounds, within_pure _⟩, ?_⟩
  intro topic' htopic hid i hi hbit
  refine (h.reported topic' htopic hid i hi ?_).append List.not_mem_nil
  change ((DistributedTopics.publish topicId topic s.toDistributedTopicRegister).receiverNodesBitMap
    topic').toNat.testBit i = true at hbit
  rw [DistributedTopics.publish] at hbit
  split at hbit
  · rename_i hbroadcast
    have hne : topic' ≠ topic := fun heq => by
      rw [heq] at hid
      omega
    dsimp only at hbit
    rwa [Function.update_of_ne hne] at hbit
  · exact hbit

end Invariant

variable {T : Type} [DecidableEq T]

/-- The bits of a topic stand for reports of nodes that are alive, as long as the reports are
well formed. -/
theorem register_sound {topicList : List T} {topicId : T → Nat} {nodeNumber : UInt32} {s : System T}
    (h : ReachableUnder (Constructed topicId) (step topicList topicId nodeNumber)
      (WellFormed topicList topicId nodeNumber) s) : Sound topicList topicId s := by
  refine h.invariant (Sound topicList topicId) (fun s hs => sound_constructed hs) ?_
  intro e s t hsound hok hstep
  cases e with
  | put hisTopics now => exact hsound.put hok hstep
  | tick now => exact hsound.tick hstep
  | publish topic => exact hsound.publish hstep

instance (topicList : List T) (topicId : T → Nat) (nodeNumber : UInt32) (e : Event T)
    (s : System T) : Decidable (WellFormed topicList topicId nodeNumber e s) := by
  unfold WellFormed
  split <;> infer_instance

section

def twoTopics : List Nat := [1000, 1001]

def started : System Nat where
  lastReportTimeOfNode _ := endOfTime
  receiverNodesBitMap topic := if topic < allTopicsBelowThisAreBroadcast then ~~~0 else 0
  accesses := []
  notes := []

theorem constructed_started : Constructed id started := ⟨fun _ _ => rfl, fun _ => rfl, rfl, rfl⟩

def reportFrom (nodeNr : UInt32) (nodeIndex : UInt8) (topic : Nat) : TopicListPerNode :=
  ⟨nodeNr, nodeIndex, ⟨1, fun _ => topic⟩⟩

/-- One of two nodes dies. -/
theorem register_sound_dead :
    ∃ s : System Nat, s.receiverNodesBitMap 1000 = 4 ∧ Sound twoTopics id s := by
  obtain ⟨s, hs, hbits⟩ := exists_reachable (Constructed id) (step twoTopics id 7)
    (WellFormed twoTopics id 7) started constructed_started
    [.put (reportFrom 1 1 1000) 0, .put (reportFrom 2 2 1000) (15 * seconds), .publish 1,
      .tick (20 * seconds)]
    (fun s => s.receiverNodesBitMap 1000 = 4) (by decide +kernel)
  exact ⟨s, hbits, register_sound hs⟩

/-- The index in a report can be any byte. -/
theorem register_outOfBounds : ∃ s : System Nat,
    Reachable (Constructed id) (step twoTopics id 7) s ∧ ¬Sound twoTopics id s := by
  obtain ⟨s, hs, haccess⟩ := exists_reachable (Constructed id) (step twoTopics id 7)
    (fun _ _ => True) started constructed_started [.put (reportFrom 40 40 1000) 0]
    (fun s => .lastReportTimeOfNode 40 ∈ s.accesses) (by decide +kernel)
  refine ⟨s, hs, fun hsound => ?_⟩
  have hbound : 40 < maxNumOfNodes := hsound.inBounds _ haccess
  exact absurd hbound (by decide)

end

end Rodos.DistributedTopics
