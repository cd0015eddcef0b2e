import Rodos.CanPool

namespace Rodos.CanDelivery

open ByteMemory NetworkMessage CanFraming CanReassembly CanReceiver CanPool TransitionSystem

structure Content where
  topicId : Nat
  senderNode : Int
  len : Nat
  data : List UInt8
  deriving DecidableEq, Repr

def contentOf (m : NetworkMessage) : Content :=
  ⟨getTopicId m, getSenderNode m, getLen m, userData m⟩

/-- What the link carries of a message: the CAN id has room for 16 bits of the
topic id and 8 bits of the sender node. -/
def carried (m : NetworkMessage) : Content :=
  ⟨getTopicId m % 2 ^ 16, getSenderNode m % 2 ^ 8, getLen m, userData m⟩

structure Sent where
  msg : NetworkMessage
  writes : List WriteResult
  nonempty : 1 ≤ getLen msg
  fits : getLen msg ≤ maxNetworkMessageLength
  done : (sendNetworkMsg msg writes).2 = some true

def Sent.frames (m : Sent) : List Telegram := (sendNetworkMsg m.msg m.writes).1

theorem Sent.frames_eq (m : Sent) : m.frames = telegrams m.msg :=
  sendNetworkMsg_true (Prod.ext rfl m.done)

/-- The frames come in an order that keeps those of a message in order and
does not mix two messages of one CAN id. -/
structure Arrives (ms : List Sent) (fs : List CanMsg) : Prop where
  valid : ∀ f ∈ fs, f.Valid
  ordered : ∀ b, ∃ order : List Sent, order.Perm (ms.filter (fun m => canId m.msg = b)) ∧
    (ofId b fs).map CanMsg.telegram = order.flatMap Sent.frames

def Content.canID (c : Content) : Nat :=
  0x1C * 2 ^ 24 + (c.topicId % 65536 * 256 + unsigned 4 c.senderNode % 256)

theorem canID_contentOf (m : NetworkMessage) : (contentOf m).canID = canId m := by
  simp only [Content.canID, contentOf, canId_eq]

theorem canID_carried (m : NetworkMessage) : (carried m).canID = canId m := by
  have hnode : unsigned 4 (getSenderNode m % 2 ^ 8) % 256 = unsigned 4 (getSenderNode m) % 256 := by
    unfold unsigned
    omega
  simp only [Content.canID, carried, canId_eq, hnode]
  omega

theorem unsigned_emod (x : Int) : ((unsigned 4 x % 256 : Nat) : Int) = x % 256 := by
  have h0 : 0 ≤ x % 256 ^ 4 := Int.emod_nonneg x (by decide)
  rw [unsigned]
  rw [Int.natCast_mod, Int.toNat_of_nonneg h0]
  exact Int.emod_emod_of_dvd x (by decide)

theorem contentOf_eq_carried {d m : NetworkMessage} (h : Matches d (delivery m)) :
    contentOf d = carried m := by
  have hlen : getLen d = getLen m := h.addressed.len
  have hdata : userData d = userData m := by
    have hread := h.data
    simp only [delivery, show (userData m).length = getLen m by simp [userData]] at hread
    rw [userData, hlen, hread]
  have htopic : getTopicId d = getTopicId m % 2 ^ 16 := by
    have haddr := h.addressed.topic
    simp only [delivery, canId_eq] at haddr
    omega
  have hnode : getSenderNode d = getSenderNode m % 2 ^ 8 := by
    have hid : canId m % 256 = unsigned 4 (getSenderNode m) % 256 := by
      rw [canId_eq]
      omega
    rw [h.addressed.node, show (delivery m).canID = canId m from rfl, hid, unsigned_emod]
    rfl
  simp only [contentOf, carried, hlen, hdata, htopic, hnode]

theorem map_contentOf {ds : List NetworkMessage} {ms : List NetworkMessage}
    (h : List.Forall₂ Matches ds (ms.map delivery)) : ds.map contentOf = ms.map carried := by
  rw [List.forall₂_map_right_iff] at h
  have heq := h.imp (fun _ _ hm => contentOf_eq_carried hm)
  rwa [← List.forall₂_map_right_iff (f := carried), ← List.forall₂_map_left_iff (f := contentOf),
    List.forall₂_eq_eq_eq] at heq

theorem count_map_filter {α β : Type} [DecidableEq β] (f : α → β) (key : β → Nat) (c : β)
    (xs : List α) :
    ((xs.filter (fun x => key (f x) = key c)).map f).count c = (xs.map f).count c := by
  rw [List.count_eq_countP, List.count_eq_countP, List.countP_map, List.countP_map,
    List.countP_filter]
  apply List.countP_congr
  intro x _
  simp only [Function.comp_apply, beq_iff_eq, Bool.and_eq_true, decide_eq_true_eq,
    and_iff_left_iff_imp]
  rintro rfl
  rfl

section

variable {ms : List Sent} {arrivals : List CanMsg} {r : Receiver}

theorem reassemble_arrivals (h : Arrives ms arrivals) (b : Nat) :
    ∃ order : List Sent, order.Perm (ms.filter (fun m => canId m.msg = b)) ∧
      reassemble none (ofId b arrivals) = (none, (order.map Sent.msg).map delivery) := by
  obtain ⟨order, hperm, hfs⟩ := h.ordered b
  refine ⟨order, hperm, ?_⟩
  apply reassemble_messages
  · intro m hm
    obtain ⟨s, _, rfl⟩ := List.mem_map.mp hm
    exact ⟨s.nonempty, s.fits⟩
  · intro f hf
    exact h.valid f (List.mem_filter.mp hf).1
  · rw [hfs, List.flatMap_map]
    exact congrArg (order.flatMap ·) (funext Sent.frames_eq)

theorem delivered_isPrefix (h : Arrives ms arrivals) (hs : Served r)
    (hrec : r.session.received <+: arrivals) (b : Nat) :
    ∃ order : List Sent, order.Perm (ms.filter (fun m => canId m.msg = b)) ∧
      (r.session.delivered.filter (fun m => canId m = b)).map contentOf <+:
        order.map (fun m => carried m.msg) := by
  obtain ⟨order, hperm, hall⟩ := reassemble_arrivals h b
  refine ⟨order, hperm, ?_⟩
  obtain ⟨rest, rfl⟩ := hrec
  rw [ofId_append, hs.split b, List.append_assoc, reassemble_append, Prod.mk.injEq] at hall
  obtain ⟨ms1, ms2, hms, h1, h2⟩ := List.map_eq_append_iff.mp hall.2.symm
  have hmatch := hs.tracking.matched b
  rw [← h1] at hmatch
  rw [map_contentOf hmatch]
  refine ⟨ms2.map carried, ?_⟩
  rw [← List.map_append, ← hms, List.map_map]
  rfl

theorem count_carried {order : List Sent} {c : Content}
    (h : order.Perm (ms.filter (fun m => canId m.msg = c.canID))) :
    (order.map (fun m => carried m.msg)).count c = (ms.map (fun m => carried m.msg)).count c := by
  have hfilter : ms.filter (fun m => canId m.msg = c.canID) =
      ms.filter (fun m => (carried m.msg).canID = c.canID) := by
    simp only [canID_carried]
  rw [(h.map _).count_eq, hfilter, count_map_filter]

theorem count_delivered (ds : List NetworkMessage) (c : Content) :
    ((ds.filter (fun m => canId m = c.canID)).map contentOf).count c =
      (ds.map contentOf).count c := by
  simp only [← canID_contentOf]
  exact count_map_filter contentOf Content.canID c ds

theorem delivered_subperm (h : Arrives ms arrivals) (hs : Served r)
    (hrec : r.session.received <+: arrivals) :
    (r.session.delivered.map contentOf).Subperm (ms.map (fun m => carried m.msg)) := by
  rw [List.subperm_ext_iff]
  intro c _
  obtain ⟨order, hperm, hprefix⟩ := delivered_isPrefix h hs hrec c.canID
  rw [← count_delivered, ← count_carried hperm]
  exact hprefix.sublist.count_le c

/-- With whole messages only, none is in reception when `getNetworkMsg` has
found nothing more to do. -/
theorem idle_of_rest (h : Arrives ms r.session.received) (hs : Served r) (hrest : r.AtRest) :
    r.session.assembly.currentReceiveCANId = 0 := by
  by_contra hne
  have hcon := hs.consumed_of_rest hrest (.inr rfl)
  obtain ⟨order, _, hall⟩ := reassemble_arrivals h r.session.assembly.currentReceiveCANId
  have htr := hs.tracking.tracked _ hne
  rw [hcon, hall] at htr
  exact htr rfl

theorem delivered_perm (h : Arrives ms r.session.received) (hs : Served r)
    (hrest : r.AtRest) :
    (r.session.delivered.map contentOf).Perm (ms.map (fun m => carried m.msg)) := by
  have hidle := idle_of_rest h hs hrest
  rw [List.perm_iff_count]
  intro c
  obtain ⟨order, hperm, hall⟩ := reassemble_arrivals h c.canID
  have hmatch := hs.tracking.matched c.canID
  rw [hs.consumed_of_rest hrest (.inl hidle), hall] at hmatch
  rw [← count_delivered, ← count_carried hperm, map_contentOf hmatch, List.map_map]
  rfl

end

/-- Never more than 127 frames are buffered, so that one is left to read into. -/
def LeavesRoom (l : LinkinterfaceCAN) : Prop := l.buffered.length ≤ 127

instance (l : LinkinterfaceCAN) : Decidable (LeavesRoom l) := by
  unfold LeavesRoom
  infer_instance

/-- `getNetworkMsg` has returned `false`, as it does when no frame is left to read. -/
def AtRest (l : LinkinterfaceCAN) : Prop := l.pc = .outside ∧ l.session.result = some false

instance (l : LinkinterfaceCAN) : Decidable (AtRest l) := by
  unfold AtRest
  infer_instance

section

variable {l : LinkinterfaceCAN} {r : Receiver}

theorem atRest_iff (h : Simulates l r) : AtRest l ↔ r.AtRest := by
  obtain ⟨ps, h⟩ := h
  rw [AtRest, Receiver.AtRest]
  rw [h.session]
  obtain ⟨hpc, hphase⟩ | ⟨prev, elem, kept, rest, hpc, hphase⟩ | ⟨hpc, hphase⟩ := h.pc_cases <;>
    simp [hpc, hphase]

/-- A run that leaves room is a run of the list of frames that loses none. -/
theorem exists_receiver (h : ReachableUnder Init CanPool.step (fun _ l => LeavesRoom l) l) :
    ∃ r, ReachableUnder Start CanReceiver.step HasRoom r ∧ Simulates l r := by
  apply reachable_simulates _ h
  intro e l r hsim hroom
  rw [LeavesRoom] at hroom
  rw [hsim.buffered_eq] at hroom
  cases e with
  | call | scan now => trivial
  | read now canMsg =>
    simp only [HasRoom, Receiver.full, canMsgBufferSize]
    omega

theorem exists_served (h : ReachableUnder Init CanPool.step (fun _ l => LeavesRoom l) l) :
    ∃ r, Served r ∧ Simulates l r := by
  obtain ⟨r, hr, hsim⟩ := exists_receiver h
  exact ⟨r, reachable_served hr, hsim⟩

/-- Whatever the order in which the frames of several messages come, and
whenever they come, each message is delivered once and as it was sent. -/
theorem delivered_exactly_once {ms : List Sent} {arrivals : List CanMsg} (harr : Arrives ms arrivals)
    (h : ReachableUnder Init CanPool.step (fun _ l => LeavesRoom l) l) (hroom : LeavesRoom l)
    (hrec : l.session.received <+: arrivals) :
    (∀ d ∈ l.session.delivered, isCheckSumOk d) ∧
      (l.session.delivered.map contentOf).Subperm (ms.map (fun m => carried m.msg)) ∧
      (l.session.received = arrivals → AtRest l →
        (l.session.delivered.map contentOf).Perm (ms.map (fun m => carried m.msg))) ∧
      (l.session.received = arrivals → Inevitable CanPool.step Quiet (fun l' => AtRest l' ∧
        (∀ d ∈ l'.session.delivered, isCheckSumOk d) ∧
        (l'.session.delivered.map contentOf).Perm (ms.map (fun m => carried m.msg))) l) := by
  obtain ⟨r, hs, hsim⟩ := exists_served h
  have hses := hsim.session_eq
  refine ⟨?_, ?_, ?_, ?_⟩
  · rw [← hses]
    exact fun d hd => hs.checkSumOk hd
  · rw [← hses] at hrec ⊢
    exact delivered_subperm harr hs hrec
  · intro hall hrest
    rw [← hses] at hall ⊢
    exact delivered_perm (hall ▸ harr) hs ((atRest_iff hsim).mp hrest)
  · intro hall
    have hlt : r.parked.length < canMsgBufferSize := by
      rw [← hsim.buffered_eq]
      exact Nat.lt_succ_of_le hroom
    refine (rest_inevitable hs hlt).transfer Simulates ?_ (fun e l r hr => step_simulates e hr) hsim
    intro l' r' hsim' hrest
    obtain ⟨hs', hrest', hrec'⟩ := hrest
    rw [← hses] at hall
    rw [← hsim'.session_eq]
    refine ⟨(atRest_iff hsim').mpr hrest', fun d hd => hs'.checkSumOk hd, ?_⟩
    exact delivered_perm ((hrec'.trans hall).symm ▸ harr) hs' hrest'

end

def message (topicId : Nat) (senderNode : Int) (data : List UInt8) : NetworkMessage :=
  ⟨write (putLen (putTopicId (putSenderNode ⟨fun _ => 0⟩ senderNode) topicId) data.length).bytes
    headerSize data⟩

def idle : LinkinterfaceCAN where
  memory _ := ⟨⟨0, Vector.replicate 8 0, 0⟩, none⟩
  emptyBufferedCANMessages i := ⟨i % canMsgBufferSize, Nat.mod_lt i (by decide)⟩
  emptyBufferedCANMessagesPos := canMsgBufferSize - 1
  bufferedCANMsgsStart := none
  bufferedCANMsgsEnd := none
  session := ⟨⟨⟨fun _ => 0⟩, 0, 0, 0, 0⟩, [], [], [], none⟩
  pc := .outside

theorem init_idle : Init idle := by
  refine ⟨?_, rfl, rfl, rfl, rfl, rfl, rfl, rfl, rfl, rfl⟩
  intro i
  exact Fin.ext (Nat.mod_eq_of_lt i.isLt)

def longMsg : Sent where
  msg := message 0x10064 0x101 [1, 2, 3, 4, 5, 6, 7, 8, 9, 10, 11, 12]
  writes := [.failed .noAck, .written, .written]
  nonempty := by decide +kernel
  fits := by decide +kernel
  done := by decide +kernel

def shortMsg : Sent where
  msg := message 200 (-2) [42, 43]
  writes := [.written]
  nonempty := by decide +kernel
  fits := by decide +kernel
  done := by decide +kernel

def firstFrame : CanMsg := ⟨0x1C006401, #v[0, 0, 12, 1, 2, 3, 4, 5], 8⟩

def lastFrame : CanMsg := ⟨0x1C006401, #v[1, 6, 7, 8, 9, 10, 11, 12], 8⟩

def shortFrame : CanMsg := ⟨0x1C00C8FE, #v[0, 0, 2, 42, 43, 0, 0, 0], 5⟩

def mixedFrames : List CanMsg := [firstFrame, shortFrame, lastFrame]

theorem arrives_mixedFrames : Arrives [longMsg, shortMsg] mixedFrames := by
  have hlong : canId longMsg.msg = 0x1C006401 := by decide +kernel
  have hshort : canId shortMsg.msg = 0x1C00C8FE := by decide +kernel
  refine ⟨by decide +kernel, fun b => ?_⟩
  by_cases h1 : b = 0x1C006401
  · subst h1
    refine ⟨[longMsg], ?_, by decide +kernel⟩
    simp [hlong, hshort]
  · by_cases h2 : b = 0x1C00C8FE
    · subst h2
      refine ⟨[shortMsg], ?_, by decide +kernel⟩
      simp [hlong, hshort]
    · refine ⟨[], ?_, ?_⟩
      · simp [hlong, hshort, Ne.symm h1, Ne.symm h2]
      · simp [mixedFrames, firstFrame, shortFrame, lastFrame, ofId, Ne.symm h1, Ne.symm h2]

def mixedRun : List Event :=
  [.call, .scan 1, .read 2 (some firstFrame), .read 3 (some shortFrame), .read 4 none, .call,
    .read 5 (some lastFrame), .call, .scan 6, .call, .scan 7, .read 8 none]

theorem delivered_exactly_once_mixedFrames :
    ∃ l, AtRest l ∧ l.session.received = mixedFrames ∧
      (l.session.delivered.map contentOf).Perm ([longMsg, shortMsg].map (fun m => carried m.msg)) := by
  obtain ⟨l, hl, hroom, hrec, hrest⟩ := exists_reachable Init CanPool.step (fun _ l => LeavesRoom l)
    idle init_idle mixedRun
    (fun l => LeavesRoom l ∧ l.session.received = mixedFrames ∧ AtRest l) (by decide +kernel)
  have h := delivered_exactly_once arrives_mixedFrames hl hroom (hrec ▸ List.prefix_rfl)
  exact ⟨l, hrest, hrec, h.2.2.1 hrec hrest⟩

end Rodos.CanDelivery
