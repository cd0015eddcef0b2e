import Rodos.CanReceiver
import Rodos.LinkedSegment

namespace Rodos.CanPool

open CanFraming CanReceiver LinkedSegment TransitionSystem

abbrev Ref := Fin canMsgBufferSize

structure BufferedCANMessage where
  canMsg : CanMsg
  next : Option Ref

inductive Pc
  | outside
  | scan (prevBufElement bufElement : Option Ref)
  | receive
  deriving DecidableEq, Repr

structure LinkinterfaceCAN where
  memory : Ref → BufferedCANMessage
  emptyBufferedCANMessages : Nat → Ref
  emptyBufferedCANMessagesPos : Int
  bufferedCANMsgsStart : Option Ref
  bufferedCANMsgsEnd : Option Ref
  session : Session
  pc : Pc

namespace LinkinterfaceCAN

def next (l : LinkinterfaceCAN) (p : Ref) : Option Ref := (l.memory p).next

def frame (l : LinkinterfaceCAN) (p : Ref) : CanMsg := (l.memory p).canMsg

def setNext (l : LinkinterfaceCAN) (p : Ref) (q : Option Ref) : LinkinterfaceCAN :=
  { l with memory := Function.update l.memory p { l.memory p with next := q } }

def setFrame (l : LinkinterfaceCAN) (p : Ref) (f : CanMsg) : LinkinterfaceCAN :=
  { l with memory := Function.update l.memory p { l.memory p with canMsg := f } }

/-- Put a buffer back on the stack. An index out of range is a fault. -/
def putEmpty (l : LinkinterfaceCAN) (msg : Ref) : Option LinkinterfaceCAN :=
  if 0 ≤ l.emptyBufferedCANMessagesPos + 1 ∧
      l.emptyBufferedCANMessagesPos + 1 < canMsgBufferSize then
    some { l with
      emptyBufferedCANMessagesPos := l.emptyBufferedCANMessagesPos + 1
      emptyBufferedCANMessages :=
        Function.update l.emptyBufferedCANMessages (l.emptyBufferedCANMessagesPos + 1).toNat msg }
  else none

/-- The buffer to read into: the top of the stack or, when that is empty,
the last of the list. A null pointer on the way is a fault. -/
def takeBuffer (l : LinkinterfaceCAN) : Option (Ref × LinkinterfaceCAN) :=
  if l.emptyBufferedCANMessagesPos < 0 then
    match l.bufferedCANMsgsStart.bind (walkToLast l.next canMsgBufferSize none) with
    | some (some previous, msg) =>
      some (msg, { l.setNext previous none with bufferedCANMsgsEnd := some previous })
    | _ => none
  else if l.emptyBufferedCANMessagesPos < canMsgBufferSize then
    some (l.emptyBufferedCANMessages l.emptyBufferedCANMessagesPos.toNat, l)
  else none

/-- What `can.read` delivers is an argument, `none` standing for `-1`. -/
def receiveCANMessage (l : LinkinterfaceCAN) (canMsg : Option CanMsg) :
    Option (Option Ref × LinkinterfaceCAN) :=
  match l.takeBuffer, canMsg with
  | none, _ => none
  | some (msg, l), some f =>
    some (some msg, { l.setFrame msg f with
      emptyBufferedCANMessagesPos :=
        if l.emptyBufferedCANMessagesPos < 0 then l.emptyBufferedCANMessagesPos
        else l.emptyBufferedCANMessagesPos - 1
      session := l.session.note f })
  | some (msg, l), none =>
    if l.emptyBufferedCANMessagesPos < 0 then
      ((l.setFrame msg { l.frame msg with len := -1 }).putEmpty msg).map (fun l => (none, l))
    else some (none, l.setFrame msg { l.frame msg with len := -1 })

def appendCANMsgToCurrentNetMsg (l : LinkinterfaceCAN) (now : Int) (canMsg : Ref) :
    Option LinkinterfaceCAN :=
  (l.putEmpty canMsg).map (fun l => { l with session := l.session.append now (l.frame canMsg) })

def bypass (l : LinkinterfaceCAN) (prevBufElement : Option Ref) (bufElement : Ref) :
    LinkinterfaceCAN :=
  match prevBufElement with
  | none => { l with bufferedCANMsgsStart := l.next bufElement }
  | some p => l.setNext p (l.next bufElement)

def unlink (l : LinkinterfaceCAN) (prevBufElement : Option Ref) (bufElement : Ref) :
    LinkinterfaceCAN :=
  if (l.bypass prevBufElement bufElement).next bufElement = none then
    { l.bypass prevBufElement bufElement with bufferedCANMsgsEnd := prevBufElement }
  else l.bypass prevBufElement bufElement

def park (l : LinkinterfaceCAN) (msg : Ref) : LinkinterfaceCAN :=
  let l := l.setNext msg none
  let l := match l.bufferedCANMsgsEnd with
    | none => { l with bufferedCANMsgsStart := some msg }
    | some p => l.setNext p (some msg)
  { l with bufferedCANMsgsEnd := some msg }

def buffered (l : LinkinterfaceCAN) : List CanMsg :=
  (traverse l.next canMsgBufferSize l.bufferedCANMsgsStart).map l.frame

def free (l : LinkinterfaceCAN) : List Ref :=
  (List.range (l.emptyBufferedCANMessagesPos + 1).toNat).map l.emptyBufferedCANMessages

end LinkinterfaceCAN

open LinkinterfaceCAN

def scanElement (l : LinkinterfaceCAN) (now : Int) (prevBufElement : Option Ref)
    (bufElement : Ref) : Option LinkinterfaceCAN :=
  if l.session.belongs (l.frame bufElement) then
    ((l.unlink prevBufElement bufElement).appendCANMsgToCurrentNetMsg now bufElement).map
      (fun l' => { l' with
        pc := if l.session.completes now (l.frame bufElement) then .outside
          else .scan prevBufElement (l'.next bufElement) })
  else some { l with pc := .scan (some bufElement) (l.next bufElement) }

def receive (l : LinkinterfaceCAN) (now : Int) (canMsg : Option CanMsg) :
    Option LinkinterfaceCAN :=
  match l.receiveCANMessage canMsg with
  | none => none
  | some (none, l) => some { l with session := { l.session with result := some false }, pc := .outside }
  | some (some msg, l) =>
    if l.session.belongs (l.frame msg) then
      (l.appendCANMsgToCurrentNetMsg now msg).map
        (fun l' => { l' with
          pc := if l.session.completes now (l.frame msg) then .outside else .receive })
    else some { l.park msg with pc := .receive }

def step (e : Event) (l : LinkinterfaceCAN) : Option LinkinterfaceCAN :=
  match e, l.pc with
  | .call, .outside =>
    some { l with
      pc := if l.session.assembly.currentReceiveCANId = 0 then .scan none l.bufferedCANMsgsStart
        else .receive }
  | .scan _, .scan _ none => some { l with pc := .receive }
  | .scan now, .scan prevBufElement (some bufElement) => scanElement l now prevBufElement bufElement
  | .read now canMsg, .receive => if ∀ f ∈ canMsg, f.Valid then receive l now canMsg else none
  | _, _ => none

def Init (l : LinkinterfaceCAN) : Prop :=
  (∀ i : Ref, l.emptyBufferedCANMessages i = i) ∧
    l.emptyBufferedCANMessagesPos = canMsgBufferSize - 1 ∧
    l.bufferedCANMsgsStart = none ∧ l.bufferedCANMsgsEnd = none ∧ l.pc = .outside ∧
    l.session.assembly.currentReceiveCANId = 0 ∧ l.session.received = [] ∧
    l.session.consumed = [] ∧ l.session.delivered = [] ∧ l.session.result = none

@[simp] theorem setNext_next (l : LinkinterfaceCAN) (p : Ref) (q : Option Ref) :
    (l.setNext p q).next = Function.update l.next p q :=
  Function.comp_update BufferedCANMessage.next l.memory p _

@[simp] theorem setNext_frame (l : LinkinterfaceCAN) (p : Ref) (q : Option Ref) :
    (l.setNext p q).frame = l.frame :=
  (Function.comp_update BufferedCANMessage.canMsg l.memory p _).trans
    (Function.update_eq_self p l.frame)

@[simp] theorem setFrame_next (l : LinkinterfaceCAN) (p : Ref) (f : CanMsg) :
    (l.setFrame p f).next = l.next :=
  (Function.comp_update BufferedCANMessage.next l.memory p _).trans
    (Function.update_eq_self p l.next)

@[simp] theorem setFrame_frame (l : LinkinterfaceCAN) (p : Ref) (f : CanMsg) :
    (l.setFrame p f).frame = Function.update l.frame p f :=
  Function.comp_update BufferedCANMessage.canMsg l.memory p _

/-- Every buffer is on the stack, in the list or held by the function that
is moving it, and only there. -/
structure Layout (l : LinkinterfaceCAN) (held ps : List Ref) : Prop where
  pos : -1 ≤ l.emptyBufferedCANMessagesPos
  perm : (l.free ++ (held ++ ps)).Perm (List.finRange canMsgBufferSize)
  linked : Segment l.next l.bufferedCANMsgsStart ps none
  last : l.bufferedCANMsgsEnd = ps.getLast?

section

variable {l : LinkinterfaceCAN} {held ps : List Ref} {msg : Ref}

theorem Layout.nodup (h : Layout l held ps) : (l.free ++ (held ++ ps)).Nodup :=
  h.perm.nodup_iff.mpr (List.nodup_finRange canMsgBufferSize)

theorem Layout.length (h : Layout l held ps) :
    l.emptyBufferedCANMessagesPos + 1 + held.length + ps.length = canMsgBufferSize := by
  have hlen := h.perm.length_eq
  have hpos := h.pos
  simp only [free, List.length_append, List.length_map, List.length_range,
    List.length_finRange] at hlen
  omega

theorem Layout.nodup_list (h : Layout l held ps) : ps.Nodup :=
  (List.nodup_append.mp (List.nodup_append.mp h.nodup).2.1).2.1

theorem Layout.notMem_list (h : Layout l [msg] ps) : msg ∉ ps :=
  (List.nodup_cons.mp (List.nodup_append.mp h.nodup).2.1).1

theorem Layout.move (h : Layout l held ps) (session : Session) (pc : Pc) :
    Layout { l with session := session, pc := pc } held ps :=
  ⟨h.pos, h.perm, h.linked, h.last⟩

theorem Layout.buffered_eq (h : Layout l held ps) : l.buffered = ps.map l.frame := by
  have hlen := h.length
  have hpos := h.pos
  rw [buffered]
  rw [traverse_eq h.linked canMsgBufferSize (by omega)]

theorem free_putEmpty (hpos : -1 ≤ l.emptyBufferedCANMessagesPos) :
    (List.range (l.emptyBufferedCANMessagesPos + 1 + 1).toNat).map
      (Function.update l.emptyBufferedCANMessages (l.emptyBufferedCANMessagesPos + 1).toNat msg) =
    l.free ++ [msg] := by
  have hsucc : (l.emptyBufferedCANMessagesPos + 1 + 1).toNat =
      (l.emptyBufferedCANMessagesPos + 1).toNat + 1 := by omega
  rw [hsucc, List.range_succ, List.map_append]
  congr 1
  · apply List.map_congr_left
    intro i hi
    apply Function.update_of_ne
    have := List.mem_range.mp hi
    omega
  · simp

theorem Layout.putEmpty (h : Layout l [msg] ps) :
    ∃ l', l.putEmpty msg = some l' ∧ Layout l' [] ps ∧ l'.next = l.next ∧ l'.frame = l.frame ∧
      l'.session = l.session := by
  have hlen := h.length
  have hpos := h.pos
  simp only [List.length_cons, List.length_nil] at hlen
  have hrange : 0 ≤ l.emptyBufferedCANMessagesPos + 1 ∧
      l.emptyBufferedCANMessagesPos + 1 < canMsgBufferSize := by omega
  refine ⟨_, if_pos hrange, ⟨?_, ?_, h.linked, h.last⟩, rfl, rfl, rfl⟩
  · simp only
    omega
  · have hperm := h.perm
    rw [← List.append_assoc, ← free_putEmpty hpos] at hperm
    exact hperm

theorem Layout.append (h : Layout l [msg] ps) (now : Int) :
    ∃ l', l.appendCANMsgToCurrentNetMsg now msg = some l' ∧ Layout l' [] ps ∧
      l'.next = l.next ∧ l'.frame = l.frame ∧
      l'.session = l.session.append now (l.frame msg) := by
  obtain ⟨l', hl', hlay, hnext, hframe, hses⟩ := h.putEmpty
  refine ⟨{ l' with session := l'.session.append now (l'.frame msg) }, ?_,
    hlay.move _ _, hnext, hframe, ?_⟩
  · simp only [appendCANMsgToCurrentNetMsg, hl', Option.map_some]
  · simp only [hses, hframe]

theorem Layout.park (h : Layout l [msg] ps) :
    Layout (l.park msg) [] (ps ++ [msg]) ∧ (l.park msg).frame = l.frame ∧
      (l.park msg).session = l.session := by
  have hmsg := h.notMem_list
  have hperm : (ps ++ [msg]).Perm ([msg] ++ ps) := List.perm_append_comm
  have hfree : (l.free ++ ([] ++ (ps ++ [msg]))).Perm (List.finRange canMsgBufferSize) :=
    (hperm.append_left l.free).trans h.perm
  have hlink : Segment (l.setNext msg none).next l.bufferedCANMsgsStart ps none := by
    rw [setNext_next]
    exact h.linked.update_of_notMem hmsg none
  obtain rfl | ⟨qs, p, rfl⟩ := List.eq_nil_or_concat ps
  · have hend : (l.setNext msg none).bufferedCANMsgsEnd = none := h.last
    rw [LinkinterfaceCAN.park]
    simp only [hend]
    refine ⟨⟨h.pos, hfree, ⟨rfl, ?_⟩, by simp⟩, setNext_frame l msg none, rfl⟩
    change (l.setNext msg none).next msg = none
    simp
  · rw [List.concat_eq_append] at *
    have hend : (l.setNext msg none).bufferedCANMsgsEnd = some p := by
      change l.bufferedCANMsgsEnd = some p
      rw [h.last, List.getLast?_concat]
    rw [LinkinterfaceCAN.park]
    simp only [hend]
    refine ⟨⟨h.pos, hfree, ?_, by simp⟩, ?_, rfl⟩
    · have hp : p ∉ qs := fun hm => List.disjoint_of_nodup_append h.nodup_list hm (by simp)
      have hne : msg ≠ p := fun he => hmsg (by simp [he])
      have hseg := hlink.update_last hp (some msg)
      rw [← setNext_next] at hseg
      refine hseg.append ⟨rfl, ?_⟩
      change ((l.setNext msg none).setNext p (some msg)).next msg = none
      simp [hne]
    · change ((l.setNext msg none).setNext p (some msg)).frame = l.frame
      simp

theorem bypass_linked {ks rs : List Ref} {elem : Ref} (h : Layout l [] (ks ++ elem :: rs)) :
    Segment (l.bypass ks.getLast? elem).next (l.bypass ks.getLast? elem).bufferedCANMsgsStart
      (ks ++ rs) none ∧ (l.bypass ks.getLast? elem).next elem = rs.head? := by
  obtain ⟨mid, hks, rfl, hrs⟩ := h.linked.split
  have hnext := hrs.start_eq_head?
  obtain rfl | ⟨qs, p, rfl⟩ := List.eq_nil_or_concat ks
  · exact ⟨hrs, hnext⟩
  · rw [List.concat_eq_append] at *
    have hnd := h.nodup_list
    have hp : p ∉ qs := fun hm =>
      List.disjoint_of_nodup_append (List.nodup_append.mp hnd).1 hm (by simp)
    have hpr : p ∉ elem :: rs := fun hm => List.disjoint_of_nodup_append hnd (by simp) hm
    rw [List.mem_cons, not_or] at hpr
    simp only [List.getLast?_concat, bypass, setNext_next]
    refine ⟨(hks.update_last hp _).append (hrs.update_of_notMem hpr.2 _), ?_⟩
    rw [Function.update_of_ne (Ne.symm hpr.1), hnext]

theorem unlink_eq (l : LinkinterfaceCAN) (prev : Option Ref) (elem : Ref) :
    (l.unlink prev elem).next = (l.bypass prev elem).next ∧
      (l.unlink prev elem).bufferedCANMsgsStart = (l.bypass prev elem).bufferedCANMsgsStart ∧
      (l.unlink prev elem).emptyBufferedCANMessagesPos = l.emptyBufferedCANMessagesPos ∧
      (l.unlink prev elem).free = l.free ∧ (l.unlink prev elem).frame = l.frame ∧
      (l.unlink prev elem).session = l.session := by
  rw [LinkinterfaceCAN.unlink]
  cases prev with
  | none => split <;> exact ⟨rfl, rfl, rfl, rfl, rfl, rfl⟩
  | some p =>
    have hframe := setNext_frame l p (l.next elem)
    split <;> exact ⟨rfl, rfl, rfl, rfl, hframe, rfl⟩

theorem unlink_end {ks rs : List Ref} {elem : Ref} (h : Layout l [] (ks ++ elem :: rs)) :
    (l.unlink ks.getLast? elem).bufferedCANMsgsEnd = (ks ++ rs).getLast? := by
  have hnext := (bypass_linked h).2
  rw [LinkinterfaceCAN.unlink]
  rw [hnext]
  cases rs with
  | nil => simp
  | cons r rs =>
    have hend : (l.bypass ks.getLast? elem).bufferedCANMsgsEnd = l.bufferedCANMsgsEnd := by
      cases ks.getLast? <;> rfl
    simp [hend, h.last, List.getLast?_append]

theorem Layout.unlink {ks rs : List Ref} {elem : Ref} (h : Layout l [] (ks ++ elem :: rs)) :
    Layout (l.unlink ks.getLast? elem) [elem] (ks ++ rs) ∧
      (l.unlink ks.getLast? elem).next elem = rs.head? ∧
      (l.unlink ks.getLast? elem).frame = l.frame ∧
      (l.unlink ks.getLast? elem).session = l.session := by
  obtain ⟨hnext, hstart, hpos, hfree, hframe, hses⟩ := unlink_eq l ks.getLast? elem
  obtain ⟨hseg, helem⟩ := bypass_linked h
  have hperm : (elem :: (ks ++ rs)).Perm (ks ++ elem :: rs) := List.perm_middle.symm
  refine ⟨⟨?_, ?_, ?_, unlink_end h⟩, ?_, hframe, hses⟩
  · rw [hpos]
    exact h.pos
  · rw [hfree]
    exact (hperm.append_left l.free).trans h.perm
  · rw [hnext, hstart]
    exact hseg
  · rw [hnext]
    exact helem

theorem Layout.setFrame (h : Layout l held ps) (p : Ref) (f : CanMsg) :
    Layout (l.setFrame p f) held ps :=
  ⟨h.pos, h.perm, by rw [setFrame_next]; exact h.linked, h.last⟩

theorem map_setFrame (f : CanMsg) (h : msg ∉ ps) :
    ps.map (l.setFrame msg f).frame = ps.map l.frame := by
  apply List.map_congr_left
  intro p hp
  rw [setFrame_frame]
  apply Function.update_of_ne
  rintro rfl
  exact h hp

/-- With no buffer free the last of the list is taken, and there is one
before it. -/
theorem Layout.takeBuffer_full (h : Layout l [] ps) (hfull : canMsgBufferSize ≤ ps.length) :
    ∃ msg l', l.takeBuffer = some (msg, l') ∧ Layout l' [msg] ps.dropLast ∧
      l'.frame = l.frame ∧ l'.session = l.session ∧ l'.emptyBufferedCANMessagesPos < 0 := by
  have hlen := h.length
  have hpos := h.pos
  have hneg : l.emptyBufferedCANMessagesPos < 0 := by
    simp only [List.length_nil] at hlen
    omega
  obtain ⟨rs, previous, msg, rfl⟩ : ∃ rs previous msg, ps = rs ++ [previous] ++ [msg] := by
    obtain rfl | ⟨qs, msg, rfl⟩ := List.eq_nil_or_concat ps
    · simp [canMsgBufferSize] at hfull
    · obtain rfl | ⟨rs, previous, rfl⟩ := List.eq_nil_or_concat qs
      · simp [canMsgBufferSize] at hfull
      · exact ⟨rs, previous, msg, by simp⟩
  have hnd := h.nodup_list
  have hp : previous ∉ rs := fun hm =>
    List.disjoint_of_nodup_append (List.nodup_append.mp hnd).1 hm (by simp)
  have hfuel : (rs ++ [previous]).length < canMsgBufferSize := by
    simp only [List.length_append, List.length_cons, List.length_nil] at hlen ⊢
    omega
  obtain ⟨first, hfirst⟩ : ∃ first, l.bufferedCANMsgsStart = some first := by
    rw [h.linked.start_eq_head?]
    cases rs with
    | nil => exact ⟨previous, rfl⟩
    | cons r rs => exact ⟨r, rfl⟩
  have hlink := h.linked
  rw [hfirst] at hlink
  have hwalk := walkToLast_eq none hlink hfuel
  simp only [List.getLast?_concat, Option.some_or] at hwalk
  obtain ⟨mid, hrs, _⟩ := hlink.split
  refine ⟨msg, { l.setNext previous none with bufferedCANMsgsEnd := some previous }, ?_,
    ⟨hpos, ?_, ?_, ?_⟩, setNext_frame l previous none, rfl, hneg⟩
  · simp only [LinkinterfaceCAN.takeBuffer, if_pos hneg, hfirst, Option.bind_some, hwalk]
  · rw [List.dropLast_concat]
    have hperm : ([msg] ++ (rs ++ [previous])).Perm (rs ++ [previous] ++ [msg]) :=
      List.perm_append_comm
    exact (hperm.append_left l.free).trans h.perm
  · rw [List.dropLast_concat]
    change Segment (l.setNext previous none).next l.bufferedCANMsgsStart (rs ++ [previous]) none
    rw [setNext_next, hfirst]
    exact hrs.update_last hp none
  · simp

theorem Layout.takeBuffer_room (h : Layout l [] ps) (hroom : ¬ canMsgBufferSize ≤ ps.length) :
    ∃ msg, l.takeBuffer = some (msg, l) ∧ 0 ≤ l.emptyBufferedCANMessagesPos ∧
      Layout { l with emptyBufferedCANMessagesPos := l.emptyBufferedCANMessagesPos - 1 }
        [msg] ps := by
  have hlen := h.length
  simp only [List.length_nil] at hlen
  have hpos : 0 ≤ l.emptyBufferedCANMessagesPos := by omega
  refine ⟨l.emptyBufferedCANMessages l.emptyBufferedCANMessagesPos.toNat, ?_, hpos, ?_, ?_,
    h.linked, h.last⟩
  · rw [LinkinterfaceCAN.takeBuffer]
    rw [if_neg (by omega), if_pos (by omega)]
  · simp only
    omega
  · have hfree : l.free = (List.range l.emptyBufferedCANMessagesPos.toNat).map
        l.emptyBufferedCANMessages ++
          [l.emptyBufferedCANMessages l.emptyBufferedCANMessagesPos.toNat] := by
      rw [free]
      rw [show (l.emptyBufferedCANMessagesPos + 1).toNat =
        l.emptyBufferedCANMessagesPos.toNat + 1 by omega, List.range_succ, List.map_append]
      rfl
    have hperm := h.perm
    rw [hfree, List.append_assoc] at hperm
    simpa [free] using hperm

def remaining (ps : List Ref) : List Ref :=
  if canMsgBufferSize ≤ ps.length then ps.dropLast else ps

theorem Layout.receive_some (h : Layout l [] ps) (f : CanMsg) :
    ∃ msg l', l.receiveCANMessage (some f) = some (some msg, l') ∧
      Layout l' [msg] (remaining ps) ∧ l'.frame msg = f ∧
      (remaining ps).map l'.frame = (remaining ps).map l.frame ∧
      l'.session = l.session.note f := by
  unfold LinkinterfaceCAN.receiveCANMessage remaining
  by_cases hfull : canMsgBufferSize ≤ ps.length
  · obtain ⟨msg, l', htake, hlay, hframe, hses, hneg⟩ := h.takeBuffer_full hfull
    have hset := hlay.setFrame msg f
    have hmap := map_setFrame (l := l') f hlay.notMem_list
    simp only [htake, if_pos hfull, if_pos hneg]
    refine ⟨msg, _, rfl, hset.move _ _, ?_, ?_, ?_⟩
    · change (l'.setFrame msg f).frame msg = f
      simp
    · rw [← hframe]
      exact hmap
    · simp only [hses]
  · obtain ⟨msg, htake, hpos, hlay⟩ := h.takeBuffer_room hfull
    have hset := hlay.setFrame msg f
    have hmap := map_setFrame (l := l) f hlay.notMem_list
    simp only [htake, if_neg hfull, if_neg (not_lt.mpr hpos)]
    refine ⟨msg, _, rfl, hset.move _ _, ?_, hmap, rfl⟩
    change (l.setFrame msg f).frame msg = f
    simp

theorem Layout.receive_none (h : Layout l [] ps) :
    ∃ l', l.receiveCANMessage none = some (none, l') ∧ Layout l' [] (remaining ps) ∧
      (remaining ps).map l'.frame = (remaining ps).map l.frame ∧ l'.session = l.session := by
  unfold LinkinterfaceCAN.receiveCANMessage remaining
  by_cases hfull : canMsgBufferSize ≤ ps.length
  · obtain ⟨msg, l', htake, hlay, hframe, hses, hneg⟩ := h.takeBuffer_full hfull
    obtain ⟨l'', hput, hlay', _, hframe', hses'⟩ :=
      (hlay.setFrame msg { l'.frame msg with len := -1 }).putEmpty
    simp only [htake, if_pos hfull, if_pos hneg, hput, Option.map_some]
    refine ⟨l'', rfl, hlay', ?_, hses'.trans hses⟩
    rw [hframe', ← hframe]
    exact map_setFrame _ hlay.notMem_list
  · obtain ⟨msg, htake, hpos, hlay⟩ := h.takeBuffer_room hfull
    simp only [htake, if_neg hfull, if_neg (not_lt.mpr hpos)]
    exact ⟨_, rfl, h.setFrame msg _, map_setFrame _ hlay.notMem_list, rfl⟩

end

def PcMatches (l : LinkinterfaceCAN) (ps : List Ref) : Pc → Phase → Prop
  | .outside, .outside => True
  | .scan prev elem, .scan kept rest => ∃ ks rs, ps = ks ++ rs ∧ prev = ks.getLast? ∧
      elem = rs.head? ∧ kept = ks.map l.frame ∧ rest = rs.map l.frame
  | .receive, .receive => True
  | _, _ => False

structure Represents (l : LinkinterfaceCAN) (r : Receiver) (ps : List Ref) : Prop where
  layout : Layout l [] ps
  parked : r.parked = ps.map l.frame
  session : r.session = l.session
  phase : PcMatches l ps l.pc r.phase

def Simulates (l : LinkinterfaceCAN) (r : Receiver) : Prop := ∃ ps, Represents l r ps

theorem Simulates.buffered_eq {l : LinkinterfaceCAN} {r : Receiver} (h : Simulates l r) :
    l.buffered = r.parked := by
  obtain ⟨ps, h⟩ := h
  rw [h.layout.buffered_eq, h.parked]

theorem Simulates.session_eq {l : LinkinterfaceCAN} {r : Receiver} (h : Simulates l r) :
    r.session = l.session := by
  obtain ⟨ps, h⟩ := h
  exact h.session

section

variable {l : LinkinterfaceCAN} {r : Receiver} {ps : List Ref}

theorem Represents.room_eq (h : Represents l r ps) : r.room = (remaining ps).map l.frame := by
  have hfull : r.full ↔ canMsgBufferSize ≤ ps.length := by
    rw [Receiver.full, h.parked, List.length_map]
  rw [Receiver.room, remaining]
  by_cases hf : canMsgBufferSize ≤ ps.length
  · rw [if_pos (hfull.mpr hf), if_pos hf, h.parked, List.map_dropLast]
  · rw [if_neg (fun hr => hf (hfull.mp hr)), if_neg hf, h.parked]

theorem scanElement_simulates {prev : Option Ref} {elem : Ref} {kept rest : List CanMsg}
    (now : Int) (h : Represents l r ps) (hpc : l.pc = .scan prev (some elem))
    (hphase : r.phase = .scan kept rest) :
    ∃ l' r', scanElement l now prev elem = some l' ∧ CanReceiver.step (.scan now) r = some r' ∧
      Simulates l' r' := by
  have hmatch := h.phase
  rw [hpc, hphase] at hmatch
  obtain ⟨ks, rs, rfl, rfl, helem, rfl, rfl⟩ := hmatch
  obtain ⟨rs, rfl⟩ : ∃ rs', rs = elem :: rs' := by
    cases rs with
    | nil => cases helem
    | cons x rs =>
      obtain rfl : elem = x := Option.some.inj helem
      exact ⟨rs, rfl⟩
  unfold scanElement CanReceiver.step
  simp only [hphase, List.map_cons, h.session]
  by_cases hb : l.session.belongs (l.frame elem)
  · obtain ⟨hlay, hnext, hframe, hses⟩ := h.layout.unlink
    obtain ⟨l', hl', hlay', hnext', hframe', hses'⟩ := hlay.append now
    simp only [if_pos hb, hl', Option.map_some]
    rw [hframe] at hframe'
    refine ⟨_, _, rfl, rfl, ks ++ rs, hlay'.move _ _, ?_, ?_, ?_⟩
    · change ks.map l.frame ++ rs.map l.frame = (ks ++ rs).map l'.frame
      rw [hframe', List.map_append]
    · change l.session.append now (l.frame elem) = l'.session
      rw [hses', hses, hframe]
    · cases hdone : l.session.completes now (l.frame elem) with
      | true => trivial
      | false =>
        refine ⟨ks, rs, rfl, rfl, (congrFun hnext' elem).trans hnext, ?_, ?_⟩
        · change ks.map l.frame = ks.map l'.frame
          rw [hframe']
        · change rs.map l.frame = rs.map l'.frame
          rw [hframe']
  · simp only [if_neg hb]
    obtain ⟨_, _, -, hrs⟩ := h.layout.linked.split
    refine ⟨_, _, rfl, rfl, ks ++ elem :: rs, h.layout.move _ _, h.parked, rfl, ?_⟩
    refine ⟨ks ++ [elem], rs, by simp, by simp, hrs.start_eq_head?, ?_, rfl⟩
    change ks.map l.frame ++ [l.frame elem] = (ks ++ [elem]).map l.frame
    simp

theorem receive_simulates (now : Int) (canMsg : Option CanMsg) (h : Represents l r ps)
    (hphase : r.phase = .receive) (hv : ∀ f ∈ canMsg, f.Valid) :
    ∃ l' r', receive l now canMsg = some l' ∧ CanReceiver.step (.read now canMsg) r = some r' ∧
      Simulates l' r' := by
  have hroom := h.room_eq
  cases canMsg with
  | none =>
    obtain ⟨l', hl', hlay, hmap, hses⟩ := h.layout.receive_none
    unfold receive CanReceiver.step
    simp only [hl', hphase]
    refine ⟨_, _, rfl, rfl, remaining ps, hlay.move _ _, ?_, ?_, trivial⟩
    · exact hroom.trans hmap.symm
    · simp only [hses, h.session]
  | some f =>
    obtain ⟨msg, l', hl', hlay, hmsg, hmap, hses⟩ := h.layout.receive_some f
    unfold receive CanReceiver.step
    simp only [hl', hphase, if_pos (hv f rfl), hmsg, h.session, hses]
    have hbelongs : (l.session.note f).belongs f ↔ l.session.belongs f := Iff.rfl
    by_cases hb : l.session.belongs f
    · obtain ⟨l'', hl'', hlay', _, hframe, hses'⟩ := hlay.append now
      simp only [hbelongs, if_pos hb, hl'', Option.map_some]
      refine ⟨_, _, rfl, rfl, remaining ps, hlay'.move _ _, ?_, ?_, ?_⟩
      · change r.room = (remaining ps).map l''.frame
        rw [hframe, hmap, hroom]
      · simp only [hses', hses, hmsg]
      · have hsame : (l.session.note f).completes now f = l.session.completes now f := rfl
        simp only [hsame]
        cases l.session.completes now f <;> trivial
    · obtain ⟨hlay', hframe, hses'⟩ := hlay.park
      simp only [hbelongs, if_neg hb]
      refine ⟨_, _, rfl, rfl, remaining ps ++ [msg], hlay'.move _ _, ?_, ?_, trivial⟩
      · change r.room ++ [f] = (remaining ps ++ [msg]).map (l'.park msg).frame
        rw [hframe, List.map_append, hmap, hroom, List.map_singleton, hmsg]
      · simp only [hses', hses]

theorem Represents.pc_cases (h : Represents l r ps) :
    (l.pc = .outside ∧ r.phase = .outside) ∨
    (∃ prev elem kept rest, l.pc = .scan prev elem ∧ r.phase = .scan kept rest) ∨
    (l.pc = .receive ∧ r.phase = .receive) := by
  have hmatch := h.phase
  cases hpc : l.pc <;> cases hphase : r.phase <;> simp_all [PcMatches]

theorem call_simulates (h : Represents l r ps) (hphase : r.phase = .outside) :
    ∃ r', CanReceiver.step .call r = some r' ∧
      Simulates { l with
        pc := if l.session.assembly.currentReceiveCANId = 0 then .scan none l.bufferedCANMsgsStart
          else .receive } r' := by
  unfold CanReceiver.step
  simp only [hphase]
  refine ⟨_, rfl, ps, h.layout.move _ _, h.parked, h.session, ?_⟩
  simp only [h.session]
  split
  · exact ⟨[], ps, rfl, rfl, h.layout.linked.start_eq_head?, rfl, h.parked⟩
  · trivial

theorem endScan_simulates {prev : Option Ref} {kept rest : List CanMsg} (now : Int)
    (h : Represents l r ps) (hpc : l.pc = .scan prev none) (hphase : r.phase = .scan kept rest) :
    ∃ r', CanReceiver.step (.scan now) r = some r' ∧ Simulates { l with pc := .receive } r' := by
  have hmatch := h.phase
  rw [hpc, hphase] at hmatch
  obtain ⟨ks, rs, -, -, hrs, -, rfl⟩ := hmatch
  obtain rfl : rs = [] := List.head?_eq_none_iff.mp hrs.symm
  unfold CanReceiver.step
  simp only [hphase, List.map_nil]
  exact ⟨_, rfl, ps, h.layout.move _ _, h.parked, h.session, trivial⟩

/-- Every round on the pool is the same round on the list of frames. In
particular no round meets a null pointer or an index out of range. -/
theorem step_simulates (e : Event) (h : Simulates l r) :
    Option.Rel Simulates (step e l) (CanReceiver.step e r) := by
  obtain ⟨ps, h⟩ := h
  obtain ⟨hpc, hphase⟩ | ⟨prev, elem, kept, rest, hpc, hphase⟩ | ⟨hpc, hphase⟩ := h.pc_cases
  · cases e with
    | call =>
      obtain ⟨r', hr', hsim⟩ := call_simulates h hphase
      rw [hr']
      simp only [step, hpc]
      exact .some hsim
    | scan now | read now canMsg => simp [step, CanReceiver.step, hpc, hphase]
  · cases e with
    | call | read now canMsg => simp [step, CanReceiver.step, hpc, hphase]
    | scan now =>
      cases elem with
      | none =>
        obtain ⟨r', hr', hsim⟩ := endScan_simulates now h hpc hphase
        rw [hr']
        simp only [step, hpc]
        exact .some hsim
      | some elem =>
        obtain ⟨l', r', hl', hr', hsim⟩ := scanElement_simulates now h hpc hphase
        rw [hr']
        simp only [step, hpc, hl']
        exact .some hsim
  · cases e with
    | call | scan now => simp [step, CanReceiver.step, hpc, hphase]
    | read now canMsg =>
      by_cases hv : ∀ f ∈ canMsg, f.Valid
      · obtain ⟨l', r', hl', hr', hsim⟩ := receive_simulates now canMsg h hphase hv
        rw [hr']
        simp only [step, hpc, if_pos hv, hl']
        exact .some hsim
      · cases canMsg with
        | none => simp at hv
        | some f =>
          have hf : ¬ f.Valid := fun hf => hv (by simpa using hf)
          simp [step, CanReceiver.step, hpc, hphase, hf]

theorem Simulates.exists_step {e : Event} {l' : LinkinterfaceCAN} (h : Simulates l r)
    (hs : step e l = some l') : ∃ r', CanReceiver.step e r = some r' ∧ Simulates l' r' := by
  have hrel := step_simulates e h
  rw [hs] at hrel
  exact exists_of_rel_some hrel

end

theorem init_simulates {l : LinkinterfaceCAN} (h : Init l) :
    ∃ r, CanReceiver.Start r ∧ Simulates l r := by
  obtain ⟨hempty, hpos, hstart, hend, hpc, hcur, hrec, hcon, hdel, hres⟩ := h
  refine ⟨⟨[], l.session, .outside⟩, ⟨rfl, rfl, hcur, hrec, hcon, hdel, hres⟩, [], ⟨?_, ?_, ?_, hend⟩,
    rfl, rfl, ?_⟩
  · simp [hpos, canMsgBufferSize]
  · have hfree : l.free = List.finRange canMsgBufferSize := by
      apply List.ext_getElem
      · simp [free, hpos]
      · intro i h1 h2
        rw [List.length_finRange] at h2
        simpa [free] using hempty ⟨i, h2⟩
    rw [List.append_nil, List.append_nil, hfree]
  · rw [hstart]
    rfl
  · rw [hpc]
    trivial

theorem reachable_simulates {ok : Event → LinkinterfaceCAN → Prop} {ok' : Event → Receiver → Prop}
    (hok : ∀ e l r, Simulates l r → ok e l → ok' e r) {l : LinkinterfaceCAN}
    (h : ReachableUnder Init step ok l) :
    ∃ r, ReachableUnder CanReceiver.Start CanReceiver.step ok' r ∧ Simulates l r := by
  apply h.simulation Simulates (fun l hl => init_simulates hl)
  intro e l l' r hsim ho hs
  obtain ⟨r', hr', hsim'⟩ := hsim.exists_step hs
  exact ⟨r', hok e l r hsim ho, hr', hsim'⟩

end Rodos.CanPool
