import Rodos.CanReassembly
import Rodos.TransitionSystem

namespace Rodos.CanReceiver

open NetworkMessage CanFraming CanReassembly TransitionSystem

def canMsgBufferSize : Nat := 128

/-- One round of `getNetworkMsg`: its call, a round of the loop over the
buffered frames, or a round of the loop that reads, which the first read
without a frame ends. -/
inductive Event
  | call
  | scan (now : Int)
  | read (now : Int) (canMsg : Option CanMsg)
  deriving DecidableEq, Repr

/-- The assembly and what has happened so far: the frames read, the frames
that reached the assembly, the messages delivered and the value returned last. -/
structure Session where
  assembly : Assembly
  received : List CanMsg
  consumed : List CanMsg
  delivered : List NetworkMessage
  result : Option Bool

def Session.belongs (s : Session) (f : CanMsg) : Prop :=
  f.canID = s.assembly.currentReceiveCANId ∨ s.assembly.currentReceiveCANId = 0

instance (s : Session) (f : CanMsg) : Decidable (s.belongs f) := by
  unfold Session.belongs
  infer_instance

def Session.completes (s : Session) (now : Int) (f : CanMsg) : Bool :=
  (appendCANMsg s.assembly now f).1

def Session.append (s : Session) (now : Int) (f : CanMsg) : Session :=
  { s with
    assembly := (appendCANMsg s.assembly now f).2
    consumed := s.consumed ++ [f]
    delivered :=
      if s.completes now f then s.delivered ++ [(appendCANMsg s.assembly now f).2.currentMsg]
      else s.delivered
    result := if s.completes now f then some true else s.result }

def Session.note (s : Session) (f : CanMsg) : Session := { s with received := s.received ++ [f] }

inductive Phase
  | outside
  | scan (kept rest : List CanMsg)
  | receive
  deriving DecidableEq, Repr

structure Receiver where
  parked : List CanMsg
  session : Session
  phase : Phase

def Receiver.full (r : Receiver) : Prop := canMsgBufferSize ≤ r.parked.length

instance (r : Receiver) : Decidable r.full := by
  unfold Receiver.full
  infer_instance

/-- The last buffered frame is given up when there is no room for a read. -/
def Receiver.room (r : Receiver) : List CanMsg := if r.full then r.parked.dropLast else r.parked

def step (e : Event) (r : Receiver) : Option Receiver :=
  match e, r.phase with
  | .call, .outside =>
    some { r with
      phase := if r.session.assembly.currentReceiveCANId = 0 then .scan [] r.parked else .receive }
  | .scan _, .scan _ [] => some { r with phase := .receive }
  | .scan now, .scan kept (f :: rest) =>
    if r.session.belongs f then
      some ⟨kept ++ rest, r.session.append now f,
        if r.session.completes now f then .outside else .scan kept rest⟩
    else some { r with phase := .scan (kept ++ [f]) rest }
  | .read _ none, .receive =>
    some ⟨r.room, { r.session with result := some false }, .outside⟩
  | .read now (some f), .receive =>
    if f.Valid then
      if r.session.belongs f then
        some ⟨r.room, (r.session.note f).append now f,
          if r.session.completes now f then .outside else .receive⟩
      else some ⟨r.room ++ [f], r.session.note f, .receive⟩
    else none
  | _, _ => none

inductive Round (r : Receiver) : Event → Receiver → Prop
  | call (hphase : r.phase = .outside) :
    Round r .call { r with
      phase := if r.session.assembly.currentReceiveCANId = 0 then .scan [] r.parked else .receive }
  | endScan (now : Int) (kept : List CanMsg) (hphase : r.phase = .scan kept []) :
    Round r (.scan now) { r with phase := .receive }
  | take (now : Int) (f : CanMsg) (kept rest : List CanMsg)
    (hphase : r.phase = .scan kept (f :: rest)) (hb : r.session.belongs f) :
    Round r (.scan now) ⟨kept ++ rest, r.session.append now f,
      if r.session.completes now f then .outside else .scan kept rest⟩
  | pass (now : Int) (f : CanMsg) (kept rest : List CanMsg)
    (hphase : r.phase = .scan kept (f :: rest)) (hb : ¬ r.session.belongs f) :
    Round r (.scan now) { r with phase := .scan (kept ++ [f]) rest }
  | nothing (now : Int) (hphase : r.phase = .receive) :
    Round r (.read now none) ⟨r.room, { r.session with result := some false }, .outside⟩
  | read (now : Int) (f : CanMsg) (hphase : r.phase = .receive) (hv : f.Valid)
    (hb : r.session.belongs f) :
    Round r (.read now (some f)) ⟨r.room, (r.session.note f).append now f,
      if r.session.completes now f then .outside else .receive⟩
  | park (now : Int) (f : CanMsg) (hphase : r.phase = .receive) (hv : f.Valid)
    (hb : ¬ r.session.belongs f) :
    Round r (.read now (some f)) ⟨r.room ++ [f], r.session.note f, .receive⟩

theorem round_of_step {e : Event} {r r' : Receiver} (hs : step e r = some r') : Round r e r' := by
  unfold step at hs
  split at hs
  · next hphase =>
    cases hs
    exact .call hphase
  · next now kept hphase =>
    cases hs
    exact .endScan now kept hphase
  · next now kept f rest hphase =>
    split at hs
    · next hb =>
      cases hs
      exact .take now f kept rest hphase hb
    · next hb =>
      cases hs
      exact .pass now f kept rest hphase hb
  · next now hphase =>
    cases hs
    exact .nothing now hphase
  · next now f hphase =>
    split at hs
    · next hv =>
      split at hs
      · next hb =>
        cases hs
        exact .read now f hphase hv hb
      · next hb =>
        cases hs
        exact .park now f hphase hv hb
    · cases hs
  · cases hs

def ofId (canID : Nat) (fs : List CanMsg) : List CanMsg := fs.filter (fun f => f.canID = canID)

def PhaseFacts (r : Receiver) : Prop :=
  match r.phase with
  | .outside =>
    (r.session.assembly.currentReceiveCANId ≠ 0 →
      ofId r.session.assembly.currentReceiveCANId r.parked = []) ∧
    (r.session.result = some false → r.session.assembly.currentReceiveCANId = 0 → r.parked = [])
  | .scan kept rest => r.parked = kept ++ rest ∧
    (r.session.assembly.currentReceiveCANId = 0 → kept = []) ∧
    ofId r.session.assembly.currentReceiveCANId kept = []
  | .receive => (r.session.assembly.currentReceiveCANId = 0 → r.parked = []) ∧
    ofId r.session.assembly.currentReceiveCANId r.parked = []

theorem ofId_append (b : Nat) (fs gs : List CanMsg) : ofId b (fs ++ gs) = ofId b fs ++ ofId b gs :=
  List.filter_append fs gs

theorem ofId_singleton (b : Nat) (f : CanMsg) : ofId b [f] = if f.canID = b then [f] else [] := by
  rw [ofId]
  by_cases h : f.canID = b <;> simp [h]

theorem ofId_cons (b : Nat) (f : CanMsg) (fs : List CanMsg) :
    ofId b (f :: fs) = ofId b [f] ++ ofId b fs :=
  ofId_append b [f] fs

theorem appendCANMsg_current {a : Assembly} {f : CanMsg} (now : Int)
    (h : a.currentReceiveCANId = 0 ∨ a.currentReceiveCANId = f.canID) :
    (appendCANMsg a now f).2.currentReceiveCANId = 0 ∨
      (appendCANMsg a now f).2.currentReceiveCANId = f.canID := by
  have hopen : (openMsg a now f).currentReceiveCANId = 0 ∨
      (openMsg a now f).currentReceiveCANId = f.canID := by
    rw [openMsg]
    split
    · exact .inr rfl
    · exact h
  rw [appendCANMsg]
  split
  · rw [finishFrame]
    split
    · exact .inl rfl
    · exact hopen
  · exact hopen

/-- The assembly is where every id would be if its frames had come alone. -/
structure Tracking (s : Session) : Prop where
  tracked : ∀ b, b ≠ 0 → Tracks s.assembly b (reassemble none (ofId b s.consumed)).1
  matched : ∀ b, List.Forall₂ Matches (s.delivered.filter (fun m => canId m = b))
    (reassemble none (ofId b s.consumed)).2

section Append

variable {s : Session} {f : CanMsg} (now : Int)

theorem reassemble_append_self :
    reassemble none (ofId f.canID (s.append now f).consumed) =
      ((feed (reassemble none (ofId f.canID s.consumed)).1 f).1,
        (reassemble none (ofId f.canID s.consumed)).2 ++
          (feed (reassemble none (ofId f.canID s.consumed)).1 f).2.toList) := by
  simp [Session.append, ofId_append, ofId_singleton, reassemble_append, reassemble]

theorem ofId_append_other {b : Nat} (hf : f.canID ≠ b) :
    ofId b (s.append now f).consumed = ofId b s.consumed := by
  simp [Session.append, ofId_append, ofId_singleton, hf]

theorem append_tracked (h : Tracking s) (hv : f.Valid)
    (hid : s.assembly.currentReceiveCANId = 0 ∨ s.assembly.currentReceiveCANId = f.canID)
    {b : Nat} (hb : b ≠ 0) :
    Tracks (s.append now f).assembly b (reassemble none (ofId b (s.append now f).consumed)).1 := by
  by_cases hf : f.canID = b
  · subst hf
    rw [reassemble_append_self]
    exact (appendCANMsg_spec now hv.canID_ne hid (h.tracked f.canID hv.canID_ne)).1
  · have hnone : s.assembly.currentReceiveCANId ≠ b := by
      obtain h0 | h1 := hid
      · rw [h0]
        exact hb.symm
      · rw [h1]
        exact hf
    rw [ofId_append_other now hf]
    have htracked := h.tracked b hb
    cases hst : (reassemble none (ofId b s.consumed)).1 with
    | some p =>
      rw [hst] at htracked
      exact absurd htracked.1 hnone
    | none =>
      intro hc
      obtain h0 | h1 := appendCANMsg_current now hid
      · exact hb (hc.symm.trans h0)
      · exact hf (h1.symm.trans hc)

/-- A message is delivered when its frames make one, and only under their id. -/
theorem append_matched (h : Tracking s) (hv : f.Valid)
    (hid : s.assembly.currentReceiveCANId = 0 ∨ s.assembly.currentReceiveCANId = f.canID)
    (b : Nat) :
    List.Forall₂ Matches ((s.append now f).delivered.filter (fun m => canId m = b))
      (reassemble none (ofId b (s.append now f).consumed)).2 := by
  have hrep := (appendCANMsg_spec now hv.canID_ne hid (h.tracked f.canID hv.canID_ne)).2
  cases hd : (feed (reassemble none (ofId f.canID s.consumed)).1 f).2 with
  | none =>
    rw [hd] at hrep
    have hfalse : s.completes now f = false := hrep
    have hdel : (s.append now f).delivered = s.delivered := by simp [Session.append, hfalse]
    rw [hdel]
    by_cases hf : f.canID = b
    · subst hf
      rw [reassemble_append_self, hd]
      simpa using h.matched f.canID
    · rw [ofId_append_other now hf]
      exact h.matched b
  | some d =>
    rw [hd] at hrep
    obtain ⟨htrue, _, hmatch⟩ := hrep
    have hcan : canId (appendCANMsg s.assembly now f).2.currentMsg = f.canID := by
      rw [hmatch.addressed.canId_eq]
      · exact feed_canID hd
      · rw [feed_canID hd]
        exact hv.1
    have hdone : s.completes now f = true := htrue
    have hdel : (s.append now f).delivered =
        s.delivered ++ [(appendCANMsg s.assembly now f).2.currentMsg] := by
      simp [Session.append, hdone]
    rw [hdel, List.filter_append]
    by_cases hf : f.canID = b
    · subst hf
      rw [reassemble_append_self, hd]
      apply List.rel_append (h.matched f.canID)
      simpa [hcan] using hmatch
    · rw [ofId_append_other now hf]
      simpa [hcan, hf] using h.matched b

theorem append_tracking (h : Tracking s) (hv : f.Valid) (hb : s.belongs f) :
    Tracking (s.append now f) := by
  have hid : s.assembly.currentReceiveCANId = 0 ∨ s.assembly.currentReceiveCANId = f.canID :=
    hb.symm.imp id Eq.symm
  exact ⟨fun b hb0 => append_tracked now h hv hid hb0, append_matched now h hv hid⟩

end Append

theorem appendCANMsg_zero {a : Assembly} {f : CanMsg} {now : Int} (hf : f.canID ≠ 0)
    (h : (appendCANMsg a now f).1 = false) (h0 : (appendCANMsg a now f).2.currentReceiveCANId = 0) :
    a.currentReceiveCANId = 0 := by
  have hopen : (openMsg a now f).currentReceiveCANId = 0 → a.currentReceiveCANId = 0 := by
    rw [openMsg]
    split
    · exact fun h => absurd h hf
    · exact id
  rw [appendCANMsg] at h h0
  split at h0
  · next hacc =>
    rw [if_pos hacc] at h
    rw [finishFrame] at h h0
    split at h0
    · next hle => simp [hle] at h
    · exact hopen h0
  · exact hopen h0

structure Served (r : Receiver) : Prop where
  valid : ∀ f ∈ r.session.received, f.Valid
  split : ∀ b, ofId b r.session.received = ofId b r.session.consumed ++ ofId b r.parked
  tracking : Tracking r.session
  phase : PhaseFacts r

theorem Served.parked_valid {r : Receiver} (h : Served r) {f : CanMsg} (hf : f ∈ r.parked) :
    f.Valid := by
  apply h.valid
  have hmem : f ∈ ofId f.canID r.parked := List.mem_filter.mpr ⟨hf, by simp⟩
  have hsplit : f ∈ ofId f.canID r.session.received := by
    rw [h.split]
    exact List.mem_append_right _ hmem
  exact (List.mem_filter.mp hsplit).1

theorem Served.facts_outside {r : Receiver} (h : Served r) (hphase : r.phase = .outside) :
    (r.session.assembly.currentReceiveCANId ≠ 0 →
      ofId r.session.assembly.currentReceiveCANId r.parked = []) ∧
    (r.session.result = some false → r.session.assembly.currentReceiveCANId = 0 →
      r.parked = []) := by
  have hp := h.phase
  rw [PhaseFacts] at hp
  rwa [hphase] at hp

theorem Served.facts_scan {r : Receiver} {kept rest : List CanMsg} (h : Served r)
    (hphase : r.phase = .scan kept rest) :
    r.parked = kept ++ rest ∧ (r.session.assembly.currentReceiveCANId = 0 → kept = []) ∧
      ofId r.session.assembly.currentReceiveCANId kept = [] := by
  have hp := h.phase
  rw [PhaseFacts] at hp
  rwa [hphase] at hp

theorem Served.facts_receive {r : Receiver} (h : Served r) (hphase : r.phase = .receive) :
    (r.session.assembly.currentReceiveCANId = 0 → r.parked = []) ∧
      ofId r.session.assembly.currentReceiveCANId r.parked = [] := by
  have hp := h.phase
  rw [PhaseFacts] at hp
  rwa [hphase] at hp

theorem Served.note_valid {r : Receiver} {f : CanMsg} (h : Served r) (hv : f.Valid) :
    ∀ g ∈ (r.session.note f).received, g.Valid := by
  intro g hg
  obtain hg | hg := List.mem_append.mp hg
  · exact h.valid g hg
  · rw [List.mem_singleton.mp hg]
    exact hv

theorem ofId_of_belongs {s : Session} {f : CanMsg} {fs : List CanMsg} (hb : s.belongs f)
    (h0 : s.assembly.currentReceiveCANId = 0 → fs = [])
    (hc : ofId s.assembly.currentReceiveCANId fs = []) : ofId f.canID fs = [] := by
  obtain he | hz := hb
  · rw [he]
    exact hc
  · rw [h0 hz]
    rfl

theorem append_room {s : Session} {f : CanMsg} {fs : List CanMsg} {now : Int} (hv : f.Valid)
    (hb : s.belongs f) (hdone : s.completes now f = false)
    (h0 : s.assembly.currentReceiveCANId = 0 → fs = [])
    (hc : ofId s.assembly.currentReceiveCANId fs = []) :
    ((s.append now f).assembly.currentReceiveCANId = 0 → fs = []) ∧
      ofId (s.append now f).assembly.currentReceiveCANId fs = [] := by
  have hzero : (s.append now f).assembly.currentReceiveCANId = 0 → fs = [] :=
    fun hz => h0 (appendCANMsg_zero hv.canID_ne hdone hz)
  refine ⟨hzero, ?_⟩
  obtain hz | hf := appendCANMsg_current now (hb.symm.imp id Eq.symm)
  · rw [hzero hz]
    rfl
  · rw [show (s.append now f).assembly.currentReceiveCANId = f.canID from hf]
    exact ofId_of_belongs hb h0 hc

theorem append_result {s : Session} {f : CanMsg} {now : Int} (hdone : s.completes now f = true) :
    (s.append now f).result = some true ∧ (s.append now f).assembly.currentReceiveCANId = 0 := by
  refine ⟨by simp [Session.append, hdone], ?_⟩
  change (appendCANMsg s.assembly now f).1 = true at hdone
  change (appendCANMsg s.assembly now f).2.currentReceiveCANId = 0
  rw [appendCANMsg] at hdone ⊢
  split
  · next hacc =>
    rw [if_pos hacc] at hdone
    rw [finishFrame] at hdone ⊢
    split
    · rfl
    · next hle => simp [hle] at hdone
  · next hacc => simp [hacc] at hdone

theorem commute_ofId {f : CanMsg} {fs : List CanMsg} (h : ofId f.canID fs = []) (b : Nat) :
    ofId b fs ++ ofId b [f] = ofId b [f] ++ ofId b fs := by
  by_cases hf : f.canID = b
  · subst hf
    simp [h]
  · simp [ofId_singleton, hf]

theorem scan_served {r : Receiver} {f : CanMsg} {kept rest : List CanMsg} (now : Int)
    (h : Served r) (hphase : r.phase = .scan kept (f :: rest)) (hb : r.session.belongs f) :
    Served ⟨kept ++ rest, r.session.append now f,
      if r.session.completes now f then .outside else .scan kept rest⟩ := by
  obtain ⟨hparked, h0, hc⟩ := h.facts_scan hphase
  have hv : f.Valid := h.parked_valid (by rw [hparked]; simp)
  refine ⟨h.valid, ?_, append_tracking now h.tracking hv hb, ?_⟩
  · intro b
    have hcomm := commute_ofId (ofId_of_belongs hb h0 hc) b
    have hsplit := h.split b
    rw [hparked, ofId_append, ofId_cons] at hsplit
    simp only [Session.append, ofId_append]
    rw [hsplit, ← List.append_assoc (ofId b kept), hcomm]
    simp only [List.append_assoc]
  · rw [PhaseFacts]
    cases hdone : r.session.completes now f with
    | true =>
      obtain ⟨hres, hz⟩ := append_result hdone
      exact ⟨fun hne => absurd hz hne, fun hf => by simp [hres] at hf⟩
    | false => exact ⟨rfl, append_room hv hb hdone h0 hc⟩

theorem read_served {r : Receiver} {f : CanMsg} (now : Int) (h : Served r)
    (hphase : r.phase = .receive) (hv : f.Valid) (hb : r.session.belongs f) :
    Served ⟨r.parked, (r.session.note f).append now f,
      if r.session.completes now f then .outside else .receive⟩ := by
  obtain ⟨h0, hc⟩ := h.facts_receive hphase
  have htr : Tracking (r.session.note f) := ⟨h.tracking.tracked, h.tracking.matched⟩
  refine ⟨h.note_valid hv, ?_, append_tracking now htr hv hb, ?_⟩
  · intro b
    have hcomm := commute_ofId (ofId_of_belongs hb h0 hc) b
    simp only [Session.append, Session.note, ofId_append]
    rw [h.split b, List.append_assoc, hcomm, List.append_assoc]
  · rw [PhaseFacts]
    cases hdone : r.session.completes now f with
    | true =>
      obtain ⟨hres, hz⟩ := append_result (s := r.session.note f) hdone
      exact ⟨fun hne => absurd hz hne, fun hf => by simp [hres] at hf⟩
    | false => exact append_room (s := r.session.note f) hv hb hdone h0 hc

theorem park_served {r : Receiver} {f : CanMsg} (h : Served r) (hphase : r.phase = .receive)
    (hv : f.Valid) (hb : ¬ r.session.belongs f) :
    Served ⟨r.parked ++ [f], r.session.note f, .receive⟩ := by
  obtain ⟨h0, hc⟩ := h.facts_receive hphase
  refine ⟨h.note_valid hv, ?_, ⟨h.tracking.tracked, h.tracking.matched⟩, ?_⟩
  · intro b
    simp only [Session.note, ofId_append]
    rw [h.split b, List.append_assoc]
  · have hne : f.canID ≠ r.session.assembly.currentReceiveCANId := fun he => hb (.inl he)
    refine ⟨fun hz => absurd hz (fun hz => hb (.inr hz)), ?_⟩
    simp only [Session.note, ofId_append, ofId_singleton, hne, if_false, List.append_nil]
    exact hc

def HasRoom (e : Event) (r : Receiver) : Prop :=
  match e with
  | .read _ _ => ¬ r.full
  | _ => True

theorem step_served {e : Event} {r r' : Receiver} (h : Served r) (hok : HasRoom e r)
    (hs : step e r = some r') : Served r' := by
  cases round_of_step hs with
  | call hphase =>
    have hp := h.facts_outside hphase
    refine ⟨h.valid, h.split, h.tracking, ?_⟩
    rw [PhaseFacts]
    by_cases hz : r.session.assembly.currentReceiveCANId = 0
    · simp [hz, ofId]
    · simpa [hz] using hp.1 hz
  | endScan now kept hphase =>
    obtain ⟨hparked, h0, hc⟩ := h.facts_scan hphase
    rw [List.append_nil] at hparked
    refine ⟨h.valid, h.split, h.tracking, ?_⟩
    simpa [PhaseFacts, hparked] using ⟨h0, hc⟩
  | take now f kept rest hphase hb => exact scan_served now h hphase hb
  | pass now f kept rest hphase hb =>
    obtain ⟨hparked, h0, hc⟩ := h.facts_scan hphase
    refine ⟨h.valid, h.split, h.tracking, ?_, ?_, ?_⟩
    · simp [hparked]
    · exact fun hz => absurd hz (fun hz => hb (.inr hz))
    · have hne : f.canID ≠ r.session.assembly.currentReceiveCANId := fun he => hb (.inl he)
      simp only [ofId_append, ofId_singleton, hne, if_false, List.append_nil]
      exact hc
  | nothing now hphase =>
    have hp := h.facts_receive hphase
    rw [Receiver.room, if_neg hok]
    exact ⟨h.valid, h.split, ⟨h.tracking.tracked, h.tracking.matched⟩, fun _ => hp.2, fun _ => hp.1⟩
  | read now f hphase hv hb =>
    rw [Receiver.room, if_neg hok]
    exact read_served now h hphase hv hb
  | park now f hphase hv hb =>
    rw [Receiver.room, if_neg hok]
    exact park_served h hphase hv hb

/-- `init` leaves no message in reception and no frame buffered. -/
def Start (r : Receiver) : Prop :=
  r.parked = [] ∧ r.phase = .outside ∧ r.session.assembly.currentReceiveCANId = 0 ∧
    r.session.received = [] ∧ r.session.consumed = [] ∧ r.session.delivered = [] ∧
    r.session.result = none

theorem start_served {r : Receiver} (h : Start r) : Served r := by
  obtain ⟨hparked, hphase, hcur, hrec, hcon, hdel, hres⟩ := h
  refine ⟨by simp [hrec], by simp [hrec, hcon, hparked, ofId], ⟨?_, ?_⟩, ?_⟩
  · intro b hb
    rw [hcon]
    simp only [ofId, List.filter_nil, reassemble, Tracks, hcur]
    exact hb.symm
  · intro b
    rw [hcon, hdel]
    exact .nil
  · simp [PhaseFacts, hphase, hcur, hres]

theorem reachable_served {r : Receiver} (h : ReachableUnder Start step HasRoom r) : Served r :=
  h.invariant Served (fun _ hs => start_served hs) (fun _ _ _ hi hok hs => step_served hi hok hs)

theorem Served.checkSumOk {r : Receiver} (hs : Served r) {d : NetworkMessage} (hd : d ∈ r.session.delivered) :
    isCheckSumOk d := by
  have hmem : d ∈ r.session.delivered.filter (fun m => canId m = canId d) :=
    List.mem_filter.mpr ⟨hd, by simp⟩
  have hmatch := (hs.tracking.matched (canId d)).imp (fun _ _ hm => And.intro hm.checkSum hm)
  exact ((List.forall₂_and_left _ _).mp hmatch).1 d hmem

/-- `getNetworkMsg` has returned `false`: the bus had no frame. -/
def Receiver.AtRest (r : Receiver) : Prop :=
  r.phase = .outside ∧ r.session.result = some false

/-- When `getNetworkMsg` has found nothing more to do, every frame of an id
that is not kept waiting has reached the assembly. -/
theorem Served.consumed_of_rest {r : Receiver} (h : Served r) (hrest : r.AtRest) {b : Nat}
    (hb : r.session.assembly.currentReceiveCANId = 0 ∨ r.session.assembly.currentReceiveCANId = b) :
    ofId b r.session.consumed = ofId b r.session.received := by
  have hp := h.facts_outside hrest.1
  have hnone : ofId b r.parked = [] := by
    by_cases hz : r.session.assembly.currentReceiveCANId = 0
    · rw [hp.2 hrest.2 hz]
      rfl
    · rw [← hb.resolve_left hz]
      exact hp.1 hz
  rw [h.split b, hnone, List.append_nil]

def Quiet : Event → Prop
  | .read _ (some _) => False
  | _ => True

def Receiver.size (r : Receiver) : Nat :=
  (canMsgBufferSize + 2) * r.parked.length +
    match r.phase with
    | .outside => r.parked.length + 2
    | .scan _ rest => rest.length + 1
    | .receive => 0

section

variable {e : Event} {r r' : Receiver}

theorem quiet_live (r : Receiver) : ∃ e r', Quiet e ∧ step e r = some r' := by
  cases hphase : r.phase with
  | outside => exact ⟨.call, _, trivial, by simp only [step, hphase]; rfl⟩
  | scan kept rest =>
    cases rest with
    | nil => exact ⟨.scan 0, _, trivial, by simp only [step, hphase]; rfl⟩
    | cons f rest =>
      by_cases hb : r.session.belongs f
      · exact ⟨.scan 0, _, trivial, by simp only [step, hphase, if_pos hb]; rfl⟩
      · exact ⟨.scan 0, _, trivial, by simp only [step, hphase, if_neg hb]; rfl⟩
  | receive => exact ⟨.read 0 none, _, trivial, by simp only [step, hphase]; rfl⟩

theorem quiet_received (he : Quiet e) (hs : step e r = some r') :
    r'.session.received = r.session.received := by
  cases round_of_step hs with
  | read | park => exact he.elim
  | _ => rfl

theorem quiet_size (h : Served r) (hroom : r.parked.length < canMsgBufferSize) (he : Quiet e)
    (hs : step e r = some r') :
    r'.AtRest ∨ (r'.parked.length ≤ r.parked.length ∧ r'.size < r.size) := by
  cases round_of_step hs with
  | call hphase =>
    refine .inr ⟨le_rfl, ?_⟩
    simp only [Receiver.size, hphase]
    by_cases hz : r.session.assembly.currentReceiveCANId = 0
    · simp [hz]
    · simp [hz]
  | endScan now kept hphase =>
    refine .inr ⟨le_rfl, ?_⟩
    simp [Receiver.size, hphase]
  | take now f kept rest hphase hb =>
    have hlen := congrArg List.length (h.facts_scan hphase).1
    simp only [List.length_append, List.length_cons] at hlen
    simp only [canMsgBufferSize] at hroom
    refine .inr ⟨?_, ?_⟩
    · simp only [List.length_append]
      omega
    · simp only [Receiver.size, hphase, hlen, List.length_append, canMsgBufferSize]
      cases r.session.completes now f <;> simp <;> omega
  | pass now f kept rest hphase hb =>
    refine .inr ⟨le_rfl, ?_⟩
    simp [Receiver.size, hphase]
  | nothing now hphase => exact .inl ⟨rfl, rfl⟩
  | read | park => exact he.elim

/-- On a quiet bus the calls of `getNetworkMsg` end with one that returns
`false`. -/
theorem rest_inevitable (h : Served r) (hroom : r.parked.length < canMsgBufferSize) :
    Inevitable step Quiet (fun r' => Served r' ∧ r'.AtRest ∧
      r'.session.received = r.session.received) r := by
  apply Inevitable.of_decreasing (fun r' => Served r' ∧ r'.parked.length < canMsgBufferSize ∧
    r'.session.received = r.session.received) Receiver.size
  · intro s _
    exact quiet_live s
  · intro e s t hinv he hs
    obtain ⟨hserved, hlt, hrec⟩ := hinv
    have hok : HasRoom e s := by
      cases e with
      | call | scan now => trivial
      | read now canMsg => exact not_le.mpr hlt
    have hserved' := step_served hserved hok hs
    have hrec' := (quiet_received he hs).trans hrec
    obtain hrest | ⟨hle, hsize⟩ := quiet_size hserved hlt he hs
    · exact .inl ⟨hserved', hrest, hrec'⟩
    · exact .inr ⟨⟨hserved', lt_of_le_of_lt hle hlt, hrec'⟩, hsize⟩
  · exact ⟨h, hroom, rfl⟩

end

end Rodos.CanReceiver
