import Rodos.CanDelivery

namespace Rodos.CanBounds

open NetworkMessage CanFraming CanReceiver CanPool CanDelivery TransitionSystem

/-- The offsets into `userDataC` of the bytes stored through `currentDataPointer`. -/
def written (a : Assembly) (now : Int) (f : CanMsg) : List Nat :=
  if accepts (openMsg a now f) f then
    (List.range f.payload.length).map (fun i => (openMsg a now f).currentDataPointer + i)
  else []

/-- The check that `appendCANMsgToCurrentNetMsg` does not make: a frame that it
takes has its header bytes, and its data have room behind those stored so far. -/
def Fits (a : Assembly) (f : CanMsg) : Prop :=
  if f.sequence = 0 then 3 ≤ f.len
  else accepts a f → 1 ≤ f.len ∧ a.currentDataPointer + (f.len - 1) ≤ maxNetworkMessageLength

instance (a : Assembly) (f : CanMsg) : Decidable (Fits a f) := by
  unfold Fits
  infer_instance

structure Exact (a : Assembly) : Prop where
  count : a.bytesReceived = a.currentDataPointer
  bound : a.currentDataPointer ≤ maxNetworkMessageLength

section

variable {a : Assembly} {f : CanMsg} {now : Int}

theorem payload_length (hv : f.Valid) : f.payload.length = (f.len - f.userDataBegin).toNat := by
  obtain ⟨_, h0, h8⟩ := hv
  simp only [CanMsg.payload, List.length_drop, List.length_take, Vector.length_toList]
  omega

theorem appendCANMsg_of_accepts (h : accepts (openMsg a now f) f) :
    (appendCANMsg a now f).2.currentDataPointer =
        (openMsg a now f).currentDataPointer + f.payload.length ∧
      (appendCANMsg a now f).2.bytesReceived =
        (((openMsg a now f).bytesReceived + f.len - f.userDataBegin) % 2 ^ 16).toNat := by
  rw [appendCANMsg]
  rw [if_pos h]
  rw [finishFrame]
  split <;> exact ⟨rfl, rfl⟩

theorem accepts_first (hf : f.canID ≠ 0) (hseq : f.sequence = 0) : accepts (openMsg a now f) f := by
  simp [accepts, openMsg, startMsg, hf, hseq]

theorem openMsg_of_ne (hseq : f.sequence ≠ 0) : openMsg a now f = a := if_neg hseq

theorem putField_bytes (off n v i : Nat) (m : NetworkMessage) (h : off + n ≤ headerSize) :
    (putField off n m v).bytes (headerSize + i) = m.bytes (headerSize + i) := by
  apply ByteMemory.write_outside
  rw [ByteMemory.length_toBigEndian]
  omega

theorem openMsg_bytes (a : Assembly) (now : Int) (f : CanMsg) (i : Nat) :
    (openMsg a now f).currentMsg.bytes (headerSize + i) = a.currentMsg.bytes (headerSize + i) := by
  rw [openMsg]
  split
  · simp only [startMsg, putLen, putTopicId, putSentTime, putSenderThreadId, putSenderNode,
      putMaxStepsToForward]
    repeat rw [putField_bytes _ _ _ _ _ (by decide)]
  · rfl

theorem appendCANMsg_bytes {i : Nat} (hi : i ∉ written a now f) :
    (appendCANMsg a now f).2.currentMsg.bytes (headerSize + i) =
      a.currentMsg.bytes (headerSize + i) := by
  rw [appendCANMsg]
  split
  · next hacc =>
    have hstore : (storePayload (openMsg a now f) f).currentMsg.bytes (headerSize + i) =
        a.currentMsg.bytes (headerSize + i) := by
      rw [← openMsg_bytes a now f i]
      apply ByteMemory.write_outside
      by_contra hin
      apply hi
      rw [written, if_pos hacc, List.mem_map]
      refine ⟨i - (openMsg a now f).currentDataPointer, List.mem_range.mpr ?_, ?_⟩ <;> omega
    rw [finishFrame]
    split
    · exact (putField_bytes 10 2 _ i _ (by decide)).trans hstore
    · exact hstore
  · exact openMsg_bytes a now f i

theorem fits_iff (hv : f.Valid) (hopen : f.sequence ≠ 0 → accepts a f → Exact a)
    (hacc : accepts (openMsg a now f) f) :
    Fits a f ↔ (∀ i ∈ written a now f, i < maxNetworkMessageLength) ∧
      (appendCANMsg a now f).2.bytesReceived = (appendCANMsg a now f).2.currentDataPointer := by
  obtain ⟨hptr, hcnt⟩ := appendCANMsg_of_accepts hacc
  have hpay := payload_length hv
  obtain ⟨_, h0, h8⟩ := hv
  rw [hptr, hcnt, written, if_pos hacc]
  by_cases hseq : f.sequence = 0
  · have hbegin : f.userDataBegin = 3 := if_pos hseq
    have hz : (openMsg a now f).currentDataPointer = 0 ∧ (openMsg a now f).bytesReceived = 0 := by
      simp [openMsg, hseq, startMsg]
    simp only [Fits, hseq, if_true, hz, hpay, hbegin, List.mem_map, List.mem_range,
      maxNetworkMessageLength]
    constructor
    · intro h3
      refine ⟨?_, by omega⟩
      rintro i ⟨j, hj, rfl⟩
      omega
    · rintro ⟨-, hc⟩
      omega
  · have hbegin : f.userDataBegin = 1 := if_neg hseq
    rw [openMsg_of_ne hseq] at hacc ⊢
    obtain ⟨hexact, hbound⟩ := hopen hseq hacc
    simp only [Fits, hseq, if_false, hacc, true_imp_iff, hexact, hpay, hbegin, List.mem_map,
      List.mem_range, maxNetworkMessageLength] at hbound ⊢
    constructor
    · rintro ⟨h1, hmax⟩
      refine ⟨?_, by omega⟩
      rintro i ⟨j, hj, rfl⟩
      omega
    · rintro ⟨hw, hc⟩
      have h1 : 1 ≤ f.len := by omega
      refine ⟨h1, ?_⟩
      by_contra hmax
      have hlast := hw (a.currentDataPointer + ((f.len - (1 : Nat)).toNat - 1))
        ⟨_, by omega, rfl⟩
      omega

theorem exact_of_fits (hv : f.Valid) (hopen : f.sequence ≠ 0 → accepts a f → Exact a)
    (hacc : accepts (openMsg a now f) f) (hfit : Fits a f) : Exact (appendCANMsg a now f).2 := by
  refine ⟨((fits_iff hv hopen hacc).mp hfit).2, ?_⟩
  rw [(appendCANMsg_of_accepts hacc).1, payload_length hv]
  have h8 := hv.2.2
  by_cases hseq : f.sequence = 0
  · simp only [openMsg, hseq, if_true, startMsg, maxNetworkMessageLength]
    omega
  · have hbegin : f.userDataBegin = 1 := if_neg hseq
    rw [openMsg_of_ne hseq] at hacc ⊢
    rw [Fits, if_neg hseq] at hfit
    obtain ⟨h1, hmax⟩ := hfit hacc
    omega

end

/-- A message has been opened, so that pointer and count have their meaning. -/
def Started (s : Session) : Prop := ∃ f ∈ s.consumed, f.sequence = 0

instance (s : Session) : Decidable (Started s) := by
  unfold Started
  infer_instance

def appended (e : Event) (l : LinkinterfaceCAN) : Option (Int × CanMsg) :=
  match e, l.pc with
  | .scan now, .scan _ (some bufElement) =>
    if l.session.belongs (l.frame bufElement) then some (now, l.frame bufElement) else none
  | .read now (some f), .receive => if l.session.belongs f then some (now, f) else none
  | _, _ => none

def writtenBy (e : Event) (l : LinkinterfaceCAN) : List Nat :=
  (appended e l).elim [] (fun p => written l.session.assembly p.1 p.2)

def AppendsFitting (e : Event) (l : LinkinterfaceCAN) : Prop :=
  ∀ p ∈ appended e l, Fits l.session.assembly p.2

instance (e : Event) (l : LinkinterfaceCAN) : Decidable (AppendsFitting e l) := by
  unfold AppendsFitting
  infer_instance

section

variable {e : Event} {r r' : Receiver}

def listAppended (e : Event) (r : Receiver) : Option (Int × CanMsg) :=
  match e, r.phase with
  | .scan now, .scan _ (f :: _) => if r.session.belongs f then some (now, f) else none
  | .read now (some f), .receive => if r.session.belongs f then some (now, f) else none
  | _, _ => none

structure FramesValid (r : Receiver) : Prop where
  parked : ∀ f ∈ r.parked, f.Valid
  scan : ∀ kept rest, r.phase = .scan kept rest → r.parked = kept ++ rest

/-- What a round does to the assembly, it does with the frame handed over. -/
theorem step_assembly (h : FramesValid r) (hs : CanReceiver.step e r = some r') :
    (listAppended e r = none ∧ r'.session.assembly = r.session.assembly ∧
      r'.session.consumed = r.session.consumed) ∨
    ∃ now f, listAppended e r = some (now, f) ∧ f.Valid ∧
      r'.session.assembly = (appendCANMsg r.session.assembly now f).2 ∧
      r'.session.consumed = r.session.consumed ++ [f] := by
  cases round_of_step hs with
  | call hphase => exact .inl ⟨by simp [listAppended], rfl, rfl⟩
  | endScan now kept hphase => exact .inl ⟨by simp [listAppended, hphase], rfl, rfl⟩
  | take now f kept rest hphase hb =>
    have hv : f.Valid := h.parked f (by rw [h.scan kept (f :: rest) hphase]; simp)
    exact .inr ⟨now, f, by simp [listAppended, hphase, hb], hv, rfl, rfl⟩
  | pass now f kept rest hphase hb =>
    exact .inl ⟨by simp [listAppended, hphase, hb], rfl, rfl⟩
  | nothing now hphase => exact .inl ⟨by simp [listAppended], rfl, rfl⟩
  | read now f hphase hv hb =>
    exact .inr ⟨now, f, by simp [listAppended, hphase, hb], hv, rfl, rfl⟩
  | park now f hphase hv hb => exact .inl ⟨by simp [listAppended, hphase, hb], rfl, rfl⟩

theorem room_subset (r : Receiver) : r.room ⊆ r.parked := by
  rw [Receiver.room]
  split
  · exact List.dropLast_subset r.parked
  · exact List.Subset.refl r.parked

theorem step_framesValid (h : FramesValid r) (hs : CanReceiver.step e r = some r') :
    FramesValid r' := by
  have hroom : ∀ f ∈ r.room, f.Valid := fun f hf => h.parked f (room_subset r hf)
  cases round_of_step hs with
  | call hphase =>
    refine ⟨h.parked, ?_⟩
    intro kept rest hphase'
    simp only at hphase'
    split at hphase'
    · cases hphase'
      rfl
    · cases hphase'
  | endScan now kept hphase => exact ⟨h.parked, fun _ _ hphase' => by cases hphase'⟩
  | take now f kept rest hphase hb =>
    have hv := h.parked
    rw [h.scan kept (f :: rest) hphase] at hv
    refine ⟨fun g hg => hv g (by simp only [List.mem_append, List.mem_cons] at hg ⊢; tauto), ?_⟩
    intro kept' rest' hphase'
    simp only at hphase'
    split at hphase'
    · cases hphase'
    · cases hphase'
      rfl
  | pass now f kept rest hphase hb =>
    refine ⟨h.parked, ?_⟩
    intro kept' rest' hphase'
    cases hphase'
    simpa using h.scan kept (f :: rest) hphase
  | nothing now hphase => exact ⟨hroom, fun _ _ hphase' => by cases hphase'⟩
  | read now f hphase hv hb =>
    refine ⟨hroom, ?_⟩
    intro kept rest hphase'
    simp only at hphase'
    split at hphase' <;> cases hphase'
  | park now f hphase hv hb =>
    refine ⟨?_, fun _ _ hphase' => by cases hphase'⟩
    intro g hg
    obtain hg | hg := List.mem_append.mp hg
    · exact hroom g hg
    · rw [List.mem_singleton.mp hg]
      exact hv

/-- The count of the bytes stored is right and stays within the buffer. -/
structure Sound (s : Session) : Prop where
  opened : s.assembly.currentReceiveCANId ≠ 0 → Started s
  exact : Started s → Exact s.assembly

theorem Sound.started_of_accepts {s : Session} {f : CanMsg} (h : Sound s) (hseq : f.sequence ≠ 0)
    (hacc : accepts s.assembly f) : Started s := by
  apply h.opened
  intro hz
  rw [accepts, if_pos hz, UInt8.pos_iff_ne_zero] at hacc
  exact hacc hseq

theorem Sound.exact_of_accepts {s : Session} {f : CanMsg} (h : Sound s) (hseq : f.sequence ≠ 0)
    (hacc : accepts s.assembly f) : Exact s.assembly :=
  h.exact (h.started_of_accepts hseq hacc)

theorem started_append {s s' : Session} {f : CanMsg} (hcon : s'.consumed = s.consumed ++ [f]) :
    Started s' ↔ Started s ∨ f.sequence = 0 := by
  simp [Started, hcon, or_and_right, exists_or]

theorem step_sound (h : Sound r.session) (hv : FramesValid r)
    (hfit : ∀ p ∈ listAppended e r, Fits r.session.assembly p.2)
    (hs : CanReceiver.step e r = some r') : Sound r'.session := by
  obtain ⟨_, ha, hcon⟩ | ⟨now, f, happ, hf, ha, hcon⟩ := step_assembly hv hs
  · constructor
    · simpa only [Started, ha, hcon] using h.opened
    · simpa only [Started, ha, hcon] using h.exact
  · have hstart := started_append hcon
    have hfits := hfit (now, f) happ
    by_cases hacc : accepts (openMsg r.session.assembly now f) f
    · have hex := exact_of_fits hf h.exact_of_accepts hacc hfits
      refine ⟨fun _ => hstart.mpr ?_, fun _ => ha ▸ hex⟩
      by_cases hseq : f.sequence = 0
      · exact .inr hseq
      · rw [openMsg_of_ne hseq] at hacc
        exact .inl (h.started_of_accepts hseq hacc)
    · have hseq : f.sequence ≠ 0 := fun hseq => hacc (accepts_first hf.canID_ne hseq)
      have hsame : r'.session.assembly = r.session.assembly := by
        rw [ha, appendCANMsg, if_neg hacc]
        exact openMsg_of_ne hseq
      simp only [hseq, or_false] at hstart
      constructor
      · rw [hsame, hstart]
        exact h.opened
      · rw [hsame, hstart]
        exact h.exact

theorem step_fits_iff (h : Sound r.session) (hv : FramesValid r)
    (hs : CanReceiver.step e r = some r') :
    (∀ p ∈ listAppended e r, Fits r.session.assembly p.2) ↔
      (∀ i ∈ (listAppended e r).elim [] (fun p => written r.session.assembly p.1 p.2),
        i < maxNetworkMessageLength) ∧
      (Started r'.session →
        r'.session.assembly.bytesReceived = r'.session.assembly.currentDataPointer) := by
  constructor
  · intro hfit
    refine ⟨?_, fun hst => ((step_sound h hv hfit hs).exact hst).count⟩
    intro i hi
    obtain ⟨happ, _, _⟩ | ⟨now, f, happ, hf, _, _⟩ := step_assembly hv hs
    · simp [happ] at hi
    · simp only [happ, Option.elim_some] at hi
      by_cases hacc : accepts (openMsg r.session.assembly now f) f
      · have hiff := fits_iff hf h.exact_of_accepts hacc
        exact (hiff.mp (hfit (now, f) happ)).1 i hi
      · simp [written, hacc] at hi
  · rintro ⟨hw, hc⟩ p hp
    obtain ⟨happ, _, _⟩ | ⟨now, f, happ, hf, ha, hcon⟩ := step_assembly hv hs
    · simp [happ] at hp
    · rw [happ] at hp hw
      obtain rfl : p = (now, f) := (Option.some.inj hp).symm
      by_cases hacc : accepts (openMsg r.session.assembly now f) f
      · have hst : Started r'.session := by
          rw [started_append hcon]
          by_cases hseq : f.sequence = 0
          · exact .inr hseq
          · rw [openMsg_of_ne hseq] at hacc
            exact .inl (h.started_of_accepts hseq hacc)
        have hcount := hc hst
        rw [ha] at hcount
        exact (fits_iff hf h.exact_of_accepts hacc).mpr ⟨hw, hcount⟩
      · have hseq : f.sequence ≠ 0 := fun hseq => hacc (accepts_first hf.canID_ne hseq)
        rw [openMsg_of_ne hseq] at hacc
        rw [Fits, if_neg hseq]
        exact fun hc => absurd hc hacc

end

section

variable {l : LinkinterfaceCAN} {r : Receiver}

theorem appended_eq (e : Event) (h : Simulates l r) : appended e l = listAppended e r := by
  obtain ⟨ps, h⟩ := h
  have hmatch := h.phase
  unfold appended listAppended
  rw [h.session]
  obtain ⟨hpc, hphase⟩ | ⟨prev, elem, kept, rest, hpc, hphase⟩ | ⟨hpc, hphase⟩ := h.pc_cases
  · simp only [hpc, hphase]
  · rw [hpc, hphase] at hmatch
    obtain ⟨ks, rs, -, -, rfl, -, rfl⟩ := hmatch
    cases e <;> cases rs <;> simp [hpc, hphase]
  · cases e with
    | call | scan now => simp [hpc, hphase]
    | read now canMsg => cases canMsg <;> simp [hpc, hphase]

theorem exists_sound (h : ReachableUnder Init CanPool.step AppendsFitting l) :
    ∃ r, Sound r.session ∧ FramesValid r ∧ Simulates l r := by
  have hok : ∀ e l r, Simulates l r → AppendsFitting e l →
      ∀ p ∈ listAppended e r, Fits r.session.assembly p.2 := by
    intro e l r hsim hfit
    rwa [AppendsFitting, appended_eq e hsim, ← hsim.session_eq] at hfit
  obtain ⟨r, hr, hsim⟩ := reachable_simulates hok h
  have hinv : Sound r.session ∧ FramesValid r := by
    apply hr.invariant (fun r => Sound r.session ∧ FramesValid r)
    · intro r hstart
      obtain ⟨hparked, hphase, hcur, _, hcon, _⟩ := hstart
      refine ⟨⟨fun hne => absurd hcur hne, ?_⟩, ?_, ?_⟩
      · rintro ⟨f, hf, _⟩
        simp [hcon] at hf
      · simp [hparked]
      · intro kept rest hscan
        rw [hphase] at hscan
        cases hscan
    · intro e s t hinv hfit hs
      exact ⟨step_sound hinv.1 hinv.2 hfit hs, step_framesValid hinv.2 hs⟩
  exact ⟨r, hinv.1, hinv.2, hsim⟩

/-- As long as all frames taken fit, the count is right and stays within the
buffer, and the first frame that does not fit breaks one of the two. -/
theorem bounded_while_fitting (h : ReachableUnder Init CanPool.step AppendsFitting l) :
    (Started l.session →
      l.session.assembly.bytesReceived = l.session.assembly.currentDataPointer ∧
      l.session.assembly.currentDataPointer ≤ maxNetworkMessageLength) ∧
    ∀ e l', CanPool.step e l = some l' →
      (AppendsFitting e l ↔ (∀ i ∈ writtenBy e l, i < maxNetworkMessageLength) ∧
        (Started l'.session →
          l'.session.assembly.bytesReceived = l'.session.assembly.currentDataPointer)) := by
  obtain ⟨r, hsound, hvalid, hsim⟩ := exists_sound h
  have hses := hsim.session_eq
  constructor
  · rw [← hses]
    exact fun hst => ⟨(hsound.exact hst).count, (hsound.exact hst).bound⟩
  · intro e l' hs
    obtain ⟨r', hr, hsim'⟩ := hsim.exists_step hs
    rw [AppendsFitting, writtenBy, appended_eq e hsim, ← hses, ← hsim'.session_eq]
    exact step_fits_iff hsound hvalid hr

theorem behind_unchanged {e : Event} {l' : LinkinterfaceCAN} {i : Nat}
    (h : ReachableUnder Init CanPool.step AppendsFitting l) (hfit : AppendsFitting e l)
    (hs : CanPool.step e l = some l') (hi : maxNetworkMessageLength ≤ i) :
    l'.session.assembly.currentMsg.bytes (headerSize + i) =
      l.session.assembly.currentMsg.bytes (headerSize + i) := by
  obtain ⟨r, hsound, hvalid, hsim⟩ := exists_sound h
  obtain ⟨r', hr, hsim'⟩ := hsim.exists_step hs
  rw [AppendsFitting, appended_eq e hsim, ← hsim.session_eq] at hfit
  have hw := ((step_fits_iff hsound hvalid hr).mp hfit).1
  rw [← hsim.session_eq, ← hsim'.session_eq]
  obtain ⟨_, ha, _⟩ | ⟨now, f, happ, _, ha, _⟩ := step_assembly hvalid hr
  · rw [ha]
  · rw [happ] at hw
    rw [ha]
    apply appendCANMsg_bytes
    intro hmem
    have hlt := hw i hmem
    omega

end

theorem bounded_while_fitting_mixedFrames : ∃ l : LinkinterfaceCAN, Started l.session ∧
    l.session.assembly.bytesReceived = l.session.assembly.currentDataPointer ∧
    l.session.assembly.currentDataPointer ≤ maxNetworkMessageLength := by
  obtain ⟨l, hl, hst⟩ := exists_reachable Init CanPool.step AppendsFitting idle init_idle mixedRun
    (fun l => Started l.session) (by decide +kernel)
  exact ⟨l, hst, (bounded_while_fitting hl).1 hst⟩

def oversizedFrame (i : Nat) : CanMsg := ⟨0x1C006401, #v[UInt8.ofNat i, 6, 6, 6, 6, 6, 6, 6], 8⟩

def oversizedRun : List Event :=
  [.call, .scan 0] ++ (List.range 186).map (fun i => .read 0 (some (oversizedFrame i)))

def shortFrameRun : List Event :=
  [.call, .scan 0, .read 0 (some ⟨0x1C006401, #v[0, 0, 12, 0, 0, 0, 0, 0], 1⟩)]

theorem unchecked_frames :
    (∃ l, Reachable Init CanPool.step l ∧
      (CanPool.step (.read 0 (some (oversizedFrame 186))) l).isSome ∧
      ∃ i ∈ writtenBy (.read 0 (some (oversizedFrame 186))) l, maxNetworkMessageLength ≤ i) ∧
    (∃ l, Reachable Init CanPool.step l ∧ Started l.session ∧
      l.session.assembly.bytesReceived = 65534 ∧ l.session.assembly.currentDataPointer = 0) :=
  ⟨exists_reachable Init CanPool.step (fun _ _ => True) idle init_idle oversizedRun _
      (by decide +kernel),
    exists_reachable Init CanPool.step (fun _ _ => True) idle init_idle shortFrameRun _
      (by decide +kernel)⟩

end Rodos.CanBounds
