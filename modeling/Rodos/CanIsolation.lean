import Rodos.CanDelivery

namespace Rodos.CanIsolation

open NetworkMessage CanFraming CanReassembly CanReceiver CanPool CanDelivery TransitionSystem

def completed (fs : List CanMsg) : Nat := (reassemble none fs).2.length

theorem getElem?_of_forall₂ {α β : Type} {R : α → β → Prop} {xs : List α} {ys zs : List β} {y : β}
    (h : List.Forall₂ R xs (ys ++ y :: zs)) : ∃ x, xs[ys.length]? = some x ∧ R x y := by
  induction ys generalizing xs with
  | nil =>
    cases h with
    | cons hxy _ => exact ⟨_, rfl, hxy⟩
  | cons z ys ih =>
    cases h with
    | cons _ h =>
      obtain ⟨x, hx, hxy⟩ := ih h
      exact ⟨x, by simpa using hx, hxy⟩

section

variable {r : Receiver} {m : Sent} {pre fs post : List CanMsg}

theorem reassemble_frames (s : Option Partial) (hv : ∀ f ∈ fs, f.Valid)
    (hfs : fs.map CanMsg.telegram = m.frames) :
    reassemble s fs = (none, [delivery m.msg]) ∧
      ∀ g g', fs = g ++ g' → g ≠ [] → g' ≠ [] → ∃ p', reassemble s g = (some p', []) :=
  reassemble_telegrams s m.nonempty m.fits hv (hfs.trans m.frames_eq)

theorem frames_ne_nil (hfs : fs.map CanMsg.telegram = m.frames) (hv : ∀ f ∈ fs, f.Valid) :
    fs ≠ [] := by
  rintro rfl
  have h := (reassemble_frames none hv hfs).1
  simp [reassemble] at h

/-- A message whose frames have all reached the assembly has been delivered,
after those that the frames before it completed. -/
theorem delivered_of_consumed {rest : List CanMsg} (hs : Served r) (hv : ∀ f ∈ fs, f.Valid)
    (hfs : fs.map CanMsg.telegram = m.frames)
    (hcon : ofId (canId m.msg) r.session.consumed = pre ++ (fs ++ rest)) :
    ∃ d, (r.session.delivered.filter (fun d => canId d = canId m.msg))[completed pre]? = some d ∧
      contentOf d = carried m.msg ∧ isCheckSumOk d := by
  have hmatch := hs.tracking.matched (canId m.msg)
  rw [hcon, reassemble_append, reassemble_append, (reassemble_frames _ hv hfs).1] at hmatch
  obtain ⟨d, hd, hm⟩ := getElem?_of_forall₂ hmatch
  exact ⟨d, hd, contentOf_eq_carried hm, hm.checkSum⟩

theorem canId_ne_zero (m : NetworkMessage) : canId m ≠ 0 := by
  rw [canId_eq]
  omega

theorem current_of_begun {g g' : List CanMsg} (hs : Served r) (hv : ∀ f ∈ fs, f.Valid)
    (hfs : fs.map CanMsg.telegram = m.frames) (hg : fs = g ++ g') (hg1 : g ≠ []) (hg2 : g' ≠ [])
    (hcon : ofId (canId m.msg) r.session.consumed = pre ++ g) :
    r.session.assembly.currentReceiveCANId = canId m.msg := by
  have htr := hs.tracking.tracked (canId m.msg) (canId_ne_zero m.msg)
  obtain ⟨p', hp'⟩ := (reassemble_frames (reassemble none pre).1 hv hfs).2 g g' hg hg1 hg2
  rw [hcon, reassemble_append, hp'] at htr
  exact htr.1

theorem blocked_of_parked (hs : Served r) (hrest : r.AtRest) {b : Nat} (hp : ofId b r.parked ≠ []) :
    r.session.assembly.currentReceiveCANId ≠ 0 ∧ r.session.assembly.currentReceiveCANId ≠ b := by
  rw [← not_or]
  intro hcur
  have hsplit := hs.split b
  rw [hs.consumed_of_rest hrest hcur] at hsplit
  exact hp (List.self_eq_append_right.mp hsplit)

theorem delivered_or_parked (hs : Served r) (hrest : r.AtRest)
    (hfs : fs.map CanMsg.telegram = m.frames)
    (hrec : ofId (canId m.msg) r.session.received = pre ++ (fs ++ post)) :
    (∃ d, (r.session.delivered.filter (fun d => canId d = canId m.msg))[completed pre]? = some d ∧
      contentOf d = carried m.msg ∧ isCheckSumOk d) ∨
    (r.session.assembly.currentReceiveCANId ≠ 0 ∧
      r.session.assembly.currentReceiveCANId ≠ canId m.msg ∧
      ∃ pre', pre' <:+ pre ∧ ofId (canId m.msg) r.parked = pre' ++ (fs ++ post)) := by
  have hv : ∀ f ∈ fs, f.Valid := by
    intro f hf
    have hmem : f ∈ ofId (canId m.msg) r.session.received := by
      rw [hrec]
      simp [hf]
    exact hs.valid f (List.mem_filter.mp hmem).1
  have hne := frames_ne_nil hfs hv
  have hsplit := hs.split (canId m.msg)
  have hwait := fun hp => blocked_of_parked hs hrest (b := canId m.msg) hp
  rw [hrec] at hsplit
  obtain ⟨x, hcon, hx⟩ | ⟨x, hpre, hpark⟩ := List.append_eq_append_iff.mp hsplit
  · obtain ⟨y, hy, -⟩ | ⟨y, hy, hpark⟩ := List.append_eq_append_iff.mp hx
    · rw [hy] at hcon
      exact .inl (delivered_of_consumed hs hv hfs hcon)
    · by_cases hy0 : y = []
      · rw [hy0, List.append_nil] at hy
        rw [← hy, ← List.append_nil fs] at hcon
        exact .inl (delivered_of_consumed hs hv hfs hcon)
      · have hpne : ofId (canId m.msg) r.parked ≠ [] := by
          rw [hpark]
          simp [hy0]
        refine .inr ⟨(hwait hpne).1, (hwait hpne).2, ?_⟩
        by_cases hx0 : x = []
        · rw [hx0, List.nil_append] at hy
          exact ⟨[], List.nil_suffix, by rw [hpark, hy]; rfl⟩
        · exact absurd (current_of_begun hs hv hfs hy hx0 hy0 hcon) (hwait hpne).2
  · have hpne : ofId (canId m.msg) r.parked ≠ [] := by
      rw [hpark]
      simp [hne]
    exact .inr ⟨(hwait hpne).1, (hwait hpne).2, x, ⟨_, hpre.symm⟩, hpark⟩

end

/-- What a message waits for: only one of another CAN id that is not yet
complete, and none of its frames is lost meanwhile. -/
theorem delivered_unless_other_open {l : LinkinterfaceCAN} {m : Sent} {pre fs post : List CanMsg}
    (h : ReachableUnder Init CanPool.step (fun _ l => LeavesRoom l) l) (hrest : AtRest l)
    (hfs : fs.map CanMsg.telegram = m.frames)
    (hrec : ofId (canId m.msg) l.session.received = pre ++ (fs ++ post)) :
    (∃ d, (l.session.delivered.filter (fun d => canId d = canId m.msg))[completed pre]? = some d ∧
      contentOf d = carried m.msg ∧ isCheckSumOk d) ∨
    (l.session.assembly.currentReceiveCANId ≠ 0 ∧
      l.session.assembly.currentReceiveCANId ≠ canId m.msg ∧
      ∃ pre', pre' <:+ pre ∧ ofId (canId m.msg) l.buffered = pre' ++ (fs ++ post)) := by
  obtain ⟨r, hs, hsim⟩ := exists_served h
  rw [hsim.buffered_eq]
  rw [← hsim.session_eq] at hrec ⊢
  exact delivered_or_parked hs ((atRest_iff hsim).mp hrest) hfs hrec

def truncatedRun : List Event :=
  [.call, .scan 1, .read 2 (some firstFrame), .read 3 (some shortFrame), .read 4 none]

theorem exists_truncated : ∃ l, ReachableUnder Init CanPool.step (fun _ l => LeavesRoom l) l ∧
    AtRest l ∧ ofId (canId shortMsg.msg) l.session.received = [] ++ ([shortFrame] ++ []) ∧
    l.session.delivered.map contentOf = [] :=
  exists_reachable Init CanPool.step (fun _ l => LeavesRoom l) idle init_idle truncatedRun _
    (by decide +kernel)

theorem delivered_unless_other_open_truncated : ∃ l, AtRest l ∧ l.session.delivered = [] ∧
    l.session.assembly.currentReceiveCANId ≠ 0 ∧
    ∃ pre', pre' <:+ [] ∧ ofId (canId shortMsg.msg) l.buffered = pre' ++ ([shortFrame] ++ []) := by
  obtain ⟨l, hl, hrest, hrec, hdel⟩ := exists_truncated
  have hnone : l.session.delivered = [] := List.map_eq_nil_iff.mp hdel
  refine ⟨l, hrest, hnone, ?_⟩
  have h := delivered_unless_other_open (m := shortMsg) hl hrest (by decide +kernel) hrec
  obtain ⟨d, hd, _⟩ | ⟨hcur, _, hpark⟩ := h
  · simp [hnone] at hd
  · exact ⟨hcur, hpark⟩

/-- A message of another id that was cut short keeps a whole one back. -/
theorem truncated_blocks : ¬ ∀ (l : LinkinterfaceCAN) (m : Sent) (pre fs post : List CanMsg),
    ReachableUnder Init CanPool.step (fun _ l => LeavesRoom l) l → AtRest l →
    fs.map CanMsg.telegram = m.frames →
    ofId (canId m.msg) l.session.received = pre ++ (fs ++ post) →
    ∃ d ∈ l.session.delivered, contentOf d = carried m.msg := by
  intro hall
  obtain ⟨l, hl, hrest, hrec, hdel⟩ := exists_truncated
  obtain ⟨d, hd, _⟩ := hall l shortMsg [] [shortFrame] [] hl hrest (by decide +kernel) hrec
  rw [List.map_eq_nil_iff.mp hdel] at hd
  exact absurd hd List.not_mem_nil

end Rodos.CanIsolation
