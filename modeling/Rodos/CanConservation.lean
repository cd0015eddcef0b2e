import Rodos.CanDelivery

namespace Rodos.CanConservation

open CanFraming CanReceiver CanPool CanDelivery LinkinterfaceCAN LinkedSegment TransitionSystem

/-- One round of `getNetworkMsg`, whatever frame the driver hands over. -/
def step (e : Event) (l : LinkinterfaceCAN) : Option LinkinterfaceCAN :=
  match e, l.pc with
  | .read now canMsg, .receive => if ∀ f ∈ canMsg, 0 ≤ f.len then receive l now canMsg else none
  | e, _ => CanPool.step e l

def Enabled : Event → Pc → Prop
  | .call, .outside => True
  | .scan _, .scan _ _ => True
  | .read _ canMsg, .receive => ∀ f ∈ canMsg, 0 ≤ f.len
  | _, _ => False

/-- The stack up to its position and the list `ps` from `bufferedCANMsgs_start`
hold every buffer once. -/
structure Conserved (l : LinkinterfaceCAN) (ps : List Ref) : Prop where
  linked : Segment l.next l.bufferedCANMsgsStart ps none
  once : ∀ buffer : Ref, (l.free ++ ps).count buffer = 1
  last : l.bufferedCANMsgsEnd = ps.getLast?
  empty : l.bufferedCANMsgsEnd = none ↔ l.bufferedCANMsgsStart = none
  lower : -1 ≤ l.emptyBufferedCANMessagesPos
  upper : l.emptyBufferedCANMessagesPos < canMsgBufferSize

section

variable {l : LinkinterfaceCAN} {ps : List Ref}

theorem conserved_of_layout (h : Layout l [] ps) : Conserved l ps where
  linked := h.linked
  once := by
    intro buffer
    apply List.count_eq_one_of_mem h.nodup
    exact h.perm.mem_iff.mpr (List.mem_finRange buffer)
  last := h.last
  empty := by
    rw [h.last, h.linked.start_eq_head?, List.getLast?_eq_none_iff, List.head?_eq_none_iff]
  lower := h.pos
  upper := by
    have hlen := h.length
    simp only [List.length_nil] at hlen
    omega

/-- The list is long when the stack is empty, so the walk to its last
element passes another one. -/
theorem steal_of_layout (h : Layout l [] ps) (hneg : l.emptyBufferedCANMessagesPos < 0) :
    2 ≤ ps.length ∧ ∃ previous msg,
      l.bufferedCANMsgsStart.bind (walkToLast l.next canMsgBufferSize none) =
        some (some previous, msg) := by
  have hlen := h.length
  have hpos := h.pos
  simp only [List.length_nil] at hlen
  have hfull : canMsgBufferSize ≤ ps.length := by omega
  refine ⟨le_trans (by decide) hfull, ?_⟩
  obtain ⟨msg, l', htake, -⟩ := h.takeBuffer_full hfull
  rw [LinkinterfaceCAN.takeBuffer] at htake
  rw [if_pos hneg] at htake
  split at htake
  · rename_i previous msg hwalk
    exact ⟨previous, msg, hwalk⟩
  · cases htake

theorem simulates_of_layout (h : Layout l [] ps) (hpc : l.pc = .outside ∨ l.pc = .receive) :
    ∃ r, Simulates l r := by
  obtain hpc | hpc := hpc
  · refine ⟨⟨ps.map l.frame, l.session, .outside⟩, ps, h, rfl, rfl, ?_⟩
    rw [hpc]
    trivial
  · refine ⟨⟨ps.map l.frame, l.session, .receive⟩, ps, h, rfl, rfl, ?_⟩
    rw [hpc]
    trivial

theorem receive_layout (now : Int) (canMsg : Option CanMsg) (h : Layout l [] ps) :
    ∃ l' qs, receive l now canMsg = some l' ∧ Layout l' [] qs ∧
      (l'.pc = .outside ∨ l'.pc = .receive) := by
  rw [receive]
  cases canMsg with
  | none =>
    obtain ⟨l', hl', hlay, -⟩ := h.receive_none
    simp only [hl']
    exact ⟨_, _, rfl, hlay.move _ _, .inl rfl⟩
  | some f =>
    obtain ⟨msg, l', hl', hlay, -⟩ := h.receive_some f
    simp only [hl']
    by_cases hb : l'.session.belongs (l'.frame msg)
    · obtain ⟨l'', hl'', hlay', -⟩ := hlay.append now
      simp only [if_pos hb, hl'', Option.map_some]
      refine ⟨_, _, rfl, hlay'.move _ _, ?_⟩
      cases l'.session.completes now (l'.frame msg) <;> simp
    · simp only [if_neg hb]
      exact ⟨_, _, rfl, hlay.park.1.move _ _, .inr rfl⟩

theorem step_pool {r : Receiver} {e : Event} (h : Simulates l r) (he : Enabled e l.pc)
    (hread : l.pc ≠ .receive) : ∃ l' r', CanPool.step e l = some l' ∧ Simulates l' r' := by
  obtain ⟨ps, h⟩ := h
  obtain ⟨hpc, hphase⟩ | ⟨prev, elem, kept, rest, hpc, hphase⟩ | ⟨hpc, -⟩ := h.pc_cases
  · rw [hpc] at he
    cases e with
    | call =>
      obtain ⟨r', -, hsim⟩ := call_simulates h hphase
      exact ⟨_, r', by simp only [CanPool.step, hpc], hsim⟩
    | scan now | read now canMsg => exact he.elim
  · rw [hpc] at he
    cases e with
    | call | read now canMsg => exact he.elim
    | scan now =>
      cases elem with
      | none =>
        obtain ⟨r', -, hsim⟩ := endScan_simulates now h hpc hphase
        exact ⟨_, r', by simp only [CanPool.step, hpc], hsim⟩
      | some elem =>
        obtain ⟨l', r', hl', -, hsim⟩ := scanElement_simulates now h hpc hphase
        exact ⟨l', r', by simp only [CanPool.step, hpc, hl'], hsim⟩
  · exact absurd hpc hread

theorem step_intact {r : Receiver} {e : Event} (h : Simulates l r) (he : Enabled e l.pc) :
    ∃ l' r', step e l = some l' ∧ Simulates l' r' := by
  by_cases hpc : l.pc = .receive
  · rw [hpc] at he
    cases e with
    | call | scan now => exact he.elim
    | read now canMsg =>
      obtain ⟨ps, h⟩ := h
      obtain ⟨l', qs, hl', hlay, hpc'⟩ := receive_layout now canMsg h.layout
      obtain ⟨r', hsim⟩ := simulates_of_layout hlay hpc'
      refine ⟨l', r', ?_, hsim⟩
      have hlen : ∀ f ∈ canMsg, 0 ≤ f.len := he
      simp only [step, hpc]
      rw [if_pos hlen, hl']
  · obtain ⟨l', r', hl', hsim⟩ := step_pool h he hpc
    refine ⟨l', r', ?_, hsim⟩
    unfold step
    split
    · rename_i hreceive
      exact absurd hreceive hpc
    · exact hl'

theorem enabled_of_step {e : Event} {l' : LinkinterfaceCAN} (h : step e l = some l') :
    Enabled e l.pc := by
  unfold step CanPool.step at h
  cases hpc : l.pc <;> cases e <;> simp_all [Enabled]

end

theorem reachable_intact {l : LinkinterfaceCAN} (h : Reachable Init step l) :
    ∃ r, Simulates l r := by
  apply h.invariant (fun l => ∃ r, Simulates l r)
  · intro l hl
    obtain ⟨r, -, hsim⟩ := init_simulates hl
    exact ⟨r, hsim⟩
  · intro e l l' hsim _ hs
    obtain ⟨r, hsim⟩ := hsim
    obtain ⟨l'', r', hl'', hsim'⟩ := step_intact hsim (enabled_of_step hs)
    obtain rfl : l'' = l' := Option.some.inj (hl''.symm.trans hs)
    exact ⟨r', hsim'⟩

/-- In every state of every run, and so whenever `getNetworkMsg` returns, no
buffer is lost or listed twice. With an empty stack the buffer to steal has
another one before it, and no round is stopped by a fault. -/
theorem pool_conserved {l : LinkinterfaceCAN} (h : Reachable Init step l) :
    ∃ ps, Conserved l ps ∧
      (l.emptyBufferedCANMessagesPos < 0 → 2 ≤ ps.length ∧ ∃ previous msg,
        l.bufferedCANMsgsStart.bind (walkToLast l.next canMsgBufferSize none) =
          some (some previous, msg)) ∧
      ∀ e, Enabled e l.pc → ∃ l', step e l = some l' := by
  obtain ⟨r, hsim⟩ := reachable_intact h
  obtain ⟨ps, hrep⟩ := id hsim
  refine ⟨ps, conserved_of_layout hrep.layout, steal_of_layout hrep.layout, ?_⟩
  intro e he
  obtain ⟨l', -, hl', -⟩ := step_intact hsim he
  exact ⟨l', hl'⟩

def crowdedRun : List Event :=
  [.call, .scan 1, .read 2 (some firstFrame)] ++
    List.replicate canMsgBufferSize (.read 3 (some shortFrame))

theorem pool_conserved_crowdedRun :
    ∃ l ps, Reachable Init step l ∧ l.pc = .receive ∧ l.emptyBufferedCANMessagesPos = -1 ∧
      Conserved l ps ∧ 2 ≤ ps.length := by
  obtain ⟨l, hl, hpc, hpos⟩ := exists_reachable Init step (fun _ _ => True) idle init_idle
    crowdedRun (fun l => l.pc = .receive ∧ l.emptyBufferedCANMessagesPos = -1) (by decide +kernel)
  obtain ⟨ps, hps, hsteal, -⟩ := pool_conserved hl
  exact ⟨l, ps, hl, hpc, hpos, hps, (hsteal (by omega)).1⟩

end Rodos.CanConservation
