import Rodos.CanConservation

namespace Rodos.CanPolling

open CanFraming CanReceiver CanPool CanConservation TransitionSystem

/-- Until `init` has made the link a broadcast link nothing is read. -/
def receiveCANMessage (isBroadcastLink : Bool) (l : LinkinterfaceCAN) (canMsg : Option CanMsg) :
    Option (Option Ref × LinkinterfaceCAN) :=
  if isBroadcastLink then l.receiveCANMessage canMsg else some (none, l)

section

variable {l : LinkinterfaceCAN} {ps : List Ref}

theorem pos_nonneg_iff (h : Layout l [] ps) :
    0 ≤ l.emptyBufferedCANMessagesPos ↔ ¬ canMsgBufferSize ≤ ps.length := by
  have hlen := h.length
  rw [List.length_nil] at hlen
  omega

theorem remaining_of_free (h : Layout l [] ps) (hfree : 0 ≤ l.emptyBufferedCANMessagesPos) :
    remaining ps = ps :=
  if_neg ((pos_nonneg_iff h).mp hfree)

theorem length_remaining (h : Layout l [] ps) (hfull : ¬ 0 ≤ l.emptyBufferedCANMessagesPos) :
    (remaining ps).length < ps.length := by
  rw [pos_nonneg_iff h, not_not] at hfull
  have hpos : 0 < canMsgBufferSize := by decide
  rw [remaining, if_pos hfull, List.length_dropLast]
  omega

/-- A read without a frame gives up the last frame of the list exactly if its buffer had
been taken to read into. -/
theorem receive_none_keeps_iff (h : Layout l [] ps) :
    ∃ l', l.receiveCANMessage none = some (none, l') ∧
      (l'.buffered = l.buffered ↔ 0 ≤ l.emptyBufferedCANMessagesPos) := by
  obtain ⟨l', hl', hlay, hmap, -⟩ := h.receive_none
  refine ⟨l', hl', ?_⟩
  rw [hlay.buffered_eq, hmap, h.buffered_eq]
  constructor
  · intro heq
    by_contra hfull
    apply absurd (congrArg List.length heq)
    rw [List.length_map, List.length_map]
    exact Nat.ne_of_lt (length_remaining h hfull)
  · intro hfree
    rw [remaining_of_free h hfree]

end

/-- In every state of every run a read that finds no frame returns 0, and it leaves the
buffered frames alone exactly if there is a free buffer to read into. -/
theorem idle_keeps_iff (isBroadcastLink : Bool) {l : LinkinterfaceCAN}
    (h : Reachable Init CanConservation.step l) :
    ∃ l', receiveCANMessage isBroadcastLink l none = some (none, l') ∧
      (l'.buffered = l.buffered ↔ isBroadcastLink = false ∨ 0 ≤ l.emptyBufferedCANMessagesPos) := by
  obtain ⟨r, ps, hrep⟩ := reachable_intact h
  cases isBroadcastLink with
  | false => exact ⟨l, rfl, iff_of_true rfl (.inl rfl)⟩
  | true =>
    obtain ⟨l', hl', hiff⟩ := receive_none_keeps_iff hrep.layout
    refine ⟨l', hl', hiff.trans ?_⟩
    rw [Bool.true_eq_false, false_or]

def oneKept : List Event :=
  [.call, .scan 1, .read 2 (some CanDelivery.firstFrame), .read 3 (some CanDelivery.shortFrame)]

theorem idle_keeps_oneKept : ∃ l l', l.buffered.length = 1 ∧
    receiveCANMessage true l none = some (none, l') ∧ l'.buffered = l.buffered := by
  obtain ⟨l, hl, hone, hfree⟩ := exists_reachable Init CanConservation.step (fun _ _ => True)
    CanDelivery.idle CanDelivery.init_idle oneKept
    (fun l => l.buffered.length = 1 ∧ 0 ≤ l.emptyBufferedCANMessagesPos) (by decide +kernel)
  obtain ⟨l', hl', hiff⟩ := idle_keeps_iff true hl
  exact ⟨l, l', hone, hl', hiff.mpr (.inr hfree)⟩

/-- With a full pool a frame of another message is lost. -/
theorem idle_loses_crowded : ∃ l l', Reachable Init CanConservation.step l ∧
    receiveCANMessage true l none = some (none, l') ∧ l'.buffered ≠ l.buffered := by
  obtain ⟨l, hl, hpos⟩ := exists_reachable Init CanConservation.step (fun _ _ => True)
    CanDelivery.idle CanDelivery.init_idle crowdedRun
    (fun l => l.emptyBufferedCANMessagesPos = -1) (by decide +kernel)
  obtain ⟨r, ps, hrep⟩ := reachable_intact hl
  obtain ⟨l', hl', hiff⟩ := receive_none_keeps_iff hrep.layout
  refine ⟨l, l', hl, hl', fun heq => ?_⟩
  have hfree := hiff.mp heq
  omega

end Rodos.CanPolling
