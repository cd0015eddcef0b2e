import Rodos.RoundRobin

namespace Rodos.BoundedWaiting

open ListScan ThreadSelection RoundRobin

variable {T G : Type} [DecidableEq T]

def Selectable (idlethread : T) (r : Round T G) (t : T) : Prop :=
  t = idlethread ∨ t ∈ r.threadList ∧ (r.fields t).suspendedUntil < r.timeNow

/-- The thread is ready at this call, nothing that can be selected is more
important, and all that is as important is among its rivals. -/
structure Contends (idlethread : T) (u : T) (rivals : Finset T) (r : Round T G) : Prop where
  mem : u ∈ r.threadList
  ready : (r.fields u).suspendedUntil < r.timeNow
  highest : ∀ t, Selectable idlethread r t → (r.fields t).priority ≤ (r.fields u).priority
  rivals : ∀ t, Selectable idlethread r t → (r.fields t).priority = (r.fields u).priority →
    t ≠ u → t ∈ rivals

def turns (idlethread : T) (rounds : Nat → Round T G) (u : T) (i j : Nat) : Nat :=
  ((Finset.Ico i j).filter (fun k => activated idlethread rounds k = u)).card

section

variable {idlethread : T} {rounds : Nat → Round T G}

theorem turns_append (u : T) {i j k : Nat} (hij : i ≤ j) (hjk : j ≤ k) :
    turns idlethread rounds u i k =
      turns idlethread rounds u i j + turns idlethread rounds u j k := by
  unfold turns
  rw [← Finset.Ico_union_Ico_eq_Ico hij hjk, Finset.filter_union]
  apply Finset.card_union_of_disjoint
  apply Finset.disjoint_filter_filter
  exact Finset.Ico_disjoint_Ico_consecutive i j k

variable (hstack : ∀ n t, (rounds n).stackViolation t = false)
include hstack

theorem selectable_activated (k : Nat) :
    Selectable idlethread (rounds k) (activated idlethread rounds k) := by
  have hmem := scan_mem
    (fun t => rank ((interlude (rounds k) (before idlethread rounds k)).threads t)) idlethread
    ((rounds k).threadList.filter (fun t =>
      decide (((interlude (rounds k) (before idlethread rounds k)).threads t).suspendedUntil <
        (rounds k).timeNow)))
  rw [← findNextToRun_fst, ← activated_eq idlethread rounds hstack k] at hmem
  obtain hidle | hready := List.mem_cons.mp hmem
  · exact .inl hidle
  · obtain ⟨hlist, hready⟩ := List.mem_filter.mp hready
    exact .inr ⟨hlist, of_decide_eq_true hready⟩

variable {u : T} {rivals : Finset T} {i : Nat}

theorem activated_rival {k : Nat} (h : Contends idlethread u rivals (rounds k))
    (hother : activated idlethread rounds k ≠ u) :
    activated idlethread rounds k ∈ rivals ∧
      stamp idlethread rounds k (activated idlethread rounds k) ≤ stamp idlethread rounds k u := by
  have hselectable : Selectable idlethread (rounds k) (activated idlethread rounds k) :=
    selectable_activated hstack k
  have hrank := rank_le_findNextToRun (interlude (rounds k) (before idlethread rounds k)).threads
    idlethread (rounds k).threadList (rounds k).timeNow u h.mem h.ready
  rw [← activated_eq idlethread rounds hstack k] at hrank
  have hnot := not_lt.mpr hrank
  simp only [rank_lt_iff, not_or, not_and, not_lt] at hnot
  have hprio : ((rounds k).fields (activated idlethread rounds k)).priority =
      ((rounds k).fields u).priority :=
    le_antisymm (h.highest _ hselectable) hnot.1
  exact ⟨h.rivals _ hselectable hprio hother, hnot.2 hprio⟩

theorem activated_injOn {n : Nat} (hend : i + n ≤ 2 ^ 64)
    (h : ∀ k, i ≤ k → k < i + n → Contends idlethread u rivals (rounds k))
    (hother : ∀ k, i ≤ k → k < i + n → activated idlethread rounds k ≠ u) :
    ∀ k, i ≤ k → ∀ k', k < k' → k' < i + n →
      activated idlethread rounds k ≠ activated idlethread rounds k' := by
  intro k hik k' hkk' hk' heq
  have hwaits : stamp idlethread rounds k' u ≤ i := by
    rw [stamp_kept idlethread rounds hstack i k' (by omega) u
      (fun m hm hmk => hother m hm (by omega))]
    exact stamp_le idlethread rounds hstack i u
  have hlater : k + 1 ≤ stamp idlethread rounds k' (activated idlethread rounds k) := by
    have hmono := stamp_mono idlethread rounds hstack (k + 1) k' hkk' (by omega)
      (activated idlethread rounds k)
    rw [stamp_succ idlethread rounds hstack k, if_pos rfl] at hmono
    omega
  have hrival := (activated_rival hstack (h k' (by omega) hk') (hother k' (by omega) hk')).2
  rw [← heq] at hrival
  omega

theorem exists_turn (hend : i + (rivals.card + 1) ≤ 2 ^ 64)
    (h : ∀ k, i ≤ k → k < i + (rivals.card + 1) → Contends idlethread u rivals (rounds k)) :
    ∃ k, i ≤ k ∧ k < i + (rivals.card + 1) ∧ activated idlethread rounds k = u := by
  by_contra hnone
  have hother : ∀ k, i ≤ k → k < i + (rivals.card + 1) → activated idlethread rounds k ≠ u :=
    fun k hk hk' heq => hnone ⟨k, hk, hk', heq⟩
  have hmaps : ∀ k ∈ Finset.Ico i (i + (rivals.card + 1)),
      activated idlethread rounds k ∈ rivals := by
    intro k hk
    obtain ⟨hk, hk'⟩ := Finset.mem_Ico.mp hk
    exact (activated_rival hstack (h k hk hk') (hother k hk hk')).1
  obtain ⟨k, hk, k', hk', hne, heq⟩ := Finset.exists_ne_map_eq_of_card_lt_of_maps_to
    (by rw [Nat.card_Ico]; omega) hmaps
  rw [Finset.mem_Ico] at hk hk'
  obtain hlt | hlt := Nat.lt_or_gt_of_ne hne
  · exact activated_injOn hstack hend h hother k hk.1 k' hlt hk'.2 heq
  · exact activated_injOn hstack hend h hother k' hk'.1 k hlt hk.2 heq.symm

/-- A thread that stays ready gets its share of the processor: of every round
of calls, one for each rival and one for itself, it gets one. -/
theorem fair_share (n : Nat) (hend : i + n * (rivals.card + 1) ≤ 2 ^ 64)
    (h : ∀ k, i ≤ k → k < i + n * (rivals.card + 1) → Contends idlethread u rivals (rounds k)) :
    n ≤ turns idlethread rounds u i (i + n * (rivals.card + 1)) := by
  induction n with
  | zero => exact Nat.zero_le _
  | succ n ih =>
    have hlength : i + (n + 1) * (rivals.card + 1) =
        i + n * (rivals.card + 1) + (rivals.card + 1) := by ring
    rw [hlength] at hend h ⊢
    have hbefore := ih (by omega) (fun k hk hk' => h k hk (by omega))
    obtain ⟨k, hk, hk', hturn⟩ := exists_turn hstack hend (fun k hk hk' => h k (by omega) hk')
    have hone : 1 ≤ turns idlethread rounds u (i + n * (rivals.card + 1))
        (i + n * (rivals.card + 1) + (rivals.card + 1)) := by
      apply Finset.card_pos.mpr
      exact ⟨k, Finset.mem_filter.mpr ⟨Finset.mem_Ico.mpr ⟨hk, hk'⟩, hturn⟩⟩
    rw [turns_append u (Nat.le_add_right i _) (Nat.le_add_right _ _)]
    omega

end

/-- Of two workers each gets every second call. -/
theorem fair_share_twoWorkers : 500 ≤ turns 0 twoWorkers 2 0 1000 := by
  have hcontends : Contends 0 2 {1} (twoWorkers 0) := by
    refine ⟨by decide, by decide, ?_, ?_⟩
    · have hprio : ∀ t, ((twoWorkers 0).fields t).priority ≤ ((twoWorkers 0).fields 2).priority := by
        decide
      exact fun t _ => hprio t
    · have honly : ∀ t, ((twoWorkers 0).fields t).priority = ((twoWorkers 0).fields 2).priority →
          t ≠ 2 → t ∈ ({1} : Finset (Fin 3)) := by
        decide
      exact fun t _ => honly t
  have hshare : 500 ≤ turns 0 twoWorkers 2 0 (0 + 500 * (({1} : Finset (Fin 3)).card + 1)) :=
    fair_share (fun _ _ => rfl) 500 (by simp) (fun _ _ _ => hcontends)
  simpa using hshare

end Rodos.BoundedWaiting
