import Mathlib

namespace Rodos.DoublyLinked

variable {N : Type}

structure Links (N : Type) where
  next : N → Option N
  prev : N → Option N

def Joined (k : Links N) (a b : N) : Prop := k.next a = some b ∧ k.prev b = some a

/-- From the head through these nodes and back to the head. -/
def Ring (k : Links N) (head : N) (xs : List N) : Prop :=
  (head :: (xs ++ [head])).IsChain (Joined k)

def left (head : N) (xs : List N) : N := xs.getLast?.getD head

def right (head : N) (ys : List N) : N := ys.head?.getD head

section Places

variable {head a : N} {xs ys : List N}

theorem left_nil : left head [] = head := rfl

theorem left_concat : left head (xs ++ [a]) = a := by
  rw [left, List.getLast?_concat, Option.getD_some]

theorem left_eq_or_mem : left head xs = head ∨ left head xs ∈ xs := by
  rcases List.eq_nil_or_concat' xs with rfl | ⟨xs, a, rfl⟩
  · exact .inl rfl
  · rw [left_concat]
    exact .inr (List.mem_append_right xs (List.mem_singleton_self a))

theorem right_eq_or_mem : right head ys = head ∨ right head ys ∈ ys := by
  cases ys with
  | nil => exact .inl rfl
  | cons b ys => exact .inr List.mem_cons_self

theorem head?_concat : (ys ++ [head]).head? = some (right head ys) := by
  cases ys <;> rfl

theorem left_notMem (hnodup : (head :: xs).Nodup) : left head xs ∉ (head :: xs).dropLast := by
  rcases List.eq_nil_or_concat' xs with rfl | ⟨xs, a, rfl⟩
  · exact List.not_mem_nil
  · rw [left_concat, ← List.cons_append, List.dropLast_concat]
    rw [← List.cons_append] at hnodup
    exact fun hmem => List.disjoint_of_nodup_append hnodup hmem (List.mem_singleton_self a)

theorem right_notMem (hnodup : (head :: ys).Nodup) : right head ys ∉ (ys ++ [head]).tail := by
  cases ys with
  | nil => exact List.not_mem_nil
  | cons b ys =>
    have hhead := (List.nodup_cons.mp hnodup).1
    have hb := (List.nodup_cons.mp (List.nodup_cons.mp hnodup).2).1
    rw [List.cons_append, List.tail_cons, List.mem_append, List.mem_singleton]
    rintro (hmem | heq)
    · exact hb hmem
    · exact hhead (heq ▸ List.mem_cons_self)

variable (hnodup : (head :: (xs ++ ys)).Nodup)

include hnodup

theorem nodup_before : (head :: xs).Nodup :=
  hnodup.sublist (List.sublist_append_left xs ys |>.cons_cons head)

theorem nodup_after : (head :: ys).Nodup :=
  hnodup.sublist (List.sublist_append_right xs ys |>.cons_cons head)

theorem left_notMem_after : left head xs ∉ ys := by
  rw [← List.cons_append] at hnodup
  rcases @left_eq_or_mem N head xs with heq | hmem
  · rw [heq]
    exact List.disjoint_of_nodup_append hnodup List.mem_cons_self
  · exact List.disjoint_of_nodup_append hnodup (List.mem_cons_of_mem head hmem)

theorem right_notMem_before : right head ys ∉ xs := by
  obtain ⟨hhead, hnodup⟩ := List.nodup_cons.mp hnodup
  rcases @right_eq_or_mem N head ys with heq | hmem
  · rw [heq]
    exact fun hmem => hhead (List.mem_append_left ys hmem)
  · exact fun hmem' => List.disjoint_of_nodup_append hnodup hmem' hmem

end Places

section Chains

variable {k : Links N} {head : N} {xs ys : List N}

theorem ring_append : Ring k head (xs ++ ys) ↔ (head :: xs).IsChain (Joined k) ∧
    Joined k (left head xs) (right head ys) ∧ (ys ++ [head]).IsChain (Joined k) := by
  have hright : ys ++ [head] = right head ys :: (ys ++ [head]).tail := by
    cases ys <;> rfl
  rcases List.eq_nil_or_concat' xs with rfl | ⟨xs, a, rfl⟩
  · rw [Ring, List.nil_append, hright, List.isChain_cons_cons]
    exact (and_iff_right (List.isChain_singleton head)).symm
  · rw [Ring, left_concat, List.append_assoc, hright, List.append_assoc, List.singleton_append,
      ← List.cons_append, List.isChain_append_cons_cons, List.cons_append]

theorem Ring.next_head (h : Ring k head xs) : k.next head = some (right head xs) := by
  rw [← List.nil_append xs, ring_append] at h
  exact h.2.1.1

theorem Ring.prev_head (h : Ring k head xs) : k.prev head = some (left head xs) := by
  rw [← List.append_nil xs, ring_append] at h
  exact h.2.1.2

theorem Ring.next {a : N} (h : Ring k head (xs ++ a :: ys)) : k.next a = some (right head ys) := by
  rw [List.append_cons, ring_append, left_concat] at h
  exact h.2.1.1

end Chains

variable [DecidableEq N]

namespace Links

def join (k : Links N) (a b : N) : Links N :=
  ⟨Function.update k.next a (some b), Function.update k.prev b (some a)⟩

variable {k : Links N} {a b c d : N}

theorem joined_join : Joined (k.join a b) a b := by
  constructor
  · exact Function.update_self a (some b) k.next
  · exact Function.update_self b (some a) k.prev

theorem joined_join_of_ne (h : Joined k c d) (hc : c ≠ a) (hd : d ≠ b) :
    Joined (k.join a b) c d :=
  ⟨(Function.update_of_ne hc _ _).trans h.1, (Function.update_of_ne hd _ _).trans h.2⟩

/-- A chain survives where neither pointer of a link changes. -/
theorem isChain_join {l : List N} (h : l.IsChain (Joined k)) (ha : a ∉ l.dropLast)
    (hb : b ∉ l.tail) : l.IsChain (Joined (k.join a b)) := by
  induction l with
  | nil => exact .nil
  | cons c l ih =>
    cases l with
    | nil => exact .singleton c
    | cons d l =>
      rw [List.isChain_cons_cons] at h ⊢
      rw [List.dropLast_cons_cons, List.mem_cons, not_or] at ha
      rw [List.tail_cons, List.mem_cons, not_or] at hb
      exact ⟨joined_join_of_ne h.1 (Ne.symm ha.1) (Ne.symm hb.1), ih h.2 ha.2 hb.2⟩

end Links

section Changes

open Links

variable {k : Links N} {head e : N} {xs ys : List N}

theorem Ring.frame (h : Ring k head xs) {a b : N} (ha : a ∉ head :: xs) (hb : b ∉ head :: xs) :
    Ring (k.join a b) head xs := by
  refine isChain_join h ?_ ?_
  · rw [← List.cons_append, List.dropLast_concat]
    exact ha
  · rw [List.tail_cons, List.mem_append, List.mem_singleton]
    rw [List.mem_cons] at hb
    exact fun hmem => hb hmem.symm

theorem Ring.insert (hnodup : (head :: (xs ++ ys)).Nodup) (h : Ring k head (xs ++ ys))
    (he : e ∉ head :: (xs ++ ys)) :
    Ring ((k.join (left head xs) e).join e (right head ys)) head (xs ++ e :: ys) := by
  rw [List.mem_cons, List.mem_append, not_or, not_or] at he
  obtain ⟨hehead, hexs, heys⟩ := he
  have hbefore := left_notMem (nodup_before hnodup)
  have hafter := right_notMem (nodup_after hnodup)
  have hleft := left_notMem_after hnodup
  have hright := right_notMem_before hnodup
  have hedrop : e ∉ (head :: xs).dropLast := by
    intro hmem
    rcases List.mem_cons.mp (List.mem_of_mem_dropLast hmem) with heq | hmem
    · exact hehead heq
    · exact hexs hmem
  have hetail : e ∉ (ys ++ [head]).tail := by
    intro hmem
    rcases List.mem_append.mp (List.mem_of_mem_tail hmem) with hmem | hmem
    · exact heys hmem
    · exact hehead (List.mem_singleton.mp hmem)
  have hne_left : left head xs ≠ e := by
    rcases @left_eq_or_mem N head xs with heq | hmem
    · rw [heq]
      exact Ne.symm hehead
    · exact fun heq => hexs (heq ▸ hmem)
  have hne_right : e ≠ right head ys := by
    rcases @right_eq_or_mem N head ys with heq | hmem
    · rw [heq]
      exact hehead
    · exact fun heq => heys (heq ▸ hmem)
  obtain ⟨hxs, _, hys⟩ := ring_append.mp h
  rw [ring_append]
  refine ⟨isChain_join (isChain_join hxs hbefore hexs) hedrop hright,
    joined_join_of_ne joined_join hne_left hne_right, ?_⟩
  rw [List.cons_append, List.isChain_cons, head?_concat]
  constructor
  · rintro b ⟨⟩
    exact joined_join
  · refine isChain_join (isChain_join hys ?_ hetail) ?_ hafter
    · rwa [List.dropLast_concat]
    · rwa [List.dropLast_concat]

theorem Ring.remove (hnodup : (head :: (xs ++ e :: ys)).Nodup) (h : Ring k head (xs ++ e :: ys)) :
    k.prev e = some (left head xs) ∧ k.next e = some (right head ys) ∧
      Ring (k.join (left head xs) (right head ys)) head (xs ++ ys) := by
  have hnodup' : (head :: (xs ++ ys)).Nodup :=
    hnodup.sublist ((List.sublist_cons_self e ys).append_left xs |>.cons_cons head)
  obtain ⟨hxs, hleft, hys⟩ := ring_append.mp h
  rw [List.cons_append, List.isChain_cons, head?_concat] at hys
  refine ⟨hleft.2, (hys.1 _ rfl).1, ring_append.mpr ⟨?_, joined_join, ?_⟩⟩
  · exact isChain_join hxs (left_notMem (nodup_before hnodup')) (right_notMem_before hnodup')
  · refine isChain_join hys.2 ?_ (right_notMem (nodup_after hnodup'))
    rw [List.dropLast_concat]
    exact left_notMem_after hnodup'

end Changes

end Rodos.DoublyLinked
