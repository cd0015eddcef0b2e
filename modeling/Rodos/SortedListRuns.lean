import Rodos.SortedList

namespace Rodos.SortedListRuns

open DoublyLinked SortedList

open Chainable (headAndTail)

variable {L E : Type}

/-- The objects, the number of calls so far and that of the call that inserted an entry last. -/
structure State (L E : Type) where
  memory : Memory L E
  calls : Nat
  insertedAt : E → Nat

def newEntry : Call L E → Option E
  | .insert _ newEntry _ => newEntry
  | .append _ newEntry _ => newEntry
  | .appendForce _ newEntry _ => newEntry
  | .remove _ _ => none
  | .getAndRemoveTheFirst _ => none

def insertions [DecidableEq E] (s : State L E) (c : Call L E) : Answer L E → E → Nat
  | .success true => (newEntry c).elim s.insertedAt fun e => Function.update s.insertedAt e s.calls
  | _ => s.insertedAt

def after [DecidableEq E] (s : State L E) (c : Call L E) (answer : Answer L E)
    (memory : Memory L E) : State L E :=
  ⟨memory, s.calls + 1, insertions s c answer⟩

/-- The call comes back, however long its loop may run. -/
def Returns [DecidableEq L] [DecidableEq E] (w : Memory L E) (c : Call L E) (answer : Answer L E)
    (w' : Memory L E) : Prop :=
  ∃ enough, ∀ fuel ≥ enough, call fuel w c = some (answer, w')

def Room (w : Memory L E) (this : L) (e : E) : Prop :=
  w.currentList (.entry e) = some this ∨ w.numberOfElements this < 2 ^ 31 - 1

/-- A negative value is not inserted into a list without other entries, and no list gets
too long. -/
def Allowed (w : Memory L E) : Call L E → Prop
  | .insert this (some e) sortVal =>
    (sortVal < 0 → ∃ a ≠ e, w.currentList (.entry a) = some this) ∧ Room w this e
  | .append this (some e) sortVal => ∀ last, w.links.prev (headAndTail this) = some last →
    w.sortField last ≤ sortVal → Room w this e
  | .appendForce this (some e) _ => Room w this e
  | _ => True

inductive Run [DecidableEq L] [DecidableEq E] : State L E → Prop
  | start : Run ⟨initial, 0, fun _ => 0⟩
  | step {s : State L E} {c : Call L E} {answer : Answer L E} {w' : Memory L E} : Run s →
      Allowed s.memory c → Returns s.memory c answer w' → Run (after s c answer w')

/-- By values, and first come first served. -/
def Before (s : State L E) (a b : E) : Prop :=
  s.memory.sortField (.entry a) < s.memory.sortField (.entry b) ∨
    (s.memory.sortField (.entry a) = s.memory.sortField (.entry b) ∧
      s.insertedAt a < s.insertedAt b)

structure Sorted (s : State L E) (contents : L → List E) : Prop where
  consistent : Consistent s.memory contents
  order : ∀ list, (contents list).Pairwise (Before s)
  earlier : ∀ list, ∀ e ∈ contents list, s.insertedAt e < s.calls

structure Outcome [DecidableEq L] [DecidableEq E] (s : State L E) (c : Call L E)
    (answer : Answer L E) (w' : Memory L E) : Prop where
  returns : Returns s.memory c answer w'
  sorted : ∃ contents, Sorted (after s c answer w') contents
  unchanged : answer = .success false → w' = s.memory
  inserted : ∀ this e sortVal, c = .insert this (some e) sortVal → answer = .success true ∧
    w'.currentList (.entry e) = some this ∧ w'.sortField (.entry e) = sortVal

section Order

variable {s : State L E} {contents : L → List E} {this : L} {e : E}

theorem Before.le {a b : E} (h : Before s a b) :
    s.memory.sortField (.entry a) ≤ s.memory.sortField (.entry b) := by
  rcases h with hlt | ⟨heq, _⟩
  · exact hlt.le
  · exact heq.le

theorem Sorted.le_last (h : Sorted s contents) {a : E} (ha : a ∈ contents this) :
    s.memory.sortField (.entry a) ≤
      s.memory.sortField (left (headAndTail this) ((contents this).map .entry)) := by
  have horder := h.order this
  rcases List.eq_nil_or_concat' (contents this) with hnil | ⟨xs, b, hconcat⟩
  · rw [hnil] at ha
    cases ha
  · rw [hconcat] at ha horder ⊢
    rw [List.map_append, List.map_singleton, left_concat]
    rcases List.mem_append.mp ha with hxs | hb
    · exact ((List.pairwise_append.mp horder).2.2 a hxs b (List.mem_singleton_self b)).le
    · rw [List.mem_singleton.mp hb]

theorem Room.length [DecidableEq E] (hroom : Room s.memory this e)
    (h : Consistent s.memory contents) : (without contents e this).length + 1 < 2 ^ 31 := by
  have hfits := h.fits this
  rcases hroom with hcurrent | hnumber
  · have he := (h.currentList this e).mp hcurrent
    have hpos := List.length_pos_of_mem he
    rw [without, List.length_erase_of_mem he]
    omega
  · have hle : (without contents e this).length ≤ (contents this).length := List.length_erase_le
    rw [h.number this] at hnumber
    omega

theorem Sorted.skip (h : Sorted s contents) :
    Sorted ⟨s.memory, s.calls + 1, s.insertedAt⟩ contents where
  consistent := h.consistent
  order := h.order
  earlier := fun list e he => Nat.lt_succ_of_lt (h.earlier list e he)

theorem sorted_initial : Sorted (⟨initial, 0, fun _ => 0⟩ : State L E) fun _ => [] where
  consistent :=
    { ring := fun list => .cons_cons ⟨rfl, rfl⟩ (.singleton _)
      nodup := fun list => .nil
      currentList := fun list e => iff_of_false (by rintro ⟨⟩) List.not_mem_nil
      number := fun list => rfl
      fits := fun list => Nat.two_pow_pos 31
      sentinel := fun list => rfl }
  order := fun list => .nil
  earlier := fun list => List.forall_mem_nil _

end Order

section Steps

variable [DecidableEq E] {s : State L E} {contents : L → List E} {this : L} {e : E}
  {c : Call L E} {w' : Memory L E}

theorem Sorted.remove (h : Sorted s contents) (hconsistent : Consistent w' (without contents e))
    (hsort : w'.sortField = s.memory.sortField) :
    Sorted ⟨w', s.calls + 1, s.insertedAt⟩ (without contents e) where
  consistent := hconsistent
  order := by
    intro list
    unfold Before
    dsimp only
    rw [hsort]
    exact (h.order list).sublist List.erase_sublist
  earlier := fun list a ha =>
    Nat.lt_succ_of_lt (h.earlier list a (List.mem_of_mem_erase ha))

variable [DecidableEq L]

theorem before_put {sortVal : Int}
    (hsort : w'.sortField = Function.update s.memory.sortField (.entry e) sortVal) {a b : E}
    (ha : a ≠ e) (hb : b ≠ e) :
    Before ⟨w', s.calls + 1, Function.update s.insertedAt e s.calls⟩ a b ↔ Before s a b := by
  have hfield : ∀ a ≠ e, w'.sortField (.entry a) = s.memory.sortField (.entry a) := by
    intro a ha
    rw [hsort, Function.update_of_ne (fun heq => ha (Chainable.entry.inj heq))]
  unfold Before
  dsimp only
  rw [hfield a ha, hfield b hb, Function.update_of_ne ha, Function.update_of_ne hb]

theorem pairwise_put {sortVal : Int} {xs ys : List E} (hold : (xs ++ ys).Pairwise (Before s))
    (hne : ∀ a ∈ xs ++ ys, a ≠ e) (hearlier : ∀ a ∈ xs, s.insertedAt a < s.calls)
    (hxs : ∀ a ∈ xs, s.memory.sortField (.entry a) ≤ sortVal)
    (hys : ∀ b ∈ ys.head?, sortVal < s.memory.sortField (.entry b))
    (hsort : w'.sortField = Function.update s.memory.sortField (.entry e) sortVal) :
    (xs ++ e :: ys).Pairwise
      (Before ⟨w', s.calls + 1, Function.update s.insertedAt e s.calls⟩) := by
  have hself : w'.sortField (.entry e) = sortVal := by
    rw [hsort, Function.update_self]
  have hfield : ∀ a ≠ e, w'.sortField (.entry a) = s.memory.sortField (.entry a) := by
    intro a ha
    rw [hsort, Function.update_of_ne (fun heq => ha (Chainable.entry.inj heq))]
  have hnew := hold.imp_of_mem fun ha hb hbefore =>
    (before_put hsort (hne _ ha) (hne _ hb)).mpr hbefore
  have hlater : ∀ b ∈ ys, sortVal < s.memory.sortField (.entry b) := by
    have hys' := (List.pairwise_append.mp hold).2.1
    cases ys with
    | nil => exact List.forall_mem_nil _
    | cons b ys =>
      have hb := hys b rfl
      rw [List.forall_mem_cons]
      exact ⟨hb, fun d hd => hb.trans_le (List.rel_of_pairwise_cons hys' hd).le⟩
  obtain ⟨hxs', hys', hcross⟩ := List.pairwise_append.mp hnew
  rw [List.pairwise_append, List.pairwise_cons]
  refine ⟨hxs', ⟨?_, hys'⟩, ?_⟩
  · intro b hb
    left
    dsimp only
    rw [hself, hfield b (hne b (List.mem_append_right xs hb))]
    exact hlater b hb
  · intro a ha b hb
    rcases List.mem_cons.mp hb with rfl | hb
    · have hae := hne a (List.mem_append_left ys ha)
      rw [Before]
      dsimp only
      rw [hself, hfield a hae, Function.update_of_ne hae, Function.update_self]
      exact (hxs a ha).lt_or_eq.imp_right fun heq => ⟨heq, hearlier a ha⟩
    · exact hcross a ha b hb

theorem Sorted.put (h : Sorted s contents) {sortVal : Int} {xs ys : List E}
    (hsplit : without contents e this = xs ++ ys)
    (hxs : ∀ a ∈ xs, s.memory.sortField (.entry a) ≤ sortVal)
    (hys : ∀ b ∈ ys.head?, sortVal < s.memory.sortField (.entry b))
    (hconsistent : Consistent w' (Function.update (without contents e) this (xs ++ e :: ys)))
    (hsort : w'.sortField = Function.update s.memory.sortField (.entry e) sortVal)
    (hnew : newEntry c = some e) :
    Sorted (after s c (.success true) w')
      (Function.update (without contents e) this (xs ++ e :: ys)) := by
  have hafter : after s c (.success true) w' =
      ⟨w', s.calls + 1, Function.update s.insertedAt e s.calls⟩ := by
    rw [after, insertions, hnew, Option.elim_some]
  have hne : ∀ list, ∀ a ∈ without contents e list, a ≠ e :=
    fun list a ha => (h.consistent.mem_without.mp ha).1
  have hmem : ∀ list, ∀ a ∈ without contents e list, a ∈ contents list :=
    fun list a ha => List.mem_of_mem_erase ha
  have horder : ∀ list, (without contents e list).Pairwise (Before s) :=
    fun list => (h.order list).sublist List.erase_sublist
  have hthis := hne this
  have hearlier := fun a ha => h.earlier this a (hmem this a ha)
  have hold := horder this
  rw [hsplit] at hthis hearlier hold
  rw [hafter]
  refine ⟨hconsistent, ?_, ?_⟩
  · intro list
    by_cases hlist : list = this
    · rw [hlist, Function.update_self]
      exact pairwise_put hold hthis (fun a ha => hearlier a (List.mem_append_left ys ha)) hxs hys
        hsort
    · rw [Function.update_of_ne hlist]
      exact (horder list).imp_of_mem fun ha hb hbefore =>
        (before_put hsort (hne list _ ha) (hne list _ hb)).mpr hbefore
  · intro list a ha
    dsimp only
    rcases (mem_update_cons hsplit list a).mp ha with ⟨hae, _⟩ | hmem'
    · rw [hae, Function.update_self]
      exact Nat.lt_succ_self s.calls
    · rw [Function.update_of_ne (hne list a hmem')]
      exact Nat.lt_succ_of_lt (h.earlier list a (hmem list a hmem'))

end Steps

section Calls

variable [DecidableEq L] [DecidableEq E] {s : State L E} {contents : L → List E} {this : L} {e : E}

theorem outcome_false (h : Sorted s contents) {c : Call L E}
    (hcall : ∀ fuel, call fuel s.memory c = some (.success false, s.memory))
    (hinsert : ∀ this e sortVal, c ≠ .insert this (some e) sortVal) :
    Outcome s c (.success false) s.memory where
  returns := ⟨0, fun fuel _ => hcall fuel⟩
  sorted := ⟨contents, h.skip⟩
  unchanged := fun _ => rfl
  inserted := fun this e sortVal heq => absurd heq (hinsert this e sortVal)

theorem outcome_insert (h : Sorted s contents) {sortVal : Int}
    (hallowed : Allowed s.memory (.insert this (some e) sortVal)) :
    ∃ w', Outcome s (.insert this (some e) sortVal) (.success true) w' := by
  obtain ⟨hvalue, hroom⟩ := hallowed
  have hnonneg : without contents e this = [] → 0 ≤ sortVal := by
    intro hnil
    by_contra hneg
    obtain ⟨a, ha, hcurrent⟩ := hvalue (Int.not_le.mp hneg)
    have hmem := (h.consistent.mem_without (e := e)).mpr
      ⟨ha, (h.consistent.currentList this a).mp hcurrent⟩
    rw [hnil] at hmem
    cases hmem
  obtain ⟨w', xs, ys, hinsert, hsplit, hxs, hys, hconsistent, hsort⟩ :=
    insert_eq h.consistent hnonneg (hroom.length h.consistent)
  refine ⟨w', ?_, ⟨_, h.put hsplit hxs hys hconsistent hsort rfl⟩, ?_, ?_⟩
  · refine ⟨(contents this).length + 1, fun fuel hfuel => ?_⟩
    change (insert s.memory this fuel (some (.entry e)) sortVal).map _ = _
    rw [hinsert fuel hfuel]
    rfl
  · rintro ⟨⟩
  · intro list a value hcall
    obtain ⟨rfl, heq, rfl⟩ := Call.insert.inj hcall
    obtain rfl := Option.some.inj heq
    refine ⟨rfl, ?_, ?_⟩
    · rw [hconsistent.currentList, Function.update_self]
      exact List.mem_append_right xs List.mem_cons_self
    · rw [hsort, Function.update_self]

theorem outcome_appended (h : Sorted s contents) {c : Call L E} {sortVal : Int}
    (hnew : newEntry c = some e)
    (hcall : ∀ fuel, call fuel s.memory c =
      (append s.memory this (some (.entry e)) sortVal).map (Prod.map .success id))
    (hinsert : ∀ this e sortVal, c ≠ .insert this (some e) sortVal)
    (hle : ¬sortVal < s.memory.sortField (left (headAndTail this) ((contents this).map .entry)))
    (hroom : Room s.memory this e) :
    ∃ w', Outcome s c (.success true) w' := by
  obtain ⟨w', happend, hconsistent, hsort⟩ := append_eq h.consistent
    (h.consistent.prev_headAndTail this) hle (hroom.length h.consistent)
  refine ⟨w', ?_, ⟨_, h.put (List.append_nil _).symm ?_ ?_ hconsistent hsort hnew⟩, ?_, ?_⟩
  · refine ⟨0, fun fuel _ => ?_⟩
    rw [hcall, happend]
    rfl
  · intro a ha
    exact (h.le_last (List.mem_of_mem_erase ha)).trans (Int.not_lt.mp hle)
  · rintro b ⟨⟩
  · rintro ⟨⟩
  · exact fun list a value heq => absurd heq (hinsert list a value)

theorem outcome_append (h : Sorted s contents) {sortVal : Int}
    (hallowed : Allowed s.memory (.append this (some e) sortVal)) :
    ∃ answer w', Outcome s (.append this (some e) sortVal) answer w' := by
  have hlast := h.consistent.prev_headAndTail this
  by_cases hlt : sortVal < s.memory.sortField (left (headAndTail this) ((contents this).map .entry))
  · refine ⟨_, _, outcome_false h (fun fuel => ?_) (by rintro _ _ _ ⟨⟩)⟩
    change (append s.memory this (some (.entry e)) sortVal).map _ = _
    rw [append_eq_false hlast hlt]
    rfl
  · exact ⟨_, outcome_appended h rfl (fun fuel => rfl) (by rintro _ _ _ ⟨⟩) hlt
      (hallowed _ hlast (Int.not_lt.mp hlt))⟩

theorem outcome_appendForce (h : Sorted s contents) {sortVal : Int}
    (hallowed : Allowed s.memory (.appendForce this (some e) sortVal)) :
    ∃ answer w', Outcome s (.appendForce this (some e) sortVal) answer w' := by
  refine ⟨_, outcome_appended h rfl (fun fuel => ?_) (by rintro _ _ _ ⟨⟩)
    (Int.not_lt.mpr (le_max_right sortVal _)) hallowed⟩
  change (appendForce s.memory this (some (.entry e)) sortVal).map _ = _
  rw [appendForce_eq (h.consistent.prev_headAndTail this)]

theorem outcome_remove (h : Sorted s contents) :
    ∃ answer w', Outcome s (.remove this (some e)) answer w' := by
  by_cases hcurrent : s.memory.currentList (.entry e) = some this
  · obtain ⟨w', hremove, hconsistent, hsort⟩ :=
      remove_eq h.consistent ((h.consistent.currentList this e).mp hcurrent)
    refine ⟨.success true, w', ?_, ⟨_, h.remove hconsistent hsort⟩, ?_, ?_⟩
    · refine ⟨0, fun fuel _ => ?_⟩
      change (remove s.memory this (some (.entry e))).map _ = _
      rw [hremove]
      rfl
    · rintro ⟨⟩
    · rintro _ _ _ ⟨⟩
  · refine ⟨_, _, outcome_false h (fun fuel => ?_) (by rintro _ _ _ ⟨⟩)⟩
    change (remove s.memory this (some (.entry e))).map _ = _
    rw [remove_eq_false (by rintro _ ⟨⟩; exact hcurrent)]
    rfl

theorem outcome_getAndRemoveTheFirst (h : Sorted s contents) :
    ∃ answer w', Outcome s (.getAndRemoveTheFirst this) answer w' := by
  have hfirst := @getFirst_eq L E _ _ _ _ this h.consistent
  have hcall : ∀ fuel, call fuel s.memory (.getAndRemoveTheFirst this) =
      ((remove s.memory this (getFirst s.memory this)).bind fun r =>
        some (getFirst s.memory this, r.2)).map (Prod.map .first id) := fun _ => rfl
  cases hthis : contents this with
  | nil =>
    rw [hthis] at hfirst
    refine ⟨.first none, s.memory, ⟨0, fun fuel _ => ?_⟩, ⟨contents, h.skip⟩, ?_, ?_⟩
    · rw [hcall, hfirst]
      rfl
    · rintro ⟨⟩
    · rintro _ _ _ ⟨⟩
  | cons a l =>
    rw [hthis] at hfirst
    obtain ⟨w', hremove, hconsistent, hsort⟩ :=
      remove_eq h.consistent (show a ∈ contents this by rw [hthis]; exact List.mem_cons_self)
    refine ⟨.first (some (.entry a)), w', ⟨0, fun fuel _ => ?_⟩,
      ⟨_, h.remove hconsistent hsort⟩, ?_, ?_⟩
    · rw [hcall, hfirst]
      change ((remove s.memory this (some (.entry a))).bind _).map _ = _
      rw [hremove]
      rfl
    · rintro ⟨⟩
    · rintro _ _ _ ⟨⟩

theorem outcome (h : Sorted s contents) {c : Call L E} (hallowed : Allowed s.memory c) :
    ∃ answer w', Outcome s c answer w' := by
  have hnull : ∀ this sortVal fuel, call fuel s.memory (.appendForce this none sortVal) =
      some (.success false, s.memory) := by
    intro this sortVal fuel
    change (appendForce s.memory this none sortVal).map _ = _
    rw [appendForce_eq (h.consistent.prev_headAndTail this)]
    rfl
  cases c with
  | insert this newEntry sortVal =>
    cases newEntry with
    | none => exact ⟨_, _, outcome_false h (fun fuel => rfl) (by rintro _ _ _ ⟨⟩)⟩
    | some e => exact ⟨_, outcome_insert h hallowed⟩
  | append this newEntry sortVal =>
    cases newEntry with
    | none => exact ⟨_, _, outcome_false h (fun fuel => rfl) (by rintro _ _ _ ⟨⟩)⟩
    | some e => exact outcome_append h hallowed
  | appendForce this newEntry sortVal =>
    cases newEntry with
    | none => exact ⟨_, _, outcome_false h (hnull this sortVal) (by rintro _ _ _ ⟨⟩)⟩
    | some e => exact outcome_appendForce h hallowed
  | remove this entry =>
    cases entry with
    | none => exact ⟨_, _, outcome_false h (fun fuel => rfl) (by rintro _ _ _ ⟨⟩)⟩
    | some e => exact outcome_remove h
  | getAndRemoveTheFirst this => exact outcome_getAndRemoveTheFirst h

theorem Returns.unique {w : Memory L E} {c : Call L E} {answer answer' : Answer L E}
    {w₁ w₂ : Memory L E} (h₁ : Returns w c answer w₁) (h₂ : Returns w c answer' w₂) :
    answer = answer' ∧ w₁ = w₂ := by
  obtain ⟨n₁, h₁⟩ := h₁
  obtain ⟨n₂, h₂⟩ := h₂
  have heq := (h₁ (max n₁ n₂) (le_max_left n₁ n₂)).symm.trans (h₂ (max n₁ n₂) (le_max_right n₁ n₂))
  exact Prod.mk.inj (Option.some.inj heq)

theorem Run.sorted (h : Run s) : ∃ contents, Sorted s contents := by
  induction h with
  | start => exact ⟨_, sorted_initial⟩
  | step _ hallowed hreturns ih =>
    obtain ⟨contents, hsorted⟩ := ih
    obtain ⟨answer, w', houtcome⟩ := outcome hsorted hallowed
    obtain ⟨rfl, rfl⟩ := hreturns.unique houtcome.returns
    exact houtcome.sorted

/-- The lists are rings in the order of the values, first come first served. -/
theorem run_sortedList (h : Run s) :
    (∃ contents, Consistent s.memory contents ∧
      ∀ list, (contents list).Pairwise (Before s)) ∧
    ∀ c, Allowed s.memory c →
      (∃ answer w', Returns s.memory c answer w') ∧
      ∀ answer w', Returns s.memory c answer w' →
        (answer = .success false → w' = s.memory) ∧
        ∀ this e sortVal, c = .insert this (some e) sortVal →
          w'.currentList (.entry e) = some this ∧ w'.sortField (.entry e) = sortVal := by
  obtain ⟨contents, hsorted⟩ := h.sorted
  refine ⟨⟨contents, hsorted.consistent, hsorted.order⟩, fun c hallowed => ?_⟩
  obtain ⟨answer, w', houtcome⟩ := outcome hsorted hallowed
  refine ⟨⟨answer, w', houtcome.returns⟩, fun answer' w'' hreturns => ?_⟩
  obtain ⟨rfl, rfl⟩ := hreturns.unique houtcome.returns
  exact ⟨houtcome.unchanged, fun this e sortVal hcall =>
    (houtcome.inserted this e sortVal hcall).2⟩

end Calls

/-- The first entry of a list. -/
theorem run_sortedList_first : ∃ answer w',
    Returns (initial : Memory Unit Unit) (.insert () (some ()) 5) answer w' ∧
      w'.sortField (.entry ()) = 5 := by
  obtain ⟨⟨answer, w', hreturns⟩, hall⟩ :=
    (run_sortedList (Run.start (L := Unit) (E := Unit))).2 (.insert () (some ()) 5)
      ⟨fun hneg => absurd hneg (by decide), .inr (by decide)⟩
  exact ⟨answer, w', hreturns, ((hall answer w' hreturns).2 () () 5 rfl).2⟩

/-- The value of the empty list's own node is taken for that of a last entry. -/
theorem insert_negative : ¬∀ (s : State Unit Unit) (answer : Answer Unit Unit)
    (w' : Memory Unit Unit) (sortVal : Int), Run s →
      Returns s.memory (.insert () (some ()) sortVal) answer w' →
        w'.sortField (.entry ()) = sortVal := by
  intro h
  have hreturns : Returns (initial : Memory Unit Unit) (.insert () (some ()) (-5)) _ _ :=
    ⟨1, fun fuel hfuel => by
      obtain ⟨fuel, rfl⟩ := Nat.exists_eq_succ_of_ne_zero (Nat.ne_of_gt hfuel)
      rfl⟩
  exact absurd (h _ _ _ (-5) .start hreturns) (by decide)

end Rodos.SortedListRuns
