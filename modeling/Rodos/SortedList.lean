import Rodos.DoublyLinked
import Rodos.MachineInt

namespace Rodos.SortedList

open DoublyLinked MachineInt

/-- What a `SortedChainable` pointer points to: the node that a list has in itself or
another one. -/
inductive Chainable (L E : Type)
  | headAndTail (list : L)
  | entry (e : E)
  deriving DecidableEq

open Chainable (headAndTail)

/-- The objects, with one function for each field. -/
structure Memory (L E : Type) where
  sortField : Chainable L E → Int
  currentList : Chainable L E → Option L
  links : Links (Chainable L E)
  numberOfElements : L → Int

variable {L E : Type}

namespace Memory

variable [DecidableEq L] [DecidableEq E] (w : Memory L E)

def setSortField (p : Chainable L E) (value : Int) : Memory L E :=
  { w with sortField := Function.update w.sortField p value }

def setCurrentList (p : Chainable L E) (list : Option L) : Memory L E :=
  { w with currentList := Function.update w.currentList p list }

def setNext (p : Chainable L E) (q : Option (Chainable L E)) : Memory L E :=
  { w with links := ⟨Function.update w.links.next p q, w.links.prev⟩ }

def setPrev (p : Chainable L E) (q : Option (Chainable L E)) : Memory L E :=
  { w with links := ⟨w.links.next, Function.update w.links.prev p q⟩ }

def setNumberOfElements (list : L) (n : Int) : Memory L E :=
  { w with numberOfElements := Function.update w.numberOfElements list (int32 n) }

end Memory

section Functions

variable [DecidableEq L] [DecidableEq E] (w : Memory L E) (this : L)

def getFirst : Option (Chainable L E) :=
  if w.links.next (headAndTail this) = some (headAndTail this) then none
  else w.links.next (headAndTail this)

/-- A pointer to an object that is not there stops the program. -/
def remove : Option (Chainable L E) → Option (Bool × Memory L E)
  | none => some (false, w)
  | some entry =>
    if w.currentList entry ≠ some this then some (false, w)
    else if entry = headAndTail this then some (false, w)
    else do
      let w := w.setCurrentList entry none
      let next ← w.links.next entry
      let w := w.setPrev next (w.links.prev entry)
      let prev ← w.links.prev entry
      let w := w.setNext prev (w.links.next entry)
      some (true, w.setNumberOfElements this (w.numberOfElements this - 1))

def insertBefore (beforeThis newEntry : Chainable L E) : Option (Memory L E) := do
  let w := w.setNext newEntry (some beforeThis)
  let w := w.setPrev newEntry (w.links.prev beforeThis)
  let w := w.setCurrentList newEntry (some this)
  let prev ← w.links.prev beforeThis
  let w := w.setNext prev (some newEntry)
  let w := w.setPrev beforeThis (some newEntry)
  some (w.setNumberOfElements this (w.numberOfElements this + 1))

def leave (newEntry : Chainable L E) : Option (Memory L E) :=
  match w.currentList newEntry with
  | none => some w
  | some list => do
    let (_, w) ← remove w list (some newEntry)
    some w

def append (newEntry : Option (Chainable L E)) (sortVal : Int) : Option (Bool × Memory L E) :=
  match newEntry with
  | none => some (false, w)
  | some newEntry =>
    if newEntry = headAndTail this then some (false, w)
    else do
      let last ← w.links.prev (headAndTail this)
      if sortVal < w.sortField last then some (false, w)
      else do
        let w ← leave w newEntry
        let w := w.setCurrentList newEntry (some this)
        let w := w.setSortField newEntry sortVal
        let w ← insertBefore w this (headAndTail this) newEntry
        some (true, w)

def appendForce (newEntry : Option (Chainable L E)) (sortVal : Int) :
    Option (Bool × Memory L E) := do
  let last ← w.links.prev (headAndTail this)
  if sortVal < w.sortField last then append w this newEntry (w.sortField last)
  else append w this newEntry sortVal

/-- The loop of `insert`, for at most the given number of iterations. -/
def findLater (sortVal : Int) : Nat → Option (Chainable L E) → Option (Option (Chainable L E))
  | 0, _ => none
  | _ + 1, none => some none
  | fuel + 1, some iter =>
    if iter = headAndTail this then some none
    else if sortVal < w.sortField iter then some (some iter)
    else findLater sortVal fuel (w.links.next iter)

/-- What `insert` does with an entry that is in no list. -/
def place (fuel : Nat) (newEntry : Chainable L E) (sortVal : Int) :
    Option (Bool × Memory L E) := do
  match ← findLater w this sortVal fuel (getFirst w this) with
  | some iter => do
    let w ← insertBefore w this iter newEntry
    some (true, w)
  | none => do
    let (_, w) ← appendForce w this (some newEntry) sortVal
    some (true, w)

def insert (fuel : Nat) (newEntry : Option (Chainable L E)) (sortVal : Int) :
    Option (Bool × Memory L E) :=
  match newEntry with
  | none => some (false, w)
  | some newEntry =>
    if newEntry = headAndTail this then some (false, w)
    else do
      let w ← leave w newEntry
      let w := w.setSortField newEntry sortVal
      place w this fuel newEntry sortVal

def getAndRemoveTheFirst : Option (Option (Chainable L E) × Memory L E) := do
  let entry := getFirst w this
  let (_, w) ← remove w this entry
  some (entry, w)

end Functions

inductive Call (L E : Type)
  | insert (this : L) (newEntry : Option E) (sortVal : Int)
  | append (this : L) (newEntry : Option E) (sortVal : Int)
  | appendForce (this : L) (newEntry : Option E) (sortVal : Int)
  | remove (this : L) (entry : Option E)
  | getAndRemoveTheFirst (this : L)

inductive Answer (L E : Type)
  | success (ok : Bool)
  | first (entry : Option (Chainable L E))

def call [DecidableEq L] [DecidableEq E] (fuel : Nat) (w : Memory L E) :
    Call L E → Option (Answer L E × Memory L E)
  | .insert this newEntry sortVal =>
    (insert w this fuel (newEntry.map .entry) sortVal).map (Prod.map .success id)
  | .append this newEntry sortVal =>
    (append w this (newEntry.map .entry) sortVal).map (Prod.map .success id)
  | .appendForce this newEntry sortVal =>
    (appendForce w this (newEntry.map .entry) sortVal).map (Prod.map .success id)
  | .remove this e => (remove w this (e.map .entry)).map (Prod.map .success id)
  | .getAndRemoveTheFirst this => (getAndRemoveTheFirst w this).map (Prod.map .first id)

/-- The constructor of each list and `init` of each entry have run. -/
def initial : Memory L E where
  sortField _ := 0
  currentList _ := none
  links :=
    { next := fun
        | headAndTail list => some (headAndTail list)
        | .entry _ => none
      prev := fun
        | headAndTail list => some (headAndTail list)
        | .entry _ => none }
  numberOfElements _ := 0

/-- These are the entries of the lists. -/
structure Consistent (w : Memory L E) (contents : L → List E) : Prop where
  ring : ∀ list, Ring w.links (headAndTail list) ((contents list).map .entry)
  nodup : ∀ list, (contents list).Nodup
  currentList : ∀ list e, w.currentList (.entry e) = some list ↔ e ∈ contents list
  number : ∀ list, w.numberOfElements list = (contents list).length
  fits : ∀ list, (contents list).length < 2 ^ 31
  sentinel : ∀ list, w.sortField (headAndTail list) = 0

def without [DecidableEq E] (contents : L → List E) (e : E) : L → List E :=
  fun list => (contents list).erase e

section Contents

variable {w : Memory L E} {contents : L → List E} {this : L} {e : E}

theorem int32_natCast {n : Nat} (h : n < 2 ^ 31) : int32 n = n :=
  int32_eq (by omega) (by omega)

theorem Consistent.nodup_ring (h : Consistent w contents) (list : L) :
    (headAndTail list :: (contents list).map Chainable.entry).Nodup := by
  rw [List.nodup_cons]
  constructor
  · intro hmem
    obtain ⟨e, _, heq⟩ := List.mem_map.mp hmem
    cases heq
  · exact (h.nodup list).map fun a b heq => Chainable.entry.inj heq

def NodeOf (contents : L → List E) (list : L) (p : Chainable L E) : Prop :=
  p ∈ headAndTail list :: (contents list).map Chainable.entry

theorem left_nodeOf {xs ys : List E} (hsplit : contents this = xs ++ ys) :
    NodeOf contents this (left (headAndTail this) (xs.map Chainable.entry)) := by
  rw [NodeOf, hsplit, List.map_append]
  exact List.mem_cons.mpr (left_eq_or_mem.imp_right (List.mem_append_left _))

theorem right_nodeOf {xs ys : List E} (hsplit : contents this = xs ++ ys) :
    NodeOf contents this (right (headAndTail this) (ys.map Chainable.entry)) := by
  rw [NodeOf, hsplit, List.map_append]
  exact List.mem_cons.mpr (right_eq_or_mem.imp_right (List.mem_append_right _))

theorem nodeOf_entry : NodeOf contents this (.entry e) ↔ e ∈ contents this := by
  rw [NodeOf, List.mem_cons, List.mem_map]
  constructor
  · rintro (heq | ⟨a, ha, heq⟩)
    · cases heq
    · rwa [← Chainable.entry.inj heq]
  · exact fun he => .inr ⟨e, he, rfl⟩

theorem NodeOf.ne_entry {p : Chainable L E} (hp : NodeOf contents this p)
    (hfree : e ∉ contents this) : p ≠ .entry e := by
  rintro rfl
  exact hfree (nodeOf_entry.mp hp)

theorem Consistent.apart (h : Consistent w contents) {list : L} (hne : list ≠ this)
    {p : Chainable L E} (hp : NodeOf contents this p) : ¬NodeOf contents list p := by
  intro hlist
  cases p with
  | headAndTail owner =>
    rw [NodeOf, List.mem_cons] at hp hlist
    have hthis : owner = this := by
      simpa using hp
    have howner : owner = list := by
      simpa using hlist
    exact hne (howner.symm.trans hthis)
  | entry a =>
    have hthis := (h.currentList this a).mpr (nodeOf_entry.mp hp)
    rw [(h.currentList list a).mpr (nodeOf_entry.mp hlist)] at hthis
    exact hne (Option.some.inj hthis)

theorem without_of_notMem [DecidableEq E] (h : ∀ list, e ∉ contents list) :
    without contents e = contents := by
  funext list
  exact List.erase_of_not_mem (h list)

theorem Consistent.mem_without [DecidableEq E] (h : Consistent w contents) {a : E} {list : L} :
    a ∈ without contents e list ↔ a ≠ e ∧ a ∈ contents list :=
  (h.nodup list).mem_erase_iff

theorem Consistent.notMem_without [DecidableEq E] (h : Consistent w contents) (list : L) :
    e ∉ without contents e list :=
  fun hmem => (h.mem_without.mp hmem).1 rfl

theorem Consistent.notMem_of_ne (h : Consistent w contents) (he : e ∈ contents this) {list : L}
    (hne : list ≠ this) : e ∉ contents list := by
  exact fun hmem => h.apart hne (nodeOf_entry.mpr he) (nodeOf_entry.mpr hmem)

theorem Consistent.prev_headAndTail (h : Consistent w contents) (this : L) :
    w.links.prev (headAndTail this) =
      some (left (headAndTail this) ((contents this).map .entry)) :=
  (h.ring this).prev_head

/-- A value that no entry exceeds is not less than that of the last node, unless the list
is empty. -/
theorem Consistent.not_lt_last (h : Consistent w contents) {sortVal : Int}
    (hvalue : contents this = [] → 0 ≤ sortVal)
    (hle : ∀ a ∈ contents this, w.sortField (.entry a) ≤ sortVal) :
    ¬sortVal < w.sortField (left (headAndTail this) ((contents this).map .entry)) := by
  rcases List.eq_nil_or_concat' (contents this) with hnil | ⟨xs, a, hconcat⟩
  · rw [hnil, List.map_nil, left_nil, h.sentinel this]
    exact Int.not_lt.mpr (hvalue hnil)
  · rw [hconcat, List.map_append, List.map_singleton, left_concat]
    exact Int.not_lt.mpr (hle a (hconcat ▸ List.mem_append_right xs (List.mem_singleton_self a)))

end Contents

section Calls

variable [DecidableEq L] [DecidableEq E] {w : Memory L E} {contents : L → List E} {this : L} {e : E}

section Remove

theorem remove_eq_false {p : Option (Chainable L E)}
    (h : ∀ entry ∈ p, w.currentList entry ≠ some this) : remove w this p = some (false, w) := by
  cases p with
  | none => rfl
  | some entry => exact if_pos (h entry rfl)

def removed (w : Memory L E) (this : L) (e : E) (prev next : Chainable L E) : Memory L E where
  sortField := w.sortField
  currentList := Function.update w.currentList (.entry e) none
  links := w.links.join prev next
  numberOfElements :=
    Function.update w.numberOfElements this (int32 (w.numberOfElements this - 1))

theorem remove_eq_removed (hcurrent : w.currentList (.entry e) = some this)
    {prev next : Chainable L E} (hprev : w.links.prev (.entry e) = some prev)
    (hnext : w.links.next (.entry e) = some next) :
    remove w this (some (.entry e)) = some (true, removed w this e prev next) := by
  rw [remove]
  dsimp only
  rw [if_neg (not_not.mpr hcurrent), if_neg (by rintro ⟨⟩)]
  simp only [Memory.setCurrentList, Memory.setPrev, Memory.setNext, Memory.setNumberOfElements,
    hnext, hprev, Option.bind_eq_bind, Option.bind_some, Function.update_apply, ite_self]
  rfl

theorem Consistent.removed (h : Consistent w contents) {xs ys : List E}
    (hsplit : contents this = xs ++ e :: ys)
    (hring : Ring (w.links.join (left (headAndTail this) (xs.map Chainable.entry))
      (right (headAndTail this) (ys.map Chainable.entry))) (headAndTail this)
        (xs.map Chainable.entry ++ ys.map Chainable.entry)) :
    Consistent (removed w this e (left (headAndTail this) (xs.map Chainable.entry))
      (right (headAndTail this) (ys.map Chainable.entry))) (without contents e) := by
  have he : e ∈ contents this := hsplit ▸ List.mem_append_right xs List.mem_cons_self
  have hthis : without contents e this = xs ++ ys := by
    have hxs := h.nodup this
    rw [hsplit, List.nodup_append] at hxs
    rw [without, hsplit, List.erase_append_right, List.erase_cons_head]
    exact fun hmem => hxs.2.2 e hmem e List.mem_cons_self rfl
  have hother : ∀ list, list ≠ this → without contents e list = contents list :=
    fun list hne => List.erase_of_not_mem (h.notMem_of_ne he hne)
  constructor
  · intro list
    by_cases hlist : list = this
    · rw [hlist, hthis, List.map_append]
      exact hring
    · rw [hother list hlist]
      exact Ring.frame (h.ring list) (h.apart hlist (left_nodeOf hsplit))
        (h.apart hlist (right_nodeOf (hsplit.trans (List.append_cons xs e ys))))
  · intro list
    exact (h.nodup list).erase e
  · intro list a
    rw [h.mem_without, ← h.currentList list a]
    dsimp only [SortedList.removed]
    by_cases ha : a = e
    · rw [ha, Function.update_self]
      exact iff_of_false (by rintro ⟨⟩) (fun hmem => hmem.1 rfl)
    · rw [Function.update_of_ne (fun heq => ha (Chainable.entry.inj heq))]
      exact (and_iff_right ha).symm
  · intro list
    dsimp only [SortedList.removed]
    by_cases hlist : list = this
    · have hfits := h.fits this
      rw [hsplit, List.length_append, List.length_cons] at hfits
      rw [hlist, Function.update_self, h.number this, hthis, hsplit,
        ← int32_natCast (show (xs ++ ys).length < 2 ^ 31 by rw [List.length_append]; omega)]
      congr 1
      rw [List.length_append, List.length_append, List.length_cons]
      omega
    · rw [Function.update_of_ne hlist, hother list hlist, h.number list]
  · intro list
    exact Nat.lt_of_le_of_lt List.length_erase_le (h.fits list)
  · exact h.sentinel

theorem remove_eq (h : Consistent w contents) (he : e ∈ contents this) :
    ∃ w', remove w this (some (.entry e)) = some (true, w') ∧
      Consistent w' (without contents e) ∧ w'.sortField = w.sortField := by
  obtain ⟨xs, ys, hsplit⟩ := List.append_of_mem he
  have hnodup := h.nodup_ring this
  have hring := h.ring this
  rw [hsplit, List.map_append, List.map_cons] at hnodup hring
  obtain ⟨hprev, hnext, hring⟩ := Ring.remove hnodup hring
  have hcurrent := (h.currentList this e).mpr he
  exact ⟨_, remove_eq_removed hcurrent hprev hnext, h.removed hsplit hring, rfl⟩

end Remove

section Insert

def inserted (w : Memory L E) (this : L) (e : E) (prev next : Chainable L E) : Memory L E where
  sortField := w.sortField
  currentList := Function.update w.currentList (.entry e) (some this)
  links := (w.links.join prev (.entry e)).join (.entry e) next
  numberOfElements :=
    Function.update w.numberOfElements this (int32 (w.numberOfElements this + 1))

theorem insertBefore_eq {prev next : Chainable L E} (hprev : w.links.prev next = some prev)
    (hne : prev ≠ .entry e) (hne' : next ≠ .entry e) :
    insertBefore w this next (.entry e) = some (inserted w this e prev next) := by
  rw [insertBefore]
  simp only [Memory.setCurrentList, Memory.setPrev, Memory.setNext, Memory.setNumberOfElements,
    hprev, Option.bind_eq_bind, Option.bind_some, Function.update_of_ne hne']
  unfold inserted Links.join
  dsimp only
  rw [Function.update_comm hne]

omit [DecidableEq E] in
theorem mem_update_cons {xs ys : List E} (hsplit : contents this = xs ++ ys)
    (list : L) (a : E) : a ∈ Function.update contents this (xs ++ e :: ys) list ↔
      a = e ∧ list = this ∨ a ∈ contents list := by
  by_cases hlist : list = this
  · rw [hlist, Function.update_self, hsplit, List.mem_append, List.mem_append, List.mem_cons]
    simp only [and_true]
    exact or_left_comm
  · rw [Function.update_of_ne hlist]
    simp only [hlist, and_false, false_or]

theorem Consistent.ring_inserted (h : Consistent w contents) {xs ys : List E}
    (hsplit : contents this = xs ++ ys) (hfree : ∀ list, e ∉ contents list) (list : L) :
    Ring (inserted w this e (left (headAndTail this) (xs.map Chainable.entry))
      (right (headAndTail this) (ys.map Chainable.entry))).links (headAndTail list)
        ((Function.update contents this (xs ++ e :: ys) list).map Chainable.entry) := by
  have hfree' : ∀ list, ¬NodeOf contents list (.entry e) :=
    fun list hnode => hfree list (nodeOf_entry.mp hnode)
  by_cases hlist : list = this
  · have hnodup := h.nodup_ring this
    have hring := h.ring this
    have hentry := hfree' this
    rw [NodeOf] at hentry
    rw [hsplit, List.map_append] at hnodup hring hentry
    rw [hlist, Function.update_self, List.map_append, List.map_cons]
    exact Ring.insert hnodup hring hentry
  · rw [Function.update_of_ne hlist]
    exact Ring.frame
      (Ring.frame (h.ring list) (h.apart hlist (left_nodeOf hsplit)) (hfree' list))
      (hfree' list) (h.apart hlist (right_nodeOf hsplit))

theorem Consistent.inserted (h : Consistent w contents) {xs ys : List E}
    (hsplit : contents this = xs ++ ys) (hfree : ∀ list, e ∉ contents list)
    (hroom : (contents this).length + 1 < 2 ^ 31) :
    Consistent (inserted w this e (left (headAndTail this) (xs.map Chainable.entry))
      (right (headAndTail this) (ys.map Chainable.entry)))
      (Function.update contents this (xs ++ e :: ys)) := by
  have hlength : (xs ++ e :: ys).length = (contents this).length + 1 := by
    rw [hsplit, List.length_append, List.length_append, List.length_cons, Nat.add_assoc]
  constructor
  · exact h.ring_inserted hsplit hfree
  · intro list
    by_cases hlist : list = this
    · rw [hlist, Function.update_self, List.nodup_middle, List.nodup_cons, ← hsplit]
      exact ⟨hfree this, h.nodup this⟩
    · rw [Function.update_of_ne hlist]
      exact h.nodup list
  · intro list a
    rw [mem_update_cons hsplit]
    dsimp only [SortedList.inserted]
    by_cases ha : a = e
    · rw [ha, Function.update_self, Option.some.injEq]
      simp only [hfree list, true_and, or_false]
      exact eq_comm
    · rw [Function.update_of_ne (fun heq => ha (Chainable.entry.inj heq)), h.currentList list a]
      simp only [ha, false_and, false_or]
  · intro list
    dsimp only [SortedList.inserted]
    by_cases hlist : list = this
    · rw [hlist, Function.update_self, Function.update_self, h.number this, hlength,
        ← int32_natCast hroom]
      rfl
    · rw [Function.update_of_ne hlist, Function.update_of_ne hlist, h.number list]
  · intro list
    by_cases hlist : list = this
    · rw [hlist, Function.update_self, hlength]
      exact hroom
    · rw [Function.update_of_ne hlist]
      exact h.fits list
  · exact h.sentinel

theorem Consistent.setSortField (h : Consistent w contents) (sortVal : Int) :
    Consistent (w.setSortField (.entry e) sortVal) contents where
  ring := h.ring
  nodup := h.nodup
  currentList := h.currentList
  number := h.number
  fits := h.fits
  sentinel := by
    intro list
    dsimp only [Memory.setSortField]
    rw [Function.update_of_ne (by rintro ⟨⟩)]
    exact h.sentinel list

theorem insertBefore_spec (h : Consistent w contents) {xs ys : List E}
    (hsplit : contents this = xs ++ ys) (hfree : ∀ list, e ∉ contents list)
    (hroom : (contents this).length + 1 < 2 ^ 31) :
    ∃ w', insertBefore w this (right (headAndTail this) (ys.map Chainable.entry)) (.entry e) =
        some w' ∧
      Consistent w' (Function.update contents this (xs ++ e :: ys)) ∧
      w'.sortField = w.sortField := by
  have hring := h.ring this
  rw [hsplit, List.map_append, ring_append] at hring
  exact ⟨_, insertBefore_eq hring.2.1.2 ((left_nodeOf hsplit).ne_entry (hfree this))
    ((right_nodeOf hsplit).ne_entry (hfree this)), h.inserted hsplit hfree hroom, rfl⟩

/-- What the field says before does not matter. -/
theorem insertBefore_setCurrentList (beforeThis : Chainable L E) (list : Option L) :
    insertBefore (w.setCurrentList (.entry e) list) this beforeThis (.entry e) =
      insertBefore w this beforeThis (.entry e) := by
  unfold insertBefore
  simp only [Memory.setCurrentList, Memory.setPrev, Memory.setNext, Memory.setNumberOfElements,
    Function.update_idem]

theorem leave_eq (h : Consistent w contents) :
    ∃ w', leave w (.entry e) = some w' ∧ Consistent w' (without contents e) ∧
      w'.sortField = w.sortField := by
  rw [leave]
  cases hcurrent : w.currentList (.entry e) with
  | none =>
    refine ⟨w, rfl, ?_, rfl⟩
    rw [without_of_notMem]
    · exact h
    · intro list hmem
      rw [(h.currentList list e).mpr hmem] at hcurrent
      cases hcurrent
  | some list =>
    obtain ⟨w', hremove, hrest⟩ := remove_eq h ((h.currentList list e).mp hcurrent)
    refine ⟨w', ?_, hrest⟩
    dsimp only
    rw [hremove]
    rfl

end Insert

section Find

theorem getFirst_eq (h : Consistent w contents) :
    getFirst w this = (contents this).head?.map .entry := by
  have hnext := (h.ring this).next_head
  rw [getFirst]
  rw [hnext]
  cases contents this with
  | nil => exact if_pos rfl
  | cons a l =>
    refine if_neg ?_
    rintro ⟨⟩

theorem findLater_eq (h : Consistent w contents) (sortVal : Int) {xs ys : List E}
    (hsplit : contents this = xs ++ ys) {fuel : Nat} (hfuel : ys.length < fuel) :
    findLater w this sortVal fuel (some (right (headAndTail this) (ys.map Chainable.entry))) =
      some ((ys.find? fun e => decide (sortVal < w.sortField (.entry e))).map .entry) := by
  induction ys generalizing xs fuel with
  | nil =>
    obtain ⟨fuel, rfl⟩ := Nat.exists_eq_succ_of_ne_zero (Nat.ne_of_gt hfuel)
    exact if_pos rfl
  | cons a ys ih =>
    obtain ⟨fuel, rfl⟩ := Nat.exists_eq_succ_of_ne_zero (Nat.ne_of_gt (Nat.zero_lt_of_lt hfuel))
    have hring := h.ring this
    rw [hsplit, List.map_append, List.map_cons] at hring
    change findLater w this sortVal (fuel + 1) (some (.entry a)) = _
    rw [findLater, if_neg (by rintro ⟨⟩), List.find?_cons]
    by_cases hlater : sortVal < w.sortField (.entry a)
    · rw [if_pos hlater, decide_eq_true hlater]
      rfl
    · rw [if_neg hlater, decide_eq_false hlater, hring.next]
      exact ih (hsplit.trans (List.append_cons xs a ys)) (Nat.lt_of_succ_lt_succ hfuel)

theorem findLater_getFirst (h : Consistent w contents) (sortVal : Int) {fuel : Nat}
    (hfuel : (contents this).length < fuel) :
    findLater w this sortVal fuel (getFirst w this) =
      some (((contents this).find? fun e => decide (sortVal < w.sortField (.entry e))).map
        .entry) := by
  rw [getFirst_eq h]
  cases hthis : contents this with
  | nil =>
    obtain ⟨fuel, rfl⟩ := Nat.exists_eq_succ_of_ne_zero (Nat.ne_of_gt (Nat.zero_lt_of_lt hfuel))
    rfl
  | cons a l =>
    rw [hthis] at hfuel
    exact @findLater_eq L E _ _ w contents this h sortVal [] _ hthis fuel hfuel

end Find

section Append

theorem append_eq_false {last : Chainable L E} {sortVal : Int}
    (hlast : w.links.prev (headAndTail this) = some last) (hlt : sortVal < w.sortField last) :
    append w this (some (.entry e)) sortVal = some (false, w) := by
  rw [append]
  dsimp only
  rw [if_neg (by rintro ⟨⟩), hlast]
  exact if_pos hlt

theorem append_eq (h : Consistent w contents) {last : Chainable L E} {sortVal : Int}
    (hlast : w.links.prev (headAndTail this) = some last) (hle : ¬sortVal < w.sortField last)
    (hroom : (without contents e this).length + 1 < 2 ^ 31) :
    ∃ w', append w this (some (.entry e)) sortVal = some (true, w') ∧
      Consistent w'
        (Function.update (without contents e) this (without contents e this ++ [e])) ∧
      w'.sortField = Function.update w.sortField (.entry e) sortVal := by
  obtain ⟨w₁, hleave, hleft, hsort⟩ := leave_eq (e := e) h
  obtain ⟨w', hinsert, hconsistent, hsort'⟩ :=
    insertBefore_spec (hleft.setSortField (e := e) sortVal) (List.append_nil _).symm
      (fun list => h.notMem_without list) hroom
  change insertBefore (w₁.setSortField (.entry e) sortVal) this (headAndTail this) (.entry e) =
    some w' at hinsert
  refine ⟨w', ?_, hconsistent, ?_⟩
  · have hcomm : (w₁.setCurrentList (.entry e) (some this)).setSortField (.entry e) sortVal =
        (w₁.setSortField (.entry e) sortVal).setCurrentList (.entry e) (some this) := rfl
    rw [append]
    simp only [reduceCtorEq, if_false, hlast, Option.bind_eq_bind, Option.bind_some, if_neg hle,
      hleave, hcomm, insertBefore_setCurrentList, hinsert]
  · rw [hsort', Memory.setSortField, hsort]

theorem appendForce_eq {last : Chainable L E} {sortVal : Int} {p : Option (Chainable L E)}
    (hlast : w.links.prev (headAndTail this) = some last) :
    appendForce w this p sortVal = append w this p (max sortVal (w.sortField last)) := by
  rw [appendForce]
  simp only [hlast, Option.bind_eq_bind, Option.bind_some]
  split
  · rename_i hlt
    rw [max_eq_right hlt.le]
  · rename_i hle
    rw [max_eq_left (Int.not_lt.mp hle)]

theorem place_eq (h : Consistent w contents) (hfree : ∀ list, e ∉ contents list)
    (hvalue : contents this = [] → 0 ≤ w.sortField (.entry e))
    (hroom : (contents this).length + 1 < 2 ^ 31) :
    ∃ w' xs ys, (∀ fuel > (contents this).length,
        place w this fuel (.entry e) (w.sortField (.entry e)) = some (true, w')) ∧
      contents this = xs ++ ys ∧
      (∀ a ∈ xs, w.sortField (.entry a) ≤ w.sortField (.entry e)) ∧
      (∀ b ∈ ys.head?, w.sortField (.entry e) < w.sortField (.entry b)) ∧
      Consistent w' (Function.update contents this (xs ++ e :: ys)) ∧
      w'.sortField = w.sortField := by
  have hfind := @findLater_getFirst L E _ _ w contents this h (w.sortField (.entry e))
  cases hfound : (contents this).find? fun a =>
      decide (w.sortField (.entry e) < w.sortField (.entry a)) with
  | none =>
    have hle : ∀ a ∈ contents this, w.sortField (.entry a) ≤ w.sortField (.entry e) := by
      intro a ha
      have hfalse := Bool.eq_false_iff.mpr (List.find?_eq_none.mp hfound a ha)
      exact Int.not_lt.mp (of_decide_eq_false hfalse)
    have hlast := h.prev_headAndTail this
    have hnot := h.not_lt_last hvalue hle
    have hwithout := without_of_notMem hfree
    obtain ⟨w', happend, hconsistent, hsort⟩ := append_eq (e := e) h hlast hnot
      (by rw [hwithout]; exact hroom)
    refine ⟨w', contents this, [], ?_, (List.append_nil _).symm, hle, ?_, ?_, ?_⟩
    · intro fuel hfuel
      have hplace : place w this fuel (.entry e) (w.sortField (.entry e)) =
          (appendForce w this (some (.entry e)) (w.sortField (.entry e))).bind
            fun r => some (true, r.2) := by
        rw [place, hfind hfuel, hfound]
        rfl
      rw [hplace, appendForce_eq hlast, max_eq_left (Int.not_lt.mp hnot), happend]
      rfl
    · rintro b ⟨⟩
    · rwa [hwithout] at hconsistent
    · rw [hsort, Function.update_eq_self]
  | some b =>
    obtain ⟨hlater, xs, ys, hsplit, hbefore⟩ := List.find?_eq_some_iff_append.mp hfound
    obtain ⟨w', hinsert, hconsistent, hsort⟩ := insertBefore_spec h hsplit hfree hroom
    refine ⟨w', xs, b :: ys, ?_, hsplit, ?_, ?_, hconsistent, hsort⟩
    · intro fuel hfuel
      have hplace : place w this fuel (.entry e) (w.sortField (.entry e)) =
          (insertBefore w this (.entry b) (.entry e)).bind fun w => some (true, w) := by
        rw [place, hfind hfuel, hfound]
        rfl
      change insertBefore w this (.entry b) (.entry e) = _ at hinsert
      rw [hplace, hinsert]
      rfl
    · intro a ha
      have hnot := hbefore a ha
      rw [Bool.not_eq_true'] at hnot
      exact Int.not_lt.mp (of_decide_eq_false hnot)
    · rintro c ⟨⟩
      exact of_decide_eq_true hlater

theorem insert_eq (h : Consistent w contents) {sortVal : Int}
    (hvalue : without contents e this = [] → 0 ≤ sortVal)
    (hroom : (without contents e this).length + 1 < 2 ^ 31) :
    ∃ w' xs ys, (∀ fuel > (contents this).length,
        insert w this fuel (some (.entry e)) sortVal = some (true, w')) ∧
      without contents e this = xs ++ ys ∧ (∀ a ∈ xs, w.sortField (.entry a) ≤ sortVal) ∧
      (∀ b ∈ ys.head?, sortVal < w.sortField (.entry b)) ∧
      Consistent w' (Function.update (without contents e) this (xs ++ e :: ys)) ∧
      w'.sortField = Function.update w.sortField (.entry e) sortVal := by
  obtain ⟨w₁, hleave, hleft, hsort⟩ := leave_eq (e := e) h
  have hset := hleft.setSortField (e := e) sortVal
  have hfree := fun list => h.notMem_without (e := e) list
  have hsort₁ : (w₁.setSortField (.entry e) sortVal).sortField =
      Function.update w.sortField (.entry e) sortVal := by
    rw [Memory.setSortField, hsort]
  have hself : (w₁.setSortField (.entry e) sortVal).sortField (.entry e) = sortVal := by
    rw [hsort₁, Function.update_self]
  have hfield : ∀ a ∈ without contents e this,
      (w₁.setSortField (.entry e) sortVal).sortField (.entry a) = w.sortField (.entry a) := by
    intro a ha
    rw [hsort₁, Function.update_of_ne]
    exact fun heq => (h.mem_without.mp ha).1 (Chainable.entry.inj heq)
  obtain ⟨w', xs, ys, hplace, hsplit, hxs, hys, hconsistent, hsort'⟩ :=
    @place_eq L E _ _ _ _ this e hset hfree (fun hnil => hself.symm ▸ hvalue hnil) hroom
  rw [hself] at hplace hxs hys
  refine ⟨w', xs, ys, ?_, hsplit, ?_, ?_, hconsistent, hsort'.trans hsort₁⟩
  · intro fuel hfuel
    rw [insert]
    simp only [reduceCtorEq, if_false, Option.bind_eq_bind, Option.bind_some, hleave]
    exact hplace fuel (Nat.lt_of_le_of_lt List.length_erase_le hfuel)
  · intro a ha
    rw [← hfield a (hsplit ▸ List.mem_append_left ys ha)]
    exact hxs a ha
  · intro b hb
    rw [← hfield b (hsplit ▸ List.mem_append_right xs (List.mem_of_mem_head? hb))]
    exact hys b hb

end Append

end Calls

end Rodos.SortedList
