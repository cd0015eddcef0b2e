import Rodos.AccessTrace

namespace Rodos.GatewayTable

open AccessTrace Traced

variable {G : Type}

def maxNumberOfGatewaysPerRouter : Nat := 8

/-- A null pointer is `none`. -/
def not0 (a : Option G) : UInt8 := if a.isSome then 1 else 0

/-- The table of a router. Cells from `maxNumberOfGatewaysPerRouter` on are no part of the
array. -/
structure Router (G : Type) where
  gateways : Nat → Option G
  numberOfGateways : UInt8

structure Arguments (G : Type) where
  gateway1 : Option G
  gateway2 : Option G
  gateway3 : Option G
  gateway4 : Option G

def Arguments.toList (a : Arguments G) : List (Option G) :=
  [a.gateway1, a.gateway2, a.gateway3, a.gateway4]

section Methods

-- What a write behind the array makes of the count, which lies there.
variable (behind : Option G → UInt8 → UInt8)

def store (i : Nat) (gateway : Option G) (r : Router G) : Traced Nat (Router G) := do
  touch i
  pure {
    gateways := Function.update r.gateways i gateway
    numberOfGateways :=
      if i < maxNumberOfGatewaysPerRouter then r.numberOfGateways
      else behind gateway r.numberOfGateways }

/-- The constructor, in memory with any content. -/
def construct (a : Arguments G) (r : Router G) : Traced Nat (Router G) := do
  let r ← store behind 0 a.gateway1 r
  let r ← store behind 1 a.gateway2 r
  let r ← store behind 2 a.gateway3 r
  let r ← store behind 3 a.gateway4 r
  pure { r with
    numberOfGateways := not0 a.gateway1 + not0 a.gateway2 + not0 a.gateway3 + not0 a.gateway4 }

def addGateway (gateway : Option G) (r : Router G) : Traced Nat (Router G) := do
  let r ← store behind r.numberOfGateways.toNat gateway r
  let numberOfGateways := r.numberOfGateways + 1
  pure { r with
    numberOfGateways :=
      if numberOfGateways.toNat > maxNumberOfGatewaysPerRouter then numberOfGateways - 1
      else numberOfGateways }

def run (a : Arguments G) (added : List (Option G)) (r : Router G) : Traced Nat (Router G) :=
  construct behind a r >>= forEach (addGateway behind) added

end Methods

def Router.entries (r : Router G) : List (Option G) :=
  (List.range r.numberOfGateways.toNat).map r.gateways

def nonNull (passed : List (Option G)) : List G := passed.filterMap id

/-- Only cells of the array have been written, `routeMsg` finds only gateways that have
been passed, and it finds each of them for which there is room. -/
structure Sound (passed : List (Option G)) (x : Traced Nat (Router G)) : Prop where
  inside : Within (· < maxNumberOfGatewaysPerRouter) x
  known : ∀ entry ∈ x.value.entries, ∃ g ∈ nonNull passed, entry = some g
  present : ∀ g ∈ (nonNull passed).take maxNumberOfGatewaysPerRouter, some g ∈ x.value.entries

/-- No argument of the constructor is null before one that is not, no null pointer is
added, and there is room for all. -/
structure Allowed (a : Arguments G) (added : List (Option G)) : Prop where
  second : a.gateway2.isSome → a.gateway1.isSome
  third : a.gateway3.isSome → a.gateway2.isSome
  fourth : a.gateway4.isSome → a.gateway3.isSome
  nonNull : ∀ gateway ∈ added, gateway.isSome
  room : (GatewayTable.nonNull a.toList).length + added.length ≤ maxNumberOfGatewaysPerRouter

section Runs

variable (behind : Option G → UInt8 → UInt8) {r : Router G} {a : Arguments G}
  {added : List (Option G)}

theorem within_store {P : Nat → Prop} (i : Nat) (gateway : Option G) (r : Router G) :
    Within P (store behind i gateway r) ↔ P i := by
  rw [store, within_bind, within_touch]
  exact and_iff_left (within_pure _)

theorem within_construct (a : Arguments G) (r : Router G) :
    Within (· < maxNumberOfGatewaysPerRouter) (construct behind a r) := by
  rw [construct]
  simp only [within_bind, within_store, within_pure]
  decide

structure Filled (r : Router G) (entries : List (Option G)) : Prop where
  count : r.numberOfGateways.toNat = entries.length
  cells : ∀ i < entries.length, entries[i]? = some (r.gateways i)

theorem Filled.entries_eq {entries : List (Option G)} (h : Filled r entries) :
    r.entries = entries := by
  apply List.ext_getElem?
  intro i
  rw [Router.entries, h.count, List.getElem?_map]
  by_cases hi : i < entries.length
  · rw [List.getElem?_range hi, h.cells i hi]
    rfl
  · rw [List.getElem?_eq_none (by simpa using hi), List.getElem?_eq_none (by simpa using hi)]
    rfl

theorem length_nonNull_le (a : Arguments G) : (nonNull a.toList).length ≤ a.toList.length :=
  List.length_filterMap_le id a.toList

theorem toNat_count (a : Arguments G) :
    (not0 a.gateway1 + not0 a.gateway2 + not0 a.gateway3 + not0 a.gateway4).toNat =
      (nonNull a.toList).length := by
  obtain ⟨_ | _, _ | _, _ | _, _ | _⟩ := a <;> rfl

theorem filled_construct (a : Arguments G) (r : Router G) :
    Filled (construct behind a r).value (a.toList.take (nonNull a.toList).length) := by
  have hle := length_nonNull_le a
  have hlength : (a.toList.take (nonNull a.toList).length).length = (nonNull a.toList).length := by
    rw [List.length_take, min_eq_left hle]
  refine ⟨(toNat_count a).trans hlength.symm, fun i hi => ?_⟩
  rw [hlength] at hi
  rw [List.getElem?_take_of_lt hi]
  have h4 : i < 4 := Nat.lt_of_lt_of_le hi hle
  interval_cases i <;> rfl

theorem filled_addGateway {entries : List (Option G)} (h : Filled r entries)
    (hroom : entries.length < maxNumberOfGatewaysPerRouter) (gateway : Option G) :
    Filled (addGateway behind gateway r).value (entries ++ [gateway]) := by
  have hcount := h.count
  have hmax : maxNumberOfGatewaysPerRouter = 8 := rfl
  have hsucc : (r.numberOfGateways + 1).toNat = entries.length + 1 := by
    rw [UInt8.toNat_add, hcount]
    exact Nat.mod_eq_of_lt (show entries.length + 1 < 256 by omega)
  have hvalue : (addGateway behind gateway r).value =
      ⟨Function.update r.gateways entries.length gateway, r.numberOfGateways + 1⟩ := by
    simp only [addGateway, store, value_bind, value_pure, hcount, if_pos hroom]
    rw [if_neg (by omega)]
  rw [hvalue]
  refine ⟨by simpa using hsucc, fun i hi => ?_⟩
  rw [List.length_append, List.length_singleton] at hi
  by_cases hlast : i = entries.length
  · subst hlast
    simp
  · rw [List.getElem?_append_left (by omega), h.cells i (by omega)]
    exact congrArg some (Function.update_of_ne hlast _ _).symm

/-- Each gateway added takes a cell, and the first for which there is none is written
behind the array. -/
theorem filled_forEach (added : List (Option G)) {entries : List (Option G)} (h : Filled r entries)
    (hentries : entries.length ≤ maxNumberOfGatewaysPerRouter) :
    (Within (· < maxNumberOfGatewaysPerRouter) (forEach (addGateway behind) added r) ↔
      entries.length + added.length ≤ maxNumberOfGatewaysPerRouter) ∧
    (entries.length + added.length ≤ maxNumberOfGatewaysPerRouter →
      Filled (forEach (addGateway behind) added r).value (entries ++ added)) := by
  induction added generalizing r entries with
  | nil =>
    rw [List.append_nil]
    exact ⟨iff_of_true (within_pure r) hentries, fun _ => h⟩
  | cons gateway added ih =>
    have hwrite : Within (· < maxNumberOfGatewaysPerRouter) (addGateway behind gateway r) ↔
        entries.length < maxNumberOfGatewaysPerRouter := by
      rw [addGateway, within_bind, within_store, h.count]
      exact and_iff_left (within_pure _)
    rw [forEach, within_bind, hwrite, value_bind, List.length_cons]
    by_cases hroom : entries.length < maxNumberOfGatewaysPerRouter
    · have hnext := ih (filled_addGateway behind h hroom gateway) (by simpa using hroom)
      rw [List.append_assoc, List.singleton_append, List.length_append, List.length_singleton,
        Nat.add_assoc, Nat.add_comm 1] at hnext
      exact ⟨(and_iff_right hroom).trans hnext.1, hnext.2⟩
    · refine ⟨iff_of_false (fun hw => hroom hw.1) ?_, fun hle => absurd ?_ hroom⟩ <;> omega

theorem filled_run (a : Arguments G) (added : List (Option G)) (r : Router G) :
    (Within (· < maxNumberOfGatewaysPerRouter) (run behind a added r) ↔
      (nonNull a.toList).length + added.length ≤ maxNumberOfGatewaysPerRouter) ∧
    ((nonNull a.toList).length + added.length ≤ maxNumberOfGatewaysPerRouter →
      (run behind a added r).value.entries = a.toList.take (nonNull a.toList).length ++ added) := by
  have hle := length_nonNull_le a
  have hlength : (a.toList.take (nonNull a.toList).length).length = (nonNull a.toList).length := by
    rw [List.length_take, min_eq_left hle]
  have hmax : (nonNull a.toList).length ≤ maxNumberOfGatewaysPerRouter := by
    apply hle.trans
    change 4 ≤ 8
    decide
  have hadds := filled_forEach behind added (filled_construct behind a r) (hlength.trans_le hmax)
  rw [hlength] at hadds
  rw [run, within_bind, value_bind]
  exact ⟨(and_iff_right (within_construct behind a r)).trans hadds.1,
    fun h => (hadds.2 h).entries_eq⟩

theorem forall_isSome_take_iff (a : Arguments G) :
    (∀ entry ∈ a.toList.take (nonNull a.toList).length, entry.isSome) ↔
      (a.gateway2.isSome → a.gateway1.isSome) ∧ (a.gateway3.isSome → a.gateway2.isSome) ∧
        (a.gateway4.isSome → a.gateway3.isSome) := by
  obtain ⟨_ | _, _ | _, _ | _, _ | _⟩ := a <;> simp [Arguments.toList, nonNull]

theorem take_of_allowed (h : Allowed a added) :
    a.toList.take (nonNull a.toList).length = (nonNull a.toList).map some := by
  have hall := (forall_isSome_take_iff a).mpr ⟨h.second, h.third, h.fourth⟩
  revert hall
  obtain ⟨_ | _, _ | _, _ | _, _ | _⟩ := a <;> simp [Arguments.toList, nonNull]

theorem map_some_nonNull {passed : List (Option G)} (h : ∀ gateway ∈ passed, gateway.isSome) :
    (nonNull passed).map some = passed := by
  induction passed with
  | nil => rfl
  | cons gateway passed ih =>
    obtain ⟨hfirst, hrest⟩ := List.forall_mem_cons.mp h
    obtain ⟨g, rfl⟩ := Option.isSome_iff_exists.mp hfirst
    simpa [nonNull] using ih hrest

theorem entries_of_allowed (h : Allowed a added) (r : Router G) :
    (run behind a added r).value.entries = (nonNull (a.toList ++ added)).map some := by
  have happend : nonNull (a.toList ++ added) = nonNull a.toList ++ nonNull added :=
    List.filterMap_append
  rw [(filled_run behind a added r).2 h.room, take_of_allowed h, happend, List.map_append,
    map_some_nonNull h.nonNull]

end Runs

/-- The constructor and the calls of `addGateway` leave a sound table exactly if the
arguments are allowed. -/
theorem sound_iff_allowed (behind : Option G → UInt8 → UInt8) (a : Arguments G)
    (added : List (Option G)) (r : Router G) :
    Sound (a.toList ++ added) (run behind a added r) ↔ Allowed a added := by
  constructor
  · intro h
    have hroom := (filled_run behind a added r).1.mp h.inside
    have hsome : ∀ entry ∈ a.toList.take (nonNull a.toList).length ++ added, entry.isSome := by
      rw [← (filled_run behind a added r).2 hroom]
      intro entry hentry
      obtain ⟨g, -, rfl⟩ := h.known entry hentry
      rfl
    obtain ⟨hfirst, hadded⟩ := List.forall_mem_append.mp hsome
    obtain ⟨hsecond, hthird, hfourth⟩ := (forall_isSome_take_iff a).mp hfirst
    exact ⟨hsecond, hthird, hfourth, hadded, hroom⟩
  · intro h
    refine ⟨(filled_run behind a added r).1.mpr h.room, ?_, ?_⟩
    · rw [entries_of_allowed behind h]
      intro entry hentry
      obtain ⟨g, hg, rfl⟩ := List.mem_map.mp hentry
      exact ⟨g, hg, rfl⟩
    · rw [entries_of_allowed behind h]
      intro g hg
      exact List.mem_map_of_mem (List.mem_of_mem_take hg)

/-- A null argument before a gateway, and nine gateways in all. -/
theorem table_unsound :
    ¬ Sound [none, some 1, none, none]
      (run (fun _ count => count) ⟨none, some 1, none, none⟩ [] ⟨fun _ => none, 0⟩) ∧
    ¬ Sound [some 1, none, none, none, some 2, some 3, some 4, some 5, some 6, some 7, some 8,
        some 9]
      (run (fun _ count => count) ⟨some 1, none, none, none⟩
        [some 2, some 3, some 4, some 5, some 6, some 7, some 8, some 9] ⟨fun _ => none, 0⟩) := by
  constructor
  · intro h
    obtain ⟨g, -, hg⟩ := h.known none (by decide)
    cases hg
  · intro h
    have hlast := h.inside 8 (by decide)
    exact absurd hlast (by decide)

end Rodos.GatewayTable
