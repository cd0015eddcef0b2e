import Rodos.TransitionSystem

namespace Rodos.HalSharedmemory

open TransitionSystem

def magicWordValue : Int := 1235

/-- The header of the segment, with the slots behind it. An empty slot is a zero. -/
structure ShmHeader (P : Type) where
  magicWord : Int
  lockFlag : Int
  maxMembers : Nat
  membersCount : Nat
  procids : Nat → Option P

/-- What a process knows. Without a slot the id is negative. -/
structure Context where
  attached : Bool
  iLockedIt : Bool
  memberId : Option Nat

structure Host (P : Type) extends ShmHeader P where
  context : P → Context
  alive : P → Bool

section Methods

variable {P : Type}

def findSlot (procids : Nat → Option P) (maxMembers : Nat) : Option Nat :=
  (List.range maxMembers).find? fun i => (procids i).isNone

variable [DecidableEq P]

def setContext (h : Host P) (p : P) (c : Context) : Host P :=
  { h with context := Function.update h.context p c }

/-- With a negative id this would be the counter, but there is always a slot. -/
def setProcid (h : Host P) (p : P) (memberId : Option Nat) : Host P :=
  match memberId with
  | some i => { h with procids := Function.update h.procids i (some p) }
  | none => h

/-- The critical section, and whether the process has become a member. -/
def init (maxMembers : Nat) (p : P) (h : Host P) : Bool × Host P :=
  if h.magicWord = magicWordValue then
    if h.membersCount ≥ h.maxMembers then
      (false, setContext h p { h.context p with attached := true })
    else
      let memberId := (findSlot h.procids h.maxMembers).or (h.context p).memberId
      (true, setProcid
        (setContext { h with membersCount := h.membersCount + 1 } p
          { h.context p with attached := true, memberId := memberId }) p memberId)
  else
    (true, setProcid
      (setContext { h with
          magicWord := magicWordValue
          lockFlag := 0
          maxMembers := maxMembers
          membersCount := 1
          procids := fun i => if i ≤ maxMembers then none else h.procids i } p
        { h.context p with attached := true, memberId := some 0 }) p (some 0))

def lock (p : P) (h : Host P) : Bool × Host P :=
  if h.lockFlag ≠ 0 then (false, h)
  else (true, setContext { h with lockFlag := 1 } p { h.context p with iLockedIt := true })

def unlock (p : P) (h : Host P) : Host P :=
  if (h.context p).iLockedIt then
    setContext { h with lockFlag := 0 } p { h.context p with iLockedIt := false }
  else h

def clearSlot (i : Nat) (h : Host P) : Host P :=
  { h with procids := Function.update h.procids i none, membersCount := h.membersCount - 1 }

def removeDead (p : P) (i : Nat) (h : Host P) : Host P :=
  let r := lock p h
  if r.1 then unlock p (clearSlot i r.2)
  else if (r.2.context p).iLockedIt then clearSlot i r.2
  else r.2

def signalSlot (p : P) (i : Nat) (h : Host P) (signalled : List P) : Host P × List P :=
  if some i = (h.context p).memberId then (h, signalled)
  else
    match h.procids i with
    | none => (h, signalled)
    | some pid => if h.alive pid then (h, signalled ++ [pid]) else (removeDead p i h, signalled)

def signalFrom (p : P) : Nat → Nat → Host P → List P → Host P × List P
  | 0, _, h, signalled => (h, signalled)
  | fuel + 1, i, h, signalled =>
    if i < h.membersCount then
      let r := signalSlot p i h signalled
      signalFrom p fuel (i + 1) r.1 r.2
    else (h, signalled)

/-- The bound of the loop does not grow. -/
def raiseSharedMemoryChanged (p : P) (h : Host P) : Host P × List P :=
  signalFrom p h.membersCount 0 h []

end Methods

/-- A call of `raiseSharedMemoryChanged`, with the members that were alive. -/
structure Raise (P : Type) where
  caller : P
  members : P → Bool
  signalled : List P

/-- A refused process is recorded with the answer to whether every slot was occupied. -/
structure System (P : Type) extends Host P where
  raises : List (Raise P)
  refused : List Bool

inductive Event (P : Type)
  | join (p : P) (maxMembers : Nat)
  | die (p : P)
  | lock (p : P)
  | unlock (p : P)
  | raiseSharedMemoryChanged (p : P)

section Questions

variable {P : Type}

def isMember (h : Host P) (p : P) : Bool := h.alive p && (h.context p).memberId.isSome

def mayRemove (p : P) (h : Host P) : Bool := h.lockFlag = 0 || (h.context p).iLockedIt

def isFull (h : Host P) : Bool := (List.range h.maxMembers).all fun i => (h.procids i).isSome

def uses (h : Host P) (p : P) : Bool := h.alive p && (h.context p).attached

end Questions

section Steps

variable {P : Type} [DecidableEq P]

def step : Event P → System P → Option (System P)
  | .join p maxMembers, s =>
    if s.alive p && 0 < maxMembers then
      let r := init maxMembers p s.toHost
      some { s with
        toHost := r.2
        refused := if r.1 then s.refused else s.refused ++ [isFull s.toHost] }
    else none
  | .die p, s => some { s with alive := Function.update s.alive p false }
  | .lock p, s => if uses s.toHost p then some { s with toHost := (lock p s.toHost).2 } else none
  | .unlock p, s => if uses s.toHost p then some { s with toHost := unlock p s.toHost } else none
  | .raiseSharedMemoryChanged p, s =>
    if uses s.toHost p && mayRemove p s.toHost then
      let r := raiseSharedMemoryChanged p s.toHost
      some { s with
        toHost := r.1
        raises := s.raises ++ [⟨p, isMember s.toHost, r.2⟩] }
    else none

end Steps

section Purpose

variable {P : Type}

def Created (s : System P) : Prop :=
  s.magicWord = 0 ∧ s.lockFlag = 0 ∧ s.maxMembers = 0 ∧ s.membersCount = 0 ∧
    (∀ i, s.procids i = none) ∧ (∀ p, s.context p = ⟨false, false, none⟩) ∧
    s.raises = [] ∧ s.refused = []

def occupied (h : Host P) : Finset Nat :=
  (Finset.range h.maxMembers).filter fun i => (h.procids i).isSome

structure Notifies (s : System P) : Prop where
  signalled : ∀ r ∈ s.raises, ∀ q, r.members q = true → q ≠ r.caller → q ∈ r.signalled
  counted : s.membersCount = (occupied s.toHost).card
  refused : ∀ full ∈ s.refused, full = true

/-- The entry of a process that is dead, in the slot of somebody else. -/
def isStale (p : P) (h : Host P) (i : Nat) : Bool :=
  some i ≠ (h.context p).memberId && (h.procids i).any fun pid => !h.alive pid

def stale (p : P) (h : Host P) (i j : Nat) : Nat := (List.range' i (j - i)).countP (isStale p h)

/-- No other living member is so far behind that the entries that are removed before it bring
the bound of the loop down to its slot. -/
def Reached : Event P → System P → Prop
  | .raiseSharedMemoryChanged p, s => ∀ q, isMember s.toHost q = true → q ≠ p →
      ∃ j < s.membersCount, s.procids j = some q ∧ some j ≠ (s.context p).memberId ∧
        j + stale p s.toHost 0 j < s.membersCount
  | _, _ => True

end Purpose

section Slots

variable {P : Type} {h h' : Host P} {p : P} {i j : Nat}

theorem mem_occupied : i ∈ occupied h ↔ i < h.maxMembers ∧ (h.procids i).isSome := by
  rw [occupied, Finset.mem_filter, Finset.mem_range]

theorem card_occupied_le (h : Host P) : (occupied h).card ≤ h.maxMembers :=
  (Finset.card_filter_le _ _).trans (Finset.card_range _).le

theorem isFull_iff : isFull h = true ↔ (occupied h).card = h.maxMembers := by
  have hsub : occupied h ⊆ Finset.range h.maxMembers := Finset.filter_subset _ _
  rw [isFull, List.all_eq_true]
  constructor
  · intro hall
    have hsame : occupied h = Finset.range h.maxMembers := by
      refine hsub.antisymm fun k hk => ?_
      have hk' := Finset.mem_range.mp hk
      exact mem_occupied.mpr ⟨hk', hall k (List.mem_range.mpr hk')⟩
    rw [hsame, Finset.card_range]
  · intro hcard k hk
    have hsame := Finset.eq_of_subset_of_card_le hsub (by rw [Finset.card_range, hcard])
    have hmem : k ∈ occupied h := hsame ▸ Finset.mem_range.mpr (List.mem_range.mp hk)
    exact (mem_occupied.mp hmem).2

theorem findSlot_some (hroom : (occupied h).card < h.maxMembers) :
    ∃ i < h.maxMembers, findSlot h.procids h.maxMembers = some i ∧ h.procids i = none := by
  cases hfind : findSlot h.procids h.maxMembers with
  | some i =>
    have hi := List.mem_range.mp (List.mem_of_find?_eq_some hfind)
    exact ⟨i, hi, rfl, Option.isNone_iff_eq_none.mp
      (List.find?_some (p := fun i => (h.procids i).isNone) hfind)⟩
  | none =>
    have hnone := List.find?_eq_none.mp hfind
    have hfull : isFull h = true := by
      refine List.all_eq_true.mpr fun k hk => ?_
      have hk' := hnone k hk
      rwa [Option.isNone_iff_eq_none, ← ne_eq, ← Option.isSome_iff_ne_none] at hk'
    exact absurd (isFull_iff.mp hfull) hroom.ne

theorem occupied_insert (hi : i < h.maxMembers) (hmax : h'.maxMembers = h.maxMembers)
    (hprocids : h'.procids = Function.update h.procids i (some p)) :
    occupied h' = insert i (occupied h) := by
  ext k
  rw [Finset.mem_insert, mem_occupied, mem_occupied, hmax, hprocids]
  by_cases heq : k = i
  · subst heq
    rw [Function.update_self]
    exact iff_of_true ⟨hi, rfl⟩ (.inl rfl)
  · rw [Function.update_of_ne heq, or_iff_right heq]

theorem card_insert (hi : i < h.maxMembers) (hempty : h.procids i = none)
    (hmax : h'.maxMembers = h.maxMembers)
    (hprocids : h'.procids = Function.update h.procids i (some p)) :
    (occupied h').card = (occupied h).card + 1 := by
  have hnew : i ∉ occupied h := fun hmem => by
    have hsome := (mem_occupied.mp hmem).2
    rw [hempty] at hsome
    cases hsome
  rw [occupied_insert hi hmax hprocids, Finset.card_insert_of_notMem hnew]

theorem card_first (hmax : 0 < h'.maxMembers) (hprocids : h'.procids =
    Function.update (fun i => if i ≤ h'.maxMembers then none else h.procids i) 0 (some p)) :
    (occupied h').card = 1 := by
  rw [Finset.card_eq_one]
  refine ⟨0, Finset.ext fun k => ?_⟩
  rw [mem_occupied, hprocids, Finset.mem_singleton]
  by_cases heq : k = 0
  · subst heq
    rw [Function.update_self]
    exact iff_of_true ⟨hmax, rfl⟩ rfl
  · rw [Function.update_of_ne heq]
    refine iff_of_false (fun hmem => ?_) heq
    rw [if_pos hmem.1.le] at hmem
    cases hmem.2

theorem occupied_erase (hmax : h'.maxMembers = h.maxMembers)
    (hprocids : h'.procids = Function.update h.procids i none) :
    occupied h' = (occupied h).erase i := by
  ext k
  rw [Finset.mem_erase, mem_occupied, mem_occupied, hmax, hprocids]
  by_cases heq : k = i
  · subst heq
    rw [Function.update_self]
    exact iff_of_false (fun hmem => Bool.false_ne_true hmem.2) fun hmem => hmem.1 rfl
  · rw [Function.update_of_ne heq, and_iff_right heq]

end Slots

section Rounds

variable {P : Type} {h h' : Host P} {p : P} {i j : Nat} {signalled : List P}

structure SameMembers (p : P) (h h' : Host P) : Prop where
  magicWord : h'.magicWord = h.magicWord
  maxMembers : h'.maxMembers = h.maxMembers
  alive : h'.alive = h.alive
  memberId : ∀ q, (h'.context q).memberId = (h.context q).memberId
  may : mayRemove p h' = true

theorem SameMembers.refl (hmay : mayRemove p h = true) : SameMembers p h h :=
  ⟨rfl, rfl, rfl, fun _ => rfl, hmay⟩

theorem SameMembers.trans {h'' : Host P} (h₁ : SameMembers p h h') (h₂ : SameMembers p h' h'') :
    SameMembers p h h'' :=
  ⟨h₂.magicWord.trans h₁.magicWord, h₂.maxMembers.trans h₁.maxMembers, h₂.alive.trans h₁.alive,
    fun q => (h₂.memberId q).trans (h₁.memberId q), h₂.may⟩

variable [DecidableEq P]

theorem removeDead_spec (hmay : mayRemove p h = true) :
    SameMembers p h (removeDead p i h) ∧
      (removeDead p i h).procids = Function.update h.procids i none ∧
      (removeDead p i h).membersCount = h.membersCount - 1 := by
  unfold removeDead lock
  by_cases hfree : h.lockFlag = 0
  · simp only [hfree, ne_eq, not_true_eq_false, if_false, if_true]
    have hunlock : unlock p (clearSlot i
        (setContext { h with lockFlag := 1 } p { h.context p with iLockedIt := true })) =
        setContext (setContext { clearSlot i h with lockFlag := 0 } p
          { h.context p with iLockedIt := true }) p { h.context p with iLockedIt := false } := by
      unfold unlock clearSlot setContext
      simp
    rw [hunlock]
    refine ⟨⟨rfl, rfl, rfl, fun q => ?_, rfl⟩, rfl, rfl⟩
    unfold setContext
    dsimp only
    by_cases heq : q = p
    · rw [heq, Function.update_self]
    · rw [Function.update_of_ne heq, Function.update_of_ne heq]
      rfl
  · have hheld : (h.context p).iLockedIt = true := by
      rw [mayRemove] at hmay
      simpa [hfree] using hmay
    simp only [hfree, ne_eq, not_false_eq_true, if_true, Bool.false_eq_true, if_false, hheld]
    exact ⟨⟨rfl, rfl, rfl, fun _ => rfl, hmay⟩, rfl, rfl⟩

structure Round (p : P) (i : Nat) (h h' : Host P) (signalled signalled' : List P) : Prop where
  same : SameMembers p h h'
  removed : isStale p h i = true → h'.procids = Function.update h.procids i none ∧
    h'.membersCount = h.membersCount - 1
  kept : isStale p h i = false → h'.procids = h.procids ∧ h'.membersCount = h.membersCount
  before : signalled ⊆ signalled'
  signal : ∀ q, h.procids i = some q → h.alive q = true → some i ≠ (h.context p).memberId →
    q ∈ signalled'

omit [DecidableEq P] in
theorem Round.unchanged {signalled' : List P} (hmay : mayRemove p h = true)
    (hstale : isStale p h i = false) (hbefore : signalled ⊆ signalled')
    (hsignal : ∀ q, h.procids i = some q → h.alive q = true → some i ≠ (h.context p).memberId →
      q ∈ signalled') : Round p i h h signalled signalled' where
  same := .refl hmay
  removed hremoved := by
    rw [hstale] at hremoved
    cases hremoved
  kept _ := ⟨rfl, rfl⟩
  before := hbefore
  signal := hsignal

theorem signalSlot_round (hmay : mayRemove p h = true) :
    Round p i h (signalSlot p i h signalled).1 signalled (signalSlot p i h signalled).2 := by
  rw [signalSlot]
  by_cases hown : some i = (h.context p).memberId
  · rw [if_pos hown]
    exact .unchanged hmay (by simp [isStale, hown]) (List.Subset.refl _)
      fun _ _ _ hne => absurd hown hne
  · rw [if_neg hown]
    cases hslot : h.procids i with
    | none =>
      refine .unchanged hmay (by simp [isStale, hslot]) (List.Subset.refl _) fun q hq => ?_
      rw [hslot] at hq
      cases hq
    | some pid =>
      by_cases halive : h.alive pid = true
      · dsimp only
        rw [if_pos halive]
        refine .unchanged hmay (by simp [isStale, hslot, halive]) (List.subset_append_left _ _)
          fun q hq _ _ => ?_
        rw [hslot] at hq
        rw [← Option.some.inj hq]
        exact List.mem_append_right _ (List.mem_singleton_self pid)
      · have hstale : isStale p h i = true := by simp [isStale, hslot, halive, hown]
        obtain ⟨hsame, hprocids, hcount⟩ := removeDead_spec (i := i) hmay
        dsimp only
        rw [if_neg halive]
        refine ⟨hsame, fun _ => ⟨hprocids, hcount⟩, fun h => ?_, List.Subset.refl _,
          fun q hq hlive _ => ?_⟩
        · rw [hstale] at h
          cases h
        · rw [hslot] at hq
          rw [← Option.some.inj hq] at hlive
          exact absurd hlive halive

omit [DecidableEq P] in
theorem SameMembers.isStale_eq (h₁ : SameMembers p h h') {k : Nat}
    (hslot : h'.procids k = h.procids k) : isStale p h' k = isStale p h k := by
  unfold isStale
  rw [hslot, h₁.alive, h₁.memberId]

omit [DecidableEq P] in
theorem stale_succ (hij : i < j) :
    stale p h i j = stale p h (i + 1) j + if isStale p h i = true then 1 else 0 := by
  obtain ⟨k, hk⟩ : ∃ k, j - i = k + 1 := ⟨j - i - 1, by omega⟩
  have hk' : j - (i + 1) = k := by omega
  rw [stale, hk, List.range'_succ, List.countP_cons, stale, hk']

omit [DecidableEq P] in
/-- A round takes from the bound of the loop what it takes from the stale entries ahead. -/
theorem Round.ahead {signalled' : List P} (hround : Round p i h h' signalled signalled')
    (hij : i < j) (hcount : 0 < h.membersCount) :
    j + stale p h' (i + 1) j < h'.membersCount ↔ j + stale p h i j < h.membersCount := by
  have hlater : ∀ k ∈ List.range' (i + 1) (j - (i + 1)), (isStale p h' k = true ↔
      isStale p h k = true) := by
    intro k hk
    have hne : k ≠ i := by
      have hle := (List.mem_range'_1.mp hk).1
      omega
    rw [hround.same.isStale_eq]
    cases hstale : isStale p h i with
    | true => rw [(hround.removed hstale).1, Function.update_of_ne hne]
    | false => rw [(hround.kept hstale).1]
  rw [stale_succ hij, stale, List.countP_congr hlater]
  cases hstale : isStale p h i with
  | true =>
    rw [(hround.removed hstale).2, if_pos rfl]
    rw [stale]
    omega
  | false =>
    rw [(hround.kept hstale).2, if_neg Bool.false_ne_true]
    exact Iff.rfl

omit [DecidableEq P] in
theorem Round.card {signalled' : List P} (hround : Round p i h h' signalled signalled')
    (hi : i < h.maxMembers) (hcard : h.membersCount = (occupied h).card) :
    h'.membersCount = (occupied h').card := by
  cases hstale : isStale p h i with
  | true =>
    obtain ⟨hprocids, hcount⟩ := hround.removed hstale
    have hslot : (h.procids i).isSome := by
      unfold isStale at hstale
      cases hprocid : h.procids i with
      | none => simp [hprocid] at hstale
      | some pid => rfl
    rw [occupied_erase hround.same.maxMembers hprocids,
      Finset.card_erase_of_mem (mem_occupied.mpr ⟨hi, hslot⟩), hcount, hcard]
  | false =>
    obtain ⟨hprocids, hcount⟩ := hround.kept hstale
    have hsame : occupied h' = occupied h := by
      unfold occupied
      rw [hprocids, hround.same.maxMembers]
    rw [hcount, hsame, hcard]

theorem signalFrom_spec {fuel : Nat} (hmay : mayRemove p h = true)
    (hcard : h.membersCount = (occupied h).card) :
    SameMembers p h (signalFrom p fuel i h signalled).1 ∧
      (signalFrom p fuel i h signalled).1.membersCount =
        (occupied (signalFrom p fuel i h signalled).1).card ∧
      signalled ⊆ (signalFrom p fuel i h signalled).2 := by
  induction fuel generalizing i h signalled with
  | zero => exact ⟨.refl hmay, hcard, List.Subset.refl _⟩
  | succ fuel ih =>
    rw [signalFrom]
    split
    · rename_i hi
      have hround := @signalSlot_round _ h p i signalled _ hmay
      have hmax := hcard.le.trans (card_occupied_le h)
      obtain ⟨hsame, hcard', hsub⟩ := ih hround.same.may (hround.card (hi.trans_le hmax) hcard)
      exact ⟨hround.same.trans hsame, hcard', List.Subset.trans hround.before hsub⟩
    · exact ⟨.refl hmay, hcard, List.Subset.refl _⟩

/-- A living process gets the signal if the loop comes to its slot. -/
theorem signalFrom_reaches {fuel : Nat} {q : P} (hmay : mayRemove p h = true)
    (hcard : h.membersCount = (occupied h).card) (hij : i ≤ j) (hfuel : h.membersCount ≤ i + fuel)
    (hreached : j + stale p h i j < h.membersCount) (hslot : h.procids j = some q)
    (halive : h.alive q = true) (hother : some j ≠ (h.context p).memberId) :
    q ∈ (signalFrom p fuel i h signalled).2 := by
  induction fuel generalizing i h signalled with
  | zero => omega
  | succ fuel ih =>
    have hround := @signalSlot_round _ h p i signalled _ hmay
    have hmax := hcard.le.trans (card_occupied_le h)
    have hcard' := hround.card (by omega) hcard
    rw [signalFrom, if_pos (by omega)]
    obtain rfl | hlt := Nat.eq_or_lt_of_le hij
    · exact (signalFrom_spec hround.same.may hcard').2.2 (hround.signal q hslot halive hother)
    · have hslot' : (signalSlot p i h signalled).1.procids j = some q := by
        cases hstale : isStale p h i with
        | true => rw [(hround.removed hstale).1, Function.update_of_ne hlt.ne', hslot]
        | false => rw [(hround.kept hstale).1, hslot]
      refine ih hround.same.may hcard' hlt ?_ ((hround.ahead hlt (by omega)).mpr hreached) hslot' ?_ ?_
      · cases hstale : isStale p h i with
        | true =>
          rw [(hround.removed hstale).2]
          omega
        | false =>
          rw [(hround.kept hstale).2]
          omega
      · rw [hround.same.alive, halive]
      · rwa [hround.same.memberId]

end Rounds

section Members

variable {P : Type} [DecidableEq P] {h : Host P} {p : P} {maxMembers : Nat}

theorem init_spec (hcard : h.membersCount = (occupied h).card) (hmax : 0 < maxMembers) :
    (init maxMembers p h).2.membersCount = (occupied (init maxMembers p h).2).card ∧
      ((init maxMembers p h).1 = false → isFull h = true) := by
  have hle := card_occupied_le h
  rw [init]
  split
  · split
    · rename_i hfull
      exact ⟨hcard, fun _ => isFull_iff.mpr (by omega)⟩
    · rename_i hroom
      obtain ⟨i, hi, hfind, hempty⟩ := findSlot_some (h := h) (by omega)
      refine ⟨?_, fun hfalse => by cases hfalse⟩
      rw [hfind, hcard]
      refine (card_insert (p := p) hi hempty ?_ ?_).symm
      · rfl
      · rfl
  · refine ⟨?_, fun hfalse => by cases hfalse⟩
    refine (card_first (h := h) (p := p) ?_ ?_).symm
    · exact hmax
    · rfl

theorem occupied_lock : occupied (lock p h).2 = occupied h ∧
    (lock p h).2.membersCount = h.membersCount := by
  rw [lock]
  split <;> exact ⟨rfl, rfl⟩

theorem occupied_unlock : occupied (unlock p h) = occupied h ∧
    (unlock p h).membersCount = h.membersCount := by
  rw [unlock]
  split <;> exact ⟨rfl, rfl⟩

variable {s t : System P}

omit [DecidableEq P] in
theorem notifies_created (h : Created s) : Notifies s := by
  obtain ⟨_, _, hmax, hcount, _, _, hraises, hrefused⟩ := h
  refine ⟨by rw [hraises]; nofun, ?_, by rw [hrefused]; nofun⟩
  rw [hcount, occupied, hmax]
  rfl

theorem Notifies.step {e : Event P} (h : Notifies s) (hreached : Reached e s)
    (hstep : step e s = some t) : Notifies t := by
  cases e with
  | join p maxMembers =>
    obtain ⟨henabled, hjoin⟩ := Option.ite_none_right_eq_some.mp hstep
    have hmax : 0 < maxMembers := of_decide_eq_true (Bool.and_eq_true_iff.mp henabled).2
    obtain ⟨hcount, hfull⟩ := init_spec (p := p) h.counted hmax
    cases hjoin
    refine ⟨h.signalled, hcount, ?_⟩
    dsimp only
    split
    · exact h.refused
    · rename_i hrefused
      exact forall_mem_record h.refused (hfull (Bool.eq_false_iff.mpr hrefused))
  | die p =>
    cases hstep
    exact ⟨h.signalled, h.counted, h.refused⟩
  | lock p =>
    obtain ⟨_, hlock⟩ := Option.ite_none_right_eq_some.mp hstep
    obtain ⟨hoccupied, hcount⟩ := occupied_lock (p := p) (h := s.toHost)
    cases hlock
    exact ⟨h.signalled, by rw [hcount, hoccupied, h.counted], h.refused⟩
  | unlock p =>
    obtain ⟨_, hunlock⟩ := Option.ite_none_right_eq_some.mp hstep
    obtain ⟨hoccupied, hcount⟩ := occupied_unlock (p := p) (h := s.toHost)
    cases hunlock
    exact ⟨h.signalled, by rw [hcount, hoccupied, h.counted], h.refused⟩
  | raiseSharedMemoryChanged p =>
    obtain ⟨henabled, hraise⟩ := Option.ite_none_right_eq_some.mp hstep
    have hmay := (Bool.and_eq_true_iff.mp henabled).2
    cases hraise
    refine ⟨forall_mem_record h.signalled ?_, (signalFrom_spec hmay h.counted).2.1, h.refused⟩
    intro q hmember hne
    obtain ⟨j, _, hslot, hother, hbound⟩ := hreached q hmember hne
    exact signalFrom_reaches hmay h.counted (Nat.zero_le j) (by omega) hbound hslot
      (Bool.and_eq_true_iff.mp hmember).1 hother

end Members

variable {P : Type} [DecidableEq P]

/-- The signal comes to every other member as long as the stale entries do not take the bound
of the loop below the slots of the living. -/
theorem raise_notifies {s : System P} (h : ReachableUnder Created step Reached s) : Notifies s :=
  h.invariant Notifies (fun _ hs => notifies_created hs)
    fun _ _ _ hnotifies hreached hstep => hnotifies.step hreached hstep

instance [Fintype P] (e : Event P) (s : System P) : Decidable (Reached e s) := by
  unfold Reached
  split <;> infer_instance

section

def newSegment : System (Fin 3) where
  magicWord := 0
  lockFlag := 0
  maxMembers := 0
  membersCount := 0
  procids _ := none
  context _ := ⟨false, false, none⟩
  alive _ := true
  raises := []
  refused := []

theorem created_newSegment : Created newSegment :=
  ⟨rfl, rfl, rfl, rfl, fun _ => rfl, fun _ => rfl, rfl, rfl⟩

/-- The last of three members has died. -/
theorem raise_notifies_three : ∃ s : System (Fin 3), s.raises.map Raise.signalled = [[1]] ∧
    s.membersCount = 2 ∧ Notifies s := by
  obtain ⟨s, hs, hsignalled, hcount⟩ := exists_reachable Created step Reached newSegment
    created_newSegment
    [.join 0 5, .join 1 5, .join 2 5, .die 2, .lock 0, .raiseSharedMemoryChanged 0]
    (fun s => s.raises.map Raise.signalled = [[1]] ∧ s.membersCount = 2) (by decide +kernel)
  exact ⟨s, hsignalled, hcount, raise_notifies hs⟩

/-- The second of three members has died. -/
theorem raise_misses : ∃ s : System (Fin 3), Reachable Created step s ∧ ¬Notifies s := by
  obtain ⟨s, hs, r, hr, hmember, hcaller, hmissed⟩ := exists_reachable Created step (fun _ _ => True)
    newSegment created_newSegment
    [.join 0 5, .join 1 5, .join 2 5, .die 1, .raiseSharedMemoryChanged 0]
    (fun s => ∃ r ∈ s.raises, r.members 2 = true ∧ 2 ≠ r.caller ∧ 2 ∉ r.signalled)
    (by decide +kernel)
  exact ⟨s, hs, fun hnotifies => hmissed (hnotifies.signalled r hr 2 hmember hcaller)⟩

end

end Rodos.HalSharedmemory
