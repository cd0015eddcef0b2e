import Rodos.HeaderCodec

namespace Rodos.DuplicateSuppression

open NetworkMessage

def maxNumberOfNodes : Nat := 10

def seconds : Int := 1000000000

def int64 (x : Int) : Int := Int.bmod x (2 ^ 64)

structure SeenNode where
  nodeID : Int
  lastMsgTime : Int

/-- The static members `seenNodes` and `numberOfNodes`, shared by all gateways. -/
structure SeenNodes where
  seenNodes : Nat → SeenNode
  numberOfNodes : Nat

def find (t : SeenNodes) (senderNode : Int) : Option Nat :=
  (List.range t.numberOfNodes).find? (fun i => (t.seenNodes i).nodeID = senderNode)

def enroll (t : SeenNodes) (senderNode sentTime : Int) : SeenNodes where
  seenNodes := Function.update t.seenNodes t.numberOfNodes ⟨senderNode, int64 (sentTime - 1)⟩
  numberOfNodes := t.numberOfNodes + 1

def setTime (t : SeenNodes) (node : Nat) (sentTime : Int) : SeenNodes :=
  { t with
    seenNodes := Function.update t.seenNodes node
      { t.seenNodes node with lastMsgTime := sentTime } }

/-- Whether the message is seen, the table and whether `seenNodesProtector`
has been left. -/
structure Outcome where
  seen : Bool
  table : SeenNodes
  left : Bool

def compareTime (t : SeenNodes) (node : Nat) (msgSentTime : Int) : Outcome :=
  if msgSentTime ≤ (t.seenNodes node).lastMsgTime then
    if 5 * seconds < int64 ((t.seenNodes node).lastMsgTime - msgSentTime) then
      ⟨false, setTime t node msgSentTime, true⟩
    else ⟨true, t, true⟩
  else ⟨false, setTime t node msgSentTime, true⟩

/-- The body of `messageSeen` between `enter` and its return. -/
def messageSeen (t : SeenNodes) (msg : NetworkMessage) : Outcome :=
  match find t (getSenderNode msg) with
  | some node => compareTime t node (getSentTime msg)
  | none =>
    if t.numberOfNodes < maxNumberOfNodes then
      compareTime (enroll t (getSenderNode msg) (getSentTime msg)) t.numberOfNodes (getSentTime msg)
    else ⟨false, t, false⟩

def stored (t : SeenNodes) (senderNode : Int) : Option Int :=
  (find t senderNode).map (fun node => (t.seenNodes node).lastMsgTime)

/-- No sender has two of the entries in use. -/
def Distinct (t : SeenNodes) : Prop :=
  ∀ i j, i < t.numberOfNodes → j < t.numberOfNodes →
    (t.seenNodes i).nodeID = (t.seenNodes j).nodeID → i = j

structure WellFormed (t : SeenNodes) : Prop where
  distinct : Distinct t
  bound : t.numberOfNodes ≤ maxNumberOfNodes
  times : ∀ i < t.numberOfNodes, 0 ≤ (t.seenNodes i).lastMsgTime ∧
    (t.seenNodes i).lastMsgTime < 2 ^ 63

theorem getSentTime_lt (msg : NetworkMessage) : getSentTime msg < 2 ^ 63 := by
  unfold getSentTime
  have h := Int.bmod_lt (x := (getField 20 8 msg : Int)) (m := 256 ^ 8) (by positivity)
  refine lt_of_lt_of_le h ?_
  norm_num

theorem int64_of_range {x : Int} (h1 : -2 ^ 63 ≤ x) (h2 : x < 2 ^ 63) : int64 x = x := by
  apply Int.bmod_eq_of_le_mul_two <;> push_cast <;> omega

section

variable {t : SeenNodes} {s : Int} {node : Nat}

theorem find_eq_none_iff : find t s = none ↔ ∀ i < t.numberOfNodes, (t.seenNodes i).nodeID ≠ s := by
  simp [find, List.find?_eq_none]

theorem find_spec (h : find t s = some node) :
    node < t.numberOfNodes ∧ (t.seenNodes node).nodeID = s := by
  have hmem := List.mem_of_find?_eq_some h
  have hid := List.find?_some h
  exact ⟨List.mem_range.mp hmem, of_decide_eq_true hid⟩

theorem find_eq_some_iff (hd : Distinct t) :
    find t s = some node ↔ node < t.numberOfNodes ∧ (t.seenNodes node).nodeID = s := by
  constructor
  · exact find_spec
  · intro h
    cases hf : find t s with
    | none => exact absurd h.2 (find_eq_none_iff.mp hf node h.1)
    | some other =>
      obtain ⟨hlt, hid⟩ := find_spec hf
      rw [hd other node hlt h.1 (hid.trans h.2.symm)]

theorem setTime_nodeID (t : SeenNodes) (node : Nat) (x : Int) (i : Nat) :
    ((setTime t node x).seenNodes i).nodeID = (t.seenNodes i).nodeID := by
  rw [setTime]
  by_cases h : i = node
  · subst h
    simp
  · simp [h]

theorem find_setTime (x : Int) : find (setTime t node x) s = find t s := by
  rw [find]
  simp only [setTime_nodeID]
  rfl

theorem stored_setTime (h : find t s = some node) (x s' : Int) :
    stored (setTime t node x) s' = if s' = s then some x else stored t s' := by
  unfold stored
  rw [find_setTime]
  by_cases hs : s' = s
  · subst hs
    rw [h, if_pos rfl]
    simp [setTime]
  · rw [if_neg hs]
    cases hf : find t s' with
    | none => rfl
    | some other =>
      have hne : other ≠ node := by
        rintro rfl
        exact hs ((find_spec hf).2.symm.trans (find_spec h).2)
      simp [setTime, hne]

theorem wellFormed_setTime (h : WellFormed t) {x : Int} (h0 : 0 ≤ x) (h1 : x < 2 ^ 63) :
    WellFormed (setTime t node x) where
  distinct := by
    intro i j hi hj hid
    rw [setTime_nodeID, setTime_nodeID] at hid
    exact h.distinct i j hi hj hid
  bound := h.bound
  times := by
    intro i hi
    by_cases hn : i = node
    · subst hn
      have hval : ((setTime t i x).seenNodes i).lastMsgTime = x := by simp [setTime]
      rw [hval]
      exact ⟨h0, h1⟩
    · have ht := h.times i hi
      simpa [setTime, hn] using ht

theorem enroll_nodeID (t : SeenNodes) (s x : Int) {i : Nat} (hi : i < t.numberOfNodes) :
    (enroll t s x).seenNodes i = t.seenNodes i := by
  simp [enroll, hi.ne]

theorem enroll_distinct (h : Distinct t) (hf : find t s = none) (x : Int) :
    Distinct (enroll t s x) := by
  intro i j hi hj hid
  have hnew : ((enroll t s x).seenNodes t.numberOfNodes).nodeID = s := by simp [enroll]
  have hold := find_eq_none_iff.mp hf
  change i < t.numberOfNodes + 1 at hi
  change j < t.numberOfNodes + 1 at hj
  obtain hi | rfl := Nat.lt_succ_iff_lt_or_eq.mp hi
  · rw [enroll_nodeID t s x hi] at hid
    obtain hj | rfl := Nat.lt_succ_iff_lt_or_eq.mp hj
    · rw [enroll_nodeID t s x hj] at hid
      exact h i j hi hj hid
    · exact absurd (hid.trans hnew) (hold i hi)
  · obtain hj | rfl := Nat.lt_succ_iff_lt_or_eq.mp hj
    · rw [enroll_nodeID t s x hj, hnew] at hid
      exact absurd hid.symm (hold j hj)
    · rfl

theorem stored_enroll (h : Distinct t) (hf : find t s = none) (x s' : Int) :
    stored (enroll t s x) s' = if s' = s then some (int64 (x - 1)) else stored t s' := by
  have hd := enroll_distinct h hf x
  by_cases hs : s' = s
  · subst hs
    have hfind : find (enroll t s' x) s' = some t.numberOfNodes :=
      (find_eq_some_iff hd).mpr ⟨Nat.lt_succ_self _, by simp [enroll]⟩
    rw [stored]
    rw [hfind, if_pos rfl]
    simp [enroll]
  · rw [if_neg hs]
    unfold stored
    cases hf' : find t s' with
    | none =>
      have hnone : find (enroll t s x) s' = none := by
        apply find_eq_none_iff.mpr
        intro i hi
        obtain hi | rfl := Nat.lt_succ_iff_lt_or_eq.mp hi
        · rw [enroll_nodeID t s x hi]
          exact find_eq_none_iff.mp hf' i hi
        · simpa [enroll] using Ne.symm hs
      rw [hnone]
      rfl
    | some other =>
      obtain ⟨hlt, hid⟩ := find_spec hf'
      have hsome : find (enroll t s x) s' = some other :=
        (find_eq_some_iff hd).mpr ⟨Nat.lt_succ_of_lt hlt, by rw [enroll_nodeID t s x hlt, hid]⟩
      rw [hsome, Option.map_some, Option.map_some, enroll_nodeID t s x hlt]

/-- The message is not newer than the last one accepted of its sender, and
not so much older that the sender must have restarted. -/
def Seen (t : SeenNodes) (msg : NetworkMessage) : Prop :=
  ∃ last, stored t (getSenderNode msg) = some last ∧ getSentTime msg ≤ last ∧
    last ≤ getSentTime msg + 5 * seconds

structure Judges (t : SeenNodes) (msg : NetworkMessage) (o : Outcome) : Prop where
  wellFormed : WellFormed o.table
  left : o.left = true
  seen : o.seen = true ↔ Seen t msg
  stored : ∀ s, stored o.table s =
    if s = getSenderNode msg ∧ o.seen = false then some (getSentTime msg) else stored t s

theorem judges_known {msg : NetworkMessage} (h : WellFormed t)
    (hf : find t (getSenderNode msg) = some node) (h0 : 0 ≤ getSentTime msg) :
    Judges t msg (compareTime t node (getSentTime msg)) := by
  have hlt := getSentTime_lt msg
  have hlast := h.times node (find_spec hf).1
  have hstored : DuplicateSuppression.stored t (getSenderNode msg) =
      some (t.seenNodes node).lastMsgTime := by
    rw [DuplicateSuppression.stored]
    rw [hf, Option.map_some]
  have hsub : int64 ((t.seenNodes node).lastMsgTime - getSentTime msg) =
      (t.seenNodes node).lastMsgTime - getSentTime msg := int64_of_range (by omega) (by omega)
  rw [compareTime]
  rw [hsub]
  split
  · rename_i hle
    split
    · rename_i hrestart
      refine ⟨wellFormed_setTime h h0 hlt, rfl, ?_, ?_⟩
      · simp only [Bool.false_eq_true, false_iff, Seen, hstored, Option.some.injEq]
        rintro ⟨last, rfl, -, hbig⟩
        omega
      · intro s
        simp only [and_true]
        exact stored_setTime hf _ s
    · rename_i hnew
      refine ⟨h, rfl, ?_, ?_⟩
      · simp only [true_iff]
        exact ⟨_, hstored, hle, by omega⟩
      · intro s
        simp
  · rename_i hgt
    refine ⟨wellFormed_setTime h h0 hlt, rfl, ?_, ?_⟩
    · simp only [Bool.false_eq_true, false_iff, Seen, hstored, Option.some.injEq]
      rintro ⟨last, rfl, hle, -⟩
      exact hgt hle
    · intro s
      simp only [and_true]
      exact stored_setTime hf _ s

theorem judges_unknown {msg : NetworkMessage} (h : WellFormed t)
    (hf : find t (getSenderNode msg) = none) (hroom : t.numberOfNodes < maxNumberOfNodes)
    (h0 : 0 ≤ getSentTime msg) :
    Judges t msg (compareTime (enroll t (getSenderNode msg) (getSentTime msg)) t.numberOfNodes
      (getSentTime msg)) := by
  have hlt := getSentTime_lt msg
  have hd := enroll_distinct h.distinct hf (getSentTime msg)
  have hpred : int64 (getSentTime msg - 1) = getSentTime msg - 1 :=
    int64_of_range (by omega) (by omega)
  have hnone : DuplicateSuppression.stored t (getSenderNode msg) = none := by
    rw [DuplicateSuppression.stored]
    rw [hf, Option.map_none]
  generalize ht' : enroll t (getSenderNode msg) (getSentTime msg) = t' at *
  have hlast : (t'.seenNodes t.numberOfNodes).lastMsgTime = getSentTime msg - 1 := by
    rw [← ht', ← hpred]
    simp [enroll]
  have hcount : t'.numberOfNodes = t.numberOfNodes + 1 := by rw [← ht']; rfl
  have hfind : find t' (getSenderNode msg) = some t.numberOfNodes := by
    apply (find_eq_some_iff hd).mpr
    refine ⟨by omega, ?_⟩
    rw [← ht']
    simp [enroll]
  rw [compareTime]
  rw [if_neg (by omega)]
  refine ⟨⟨?_, ?_, ?_⟩, rfl, ?_, ?_⟩
  · intro i j hi hj hid
    rw [setTime_nodeID, setTime_nodeID] at hid
    exact hd i j hi hj hid
  · change t'.numberOfNodes ≤ maxNumberOfNodes
    omega
  · intro i hi
    by_cases hn : i = t.numberOfNodes
    · subst hn
      have hval : ((setTime t' t.numberOfNodes (getSentTime msg)).seenNodes
          t.numberOfNodes).lastMsgTime = getSentTime msg := by simp [setTime]
      rw [hval]
      exact ⟨h0, hlt⟩
    · change i < t'.numberOfNodes at hi
      have hi' : i < t.numberOfNodes := by omega
      have htime := h.times i hi'
      rw [← enroll_nodeID t (getSenderNode msg) (getSentTime msg) hi', ht'] at htime
      simpa [setTime, hn] using htime
  · simp only [Bool.false_eq_true, false_iff, Seen, hnone]
    rintro ⟨last, hsome, -⟩
    cases hsome
  · intro s
    simp only [and_true]
    rw [stored_setTime hfind]
    by_cases hs : s = getSenderNode msg
    · rw [if_pos hs, if_pos hs]
    · rw [if_neg hs, if_neg hs, ← ht', stored_enroll h.distinct hf, if_neg hs]

theorem messageSeen_judges {msg : NetworkMessage} (h : WellFormed t)
    (hroom : find t (getSenderNode msg) = none → t.numberOfNodes < maxNumberOfNodes)
    (h0 : 0 ≤ getSentTime msg) : Judges t msg (messageSeen t msg) := by
  rw [messageSeen]
  cases hf : find t (getSenderNode msg) with
  | some node => exact judges_known h hf h0
  | none =>
    simp only [if_pos (hroom hf)]
    exact judges_unknown h hf (hroom hf) h0

end

section Runs

variable (msgs : Nat → NetworkMessage) (initial : SeenNodes)

/-- The table when the message with the given number arrives, in the order in
which the gateways hand their messages over. -/
def tableAt : Nat → SeenNodes
  | 0 => initial
  | n + 1 => (messageSeen (tableAt n) (msgs n)).table

def Accepted (n : Nat) : Prop := (messageSeen (tableAt msgs initial n) (msgs n)).seen = false

instance (n : Nat) : Decidable (Accepted msgs initial n) := by
  unfold Accepted
  infer_instance

/-- The time of the message of a sender that was accepted last. -/
def lastAccepted : Nat → Int → Option Int
  | 0, _ => none
  | n + 1, s =>
    if s = getSenderNode (msgs n) ∧ Accepted msgs initial n then some (getSentTime (msgs n))
    else lastAccepted n s

/-- A message is accepted although it is more than five seconds below the
time stored for its sender. -/
def Restarts (n : Nat) (s : Int) : Prop :=
  getSenderNode (msgs n) = s ∧ Accepted msgs initial n ∧
    ∃ last, stored (tableAt msgs initial n) s = some last ∧
      getSentTime (msgs n) + 5 * seconds < last

structure Keeps (senders : Finset Int) (n : Nat) : Prop where
  wellFormed : WellFormed (tableAt msgs initial n)
  known : ∀ s, find (tableAt msgs initial n) s ≠ none → s ∈ senders
  recent : ∀ s, stored (tableAt msgs initial n) s = lastAccepted msgs initial n s

theorem find_ne_none_iff (t : SeenNodes) (s : Int) : find t s ≠ none ↔ stored t s ≠ none := by
  simp [stored]

theorem room_of_known {t : SeenNodes} (h : Distinct t) {senders : Finset Int}
    (hk : ∀ s, find t s ≠ none → s ∈ senders) {s : Int} (hs : s ∈ senders)
    (hf : find t s = none) : t.numberOfNodes < senders.card := by
  have hid : ∀ i ∈ Finset.range t.numberOfNodes, (t.seenNodes i).nodeID ∈ senders.erase s := by
    intro i hi
    have hlt := Finset.mem_range.mp hi
    apply Finset.mem_erase.mpr
    refine ⟨find_eq_none_iff.mp hf i hlt, hk _ ?_⟩
    rw [(find_eq_some_iff h).mpr ⟨hlt, rfl⟩]
    exact Option.some_ne_none i
  have hcard := Finset.card_le_card_of_injOn (fun i => (t.seenNodes i).nodeID) hid
    (fun i hi j hj hij => h i j (by simpa using hi) (by simpa using hj) hij)
  have hpos := Finset.card_pos.mpr ⟨s, hs⟩
  rw [Finset.card_range, Finset.card_erase_of_mem hs] at hcard
  omega

variable {msgs initial} (hinit : initial.numberOfNodes = 0)
  (htime : ∀ n, 0 ≤ getSentTime (msgs n)) {senders : Finset Int}
  (hcard : senders.card ≤ maxNumberOfNodes) (hsender : ∀ n, getSenderNode (msgs n) ∈ senders)

include hinit in
theorem keeps_zero : Keeps msgs initial senders 0 where
  wellFormed := by
    refine ⟨?_, ?_, ?_⟩
    · intro i j hi
      exact absurd hi (by simp [tableAt, hinit])
    · simp [tableAt, hinit]
    · intro i hi
      exact absurd hi (by simp [tableAt, hinit])
  known := by
    intro s hs
    exact absurd (find_eq_none_iff.mpr (by simp [tableAt, hinit])) hs
  recent := by
    intro s
    have hnone : find (tableAt msgs initial 0) s = none :=
      find_eq_none_iff.mpr (by simp [tableAt, hinit])
    rw [stored]
    rw [hnone]
    rfl

include htime hcard hsender in
theorem keeps_judges {n : Nat} (h : Keeps msgs initial senders n) :
    Judges (tableAt msgs initial n) (msgs n) (messageSeen (tableAt msgs initial n) (msgs n)) := by
  apply messageSeen_judges h.wellFormed _ (htime n)
  intro hf
  exact lt_of_lt_of_le (room_of_known h.wellFormed.distinct h.known (hsender n) hf) hcard

include htime hcard hsender in
theorem keeps_succ {n : Nat} (h : Keeps msgs initial senders n) :
    Keeps msgs initial senders (n + 1) := by
  have hj := keeps_judges htime hcard hsender h
  refine ⟨hj.wellFormed, ?_, ?_⟩
  · intro s hs
    rw [find_ne_none_iff] at hs
    change stored (messageSeen (tableAt msgs initial n) (msgs n)).table s ≠ none at hs
    rw [hj.stored] at hs
    by_cases hcase : s = getSenderNode (msgs n)
    · rw [hcase]
      exact hsender n
    · rw [if_neg (fun hc => hcase hc.1), ← find_ne_none_iff] at hs
      exact h.known s hs
  · intro s
    change stored (messageSeen (tableAt msgs initial n) (msgs n)).table s = _
    rw [hj.stored, lastAccepted, h.recent]
    rfl

include hinit htime hcard hsender in
theorem keeps (n : Nat) : Keeps msgs initial senders n := by
  induction n with
  | zero => exact keeps_zero hinit
  | succ n ih => exact keeps_succ htime hcard hsender ih

include hinit htime hcard hsender in
/-- Between two messages without a restart the stored time does not fall. -/
theorem stored_mono {i : Nat} (hi : Accepted msgs initial i) (k : Nat)
    (hno : ∀ m, i < m → m ≤ i + k → ¬ Restarts msgs initial m (getSenderNode (msgs i))) :
    ∃ last, stored (tableAt msgs initial (i + k + 1)) (getSenderNode (msgs i)) = some last ∧
      getSentTime (msgs i) ≤ last := by
  induction k with
  | zero =>
    have hj := keeps_judges htime hcard hsender (keeps hinit htime hcard hsender i)
    exact ⟨_, (hj.stored _).trans (if_pos ⟨rfl, hi⟩), le_rfl⟩
  | succ k ih =>
    obtain ⟨last, hlast, hle⟩ := ih (fun m hm hmk => hno m hm (by omega))
    have hj := keeps_judges htime hcard hsender (keeps hinit htime hcard hsender (i + k + 1))
    have hstored := hj.stored (getSenderNode (msgs i))
    by_cases hcase : getSenderNode (msgs i) = getSenderNode (msgs (i + k + 1)) ∧
        Accepted msgs initial (i + k + 1)
    · refine ⟨_, hstored.trans (if_pos hcase), ?_⟩
      by_contra hlt
      have hnot : ¬ Seen (tableAt msgs initial (i + k + 1)) (msgs (i + k + 1)) := by
        rw [← hj.seen]
        have hacc := hcase.2
        rw [Accepted] at hacc
        simp [hacc]
      apply hno (i + k + 1) (by omega) (by omega)
      refine ⟨hcase.1.symm, hcase.2, last, hlast, ?_⟩
      by_contra hnear
      exact hnot ⟨last, hcase.1 ▸ hlast, by omega, by omega⟩
    · exact ⟨last, (hstored.trans (if_neg hcase)).trans hlast, hle⟩

include hinit htime hcard hsender in
/-- A message is accepted again only after its sender was taken to have
restarted, and the table keeps one entry for each sender with the time of the
message accepted last. -/
theorem duplicates_suppressed :
    (∀ n, WellFormed (tableAt msgs initial n) ∧
      ∀ s, stored (tableAt msgs initial n) s = lastAccepted msgs initial n s) ∧
    ∀ i j, i < j → getSenderNode (msgs j) = getSenderNode (msgs i) →
      getSentTime (msgs j) = getSentTime (msgs i) → Accepted msgs initial i →
      Accepted msgs initial j →
      ∃ k, i < k ∧ k ≤ j ∧ Restarts msgs initial k (getSenderNode (msgs i)) := by
  refine ⟨fun n => ⟨(keeps hinit htime hcard hsender n).wellFormed,
    (keeps hinit htime hcard hsender n).recent⟩, ?_⟩
  intro i j hij hnode htimes hi hj
  by_contra hno
  push Not at hno
  obtain ⟨k, rfl⟩ : ∃ k, j = i + k + 1 := ⟨j - i - 1, by omega⟩
  obtain ⟨last, hlast, hle⟩ := stored_mono hinit htime hcard hsender hi k
    (fun m hm hmk => hno m hm (by omega))
  have hjudge := keeps_judges htime hcard hsender (keeps hinit htime hcard hsender (i + k + 1))
  apply hno (i + k + 1) hij le_rfl
  refine ⟨hnode, hj, last, hlast, ?_⟩
  by_contra hnear
  have hsame : stored (tableAt msgs initial (i + k + 1)) (getSenderNode (msgs (i + k + 1))) =
      some last := by
    rw [hnode]
    exact hlast
  have hseen : (messageSeen (tableAt msgs initial (i + k + 1)) (msgs (i + k + 1))).seen = true :=
    hjudge.seen.mpr ⟨last, hsame, by omega, by omega⟩
  rw [Accepted] at hj
  rw [hseen] at hj
  cases hj

end Runs

/-- A node that sends the same message before and after it has restarted. -/
def restartedSender (n : Nat) : NetworkMessage :=
  prepareNetworkMessage blank 100 [] { request with sentTime := if n = 1 then 1 else 10000000000 }

def emptyTable : SeenNodes := ⟨fun _ => ⟨0, 0⟩, 0⟩

theorem duplicates_suppressed_restartedSender :
    (∀ n, WellFormed (tableAt restartedSender emptyTable n)) ∧
    ∃ k, 0 < k ∧ k ≤ 2 ∧ Restarts restartedSender emptyTable k (-2) := by
  have hheader (n : Nat) := header_prepareNetworkMessage blank 100
    { request with sentTime := if n = 1 then 1 else 10000000000 }
    (show ([] : List UInt8).length ≤ maxNetworkMessageLength by decide)
  have hnode (n : Nat) : getSenderNode (restartedSender n) = -2 := by
    have h := congrArg Header.senderNode (hheader n)
    simp only [header] at h
    exact h.trans (by decide)
  have htime (n : Nat) : getSentTime (restartedSender n) = if n = 1 then 1 else 10000000000 := by
    have h := congrArg Header.sentTime (hheader n)
    simp only [header] at h
    refine h.trans ?_
    by_cases hn : n = 1
    · simp only [if_pos hn]
      decide
    · simp only [if_neg hn]
      decide
  have hnonneg (n : Nat) : 0 ≤ getSentTime (restartedSender n) := by
    rw [htime]
    split <;> decide
  have hsender (n : Nat) : getSenderNode (restartedSender n) ∈ ({-2} : Finset Int) := by
    rw [hnode]
    decide
  obtain ⟨hkeeps, hrestart⟩ := duplicates_suppressed
    (show emptyTable.numberOfNodes = 0 from rfl) hnonneg (by decide) hsender
  refine ⟨fun n => (hkeeps n).1, ?_⟩
  have h := hrestart 0 2 (by decide) ((hnode 2).trans (hnode 0).symm) ?_ ?_ ?_
  · rwa [hnode] at h
  · rw [htime, htime]
    decide
  · decide +kernel
  · decide +kernel

end Rodos.DuplicateSuppression
