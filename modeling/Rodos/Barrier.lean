import Rodos.TransitionSystem

namespace Rodos.Barrier

open TransitionSystem

inductive WaitPc
  | idle
  | test
  | register
  | suspended
  | clear (ok : Bool)
  | leave (ok : Bool)
  deriving DecidableEq

inductive UnblockPc
  | idle
  | test
  | signal
  | leave (ok : Bool)
  deriving DecidableEq

/-- A call of `unblock`: what it returns, as soon as that is decided, the call of
`waitForSignal` in which its scope has run, and those that it overlaps. -/
structure Unblock where
  result : Option Bool
  during : Option Nat
  overlapped : List Nat

/-- The barrier with the waiting thread and the one that gives the signal. The calls of
each are numbered, `waits` and `ended` tell which of them have returned. -/
structure System where
  owner : Bool
  sleeping : Bool
  waitPc : WaitPc
  unblockPc : UnblockPc
  waits : List Bool
  ended : Nat
  unblocks : Nat → Unblock

inductive Event
  | waitForSignal
  | waiter
  | timeout
  | unblock
  | unblocker

def waiting (s : System) : Option Nat := if s.waitPc = .idle then none else some s.waits.length

def System.note (s : System) (f : Unblock → Unblock) : System :=
  { s with unblocks := Function.update s.unblocks s.ended (f (s.unblocks s.ended)) }

def waitForSignalStep (s : System) : Option System :=
  match s.waitPc with
  | .idle => none
  | .test =>
    if s.owner then some { s with waitPc := .leave false }
    else some { s with waitPc := .register }
  | .register => some { s with owner := true, sleeping := true, waitPc := .suspended }
  | .suspended => if s.sleeping then none else some { s with waitPc := .clear !s.owner }
  | .clear ok => some { s with owner := false, waitPc := .leave ok }
  | .leave ok => some { s with waitPc := .idle, waits := s.waits ++ [ok] }

def unblockStep (s : System) : Option System :=
  match s.unblockPc with
  | .idle => none
  | .test =>
    if s.owner then some { s with unblockPc := .signal }
    else some (({ s with unblockPc := .leave false } : System).note
      fun u => { u with result := some false })
  | .signal => some (({ s with
      owner := false
      sleeping := s.sleeping && !s.owner
      unblockPc := .leave s.owner } : System).note
        fun u => { u with result := some s.owner, during := waiting s })
  | .leave _ => some { s with unblockPc := .idle, ended := s.ended + 1 }

def step : Event → System → Option System
  | .waitForSignal, s =>
    match s.waitPc with
    | .idle =>
      if s.unblockPc = .idle then some { s with waitPc := .test }
      else some (({ s with waitPc := .test } : System).note
        fun u => { u with overlapped := u.overlapped ++ [s.waits.length] })
    | _ => none
  | .waiter, s => waitForSignalStep s
  | .timeout, s =>
    match s.waitPc with
    | .suspended => some { s with sleeping := false }
    | _ => none
  | .unblock, s =>
    match s.unblockPc with
    | .idle => some (({ s with unblockPc := .test } : System).note
        fun _ => ⟨none, none, (waiting s).toList⟩)
    | _ => none
  | .unblocker, s => unblockStep s

def constructed : System where
  owner := false
  sleeping := false
  waitPc := .idle
  unblockPc := .idle
  waits := []
  ended := 0
  unblocks := fun _ => ⟨none, none, []⟩

/-- A call of `waitForSignal` returns `true` if and only if exactly one call of
`unblock` that belongs to it does, and every such call belongs to exactly one that has
not returned `false`. -/
structure Agreement (belongs : Unblock → Nat → Prop) (s : System) : Prop where
  waitForSignal : ∀ w ok, s.waits[w]? = some ok →
    (ok = true ↔ ∃! u, (s.unblocks u).result = some true ∧ belongs (s.unblocks u) w)
  unblock : ∀ u, (s.unblocks u).result = some true →
    ∃! w, belongs (s.unblocks u) w ∧ s.waits[w]? ≠ some false

/-- The scope of `unblock` ran during the call. -/
def Signals (u : Unblock) (w : Nat) : Prop := u.during = some w

def Overlaps (u : Unblock) (w : Nat) : Prop := w ∈ u.overlapped

/-- `unblock` does not give its signal to a call that has already found out that it
timed out. -/
def InTime : Event → System → Prop
  | .unblocker, s => s.unblockPc = .signal → s.waitPc ≠ .clear false
  | _, _ => True

/-- No call of `unblock` has overlapped two calls of `waitForSignal`. -/
def Apart (s : System) : Prop := ∀ u, (s.unblocks u).overlapped.length ≤ 1

section Outcome

def Outcome (signals : Nat → Option Nat) (w : Nat) : Bool → Prop
  | true => ∃! u, signals u = some w
  | false => ∀ u, signals u ≠ some w

variable {signals : Nat → Option Nat} {u w : Nat}

theorem Outcome.update_self (h : Outcome signals w false) :
    Outcome (Function.update signals u (some w)) w true := by
  refine ⟨u, Function.update_self _ _ _, fun v hv => ?_⟩
  by_contra hne
  dsimp only at hv
  rw [Function.update_of_ne hne] at hv
  exact h v hv

theorem update_eq_some_iff (hu : signals u = none) {w' : Nat} (hne : w' ≠ w) (v : Nat) :
    Function.update signals u (some w) v = some w' ↔ signals v = some w' := by
  by_cases hv : v = u
  · subst hv
    rw [Function.update_self, hu]
    exact ⟨fun heq => absurd (Option.some.inj heq).symm hne, nofun⟩
  · rw [Function.update_of_ne hv]

theorem Outcome.update_other {w' : Nat} {ok : Bool} (h : Outcome signals w' ok)
    (hu : signals u = none) (hne : w' ≠ w) :
    Outcome (Function.update signals u (some w)) w' ok := by
  have hsame := update_eq_some_iff hu hne
  cases ok with
  | true =>
    obtain ⟨v, hv, hunique⟩ := h
    exact ⟨v, (hsame v).mpr hv, fun v' hv' => hunique v' ((hsame v').mp hv')⟩
  | false => exact fun v hv => h v ((hsame v).mp hv)

end Outcome

section Invariant

def signal (u : Unblock) : Option Nat := if u.result = some true then u.during else none

def signals (s : System) (u : Nat) : Option Nat := signal (s.unblocks u)

def Now (signals : Nat → Option Nat) (s : System) : Prop :=
  match s.waitPc with
  | .suspended => Outcome signals s.waits.length !s.owner
  | .clear ok => s.owner = !ok ∧ Outcome signals s.waits.length ok
  | .leave ok => s.owner = false ∧ Outcome signals s.waits.length ok
  | _ => s.owner = false ∧ Outcome signals s.waits.length false

structure Counted (signals : Nat → Option Nat) (s : System) : Prop where
  past : ∀ w ok, s.waits[w]? = some ok → Outcome signals w ok
  now : Now signals s
  later : ∀ u w, signals u = some w → w ≤ s.waits.length

variable {s t : System}

theorem Counted.congr {g : Nat → Option Nat} (h : Counted g s) (howner : t.owner = s.owner)
    (hpc : t.waitPc = s.waitPc) (hwaits : t.waits = s.waits) : Counted g t := by
  refine ⟨?_, ?_, ?_⟩
  · rw [hwaits]
    exact h.past
  · rw [Now, howner, hpc, hwaits]
    exact h.now
  · rw [hwaits]
    exact h.later

theorem getElem?_concat_eq_some {l : List Bool} {ok ok' : Bool} {w : Nat}
    (h : (l ++ [ok])[w]? = some ok') : l[w]? = some ok' ∨ w = l.length ∧ ok = ok' := by
  rw [List.getElem?_append] at h
  split at h
  · exact .inl h
  · obtain ⟨hw, rfl⟩ := List.getElem?_eq_some_iff.mp h
    rw [List.length_singleton] at hw
    exact .inr ⟨by omega, by simp⟩

theorem Counted.waiter (h : Counted (signals s) s) (hstep : waitForSignalStep s = some t) :
    Counted (signals t) t := by
  obtain ⟨hpast, hnow, hlater⟩ := h
  cases hpc : s.waitPc with
  | idle =>
    rw [waitForSignalStep, hpc] at hstep
    cases hstep
  | test =>
    rw [Now, hpc] at hnow
    rw [waitForSignalStep, hpc] at hstep
    dsimp only at hstep
    rw [if_neg (Bool.eq_false_iff.mp hnow.1)] at hstep
    cases hstep
    exact ⟨hpast, hnow, hlater⟩
  | register =>
    rw [Now, hpc] at hnow
    rw [waitForSignalStep, hpc] at hstep
    cases hstep
    exact ⟨hpast, hnow.2, hlater⟩
  | suspended =>
    rw [Now, hpc] at hnow
    rw [waitForSignalStep, hpc] at hstep
    dsimp only at hstep
    split at hstep
    · cases hstep
    · cases hstep
      exact ⟨hpast, ⟨(Bool.not_not _).symm, hnow⟩, hlater⟩
  | clear ok =>
    rw [Now, hpc] at hnow
    rw [waitForSignalStep, hpc] at hstep
    cases hstep
    exact ⟨hpast, ⟨rfl, hnow.2⟩, hlater⟩
  | leave ok =>
    rw [Now, hpc] at hnow
    rw [waitForSignalStep, hpc] at hstep
    cases hstep
    have hlength : (s.waits ++ [ok]).length = s.waits.length + 1 := List.length_append
    refine ⟨fun w ok' hw => ?_, ⟨hnow.1, fun u hu => ?_⟩, fun u w hu => ?_⟩
    · obtain hold | ⟨rfl, rfl⟩ := getElem?_concat_eq_some hw
      · exact hpast w ok' hold
      · exact hnow.2
    · have hle := hlater u _ hu
      dsimp only at hle
      omega
    · have hle := hlater u w hu
      dsimp only
      omega

structure Inv (s : System) : Prop where
  counted : Counted (signals s) s
  during : ∀ u, (s.unblocks u).result = some true → ∃ w, (s.unblocks u).during = some w
  undecided : ∀ u, (s.unblocks u).result ≠ none →
    u < s.ended ∨ u = s.ended ∧ ∃ ok, s.unblockPc = .leave ok
  inside : ∀ u w, (s.unblocks u).during = some w → w ∈ (s.unblocks u).overlapped
  running : s.unblockPc ≠ .idle → ∀ w, waiting s = some w → w ∈ (s.unblocks s.ended).overlapped

theorem inv_constructed : Inv constructed where
  counted := ⟨nofun, ⟨rfl, nofun⟩, nofun⟩
  during := nofun
  undecided _ h := absurd rfl h
  inside := nofun
  running h := absurd rfl h

theorem note_ended (s : System) (f : Unblock → Unblock) :
    (s.note f).unblocks s.ended = f (s.unblocks s.ended) :=
  Function.update_self _ _ _

theorem note_of_ne (s : System) (f : Unblock → Unblock) {u : Nat} (hu : u ≠ s.ended) :
    (s.note f).unblocks u = s.unblocks u :=
  Function.update_of_ne hu _ _

theorem forall_note {P : Unblock → Prop} {f : Unblock → Unblock} (h : ∀ u, P (s.unblocks u))
    (hnoted : P (f (s.unblocks s.ended))) (u : Nat) : P ((s.note f).unblocks u) := by
  by_cases hu : u = s.ended
  · rw [hu, note_ended]
    exact hnoted
  · rw [note_of_ne s f hu]
    exact h u

theorem signals_note (s : System) (f : Unblock → Unblock) :
    signals (s.note f) = Function.update (signals s) s.ended (signal (f (s.unblocks s.ended))) := by
  funext u
  by_cases hu : u = s.ended
  · rw [hu, signals, note_ended, Function.update_self]
  · rw [signals, note_of_ne s f hu, Function.update_of_ne hu, signals]

theorem signals_note_same {f : Unblock → Unblock}
    (h : signal (f (s.unblocks s.ended)) = signal (s.unblocks s.ended)) :
    signals (s.note f) = signals s := by
  rw [signals_note, h]
  exact Function.update_eq_self _ _

theorem Inv.result_ended (h : Inv s) (hpc : ∀ ok, s.unblockPc ≠ .leave ok) :
    (s.unblocks s.ended).result = none := by
  by_contra hresult
  obtain hlt | ⟨_, ok, hok⟩ := h.undecided s.ended hresult
  · exact Nat.lt_irrefl _ hlt
  · exact hpc ok hok

theorem waiter_frame (hstep : waitForSignalStep s = some t) :
    t.unblocks = s.unblocks ∧ t.ended = s.ended ∧ t.unblockPc = s.unblockPc ∧
      ∀ w, waiting t = some w → waiting s = some w := by
  rw [waitForSignalStep] at hstep
  split at hstep
  · cases hstep
  · rename_i hpc
    split at hstep <;> cases hstep <;> exact ⟨rfl, rfl, rfl, by simp [waiting, hpc]⟩
  · rename_i hpc
    cases hstep
    exact ⟨rfl, rfl, rfl, by simp [waiting, hpc]⟩
  · rename_i hpc
    split at hstep <;> cases hstep
    exact ⟨rfl, rfl, rfl, by simp [waiting, hpc]⟩
  · rename_i hpc
    cases hstep
    exact ⟨rfl, rfl, rfl, by simp [waiting, hpc]⟩
  · rename_i hpc
    cases hstep
    exact ⟨rfl, rfl, rfl, by simp [waiting]⟩

theorem Inv.waiter (h : Inv s) (hstep : waitForSignalStep s = some t) : Inv t := by
  obtain ⟨hunblocks, hended, hpc, hwaiting⟩ := waiter_frame hstep
  refine ⟨h.counted.waiter hstep, ?_, ?_, ?_, ?_⟩
  · rw [hunblocks]
    exact h.during
  · rw [hunblocks, hended, hpc]
    exact h.undecided
  · rw [hunblocks]
    exact h.inside
  · rw [hunblocks, hended, hpc]
    exact fun hidle w hw => h.running hidle w (hwaiting w hw)

theorem waiting_eq (hpc : s.waitPc ≠ .idle) : waiting s = some s.waits.length := if_neg hpc

/-- The scope of `unblock` gives the signal to the call that waits, or to none. -/
theorem Counted.signal {g : Nat → Option Nat} {u : Nat} (h : Counted g s) (hu : g u = none)
    (hintime : s.waitPc ≠ .clear false) (hpc : t.waitPc = s.waitPc) (hwaits : t.waits = s.waits)
    (howner : t.owner = false) :
    Counted (Function.update g u (if s.owner then waiting s else none)) t := by
  cases howner' : s.owner with
  | false =>
    rw [if_neg Bool.false_ne_true, ← hu, Function.update_eq_self]
    exact h.congr (howner.trans howner'.symm) hpc hwaits
  | true =>
    obtain ⟨hpast, hnow, hlater⟩ := h
    have hsuspended : s.waitPc = .suspended := by
      rw [Now] at hnow
      split at hnow
      · assumption
      · rename_i ok hclear
        rw [howner'] at hnow
        obtain rfl : ok = false := by simpa using hnow.1.symm
        exact absurd hclear hintime
      · rw [howner'] at hnow
        cases hnow.1
      · rw [howner'] at hnow
        cases hnow.1
    rw [if_pos rfl, waiting_eq (by simp [hsuspended])]
    refine ⟨fun w ok hw => ?_, ?_, fun v w hv => ?_⟩
    · rw [hwaits] at hw
      have hlt := (List.getElem?_eq_some_iff.mp hw).1
      exact (hpast w ok hw).update_other hu hlt.ne
    · rw [Now, hsuspended, howner'] at hnow
      rw [Now, hpc, hsuspended, howner, hwaits]
      exact hnow.update_self
    · rw [hwaits]
      by_cases hvu : v = u
      · subst hvu
        rw [Function.update_self] at hv
        exact (Option.some.inj hv).ge
      · rw [Function.update_of_ne hvu] at hv
        exact hlater v w hv

theorem Inv.note (h : Inv s) {f : Unblock → Unblock} (hunblocks : t.unblocks = s.unblocks)
    (hended : t.ended = s.ended) (hcounted : Counted (signals (t.note f)) t)
    (hduring : (f (s.unblocks s.ended)).result = some true →
      ∃ w, (f (s.unblocks s.ended)).during = some w)
    (hundecided : (f (s.unblocks s.ended)).result ≠ none → ∃ ok, t.unblockPc = .leave ok)
    (hinside : ∀ w, (f (s.unblocks s.ended)).during = some w →
      w ∈ (f (s.unblocks s.ended)).overlapped)
    (hrunning : ∀ w, waiting t = some w → w ∈ (f (s.unblocks s.ended)).overlapped) :
    Inv (t.note f) := by
  rw [← hended, ← hunblocks] at hduring hundecided hinside hrunning
  refine ⟨hcounted.congr rfl rfl rfl, ?_, ?_, ?_, ?_⟩
  · refine forall_note (P := fun u => u.result = some true → ∃ w, u.during = some w) ?_ hduring
    rw [hunblocks]
    exact h.during
  · intro u hu
    by_cases hlast : u = t.ended
    · subst hlast
      rw [note_ended] at hu
      exact .inr ⟨rfl, hundecided hu⟩
    · rw [note_of_ne t f hlast, hunblocks] at hu
      obtain hlt | ⟨heq, _⟩ := h.undecided u hu
      · exact .inl (hended ▸ hlt)
      · exact absurd (heq.trans hended.symm) hlast
  · refine forall_note (P := fun u => ∀ w, u.during = some w → w ∈ u.overlapped) ?_ hinside
    rw [hunblocks]
    exact h.inside
  · intro _ w hw
    exact (note_ended t f).symm ▸ hrunning w hw

theorem Inv.signal (h : Inv s) (hintime : s.waitPc ≠ .clear false) (hpc : s.unblockPc = .signal) :
    Inv (({ s with
      owner := false
      sleeping := s.sleeping && !s.owner
      unblockPc := .leave s.owner } : System).note
        fun u => { u with result := some s.owner, during := waiting s }) := by
  have hnone := h.result_ended (by simp [hpc])
  have hsignals : signals s s.ended = none := by simp [signals, Barrier.signal, hnone]
  have hrunning := h.running (by simp [hpc])
  refine h.note rfl rfl ?_ ?_ (fun _ => ⟨_, rfl⟩) hrunning hrunning
  · have hsignal : Barrier.signal { s.unblocks s.ended with
        result := some s.owner
        during := waiting s } = if s.owner then waiting s else none := by
      simp [Barrier.signal]
    rw [signals_note]
    change Counted (Function.update (signals s) s.ended (Barrier.signal _)) _
    rw [hsignal]
    exact h.counted.signal hsignals hintime rfl rfl rfl
  · intro howner
    refine ⟨_, waiting_eq fun hidle => ?_⟩
    have hnow := h.counted.now
    rw [Now, hidle] at hnow
    rw [hnow.1] at howner
    cases howner

theorem Inv.unblocker (h : Inv s) (hintime : InTime .unblocker s)
    (hstep : unblockStep s = some t) : Inv t := by
  cases hpc : s.unblockPc with
  | idle =>
    rw [unblockStep, hpc] at hstep
    cases hstep
  | test =>
    have hnone := h.result_ended (by simp [hpc])
    have hundecided : ∀ u, (s.unblocks u).result ≠ none → u < s.ended := fun u hu => by
      obtain hlt | ⟨_, ok, hok⟩ := h.undecided u hu
      · exact hlt
      · cases hpc.symm.trans hok
    rw [unblockStep, hpc] at hstep
    dsimp only at hstep
    split at hstep
    · cases hstep
      exact ⟨h.counted.congr rfl rfl rfl, h.during, fun u hu => .inl (hundecided u hu), h.inside,
        fun _ => h.running (by simp [hpc])⟩
    · cases hstep
      refine h.note rfl rfl ?_ nofun (fun _ => ⟨_, rfl⟩) ?_ (h.running (by simp [hpc]))
      · rw [signals_note_same (by simp [Barrier.signal, hnone])]
        exact h.counted.congr rfl rfl rfl
      · exact h.inside s.ended
  | signal =>
    rw [unblockStep, hpc] at hstep
    cases hstep
    exact h.signal (hintime hpc) hpc
  | leave ok =>
    rw [unblockStep, hpc] at hstep
    cases hstep
    refine ⟨h.counted.congr rfl rfl rfl, h.during, fun u hu => ?_, h.inside,
      fun hidle => absurd rfl hidle⟩
    obtain hlt | ⟨rfl, _⟩ := h.undecided u hu
    · exact .inl (Nat.lt_succ_of_lt hlt)
    · exact .inl (Nat.lt_succ_self _)

theorem Inv.step {e : Event} (h : Inv s) (hintime : InTime e s) (hstep : step e s = some t) :
    Inv t := by
  cases e with
  | waitForSignal =>
    rw [Barrier.step] at hstep
    split at hstep
    · rename_i hpc
      have hnow := h.counted.now
      rw [Now, hpc] at hnow
      have hcounted : Counted (signals s) { s with waitPc := .test } :=
        ⟨h.counted.past, hnow, h.counted.later⟩
      split at hstep
      · rename_i hidle
        cases hstep
        exact ⟨hcounted, h.during, h.undecided, h.inside, fun hrunning => absurd hidle hrunning⟩
      · cases hstep
        refine h.note rfl rfl ?_ (h.during s.ended) (fun hresult => ?_) (fun w hw => ?_) (fun w hw => ?_)
        · rw [signals_note_same rfl]
          exact hcounted
        · obtain hlt | ⟨_, hleave⟩ := h.undecided s.ended hresult
          · exact absurd hlt (Nat.lt_irrefl _)
          · exact hleave
        · exact List.mem_append_left _ (h.inside s.ended w hw)
        · obtain rfl : s.waits.length = w := by simpa [waiting] using hw
          exact List.mem_append_right _ (List.mem_singleton_self _)
    · cases hstep
  | waiter => exact h.waiter hstep
  | timeout =>
    rw [Barrier.step] at hstep
    split at hstep
    · cases hstep
      exact ⟨h.counted.congr rfl rfl rfl, h.during, h.undecided, h.inside, h.running⟩
    · cases hstep
  | unblock =>
    rw [Barrier.step] at hstep
    split at hstep
    · rename_i hpc
      have hnone := h.result_ended (by simp [hpc])
      cases hstep
      refine h.note rfl rfl ?_ nofun (fun hresult => absurd rfl hresult) nofun ?_
      · rw [signals_note_same (by simp [Barrier.signal, hnone])]
        exact h.counted.congr rfl rfl rfl
      · exact fun w hw => Option.mem_toList.mpr hw
    · cases hstep
  | unblocker => exact h.unblocker hintime hstep

theorem signals_eq_some_iff {u w : Nat} :
    signals s u = some w ↔ (s.unblocks u).result = some true ∧ (s.unblocks u).during = some w := by
  rw [signals, Barrier.signal]
  split
  · rename_i hresult
    exact ⟨fun hduring => ⟨hresult, hduring⟩, fun h => h.2⟩
  · rename_i hresult
    exact ⟨nofun, fun h => absurd h.1 hresult⟩

theorem Inv.agreement (h : Inv s) : Agreement Signals s where
  waitForSignal w ok hw := by
    have houtcome := h.counted.past w ok hw
    unfold Signals
    simp only [← signals_eq_some_iff]
    cases ok with
    | true => exact ⟨fun _ => houtcome, fun _ => rfl⟩
    | false => exact ⟨nofun, fun hsome => absurd hsome.choose_spec.1 (houtcome _)⟩
  unblock u hu := by
    obtain ⟨w, hw⟩ := h.during u hu
    refine ⟨w, ⟨hw, fun hfalse => ?_⟩, fun w' hw' => ?_⟩
    · exact h.counted.past w false hfalse u (signals_eq_some_iff.mpr ⟨hu, hw⟩)
    · exact Option.some.inj (hw'.1.symm.trans hw)

theorem Inv.overlaps_iff (h : Inv s) (hapart : Apart s) {u : Nat}
    (hu : (s.unblocks u).result = some true) (w : Nat) :
    Overlaps (s.unblocks u) w ↔ Signals (s.unblocks u) w := by
  obtain ⟨w', hw'⟩ := h.during u hu
  have hmem := h.inside u w' hw'
  obtain ⟨w'', hsingle⟩ :=
    List.length_eq_one_iff.mp (le_antisymm (hapart u) (List.length_pos_of_mem hmem))
  rw [hsingle, List.mem_singleton] at hmem
  subst hmem
  rw [Overlaps, Signals, hsingle, hw', List.mem_singleton, Option.some_inj, eq_comm]

theorem Inv.agreement_overlaps (h : Inv s) (hapart : Apart s) : Agreement Overlaps s where
  waitForSignal w ok hw := by
    rw [h.agreement.waitForSignal w ok hw]
    refine existsUnique_congr fun u => and_congr_right fun hu => ?_
    exact (h.overlaps_iff hapart hu w).symm
  unblock u hu := by
    simp only [h.overlaps_iff hapart hu]
    exact h.agreement.unblock u hu

end Invariant

theorem inv_of_reachable {s : System}
    (h : ReachableUnder (fun s => s = constructed) step InTime s) : Inv s := by
  refine h.invariant Inv ?_ ?_
  · rintro s rfl
    exact inv_constructed
  · intro e s t hinv hintime hstep
    exact hinv.step hintime hstep

/-- Both sides agree as long as every signal is given in time. Then a signal belongs to
the call that its scope ran in, which is the only one that `unblock` overlaps if it
overlaps no two. -/
theorem barrier_agreement {s : System}
    (h : ReachableUnder (fun s => s = constructed) step InTime s) :
    Agreement Signals s ∧ (Apart s → Agreement Overlaps s) :=
  ⟨(inv_of_reachable h).agreement, (inv_of_reachable h).agreement_overlaps⟩

instance (e : Event) (s : System) : Decidable (InTime e s) := by
  unfold InTime
  split <;> infer_instance

/-- The signal comes after the timeout, but before the waiting thread goes on. -/
theorem barrier_agreement_late :
    ∃ s : System, s.waits = [true] ∧ Agreement Signals s ∧ Agreement Overlaps s := by
  have hstart : ReachableUnder (fun s => s = constructed) step InTime constructed := .start rfl
  have hrun : run step InTime
      [.waitForSignal, .waiter, .waiter, .timeout, .unblock, .unblocker, .unblocker, .waiter, .waiter,
        .waiter, .unblocker] constructed =
      some ⟨false, false, .idle, .idle, [true], 1,
        Function.update (Function.update constructed.unblocks 0 ⟨none, none, [0]⟩) 0
          ⟨some true, some 0, [0]⟩⟩ := rfl
  have hreach := hstart.run _ hrun
  refine ⟨_, rfl, (barrier_agreement hreach).1, (barrier_agreement hreach).2 fun u => ?_⟩
  by_cases hu : u = 0
  · subst hu
    exact Nat.le_refl 1
  · dsimp only
    rw [Function.update_of_ne hu, Function.update_of_ne hu]
    exact Nat.zero_le 1

/-- The waiting thread has timed out and has not cleared `owner` yet. -/
theorem barrier_disagreement :
    ∃ s : System, Reachable (fun s => s = constructed) step s ∧ s.waits = [false] ∧
      ¬Agreement Signals s ∧ ¬Agreement Overlaps s := by
  obtain ⟨s, hs, hwaits, hresult, hduring, hoverlapped⟩ := exists_reachable
    (fun s => s = constructed) step (fun _ _ => True) constructed rfl
    [.waitForSignal, .waiter, .waiter, .timeout, .waiter, .unblock, .unblocker, .unblocker, .waiter,
      .waiter, .unblocker]
    (fun s => s.waits = [false] ∧ (s.unblocks 0).result = some true ∧
      (s.unblocks 0).during = some 0 ∧ (s.unblocks 0).overlapped = [0]) (by decide +kernel)
  refine ⟨s, hs, hwaits, fun hagree => ?_, fun hagree => ?_⟩
  · obtain ⟨w, ⟨hw, hnot⟩, _⟩ := hagree.unblock 0 hresult
    obtain rfl : 0 = w := Option.some.inj (hduring.symm.trans hw)
    exact hnot (by rw [hwaits]; rfl)
  · obtain ⟨w, ⟨hw, hnot⟩, _⟩ := hagree.unblock 0 hresult
    rw [Overlaps, hoverlapped, List.mem_singleton] at hw
    subst hw
    exact hnot (by rw [hwaits]; rfl)

end Rodos.Barrier
