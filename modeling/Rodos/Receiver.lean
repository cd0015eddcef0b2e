import Rodos.AccessTrace

namespace Rodos.Receiver

open AccessTrace Traced

/-- A computation that puts out elements to a receiver with a state. It accesses places and may
have no result. -/
abbrev Sender (ι σ α : Type) : Type := StateT σ (OptionT (Traced ι)) α

variable {C ι σ τ α β : Type}

def put (receive : C → σ → σ) (c : C) : Sender ι σ Unit := modify (receive c)

def access (x : Traced ι α) : Sender ι σ α := fun s => OptionT.mk (x >>= fun a => pure (some (a, s)))

def record (c : C) (out : List C) : List C := out ++ [c]

def replay (receive : C → σ → σ) (s : σ) (out : List C) : σ := out.foldl (fun s c => receive c s) s

def outcome (x : Sender ι σ α) (s : σ) : Option (α × σ) := (x.run s).run.value

def places (x : Sender ι σ α) (s : σ) : List ι := (x.run s).run.accesses

section

variable (x : Sender ι σ α) (g : α → Sender ι σ β) (s : σ)

theorem outcome_bind : outcome (x >>= g) s = (outcome x s).bind fun r => outcome (g r.1) r.2 := by
  rw [outcome, StateT.run_bind, OptionT.run_bind, Option.elimM, value_bind, outcome]
  cases (x.run s).run.value with
  | none => rfl
  | some r => rfl

theorem places_bind : places (x >>= g) s =
    places x s ++ (outcome x s).elim [] fun r => places (g r.1) r.2 := by
  rw [places, StateT.run_bind, OptionT.run_bind, Option.elimM, accesses_bind, outcome, places]
  cases (x.run s).run.value with
  | none => rfl
  | some r => rfl

theorem outcome_access (t : Traced ι α) : outcome (access t) s = some (t.value, s) :=
  value_bind t _

theorem places_access (t : Traced ι α) : places (access t) s = t.accesses := List.append_nil _

end

/-- The runs of one computation are those of the other, seen through `f`, with the same
accesses. -/
structure Follows (f : σ → τ) (x : Sender ι σ α) (y : Sender ι τ α) : Prop where
  outcome : ∀ s, outcome y (f s) = (outcome x s).map fun r => (r.1, f r.2)
  places : ∀ s, places y (f s) = places x s

section

variable {f : σ → τ} {x : Sender ι σ α} {y : Sender ι τ α}

theorem follows_pure (f : σ → τ) (a : α) : Follows f (pure a : Sender ι σ α) (pure a) :=
  ⟨fun _ => rfl, fun _ => rfl⟩

theorem follows_failure (f : σ → τ) : Follows f (failure : Sender ι σ α) failure :=
  ⟨fun _ => rfl, fun _ => rfl⟩

theorem follows_access (f : σ → τ) (t : Traced ι α) :
    Follows f (access t : Sender ι σ α) (access t) := by
  constructor
  · intro s
    rw [outcome_access, outcome_access]
    rfl
  · intro s
    rw [places_access, places_access]

theorem Follows.bind {g : α → Sender ι σ β} {h : α → Sender ι τ β} (hxy : Follows f x y)
    (hgh : ∀ a, Follows f (g a) (h a)) : Follows f (x >>= g) (y >>= h) := by
  constructor
  · intro s
    rw [outcome_bind, outcome_bind, hxy.outcome s]
    cases Receiver.outcome x s with
    | none => rfl
    | some r => exact (hgh r.1).outcome r.2
  · intro s
    rw [places_bind, places_bind, hxy.outcome s, hxy.places s]
    cases Receiver.outcome x s with
    | none => rfl
    | some r => exact congrArg _ ((hgh r.1).places r.2)

theorem Follows.ite {p : Prop} [Decidable p] {x' : Sender ι σ α} {y' : Sender ι τ α}
    (hxy : Follows f x y) (hxy' : Follows f x' y') :
    Follows f (if p then x else x') (if p then y else y') := by
  split
  · exact hxy
  · exact hxy'

theorem follows_put {receive : C → σ → σ} {receive' : C → τ → τ} {c : C}
    (h : ∀ s, f (receive c s) = receive' c (f s)) :
    Follows f (put receive c : Sender ι σ Unit) (put receive' c) := by
  constructor
  · intro s
    show some ((), receive' c (f s)) = some ((), f (receive c s))
    rw [h]
  · exact fun _ => rfl

end

/-- What a computation returns, if anything, whatever the receiver has got. -/
def Returns (x : Sender ι σ α) (r : Option α) : Prop := ∀ s, (outcome x s).map Prod.fst = r

section

variable {x : Sender ι σ α} {g : α → Sender ι σ β}

theorem returns_pure (a : α) : Returns (pure a : Sender ι σ α) (some a) := fun _ => rfl

theorem returns_failure : Returns (failure : Sender ι σ α) none := fun _ => rfl

theorem returns_put (receive : C → σ → σ) (c : C) :
    Returns (put receive c : Sender ι σ Unit) (some ()) := fun _ => rfl

theorem returns_access (t : Traced ι α) : Returns (access t : Sender ι σ α) (some t.value) := by
  intro s
  rw [outcome_access]
  rfl

theorem Returns.bind {a : α} {r : Option β} (hx : Returns x (some a)) (hg : Returns (g a) r) :
    Returns (x >>= g) r := by
  intro s
  obtain ⟨⟨a', s'⟩, hrun, rfl⟩ := Option.map_eq_some_iff.mp (hx s)
  rw [outcome_bind, hrun]
  exact hg s'

theorem Returns.bind_none (hx : Returns x none) : Returns (x >>= g) none := by
  intro s
  rw [outcome_bind, Option.map_eq_none_iff.mp (hx s)]
  rfl

end

/-- The condition under which all accesses are permitted, whatever the receiver has got. -/
def Permits (P : ι → Prop) (x : Sender ι σ α) (p : Prop) : Prop := ∀ s, (∀ i ∈ places x s, P i) ↔ p

section

variable {P : ι → Prop} {x : Sender ι σ α} {g : α → Sender ι σ β} {p q : Prop}

theorem permits_pure (a : α) : Permits P (pure a : Sender ι σ α) True :=
  fun _ => iff_of_true (List.forall_mem_nil _) trivial

theorem permits_failure : Permits P (failure : Sender ι σ α) True :=
  fun _ => iff_of_true (List.forall_mem_nil _) trivial

theorem permits_put (receive : C → σ → σ) (c : C) :
    Permits P (put receive c : Sender ι σ Unit) True :=
  fun _ => iff_of_true (List.forall_mem_nil _) trivial

theorem permits_access (t : Traced ι α) : Permits P (access t : Sender ι σ α) (Within P t) := by
  intro s
  rw [places_access]
  exact Iff.rfl

theorem Permits.bind {a : α} (hx : Permits P x p) (hr : Returns x (some a)) (hg : Permits P (g a) q) :
    Permits P (x >>= g) (p ∧ q) := by
  intro s
  obtain ⟨⟨a', s'⟩, hrun, rfl⟩ := Option.map_eq_some_iff.mp (hr s)
  rw [places_bind, hrun, List.forall_mem_append]
  exact and_congr (hx s) (hg s')

theorem Permits.bind_none (hx : Permits P x p) (hr : Returns x none) : Permits P (x >>= g) p := by
  intro s
  rw [places_bind, Option.map_eq_none_iff.mp (hr s), Option.elim_none, List.append_nil]
  exact hx s

theorem Permits.andThen {a : α} (hx : Permits P x True) (hr : Returns x (some a))
    (hg : Permits P (g a) q) : Permits P (x >>= g) q :=
  fun s => (hx.bind hr hg s).trans (iff_of_eq (true_and q))

theorem Permits.congr (hx : Permits P x p) (h : p ↔ q) : Permits P x q := fun s => (hx s).trans h

end

/-- What a computation returns and what it puts out, if it has a result. -/
def Emits (x : Sender ι (List C) α) (r : Option (α × List C)) : Prop :=
  ∀ out, outcome x out = r.map fun p => (p.1, out ++ p.2)

section

variable {x : Sender ι (List C) α} {g : α → Sender ι (List C) β}

theorem emits_pure (a : α) : Emits (pure a : Sender ι (List C) α) (some (a, [])) := by
  intro out
  rw [Option.map_some, List.append_nil]
  rfl

theorem emits_failure : Emits (failure : Sender ι (List C) α) none := fun _ => rfl

theorem emits_put (c : C) : Emits (put record c : Sender ι (List C) Unit) (some ((), [c])) :=
  fun _ => rfl

theorem Emits.bind {a : α} {front : List C} {r : Option (β × List C)}
    (hx : Emits x (some (a, front))) (hg : Emits (g a) r) :
    Emits (x >>= g) (r.map fun p => (p.1, front ++ p.2)) := by
  intro out
  rw [outcome_bind, hx out, Option.map_map]
  show outcome (g a) (out ++ front) = _
  rw [hg (out ++ front)]
  apply congrArg fun f => r.map f
  funext p
  rw [List.append_assoc]
  rfl

theorem Emits.access_bind {t : Traced ι α} {r : Option (β × List C)} (hg : Emits (g t.value) r) :
    Emits (access t >>= g) r := by
  intro out
  rw [outcome_bind, outcome_access]
  exact hg out

theorem Emits.andThen {x : Sender ι (List C) Unit} {y : Sender ι (List C) β}
    {front : List C} {r : Option (β × List C)} (hx : Emits x (some ((), front))) (hy : Emits y r) :
    Emits (x >>= fun _ => y) (r.map fun p => (p.1, front ++ p.2)) :=
  hx.bind hy

theorem Emits.thenPure {x : Sender ι (List C) Unit} {r : Option (List C)}
    (hx : Emits x (r.map ((), ·))) (a : β) : Emits (x >>= fun _ => pure a) (r.map (a, ·)) := by
  intro out
  rw [outcome_bind, hx out]
  cases r with
  | none => rfl
  | some front => rfl

theorem Emits.bind_none (hx : Emits x none) : Emits (x >>= g) none := by
  intro out
  rw [outcome_bind, hx out]
  rfl

end

theorem replay_record (receive : C → σ → σ) (s : σ) (c : C) (out : List C) :
    replay receive s (record c out) = receive c (replay receive s out) := by
  rw [replay, record, List.foldl_append]
  rfl

end Rodos.Receiver
