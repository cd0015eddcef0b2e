import Mathlib

namespace Rodos.AccessTrace

/-- The result of a computation with the places it has read or written. -/
def Traced (ι α : Type) : Type := α × List ι

namespace Traced

variable {ι κ α β σ : Type}

def value (x : Traced ι α) : α := x.1

def accesses (x : Traced ι α) : List ι := x.2

instance : Monad (Traced ι) where
  pure a := (a, [])
  bind x f := ((f x.value).value, x.accesses ++ (f x.value).accesses)

def touch (i : ι) : Traced ι Unit := ((), [i])

def forEach (f : α → σ → Traced ι σ) : List α → σ → Traced ι σ
  | [], s => pure s
  | a :: l, s => f a s >>= forEach f l

/-- The elements after the first hit are not looked at. -/
def search (p : α → Traced ι Bool) : List α → Traced ι Bool
  | [] => pure false
  | a :: l => p a >>= fun found => if found then pure true else search p l

/-- The same computation, with each place spelled out in terms of others. -/
def spread (f : ι → List κ) (x : Traced ι α) : Traced κ α :=
  (x.value, x.accesses.flatMap f)

def Within (P : ι → Prop) (x : Traced ι α) : Prop := ∀ i ∈ x.accesses, P i

variable {P : ι → Prop}

@[simp] theorem value_pure (a : α) : (pure a : Traced ι α).value = a := rfl

@[simp] theorem value_bind (x : Traced ι α) (f : α → Traced ι β) :
    (x >>= f).value = (f x.value).value := by
  obtain ⟨a, l⟩ := x
  rfl

theorem accesses_bind (x : Traced ι α) (f : α → Traced ι β) :
    (x >>= f).accesses = x.accesses ++ (f x.value).accesses := rfl

@[simp] theorem value_spread (f : ι → List κ) (x : Traced ι α) : (x.spread f).value = x.value := rfl

@[simp] theorem within_pure (a : α) : Within P (pure a : Traced ι α) := by
  apply List.forall_mem_nil

@[simp] theorem within_touch (i : ι) : Within P (touch i) ↔ P i := by
  simp [Within, accesses, touch]

@[simp] theorem within_bind (x : Traced ι α) (f : α → Traced ι β) :
    Within P (x >>= f) ↔ Within P x ∧ Within P (f x.value) :=
  List.forall_mem_append

@[simp] theorem within_ite (c : Prop) [Decidable c] (x y : Traced ι α) :
    Within P (if c then x else y) ↔ (c → Within P x) ∧ (¬ c → Within P y) := by
  split <;> simp [*]

theorem within_spread (f : ι → List κ) (Q : κ → Prop) (x : Traced ι α) :
    Within Q (x.spread f) ↔ Within (fun i => ∀ k ∈ f i, Q k) x := by
  simp only [Within, accesses, spread, List.mem_flatMap, forall_exists_index, and_imp]
  constructor
  · intro h i hi k hk
    exact h k i hi hk
  · intro h k i hi hk
    exact h i hi k hk

theorem within_search {p : α → Traced ι Bool} {l : List α} (h : ∀ a ∈ l, Within P (p a)) :
    Within P (search p l) := by
  induction l with
  | nil => exact within_pure false
  | cons a l ih =>
    obtain ⟨ha, has⟩ := List.forall_mem_cons.mp h
    simp only [search, within_bind, within_ite, within_pure]
    exact ⟨ha, fun _ => trivial, fun _ => ih has⟩

/-- Which places are accessed before a value is known does not depend on what is done with it. -/
theorem bind_congr_value {x : Traced ι α} {f g : α → Traced ι β} (h : f x.value = g x.value) :
    x >>= f = x >>= g := by
  obtain ⟨a, l⟩ := x
  change ((f a).value, l ++ (f a).accesses) = ((g a).value, l ++ (g a).accesses)
  rw [show f a = g a from h]

theorem value_search {p : α → Traced ι Bool} {l : List α} :
    (search p l).value = true ↔ ∃ a ∈ l, (p a).value = true := by
  induction l with
  | nil => simp [search]
  | cons a l ih =>
    rw [search, value_bind, List.exists_mem_cons_iff, ← ih]
    by_cases ha : (p a).value = true
    · rw [if_pos ha]
      exact iff_of_true rfl (.inl ha)
    · rw [if_neg ha]
      exact ⟨.inr, fun h => h.resolve_left ha⟩

theorem search_append {p : α → Traced ι Bool} {l : List α} (l' : List α)
    (h : ∃ a ∈ l, (p a).value = true) : search p (l ++ l') = search p l := by
  induction l with
  | nil => simp at h
  | cons a l ih =>
    rw [List.cons_append, search, search]
    refine bind_congr_value ?_
    by_cases ha : (p a).value = true
    · rw [if_pos ha, if_pos ha]
    · rw [if_neg ha, if_neg ha]
      refine ih ?_
      obtain ⟨b, hb, hit⟩ := h
      obtain rfl | hb := List.mem_cons.mp hb
      · exact absurd hit ha
      · exact ⟨b, hb, hit⟩

theorem value_forEach_foldl (f : α → σ → Traced ι σ) (l : List α) (s : σ) :
    (forEach f l s).value = l.foldl (fun s a => (f a s).value) s := by
  induction l generalizing s with
  | nil => rfl
  | cons a l ih => rw [forEach, value_bind, ih, List.foldl_cons]

theorem value_forEach_le {f : α → σ → Traced ι σ} {l : List α} (size : σ → Nat) (cost : α → Nat)
    (h : ∀ a ∈ l, ∀ s, size (f a s).value ≤ size s + cost a) (s : σ) :
    size (forEach f l s).value ≤ size s + (l.map cost).sum := by
  induction l generalizing s with
  | nil => exact Nat.le_add_right _ _
  | cons a l ih =>
    obtain ⟨ha, hl⟩ := List.forall_mem_cons.mp h
    have hround := ha s
    have hrest := ih hl (f a s).value
    rw [forEach, value_bind, List.map_cons, List.sum_cons]
    omega

section

variable {f : α → σ → Traced ι σ} {l : List α} (Inv : σ → Prop)
  (hinv : ∀ a ∈ l, ∀ s, Inv s → Inv (f a s).value)
include hinv

/-- The rule of a loop with an invariant. -/
theorem value_forEach {s : σ} (hs : Inv s) : Inv (forEach f l s).value := by
  induction l generalizing s with
  | nil => exact hs
  | cons a l ih =>
    obtain ⟨ha, hl⟩ := List.forall_mem_cons.mp hinv
    exact ih hl (ha s hs)

theorem within_forEach {Q : α → Prop}
    (hround : ∀ a ∈ l, ∀ s, Inv s → (Within P (f a s) ↔ Q a)) {s : σ} (hs : Inv s) :
    Within P (forEach f l s) ↔ ∀ a ∈ l, Q a := by
  induction l generalizing s with
  | nil => exact iff_of_true (within_pure s) (List.forall_mem_nil _)
  | cons a l ih =>
    obtain ⟨ha, hl⟩ := List.forall_mem_cons.mp hinv
    obtain ⟨hra, hrl⟩ := List.forall_mem_cons.mp hround
    rw [forEach, within_bind, List.forall_mem_cons, hra s hs, ih hl hrl (ha s hs)]

end

end Traced

end Rodos.AccessTrace
