import Mathlib

namespace Rodos.Transducer

variable {S T A B C : Type}

def after (step : S → A → S × List B) (s : S) (as : List A) : S :=
  as.foldl (fun s a => (step s a).1) s

def output (step : S → A → S × List B) : S → List A → List B
  | _, [] => []
  | s, a :: as => (step s a).2 ++ output step (step s a).1 as

section

variable (step : S → A → S × List B) (s : S)

@[simp] theorem after_nil : after step s [] = s := rfl

@[simp] theorem after_cons (a : A) (as : List A) :
    after step s (a :: as) = after step (step s a).1 as := rfl

@[simp] theorem output_nil : output step s [] = [] := rfl

@[simp] theorem output_cons (a : A) (as : List A) :
    output step s (a :: as) = (step s a).2 ++ output step (step s a).1 as := rfl

theorem after_append (as as' : List A) :
    after step s (as ++ as') = after step (after step s as) as' :=
  List.foldl_append

theorem output_append (as as' : List A) :
    output step s (as ++ as') = output step s as ++ output step (after step s as) as' := by
  induction as generalizing s with
  | nil => rfl
  | cons a as ih => rw [List.cons_append, output_cons, ih, output_cons, after_cons, List.append_assoc]

end

variable {step : S → A → S × List B} {step' : T → C → T × List B}

/-- One machine reads symbols and another, in corresponding states, the inputs
that stand for them. -/
theorem simulates (R : S → T → Prop) (code : C → List A) (cs : List C)
    (h : ∀ c ∈ cs, ∀ s t, R s t →
      R (after step s (code c)) (step' t c).1 ∧ output step s (code c) = (step' t c).2)
    {s : S} {t : T} (hr : R s t) :
    R (after step s (cs.flatMap code)) (after step' t cs) ∧
      output step s (cs.flatMap code) = output step' t cs := by
  induction cs generalizing s t with
  | nil => exact ⟨hr, rfl⟩
  | cons c cs ih =>
    obtain ⟨hc, hcs⟩ := List.forall_mem_cons.mp h
    obtain ⟨hnext, hout⟩ := hc s t hr
    obtain ⟨hafter, houtput⟩ := ih hcs hnext
    rw [List.flatMap_cons, after_append, output_append, after_cons, output_cons, hout, houtput]
    exact ⟨hafter, rfl⟩

end Rodos.Transducer
