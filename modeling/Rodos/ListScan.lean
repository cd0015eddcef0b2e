import Mathlib

namespace Rodos.ListScan

variable {A B : Type} [LinearOrder B]

/-- A left-to-right scan that replaces its candidate only by an element with
a strictly larger key. -/
def scan (key : A → B) : A → List A → A
  | c, [] => c
  | c, x :: xs => scan key (if key c < key x then x else c) xs

def Leads (key : A → B) (xs : List A) (w : A) : Prop :=
  ∃ before after, xs = before ++ w :: after ∧ (∀ x ∈ before, key x < key w) ∧
    ∀ x ∈ after, key x ≤ key w

theorem Leads.unique {key : A → B} {xs : List A} {v w : A} (hv : Leads key xs v)
    (hw : Leads key xs w) : v = w := by
  obtain ⟨b, a, rfl, hb, ha⟩ := hv
  obtain ⟨b', a', he, hb', ha'⟩ := hw
  obtain ⟨c, rfl, hc⟩ | ⟨c, rfl, hc⟩ := List.append_eq_append_iff.mp he
  · cases c with
    | nil => exact (List.cons.inj hc).1
    | cons x c =>
      obtain ⟨rfl, rfl⟩ := List.cons.inj hc
      exact absurd (hb' v (by simp)) (not_lt.mpr (ha w (by simp)))
  · cases c with
    | nil => exact (List.cons.inj hc).1.symm
    | cons x c =>
      obtain ⟨rfl, rfl⟩ := List.cons.inj hc
      exact absurd (hb w (by simp)) (not_lt.mpr (ha' v (by simp)))

theorem scan_leads (key : A → B) (c : A) (xs : List A) : Leads key (c :: xs) (scan key c xs) := by
  induction xs generalizing c with
  | nil => exact ⟨[], [], rfl, by simp, by simp⟩
  | cons x xs ih =>
    by_cases h : key c < key x
    · obtain ⟨before, after, he, hb, ha⟩ := ih x
      simp only [scan, h, if_true]
      refine ⟨c :: before, after, by rw [he]; rfl, ?_, ha⟩
      have hx : key x ≤ key (scan key x xs) := by
        have hm : x ∈ before ++ scan key x xs :: after := he ▸ List.mem_cons_self
        obtain hm | hm := List.mem_append.mp hm
        · exact (hb x hm).le
        · obtain hm | hm := List.mem_cons.mp hm
          · rw [← hm]
          · exact ha x hm
      intro y hy
      obtain rfl | hy := List.mem_cons.mp hy
      · exact h.trans_le hx
      · exact hb y hy
    · obtain ⟨before, after, he, hb, ha⟩ := ih c
      simp only [scan, h, if_false]
      cases before with
      | nil =>
        obtain ⟨hc, rfl⟩ : c = scan key c xs ∧ xs = after := by simpa using he
        refine ⟨[], x :: xs, by rw [← hc]; rfl, by simp, ?_⟩
        intro y hy
        obtain rfl | hy := List.mem_cons.mp hy
        · rw [← hc]
          exact not_lt.mp h
        · exact ha y hy
      | cons b before =>
        obtain ⟨rfl, hxs⟩ : c = b ∧ xs = before ++ scan key c xs :: after := by simpa using he
        have hc := hb c List.mem_cons_self
        refine ⟨c :: x :: before, after, by rw [hxs]; simp [← hxs], ?_, ha⟩
        intro y hy
        obtain rfl | hy := List.mem_cons.mp hy
        · exact hc
        · obtain rfl | hy := List.mem_cons.mp hy
          · exact (not_lt.mp h).trans_lt hc
          · exact hb y (List.mem_cons_of_mem c hy)

theorem scan_mem (key : A → B) (c : A) (xs : List A) : scan key c xs ∈ c :: xs := by
  obtain ⟨before, after, he, _, _⟩ := scan_leads key c xs
  rw [he]
  simp

theorem le_scan (key : A → B) (c : A) (xs : List A) :
    ∀ x ∈ c :: xs, key x ≤ key (scan key c xs) := by
  obtain ⟨before, after, he, hb, ha⟩ := scan_leads key c xs
  intro x hx
  rw [he] at hx
  obtain hx | hx := List.mem_append.mp hx
  · exact (hb x hx).le
  · obtain rfl | hx := List.mem_cons.mp hx
    · exact le_rfl
    · exact ha x hx

theorem foldl_eq_scan (key : A → B) (c : A) (xs : List A) :
    xs.foldl (fun c x => if key c < key x then x else c) c = scan key c xs := by
  induction xs generalizing c with
  | nil => rfl
  | cons x xs ih => rw [List.foldl_cons, ih, scan]

end Rodos.ListScan
