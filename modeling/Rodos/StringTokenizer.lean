import Rodos.CString

namespace Rodos.StringTokenizer

open CString

/-- The string that is taken apart, all its cells with the zero at its end, and the
pointer into it. -/
structure Tokenizer where
  cells : List Char
  ptr : Option Nat

section Methods

variable (separators : CString)

def isSeparator (c : Char) : Bool := separators.chars.any (fun separator => c == separator)

def init (s : CString) : Tokenizer := ⟨s.cells, some 0⟩

/-- What `next` returns, `none` for 0. An access outside of the cells has no result. -/
def next (t : Tokenizer) : Option (Option Nat × Tokenizer) :=
  match t.ptr with
  | none => some (none, t)
  | some ptr => do
    let c ← t.cells[ptr]?
    if c = nul then return (none, t)
    let skipped ← scan (isSeparator separators) (t.cells.drop ptr)
    let ptr := ptr + skipped
    let c ← t.cells[ptr]?
    if c = nul then return (none, { t with ptr := some ptr })
    let retVal := ptr
    let len ← scan (fun c => c != nul && !isSeparator separators c) (t.cells.drop ptr)
    let ptr := ptr + len
    let c ← t.cells[ptr]?
    if c = nul then return (some retVal, { t with ptr := some ptr })
    return (some retVal, { cells := t.cells.set ptr nul, ptr := some (ptr + 1) })

def calls : Nat → Tokenizer → Option (List (Option Nat) × Tokenizer)
  | 0, t => some ([], t)
  | n + 1, t => do
    let (r, t) ← next separators t
    let (rs, t) ← calls n t
    return (r :: rs, t)

end Methods

section Words

variable (p : Char → Bool)

/-- A word begins here: no separator, and nothing but a separator before it. -/
def begins (str : List Char) (i : Nat) : Bool :=
  (str[i]?).any (fun c => !p c) && (i == 0 || (str[i - 1]?).any p)

def starts (str : List Char) : List Nat := (List.range str.length).filter (begins p str)

/-- The word that begins at a place goes on to the next separator. -/
def wordAt (str : List Char) (i : Nat) : List Char := (str.drop i).takeWhile (fun c => !p c)

variable {p}

theorem starts_separators {front : List Char} (h : ∀ c ∈ front, p c = true) : starts p front = [] := by
  apply List.filter_eq_nil_iff.mpr
  intro i hi
  have hlt := List.mem_range.mp hi
  simp [begins, List.getElem?_eq_getElem hlt, h _ (List.getElem_mem hlt)]

theorem starts_word {word : List Char} (hne : word ≠ []) (h : ∀ c ∈ word, p c = false) :
    starts p word = [0] := by
  obtain ⟨c, word, rfl⟩ := List.exists_cons_of_ne_nil hne
  obtain ⟨hc, hrest⟩ := List.forall_mem_cons.mp h
  rw [starts, List.length_cons, List.range_succ_eq_map, List.filter_cons_of_pos (by simp [begins, hc])]
  congr 1
  apply List.filter_eq_nil_iff.mpr
  intro i hi
  obtain ⟨j, hj, rfl⟩ := List.mem_map.mp hi
  have hlt : j < (c :: word).length := Nat.lt_succ_of_lt (List.mem_range.mp hj)
  simp [begins, List.getElem?_eq_getElem hlt, h _ (List.getElem_mem hlt)]

theorem starts_append (front : List Char) {c : Char} (hc : p c = true) (rest : List Char) :
    starts p (front ++ c :: rest) =
      starts p front ++ (starts p rest).map (· + (front.length + 1)) := by
  have hfront : ∀ i ∈ List.range front.length,
      begins p (front ++ c :: rest) i = begins p front i := by
    intro i hi
    have hlt := List.mem_range.mp hi
    rw [begins, begins, List.getElem?_append_left hlt, List.getElem?_append_left (by omega)]
  have hrest : ∀ j, begins p (front ++ c :: rest) (j + (front.length + 1)) = begins p rest j := by
    intro j
    have hplace : ∀ k, (front ++ c :: rest)[k + (front.length + 1)]? = rest[k]? := by
      intro k
      rw [List.getElem?_append_right (by omega),
        show k + (front.length + 1) - front.length = k + 1 by omega, List.getElem?_cons_succ]
    rw [begins, begins, hplace]
    cases j with
    | zero => simp [hc]
    | succ k =>
      rw [show k + 1 + (front.length + 1) - 1 = k + (front.length + 1) by omega, hplace]
      rfl
  have hsep : begins p (front ++ c :: rest) front.length = false := by
    simp [begins, hc]
  have hlength : (front ++ c :: rest).length = front.length + (1 + rest.length) := by
    rw [List.length_append, List.length_cons, Nat.add_comm 1]
  rw [starts, hlength, List.range_add, List.range_add, List.filter_append, List.filter_congr hfront,
    List.map_append, List.filter_append]
  congr 1
  have hshift : (fun k => front.length + k) ∘ (fun k => 1 + k) = fun k => k + (front.length + 1) := by
    funext k
    rw [Function.comp_apply]
    omega
  rw [List.range_one, List.map_singleton, Nat.add_zero, List.filter_singleton, hsep, List.map_map,
    hshift, cond_false, List.nil_append, List.filter_map]
  congr 1
  exact List.filter_congr fun j _ => hrest j

theorem exists_word (p : Char → Bool) (str : List Char) :
    (∀ c ∈ str, p c = true) ∨ ∃ seps word tail, str = seps ++ (word ++ tail) ∧
      (∀ c ∈ seps, p c = true) ∧ word ≠ [] ∧ (∀ c ∈ word, p c = false) ∧
      ∀ c ∈ tail.head?, p c = true := by
  induction str with
  | nil => exact .inl (List.forall_mem_nil _)
  | cons c str ih =>
    cases hc : p c with
    | true =>
      obtain hall | ⟨seps, word, tail, rfl, hseps, hrest⟩ := ih
      · exact .inl (List.forall_mem_cons.mpr ⟨hc, hall⟩)
      · exact .inr ⟨c :: seps, word, tail, rfl, List.forall_mem_cons.mpr ⟨hc, hseps⟩, hrest⟩
    | false =>
      right
      have hone : ∀ x ∈ [c], p x = false := List.forall_mem_singleton.mpr hc
      obtain hall | ⟨seps, word, tail, rfl, hseps, hne, hword, htail⟩ := ih
      · refine ⟨[], [c], str, rfl, List.forall_mem_nil _, List.cons_ne_nil _ _, hone, ?_⟩
        intro x hx
        exact hall x (List.mem_of_mem_head? hx)
      · cases seps with
        | nil =>
          exact ⟨[], c :: word, tail, rfl, hseps, List.cons_ne_nil _ _,
            List.forall_mem_cons.mpr ⟨hc, hword⟩, htail⟩
        | cons sep seps =>
          refine ⟨[], [c], _, rfl, List.forall_mem_nil _, List.cons_ne_nil _ _, hone, ?_⟩
          intro x hx
          rw [← Option.some.inj hx]
          exact hseps sep List.mem_cons_self

section First

variable {seps word : List Char} (hseps : ∀ c ∈ seps, p c = true)
  (hword : ∀ c ∈ word, p c = false)

include hseps hword in
theorem starts_first (hne : word ≠ []) : starts p (seps ++ word) = [seps.length] := by
  obtain rfl | ⟨front, c, rfl⟩ := List.eq_nil_or_concat seps
  · exact starts_word hne hword
  · rw [List.concat_eq_append] at *
    rw [List.append_assoc, List.singleton_append,
      starts_append front (hseps c (by simp)), starts_word hne hword,
      starts_separators fun x hx => hseps x (by simp [hx])]
    simp

include hword in
theorem wordAt_first (seps : List Char) {tail : List Char} (htail : ∀ c ∈ tail.head?, p c = true) :
    wordAt p (seps ++ (word ++ tail)) seps.length = word := by
  have hstop : tail.takeWhile (fun c => !p c) = [] := by
    cases tail with
    | nil => rfl
    | cons c tail => simp [htail c rfl]
  rw [wordAt, List.drop_left, List.takeWhile_append_of_pos fun c hc => by simp [hword c hc], hstop,
    List.append_nil]

end First

end Words

section Runs

variable {separators : CString}

theorem isSeparator_nul : isSeparator separators nul = false := by
  rw [isSeparator, List.any_eq_false]
  intro c hc heq
  rw [← beq_iff_eq.mp heq] at hc
  exact separators.nul_notMem hc

structure At (t : Tokenizer) (front rest : List Char) : Prop where
  cells : t.cells = front ++ (rest ++ [nul])
  ptr : t.ptr = some front.length
  rest : nul ∉ rest

def Terminated (cells : List Char) (i : Nat) (word : List Char) : Prop :=
  (∀ k < word.length, cells[i + k]? = word[k]?) ∧ cells[i + word.length]? = some nul

def Kept (cells cells' : List Char) (place : Nat) : Prop :=
  ∀ i, i < place ∨ cells[i]? = some nul → cells'[i]? = cells[i]?

theorem Kept.trans {cells cells' cells'' : List Char} {place place' : Nat}
    (h : Kept cells cells' place) (h' : Kept cells' cells'' place') (hle : place ≤ place') :
    Kept cells cells'' place := by
  intro i hi
  have heq := h i hi
  rw [← heq]
  apply h'
  obtain hlt | hnul := hi
  · exact .inl (Nat.lt_of_lt_of_le hlt hle)
  · exact .inr (heq.trans hnul)

theorem terminated_append (front word rest : List Char) :
    Terminated (front ++ (word ++ nul :: rest)) front.length word := by
  constructor
  · intro k hk
    rw [List.getElem?_append_right (Nat.le_add_right _ _), Nat.add_sub_cancel_left,
      List.getElem?_append_left hk]
  · rw [List.getElem?_append_right (Nat.le_add_right _ _), Nat.add_sub_cancel_left,
      List.getElem?_append_right le_rfl, Nat.sub_self, List.getElem?_cons_zero]

theorem Terminated.kept {cells cells' : List Char} {i place : Nat} {word : List Char}
    (h : Terminated cells i word) (hkept : Kept cells cells' place)
    (hplace : i + word.length ≤ place) : Terminated cells' i word := by
  refine ⟨fun k hk => ?_, ?_⟩
  · rw [hkept _ (.inl (by omega))]
    exact h.1 k hk
  · rw [hkept _ (.inr h.2)]
    exact h.2

variable {t : Tokenizer} {front rest : List Char}

theorem At.getElem? (h : At t front rest) (k : Nat) :
    t.cells[front.length + k]? = (rest ++ [nul])[k]? := by
  rw [h.cells, List.getElem?_append_right (Nat.le_add_right _ _), Nat.add_sub_cancel_left]

theorem At.drop (h : At t front rest) (k : Nat) :
    t.cells.drop (front.length + k) = (rest ++ [nul]).drop k := by
  rw [h.cells, List.drop_length_add_append]

structure Spec (separators : CString) (t : Tokenizer) (front rest : List Char)
    (r : Option Nat) (t' : Tokenizer) (step : Nat) : Prop where
  result : r = (starts (isSeparator separators) rest).head?.map (front.length + ·)
  after : ∃ front' : List Char, front'.length = front.length + step ∧ At t' front' (rest.drop step)
  others : (starts (isSeparator separators) rest).tail =
    (starts (isSeparator separators) (rest.drop step)).map (· + step)
  kept : Kept t.cells t'.cells front.length
  word : ∀ i ∈ (starts (isSeparator separators) rest).head?,
    Terminated t'.cells (front.length + i) (wordAt (isSeparator separators) rest i) ∧
    i + (wordAt (isSeparator separators) rest i).length ≤ step

theorem next_separators (h : At t front rest) (hrest : ∀ c ∈ rest, isSeparator separators c = true) :
    next separators t = some (none, { t with ptr := some (front.length + rest.length) }) := by
  obtain ⟨cells, ptr⟩ := t
  obtain rfl : ptr = some front.length := h.ptr
  have hscan : scan (isSeparator separators) (cells.drop front.length) = some rest.length := by
    rw [← Nat.add_zero front.length, h.drop 0]
    exact scan_append [] hrest isSeparator_nul
  have hlast : cells[front.length + rest.length]? = some nul :=
    (h.getElem? rest.length).trans List.getElem?_concat_length
  have hfirst : cells[front.length]? = (rest ++ [nul])[0]? := h.getElem? 0
  cases rest with
  | nil => simp [next, hfirst]
  | cons x xs =>
    have hx : x ≠ nul := fun heq => h.rest (heq ▸ List.mem_cons_self)
    rw [List.cons_append, List.getElem?_cons_zero] at hfirst
    simp only [next, hfirst, hscan, hlast, Option.bind_eq_bind, Option.bind_some, if_neg hx, if_true]
    rfl

theorem next_word (h : At t front rest) {seps word more : List Char} {c : Char}
    (hrest : rest ++ [nul] = seps ++ (word ++ c :: more))
    (hseps : ∀ x ∈ seps, isSeparator separators x = true) (hne : word ≠ [])
    (hword : ∀ x ∈ word, isSeparator separators x = false) (hnul : nul ∉ seps ++ word)
    (hc : c = nul ∨ isSeparator separators c = true) :
    next separators t = some (some (front.length + seps.length),
      if c = nul then { t with ptr := some (front.length + seps.length + word.length) }
      else ⟨t.cells.set (front.length + seps.length + word.length) nul,
        some (front.length + seps.length + word.length + 1)⟩) := by
  obtain ⟨cells, ptr⟩ := t
  obtain rfl : ptr = some front.length := h.ptr
  obtain ⟨x, xs, rfl⟩ := List.exists_cons_of_ne_nil hne
  obtain ⟨hx, hxs⟩ := List.forall_mem_cons.mp hword
  have hdrop : cells.drop front.length = seps ++ (x :: (xs ++ c :: more)) :=
    (h.drop 0).trans hrest
  have hdropWord : cells.drop (front.length + seps.length) = (x :: xs) ++ c :: more := by
    rw [← List.drop_drop, hdrop, List.drop_left]
    rfl
  have hdropEnd : cells.drop (front.length + seps.length + (x :: xs).length) = c :: more := by
    rw [← List.drop_drop, hdropWord, List.drop_left]
  obtain ⟨y, ys, hy⟩ : ∃ y ys, seps ++ x :: xs = y :: ys :=
    List.exists_cons_of_ne_nil (List.append_ne_nil_of_right_ne_nil _ (List.cons_ne_nil _ _))
  have hynul : y ≠ nul := fun heq => hnul (by rw [hy, heq]; exact List.mem_cons_self)
  have hxnul : x ≠ nul := fun heq => hnul (by rw [heq]; simp)
  have hfirst : cells[front.length]? = some y := by
    rw [← List.head?_drop, hdrop, ← List.cons_append, ← List.append_assoc, hy]
    rfl
  have hbegin : cells[front.length + seps.length]? = some x := by
    rw [← List.head?_drop, hdropWord]
    rfl
  have hend : cells[front.length + seps.length + (x :: xs).length]? = some c := by
    rw [← List.head?_drop, hdropEnd]
    rfl
  have hskip : scan (isSeparator separators) (cells.drop front.length) = some seps.length := by
    rw [hdrop]
    exact scan_append _ hseps hx
  have hlen : scan (fun c => c != nul && !isSeparator separators c)
      (cells.drop (front.length + seps.length)) = some (x :: xs).length := by
    rw [hdropWord]
    apply scan_append
    · intro z hz
      have hznul : z ≠ nul := fun heq => hnul (heq ▸ List.mem_append_right seps hz)
      simp [hznul, hword z hz]
    · obtain rfl | hsep := hc
      · simp
      · simp [hsep]
  simp only [next, hfirst, hskip, hbegin, hlen, hend, Option.bind_eq_bind, Option.bind_some,
    if_neg hynul, if_neg hxnul]
  split <;> rfl

theorem kept_set {place i : Nat} (cells : List Char) (h : place ≤ i) :
    Kept cells (cells.set i nul) place := by
  intro k hk
  by_cases heq : i = k
  · subst heq
    obtain hlt | hnul := hk
    · omega
    · have hi := (List.getElem?_eq_some_iff.mp hnul).1
      rw [List.getElem?_set_self hi, hnul]
  · rw [List.getElem?_set_ne heq]

theorem spec_separators (h : At t front rest) (hrest : ∀ c ∈ rest, isSeparator separators c = true) :
    Spec separators t front rest none { t with ptr := some (front.length + rest.length) }
      rest.length where
  result := by
    rw [starts_separators hrest]
    rfl
  after := by
    refine ⟨front ++ rest, List.length_append, ?_, ?_, ?_⟩
    · rw [List.drop_length, List.nil_append, List.append_assoc]
      exact h.cells
    · rw [List.length_append]
    · simp
  others := by
    rw [starts_separators hrest, List.drop_length]
    rfl
  kept := fun _ _ => rfl
  word := by
    rw [starts_separators hrest]
    nofun

section Word

variable {seps word : List Char} (hseps : ∀ x ∈ seps, isSeparator separators x = true)
  (hne : word ≠ []) (hword : ∀ x ∈ word, isSeparator separators x = false)

include hseps hne hword

theorem spec_last (h : At t front (seps ++ word)) :
    Spec separators t front (seps ++ word) (some (front.length + seps.length))
      { t with ptr := some (front.length + seps.length + word.length) }
      (seps.length + word.length) where
  result := by
    rw [starts_first hseps hword hne]
    rfl
  after := by
    have hdrop : (seps ++ word).drop (seps.length + word.length) = [] := by
      rw [← List.length_append, List.drop_length]
    refine ⟨front ++ (seps ++ word), by simp, ?_, ?_, ?_⟩
    · rw [hdrop, List.nil_append, List.append_assoc]
      exact h.cells
    · rw [List.length_append, List.length_append, Nat.add_assoc]
    · rw [hdrop]
      exact List.not_mem_nil
  others := by
    rw [starts_first hseps hword hne, ← List.length_append, List.drop_length]
    rfl
  kept := fun _ _ => rfl
  word := by
    have hat : wordAt (isSeparator separators) (seps ++ word) seps.length = word := by
      have hend : ∀ c ∈ ([] : List Char).head?, isSeparator separators c = true := nofun
      have h := wordAt_first hword seps hend
      rwa [List.append_nil] at h
    rw [starts_first hseps hword hne]
    intro i hi
    obtain rfl := Option.some.inj hi
    rw [hat]
    refine ⟨?_, le_rfl⟩
    have hcells : t.cells = (front ++ seps) ++ (word ++ nul :: []) := by
      simp [h.cells]
    show Terminated t.cells _ _
    rw [hcells, ← List.length_append]
    exact terminated_append ..

theorem spec_inner {c : Char} {tail : List Char} (hc : isSeparator separators c = true)
    (h : At t front (seps ++ (word ++ c :: tail))) :
    Spec separators t front (seps ++ (word ++ c :: tail)) (some (front.length + seps.length))
      ⟨t.cells.set (front.length + seps.length + word.length) nul,
        some (front.length + seps.length + word.length + 1)⟩
      (seps.length + word.length + 1) := by
  have hrest : seps ++ (word ++ c :: tail) = (seps ++ word) ++ c :: tail :=
    (List.append_assoc ..).symm
  have hstarts : starts (isSeparator separators) (seps ++ (word ++ c :: tail)) =
      seps.length :: (starts (isSeparator separators) tail).map
        (· + (seps.length + word.length + 1)) := by
    rw [hrest, starts_append (seps ++ word) hc, starts_first hseps hword hne, List.length_append]
    rfl
  have hdrop : (seps ++ (word ++ c :: tail)).drop (seps.length + word.length + 1) = tail := by
    rw [hrest, ← List.length_append, List.drop_length_add_append]
    rfl
  have hat : wordAt (isSeparator separators) (seps ++ (word ++ c :: tail)) seps.length = word :=
    wordAt_first hword seps fun x hx => Option.some.inj hx ▸ hc
  have hset : t.cells.set (front.length + seps.length + word.length) nul =
      front ++ (seps ++ (word ++ nul :: (tail ++ [nul]))) := by
    rw [h.cells, Nat.add_assoc, List.set_append_right _ _ (Nat.le_add_right _ _),
      Nat.add_sub_cancel_left, List.append_assoc, List.set_append_right _ _ (Nat.le_add_right _ _),
      Nat.add_sub_cancel_left, List.append_assoc, List.set_append_right _ _ le_rfl, Nat.sub_self]
    rfl
  refine ⟨?_, ?_, ?_, ?_, ?_⟩
  · rw [hstarts]
    rfl
  · refine ⟨front ++ (seps ++ (word ++ [nul])), by simp [Nat.add_assoc], ?_, ?_, ?_⟩
    · rw [hdrop]
      simpa using hset
    · simp [Nat.add_assoc]
    · rw [hdrop]
      intro hmem
      exact h.rest (List.mem_append_right _ (List.mem_append_right _ (List.mem_cons_of_mem _ hmem)))
  · rw [hstarts, hdrop]
    rfl
  · apply kept_set
    rw [Nat.add_assoc]
    exact Nat.le_add_right _ _
  · rw [hstarts]
    intro i hi
    obtain rfl := Option.some.inj hi
    rw [hat]
    refine ⟨?_, Nat.le_succ _⟩
    show Terminated (t.cells.set _ nul) _ _
    rw [hset, ← List.append_assoc, ← List.length_append]
    exact terminated_append ..

end Word

theorem next_spec (separators : CString) (h : At t front rest) :
    ∃ r t' step, next separators t = some (r, t') ∧ Spec separators t front rest r t' step := by
  obtain hall | ⟨seps, word, tail, rfl, hseps, hne, hword, htail⟩ :=
    exists_word (isSeparator separators) rest
  · exact ⟨none, _, rest.length, next_separators h hall, spec_separators h hall⟩
  · have hfront : nul ∉ seps ++ word := by
      intro hmem
      apply h.rest
      rw [← List.append_assoc]
      exact List.mem_append_left _ hmem
    cases tail with
    | nil =>
      rw [List.append_nil] at *
      have hcells : (seps ++ word) ++ [nul] = seps ++ (word ++ nul :: []) := List.append_assoc ..
      have hnext := next_word h hcells hseps hne hword hfront (.inl rfl)
      rw [if_pos rfl] at hnext
      exact ⟨_, _, _, hnext, spec_last hseps hne hword h⟩
    | cons c tail =>
      have hc : isSeparator separators c = true := htail c rfl
      have hcnul : c ≠ nul := by
        rintro rfl
        rw [isSeparator_nul] at hc
        exact Bool.false_ne_true hc
      have hcells : (seps ++ (word ++ c :: tail)) ++ [nul] = seps ++ (word ++ c :: (tail ++ [nul])) := by
        simp
      have hnext := next_word h hcells hseps hne hword hfront (.inr hc)
      rw [if_neg hcnul] at hnext
      exact ⟨_, _, _, hnext, spec_inner hseps hne hword hc h⟩

/-- Any number of calls, from any place in the string: the words come one after the
other, each of them has got its zero in the end, and nothing before the place is changed. -/
theorem calls_spec (separators : CString) (n : Nat) {t : Tokenizer} {front rest : List Char}
    (h : At t front rest) :
    ∃ t', calls separators n t = some ((List.range n).map (fun k =>
        (starts (isSeparator separators) rest)[k]?.map (front.length + ·)), t') ∧
      Kept t.cells t'.cells front.length ∧
      ∀ k < n, ∀ i, (starts (isSeparator separators) rest)[k]? = some i →
        Terminated t'.cells (front.length + i) (wordAt (isSeparator separators) rest i) := by
  induction n generalizing t front rest with
  | zero => exact ⟨t, rfl, fun _ _ => rfl, nofun⟩
  | succ n ih =>
    obtain ⟨r, t₁, step, hnext, spec⟩ := next_spec separators h
    obtain ⟨front', hfront', hat⟩ := spec.after
    obtain ⟨t₂, hcalls, hkept, hwords⟩ := ih hat
    have hrest : ∀ k, (starts (isSeparator separators) rest)[k + 1]? =
        (starts (isSeparator separators) (rest.drop step))[k]?.map (· + step) := by
      intro k
      rw [← List.getElem?_tail, spec.others, List.getElem?_map]
    refine ⟨t₂, ?_, ?_, ?_⟩
    · simp only [calls, hnext, hcalls, Option.bind_eq_bind, Option.bind_some, Option.pure_def]
      rw [List.range_succ_eq_map, List.map_cons, List.map_map, ← List.head?_eq_getElem?,
        ← spec.result]
      congr 3
      apply List.map_congr_left
      intro k _
      rw [Function.comp_apply, hrest, Option.map_map, hfront']
      congr 1
      funext i
      rw [Function.comp_apply, Nat.add_assoc, Nat.add_comm step]
    · exact spec.kept.trans hkept (by omega)
    · intro k hk i hi
      cases k with
      | zero =>
        rw [← List.head?_eq_getElem?] at hi
        obtain ⟨hterminated, hend⟩ := spec.word i hi
        exact hterminated.kept hkept (by omega)
      | succ k =>
        rw [hrest] at hi
        obtain ⟨j, hj, rfl⟩ := Option.map_eq_some_iff.mp hi
        have hword := hwords k (Nat.lt_of_succ_lt_succ hk) j hj
        rw [wordAt, List.drop_drop, hfront', Nat.add_assoc, Nat.add_comm step] at hword
        exact hword

/-- The calls return the words of the string in their order and 0 ever after, without an
access behind the zero of the string. -/
theorem next_tokens (separators str : CString) (n : Nat) :
    ∃ t, calls separators n (init str) =
        some ((List.range n).map (fun k => (starts (isSeparator separators) str.chars)[k]?), t) ∧
      ∀ k < n, ∀ pos, (starts (isSeparator separators) str.chars)[k]? = some pos →
        Terminated t.cells pos (wordAt (isSeparator separators) str.chars pos) := by
  have hat : At (init str) [] str.chars := ⟨rfl, rfl, str.nul_notMem⟩
  obtain ⟨t, hcalls, -, hwords⟩ := calls_spec separators n hat
  simp only [List.length_nil, Nat.zero_add, Option.map_id'] at hcalls hwords
  exact ⟨t, hcalls, hwords⟩

example : (calls ⟨[' ', ','], by decide⟩ 3 (init ⟨[' ', 'a', ',', ' ', 'b'], by decide⟩)).map
    Prod.fst = some [some 1, some 4, none] := by
  decide

end Runs

end Rodos.StringTokenizer
