import Rodos.CString
import Rodos.StringBuffer

namespace Rodos.StringPico

open CString StringBuffer

/-- Characters are compared without a sign. An access outside of the cells has no result. -/
def strncmp : List Char → List Char → Nat → Option Int
  | ac :: a, bc :: b, n =>
    if n = 0 then some 0
    else if ac < bc then some (-1)
    else if ac > bc then some 1
    else if ac ≠ nul then strncmp a b (n - 1)
    else some 0
  | _, _, _ => none

def strlen (s : List Char) : Option Nat := scan (· != nul) s

section Strstr

-- A pointer into the string is given by the cells from there on.
variable (c : Char) (find : List Char) (len : Nat)

/-- The inner loop, which goes on behind the next `c`. The result is none inside if the string
ends. -/
def skipTo : List Char → Option (Option (List Char))
  | [] => none
  | sc :: s => if sc = nul then some none else if sc ≠ c then skipTo s else some (some s)

variable {c} in
theorem skipTo_length {s rest : List Char} (h : skipTo c s = some (some rest)) :
    rest.length < s.length := by
  induction s with
  | nil => cases h
  | cons sc s ih =>
    rw [skipTo] at h
    split at h
    · cases h
    · split at h
      · exact (ih h).trans (Nat.lt_succ_self _)
      · rw [← Option.some.inj (Option.some.inj h)]
        exact Nat.lt_succ_self _

def search (s : List Char) : Option (Option (List Char)) :=
  match _h : skipTo c s with
  | some (some s') =>
    match strncmp s' find len with
    | some r => if r ≠ 0 then search s' else some (some s')
    | none => none
  | some none => some none
  | none => none
termination_by s.length
decreasing_by exact skipTo_length _h

end Strstr

/-- The place in `s`, or `none` for the null pointer. -/
def strstr (s find : List Char) : Option (Option Nat) := do
  let (c, find) ← next find
  if c ≠ nul then
    let len ← strlen find
    let found ← search c find len s
    -- `s--` takes the pointer back to the first character of the match
    return found.map fun s' => s.length - s'.length - 1
  else return some 0

section Strncpy

/-- The loop with what is left of `n`, and the pointer and the memory behind it. -/
def copyLoop : Nat → List Char → Nat → StringBuffer → Option (Nat × StringBuffer)
  | 0, _, dest, buffer => some (dest, buffer)
  | _ + 1, [], _, _ => none
  | n + 1, c :: src, dest, buffer =>
    let buffer := buffer.store dest c
    if c = nul then some (dest, buffer) else copyLoop n src (dest + 1) buffer

def strncpy (destP : StringBuffer) (src : List Char) (n : Nat) : Option StringBuffer := do
  let (dest, buffer) ← copyLoop n src 0 destP
  return buffer.store dest nul

end Strncpy

section Compare

theorem nul_lt {c : Char} (hc : c ≠ nul) : nul < c := by
  have hne : c.toNat ≠ 0 := fun heq => hc (Char.toNat_inj.mp heq)
  exact Nat.pos_of_ne_zero hne

theorem strncmp_zero {a b : List Char} :
    strncmp (a ++ [nul]) (b ++ [nul]) 0 = some 0 := by
  cases a <;> cases b <;> rfl

theorem strncmp_spec {a b : List Char} (ha : nul ∉ a) (hb : nul ∉ b) (n : Nat) :
    ∃ r, strncmp (a ++ [nul]) (b ++ [nul]) n = some r ∧ (r = 0 ↔ a.take n = b.take n) := by
  induction n generalizing a b with
  | zero => exact ⟨0, strncmp_zero, iff_of_true rfl rfl⟩
  | succ n ih =>
    cases a with
    | nil =>
      cases b with
      | nil => exact ⟨0, by simp [strncmp], iff_of_true rfl rfl⟩
      | cons y b =>
        have hy : nul < y := nul_lt fun heq => hb (heq ▸ List.mem_cons_self)
        exact ⟨-1, by simp [strncmp, hy], by simp⟩
    | cons x a =>
      have hxnul : x ≠ nul := fun heq => ha (heq ▸ List.mem_cons_self)
      cases b with
      | nil =>
        have hx := nul_lt hxnul
        exact ⟨1, by simp [strncmp, hx, hx.not_gt], by simp⟩
      | cons y b =>
        obtain hlt | rfl | hgt := lt_trichotomy x y
        · exact ⟨-1, by simp [strncmp, hlt], by simp [hlt.ne]⟩
        · obtain ⟨r, hr, hzero⟩ := ih (fun h => ha (List.mem_cons_of_mem _ h))
            (fun h => hb (List.mem_cons_of_mem _ h))
          exact ⟨r, by simp [strncmp, hxnul, hr], by simpa using hzero⟩
        · exact ⟨1, by simp [strncmp, hgt, hgt.not_gt], by simp [hgt.ne']⟩

theorem strncmp_prefix {a b : List Char} (ha : nul ∉ a) (hb : nul ∉ b) :
    ∃ r, strncmp (a ++ [nul]) (b ++ [nul]) b.length = some r ∧ (r = 0 ↔ b <+: a) := by
  obtain ⟨r, hr, hzero⟩ := strncmp_spec ha hb b.length
  refine ⟨r, hr, hzero.trans ?_⟩
  rw [List.take_length, List.prefix_iff_eq_take, eq_comm]

end Compare

section Search

theorem skipTo_spec {c : Char} (hc : c ≠ nul) {s : List Char} (hs : nul ∉ s) :
    (c ∉ s ∧ skipTo c (s ++ [nul]) = some none) ∨
      ∃ front rest, s = front ++ c :: rest ∧ c ∉ front ∧
        skipTo c (s ++ [nul]) = some (some (rest ++ [nul])) := by
  induction s with
  | nil => exact .inl ⟨List.not_mem_nil, rfl⟩
  | cons sc s ih =>
    have hsc : sc ≠ nul := fun heq => hs (heq ▸ List.mem_cons_self)
    rw [List.cons_append, skipTo, if_neg hsc]
    obtain rfl | hne := eq_or_ne sc c
    · rw [if_neg (not_not.mpr rfl)]
      exact .inr ⟨[], s, rfl, List.not_mem_nil, rfl⟩
    · rw [if_pos hne]
      obtain ⟨hmem, hskip⟩ | ⟨front, rest, rfl, hmem, hskip⟩ := ih fun h => hs (List.mem_cons_of_mem _ h)
      · exact .inl ⟨List.not_mem_cons_of_ne_of_not_mem hne.symm hmem, hskip⟩
      · exact .inr ⟨sc :: front, rest, rfl, List.not_mem_cons_of_ne_of_not_mem hne.symm hmem, hskip⟩

/-- Before the first `c` there is nothing that begins with `c`. -/
theorem not_prefix_drop {c : Char} {front : List Char} (hc : c ∉ front) {j : Nat}
    (hj : j < front.length) (find rest : List Char) : ¬ c :: find <+: (front ++ rest).drop j := by
  rw [List.drop_append_of_le_length hj.le, List.drop_eq_getElem_cons hj, List.cons_append,
    List.cons_prefix_cons]
  rintro ⟨rfl, -⟩
  exact hc (List.getElem_mem hj)

theorem search_of_end {c : Char} {find s : List Char} {len : Nat} (h : skipTo c s = some none) :
    search c find len s = some none := by
  rw [search]
  split
  · next h' =>
    rw [h] at h'
    cases h'
  · rfl
  · next h' =>
    rw [h] at h'
    cases h'

theorem search_of_found {c : Char} {find s s' : List Char} {len : Nat} {r : Int}
    (h : skipTo c s = some (some s')) (hr : strncmp s' find len = some r) :
    search c find len s = if r ≠ 0 then search c find len s' else some (some s') := by
  rw [search]
  split
  · next h' =>
    rw [h] at h'
    obtain rfl := Option.some.inj (Option.some.inj h')
    rw [hr]
  · next h' =>
    rw [h] at h'
    cases h'
  · next h' =>
    rw [h] at h'
    cases h'

/-- With no match up to a `c` the matches are those of what comes behind it. -/
theorem no_match_append {c : Char} {find front rest : List Char} {m : Nat}
    (hnone : ∀ j ≤ front.length, ¬ c :: find <+: (front ++ c :: rest).drop j)
    (hrest : ∀ k < m, ¬ c :: find <+: rest.drop k) {j : Nat} (hj : j < front.length + 1 + m) :
    ¬ c :: find <+: (front ++ c :: rest).drop j := by
  obtain hlt | hge := Nat.lt_or_ge front.length j
  · obtain ⟨k, rfl⟩ := Nat.exists_eq_add_of_le hlt
    rw [Nat.succ_eq_add_one, Nat.add_assoc, List.drop_length_add_append, Nat.add_comm,
      List.drop_succ_cons]
    exact hrest k (by omega)
  · exact hnone j hge

theorem search_spec {c : Char} (hc : c ≠ nul) {find : List Char} (hfind : nul ∉ find) (n : Nat)
    {s : List Char} (hn : s.length = n) (hs : nul ∉ s) :
    (∃ front rest, s = front ++ c :: rest ∧ find <+: rest ∧
      search c (find ++ [nul]) find.length (s ++ [nul]) = some (some (rest ++ [nul])) ∧
      ∀ j < front.length, ¬ c :: find <+: s.drop j) ∨
    (search c (find ++ [nul]) find.length (s ++ [nul]) = some none ∧
      ∀ j, ¬ c :: find <+: s.drop j) := by
  induction n using Nat.strong_induction_on generalizing s with
  | h n ih =>
    obtain ⟨hmem, hskip⟩ | ⟨front, rest, rfl, hmem, hskip⟩ := skipTo_spec hc hs
    · right
      refine ⟨search_of_end hskip, fun j hfront => hmem ?_⟩
      exact List.mem_of_mem_drop (hfront.subset List.mem_cons_self)
    · have hrest : nul ∉ rest := fun h => hs (by simp [h])
      have hlength : rest.length < n := by
        rw [← hn, List.length_append, List.length_cons]
        omega
      obtain ⟨r, hr, hzero⟩ := strncmp_prefix hrest hfind
      rw [search_of_found hskip hr]
      by_cases hmatch : r = 0
      · left
        rw [if_neg (not_not.mpr hmatch)]
        exact ⟨front, rest, rfl, hzero.mp hmatch, rfl, fun j hj => not_prefix_drop hmem hj _ _⟩
      · rw [if_pos hmatch]
        -- there is no match up to the `c` that has been found
        have hnone : ∀ j ≤ front.length, ¬ c :: find <+: (front ++ c :: rest).drop j := by
          intro j hj
          obtain hlt | rfl := Nat.lt_or_eq_of_le hj
          · exact not_prefix_drop hmem hlt _ _
          · rw [List.drop_left, List.cons_prefix_cons]
            exact fun h => hmatch (hzero.mpr h.2)
        obtain ⟨front', rest', rfl, hfront, hsearch, hbefore⟩ | ⟨hsearch, hbefore⟩ :=
          ih _ hlength rfl hrest
        · left
          refine ⟨front ++ c :: front', rest', by simp, hfront, hsearch, fun j hj => ?_⟩
          rw [List.length_append, List.length_cons] at hj
          exact no_match_append hnone hbefore (by omega)
        · right
          refine ⟨hsearch, fun j => ?_⟩
          exact no_match_append hnone (fun k (_ : k < j) => hbefore k) (by omega)

theorem infix_iff_drop {find s : List Char} : find <:+: s ↔ ∃ j, find <+: s.drop j := by
  constructor
  · rintro ⟨front, rest, rfl⟩
    refine ⟨front.length, rest, ?_⟩
    rw [List.append_assoc, List.drop_left]
  · rintro ⟨j, h⟩
    exact h.isInfix.trans (List.drop_suffix j s).isInfix

/-- The place of the first match in a string, if there is one. -/
structure FirstMatch (find s : List Char) (r : Option Nat) : Prop where
  least : ∀ i, r = some i ↔ IsLeast {i | find <+: s.drop i} i
  none : r = none ↔ ¬ find <:+: s

theorem firstMatch_some {find s : List Char} {i : Nat} (hi : find <+: s.drop i)
    (hbefore : ∀ j < i, ¬ find <+: s.drop j) : FirstMatch find s (some i) := by
  have hleast : IsLeast {i | find <+: s.drop i} i :=
    ⟨hi, fun j hj => Nat.not_lt.mp fun hlt => hbefore j hlt hj⟩
  constructor
  · intro j
    rw [Option.some.injEq]
    exact ⟨fun heq => heq ▸ hleast, fun h => hleast.unique h⟩
  · exact iff_of_false nofun (not_not.mpr (infix_iff_drop.mpr ⟨i, hi⟩))

theorem firstMatch_none {find s : List Char} (h : ∀ j, ¬ find <+: s.drop j) :
    FirstMatch find s none := by
  constructor
  · exact fun i => iff_of_false nofun fun hleast => h i hleast.1
  · exact iff_of_true rfl fun hinfix => (infix_iff_drop.mp hinfix).elim h

end Search

/-- The result is the first place where `find` occurs, and the null pointer if there is none.
Neither string is read behind its zero. -/
theorem strstr_first (s find : CString) :
    ∃ r, strstr s.cells find.cells = some r ∧ FirstMatch find.chars s.chars r := by
  obtain ⟨s, hs⟩ := s
  obtain ⟨find, hfind⟩ := find
  cases find with
  | nil => exact ⟨some 0, rfl, firstMatch_some List.nil_prefix nofun⟩
  | cons c find =>
    have hc : c ≠ nul := fun heq => hfind (heq ▸ List.mem_cons_self)
    have hfind : nul ∉ find := fun h => hfind (List.mem_cons_of_mem _ h)
    have hlen : strlen (find ++ [nul]) = some find.length :=
      scan_append [] (fun x hx => bne_iff_ne.mpr fun heq => hfind (heq ▸ hx)) rfl
    have hstrstr : strstr (s ++ [nul]) (c :: find ++ [nul]) =
        (search c (find ++ [nul]) find.length (s ++ [nul])).map fun found =>
          found.map fun s' => (s ++ [nul]).length - s'.length - 1 := by
      simp only [strstr, next, List.cons_append, Option.bind_eq_bind, Option.bind_some, if_pos hc, hlen]
      exact Option.map_eq_bind.symm
    obtain ⟨front, rest, rfl, hfront, hsearch, hbefore⟩ | ⟨hsearch, hnone⟩ :=
      search_spec hc hfind s.length rfl hs
    · refine ⟨some front.length, ?_, firstMatch_some ?_ hbefore⟩
      · show strstr (_ ++ [nul]) (c :: find ++ [nul]) = _
        rw [hstrstr, hsearch]
        simp
        omega
      · rw [List.drop_left, List.cons_prefix_cons]
        exact ⟨rfl, hfront⟩
    · refine ⟨none, ?_, firstMatch_none hnone⟩
      show strstr (_ ++ [nul]) (c :: find ++ [nul]) = _
      rw [hstrstr, hsearch]
      rfl

example : strstr ['a', 'a', 'b', nul] ['a', 'b', nul] = some (some 1) := by
  decide +kernel

section Copy

/-- At most so many characters are written, and what there is of the source among them. -/
structure BoundedCopy (src : CString) (n : Nat) (dest : StringBuffer) : Prop where
  within : ∀ i ∈ dest.written, i < n
  copied : ∀ i < min n src.chars.length, src.chars[i]? = some (dest.chars i)

variable {before buffer : StringBuffer} {front src : List Char}

theorem copyLoop_spec (hsrc : nul ∉ src) (n : Nat) (h : Wrote before buffer front) :
    ∃ dest after, copyLoop n (src ++ [nul]) front.length buffer = some (dest, after) ∧
      dest = (front ++ src.take n).length ∧
      (Wrote before after (front ++ src.take n) ∨
        Wrote before after (front ++ src.take n ++ [nul])) := by
  induction n generalizing src front buffer with
  | zero =>
    rw [List.take_zero, List.append_nil]
    exact ⟨_, _, rfl, rfl, .inl h⟩
  | succ n ih =>
    cases src with
    | nil =>
      rw [List.take_nil, List.append_nil]
      have hloop : copyLoop (n + 1) [nul] front.length buffer =
          some (front.length, buffer.store front.length nul) := by
        rw [copyLoop]
        exact if_pos rfl
      exact ⟨_, _, hloop, rfl, .inr (h.concat nul)⟩
    | cons c src =>
      have hc : c ≠ nul := fun heq => hsrc (heq ▸ List.mem_cons_self)
      have hnext := h.concat c
      obtain ⟨dest, after, hloop, hrest⟩ := ih (fun h => hsrc (List.mem_cons_of_mem _ h)) hnext
      rw [List.append_assoc, List.singleton_append] at hrest
      rw [List.length_append, List.length_singleton] at hloop
      refine ⟨dest, after, ?_, hrest⟩
      rw [List.cons_append, copyLoop]
      exact (if_neg hc).trans hloop

theorem strncpy_spec (before : StringBuffer) (src : CString) (n : Nat) :
    ∃ after, strncpy before src.cells n = some after ∧
      Wrote before after (src.chars.take n ++ [nul]) := by
  obtain ⟨dest, buffer, hloop, rfl, hwrote⟩ := copyLoop_spec src.nul_notMem n (wrote_nil before)
  rw [List.length_nil, List.nil_append] at hloop
  rw [List.nil_append] at hwrote
  refine ⟨buffer.store (src.chars.take n).length nul, ?_, ?_⟩
  · rw [strncpy]
    show (copyLoop n (src.chars ++ [nul]) 0 before >>= _) = _
    rw [hloop]
    rfl
  · obtain h | h := hwrote
    · exact h.concat nul
    · exact h.again

theorem boundedCopy_iff {memory : Nat → Char} {src : CString} {n : Nat} {after : StringBuffer}
    (h : Wrote ⟨memory, []⟩ after (src.chars.take n ++ [nul])) :
    BoundedCopy src n after ↔ src.chars.length < n := by
  have hlength : (src.chars.take n ++ [nul]).length = min n src.chars.length + 1 := by
    rw [List.length_append, List.length_take, List.length_singleton]
  have hwritten : ∀ i, i ∈ after.written ↔ i < min n src.chars.length + 1 := by
    intro i
    rw [h.written, or_iff_right List.not_mem_nil, hlength]
  constructor
  · intro hcopy
    have hlast := hcopy.within _ ((hwritten _).mpr (Nat.lt_succ_self _))
    omega
  · intro hlt
    constructor
    · intro i hi
      have hi := (hwritten i).mp hi
      omega
    · intro i hi
      rw [← h.getElem? (by omega), List.getElem?_append_left (by rwa [List.length_take]),
        List.getElem?_take_of_lt (by omega)]

end Copy

/-- Only a source that is shorter than the bound is copied within it: the zero behind the
characters is written in any case. The characters before it are those of the source. -/
theorem strncpy_within_iff (memory : Nat → Char) (src : CString) (n : Nat) :
    ∃ dest, strncpy ⟨memory, []⟩ src.cells n = some dest ∧
      (List.range (src.chars.take n).length).map dest.chars = src.chars.take n ∧
      (BoundedCopy src n dest ↔ src.chars.length < n) := by
  obtain ⟨dest, hdest, hwrote⟩ := strncpy_spec ⟨memory, []⟩ src n
  exact ⟨dest, hdest, hwrote.read_concat.1, boundedCopy_iff hwrote⟩

/-- Two characters copied with a bound of two -/
theorem strncpy_overruns : ¬ ∀ (memory : Nat → Char) (src : CString) (n : Nat),
    ∃ dest, strncpy ⟨memory, []⟩ src.cells n = some dest ∧ BoundedCopy src n dest := by
  intro h
  obtain ⟨dest, hdest, hcopy⟩ := h (fun _ => nul) ⟨['a', 'b'], by decide⟩ 2
  have hwritten : dest.written = [0, 1, 2] :=
    (Option.some.inj (congrArg (Option.map StringBuffer.written) hdest)).symm
  exact absurd (hcopy.within 2 (by simp [hwritten])) (lt_irrefl 2)

end Rodos.StringPico
