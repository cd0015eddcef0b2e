import Rodos.TransitionSystem

namespace Rodos.Commbuffer

open TransitionSystem

variable {n : Nat} {W : Type}

inductive Place
  | first
  | second
  | third
  deriving DecidableEq

/-- The message type is a number of words, and the pointers are places in
`buffer`. -/
structure CommBuffer (n : Nat) (W : Type) where
  buffer : Place → Fin n → W
  writer : Place
  reader : Place
  intermediate : Place
  readingNow : Bool
  newDataAvailable : Bool
  writeCnt : UInt64
  readCnt : UInt64

inductive PutPc (n : Nat) (W : Type)
  | idle
  | copy (data : Fin n → W) (i : Nat)
  | setReader (swap : Place)
  | setWriter (swap : Place)
  | testReading
  | saveWriter
  | takeIntermediate (swap : Place)
  | setIntermediate (swap : Place)
  | countWrite
  | announce

inductive GetPc (n : Nat) (W : Type)
  | idle
  | clearNew (data : Fin n → W)
  | setReading (data : Fin n → W)
  | takeReader (data : Fin n → W)
  | copy (readerTmp : Place) (data : Fin n → W) (i : Nat)
  | countRead (data : Fin n → W)

/-- The buffer with its writer and its reader. What they have put and got so far
is recorded, and how often the reader pointer has been set since `get` has taken
it. -/
structure System (n : Nat) (W : Type) extends CommBuffer n W where
  put : PutPc n W
  get : GetPc n W
  puts : List (Fin n → W)
  returned : List (Fin n → W)
  published : Nat

inductive Event (n : Nat) (W : Type)
  | put (data : Fin n → W)
  | writer
  | get (data : Fin n → W)
  | getOnlyIfNewData (data : Fin n → W)
  | reader

def writerStep (s : System n W) : Option (System n W) :=
  match s.put with
  | .idle => none
  | .copy data i =>
    if h : i < n then
      let word := Function.update (s.buffer s.writer) ⟨i, h⟩ (data ⟨i, h⟩)
      some { s with
        buffer := Function.update s.buffer s.writer word
        put := .copy data (i + 1) }
    else some { s with put := .setReader s.reader }
  | .setReader swap =>
    some { s with reader := s.writer, put := .setWriter swap, published := s.published + 1 }
  | .setWriter swap => some { s with writer := swap, put := .testReading }
  | .testReading => some { s with put := if s.readingNow then .saveWriter else .countWrite }
  | .saveWriter => some { s with put := .takeIntermediate s.writer }
  | .takeIntermediate swap =>
    some { s with writer := s.intermediate, put := .setIntermediate swap }
  | .setIntermediate swap => some { s with intermediate := swap, put := .countWrite }
  | .countWrite => some { s with writeCnt := s.writeCnt + 1, put := .announce }
  | .announce => some { s with newDataAvailable := true, put := .idle }

def readerStep (s : System n W) : Option (System n W) :=
  match s.get with
  | .idle => none
  | .clearNew data => some { s with newDataAvailable := false, get := .setReading data }
  | .setReading data => some { s with readingNow := true, get := .takeReader data }
  | .takeReader data => some { s with get := .copy s.reader data 0, published := 0 }
  | .copy readerTmp data i =>
    if h : i < n then
      let word := Function.update data ⟨i, h⟩ (s.buffer readerTmp ⟨i, h⟩)
      some { s with get := .copy readerTmp word (i + 1) }
    else some { s with readingNow := false, get := .countRead data }
  | .countRead data =>
    some { s with readCnt := s.readCnt + 1, get := .idle, returned := s.returned ++ [data] }

def step : Event n W → System n W → Option (System n W)
  | .put data, s =>
    match s.put with
    | .idle => some { s with put := .copy data 0, puts := s.puts ++ [data] }
    | _ => none
  | .writer, s => writerStep s
  | .get data, s =>
    match s.get with
    | .idle => some { s with get := .clearNew data }
    | _ => none
  | .getOnlyIfNewData data, s =>
    match s.get with
    | .idle => if s.newDataAvailable then some { s with get := .clearNew data } else some s
    | _ => none
  | .reader, s => readerStep s

def constructed (buffer : Place → Fin n → W) : System n W where
  buffer := buffer
  writer := .first
  reader := .second
  intermediate := .third
  readingNow := false
  newDataAvailable := false
  writeCnt := 0
  readCnt := 0
  put := .idle
  get := .idle
  puts := []
  returned := []
  published := 0

def readsFrom (s : System n W) : Option Place :=
  match s.get with
  | .copy readerTmp _ i => if i < n then some readerTmp else none
  | _ => none

def writesTo (s : System n W) : Option Place :=
  match s.put with
  | .copy _ i => if i < n then some s.writer else none
  | _ => none

/-- A value that was in the buffer from the beginning or was put as a whole. -/
def Whole (initial : Fin n → W) (s : System n W) (v : Fin n → W) : Prop :=
  v = initial ∨ v ∈ s.puts

structure Consistent (initial : Fin n → W) (s : System n W) : Prop where
  returned : ∀ v ∈ s.returned, Whole initial s v
  separate : ∀ p, readsFrom s = some p → writesTo s ≠ some p

/-- A call of `put` does not begin while `get` is copying a value that two others
have come after. -/
def Timely : Event n W → System n W → Prop
  | .put _, s => (readsFrom s).isSome → s.published < 2
  | _, _ => True

instance : (e : Event n W) → (s : System n W) → Decidable (Timely e s)
  | .put _, s => inferInstanceAs (Decidable ((readsFrom s).isSome → s.published < 2))
  | .writer, _ => isTrue trivial
  | .get _, _ => isTrue trivial
  | .getOnlyIfNewData _, _ => isTrue trivial
  | .reader, _ => isTrue trivial

section Pointers

def Distinct (a b c : Place) : Prop := a ≠ b ∧ b ≠ c ∧ a ≠ c

/-- The pointers point to different buffers, the one that is being set apart. -/
def Apart (s : System n W) : Prop :=
  match s.put with
  | .setReader swap => swap = s.reader ∧ Distinct s.writer s.reader s.intermediate
  | .setWriter swap => s.reader = s.writer ∧ Distinct s.writer swap s.intermediate
  | .takeIntermediate swap => swap = s.writer ∧ Distinct s.writer s.reader s.intermediate
  | .setIntermediate swap => s.writer = s.intermediate ∧ Distinct s.writer s.reader swap
  | _ => Distinct s.writer s.reader s.intermediate

/-- Where the buffer is found that `get` has taken, by how often the reader
pointer has been set since. -/
def Located (s : System n W) (p : Place) : Prop :=
  match s.published with
  | 0 => p = s.reader
  | 1 =>
    match s.put with
    | .setWriter swap | .takeIntermediate swap | .setIntermediate swap => p = swap
    | .testReading | .saveWriter => p = s.writer
    | _ => p = s.intermediate
  | 2 =>
    match s.put with
    | .copy _ _ | .setReader _ => False
    | .setWriter _ | .testReading | .saveWriter | .takeIntermediate _ => p = s.intermediate
    | _ => p = s.writer
  | _ => False

variable {s t : System n W} {p : Place}

theorem Distinct.swap {a b c : Place} (h : Distinct a b c) : Distinct b a c :=
  ⟨h.1.symm, h.2.2, h.2.1⟩

theorem Distinct.reverse {a b c : Place} (h : Distinct a b c) : Distinct c b a :=
  ⟨h.2.1.symm, h.1.symm, h.2.2.symm⟩

theorem Apart.writerStep (h : Apart s) (hstep : writerStep s = some t) : Apart t := by
  rw [Commbuffer.writerStep] at hstep
  cases hput : s.put with
  | idle =>
    rw [hput] at hstep
    cases hstep
  | copy data i =>
    have hdistinct : Distinct s.writer s.reader s.intermediate := by simpa only [Apart, hput] using h
    simp only [hput] at hstep
    split at hstep
    · cases hstep
      exact hdistinct
    · cases hstep
      exact ⟨rfl, hdistinct⟩
  | setReader swap =>
    obtain ⟨hswap, hdistinct⟩ : swap = s.reader ∧ Distinct s.writer s.reader s.intermediate := by
      simpa only [Apart, hput] using h
    simp only [hput] at hstep
    cases hstep
    exact ⟨rfl, hswap ▸ hdistinct⟩
  | setWriter swap =>
    obtain ⟨hreader, hdistinct⟩ : s.reader = s.writer ∧ Distinct s.writer swap s.intermediate := by
      simpa only [Apart, hput] using h
    simp only [hput] at hstep
    cases hstep
    simpa only [Apart, hreader] using hdistinct.swap
  | testReading =>
    have hdistinct : Distinct s.writer s.reader s.intermediate := by simpa only [Apart, hput] using h
    simp only [hput] at hstep
    cases hstep
    by_cases hreading : s.readingNow = true
    · simpa only [Apart, if_pos hreading] using hdistinct
    · simpa only [Apart, if_neg hreading] using hdistinct
  | saveWriter =>
    have hdistinct : Distinct s.writer s.reader s.intermediate := by simpa only [Apart, hput] using h
    simp only [hput] at hstep
    cases hstep
    exact ⟨rfl, hdistinct⟩
  | takeIntermediate swap =>
    obtain ⟨hswap, hdistinct⟩ : swap = s.writer ∧ Distinct s.writer s.reader s.intermediate := by
      simpa only [Apart, hput] using h
    simp only [hput] at hstep
    cases hstep
    exact ⟨rfl, hswap ▸ hdistinct.reverse⟩
  | setIntermediate swap =>
    obtain ⟨-, hdistinct⟩ : s.writer = s.intermediate ∧ Distinct s.writer s.reader swap := by
      simpa only [Apart, hput] using h
    simp only [hput] at hstep
    cases hstep
    exact hdistinct
  | countWrite | announce =>
    have hdistinct : Distinct s.writer s.reader s.intermediate := by simpa only [Apart, hput] using h
    simp only [hput] at hstep
    cases hstep
    exact hdistinct

theorem Located.published_lt (h : Located s p) : s.published < 3 := by
  rw [Located] at h
  split at h
  · omega
  · omega
  · omega
  · exact h.elim

/-- As long as `put` sees that `get` is reading, it sets the buffer aside. -/
theorem Located.writerStep (hapart : Apart s) (h : Located s p) (hreading : s.readingNow = true)
    (hstep : writerStep s = some t) : Located t p := by
  rw [Commbuffer.writerStep] at hstep
  cases hput : s.put with
  | idle =>
    rw [hput] at hstep
    cases hstep
  | copy data i =>
    simp only [hput] at hstep
    split at hstep
    · cases hstep
      simpa only [Located, hput] using h
    · cases hstep
      simpa only [Located, hput] using h
  | setReader swap =>
    -- the only statement that moves the reader pointer
    obtain ⟨hswap, -⟩ : swap = s.reader ∧ Distinct s.writer s.reader s.intermediate := by
      simpa only [Apart, hput] using hapart
    have hlt := h.published_lt
    simp only [hput] at hstep
    cases hstep
    obtain hp | hp | hp : s.published = 0 ∨ s.published = 1 ∨ s.published = 2 := by omega
    · simpa only [Located, hp, hswap] using h
    · simpa only [Located, hp, hput] using h
    · simp only [Located, hp, hput] at h
  | testReading =>
    simp only [hput] at hstep
    cases hstep
    simpa only [Located, hput, if_pos hreading] using h
  | setWriter swap | saveWriter | takeIntermediate swap | setIntermediate swap | countWrite
  | announce =>
    simp only [hput] at hstep
    cases hstep
    simpa only [Located, hput] using h

theorem Located.put (h : Located s p) (hput : s.put = .idle) (hpublished : s.published < 2)
    (data : Fin n → W) (puts : List (Fin n → W)) :
    Located { s with put := .copy data 0, puts := puts } p := by
  obtain hp | hp : s.published = 0 ∨ s.published = 1 := by omega
  · simpa only [Located, hp] using h
  · simpa only [Located, hp, hput] using h

theorem Located.ne_writer (hapart : Apart s) (h : Located s p) {data : Fin n → W} {i : Nat}
    (hput : s.put = .copy data i) : p ≠ s.writer := by
  have hlt := h.published_lt
  obtain ⟨hreader, -, hintermediate⟩ : Distinct s.writer s.reader s.intermediate := by
    simpa only [Apart, hput] using hapart
  obtain hp | hp | hp : s.published = 0 ∨ s.published = 1 ∨ s.published = 2 := by omega
  · have hplace : p = s.reader := by simpa only [Located, hp] using h
    exact hplace ▸ hreader.symm
  · have hplace : p = s.intermediate := by simpa only [Located, hp, hput] using h
    exact hplace ▸ hintermediate.symm
  · simp only [Located, hp, hput] at h

theorem Located.eq_writer (h : Located s p) (hput : s.put = .idle) (hpublished : 2 ≤ s.published) :
    p = s.writer := by
  have hlt := h.published_lt
  have hp : s.published = 2 := by omega
  simpa only [Located, hp, hput] using h

end Pointers

section Contents

def PutOk (initial : Fin n → W) (s : System n W) : Prop :=
  match s.put with
  | .copy data i => Whole initial s data ∧ ∀ k : Fin n, k < i → s.buffer s.writer k = data k
  | .setReader _ => Whole initial s (s.buffer s.writer)
  | _ => True

/-- What `get` has copied so far is the beginning of a whole value, and as long as
there are words to copy the value stays where it is. -/
def GetOk (initial : Fin n → W) (s : System n W) : Prop :=
  match s.get with
  | .takeReader _ => s.readingNow = true
  | .copy p data i => s.readingNow = true ∧ ∃ v, Whole initial s v ∧
      (∀ k : Fin n, k < i → data k = v k) ∧ (i < n → Located s p ∧ s.buffer p = v)
  | .countRead data => Whole initial s data
  | _ => True

structure Inv (initial : Fin n → W) (s : System n W) : Prop where
  apart : Apart s
  reader : Whole initial s (s.buffer s.reader)
  put : PutOk initial s
  get : GetOk initial s
  returned : ∀ v ∈ s.returned, Whole initial s v

variable {initial : Fin n → W} {s t : System n W}

theorem whole_congr (hputs : t.puts = s.puts) {v : Fin n → W} :
    Whole initial t v ↔ Whole initial s v := by
  rw [Whole, Whole, hputs]

/-- The writer leaves the reader alone, and all buffers but the one it copies to. -/
structure WriterFrame (s t : System n W) : Prop where
  get : t.get = s.get
  readingNow : t.readingNow = s.readingNow
  puts : t.puts = s.puts
  returned : t.returned = s.returned
  buffer : ∀ p, (∀ data i, s.put = .copy data i → p ≠ s.writer) → t.buffer p = s.buffer p

theorem writerFrame (hstep : writerStep s = some t) : WriterFrame s t := by
  cases hput : s.put with
  | idle =>
    rw [writerStep, hput] at hstep
    cases hstep
  | copy data i =>
    rw [writerStep, hput] at hstep
    dsimp only at hstep
    split at hstep
    · cases hstep
      exact ⟨rfl, rfl, rfl, rfl, fun p hp => Function.update_of_ne (hp data i hput) _ _⟩
    · cases hstep
      exact ⟨rfl, rfl, rfl, rfl, fun _ _ => rfl⟩
  | setReader | setWriter | testReading | saveWriter | takeIntermediate | setIntermediate
  | countWrite | announce =>
    rw [writerStep, hput] at hstep
    cases hstep
    exact ⟨rfl, rfl, rfl, rfl, fun _ _ => rfl⟩

theorem readsFrom_eq_some {p : Place} :
    readsFrom s = some p ↔ ∃ data i, s.get = .copy p data i ∧ i < n := by
  rw [readsFrom]
  split
  · rename_i hget
    simp [hget, and_comm]
  · rename_i hget
    simp only [reduceCtorEq, false_iff]
    rintro ⟨data, i, hcopy, -⟩
    exact hget p data i hcopy

theorem GetOk.congr (h : GetOk initial s) (hget : t.get = s.get)
    (hreading : t.readingNow = s.readingNow)
    (hwhole : ∀ v, Whole initial s v → Whole initial t v)
    (hlocated : ∀ p, readsFrom s = some p → s.readingNow = true → Located s p →
      Located t p ∧ t.buffer p = s.buffer p) : GetOk initial t := by
  unfold GetOk at *
  rw [hget, hreading]
  split at h
  · exact h
  · rename_i p data i hcopy
    obtain ⟨hread, v, hv, hcopied, hrest⟩ := h
    refine ⟨hread, v, hwhole v hv, hcopied, fun hi => ?_⟩
    obtain ⟨hloc, rfl⟩ := hrest hi
    exact hlocated p (readsFrom_eq_some.mpr ⟨data, i, hcopy, hi⟩) hread hloc
  · exact hwhole _ h
  · exact trivial

theorem eq_of_copied {v w : Fin n → W} {i : Nat} (h : ∀ k : Fin n, k < i → v k = w k)
    (hi : ¬i < n) : v = w :=
  funext fun k => h k (by omega)

theorem copied_update {v w : Fin n → W} {i : Nat} (h : ∀ k : Fin n, k < i → v k = w k)
    (hi : i < n) (k : Fin n) (hk : k < i + 1) :
    Function.update v ⟨i, hi⟩ (w ⟨i, hi⟩) k = w k := by
  by_cases hlast : k = ⟨i, hi⟩
  · rw [hlast, Function.update_self]
  · rw [Function.update_of_ne hlast]
    have hne : (k : Nat) ≠ i := fun heq => hlast (Fin.ext heq)
    exact h k (by omega)

theorem PutOk.writerStep (h : PutOk initial s) (hstep : writerStep s = some t) :
    PutOk initial t := by
  cases hput : s.put with
  | idle =>
    rw [Commbuffer.writerStep, hput] at hstep
    cases hstep
  | copy data i =>
    rw [PutOk, hput] at h
    obtain ⟨hdata, hcopied⟩ := h
    rw [Commbuffer.writerStep, hput] at hstep
    dsimp only at hstep
    split at hstep
    · rename_i hi
      cases hstep
      refine ⟨hdata, fun k hk => ?_⟩
      have hword := copied_update hcopied hi k hk
      simpa only [Function.update_self] using hword
    · rename_i hi
      cases hstep
      change Whole initial s (s.buffer s.writer)
      rw [eq_of_copied hcopied hi]
      exact hdata
  | testReading =>
    rw [Commbuffer.writerStep, hput] at hstep
    cases hstep
    by_cases hreading : s.readingNow = true <;> simp [PutOk, hreading]
  | setReader | setWriter | saveWriter | takeIntermediate | setIntermediate | countWrite
  | announce =>
    rw [Commbuffer.writerStep, hput] at hstep
    cases hstep
    exact trivial

theorem reader_writerStep (h : Inv initial s) (hstep : writerStep s = some t) :
    Whole initial t (t.buffer t.reader) := by
  cases hput : s.put with
  | idle =>
    rw [writerStep, hput] at hstep
    cases hstep
  | copy data i =>
    have hapart := h.apart
    rw [Apart, hput] at hapart
    rw [writerStep, hput] at hstep
    dsimp only at hstep
    split at hstep
    · cases hstep
      change Whole initial s (Function.update s.buffer s.writer _ s.reader)
      rw [Function.update_of_ne hapart.1.symm]
      exact h.reader
    · cases hstep
      exact h.reader
  | setReader swap =>
    have hwhole := h.put
    rw [PutOk, hput] at hwhole
    rw [writerStep, hput] at hstep
    cases hstep
    exact hwhole
  | setWriter | testReading | saveWriter | takeIntermediate | setIntermediate | countWrite
  | announce =>
    rw [writerStep, hput] at hstep
    cases hstep
    exact h.reader

theorem Inv.writerStep (h : Inv initial s) (hstep : writerStep s = some t) : Inv initial t := by
  have hframe := writerFrame hstep
  have hwhole : ∀ v, Whole initial s v → Whole initial t v := fun v hv =>
    (whole_congr hframe.puts).mpr hv
  refine ⟨h.apart.writerStep hstep, reader_writerStep h hstep, h.put.writerStep hstep, ?_, ?_⟩
  · refine h.get.congr hframe.get hframe.readingNow hwhole fun p _ hreading hp => ?_
    refine ⟨hp.writerStep h.apart hreading hstep, hframe.buffer p fun data i hput => ?_⟩
    exact hp.ne_writer h.apart hput
  · rw [hframe.returned]
    exact fun v hv => hwhole v (h.returned v hv)

/-- The reader leaves the writer and the buffers alone. -/
structure ReaderFrame (s t : System n W) : Prop where
  buffer : t.buffer = s.buffer
  writer : t.writer = s.writer
  reader : t.reader = s.reader
  intermediate : t.intermediate = s.intermediate
  put : t.put = s.put
  puts : t.puts = s.puts

theorem readerFrame (hstep : readerStep s = some t) : ReaderFrame s t := by
  cases hget : s.get with
  | idle =>
    rw [readerStep, hget] at hstep
    cases hstep
  | copy p data i =>
    rw [readerStep, hget] at hstep
    dsimp only at hstep
    split at hstep
    · cases hstep
      exact ⟨rfl, rfl, rfl, rfl, rfl, rfl⟩
    · cases hstep
      exact ⟨rfl, rfl, rfl, rfl, rfl, rfl⟩
  | clearNew | setReading | takeReader | countRead =>
    rw [readerStep, hget] at hstep
    cases hstep
    exact ⟨rfl, rfl, rfl, rfl, rfl, rfl⟩

theorem Inv.of_readerFrame (h : Inv initial s) (hframe : ReaderFrame s t)
    (hget : GetOk initial t) (hreturned : ∀ v ∈ t.returned, Whole initial s v) :
    Inv initial t := by
  obtain ⟨hapart, hreader, hput, -, -⟩ := h
  refine ⟨?_, ?_, ?_, hget, fun v hv => (whole_congr hframe.puts).mpr (hreturned v hv)⟩
  · rw [Apart, hframe.put, hframe.writer, hframe.reader, hframe.intermediate]
    exact hapart
  · rw [whole_congr hframe.puts, hframe.buffer, hframe.reader]
    exact hreader
  · simp only [PutOk, hframe.put, hframe.buffer, hframe.writer, whole_congr hframe.puts]
    exact hput

theorem Inv.readerStep (h : Inv initial s) (hstep : readerStep s = some t) : Inv initial t := by
  have hok := h.get
  have hframe := readerFrame hstep
  cases hget : s.get with
  | idle =>
    rw [Commbuffer.readerStep, hget] at hstep
    cases hstep
  | clearNew data =>
    rw [Commbuffer.readerStep, hget] at hstep
    cases hstep
    exact h.of_readerFrame hframe trivial h.returned
  | setReading data =>
    rw [Commbuffer.readerStep, hget] at hstep
    cases hstep
    exact h.of_readerFrame hframe rfl h.returned
  | takeReader data =>
    rw [GetOk, hget] at hok
    rw [Commbuffer.readerStep, hget] at hstep
    cases hstep
    refine h.of_readerFrame hframe ⟨hok, s.buffer s.reader, h.reader, ?_, ?_⟩ h.returned
    · exact fun k hk => absurd hk (Nat.not_lt_zero _)
    · exact fun _ => ⟨rfl, rfl⟩
  | copy p data i =>
    rw [GetOk, hget] at hok
    obtain ⟨hreading, v, hv, hcopied, hrest⟩ := hok
    rw [Commbuffer.readerStep, hget] at hstep
    dsimp only at hstep
    split at hstep
    · rename_i hi
      obtain ⟨hlocated, rfl⟩ := hrest hi
      cases hstep
      refine h.of_readerFrame hframe ⟨hreading, s.buffer p, hv, ?_, ?_⟩ h.returned
      · exact copied_update hcopied hi
      · exact fun _ => ⟨hlocated, rfl⟩
    · rename_i hi
      cases hstep
      exact h.of_readerFrame hframe (eq_of_copied hcopied hi ▸ hv) h.returned
  | countRead data =>
    rw [GetOk, hget] at hok
    rw [Commbuffer.readerStep, hget] at hstep
    cases hstep
    refine h.of_readerFrame hframe trivial fun v hv => ?_
    obtain hv | hv := List.mem_append.mp hv
    · exact h.returned v hv
    · rw [List.mem_singleton.mp hv]
      exact hok

theorem Inv.put_call (h : Inv initial s) (hput : s.put = .idle) (data : Fin n → W)
    (htimely : Timely (.put data) s) :
    Inv initial { s with put := .copy data 0, puts := s.puts ++ [data] } := by
  have hapart := h.apart
  have hwhole : ∀ v, Whole initial s v →
      Whole initial { s with put := .copy data 0, puts := s.puts ++ [data] } v := fun v hv =>
    hv.imp_right fun hmem => List.mem_append_left _ hmem
  rw [Apart, hput] at hapart
  refine ⟨hapart, hwhole _ h.reader, ⟨.inr (by simp), fun k hk => absurd hk (Nat.not_lt_zero _)⟩,
    ?_, fun v hv => hwhole v (h.returned v hv)⟩
  refine h.get.congr rfl rfl hwhole fun p hreads _ hp => ?_
  exact ⟨hp.put hput (htimely (by simp [hreads])) data _, rfl⟩

theorem Inv.get_call (h : Inv initial s) (data : Fin n → W) :
    Inv initial { s with get := .clearNew data } :=
  ⟨h.apart, h.reader, h.put, trivial, h.returned⟩

theorem Inv.step {e : Event n W} (h : Inv initial s) (htimely : Timely e s)
    (hstep : step e s = some t) : Inv initial t := by
  cases e with
  | put data =>
    rw [Commbuffer.step] at hstep
    split at hstep
    · rename_i hput
      cases hstep
      exact h.put_call hput data htimely
    · cases hstep
  | writer => exact h.writerStep hstep
  | get data =>
    rw [Commbuffer.step] at hstep
    split at hstep
    · cases hstep
      exact h.get_call data
    · cases hstep
  | getOnlyIfNewData data =>
    rw [Commbuffer.step] at hstep
    split at hstep
    · split at hstep
      · cases hstep
        exact h.get_call data
      · cases hstep
        exact h
    · cases hstep
  | reader => exact h.readerStep hstep

theorem inv_constructed (buffer : Place → Fin n → W) : Inv (buffer .second) (constructed buffer) := by
  refine ⟨?_, .inl rfl, trivial, trivial, fun v hv => absurd hv (List.not_mem_nil)⟩
  change Distinct .first .second .third
  exact ⟨by decide, by decide, by decide⟩

theorem Inv.located (h : Inv initial s) {p : Place} (hreads : readsFrom s = some p) :
    Located s p := by
  obtain ⟨data, i, hget, hi⟩ := readsFrom_eq_some.mp hreads
  have hok := h.get
  rw [GetOk, hget] at hok
  obtain ⟨-, v, -, -, hrest⟩ := hok
  exact (hrest hi).1

theorem Inv.consistent (h : Inv initial s) : Consistent initial s := by
  refine ⟨h.returned, fun p hreads => ?_⟩
  rw [writesTo]
  split
  · rename_i hput
    split
    · simpa using ((h.located hreads).ne_writer h.apart hput).symm
    · simp
  · simp

/-- A call of `put` that is not timely begins with the buffer that is being read. -/
theorem Inv.not_consistent (h : Inv initial s) {e : Event n W} (htimely : ¬Timely e s)
    (hstep : Commbuffer.step e s = some t) : ¬Consistent initial t := by
  intro hconsistent
  cases e with
  | put data =>
    obtain ⟨hreads, hpublished⟩ := Classical.not_imp.mp htimely
    obtain ⟨p, hp⟩ := Option.isSome_iff_exists.mp hreads
    obtain ⟨_, i, -, hi⟩ := readsFrom_eq_some.mp hp
    rw [Commbuffer.step] at hstep
    split at hstep
    · rename_i hput
      cases hstep
      refine hconsistent.separate p hp ?_
      have hwriter : p = s.writer := (h.located hp).eq_writer hput (Nat.le_of_not_lt hpublished)
      rw [hwriter]
      exact if_pos (by omega)
    · cases hstep
  | writer | get | getOnlyIfNewData | reader => exact htimely trivial

end Contents

/-- In every run in which the calls of `put` are timely, `get` returns whole
values and copies from a buffer that is not being written, and the first call that
is not timely ends that. -/
theorem get_consistent {buffer : Place → Fin n → W} {s : System n W}
    (h : ReachableUnder (fun s => s = constructed buffer) step Timely s) :
    Consistent (buffer .second) s ∧
      ∀ e t, step e s = some t → (Consistent (buffer .second) t ↔ Timely e s) := by
  have hinv : Inv (buffer .second) s := by
    refine h.invariant (Inv (buffer .second)) ?_ ?_
    · rintro s rfl
      exact inv_constructed buffer
    · intro e s t hinv htimely hstep
      exact hinv.step htimely hstep
  refine ⟨hinv.consistent, fun e t hstep => ⟨fun hconsistent => ?_, fun htimely => ?_⟩⟩
  · by_contra htimely
    exact hinv.not_consistent htimely hstep hconsistent
  · exact (hinv.step htimely hstep).consistent

section

def zeros : Place → Fin 2 → Bool := fun _ _ => false

def ones : Fin 2 → Bool := fun _ => true

def beginGet : List (Event 2 Bool) := .get (zeros .first) :: List.replicate 4 .reader

def wholePut : List (Event 2 Bool) := .put ones :: List.replicate 11 .writer

/-- Two calls of `put` pass one of `get`. -/
theorem get_consistent_two :
    ∃ s, s.returned = [zeros .second] ∧ s.writeCnt = 2 ∧ Consistent (zeros .second) s := by
  obtain ⟨s, hs, hreturned, hwritten⟩ := exists_reachable (fun s => s = constructed zeros) step
    Timely (constructed zeros) rfl (beginGet ++ wholePut ++ wholePut ++ List.replicate 3 .reader)
    (fun s => s.returned = [zeros .second] ∧ s.writeCnt = 2) (by decide +kernel)
  exact ⟨s, hreturned, hwritten, (get_consistent hs).1⟩

/-- The third writes to the buffer that is being read, and a mixture is returned. -/
theorem not_consistent_three :
    ∃ s, Reachable (fun s => s = constructed zeros) step s ∧ ¬Consistent (zeros .second) s := by
  obtain ⟨s, hs, v, hv, hinitial, hputs⟩ := exists_reachable (fun s => s = constructed zeros) step
    (fun _ _ => True) (constructed zeros) rfl
    (beginGet ++ wholePut ++ wholePut ++ wholePut ++ List.replicate 3 .reader)
    (fun s => ∃ v ∈ s.returned, v ≠ zeros .second ∧ v ∉ s.puts) (by decide +kernel)
  exact ⟨s, hs, fun h => (h.returned v hv).elim hinitial hputs⟩

end

end Rodos.Commbuffer
