import Rodos.Commbuffer

namespace Rodos.SyncCommBuffer

open TransitionSystem Commbuffer

variable {n : Nat} {W : Type}

/-- `put` is in the method of the base class, or it has come to its own scope. -/
inductive SyncPutPc
  | idle
  | base
  | wake
  deriving DecidableEq

inductive SyncGetPc (n : Nat) (W : Type)
  | idle
  | enter (data : Fin n → W)
  | suspended (data : Fin n → W)
  | readOk (data : Fin n → W)
  | base (ok : Bool)

/-- The buffer with a writer and with a reader that has no timeout. A pointer to the
waiting thread is there or it is not. -/
structure System (n : Nat) (W : Type) where
  buffer : Commbuffer.System n W
  suspendedReader : Bool
  put : SyncPutPc
  syncGet : SyncGetPc n W
  sleeping : Bool
  returned : List Bool

inductive Event (n : Nat) (W : Type)
  | put (data : Fin n → W)
  | writer
  | syncGet (data : Fin n → W)
  | reader

def putStep (s : System n W) : Option (System n W) :=
  match s.put with
  | .idle => none
  | .base =>
    match writerStep s.buffer with
    | none => none
    | some buffer =>
      match buffer.put with
      | .idle => some { s with buffer := buffer, put := .wake }
      | _ => some { s with buffer := buffer }
  | .wake => some { s with sleeping := s.sleeping && !s.suspendedReader, put := .idle }

def syncGetStep (s : System n W) : Option (System n W) :=
  match s.syncGet with
  | .idle => none
  | .enter data =>
    if s.buffer.newDataAvailable then some { s with syncGet := .readOk data }
    else some { s with suspendedReader := true, sleeping := true, syncGet := .suspended data }
  | .suspended data =>
    if s.sleeping then none
    else some { s with suspendedReader := false, syncGet := .readOk data }
  | .readOk data => some { s with
      buffer := { s.buffer with get := .clearNew data }
      syncGet := .base s.buffer.newDataAvailable }
  | .base ok =>
    match readerStep s.buffer with
    | none => none
    | some buffer =>
      match buffer.get with
      | .idle => some { s with buffer := buffer, syncGet := .idle, returned := s.returned ++ [ok] }
      | _ => some { s with buffer := buffer }

def step : Event n W → System n W → Option (System n W)
  | .put data, s =>
    match s.put with
    | .idle => some { s with
        buffer := { s.buffer with put := .copy data 0, puts := s.buffer.puts ++ [data] }
        put := .base }
    | _ => none
  | .writer, s => putStep s
  | .syncGet data, s =>
    match s.syncGet with
    | .idle => some { s with syncGet := .enter data }
    | _ => none
  | .reader, s => syncGetStep s

def constructed (buffer : Place → Fin n → W) : System n W where
  buffer := Commbuffer.constructed buffer
  suspendedReader := false
  put := .idle
  syncGet := .idle
  sleeping := false
  returned := []

def findsNothing (s : System n W) : Bool :=
  match s.syncGet with
  | .enter _ => !s.buffer.newDataAvailable
  | _ => false

/-- The reader does not start to wait between the two parts of `put`. -/
def Timely : Event n W → System n W → Prop
  | .reader, s => s.put = .wake → findsNothing s = false
  | _, _ => True

instance : (e : Event n W) → (s : System n W) → Decidable (Timely e s)
  | .reader, s => inferInstanceAs (Decidable (s.put = .wake → findsNothing s = false))
  | .put _, _ => isTrue trivial
  | .writer, _ => isTrue trivial
  | .syncGet _, _ => isTrue trivial

section Invariant

/-- New data is there before a waiting reader is woken, and until it takes them. -/
def ReaderOk (s : System n W) : Prop :=
  match s.syncGet with
  | .suspended _ => s.sleeping = false ∨ s.put = .wake → s.buffer.newDataAvailable = true
  | .readOk _ => s.buffer.newDataAvailable = true
  | .base ok => ok = true
  | _ => True

structure Inv (s : System n W) : Prop where
  reader : ReaderOk s
  returned : ∀ ok ∈ s.returned, ok = true

theorem inv_constructed (buffer : Place → Fin n → W) : Inv (constructed buffer) :=
  ⟨trivial, nofun⟩

variable {s t : System n W}

theorem writerStep_announces {b b' : Commbuffer.System n W} (hstep : writerStep b = some b') :
    b'.newDataAvailable = true ∨ b'.newDataAvailable = b.newDataAvailable ∧ b'.put ≠ .idle := by
  cases hpc : b.put with
  | idle =>
    rw [writerStep, hpc] at hstep
    cases hstep
  | announce =>
    rw [writerStep, hpc] at hstep
    cases hstep
    exact .inl rfl
  | _ =>
    rw [writerStep, hpc] at hstep
    grind

theorem ReaderOk.mono (h : ReaderOk s) (hpc : t.syncGet = s.syncGet)
    (hnew : s.buffer.newDataAvailable = true → t.buffer.newDataAvailable = true)
    (hwoken : t.sleeping = false ∨ t.put = .wake →
      (s.sleeping = false ∨ s.put = .wake) ∨ t.buffer.newDataAvailable = true) : ReaderOk t := by
  rw [ReaderOk] at h ⊢
  rw [hpc]
  split at h
  · intro hafter
    obtain hbefore | hready := hwoken hafter
    · exact hnew (h hbefore)
    · exact hready
  · exact hnew h
  · exact h
  · trivial

theorem Inv.putStep (h : Inv s) (hstep : putStep s = some t) : Inv t := by
  cases hpc : s.put with
  | idle =>
    rw [SyncCommBuffer.putStep, hpc] at hstep
    cases hstep
  | base =>
    rw [SyncCommBuffer.putStep, hpc] at hstep
    dsimp only at hstep
    split at hstep
    · cases hstep
    · rename_i buffer hwriter
      obtain hready | ⟨hsame, hgoes⟩ := writerStep_announces hwriter
      · split at hstep
        · cases hstep
          exact ⟨h.reader.mono rfl (fun _ => hready) fun _ => .inr hready, h.returned⟩
        · cases hstep
          exact ⟨h.reader.mono rfl (fun _ => hready) fun _ => .inr hready, h.returned⟩
      · split at hstep
        · rename_i hidle
          exact absurd hidle hgoes
        · cases hstep
          exact ⟨h.reader.mono rfl hsame.trans fun hafter => .inl (hafter.imp_right nofun),
            h.returned⟩
  | wake =>
    rw [SyncCommBuffer.putStep, hpc] at hstep
    cases hstep
    exact ⟨h.reader.mono rfl id fun _ => .inl (.inr hpc), h.returned⟩

theorem Inv.syncGetStep (h : Inv s) (htimely : Timely .reader s) (hstep : syncGetStep s = some t) :
    Inv t := by
  have hreader := h.reader
  cases hpc : s.syncGet with
  | idle =>
    rw [SyncCommBuffer.syncGetStep, hpc] at hstep
    cases hstep
  | enter data =>
    rw [SyncCommBuffer.syncGetStep, hpc] at hstep
    dsimp only at hstep
    split at hstep
    · rename_i hnew
      cases hstep
      exact ⟨hnew, h.returned⟩
    · rename_i hnone
      cases hstep
      refine ⟨fun hafter => ?_, h.returned⟩
      obtain hawake | hwake := hafter
      · cases hawake
      · have hfinds := htimely hwake
        rw [findsNothing, hpc, Bool.not_eq_false'] at hfinds
        exact absurd hfinds hnone
  | suspended data =>
    rw [ReaderOk, hpc] at hreader
    rw [SyncCommBuffer.syncGetStep, hpc] at hstep
    dsimp only at hstep
    split at hstep
    · cases hstep
    · rename_i hawake
      cases hstep
      exact ⟨hreader (.inl (by simpa using hawake)), h.returned⟩
  | readOk data =>
    rw [ReaderOk, hpc] at hreader
    rw [SyncCommBuffer.syncGetStep, hpc] at hstep
    cases hstep
    exact ⟨hreader, h.returned⟩
  | base ok =>
    rw [ReaderOk, hpc] at hreader
    rw [SyncCommBuffer.syncGetStep, hpc] at hstep
    dsimp only at hstep
    split at hstep
    · cases hstep
    · split at hstep
      · cases hstep
        exact ⟨trivial, forall_mem_record h.returned hreader⟩
      · cases hstep
        exact ⟨hreader, h.returned⟩

theorem Inv.step {e : Event n W} (h : Inv s) (htimely : Timely e s) (hstep : step e s = some t) :
    Inv t := by
  cases e with
  | put data =>
    rw [SyncCommBuffer.step] at hstep
    split at hstep
    · cases hstep
      exact ⟨h.reader.mono rfl id fun hafter => .inl (hafter.imp_right nofun), h.returned⟩
    · cases hstep
  | writer => exact h.putStep hstep
  | syncGet data =>
    rw [SyncCommBuffer.step] at hstep
    split at hstep
    · cases hstep
      exact ⟨trivial, h.returned⟩
    · cases hstep
  | reader => exact h.syncGetStep htimely hstep

end Invariant

/-- In every run in which the reader does not start to wait between the two parts of `put`,
every `syncGet` that returns has got new data. -/
theorem syncGet_delivers {buffer : Place → Fin n → W} {s : System n W}
    (h : ReachableUnder (fun s => s = constructed buffer) step Timely s) :
    ∀ ok ∈ s.returned, ok = true := by
  have hinv : Inv s := by
    refine h.invariant Inv ?_ ?_
    · rintro s rfl
      exact inv_constructed buffer
    · intro e s t hinv htimely hstep
      exact hinv.step htimely hstep
  exact hinv.returned

section

def noMessage : Place → Fin 1 → Bool := fun _ _ => false

def basePut : List (Event 1 Bool) := .put (fun _ => true) :: List.replicate 7 .writer

def wholeGet : List (Event 1 Bool) := .syncGet (noMessage .first) :: List.replicate 8 .reader

/-- The reader waits, is woken and comes back. -/
theorem syncGet_delivers_waiting :
    ∃ s : System 1 Bool, s.returned.length = 1 ∧ ∀ ok ∈ s.returned, ok = true := by
  obtain ⟨s, hs, hlength⟩ := exists_reachable (fun s => s = constructed noMessage) step Timely
    (constructed noMessage) rfl
    ([.syncGet (noMessage .first), .reader] ++ basePut ++ [.writer] ++ List.replicate 8 .reader)
    (fun s => s.returned.length = 1) (by decide +kernel)
  exact ⟨s, hlength, syncGet_delivers hs⟩

/-- The reader takes the data and waits again before it is woken for them. -/
theorem syncGet_fails :
    ∃ s : System 1 Bool, Reachable (fun s => s = constructed noMessage) step s ∧
      s.returned = [true, false] :=
  exists_reachable (fun s => s = constructed noMessage) step (fun _ _ => True)
    (constructed noMessage) rfl
    (basePut ++ wholeGet ++ [.syncGet (noMessage .first), .reader, .writer] ++
      List.replicate 8 .reader)
    (fun s => s.returned = [true, false]) (by decide +kernel)

end

end Rodos.SyncCommBuffer
