import Rodos.LockFreeFifo

namespace Rodos.SyncFifo

open TransitionSystem LockFreeFifo

variable {α : Type} {len : Nat}

/-- The place in `syncPut` or `syncGet`: the first scope is next, the caller is
suspended in it, `yield` is next, the second attempt is being made, the second
scope is next. -/
inductive SyncPc (ν : Type)
  | idle
  | enter (arg : ν)
  | suspended (arg : ν)
  | yield (arg : ν) (ok : Bool)
  | retry
  | notify

/-- A thread that calls one of them again and again without a timeout. -/
structure Caller (ν : Type) where
  pc : SyncPc ν
  sleeping : Bool
  returned : List Bool

/-- A pointer to the waiting thread is there or it is not. -/
structure System (α : Type) where
  fifo : LockFreeFifo.System α
  suspendedReader : Bool
  suspendedWriter : Bool
  writer : Caller α
  reader : Caller Unit

inductive Event (α : Type)
  | syncPut (val : α)
  | writer
  | syncGet
  | reader

def syncPutStep (len : Nat) (s : System α) : Option (System α) :=
  match s.writer.pc with
  | .idle => none
  | .enter val =>
    let fifo := putWhole len s.fifo val
    if (s.fifo.toFifo.put len val).1 then
      some { s with fifo := fifo, writer := { s.writer with pc := .yield val true } }
    else some { s with
      fifo := fifo
      suspendedWriter := true
      writer := { s.writer with pc := .suspended val, sleeping := true } }
  | .suspended val =>
    if s.writer.sleeping then none
    else some { s with
      suspendedWriter := false
      writer := { s.writer with pc := .yield val false } }
  | .yield _ true => some { s with writer := { s.writer with pc := .notify } }
  | .yield val false => some { s with
      fifo := { s.fifo with putPc := .enter val }
      writer := { s.writer with pc := .retry } }
  | .retry =>
    match s.fifo.putPc, writerStep len s.fifo with
    | _, none => none
    | .publish _ _, some fifo =>
      some { s with fifo := fifo, writer := { s.writer with pc := .notify } }
    | _, some fifo =>
      match fifo.putPc with
      | .idle => some { s with
          fifo := fifo
          writer := { s.writer with pc := .idle, returned := s.writer.returned ++ [false] } }
      | _ => some { s with fifo := fifo }
  | .notify => some { s with
      reader := { s.reader with sleeping := s.reader.sleeping && !s.suspendedReader }
      writer := { s.writer with pc := .idle, returned := s.writer.returned ++ [true] } }

def syncGetStep (len : Nat) (s : System α) : Option (System α) :=
  match s.reader.pc with
  | .idle => none
  | .enter _ =>
    let fifo := getWhole len s.fifo
    if (s.fifo.toFifo.get len).1.isSome then
      some { s with fifo := fifo, reader := { s.reader with pc := .yield () true } }
    else some { s with
      fifo := fifo
      suspendedReader := true
      reader := { s.reader with pc := .suspended (), sleeping := true } }
  | .suspended _ =>
    if s.reader.sleeping then none
    else some { s with
      suspendedReader := false
      reader := { s.reader with pc := .yield () false } }
  | .yield _ true => some { s with reader := { s.reader with pc := .notify } }
  | .yield _ false => some { s with
      fifo := { s.fifo with getPc := .enter }
      reader := { s.reader with pc := .retry } }
  | .retry =>
    match s.fifo.getPc, readerStep len s.fifo with
    | _, none => none
    | .publish _ _, some fifo =>
      some { s with fifo := fifo, reader := { s.reader with pc := .notify } }
    | _, some fifo =>
      match fifo.getPc with
      | .idle => some { s with
          fifo := fifo
          reader := { s.reader with pc := .idle, returned := s.reader.returned ++ [false] } }
      | _ => some { s with fifo := fifo }
  | .notify => some { s with
      writer := { s.writer with sleeping := s.writer.sleeping && !s.suspendedWriter }
      reader := { s.reader with pc := .idle, returned := s.reader.returned ++ [true] } }

def step (len : Nat) : Event α → System α → Option (System α)
  | .syncPut val, s =>
    match s.writer.pc with
    | .idle => some { s with writer := { s.writer with pc := .enter val } }
    | _ => none
  | .writer, s => syncPutStep len s
  | .syncGet, s =>
    match s.reader.pc with
    | .idle => some { s with reader := { s.reader with pc := .enter () } }
    | _ => none
  | .reader, s => syncGetStep len s

def constructed (buffer : Nat → α) : System α where
  fifo := LockFreeFifo.constructed buffer
  suspendedReader := false
  suspendedWriter := false
  writer := ⟨.idle, false, []⟩
  reader := ⟨.idle, false, []⟩

structure NeverFails (s : System α) : Prop where
  syncPut : ∀ ok ∈ s.writer.returned, ok = true
  syncGet : ∀ ok ∈ s.reader.returned, ok = true
  inOrder : s.fifo.gots <+: s.fifo.puts

/-- A thread is woken only when there is something for it to do: a waiting writer
when the fifo is not full, a waiting reader when it is not empty. -/
def Timely (len : Nat) : Event α → System α → Prop
  | .writer, s =>
    match s.writer.pc with
    | .notify => s.suspendedReader = true → s.fifo.toFifo.isEmpty = false
    | _ => True
  | .reader, s =>
    match s.reader.pc with
    | .notify => s.suspendedWriter = true → s.fifo.toFifo.isFull len = false
    | _ => True
  | _, _ => True

section Invariant

def HasRoom (len : Nat) (f : LockFreeFifo.System α) : Prop :=
  f.puts.length + 1 < f.gots.length + len

def HasValue (f : LockFreeFifo.System α) : Prop := f.gots.length < f.puts.length

/-- A caller that goes on after its suspension is ready to succeed, and outside of
its second attempt it is not in the middle of an operation. -/
def CallerOk {ν : Type} (c : Caller ν) (between ready : Prop) : Prop :=
  match c.pc with
  | .suspended _ => between ∧ (c.sleeping = false → ready)
  | .yield _ false => between ∧ ready
  | .retry => ready
  | _ => between

theorem CallerOk.mono {ν : Type} {c c' : Caller ν} {between between' ready ready' : Prop}
    (h : CallerOk c between ready) (hpc : c'.pc = c.pc) (hbetween : between → between')
    (hready : ready → ready')
    (hwoken : c'.sleeping = false → c.sleeping = false ∨ ready') : CallerOk c' between' ready' := by
  rw [CallerOk] at h ⊢
  rw [hpc]
  split at h
  · exact ⟨hbetween h.1, fun hawake => (hwoken hawake).elim (fun hbefore => hready (h.2 hbefore)) id⟩
  · exact ⟨hbetween h.1, hready h.2⟩
  · exact hready h
  · exact hbetween h

structure Inv (len : Nat) (buffer : Nat → α) (s : System α) : Prop where
  fifo : Reachable (fun f => f = LockFreeFifo.constructed buffer) (LockFreeFifo.step len) s.fifo
  writer : CallerOk s.writer (s.fifo.putPc = .idle) (HasRoom len s.fifo)
  reader : CallerOk s.reader (s.fifo.getPc = .idle) (HasValue s.fifo)
  syncPut : ∀ ok ∈ s.writer.returned, ok = true
  syncGet : ∀ ok ∈ s.reader.returned, ok = true

theorem hasRoom_of_isFull {f : LockFreeFifo.System α} (h : LockFreeFifo.Inv len f)
    (hfull : f.toFifo.isFull len = false) : HasRoom len f := by
  have hroom := h.stores.room
  have hnot : f.puts.length + 1 ≠ f.gots.length + len := fun heq => by
    rw [h.stores.isFull_iff.mpr heq] at hfull
    cases hfull
  rw [HasRoom]
  omega

theorem hasValue_of_isEmpty {f : LockFreeFifo.System α} (h : LockFreeFifo.Inv len f)
    (hempty : f.toFifo.isEmpty = false) : HasValue f := by
  have hstart := h.stores.start_le
  have hnot : f.gots.length ≠ f.puts.length := fun heq => by
    rw [h.stores.isEmpty_iff.mpr heq] at hempty
    cases hempty
  rw [HasValue]
  omega

structure WriterFrame (f f' : LockFreeFifo.System α) : Prop where
  getPc : f'.getPc = f.getPc
  gots : f'.gots = f.gots
  puts : f.puts.length ≤ f'.puts.length

theorem writerFrame_step {f f' : LockFreeFifo.System α} (h : writerStep len f = some f') :
    WriterFrame f f' := by
  rw [writerStep] at h
  split at h
  · cases h
  · cases h
    exact ⟨rfl, rfl, Nat.le_refl _⟩
  · split at h <;> cases h <;> exact ⟨rfl, rfl, Nat.le_refl _⟩
  · cases h
    exact ⟨rfl, rfl, Nat.le_refl _⟩
  · cases h
    exact ⟨rfl, rfl, Nat.le_refl _⟩
  · cases h
    exact ⟨rfl, rfl, by simp⟩

theorem writerFrame_putWhole (len : Nat) (f : LockFreeFifo.System α) (val : α) :
    WriterFrame f (putWhole len f val) := by
  refine ⟨rfl, rfl, ?_⟩
  change f.puts.length ≤ (if _ then f.puts ++ [val] else f.puts).length
  split <;> simp

theorem writerStep_publish {f f' : LockFreeFifo.System α} (h : writerStep len f = some f')
    {val : α} {index : Nat} (hpc : f.putPc = .publish val index) : f'.putPc = .idle := by
  rw [writerStep, hpc] at h
  cases h
  rfl

/-- With room in the fifo `put` goes on until the value is there. -/
theorem writerStep_hasRoom {f f' : LockFreeFifo.System α} (hinv : LockFreeFifo.Inv len f)
    (hroom : HasRoom len f) (h : writerStep len f = some f')
    (hpc : ∀ val index, f.putPc ≠ .publish val index) : f'.putPc ≠ .idle ∧ HasRoom len f' := by
  cases hput : f.putPc with
  | idle =>
    rw [writerStep, hput] at h
    cases h
  | enter val =>
    rw [writerStep, hput] at h
    cases h
    exact ⟨by simp, hroom⟩
  | test val index =>
    rw [writerStep, hput] at h
    dsimp only at h
    split at h
    · rename_i hfull
      have hlength := hinv.putFails ⟨val, index, hput, hfull⟩
      rw [HasRoom] at hroom
      omega
    · cases h
      exact ⟨by simp, hroom⟩
  | select val index =>
    rw [writerStep, hput] at h
    cases h
    exact ⟨by simp, hroom⟩
  | store val index place =>
    rw [writerStep, hput] at h
    cases h
    exact ⟨by simp, hroom⟩
  | publish val index => exact absurd hput (hpc val index)

theorem CallerOk.reader {c c' : Caller Unit} {f f' : LockFreeFifo.System α}
    (h : CallerOk c (f.getPc = .idle) (HasValue f)) (hframe : WriterFrame f f')
    (hpc : c'.pc = c.pc) (hwoken : c'.sleeping = false → c.sleeping = false ∨ HasValue f') :
    CallerOk c' (f'.getPc = .idle) (HasValue f') := by
  have hputs := hframe.puts
  refine h.mono hpc (fun hidle => hframe.getPc.trans hidle) (fun hvalue => ?_) hwoken
  unfold HasValue at *
  rw [hframe.gots]
  omega

structure ReaderFrame (f f' : LockFreeFifo.System α) : Prop where
  putPc : f'.putPc = f.putPc
  puts : f'.puts = f.puts
  gots : f.gots.length ≤ f'.gots.length

theorem readerFrame_step {f f' : LockFreeFifo.System α} (h : readerStep len f = some f') :
    ReaderFrame f f' := by
  rw [readerStep] at h
  split at h
  · cases h
  · cases h
    exact ⟨rfl, rfl, Nat.le_refl _⟩
  · split at h <;> cases h <;> exact ⟨rfl, rfl, Nat.le_refl _⟩
  · cases h
    exact ⟨rfl, rfl, Nat.le_refl _⟩
  · cases h
    exact ⟨rfl, rfl, Nat.le_refl _⟩
  · cases h
    exact ⟨rfl, rfl, Nat.le_refl _⟩
  · cases h
    exact ⟨rfl, rfl, by simp⟩

theorem readerFrame_getWhole (len : Nat) (f : LockFreeFifo.System α) :
    ReaderFrame f (getWhole len f) := by
  refine ⟨rfl, rfl, ?_⟩
  change f.gots.length ≤ (f.gots ++ _).length
  simp

theorem readerStep_publish {f f' : LockFreeFifo.System α} (h : readerStep len f = some f')
    {val : α} {index : Nat} (hpc : f.getPc = .publish val index) : f'.getPc = .idle := by
  rw [readerStep, hpc] at h
  cases h
  rfl

theorem readerStep_hasValue {f f' : LockFreeFifo.System α} (hinv : LockFreeFifo.Inv len f)
    (hvalue : HasValue f) (h : readerStep len f = some f')
    (hpc : ∀ val index, f.getPc ≠ .publish val index) : f'.getPc ≠ .idle ∧ HasValue f' := by
  cases hget : f.getPc with
  | idle =>
    rw [readerStep, hget] at h
    cases h
  | enter =>
    rw [readerStep, hget] at h
    cases h
    exact ⟨by simp, hvalue⟩
  | compare index =>
    rw [readerStep, hget] at h
    dsimp only at h
    split at h
    · rename_i hempty
      have hlength := hinv.getFails ⟨index, hget, hempty⟩
      rw [HasValue] at hvalue
      omega
    · cases h
      exact ⟨by simp, hvalue⟩
  | select =>
    rw [readerStep, hget] at h
    cases h
    exact ⟨by simp, hvalue⟩
  | load place =>
    rw [readerStep, hget] at h
    cases h
    exact ⟨by simp, hvalue⟩
  | advance val =>
    rw [readerStep, hget] at h
    cases h
    exact ⟨by simp, hvalue⟩
  | publish val index => exact absurd hget (hpc val index)

theorem CallerOk.writer {c c' : Caller α} {f f' : LockFreeFifo.System α}
    (h : CallerOk c (f.putPc = .idle) (HasRoom len f)) (hframe : ReaderFrame f f')
    (hpc : c'.pc = c.pc) (hwoken : c'.sleeping = false → c.sleeping = false ∨ HasRoom len f') :
    CallerOk c' (f'.putPc = .idle) (HasRoom len f') := by
  have hgots := hframe.gots
  refine h.mono hpc (fun hidle => hframe.putPc.trans hidle) (fun hroom => ?_) hwoken
  unfold HasRoom at *
  rw [hframe.puts]
  omega

variable {buffer : Nat → α} {s t : System α}

theorem woken_of_awake {sleeping suspended : Bool} {ready : Prop}
    (hawake : (sleeping && !suspended) = false) (hready : suspended = true → ready) :
    sleeping = false ∨ ready := by
  cases suspended with
  | false => exact .inl (by simpa using hawake)
  | true => exact .inr (hready rfl)

theorem Inv.retryPut (hlen : 2 ≤ len) (h : Inv len buffer s) (hpc : s.writer.pc = .retry)
    (hstep : syncPutStep len s = some t) : Inv len buffer t := by
  obtain ⟨hfifo, hwriter, hreader, hput, hget⟩ := h
  have hinv := inv_of_reachable (by omega) hfifo
  rw [CallerOk, hpc] at hwriter
  rw [SyncFifo.syncPutStep, hpc] at hstep
  dsimp only at hstep
  split at hstep
  · cases hstep
  · rename_i hpublish hmove
    cases hstep
    exact ⟨reachable_writerStep hfifo hmove, writerStep_publish hmove hpublish,
      hreader.reader (writerFrame_step hmove) rfl .inl, hput, hget⟩
  · rename_i hmove hunpublished
    obtain ⟨hgoes, hroom⟩ := writerStep_hasRoom hinv hwriter hmove hunpublished
    split at hstep
    · contradiction
    · cases hstep
      refine ⟨reachable_writerStep hfifo hmove, ?_,
        hreader.reader (writerFrame_step hmove) rfl .inl, hput, hget⟩
      rw [CallerOk, hpc]
      exact hroom

theorem Inv.syncPutStep (hlen : 2 ≤ len) (h : Inv len buffer s) (htimely : Timely len .writer s)
    (hstep : syncPutStep len s = some t) : Inv len buffer t := by
  have hbefore := h
  obtain ⟨hfifo, hwriter, hreader, hput, hget⟩ := hbefore
  have hinv := inv_of_reachable (by omega) hfifo
  cases hpc : s.writer.pc with
  | idle =>
    rw [SyncFifo.syncPutStep, hpc] at hstep
    cases hstep
  | enter val =>
    rw [CallerOk, hpc] at hwriter
    have hwhole := reachable_putWhole hfifo hwriter val
    have hframe := writerFrame_putWhole len s.fifo val
    have hothers := hreader.reader hframe rfl .inl
    rw [SyncFifo.syncPutStep, hpc] at hstep
    dsimp only at hstep
    split at hstep
    · cases hstep
      exact ⟨hwhole, hwriter, hothers, hput, hget⟩
    · cases hstep
      exact ⟨hwhole, ⟨hwriter, nofun⟩, hothers, hput, hget⟩
  | suspended val =>
    rw [CallerOk, hpc] at hwriter
    rw [SyncFifo.syncPutStep, hpc] at hstep
    dsimp only at hstep
    split at hstep
    · cases hstep
    · rename_i hawake
      cases hstep
      exact ⟨hfifo, ⟨hwriter.1, hwriter.2 (by simpa using hawake)⟩, hreader, hput, hget⟩
  | yield val ok =>
    rw [CallerOk, hpc] at hwriter
    rw [SyncFifo.syncPutStep, hpc] at hstep
    cases ok with
    | true =>
      cases hstep
      exact ⟨hfifo, hwriter, hreader, hput, hget⟩
    | false =>
      cases hstep
      refine ⟨hfifo.step (e := .put val) trivial ?_, hwriter.2, hreader, hput, hget⟩
      rw [LockFreeFifo.step, hwriter.1]
  | retry => exact h.retryPut hlen hpc hstep
  | notify =>
    rw [CallerOk, hpc] at hwriter
    rw [Timely, hpc] at htimely
    rw [SyncFifo.syncPutStep, hpc] at hstep
    cases hstep
    refine ⟨hfifo, hwriter, hreader.mono rfl id id fun hawake => ?_, ?_, hget⟩
    · exact woken_of_awake hawake fun hwaits => hasValue_of_isEmpty hinv (htimely hwaits)
    · exact forall_mem_record hput rfl

theorem Inv.retryGet (hlen : 2 ≤ len) (h : Inv len buffer s) (hpc : s.reader.pc = .retry)
    (hstep : syncGetStep len s = some t) : Inv len buffer t := by
  obtain ⟨hfifo, hwriter, hreader, hput, hget⟩ := h
  have hinv := inv_of_reachable (by omega) hfifo
  rw [CallerOk, hpc] at hreader
  rw [SyncFifo.syncGetStep, hpc] at hstep
  dsimp only at hstep
  split at hstep
  · cases hstep
  · rename_i hpublish hmove
    cases hstep
    exact ⟨reachable_readerStep hfifo hmove, hwriter.writer (readerFrame_step hmove) rfl .inl,
      readerStep_publish hmove hpublish, hput, hget⟩
  · rename_i hmove hunpublished
    obtain ⟨hgoes, hvalue⟩ := readerStep_hasValue hinv hreader hmove hunpublished
    split at hstep
    · contradiction
    · cases hstep
      refine ⟨reachable_readerStep hfifo hmove,
        hwriter.writer (readerFrame_step hmove) rfl .inl, ?_, hput, hget⟩
      rw [CallerOk, hpc]
      exact hvalue

theorem Inv.syncGetStep (hlen : 2 ≤ len) (h : Inv len buffer s) (htimely : Timely len .reader s)
    (hstep : syncGetStep len s = some t) : Inv len buffer t := by
  have hbefore := h
  obtain ⟨hfifo, hwriter, hreader, hput, hget⟩ := hbefore
  have hinv := inv_of_reachable (by omega) hfifo
  cases hpc : s.reader.pc with
  | idle =>
    rw [SyncFifo.syncGetStep, hpc] at hstep
    cases hstep
  | enter arg =>
    rw [CallerOk, hpc] at hreader
    have hwhole := reachable_getWhole hfifo hreader
    have hframe := readerFrame_getWhole len s.fifo
    have hothers := hwriter.writer hframe rfl .inl
    rw [SyncFifo.syncGetStep, hpc] at hstep
    dsimp only at hstep
    split at hstep
    · cases hstep
      exact ⟨hwhole, hothers, hreader, hput, hget⟩
    · cases hstep
      exact ⟨hwhole, hothers, ⟨hreader, nofun⟩, hput, hget⟩
  | suspended arg =>
    rw [CallerOk, hpc] at hreader
    rw [SyncFifo.syncGetStep, hpc] at hstep
    dsimp only at hstep
    split at hstep
    · cases hstep
    · rename_i hawake
      cases hstep
      exact ⟨hfifo, hwriter, ⟨hreader.1, hreader.2 (by simpa using hawake)⟩, hput, hget⟩
  | yield arg ok =>
    rw [CallerOk, hpc] at hreader
    rw [SyncFifo.syncGetStep, hpc] at hstep
    cases ok with
    | true =>
      cases hstep
      exact ⟨hfifo, hwriter, hreader, hput, hget⟩
    | false =>
      cases hstep
      refine ⟨hfifo.step (e := .get) trivial ?_, hwriter, hreader.2, hput, hget⟩
      rw [LockFreeFifo.step, hreader.1]
  | retry => exact h.retryGet hlen hpc hstep
  | notify =>
    rw [CallerOk, hpc] at hreader
    rw [Timely, hpc] at htimely
    rw [SyncFifo.syncGetStep, hpc] at hstep
    cases hstep
    refine ⟨hfifo, hwriter.mono rfl id id fun hawake => ?_, hreader, hput, ?_⟩
    · exact woken_of_awake hawake fun hwaits => hasRoom_of_isFull hinv (htimely hwaits)
    · exact forall_mem_record hget rfl

theorem inv_constructed : Inv len buffer (constructed buffer) :=
  ⟨.start rfl, rfl, rfl, nofun, nofun⟩

theorem Inv.step (hlen : 2 ≤ len) {e : Event α} (h : Inv len buffer s) (htimely : Timely len e s)
    (hstep : step len e s = some t) : Inv len buffer t := by
  cases e with
  | syncPut val =>
    rw [SyncFifo.step] at hstep
    split at hstep
    · rename_i hpc
      cases hstep
      have hwriter := h.writer
      rw [CallerOk, hpc] at hwriter
      exact ⟨h.fifo, hwriter, h.reader, h.syncPut, h.syncGet⟩
    · cases hstep
  | writer => exact h.syncPutStep hlen htimely hstep
  | syncGet =>
    rw [SyncFifo.step] at hstep
    split at hstep
    · rename_i hpc
      cases hstep
      have hreader := h.reader
      rw [CallerOk, hpc] at hreader
      exact ⟨h.fifo, h.writer, hreader, h.syncPut, h.syncGet⟩
    · cases hstep
  | reader => exact h.syncGetStep hlen htimely hstep

end Invariant

/-- As long as nobody is woken too late, the calls without a timeout succeed. -/
theorem sync_never_fails (hlen : 2 ≤ len) {buffer : Nat → α} {s : System α}
    (h : ReachableUnder (fun s => s = constructed buffer) (step len) (Timely len) s) :
    NeverFails s := by
  have hinv : Inv len buffer s := by
    refine h.invariant (Inv len buffer) ?_ ?_
    · rintro s rfl
      exact inv_constructed
    · intro e s t hinv htimely hstep
      exact hinv.step hlen htimely hstep
  exact ⟨hinv.syncPut, hinv.syncGet, (inv_of_reachable (by omega) hinv.fifo).consistent.inOrder⟩

instance (e : Event α) (s : System α) : Decidable (Timely len e s) := by
  unfold Timely
  split <;> (try split) <;> infer_instance

/-- The reader waits in an empty fifo until the writer has put a value. -/
theorem sync_never_fails_waiting :
    ∃ s : System Nat, s.writer.returned = [true] ∧ s.reader.returned = [true] ∧
      s.fifo.gots = [5] ∧ NeverFails s := by
  obtain ⟨s, hs, hwriter, hreader, hgots⟩ := exists_reachable
    (fun s => s = constructed fun _ => (0 : Nat)) (step 2) (Timely 2) (constructed fun _ => 0) rfl
    ([.syncGet, .reader, .syncPut 5, .writer, .writer, .writer, .reader, .reader] ++
      List.replicate 7 .reader)
    (fun s => s.writer.returned = [true] ∧ s.reader.returned = [true] ∧ s.fifo.gots = [5])
    (by decide +kernel)
  exact ⟨s, hwriter, hreader, hgots, sync_never_fails (by decide) hs⟩

/-- The reader takes the first value and is held up. Meanwhile the writer fills the
fifo again and waits, and it is woken in vain. -/
theorem sync_put_fails :
    ∃ s : System Nat, Reachable (fun s => s = constructed fun _ => 0) (step 2) s ∧
      s.writer.returned = [true, true, false] ∧ ¬NeverFails s := by
  obtain ⟨s, hs, hwriter⟩ := exists_reachable
    (fun s => s = constructed fun _ => (0 : Nat)) (step 2) (fun _ _ => True)
    (constructed fun _ => 0) rfl
    [.syncPut 1, .writer, .writer, .writer, .syncGet, .reader, .syncPut 2, .writer, .writer, .writer,
      .syncPut 3, .writer, .reader, .reader, .writer, .writer, .writer, .writer]
    (fun s => s.writer.returned = [true, true, false]) (by decide +kernel)
  refine ⟨s, hs, hwriter, fun hfails => ?_⟩
  have hfalse := hfails.syncPut false (by simp [hwriter])
  cases hfalse

end Rodos.SyncFifo
