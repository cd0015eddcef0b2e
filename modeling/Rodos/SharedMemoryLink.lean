import Rodos.MultipleReaderFifo
import Rodos.NetworkMessage

namespace Rodos.SharedMemoryLink

open RingBuffer TransitionSystem MultipleReaderFifo NetworkMessage
open LockFreeFifo (advanceIndex advanceIndex_mod)

variable {P : Type}

def fifoSize : Nat := 10

def maxMembers : Nat := 50

def fifoMagicWord : Int := 1234

/-- Where a process is in `sendNetworkMsg`, the `put` in it included, or in
`getNetworkMsg` with its `get`. A process without a pointer to the fifo is detached. -/
inductive Pc
  | detached
  | idle
  | lock (outMsg : NetworkMessage)
  | start (outMsg : NetworkMessage)
  | compare (outMsg : NetworkMessage) (nextIndex i : Nat)
  | load (outMsg : NetworkMessage) (nextIndex i : Nat)
  | shift (outMsg : NetworkMessage) (nextIndex i x : Nat)
  | count (outMsg : NetworkMessage) (nextIndex i : Nat)
  | copy (outMsg : NetworkMessage) (nextIndex k : Nat)
  | unlock
  | test
  | isEmpty (x : Nat)
  | element
  | size (x : Nat)
  | fetch (x n k : Nat)
  | advance
  | store (x : Nat)

def Pc.sending : Pc → Bool
  | .start _ | .compare .. | .load .. | .shift .. | .count .. | .copy .. | .unlock => true
  | _ => false

def Pc.reading : Pc → Bool
  | .isEmpty _ | .element | .size _ | .fetch .. | .advance | .store _ => true
  | _ => false

/-- The message that a process has not put yet. -/
def Pc.pending : Pc → Option NetworkMessage
  | .lock outMsg | .start outMsg | .compare outMsg .. | .load outMsg .. | .shift outMsg ..
  | .count outMsg .. | .copy outMsg .. => some outMsg
  | _ => none

/-- The reader that has been made to skip a message which is not counted yet. -/
def Pc.counting : Pc → Option Nat
  | .count _ _ i => some i
  | _ => none

def image (m : Nat → UInt8) : List UInt8 := ByteMemory.read m 0 (numberOfBytesToSend ⟨m⟩)

/-- The fifo in the shared memory and the lock, with the processes. `sends` are the
messages handed to `sendNetworkMsg`, `puts` those in the fifo so far with their senders;
a history is that of the reader of its index. -/
structure Link (P : Type) extends MultipleReaderFifo.State (Nat → UInt8) where
  magicWord : Int
  lockFlag : Bool
  iLockedIt : P → Bool
  pc : P → Pc
  inMsg : P → Nat → UInt8
  sends : P → List (List UInt8)
  puts : List (P × List UInt8)
  history : Nat → List (Fate × List UInt8)

section Machine

variable [DecidableEq P]

def Link.goto (s : Link P) (p : P) (pc : Pc) : Link P :=
  { s with pc := Function.update s.pc p pc }

/-- The magic word and the fifo in the critical section of `init`, where a process
that finds no fifo makes one. -/
def construct (s : Link P) : Link P :=
  if s.magicWord = fifoMagicWord then s
  else { s with
    magicWord := fifoMagicWord
    writeX := 0
    readX := fun i => if i < maxMembers then 0 else s.readX i
    overflowCnt := fun i => if i < maxMembers then 0 else s.overflowCnt i }

/-- The successful call of `HAL_Sharedmemory::lock`. -/
def Link.take (s : Link P) (p : P) : Link P :=
  { s with lockFlag := true, iLockedIt := Function.update s.iLockedIt p true }

/-- `HAL_Sharedmemory::unlock` -/
def Link.release (s : Link P) (p : P) : Link P :=
  if s.iLockedIt p then
    { s with lockFlag := false, iLockedIt := Function.update s.iLockedIt p false }
  else s

def Link.skip (s : Link P) (i x : Nat) : Link P :=
  { s with
    readX := Function.update s.readX i (advanceIndex fifoSize x)
    history := Function.update s.history i
      (s.history i ++ [(.skipped, image (s.buffer (s.readX i)))]) }

def Link.count (s : Link P) (i : Nat) : Link P :=
  { s with overflowCnt := Function.update s.overflowCnt i (s.overflowCnt i + 1) }

def Link.write (s : Link P) (k : Nat) (b : UInt8) : Link P :=
  { s with
    buffer := Function.update s.buffer s.writeX (Function.update (s.buffer s.writeX) k b) }

def Link.publish (s : Link P) (p : P) (outMsg : NetworkMessage) (nextIndex : Nat) : Link P :=
  { s with writeX := nextIndex, puts := s.puts ++ [(p, image outMsg.bytes)] }

def Link.read (s : Link P) (p : P) (x k : Nat) : Link P :=
  { s with inMsg := Function.update s.inMsg p (Function.update (s.inMsg p) k (s.buffer x k)) }

def Link.deliver (s : Link P) (p : P) (i x : Nat) : Link P :=
  { s with
    readX := Function.update s.readX i (advanceIndex fifoSize x)
    history := Function.update s.history i (s.history i ++ [(.read, image (s.inMsg p))]) }

/-- The next access of a process to the shared memory. -/
def exec (readerId : P → Nat) (p : P) (s : Link P) : Option (Link P) :=
  match s.pc p with
  | .detached | .idle => none
  | .lock outMsg => if s.lockFlag then some s else some ((s.take p).goto p (.start outMsg))
  | .start outMsg => some (s.goto p (.compare outMsg (advanceIndex fifoSize s.writeX) 0))
  | .compare outMsg nextIndex i =>
    if i < maxMembers then
      if nextIndex = s.readX i then some (s.goto p (.load outMsg nextIndex i))
      else some (s.goto p (.compare outMsg nextIndex (i + 1)))
    else some (s.goto p (.copy outMsg nextIndex 0))
  | .load outMsg nextIndex i => some (s.goto p (.shift outMsg nextIndex i (s.readX i)))
  | .shift outMsg nextIndex i x =>
    some ((s.skip i x).goto p (.count outMsg nextIndex i))
  | .count outMsg nextIndex i =>
    some ((s.count i).goto p (.compare outMsg nextIndex (i + 1)))
  | .copy outMsg nextIndex k =>
    if k < numberOfBytesToSend outMsg then
      some ((s.write k (outMsg.bytes k)).goto p (.copy outMsg nextIndex (k + 1)))
    else some ((s.publish p outMsg nextIndex).goto p .unlock)
  | .unlock => some ((s.release p).goto p .idle)
  | .test =>
    if readerId p ≥ maxMembers then some (s.goto p .idle)
    else some (s.goto p (.isEmpty (s.readX (readerId p))))
  | .isEmpty x => if x = s.writeX then some (s.goto p .idle) else some (s.goto p .element)
  | .element => some (s.goto p (.size (s.readX (readerId p))))
  | .size x => some (s.goto p (.fetch x (numberOfBytesToSend ⟨s.buffer x⟩) 0))
  | .fetch x n k =>
    if k < n then some ((s.read p x k).goto p (.fetch x n (k + 1))) else some (s.goto p .advance)
  | .advance => some (s.goto p (.store (s.readX (readerId p))))
  | .store x => some ((s.deliver p (readerId p) x).goto p .idle)

inductive Event (P : Type)
  | init (p : P)
  | send (p : P) (outMsg : NetworkMessage)
  | receive (p : P)
  | exec (p : P)

/-- A process that stops at any place just takes no more steps. -/
def step (readerId : P → Nat) : Event P → Link P → Option (Link P)
  | .init p, s =>
    match s.pc p, s.lockFlag with
    | .detached, false => some ((construct s).goto p .idle)
    | _, _ => none
  | .send p outMsg, s =>
    match s.pc p with
    | .idle => some { s.goto p (.lock outMsg) with
        sends := Function.update s.sends p (s.sends p ++ [image outMsg.bytes]) }
    | _ => none
  | .receive p, s =>
    match s.pc p with
    | .idle => some (s.goto p .test)
    | _ => none
  | .exec p, s => exec readerId p s

end Machine

structure Init (s : Link P) : Prop where
  magicWord : s.magicWord ≠ fifoMagicWord
  lockFlag : s.lockFlag = false
  iLockedIt : ∀ p, s.iLockedIt p = false
  pc : ∀ p, s.pc p = .detached
  sends : ∀ p, s.sends p = []
  puts : s.puts = []
  history : ∀ i, s.history i = []

/-- The process is not inside of `get` while the fifo is full for it. -/
def Timely (readerId : P → Nat) (p : P) (s : Link P) : Prop :=
  (s.pc p).reading = true → s.readX (readerId p) ≠ advanceIndex fifoSize s.writeX

def Fits : Event P → Prop
  | .send _ outMsg => getLen outMsg ≤ maxNetworkMessageLength
  | _ => True

def Ok (readerId : P → Nat) (p : P) (e : Event P) (s : Link P) : Prop :=
  Timely readerId p s ∧ Fits e

/-- The messages that the reader with the index can still get. -/
def unread (s : Link P) (i : Nat) : List (List UInt8) :=
  contents fifoSize (fun k => image (s.buffer k)) (s.readX i) s.writeX

/-- How many messages the reader with the index has been made to skip. -/
def skips (s : Link P) (i : Nat) : Nat := (s.history i).countP fun entry => entry.1 = .skipped

/-- What a process with access to the fifo has got or was made to skip, and what is still
there for it, are all messages ever put. The counter lacks the last skip as long as the
process in the critical section stands, or has stopped for good, before it is counted. Those
of one sender are those that it was called with, in order, but the one that it is about to put. -/
structure Delivers [DecidableEq P] (readerId : P → Nat) (p : P) (s : Link P) : Prop where
  inOrder : s.pc p ≠ .detached →
    (s.history (readerId p)).map Prod.snd ++ unread s (readerId p) = s.puts.map Prod.snd
  bound : s.pc p ≠ .detached → (unread s (readerId p)).length < fifoSize
  overflowCnt : s.pc p ≠ .detached → (∀ q, (s.pc q).counting ≠ some (readerId p)) →
    (s.overflowCnt (readerId p)).toNat = skips s (readerId p) % 2 ^ 32
  uncounted : ∀ q, (s.pc q).counting = some (readerId p) →
    0 < skips s (readerId p) ∧
      (s.overflowCnt (readerId p)).toNat = (skips s (readerId p) - 1) % 2 ^ 32
  complete : ∀ q, (s.puts.filter fun put => put.1 = q).map Prod.snd ++
    ((s.pc q).pending.map fun outMsg => image outMsg.bytes).toList = s.sends q
  exclusive : ∀ q r, (s.pc q).sending = true → (s.pc r).sending = true → q = r

section Messages

variable {a b : Nat → UInt8}

theorem numberOfBytesToSend_congr (h : ∀ j < headerSize, b j = a j) :
    numberOfBytesToSend ⟨b⟩ = numberOfBytesToSend ⟨a⟩ := by
  have hread : ByteMemory.read b 14 2 = ByteMemory.read a 14 2 := by
    rw [ByteMemory.read_eq_iff]
    intro j hj
    apply h
    unfold headerSize
    omega
  rw [numberOfBytesToSend, numberOfBytesToSend, getLen, getLen, getField, getField, hread]

theorem image_eq (hsize : headerSize ≤ numberOfBytesToSend ⟨a⟩)
    (h : ∀ j < numberOfBytesToSend ⟨a⟩, b j = a j) : image b = image a := by
  have hnumber := numberOfBytesToSend_congr fun j hj => h j (by omega)
  rw [image, image, hnumber, ByteMemory.read_eq_iff]
  intro j hj
  rw [Nat.zero_add]
  exact h j hj

theorem length_image (m : Nat → UInt8) : (image m).length = numberOfBytesToSend ⟨m⟩ :=
  ByteMemory.length_read m 0 _

theorem headerSize_le_of_fits {msg : NetworkMessage} (h : getLen msg ≤ maxNetworkMessageLength) :
    headerSize ≤ numberOfBytesToSend msg := by
  have hsize : numberOfBytesToSend msg = headerSize + getLen msg := by
    apply Nat.mod_eq_of_lt
    unfold headerSize maxNetworkMessageLength at *
    omega
  omega

end Messages

section Views

variable {α : Type} {len : Nat} {v : View α} {puts : List α} {history : List (Fate × α)}
  (h : Keeps len v puts history)
include h

theorem full_iff : v.readX = advanceIndex len v.writeX ↔
    puts.length + 1 = history.length + len := by
  rw [h.ring.write, advanceIndex_mod h.ring.len_pos, eq_comm]
  exact h.ring.full_iff

theorem keeps_leave (hsome : history.length < puts.length) (fate : Fate) :
    Keeps len { v with readX := advanceIndex len v.readX } puts
      (history ++ [(fate, v.buffer v.readX)]) := by
  refine ⟨?_, h.inOrder_append hsome fate⟩
  rw [h.ring.read, advanceIndex_mod h.ring.len_pos, List.length_append]
  exact h.ring.pop hsome

theorem keeps_overwrite (val : α) :
    Keeps len { v with buffer := Function.update v.buffer v.writeX val } puts history := by
  refine ⟨?_, h.inOrder⟩
  have hupdate := h.ring.update (Nat.le_refl _) h.ring.room val
  rw [← h.ring.write] at hupdate
  exact hupdate

theorem keeps_publish {val : α} (hcell : v.buffer v.writeX = val)
    (hroom : puts.length + 1 < history.length + len) :
    Keeps len { v with writeX := advanceIndex len v.writeX } (puts ++ [val]) history := by
  have hpush := h.ring.push hcell hroom
  rw [← advanceIndex_mod h.ring.len_pos, ← h.ring.write] at hpush
  refine ⟨hpush, ?_⟩
  rw [h.inOrder, List.take_append_of_le_length h.ring.start_le]

theorem read_ne_write (hsome : history.length < puts.length) : v.readX ≠ v.writeX := by
  intro heq
  have hempty := h.ring.empty_iff.mp heq
  omega

end Views

section Lock

variable [DecidableEq P] {readerId : P → Nat} {p : P} {s t : Link P}

structure Quiet (p : P) (s t : Link P) : Prop where
  magicWord : t.magicWord = s.magicWord
  lockFlag : t.lockFlag = s.lockFlag
  iLockedIt : t.iLockedIt = s.iLockedIt
  sends : t.sends = s.sends
  puts : t.puts = s.puts
  pc : ∃ pc, t.pc = Function.update s.pc p pc ∧ pc.sending = (s.pc p).sending ∧
    pc.pending = (s.pc p).pending

inductive Acts (p : P) (s : Link P) : Link P → Prop
  | wait : Acts p s s
  | quiet {t : Link P} : Quiet p s t → Acts p s t
  | take {outMsg : NetworkMessage} : s.pc p = .lock outMsg → s.lockFlag = false →
      Acts p s ((s.take p).goto p (.start outMsg))
  | publish {outMsg : NetworkMessage} {nextIndex k : Nat} : s.pc p = .copy outMsg nextIndex k →
      Acts p s ((s.publish p outMsg nextIndex).goto p .unlock)
  | release : s.pc p = .unlock → Acts p s ((s.release p).goto p .idle)

theorem goto_pc (pc : Pc) : (s.goto p pc).pc = Function.update s.pc p pc := rfl

theorem take_iLockedIt : (s.take p).iLockedIt = Function.update s.iLockedIt p true := rfl

theorem release_eq (h : s.iLockedIt p = true) : s.release p =
    { s with lockFlag := false, iLockedIt := Function.update s.iLockedIt p false } :=
  if_pos h

theorem quiet_goto {pc : Pc} (hsending : pc.sending = (s.pc p).sending)
    (hpending : pc.pending = (s.pc p).pending) : Quiet p s (s.goto p pc) :=
  ⟨rfl, rfl, rfl, rfl, rfl, pc, rfl, hsending, hpending⟩

theorem acts_of_exec (h : exec readerId p s = some t) : Acts p s t := by
  cases hpc : s.pc p with
  | detached | idle =>
    rw [exec, hpc] at h
    cases h
  | lock outMsg =>
    rw [exec, hpc] at h
    cases hflag : s.lockFlag <;> rw [hflag] at h <;> cases h
    · exact .take hpc hflag
    · exact .wait
  | start outMsg | load outMsg nextIndex i | element | size x | advance =>
    rw [exec, hpc] at h
    cases h
    apply Acts.quiet
    apply quiet_goto <;> rw [hpc] <;> rfl
  | compare outMsg nextIndex i =>
    simp only [exec, hpc] at h
    apply Acts.quiet
    split at h
    · split at h <;> cases h <;> apply quiet_goto <;> rw [hpc] <;> rfl
    · cases h
      apply quiet_goto <;> rw [hpc] <;> rfl
  | shift outMsg nextIndex i x | count outMsg nextIndex i =>
    rw [exec, hpc] at h
    cases h
    exact .quiet ⟨rfl, rfl, rfl, rfl, rfl, _, rfl, by rw [hpc]; rfl, by rw [hpc]; rfl⟩
  | copy outMsg nextIndex k =>
    simp only [exec, hpc] at h
    split at h <;> cases h
    · exact .quiet ⟨rfl, rfl, rfl, rfl, rfl, _, rfl, by rw [hpc]; rfl, by rw [hpc]; rfl⟩
    · exact .publish hpc
  | unlock =>
    rw [exec, hpc] at h
    cases h
    exact .release hpc
  | test | isEmpty x =>
    simp only [exec, hpc] at h
    apply Acts.quiet
    split at h <;> cases h <;> apply quiet_goto <;> rw [hpc] <;> rfl
  | fetch x n k =>
    simp only [exec, hpc] at h
    split at h <;> cases h
    · exact .quiet ⟨rfl, rfl, rfl, rfl, rfl, _, rfl, by rw [hpc]; rfl, by rw [hpc]; rfl⟩
    · apply Acts.quiet
      apply quiet_goto <;> rw [hpc] <;> rfl
  | store x =>
    rw [exec, hpc] at h
    cases h
    exact .quiet ⟨rfl, rfl, rfl, rfl, rfl, _, rfl, by rw [hpc]; rfl, by rw [hpc]; rfl⟩

theorem attached_of_exec (h : exec readerId p s = some t) : s.pc p ≠ .detached := by
  intro hpc
  rw [exec, hpc] at h
  cases h

structure Locked (s : Link P) : Prop where
  owner : ∀ q, (s.pc q).sending = true → s.iLockedIt q = true
  flag : ∀ q, s.iLockedIt q = true → s.lockFlag = true
  unique : ∀ q r, s.iLockedIt q = true → s.iLockedIt r = true → q = r

theorem Locked.moves (h : Locked s) {pc : Pc} (hlock : t.lockFlag = s.lockFlag)
    (howner : t.iLockedIt = s.iLockedIt) (hpc : t.pc = Function.update s.pc p pc)
    (hsending : pc.sending = true → (s.pc p).sending = true) : Locked t := by
  refine ⟨fun q hq => ?_, fun q hq => ?_, fun q r hq hr => ?_⟩
  · rw [howner]
    apply h.owner
    rw [hpc, Function.update_apply] at hq
    split at hq
    · rename_i heq
      rw [heq]
      exact hsending hq
    · exact hq
  · rw [hlock]
    rw [howner] at hq
    exact h.flag q hq
  · rw [howner] at hq hr
    exact h.unique q r hq hr

theorem Locked.acts (h : Locked s) (ha : Acts p s t) : Locked t := by
  cases ha with
  | wait => exact h
  | quiet hquiet =>
    obtain ⟨pc, hpc, hsending, -⟩ := hquiet.pc
    exact h.moves hquiet.lockFlag hquiet.iLockedIt hpc fun hs => hsending ▸ hs
  | publish hpc =>
    refine h.moves rfl rfl rfl fun _ => ?_
    rw [hpc]
    rfl
  | take hpc hfree =>
    have hnone : ∀ q, s.iLockedIt q = false := by
      intro q
      rw [← Bool.not_eq_true]
      intro hq
      rw [h.flag q hq] at hfree
      cases hfree
    have honly : ∀ q, (s.take p).iLockedIt q = true → q = p := by
      intro q hq
      by_contra hne
      rw [take_iLockedIt, Function.update_of_ne hne, hnone q] at hq
      cases hq
    refine ⟨fun q hq => ?_, fun _ _ => rfl, fun q r hq hr => ?_⟩
    · by_cases hne : q = p
      · rw [hne]
        exact Function.update_self _ _ _
      · rw [goto_pc, Function.update_of_ne hne] at hq
        have hlocked := h.owner q hq
        rw [hnone q] at hlocked
        cases hlocked
    · exact (honly q hq).trans (honly r hr).symm
  | release hpc =>
    have hmine : s.iLockedIt p = true := by
      apply h.owner
      rw [hpc]
      rfl
    have hnone : ∀ q, ((s.release p).goto p .idle).iLockedIt q = false := by
      intro q
      rw [release_eq hmine]
      change Function.update s.iLockedIt p false q = false
      rw [Function.update_apply]
      split
      · rfl
      · rename_i hne
        rw [← Bool.not_eq_true]
        exact fun hq => hne (h.unique q p hq hmine)
    refine ⟨fun q hq => ?_, fun q hq => ?_, fun q r hq hr => ?_⟩
    · by_cases hne : q = p
      · rw [hne, goto_pc, Function.update_self] at hq
        cases hq
      · rw [goto_pc, Function.update_of_ne hne, release_eq hmine] at hq
        exact absurd (h.unique q p (h.owner q hq) hmine) hne
    · rw [hnone q] at hq
      cases hq
    · rw [hnone q] at hq
      cases hq

omit [DecidableEq P] in
theorem lockFlag_construct (s : Link P) : (construct s).lockFlag = s.lockFlag := by
  unfold construct
  split <;> rfl

omit [DecidableEq P] in
theorem iLockedIt_construct (s : Link P) : (construct s).iLockedIt = s.iLockedIt := by
  unfold construct
  split <;> rfl

omit [DecidableEq P] in
theorem pc_construct (s : Link P) : (construct s).pc = s.pc := by
  unfold construct
  split <;> rfl

theorem step_cases {e : Event P} (h : step readerId e s = some t) :
    (∃ p, e = .init p ∧ s.pc p = .detached ∧ s.lockFlag = false ∧
      t = (construct s).goto p .idle) ∨
    (∃ p outMsg, e = .send p outMsg ∧ s.pc p = .idle ∧ t = { s.goto p (.lock outMsg) with
      sends := Function.update s.sends p (s.sends p ++ [image outMsg.bytes]) }) ∨
    (∃ p, e = .receive p ∧ s.pc p = .idle ∧ t = s.goto p .test) ∨
    ∃ p, e = .exec p ∧ exec readerId p s = some t := by
  cases e with
  | init p =>
    rw [step] at h
    split at h
    · rename_i hpc hfree
      cases h
      exact .inl ⟨p, rfl, hpc, hfree, rfl⟩
    · cases h
  | send p outMsg =>
    rw [step] at h
    split at h
    · rename_i hpc
      cases h
      exact .inr (.inl ⟨p, outMsg, rfl, hpc, rfl⟩)
    · cases h
  | receive p =>
    rw [step] at h
    split at h
    · rename_i hpc
      cases h
      exact .inr (.inr (.inl ⟨p, rfl, hpc, rfl⟩))
    · cases h
  | exec p => exact .inr (.inr (.inr ⟨p, rfl, h⟩))

theorem Locked.step {e : Event P} (h : Locked s) (hstep : step readerId e s = some t) :
    Locked t := by
  obtain ⟨q, rfl, hpc, -, rfl⟩ | ⟨q, outMsg, rfl, hpc, rfl⟩ | ⟨q, rfl, hpc, rfl⟩ |
    ⟨q, rfl, hexec⟩ := step_cases hstep
  · have hmoved : ((construct s).goto q .idle).pc = Function.update s.pc q .idle := by
      rw [goto_pc, pc_construct]
    exact h.moves (lockFlag_construct s) (iLockedIt_construct s) hmoved fun hs => by cases hs
  · exact h.moves rfl rfl rfl fun hs => by cases hs
  · exact h.moves rfl rfl rfl fun hs => by cases hs
  · exact h.acts (acts_of_exec hexec)

end Lock

section Account

variable [DecidableEq P] {readerId : P → Nat} {p : P} {s t : Link P}

/-- The messages of each sender are in the fifo or about to be put there. -/
def Complete (s : Link P) : Prop :=
  ∀ q, (s.puts.filter fun put => put.1 = q).map Prod.snd ++
    ((s.pc q).pending.map fun outMsg => image outMsg.bytes).toList = s.sends q

theorem Complete.moves (h : Complete s) {pc : Pc} (hputs : t.puts = s.puts)
    (hsends : t.sends = s.sends) (hpc : t.pc = Function.update s.pc p pc)
    (hpending : pc.pending = (s.pc p).pending) : Complete t := by
  intro q
  rw [hputs, hsends, hpc]
  by_cases hne : q = p
  · subst hne
    rw [Function.update_self, hpending]
    exact h q
  · rw [Function.update_of_ne hne]
    exact h q

theorem Complete.acts (h : Complete s) (ha : Acts p s t) : Complete t := by
  cases ha with
  | wait => exact h
  | quiet hquiet =>
    obtain ⟨pc, hpc, -, hpending⟩ := hquiet.pc
    exact h.moves hquiet.puts hquiet.sends hpc hpending
  | take hpc hfree => exact h.moves rfl rfl rfl (by rw [hpc]; rfl)
  | publish hpc =>
    intro q
    have hq := h q
    change List.map Prod.snd (List.filter _ (s.puts ++ [_])) ++ (Option.map _
      (Pc.pending (Function.update s.pc p .unlock q))).toList = s.sends q
    rw [List.filter_append, List.map_append]
    by_cases hne : q = p
    · subst hne
      rw [hpc] at hq
      rw [Function.update_self, List.filter_singleton, decide_eq_true rfl]
      rw [← hq]
      exact List.append_nil _
    · rw [Function.update_of_ne hne, List.filter_singleton, decide_eq_false (Ne.symm hne)]
      rw [← hq]
      exact congrArg (· ++ _) (List.append_nil _)
  | release hpc =>
    have hmoved : ((s.release p).goto p .idle).pc = Function.update s.pc p .idle := by
      rw [goto_pc, Link.release]
      split <;> rfl
    refine h.moves ?_ ?_ hmoved (by rw [hpc]; rfl)
    · change (s.release p).puts = s.puts
      rw [Link.release]
      split <;> rfl
    · change (s.release p).sends = s.sends
      rw [Link.release]
      split <;> rfl

omit [DecidableEq P] in
theorem puts_construct (s : Link P) : (construct s).puts = s.puts := by
  unfold construct
  split <;> rfl

omit [DecidableEq P] in
theorem sends_construct (s : Link P) : (construct s).sends = s.sends := by
  unfold construct
  split <;> rfl

theorem Complete.step {e : Event P} (h : Complete s) (hstep : step readerId e s = some t) :
    Complete t := by
  obtain ⟨q, rfl, hpc, -, rfl⟩ | ⟨q, outMsg, rfl, hpc, rfl⟩ | ⟨q, rfl, hpc, rfl⟩ |
    ⟨q, rfl, hexec⟩ := step_cases hstep
  · have hmoved : ((construct s).goto q .idle).pc = Function.update s.pc q .idle := by
      rw [goto_pc, pc_construct]
    exact h.moves (puts_construct s) (sends_construct s) hmoved (by rw [hpc]; rfl)
  · intro r
    have hr := h r
    change _ ++ (Option.map _ (Pc.pending (Function.update s.pc q _ r))).toList =
      Function.update s.sends q _ r
    by_cases hne : r = q
    · subst hne
      rw [hpc] at hr
      rw [Function.update_self, Function.update_self, ← hr]
      exact congrArg (· ++ _) (List.append_nil _).symm
    · rw [Function.update_of_ne hne, Function.update_of_ne hne]
      exact hr
  · exact h.moves rfl rfl rfl (by rw [hpc]; rfl)
  · exact h.acts (acts_of_exec hexec)

end Account

section Readers

def readerView (s : Link P) (i : Nat) : View (List UInt8) :=
  ⟨fun k => image (s.buffer k), s.writeX, s.readX i, s.overflowCnt i⟩

def HasRoom (i : Nat) (s : Link P) : Prop :=
  s.puts.length + 1 < (s.history i).length + fifoSize

def Full (i : Nat) (s : Link P) : Prop :=
  s.puts.length + 1 = (s.history i).length + fifoSize

def HasMessage (i : Nat) (s : Link P) : Prop := (s.history i).length < s.puts.length

def WriterOk (i : Nat) (s : Link P) : Pc → Prop
  | .lock outMsg | .start outMsg => getLen outMsg ≤ maxNetworkMessageLength
  | .compare outMsg nextIndex k => getLen outMsg ≤ maxNetworkMessageLength ∧
      nextIndex = advanceIndex fifoSize s.writeX ∧ (i < k → HasRoom i s)
  | .load outMsg nextIndex k => getLen outMsg ≤ maxNetworkMessageLength ∧
      nextIndex = advanceIndex fifoSize s.writeX ∧ (i < k → HasRoom i s) ∧ (i = k → Full i s)
  | .shift outMsg nextIndex k x => getLen outMsg ≤ maxNetworkMessageLength ∧
      nextIndex = advanceIndex fifoSize s.writeX ∧ (i < k → HasRoom i s) ∧
      (i = k → Full i s ∧ x = s.readX i)
  | .count outMsg nextIndex k => getLen outMsg ≤ maxNetworkMessageLength ∧
      nextIndex = advanceIndex fifoSize s.writeX ∧ (i < k + 1 → HasRoom i s)
  | .copy outMsg nextIndex k => getLen outMsg ≤ maxNetworkMessageLength ∧
      nextIndex = advanceIndex fifoSize s.writeX ∧ HasRoom i s ∧
      ∀ j < k, s.buffer s.writeX j = outMsg.bytes j
  | _ => True

def ReaderOk (i : Nat) (s : Link P) (inMsg : Nat → UInt8) : Pc → Prop
  | .isEmpty x => x = s.readX i
  | .element => HasMessage i s
  | .size x => HasMessage i s ∧ x = s.readX i
  | .fetch x n k => HasMessage i s ∧ x = s.readX i ∧ n = numberOfBytesToSend ⟨s.buffer x⟩ ∧
      ∀ j < k, inMsg j = s.buffer x j
  | .advance => HasMessage i s ∧ image inMsg = image (s.buffer (s.readX i))
  | .store x => HasMessage i s ∧ x = s.readX i ∧ image inMsg = image (s.buffer (s.readX i))
  | _ => True

structure Served (readerId : P → Nat) (p : P) (s : Link P) : Prop where
  locked : Locked s
  attached : ∀ q, s.pc q ≠ .detached → s.magicWord = fifoMagicWord
  fresh : s.magicWord ≠ fifoMagicWord → s.puts = [] ∧ s.history (readerId p) = []
  keeps : s.magicWord = fifoMagicWord →
    Keeps fifoSize (readerView s (readerId p)) (s.puts.map Prod.snd) (s.history (readerId p))
  whole : ∀ put ∈ s.puts, headerSize ≤ put.2.length
  writer : ∀ q, WriterOk (readerId p) s (s.pc q)
  reader : ReaderOk (readerId p) s (s.inMsg p) (s.pc p)

variable {i : Nat} {s t : Link P} {pc : Pc}

/-- Outside of the critical section nothing is known about the reader. -/
theorem writerOk_of_not_sending (h : WriterOk i s pc) (hpc : pc.sending = false) :
    WriterOk i t pc := by
  cases pc <;> first | exact h | exact trivial | cases hpc

theorem readerOk_of_not_reading {inMsg : Nat → UInt8} (hpc : pc.reading = false) :
    ReaderOk i s inMsg pc := by
  cases pc <;> first | exact trivial | cases hpc

/-- What a process in `put` knows stays true as long as the fifo is the same for the
reader, or the reader has got a message. -/
theorem WriterOk.mono (h : WriterOk i s pc) (hwriteX : t.writeX = s.writeX)
    (hbuffer : t.buffer = s.buffer) (hroom : HasRoom i s → HasRoom i t)
    (hfull : Full i s → Full i t ∧ t.readX i = s.readX i) : WriterOk i t pc := by
  cases pc with
  | detached | idle | lock | start | unlock | test | isEmpty | element | size | fetch | advance
  | store => exact h
  | compare outMsg nextIndex k | count outMsg nextIndex k =>
    obtain ⟨hlen, hnext, hpassed⟩ := h
    exact ⟨hlen, hwriteX ▸ hnext, fun hk => hroom (hpassed hk)⟩
  | load outMsg nextIndex k =>
    obtain ⟨hlen, hnext, hpassed, hhit⟩ := h
    exact ⟨hlen, hwriteX ▸ hnext, fun hk => hroom (hpassed hk), fun hk => (hfull (hhit hk)).1⟩
  | shift outMsg nextIndex k x =>
    obtain ⟨hlen, hnext, hpassed, hhit⟩ := h
    refine ⟨hlen, hwriteX ▸ hnext, fun hk => hroom (hpassed hk), fun hk => ?_⟩
    obtain ⟨hfull', hsame⟩ := hfull (hhit hk).1
    exact ⟨hfull', (hhit hk).2.trans hsame.symm⟩
  | copy outMsg nextIndex k =>
    obtain ⟨hlen, hnext, hpassed, hbytes⟩ := h
    refine ⟨hlen, hwriteX ▸ hnext, hroom hpassed, fun j hj => ?_⟩
    rw [hwriteX, hbuffer]
    exact hbytes j hj

/-- What a process in `get` knows stays true as long as its index and the message there
are the same. -/
theorem ReaderOk.mono {inMsg : Nat → UInt8} (h : ReaderOk i s inMsg pc)
    (hreadX : t.readX i = s.readX i)
    (hcell : HasMessage i s → t.buffer (s.readX i) = s.buffer (s.readX i))
    (hmessage : HasMessage i s → HasMessage i t) : ReaderOk i t inMsg pc := by
  cases pc with
  | detached | idle | lock | start | compare | load | shift | count | copy | unlock | test =>
    exact h
  | isEmpty x =>
    rw [ReaderOk, hreadX]
    exact h
  | element => exact hmessage h
  | size x => exact ⟨hmessage h.1, hreadX ▸ h.2⟩
  | fetch x n k =>
    obtain ⟨hsome, rfl, hn, hbytes⟩ := h
    have hsame := hcell hsome
    refine ⟨hmessage hsome, hreadX.symm, ?_, fun j hj => ?_⟩
    · rw [hsame]
      exact hn
    · rw [hsame]
      exact hbytes j hj
  | advance =>
    refine ⟨hmessage h.1, ?_⟩
    rw [hreadX, hcell h.1]
    exact h.2
  | store x =>
    refine ⟨hmessage h.1, hreadX ▸ h.2.1, ?_⟩
    rw [hreadX, hcell h.1]
    exact h.2.2

end Readers

section Steps

variable [DecidableEq P] {readerId : P → Nat} {p q : P} {s t : Link P} {pc : Pc}

omit [DecidableEq P] in
theorem Served.alone (h : Served readerId p s) (hq : (s.pc q).sending = true) {r : P}
    (hne : r ≠ q) : (s.pc r).sending = false := by
  rw [← Bool.not_eq_true]
  intro hr
  exact hne (h.locked.unique r q (h.locked.owner r hr) (h.locked.owner q hq))

omit [DecidableEq P] in
theorem Served.not_full (h : Served readerId p s) (hok : Timely readerId p s)
    (hp : (s.pc p).reading = true) : ¬Full (readerId p) s := by
  intro hfull
  have hpc : s.pc p ≠ .detached := by
    intro hpc
    rw [hpc] at hp
    cases hp
  have hiff := full_iff (h.keeps (h.attached p hpc))
  rw [List.length_map] at hiff
  exact hok hp (hiff.mpr hfull)

theorem Served.change (h : Served readerId p s) (hlocked : Locked t)
    (hmagicWord : t.magicWord = s.magicWord) (hattached : s.pc q ≠ .detached)
    (hpc : t.pc = Function.update s.pc q pc)
    (hkeeps : Keeps fifoSize (readerView t (readerId p)) (t.puts.map Prod.snd)
      (t.history (readerId p)))
    (hwhole : ∀ put ∈ t.puts, headerSize ≤ put.2.length)
    (hothers : ∀ r, r ≠ q → WriterOk (readerId p) t (s.pc r))
    (hown : WriterOk (readerId p) t pc)
    (hreader : ReaderOk (readerId p) t (t.inMsg p) (t.pc p)) : Served readerId p t := by
  have hmagic : t.magicWord = fifoMagicWord := hmagicWord.trans (h.attached q hattached)
  refine ⟨hlocked, fun _ _ => hmagic, fun hnot => absurd hmagic hnot, fun _ => hkeeps, hwhole,
    fun r => ?_, hreader⟩
  rw [hpc]
  by_cases hne : r = q
  · rw [hne, Function.update_self]
    exact hown
  · rw [Function.update_of_ne hne]
    exact hothers r hne

structure SameFifo (s t : Link P) : Prop where
  buffer : t.buffer = s.buffer
  writeX : t.writeX = s.writeX
  readX : t.readX = s.readX
  magicWord : t.magicWord = s.magicWord
  puts : t.puts = s.puts
  history : t.history = s.history

theorem Served.same (h : Served readerId p s) (hlocked : Locked t) (hfifo : SameFifo s t)
    (hattached : s.pc q ≠ .detached) (hpc : t.pc = Function.update s.pc q pc)
    (hinMsg : q ≠ p → t.inMsg p = s.inMsg p) (hown : WriterOk (readerId p) s pc)
    (hreader : q = p → ReaderOk (readerId p) s (t.inMsg p) pc) : Served readerId p t := by
  obtain ⟨hbuffer, hwriteX, hreadX, hmagicWord, hputs, hhistory⟩ := hfifo
  have hroom : HasRoom (readerId p) s → HasRoom (readerId p) t := by
    rw [HasRoom, HasRoom, hputs, hhistory]
    exact id
  have hfull : Full (readerId p) s →
      Full (readerId p) t ∧ t.readX (readerId p) = s.readX (readerId p) := by
    rw [Full, Full, hputs, hhistory, hreadX]
    exact fun hfull => ⟨hfull, rfl⟩
  have hmessage : HasMessage (readerId p) s → HasMessage (readerId p) t := by
    rw [HasMessage, HasMessage, hputs, hhistory]
    exact id
  have hcell : HasMessage (readerId p) s →
      t.buffer (s.readX (readerId p)) = s.buffer (s.readX (readerId p)) :=
    fun _ => by rw [hbuffer]
  refine h.change hlocked hmagicWord hattached hpc ?_ ?_ ?_ ?_ ?_
  · have hkeeps := h.keeps (h.attached q hattached)
    rw [readerView, hbuffer, hwriteX, hreadX, hputs, hhistory]
    exact ⟨hkeeps.ring, hkeeps.inOrder⟩
  · rw [hputs]
    exact h.whole
  · intro r _
    exact (h.writer r).mono hwriteX hbuffer hroom hfull
  · exact hown.mono hwriteX hbuffer hroom hfull
  · rw [hpc]
    by_cases hne : q = p
    · subst hne
      rw [Function.update_self]
      exact (hreader rfl).mono (congrFun hreadX _) hcell hmessage
    · rw [Function.update_of_ne (Ne.symm hne), hinMsg hne]
      exact h.reader.mono (congrFun hreadX _) hcell hmessage

theorem Served.goes (h : Served readerId p s) (hlocked : Locked (s.goto q pc))
    (hattached : s.pc q ≠ .detached) (hown : WriterOk (readerId p) s pc)
    (hreader : q = p → ReaderOk (readerId p) s (s.inMsg p) pc) :
    Served readerId p (s.goto q pc) :=
  h.same hlocked ⟨rfl, rfl, rfl, rfl, rfl, rfl⟩ hattached rfl (fun _ => rfl) hown hreader

/-- A step in the critical section that may change the fifo. -/
theorem Served.inSection (h : Served readerId p s) (hq : (s.pc q).sending = true)
    (hlocked : Locked t) (hmagicWord : t.magicWord = s.magicWord)
    (hpc : t.pc = Function.update s.pc q pc) (hinMsg : t.inMsg = s.inMsg)
    (hreading : pc.reading = false)
    (hkeeps : Keeps fifoSize (readerView t (readerId p)) (t.puts.map Prod.snd)
      (t.history (readerId p)))
    (hwhole : ∀ put ∈ t.puts, headerSize ≤ put.2.length)
    (hown : WriterOk (readerId p) t pc)
    (hreader : q ≠ p → ReaderOk (readerId p) t (s.inMsg p) (s.pc p)) : Served readerId p t := by
  have hattached : s.pc q ≠ .detached := by
    intro hdetached
    rw [hdetached] at hq
    cases hq
  refine h.change hlocked hmagicWord hattached hpc hkeeps hwhole ?_ hown ?_
  · intro r hne
    exact writerOk_of_not_sending (h.writer r) (h.alone hq hne)
  · rw [hpc, hinMsg]
    by_cases hne : q = p
    · subst hne
      rw [Function.update_self]
      exact readerOk_of_not_reading hreading
    · rw [Function.update_of_ne (Ne.symm hne)]
      exact hreader hne

theorem Served.skip (h : Served readerId p s) (hok : Timely readerId p s)
    {outMsg : NetworkMessage} {nextIndex k x : Nat} (hpc : s.pc q = .shift outMsg nextIndex k x)
    (hlocked : Locked ((s.skip k x).goto q (.count outMsg nextIndex k))) :
    Served readerId p ((s.skip k x).goto q (.count outMsg nextIndex k)) := by
  have hsending : (s.pc q).sending = true := by
    rw [hpc]
    rfl
  have hw := h.writer q
  rw [hpc] at hw
  obtain ⟨hlen, hnext, hpassed, hhit⟩ := hw
  have hattached : s.pc q ≠ .detached := by
    rw [hpc]
    nofun
  have hkeeps := h.keeps (h.attached q hattached)
  by_cases hk : readerId p = k
  · subst hk
    obtain ⟨hfull, rfl⟩ := hhit rfl
    have hnot : (s.pc p).reading = false := by
      rw [← Bool.not_eq_true]
      exact fun hp => h.not_full hok hp hfull
    have hroom : HasRoom (readerId p) ((s.skip (readerId p) (s.readX (readerId p))).goto q
        (.count outMsg nextIndex (readerId p))) := by
      change _ < (Function.update s.history (readerId p) _ (readerId p)).length + _
      rw [Function.update_self, List.length_append, List.length_singleton]
      unfold Full at hfull
      change s.puts.length + 1 < _
      omega
    refine h.inSection hsending hlocked rfl rfl rfl rfl ?_ h.whole ⟨hlen, hnext, fun _ => hroom⟩ ?_
    · have hsome : (s.history (readerId p)).length < (s.puts.map Prod.snd).length := by
        unfold Full fifoSize at hfull
        rw [List.length_map]
        omega
      have hskip := keeps_leave hkeeps hsome .skipped
      have hview : readerView ((s.skip (readerId p) (s.readX (readerId p))).goto q
          (.count outMsg nextIndex (readerId p))) (readerId p) =
          { readerView s (readerId p) with
            readX := advanceIndex fifoSize (s.readX (readerId p)) } := by
        simp only [readerView, Link.goto, Link.skip, Function.update_self]
      rw [hview]
      simp only [Link.goto, Link.skip, Function.update_self]
      exact hskip
    · intro _
      exact readerOk_of_not_reading hnot
  · have hreadX : ((s.skip k x).goto q (.count outMsg nextIndex k)).readX (readerId p) =
        s.readX (readerId p) := Function.update_of_ne hk _ _
    have hhistory : ((s.skip k x).goto q (.count outMsg nextIndex k)).history (readerId p) =
        s.history (readerId p) := Function.update_of_ne hk _ _
    refine h.inSection hsending hlocked rfl rfl rfl rfl ?_ h.whole
      ⟨hlen, hnext, fun hlt => ?_⟩ fun _ => ?_
    · rw [readerView, hreadX, hhistory]
      exact hkeeps
    · rw [HasRoom, hhistory]
      exact hpassed (by omega)
    · refine h.reader.mono hreadX (fun _ => rfl) ?_
      rw [HasMessage, HasMessage, hhistory]
      exact id

theorem Served.write (h : Served readerId p s) {outMsg : NetworkMessage} {nextIndex k : Nat}
    (hpc : s.pc q = .copy outMsg nextIndex k)
    (hlocked : Locked ((s.write k (outMsg.bytes k)).goto q (.copy outMsg nextIndex (k + 1)))) :
    Served readerId p ((s.write k (outMsg.bytes k)).goto q (.copy outMsg nextIndex (k + 1))) := by
  have hsending : (s.pc q).sending = true := by
    rw [hpc]
    rfl
  have hw := h.writer q
  rw [hpc] at hw
  obtain ⟨hlen, hnext, hroom, hbytes⟩ := hw
  have hattached : s.pc q ≠ .detached := by
    rw [hpc]
    nofun
  have hkeeps := h.keeps (h.attached q hattached)
  refine h.inSection hsending hlocked rfl rfl rfl rfl ?_ h.whole
    ⟨hlen, hnext, hroom, fun j hj => ?_⟩ fun _ => ?_
  · have hoverwrite := keeps_overwrite hkeeps
      (image (Function.update (s.buffer s.writeX) k (outMsg.bytes k)))
    have hview : readerView ((s.write k (outMsg.bytes k)).goto q (.copy outMsg nextIndex (k + 1)))
        (readerId p) = { readerView s (readerId p) with
          buffer := Function.update (readerView s (readerId p)).buffer s.writeX
            (image (Function.update (s.buffer s.writeX) k (outMsg.bytes k))) } := by
      simp only [readerView, Link.goto, Link.write]
      congr 1
      funext j
      by_cases hj : j = s.writeX
      · rw [hj, Function.update_self, Function.update_self]
      · rw [Function.update_of_ne hj, Function.update_of_ne hj]
    rw [hview]
    exact hoverwrite
  · have hslot : Function.update s.buffer s.writeX
        (Function.update (s.buffer s.writeX) k (outMsg.bytes k)) s.writeX =
        Function.update (s.buffer s.writeX) k (outMsg.bytes k) := Function.update_self _ _ _
    refine (congrFun hslot j).trans ?_
    by_cases heq : j = k
    · rw [heq, Function.update_self]
    · rw [Function.update_of_ne heq]
      exact hbytes j (by omega)
  · refine h.reader.mono rfl (fun hsome => ?_) id
    have hne := read_ne_write hkeeps (by rw [List.length_map]; exact hsome)
    exact Function.update_of_ne hne _ _

theorem Served.publish (h : Served readerId p s) {outMsg : NetworkMessage} {nextIndex k : Nat}
    (hpc : s.pc q = .copy outMsg nextIndex k) (hdone : ¬k < numberOfBytesToSend outMsg)
    (hlocked : Locked ((s.publish q outMsg nextIndex).goto q .unlock)) :
    Served readerId p ((s.publish q outMsg nextIndex).goto q .unlock) := by
  have hsending : (s.pc q).sending = true := by
    rw [hpc]
    rfl
  have hw := h.writer q
  rw [hpc] at hw
  obtain ⟨hlen, rfl, hroom, hbytes⟩ := hw
  have hattached : s.pc q ≠ .detached := by
    rw [hpc]
    nofun
  have hkeeps := h.keeps (h.attached q hattached)
  have hsize := headerSize_le_of_fits hlen
  have hcell : image (s.buffer s.writeX) = image outMsg.bytes :=
    image_eq hsize fun j hj => hbytes j (Nat.lt_of_lt_of_le hj (Nat.le_of_not_lt hdone))
  refine h.inSection hsending hlocked rfl rfl rfl rfl ?_ ?_ trivial fun _ => ?_
  · have hpublish := keeps_publish hkeeps hcell (by rw [List.length_map]; exact hroom)
    change Keeps _ _ ((s.puts ++ [_]).map Prod.snd) _
    rw [List.map_append]
    exact hpublish
  · change ∀ put ∈ s.puts ++ [_], _
    rw [List.forall_mem_append, List.forall_mem_singleton]
    refine ⟨h.whole, ?_⟩
    rw [length_image]
    exact hsize
  · refine h.reader.mono rfl (fun _ => rfl) fun hsome => ?_
    change _ < (s.puts ++ [_]).length
    rw [List.length_append]
    exact Nat.lt_add_right 1 hsome

theorem Served.deliver (hids : Function.Injective readerId) (h : Served readerId p s)
    (hok : Timely readerId p s) {x : Nat} (hpc : s.pc q = .store x)
    (hlocked : Locked ((s.deliver q (readerId q) x).goto q .idle)) :
    Served readerId p ((s.deliver q (readerId q) x).goto q .idle) := by
  have hattached : s.pc q ≠ .detached := by
    rw [hpc]
    nofun
  have hkeeps := h.keeps (h.attached q hattached)
  by_cases hne : q = p
  · subst hne
    have hr := h.reader
    rw [hpc] at hr
    obtain ⟨hsome, rfl, hmsg⟩ := hr
    have hlength : ((s.deliver q (readerId q) (s.readX (readerId q))).goto q .idle).history
        (readerId q) = s.history (readerId q) ++ [(.read, image (s.inMsg q))] :=
      Function.update_self _ _ _
    have hread := keeps_leave hkeeps (by rw [List.length_map]; exact hsome) .read
    refine h.change hlocked rfl hattached rfl ?_ h.whole (fun r _ => ?_) trivial ?_
    · rw [hlength, hmsg]
      have hview : readerView ((s.deliver q (readerId q) (s.readX (readerId q))).goto q .idle)
          (readerId q) = { readerView s (readerId q) with
            readX := advanceIndex fifoSize (s.readX (readerId q)) } := by
        simp only [readerView, Link.goto, Link.deliver, Function.update_self]
      rw [hview]
      exact hread
    · refine (h.writer r).mono rfl rfl (fun hroom => ?_) fun hfull => ?_
      · rw [HasRoom, hlength, List.length_append]
        exact Nat.lt_of_lt_of_le hroom (by omega)
      · refine absurd hfull (h.not_full hok ?_)
        rw [hpc]
        rfl
    · rw [goto_pc, Function.update_self]
      exact trivial
  · have hother : readerId p ≠ readerId q := fun heq => hne (hids heq).symm
    have hreadX : ((s.deliver q (readerId q) x).goto q .idle).readX (readerId p) =
        s.readX (readerId p) := Function.update_of_ne hother _ _
    have hhistory : ((s.deliver q (readerId q) x).goto q .idle).history (readerId p) =
        s.history (readerId p) := Function.update_of_ne hother _ _
    refine h.change hlocked rfl hattached rfl ?_ h.whole (fun r _ => ?_) trivial ?_
    · rw [readerView, hreadX, hhistory]
      exact hkeeps
    · refine (h.writer r).mono rfl rfl (fun hroom => ?_) fun hfull => ⟨?_, hreadX⟩
      · rw [HasRoom, hhistory]
        exact hroom
      · rw [Full, hhistory]
        exact hfull
    · rw [goto_pc, Function.update_of_ne (Ne.symm hne)]
      refine h.reader.mono hreadX (fun _ => rfl) ?_
      rw [HasMessage, HasMessage, hhistory]
      exact id

omit [DecidableEq P] in
theorem Served.headerSize_le (h : Served readerId p s) (hattached : s.pc p ≠ .detached)
    (hsome : HasMessage (readerId p) s) :
    headerSize ≤ numberOfBytesToSend ⟨s.buffer (s.readX (readerId p))⟩ := by
  have hfirst := (h.keeps (h.attached p hattached)).ring.first
    (by rw [List.length_map]; exact hsome)
  obtain ⟨put, hput, himage⟩ := List.mem_map.mp (List.mem_of_getElem? hfirst)
  have hwhole := h.whole put hput
  rw [himage] at hwhole
  exact hwhole.trans (length_image _).le

section Places

variable {outMsg : NetworkMessage} {nextIndex i k n x : Nat} (h : Served readerId p s)
  (hexec : exec readerId q s = some t)
include h hexec

theorem Served.locks (hpc : s.pc q = .lock outMsg) : Served readerId p t := by
  have hlocked := h.locked.acts (acts_of_exec hexec)
  have hattached := attached_of_exec hexec
  have hw := h.writer q
  rw [hpc] at hw
  rw [exec, hpc] at hexec
  cases hflag : s.lockFlag <;> rw [hflag] at hexec <;> cases hexec
  · exact h.same hlocked ⟨rfl, rfl, rfl, rfl, rfl, rfl⟩ hattached rfl (fun _ => rfl) hw
      fun _ => trivial
  · exact h

theorem Served.starts (hpc : s.pc q = .start outMsg) : Served readerId p t := by
  have hlocked := h.locked.acts (acts_of_exec hexec)
  have hattached := attached_of_exec hexec
  have hw := h.writer q
  rw [hpc] at hw
  rw [exec, hpc] at hexec
  cases hexec
  exact h.goes hlocked hattached ⟨hw, rfl, fun hk => absurd hk (Nat.not_lt_zero _)⟩
    fun _ => trivial

theorem Served.compares (hi : readerId p < maxMembers)
    (hpc : s.pc q = .compare outMsg nextIndex k) : Served readerId p t := by
  have hlocked := h.locked.acts (acts_of_exec hexec)
  have hattached := attached_of_exec hexec
  have hw := h.writer q
  rw [hpc] at hw
  obtain ⟨hlen, hnext, hpassed⟩ := hw
  have hkeeps := h.keeps (h.attached q hattached)
  have hiff := full_iff hkeeps
  rw [List.length_map] at hiff
  simp only [exec, hpc] at hexec
  split at hexec
  · split at hexec
    · -- the reader with the index `k` is too slow
      rename_i hhit
      cases hexec
      refine h.goes hlocked hattached ⟨hlen, hnext, hpassed, fun hk => ?_⟩ fun _ => trivial
      subst hk
      exact hiff.mp (hhit.symm.trans hnext)
    · rename_i hmiss
      cases hexec
      refine h.goes hlocked hattached ⟨hlen, hnext, fun hk => ?_⟩ fun _ => trivial
      by_cases heq : readerId p = k
      · subst heq
        have hroom := hkeeps.ring.room
        have hnot : ¬s.puts.length + 1 = (s.history (readerId p)).length + fifoSize :=
          fun hfull => hmiss (hnext.trans (hiff.mpr hfull).symm)
        rw [List.length_map] at hroom
        unfold HasRoom
        omega
      · exact hpassed (by omega)
  · cases hexec
    exact h.goes hlocked hattached
      ⟨hlen, hnext, hpassed (by omega), fun j hj => absurd hj (Nat.not_lt_zero j)⟩ fun _ => trivial

theorem Served.loads (hpc : s.pc q = .load outMsg nextIndex k) : Served readerId p t := by
  have hlocked := h.locked.acts (acts_of_exec hexec)
  have hattached := attached_of_exec hexec
  have hw := h.writer q
  rw [hpc] at hw
  obtain ⟨hlen, hnext, hpassed, hhit⟩ := hw
  rw [exec, hpc] at hexec
  cases hexec
  refine h.goes hlocked hattached ⟨hlen, hnext, hpassed, fun hk => ⟨hhit hk, ?_⟩⟩ fun _ => trivial
  rw [hk]

theorem Served.counts (hpc : s.pc q = .count outMsg nextIndex k) : Served readerId p t := by
  have hlocked := h.locked.acts (acts_of_exec hexec)
  have hattached := attached_of_exec hexec
  have hw := h.writer q
  rw [hpc] at hw
  rw [exec, hpc] at hexec
  cases hexec
  exact h.same hlocked ⟨rfl, rfl, rfl, rfl, rfl, rfl⟩ hattached rfl (fun _ => rfl) hw
    fun _ => trivial

theorem Served.copies (hpc : s.pc q = .copy outMsg nextIndex k) : Served readerId p t := by
  have hlocked := h.locked.acts (acts_of_exec hexec)
  simp only [exec, hpc] at hexec
  split at hexec
  · cases hexec
    exact h.write hpc hlocked
  · rename_i hdone
    cases hexec
    exact h.publish hpc hdone hlocked

theorem Served.unlocks (hpc : s.pc q = .unlock) : Served readerId p t := by
  have hlocked := h.locked.acts (acts_of_exec hexec)
  have hattached := attached_of_exec hexec
  rw [exec, hpc] at hexec
  cases hexec
  have hmine : s.iLockedIt q = true := by
    apply h.locked.owner
    rw [hpc]
    rfl
  rw [release_eq hmine] at hlocked ⊢
  exact h.same hlocked ⟨rfl, rfl, rfl, rfl, rfl, rfl⟩ hattached rfl (fun _ => rfl) trivial
    fun _ => trivial

theorem Served.tests (hpc : s.pc q = .test) : Served readerId p t := by
  have hlocked := h.locked.acts (acts_of_exec hexec)
  have hattached := attached_of_exec hexec
  simp only [exec, hpc] at hexec
  split at hexec <;> cases hexec
  · exact h.goes hlocked hattached trivial fun _ => trivial
  · refine h.goes hlocked hattached trivial fun heq => ?_
    rw [heq]
    rfl

theorem Served.finds (hpc : s.pc q = .isEmpty x) : Served readerId p t := by
  have hlocked := h.locked.acts (acts_of_exec hexec)
  have hattached := attached_of_exec hexec
  simp only [exec, hpc] at hexec
  split at hexec
  · cases hexec
    exact h.goes hlocked hattached trivial fun _ => trivial
  · rename_i hne
    cases hexec
    refine h.goes hlocked hattached trivial fun heq => ?_
    subst heq
    have hr := h.reader
    rw [hpc] at hr
    have hring := (h.keeps (h.attached q hattached)).ring
    have hstart := hring.start_le
    have hnot : ¬(s.history (readerId q)).length = (s.puts.map Prod.snd).length :=
      fun hempty => hne (Eq.trans hr (hring.empty_iff.mpr hempty))
    rw [List.length_map] at hstart hnot
    exact Nat.lt_of_le_of_ne hstart hnot

theorem Served.indexes (hpc : s.pc q = .element) : Served readerId p t := by
  have hlocked := h.locked.acts (acts_of_exec hexec)
  have hattached := attached_of_exec hexec
  rw [exec, hpc] at hexec
  cases hexec
  refine h.goes hlocked hattached trivial fun heq => ?_
  subst heq
  have hr := h.reader
  rw [hpc] at hr
  exact ⟨hr, rfl⟩

theorem Served.measures (hpc : s.pc q = .size x) : Served readerId p t := by
  have hlocked := h.locked.acts (acts_of_exec hexec)
  have hattached := attached_of_exec hexec
  rw [exec, hpc] at hexec
  cases hexec
  refine h.goes hlocked hattached trivial fun heq => ?_
  subst heq
  have hr := h.reader
  rw [hpc] at hr
  exact ⟨hr.1, hr.2, rfl, fun j hj => absurd hj (Nat.not_lt_zero j)⟩

theorem Served.fetches (hpc : s.pc q = .fetch x n k) : Served readerId p t := by
  have hlocked := h.locked.acts (acts_of_exec hexec)
  have hattached := attached_of_exec hexec
  simp only [exec, hpc] at hexec
  split at hexec
  · cases hexec
    refine h.same hlocked ⟨rfl, rfl, rfl, rfl, rfl, rfl⟩ hattached rfl (fun hne => ?_) trivial
      fun heq => ?_
    · exact Function.update_of_ne (Ne.symm hne) _ _
    · subst heq
      have hr := h.reader
      rw [hpc] at hr
      obtain ⟨hsome, hx, hn, hbytes⟩ := hr
      refine ⟨hsome, hx, hn, fun j hj => ?_⟩
      have hmine : Function.update s.inMsg q
          (Function.update (s.inMsg q) k (s.buffer x k)) q =
          Function.update (s.inMsg q) k (s.buffer x k) := Function.update_self _ _ _
      refine (congrFun hmine j).trans ?_
      by_cases hjk : j = k
      · rw [hjk, Function.update_self]
      · rw [Function.update_of_ne hjk]
        exact hbytes j (by omega)
  · rename_i hdone
    cases hexec
    refine h.goes hlocked hattached trivial fun heq => ?_
    subst heq
    have hr := h.reader
    rw [hpc] at hr
    obtain ⟨hsome, rfl, rfl, hbytes⟩ := hr
    refine ⟨hsome, image_eq (h.headerSize_le hattached hsome) fun j hj => ?_⟩
    exact hbytes j (Nat.lt_of_lt_of_le hj (Nat.le_of_not_lt hdone))

theorem Served.advances (hpc : s.pc q = .advance) : Served readerId p t := by
  have hlocked := h.locked.acts (acts_of_exec hexec)
  have hattached := attached_of_exec hexec
  rw [exec, hpc] at hexec
  cases hexec
  refine h.goes hlocked hattached trivial fun heq => ?_
  subst heq
  have hr := h.reader
  rw [hpc] at hr
  exact ⟨hr.1, rfl, hr.2⟩

theorem Served.acts (hids : Function.Injective readerId) (hi : readerId p < maxMembers)
    (hok : Timely readerId p s) : Served readerId p t := by
  have hlocked := h.locked.acts (acts_of_exec hexec)
  cases hpc : s.pc q with
  | detached | idle =>
    rw [exec, hpc] at hexec
    cases hexec
  | lock outMsg => exact h.locks hexec hpc
  | start outMsg => exact h.starts hexec hpc
  | compare outMsg nextIndex k => exact h.compares hexec hi hpc
  | load outMsg nextIndex k => exact h.loads hexec hpc
  | shift outMsg nextIndex k x =>
    rw [exec, hpc] at hexec
    cases hexec
    exact h.skip hok hpc hlocked
  | count outMsg nextIndex k => exact h.counts hexec hpc
  | copy outMsg nextIndex k => exact h.copies hexec hpc
  | unlock => exact h.unlocks hexec hpc
  | test => exact h.tests hexec hpc
  | isEmpty x => exact h.finds hexec hpc
  | element => exact h.indexes hexec hpc
  | size x => exact h.measures hexec hpc
  | fetch x n k => exact h.fetches hexec hpc
  | advance => exact h.advances hexec hpc
  | store x =>
    rw [exec, hpc] at hexec
    cases hexec
    exact h.deliver hids hok hpc hlocked

end Places

theorem Served.attach (hi : readerId p < maxMembers) (h : Served readerId p s)
    (hlocked : Locked ((construct s).goto q .idle)) :
    Served readerId p ((construct s).goto q .idle) := by
  by_cases hmagic : s.magicWord = fifoMagicWord
  · have hsame : construct s = s := if_pos hmagic
    rw [hsame] at hlocked ⊢
    refine ⟨hlocked, fun _ _ => hmagic, h.fresh, h.keeps, h.whole, fun r => ?_, ?_⟩
    · rw [goto_pc, Function.update_apply]
      split
      · exact trivial
      · exact (h.writer r).mono rfl rfl id fun hfull => ⟨hfull, rfl⟩
    · rw [goto_pc, Function.update_apply]
      split
      · exact trivial
      · exact h.reader.mono rfl (fun _ => rfl) id
  · obtain ⟨hputs, hhistory⟩ := h.fresh hmagic
    have hdetached : ∀ r, s.pc r = .detached := by
      intro r
      by_contra hr
      exact hmagic (h.attached r hr)
    have hmade : ((construct s).goto q .idle).magicWord = fifoMagicWord := by
      rw [construct, if_neg hmagic]
      rfl
    have hpcs : ∀ r, ((construct s).goto q .idle).pc r = .idle ∨
        ((construct s).goto q .idle).pc r = .detached := by
      intro r
      rw [goto_pc, pc_construct, Function.update_apply]
      split
      · exact .inl rfl
      · exact .inr (hdetached r)
    refine ⟨hlocked, fun _ _ => hmade, fun hnot => absurd hmade hnot, fun _ => ?_, ?_, fun r => ?_,
      ?_⟩
    · rw [construct, if_neg hmagic]
      change Keeps _ _ (s.puts.map Prod.snd) (s.history (readerId p))
      rw [hputs, hhistory]
      simp only [readerView, Link.goto, if_pos hi]
      exact ⟨ring_empty (by decide) _, rfl⟩
    · rw [construct, if_neg hmagic]
      exact h.whole
    · obtain hidle | hout := hpcs r
      · rw [hidle]
        exact trivial
      · rw [hout]
        exact trivial
    · obtain hidle | hout := hpcs p
      · rw [hidle]
        exact trivial
      · rw [hout]
        exact trivial

theorem Served.step (hids : Function.Injective readerId) (hi : readerId p < maxMembers)
    {e : Event P} (h : Served readerId p s) (hok : Ok readerId p e s)
    (hstep : step readerId e s = some t) : Served readerId p t := by
  have hlocked := h.locked.step hstep
  obtain ⟨q, rfl, hpc, -, rfl⟩ | ⟨q, outMsg, rfl, hpc, rfl⟩ | ⟨q, rfl, hpc, rfl⟩ |
    ⟨q, rfl, hexec⟩ := step_cases hstep
  · exact h.attach hi hlocked
  · have hattached : s.pc q ≠ .detached := by
      rw [hpc]
      nofun
    exact h.same hlocked ⟨rfl, rfl, rfl, rfl, rfl, rfl⟩ hattached rfl (fun _ => rfl) hok.2
      fun _ => trivial
  · have hattached : s.pc q ≠ .detached := by
      rw [hpc]
      nofun
    exact h.goes hlocked hattached trivial fun _ => trivial
  · exact h.acts hexec hids hi hok.1

end Steps

section Counting

variable [DecidableEq P] {readerId : P → Nat} {p q : P} {i : Nat} {s t : Link P}

structure Counted (i : Nat) (s : Link P) : Prop where
  settled : s.magicWord = fifoMagicWord → (∀ q, (s.pc q).counting ≠ some i) →
    (s.overflowCnt i).toNat = skips s i % 2 ^ 32
  uncounted : ∀ q, (s.pc q).counting = some i →
    0 < skips s i ∧ (s.overflowCnt i).toNat = (skips s i - 1) % 2 ^ 32

structure Aside (q : P) (i : Nat) (s t : Link P) : Prop where
  magicWord : t.magicWord = s.magicWord
  overflowCnt : t.overflowCnt i = s.overflowCnt i
  skips : skips t i = skips s i
  pc : ∃ pc, t.pc = Function.update s.pc q pc ∧
    (pc.counting = some i ↔ (s.pc q).counting = some i)

inductive Tallies (q : P) (i : Nat) (s : Link P) : Link P → Prop
  | aside {t : Link P} : Aside q i s t → Tallies q i s t
  | skip {outMsg : NetworkMessage} {nextIndex x : Nat} : s.pc q = .shift outMsg nextIndex i x →
      Tallies q i s ((s.skip i x).goto q (.count outMsg nextIndex i))
  | count {outMsg : NetworkMessage} {nextIndex : Nat} : s.pc q = .count outMsg nextIndex i →
      Tallies q i s ((s.count i).goto q (.compare outMsg nextIndex (i + 1)))

theorem Counted.aside (h : Counted i s) (ha : Aside q i s t) : Counted i t := by
  obtain ⟨hmagicWord, hoverflowCnt, hskips, pc, hpc, hcounting⟩ := ha
  have hsame : ∀ r, (t.pc r).counting = some i ↔ (s.pc r).counting = some i := by
    intro r
    rw [hpc]
    by_cases hne : r = q
    · rw [hne, Function.update_self]
      exact hcounting
    · rw [Function.update_of_ne hne]
  refine ⟨fun hmagic hnone => ?_, fun r hr => ?_⟩
  · rw [hoverflowCnt, hskips]
    exact h.settled (hmagicWord ▸ hmagic) fun r hr => hnone r ((hsame r).mpr hr)
  · rw [hoverflowCnt, hskips]
    exact h.uncounted r ((hsame r).mp hr)

omit [DecidableEq P] in
theorem sending_of_counting {pc : Pc} (h : pc.counting = some i) : pc.sending = true := by
  cases pc <;> first | rfl | cases h

omit [DecidableEq P] in
theorem Locked.counting (h : Locked s) (hq : (s.pc q).sending = true) {r : P} (hne : r ≠ q) :
    (s.pc r).counting ≠ some i := by
  intro hr
  exact hne (h.unique r q (h.owner r (sending_of_counting hr)) (h.owner q hq))

omit [DecidableEq P] in
theorem skips_append (fate : Fate) (msg : List UInt8)
    (hhistory : t.history i = s.history i ++ [(fate, msg)]) :
    skips t i = skips s i + if fate = .skipped then 1 else 0 := by
  rw [skips, hhistory, List.countP_append, List.countP_singleton]
  simp only [decide_eq_true_eq]
  rfl

theorem Counted.tallies (h : Counted i s) (hlocked : Locked s)
    (hmagic : s.magicWord = fifoMagicWord) (ht : Tallies q i s t) : Counted i t := by
  cases ht with
  | aside ha => exact h.aside ha
  | @skip outMsg nextIndex x hpc =>
    have hq : (s.pc q).sending = true := by
      rw [hpc]
      rfl
    have hnone : ∀ r, (s.pc r).counting ≠ some i := by
      intro r
      by_cases hne : r = q
      · rw [hne, hpc]
        nofun
      · exact hlocked.counting hq hne
    have hskips : skips ((s.skip i x).goto q (.count outMsg nextIndex i)) i = skips s i + 1 :=
      skips_append .skipped (image (s.buffer (s.readX i))) (Function.update_self _ _ _)
    refine ⟨fun _ hcounted => ?_, fun r _ => ?_⟩
    · refine absurd ?_ (hcounted q)
      rw [goto_pc, Function.update_self]
      rfl
    · rw [hskips]
      exact ⟨Nat.succ_pos _, h.settled hmagic hnone⟩
  | @count outMsg nextIndex hpc =>
    have hq : (s.pc q).sending = true := by
      rw [hpc]
      rfl
    obtain ⟨hpos, hcount⟩ := h.uncounted q (by rw [hpc]; rfl)
    refine ⟨fun _ _ => ?_, fun r hr => ?_⟩
    · change (Function.update s.overflowCnt i (s.overflowCnt i + 1) i).toNat = skips s i % 2 ^ 32
      rw [Function.update_self, UInt32.toNat_add, hcount]
      change ((skips s i - 1) % 2 ^ 32 + 1) % 2 ^ 32 = skips s i % 2 ^ 32
      omega
    · by_cases hne : r = q
      · rw [hne, goto_pc, Function.update_self] at hr
        cases hr
      · rw [goto_pc, Function.update_of_ne hne] at hr
        exact absurd hr (hlocked.counting hq hne)

theorem aside_goto {pc : Pc} (hpc : pc.counting = none) (hq : (s.pc q).counting = none) :
    Aside q i s (s.goto q pc) :=
  ⟨rfl, rfl, rfl, pc, rfl, by rw [hpc, hq]⟩

section Tallied

variable {outMsg : NetworkMessage} {nextIndex k x : Nat}

theorem tallies_shift (hpc : s.pc q = .shift outMsg nextIndex k x) :
    Tallies q i s ((s.skip k x).goto q (.count outMsg nextIndex k)) := by
  by_cases hk : i = k
  · subst hk
    exact .skip hpc
  · have hhistory : ((s.skip k x).goto q (.count outMsg nextIndex k)).history i = s.history i :=
      Function.update_of_ne hk _ _
    refine .aside ⟨rfl, rfl, by rw [skips, hhistory]; rfl, _, rfl, ?_⟩
    rw [hpc]
    exact ⟨fun heq => absurd (Option.some.inj heq).symm hk, nofun⟩

theorem tallies_count (hpc : s.pc q = .count outMsg nextIndex k) :
    Tallies q i s ((s.count k).goto q (.compare outMsg nextIndex (k + 1))) := by
  by_cases hk : i = k
  · subst hk
    exact .count hpc
  · refine .aside ⟨rfl, Function.update_of_ne hk _ _, rfl, _, rfl, ?_⟩
    rw [hpc]
    exact ⟨nofun, fun heq => absurd (Option.some.inj heq).symm hk⟩

theorem aside_release (hpc : s.pc q = .unlock) : Aside q i s ((s.release q).goto q .idle) := by
  have hsame : (s.release q).toState = s.toState ∧ (s.release q).magicWord = s.magicWord ∧
      (s.release q).history = s.history ∧ (s.release q).pc = s.pc := by
    rw [Link.release]
    split
    · exact ⟨rfl, rfl, rfl, rfl⟩
    · exact ⟨rfl, rfl, rfl, rfl⟩
  obtain ⟨hstate, hmagicWord, hhistory, hpcs⟩ := hsame
  refine ⟨hmagicWord, ?_, ?_, .idle, ?_, by rw [hpc]; exact Iff.rfl⟩
  · change (s.release q).overflowCnt i = _
    rw [hstate]
  · change ((s.release q).history i).countP _ = _
    rw [hhistory]
    rfl
  · rw [goto_pc, hpcs]

theorem aside_deliver (hpc : s.pc q = .store x) :
    Aside q i s ((s.deliver q (readerId q) x).goto q .idle) := by
  refine ⟨rfl, rfl, ?_, _, rfl, by rw [hpc]; exact Iff.rfl⟩
  by_cases hmine : i = readerId q
  · subst hmine
    exact skips_append .read (image (s.inMsg q)) (Function.update_self _ _ _)
  · have hhistory : ((s.deliver q (readerId q) x).goto q .idle).history i = s.history i :=
      Function.update_of_ne hmine _ _
    rw [skips, hhistory]
    rfl

end Tallied

theorem tallies_of_exec (hexec : exec readerId q s = some t) : Tallies q i s t := by
  cases hpc : s.pc q with
  | detached | idle =>
    rw [exec, hpc] at hexec
    cases hexec
  | lock outMsg =>
    rw [exec, hpc] at hexec
    apply Tallies.aside
    cases hflag : s.lockFlag <;> rw [hflag] at hexec <;> cases hexec
    · exact ⟨rfl, rfl, rfl, _, rfl, by rw [hpc]; exact Iff.rfl⟩
    · exact ⟨rfl, rfl, rfl, s.pc q, (Function.update_eq_self q s.pc).symm, Iff.rfl⟩
  | start outMsg | load outMsg nextIndex k | element | size x | advance =>
    rw [exec, hpc] at hexec
    cases hexec
    exact .aside (aside_goto rfl (by rw [hpc]; rfl))
  | compare outMsg nextIndex k =>
    simp only [exec, hpc] at hexec
    apply Tallies.aside
    split at hexec
    · split at hexec <;> cases hexec <;> exact aside_goto rfl (by rw [hpc]; rfl)
    · cases hexec
      exact aside_goto rfl (by rw [hpc]; rfl)
  | shift outMsg nextIndex k x =>
    rw [exec, hpc] at hexec
    cases hexec
    exact tallies_shift hpc
  | count outMsg nextIndex k =>
    rw [exec, hpc] at hexec
    cases hexec
    exact tallies_count hpc
  | copy outMsg nextIndex k =>
    simp only [exec, hpc] at hexec
    apply Tallies.aside
    split at hexec <;> cases hexec <;> exact ⟨rfl, rfl, rfl, _, rfl, by rw [hpc]; exact Iff.rfl⟩
  | unlock =>
    rw [exec, hpc] at hexec
    cases hexec
    exact .aside (aside_release hpc)
  | test | isEmpty x =>
    simp only [exec, hpc] at hexec
    apply Tallies.aside
    split at hexec <;> cases hexec <;> exact aside_goto rfl (by rw [hpc]; rfl)
  | fetch x n k =>
    simp only [exec, hpc] at hexec
    apply Tallies.aside
    split at hexec <;> cases hexec <;> exact ⟨rfl, rfl, rfl, _, rfl, by rw [hpc]; exact Iff.rfl⟩
  | store x =>
    rw [exec, hpc] at hexec
    cases hexec
    exact .aside (aside_deliver hpc)

theorem Counted.attach (hi : readerId p < maxMembers) (h : Counted (readerId p) s)
    (hserved : Served readerId p s) (hpc : s.pc q = .detached) :
    Counted (readerId p) ((construct s).goto q .idle) := by
  have hcounting : Pc.counting .idle = some (readerId p) ↔
      (s.pc q).counting = some (readerId p) := by
    rw [hpc]
    exact Iff.rfl
  by_cases hmagic : s.magicWord = fifoMagicWord
  · have hsame : construct s = s := if_pos hmagic
    rw [hsame]
    exact h.aside ⟨rfl, rfl, rfl, .idle, rfl, hcounting⟩
  · obtain ⟨-, hhistory⟩ := hserved.fresh hmagic
    have hskips : skips ((construct s).goto q .idle) (readerId p) = 0 := by
      rw [construct, if_neg hmagic]
      change (s.history (readerId p)).countP _ = 0
      rw [hhistory, List.countP_nil]
    have hzero : ((construct s).goto q .idle).overflowCnt (readerId p) = 0 := by
      rw [construct, if_neg hmagic]
      exact if_pos hi
    refine ⟨fun _ _ => by rw [hskips, hzero]; rfl, fun r hr => ?_⟩
    rw [goto_pc, pc_construct, Function.update_apply] at hr
    split at hr
    · cases hr
    · have hdetached : s.pc r = .detached := by
        by_contra hr
        exact hmagic (hserved.attached r hr)
      rw [hdetached] at hr
      cases hr

theorem Counted.step (hi : readerId p < maxMembers) {e : Event P} (h : Counted (readerId p) s)
    (hserved : Served readerId p s) (hstep : step readerId e s = some t) :
    Counted (readerId p) t := by
  obtain ⟨q, rfl, hpc, -, rfl⟩ | ⟨q, outMsg, rfl, hpc, rfl⟩ | ⟨q, rfl, hpc, rfl⟩ |
    ⟨q, rfl, hexec⟩ := step_cases hstep
  · exact h.attach hi hserved hpc
  · exact h.aside ⟨rfl, rfl, rfl, _, rfl, by rw [hpc]; exact Iff.rfl⟩
  · exact h.aside (aside_goto rfl (by rw [hpc]; rfl))
  · exact h.tallies hserved.locked (hserved.attached q (attached_of_exec hexec))
      (tallies_of_exec hexec)

end Counting

section Runs

variable [DecidableEq P] {readerId : P → Nat} {p : P} {s : Link P}

instance (readerId : P → Nat) (p : P) (e : Event P) (s : Link P) :
    Decidable (Ok readerId p e s) :=
  match e with
  | .send _ outMsg => inferInstanceAs (Decidable (((s.pc p).reading = true →
      s.readX (readerId p) ≠ advanceIndex fifoSize s.writeX) ∧
      getLen outMsg ≤ maxNetworkMessageLength))
  | .init _ | .receive _ | .exec _ => inferInstanceAs (Decidable (((s.pc p).reading = true →
      s.readX (readerId p) ≠ advanceIndex fifoSize s.writeX) ∧ True))

end Runs

end Rodos.SharedMemoryLink
