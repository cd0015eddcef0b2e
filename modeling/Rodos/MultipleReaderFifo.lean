import Rodos.LockFreeFifo

namespace Rodos.MultipleReaderFifo

open RingBuffer TransitionSystem LockFreeFifo

variable {α : Type} {len numOfreaders : Nat}

structure State (α : Type) where
  buffer : Nat → α
  writeX : Nat
  readX : Nat → Nat
  overflowCnt : Nat → UInt32

def shift (len nextIndex : Nat) (f : State α) (i : Nat) : State α :=
  if nextIndex = f.readX i then { f with
    readX := Function.update f.readX i (advanceIndex len (f.readX i))
    overflowCnt := Function.update f.overflowCnt i (f.overflowCnt i + 1) }
  else f

def put (len numOfreaders : Nat) (f : State α) (val : α) : Nat × State α :=
  let writtenPos := f.writeX
  let nextIndex := advanceIndex len f.writeX
  let shifted := (List.range numOfreaders).foldl (shift len nextIndex) f
  (writtenPos, { shifted with
    buffer := Function.update shifted.buffer shifted.writeX val
    writeX := nextIndex })

def get (len numOfreaders : Nat) (f : State α) (readerId : Nat) : Option α × State α :=
  if readerId ≥ numOfreaders then (none, f)
  else if f.readX readerId = f.writeX then (none, f)
  else (some (f.buffer (f.readX readerId)),
    { f with readX := Function.update f.readX readerId (advanceIndex len (f.readX readerId)) })

inductive Fate
  | read
  | skipped
  deriving DecidableEq

/-- The fifo, all that has been put, and for each reader what has become of the values
that it has left behind. -/
structure System (α : Type) extends State α where
  puts : List α
  history : Nat → List (Fate × α)

inductive Event (α : Type)
  | put (val : α)
  | get (readerId : Nat)

/-- A reader whose index is moved by `put` skips the value there. -/
def step (len numOfreaders : Nat) : Event α → System α → Option (System α)
  | .put val, s =>
    let f := (put len numOfreaders s.toState val).2
    some {
      toState := f
      puts := s.puts ++ [val]
      history := fun i =>
        if f.readX i = s.readX i then s.history i
        else s.history i ++ [(.skipped, s.buffer (s.readX i))] }
  | .get readerId, s =>
    let r := get len numOfreaders s.toState readerId
    some { s with
      toState := r.2
      history := Function.update s.history readerId
        (s.history readerId ++ r.1.toList.map fun val => (.read, val)) }

def constructed (buffer : Nat → α) : System α where
  buffer := buffer
  writeX := 0
  readX := fun _ => 0
  overflowCnt := fun _ => 0
  puts := []
  history := fun _ => []

def unread (len : Nat) (f : State α) (readerId : Nat) : List α :=
  contents len f.buffer (f.readX readerId) f.writeX

def skippedCount (s : System α) (readerId : Nat) : Nat :=
  (s.history readerId).countP fun entry => entry.1 = .skipped

/-- Every value that has been put was read or skipped by the reader, one after the
other, or is still there for it. -/
structure Accounted (len numOfreaders : Nat) (s : System α) (readerId : Nat) : Prop where
  inOrder : (s.history readerId).map Prod.snd ++ unread len s.toState readerId = s.puts
  bound : (unread len s.toState readerId).length ≤ len - 1
  next : (get len numOfreaders s.toState readerId).1 = (unread len s.toState readerId).head?

section Put

variable {nextIndex : Nat}

structure View (α : Type) where
  buffer : Nat → α
  writeX : Nat
  readX : Nat
  overflowCnt : UInt32

def view (f : State α) (i : Nat) : View α := ⟨f.buffer, f.writeX, f.readX i, f.overflowCnt i⟩

def View.shift (len nextIndex : Nat) (v : View α) : View α :=
  if nextIndex = v.readX then
    { v with readX := advanceIndex len v.readX, overflowCnt := v.overflowCnt + 1 }
  else v

theorem view_shift_self (f : State α) (i : Nat) :
    view (shift len nextIndex f i) i = (view f i).shift len nextIndex := by
  rw [shift, View.shift]
  change _ = if nextIndex = f.readX i then _ else _
  split <;> simp [view]

theorem view_shift_of_ne (f : State α) {i j : Nat} (hne : i ≠ j) :
    view (shift len nextIndex f j) i = view f i := by
  rw [shift]
  split <;> simp [view, hne]

theorem view_foldl (len nextIndex : Nat) (f : State α) (n i : Nat) :
    view ((List.range n).foldl (shift len nextIndex) f) i =
      if i < n then (view f i).shift len nextIndex else view f i := by
  induction n with
  | zero => rfl
  | succ n ih =>
    rw [List.range_succ, List.foldl_append, List.foldl_cons, List.foldl_nil]
    by_cases hi : i = n
    · subst hi
      rw [view_shift_self, ih, if_neg (Nat.lt_irrefl i), if_pos (Nat.lt_succ_self i)]
    · rw [view_shift_of_ne _ hi, ih]
      simp only [Nat.lt_succ_iff_lt_or_eq, hi, or_false]

def View.put (len : Nat) (v : View α) (val : α) : View α :=
  { v.shift len (advanceIndex len v.writeX) with
    buffer := Function.update v.buffer v.writeX val
    writeX := advanceIndex len v.writeX }

theorem View.shift_buffer (v : View α) : (v.shift len nextIndex).buffer = v.buffer := by
  rw [View.shift]
  split <;> rfl

theorem View.shift_writeX (v : View α) : (v.shift len nextIndex).writeX = v.writeX := by
  rw [View.shift]
  split <;> rfl

theorem view_put (len : Nat) (f : State α) (val : α) {i : Nat} (hi : i < numOfreaders) :
    view (put len numOfreaders f val).2 i = (view f i).put len val := by
  have hview := view_foldl len (advanceIndex len f.writeX) f numOfreaders i
  rw [if_pos hi] at hview
  have hbuffer := congrArg View.buffer hview
  have hwriteX := congrArg View.writeX hview
  rw [View.shift_buffer] at hbuffer
  rw [View.shift_writeX] at hwriteX
  have hreadX := congrArg View.readX hview
  have hoverflowCnt := congrArg View.overflowCnt hview
  dsimp only [view] at hbuffer hwriteX hreadX hoverflowCnt
  rw [put, view, View.put, hbuffer, hwriteX, hreadX, hoverflowCnt]
  rfl

def View.get (len : Nat) (v : View α) : Option α × View α :=
  if v.readX = v.writeX then (none, v)
  else (some (v.buffer v.readX), { v with readX := advanceIndex len v.readX })

theorem view_get_self (len : Nat) (f : State α) {i : Nat} (hi : i < numOfreaders) :
    ((get len numOfreaders f i).1, view (get len numOfreaders f i).2 i) = (view f i).get len := by
  rw [get, View.get]
  rw [if_neg (by omega)]
  change _ = if f.readX i = f.writeX then _ else _
  split <;> simp [view]

theorem view_get_of_ne (f : State α) {i readerId : Nat} (hne : i ≠ readerId) :
    view (get len numOfreaders f readerId).2 i = view f i := by
  rw [get]
  split
  · rfl
  · split <;> simp [view, hne]

end Put

section Invariant

/-- The entries that the reader has left behind are the beginning of what was put, and
the others lie in the ring. -/
structure Keeps (len : Nat) (v : View α) (puts : List α) (history : List (Fate × α)) : Prop where
  ring : Ring len v.buffer v.readX v.writeX puts history.length
  inOrder : history.map Prod.snd = puts.take history.length

/-- All that were skipped are counted as well. -/
structure Holds (len : Nat) (v : View α) (puts : List α) (history : List (Fate × α)) : Prop
    extends Keeps len v puts history where
  overflowCnt : v.overflowCnt.toNat =
    (history.countP fun entry => entry.1 = .skipped) % 2 ^ 32

variable {v : View α} {puts : List α} {history : List (Fate × α)}

theorem Keeps.inOrder_append (h : Keeps len v puts history) (hsome : history.length < puts.length)
    (fate : Fate) : (history ++ [(fate, v.buffer v.readX)]).map Prod.snd =
      puts.take (history ++ [(fate, v.buffer v.readX)]).length := by
  rw [List.map_append, h.inOrder, List.length_append, List.length_singleton, List.take_add_one,
    h.ring.first hsome]
  rfl

theorem Holds.put (hlen : 2 ≤ len) (h : Holds len v puts history) (val : α) :
    Holds len (v.put len val) (puts ++ [val])
      (if (v.put len val).readX = v.readX then history
        else history ++ [(.skipped, v.buffer v.readX)]) := by
  have hstart := h.ring.start_le
  have hroom := h.ring.room
  have hnext : advanceIndex len v.writeX = (puts.length + 1) % len := by
    rw [h.ring.write, advanceIndex_mod h.ring.len_pos]
  by_cases hfull : puts.length + 1 = history.length + len
  · have hsome : history.length < puts.length := by omega
    have hput : v.put len val = ⟨Function.update v.buffer v.writeX val, (puts.length + 1) % len,
        (history.length + 1) % len, v.overflowCnt + 1⟩ := by
      rw [View.put, View.shift, if_pos (hnext.trans (h.ring.full_iff.mpr hfull)), hnext, h.ring.read,
        advanceIndex_mod h.ring.len_pos]
    have hmoved : (history.length + 1) % len ≠ v.readX := by
      rw [h.ring.read]
      exact (mod_ne (Nat.lt_succ_self _) (by omega)).symm
    rw [hput, if_neg hmoved]
    refine ⟨⟨?_, ?_⟩, ?_⟩
    · have hupdate := (h.ring.pop hsome).update (Nat.le_refl _) (by omega) val
      rw [← h.ring.write] at hupdate
      rw [List.length_append]
      exact hupdate.push (Function.update_self _ _ _) (by omega)
    · rw [h.inOrder_append hsome, List.take_append_of_le_length]
      simp
      omega
    · have hcount := h.overflowCnt
      rw [List.countP_append]
      simp only [UInt32.toNat_add, UInt32.reduceToNat, List.countP_singleton, decide_true, if_true]
      omega
  · have hput : v.put len val = ⟨Function.update v.buffer v.writeX val, (puts.length + 1) % len,
        v.readX, v.overflowCnt⟩ := by
      rw [View.put, View.shift, if_neg (fun heq => hfull (h.ring.full_iff.mp (hnext.symm.trans heq))),
        hnext]
    rw [hput, if_pos rfl]
    refine ⟨⟨?_, ?_⟩, h.overflowCnt⟩
    · have hupdate := h.ring.update (Nat.le_refl _) (by omega) val
      rw [← h.ring.write] at hupdate
      exact hupdate.push (Function.update_self _ _ _) (by omega)
    · rw [h.inOrder, List.take_append_of_le_length hstart]

theorem Holds.get (h : Holds len v puts history) :
    Holds len (v.get len).2 puts (history ++ (v.get len).1.toList.map fun val => (.read, val)) := by
  have hstart := h.ring.start_le
  rw [View.get]
  split
  · rw [Option.toList_none, List.map_nil, List.append_nil]
    exact h
  · rename_i hnot
    have hsome : history.length < puts.length :=
      Nat.lt_of_le_of_ne hstart fun heq => hnot (h.ring.empty_iff.mpr heq)
    refine ⟨⟨?_, h.inOrder_append hsome .read⟩, ?_⟩
    · rw [h.ring.read, advanceIndex_mod h.ring.len_pos, List.length_append]
      exact h.ring.pop hsome
    · rw [List.countP_append]
      exact h.overflowCnt

theorem Holds.get_fst (h : Holds len v puts history) :
    (v.get len).1 = (puts.drop history.length).head? := by
  rw [List.head?_drop]
  rw [View.get]
  split
  · rename_i hempty
    rw [h.ring.empty_iff.mp hempty, List.getElem?_eq_none (Nat.le_refl _)]
  · rename_i hnot
    exact (h.ring.first (Nat.lt_of_le_of_ne h.ring.start_le fun heq =>
      hnot (h.ring.empty_iff.mpr heq))).symm

def Inv (len : Nat) (s : System α) (i : Nat) : Prop :=
  Holds len (view s.toState i) s.puts (s.history i)

theorem inv_constructed (hlen : 0 < len) (buffer : Nat → α) (i : Nat) :
    Inv len (constructed buffer) i :=
  ⟨⟨ring_empty hlen buffer, rfl⟩, rfl⟩

theorem Inv.step {s t : System α} {i : Nat} (hlen : 2 ≤ len) (hi : i < numOfreaders)
    {e : Event α} (h : Inv len s i) (hstep : step len numOfreaders e s = some t) :
    Inv len t i := by
  cases e with
  | put val =>
    cases hstep
    have hview := view_put len s.toState val hi
    have hholds := Holds.put hlen h val
    rw [← hview] at hholds
    exact hholds
  | get readerId =>
    cases hstep
    by_cases hne : i = readerId
    · subst hne
      have hview := view_get_self len s.toState hi
      have hholds := Holds.get h
      rw [← hview] at hholds
      rw [Inv]
      dsimp only
      rw [Function.update_self]
      exact hholds
    · rw [Inv]
      dsimp only
      rw [view_get_of_ne _ hne, Function.update_of_ne hne]
      exact h

theorem Inv.accounted {s : System α} {i : Nat} (hi : i < numOfreaders) (h : Inv len s i) :
    Accounted len numOfreaders s i := by
  have hunread : unread len s.toState i = s.puts.drop (s.history i).length := h.ring.contents_eq
  have hroom := h.ring.room
  refine ⟨?_, ?_, ?_⟩
  · rw [h.inOrder, hunread, List.take_append_drop]
  · rw [hunread, List.length_drop]
    omega
  · rw [hunread, ← h.get_fst]
    exact congrArg Prod.fst (view_get_self len s.toState hi)

end Invariant

theorem inv_of_reachable (hlen : 2 ≤ len) {buffer : Nat → α} {s : System α}
    (h : Reachable (fun s => s = constructed buffer) (step len numOfreaders) s)
    {i : Nat} (hi : i < numOfreaders) : Inv len s i := by
  refine h.invariant (Inv len · i) ?_ ?_
  · rintro s rfl
    exact inv_constructed (by omega) buffer i
  · intro e s t hinv _ hstep
    exact hinv.step hlen hi hstep

/-- Nothing is lost but what the reader's counter says, as far as that counts. -/
theorem readers_lose_counted (hlen : 2 ≤ len) {buffer : Nat → α} {s : System α}
    (h : Reachable (fun s => s = constructed buffer) (step len numOfreaders) s)
    {i : Nat} (hi : i < numOfreaders) :
    Accounted len numOfreaders s i ∧ (s.overflowCnt i).toNat = skippedCount s i % 2 ^ 32 :=
  ⟨(inv_of_reachable hlen h hi).accounted hi, (inv_of_reachable hlen h hi).overflowCnt⟩

/-- The second of two readers is too slow. -/
theorem readers_lose_counted_slow :
    ∃ s : System Nat, s.history 0 = [(.read, 5), (.read, 6)] ∧ s.history 1 = [(.skipped, 5)] ∧
      Accounted 3 2 s 1 ∧ (s.overflowCnt 1).toNat = skippedCount s 1 % 2 ^ 32 := by
  obtain ⟨s, hs, hfast, hslow⟩ := exists_reachable
    (fun s => s = constructed fun _ => (0 : Nat)) (step 3 2) (fun _ _ => True)
    (constructed fun _ => 0) rfl [.put 5, .get 0, .put 6, .get 0, .put 7]
    (fun s => s.history 0 = [(.read, 5), (.read, 6)] ∧ s.history 1 = [(.skipped, 5)])
    (by decide +kernel)
  obtain ⟨haccounted, hcount⟩ := readers_lose_counted (by decide) hs (by decide : 1 < 2)
  exact ⟨s, hfast, hslow, haccounted, hcount⟩

/-- A reader that never reads is shifted again and again. -/
theorem exists_only_skipped (len numOfreaders : Nat) (buffer : Nat → α) (val : α) (k : Nat) :
    ∃ s : System α, Reachable (fun s => s = constructed buffer) (step len numOfreaders) s ∧
      s.puts.length = k ∧ ∀ i, ∀ entry ∈ s.history i, entry.1 = .skipped := by
  induction k with
  | zero => exact ⟨_, .start rfl, rfl, nofun⟩
  | succ k ih =>
    obtain ⟨s, hs, hputs, hskipped⟩ := ih
    refine ⟨_, hs.step (e := .put val) trivial rfl, ?_, fun i entry hentry => ?_⟩
    · rw [List.length_append, hputs, List.length_singleton]
    · dsimp only at hentry
      split at hentry
      · exact hskipped i entry hentry
      · rw [List.mem_append, List.mem_singleton] at hentry
        obtain hold | rfl := hentry
        · exact hskipped i entry hold
        · rfl

/-- The counter starts again after `2 ^ 32` skipped values. -/
theorem overflowCnt_wraps :
    ∃ s : System Nat, Reachable (fun s => s = constructed fun _ => 0) (step 2 1) s ∧
      (s.overflowCnt 0).toNat ≠ skippedCount s 0 := by
  obtain ⟨s, hs, hputs, hskipped⟩ :=
    exists_only_skipped 2 1 (fun _ => 0) 0 (2 ^ 32 + 1)
  refine ⟨s, hs, ?_⟩
  have hinv := inv_of_reachable (Nat.le_refl 2) hs Nat.one_pos
  have hroom := hinv.ring.room
  have hcount : skippedCount s 0 = (s.history 0).length :=
    List.countP_eq_length.mpr fun entry hentry => decide_eq_true (hskipped 0 entry hentry)
  have hlt := (s.overflowCnt 0).toNat_lt
  omega

end Rodos.MultipleReaderFifo
