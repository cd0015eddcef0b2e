import Rodos.ByteStream

namespace Rodos.ByteStreamFifo

open ByteMemory MachineInt RingBuffer ByteStream

open ByteStreamRingBuffer (WORDS)

inductive Call
  | write (buf : Nat → UInt8) (len : Nat)
  | read (buf : Nat → UInt8) (maxLen : Int)

inductive Answer
  | wrote (ok : Bool)
  | read (result : Int) (buf : Nat → UInt8)

def call (LEN : Nat) (r : ByteStreamRingBuffer) : Call → Answer × ByteStreamRingBuffer
  | .write buf len => ((.wrote (r.write LEN buf len).1), (r.write LEN buf len).2)
  | .read buf maxLen =>
    (.read (r.read LEN buf maxLen).1 (r.read LEN buf maxLen).2.1, (r.read LEN buf maxLen).2.2)

def constructed (buffer : Int → Int) : ByteStreamRingBuffer := ⟨buffer, 0, 0⟩

inductive Run (Ok : ByteStreamRingBuffer → Call → Prop) (LEN : Nat) :
    ByteStreamRingBuffer → List (Call × Answer) → Prop
  | start (buffer : Int → Int) : Run Ok LEN (constructed buffer) []
  | step {r : ByteStreamRingBuffer} {trace : List (Call × Answer)} {c : Call} :
      Run Ok LEN r trace → Ok r c →
        Run Ok LEN (call LEN r c).2 (trace ++ [(c, (call LEN r c).1)])

/-- An object does not take up the whole ring, its length can be rounded up, and the words of
an object that is read fit into the output buffer. -/
def Allowed (LEN : Nat) (r : ByteStreamRingBuffer) : Call → Prop
  | .write _ len => 0 < len → len ≤ 2 ^ 31 - 4 ∧ wordsInObject len + 1 ≠ WORDS LEN
  | .read _ maxLen => r.readX ≠ r.writeX → r.buffer r.readX ≤ maxLen →
    4 * wordsInObject (r.buffer r.readX) ≤ maxLen

/-- The objects that are there and all that have been accepted and not been read. -/
structure Fifo where
  stored : List (List UInt8)
  unread : List (List UInt8)

/-- A queue that may lose its oldest objects when one is written. -/
inductive Fifo.Step : Fifo → Call → Answer → Fifo → Prop
  | rejected (f : Fifo) (buf : Nat → UInt8) (len : Nat) : Step f (.write buf len) (.wrote false) f
  | empty (f : Fifo) (buf : Nat → UInt8) : Step f (.write buf 0) (.wrote true) f
  | accepted (f : Fifo) (buf : Nat → UInt8) {len lost : Nat} : 0 < len → lost ≤ f.stored.length →
      Step f (.write buf len) (.wrote true)
        ⟨f.stored.drop lost ++ [ByteMemory.read buf 0 len], f.unread ++ [ByteMemory.read buf 0 len]⟩
  | nothing (unread : List (List UInt8)) (buf : Nat → UInt8) (maxLen : Int) :
      Step ⟨[], unread⟩ (.read buf maxLen) (.read 0 buf) ⟨[], unread⟩
  | read {object : List UInt8} {stored lost : List (List UInt8)} {buf buf' : Nat → UInt8}
      {maxLen : Int} : object.length ≤ maxLen → ByteMemory.read buf' 0 object.length = object →
      (∀ i : Nat, maxLen ≤ i → buf' i = buf i) →
      Step ⟨object :: stored, lost ++ object :: stored⟩ (.read buf maxLen)
        (.read object.length buf') ⟨stored, lost ++ stored⟩
  | tooLong {object : List UInt8} {stored unread : List (List UInt8)} {buf : Nat → UInt8}
      {maxLen : Int} : maxLen < object.length →
      Step ⟨object :: stored, unread⟩ (.read buf maxLen) (.read (-1) buf) ⟨stored, unread⟩

inductive Fifo.Run : Fifo → List (Call × Answer) → Prop
  | start : Run ⟨[], []⟩ []
  | step {f f' : Fifo} {trace : List (Call × Answer)} {c : Call} {answer : Answer} :
      Run f trace → Step f c answer f' → Run f' (trace ++ [(c, answer)])

def Stores (LEN : Nat) (r : ByteStreamRingBuffer) (stored : List (List UInt8)) : Prop :=
  ∃ items : List Item, (∀ it ∈ items, it.Valid) ∧
    contents (WORDS LEN).toNat (fun i : Nat => r.buffer i) r.readX.toNat r.writeX.toNat =
      items.flatMap Item.encode ∧ items.map Item.object = stored

structure Inv (W : Nat) (r : ByteStreamRingBuffer) (items : List Item) : Prop where
  valid : ∀ it ∈ items, it.Valid
  holds : 0 < W → Holds W r (words items [])
  none : W = 0 → r.readX = 0 ∧ r.writeX = 0 ∧ items = []

section Objects

variable {it : Item} {items : List Item}

theorem length_flatMap_wordBytes (ws : List Int) :
    (ws.flatMap wordBytes).length = 4 * ws.length := by
  induction ws with
  | nil => rfl
  | cons v ws ih =>
    rw [List.flatMap_cons, List.length_append, length_wordBytes, ih, List.length_cons]
    omega

theorem length_object (h : it.Valid) : it.object.length = it.len := by
  have hcount := h.count
  rw [Item.object, List.length_take, length_flatMap_wordBytes]
  omega

theorem object_loaded (buf : Nat → UInt8) (len : Nat) :
    Item.object ⟨(List.range' 0 ((len + 3) / 4)).map (loadWord buf), len⟩ =
      ByteMemory.read buf 0 len := by
  rw [Item.object, flatMap_loadWord, take_read]
  dsimp only
  rw [Nat.min_eq_left (by omega)]

theorem valid_loaded (buf : Nat → UInt8) {len : Nat} (hpos : 0 < len) (hlen : len ≤ 2 ^ 31 - 4) :
    Item.Valid ⟨(List.range' 0 ((len + 3) / 4)).map (loadWord buf), len⟩ where
  pos := hpos
  le := hlen
  count := by rw [List.length_map, List.length_range']

theorem words_concat : words items it.encode = words (items ++ [it]) [] := by
  rw [words, words, List.flatMap_append, List.flatMap_singleton, List.append_nil]

end Objects

section Calls

variable {LEN W : Nat} {r : ByteStreamRingBuffer} {items : List Item}

theorem WORDS_eq (hLEN : LEN ≤ 2 ^ 32) : WORDS LEN = ((LEN + 3) / 4 : Nat) :=
  int32_eq (by omega) (by omega)

theorem write_inv (hW : WORDS LEN = W) (hmax : W ≤ 2 ^ 30) (h : Inv W r items) {len : Nat}
    (hpos : 0 < len) (hlen : len ≤ 2 ^ 31 - 4) (hfits : ¬WORDS LEN ≤ wordsInObject len)
    (hroom : wordsInObject len + 1 ≠ WORDS LEN) (buf : Nat → UInt8) :
    ∃ lost ≤ items.length, Inv W (r.write LEN buf len).2
      (items.drop lost ++ [⟨(List.range' 0 ((len + 3) / 4)).map (loadWord buf), len⟩]) := by
  rw [hW, wordsInObject_eq hlen] at hfits hroom
  have hWpos : 0 < W := by omega
  obtain ⟨lost, hlost, hfirst⟩ := writeWord_eq hW hmax (h.holds hWpos) h.valid
    (by rw [List.length_nil]; omega) len
  obtain ⟨lost', hlost', hloop⟩ := writeLoop_eq hW hmax buf 0 ((len + 3) / 4) hfirst
    (fun it hit => h.valid it (List.mem_of_mem_drop hit))
    (by rw [List.length_append, List.length_nil, List.length_singleton]; omega)
  rw [List.length_drop] at hlost'
  refine ⟨lost + lost', by omega, ?_, ?_, ?_⟩
  · intro it hit
    rcases List.mem_append.mp hit with hold | hnew
    · exact h.valid it (List.mem_of_mem_drop hold)
    · rw [List.mem_singleton.mp hnew]
      exact valid_loaded buf hpos hlen
  · intro _
    rw [ByteStreamRingBuffer.write, if_neg (by rw [hW, wordsInObject_eq hlen]; exact hfits),
      if_neg (by omega)]
    rw [List.drop_drop] at hloop
    rw [← words_concat]
    exact hloop
  · intro hzero
    omega

def Simulates (LEN W : Nat) (r : ByteStreamRingBuffer) (f : Fifo) (c : Call) : Prop :=
  ∃ items f', f.Step c (call LEN r c).1 f' ∧ Inv W (call LEN r c).2 items ∧
    items.map Item.object = f'.stored ∧ f'.stored <:+ f'.unread

theorem simulates_of {f f' : Fifo} {c : Call} {answer : Answer} {r' : ByteStreamRingBuffer}
    (hcall : call LEN r c = (answer, r')) (hstep : f.Step c answer f') (hinv : Inv W r' items)
    (hstored : items.map Item.object = f'.stored) (hsuffix : f'.stored <:+ f'.unread) :
    Simulates LEN W r f c := by
  rw [Simulates, hcall]
  exact ⟨items, f', hstep, hinv, hstored, hsuffix⟩

theorem simulates_write (hW : WORDS LEN = W) (hmax : W ≤ 2 ^ 30) (h : Inv W r items) {f : Fifo}
    (hstored : items.map Item.object = f.stored) (hsuffix : f.stored <:+ f.unread)
    {buf : Nat → UInt8} {len : Nat} (hallowed : Allowed LEN r (.write buf len)) :
    Simulates LEN W r f (.write buf len) := by
  by_cases hrejected : WORDS LEN ≤ wordsInObject len
  · have hcall : call LEN r (.write buf len) = (.wrote false, r) := by
      rw [call, ByteStreamRingBuffer.write, if_pos hrejected]
    exact simulates_of hcall (.rejected f buf len) h hstored hsuffix
  rcases Nat.eq_zero_or_pos len with rfl | hpos
  · have hcall : call LEN r (.write buf 0) = (.wrote true, r) := by
      rw [call, ByteStreamRingBuffer.write, if_neg hrejected, if_pos rfl]
    exact simulates_of hcall (.empty f buf) h hstored hsuffix
  obtain ⟨hlen, hroom⟩ := hallowed hpos
  obtain ⟨lost, hlost, hinv⟩ := write_inv hW hmax h hpos hlen hrejected hroom buf
  have hne : len ≠ 0 := by omega
  have hwrite : (r.write LEN buf len).1 = true := by
    rw [ByteStreamRingBuffer.write]
    rw [if_neg hrejected, if_neg hne]
  have hcall : call LEN r (.write buf len) = (.wrote true, (r.write LEN buf len).2) := by
    rw [call, hwrite]
  rw [← List.length_map, hstored] at hlost
  refine simulates_of hcall (.accepted f buf hpos hlost) hinv ?_ ?_
  · rw [List.map_append, List.map_drop, hstored, List.map_singleton, object_loaded]
  · obtain ⟨gone, hgone⟩ := (List.drop_suffix lost f.stored).trans hsuffix
    exact ⟨gone, by rw [← List.append_assoc, hgone]⟩

theorem Inv.isEmpty (h : Inv W r []) : r.readX = r.writeX := by
  rcases Nat.eq_zero_or_pos W with hzero | hpos
  · obtain ⟨hread, hwrite, _⟩ := h.none hzero
    rw [hread, hwrite]
  · exact (h.holds hpos).isEmpty_iff.mpr rfl

theorem Inv.pos {it : Item} (h : Inv W r (it :: items)) : 0 < W := by
  rcases Nat.eq_zero_or_pos W with hzero | hpos
  · exact absurd (h.none hzero).2.2 (List.cons_ne_nil it items)
  · exact hpos

theorem Inv.first {it : Item} (hW : WORDS LEN = W) (h : Inv W r (it :: items)) :
    r.readX ≠ r.writeX ∧ r.buffer r.readX = it.len ∧ (r.readWord LEN).1 = it.len ∧
      Holds W (r.readWord LEN).2 (it.words ++ words items []) := by
  have hwords := h.holds h.pos
  have hne : r.readX ≠ r.writeX := by
    rw [ne_eq, hwords.isEmpty_iff, words_cons]
    exact List.cons_ne_nil _ _
  rw [words_cons] at hwords
  obtain ⟨hlen, hrest⟩ := hwords.readWord hW
  exact ⟨hne, hwords.head, hlen, hrest⟩

theorem Inv.next {it : Item} (h : Inv W r (it :: items)) {r' : ByteStreamRingBuffer}
    (hholds : Holds W r' (words items [])) : Inv W r' items := by
  have hpos := h.pos
  exact ⟨fun it hit => h.valid it (List.mem_cons_of_mem _ hit), fun _ => hholds,
    fun hzero => by omega⟩

theorem simulates_tooLong {it : Item} (hW : WORDS LEN = W) (hmax : W ≤ 2 ^ 30)
    (h : Inv W r (it :: items)) {unread : List (List UInt8)} {buf : Nat → UInt8} {maxLen : Int}
    (hsuffix : it.object :: items.map Item.object <:+ unread) (hlong : maxLen < it.len) :
    Simulates LEN W r ⟨it.object :: items.map Item.object, unread⟩ (.read buf maxLen) := by
  have hit := h.valid it List.mem_cons_self
  have hcount := hit.count
  obtain ⟨hne, _, hlen, hrest⟩ := h.first hW
  obtain ⟨hnonneg, hlt⟩ := hrest.readX_lt
  have hshort := hrest.length_lt
  rw [List.length_append] at hshort
  have hskip := hrest.drop (n := it.words.length) (by rw [List.length_append]; omega)
  rw [List.drop_left] at hskip
  have hcall : call LEN r (.read buf maxLen) = (.read (-1) buf,
      { (r.readWord LEN).2 with
        readX := ((r.readWord LEN).2.readX + it.words.length).tmod W }) := by
    rw [call, ByteStreamRingBuffer.read, if_neg hne, hlen]
    dsimp only
    rw [if_pos hlong, wordsInObject_eq hit.le, hW, ← hcount, int32_eq (by omega) (by omega)]
  have hobject : maxLen < it.object.length := by
    rw [length_object hit]
    exact hlong
  exact simulates_of hcall (.tooLong hobject) (h.next hskip) rfl
    ((List.suffix_cons _ _).trans hsuffix)

theorem simulates_object {it : Item} (hW : WORDS LEN = W) (h : Inv W r (it :: items))
    {unread : List (List UInt8)} {buf : Nat → UInt8} {maxLen : Int}
    (hsuffix : it.object :: items.map Item.object <:+ unread) (hlong : ¬maxLen < it.len)
    (hallowed : Allowed LEN r (.read buf maxLen)) :
    Simulates LEN W r ⟨it.object :: items.map Item.object, unread⟩ (.read buf maxLen) := by
  have hit := h.valid it List.mem_cons_self
  have hcount := hit.count
  obtain ⟨hne, hhead, hlen, hrest⟩ := h.first hW
  obtain ⟨r', hloop, hr'⟩ := readLoop_eq hW it.words (words items []) 0 buf hrest
  have hcall : call LEN r (.read buf maxLen) =
      (.read it.object.length (storeWords buf 0 it.words), r') := by
    rw [call, ByteStreamRingBuffer.read, if_neg hne, hlen]
    dsimp only
    rw [if_neg hlong, Int.toNat_natCast, ← hcount, hloop, length_object hit]
  have hmaxLen := hallowed hne (by rw [hhead]; omega)
  rw [hhead, wordsInObject_eq hit.le, ← hcount] at hmaxLen
  obtain ⟨lost, rfl⟩ := hsuffix
  refine simulates_of hcall (.read ?_ ?_ ?_) (h.next hr') rfl (List.suffix_append lost _)
  · rw [length_object hit]
    omega
  · have hbytes := congrArg (List.take it.len) (read_storeWords buf 0 it.words)
    rw [take_read, Nat.min_eq_left (by omega)] at hbytes
    rw [length_object hit]
    exact hbytes
  · intro i hi
    exact storeWords_outside buf 0 it.words (.inr (by omega))

theorem simulates_read (hW : WORDS LEN = W) (hmax : W ≤ 2 ^ 30) (h : Inv W r items) {f : Fifo}
    (hstored : items.map Item.object = f.stored) (hsuffix : f.stored <:+ f.unread)
    {buf : Nat → UInt8} {maxLen : Int} (hallowed : Allowed LEN r (.read buf maxLen)) :
    Simulates LEN W r f (.read buf maxLen) := by
  obtain ⟨stored, unread⟩ := f
  dsimp only at hstored hsuffix
  subst hstored
  cases items with
  | nil =>
    have hcall : call LEN r (.read buf maxLen) = (.read 0 buf, r) := by
      rw [call, ByteStreamRingBuffer.read, if_pos h.isEmpty]
    exact simulates_of hcall (.nothing unread buf maxLen) h rfl List.nil_suffix
  | cons it items =>
    rw [List.map_cons] at hsuffix ⊢
    by_cases hlong : maxLen < it.len
    · exact simulates_tooLong hW hmax h hsuffix hlong
    · exact simulates_object hW h hsuffix hlong hallowed

theorem simulates (hW : WORDS LEN = W) (hmax : W ≤ 2 ^ 30) (h : Inv W r items) {f : Fifo}
    (hstored : items.map Item.object = f.stored) (hsuffix : f.stored <:+ f.unread) {c : Call}
    (hallowed : Allowed LEN r c) : Simulates LEN W r f c := by
  cases c with
  | write buf len => exact simulates_write hW hmax h hstored hsuffix hallowed
  | read buf maxLen => exact simulates_read hW hmax h hstored hsuffix hallowed

theorem inv_constructed (W : Nat) (buffer : Int → Int) : Inv W (constructed buffer) [] where
  valid := List.forall_mem_nil _
  holds := fun hpos => ⟨[], 0, 0, 0, rfl, rfl, ring_empty hpos _, rfl⟩
  none := fun _ => ⟨rfl, rfl, rfl⟩

theorem Inv.stores (hW : WORDS LEN = W) (h : Inv W r items) :
    Stores LEN r (items.map Item.object) := by
  refine ⟨items, h.valid, ?_, rfl⟩
  rw [hW, Int.toNat_natCast]
  rcases Nat.eq_zero_or_pos W with hzero | hpos
  · obtain ⟨hread, hwrite, hitems⟩ := h.none hzero
    rw [hread, hwrite, hitems]
    rfl
  · obtain ⟨log, start, readX, writeX, hread, hwrite, hring, hlog⟩ := h.holds hpos
    rw [hread, hwrite, Int.toNat_natCast, Int.toNat_natCast, hring.contents_eq, hlog, words,
      List.append_nil]

theorem run_inv (hW : WORDS LEN = W) (hmax : W ≤ 2 ^ 30) {trace : List (Call × Answer)}
    (h : Run (Allowed LEN) LEN r trace) :
    ∃ items f, Fifo.Run f trace ∧ Inv W r items ∧ items.map Item.object = f.stored ∧
      f.stored <:+ f.unread := by
  induction h with
  | start buffer =>
    exact ⟨[], ⟨[], []⟩, .start, inv_constructed W buffer, rfl, List.nil_suffix⟩
  | step _ hallowed ih =>
    obtain ⟨items, f, hrun, hinv, hstored, hsuffix⟩ := ih
    obtain ⟨items', f', hstep, hrest⟩ := simulates hW hmax hinv hstored hsuffix hallowed
    exact ⟨items', f', hrun.step hstep, hrest⟩

end Calls

/-- A run is one of a queue that may lose its oldest objects, and that has what is stored in
the ring. -/
theorem run_refines {LEN : Nat} (hLEN : LEN ≤ 2 ^ 32) {r : ByteStreamRingBuffer}
    {trace : List (Call × Answer)} (h : Run (Allowed LEN) LEN r trace) :
    ∃ f, Fifo.Run f trace ∧ Stores LEN r f.stored ∧ f.stored <:+ f.unread := by
  obtain ⟨items, f, hrun, hinv, hstored, hsuffix⟩ := run_inv (WORDS_eq hLEN) (by omega) h
  exact ⟨f, hrun, hstored ▸ hinv.stores (WORDS_eq hLEN), hsuffix⟩

/-- One object of five bytes in a ring of eight words. -/
theorem run_refines_five : ∃ f : Fifo,
    Fifo.Run f [(.write (fun _ => 7) 5, .wrote true)] ∧
      Stores 32 (call 32 (constructed fun _ => 0) (.write (fun _ => 7) 5)).2 f.stored ∧
      f.stored <:+ f.unread :=
  run_refines (by decide) (.step (.start _) fun _ => by decide)

theorem Fifo.Run.stored_ne_nil {f : Fifo} {trace : List (Call × Answer)} (h : Fifo.Run f trace)
    {buf : Nat → UInt8} {len : Nat} (hpos : 0 < len)
    (htrace : trace = [(.write buf len, .wrote true)]) : f.stored ≠ [] := by
  cases h with
  | start => cases htrace
  | step _ hstep =>
    rcases List.append_eq_singleton_iff.mp htrace with ⟨_, hlast⟩ | ⟨_, hnone⟩
    · obtain ⟨rfl, rfl⟩ := Prod.mk.inj (List.singleton_inj.mp hlast)
      cases hstep with
      | empty => exact absurd hpos (Nat.lt_irrefl 0)
      | accepted => exact List.append_ne_nil_of_right_ne_nil _ (List.cons_ne_nil _ _)
    · cases hnone

/-- An object that takes up the whole ring is accepted and lost. -/
theorem write_lost : ¬∀ (LEN : Nat) (r : ByteStreamRingBuffer) (trace : List (Call × Answer)),
    Run (fun _ _ => True) LEN r trace →
      ∃ f, Fifo.Run f trace ∧ Stores LEN r f.stored ∧ f.stored <:+ f.unread := by
  intro h
  have hrun : Run (fun _ _ => True) 8 _ [(.write (fun _ => 7) 4, .wrote true)] :=
    .step (.start fun _ => 0) trivial
  obtain ⟨f, hfifo, ⟨items, _, hitems, hstored⟩, _⟩ := h 8 _ _ hrun
  have hempty : items.flatMap Item.encode = [] := hitems.symm.trans (by decide +kernel)
  cases items with
  | nil => exact hfifo.stored_ne_nil (by decide) rfl hstored.symm
  | cons it items => cases hempty

end Rodos.ByteStreamFifo
