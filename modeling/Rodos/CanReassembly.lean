import Rodos.CanFraming

namespace Rodos.CanReassembly

open ByteMemory NetworkMessage CanFraming

structure Partial where
  len : Nat
  data : List UInt8
  bytesReceived : Nat
  sequenceCounter : UInt8
  deriving DecidableEq, Repr

structure Delivery where
  canID : Nat
  len : Nat
  data : List UInt8
  deriving DecidableEq, Repr

def Partial.add (p : Partial) (f : CanMsg) : Partial :=
  { p with
    data := p.data ++ f.payload
    bytesReceived := ((p.bytesReceived + f.len - f.userDataBegin) % 2 ^ 16).toNat }

def Partial.finish (p : Partial) (canID : Nat) : Option Partial × Option Delivery :=
  if p.len ≤ p.bytesReceived then (none, some ⟨canID, p.len, p.data⟩)
  else (some { p with sequenceCounter := p.sequenceCounter + 1 }, none)

/-- What the frames of one CAN id are for: the first frame of a message
starts it anew, the others continue it in sequence. -/
def feed (s : Option Partial) (f : CanMsg) : Option Partial × Option Delivery :=
  if f.sequence = 0 then ((⟨f.declaredLen, [], 0, 0⟩ : Partial).add f).finish f.canID
  else match s with
    | none => (none, none)
    | some p => if f.sequence = p.sequenceCounter then (p.add f).finish f.canID else (some p, none)

def reassemble : Option Partial → List CanMsg → Option Partial × List Delivery
  | s, [] => (s, [])
  | s, f :: fs =>
    ((reassemble (feed s f).1 fs).1, (feed s f).2.toList ++ (reassemble (feed s f).1 fs).2)

theorem finish_canID {p : Partial} {canID : Nat} {d : Delivery} (h : (p.finish canID).2 = some d) :
    d.canID = canID := by
  rw [Partial.finish] at h
  split at h
  · rw [← Option.some.inj h]
  · cases h

theorem feed_canID {s : Option Partial} {f : CanMsg} {d : Delivery} (h : (feed s f).2 = some d) :
    d.canID = f.canID := by
  unfold feed at h
  split at h
  · exact finish_canID h
  · cases s with
    | none => cases h
    | some p =>
      simp only at h
      split at h
      · exact finish_canID h
      · cases h

theorem reassemble_append (s : Option Partial) (fs gs : List CanMsg) :
    reassemble s (fs ++ gs) =
      ((reassemble (reassemble s fs).1 gs).1,
        (reassemble s fs).2 ++ (reassemble (reassemble s fs).1 gs).2) := by
  induction fs generalizing s with
  | nil => rfl
  | cons f fs ih => simp [reassemble, ih]

section

variable {a : Assembly} {p : Partial}

/-- The header fields that the receiver derives from the CAN id and the
first frame. -/
structure Addressed (m : NetworkMessage) (canID len : Nat) : Prop where
  len : getLen m = len
  node : getSenderNode m = (canID % 256 : Nat)
  topic : getTopicId m = canID / 256 % 65536

theorem Addressed.of_header {m m' : NetworkMessage} {canID len : Nat} (h : Addressed m canID len)
    (hf : ∀ off n, 14 ≤ off → off + n ≤ headerSize → getField off n m' = getField off n m) :
    Addressed m' canID len where
  len := (hf 14 2 (by decide) (by decide)).trans h.len
  node := by
    unfold getSenderNode
    rw [hf 16 4 (by decide) (by decide)]
    exact h.node
  topic := (hf 32 4 (by decide) (by decide)).trans h.topic

structure Holds (a : Assembly) (p : Partial) : Prop where
  addressed : Addressed a.currentMsg a.currentReceiveCANId p.len
  data : read a.currentMsg.bytes headerSize p.data.length = p.data
  pointer : a.currentDataPointer = p.data.length
  received : a.bytesReceived = p.bytesReceived
  sequence : a.sequenceCounter = p.sequenceCounter

structure Matches (m : NetworkMessage) (d : Delivery) : Prop where
  addressed : Addressed m d.canID d.len
  data : read m.bytes headerSize d.data.length = d.data
  checkSum : isCheckSumOk m

theorem storePayload_holds (h : Holds a p) (f : CanMsg) : Holds (storePayload a f) (p.add f) where
  addressed := by
    refine Addressed.of_header h.addressed ?_
    intro off n _ hn
    unfold getField storePayload
    rw [read_write_of_disjoint _ _ _ _ _ (.inl (by omega))]
  data := by
    simp only [storePayload, Partial.add, List.length_append, h.pointer]
    rw [read_add, read_write_of_disjoint _ _ _ _ _ (.inl le_rfl), h.data, read_write]
  pointer := by simp [storePayload, Partial.add, h.pointer]
  received := by simp [storePayload, Partial.add, h.received]
  sequence := h.sequence

theorem setCheckSum_matches (h : Holds a p) :
    Matches (setCheckSum a.currentMsg) ⟨a.currentReceiveCANId, p.len, p.data⟩ where
  addressed := by
    refine h.addressed.of_header ?_
    intro off n hoff _
    exact getField_putField_of_disjoint 10 2 _ _ off n (by omega)
  data := by
    refine (read_putField 10 2 _ _ _ _ ?_).trans h.data
    simp [headerSize]
  checkSum := isCheckSumOk_setCheckSum _

theorem declaredLen_lt (f : CanMsg) : f.declaredLen < 65536 := by
  have h1 := f.data[1].toNat_lt
  have h2 := f.data[2].toNat_lt
  simp only [CanMsg.declaredLen, ofBigEndian, List.foldl_cons, List.foldl_nil]
  omega

theorem and_uint32Ones (x n : Nat) : x &&& uint32Ones n = x % 2 ^ n := by
  rw [uint32Ones]
  rw [Nat.one_shiftLeft, Nat.and_two_pow_sub_one_eq_mod]

theorem bmod_unsigned (n x : Nat) (hx : x < 2 ^ 31) (hn : n = 4) :
    Int.bmod (unsigned n (x : Int) % 256 ^ n : Nat) (256 ^ n) = x := by
  subst hn
  have hu : unsigned 4 (x : Int) = x := by
    rw [unsigned]
    omega
  rw [hu, Nat.mod_eq_of_lt (by omega), Int.bmod_def]
  omega

theorem startMsg_addressed (a : Assembly) (now : Int) (f : CanMsg) :
    Addressed (startMsg a now f).currentMsg f.canID f.declaredLen where
  len := by
    refine (getField_putField 14 2 _ _).trans ?_
    exact Nat.mod_eq_of_lt (by have := declaredLen_lt f; omega)
  node := by
    have hnode : getField 16 4 (startMsg a now f).currentMsg =
        unsigned 4 (f.canID &&& uint32Ones canLinkNodeBits : Nat) % 256 ^ 4 := by
      refine (getField_putField_of_disjoint 14 2 _ _ 16 4 (by omega)).trans ?_
      refine (getField_putField_of_disjoint 32 4 _ _ 16 4 (by omega)).trans ?_
      refine (getField_putField_of_disjoint 20 8 _ _ 16 4 (by omega)).trans ?_
      refine (getField_putField_of_disjoint 28 4 _ _ 16 4 (by omega)).trans ?_
      exact getField_putField 16 4 _ _
    unfold getSenderNode
    rw [hnode, and_uint32Ones, bmod_unsigned _ _ _ rfl]
    · rfl
    · simp only [canLinkNodeBits]
      omega
  topic := by
    refine (getField_putField_of_disjoint 14 2 _ _ 32 4 (by omega)).trans ?_
    refine (getField_putField 32 4 _ _).trans ?_
    rw [and_uint32Ones, Nat.shiftRight_eq_div_pow]
    simp only [canLinkNodeBits, canLinkTopicBits]
    omega

theorem startMsg_holds (a : Assembly) (now : Int) (f : CanMsg) :
    Holds (startMsg a now f) ⟨f.declaredLen, [], 0, 0⟩ :=
  ⟨startMsg_addressed a now f, rfl, rfl, rfl, rfl⟩

theorem canId_eq (m : NetworkMessage) :
    canId m = 0x1C * 2 ^ 24 + (getTopicId m % 65536 * 256 + unsigned 4 (getSenderNode m) % 256) := by
  have hlow : (getTopicId m % 2 ^ canLinkTopicBits) <<< canLinkNodeBits |||
      unsigned 4 (getSenderNode m) % 2 ^ canLinkNodeBits =
      getTopicId m % 65536 * 256 + unsigned 4 (getSenderNode m) % 256 := by
    have hn : unsigned 4 (getSenderNode m) % 2 ^ canLinkNodeBits < 2 ^ canLinkNodeBits :=
      Nat.mod_lt _ (by decide)
    rw [← Nat.shiftLeft_add_eq_or_of_lt hn, Nat.shiftLeft_eq]
    rfl
  rw [canId]
  rw [and_uint32Ones, and_uint32Ones, Nat.or_assoc, hlow]
  have hlt : getTopicId m % 65536 * 256 + unsigned 4 (getSenderNode m) % 256 < 2 ^ 24 := by omega
  exact (Nat.shiftLeft_add_eq_or_of_lt hlt 0x1C).symm.trans (by rw [Nat.shiftLeft_eq])

theorem Addressed.canId_eq {m : NetworkMessage} {canID len : Nat} (h : Addressed m canID len)
    (hid : canID / 2 ^ 24 = 0x1C) : canId m = canID := by
  have hu : unsigned 4 ((canID % 256 : Nat) : Int) = canID % 256 := by
    rw [unsigned]
    omega
  rw [CanReassembly.canId_eq, h.topic, h.node, hu]
  omega

end

/-- The assembly and the state of one CAN id agree: the id has an open
message exactly if it is the one in reception. -/
def Tracks (a : Assembly) (canID : Nat) : Option Partial → Prop
  | none => a.currentReceiveCANId ≠ canID
  | some p => a.currentReceiveCANId = canID ∧ Holds a p

def Reports (r : Bool × Assembly) : Option Delivery → Prop
  | none => r.1 = false
  | some d => r.1 = true ∧ r.2.currentReceiveCANId = 0 ∧ Matches r.2.currentMsg d

theorem finishFrame_spec {a : Assembly} {p : Partial} (h : Holds a p)
    (hid : a.currentReceiveCANId ≠ 0) :
    Tracks (finishFrame a).2 a.currentReceiveCANId (p.finish a.currentReceiveCANId).1 ∧
      Reports (finishFrame a) (p.finish a.currentReceiveCANId).2 := by
  rw [finishFrame, Partial.finish]
  rw [h.addressed.len, h.received]
  split
  · exact ⟨hid.symm, rfl, rfl, setCheckSum_matches h⟩
  · refine ⟨⟨rfl, h.addressed, h.data, h.pointer, rfl, ?_⟩, rfl⟩
    simp [h.sequence]

theorem appendCANMsg_spec {a : Assembly} {s : Option Partial} {f : CanMsg} (now : Int)
    (hf : f.canID ≠ 0) (hid : a.currentReceiveCANId = 0 ∨ a.currentReceiveCANId = f.canID)
    (hs : Tracks a f.canID s) :
    Tracks (appendCANMsg a now f).2 f.canID (feed s f).1 ∧
      Reports (appendCANMsg a now f) (feed s f).2 := by
  unfold appendCANMsg openMsg feed
  by_cases hseq : f.sequence = 0
  · have hacc : accepts (startMsg a now f) f := by simp [accepts, startMsg, hf, hseq]
    simp only [hseq, if_true, hacc]
    exact finishFrame_spec (storePayload_holds (startMsg_holds a now f) f) hf
  · simp only [hseq, if_false]
    cases s with
    | none =>
      have hzero : a.currentReceiveCANId = 0 := hid.resolve_right hs
      have hacc : ¬ accepts a f := by
        simp [accepts, hzero, UInt8.pos_iff_ne_zero, hseq]
      rw [if_neg hacc]
      exact ⟨hs, rfl⟩
    | some p =>
      obtain ⟨hcur, hh⟩ := hs
      have hacc : accepts a f ↔ f.sequence = p.sequenceCounter := by
        simp [accepts, hcur, hf, hh.sequence]
      by_cases hq : f.sequence = p.sequenceCounter
      · simp only [hacc, hq, if_true]
        have hfin := finishFrame_spec (storePayload_holds hh f) (hcur ▸ hf)
        rwa [show (storePayload a f).currentReceiveCANId = f.canID from hcur] at hfin
      · simp only [hacc, hq, if_false]
        exact ⟨⟨hcur, hh⟩, rfl⟩

section

variable {f : CanMsg} {canID : Nat} {seq : UInt8} {rest : List UInt8}

theorem sequence_of_telegram {b : UInt8} {bs : List UInt8} (h : f.telegram.bytes = b :: bs) :
    f.sequence = b := by
  have h0 : (f.data.toList.take f.len.toNat)[0]? = some b := by
    rw [show f.data.toList.take f.len.toNat = b :: bs from h]
    rfl
  rw [List.getElem?_take] at h0
  split at h0
  · simpa [CanMsg.sequence] using h0
  · cases h0

theorem declaredLen_of_telegram {b hi lo : UInt8} {bs : List UInt8}
    (h : f.telegram.bytes = b :: hi :: lo :: bs) : f.declaredLen = ofBigEndian [hi, lo] := by
  have ht : f.data.toList.take f.len.toNat = b :: hi :: lo :: bs := h
  have h1 : (f.data.toList.take f.len.toNat)[1]? = some hi := by rw [ht]; rfl
  have h2 : (f.data.toList.take f.len.toNat)[2]? = some lo := by rw [ht]; rfl
  rw [List.getElem?_take] at h1 h2
  split at h1
  · split at h2
    · have e1 : f.data[1] = hi := by simpa using h1
      have e2 : f.data[2] = lo := by simpa using h2
      simp [CanMsg.declaredLen, e1, e2]
    · cases h2
  · cases h1

theorem len_of_telegram (hv : f.Valid) : f.len = (f.telegram.bytes.length : Nat) := by
  obtain ⟨_, h0, h8⟩ := hv
  simp only [CanMsg.telegram, List.length_take, Vector.length_toList]
  omega

structure Expects (p : Partial) (seq : UInt8) (rest : List UInt8) : Prop where
  sequence : p.sequenceCounter = seq
  received : p.bytesReceived = p.data.length
  len : p.len = p.data.length + rest.length
  small : p.len < 65536

theorem finish_of_expects {p : Partial} (canID k : Nat) (hp : Expects p seq rest)
    (hlen : (p.bytesReceived + f.len - f.userDataBegin : Int) =
      (p.data.length + (rest.take k).length : Nat))
    (hpay : f.payload = rest.take k) :
    (rest.drop k = [] ∧
      (p.add f).finish canID = (none, some ⟨canID, p.len, p.data ++ rest⟩)) ∨
    rest.drop k ≠ [] ∧ ∃ p', (p.add f).finish canID = (some p', none) ∧
      Expects p' (seq + 1) (rest.drop k) ∧ p'.len = p.len ∧
      p'.data ++ rest.drop k = p.data ++ rest := by
  have hk := List.length_take_le' k rest
  have hbytes : (p.add f).bytesReceived = p.data.length + (rest.take k).length := by
    have hs := hp.small
    have hl := hp.len
    simp only [Partial.add, hlen]
    omega
  have hdata : (p.add f).data = p.data ++ rest.take k := by simp [Partial.add, hpay]
  have hsplit : (rest.take k).length + (rest.drop k).length = rest.length := by
    rw [← List.length_append, List.take_append_drop]
  by_cases hd : rest.drop k = []
  · refine .inl ⟨hd, ?_⟩
    have htake : rest.take k = rest := by
      have h := List.take_append_drop k rest
      rwa [hd, List.append_nil] at h
    have hdone : (p.add f).len ≤ (p.add f).bytesReceived := by
      rw [hbytes, htake]
      exact hp.len.le
    rw [Partial.finish, if_pos hdone, hdata, htake]
    rfl
  · refine .inr ⟨hd, { p.add f with sequenceCounter := (p.add f).sequenceCounter + 1 }, ?_, ?_, ?_, ?_⟩
    · have hmore : ¬ (p.add f).len ≤ (p.add f).bytesReceived := by
        have hpos := List.length_pos_iff.mpr hd
        have hl : (p.add f).len = p.data.length + rest.length := hp.len
        omega
      rw [Partial.finish, if_neg hmore]
    · refine ⟨?_, ?_, ?_, hp.small⟩
      · simp [Partial.add, hp.sequence]
      · simp only [hbytes, hdata, List.length_append]
      · have hl : (p.add f).len = p.data.length + rest.length := hp.len
        simp only [hl, hdata, List.length_append]
        omega
    · rfl
    · simp only [hdata, List.append_assoc, List.take_append_drop]

theorem feed_continued {p : Partial} (hv : f.Valid) (hp : Expects p seq rest) (hseq : 0 < seq.toNat)
    (hf : f.telegram = ⟨canID, seq :: [] ++ rest.take 7⟩) :
    (rest.drop 7 = [] ∧ feed (some p) f = (none, some ⟨canID, p.len, p.data ++ rest⟩)) ∨
    rest.drop 7 ≠ [] ∧ ∃ p', feed (some p) f = (some p', none) ∧
      Expects p' (seq + 1) (rest.drop 7) ∧ p'.len = p.len ∧
      p'.data ++ rest.drop 7 = p.data ++ rest := by
  have hbytes : f.telegram.bytes = seq :: rest.take 7 := by rw [hf]; rfl
  have hs := sequence_of_telegram hbytes
  have hne : f.sequence ≠ 0 := by
    rw [hs]
    rintro rfl
    simp at hseq
  have hbegin : f.userDataBegin = 1 := if_neg hne
  have hlen := len_of_telegram hv
  rw [hbytes, List.length_cons] at hlen
  have hpay : f.payload = rest.take 7 := by
    rw [CanMsg.payload, hbegin, show f.data.toList.take f.len.toNat = seq :: rest.take 7 from hbytes]
    rfl
  have hid : f.canID = canID := congrArg Telegram.canID hf
  rw [feed, if_neg hne]
  simp only [hs, hp.sequence, if_true, hid]
  refine finish_of_expects canID 7 hp ?_ hpay
  rw [hp.received, hlen, hbegin]
  omega

theorem reassemble_frameLoop (fuel : Nat) {p : Partial} {fs : List CanMsg} (hp : Expects p seq rest)
    (hrest : rest ≠ []) (hfuel : rest.length ≤ fuel) (hseq : 0 < seq.toNat)
    (hmax : rest.length ≤ 7 * (256 - seq.toNat)) (hv : ∀ f ∈ fs, f.Valid)
    (hfs : fs.map CanMsg.telegram = frameLoop canID fuel seq [] rest) :
    reassemble (some p) fs = (none, [⟨canID, p.len, p.data ++ rest⟩]) ∧
      ∀ g g', fs = g ++ g' → g' ≠ [] → ∃ p', reassemble (some p) g = (some p', []) := by
  induction fuel generalizing p fs seq rest with
  | zero =>
    have := List.length_pos_iff.mpr hrest
    omega
  | succ fuel ih =>
    rw [frameLoop, if_neg hrest] at hfs
    obtain ⟨f, fs, rfl, hf, hrec⟩ := List.map_eq_cons_iff.mp hfs
    have hvf := hv f List.mem_cons_self
    obtain ⟨hd, hfeed⟩ | ⟨hd, p', hfeed, hp', hl, hdata⟩ := feed_continued hvf hp hseq hf
    · have hnil : fs = [] := by
        have hnone : frameLoop canID fuel (seq + 1) [] (rest.drop 7) = [] := by
          cases fuel <;> simp [frameLoop, hd]
        apply List.map_eq_nil_iff.mp
        rw [hrec]
        exact hnone
      subst hnil
      refine ⟨by simp [reassemble, hfeed], ?_⟩
      intro g g' hg hne
      cases g with
      | nil => exact ⟨p, rfl⟩
      | cons x g =>
        have := congrArg List.length hg
        have := List.length_pos_iff.mpr hne
        simp only [List.length_cons, List.length_nil, List.length_append] at *
        omega
    · have hpos := List.length_pos_iff.mpr hd
      rw [List.length_drop] at hpos
      have hnext : (seq + 1).toNat = seq.toNat + 1 := by
        rw [UInt8.toNat_add]
        have h1 : (1 : UInt8).toNat = 1 := rfl
        omega
      have hrec' := ih hp' hd (by rw [List.length_drop]; omega) (by omega)
        (by rw [List.length_drop, hnext]; omega) (fun x hx => hv x (List.mem_cons_of_mem f hx)) hrec
      refine ⟨?_, ?_⟩
      · rw [reassemble, hfeed, hrec'.1, hl, hdata]
        rfl
      · intro g g' hg hne
        cases g with
        | nil => exact ⟨p, rfl⟩
        | cons x g =>
          rw [List.cons_append, List.cons.injEq] at hg
          obtain ⟨rfl, hg⟩ := hg
          obtain ⟨q, hq⟩ := hrec'.2 g g' hg hne
          exact ⟨q, by simp [reassemble, hfeed, hq]⟩

end

section

variable {m : NetworkMessage} {fs : List CanMsg}

def delivery (m : NetworkMessage) : Delivery := ⟨canId m, getLen m, userData m⟩

/-- The first frame of a message starts it anew, whatever came before. -/
theorem feed_first {f : CanMsg} (hv : f.Valid) (s : Option Partial)
    (hlen : getLen m ≤ maxNetworkMessageLength)
    (hf : f.telegram = ⟨canId m, 0 :: toBigEndian 2 (getLen m) ++ (userData m).take 5⟩) :
    ((userData m).drop 5 = [] ∧ feed s f = (none, some (delivery m))) ∨
    (userData m).drop 5 ≠ [] ∧ ∃ p', feed s f = (some p', none) ∧
      Expects p' 1 ((userData m).drop 5) ∧ p'.len = getLen m ∧
      p'.data ++ (userData m).drop 5 = userData m := by
  have hbytes : f.telegram.bytes = 0 :: UInt8.ofNat (getLen m / 256) :: UInt8.ofNat (getLen m) ::
      (userData m).take 5 := by rw [hf]; rfl
  have hs := sequence_of_telegram hbytes
  have hbegin : f.userDataBegin = 3 := if_pos hs
  have hdecl : f.declaredLen = getLen m := by
    rw [declaredLen_of_telegram hbytes]
    refine (ofBigEndian_toBigEndian 2 (getLen m)).trans (Nat.mod_eq_of_lt ?_)
    simp only [maxNetworkMessageLength] at hlen
    omega
  have hl := len_of_telegram hv
  rw [hbytes] at hl
  simp only [List.length_cons] at hl
  have hpay : f.payload = (userData m).take 5 := by
    rw [CanMsg.payload, hbegin, show f.data.toList.take f.len.toNat = _ from hbytes]
    rfl
  have hid : f.canID = canId m := congrArg Telegram.canID hf
  have hp : Expects ⟨f.declaredLen, [], 0, 0⟩ 0 (userData m) := by
    refine ⟨rfl, rfl, ?_, declaredLen_lt f⟩
    simp [hdecl, userData]
  have hcount : ((0 : Nat) + f.len - f.userDataBegin : Int) =
      (([] : List UInt8).length + ((userData m).take 5).length : Nat) := by
    rw [hl, hbegin, List.length_nil]
    omega
  have hfin := finish_of_expects (canId m) 5 hp hcount hpay
  unfold feed
  rw [if_pos hs, hid]
  simpa [delivery, hdecl] using hfin

theorem reassemble_telegrams (s : Option Partial) (h1 : 1 ≤ getLen m)
    (hlen : getLen m ≤ maxNetworkMessageLength) (hv : ∀ f ∈ fs, f.Valid)
    (hfs : fs.map CanMsg.telegram = telegrams m) :
    reassemble s fs = (none, [delivery m]) ∧
      ∀ g g', fs = g ++ g' → g ≠ [] → g' ≠ [] → ∃ p', reassemble s g = (some p', []) := by
  have hdata : (userData m).length = getLen m := by simp [userData]
  have hne : userData m ≠ [] := by
    intro h
    rw [h] at hdata
    simp at hdata
    omega
  rw [telegrams] at hfs
  obtain ⟨k, hk⟩ := Nat.exists_eq_add_of_le' h1
  rw [show frameLoop (canId m) (getLen m) 0 (toBigEndian 2 (getLen m)) (userData m) =
    frameLoop (canId m) (k + 1) 0 (toBigEndian 2 (getLen m)) (userData m) by rw [hk],
    frameLoop, if_neg hne, length_toBigEndian] at hfs
  obtain ⟨f, fs, rfl, hf, hrec⟩ := List.map_eq_cons_iff.mp hfs
  have hvf := hv f List.mem_cons_self
  obtain ⟨hd, hfeed⟩ | ⟨hd, p', hfeed, hp', hl, hall⟩ := feed_first hvf s hlen hf
  · have hnil : fs = [] := by
      have hnone : frameLoop (canId m) k (0 + 1) [] ((userData m).drop 5) = [] := by
        cases k <;> simp [frameLoop, hd]
      apply List.map_eq_nil_iff.mp
      rw [hrec]
      exact hnone
    subst hnil
    refine ⟨by simp [reassemble, hfeed], ?_⟩
    intro g g' hg hne1 hne2
    have := congrArg List.length hg
    have := List.length_pos_iff.mpr hne1
    have := List.length_pos_iff.mpr hne2
    simp only [List.length_cons, List.length_nil, List.length_append] at *
    omega
  · simp only [maxNetworkMessageLength] at hlen
    have hrec' := reassemble_frameLoop k hp' hd (by rw [List.length_drop]; omega) (by decide)
      (by rw [List.length_drop, show (1 : UInt8).toNat = 1 from rfl]; omega)
      (fun x hx => hv x (List.mem_cons_of_mem f hx)) hrec
    refine ⟨?_, ?_⟩
    · rw [reassemble, hfeed, hrec'.1, hl, hall]
      rfl
    · intro g g' hg hne1 hne2
      cases g with
      | nil => exact absurd rfl hne1
      | cons x g =>
        rw [List.cons_append, List.cons.injEq] at hg
        obtain ⟨rfl, hg⟩ := hg
        obtain ⟨q, hq⟩ := hrec'.2 g g' hg hne2
        exact ⟨q, by simp [reassemble, hfeed, hq]⟩

theorem reassemble_messages {ms : List NetworkMessage}
    (hms : ∀ m ∈ ms, 1 ≤ getLen m ∧ getLen m ≤ maxNetworkMessageLength) (hv : ∀ f ∈ fs, f.Valid)
    (hfs : fs.map CanMsg.telegram = ms.flatMap telegrams) :
    reassemble none fs = (none, ms.map delivery) := by
  induction ms generalizing fs with
  | nil =>
    obtain rfl : fs = [] := by simpa using hfs
    rfl
  | cons m ms ih =>
    rw [List.flatMap_cons] at hfs
    obtain ⟨f1, f2, rfl, h1, h2⟩ := List.map_eq_append_iff.mp hfs
    obtain ⟨hm1, hm2⟩ := hms m List.mem_cons_self
    rw [reassemble_append, (reassemble_telegrams none hm1 hm2
      (fun f hf => hv f (List.mem_append_left f2 hf)) h1).1,
      ih (fun x hx => hms x (List.mem_cons_of_mem m hx))
        (fun f hf => hv f (List.mem_append_right f1 hf)) h2]
    rfl

end

end Rodos.CanReassembly
