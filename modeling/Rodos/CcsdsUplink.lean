import Rodos.CcsdsEnvelop

namespace Rodos.CcsdsUplink

open ByteMemory BitMemory CcsdsHeaders CcsdsEnvelop UplinkEnvelop

/-- What the user does with a packet: it is committed with some bytes, or given
up after some have been written. -/
inductive Op
  | packet (header : UplinkSPHeader) (data : List UInt8)
  | aborted (header : UplinkSPHeader) (data : List UInt8)

def fill (e : UplinkEnvelop) (header : UplinkSPHeader) (data : List UInt8) (len : Nat) :
    UplinkEnvelop :=
  { e with
    spHeader := header
    buf := write e.buf e.userDataBuf data
    lenOfCurrentUserData := len }

def perform (e : UplinkEnvelop) : Op → UplinkEnvelop
  | .packet header data => (fill e.beginNewSP.2 header data data.length).commitSP
  | .aborted header data => (fill e.beginNewSP.2 header data 0).commitSP

def Allowed (e : UplinkEnvelop) : Op → Prop
  | .packet header data => 1 ≤ data.length ∧ data.length ≤ e.beginNewSP.1 ∧
      UplinkSPHeader.codec.InWidths header ∧ header.applicationId ≠ 0x7ff
  | .aborted _ data => data.length ≤ e.beginNewSP.1

instance (e : UplinkEnvelop) : (op : Op) → Decidable (Allowed e op)
  | .packet _ _ => inferInstanceAs (Decidable (_ ∧ _ ∧ _ ∧ _))
  | .aborted _ _ => inferInstanceAs (Decidable (_ ≤ _))

def AllAllowed : UplinkEnvelop → List Op → Prop
  | _, [] => True
  | e, op :: ops => Allowed e op ∧ AllAllowed (perform e op) ops

structure Packet where
  header : UplinkSPHeader
  data : List UInt8

def packetOf (header : UplinkSPHeader) (data : List UInt8) : Packet :=
  ⟨{ header with length := .ofNat (data.length + 3) }, data⟩

def committed : Op → Option Packet
  | .packet header data => some (packetOf header data)
  | .aborted _ _ => none

/-- The calls of `checkoutNextSP` return true once for each of the packets, with
its header and its data, and then false. -/
inductive Delivers : UplinkEnvelop → List Packet → Prop
  | nil {e : UplinkEnvelop} : e.checkoutNextSP.1 = false → Delivers e []
  | cons {e e' : UplinkEnvelop} {p : Packet} {packets : List Packet} :
      e.checkoutNextSP = (true, e') → e'.spHeader = p.header →
      e'.lenOfCurrentUserData = p.data.length →
      read e'.buf e'.userDataBuf e'.lenOfCurrentUserData = p.data →
      Delivers e' packets → Delivers e (p :: packets)

def size (p : Packet) : Nat := UplinkSPHeader.headerSize + p.data.length

structure Holds (view : Nat → UInt8) (p : Packet) : Prop where
  header : UplinkSPHeader.deserialize view = p.header
  length : p.header.length.toNat = p.data.length + 3
  data : read view UplinkSPHeader.headerSize p.data.length = p.data
  notIdle : p.header.applicationId ≠ 0x7ff

theorem Holds.congr {view view' : Nat → UInt8} {p : Packet}
    (h : ∀ i < size p, view i = view' i) (hp : Holds view p) : Holds view' p := by
  have hheader : UplinkSPHeader.deserialize view = UplinkSPHeader.deserialize view' :=
    UplinkSPHeader.codec.deserialize_congr fun i hi => h i (Nat.lt_add_right _ hi)
  have hdata : read view UplinkSPHeader.headerSize p.data.length =
      read view' UplinkSPHeader.headerSize p.data.length :=
    (read_eq_iff _ _ _ _).mpr fun i hi => h _ (Nat.add_lt_add_left hi _)
  exact ⟨hheader ▸ hp.header, hp.length, hdata ▸ hp.data, hp.notIdle⟩

structure Built (e : UplinkEnvelop) (packets : List Packet) : Prop where
  index_le : e.indexOfCurrentSP ≤ 1022
  len_eq : e.lenOfCurrentTF = e.indexOfCurrentSP + UplinkTFTrailer.headerSize
  chain : Chain size Holds e.buf UplinkTFHeader.headerSize packets e.indexOfCurrentSP

section Ground

variable {e : UplinkEnvelop} {packets : List Packet}

theorem built_beginNewTF (e : UplinkEnvelop) : Built e.beginNewTF [] :=
  ⟨Nat.le_of_lt_succ (by decide : 6 < 1023), rfl, .nil _⟩

theorem maxUserLen_eq (h : e.indexOfCurrentSP ≤ 1022) :
    e.maxUserLen = 1012 - e.indexOfCurrentSP := by
  simp only [maxUserLen, uint16, tfMaxLen, UplinkSPHeader.headerSize, UplinkTFTrailer.headerSize]
  omega

theorem userData_eq (h : e.indexOfCurrentSP ≤ 1022) :
    uint16 (e.indexOfCurrentSP + UplinkSPHeader.headerSize) = e.indexOfCurrentSP + 10 :=
  uint16_eq rfl (by omega)

theorem perform_aborted (h : e.indexOfCurrentSP ≤ 1022) (header : UplinkSPHeader)
    (data : List UInt8) :
    perform e (.aborted header data) = { e with
      indexOfCurrentUserData := e.indexOfCurrentSP + 10
      userDataBuf := e.indexOfCurrentSP + 10
      lenOfCurrentSP := 0
      lenOfCurrentUserData := 0
      spHeader := header
      buf := write e.buf (e.indexOfCurrentSP + 10) data } := by
  simp [perform, fill, beginNewSP, commitSP, userData_eq h]

theorem perform_packet (h : e.indexOfCurrentSP ≤ 1022)
    (hlen : e.lenOfCurrentTF = e.indexOfCurrentSP + UplinkTFTrailer.headerSize)
    (header : UplinkSPHeader) {data : List UInt8} (hpos : 1 ≤ data.length)
    (hfit : data.length ≤ e.maxUserLen) :
    perform e (.packet header data) = { e with
      indexOfCurrentUserData := e.indexOfCurrentSP + 10
      userDataBuf := e.indexOfCurrentSP + 10
      lenOfCurrentSP := 10 + data.length
      lenOfCurrentUserData := data.length
      spHeader := (packetOf header data).header
      buf := through (write e.buf (e.indexOfCurrentSP + 10) data) e.indexOfCurrentSP
        (packetOf header data).header.serialize
      indexOfCurrentSP := e.indexOfCurrentSP + (10 + data.length)
      lenOfCurrentTF := e.lenOfCurrentTF + (10 + data.length) } := by
  rw [maxUserLen_eq h] at hfit
  have hne : data.length ≠ 0 := by omega
  have hsize : uint16 (UplinkSPHeader.headerSize + data.length) = 10 + data.length :=
    uint16_eq rfl (by omega)
  have hfield : uint16 ((UplinkSPHeader.headerSize - 6) + data.length - 1) = data.length + 3 := by
    simp only [uint16, UplinkSPHeader.headerSize]
    omega
  have hindex : uint16 (e.indexOfCurrentSP + (10 + data.length : Nat)) =
      e.indexOfCurrentSP + (10 + data.length) := uint16_eq rfl (by omega)
  have hframe : uint16 (e.lenOfCurrentTF + (10 + data.length : Nat)) =
      e.lenOfCurrentTF + (10 + data.length) :=
    uint16_eq rfl (by simp only [hlen, UplinkTFTrailer.headerSize]; omega)
  simp only [perform, fill, beginNewSP, commitSP, userData_eq h, if_neg hne, hsize, hfield, hindex,
    hframe, packetOf]

theorem inWidths_length {header : UplinkSPHeader} (h : UplinkSPHeader.codec.InWidths header)
    (length : UInt16) :
    UplinkSPHeader.codec.InWidths { header with length := length } := by
  have hlength : length.toNat < 65536 := length.toNat_lt
  simp only [Codec.InWidths, UplinkSPHeader.codec, List.zip_cons_cons, List.zip_nil_right,
    List.forall_mem_cons, Nat.reducePow] at h ⊢
  simp_all

theorem holds_serialize (m : Nat → UInt8) (place : Nat) {p : Packet}
    (hwidths : UplinkSPHeader.codec.InWidths p.header)
    (hlength : p.header.length.toNat = p.data.length + 3)
    (hidle : p.header.applicationId ≠ 0x7ff) :
    Holds (pointer (through (write m (place + 10) p.data) place p.header.serialize) place) p := by
  rw [pointer_through]
  refine ⟨?_, hlength, ?_, hidle⟩
  · exact (UplinkSPHeader.codec.deserialize_serialize _ _).trans
      (UplinkSPHeader.codec.trimmed_eq hwidths)
  · have hbehind : read (p.header.serialize (pointer (write m (place + 10) p.data) place)) 10
        p.data.length = read (pointer (write m (place + 10) p.data) place) 10 p.data.length :=
      (read_eq_iff _ _ _ _).mpr fun i _ =>
        UplinkSPHeader.codec.serialize_outside _ _ (Nat.le_add_right 10 i)
    rw [UplinkSPHeader.headerSize, hbehind, read_pointer]
    exact read_write m (place + 10) p.data

theorem Built.aborted (h : Built e packets) (header : UplinkSPHeader) (data : List UInt8) :
    Built (perform e (.aborted header data)) packets := by
  rw [perform_aborted h.index_le]
  refine ⟨h.index_le, h.len_eq, h.chain.congr (fun _ _ _ => Holds.congr) fun i _ hi => ?_⟩
  exact (write_outside _ _ _ _ (.inl (Nat.lt_add_right 10 hi))).symm

theorem Built.packet (h : Built e packets) {header : UplinkSPHeader} {data : List UInt8}
    (hop : Allowed e (.packet header data)) :
    Built (perform e (.packet header data)) (packets ++ [packetOf header data]) := by
  obtain ⟨hpos, hfit, hwidths, hidle⟩ := hop
  have hindex := h.index_le
  have hroom : data.length ≤ 1012 - e.indexOfCurrentSP := maxUserLen_eq hindex ▸ hfit
  have hlength : (UInt16.ofNat (data.length + 3)).toNat = data.length + 3 :=
    UInt16.toNat_ofNat_of_lt' (by simp only [UInt16.size]; omega)
  have hholds := holds_serialize e.buf e.indexOfCurrentSP (p := packetOf header data)
    (inWidths_length hwidths _) hlength hidle
  have hkept : Chain size Holds (through (write e.buf (e.indexOfCurrentSP + 10) data)
      e.indexOfCurrentSP (packetOf header data).header.serialize) UplinkTFHeader.headerSize packets
      e.indexOfCurrentSP := h.chain.congr (fun _ _ _ => Holds.congr) fun i _ hi => by
    rw [through_before hi, write_outside _ _ _ _ (.inl (Nat.lt_add_right 10 hi))]
  rw [perform_packet hindex h.len_eq header hpos hfit]
  refine ⟨?_, ?_, hkept.concat hholds⟩
  · change e.indexOfCurrentSP + (10 + data.length) ≤ 1022
    omega
  · change e.lenOfCurrentTF + (10 + data.length) = _
    rw [h.len_eq, Nat.add_right_comm]

theorem Built.perform (h : Built e packets) {op : Op} (hop : Allowed e op) :
    Built (perform e op) (packets ++ (committed op).toList) := by
  cases op with
  | packet header data => exact h.packet hop
  | aborted header data =>
    rw [committed, Option.toList_none, List.append_nil]
    exact h.aborted header data

theorem Built.performAll (h : Built e packets) {ops : List Op} (hops : AllAllowed e ops) :
    Built (ops.foldl CcsdsUplink.perform e) (packets ++ ops.filterMap committed) := by
  induction ops generalizing e packets with
  | nil => simpa using h
  | cons op ops ih =>
    have hnext := ih (h.perform hops.1) hops.2
    rw [List.append_assoc] at hnext
    cases op with
    | packet header data => exact hnext
    | aborted header data => exact hnext

end Ground

section Frame

structure Frame (m : Nat → UInt8) (packets : List Packet) (len : Nat) : Prop where
  min_le : 8 ≤ len
  le_max : len ≤ tfMaxLen
  frameLength : (UplinkTFHeader.deserialize m).frameLength.toNat = len - 1
  crc : (UplinkTFTrailer.deserialize (pointer m (len - 2))).crc =
    Crc.computeCRC (read m 0 (len - 2)) crcSeed
  chain : Chain size Holds m UplinkTFHeader.headerSize packets (len - 2)

theorem Frame.congr {m m' : Nat → UInt8} {packets : List Packet} {len : Nat}
    (h : Frame m packets len) (hm : ∀ i < len, m i = m' i) : Frame m' packets len := by
  have hlen := h.min_le
  have hheader : UplinkTFHeader.deserialize m = UplinkTFHeader.deserialize m' :=
    UplinkTFHeader.codec.deserialize_congr fun i hi =>
      hm i (Nat.lt_of_lt_of_le (Nat.lt_add_right 2 hi) hlen)
  have htrailer : UplinkTFTrailer.deserialize (pointer m (len - 2)) =
      UplinkTFTrailer.deserialize (pointer m' (len - 2)) :=
    UplinkTFTrailer.codec.deserialize_congr fun i hi => hm _ (by
      change i < 2 at hi
      omega)
  have hread : read m 0 (len - 2) = read m' 0 (len - 2) :=
    (read_eq_iff _ _ _ _).mpr fun i hi => hm _ (by omega)
  refine ⟨h.min_le, h.le_max, hheader ▸ h.frameLength, htrailer ▸ hread ▸ h.crc, ?_⟩
  exact h.chain.congr (fun _ _ _ => Holds.congr) fun i _ hi => hm i (by omega)

theorem trimmed_frameLength {header : UplinkTFHeader} {n : Nat} (hn : n < 1024)
    (h : header.frameLength = .ofNat n) :
    (UplinkTFHeader.codec.trimmed header).frameLength.toNat = n := by
  change (UInt16.ofNat (header.frameLength.toNat % 2 ^ 10)).toNat = n
  rw [h, UInt16.toNat_ofNat', UInt16.toNat_ofNat']
  omega

theorem deserialize_serialize_trailer (t : UplinkTFTrailer) (m : Nat → UInt8) :
    UplinkTFTrailer.deserialize (t.serialize m) = t := by
  have hwidths : UplinkTFTrailer.codec.InWidths t := by
    simpa [Codec.InWidths, UplinkTFTrailer.codec] using t.crc.toNat_lt
  exact (UplinkTFTrailer.codec.deserialize_serialize t m).trans
    (UplinkTFTrailer.codec.trimmed_eq hwidths)

/-- The header in front of the packets and the trailer behind them, the second
time with the checksum of what is before it. -/
theorem frame_sealed {m : Nat → UInt8} {packets : List Packet} {stop : Nat}
    (h : Chain size Holds m UplinkTFHeader.headerSize packets stop) (hstop : stop ≤ 1022)
    {header : UplinkTFHeader} (hheader : header.frameLength = .ofNat (stop + 1))
    (t : UplinkTFTrailer) {t' : UplinkTFTrailer}
    (ht : t'.crc = Crc.computeCRC
      (read (through (header.serialize m) stop t.serialize) 0 stop) crcSeed) :
    Frame (through (through (header.serialize m) stop t.serialize) stop t'.serialize) packets
      (stop + 2) := by
  have hstart : 6 ≤ stop := h.le
  have hbefore : ∀ i < stop,
      through (through (header.serialize m) stop t.serialize) stop t'.serialize i =
        header.serialize m i := by
    intro i hi
    rw [through_before hi, through_before hi]
  refine ⟨Nat.add_le_add_right hstart 2, Nat.add_le_add_right hstop 2, ?_, ?_, ?_⟩
  · have hfirst : UplinkTFHeader.deserialize
        (through (through (header.serialize m) stop t.serialize) stop t'.serialize) =
        UplinkTFHeader.codec.trimmed header :=
      (UplinkTFHeader.codec.deserialize_congr fun i hi =>
        hbefore i (Nat.lt_of_lt_of_le hi hstart)).trans
        (UplinkTFHeader.codec.deserialize_serialize header m)
    rw [hfirst, trimmed_frameLength (by omega) hheader]
    rfl
  · have hread : read (through (through (header.serialize m) stop t.serialize) stop t'.serialize)
        0 stop = read (through (header.serialize m) stop t.serialize) 0 stop :=
      (read_eq_iff _ _ _ _).mpr fun i hi => through_before (by omega)
    rw [Nat.add_sub_cancel, pointer_through, deserialize_serialize_trailer, ht, hread]
  · refine h.congr (fun _ _ _ => Holds.congr) fun i hi hlt => ?_
    rw [hbefore i hlt]
    exact (UplinkTFHeader.codec.serialize_outside _ _ hi).symm

theorem Built.commitTF {e : UplinkEnvelop} {packets : List Packet} (h : Built e packets) :
    Frame e.commitTF.buf packets e.commitTF.lenOfCurrentTF := by
  have hindex := h.index_le
  have hlen : e.lenOfCurrentTF = e.indexOfCurrentSP + 2 := h.len_eq
  have hfield : uint16 (e.lenOfCurrentTF - 1) = e.indexOfCurrentSP + 1 :=
    uint16_eq (by omega) (by omega)
  have hplace : e.lenOfCurrentTF - UplinkTFTrailer.headerSize = e.indexOfCurrentSP := by
    rw [hlen]
    rfl
  have hcrc : e.lenOfCurrentTF - 2 = e.indexOfCurrentSP := hplace
  simp only [UplinkEnvelop.commitTF, hfield, hplace, CCSDSEnvelop.crc, hcrc]
  rw [hlen]
  exact frame_sealed h.chain hindex rfl e.tfTrailer rfl

end Frame

section Spacecraft

theorem checkoutTF_eq {r : UplinkEnvelop} {packets : List Packet} {len : Nat}
    (h : Frame r.buf packets len) :
    r.checkoutTF = (true, { r with
      indexOfCurrentSP := 0
      tfHeader := UplinkTFHeader.deserialize r.buf
      lenOfCurrentTF := len
      tfTrailer := UplinkTFTrailer.deserialize (pointer r.buf (len - 2)) }) := by
  have hmin := h.min_le
  have hmax : len ≤ 1024 := h.le_max
  have hlen : uint16 ((UplinkTFHeader.deserialize r.buf).frameLength.toNat + 1) = len :=
    uint16_eq (by rw [h.frameLength]; omega) (by omega)
  have hview : r.view (len - UplinkTFTrailer.headerSize) = pointer r.buf (len - 2) := by
    rw [← view_eq]
    congr 1
    simp only [UplinkTFTrailer.headerSize]
    omega
  have hcrc := h.crc
  simp only [checkoutTF, hlen, hview, CCSDSEnvelop.crc, hcrc, tfMaxLen, UplinkTFHeader.headerSize]
  rw [if_neg (by omega), if_neg (by omega)]
  simp

def next (e : UplinkEnvelop) : Nat :=
  if e.indexOfCurrentSP = 0 then UplinkTFHeader.headerSize
  else uint16 (e.indexOfCurrentSP + e.lenOfCurrentSP)

theorem checkoutNextSP_packet {e : UplinkEnvelop} {p : Packet}
    (hp : Holds (pointer e.buf (next e)) p) (hend : next e + size p + 2 ≤ e.lenOfCurrentTF)
    (hmax : e.lenOfCurrentTF ≤ 1024) :
    e.checkoutNextSP = (true, { e with
      indexOfCurrentSP := next e
      spHeader := p.header
      lenOfCurrentUserData := p.data.length
      lenOfCurrentSP := size p
      indexOfCurrentUserData := next e + 10
      userDataBuf := next e + 10 }) := by
  have hsize : size p = 10 + p.data.length := rfl
  have hdata : uint16 (p.header.length.toNat + 1 - (UplinkSPHeader.headerSize - 6)) =
      p.data.length := by
    rw [hp.length]
    simp only [uint16, UplinkSPHeader.headerSize]
    omega
  have hlen : uint16 (p.data.length + UplinkSPHeader.headerSize) = size p :=
    uint16_eq (by rw [hsize]; simp only [UplinkSPHeader.headerSize]; omega) (by omega)
  have hplace : uint16 (next e + UplinkSPHeader.headerSize) = next e + 10 :=
    uint16_eq rfl (by omega)
  rw [checkoutNextSP]
  simp only [← next.eq_1, hp.header, hdata, hlen, hplace]
  rw [if_neg (by simp only [UplinkSPHeader.headerSize, UplinkTFTrailer.headerSize]; omega),
    if_neg (not_or.mpr ⟨hp.notIdle, by omega⟩)]

theorem delivers_chain {m : Nat → UInt8} {place stop : Nat} {packets : List Packet}
    (h : Chain size Holds m place packets stop) (hplace : 0 < place) (hmax : stop ≤ 1022)
    {e : UplinkEnvelop} (hbuf : e.buf = m) (hnext : next e = place) (hlen : e.lenOfCurrentTF = stop + 2) :
    Delivers e packets := by
  induction h generalizing e with
  | nil place =>
    apply Delivers.nil
    rw [next] at hnext
    simp only [checkoutNextSP, hnext, hlen, UplinkSPHeader.headerSize, UplinkTFTrailer.headerSize]
    rw [if_pos (by omega)]
  | @cons place stop p packets hp hrest ih =>
    subst hbuf hnext
    have hle := hrest.le
    refine .cons (checkoutNextSP_packet hp (by omega) (by omega)) rfl rfl ?_
      (ih (by omega) hmax rfl ?_ hlen)
    · rw [← read_pointer]
      exact hp.data
    · exact (if_neg (Nat.pos_iff_ne_zero.mp hplace)).trans (uint16_eq rfl (by omega))

end Spacecraft

/-- Every frame that is built from committed packets, with others given up in
between, is accepted, and its packets are delivered. -/
theorem uplink_delivers (e r : UplinkEnvelop) (ops : List Op) (h : AllAllowed e.beginNewTF ops)
    (hbuf : ∀ i < (ops.foldl perform e.beginNewTF).commitTF.lenOfCurrentTF,
      r.buf i = (ops.foldl perform e.beginNewTF).commitTF.buf i) :
    r.checkoutTF.1 = true ∧ Delivers r.checkoutTF.2 (ops.filterMap committed) := by
  have hbuilt := (built_beginNewTF e).performAll h
  rw [List.nil_append] at hbuilt
  have hframe := hbuilt.commitTF.congr fun i hi => (hbuf i hi).symm
  have hmax : (ops.foldl perform e.beginNewTF).commitTF.lenOfCurrentTF ≤ 1024 := hframe.le_max
  have hmin := hframe.min_le
  rw [checkoutTF_eq hframe]
  refine ⟨rfl, delivers_chain hframe.chain (by decide) (by omega) rfl rfl ?_⟩
  simp only
  omega

section

def empty : UplinkEnvelop where
  inFront := 0
  buf _ := 0
  indexOfCurrentUserData := 0
  lenOfCurrentTF := 0
  lenOfCurrentSP := 0
  lenOfCurrentUserData := 0
  indexOfCurrentSP := 0
  userDataBuf := 0
  tfHeader := ⟨0, 1, 1, 0, 77, 0, 7, 0, 3, 3⟩
  spHeader := ⟨0, 1, 1, 0, 3, 0, 9, 0, 1, 1, 0, 0, 0⟩
  tfTrailer := ⟨0⟩

def command : UplinkSPHeader := ⟨0, 1, 1, 5, 3, 9, 0, 0, 1, 1, 8, 2, 0⟩

/-- A packet of two bytes, one that is given up, and one of a single byte. -/
theorem uplink_delivers_two :
    let ops := [Op.packet command [0xab, 0xff], .aborted command [1, 2, 3], .packet command [7]]
    let sender := (ops.foldl perform empty.beginNewTF).commitTF
    sender.checkoutTF.1 = true ∧ Delivers sender.checkoutTF.2 (ops.filterMap committed) := by
  refine uplink_delivers empty _ _ ?_ (fun i _ => rfl)
  refine ⟨?_, ?_, ?_, trivial⟩
  · decide
  · decide
  · decide

end

end Rodos.CcsdsUplink
