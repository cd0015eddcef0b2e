import Rodos.CcsdsEnvelop

namespace Rodos.CcsdsDownlink

open ByteMemory BitMemory CcsdsHeaders CcsdsEnvelop DownlinkEnvelop

/-- What the user does with a packet: it is committed with some bytes, or given
up after some have been written. -/
inductive Op
  | packet (header : DownlinkSPHeader) (data : List UInt8) (now : Stamp)
  | aborted (header : DownlinkSPHeader) (data : List UInt8) (now : Stamp)

/-- The user sets the header, writes to `userDataBuf` and tells how much of it
belongs to the packet. -/
def fill (e : DownlinkEnvelop) (header : DownlinkSPHeader) (data : List UInt8) (len : Nat) :
    DownlinkEnvelop :=
  { e with
    spHeader := header
    buf := write e.buf e.userDataBuf data
    lenOfCurrentUserData := len }

def perform (e : DownlinkEnvelop) : Op → DownlinkEnvelop
  | .packet header data now => (fill e.beginNewSP.2 header data data.length).commitSP now
  | .aborted header data now => (fill e.beginNewSP.2 header data 0).commitSP now

def Allowed (e : DownlinkEnvelop) : Op → Prop
  | .packet header data _ => 1 ≤ data.length ∧ data.length ≤ e.beginNewSP.1 ∧
      DownlinkSPHeader.codec.InWidths header ∧ header.typeId = 0 ∧ header.applicationId ≠ 0x7ff
  | .aborted _ data _ => data.length ≤ e.beginNewSP.1

instance (e : DownlinkEnvelop) : (op : Op) → Decidable (Allowed e op)
  | .packet _ _ _ => inferInstanceAs (Decidable (_ ∧ _ ∧ _ ∧ _ ∧ _))
  | .aborted _ _ _ => inferInstanceAs (Decidable (_ ≤ _))

def AllAllowed : DownlinkEnvelop → List Op → Prop
  | _, [] => True
  | e, op :: ops => Allowed e op ∧ AllAllowed (perform e op) ops

structure Packet where
  header : DownlinkSPHeader
  data : List UInt8

/-- A committed packet has its length, the time and the low bits of the counter
of its application in the header. -/
def packetOf (e : DownlinkEnvelop) (header : DownlinkSPHeader) (data : List UInt8) (now : Stamp) :
    Packet where
  header := { header with
    dataPackLen := .ofNat (data.length + 9)
    timeStampSeconds := now.seconds
    timeStampFraction := now.fraction
    sourceSeqCnt := .ofNat ((e.downlinkApidSequenceCounter header.applicationId.toNat).toNat % 2 ^ 14) }
  data := data

def committed (e : DownlinkEnvelop) : Op → Option Packet
  | .packet header data now => some (packetOf e header data now)
  | .aborted _ _ _ => none

def committedAll : DownlinkEnvelop → List Op → List Packet
  | _, [] => []
  | e, op :: ops => (committed e op).toList ++ committedAll (perform e op) ops

/-- The calls of `checkoutNextSP` return true once for each of the packets, with
its header and its data, and then false. -/
inductive Delivers : DownlinkEnvelop → List Packet → Prop
  | nil {e : DownlinkEnvelop} : e.checkoutNextSP.1 = false → Delivers e []
  | cons {e e' : DownlinkEnvelop} {p : Packet} {packets : List Packet} :
      e.checkoutNextSP = (true, e') → e'.spHeader = p.header →
      e'.lenOfCurrentUserData = p.data.length →
      read e'.buf e'.userDataBuf e'.lenOfCurrentUserData = p.data →
      Delivers e' packets → Delivers e (p :: packets)

def size (p : Packet) : Nat := DownlinkSPHeader.headerSize + p.data.length

structure Holds (view : Nat → UInt8) (p : Packet) : Prop where
  header : DownlinkSPHeader.deserialize view = p.header
  length : p.header.dataPackLen.toNat = p.data.length + 9
  data : read view DownlinkSPHeader.headerSize p.data.length = p.data
  typeId : p.header.typeId = 0
  notIdle : p.header.applicationId ≠ 0x7ff

theorem Holds.congr {view view' : Nat → UInt8} {p : Packet}
    (h : ∀ i < size p, view i = view' i) (hp : Holds view p) : Holds view' p := by
  have hheader : DownlinkSPHeader.deserialize view = DownlinkSPHeader.deserialize view' :=
    DownlinkSPHeader.codec.deserialize_congr fun i hi => h i (Nat.lt_add_right _ hi)
  have hdata : read view DownlinkSPHeader.headerSize p.data.length =
      read view' DownlinkSPHeader.headerSize p.data.length :=
    (read_eq_iff _ _ _ _).mpr fun i hi => h _ (Nat.add_lt_add_left hi _)
  exact ⟨hheader ▸ hp.header, hp.length, hdata ▸ hp.data, hp.typeId, hp.notIdle⟩

structure Built (e : DownlinkEnvelop) (packets : List Packet) : Prop where
  index_le : e.indexOfCurrentSP ≤ 994
  len_eq : e.lenOfCurrentTF = downlinkTfLen
  chain : Chain size Holds e.buf DownlinkTFHeader.headerSize packets e.indexOfCurrentSP

section Spacecraft

variable {e : DownlinkEnvelop} {packets : List Packet}

theorem built_beginNewTF (e : DownlinkEnvelop) : Built e.beginNewTF [] :=
  ⟨Nat.le_of_lt_succ (by decide : 6 < 995), rfl, .nil _⟩

theorem maxUserLen_eq (h : e.indexOfCurrentSP ≤ 994) :
    e.maxUserLen = 978 - e.indexOfCurrentSP := by
  simp only [maxUserLen, uint16, downlinkTfLen, DownlinkSPHeader.headerSize,
    DownlinkTFTrailer.headerSize]
  omega

theorem userData_eq (h : e.indexOfCurrentSP ≤ 994) :
    uint16 (e.indexOfCurrentSP + DownlinkSPHeader.headerSize) = e.indexOfCurrentSP + 16 :=
  uint16_eq rfl (by omega)

theorem perform_aborted (h : e.indexOfCurrentSP ≤ 994) (header : DownlinkSPHeader)
    (data : List UInt8) (now : Stamp) :
    perform e (.aborted header data now) = { e with
      indexOfCurrentUserData := e.indexOfCurrentSP + 16
      userDataBuf := e.indexOfCurrentSP + 16
      lenOfCurrentSP := 0
      lenOfCurrentUserData := 0
      spHeader := header
      buf := write e.buf (e.indexOfCurrentSP + 16) data } := by
  simp [perform, fill, beginNewSP, commitSP, userData_eq h]

theorem commitSP_eq (h : e.indexOfCurrentSP ≤ 994) (hpos : 1 ≤ e.lenOfCurrentUserData)
    (hfit : e.lenOfCurrentUserData ≤ 978 - e.indexOfCurrentSP) (now : Stamp) :
    (e.commitSP now).buf = through e.buf e.indexOfCurrentSP (e.stamped now).serialize ∧
      (e.commitSP now).indexOfCurrentSP =
        e.indexOfCurrentSP + (16 + e.lenOfCurrentUserData) ∧
      (e.commitSP now).lenOfCurrentTF = e.lenOfCurrentTF ∧
      (e.stamped now).dataPackLen = .ofNat (e.lenOfCurrentUserData + 9) := by
  have hne : e.lenOfCurrentUserData ≠ 0 := by omega
  have hsize : uint16 (DownlinkSPHeader.headerSize + e.lenOfCurrentUserData) =
      16 + e.lenOfCurrentUserData := uint16_eq rfl (by omega)
  have hfield : uint16 ((16 + e.lenOfCurrentUserData : Nat) - 6 - 1) =
      e.lenOfCurrentUserData + 9 := uint16_eq (by omega) (by omega)
  have hindex : uint16 (e.indexOfCurrentSP + (16 + e.lenOfCurrentUserData : Nat)) =
      e.indexOfCurrentSP + (16 + e.lenOfCurrentUserData) := uint16_eq rfl (by omega)
  rw [commitSP, stamped]
  simp only [if_neg hne, hsize, hfield, hindex, and_self]

theorem inWidths_packetOf {header : DownlinkSPHeader}
    (h : DownlinkSPHeader.codec.InWidths header) (e : DownlinkEnvelop) (data : List UInt8)
    (now : Stamp) : DownlinkSPHeader.codec.InWidths (packetOf e header data now).header := by
  have hlength : (UInt16.ofNat (data.length + 9)).toNat < 65536 := UInt16.toNat_lt _
  have hseconds : now.seconds.toNat < 4294967296 := now.seconds.toNat_lt
  have hfraction : now.fraction.toNat < 65536 := now.fraction.toNat_lt
  simp only [Codec.InWidths, DownlinkSPHeader.codec, List.zip_cons_cons, List.zip_nil_right,
    List.forall_mem_cons, Nat.reducePow, packetOf] at h ⊢
  simp_all
  omega

theorem applicationId_and {header : DownlinkSPHeader}
    (h : DownlinkSPHeader.codec.InWidths header) :
    (header.applicationId &&& 2047).toNat = header.applicationId.toNat := by
  have hlt : header.applicationId.toNat < 2 ^ 11 :=
    h (11, header.applicationId.toNat) (by simp [DownlinkSPHeader.codec])
  rw [UInt16.toNat_and]
  exact (Nat.and_two_pow_sub_one_eq_mod _ 11).trans (Nat.mod_eq_of_lt hlt)

/-- The header that goes out has the bits that its fields have room for. -/
theorem trimmed_stamped {header : DownlinkSPHeader} (h : DownlinkSPHeader.codec.InWidths header)
    (data : List UInt8) (now : Stamp) (e e' : DownlinkEnvelop) (hheader : e'.spHeader = header)
    (hcounter : e'.downlinkApidSequenceCounter = e.downlinkApidSequenceCounter)
    (hlength : (e'.stamped now).dataPackLen = .ofNat (data.length + 9)) :
    DownlinkSPHeader.codec.trimmed (e'.stamped now) = (packetOf e header data now).header := by
  rw [← DownlinkSPHeader.codec.trimmed_eq (inWidths_packetOf h e data now)]
  have hvalues : DownlinkSPHeader.codec.widths.zipWith (fun n v => v % 2 ^ n)
      (DownlinkSPHeader.codec.values (e'.stamped now)) =
      DownlinkSPHeader.codec.widths.zipWith (fun n v => v % 2 ^ n)
        (DownlinkSPHeader.codec.values (packetOf e header data now).header) := by
    have hseq : (e'.stamped now).sourceSeqCnt.toNat % 2 ^ 14 =
        (packetOf e header data now).header.sourceSeqCnt.toNat % 2 ^ 14 := by
      simp only [stamped, packetOf, hheader, hcounter, applicationId_and h,
        UInt32.toNat_toUInt16, UInt16.toNat_ofNat']
      omega
    simp only [DownlinkSPHeader.codec, List.zipWith_cons_cons, List.zipWith_nil_right, hseq, hlength]
    simp only [stamped, packetOf, hheader]
  rw [Codec.trimmed, hvalues]
  rfl

theorem holds_serialize (m : Nat → UInt8) (place : Nat) {h : DownlinkSPHeader} {p : Packet}
    (htrimmed : DownlinkSPHeader.codec.trimmed h = p.header)
    (hlength : p.header.dataPackLen.toNat = p.data.length + 9)
    (htype : p.header.typeId = 0) (hidle : p.header.applicationId ≠ 0x7ff) :
    Holds (pointer (through (write m (place + 16) p.data) place h.serialize) place) p := by
  rw [pointer_through]
  refine ⟨?_, hlength, ?_, htype, hidle⟩
  · exact (DownlinkSPHeader.codec.deserialize_serialize _ _).trans htrimmed
  · have hbehind : read (h.serialize (pointer (write m (place + 16) p.data) place)) 16
        p.data.length = read (pointer (write m (place + 16) p.data) place) 16 p.data.length :=
      (read_eq_iff _ _ _ _).mpr fun i _ =>
        DownlinkSPHeader.codec.serialize_outside _ _ (Nat.le_add_right 16 i)
    rw [DownlinkSPHeader.headerSize, hbehind, read_pointer]
    exact read_write m (place + 16) p.data

theorem Built.aborted (h : Built e packets) (header : DownlinkSPHeader) (data : List UInt8)
    (now : Stamp) : Built (perform e (.aborted header data now)) packets := by
  rw [perform_aborted h.index_le]
  refine ⟨h.index_le, h.len_eq, h.chain.congr (fun _ _ _ => Holds.congr) fun i _ hi => ?_⟩
  exact (write_outside _ _ _ _ (.inl (Nat.lt_add_right 16 hi))).symm

theorem Built.packet (h : Built e packets) {header : DownlinkSPHeader} {data : List UInt8}
    {now : Stamp} (hop : Allowed e (.packet header data now)) :
    Built (perform e (.packet header data now)) (packets ++ [packetOf e header data now]) := by
  obtain ⟨hpos, hfit, hwidths, htype, hidle⟩ := hop
  have hindex := h.index_le
  have hroom : data.length ≤ 978 - e.indexOfCurrentSP := maxUserLen_eq hindex ▸ hfit
  have hlength : (UInt16.ofNat (data.length + 9)).toNat = data.length + 9 :=
    UInt16.toNat_ofNat_of_lt' (by simp only [UInt16.size]; omega)
  have hfill : (fill e.beginNewSP.2 header data data.length).buf =
      write e.buf (e.indexOfCurrentSP + 16) data := by
    rw [← userData_eq hindex]
    rfl
  obtain ⟨hbuf, hnext, hframe, hfield⟩ :=
    @commitSP_eq (fill e.beginNewSP.2 header data data.length) hindex hpos hroom now
  rw [hfill] at hbuf
  have hholds := holds_serialize e.buf e.indexOfCurrentSP (p := packetOf e header data now)
    (trimmed_stamped hwidths data now e (fill e.beginNewSP.2 header data data.length) rfl rfl
      hfield) hlength htype hidle
  have hkept : Chain size Holds (through (write e.buf (e.indexOfCurrentSP + 16) data)
      e.indexOfCurrentSP ((fill e.beginNewSP.2 header data data.length).stamped now).serialize)
      DownlinkTFHeader.headerSize packets e.indexOfCurrentSP :=
    h.chain.congr (fun _ _ _ => Holds.congr) fun i _ hi => by
      rw [through_before hi, write_outside _ _ _ _ (.inl (Nat.lt_add_right 16 hi))]
  refine ⟨?_, hframe.trans h.len_eq, ?_⟩
  · rw [CcsdsDownlink.perform, hnext]
    change e.indexOfCurrentSP + (16 + data.length) ≤ 994
    omega
  · rw [CcsdsDownlink.perform, hnext, hbuf]
    exact hkept.concat hholds

theorem Built.perform (h : Built e packets) {op : Op} (hop : Allowed e op) :
    Built (perform e op) (packets ++ (committed e op).toList) := by
  cases op with
  | packet header data now => exact h.packet hop
  | aborted header data now =>
    rw [committed, Option.toList_none, List.append_nil]
    exact h.aborted header data now

theorem Built.performAll (h : Built e packets) {ops : List Op} (hops : AllAllowed e ops) :
    Built (ops.foldl CcsdsDownlink.perform e) (packets ++ committedAll e ops) := by
  induction ops generalizing e packets with
  | nil => simpa [committedAll] using h
  | cons op ops ih =>
    have hnext := ih (h.perform hops.1) hops.2
    rwa [List.append_assoc] at hnext

end Spacecraft

section Frame

def Accepted (m : Nat → UInt8) (place : Nat) : Prop :=
  (DownlinkSPHeader.deserialize (pointer m place)).typeId = 0 ∧
    (DownlinkSPHeader.deserialize (pointer m place)).applicationId ≠ 0x7ff ∧
    place + uint16 ((DownlinkSPHeader.deserialize (pointer m place)).dataPackLen.toNat + 6 + 1) ≤
      downlinkTfLen

/-- The packets fill the frame up to where just a header would find place, and
the bytes there, left over from packets that were given up, look like one. -/
def Spurious (e : DownlinkEnvelop) : Prop := e.indexOfCurrentSP = 978 ∧ Accepted e.buf 978

structure Frame (m : Nat → UInt8) (packets : List Packet) (stop : Nat) : Prop where
  stop_le : stop ≤ 994
  crc : (DownlinkTFTrailer.deserialize (pointer m 994)).crc =
    Crc.computeCRC (read m 0 998) crcSeed
  chain : Chain size Holds m DownlinkTFHeader.headerSize packets stop

theorem Frame.congr {m m' : Nat → UInt8} {packets : List Packet} {stop : Nat}
    (h : Frame m packets stop) (hm : ∀ i < downlinkTfLen, m i = m' i) : Frame m' packets stop := by
  have hstop := h.stop_le
  have htrailer : DownlinkTFTrailer.deserialize (pointer m 994) =
      DownlinkTFTrailer.deserialize (pointer m' 994) :=
    DownlinkTFTrailer.codec.deserialize_congr fun i hi => hm _ (Nat.add_lt_add_left hi 994)
  have hread : read m 0 998 = read m' 0 998 :=
    (read_eq_iff _ _ _ _).mpr fun i hi => hm _ (by simp only [downlinkTfLen]; omega)
  refine ⟨h.stop_le, htrailer ▸ hread ▸ h.crc, ?_⟩
  exact h.chain.congr (fun _ _ _ => Holds.congr) fun i _ hi => hm i (by simp only [downlinkTfLen]; omega)

theorem Accepted.congr {m m' : Nat → UInt8} {place : Nat} (h : ∀ i < 16, m (place + i) = m' (place + i)) :
    Accepted m place ↔ Accepted m' place := by
  have hheader : DownlinkSPHeader.deserialize (pointer m place) =
      DownlinkSPHeader.deserialize (pointer m' place) :=
    DownlinkSPHeader.codec.deserialize_congr h
  rw [Accepted, Accepted, hheader]

theorem serialize_trailer (t : DownlinkTFTrailer) (crc : UInt16) (m m' : Nat → UInt8) {i : Nat}
    (hi : i < 4) :
    ({ t with crc := crc } : DownlinkTFTrailer).serialize m i = t.serialize m' i := by
  have hsum : (((DownlinkTFTrailer.codec.widths.zip
      (DownlinkTFTrailer.codec.values t)).take 14).map Prod.fst).sum = 32 := by
    simp [DownlinkTFTrailer.codec]
  refine DownlinkTFTrailer.codec.serialize_front m m'
    ((DownlinkTFTrailer.codec.widths.zip (DownlinkTFTrailer.codec.values t)).take 14)
    [(16, crc.toNat)] [(16, t.crc.toNat)] rfl rfl ?_
  rw [hsum]
  omega

theorem crc_serialize_trailer (t : DownlinkTFTrailer) (m : Nat → UInt8) :
    (DownlinkTFTrailer.deserialize (t.serialize m)).crc = t.crc := by
  have htrimmed : DownlinkTFTrailer.deserialize (t.serialize m) =
      DownlinkTFTrailer.codec.trimmed t := DownlinkTFTrailer.codec.deserialize_serialize t m
  have hlt : t.crc.toNat < 2 ^ 16 := t.crc.toNat_lt
  rw [htrimmed]
  change UInt16.ofNat (t.crc.toNat % 2 ^ 16) = t.crc
  rw [Nat.mod_eq_of_lt hlt, UInt16.ofNat_toNat]

/-- The header in front of the packets and the trailer at the end, the second
time with the checksum of what is before it. -/
theorem frame_sealed {m : Nat → UInt8} {packets : List Packet} {stop : Nat}
    (h : Chain size Holds m DownlinkTFHeader.headerSize packets stop) (hstop : stop ≤ 994)
    (header : DownlinkTFHeader) (t : DownlinkTFTrailer) {crc : UInt16}
    (hcrc : crc = Crc.computeCRC
      (read (through (header.serialize m) 994 t.serialize) 0 998) crcSeed) :
    Frame (through (through (header.serialize m) 994 t.serialize) 994
      ({ t with crc := crc } : DownlinkTFTrailer).serialize) packets stop := by
  refine ⟨hstop, ?_, ?_⟩
  · have hread : read (through (through (header.serialize m) 994 t.serialize) 994
        ({ t with crc := crc } : DownlinkTFTrailer).serialize) 0 998 =
        read (through (header.serialize m) 994 t.serialize) 0 998 := by
      refine (read_eq_iff _ _ _ _).mpr fun i hi => ?_
      rw [Nat.zero_add]
      by_cases hplace : i < 994
      · rw [through_before hplace]
      · rw [through, if_pos (by omega), through, if_pos (by omega)]
        exact serialize_trailer t crc _ _ (by omega)
    rw [pointer_through, crc_serialize_trailer, hread]
    exact hcrc
  · refine h.congr (fun _ _ _ => Holds.congr) fun i hi hlt => ?_
    rw [through_before (by omega), through_before (by omega)]
    exact (DownlinkTFHeader.codec.serialize_outside _ _ hi).symm

def idle (e : DownlinkEnvelop) : DownlinkEnvelop :=
  { e.beginNewSP.2 with
    spHeader := { e.initDefaultSPHeader.spHeader with applicationId := 0x7ff }
    lenOfCurrentUserData := e.maxUserLen }

theorem addIdleSP_eq (e : DownlinkEnvelop) (now : Stamp) :
    e.addIdleSP now = if e.maxUserLen = 0 then e.beginNewSP.2 else (idle e).commitSP now :=
  rfl

theorem not_accepted_idle (e : DownlinkEnvelop) (m : Nat → UInt8) (place : Nat) (now : Stamp) :
    ¬Accepted (through m place ((idle e).stamped now).serialize) place := by
  rintro ⟨-, hidle, -⟩
  rw [pointer_through] at hidle
  have htrimmed : DownlinkSPHeader.deserialize
      (((idle e).stamped now).serialize (pointer m place)) =
      DownlinkSPHeader.codec.trimmed ((idle e).stamped now) :=
    DownlinkSPHeader.codec.deserialize_serialize _ _
  rw [htrimmed] at hidle
  exact hidle rfl

variable {e : DownlinkEnvelop} {packets : List Packet}

theorem Built.addIdleSP (h : Built e packets) (now : Stamp) :
    (e.addIdleSP now).lenOfCurrentTF = downlinkTfLen ∧
      Chain size Holds (e.addIdleSP now).buf DownlinkTFHeader.headerSize packets
        e.indexOfCurrentSP ∧
      (e.indexOfCurrentSP ≤ 978 →
        (Accepted (e.addIdleSP now).buf e.indexOfCurrentSP ↔ Spurious e)) := by
  have hindex := h.index_le
  have hrest := maxUserLen_eq hindex
  rw [addIdleSP_eq]
  split
  · refine ⟨h.len_eq, h.chain, fun hle => ?_⟩
    have hfull : e.indexOfCurrentSP = 978 := by omega
    rw [Spurious, hfull]
    exact (and_iff_right rfl).symm
  · obtain ⟨hbuf, -, hframe, -⟩ := @commitSP_eq (idle e) hindex
      (by change 1 ≤ e.maxUserLen; omega) (by change e.maxUserLen ≤ _; exact hrest.le) now
    refine ⟨hframe.trans h.len_eq, ?_, fun _ => ?_⟩
    · rw [hbuf]
      exact h.chain.congr (fun _ _ _ => Holds.congr) fun i _ hi => (through_before hi).symm
    · rw [hbuf]
      refine iff_of_false (not_accepted_idle e _ _ now) fun hspurious => ?_
      have hfull := hspurious.1
      omega

theorem Built.commitTF (h : Built e packets) (now : Stamp) :
    Frame (e.commitTF now).buf packets e.indexOfCurrentSP ∧
      (e.indexOfCurrentSP ≤ 978 →
        (Accepted (e.commitTF now).buf e.indexOfCurrentSP ↔ Spurious e)) := by
  obtain ⟨hlen, hchain, haccepted⟩ := h.addIdleSP now
  have hstart : 6 ≤ e.indexOfCurrentSP := h.chain.le
  simp only [DownlinkEnvelop.commitTF, commitClcwToTF, CCSDSEnvelop.crc, hlen]
  refine ⟨frame_sealed hchain h.index_le _ _ rfl, fun hle => ?_⟩
  rw [← haccepted hle]
  refine Accepted.congr fun i hi => ?_
  have hplace : e.indexOfCurrentSP + i < 994 := by omega
  refine (through_before hplace).trans ((through_before hplace).trans ?_)
  exact DownlinkTFHeader.codec.serialize_outside _ _ (by
    change 6 ≤ _
    omega)

end Frame

section Ground

theorem checkoutTF_eq {r : DownlinkEnvelop} {packets : List Packet} {stop : Nat}
    (h : Frame r.buf packets stop) :
    r.checkoutTF = (true, { r with
      indexOfCurrentSP := 0
      tfHeader := DownlinkTFHeader.deserialize r.buf
      lenOfCurrentTF := downlinkTfLen
      tfTrailer := DownlinkTFTrailer.deserialize (pointer r.buf 994) }) := by
  have hcrc := h.crc
  simp only [checkoutTF, CCSDSEnvelop.crc, downlinkTfLen, DownlinkTFTrailer.headerSize,
    Nat.reduceSub, hcrc, decide_true]

def next (e : DownlinkEnvelop) : Nat :=
  if e.indexOfCurrentSP = 0 then DownlinkTFHeader.headerSize
  else uint16 (e.indexOfCurrentSP + e.lenOfCurrentSP)

theorem checkoutNextSP_fst {e : DownlinkEnvelop} (hlen : e.lenOfCurrentTF = downlinkTfLen) :
    e.checkoutNextSP.1 = true ↔ next e ≤ 978 ∧ Accepted e.buf (next e) := by
  rw [checkoutNextSP]
  simp only [← next.eq_1, hlen, downlinkTfLen, DownlinkSPHeader.headerSize,
    DownlinkTFTrailer.headerSize, Accepted]
  by_cases hroom : 1000 < next e + 16 + 6
  · rw [if_pos hroom]
    exact iff_of_false (by simp) fun h => absurd h.1 (by omega)
  · rw [if_neg hroom]
    split
    · rename_i hreject
      refine iff_of_false (by simp) fun ⟨_, htype, hidle, hend⟩ => ?_
      obtain h | h | h := hreject
      · exact h htype
      · exact hidle h
      · omega
    · rename_i haccept
      rw [not_or, not_not, not_or] at haccept
      exact iff_of_true rfl ⟨by omega, haccept.1, haccept.2.1, by omega⟩

def found (e : DownlinkEnvelop) (p : Packet) : DownlinkEnvelop :=
  { e with
    indexOfCurrentSP := next e
    spHeader := p.header
    lenOfCurrentUserData := p.data.length
    lenOfCurrentSP := size p
    indexOfCurrentUserData := next e + 16
    userDataBuf := next e + 16 }

theorem checkoutNextSP_packet {e : DownlinkEnvelop} {p : Packet}
    (hp : Holds (pointer e.buf (next e)) p) (hend : next e + size p + 6 ≤ e.lenOfCurrentTF)
    (hlen : e.lenOfCurrentTF = downlinkTfLen) : e.checkoutNextSP = (true, found e p) := by
  have hmax : e.lenOfCurrentTF = 1000 := hlen
  have hsize : size p = 16 + p.data.length := rfl
  have hpacket : uint16 (p.header.dataPackLen.toNat + 6 + 1) = size p := by
    rw [hp.length, hsize]
    exact uint16_eq (by omega) (by omega)
  have hdata : uint16 (size p - DownlinkSPHeader.headerSize) = p.data.length :=
    uint16_eq (by rw [hsize]; simp only [DownlinkSPHeader.headerSize]; omega) (by omega)
  have hplace : uint16 (next e + DownlinkSPHeader.headerSize) = next e + 16 :=
    uint16_eq rfl (by omega)
  rw [checkoutNextSP]
  simp only [← next.eq_1, hp.header, hpacket, hdata, hplace]
  rw [if_neg (by simp only [DownlinkSPHeader.headerSize, DownlinkTFTrailer.headerSize]; omega),
    if_neg (not_or.mpr ⟨not_not.mpr hp.typeId, not_or.mpr ⟨hp.notIdle, by omega⟩⟩)]
  rfl

theorem delivers_chain {m : Nat → UInt8} {place stop : Nat} {packets : List Packet}
    (h : Chain size Holds m place packets stop) (hplace : 0 < place) (hmax : stop ≤ 994)
    {e : DownlinkEnvelop} (hbuf : e.buf = m) (hnext : next e = place)
    (hlen : e.lenOfCurrentTF = downlinkTfLen) :
    Delivers e packets ↔ ¬(stop ≤ 978 ∧ Accepted m stop) := by
  induction h generalizing e with
  | nil place =>
    subst hbuf hnext
    rw [← checkoutNextSP_fst hlen]
    constructor
    · rintro (hfalse | _)
      simp [hfalse]
    · intro h
      exact .nil (by simpa using h)
  | @cons place stop p packets hp hrest ih =>
    subst hbuf hnext
    have hle := hrest.le
    have hmax' : e.lenOfCurrentTF = 1000 := hlen
    have hstep := checkoutNextSP_packet hp (by omega) hlen
    have hnext : next (found e p) = next e + size p :=
      (if_neg (Nat.pos_iff_ne_zero.mp hplace)).trans (uint16_eq rfl (by omega))
    have hfound : Delivers (found e p) packets ↔ ¬(stop ≤ 978 ∧ Accepted e.buf stop) :=
      ih (by omega) hmax rfl hnext hlen
    rw [← hfound]
    constructor
    · rintro (_ | ⟨hcall, -, -, -, hdelivers⟩)
      rw [hstep, Prod.mk.injEq] at hcall
      rw [hcall.2]
      exact hdelivers
    · intro hdelivers
      exact .cons hstep rfl rfl ((read_pointer 16 p.data.length).symm.trans hp.data) hdelivers

end Ground

section

variable {e r : DownlinkEnvelop} {ops : List Op} {now : Stamp} (h : AllAllowed e.beginNewTF ops)
  (hbuf : ∀ i < downlinkTfLen, r.buf i = ((ops.foldl perform e.beginNewTF).commitTF now).buf i)
include h hbuf

theorem frame_received : Frame r.buf (committedAll e.beginNewTF ops)
    (ops.foldl perform e.beginNewTF).indexOfCurrentSP := by
  have hbuilt := (built_beginNewTF e).performAll h
  rw [List.nil_append] at hbuilt
  exact (hbuilt.commitTF now).1.congr fun i hi => (hbuf i hi).symm

theorem delivers_received_iff :
    Delivers r.checkoutTF.2 (committedAll e.beginNewTF ops) ↔
      ¬Spurious (ops.foldl perform e.beginNewTF) := by
  have hreceived := frame_received h hbuf
  have hbuilt := (built_beginNewTF e).performAll h
  rw [List.nil_append] at hbuilt
  have haccepted := (hbuilt.commitTF now).2
  generalize ops.foldl perform e.beginNewTF = sender at *
  have hdelivers : Delivers r.checkoutTF.2 (committedAll e.beginNewTF ops) ↔
      ¬(sender.indexOfCurrentSP ≤ 978 ∧ Accepted r.buf sender.indexOfCurrentSP) :=
    delivers_chain hreceived.chain (by decide) hreceived.stop_le rfl rfl rfl
  have hsame : sender.indexOfCurrentSP ≤ 978 →
      (Accepted r.buf sender.indexOfCurrentSP ↔ Spurious sender) := fun hle =>
    (Accepted.congr fun i hi => hbuf _ (by simp only [downlinkTfLen]; omega)).trans (haccepted hle)
  rw [hdelivers, not_iff_not]
  constructor
  · rintro ⟨hle, hstop⟩
    exact (hsame hle).mp hstop
  · intro hspurious
    have hle : sender.indexOfCurrentSP ≤ 978 := hspurious.1.le
    exact ⟨hle, (hsame hle).mpr hspurious⟩

end

/-- Every frame is accepted, and exactly the committed packets are delivered
unless the bytes left over at its end look like another one. -/
theorem downlink_delivers_iff (e r : DownlinkEnvelop) (ops : List Op) (now : Stamp)
    (h : AllAllowed e.beginNewTF ops)
    (hbuf : ∀ i < downlinkTfLen,
      r.buf i = ((ops.foldl perform e.beginNewTF).commitTF now).buf i) :
    r.checkoutTF.1 = true ∧ Delivers r.checkoutTF.2 (committedAll e.beginNewTF ops) ↔
      ¬Spurious (ops.foldl perform e.beginNewTF) := by
  have hchecked : r.checkoutTF.1 = true := by rw [checkoutTF_eq (frame_received h hbuf)]
  rw [and_iff_right hchecked]
  exact delivers_received_iff h hbuf

section

def empty : DownlinkEnvelop where
  inFront := 0
  buf _ := 0
  indexOfCurrentUserData := 0
  lenOfCurrentTF := 0
  lenOfCurrentSP := 0
  lenOfCurrentUserData := 0
  indexOfCurrentSP := 0
  userDataBuf := 0
  tfHeader := ⟨0, 77, 7, 1, 0, 0, 0, 0, 0, 3, 0⟩
  spHeader := ⟨0, 0, 1, 0, 3, 0, 9, 0, 0, 0, 3, 25, 0, 0, 0⟩
  tfTrailer := ⟨0, 0, 0, 1, 0, 0, 0, 0, 0, 0, 0, 0, 0, 0, 0⟩
  downlinkApidSequenceCounter _ := 0
  downlinkVirtualChanFrameCnt _ := 0
  downlinkMasterFramecounter := 0

def telemetry : DownlinkSPHeader := ⟨0, 0, 1, 5, 3, 0, 0, 0, 1, 0, 3, 25, 0, 0, 0⟩

def start : Stamp := ⟨0, 0⟩

/-- A packet of two bytes, one that is given up, and one of a single byte. -/
theorem downlink_delivers_iff_two :
    let ops := [Op.packet telemetry [0xab, 0xff] start, .aborted telemetry [1, 2, 3] start,
      .packet telemetry [7] start]
    let sender := (ops.foldl perform empty.beginNewTF).commitTF start
    sender.checkoutTF.1 = true ∧
      Delivers sender.checkoutTF.2 (committedAll empty.beginNewTF ops) := by
  refine (downlink_delivers_iff empty _ _ start ?_ (fun i _ => rfl)).mpr ?_
  · refine ⟨?_, ?_, ?_, trivial⟩
    · decide
    · decide
    · decide
  · rintro ⟨hindex, -⟩
    revert hindex
    decide

/-- A packet given up after 972 zeros and one that leaves 16 of them at the end. -/
def leftover : List Op :=
  [.aborted telemetry (List.replicate 972 0) start, .packet telemetry (List.replicate 956 1) start]

/-- The zeros are delivered as a packet. -/
theorem not_delivers_leftover :
    AllAllowed empty.beginNewTF leftover ∧
      ¬Delivers ((leftover.foldl perform empty.beginNewTF).commitTF start).checkoutTF.2
        (committedAll empty.beginNewTF leftover) := by
  have hallowed : AllAllowed empty.beginNewTF leftover := by
    refine ⟨?_, ?_, trivial⟩
    · decide +kernel
    · decide +kernel
  refine ⟨hallowed, fun hdelivers => ?_⟩
  refine (delivers_received_iff hallowed fun i _ => rfl).mp hdelivers ⟨?_, ?_⟩
  · decide +kernel
  · rw [Accepted]
    decide +kernel

end

end Rodos.CcsdsDownlink
