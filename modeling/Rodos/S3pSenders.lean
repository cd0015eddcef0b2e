import Rodos.S3pFraming

namespace Rodos.S3pSenders

open ByteMemory S3pFraming

def isCommand (c : UInt16) : Bool := (c &&& 0xFF00) = command

/-- What the application answers when it is asked for a buffer: null, or where
to read from and how many bytes. -/
abbrev Answer := Option ((Nat → UInt8) × Nat)

/-- The sender with the answers that the application still has for it. A
pointer is the bytes from it on. -/
structure S3pMsgSenderAsynchronous where
  pendingDualByte : UInt16
  isABytePending : Bool
  len : Int
  msg : Option (Nat → UInt8)
  answers : List Answer

/-- The application has nothing more to send once its answers are used up. -/
def started (pendingDualByte : UInt16) (answers : List Answer) : S3pMsgSenderAsynchronous :=
  ⟨pendingDualByte, false, 0, none, answers⟩

namespace S3pMsgSenderAsynchronous

def requestBufferToRead (s : S3pMsgSenderAsynchronous) : S3pMsgSenderAsynchronous :=
  match s.answers with
  | [] => { s with len := 0, msg := none }
  | none :: answers => { s with len := 0, msg := none, answers := answers }
  | some (msg, len) :: answers => { s with len := len, msg := some msg, answers := answers }

def getDualByte (s : S3pMsgSenderAsynchronous) : UInt16 × S3pMsgSenderAsynchronous :=
  match s.msg with
  | none =>
    let s := s.requestBufferToRead
    match s.msg with
    | none => (noData, s)
    | some _ => (bom, s)
  | some msg =>
    if s.len = 0 then (eom, { s with msg := none })
    else ((msg 0).toUInt16, { s with len := s.len - 1, msg := some fun k => msg (k + 1) })

def getByteOrNODATA (s : S3pMsgSenderAsynchronous) : UInt16 × S3pMsgSenderAsynchronous :=
  if s.isABytePending then ((lsb s.pendingDualByte).toUInt16, { s with isABytePending := false })
  else
    let (dualByte, s) := s.getDualByte
    let s := { s with pendingDualByte := dualByte }
    if dualByte = noData then (noData, s)
    else if isCommand dualByte then ((msb dualByte).toUInt16, { s with isABytePending := true })
    else if dualByte = mark then
      ((msb stuff).toUInt16, { s with pendingDualByte := stuff, isABytePending := true })
    else ((lsb dualByte).toUInt16, s)

def returned : Nat → S3pMsgSenderAsynchronous → List UInt16
  | 0, _ => []
  | n + 1, s => s.getByteOrNODATA.1 :: returned n s.getByteOrNODATA.2

end S3pMsgSenderAsynchronous

open S3pMsgSenderAsynchronous

def offered (answers : List Answer) : List (List UInt8) :=
  answers.filterMap fun answer => answer.map fun (msg, len) => read msg 0 len

section ToCome

def sent : Answer → List UInt16
  | none => [noData]
  | some (msg, len) => (sendMsg (read msg 0 len)).map UInt8.toUInt16

def begun (s : S3pMsgSenderAsynchronous) : List UInt8 :=
  (if s.isABytePending then [lsb s.pendingDualByte] else []) ++
    match s.msg with
    | none => []
    | some msg => (read msg 0 s.len.toNat).flatMap putDataByte ++ putCommand eom

def toCome (s : S3pMsgSenderAsynchronous) : List UInt16 :=
  (begun s).map UInt8.toUInt16 ++ s.answers.flatMap sent

def Counting (s : S3pMsgSenderAsynchronous) : Prop := s.msg.isSome → 0 ≤ s.len

theorem read_shift (msg : Nat → UInt8) (n : Nat) :
    read msg 0 (n + 1) = msg 0 :: read (fun k => msg (k + 1)) 0 n := by
  simp only [ByteMemory.read, List.range_succ_eq_map, List.map_cons, List.map_map, Nat.zero_add]
  rfl

theorem data_ne (c : UInt8) : c.toUInt16 ≠ noData ∧ isCommand c.toUInt16 = false ∧
    lsb c.toUInt16 = c := by
  revert c
  decide +kernel

theorem counting_none (pendingDualByte : UInt16) (isABytePending : Bool) (len : Int)
    (answers : List Answer) : Counting ⟨pendingDualByte, isABytePending, len, none, answers⟩ := by
  simp [Counting]

theorem getByteOrNODATA_data (pendingDualByte : UInt16) (n : Nat) (msg : Nat → UInt8)
    (answers : List Answer) :
    getByteOrNODATA ⟨pendingDualByte, false, (n + 1 : Nat), some msg, answers⟩ =
      if msg 0 = 0xFE then
        (0xFE, ⟨stuff, true, n, some fun k => msg (k + 1), answers⟩)
      else ((msg 0).toUInt16,
        ⟨(msg 0).toUInt16, false, n, some fun k => msg (k + 1), answers⟩) := by
  obtain ⟨hne, hcommand, hlsb⟩ := data_ne (msg 0)
  have hlen : ((n + 1 : Nat) : Int) ≠ 0 := by omega
  have hdec : ((n + 1 : Nat) : Int) - 1 = n := by omega
  simp only [getByteOrNODATA, getDualByte, if_neg hlen, hdec, if_neg hne, hcommand, hlsb,
    toUInt16_eq_mark, Bool.false_eq_true, if_false]
  rfl

theorem toCome_data (pendingDualByte pendingDualByte' : UInt16) (n : Nat) (msg : Nat → UInt8)
    (answers : List Answer) :
    toCome ⟨pendingDualByte, false, (n + 1 : Nat), some msg, answers⟩ =
      (putDataByte (msg 0)).map UInt8.toUInt16 ++
        toCome ⟨pendingDualByte', false, n, some fun k => msg (k + 1), answers⟩ := by
  simp [toCome, begun, read_shift]

theorem getByteOrNODATA_spec {s : S3pMsgSenderAsynchronous} (h : Counting s) :
    Counting s.getByteOrNODATA.2 ∧ s.getByteOrNODATA.1 = (toCome s).headD noData ∧
      toCome s.getByteOrNODATA.2 = (toCome s).tail := by
  obtain ⟨pendingDualByte, isABytePending, len, msg, answers⟩ := s
  cases isABytePending with
  | true => exact ⟨h, rfl, rfl⟩
  | false =>
    cases msg with
    | none =>
      cases answers with
      | nil => exact ⟨counting_none noData false 0 [], rfl, rfl⟩
      | cons answer answers =>
        cases answer with
        | none => exact ⟨counting_none noData false 0 answers, rfl, rfl⟩
        | some offer =>
          obtain ⟨msg, n⟩ := offer
          refine ⟨fun _ => Int.natCast_nonneg n, rfl, ?_⟩
          change toCome ⟨bom, true, n, some msg, answers⟩ = _
          simp [toCome, begun, sent, sendMsg, putCommand, bom, noData]
    | some msg =>
      obtain ⟨n, rfl⟩ := Int.eq_ofNat_of_zero_le (h rfl)
      cases n with
      | zero => exact ⟨counting_none eom true 0 answers, rfl, rfl⟩
      | succ n =>
        rw [getByteOrNODATA_data, toCome_data pendingDualByte (msg 0).toUInt16]
        by_cases hc : msg 0 = 0xFE
        · rw [if_pos hc, hc]
          exact ⟨fun _ => Int.natCast_nonneg n, rfl, rfl⟩
        · have hplain : putDataByte (msg 0) = [msg 0] := by
            simp [putDataByte, toUInt16_eq_mark, hc]
          rw [if_neg hc, hplain]
          exact ⟨fun _ => Int.natCast_nonneg n, rfl, rfl⟩

theorem returned_eq {s : S3pMsgSenderAsynchronous} (h : Counting s) (n : Nat) :
    returned n s =
      (toCome s).take n ++ List.replicate (n - (toCome s).length) noData := by
  induction n generalizing s with
  | zero => simp [returned]
  | succ n ih =>
    obtain ⟨hnext, hbyte, hrest⟩ := getByteOrNODATA_spec h
    rw [returned, ih hnext, hbyte, hrest]
    cases toCome s with
    | nil => simp [List.replicate_succ]
    | cons b rest => simp

end ToCome

theorem toUInt16_ne_noData (bytes : List UInt8) :
    (bytes.map UInt8.toUInt16).filter (· ≠ noData) = bytes.map UInt8.toUInt16 := by
  rw [List.filter_eq_self]
  intro b hb
  obtain ⟨c, -, rfl⟩ := List.mem_map.mp hb
  simpa using (data_ne c).1

/-- The pauses apart, the answers make the sender return the frames. -/
theorem filter_sent (answers : List Answer) :
    (answers.flatMap sent).filter (· ≠ noData) =
      ((offered answers).flatMap sendMsg).map UInt8.toUInt16 := by
  induction answers with
  | nil => rfl
  | cons answer answers ih =>
    rw [List.flatMap_cons, List.filter_append, ih]
    cases answer with
    | none => rfl
    | some offer =>
      rw [sent, toUInt16_ne_noData]
      simp [offered]

/-- The calls of the asynchronous sender return a part of what the synchronous
one sends for the same messages, and from some call on all of it. -/
theorem senders_agree (pendingDualByte : UInt16) (answers : List Answer) :
    (∀ n, (returned n (started pendingDualByte answers)).filter (· ≠ noData) <+:
      ((offered answers).flatMap sendMsg).map UInt8.toUInt16) ∧
    ∃ enough, ∀ n ≥ enough, (returned n (started pendingDualByte answers)).filter (· ≠ noData) =
      ((offered answers).flatMap sendMsg).map UInt8.toUInt16 := by
  have hstart : Counting (started pendingDualByte answers) := by simp [Counting, started]
  have hcome : toCome (started pendingDualByte answers) = answers.flatMap sent := rfl
  have hreturned : ∀ n, (returned n (started pendingDualByte answers)).filter (· ≠ noData) =
      ((answers.flatMap sent).take n).filter (· ≠ noData) := by
    intro n
    rw [returned_eq hstart, hcome, List.filter_append]
    simp
  rw [← filter_sent]
  refine ⟨fun n => ?_, (answers.flatMap sent).length, fun n hn => ?_⟩
  · rw [hreturned]
    exact (List.take_prefix n _).filter _
  · rw [hreturned, List.take_of_length_le hn]

end Rodos.S3pSenders
