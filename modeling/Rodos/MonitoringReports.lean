import Rodos.MonitoringReader

namespace Rodos.MonitoringReports

open AccessTrace Traced MonitoringReader MonitoringReader.MonitoringMsg

structure Message extends MonitoringMsg where
  sendTime : Int64
  msgType : UInt16
  nodeNr : UInt8
  taskId : UInt8

def clear (msg : Message) : Message :=
  { msg with numOfParamsToSend := 0, numOfParamsDeserialized := 0, msgType := 0 }

/-- The constructor, on any memory. -/
def construct (nodeNumber : Int32) (taskId : UInt8) (msg : Message) : Message :=
  { clear msg with nodeNr := UInt8.ofNat (nodeNumber.toBitVec.toNat % 256), taskId := taskId }

def store {size : Nat} (params : Vector UInt8 size) (n : Nat) (src : List UInt8) :
    Vector UInt8 size :=
  Vector.ofFn fun i => if n ≤ i.val then (src[i.val - n]?).getD params[i] else params[i]

/-- The lengths have the type `size_t` of `w` bits. -/
def serialize (w : Nat) (src : List UInt8) (msg : Message) : Bool × Message :=
  let newEnd := BitVec.ofNat w msg.numOfParamsToSend.toNat + BitVec.ofNat w src.length
  if newEnd.toNat ≥ maxParams then (false, msg)
  else (true, { msg with
    params := store msg.params msg.numOfParamsToSend.toNat src
    numOfParamsToSend := UInt8.ofNat newEnd.toNat })

/-- What is given to one of the functions `serialize`, or to `serializeString`. -/
inductive Value
  | plain (bytes : List UInt8)
  | text (chars : List UInt8)

def Value.encode : Value → List UInt8
  | .plain bytes => bytes
  | .text chars => chars ++ [0]

/-- A string ends with its first zero. -/
def Value.IsString : Value → Prop
  | .plain _ => True
  | .text chars => 0 ∉ chars

def encodeAll (values : List Value) : List UInt8 := values.flatMap Value.encode

/-- What `report` publishes; the bytes behind the parameters are not sent. -/
def published (id : UInt16) (now : Int64) (msg : Message) : Message :=
  { msg with sendTime := now, msgType := id }

/-- The message of a task. `accepted` are the values serialized since it was cleared last,
`reports` what has been published with the values in it. -/
structure Reporter where
  message : Message
  accepted : List Value
  reports : List (Message × List Value)

inductive Event
  | serialize (value : Value)
  | clear
  | report (id : UInt16) (now : Int64)

def step (w : Nat) (r : Reporter) : Event → Reporter
  | .serialize value =>
    let result := serialize w value.encode r.message
    { r with
      message := result.2
      accepted := if result.1 then r.accepted ++ [value] else r.accepted }
  | .clear => { r with message := clear r.message, accepted := [] }
  | .report id now =>
    { message := clear (published id now r.message)
      accepted := []
      reports := r.reports ++ [(published id now r.message, r.accepted)] }

/-- The receiver's copy; what lies behind the parameters that were sent is its own. -/
structure Received (msg copy : Message) : Prop where
  sendTime : copy.sendTime = msg.sendTime
  msgType : copy.msgType = msg.msgType
  nodeNr : copy.nodeNr = msg.nodeNr
  taskId : copy.taskId = msg.taskId
  numOfParamsToSend : copy.numOfParamsToSend = msg.numOfParamsToSend
  numOfParamsDeserialized : copy.numOfParamsDeserialized = msg.numOfParamsDeserialized
  params : copy.params.toList.take msg.numOfParamsToSend.toNat =
    msg.params.toList.take msg.numOfParamsToSend.toNat

section Reading

variable (behind : List UInt8) (w : Nat)

def readValue (value : Value) (msg : MonitoringMsg) :
    Traced Nat (Option (List UInt8) × MonitoringMsg) :=
  match value with
  | .plain bytes => msg.deserialize behind (BitVec.ofNat w bytes.length)
  | .text _ => do
    match ← msg.stringLen behind w with
    | none => pure (none, msg)
    | some len => msg.deserialize behind len

def readAll : List Value → MonitoringMsg → Traced Nat (List (Option (List UInt8)) × MonitoringMsg)
  | [], msg => pure ([], msg)
  | value :: values, msg => do
    let r ← readValue behind w value msg
    let rest ← readAll values r.2
    pure (r.1 :: rest.1, rest.2)

end Reading

/-- A receiver that reads a report in the order it was written gets all its values, within the
bytes that were sent, and nothing more. -/
structure ReadsBack (w : Nat) (msg : Message) (values : List Value) : Prop where
  value : ∀ copy, Received msg copy → ∀ behind,
    (readAll behind w values copy.toMonitoringMsg).value =
      (values.map fun value => some value.encode,
        { copy.toMonitoringMsg with numOfParamsDeserialized := msg.numOfParamsToSend })
  within : ∀ copy, Received msg copy → ∀ behind,
    Within (· < msg.numOfParamsToSend.toNat) (readAll behind w values copy.toMonitoringMsg)
  exhausted : ∀ copy, Received msg copy → ∀ behind, ∀ len : BitVec w, 0 < len.toNat →
    len.toNat + maxParams ≤ 2 ^ w →
    (MonitoringMsg.deserialize behind len (readAll behind w values copy.toMonitoringMsg).value.2).value =
      (none, (readAll behind w values copy.toMonitoringMsg).value.2)

/-- What a task can rely on. -/
structure Reliable (w : Nat) (r : Reporter) : Prop where
  accepts : ∀ value : Value, value.encode.length + maxParams ≤ 2 ^ w →
    ((serialize w value.encode r.message).1 = true ↔
      (encodeAll r.accepted).length + value.encode.length < maxParams)
  refuses : ∀ value : Value, (serialize w value.encode r.message).1 = false →
    (serialize w value.encode r.message).2 = r.message
  reports : ∀ report ∈ r.reports, ReadsBack w report.1 report.2

/-- The values are strings where they are said to be, and no larger than memory. -/
def Sendable (w : Nat) : Event → Prop
  | .serialize value => value.IsString ∧ value.encode.length + maxParams ≤ 2 ^ w
  | _ => True

section Sender

variable {w : Nat}

theorem getElem_store {size : Nat} (params : Vector UInt8 size) (n : Nat) (src : List UInt8)
    {i : Nat} (hi : i < size) : (store params n src)[i] =
      if n ≤ i then (src[i - n]?).getD params[i] else params[i] := by
  simp only [store, Vector.getElem_ofFn]
  rfl

theorem toList_store {size : Nat} {params : Vector UInt8 size} {n : Nat} {src : List UInt8}
    (h : n + src.length ≤ size) :
    (store params n src).toList.take (n + src.length) = params.toList.take n ++ src := by
  have hparams := params.length_toList
  have hstored := (store params n src).length_toList
  apply List.ext_getElem
  · rw [List.length_take, List.length_append, List.length_take, hparams, hstored]
    omega
  · intro i hleft hright
    rw [List.length_append, List.length_take, hparams] at hright
    rw [List.getElem_take, Vector.getElem_toList, getElem_store]
    by_cases hi : n ≤ i
    · have hlt : i - n < src.length := by omega
      rw [if_pos hi, List.getElem_append_right (by rw [List.length_take, hparams]; omega)]
      rw [List.getElem?_eq_getElem hlt, Option.getD_some]
      congr 1
      rw [List.length_take, hparams]
      omega
    · rw [if_neg hi, List.getElem_append_left (by rw [List.length_take, hparams]; omega)]
      rw [List.getElem_take, Vector.getElem_toList]

structure Holds (msg : Message) (values : List Value) : Prop where
  strings : ∀ value ∈ values, value.IsString
  numOfParamsToSend : msg.numOfParamsToSend.toNat = (encodeAll values).length
  numOfParamsDeserialized : msg.numOfParamsDeserialized = 0
  params : msg.params.toList.take msg.numOfParamsToSend.toNat = encodeAll values
  room : (encodeAll values).length < maxParams

variable {msg : Message} {values : List Value}

theorem encodeAll_append (values : List Value) (value : Value) :
    encodeAll (values ++ [value]) = encodeAll values ++ value.encode := by
  rw [encodeAll, List.flatMap_append, List.flatMap_singleton]
  rfl

theorem holds_clear (msg : Message) : Holds (clear msg) [] :=
  ⟨List.forall_mem_nil _, rfl, rfl, rfl, by decide⟩

theorem Holds.newEnd (h : Holds msg values) (value : Value)
    (hfits : value.encode.length + maxParams ≤ 2 ^ w) :
    (BitVec.ofNat w msg.numOfParamsToSend.toNat + BitVec.ofNat w value.encode.length).toNat =
      (encodeAll values).length + value.encode.length := by
  have hroom := h.room
  rw [BitVec.toNat_add, BitVec.toNat_ofNat, BitVec.toNat_ofNat, ← Nat.add_mod, h.numOfParamsToSend]
  apply Nat.mod_eq_of_lt
  omega

theorem Holds.accepts (h : Holds msg values) (value : Value)
    (hfits : value.encode.length + maxParams ≤ 2 ^ w) :
    (serialize w value.encode msg).1 = true ↔
      (encodeAll values).length + value.encode.length < maxParams := by
  rw [serialize, h.newEnd value hfits]
  split
  · refine iff_of_false Bool.false_ne_true ?_
    omega
  · refine iff_of_true rfl ?_
    omega

theorem refuses {src : List UInt8} (h : (serialize w src msg).1 = false) :
    (serialize w src msg).2 = msg := by
  rw [serialize] at h ⊢
  split
  · rfl
  · rename_i hnot
    rw [if_neg hnot] at h
    cases h

theorem Holds.serialize (h : Holds msg values) {value : Value} (hstring : value.IsString)
    (hfits : value.encode.length + maxParams ≤ 2 ^ w) :
    Holds (serialize w value.encode msg).2
      (if (serialize w value.encode msg).1 then values ++ [value] else values) := by
  rw [MonitoringReports.serialize]
  have hend := h.newEnd value hfits
  split
  · exact h
  · rename_i hroom
    rw [hend] at hroom ⊢
    have hlength : (encodeAll (values ++ [value])).length =
        (encodeAll values).length + value.encode.length := by
      rw [encodeAll_append, List.length_append]
    have hmax : maxParams = 64 := rfl
    have hnumber : (UInt8.ofNat ((encodeAll values).length + value.encode.length)).toNat =
        (encodeAll values).length + value.encode.length := by
      rw [UInt8.toNat_ofNat']
      apply Nat.mod_eq_of_lt
      omega
    refine ⟨?_, ?_, h.numOfParamsDeserialized, ?_, ?_⟩
    · change ∀ v ∈ values ++ [value], v.IsString
      rw [List.forall_mem_append, List.forall_mem_singleton]
      exact ⟨h.strings, hstring⟩
    · exact hnumber.trans hlength.symm
    · have hparams := h.params
      rw [h.numOfParamsToSend] at hparams
      change List.take (UInt8.ofNat _).toNat (store _ _ _).toList = encodeAll (values ++ [value])
      rw [hnumber, h.numOfParamsToSend, toList_store (by omega), encodeAll_append, hparams]
    · change (encodeAll (values ++ [value])).length < maxParams
      omega

end Sender

section Receiver

variable (behind : List UInt8) {w : Nat} {msg : MonitoringMsg} {a b : List UInt8}

structure Rest (msg : MonitoringMsg) (bytes : List UInt8) : Prop where
  room : msg.numOfParamsToSend.toNat < maxParams
  length : msg.numOfParamsDeserialized.toNat + bytes.length = msg.numOfParamsToSend.toNat
  params : (msg.params.toList.take msg.numOfParamsToSend.toNat).drop
    msg.numOfParamsDeserialized.toNat = bytes

def advance (msg : MonitoringMsg) (n : Nat) : MonitoringMsg :=
  { msg with numOfParamsDeserialized := UInt8.ofNat (msg.numOfParamsDeserialized.toNat + n) }

theorem Rest.memory (h : Rest msg a) :
    ∃ more, (msg.memory behind).drop msg.numOfParamsDeserialized.toNat = a ++ more := by
  have hroom := h.room
  have hlength := h.length
  refine ⟨msg.params.toList.drop msg.numOfParamsToSend.toNat ++ behind, ?_⟩
  have hsplit : msg.memory behind = msg.params.toList.take msg.numOfParamsToSend.toNat ++
      (msg.params.toList.drop msg.numOfParamsToSend.toNat ++ behind) := by
    rw [← List.append_assoc, List.take_append_drop]
    rfl
  rw [hsplit, List.drop_append_of_le_length, h.params]
  rw [List.length_take, msg.params.length_toList]
  omega

theorem within_copy (memory : List UInt8) {i len limit : Nat} (h : i + len ≤ limit) :
    Within (· < limit) (copy memory i len) := by
  rw [copy, within_bind, within_spread, within_touch, and_iff_left (within_pure _)]
  intro k hk
  have hrange := List.mem_range'_1.mp hk
  omega

theorem Rest.newEnd (h : Rest msg (a ++ b)) (hfits : a.length + maxParams ≤ 2 ^ w) :
    (BitVec.ofNat w msg.numOfParamsDeserialized.toNat + BitVec.ofNat w a.length).toNat =
      msg.numOfParamsDeserialized.toNat + a.length := by
  have hroom := h.room
  have hlength := h.length
  rw [BitVec.toNat_add, BitVec.toNat_ofNat, BitVec.toNat_ofNat, ← Nat.add_mod]
  apply Nat.mod_eq_of_lt
  omega

theorem Rest.deserialize (h : Rest msg (a ++ b)) (hfits : a.length + maxParams ≤ 2 ^ w) :
    (MonitoringMsg.deserialize behind (BitVec.ofNat w a.length) msg).value =
        (some a, advance msg a.length) ∧
      Within (· < msg.numOfParamsToSend.toNat)
        (MonitoringMsg.deserialize behind (BitVec.ofNat w a.length) msg) := by
  have hlength := h.length
  rw [List.length_append] at hlength
  have hnumber : (BitVec.ofNat w a.length).toNat = a.length := by
    rw [BitVec.toNat_ofNat]
    apply Nat.mod_eq_of_lt
    have hmax : maxParams = 64 := rfl
    omega
  obtain ⟨more, hmemory⟩ := h.memory behind
  have hnot : ¬(BitVec.ofNat w msg.numOfParamsDeserialized.toNat +
      BitVec.ofNat w a.length).toNat > msg.numOfParamsToSend.toNat := by
    rw [h.newEnd hfits]
    omega
  rw [MonitoringMsg.deserialize, if_neg hnot, h.newEnd hfits, hnumber]
  constructor
  · rw [value_bind, value_pure, copy, value_bind, value_pure, hmemory, List.append_assoc,
      List.take_left' rfl]
    rfl
  · rw [within_bind, and_iff_left (within_pure _)]
    apply within_copy
    omega

theorem Rest.advance (h : Rest msg (a ++ b)) : Rest (advance msg a.length) b := by
  have hroom := h.room
  have hlength := h.length
  have hmax : maxParams = 64 := rfl
  rw [List.length_append] at hlength
  have hnumber : (MonitoringReports.advance msg a.length).numOfParamsDeserialized.toNat =
      msg.numOfParamsDeserialized.toNat + a.length := by
    rw [MonitoringReports.advance, UInt8.toNat_ofNat']
    apply Nat.mod_eq_of_lt
    omega
  refine ⟨hroom, ?_, ?_⟩
  · rw [hnumber]
    exact (Nat.add_assoc _ _ _).trans hlength
  · rw [hnumber, ← List.drop_drop]
    have hparams := h.params
    change List.drop a.length (List.drop _ (List.take msg.numOfParamsToSend.toNat
      msg.params.toList)) = b
    rw [hparams, List.drop_left' rfl]

theorem strlen_append {chars : List UInt8} (h : 0 ∉ chars) (i : Nat) (rest : List UInt8) :
    (strlen i (chars ++ 0 :: rest)).value = some chars.length := by
  induction chars generalizing i with
  | nil =>
    rw [List.nil_append, strlen, value_bind, if_pos rfl]
    rfl
  | cons c chars ih =>
    have hc : c ≠ 0 := fun hc => h (List.mem_cons.mpr (.inl hc.symm))
    have hchars : 0 ∉ chars := fun hmem => h (List.mem_cons_of_mem c hmem)
    rw [List.cons_append, strlen, value_bind, if_neg hc, value_bind, value_pure,
      ih hchars (i + 1)]
    rfl

theorem Rest.stringLen {chars : List UInt8} (h : Rest msg ((chars ++ [0]) ++ b))
    (hstring : 0 ∉ chars) :
    (msg.stringLen behind w).value = some (BitVec.ofNat w (chars ++ [0]).length) ∧
      Within (· < msg.numOfParamsToSend.toNat) (msg.stringLen behind w) := by
  have hlength := h.length
  obtain ⟨more, hmemory⟩ := h.memory behind
  rw [MonitoringMsg.stringLen, hmemory]
  constructor
  · rw [value_bind, value_pure, List.append_assoc, List.append_assoc, List.singleton_append,
      strlen_append hstring, Option.map_some, List.length_append, BitVec.ofNat_add]
    rfl
  · rw [within_bind, and_iff_left (within_pure _), within_strlen]
    · rw [← hlength, Nat.add_sub_cancel_left, List.take_left' rfl]
      simp
    · rw [List.length_append]
      omega

theorem Rest.readValue {value : Value} (h : Rest msg (value.encode ++ b))
    (hstring : value.IsString) (hfits : value.encode.length + maxParams ≤ 2 ^ w) :
    (readValue behind w value msg).value =
        (some value.encode, MonitoringReports.advance msg value.encode.length) ∧
      Within (· < msg.numOfParamsToSend.toNat) (readValue behind w value msg) := by
  cases value with
  | plain bytes => exact h.deserialize behind hfits
  | text chars =>
    obtain ⟨hlen, hwithin⟩ := h.stringLen (w := w) behind hstring
    obtain ⟨hvalue, hread⟩ := h.deserialize behind hfits
    rw [MonitoringReports.readValue, value_bind, within_bind, hlen]
    exact ⟨hvalue, hwithin, hread⟩

/-- By induction on the values; each read leaves the rest for the others. -/
theorem Rest.readAll {values : List Value} (hstrings : ∀ value ∈ values, value.IsString)
    (hfits : maxParams + maxParams ≤ 2 ^ w) (h : Rest msg (encodeAll values)) :
    (readAll behind w values msg).value = (values.map fun value => some value.encode,
        { msg with numOfParamsDeserialized := msg.numOfParamsToSend }) ∧
      Within (· < msg.numOfParamsToSend.toNat) (readAll behind w values msg) := by
  induction values generalizing msg with
  | nil =>
    have hlength := h.length
    have hcursor : msg.numOfParamsDeserialized = msg.numOfParamsToSend := by
      apply UInt8.toNat_inj.mp
      exact hlength
    obtain ⟨n, cursor, params⟩ := msg
    obtain rfl : cursor = n := hcursor
    exact ⟨rfl, within_pure _⟩
  | cons value values ih =>
    obtain ⟨hstring, hstrings⟩ := List.forall_mem_cons.mp hstrings
    have hrest : Rest msg (value.encode ++ encodeAll values) := h
    have hroom := h.room
    have hlength := hrest.length
    rw [List.length_append] at hlength
    obtain ⟨hvalue, hwithin⟩ := hrest.readValue behind hstring (w := w) (by omega)
    obtain ⟨hvalues, hwithins⟩ := ih hstrings hrest.advance
    rw [MonitoringReports.readAll, value_bind, value_bind, value_pure, within_bind, within_bind,
      and_iff_left (within_pure _), hvalue, hvalues]
    exact ⟨rfl, hwithin, hwithins⟩

theorem Holds.rest {message copy : Message} {values : List Value} (h : Holds message values)
    (hcopy : Received message copy) : Rest copy.toMonitoringMsg (encodeAll values) := by
  refine ⟨?_, ?_, ?_⟩
  · rw [hcopy.numOfParamsToSend, h.numOfParamsToSend]
    exact h.room
  · rw [hcopy.numOfParamsToSend, hcopy.numOfParamsDeserialized, h.numOfParamsToSend,
      h.numOfParamsDeserialized]
    exact Nat.zero_add _
  · rw [hcopy.numOfParamsToSend, hcopy.numOfParamsDeserialized, hcopy.params, h.params,
      h.numOfParamsDeserialized]
    rfl

theorem Holds.readsBack {message : Message} {values : List Value} (h : Holds message values)
    (hfits : maxParams + maxParams ≤ 2 ^ w) : ReadsBack w message values := by
  refine ⟨fun copy hcopy behind => ?_, fun copy hcopy behind => ?_,
    fun copy hcopy behind len hpos hlen => ?_⟩
  · obtain ⟨hvalue, -⟩ := (h.rest hcopy).readAll behind h.strings hfits
    rw [hvalue, ← hcopy.numOfParamsToSend]
  · obtain ⟨-, hwithin⟩ := (h.rest hcopy).readAll behind h.strings hfits
    rw [← hcopy.numOfParamsToSend]
    exact hwithin
  · obtain ⟨hvalue, -⟩ := (h.rest hcopy).readAll behind h.strings hfits
    have hroom := (h.rest hcopy).room
    have hmore : (BitVec.ofNat w copy.numOfParamsToSend.toNat + len).toNat >
        copy.numOfParamsToSend.toNat := by
      rw [toNat_newEnd, Nat.mod_eq_of_lt (by omega)]
      omega
    rw [hvalue, MonitoringMsg.deserialize, if_pos hmore]
    rfl

end Receiver

section Runs

variable {w : Nat}

structure Inv (r : Reporter) : Prop where
  message : Holds r.message r.accepted
  reports : ∀ report ∈ r.reports, Holds report.1 report.2

theorem Inv.step {r : Reporter} (h : Inv r) {e : Event} (he : Sendable w e) :
    Inv (step w r e) := by
  cases e with
  | serialize value => exact ⟨h.message.serialize he.1 he.2, h.reports⟩
  | clear => exact ⟨holds_clear _, h.reports⟩
  | report id now =>
    refine ⟨holds_clear _, ?_⟩
    change ∀ report ∈ r.reports ++ [_], _
    rw [List.forall_mem_append, List.forall_mem_singleton]
    have hm := h.message
    exact ⟨h.reports,
      hm.strings, hm.numOfParamsToSend, hm.numOfParamsDeserialized, hm.params, hm.room⟩

theorem inv_run {events : List Event} (hevents : ∀ e ∈ events, Sendable w e) {r : Reporter}
    (h : Inv r) : Inv (events.foldl (step w) r) := by
  induction events generalizing r with
  | nil => exact h
  | cons e events ih =>
    obtain ⟨he, hevents⟩ := List.forall_mem_cons.mp hevents
    exact ih hevents (h.step he)

def started (nodeNumber : Int32) (taskId : UInt8) (memory : Message) : Reporter :=
  ⟨construct nodeNumber taskId memory, [], []⟩

/-- Whatever a task serializes, clears and reports, each report is read back as the values
that were accepted for it. -/
theorem reports_read_back (hw : 16 ≤ w) (nodeNumber : Int32) (taskId : UInt8) (memory : Message)
    {events : List Event} (hevents : ∀ e ∈ events, Sendable w e) :
    Reliable w (events.foldl (step w) (started nodeNumber taskId memory)) := by
  have hstart : Inv (started nodeNumber taskId memory) :=
    ⟨⟨List.forall_mem_nil _, rfl, rfl, rfl, Nat.zero_lt_succ 63⟩, List.forall_mem_nil _⟩
  have hinv := inv_run hevents hstart
  have hpow : 2 ^ 16 ≤ 2 ^ w := Nat.pow_le_pow_right (by decide) hw
  refine ⟨fun value hfits => hinv.message.accepts value hfits, fun value h => refuses h,
    fun report hreport => (hinv.reports report hreport).readsBack ?_⟩
  exact le_trans (by decide) hpow

def zeros : Message := ⟨⟨0, 0, Vector.replicate maxParams 0⟩, 0, 0, 0, 0⟩

/-- A string and a number; the long value between them does not fit. -/
def threeValues : List Event :=
  [.serialize (.text [104, 105]), .serialize (.plain (List.replicate 61 1)),
    .serialize (.plain [1, 2, 3, 4]), .report 7 5]

theorem reports_read_back_three : Reliable 64 (threeValues.foldl (step 64) (started 3 9 zeros)) :=
  reports_read_back (by decide) 3 9 zeros (by
    intro e he
    simp only [threeValues, List.mem_cons, List.not_mem_nil, or_false] at he
    obtain rfl | rfl | rfl | rfl := he
    · exact ⟨(by decide : (0 : UInt8) ∉ [104, 105]), by decide +kernel⟩
    · exact ⟨trivial, by decide +kernel⟩
    · exact ⟨trivial, by decide +kernel⟩
    · exact trivial)

example : (threeValues.foldl (step 64) (started 3 9 zeros)).reports.map (fun r => encodeAll r.2) =
    [[104, 105, 0, 1, 2, 3, 4]] := by decide +kernel

end Runs

end Rodos.MonitoringReports
