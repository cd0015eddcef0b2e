import Rodos.S3pReceivers

namespace Rodos.S3pRoundTrip

open S3pFraming S3pReceivers S3pReceiverAsynchronous Transducer

/-- The byte after a mark when it belongs neither to the framing nor to a
further command. -/
abbrev OtherCode := {d : UInt8 // d ≠ 0x02 ∧ d ≠ 0x03 ∧ d ≠ 0x7E ∧ d ≠ 0xFE}

inductive Symbol
  | bom
  | eom
  | data (c : UInt8)
  | other (code : OtherCode)
  deriving DecidableEq

def encode : Symbol → List UInt8
  | .bom => putCommand bom
  | .eom => putCommand eom
  | .data c => putDataByte c
  | .other code => [0xFE, code.val]

def receive (maxLen : Int) (message : Option (List UInt8)) :
    Symbol → Option (List UInt8) × List Upcall
  | .bom => (some [], [])
  | .eom => (none, (message.map Upcall.message).toList)
  | .data c => (store maxLen c message, [])
  | .other code => (message, [.executeCommand (command ||| code.val.toUInt16)])

def messages (calls : List Upcall) : List (List UInt8) :=
  calls.filterMap fun
    | .message bytes => some bytes
    | .executeCommand _ => none

@[simp] theorem messages_append (calls calls' : List Upcall) :
    messages (calls ++ calls') = messages calls ++ messages calls' :=
  List.filterMap_append

theorem sendMsg_eq (m : List UInt8) :
    sendMsg m = (Symbol.bom :: m.map Symbol.data ++ [Symbol.eom]).flatMap encode := by
  simp [sendMsg, encode, List.flatMap_map]

section

variable (maxLen : Int) (again : Bool)

theorem decode_encode (message : Option (List UInt8)) (symbol : Symbol) :
    after (decode maxLen again) ⟨false, message⟩ (encode symbol) =
        ⟨false, (receive maxLen message symbol).1⟩ ∧
      output (decode maxLen again) ⟨false, message⟩ (encode symbol) =
        (receive maxLen message symbol).2 := by
  have hpair : ∀ d : UInt8, d ≠ 0xFE →
      after (decode maxLen again) ⟨false, message⟩ [0xFE, d] =
          ⟨false, (perform maxLen message d).1⟩ ∧
        output (decode maxLen again) ⟨false, message⟩ [0xFE, d] = (perform maxLen message d).2 := by
    intro d hd
    rw [output_command maxLen again message (fun _ => hd), after_cons, decode_mark, after_cons,
      decode_code maxLen again message (fun _ => hd)]
    simp
  cases symbol with
  | bom => exact hpair 0x02 (by decide)
  | eom => exact hpair 0x03 (by decide)
  | data c =>
    simp only [encode, putDataByte, toUInt16_eq_mark]
    by_cases hc : c = 0xFE
    · subst hc
      exact hpair 0x7E (by decide)
    · rw [if_neg hc, after_cons, output_cons, decode_plain maxLen again message hc]
      exact ⟨rfl, rfl⟩
  | other code =>
    obtain ⟨d, h02, h03, h7E, hFE⟩ := code
    have h := hpair d hFE
    rw [perform, if_neg h02, if_neg h03, if_neg h7E] at h
    exact h

/-- A stream of whole symbols does not show the difference between the two
receivers. -/
theorem decode_symbols (message : Option (List UInt8)) (symbols : List Symbol) :
    after (decode maxLen again) ⟨false, message⟩ (symbols.flatMap encode) =
        ⟨false, after (receive maxLen) message symbols⟩ ∧
      output (decode maxLen again) ⟨false, message⟩ (symbols.flatMap encode) =
        output (receive maxLen) message symbols := by
  refine simulates (fun (s : Decoder) t => s = ⟨false, t⟩) encode symbols ?_ rfl
  rintro symbol - s t rfl
  exact decode_encode maxLen again t symbol

end

section Carries

inductive Interleaved : List UInt8 → List Symbol → Prop
  | nil : Interleaved [] []
  | data {m : List UInt8} {body : List Symbol} (c : UInt8) :
      Interleaved m body → Interleaved (c :: m) (.data c :: body)
  | other {m : List UInt8} {body : List Symbol} (code : OtherCode) :
      Interleaved m body → Interleaved m (.other code :: body)

/-- The frames of the messages, in this order, with data and other commands
between them. -/
inductive Carries : List (List UInt8) → List Symbol → Prop
  | nil : Carries [] []
  | frame {m : List UInt8} {body : List Symbol} {ms : List (List UInt8)} {symbols : List Symbol} :
      Interleaved m body → Carries ms symbols →
        Carries (m :: ms) (.bom :: body ++ .eom :: symbols)
  | data {ms : List (List UInt8)} {symbols : List Symbol} (c : UInt8) :
      Carries ms symbols → Carries ms (.data c :: symbols)
  | other {ms : List (List UInt8)} {symbols : List Symbol} (code : OtherCode) :
      Carries ms symbols → Carries ms (.other code :: symbols)

variable {maxLen : Int}

theorem store_append {m : List UInt8} (c : UInt8) (h : (m.length : Int) < maxLen) :
    store maxLen c (some m) = some (m ++ [c]) := by
  simp [store, h]

theorem receive_interleaved {m : List UInt8} {body : List Symbol} (h : Interleaved m body)
    (start : List UInt8) (hlen : ((start ++ m).length : Int) ≤ maxLen) :
    after (receive maxLen) (some start) body = some (start ++ m) ∧
      messages (output (receive maxLen) (some start) body) = [] := by
  induction h generalizing start with
  | nil => simp [messages]
  | data c _ ih =>
    have hroom : (start.length : Int) < maxLen := by
      simp only [List.length_append, List.length_cons] at hlen
      omega
    have hnext := ih (start ++ [c]) (by simpa using hlen)
    simpa [receive, store_append c hroom] using hnext
  | other code _ ih =>
    obtain ⟨hafter, houtput⟩ := ih start hlen
    exact ⟨hafter, by simpa [receive, messages] using houtput⟩

theorem receive_frame {m : List UInt8} {body : List Symbol} (h : Interleaved m body)
    (hlen : (m.length : Int) ≤ maxLen) (message : Option (List UInt8)) (symbols : List Symbol) :
    messages (output (receive maxLen) message (.bom :: body ++ .eom :: symbols)) =
      m :: messages (output (receive maxLen) none symbols) := by
  obtain ⟨hafter, houtput⟩ := receive_interleaved h [] (by simpa using hlen)
  rw [List.nil_append] at hafter
  rw [List.cons_append, output_cons, output_append, output_cons]
  simp only [messages_append, receive]
  rw [hafter, houtput]
  rfl

theorem receive_carries {ms : List (List UInt8)} {symbols : List Symbol} (h : Carries ms symbols)
    (hlen : ∀ m ∈ ms, (m.length : Int) ≤ maxLen) :
    messages (output (receive maxLen) none symbols) = ms := by
  induction h with
  | nil => rfl
  | frame hbody _ ih =>
    obtain ⟨hm, hms⟩ := List.forall_mem_cons.mp hlen
    rw [receive_frame hbody hm, ih hms]
  | data c _ ih => exact ih hlen
  | other code _ ih => exact ih hlen

theorem interleaved_data (m : List UInt8) : Interleaved m (m.map .data) := by
  induction m with
  | nil => exact .nil
  | cons c m ih => exact .data c ih

end Carries

/-- Both receivers deliver the messages that were sent, in their order,
whatever stands between the frames and whatever other commands stand in them. -/
theorem deliver_carried {maxLen : Int} {ms : List (List UInt8)} {symbols : List Symbol}
    (h : Carries ms symbols) (hlen : ∀ m ∈ ms, (m.length : Int) ≤ maxLen)
    (buffers : Nat → Nat → UInt8) (input : List (UInt8 × (Nat → UInt8)))
    (hinput : input.map Prod.fst = symbols.flatMap encode) :
    messages (getMsgs maxLen buffers (symbols.flatMap encode)) = ms ∧
      messages (output (putNext maxLen) started input) = ms := by
  have hreceive := receive_carries h hlen
  rw [getMsgs_eq, putNext_eq, hinput, idle, (decode_symbols maxLen false none symbols).2,
    (decode_symbols maxLen true none symbols).2]
  exact ⟨hreceive, hreceive⟩

/-- Two messages with all kinds of insertions. -/
theorem deliver_carried_inserted :
    let symbols : List Symbol := [.data 0xFE, .bom, .other ⟨0x10, by decide⟩, .data 0xFE, .data 3,
      .eom, .data 2, .other ⟨0xAA, by decide⟩, .bom, .eom]
    messages (getMsgs 2 (fun _ _ => 0) (symbols.flatMap encode)) = [[0xFE, 3], []] ∧
      messages (output (putNext 2) started ((symbols.flatMap encode).map (·, fun _ => 0))) =
        [[0xFE, 3], []] := by
  refine deliver_carried ?_ (by decide) _ _ (by decide)
  exact .data _ (.frame (.other _ (.data _ (.data _ .nil))) (.data _ (.other _
    (.frame .nil .nil))))

section Resynchronisation

def trailingMarks (g : List UInt8) : Nat := (g.reverse.takeWhile (· = 0xFE)).length

/-- After the bytes `g` both receivers deliver any message that fits. -/
def Recovers (maxLen : Int) (g : List UInt8) : Prop :=
  ∀ m : List UInt8, (m.length : Int) ≤ maxLen →
    (∀ buffers : Nat → Nat → UInt8,
      (messages (getMsgs maxLen buffers (g ++ sendMsg m))).getLast? = some m) ∧
    ∀ input : List (UInt8 × (Nat → UInt8)), input.map Prod.fst = g ++ sendMsg m →
      (messages (output (putNext maxLen) started input)).getLast? = some m

variable (maxLen : Int)

theorem trailingMarks_concat (g : List UInt8) (c : UInt8) :
    trailingMarks (g ++ [c]) = if c = 0xFE then trailingMarks g + 1 else 0 := by
  rw [trailingMarks, List.reverse_append, List.reverse_singleton, List.singleton_append,
    List.takeWhile_cons]
  by_cases hc : c = 0xFE
  · simp [hc, trailingMarks]
  · simp [hc]

/-- Of the marks in a row every second one is taken for a code. -/
theorem marked_iff (g : List UInt8) :
    (after (decode maxLen false) idle g).marked = true ↔ ¬Even (trailingMarks g) := by
  induction g using List.reverseRecOn with
  | nil => simp [idle, trailingMarks]
  | append_singleton g c ih =>
    rw [trailingMarks_concat, after_append, after_cons, after_nil]
    generalize after (decode maxLen false) idle g = s at ih
    obtain ⟨marked, message⟩ := s
    by_cases hc : c = 0xFE
    · subst hc
      cases marked with
      | false =>
        rw [decode_mark, if_pos rfl, Nat.even_add_one, not_not]
        simpa using ih
      | true =>
        rw [decode_code maxLen false message (by simp), if_pos rfl, Nat.even_add_one]
        simpa using ih
    · cases marked with
      | false => simp [decode_plain maxLen false message hc, hc]
      | true => simp [decode_code maxLen false message, hc]

variable {maxLen}

theorem decode_sendMsg (again : Bool) (s : Decoder) (hs : s.marked = true → again = true)
    {m : List UInt8} (hlen : (m.length : Int) ≤ maxLen) :
    messages (output (decode maxLen again) s (sendMsg m)) = [m] := by
  have hfirst : output (decode maxLen again) s (sendMsg m) =
      output (decode maxLen again) ⟨false, s.message⟩ (sendMsg m) := by
    obtain ⟨marked, message⟩ := s
    cases marked with
    | false => rfl
    | true =>
      rw [hs rfl]
      rfl
  rw [hfirst, sendMsg_eq, (decode_symbols maxLen again _ _).2]
  exact receive_frame (interleaved_data m) hlen s.message []

theorem decode_sendMsg_marked (message : Option (List UInt8)) (m : List UInt8) :
    messages (output (decode maxLen false) ⟨true, message⟩ (sendMsg m)) =
      messages (output (receive maxLen) (store maxLen 0x02 message) (m.map .data ++ [.eom])) := by
  have hbytes : sendMsg m =
      0xFE :: (Symbol.data 0x02 :: m.map Symbol.data ++ [Symbol.eom]).flatMap encode := by
    rw [sendMsg_eq]
    rfl
  rw [hbytes, output_cons, decode_code maxLen false message (by simp), messages_append,
    (decode_symbols maxLen false _ _).2]
  rfl

theorem receive_data_none (m : List UInt8) :
    output (receive maxLen) none (m.map .data ++ [.eom]) = [] := by
  induction m with
  | nil => rfl
  | cons c m ih => exact ih

theorem even_of_recovers {g : List UInt8} (hmax : 0 < maxLen) (h : Recovers maxLen g) :
    Even (trailingMarks g) := by
  by_contra hodd
  have hmarked := (marked_iff maxLen g).mpr hodd
  have hlast : ∀ m : List UInt8, (m.length : Int) ≤ maxLen →
      (messages (output (decode maxLen false) idle g) ++ messages (output (receive maxLen)
        (store maxLen 0x02 (after (decode maxLen false) idle g).message)
          (m.map .data ++ [.eom]))).getLast? = some m := by
    intro m hm
    have hsync := (h m hm).1 (fun _ _ => 0)
    have hstate : after (decode maxLen false) idle g =
        ⟨true, (after (decode maxLen false) idle g).message⟩ := by
      rw [← hmarked]
    rw [getMsgs_eq, output_append, messages_append] at hsync
    rwa [hstate, decode_sendMsg_marked] at hsync
  have hnil := hlast [] (by simpa using hmax.le)
  cases hmessage : (after (decode maxLen false) idle g).message with
  | none =>
    have hone := hlast [0] (Int.add_one_le_of_lt hmax)
    simp only [hmessage, store, Option.map_none, receive_data_none] at hnil hone
    rw [hnil] at hone
    simp at hone
  | some m =>
    rw [hmessage] at hnil
    by_cases hroom : (m.length : Int) < maxLen
    · rw [store_append 0x02 hroom] at hnil
      simp [receive, messages] at hnil
    · have hfull : store maxLen 0x02 (some m) = some m := by simp [store, hroom]
      rw [hfull] at hnil
      obtain rfl : m = [] := by simpa [receive, messages] using hnil
      exact hroom hmax

/-- The receiver that is given the bytes one by one recovers from anything. The
one that fetches them recovers if the marks at the end of it pair up. -/
theorem recovers_iff (maxLen : Int) (g : List UInt8) :
    (∀ m : List UInt8, (m.length : Int) ≤ maxLen →
      ∀ input : List (UInt8 × (Nat → UInt8)), input.map Prod.fst = g ++ sendMsg m →
        (messages (output (putNext maxLen) started input)).getLast? = some m) ∧
    (Even (trailingMarks g) → Recovers maxLen g) ∧
    (0 < maxLen → Recovers maxLen g → Even (trailingMarks g)) := by
  have hasync : ∀ m : List UInt8, (m.length : Int) ≤ maxLen →
      ∀ input : List (UInt8 × (Nat → UInt8)), input.map Prod.fst = g ++ sendMsg m →
        (messages (output (putNext maxLen) started input)).getLast? = some m := by
    intro m hm input hinput
    rw [putNext_eq, hinput, output_append, messages_append,
      decode_sendMsg true _ (fun _ => rfl) hm]
    simp
  refine ⟨hasync, fun heven m hm => ⟨fun buffers => ?_, hasync m hm⟩, even_of_recovers⟩
  have hmarked : (after (decode maxLen false) idle g).marked = true → false = true := by
    intro hmarked
    exact absurd heven ((marked_iff maxLen g).mp hmarked)
  rw [getMsgs_eq, output_append, messages_append, decode_sendMsg false _ hmarked hm]
  simp

/-- A single mark before the frame hides the message of one byte. -/
theorem not_recovers_mark : ¬Recovers 1300 [0xFE] := by
  intro h
  have hlast := (h [7] (by decide)).1 (fun _ _ => 0)
  rw [getMsgs_eq] at hlast
  revert hlast
  decide +kernel

end Resynchronisation

section Agreement

def NoDoubleMark (input : List UInt8) : Prop :=
  input.IsChain fun c d => ¬(c = 0xFE ∧ d = 0xFE)

theorem decode_again (maxLen : Int) (input : List UInt8) (h : NoDoubleMark input) (s : Decoder)
    (hs : s.marked = true → input.head? ≠ some 0xFE) :
    output (decode maxLen true) s input = output (decode maxLen false) s input := by
  induction input generalizing s with
  | nil => rfl
  | cons c input ih =>
    have hstep : decode maxLen true s c = decode maxLen false s c := by
      unfold decode
      by_cases hmarked : s.marked = true
      · have hc : c ≠ 0xFE := by simpa using hs hmarked
        simp [hc]
      · simp [hmarked]
    have hnext : (decode maxLen false s c).1.marked = true → c = 0xFE := by
      rw [decode]
      split
      · simp
      · split
        · rename_i hc
          exact fun _ => hc
        · rename_i hmarked _
          exact fun hmark => absurd hmark hmarked
    obtain ⟨hhead, htail⟩ := List.isChain_cons.mp h
    rw [output_cons, output_cons, hstep, ih htail]
    intro hmark hfirst
    exact hhead 0xFE hfirst ⟨hnext hmark, rfl⟩

/-- The two receivers tell the application the same about a stream in which no
mark follows a mark. -/
theorem receivers_agree (maxLen : Int) (buffers : Nat → Nat → UInt8)
    (input : List (UInt8 × (Nat → UInt8))) (h : NoDoubleMark (input.map Prod.fst)) :
    output (putNext maxLen) started input = getMsgs maxLen buffers (input.map Prod.fst) := by
  rw [putNext_eq, getMsgs_eq]
  exact decode_again maxLen _ h idle (by simp [idle])

theorem receivers_agree_unframed :
    let input : List (UInt8 × (Nat → UInt8)) :=
      [3, 0xFE, 0x10, 0xFE, 2, 5, 0xFE, 2, 6, 7, 8, 0xFE, 3].map (·, fun _ => 0)
    NoDoubleMark (input.map Prod.fst) ∧
      output (putNext 2) started input = getMsgs 2 (fun _ _ => 0) (input.map Prod.fst) := by
  have h : NoDoubleMark [3, 0xFE, 0x10, 0xFE, 2, 5, 0xFE, 2, 6, 7, 8, 0xFE, 3] := by
    rw [NoDoubleMark]
    decide
  exact ⟨h, receivers_agree 2 _ _ h⟩

end Agreement

end Rodos.S3pRoundTrip
