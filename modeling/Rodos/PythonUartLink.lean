import Rodos.S3pRoundTrip

namespace Rodos.PythonUartLink

open S3pFraming S3pReceivers S3pRoundTrip Transducer

structure ReceiveLoop where
  inputbuffer : List UInt8
  lastWasMark : Bool
  deriving DecidableEq

def ReceiveLoop.fresh : ReceiveLoop := ⟨[], false⟩

/-- What the loop does with a byte that it reads and what it puts in the queue. -/
def receiveByte (r : ReceiveLoop) (b : UInt8) : ReceiveLoop × List (List UInt8) :=
  if b = 0xFE then ({ r with lastWasMark := true }, [])
  else if b = 0x02 ∧ r.lastWasMark then ({ r with lastWasMark := false }, [])
  else if b = 0x7E ∧ r.lastWasMark then (⟨r.inputbuffer ++ [0xFE], false⟩, [])
  else if b = 0x03 ∧ r.lastWasMark then (.fresh, [r.inputbuffer])
  else ({ r with inputbuffer := r.inputbuffer ++ [b] }, [])

def receiveLoop (input : List UInt8) : List (List UInt8) := output receiveByte .fresh input

/-- The loop as it treats one symbol after the other. A mark that an other
command leaves behind still counts when the next data arrives. -/
def receiveSymbol (r : ReceiveLoop) : Symbol → ReceiveLoop × List (List UInt8)
  | .bom => ({ r with lastWasMark := false }, [])
  | .eom => (.fresh, [r.inputbuffer])
  | .data c => if c = 0xFE then (⟨r.inputbuffer ++ [0xFE], false⟩, []) else receiveByte r c
  | .other code => (⟨r.inputbuffer ++ [code.val], true⟩, [])

theorem receiveByte_encode (r : ReceiveLoop) (symbol : Symbol) :
    after receiveByte r (encode symbol) = (receiveSymbol r symbol).1 ∧
      output receiveByte r (encode symbol) = (receiveSymbol r symbol).2 := by
  cases symbol with
  | bom => exact ⟨rfl, rfl⟩
  | eom => exact ⟨rfl, rfl⟩
  | data c =>
    simp only [encode, putDataByte, toUInt16_eq_mark, receiveSymbol]
    by_cases hc : c = 0xFE
    · rw [if_pos hc, if_pos hc]
      exact ⟨rfl, rfl⟩
    · simp [if_neg hc]
  | other code =>
    obtain ⟨d, h02, h03, h7E, hFE⟩ := code
    simp [encode, receiveSymbol, receiveByte, h02, h03, h7E, hFE]

theorem receiveLoop_symbols (symbols : List Symbol) :
    receiveLoop (symbols.flatMap encode) = output receiveSymbol .fresh symbols := by
  refine (simulates Eq encode symbols ?_ rfl).2
  rintro symbol - r _ rfl
  exact receiveByte_encode r symbol

section Stream

/-- A frame that arrives whole and what came since the one before it: frames
cut short, data and other commands. -/
structure Piece where
  before : List Symbol
  message : List UInt8
  body : List Symbol
  before_open : Symbol.eom ∉ before
  interleaved : Interleaved message body
  fits : message.length ≤ 1300

def Piece.symbols (p : Piece) : List Symbol := p.before ++ .bom :: p.body ++ [.eom]

structure Stream where
  pieces : List Piece
  rest : List Symbol
  rest_open : Symbol.eom ∉ rest

def Stream.symbols (s : Stream) : List Symbol := s.pieces.flatMap Piece.symbols ++ s.rest

def Stream.bytes (s : Stream) : List UInt8 := s.symbols.flatMap encode

/-- Nothing but the beginnings of frames, and then a frame of nothing but data. -/
def Piece.Plain (p : Piece) : Prop :=
  (∀ symbol ∈ p.before, symbol = .bom) ∧ ∀ symbol ∈ p.body, ∃ c, symbol = .data c

def Passes : Symbol → Prop
  | .bom | .eom => False
  | .data c => c ≠ 0x02 ∧ c ≠ 0x7E ∧ c ≠ 0xFE
  | .other _ => True

def Premature (symbols : List Symbol) : Prop :=
  ∃ start code middle tail, symbols = start ++ .other code :: middle ++ .data 0x03 :: tail ∧
    ∀ symbol ∈ middle, Passes symbol

end Stream

section Delivered

theorem messages_open {maxLen : Int} {symbols : List Symbol} (h : Symbol.eom ∉ symbols)
    (message : Option (List UInt8)) : messages (output (receive maxLen) message symbols) = [] := by
  induction symbols generalizing message with
  | nil => rfl
  | cons symbol symbols ih =>
    rw [List.mem_cons, not_or] at h
    rw [output_cons, messages_append, ih h.2]
    cases symbol with
    | eom => exact absurd rfl h.1
    | bom | data c | other code => rfl

theorem messages_piece (p : Piece) (message : Option (List UInt8)) (symbols : List Symbol) :
    messages (output (receive 1300) message (p.symbols ++ symbols)) =
      p.message :: messages (output (receive 1300) none symbols) := by
  have hfits : (p.message.length : Int) ≤ 1300 := by exact_mod_cast p.fits
  rw [Piece.symbols, List.append_assoc, List.append_assoc, output_append, messages_append,
    messages_open p.before_open]
  exact receive_frame p.interleaved hfits _ symbols

theorem messages_stream (s : Stream) (buffers : Nat → Nat → UInt8) :
    messages (getMsgs 1300 buffers s.bytes) = s.pieces.map Piece.message := by
  rw [getMsgs_eq, idle, Stream.bytes, (decode_symbols 1300 false none _).2, Stream.symbols]
  induction s.pieces with
  | nil => exact messages_open s.rest_open none
  | cons p pieces ih =>
    rw [List.flatMap_cons, List.append_assoc, messages_piece, ih]
    rfl

end Delivered

section Astray

def Differ (xs ys : List UInt8) : Prop :=
  ∃ front x xs' y ys', xs = front ++ x :: xs' ∧ ys = front ++ y :: ys' ∧ x ≠ y

theorem Differ.append {xs ys : List UInt8} (h : Differ xs ys) (xs' ys' : List UInt8) :
    Differ (xs ++ xs') (ys ++ ys') := by
  obtain ⟨front, x, as, y, bs, rfl, rfl, hne⟩ := h
  exact ⟨front, x, as ++ xs', y, bs ++ ys', by simp, by simp, hne⟩

theorem Differ.ne {xs ys : List UInt8} (h : Differ xs ys) : xs ≠ ys := by
  obtain ⟨front, x, as, y, bs, rfl, rfl, hne⟩ := h
  simp [hne]

theorem differ_shift {x y : UInt8} (h : x ≠ y) (front cs : List UInt8) :
    Differ (front ++ x :: cs) (front ++ cs ++ [y]) := by
  induction cs generalizing front with
  | nil => exact ⟨front, x, [], y, [], by simp, by simp, h⟩
  | cons c cs ih =>
    by_cases hc : x = c
    · subst hc
      have hnext := ih (front ++ [x])
      simpa using hnext
    · exact ⟨front, x, c :: cs, c, cs ++ [y], by simp, by simp, hc⟩

/-- The buffer will not be the message any more, whatever follows: it has the
code of a command too much and only a single byte can be dropped, or it has
more too much than can be dropped, or it is wrong somewhere. -/
def Astray (r : ReceiveLoop) (message : List UInt8) : Prop :=
  (r.lastWasMark = true ∧ ∃ front code cs, r.inputbuffer = front ++ code :: cs ∧
    message = front ++ cs ∧ code ≠ 0x02) ∨
  message.length + r.lastWasMark.toNat < r.inputbuffer.length ∨
  Differ r.inputbuffer message

theorem Astray.ne {r : ReceiveLoop} {message : List UInt8} (h : Astray r message) :
    r.inputbuffer ≠ message := by
  obtain ⟨-, front, code, cs, hbuffer, rfl, -⟩ | hlong | hdiffer := h
  · rw [hbuffer]
    simp
  · intro heq
    rw [heq] at hlong
    omega
  · exact hdiffer.ne

theorem receiveSymbol_data (r : ReceiveLoop) (c : UInt8) (h : (receiveSymbol r (.data c)).2 = []) :
    (r.lastWasMark = true ∧ c = 0x02 ∧
      (receiveSymbol r (.data c)).1 = ⟨r.inputbuffer, false⟩) ∨
    ((receiveSymbol r (.data c)).1 = ⟨r.inputbuffer ++ [0xFE], false⟩) ∨
    (receiveSymbol r (.data c)).1 = ⟨r.inputbuffer ++ [c], r.lastWasMark⟩ := by
  revert h
  rw [receiveSymbol, receiveByte]
  grind

theorem Astray.data {r : ReceiveLoop} {message : List UInt8} (h : Astray r message) (c : UInt8)
    (hout : (receiveSymbol r (.data c)).2 = []) :
    Astray (receiveSymbol r (.data c)).1 (message ++ [c]) := by
  have hle : r.lastWasMark.toNat ≤ 1 := Bool.toNat_le r.lastWasMark
  obtain ⟨hmark, rfl, hnext⟩ | hnext | hnext := receiveSymbol_data r c hout
  · rw [hnext]
    obtain ⟨-, front, code, cs, hbuffer, rfl, hcode⟩ | hlong | hdiffer := h
    · rw [hbuffer]
      exact .inr (.inr (differ_shift hcode front cs))
    · refine .inr (.inl ?_)
      rw [hmark] at hlong
      simpa using hlong
    · exact .inr (.inr (by simpa using hdiffer.append [] [0x02]))
  · rw [hnext]
    obtain ⟨hmark, front, code, cs, hbuffer, rfl, hcode⟩ | hlong | hdiffer := h
    · refine .inr (.inl ?_)
      simp [hbuffer]
    · refine .inr (.inl ?_)
      simp only [List.length_append, List.length_singleton, Bool.toNat_false]
      omega
    · exact .inr (.inr (hdiffer.append [0xFE] [c]))
  · rw [hnext]
    obtain ⟨hmark, front, code, cs, hbuffer, rfl, hcode⟩ | hlong | hdiffer := h
    · exact .inl ⟨hmark, front, code, cs ++ [c], by simp [hbuffer], by simp, hcode⟩
    · refine .inr (.inl ?_)
      simp only [List.length_append, List.length_singleton]
      omega
    · exact .inr (.inr (hdiffer.append [c] [c]))

theorem Astray.other {r : ReceiveLoop} {message : List UInt8} (h : Astray r message)
    (code : OtherCode) : Astray (receiveSymbol r (.other code)).1 message := by
  have hle : r.lastWasMark.toNat ≤ 1 := Bool.toNat_le r.lastWasMark
  obtain ⟨hmark, front, code', cs, hbuffer, rfl, hcode⟩ | hlong | hdiffer := h
  · refine .inr (.inl ?_)
    simp only [receiveSymbol, hbuffer, List.length_append, List.length_cons, List.length_nil,
      Bool.toNat_true]
    omega
  · refine .inr (.inl ?_)
    simp only [receiveSymbol, List.length_append, List.length_singleton, Bool.toNat_true]
    omega
  · exact .inr (.inr (by simpa [receiveSymbol] using hdiffer.append [code.val] []))

/-- Once astray the buffer stays so until a message ends. -/
theorem Astray.body {m message : List UInt8} {body : List Symbol} (hbody : Interleaved m body)
    {r : ReceiveLoop} (h : Astray r message) (hout : output receiveSymbol r body = []) :
    Astray (after receiveSymbol r body) (message ++ m) := by
  induction hbody generalizing r message with
  | nil => simpa using h
  | data c _ ih =>
    rw [output_cons, List.append_eq_nil_iff] at hout
    have hnext := ih (h.data c hout.1) hout.2
    simpa using hnext
  | other code _ ih =>
    rw [output_cons, List.append_eq_nil_iff] at hout
    exact ih (h.other code) hout.2

end Astray

section Pieces

theorem receiveSymbol_data_unmarked (buffer : List UInt8) (c : UInt8) :
    receiveSymbol ⟨buffer, false⟩ (.data c) = (⟨buffer ++ [c], false⟩, []) := by
  rw [receiveSymbol, receiveByte]
  grind

/-- In a frame the buffer keeps up with the message until an other command
comes. -/
theorem body_cases {m : List UInt8} {body : List Symbol} (h : Interleaved m body)
    (message : List UInt8) (hout : output receiveSymbol ⟨message, false⟩ body = []) :
    ((∀ symbol ∈ body, ∃ c, symbol = .data c) ∧
      after receiveSymbol ⟨message, false⟩ body = ⟨message ++ m, false⟩) ∨
    Astray (after receiveSymbol ⟨message, false⟩ body) (message ++ m) := by
  induction h generalizing message with
  | nil => exact .inl ⟨by simp, by simp⟩
  | data c _ ih =>
    rw [output_cons, receiveSymbol_data_unmarked] at hout
    rw [after_cons, receiveSymbol_data_unmarked]
    obtain ⟨hdata, hafter⟩ | hastray := ih (message ++ [c]) hout
    · exact .inl ⟨by simpa using hdata, by simpa using hafter⟩
    · exact .inr (by simpa using hastray)
  | other code hbody _ =>
    rw [output_cons, List.append_eq_nil_iff] at hout
    have hastray : Astray (receiveSymbol ⟨message, false⟩ (.other code)).1 message :=
      .inl ⟨rfl, message, code.val, [], rfl, by simp, code.property.1⟩
    exact .inr (hastray.body hbody hout.2)

theorem inputbuffer_ne_nil {symbols : List Symbol} (h : Symbol.eom ∉ symbols) {r : ReceiveLoop}
    (hout : output receiveSymbol r symbols = []) (hr : r.inputbuffer ≠ []) :
    (after receiveSymbol r symbols).inputbuffer ≠ [] := by
  induction symbols generalizing r with
  | nil => exact hr
  | cons symbol symbols ih =>
    rw [output_cons, List.append_eq_nil_iff] at hout
    rw [List.mem_cons, not_or] at h
    refine ih h.2 hout.2 ?_
    cases symbol with
    | eom => exact absurd rfl h.1
    | bom => exact hr
    | other code => simp [receiveSymbol]
    | data c =>
      obtain ⟨-, -, hnext⟩ | hnext | hnext := receiveSymbol_data r c hout.1
      · simpa [hnext] using hr
      · simp [hnext]
      · simp [hnext]

/-- Before a frame the buffer stays empty if only beginnings of frames come. -/
theorem before_cases {symbols : List Symbol} (h : Symbol.eom ∉ symbols)
    (hout : output receiveSymbol .fresh symbols = []) :
    ((∀ symbol ∈ symbols, symbol = .bom) ∧ after receiveSymbol .fresh symbols = .fresh) ∨
      (after receiveSymbol .fresh symbols).inputbuffer ≠ [] := by
  induction symbols with
  | nil => exact .inl ⟨by simp, rfl⟩
  | cons symbol symbols ih =>
    rw [output_cons, List.append_eq_nil_iff] at hout
    rw [List.mem_cons, not_or] at h
    cases symbol with
    | eom => exact absurd rfl h.1
    | bom =>
      obtain ⟨hbom, hafter⟩ | hne := ih h.2 hout.2
      · exact .inl ⟨by simpa using hbom, hafter⟩
      · exact .inr hne
    | data c =>
      have hnext : (receiveSymbol .fresh (.data c)).1.inputbuffer ≠ [] := by
        rw [ReceiveLoop.fresh, receiveSymbol_data_unmarked]
        simp
      exact .inr (inputbuffer_ne_nil h.2 hout.2 hnext)
    | other code => exact .inr (inputbuffer_ne_nil h.2 hout.2 (by simp [receiveSymbol]))

theorem output_piece (p : Piece) :
    output receiveSymbol .fresh p.symbols =
        output receiveSymbol .fresh (p.before ++ .bom :: p.body) ++
          [(after receiveSymbol .fresh (p.before ++ .bom :: p.body)).inputbuffer] ∧
      after receiveSymbol .fresh p.symbols = .fresh := by
  constructor
  · exact output_append receiveSymbol .fresh (p.before ++ .bom :: p.body) [.eom]
  · exact after_append receiveSymbol .fresh (p.before ++ .bom :: p.body) [.eom]

theorem output_boms {symbols : List Symbol} (h : ∀ symbol ∈ symbols, symbol = .bom) :
    output receiveSymbol .fresh symbols = [] ∧ after receiveSymbol .fresh symbols = .fresh := by
  induction symbols with
  | nil => exact ⟨rfl, rfl⟩
  | cons symbol symbols ih =>
    obtain ⟨rfl, hsymbols⟩ := List.forall_mem_cons.mp h
    exact ih hsymbols

theorem output_data {m : List UInt8} {body : List Symbol} (h : Interleaved m body)
    (hdata : ∀ symbol ∈ body, ∃ c, symbol = .data c) (message : List UInt8) :
    output receiveSymbol ⟨message, false⟩ body = [] ∧
      after receiveSymbol ⟨message, false⟩ body = ⟨message ++ m, false⟩ := by
  induction h generalizing message with
  | nil => simp
  | data c _ ih =>
    obtain ⟨-, hbody⟩ := List.forall_mem_cons.mp hdata
    rw [output_cons, after_cons, receiveSymbol_data_unmarked]
    simpa using ih hbody (message ++ [c])
  | other code _ _ =>
    obtain ⟨c, hc⟩ := hdata _ (List.mem_cons_self ..)
    cases hc

theorem output_plain {p : Piece} (h : p.Plain) :
    output receiveSymbol .fresh p.symbols = [p.message] := by
  obtain ⟨hout, hafter⟩ := output_boms h.1
  obtain ⟨hout', hafter'⟩ := output_data p.interleaved h.2 []
  rw [(output_piece p).1, output_append, after_append, hout, hafter, output_cons, after_cons]
  exact congrArg₂ (fun out (r : ReceiveLoop) => [] ++ ([] ++ out) ++ [r.inputbuffer]) hout' hafter'

theorem plain_of_output {p : Piece} (h : output receiveSymbol .fresh p.symbols = [p.message]) :
    p.Plain := by
  rw [(output_piece p).1] at h
  obtain ⟨hout, hbuffer⟩ := List.append_inj' (h.trans (List.nil_append [p.message]).symm) rfl
  rw [output_append, output_cons, List.append_eq_nil_iff, List.append_eq_nil_iff] at hout
  obtain ⟨hbefore, -, hbody⟩ := hout
  rw [after_append, after_cons, List.cons.injEq] at hbuffer
  obtain ⟨hbom, hfresh⟩ | hne := before_cases p.before_open hbefore
  · rw [hfresh] at hbody hbuffer
    obtain ⟨hdata, -⟩ | hastray := body_cases p.interleaved [] hbody
    · exact ⟨hbom, hdata⟩
    · exact absurd hbuffer.1 hastray.ne
  · have hastray : Astray
        (receiveSymbol (after receiveSymbol .fresh p.before) .bom).1 [] :=
      .inr (.inl (List.length_pos_iff.mpr hne))
    exact absurd hbuffer.1 (hastray.body p.interleaved hbody).ne

end Pieces

section Rest

def Ended (symbols : List Symbol) : Prop :=
  ∃ middle tail, symbols = middle ++ .data 0x03 :: tail ∧ ∀ symbol ∈ middle, Passes symbol

theorem ended_nil : ¬Ended [] := by
  rintro ⟨middle, tail, h, -⟩
  simp at h

theorem ended_cons (symbol : Symbol) (symbols : List Symbol) :
    Ended (symbol :: symbols) ↔ symbol = .data 0x03 ∨ Passes symbol ∧ Ended symbols := by
  constructor
  · rintro ⟨middle, tail, h, hmiddle⟩
    cases middle with
    | nil =>
      obtain ⟨rfl, -⟩ := List.cons.inj h
      exact .inl rfl
    | cons s middle =>
      obtain ⟨rfl, rfl⟩ := List.cons.inj h
      obtain ⟨hs, hmiddle⟩ := List.forall_mem_cons.mp hmiddle
      exact .inr ⟨hs, middle, tail, rfl, hmiddle⟩
  · rintro (rfl | ⟨hsymbol, middle, tail, rfl, hmiddle⟩)
    · exact ⟨[], symbols, rfl, by simp⟩
    · exact ⟨symbol :: middle, tail, rfl, List.forall_mem_cons.mpr ⟨hsymbol, hmiddle⟩⟩

theorem premature_nil : ¬Premature [] := by
  rintro ⟨start, code, middle, tail, h, -⟩
  simp at h

theorem premature_cons (symbol : Symbol) (symbols : List Symbol) :
    Premature (symbol :: symbols) ↔
      (∃ code, symbol = .other code) ∧ Ended symbols ∨ Premature symbols := by
  constructor
  · rintro ⟨start, code, middle, tail, h, hmiddle⟩
    cases start with
    | nil =>
      obtain ⟨rfl, rfl⟩ := List.cons.inj h
      exact .inl ⟨⟨code, rfl⟩, middle, tail, rfl, hmiddle⟩
    | cons s start =>
      obtain ⟨rfl, rfl⟩ := List.cons.inj h
      exact .inr ⟨start, code, middle, tail, rfl, hmiddle⟩
  · rintro (⟨⟨code, rfl⟩, middle, tail, rfl, hmiddle⟩ | ⟨start, code, middle, tail, rfl, hmiddle⟩)
    · exact ⟨[], code, middle, tail, rfl, hmiddle⟩
    · exact ⟨symbol :: start, code, middle, tail, rfl, hmiddle⟩

theorem output_open_iff {symbols : List Symbol} (h : Symbol.eom ∉ symbols) (r : ReceiveLoop) :
    output receiveSymbol r symbols = [] ↔
      ¬(Premature symbols ∨ r.lastWasMark = true ∧ Ended symbols) := by
  induction symbols generalizing r with
  | nil => simp [premature_nil, ended_nil]
  | cons symbol symbols ih =>
    rw [List.mem_cons, not_or] at h
    rw [output_cons, List.append_eq_nil_iff, ih h.2, premature_cons, ended_cons]
    obtain ⟨buffer, mark⟩ := r
    cases symbol with
    | eom => exact absurd rfl h.1
    | bom => simp [receiveSymbol, Passes]
    | other code => simp [receiveSymbol, Passes]; tauto
    | data c =>
      simp only [receiveSymbol, receiveByte, Passes]
      grind

end Rest

section Queue

theorem append_eq_cons {α : Type} {xs ys zs : List α} {x : α} (h : xs ++ ys = x :: zs)
    (hne : xs ≠ []) (hlen : zs.length ≤ ys.length) : xs = [x] ∧ ys = zs := by
  cases xs with
  | nil => exact absurd rfl hne
  | cons x' xs =>
    rw [List.cons_append, List.cons.injEq] at h
    obtain ⟨rfl, htail⟩ := h
    have hsum := congrArg List.length htail
    rw [List.length_append] at hsum
    obtain rfl : xs = [] := List.length_eq_zero_iff.mp (by omega)
    exact ⟨rfl, htail⟩

variable {rest : List Symbol}

theorem output_pieces (p : Piece) (pieces : List Piece) (rest : List Symbol) :
    output receiveSymbol .fresh ((p :: pieces).flatMap Piece.symbols ++ rest) =
      output receiveSymbol .fresh p.symbols ++
        output receiveSymbol .fresh (pieces.flatMap Piece.symbols ++ rest) := by
  rw [List.flatMap_cons, List.append_assoc, output_append, (output_piece p).2]

theorem output_piece_ne_nil (p : Piece) : output receiveSymbol .fresh p.symbols ≠ [] := by
  simp [(output_piece p).1]

theorem length_output_pieces (pieces : List Piece) (rest : List Symbol) :
    pieces.length ≤
      (output receiveSymbol .fresh (pieces.flatMap Piece.symbols ++ rest)).length := by
  induction pieces with
  | nil => exact Nat.zero_le _
  | cons p pieces ih =>
    have hpos := List.length_pos_iff.mpr (output_piece_ne_nil p)
    rw [output_pieces, List.length_append, List.length_cons]
    omega

theorem output_pieces_iff (hrest : Symbol.eom ∉ rest) (pieces : List Piece) :
    output receiveSymbol .fresh (pieces.flatMap Piece.symbols ++ rest) =
        pieces.map Piece.message ↔
      (∀ p ∈ pieces, p.Plain) ∧ ¬Premature rest := by
  induction pieces with
  | nil => simpa [ReceiveLoop.fresh] using output_open_iff hrest .fresh
  | cons p pieces ih =>
    rw [output_pieces, List.map_cons, List.forall_mem_cons, and_assoc, ← ih]
    constructor
    · intro h
      obtain ⟨hp, hpieces⟩ := append_eq_cons h (output_piece_ne_nil p)
        (by simpa using length_output_pieces pieces rest)
      exact ⟨plain_of_output hp, hpieces⟩
    · rintro ⟨hp, hpieces⟩
      rw [output_plain hp, hpieces]
      rfl

end Queue

/-- The queue holds what `getMsg` delivers if each frame follows the one before
it or the bare beginnings of others, no other command comes up to its end, and
none after the last frame turns a data byte into an end. -/
theorem queue_eq_iff (s : Stream) (buffers : Nat → Nat → UInt8) :
    receiveLoop s.bytes = messages (getMsgs 1300 buffers s.bytes) ↔
      (∀ p ∈ s.pieces, p.Plain) ∧ ¬Premature s.rest := by
  rw [messages_stream, Stream.bytes, receiveLoop_symbols, Stream.symbols]
  exact output_pieces_iff s.rest_open s.pieces

/-- A frame of one byte and the frame of another message, cut short before it. -/
def damaged : Stream where
  pieces := [⟨[.bom, .data 1, .data 2], [7], [.data 7], by decide, .data 7 .nil, by decide⟩]
  rest := []
  rest_open := by decide

/-- The bytes of the frame that was cut short are put before the message. -/
theorem queue_ne_damaged :
    receiveLoop damaged.bytes ≠ messages (getMsgs 1300 (fun _ _ => 0) damaged.bytes) := by
  rw [getMsgs_eq]
  decide +kernel

end Rodos.PythonUartLink
