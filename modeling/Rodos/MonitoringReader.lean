import Rodos.AccessTrace

namespace Rodos.MonitoringReader

open AccessTrace Traced

def maxParams : Nat := 64

structure MonitoringMsg where
  numOfParamsToSend : UInt8
  numOfParamsDeserialized : UInt8
  params : Vector UInt8 maxParams

section Methods

/-- The zero after some bytes of memory, with the places read on the way. Where the memory
ends without one, the search has no result. -/
def strlen (i : Nat) : List UInt8 → Traced Nat (Option Nat)
  | [] => do
    touch i
    pure none
  | b :: memory => do
    touch i
    if b = 0 then pure (some 0)
    else do
      let len ← strlen (i + 1) memory
      pure (len.map (· + 1))

def copy (memory : List UInt8) (i len : Nat) : Traced Nat (List UInt8) := do
  Traced.spread (fun _ => List.range' i len) (touch ())
  pure ((memory.drop i).take len)

-- What lies behind the message in memory, and the number of bits of a `size_t`.
variable (behind : List UInt8) {w : Nat}

namespace MonitoringMsg

def memory (msg : MonitoringMsg) : List UInt8 := msg.params.toList ++ behind

/-- The bytes written to `dest`, `none` if false is returned. -/
def deserialize (len : BitVec w) (msg : MonitoringMsg) :
    Traced Nat (Option (List UInt8) × MonitoringMsg) :=
  let newEnd := BitVec.ofNat w msg.numOfParamsDeserialized.toNat + len
  if newEnd.toNat > msg.numOfParamsToSend.toNat then pure (none, msg)
  else do
    let bytes ← copy (msg.memory behind) msg.numOfParamsDeserialized.toNat len.toNat
    pure (some bytes, { msg with numOfParamsDeserialized := UInt8.ofNat newEnd.toNat })

/-- The index in `params` of the pointer returned. -/
def deserializeNoCopy (len : BitVec w) (msg : MonitoringMsg) : Nat × MonitoringMsg :=
  let newEnd := BitVec.ofNat w msg.numOfParamsDeserialized.toNat + len
  (msg.numOfParamsDeserialized.toNat,
    { msg with numOfParamsDeserialized := UInt8.ofNat newEnd.toNat })

/-- The length of the string at the cursor and its zero. -/
def stringLen (w : Nat) (msg : MonitoringMsg) : Traced Nat (Option (BitVec w)) := do
  let i := msg.numOfParamsDeserialized.toNat
  let len ← strlen i ((msg.memory behind).drop i)
  pure (len.map fun len => BitVec.ofNat w len + 1)

end MonitoringMsg

/-- The four reading functions; `deserializeString` is there with a destination and
without. -/
inductive Call (w : Nat)
  | deserialize (len : BitVec w)
  | deserializeNoCopy (len : BitVec w)
  | deserializeStringTo
  | deserializeString

/-- The message after a call, with the place of what has been returned by pointer and its
length. -/
structure Outcome where
  message : MonitoringMsg
  region : Option (Nat × Nat)

open MonitoringMsg

def copyOut (len : BitVec w) (msg : MonitoringMsg) : Traced Nat Outcome := do
  let r ← msg.deserialize behind len
  pure ⟨r.2, none⟩

def pointTo (len : BitVec w) (msg : MonitoringMsg) : Outcome :=
  let r := msg.deserializeNoCopy len
  ⟨r.2, some (r.1, len.toNat)⟩

/-- A call that does not come back has no outcome. -/
def call : Call w → MonitoringMsg → Traced Nat (Option Outcome)
  | .deserialize len, msg => do
    let o ← copyOut behind len msg
    pure (some o)
  | .deserializeNoCopy len, msg => pure (some (pointTo len msg))
  | .deserializeStringTo, msg => do
    match ← msg.stringLen behind w with
    | none => pure none
    | some len => do
      let o ← copyOut behind len msg
      pure (some o)
  | .deserializeString, msg => do
    match ← msg.stringLen behind w with
    | none => pure none
    | some len => pure (some (pointTo len msg))

structure Record where
  before : UInt8
  after : UInt8
  region : Option (Nat × Nat)

def execute : List (Call w) → MonitoringMsg → Traced Nat (List Record)
  | [], _ => pure []
  | c :: calls, msg => do
    match ← call behind c msg with
    | none => pure []
    | some o => do
      let records ← execute calls o.message
      pure (⟨msg.numOfParamsDeserialized, o.message.numOfParamsDeserialized, o.region⟩ :: records)

end Methods

def Inside (region : Nat × Nat) : Prop := region.1 < maxParams ∧ region.1 + region.2 ≤ maxParams

/-- All bytes read and all that is returned by pointer is in `params`, and the cursor does
not go back. -/
structure Safe (x : Traced Nat (List Record)) : Prop where
  reads : Within (· < maxParams) x
  regions : ∀ r ∈ x.value, ∀ region ∈ r.region, Inside region
  cursor : ∀ r ∈ x.value, r.before ≤ r.after

variable {w : Nat}

/-- What the call is about is in `params`, or `deserialize` refuses it. -/
def Allowed : Call w → MonitoringMsg → Prop
  | .deserialize len, msg =>
    len = 0 ∨ msg.numOfParamsDeserialized.toNat + len.toNat ≤ maxParams ∨
      msg.numOfParamsToSend.toNat < (msg.numOfParamsDeserialized.toNat + len.toNat) % 2 ^ w
  | .deserializeNoCopy len, msg => Inside (msg.numOfParamsDeserialized.toNat, len.toNat)
  | .deserializeStringTo, msg | .deserializeString, msg =>
    0 ∈ msg.params.toList.drop msg.numOfParamsDeserialized.toNat

def AllAllowed (behind : List UInt8) : List (Call w) → MonitoringMsg → Prop
  | [], _ => True
  | c :: calls, msg => Allowed c msg ∧
    ∀ o, (call behind c msg).value = some o → AllAllowed behind calls o.message

section Strings

theorem within_strlen (limit i : Nat) (memory : List UInt8) (hend : limit ≤ i + memory.length) :
    Within (· < limit) (strlen i memory) ↔ 0 ∈ memory.take (limit - i) := by
  induction memory generalizing i with
  | nil =>
    rw [strlen, within_bind, within_touch, List.take_nil]
    refine iff_of_false (fun h => ?_) List.not_mem_nil
    exact absurd h.1 (Nat.not_lt.mpr hend)
  | cons b memory ih =>
    rw [List.length_cons] at hend
    rw [strlen, within_bind, within_touch]
    by_cases hi : i < limit
    · rw [show limit - i = limit - (i + 1) + 1 by omega, List.take_succ_cons, List.mem_cons,
        and_iff_right hi]
      by_cases hb : b = 0
      · rw [if_pos hb]
        exact iff_of_true (within_pure _) (.inl hb.symm)
      · rw [if_neg hb, within_bind, or_iff_right (Ne.symm hb), ← ih (i + 1) (by omega)]
        exact and_iff_left (within_pure _)
    · rw [Nat.sub_eq_zero_of_le (Nat.not_lt.mp hi), List.take_zero]
      exact iff_of_false (fun h => hi h.1) List.not_mem_nil

theorem value_strlen (limit i : Nat) (memory : List UInt8) (h : 0 ∈ memory.take (limit - i)) :
    ∃ len, (strlen i memory).value = some len ∧ i + len < limit := by
  induction memory generalizing i with
  | nil => simp at h
  | cons b memory ih =>
    have hi : i < limit := by
      by_contra hge
      rw [Nat.sub_eq_zero_of_le (Nat.not_lt.mp hge), List.take_zero] at h
      cases h
    rw [strlen, value_bind]
    by_cases hb : b = 0
    · rw [if_pos hb]
      exact ⟨0, rfl, hi⟩
    · rw [show limit - i = limit - (i + 1) + 1 by omega, List.take_succ_cons, List.mem_cons] at h
      obtain ⟨len, hlen, hlt⟩ := ih (i + 1) (h.resolve_left (Ne.symm hb))
      rw [if_neg hb, value_bind, value_pure, hlen]
      exact ⟨len + 1, rfl, by omega⟩

end Strings

section Steps

open MonitoringMsg

variable (behind : List UInt8) {msg : MonitoringMsg}

theorem within_copy (memory : List UInt8) (i len : Nat) :
    Within (· < maxParams) (copy memory i len) ↔ len = 0 ∨ i + len ≤ maxParams := by
  rw [copy, within_bind, within_spread, within_touch, and_iff_left (within_pure _)]
  simp only [List.mem_range'_1]
  constructor
  · intro h
    by_contra hout
    have hlast := h (i + len - 1) (by omega)
    omega
  · intro h k hk
    omega

theorem toNat_newEnd (n : UInt8) (len : BitVec w) :
    (BitVec.ofNat w n.toNat + len).toNat = (n.toNat + len.toNat) % 2 ^ w := by
  rw [BitVec.toNat_add, BitVec.toNat_ofNat, Nat.mod_add_mod]

theorem cursor_le (hw : 16 ≤ w) {n : UInt8} {len : BitVec w} (h : n.toNat + len.toNat < 256) :
    n ≤ UInt8.ofNat (BitVec.ofNat w n.toNat + len).toNat := by
  have hpow : 2 ^ 16 ≤ 2 ^ w := Nat.pow_le_pow_right (by decide) hw
  have hend : (n.toNat + len.toNat) % 2 ^ w = n.toNat + len.toNat := Nat.mod_eq_of_lt (by omega)
  rw [UInt8.le_iff_toNat_le, UInt8.toNat_ofNat', toNat_newEnd, hend, Nat.mod_eq_of_lt h]
  exact Nat.le_add_right _ _

def OutcomeSafe (o : Outcome) (msg : MonitoringMsg) : Prop :=
  (∀ region ∈ o.region, Inside region) ∧
    msg.numOfParamsDeserialized ≤ o.message.numOfParamsDeserialized

def CallSafe (x : Traced Nat (Option Outcome)) (msg : MonitoringMsg) : Prop :=
  Within (· < maxParams) x ∧ ∀ o, x.value = some o → OutcomeSafe o msg

theorem copyOut_safe_iff (hw : 16 ≤ w) (len : BitVec w) :
    Within (· < maxParams) (copyOut behind len msg) ∧ OutcomeSafe (copyOut behind len msg).value msg ↔
      Allowed (.deserialize len) msg := by
  have hend := toNat_newEnd msg.numOfParamsDeserialized len
  rw [copyOut, within_bind, value_bind, and_iff_left (within_pure _), deserialize]
  by_cases hreject : (BitVec.ofNat w msg.numOfParamsDeserialized.toNat + len).toNat >
      msg.numOfParamsToSend.toNat
  · rw [if_pos hreject]
    rw [hend] at hreject
    exact iff_of_true ⟨within_pure _, nofun, UInt8.le_refl _⟩ (.inr (.inr hreject))
  · rw [if_neg hreject, within_bind, within_copy, and_iff_left (within_pure _)]
    rw [hend] at hreject
    simp only [Allowed, or_iff_left hreject]
    have hnone : (0 : BitVec w).toNat = 0 := BitVec.toNat_zero
    have hzero : len.toNat = 0 ↔ len = 0 := by
      rw [← BitVec.toNat_inj, hnone]
    rw [hzero]
    refine and_iff_left_of_imp fun hcopied => ⟨nofun, ?_⟩
    have hn := msg.numOfParamsDeserialized.toNat_lt
    apply cursor_le hw
    obtain hlen | hinside := hcopied
    · rw [hlen, hnone]
      omega
    · exact hinside.trans_lt (by decide)

theorem pointTo_safe_iff (hw : 16 ≤ w) (len : BitVec w) :
    OutcomeSafe (pointTo len msg) msg ↔ Inside (msg.numOfParamsDeserialized.toNat, len.toNat) := by
  constructor
  · intro h
    exact h.1 _ rfl
  · intro hinside
    refine ⟨fun region hregion => ?_, ?_⟩
    · rwa [← Option.some.inj hregion]
    · apply cursor_le hw
      exact hinside.2.trans_lt (by decide)

theorem take_memory (n : Nat) :
    ((msg.memory behind).drop n).take (maxParams - n) = msg.params.toList.drop n := by
  rw [← List.drop_take, memory, List.take_left' (msg.params.length_toList)]

theorem within_stringLen :
    Within (· < maxParams) (msg.stringLen behind w) ↔
      0 ∈ msg.params.toList.drop msg.numOfParamsDeserialized.toNat := by
  have hlength : maxParams ≤ msg.numOfParamsDeserialized.toNat +
      ((msg.memory behind).drop msg.numOfParamsDeserialized.toNat).length := by
    have hparams := msg.params.length_toList
    rw [List.length_drop, memory, List.length_append, hparams]
    omega
  rw [stringLen, within_bind, and_iff_left (within_pure _), within_strlen _ _ _ hlength, take_memory]

theorem value_stringLen (hw : 16 ≤ w)
    (h : 0 ∈ msg.params.toList.drop msg.numOfParamsDeserialized.toNat) :
    ∃ len : BitVec w, (msg.stringLen behind w).value = some len ∧
      Inside (msg.numOfParamsDeserialized.toNat, len.toNat) := by
  rw [← take_memory behind] at h
  obtain ⟨len, hvalue, hlt⟩ := value_strlen _ _ _ h
  have hpow : 2 ^ 16 ≤ 2 ^ w := Nat.pow_le_pow_right (by decide) hw
  have hmax : maxParams = 64 := rfl
  have hlen : (BitVec.ofNat w len + 1).toNat = len + 1 := by
    have hsucc : BitVec.ofNat w len + 1 = BitVec.ofNat w (len + 1) := (BitVec.ofNat_add len 1).symm
    rw [hsucc, BitVec.toNat_ofNat, Nat.mod_eq_of_lt (by omega)]
  refine ⟨BitVec.ofNat w len + 1, ?_, ?_, ?_⟩
  · rw [stringLen, value_bind, hvalue]
    rfl
  · dsimp only
    omega
  · dsimp only
    omega

theorem string_safe_iff (hw : 16 ≤ w) (next : BitVec w → Traced Nat (Option Outcome))
    (hnext : ∀ len : BitVec w, Inside (msg.numOfParamsDeserialized.toNat, len.toNat) →
      CallSafe (next len) msg) :
    CallSafe (do
        match ← msg.stringLen behind w with
        | none => pure none
        | some len => next len) msg ↔
      0 ∈ msg.params.toList.drop msg.numOfParamsDeserialized.toNat := by
  constructor
  · intro h
    exact (within_stringLen behind).mp ((within_bind _ _).mp h.1).1
  · intro h
    obtain ⟨len, hlen, hinside⟩ := value_stringLen behind hw h
    rw [CallSafe, within_bind, value_bind, hlen]
    have hsafe := hnext len hinside
    exact ⟨⟨(within_stringLen behind).mpr h, hsafe.1⟩, hsafe.2⟩

theorem callSafe_map {x : Traced Nat Outcome} :
    CallSafe (do let o ← x; pure (some o)) msg ↔
      Within (· < maxParams) x ∧ OutcomeSafe x.value msg := by
  rw [CallSafe, within_bind, and_iff_left (within_pure _), value_bind, value_pure]
  simp only [Option.some.injEq, forall_eq']

theorem call_safe_iff (hw : 16 ≤ w) (c : Call w) :
    CallSafe (call behind c msg) msg ↔ Allowed c msg := by
  cases c with
  | deserialize len =>
    rw [call, callSafe_map]
    exact copyOut_safe_iff behind hw len
  | deserializeNoCopy len =>
    rw [call, CallSafe, value_pure, and_iff_right (within_pure _)]
    simp only [Option.some.injEq, forall_eq']
    exact pointTo_safe_iff hw len
  | deserializeStringTo =>
    apply string_safe_iff behind hw
    intro len hinside
    exact callSafe_map.mpr ((copyOut_safe_iff behind hw len).mpr (.inr (.inl hinside.2)))
  | deserializeString =>
    apply string_safe_iff behind hw
    intro len hinside
    refine ⟨within_pure _, fun o ho => ?_⟩
    rw [← Option.some.inj ho]
    exact (pointTo_safe_iff hw len).mpr hinside

/-- With the fields as a sender leaves them, no `deserialize` of a length that can be added to the
cursor reads behind the parameters. -/
theorem deserialize_safe (hw : 16 ≤ w) (len : BitVec w)
    (hsend : msg.numOfParamsToSend.toNat ≤ maxParams)
    (hlen : msg.numOfParamsDeserialized.toNat + len.toNat < 2 ^ w) :
    CallSafe (call behind (.deserialize len) msg) msg := by
  apply (call_safe_iff behind hw (.deserialize len)).mpr
  rw [Allowed, Nat.mod_eq_of_lt hlen]
  omega

theorem safe_cons_iff (c : Call w) (calls : List (Call w)) :
    Safe (execute behind (c :: calls) msg) ↔ CallSafe (call behind c msg) msg ∧
      ∀ o, (call behind c msg).value = some o → Safe (execute behind calls o.message) := by
  rw [execute, CallSafe]
  cases ho : (call behind c msg).value with
  | none =>
    constructor
    · intro h
      exact ⟨⟨((within_bind _ _).mp h.reads).1, nofun⟩, nofun⟩
    · intro h
      refine ⟨?_, ?_, ?_⟩ <;> simp only [within_bind, value_bind, ho]
      · exact ⟨h.1.1, within_pure _⟩
      · exact List.forall_mem_nil _
      · exact List.forall_mem_nil _
  | some o =>
    simp only [Option.some.injEq, forall_eq']
    constructor
    · intro h
      have hreads := h.reads
      have hregions := h.regions
      have hcursor := h.cursor
      simp only [within_bind, value_bind, ho] at hreads hregions hcursor
      obtain ⟨hregion, hregions⟩ := List.forall_mem_cons.mp hregions
      obtain ⟨hle, hcursor⟩ := List.forall_mem_cons.mp hcursor
      exact ⟨⟨hreads.1, hregion, hle⟩, hreads.2.1, hregions, hcursor⟩
    · rintro ⟨⟨hreads, hregion, hle⟩, hrest⟩
      refine ⟨?_, ?_, ?_⟩ <;> simp only [within_bind, value_bind, ho]
      · exact ⟨hreads, hrest.reads, within_pure _⟩
      · exact List.forall_mem_cons.mpr ⟨hregion, hrest.regions⟩
      · exact List.forall_mem_cons.mpr ⟨hle, hrest.cursor⟩

end Steps

/-- The calls are safe exactly if each of them is allowed. -/
theorem reader_safe_iff (behind : List UInt8) (hw : 16 ≤ w) (calls : List (Call w))
    (msg : MonitoringMsg) :
    Safe (execute behind calls msg) ↔ AllAllowed behind calls msg := by
  induction calls generalizing msg with
  | nil =>
    refine iff_of_true ⟨within_pure _, ?_, ?_⟩ trivial
    · exact List.forall_mem_nil _
    · exact List.forall_mem_nil _
  | cons c calls ih =>
    rw [safe_cons_iff, call_safe_iff behind hw, AllAllowed]
    simp only [ih]

def twoParams : MonitoringMsg := ⟨7, 0, (Vector.replicate maxParams 104).set 2 0⟩

theorem reader_safe_twoParams :
    Safe (execute [] [.deserializeString, .deserialize (4 : BitVec 64)] twoParams) := by
  refine (reader_safe_iff [] (by decide) _ twoParams).mpr ⟨?_, fun o ho => ?_⟩
  · change 0 ∈ twoParams.params.toList.drop 0
    decide
  · obtain rfl := Option.some.inj ho
    exact ⟨.inr (.inl (by decide)), fun _ _ => trivial⟩

/-- A message that claims to have 255 bytes of parameters. -/
theorem reader_unsafe :
    ¬ Safe (execute [] [.deserialize (65 : BitVec 64)] ⟨255, 0, Vector.replicate 64 0⟩) := by
  intro h
  have hlast := h.reads 64 (by decide)
  exact absurd hlast (by decide)

end Rodos.MonitoringReader
