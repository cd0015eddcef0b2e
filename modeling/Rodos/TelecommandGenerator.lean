import Mathlib

namespace Rodos.TelecommandGenerator

inductive ParamType
  | int8
  | int16
  | int32
  | int64
  | uint8
  | uint16
  | uint32
  | uint64
  | float
  | double
  | charPtr
  deriving DecidableEq

structure Param where
  paramType : ParamType
  paramName : String
  deriving DecidableEq

/-- A text can only be the last parameter. -/
structure Command where
  cmdName : String
  shortCut : String
  service : Int
  subservice : Int
  params : List Param
  paramUnit : List String
  charLast : ∀ p ∈ params.dropLast, p.paramType ≠ .charPtr

/-- What `sscanf` finds in a line. -/
inductive Content
  | blank
  | namespaceName (name : String)
  | command (c : Command)

/-- The length is that of the whole line, with its comment. -/
structure Line where
  content : Content
  length : Nat

def maxCmds : Nat := 600

def maxParams : Nat := 100

def maxParamsOfCmd : Nat := 20

/-- What `fgets` takes of a line. -/
def maxLine : Nat := 599

/-- `char cmdName[150]` and `char shortCut[150]`. -/
def cmdNameSize : Nat := 150

/-- `char namespaceName[50]`, `char paramName[50]` and `char paramUnit[20][50]`. -/
def nameSize : Nat := 50

structure ParmDescr where
  duplicated : Bool
  paramType : ParamType
  paramName : String
  posInBuf : Nat

def ParmDescr.param (d : ParmDescr) : Param := ⟨d.paramType, d.paramName⟩

section Reading

def countPosition : ParamType → Nat
  | .int8 => 1
  | .int16 => 2
  | .int32 => 4
  | .int64 => 4
  | .uint8 => 1
  | .uint16 => 2
  | .uint32 => 4
  | .uint64 => 4
  | .charPtr => 1
  | .float | .double => 0

structure Table where
  namespaceName : String
  cmds : List Command
  allParams : List ParmDescr

/-- There is no result when an array overflows. -/
def readParams : Nat → Nat → List Param → List ParmDescr → Option (List ParmDescr)
  | _, _, [], allParams => some allParams
  | i, pos, p :: params, allParams =>
    if i < maxParamsOfCmd ∧ allParams.length < maxParams ∧ p.paramName.utf8ByteSize < nameSize then
      readParams (i + 1) (pos + countPosition p.paramType) params
        (allParams ++ [⟨false, p.paramType, p.paramName, pos⟩])
    else none

def IsInt (n : Int) : Prop := -2 ^ 31 ≤ n ∧ n < 2 ^ 31

instance (n : Int) : Decidable (IsInt n) :=
  inferInstanceAs (Decidable (_ ∧ _))

/-- The words in front of the parameters are shorter than their arrays. -/
def Content.Stored : Content → Prop
  | .blank => True
  | .namespaceName name => name.utf8ByteSize < nameSize
  | .command c => c.cmdName.utf8ByteSize < cmdNameSize ∧ c.shortCut.utf8ByteSize < cmdNameSize ∧
      IsInt c.service ∧ IsInt c.subservice

instance : (content : Content) → Decidable content.Stored
  | .blank => inferInstanceAs (Decidable True)
  | .namespaceName _ => inferInstanceAs (Decidable (_ < _))
  | .command _ => inferInstanceAs (Decidable (_ ∧ _))

/-- `fgets` takes a line in one piece. -/
def Line.Stored (line : Line) : Prop :=
  line.length ≤ maxLine ∧ line.content.Stored

instance (line : Line) : Decidable line.Stored :=
  inferInstanceAs (Decidable (_ ∧ _))

def Command.UnitsStored (c : Command) : Prop :=
  ∀ u ∈ c.paramUnit, u.utf8ByteSize < nameSize

instance (c : Command) : Decidable c.UnitsStored :=
  inferInstanceAs (Decidable (∀ u ∈ c.paramUnit, _))

def readFile : List Line → Table → Option Table
  | [], t => some t
  | line :: lines, t =>
    if line.Stored then
      match line.content with
      | .blank => readFile lines t
      | .namespaceName name => readFile lines { t with namespaceName := name }
      | .command c =>
        let t := { t with cmds := t.cmds ++ [c] }
        if t.cmds.length ≥ maxCmds then some t
        else
          (if c.UnitsStored then readParams 0 0 c.params t.allParams else none).bind
            fun allParams => readFile lines { t with allParams := allParams }
    else none

end Reading

section Printing

def eliminateDuplicates : List ParmDescr → List ParmDescr → List ParmDescr
  | _, [] => []
  | before, d :: rest =>
    { d with duplicated := d.duplicated || before.any fun d' => d'.param = d.param } ::
      eliminateDuplicates (before ++ [d]) rest

inductive Code
  | service (cmdName : String) (service : Int)
  | command (cmdName : String) (service subservice : Int)

def Code.name : Code → String
  | .service cmdName _ => cmdName
  | .command cmdName _ _ => cmdName

def codeOf (c : Command) : Code :=
  if c.subservice = 0 then .service c.cmdName c.service
  else .command c.cmdName c.service c.subservice

/-- The members of `CmdParameter` and the statements of its `deserialize`. -/
structure Generated where
  namespaceName : String
  codes : List Code
  members : List Param
  deserialize : List ParmDescr

/-- `strcat` appends a comma to the name in its array. -/
def CommaFits (p : Param) : Prop :=
  p.paramType ≠ .charPtr → p.paramName.utf8ByteSize + 1 < nameSize

instance (p : Param) : Decidable (CommaFits p) :=
  inferInstanceAs (Decidable (_ → _))

def generate (lines : List Line) : Option Generated :=
  (readFile lines ⟨"Common", [], []⟩).bind fun t =>
    let used := (eliminateDuplicates [] t.allParams).filter fun d => !d.duplicated
    if ∀ d ∈ used, CommaFits d.param then
      some
        { namespaceName := t.namespaceName
          codes := t.cmds.map codeOf
          members := used.map ParmDescr.param
          deserialize := used }
    else none

end Printing

section Purpose

/-- What `BasicSerializers::serialize` returns. There is none for a text. -/
def serializedSize : ParamType → Nat
  | .int8 | .uint8 => 1
  | .int16 | .uint16 => 2
  | .int32 | .uint32 | .float => 4
  | .int64 | .uint64 | .double => 8
  | .charPtr => 0

def offset (preceding : List Param) : Nat := (preceding.map fun p => serializedSize p.paramType).sum

def commands (lines : List Line) : List Command :=
  lines.filterMap fun line =>
    match line.content with
    | .command c => some c
    | _ => none

def ParamType.name : ParamType → String
  | .int8 => "int8_t"
  | .int16 => "int16_t"
  | .int32 => "int32_t"
  | .int64 => "int64_t"
  | .uint8 => "uint8_t"
  | .uint16 => "uint16_t"
  | .uint32 => "uint32_t"
  | .uint64 => "uint64_t"
  | .float => "float"
  | .double => "double"
  | .charPtr => "char*"

/-- What the compiler takes where the header is included: identifiers that are neither keywords
nor macros, and what the structs can be in. -/
structure Compiler where
  isName : String → Bool
  isNamespace : String → Bool

/-- No static member has the name of its struct. -/
def Compiler.TakesCode (compiler : Compiler) (cmdName : String) : Prop :=
  compiler.isName cmdName = true ∧ cmdName ≠ "TeleCommandCodes"

/-- The function and the macro of `CmdParameter` are no members. -/
def Compiler.TakesMember (compiler : Compiler) (paramName : String) : Prop :=
  compiler.isName paramName = true ∧ paramName ≠ "deserialize" ∧ paramName ≠ "CMD_PARAMETER_STRUCT"

/-- The names in a struct are different, also from those of the types in it. -/
structure Generated.Compiles (g : Generated) (compiler : Compiler) : Prop where
  namespaceName : compiler.isNamespace g.namespaceName = true
  codes : (g.codes.map Code.name).Nodup
  codeNames : ∀ code ∈ g.codes, compiler.TakesCode code.name
  members : (g.members.map Param.paramName).Nodup
  memberNames : ∀ m ∈ g.members, compiler.TakesMember m.paramName
  types : ∀ m ∈ g.members, ∀ m' ∈ g.members, m.paramName ≠ m'.paramType.name

/-- A statement reads the member from the place. In the function `buf` is not a member. -/
def Generated.Reads (g : Generated) (p : Param) (place : Nat) : Prop :=
  ∃ d ∈ g.deserialize, d.param = p ∧ d.posInBuf = place ∧ d.paramName ≠ "buf"

def Correct (compiler : Compiler) (lines : List Line) : Prop :=
  ∃ g, generate lines = some g ∧ g.Compiles compiler ∧
    ∀ c ∈ commands lines, ∀ preceding p following, c.params = preceding ++ p :: following →
      g.Reads p (offset preceding)

structure Occurrence where
  param : Param
  preceding : List Param

def occurrencesFrom : List Param → List Param → List Occurrence
  | _, [] => []
  | preceding, p :: params => ⟨p, preceding⟩ :: occurrencesFrom (preceding ++ [p]) params

def occurrences (cs : List Command) : List Occurrence :=
  cs.flatMap fun c => occurrencesFrom [] c.params

def readCommands (lines : List Line) : List Command := (commands lines).take (maxCmds - 1)

/-- The types that are counted with their size. -/
def isCounted : ParamType → Bool
  | .int64 | .uint64 | .float | .double => false
  | _ => true

def linesRead : Nat → List Line → List Line
  | _, [] => []
  | k, line :: lines =>
    match line.content, k with
    | .command _, 0 => [line]
    | .command _, k + 1 => line :: linesRead k lines
    | _, k => line :: linesRead k lines

/-- The last name counts. -/
def namespaceFrom (name : String) (lines : List Line) : String :=
  lines.foldl (fun name line =>
    match line.content with
    | .namespaceName name => name
    | _ => name) name

/-- The limits are kept and the names can be used, and wherever a parameter occurs it is at
the place of its first occurrence, which comes after counted types only. -/
structure Consistent (compiler : Compiler) (lines : List Line) : Prop where
  stored : ∀ line ∈ linesRead (maxCmds - 1) lines, line.Stored
  namespaceName :
    compiler.isNamespace (namespaceFrom "Common" (linesRead (maxCmds - 1) lines)) = true
  commandNames : (((commands lines).take maxCmds).map Command.cmdName).Nodup
  codeNames : ∀ c ∈ (commands lines).take maxCmds, compiler.TakesCode c.cmdName
  perCommand : ∀ c ∈ readCommands lines, c.params.length ≤ maxParamsOfCmd
  units : ∀ c ∈ readCommands lines, c.UnitsStored
  total : ((readCommands lines).flatMap Command.params).length ≤ maxParams
  sizes : ∀ p ∈ (readCommands lines).flatMap Command.params,
    p.paramName.utf8ByteSize < nameSize ∧ CommaFits p
  oneType : ∀ p ∈ (readCommands lines).flatMap Command.params,
    ∀ q ∈ (readCommands lines).flatMap Command.params, p.paramName = q.paramName → p = q
  names : ∀ p ∈ (readCommands lines).flatMap Command.params,
    compiler.TakesMember p.paramName ∧ p.paramName ≠ "buf"
  types : ∀ p ∈ (readCommands lines).flatMap Command.params,
    ∀ q ∈ (readCommands lines).flatMap Command.params, p.paramName ≠ q.paramType.name
  placed : ∀ o ∈ occurrences (commands lines), ∃ f,
    (occurrences (readCommands lines)).find? (fun f => f.param = o.param) = some f ∧
      offset f.preceding = offset o.preceding ∧ ∀ q ∈ f.preceding, isCounted q.paramType = true

end Purpose

section ReadLemmas

def describe (o : Occurrence) : ParmDescr :=
  ⟨false, o.param.paramType, o.param.paramName,
    (o.preceding.map fun p => countPosition p.paramType).sum⟩

theorem mem_occurrencesFrom {before params : List Param} {o : Occurrence} :
    o ∈ occurrencesFrom before params ↔ ∃ preceding following,
      params = preceding ++ o.param :: following ∧ o.preceding = before ++ preceding := by
  induction params generalizing before with
  | nil => simp [occurrencesFrom]
  | cons p params ih =>
    rw [occurrencesFrom, List.mem_cons, ih]
    constructor
    · rintro (rfl | ⟨preceding, following, rfl, hpreceding⟩)
      · exact ⟨[], params, rfl, (List.append_nil before).symm⟩
      · exact ⟨p :: preceding, following, rfl, by rw [hpreceding, List.append_assoc]; rfl⟩
    · rintro ⟨preceding, following, hparams, hpreceding⟩
      cases preceding with
      | nil =>
        obtain ⟨rfl, rfl⟩ := List.cons.inj hparams
        rw [List.append_nil] at hpreceding
        exact .inl (by rw [← hpreceding])
      | cons q preceding =>
        obtain ⟨rfl, rfl⟩ := List.cons.inj hparams
        refine .inr ⟨preceding, following, rfl, ?_⟩
        rw [hpreceding, List.append_assoc]
        rfl

theorem map_param_occurrencesFrom (before params : List Param) :
    (occurrencesFrom before params).map Occurrence.param = params := by
  induction params generalizing before with
  | nil => rfl
  | cons p params ih => rw [occurrencesFrom, List.map_cons, ih]

theorem occurrences_cons (c : Command) (cs : List Command) :
    occurrences (c :: cs) = occurrencesFrom [] c.params ++ occurrences cs :=
  List.flatMap_cons

theorem map_param_occurrences (cs : List Command) :
    (occurrences cs).map Occurrence.param = cs.flatMap Command.params := by
  rw [occurrences, List.map_flatMap]
  exact List.flatMap_congr fun c _ => map_param_occurrencesFrom [] c.params

theorem readParams_eq {i : Nat} {before params : List Param} {allParams : List ParmDescr}
    (hi : i ≤ maxParamsOfCmd) (hall : allParams.length ≤ maxParams) :
    readParams i (before.map fun p => countPosition p.paramType).sum params allParams =
      if i + params.length ≤ maxParamsOfCmd ∧ allParams.length + params.length ≤ maxParams ∧
          ∀ p ∈ params, p.paramName.utf8ByteSize < nameSize then
        some (allParams ++ (occurrencesFrom before params).map describe)
      else none := by
  induction params generalizing i before allParams with
  | nil =>
    rw [readParams, if_pos ⟨hi, hall, fun _ hp => absurd hp List.not_mem_nil⟩]
    exact congrArg some (List.append_nil _).symm
  | cons p params ih =>
    rw [readParams]
    by_cases hroom : i < maxParamsOfCmd ∧ allParams.length < maxParams ∧
        p.paramName.utf8ByteSize < nameSize
    · have hpos : (before.map fun p => countPosition p.paramType).sum + countPosition p.paramType =
          ((before ++ [p]).map fun p => countPosition p.paramType).sum := by
        rw [List.map_append, List.sum_append, List.map_singleton, List.sum_singleton]
      rw [if_pos hroom, hpos, ih hroom.1 (by rw [List.length_append]; exact hroom.2.1)]
      simp only [List.length_append, List.length_cons, List.length_nil, occurrencesFrom,
        List.map_cons, List.append_assoc]
      refine if_congr ?_ rfl rfl
      rw [List.forall_mem_cons, and_iff_right hroom.2.2]
      refine and_congr (by omega) (and_congr (by omega) Iff.rfl)
    · rw [if_neg hroom, if_neg]
      rintro ⟨hrow, htotal, hsizes⟩
      rw [List.length_cons] at hrow htotal
      exact hroom ⟨by omega, by omega, (List.forall_mem_cons.mp hsizes).1⟩

def Command.Fits (c : Command) : Prop :=
  c.params.length ≤ maxParamsOfCmd ∧ c.UnitsStored ∧
    ∀ p ∈ c.params, p.paramName.utf8ByteSize < nameSize

def Fits (cs : List Command) (count : Nat) : Prop :=
  (∀ c ∈ cs, c.Fits) ∧ count + (cs.flatMap Command.params).length ≤ maxParams

instance (c : Command) : Decidable c.Fits :=
  inferInstanceAs (Decidable (_ ∧ _))

instance (cs : List Command) (count : Nat) : Decidable (Fits cs count) :=
  inferInstanceAs (Decidable (_ ∧ _))

theorem fits_nil {count : Nat} (hcount : count ≤ maxParams) : Fits [] count :=
  ⟨fun _ hc => absurd hc List.not_mem_nil, hcount⟩

theorem fits_cons {c : Command} {cs : List Command} {count : Nat} :
    Fits (c :: cs) count ↔ c.Fits ∧ Fits cs (count + c.params.length) := by
  unfold Fits
  rw [List.forall_mem_cons, List.flatMap_cons, List.length_append, Nat.add_assoc, and_assoc]

theorem Fits.count_le {cs : List Command} {count : Nat} (hfits : Fits cs count) :
    count ≤ maxParams :=
  (Nat.le_add_right _ _).trans hfits.2

theorem length_occurrencesFrom (before params : List Param) :
    (occurrencesFrom before params).length = params.length := by
  rw [← List.length_map Occurrence.param, map_param_occurrencesFrom]

theorem readParams_start {c : Command} {allParams : List ParmDescr}
    (hall : allParams.length ≤ maxParams) :
    (if c.UnitsStored then readParams 0 0 c.params allParams else none) =
      if c.Fits ∧ allParams.length + c.params.length ≤ maxParams then
        some (allParams ++ (occurrencesFrom [] c.params).map describe)
      else none := by
  have hparams := @readParams_eq 0 [] c.params allParams (Nat.zero_le maxParamsOfCmd) hall
  rw [List.map_nil, List.sum_nil, Nat.zero_add] at hparams
  by_cases hunits : c.UnitsStored
  · rw [if_pos hunits, hparams]
    refine if_congr ?_ rfl rfl
    constructor
    · rintro ⟨hrow, htotal, hsizes⟩
      exact ⟨⟨hrow, hunits, hsizes⟩, htotal⟩
    · rintro ⟨⟨hrow, -, hsizes⟩, htotal⟩
      exact ⟨hrow, htotal, hsizes⟩
  · rw [if_neg hunits, if_neg]
    rintro ⟨hfits, -⟩
    exact hunits hfits.2.1

theorem commands_cons (line : Line) (lines : List Line) :
    commands (line :: lines) =
      match line.content with
      | .command c => c :: commands lines
      | _ => commands lines := by
  obtain ⟨_ | _ | c, length⟩ := line <;> rfl

def Readable (k : Nat) (lines : List Line) (count : Nat) : Prop :=
  (∀ line ∈ linesRead k lines, line.Stored) ∧ Fits ((commands lines).take k) count

instance (k : Nat) (lines : List Line) (count : Nat) : Decidable (Readable k lines count) :=
  inferInstanceAs (Decidable (_ ∧ _))

def readTable (k : Nat) (lines : List Line) (t : Table) : Table where
  namespaceName := namespaceFrom t.namespaceName (linesRead k lines)
  cmds := t.cmds ++ (commands lines).take (k + 1)
  allParams := t.allParams ++ (occurrences ((commands lines).take k)).map describe

theorem mem_linesRead (k : Nat) (line : Line) (lines : List Line) :
    line ∈ linesRead k (line :: lines) := by
  obtain ⟨_ | _ | c, length⟩ := line <;> cases k <;> exact List.mem_cons_self

theorem readable_cons {k count : Nat} {line : Line} {lines : List Line} (hline : line.Stored)
    (hread : linesRead k (line :: lines) = line :: linesRead k lines)
    (hcommands : commands (line :: lines) = commands lines) :
    Readable k (line :: lines) count ↔ Readable k lines count := by
  rw [Readable, hread, hcommands, List.forall_mem_cons, and_iff_right hline]
  rfl

/-- Of the last command only the words in front are stored. -/
theorem readable_zero {length count : Nat} {c : Command} {lines : List Line}
    (hline : Line.Stored ⟨.command c, length⟩) (hcount : count ≤ maxParams) :
    Readable 0 (⟨.command c, length⟩ :: lines) count := by
  refine ⟨?_, fits_nil hcount⟩
  intro line hmem
  rw [List.mem_singleton.mp hmem]
  exact hline

theorem readable_succ {k length count : Nat} {c : Command} {lines : List Line}
    (hline : Line.Stored ⟨.command c, length⟩) :
    Readable (k + 1) (⟨.command c, length⟩ :: lines) count ↔
      c.Fits ∧ Readable k lines (count + c.params.length) := by
  have hread : linesRead (k + 1) (⟨.command c, length⟩ :: lines) =
      ⟨.command c, length⟩ :: linesRead k lines := rfl
  have hcommands : commands (⟨.command c, length⟩ :: lines) = c :: commands lines := rfl
  rw [Readable, hread, hcommands, List.take_succ_cons, List.forall_mem_cons, fits_cons,
    and_iff_right hline]
  exact and_left_comm

theorem readFile_eq {lines : List Line} {t : Table} {k : Nat}
    (hcmds : t.cmds.length + k + 1 = maxCmds) (hall : t.allParams.length ≤ maxParams) :
    readFile lines t =
      if Readable k lines t.allParams.length then some (readTable k lines t) else none := by
  induction lines generalizing t k with
  | nil =>
    have hnone : Readable k [] t.allParams.length := by
      refine ⟨fun line hline => absurd hline List.not_mem_nil, ?_⟩
      rw [commands, List.filterMap_nil, List.take_nil]
      exact fits_nil hall
    rw [if_pos hnone, readFile, readTable, commands, List.filterMap_nil, List.take_nil,
      List.take_nil, List.append_nil]
    simp [occurrences, linesRead, namespaceFrom]
  | cons line lines ih =>
    by_cases hline : line.Stored
    · rw [readFile, if_pos hline]
      obtain ⟨content, length⟩ := line
      cases content with
      | blank =>
        rw [if_congr (readable_cons hline rfl rfl) rfl rfl]
        exact ih hcmds hall
      | namespaceName name =>
        rw [if_congr (readable_cons hline rfl rfl) rfl rfl]
        exact ih (t := { t with namespaceName := name }) hcmds hall
      | command c =>
        cases k with
        | zero =>
          rw [if_pos (readable_zero hline hall)]
          simp only [List.length_append, List.length_singleton]
          rw [if_pos hcmds.ge]
          simp [readTable, linesRead, namespaceFrom, commands_cons, occurrences]
        | succ k =>
          have hbefore : ¬(t.cmds ++ [c]).length ≥ maxCmds := by
            rw [List.length_append, List.length_singleton]
            omega
          simp only [if_neg hbefore, readParams_start hall]
          rw [if_congr (readable_succ hline) rfl rfl]
          by_cases hfits : c.Fits ∧ t.allParams.length + c.params.length ≤ maxParams
          · have hlength : (t.allParams ++ (occurrencesFrom [] c.params).map describe).length =
                t.allParams.length + c.params.length := by
              rw [List.length_append, List.length_map, length_occurrencesFrom]
            have hnext := ih (k := k) (t := ⟨t.namespaceName, t.cmds ++ [c],
              t.allParams ++ (occurrencesFrom [] c.params).map describe⟩)
              (by rw [List.length_append, List.length_singleton]; omega)
              (hlength.trans_le hfits.2)
            have htable : readTable k lines ⟨t.namespaceName, t.cmds ++ [c],
                t.allParams ++ (occurrencesFrom [] c.params).map describe⟩ =
                readTable (k + 1) (⟨.command c, length⟩ :: lines) t := by
              simp only [readTable, commands_cons, List.take_succ_cons, occurrences_cons,
                List.map_append, List.append_assoc, List.singleton_append]
              rfl
            rw [if_pos hfits, Option.bind_some, hnext, htable]
            refine if_congr ?_ rfl rfl
            rw [hlength, and_iff_right hfits.1]
          · rw [if_neg hfits, Option.bind_none, if_neg]
            rintro ⟨hrow, hrest⟩
            exact hfits ⟨hrow, hrest.2.count_le⟩
    · rw [readFile, if_neg hline, if_neg]
      rintro ⟨hlines, -⟩
      exact hline (hlines line (mem_linesRead k line lines))

end ReadLemmas

section Duplicates

def usedAfter (before ds : List ParmDescr) : List ParmDescr :=
  (eliminateDuplicates before ds).filter fun d => !d.duplicated

theorem usedAfter_cons {before ds : List ParmDescr} {d : ParmDescr} (hd : d.duplicated = false) :
    usedAfter before (d :: ds) =
      if before.any fun d' => d'.param = d.param then usedAfter (before ++ [d]) ds
      else d :: usedAfter (before ++ [d]) ds := by
  rw [usedAfter, eliminateDuplicates, List.filter_cons, hd, Bool.false_or]
  cases hany : before.any fun d' => d'.param = d.param with
  | true => rfl
  | false =>
    obtain ⟨duplicated, paramType, paramName, posInBuf⟩ := d
    obtain rfl : duplicated = false := hd
    rfl

variable {before ds : List ParmDescr} (hds : ∀ d ∈ ds, d.duplicated = false)
include hds

theorem find?_usedAfter (p : Param) :
    (usedAfter before ds).find? (fun d => d.param = p) =
      if before.any fun d => d.param = p then none else ds.find? fun d => d.param = p := by
  induction ds generalizing before with
  | nil =>
    rw [List.find?_nil, ite_self]
    rfl
  | cons d ds ih =>
    obtain ⟨hd, hds⟩ := List.forall_mem_cons.mp hds
    have hrest := @ih (before ++ [d]) hds
    rw [List.any_append, List.any_cons, List.any_nil, Bool.or_false] at hrest
    rw [usedAfter_cons hd, List.find?_cons]
    by_cases heq : d.param = p
    · subst heq
      rw [decide_eq_true rfl] at hrest ⊢
      rw [Bool.or_true, if_pos rfl] at hrest
      split
      · exact hrest
      · rw [List.find?_cons, decide_eq_true rfl]
    · rw [decide_eq_false heq] at hrest ⊢
      rw [Bool.or_false] at hrest
      split
      · exact hrest
      · rw [List.find?_cons, decide_eq_false heq]
        exact hrest

theorem nodup_usedAfter : ((usedAfter before ds).map ParmDescr.param).Nodup ∧
    ∀ d ∈ usedAfter before ds, ∀ d' ∈ before, d'.param ≠ d.param := by
  induction ds generalizing before with
  | nil => exact ⟨List.nodup_nil, nofun⟩
  | cons d ds ih =>
    obtain ⟨hd, hds⟩ := List.forall_mem_cons.mp hds
    obtain ⟨hnodup, hnew⟩ := @ih (before ++ [d]) hds
    have hnew' : ∀ e ∈ usedAfter (before ++ [d]) ds, ∀ d' ∈ before, d'.param ≠ e.param :=
      fun e he d' hd' => hnew e he d' (List.mem_append_left _ hd')
    rw [usedAfter_cons hd]
    split
    · exact ⟨hnodup, hnew'⟩
    · rename_i hfirst
      refine ⟨List.nodup_cons.mpr ⟨fun hmem => ?_, hnodup⟩, List.forall_mem_cons.mpr ⟨?_, hnew'⟩⟩
      · obtain ⟨e, he, hsame⟩ := List.mem_map.mp hmem
        exact hnew e he d (List.mem_append_right _ (List.mem_singleton_self d)) hsame.symm
      · intro d' hd' hsame
        exact hfirst (List.any_eq_true.mpr ⟨d', hd', decide_eq_true hsame⟩)

end Duplicates

section Generation

def Generates (lines : List Line) : Prop :=
  Readable (maxCmds - 1) lines 0 ∧
    ∀ p ∈ (readCommands lines).flatMap Command.params, CommaFits p

theorem readFile_start (lines : List Line) :
    readFile lines ⟨"Common", [], []⟩ =
      if Readable (maxCmds - 1) lines 0 then
        some (readTable (maxCmds - 1) lines ⟨"Common", [], []⟩)
      else none :=
  readFile_eq (t := ⟨"Common", [], []⟩) (k := maxCmds - 1) rfl (by decide)

theorem find?_of_nodup {ds : List ParmDescr} (hnodup : (ds.map ParmDescr.param).Nodup)
    {d : ParmDescr} (hd : d ∈ ds) : ds.find? (fun e => e.param = d.param) = some d := by
  induction ds with
  | nil => cases hd
  | cons e ds ih =>
    obtain ⟨he, hnodup⟩ := List.nodup_cons.mp hnodup
    rw [List.find?_cons]
    obtain rfl | hd := List.mem_cons.mp hd
    · rw [decide_eq_true rfl]
    · have hne : e.param ≠ d.param := fun hsame => he (hsame ▸ List.mem_map_of_mem hd)
      rw [decide_eq_false hne]
      exact ih hnodup hd

variable {lines : List Line} {cs : List Command} {g : Generated}

theorem not_duplicated : ∀ d ∈ (occurrences cs).map describe, d.duplicated = false := by
  intro d hd
  obtain ⟨o, _, rfl⟩ := List.mem_map.mp hd
  rfl

theorem find?_used (p : Param) :
    (usedAfter [] ((occurrences cs).map describe)).find? (fun d => d.param = p) =
      ((occurrences cs).find? fun f => f.param = p).map describe := by
  rw [find?_usedAfter not_duplicated, List.any_nil, if_neg Bool.false_ne_true, List.find?_map]
  rfl

theorem reads_iff (hdeserialize : g.deserialize = usedAfter [] ((occurrences cs).map describe))
    (p : Param) (place : Nat) :
    g.Reads p place ↔ ∃ f, (occurrences cs).find? (fun f => f.param = p) = some f ∧
      (describe f).posInBuf = place ∧ p.paramName ≠ "buf" := by
  rw [Generated.Reads]
  rw [hdeserialize]
  constructor
  · rintro ⟨d, hd, rfl, rfl, hname⟩
    have hfind := find?_of_nodup (nodup_usedAfter not_duplicated).1 hd
    rw [find?_used, Option.map_eq_some_iff] at hfind
    obtain ⟨f, hf, rfl⟩ := hfind
    exact ⟨f, hf, rfl, hname⟩
  · rintro ⟨f, hf, rfl, hname⟩
    have hfind := @find?_used cs p
    rw [hf, Option.map_some] at hfind
    have hparam : (describe f).param = p :=
      of_decide_eq_true (@List.find?_some _ (fun d : ParmDescr => decide (d.param = p)) _ _ hfind)
    rw [← hparam] at hname
    exact ⟨describe f, List.mem_of_find?_eq_some hfind, hparam, rfl, hname⟩

theorem mem_map_iff_find? {A : Type} (key : A → Param) {l : List A} {p : Param} :
    p ∈ l.map key ↔ (l.find? fun a => key a = p).isSome := by
  rw [List.find?_isSome, List.mem_map]
  simp only [decide_eq_true_iff]

theorem mem_used {p : Param} :
    p ∈ (usedAfter [] ((occurrences cs).map describe)).map ParmDescr.param ↔
      p ∈ cs.flatMap Command.params := by
  rw [mem_map_iff_find?, find?_used, Option.isSome_map, ← map_param_occurrences,
    mem_map_iff_find?]

theorem commas_iff :
    (∀ d ∈ usedAfter [] ((occurrences cs).map describe), CommaFits d.param) ↔
      ∀ p ∈ cs.flatMap Command.params, CommaFits p := by
  rw [← List.forall_mem_map]
  simp only [mem_used]

theorem generate_spec (hgenerates : Generates lines) :
    ∃ g, generate lines = some g ∧
      g.namespaceName = namespaceFrom "Common" (linesRead (maxCmds - 1) lines) ∧
      g.codes = ((commands lines).take maxCmds).map codeOf ∧
      g.deserialize = usedAfter [] ((occurrences (readCommands lines)).map describe) ∧
      g.members = g.deserialize.map ParmDescr.param := by
  rw [generate, readFile_start, if_pos hgenerates.1, Option.bind_some]
  have hcommas := commas_iff.mpr hgenerates.2
  exact ⟨_, if_pos hcommas, rfl, rfl, rfl, rfl⟩

theorem generate_none (hnot : ¬Generates lines) : generate lines = none := by
  rw [generate, readFile_start]
  by_cases hread : Readable (maxCmds - 1) lines 0
  · rw [if_pos hread, Option.bind_some]
    simp only
    rw [if_neg]
    intro hcommas
    exact hnot ⟨hread, commas_iff.mp hcommas⟩
  · rw [if_neg hread, Option.bind_none]

theorem name_codeOf (c : Command) : (codeOf c).name = c.cmdName := by
  rw [codeOf]
  split <;> rfl

variable {compiler : Compiler}

theorem compiles_iff
    (hnamespace : g.namespaceName = namespaceFrom "Common" (linesRead (maxCmds - 1) lines))
    (hcodes : g.codes = ((commands lines).take maxCmds).map codeOf)
    (hdeserialize : g.deserialize = usedAfter [] ((occurrences cs).map describe))
    (hmembers : g.members = g.deserialize.map ParmDescr.param) :
    g.Compiles compiler ↔
      compiler.isNamespace (namespaceFrom "Common" (linesRead (maxCmds - 1) lines)) = true ∧
      (((commands lines).take maxCmds).map Command.cmdName).Nodup ∧
      (∀ c ∈ (commands lines).take maxCmds, compiler.TakesCode c.cmdName) ∧
      (∀ p ∈ cs.flatMap Command.params, ∀ q ∈ cs.flatMap Command.params,
        p.paramName = q.paramName → p = q) ∧
      (∀ p ∈ cs.flatMap Command.params, compiler.TakesMember p.paramName) ∧
      ∀ p ∈ cs.flatMap Command.params, ∀ q ∈ cs.flatMap Command.params,
        p.paramName ≠ q.paramType.name := by
  have hmem : ∀ p, p ∈ g.members ↔ p ∈ cs.flatMap Command.params := by
    intro p
    rw [hmembers, hdeserialize]
    exact mem_used
  have hcode : g.codes.map Code.name = ((commands lines).take maxCmds).map Command.cmdName := by
    rw [hcodes, List.map_map]
    exact List.map_congr_left fun c _ => name_codeOf c
  have hcodeNames : (∀ code ∈ g.codes, compiler.TakesCode code.name) ↔
      ∀ c ∈ (commands lines).take maxCmds, compiler.TakesCode c.cmdName := by
    rw [hcodes, List.forall_mem_map]
    simp only [name_codeOf]
  have hnames : (g.members.map Param.paramName).Nodup ↔
      ∀ p ∈ g.members, ∀ q ∈ g.members, p.paramName = q.paramName → p = q := by
    rw [hmembers, hdeserialize]
    exact List.nodup_map_iff_inj_on (nodup_usedAfter not_duplicated).1
  simp only [← hnamespace, ← hcode, ← hcodeNames, ← hmem]
  constructor
  · intro h
    exact ⟨h.namespaceName, h.codes, h.codeNames, hnames.mp h.members, h.memberNames, h.types⟩
  · rintro ⟨hscope, hcommands, hcodeNames, hone, hmemberNames, htypes⟩
    exact ⟨hscope, hcommands, hcodeNames, hnames.mpr hone, hmemberNames, htypes⟩

end Generation

section Places

theorem mem_occurrences {cs : List Command} {o : Occurrence} :
    o ∈ occurrences cs ↔
      ∃ c ∈ cs, ∃ following, c.params = o.preceding ++ o.param :: following := by
  rw [occurrences, List.mem_flatMap]
  refine exists_congr fun c => and_congr_right fun _ => ?_
  rw [mem_occurrencesFrom]
  constructor
  · rintro ⟨preceding, following, hparams, hpreceding⟩
    rw [List.nil_append] at hpreceding
    exact ⟨following, hpreceding ▸ hparams⟩
  · rintro ⟨following, hparams⟩
    exact ⟨o.preceding, following, hparams, (List.nil_append _).symm⟩

theorem preceding_ne_charPtr {cs : List Command} {o : Occurrence} (ho : o ∈ occurrences cs) :
    ∀ q ∈ o.preceding, q.paramType ≠ .charPtr := by
  obtain ⟨c, -, following, hparams⟩ := mem_occurrences.mp ho
  intro q hq
  refine c.charLast q ?_
  rw [hparams, List.dropLast_append_of_ne_nil (List.cons_ne_nil _ _)]
  exact List.mem_append_left _ hq

theorem countPosition_le {t : ParamType} (ht : t ≠ .charPtr) :
    countPosition t ≤ serializedSize t := by
  cases t <;> first | decide | exact absurd rfl ht

theorem countPosition_eq_iff {t : ParamType} (ht : t ≠ .charPtr) :
    countPosition t = serializedSize t ↔ isCounted t = true := by
  cases t <;> first | decide | exact absurd rfl ht

theorem sum_countPosition_le {params : List Param} (htext : ∀ q ∈ params, q.paramType ≠ .charPtr) :
    (params.map fun q => countPosition q.paramType).sum ≤ offset params :=
  List.sum_le_sum fun q hq => countPosition_le (htext q hq)

theorem sum_countPosition_eq_iff {params : List Param}
    (htext : ∀ q ∈ params, q.paramType ≠ .charPtr) :
    (params.map fun q => countPosition q.paramType).sum = offset params ↔
      ∀ q ∈ params, isCounted q.paramType = true := by
  induction params with
  | nil => exact ⟨nofun, fun _ => rfl⟩
  | cons p params ih =>
    obtain ⟨hp, hparams⟩ := List.forall_mem_cons.mp htext
    have hfirst := countPosition_le hp
    have hrest := sum_countPosition_le hparams
    rw [List.forall_mem_cons, ← ih hparams, ← countPosition_eq_iff hp]
    unfold offset at hrest ⊢
    rw [List.map_cons, List.map_cons, List.sum_cons, List.sum_cons]
    omega

theorem occurrences_read {lines : List Line} {o : Occurrence}
    (ho : o ∈ occurrences (readCommands lines)) : o ∈ occurrences (commands lines) := by
  obtain ⟨c, hc, hparams⟩ := mem_occurrences.mp ho
  exact mem_occurrences.mpr ⟨c, List.mem_of_mem_take hc, hparams⟩

variable {lines : List Line} {g : Generated} {compiler : Compiler}

theorem reads_all_iff :
    (∀ c ∈ commands lines, ∀ preceding p following, c.params = preceding ++ p :: following →
      g.Reads p (offset preceding)) ↔
    ∀ o ∈ occurrences (commands lines), g.Reads o.param (offset o.preceding) := by
  constructor
  · intro hreads o ho
    obtain ⟨c, hc, following, hparams⟩ := mem_occurrences.mp ho
    exact hreads c hc o.preceding o.param following hparams
  · intro hreads c hc preceding p following hparams
    exact hreads ⟨p, preceding⟩ (mem_occurrences.mpr ⟨c, hc, following, hparams⟩)

theorem find?_param {os : List Occurrence} {p : Param} {f : Occurrence}
    (hf : os.find? (fun f => f.param = p) = some f) : f ∈ os ∧ f.param = p :=
  ⟨List.mem_of_find?_eq_some hf,
    of_decide_eq_true (@List.find?_some _ (fun f : Occurrence => decide (f.param = p)) _ _ hf)⟩

theorem placed_of_reads
    (hdeserialize : g.deserialize = usedAfter [] ((occurrences (readCommands lines)).map describe))
    (hreads : ∀ o ∈ occurrences (commands lines), g.Reads o.param (offset o.preceding))
    {o : Occurrence} (ho : o ∈ occurrences (commands lines)) :
    ∃ f, (occurrences (readCommands lines)).find? (fun f => f.param = o.param) = some f ∧
      offset f.preceding = offset o.preceding ∧ ∀ q ∈ f.preceding, isCounted q.paramType = true := by
  obtain ⟨f, hf, hplace, -⟩ := (reads_iff hdeserialize _ _).mp (hreads o ho)
  obtain ⟨hmem, hparam⟩ := find?_param hf
  obtain ⟨f', hf', hplace', -⟩ :=
    (reads_iff hdeserialize _ _).mp (hreads f (occurrences_read hmem))
  rw [hparam, hf] at hf'
  obtain rfl := Option.some.inj hf'
  exact ⟨f, hf, hplace'.symm.trans hplace,
    (sum_countPosition_eq_iff (preceding_ne_charPtr hmem)).mp hplace'⟩

theorem names_of_reads
    (hdeserialize : g.deserialize = usedAfter [] ((occurrences (readCommands lines)).map describe))
    (hreads : ∀ o ∈ occurrences (commands lines), g.Reads o.param (offset o.preceding))
    {p : Param} (hp : p ∈ (readCommands lines).flatMap Command.params) : p.paramName ≠ "buf" := by
  rw [← map_param_occurrences] at hp
  obtain ⟨o, ho, rfl⟩ := List.mem_map.mp hp
  obtain ⟨-, -, -, hname⟩ := (reads_iff hdeserialize _ _).mp (hreads o (occurrences_read ho))
  exact hname

theorem reads_of_placed
    (hdeserialize : g.deserialize = usedAfter [] ((occurrences (readCommands lines)).map describe))
    (hcons : Consistent compiler lines) {o : Occurrence} (ho : o ∈ occurrences (commands lines)) :
    g.Reads o.param (offset o.preceding) := by
  obtain ⟨f, hf, hplace, hcounted⟩ := hcons.placed o ho
  obtain ⟨hmem, hparam⟩ := find?_param hf
  have hread : o.param ∈ (readCommands lines).flatMap Command.params := by
    rw [← map_param_occurrences, ← hparam]
    exact List.mem_map_of_mem hmem
  refine (reads_iff hdeserialize _ _).mpr ⟨f, hf, ?_, (hcons.names _ hread).2⟩
  exact ((sum_countPosition_eq_iff (preceding_ne_charPtr hmem)).mpr hcounted).trans hplace

theorem Consistent.generates (hcons : Consistent compiler lines) : Generates lines := by
  refine ⟨⟨hcons.stored, ?_, (Nat.zero_add _).trans_le hcons.total⟩, fun p hp => (hcons.sizes p hp).2⟩
  intro c hc
  refine ⟨hcons.perCommand c hc, hcons.units c hc, fun p hp => ?_⟩
  exact (hcons.sizes p (List.mem_flatMap.mpr ⟨c, hc, hp⟩)).1

theorem Generates.sizes (hgenerates : Generates lines) :
    ∀ p ∈ (readCommands lines).flatMap Command.params,
      p.paramName.utf8ByteSize < nameSize ∧ CommaFits p := by
  intro p hp
  obtain ⟨c, hc, hpc⟩ := List.mem_flatMap.mp hp
  exact ⟨(hgenerates.1.2.1 c hc).2.2 p hpc, hgenerates.2 p hp⟩

theorem correct_iff_consistent (compiler : Compiler) (lines : List Line) :
    Correct compiler lines ↔ Consistent compiler lines := by
  constructor
  · rintro ⟨g, hg, hcompiles, hplaces⟩
    by_cases hgenerates : Generates lines
    · obtain ⟨g', hg', hnamespace, hcodes, hdeserialize, hmembers⟩ := generate_spec hgenerates
      rw [hg] at hg'
      obtain rfl := Option.some.inj hg'
      obtain ⟨hscope, hcommands, hcodeNames, htypes, hmemberNames, hapart⟩ :=
        (compiles_iff hnamespace hcodes hdeserialize hmembers).mp hcompiles
      have hreads := reads_all_iff.mp hplaces
      exact
        { stored := hgenerates.1.1
          namespaceName := hscope
          commandNames := hcommands
          codeNames := hcodeNames
          perCommand := fun c hc => (hgenerates.1.2.1 c hc).1
          units := fun c hc => (hgenerates.1.2.1 c hc).2.1
          total := (Nat.zero_add _).symm.trans_le hgenerates.1.2.2
          sizes := hgenerates.sizes
          oneType := htypes
          names := fun p hp => ⟨hmemberNames p hp, names_of_reads hdeserialize hreads hp⟩
          types := hapart
          placed := fun o ho => placed_of_reads hdeserialize hreads ho }
    · rw [generate_none hgenerates] at hg
      cases hg
  · intro hcons
    obtain ⟨g, hg, hnamespace, hcodes, hdeserialize, hmembers⟩ := generate_spec hcons.generates
    refine ⟨g, hg, (compiles_iff hnamespace hcodes hdeserialize hmembers).mpr
      ⟨hcons.namespaceName, hcons.commandNames, hcons.codeNames, hcons.oneType,
        fun p hp => (hcons.names p hp).1, hcons.types⟩, ?_⟩
    exact reads_all_iff.mpr fun o ho => reads_of_placed hdeserialize hcons ho

/-- The 64 bits of a time are counted as four bytes. -/
def setTime : Command where
  cmdName := "SET_TIME"
  shortCut := "st"
  service := 200
  subservice := 1
  params := [⟨.int64, "time"⟩, ⟨.int8, "mode"⟩]
  paramUnit := ["ns", "no"]
  charLast := by decide

theorem not_correct_setTime :
    ¬Correct ⟨fun _ => true, fun _ => true⟩ [⟨.command setTime, 48⟩] := by
  rintro ⟨g, hg, -, hreads⟩
  obtain rfl := Option.some.inj hg
  obtain ⟨d, hd, hparam, hplace, -⟩ :=
    hreads setTime (List.mem_singleton_self setTime) [⟨.int64, "time"⟩] ⟨.int8, "mode"⟩ [] rfl
  have hread : d ∈ [⟨false, .int64, "time", 0⟩, ⟨false, .int8, "mode", 4⟩] := hd
  rw [List.mem_pair] at hread
  obtain rfl | rfl := hread
  · exact absurd hparam (by decide)
  · exact absurd hplace (by decide)

end Places

end Rodos.TelecommandGenerator
