import Mathlib.Data.List.Chain
import Routine.Layout.Body

/-!
# The parts of a line

A line is put together from keywords, names, texts that the routine holds, and the marks between them. A
`Phrase` keeps these parts apart: the case of keywords is chosen when it is written (`Phrase.text`), and after
a text of the routine there is a mark or nothing (`Phrase.fenced`). Each kind of line has its phrase here, and
the lines of a routine are drafted from them (`Function.drafts`).
-/

namespace Routine

/-- What stands between the parts of a phrase. -/
inductive Mark where
  | blank
  | comma
  | semicolon
  | closing
  | range
deriving DecidableEq, Repr

/-- The mark as it is written. -/
def Mark.text : Mark → String
  | blank => " "
  | comma => ", "
  | semicolon => ";"
  | closing => ")"
  | range => ".."

/-- How much of a text that a routine holds is written. -/
inductive Extract where
  /-- All of it. -/
  | verbatim
  /-- All but the blanks around it. -/
  | trimmed
  /-- What is selected. -/
  | selection
  /-- What comes before an `INTO` clause. -/
  | beforeInto
  /-- What comes after an `INTO` clause. -/
  | afterInto
deriving DecidableEq, Repr

/-- What is written of the text. -/
def Extract.of (source : String) : Extract → String
  | verbatim => source
  | trimmed => Text.trim source
  | selection => Sql.dropSelect (Text.trim source)
  | beforeInto =>
    match IntoClause.placement (Text.trim source) with
    | .between before _ => before
    | .alreadyPresent => ""
  | afterInto =>
    match IntoClause.placement (Text.trim source) with
    | .between _ after => Text.trim after
    | .alreadyPresent => ""

/-- A part of a line. -/
inductive Part where
  /-- Keywords. -/
  | word (words : String)
  /-- A name, a number or a sign. -/
  | own (text : String)
  | mark (m : Mark)
  /-- What is written of a text that the routine holds. -/
  | leaf (source : String) (extract : Extract)
deriving DecidableEq, Repr

namespace Part

/-- The part as it is written. -/
def text (capitals : Bool) : Part → String
  | word words => if capitals then Text.uppercase words else Text.lowercase words
  | own text => text
  | mark m => m.text
  | leaf source extract => extract.of source

/-- After a text of the routine comes a mark. -/
def Borders : Part → Part → Prop
  | leaf _ _, next => ∃ m, next = mark m
  | _, _ => True

end Part

/-- A line without its depth, or a piece of one. -/
structure Phrase where
  parts : List Part
  fenced : parts.IsChain Part.Borders

namespace Phrase

/-- The phrase as it is written. -/
def text (capitals : Bool) (p : Phrase) : String :=
  String.join (p.parts.map (Part.text capitals))

def empty : Phrase := ⟨[], .nil⟩

/-- A part by itself. -/
def of (part : Part) : Phrase := ⟨[part], .singleton _⟩

/-- Keywords by themselves. -/
def word (words : String) : Phrase := of (.word words)

/-- A name by itself. -/
def own (text : String) : Phrase := of (.own text)

/-- Two phrases with a mark between them. -/
def marked (p : Phrase) (m : Mark) (q : Phrase) : Phrase where
  parts := p.parts ++ .mark m :: q.parts
  fenced := by
    refine p.fenced.append (q.fenced.cons fun _ _ => trivial) ?_
    rintro part - next ⟨⟩
    cases part with
    | leaf source extract => exact ⟨m, rfl⟩
    | _ => trivial

/-- A phrase and the mark after it. -/
def ended (p : Phrase) (m : Mark) : Phrase := p.marked m empty

/-- A phrase right after a name. -/
def after (text : String) (p : Phrase) : Phrase where
  parts := .own text :: p.parts
  fenced := p.fenced.cons fun _ _ => trivial

/-- Phrases with a mark between any two. -/
def separated (m : Mark) : List Phrase → Phrase
  | [] => empty
  | [p] => p
  | p :: q :: ps => p.marked m (separated m (q :: ps))

/-- Phrases with blanks between them. -/
def spaced (ps : List Phrase) : Phrase := separated .blank ps

/-- Phrases with commas between them. -/
def commas (ps : List Phrase) : Phrase := separated .comma ps

variable (capitals : Bool)

@[simp]
theorem text_empty : empty.text capitals = "" := rfl

@[simp]
theorem text_of (part : Part) : (of part).text capitals = part.text capitals := by
  simp [text, of, String.join_cons]

@[simp]
theorem text_own (text : String) : (own text).text capitals = text :=
  text_of capitals _

@[simp]
theorem text_marked (p : Phrase) (m : Mark) (q : Phrase) :
    (p.marked m q).text capitals = p.text capitals ++ m.text ++ q.text capitals := by
  simp [text, marked, Part.text, String.join_cons, String.join_append, String.append_assoc]

@[simp]
theorem text_ended (p : Phrase) (m : Mark) : (p.ended m).text capitals = p.text capitals ++ m.text := by
  simp [ended]

@[simp]
theorem text_after (text : String) (p : Phrase) :
    (p.after text).text capitals = text ++ p.text capitals := by
  simp [Phrase.text, after, Part.text, String.join_cons]

theorem text_separated (m : Mark) (ps : List Phrase) :
    (separated m ps).text capitals = String.intercalate m.text (ps.map (text capitals)) := by
  fun_induction separated m ps with
  | case1 => simp
  | case2 p => simp
  | case3 p q ps ih => simp [ih, String.intercalate_cons_cons]

@[simp]
theorem text_spaced (ps : List Phrase) :
    (spaced ps).text capitals = Routine.spaced (ps.map (text capitals)) :=
  text_separated capitals .blank ps

@[simp]
theorem text_commas (ps : List Phrase) :
    (commas ps).text capitals = Routine.commas (ps.map (text capitals)) :=
  text_separated capitals .comma ps

end Phrase

@[simp]
theorem spaced_singleton (word : String) : spaced [word] = word :=
  String.intercalate_singleton

@[simp]
theorem spaced_cons_cons (word next : String) (words : List String) :
    spaced (word :: next :: words) = word ++ " " ++ spaced (next :: words) :=
  String.intercalate_cons_cons

/-! ## The case of keywords -/

namespace Text

theorem lower_eq_self {c : Char} (h : ¬ c.toNat < 91) : lower c = c := by
  unfold lower Char.toLower
  exact dif_neg fun hle => h (Nat.lt_succ_of_le hle.2)

theorem lower_lower (c : Char) : lower (lower c) = lower c := by
  have hall : ∀ n < 91, lower (lower (Char.ofNat n)) = lower (Char.ofNat n) := by decide
  by_cases h : c.toNat < 91
  · simpa using hall c.toNat h
  · rw [lower_eq_self h, lower_eq_self h]

theorem lower_upper (c : Char) : lower (upper c) = lower c := by
  have hall : ∀ n < 123, lower (upper (Char.ofNat n)) = lower (Char.ofNat n) := by decide
  by_cases h : c.toNat < 123
  · simpa using hall c.toNat h
  · have hupper : upper c = c := by
      unfold upper Char.toUpper
      exact dif_neg fun hle => h (Nat.lt_succ_of_le hle.2)
    rw [hupper]

theorem eq_lower_or_upper (c : Char) : c = lower c ∨ c = upper (lower c) := by
  have hall : ∀ n < 91,
      Char.ofNat n = lower (Char.ofNat n) ∨ Char.ofNat n = upper (lower (Char.ofNat n)) := by
    decide
  by_cases h : c.toNat < 91
  · simpa using hall c.toNat h
  · exact .inl (lower_eq_self h).symm

theorem lowercase_uppercase (s : String) : lowercase (uppercase s) = lowercase s := by
  simp [lowercase, uppercase, Function.comp_def, lower_upper]

theorem lowercase_lowercase (s : String) : lowercase (lowercase s) = lowercase s := by
  simp [lowercase, Function.comp_def, lower_lower]

theorem lowercase_append (s t : String) : lowercase (s ++ t) = lowercase s ++ lowercase t := by
  simp [lowercase]

end Text

/-- The case of keywords is all that two writings of a phrase differ in. -/
theorem Phrase.lowercase_text (p : Phrase) :
    Text.lowercase (p.text true) = Text.lowercase (p.text false) := by
  unfold text
  induction p.parts with
  | nil => rfl
  | cons part parts ih =>
    simp only [List.map_cons, String.join_cons, Text.lowercase_append, ih]
    cases part with
    | word words => simp [Part.text, Text.lowercase_uppercase, Text.lowercase_lowercase]
    | _ => rfl

/-! ## What lines are put together from -/

/-- What the lines of a routine depend on, apart from the case of keywords. -/
structure Subject where
  backend : Sql.Backend
  function : Function
  kind : Option ReturnKind

namespace Subject

/-- The layout with keywords in the given case. -/
def layout (s : Subject) (capitals : Bool) : Layout :=
  ⟨s.backend, s.function, s.kind, capitals⟩

variable (s : Subject)

def leaf (l : Leaf) : Phrase := .of (.leaf (l.text s.backend) .trimmed)

def type (t : TypeRef) : Phrase := .of (.leaf (TypeName.render (t.text s.backend)) .verbatim)

def selection (l : Leaf) : Phrase := .of (.leaf (l.text s.backend) .selection)

def closing (words : String) (label : Option String) : Phrase :=
  .spaced (.word words :: label.toList.map .own)

def condition (name : String) : Phrase :=
  if Layout.isErrorCode name then .spaced [.word "SQLSTATE", .own ("'" ++ name ++ "'")]
  else if Text.sameName name "others" then .word "OTHERS"
  else .own name

def scroll (options : Int32) : List Phrase :=
  if options &&& 4 ≠ 0 then [.word "NO SCROLL"]
  else if options &&& 2 ≠ 0 then [.word "SCROLL"]
  else []

/-- The phrase with the parameters of its query after it. -/
def withParameters (p : Phrase) (ls : List Leaf) : Phrase :=
  if ls.isEmpty then p else .spaced [p, .word "USING", .commas (ls.map s.leaf)]

def cursorArguments (l : Leaf) : Phrase :=
  ((s.selection l).ended .closing).after "("

def into (target : Datum) (strict : Bool) : Phrase :=
  .spaced <|
    [.word "INTO"] ++ (if strict then [.word "STRICT"] else []) ++ [.own (s.function.referenceFor target)]

/-! ### Simple statements -/

def assign (number : Int32) (value : Leaf) : Phrase :=
  if value.mode.isAssignment || Text.contains (Text.trim (value.text s.backend)) ":=" then s.leaf value
  else .spaced [.own (s.function.reference number), .own ":=", s.leaf value]

def exit (isExit : Bool) (label : Option String) (condition : Option Leaf) : Phrase :=
  .spaced <|
    [.word (if isExit then "EXIT" else "CONTINUE")] ++ label.toList.map .own ++
      match condition with
      | some l => [.word "WHEN", s.leaf l]
      | none => []

def ret (value : Option Leaf) (number : Option Int32) : Phrase :=
  let bare : Phrase := if s.kind = some .scalar then .word "RETURN NULL" else .word "RETURN"
  match value with
  | some l => .spaced [.word "RETURN", s.leaf l]
  | none =>
    match number.bind s.function.datum? with
    | some d =>
      if (s.layout true).isReturned d then .spaced [.word "RETURN", .own (s.function.referenceFor d)]
      else bare
    | none => bare

def returnNext (value : Option Leaf) (number : Option Int32) : Phrase :=
  .spaced <|
    [.word "RETURN NEXT"] ++
      match value, number with
      | some l, _ => [s.leaf l]
      | none, some n => [.own (s.function.reference n)]
      | none, none => []

def returnQuery (query dynamic : Option Leaf) (parameters : List Leaf) : Phrase :=
  match query, dynamic with
  | some l, _ => .spaced [.word "RETURN QUERY", s.leaf l]
  | none, some l => s.withParameters (.spaced [.word "RETURN QUERY EXECUTE", s.leaf l]) parameters
  | none, none => .word "RETURN QUERY"

def raiseMessage (message : String) (parameters : List Leaf) : Phrase :=
  .commas (.own ("'" ++ String.ofList (Text.doubled '\'' message.toList) ++ "'") :: parameters.map s.leaf)

def raise (severity : Severity) (condition message : Option String) (parameters : List Leaf)
    (options : List RaiseOption) : Phrase :=
  if condition.isNone && message.isNone && parameters.isEmpty && options.isEmpty &&
      severity == .exception then .word "RAISE"
  else
    .spaced <|
      [.word "RAISE", .word severity.keyword] ++
        (match condition, message with
          | some name, _ => [Subject.condition name]
          | none, some message => [s.raiseMessage message parameters]
          | none, none => []) ++
        if options.isEmpty then []
        else [.word "USING",
          .commas (options.map fun o => .spaced [.word o.field.keyword, .own "=", s.leaf o.value])]

def assert (condition : Leaf) (message : Option Leaf) : Phrase :=
  .spaced [.word "ASSERT", .commas (s.leaf condition :: message.toList.map s.leaf)]

/-- SQL with a clause in its place. -/
def inserted (sql : Leaf) (clause : Phrase) : Phrase :=
  match IntoClause.placement (Text.trim (sql.text s.backend)) with
  | .alreadyPresent => s.leaf sql
  | .between _ after =>
    .spaced <|
      [.of (.leaf (sql.text s.backend) .beforeInto), clause] ++
        if (Text.trim after).isEmpty then [] else [.of (.leaf (sql.text s.backend) .afterInto)]

def execute (sql : Leaf) (into : IntoTarget) : Phrase :=
  match into.target, into.into with
  | some target, true => s.inserted sql (s.into target into.strict)
  | _, _ => s.leaf sql

def executeDynamic (query : Leaf) (into : IntoTarget) (parameters : List Leaf) : Phrase :=
  s.withParameters
    (.spaced <|
      [.word "EXECUTE", s.leaf query] ++
        match into.target, into.into with
        | some target, true => [s.into target into.strict]
        | _, _ => []) parameters

def getDiagnostics (stacked : Bool) (targets : List DiagnosticsTarget) : Phrase :=
  .spaced [.word (if stacked then "GET STACKED DIAGNOSTICS" else "GET DIAGNOSTICS"),
    .commas (targets.map fun t =>
      .spaced [.own (s.function.reference t.number), .own "=", .word t.item.keyword])]

def openCursor (cursor options : Int32) (arguments query dynamic : Option Leaf)
    (parameters : List Leaf) : Phrase :=
  let name := s.function.reference cursor
  match arguments, query, dynamic with
  | some l, _, _ => .spaced [.word "OPEN", (s.cursorArguments l).after name]
  | none, some l, _ =>
    .spaced ([.word "OPEN", .own name] ++ scroll options ++ [.word "FOR", s.leaf l])
  | none, none, some l =>
    s.withParameters
      (.spaced ([.word "OPEN", .own name] ++ scroll options ++ [.word "FOR EXECUTE", s.leaf l])) parameters
  | none, none, none => .spaced [.word "OPEN", .own name]

def direction (direction : Direction) (count : Int64) (amount : Option Leaf) : Option Phrase :=
  match amount with
  | some l => some (.spaced [.word direction.keyword, s.leaf l])
  | none =>
    let counted : Phrase := .spaced [.word direction.keyword, .own (toString count.toInt)]
    match direction with
    | .forward =>
      if count = 1 then none
      else if count = allRows then some (.word "FORWARD ALL") else some counted
    | .backward =>
      if count = 1 then some (.word "PRIOR")
      else if count = allRows then some (.word "BACKWARD ALL") else some counted
    | .absolute =>
      if count = 1 then some (.word "FIRST")
      else if count = -1 then some (.word "LAST") else some counted
    | .relative => some counted

def fetch (target : Option Datum) (cursor : Int32) (direction : Direction) (count : Int64)
    (amount : Option Leaf) (isMove : Bool) : Phrase :=
  .spaced <|
    [.word (if isMove then "MOVE" else "FETCH")] ++
      (match s.direction direction count amount with
        | some words => [words, .word "FROM"]
        | none => []) ++
      [.own (s.function.reference cursor)] ++
      match target, isMove with
      | some d, false => [.word "INTO", .own (s.function.referenceFor d)]
      | _, _ => []

def transaction (word : String) (chain : Bool) : Phrase :=
  if chain then .spaced [.word word, .word "AND CHAIN"] else .word word

def simple : Simple → Phrase
  | .assign number value => s.assign number value
  | .exit isExit label condition => s.exit isExit label condition
  | .ret value number => s.ret value number
  | .returnNext value number => s.returnNext value number
  | .returnQuery query dynamic parameters => s.returnQuery query dynamic parameters
  | .raise severity condition message parameters options =>
    s.raise severity condition message parameters options
  | .assert condition message => s.assert condition message
  | .execute sql into => s.execute sql into
  | .executeDynamic query into parameters => s.executeDynamic query into parameters
  | .getDiagnostics stacked targets => s.getDiagnostics stacked targets
  | .openCursor cursor options arguments query dynamic parameters =>
    s.openCursor cursor options arguments query dynamic parameters
  | .fetch target cursor direction count amount isMove _ =>
    s.fetch target cursor direction count amount isMove
  | .closeCursor cursor => .spaced [.word "CLOSE", .own (s.function.reference cursor)]
  | .perform query => .spaced [.word "PERFORM", s.selection query]
  | .call sql _ _ => s.leaf sql
  | .commit chain => transaction "COMMIT" chain
  | .rollback chain => transaction "ROLLBACK" chain
  | .set sql => s.leaf sql

/-! ### Declarations -/

def argument (m : Member) : Phrase :=
  match s.function.datum? m.number with
  | some (.scalar v) =>
    match v.type with
    | some t => .spaced [.own v.name, s.type t]
    | none => .own v.name
  | _ => .own m.name

def argumentList (v : Variable) : List Phrase :=
  match v.cursorArguments.bind s.function.datum? with
  | some (.row r) => [((Phrase.commas (r.members.map s.argument)).ended .closing).after "("]
  | _ => []

def cursorDeclaration (v : Variable) (query : Leaf) : Phrase :=
  .ended
    (.spaced ([.own v.name] ++ scroll v.cursorOptions ++ [.word "CURSOR"] ++ s.argumentList v ++
      [.word "FOR", s.leaf query])) .semicolon

def variableType : Option TypeRef → Phrase
  | some t => s.type t
  | none => .word "record"

def recordType : Option TypeRef → Phrase
  | some t => if Text.sameName (Text.trim t.captured) "record" then .word "record" else s.type t
  | none => .word "record"

def variableDeclaration (v : Variable) : Phrase :=
  .ended
    (.spaced <|
      [.own v.name] ++ (if v.isConstant then [.word "CONSTANT"] else []) ++ [s.variableType v.type] ++
        (if v.notNull then [.word "NOT NULL"] else []) ++
        match v.initial with
        | some l => [.own ":=", s.leaf l]
        | none => []) .semicolon

def declaration : Datum → Option Phrase
  | .scalar v =>
    match v.cursorQuery with
    | some query => some (s.cursorDeclaration v query)
    | none => some (s.variableDeclaration v)
  | .record r => some ((Phrase.spaced [.own r.name, s.recordType r.type]).ended .semicolon)
  | .row _ => none
  | .field _ => none

/-! ### Heads -/

def head : LoopHead → Phrase
  | .forever => .word "LOOP"
  | .whilst condition => .spaced [.word "WHILE", s.leaf condition, .word "LOOP"]
  | .range target lower upper step reverse =>
    .spaced <|
      [.word "FOR", .own (s.function.referenceFor target), .word "IN"] ++
        (if reverse then [.word "REVERSE"] else []) ++ [(s.leaf lower).marked .range (s.leaf upper)] ++
        (match step with
          | some l => [.word "BY", s.leaf l]
          | none => []) ++
        [.word "LOOP"]
  | .query target sql =>
    .spaced [.word "FOR", .own (s.function.referenceFor target), .word "IN", s.leaf sql, .word "LOOP"]
  | .cursor target number arguments =>
    let cursor := match arguments with
      | some l => (s.cursorArguments l).after (s.function.reference number)
      | none => .own (s.function.reference number)
    .spaced [.word "FOR", .own (s.function.referenceFor target), .word "IN", cursor, .word "LOOP"]
  | .array number slice value =>
    .spaced <|
      [.word "FOREACH", .own (s.function.reference number)] ++
        (if 0 < slice then [.word "SLICE", .own (toString slice.toInt)] else []) ++
        [.word "IN ARRAY", s.leaf value, .word "LOOP"]
  | .dynamic target sql parameters =>
    .spaced
      [.word "FOR", .own (s.function.referenceFor target), .word "IN EXECUTE",
        s.withParameters (s.leaf sql) parameters, .word "LOOP"]

/-- The values of an arm are a text of their own. -/
def armCondition (hasOperand : Bool) (condition : Leaf) : Phrase :=
  match if hasOperand then CaseArm.values? (Text.trim (condition.text s.backend)) else none with
  | some values => .of (.leaf values .verbatim)
  | none => s.leaf condition

def conditions : List String → Phrase
  | [] => .empty
  | [name] => condition name
  | name :: next :: names => .spaced [condition name, .word "OR", conditions (next :: names)]

def handlerHead (names : List String) : Phrase :=
  .spaced [.word "WHEN", conditions names, .word "THEN"]

def caseHead (operand : Option Leaf) : Phrase :=
  .spaced (.word "CASE" :: operand.toList.map s.leaf)

end Subject

/-! ## Drafts -/

/-- A line before the case of its keywords is chosen. -/
structure Draft where
  depth : Nat
  phrase : Phrase

/-- The line with its keywords in one case. -/
def Draft.line (capitals : Bool) (d : Draft) : Line :=
  ⟨d.depth, d.phrase.text capitals⟩

/-- What was drafted, and what is still planned. -/
abbrev Drafted := List Draft × Pending

namespace Subject

def labelDrafts (depth : Nat) : Option String → List Draft
  | none => []
  | some label => [⟨depth, .own ("<<" ++ label ++ ">>")⟩]

def declarations (s : Subject) (depth : Nat) (places : List Nat) : List Draft :=
  if places.isEmpty then []
  else
    ⟨depth, .word "DECLARE"⟩ :: places.filterMap fun i =>
      (s.function.data[i]?.bind s.declaration).map fun phrase => ⟨depth + 1, phrase⟩

end Subject

mutual

def Stmt.drafts (s : Subject) (depth : Nat) (pending : Pending) : Stmt → Drafted
  | .block b => b.drafts s depth (pending.find b.line) false (pending.erase b.line)
  | .simple _ x => ([⟨depth, (s.simple x).ended .semicolon⟩], pending)
  | .conditional _ condition body arms otherwise =>
    let (thenLines, pending) := Stmts.drafts s (depth + 1) pending body
    let (armLines, pending) := Arms.conditionalDrafts s depth pending arms
    let (elseLines, pending) := Stmts.drafts s (depth + 1) pending otherwise
    (⟨depth, .spaced [.word "IF", s.leaf condition, .word "THEN"]⟩ :: thenLines ++ armLines ++
      (if otherwise.isEmpty then [] else ⟨depth, .word "ELSE"⟩ :: elseLines) ++
      [⟨depth, .word "END IF;"⟩], pending)
  | .choice _ operand _ arms hasElse otherwise =>
    let (armLines, pending) := Arms.choiceDrafts s depth operand.isSome pending arms
    if hasElse then
      let (elseLines, pending) := Stmts.drafts s (depth + 2) pending otherwise
      (⟨depth, s.caseHead operand⟩ :: armLines ++ ⟨depth + 1, .word "ELSE"⟩ :: elseLines ++
        [⟨depth, .word "END CASE;"⟩], pending)
    else (⟨depth, s.caseHead operand⟩ :: armLines ++ [⟨depth, .word "END CASE;"⟩], pending)
  | .loop _ label head body =>
    let (bodyLines, pending) := Stmts.drafts s (depth + 1) pending body
    (Subject.labelDrafts depth label ++ ⟨depth, s.head head⟩ :: bodyLines ++
      [⟨depth, (Subject.closing "END LOOP" label).ended .semicolon⟩], pending)

def Stmts.drafts (s : Subject) (depth : Nat) (pending : Pending) : List Stmt → Drafted
  | [] => ([], pending)
  | x :: xs =>
    let (first, pending) := x.drafts s depth pending
    let (rest, pending) := Stmts.drafts s depth pending xs
    (first ++ rest, pending)

def Block.drafts (s : Subject) (depth : Nat) (places : List Nat) (outermost : Bool) (pending : Pending) :
    Block → Drafted
  | ⟨_, label, body, handlers⟩ =>
    let (bodyLines, pending) := Stmts.drafts s (depth + 1) pending body
    let (handlerLines, pending) := Handlers.drafts? s depth pending handlers
    let last := Subject.closing "END" label
    (Subject.labelDrafts depth label ++ s.declarations depth places ++ ⟨depth, .word "BEGIN"⟩ ::
      bodyLines ++ handlerLines ++
      [⟨depth, if outermost then last else last.ended .semicolon⟩], pending)

def Handlers.drafts? (s : Subject) (depth : Nat) (pending : Pending) : Option (List Handler) → Drafted
  | none => ([], pending)
  | some hs =>
    let (lines, pending) := Handlers.drafts s depth pending hs
    (⟨depth, .word "EXCEPTION"⟩ :: lines, pending)

def Handlers.drafts (s : Subject) (depth : Nat) (pending : Pending) : List Handler → Drafted
  | [] => ([], pending)
  | ⟨_, conditions, action⟩ :: hs =>
    let (first, pending) := Stmts.drafts s (depth + 2) pending action
    let (rest, pending) := Handlers.drafts s depth pending hs
    (⟨depth + 1, Subject.handlerHead conditions⟩ :: first ++ rest, pending)

def Arms.conditionalDrafts (s : Subject) (depth : Nat) (pending : Pending) : List Arm → Drafted
  | [] => ([], pending)
  | ⟨_, condition, body⟩ :: as =>
    let (first, pending) := Stmts.drafts s (depth + 1) pending body
    let (rest, pending) := Arms.conditionalDrafts s depth pending as
    (⟨depth, .spaced [.word "ELSIF", s.leaf condition, .word "THEN"]⟩ :: first ++ rest, pending)

def Arms.choiceDrafts (s : Subject) (depth : Nat) (hasOperand : Bool) (pending : Pending) :
    List Arm → Drafted
  | [] => ([], pending)
  | ⟨_, condition, body⟩ :: as =>
    let (first, pending) := Stmts.drafts s (depth + 2) pending body
    let (rest, pending) := Arms.choiceDrafts s depth hasOperand pending as
    (⟨depth + 1, .spaced [.word "WHEN", s.armCondition hasOperand condition, .word "THEN"]⟩ ::
      first ++ rest, pending)

end

/-- The drafts of the routine. -/
def Subject.drafts (s : Subject) : List Draft :=
  let plan := Plan.ofFunction s.function
  (s.function.action.drafts s 0 plan.topLevel true plan.nested).1

/-- The drafts of the body of a routine. -/
def Function.drafts (kind : Option ReturnKind) (f : Function)
    (backend : Sql.Backend := .postgres) : List Draft :=
  Subject.drafts ⟨backend, f, kind⟩

end Routine
