import Routine.Proofs.Phrase

/-!
# The wording of a body

For each kind of line a lemma says that the layout writes the phrase of that line, in the case that it gives
to keywords (`layout_…`). So the lines of a routine are its drafts, written in one case or the other
(`Function.lines_layout`), and nothing about them depends on the format except that case.
-/

namespace Routine
namespace Subject

variable (s : Subject) (capitals : Bool)
/-! ## Phrases -/

@[simp]
theorem layout_function : (s.layout capitals).function = s.function := rfl

@[simp]
theorem layout_keyword (words : String) :
    (s.layout capitals).keyword words = (Phrase.word words).text capitals :=
  (Phrase.text_of capitals (.word words)).symm

@[simp]
theorem layout_leaf (l : Leaf) : (s.layout capitals).leaf l = (s.leaf l).text capitals :=
  (Phrase.text_of capitals (.leaf _ .trimmed)).symm

@[simp]
theorem map_layout_leaf (ls : List Leaf) :
    ls.map (s.layout capitals).leaf = (ls.map s.leaf).map (Phrase.text capitals) := by
  simp [Function.comp_def]

@[simp]
theorem layout_type (t : TypeRef) : (s.layout capitals).type t = (s.type t).text capitals := by
  rw [type, Phrase.text_of]
  rfl

theorem layout_selection (l : Leaf) :
    Sql.dropSelect ((s.leaf l).text capitals) = (s.selection l).text capitals := by
  rw [leaf, selection, Phrase.text_of, Phrase.text_of]
  rfl

@[simp]
theorem layout_closing (words : String) (label : Option String) :
    (s.layout capitals).closing words label = (closing words label).text capitals := by
  cases label <;> simp [Layout.closing, closing]

@[simp]
theorem layout_condition (name : String) :
    (s.layout capitals).condition name = (condition name).text capitals := by
  unfold Layout.condition condition
  split
  · have hquote : " '" = " " ++ "'" := rfl
    simp [-String.reduceAppend, hquote, String.append_assoc]
  · split <;> simp

@[simp]
theorem layout_cursorArguments (l : Leaf) :
    (s.layout capitals).cursorArguments l = (s.cursorArguments l).text capitals := by
  simp [Layout.cursorArguments, cursorArguments, layout_selection, Mark.text, String.append_assoc]

@[simp]
theorem layout_into (target : Datum) (strict : Bool) :
    (s.layout capitals).into target strict = (s.into target strict).text capitals := by
  cases strict <;> simp [Layout.into, into]

theorem text_withParameters (p : Phrase) (ls : List Leaf) :
    (s.withParameters p ls).text capitals = p.text capitals ++ (s.layout capitals).parameters ls := by
  unfold withParameters Layout.parameters
  split
  · simp
  · simp [String.append_assoc]

@[simp]
theorem layout_assign (number : Int32) (value : Leaf) :
    (s.layout capitals).assign number value = (s.assign number value).text capitals := by
  unfold Layout.assign assign
  dsimp only
  rw [show (s.layout capitals).leaf value = Text.trim (value.text s.backend) from rfl]
  split
  · exact layout_leaf s capitals value
  · have hsign : " := " = " " ++ ":=" ++ " " := rfl
    simp [hsign, String.append_assoc]
    rw [← layout_leaf]
    rfl

@[simp]
theorem layout_exit (isExit : Bool) (label : Option String) (condition : Option Leaf) :
    (s.layout capitals).exit isExit label condition = (s.exit isExit label condition).text capitals := by
  unfold Layout.exit exit
  cases condition <;> cases label <;> simp

@[simp]
theorem layout_ret (value : Option Leaf) (number : Option Int32) :
    (s.layout capitals).ret value number = (s.ret value number).text capitals := by
  unfold Layout.ret ret
  cases value with
  | some l => simp
  | none =>
    have hbare : (if (s.layout capitals).kind = some .scalar then (s.layout capitals).keyword "RETURN NULL"
        else (s.layout capitals).keyword "RETURN") =
        (if s.kind = some .scalar then Phrase.word "RETURN NULL" else .word "RETURN").text capitals := by
      rw [apply_ite (Phrase.text capitals), layout_keyword, layout_keyword]
      rfl
    dsimp only
    rw [hbare, layout_function]
    cases number.bind s.function.datum? with
    | none => rfl
    | some d =>
      dsimp only
      rw [show (s.layout capitals).isReturned = (s.layout true).isReturned from rfl]
      split <;> simp

@[simp]
theorem layout_returnNext (value : Option Leaf) (number : Option Int32) :
    (s.layout capitals).returnNext value number = (s.returnNext value number).text capitals := by
  unfold Layout.returnNext returnNext
  cases value <;> cases number <;> simp

@[simp]
theorem layout_returnQuery (query dynamic : Option Leaf) (parameters : List Leaf) :
    (s.layout capitals).returnQuery query dynamic parameters =
      (s.returnQuery query dynamic parameters).text capitals := by
  unfold Layout.returnQuery returnQuery
  cases query <;> cases dynamic <;> simp [text_withParameters]

@[simp]
theorem layout_raiseMessage (message : String) (parameters : List Leaf) :
    (s.layout capitals).raiseMessage message parameters =
      (s.raiseMessage message parameters).text capitals := by
  simp [Layout.raiseMessage, raiseMessage]

@[simp]
theorem layout_raise (severity : Severity) (condition message : Option String) (parameters : List Leaf)
    (options : List RaiseOption) :
    (s.layout capitals).raise severity condition message parameters options =
      (s.raise severity condition message parameters options).text capitals := by
  have hoptions : options.map (fun o =>
      (s.layout capitals).keyword o.field.keyword ++ " = " ++ (s.layout capitals).leaf o.value) =
      (options.map fun o => Phrase.spaced [.word o.field.keyword, .own "=", s.leaf o.value]).map
        (Phrase.text capitals) := by
    have hsign : " = " = " " ++ "=" ++ " " := rfl
    simp [-String.reduceAppend, hsign, String.append_assoc, Function.comp_def]
  unfold Layout.raise raise
  rw [hoptions]
  split
  · simp
  · rw [Phrase.text_spaced]
    refine congrArg spaced ?_
    simp only [List.map_append]
    refine congr (congrArg _ (congr (congrArg _ ?_) ?_)) ?_
    · simp
    · cases condition <;> cases message <;> simp
    · split <;> simp

@[simp]
theorem layout_assert (condition : Leaf) (message : Option Leaf) :
    (s.layout capitals).assert condition message = (s.assert condition message).text capitals := by
  simp [Layout.assert, assert]

theorem insert_eq_text (sql : Leaf) (clause : Phrase) :
    IntoClause.insert ((s.layout capitals).leaf sql) (clause.text capitals) =
      (s.inserted sql clause).text capitals := by
  unfold IntoClause.insert inserted
  rw [show (s.layout capitals).leaf sql = Text.trim (sql.text s.backend) from rfl]
  cases hplacement : IntoClause.placement (Text.trim (sql.text s.backend)) with
  | alreadyPresent => exact layout_leaf s capitals sql
  | between before after =>
    dsimp only
    split <;> simp [Part.text, Extract.of, hplacement, String.append_assoc]

@[simp]
theorem layout_execute (sql : Leaf) (into : IntoTarget) :
    (s.layout capitals).execute sql into = (s.execute sql into).text capitals := by
  obtain ⟨into, strict, target⟩ := into
  cases target <;> cases into <;> simp [Layout.execute, execute]
  rw [← layout_leaf, insert_eq_text]

@[simp]
theorem layout_executeDynamic (query : Leaf) (into : IntoTarget) (parameters : List Leaf) :
    (s.layout capitals).executeDynamic query into parameters =
      (s.executeDynamic query into parameters).text capitals := by
  obtain ⟨into, strict, target⟩ := into
  cases target <;> cases into <;> simp [Layout.executeDynamic, executeDynamic, text_withParameters]

@[simp]
theorem layout_getDiagnostics (stacked : Bool) (targets : List DiagnosticsTarget) :
    (s.layout capitals).getDiagnostics stacked targets =
      (s.getDiagnostics stacked targets).text capitals := by
  have hsign : " = " = " " ++ "=" ++ " " := rfl
  simp [-String.reduceAppend, Layout.getDiagnostics, getDiagnostics, hsign, String.append_assoc,
    Function.comp_def]

theorem spaced_scroll (first : String) (options : Int32) (next : String) (words : List String) :
    spaced (first :: ((scroll options).map (Phrase.text capitals) ++ next :: words)) =
      first ++ " " ++ (s.layout capitals).scroll options ++ spaced (next :: words) := by
  unfold Layout.scroll scroll
  split
  · simp [String.append_assoc]
  · split <;> simp [String.append_assoc]

@[simp]
theorem layout_openCursor (cursor options : Int32) (arguments query dynamic : Option Leaf)
    (parameters : List Leaf) :
    (s.layout capitals).openCursor cursor options arguments query dynamic parameters =
      (s.openCursor cursor options arguments query dynamic parameters).text capitals := by
  unfold Layout.openCursor openCursor
  cases arguments with
  | some l => simp [String.append_assoc]
  | none =>
    cases query with
    | some l => simp [spaced_scroll s, String.append_assoc]
    | none =>
      cases dynamic with
      | some l => simp [spaced_scroll s, text_withParameters, String.append_assoc]
      | none => simp

@[simp]
theorem layout_direction (direction : Direction) (count : Int64) (amount : Option Leaf) :
    (s.layout capitals).direction direction count amount =
      (s.direction direction count amount).map (Phrase.text capitals) := by
  unfold Layout.direction Subject.direction
  cases amount with
  | some l => simp
  | none =>
    cases direction with
    | forward => simp [apply_ite (Option.map (Phrase.text capitals))]
    | backward => simp [apply_ite (Option.map (Phrase.text capitals))]
    | absolute => simp [apply_ite (Option.map (Phrase.text capitals))]
    | relative => simp

@[simp]
theorem layout_fetch (target : Option Datum) (cursor : Int32) (direction : Direction) (count : Int64)
    (amount : Option Leaf) (isMove : Bool) :
    (s.layout capitals).fetch target cursor direction count amount isMove =
      (s.fetch target cursor direction count amount isMove).text capitals := by
  unfold Layout.fetch fetch
  rw [layout_direction]
  cases s.direction direction count amount <;> cases target <;> cases isMove <;> simp

@[simp]
theorem layout_transaction (word : String) (chain : Bool) :
    (s.layout capitals).transaction word chain = (transaction word chain).text capitals := by
  unfold Layout.transaction transaction
  split <;> simp

theorem layout_simple (x : Simple) : (s.layout capitals).simple x = (s.simple x).text capitals := by
  cases x <;> simp [Layout.simple, simple, layout_selection]

@[simp]
theorem layout_argument (m : Member) :
    (s.layout capitals).argument m = (s.argument m).text capitals := by
  unfold Layout.argument argument
  rw [layout_function]
  rcases s.function.datum? m.number with _ | d
  · simp
  · cases d with
    | scalar v => cases htype : v.type <;> simp [htype]
    | _ => simp

theorem spaced_argumentList (first : String) (v : Variable) (next : String) (words : List String) :
    spaced (first :: ((s.argumentList v).map (Phrase.text capitals) ++ next :: words)) =
      first ++ (s.layout capitals).argumentList v ++ " " ++ spaced (next :: words) := by
  have hopening : " (" = " " ++ "(" := rfl
  unfold Layout.argumentList argumentList
  rw [layout_function]
  rcases v.cursorArguments.bind s.function.datum? with _ | d
  · simp
  · cases d with
    | row r =>
      have harguments : r.members.map (s.layout capitals).argument =
          (r.members.map s.argument).map (Phrase.text capitals) := by
        simp [Function.comp_def]
      simp [-String.reduceAppend, hopening, harguments, Mark.text, String.append_assoc]
    | _ => simp

@[simp]
theorem layout_cursorDeclaration (v : Variable) (query : Leaf) :
    (s.layout capitals).cursorDeclaration v query = (s.cursorDeclaration v query).text capitals := by
  simp [Layout.cursorDeclaration, cursorDeclaration, spaced_scroll s, spaced_argumentList, Mark.text,
    String.append_assoc]

@[simp]
theorem layout_variableType (t : Option TypeRef) :
    (s.layout capitals).variableType t = (s.variableType t).text capitals := by
  cases t <;> simp [Layout.variableType, variableType]

@[simp]
theorem layout_recordType (t : Option TypeRef) :
    (s.layout capitals).recordType t = (s.recordType t).text capitals := by
  cases t with
  | none => simp [Layout.recordType, recordType]
  | some t => simp [Layout.recordType, recordType, apply_ite (Phrase.text capitals)]

@[simp]
theorem layout_variableDeclaration (v : Variable) :
    (s.layout capitals).variableDeclaration v = (s.variableDeclaration v).text capitals := by
  have hsign : " := " = " " ++ ":=" ++ " " := rfl
  unfold Layout.variableDeclaration variableDeclaration
  cases v.isConstant <;> cases v.notNull <;> cases v.initial <;>
    simp [-String.reduceAppend, hsign, Mark.text, String.append_assoc]

theorem layout_declaration (d : Datum) :
    (s.layout capitals).declaration d = (s.declaration d).map (Phrase.text capitals) := by
  cases d with
  | scalar v =>
    cases hquery : v.cursorQuery <;> simp [Layout.declaration, declaration, hquery]
  | record r => simp [Layout.declaration, declaration, Mark.text]
  | row r => rfl
  | field a => rfl

theorem layout_head (head : LoopHead) : (s.layout capitals).head head = (s.head head).text capitals := by
  cases head with
  | range target lower upper step reverse =>
    cases step <;> cases reverse <;> simp [Layout.head, Subject.head, Mark.text, String.append_assoc]
  | cursor target number arguments =>
    cases arguments <;> simp [Layout.head, Subject.head]
  | array number slice value =>
    by_cases h : 0 < slice <;> simp [Layout.head, Subject.head, h]
  | _ => simp [Layout.head, Subject.head, text_withParameters]

theorem layout_armCondition (hasOperand : Bool) (condition : Leaf) :
    (s.layout capitals).armCondition hasOperand condition =
      (s.armCondition hasOperand condition).text capitals := by
  unfold Layout.armCondition armCondition
  cases hasOperand with
  | false => exact layout_leaf s capitals condition
  | true =>
    rw [show (s.layout capitals).leaf condition = Text.trim (condition.text s.backend) from rfl]
    dsimp only
    rw [if_pos rfl, if_pos rfl]
    cases CaseArm.values? (Text.trim (condition.text s.backend)) with
    | none => exact layout_leaf s capitals condition
    | some values => exact (Phrase.text_of capitals (.leaf values .verbatim)).symm

theorem text_conditions (names : List String) :
    (conditions names).text capitals =
      String.intercalate (" " ++ (Phrase.word "OR").text capitals ++ " ")
        (names.map (s.layout capitals).condition) := by
  fun_induction conditions names with
  | case1 => rfl
  | case2 name => simp
  | case3 name next names ih => simp [ih, String.intercalate_cons_cons, String.append_assoc]

theorem layout_handlerHead (names : List String) :
    (s.layout capitals).handlerHead names = (handlerHead names).text capitals := by
  simp [Layout.handlerHead, handlerHead, text_conditions s]

theorem layout_caseHead (operand : Option Leaf) :
    (s.layout capitals).caseHead operand = (s.caseHead operand).text capitals := by
  cases operand <;> simp [Layout.caseHead, caseHead]

/-! ## Lines -/

theorem layout_labelLines (depth : Nat) (label : Option String) :
    Layout.labelLines depth label = (labelDrafts depth label).map (Draft.line capitals) := by
  cases label <;> simp [Layout.labelLines, labelDrafts, Draft.line]

theorem layout_declarations (depth : Nat) (places : List Nat) :
    (s.layout capitals).declarations depth places =
      (s.declarations depth places).map (Draft.line capitals) := by
  unfold Layout.declarations declarations
  split
  · rfl
  · rw [List.map_cons, List.map_filterMap, Draft.line, layout_keyword]
    congr 2
    funext i
    rw [layout_function]
    rcases s.function.data[i]? with _ | d
    · rfl
    · simp [layout_declaration, Draft.line, Function.comp_def]

end Subject

/-- The drafts as lines. -/
def Drafted.laid (capitals : Bool) (d : Drafted) : Laid :=
  (d.1.map (Draft.line capitals), d.2)

section

variable (s : Subject) (capitals : Bool)

mutual

theorem Stmt.lines_layout (depth : Nat) (pending : Pending) :
    (x : Stmt) → x.lines (s.layout capitals) depth pending = (x.drafts s depth pending).laid capitals
  | .block b => by
    rw [Stmt.lines, Stmt.drafts, Block.lines_layout _ _ _ _ b]
  | .simple _ x => by
    simp [Stmt.lines, Stmt.drafts, Drafted.laid, Draft.line, Subject.layout_simple, Mark.text]
  | .conditional _ condition body arms otherwise => by
    simp only [Stmt.lines, Stmt.drafts, Stmts.lines_layout _ _ body, Arms.conditionalLines_layout _ _ arms,
      Stmts.lines_layout _ _ otherwise]
    cases otherwise.isEmpty <;> simp [Drafted.laid, Draft.line]
  | .choice _ operand _ arms hasElse otherwise => by
    simp only [Stmt.lines, Stmt.drafts, Arms.choiceLines_layout _ _ _ arms, Stmts.lines_layout _ _ otherwise]
    cases hasElse <;> simp [Drafted.laid, Draft.line, Subject.layout_caseHead]
  | .loop _ label head body => by
    simp only [Stmt.lines, Stmt.drafts, Stmts.lines_layout _ _ body, Subject.layout_labelLines capitals]
    simp [Drafted.laid, Draft.line, Subject.layout_head, Mark.text]

theorem Stmts.lines_layout (depth : Nat) (pending : Pending) :
    (xs : List Stmt) →
      Stmts.lines (s.layout capitals) depth pending xs = (Stmts.drafts s depth pending xs).laid capitals
  | [] => rfl
  | x :: xs => by
    simp only [Stmts.lines, Stmts.drafts, Stmt.lines_layout _ _ x, Stmts.lines_layout _ _ xs]
    simp [Drafted.laid]

theorem Block.lines_layout (depth : Nat) (places : List Nat) (outermost : Bool) (pending : Pending) :
    (b : Block) →
      b.lines (s.layout capitals) depth places outermost pending =
        (b.drafts s depth places outermost pending).laid capitals
  | ⟨_, label, body, handlers⟩ => by
    simp only [Block.lines, Block.drafts, Stmts.lines_layout _ _ body, Handlers.lines?_layout _ _ handlers,
      Subject.layout_labelLines capitals, Subject.layout_declarations]
    cases outermost <;> simp [Drafted.laid, Draft.line, Mark.text]

theorem Handlers.lines?_layout (depth : Nat) (pending : Pending) :
    (hs : Option (List Handler)) →
      Handlers.lines? (s.layout capitals) depth pending hs =
        (Handlers.drafts? s depth pending hs).laid capitals
  | none => rfl
  | some hs => by
    simp only [Handlers.lines?, Handlers.drafts?, Handlers.lines_layout _ _ hs]
    simp [Drafted.laid, Draft.line]

theorem Handlers.lines_layout (depth : Nat) (pending : Pending) :
    (hs : List Handler) →
      Handlers.lines (s.layout capitals) depth pending hs = (Handlers.drafts s depth pending hs).laid capitals
  | [] => rfl
  | ⟨_, conditions, action⟩ :: hs => by
    simp only [Handlers.lines, Handlers.drafts, Stmts.lines_layout _ _ action, Handlers.lines_layout _ _ hs,
      Subject.layout_handlerHead]
    simp [Drafted.laid, Draft.line]

theorem Arms.conditionalLines_layout (depth : Nat) (pending : Pending) :
    (as : List Arm) →
      Arms.conditionalLines (s.layout capitals) depth pending as =
        (Arms.conditionalDrafts s depth pending as).laid capitals
  | [] => rfl
  | ⟨_, condition, body⟩ :: as => by
    simp only [Arms.conditionalLines, Arms.conditionalDrafts, Stmts.lines_layout _ _ body,
      Arms.conditionalLines_layout _ _ as]
    simp [Drafted.laid, Draft.line]

theorem Arms.choiceLines_layout (depth : Nat) (hasOperand : Bool) (pending : Pending) :
    (as : List Arm) →
      Arms.choiceLines (s.layout capitals) depth hasOperand pending as =
        (Arms.choiceDrafts s depth hasOperand pending as).laid capitals
  | [] => rfl
  | ⟨_, condition, body⟩ :: as => by
    simp only [Arms.choiceLines, Arms.choiceDrafts, Stmts.lines_layout _ _ body,
      Arms.choiceLines_layout _ _ _ as, Subject.layout_armCondition]
    simp [Drafted.laid, Draft.line]

end

end

/-- The lines of a routine are its drafts, written in the case of its keywords. -/
theorem Function.lines_layout (b : Sql.Backend) (f : Function) (kind : Option ReturnKind) (capitals : Bool) :
    (f.layout kind capitals b).lines = (f.drafts kind b).map (Draft.line capitals) :=
  congrArg Prod.fst (Block.lines_layout ⟨b, f, kind⟩ capitals 0 _ true _ f.action)

/-- **The format is cosmetic.** Whatever the backend, a routine has one list of lines for each case of keywords,
whatever its indentation and newline are, and its body is these lines, indented by their depths and joined. The two
lists have the same length, the same depths, and texts that differ in the case of letters only. -/
theorem format_is_cosmetic (b : Sql.Backend) (f : Function) (kind : Option ReturnKind) :
    ∃ lines : Bool → List Line,
      (∀ format : Format, f.body format kind b =
        String.intercalate format.newline ((lines format.capitals).map fun l =>
          String.join (List.replicate l.depth format.indent) ++ l.text)) ∧
      (lines true).length = (lines false).length ∧
      (lines true).map Line.depth = (lines false).map Line.depth ∧
      (lines true).map (fun l => Text.lowercase l.text) =
        (lines false).map (fun l => Text.lowercase l.text) := by
  refine ⟨fun capitals => (f.drafts kind b).map (Draft.line capitals), ?_, ?_, ?_, ?_⟩
  · intro format
    rw [Function.body, Function.lines_layout, Format.join]
    rfl
  · rw [List.length_map, List.length_map]
  · rw [List.map_map, List.map_map]
    rfl
  · rw [List.map_map, List.map_map]
    refine List.map_congr_left ?_
    intro d _
    exact d.phrase.lowercase_text

end Routine
