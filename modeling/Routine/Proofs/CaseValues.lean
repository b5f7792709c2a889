import Routine.Proofs.Mirror
import Routine.Proofs.EmittedNames

/-!
# Values of `CASE` arms

An arm of a `CASE` with an operand is kept as the condition that a hidden variable is `IN` the values, and is shown with
the values alone. What is taken for the values reaches from the first parenthesis after `IN` to the last of the text.
Both are always the right ones: nothing but blanks and `IN` stands between the variable and the first, and nothing but
blanks behind the last. So the values may hold parentheses in any arrangement, and the text is a condition in one way
only (`CaseArm.values?_eq_some_iff`). Any other text is shown as it is.
-/

namespace Routine

open Text (isBlank isDecimalDigit)
open Assignment (AllBlank)

namespace CaseArm

/-- A double quote or nothing. -/
def IsQuote (cs : List Char) : Prop := cs = ['"'] ∨ cs = []

/-- The hidden variable of a `CASE`, with its number. Either of its quotes may be missing. -/
inductive IsVariable : List Char → Prop
  | intro {opening digits closing : List Char} (hopening : IsQuote opening) (hne : digits ≠ [])
    (hdigits : ∀ d ∈ digits, isDecimalDigit d = true) (hclosing : IsQuote closing) :
    IsVariable (opening ++ (caseVariableLead.toList ++ (digits ++ (['_', '_'] ++ closing))))

/-- The condition that the hidden variable is one of the values. -/
inductive IsCondition (values : List Char) : List Char → Prop
  | intro {name gap gap' : List Char} (hname : IsVariable name) (hne : gap ≠ []) (hgap : AllBlank gap)
    (hgap' : AllBlank gap') :
    IsCondition values (name ++ (gap ++ (['I', 'N'] ++ (gap' ++ (['('] ++ (values ++ [')']))))))

variable {piece cs rest q name gap values : List Char}

/-! ## Pieces -/

theorem dropPiece?_eq_some_iff : dropPiece? piece cs = some rest ↔ cs = piece ++ rest := by
  rw [dropPiece?]
  split
  · next hpre =>
    obtain ⟨tail, rfl⟩ := List.isPrefixOf_iff_prefix.1 hpre
    simp
  · next hpre =>
    refine iff_of_false (by simp) ?_
    rintro rfl
    exact hpre (List.isPrefixOf_iff_prefix.2 (List.prefix_append piece rest))

theorem dropPiece?_append (piece rest : List Char) : dropPiece? piece (piece ++ rest) = some rest :=
  dropPiece?_eq_some_iff.2 rfl

theorem dropQuote_append (hq : IsQuote q) (hrest : rest.head? ≠ some '"') : dropQuote (q ++ rest) = rest := by
  rcases hq with rfl | rfl
  · rfl
  · rw [List.nil_append]
    unfold dropQuote
    split
    · exact absurd rfl hrest
    · rfl

theorem exists_dropQuote (cs : List Char) : ∃ q, IsQuote q ∧ cs = q ++ dropQuote cs := by
  unfold dropQuote
  split
  · exact ⟨['"'], .inl rfl, rfl⟩
  · exact ⟨[], .inr rfl, rfl⟩

theorem dropBlanks_append (hgap : AllBlank gap) (hrest : ∀ c ∈ rest.head?, isBlank c = false) :
    Text.dropBlanks (gap ++ rest) = rest := by
  rw [Text.dropBlanks, List.dropWhile_append_of_pos hgap]
  cases rest with
  | nil => rfl
  | cons c rest => simp [hrest c rfl]

theorem exists_dropBlanks (cs : List Char) : ∃ gap, AllBlank gap ∧ cs = gap ++ Text.dropBlanks cs :=
  ⟨cs.takeWhile isBlank, List.all_eq_true.1 List.all_takeWhile, List.takeWhile_append_dropWhile.symm⟩

/-! ## The variable -/

theorem dropVariable?_append (hname : IsVariable name) (hrest : rest.head? ≠ some '"') :
    dropVariable? (name ++ rest) = some rest := by
  obtain @⟨opening, digits, closing, hopening, hne, hdigits, hclosing⟩ := hname
  have hlead : dropQuote (opening ++ (caseVariableLead.toList ++ (digits ++ (['_', '_'] ++ closing))) ++ rest) =
      caseVariableLead.toList ++ (digits ++ (['_', '_'] ++ (closing ++ rest))) := by
    simp only [List.append_assoc]
    exact dropQuote_append hopening (by simp [caseVariableLead])
  have hnumber : (digits ++ (['_', '_'] ++ (closing ++ rest))).takeWhile isDecimalDigit = digits := by
    have hunderscore : ¬ isDecimalDigit '_' = true := by decide
    rw [List.takeWhile_append_of_pos hdigits, List.cons_append, List.takeWhile_cons, if_neg hunderscore,
      List.append_nil]
  rw [dropVariable?, hlead, dropPiece?_append]
  simp only [Option.bind_eq_bind, Option.bind_some, hnumber, List.drop_left]
  rw [dropPiece?_append, Option.bind_some, dropQuote_append hclosing hrest]
  simp [hne, guard]

theorem exists_of_dropVariable? (h : dropVariable? cs = some rest) :
    ∃ name, IsVariable name ∧ cs = name ++ rest := by
  obtain ⟨opening, hopening, hcs⟩ := exists_dropQuote cs
  simp only [dropVariable?, Option.bind_eq_bind, Option.bind_eq_some_iff] at h
  obtain ⟨numbered, hlead, _, hguard, ended, hended, hrest⟩ := h
  obtain ⟨closing, hclosing, hlast⟩ := exists_dropQuote ended
  obtain rfl : dropQuote ended = rest := Option.some.inj hrest
  rw [dropPiece?_eq_some_iff] at hlead hended
  have hne : numbered.takeWhile isDecimalDigit ≠ [] := by
    intro hnil
    rw [hnil] at hguard
    cases hguard
  refine ⟨_, .intro hopening hne (List.all_eq_true.1 List.all_takeWhile) hclosing, ?_⟩
  have hnumbered : numbered = numbered.takeWhile isDecimalDigit ++ (['_', '_'] ++ ended) := by
    rw [← hended]
    exact (List.prefix_iff_eq_append.1 (List.takeWhile_prefix _)).symm
  rw [hcs, hlead]
  conv_lhs => rw [hnumbered, hlast]
  simp only [List.append_assoc]

theorem head?_variable (hname : IsVariable name) : ∀ c ∈ (name ++ rest).head?, isBlank c = false := by
  obtain ⟨rfl | rfl, -, -, -⟩ := hname
  · rintro c ⟨⟩
    decide
  · rintro c ⟨⟩
    decide

/-! ## The values -/

theorem closed?_eq_some_iff : closed? cs = some values ↔ Text.dropBlanksEnd cs = values ++ [')'] := by
  rw [closed?]
  constructor
  · intro h
    split at h
    · next hlast =>
      cases h
      exact (List.dropLast_append_getLast? _ hlast).symm
    · cases h
  · intro h
    rw [h]
    simp

theorem closed?_append (hgap : AllBlank gap) : closed? (values ++ ([')'] ++ gap)) = some values := by
  have hparenthesis : isBlank ')' = false := by decide
  rw [closed?_eq_some_iff, Text.dropBlanksEnd, ← List.append_assoc, List.reverse_append,
    List.dropWhile_append_of_pos fun c hc => hgap c (List.mem_reverse.1 hc)]
  simp [hparenthesis]

/-- **What is taken for the values of an arm** is what stands between the parentheses of a condition. -/
theorem values?_eq_some_iff {text shown : String} :
    values? text = some shown ↔
      ∃ bs cs values bs', text.toList = bs ++ cs ++ bs' ∧ AllBlank bs ∧ AllBlank bs' ∧ IsCondition values cs ∧
        String.ofList (Text.strip values) = shown := by
  constructor
  · intro h
    obtain ⟨bs, hbs, htext⟩ := exists_dropBlanks text.toList
    simp only [values?, Option.bind_eq_bind, Option.bind_eq_some_iff] at h
    obtain ⟨afterName, hname, _, hguard, afterIn, hin, inside, hinside, values, hclosed, hshown⟩ := h
    obtain ⟨name, hvariable, hfront⟩ := exists_of_dropVariable? hname
    obtain ⟨gap, hgap, hafterName⟩ := exists_dropBlanks afterName
    obtain ⟨gap', hgap', hafterIn⟩ := exists_dropBlanks afterIn
    obtain ⟨bs', hinside', hbs'⟩ := IntoClause.exists_dropBlanksEnd inside
    rw [dropPiece?_eq_some_iff] at hin hinside
    rw [closed?_eq_some_iff.1 hclosed] at hinside'
    have hne : gap ≠ [] := by
      rintro rfl
      rw [List.nil_append] at hafterName
      rw [hafterName, hin] at hguard
      exact absurd hguard (by simp [isBlank, guard])
    refine ⟨bs, _, values, bs', ?_, hbs, hbs', .intro hvariable hne hgap hgap', Option.some.inj hshown⟩
    rw [htext, hfront, hafterName, hin, hafterIn, hinside, hinside']
    simp only [List.append_assoc]
  · rintro ⟨bs, cs, values, bs', htext, hbs, hbs', @⟨name, gap, gap', hname, hne, hgap, hgap'⟩, rfl⟩
    obtain ⟨b, bs₀, rfl⟩ := List.exists_cons_of_ne_nil hne
    have hb : isBlank b = true := hgap b List.mem_cons_self
    have hquote : b ≠ '"' := by
      rintro rfl
      exact absurd hb (by decide)
    have hstart : Text.dropBlanks text.toList =
        name ++ (b :: bs₀ ++ (['I', 'N'] ++ (gap' ++ (['('] ++ (values ++ ([')'] ++ bs')))))) := by
      rw [htext]
      simp only [List.append_assoc]
      exact dropBlanks_append hbs (head?_variable hname)
    have hin (tail : List Char) : Text.dropBlanks (b :: bs₀ ++ (['I', 'N'] ++ tail)) = ['I', 'N'] ++ tail := by
      refine dropBlanks_append hgap ?_
      rintro c ⟨⟩
      decide
    have hopening (tail : List Char) : Text.dropBlanks (gap' ++ (['('] ++ tail)) = ['('] ++ tail := by
      refine dropBlanks_append hgap' ?_
      rintro c ⟨⟩
      decide
    rw [values?, hstart, dropVariable?_append hname (by simpa using hquote)]
    simp only [Option.bind_eq_bind, Option.bind_some, hin, hopening, dropPiece?_append, closed?_append hbs']
    simp [hb, guard]

/-- A condition starts and ends in no blank. -/
theorem IsCondition.isTrimmed (h : IsCondition values cs) : IntoClause.IsTrimmed cs := by
  obtain @⟨name, gap, gap', hname, -, -, -⟩ := h
  refine ⟨head?_variable hname, ?_⟩
  simp only [← List.append_assoc, List.getLast?_concat]
  rintro c ⟨⟩
  decide

/-- The blanks around a condition do not count. -/
theorem values?_trim_eq_some_iff {text shown : String} :
    values? (Text.trim text) = some shown ↔
      ∃ values, IsCondition values (Text.strip text.toList) ∧ Text.trim (String.ofList values) = shown := by
  simp only [Text.trim, String.toList_ofList]
  rw [values?_eq_some_iff, String.toList_ofList]
  constructor
  · rintro ⟨bs, cs, values, bs', htext, hbs, hbs', hcs, hshown⟩
    have hsame := Assignment.strip_append hbs hcs.isTrimmed hbs'
    rw [← htext, Identifier.strip_eq_self (IntoClause.isTrimmed_strip _)] at hsame
    exact ⟨values, hsame ▸ hcs, hshown⟩
  · rintro ⟨values, hcs, hshown⟩
    exact ⟨[], _, values, [], by simp, List.forall_mem_nil _, List.forall_mem_nil _, hcs, hshown⟩

end CaseArm

namespace Layout

variable {y : Layout} {condition : Leaf}

theorem armCondition_of_isCondition {values : List Char}
    (h : CaseArm.IsCondition values (Text.strip (condition.text y.backend).toList)) :
    y.armCondition true condition = Text.trim (String.ofList values) := by
  rw [armCondition, leaf, CaseArm.values?_trim_eq_some_iff.2 ⟨values, h, rfl⟩]
  rfl

theorem armCondition_of_not_isCondition
    (h : ∀ values, ¬ CaseArm.IsCondition values (Text.strip (condition.text y.backend).toList)) :
    y.armCondition true condition = Text.trim (condition.text y.backend) := by
  have hnone : CaseArm.values? (Text.trim (condition.text y.backend)) = none := by
    refine Option.eq_none_iff_forall_ne_some.2 fun shown hshown => ?_
    obtain ⟨values, hcs, -⟩ := CaseArm.values?_trim_eq_some_iff.1 hshown
    exact h values hcs
  rw [armCondition, leaf, hnone]
  rfl

end Layout

/-- The line of an arm comes right after the lines of the arms before it. -/
theorem Stmt.exists_lines_choice (y : Layout) (depth : Nat) (pending : Pending) (line number : Int32)
    (operand : Option Leaf) (before : List Arm) (arm : Arm) (after : List Arm) (hasElse : Bool)
    (otherwise : List Stmt) :
    ∃ rest, (Stmt.lines y depth pending (.choice line operand number (before ++ arm :: after) hasElse otherwise)).1 =
      ⟨depth, y.caseHead operand⟩ :: (Arms.choiceLines y depth operand.isSome pending before).1 ++
        (arm.choicePart y depth operand.isSome).1 :: rest := by
  rw [Stmt.lines_eq_assemble, Stmt.front, Arms.choiceLines_eq_assemble, List.map_append, List.map_cons,
    List.append_assoc, Segment.headed_append, List.cons_append, Layout.assemble, List.append_assoc,
    Layout.assemble_append]
  exact ⟨_, rfl⟩

/-- **The arms of a `CASE` with an operand are shown with their values.** The line of an arm comes after the lines of
the arms before it. Where the text of the arm is the condition that the hidden variable is `IN` some values, with blanks
around it or not, the line shows the values without the blanks around them, whatever they are. Where the text does not
end in a parenthesis, or does not start with such a variable, the line shows the text. -/
theorem case_arms_give_their_values_back (y : Layout) (depth : Nat) (pending : Pending) (line number : Int32)
    (operand : Leaf) (before : List Arm) (arm : Arm) (after : List Arm) (hasElse : Bool) (otherwise : List Stmt) :
    ∃ shown rest,
      (Stmt.lines y depth pending
          (.choice line (some operand) number (before ++ arm :: after) hasElse otherwise)).1 =
        ⟨depth, y.caseHead (some operand)⟩ :: (Arms.choiceLines y depth true pending before).1 ++
          ⟨depth + 1, spaced [y.keyword "WHEN", shown, y.keyword "THEN"]⟩ :: rest ∧
      (∀ bs cs values bs', (arm.condition.text y.backend).toList = bs ++ cs ++ bs' → AllBlank bs → AllBlank bs' →
        CaseArm.IsCondition values cs → shown = Text.trim (String.ofList values)) ∧
      ((Text.trim (arm.condition.text y.backend)).toList.getLast? ≠ some ')' ∨
          (¬ ∃ name rest, CaseArm.IsVariable name ∧
            (Text.trim (arm.condition.text y.backend)).toList = name ++ rest) →
        shown = Text.trim (arm.condition.text y.backend)) := by
  obtain ⟨rest, hlines⟩ := Stmt.exists_lines_choice y depth pending line number (some operand) before arm after
    hasElse otherwise
  refine ⟨y.armCondition true arm.condition, rest, hlines, ?_, ?_⟩
  · intro bs cs values bs' htext hbs hbs' hcs
    refine Layout.armCondition_of_isCondition ?_
    rwa [htext, Assignment.strip_append hbs hcs.isTrimmed hbs']
  · rw [Text.trim, String.toList_ofList]
    intro hnot
    refine Layout.armCondition_of_not_isCondition fun values hcs => ?_
    generalize Text.strip (arm.condition.text y.backend).toList = cs at hnot hcs
    obtain @⟨name, gap, gap', hname, -, -, -⟩ := hcs
    rcases hnot with hlast | hstart
    · simp only [← List.append_assoc, List.getLast?_concat] at hlast
      exact hlast rfl
    · exact hstart ⟨name, _, hname, rfl⟩

/-- A layout for examples. -/
def plainLayout : Layout := ⟨.postgres, ⟨[], ⟨1, none, [], none⟩⟩, none, true⟩

/-- The values of the first arm hold a lone parenthesis and a line break, and the second arm is no such condition. -/
theorem case_arms_give_their_values_back_days :
    let values : Arm := ⟨2, .raw "\n \"__Case__Variable_3__\" IN ( f(')'), \"a)\n(b\" )  " .expression, []⟩
    let test : Arm := ⟨3, .raw " d > 5 " .expression, []⟩
    let lines := (Stmt.lines plainLayout 0 [] (.choice 1 (some (.raw "d" .expression)) 3 [values, test] false [])).1
    (∃ rest, lines = ⟨0, "CASE d"⟩ :: ⟨1, "WHEN f(')'), \"a)\n(b\" THEN"⟩ :: rest) ∧
      ∃ rest, lines = ⟨0, "CASE d"⟩ :: (Arms.choiceLines plainLayout 0 true [] [values]).1 ++
        ⟨1, "WHEN d > 5 THEN"⟩ :: rest := by
  intro values test lines
  have hhead : plainLayout.caseHead (some (.raw "d" .expression)) = "CASE d" := by decide
  constructor
  · obtain ⟨shown, rest, hlines, hvalues, -⟩ := case_arms_give_their_values_back plainLayout 0 [] 1 3
      (.raw "d" .expression) [] values [test] false []
    have hname : CaseArm.IsVariable "\"__Case__Variable_3__\"".toList :=
      @CaseArm.IsVariable.intro ['"'] ['3'] ['"'] (.inl rfl) (List.cons_ne_nil _ _)
        (List.forall_mem_singleton.2 rfl) (.inl rfl)
    have hblank : AllBlank [' '] := by simp [AllBlank, isBlank]
    have hcondition : CaseArm.IsCondition " f(')'), \"a)\n(b\" ".toList
        "\"__Case__Variable_3__\" IN ( f(')'), \"a)\n(b\" )".toList := .intro hname (by decide) hblank hblank
    have hline : spaced [plainLayout.keyword "WHEN", shown, plainLayout.keyword "THEN"] =
        "WHEN f(')'), \"a)\n(b\" THEN" := by
      rw [hvalues ['\n', ' '] _ _ [' ', ' '] (by decide) (by simp [AllBlank, isBlank])
        (by simp [AllBlank, isBlank]) hcondition]
      decide
    have hbefore : (Arms.choiceLines plainLayout 0 true [] []).1 = [] := rfl
    rw [hhead, hline, hbefore] at hlines
    exact ⟨rest, hlines⟩
  · obtain ⟨shown, rest, hlines, -, htext⟩ := case_arms_give_their_values_back plainLayout 0 [] 1 3
      (.raw "d" .expression) [values] test [] false []
    have hline : spaced [plainLayout.keyword "WHEN", shown, plainLayout.keyword "THEN"] = "WHEN d > 5 THEN" := by
      rw [htext (.inl (by decide))]
      decide
    rw [hhead, hline] at hlines
    exact ⟨rest, hlines⟩

end Routine
