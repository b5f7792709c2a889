import Routine.Layout.Body
import Routine.Proofs.AssignmentRule
import Routine.Proofs.DollarTags

/-!
# The targets of assignments that are written

The leaf of an assignment holds the whole assignment or the value only, and the line written for it is the leaf,
with the target of the statement in front where the leaf is a value. A leaf of a mode for assignments is a whole
assignment. For any other leaf two answers are at hand: `Assignment.parse` looks for an operator outside
brackets, and the line for the characters `:=` anywhere. They part where `:=` stands in an argument list, a string
or a comment (`Layout.keepsTarget_iff`), and then the target is lost.
-/

namespace Routine

namespace Assignment

open Sql (Lexeme)

/-- The text is an assignment: it has an operator and two sides. -/
def Splits (text : String) : Prop := ∃ sides, parse text = .ok sides

theorem not_splits_of_error {text : String} {fault : Fault} (h : parse text = .error fault) : ¬ Splits text := by
  rintro ⟨sides, hsides⟩
  rw [h] at hsides
  cases hsides

/-- Without a bare `:=`, no `=` or several make no assignment. -/
theorem not_splits_of_bareEquals {text : String} {ls : List Lexeme} (hls : Sql.lexemes text.toList = .ok ls)
    (hassigns : bareAssigns ls = []) (hequals : (bareEquals ls).length ≠ 1) : ¬ Splits text := by
  have hrule := operatorOfLexemes_eq ls
  rw [hassigns] at hrule
  match hlist : bareEquals ls with
  | [] =>
    rw [hlist] at hrule
    exact not_splits_of_error (parse_of_fault hls hrule)
  | [o] =>
    rw [hlist] at hequals
    exact absurd rfl hequals
  | first :: second :: rest =>
    rw [hlist] at hrule
    exact not_splits_of_error (parse_of_fault hls hrule)

/-- What stands in a lexeme stands in the text. -/
theorem contains_of_mem {text piece : String} {ls : List Lexeme} {l : Lexeme}
    (hls : Sql.lexemes text.toList = .ok ls) (hl : l ∈ ls) (hpiece : Text.hasPiece piece.toList l.source = true) :
    Text.contains text piece = true := by
  obtain ⟨before, after, rfl⟩ := List.append_of_mem hl
  have htext := (Sql.lexemes_eq_ok_iff.1 hls).2
  rw [Sql.spelled_append, Sql.spelled_cons] at htext
  have hsource : l.source <:+: text.toList := by
    refine ⟨Sql.spelled before, Sql.spelled after, ?_⟩
    rw [← htext, List.append_assoc]
  exact Text.hasPiece_iff.2 ((Text.hasPiece_iff.1 hpiece).trans hsource)

theorem contains_of_bareAssigns {text : String} {ls : List Lexeme} (hls : Sql.lexemes text.toList = .ok ls)
    (h : bareAssigns ls ≠ []) : Text.contains text ":=" = true := by
  obtain ⟨o, os, ho⟩ := List.exists_cons_of_ne_nil h
  obtain ⟨hat, -, htoken⟩ := mem_bareAssigns (ho ▸ List.mem_cons_self)
  refine contains_of_mem hls (l := o.lexeme) (by simp [hat]) ?_
  rw [Occurrence.source_eq hls hat htoken (.inl rfl)]
  decide

end Assignment

open Assignment Sql

namespace Layout

variable (y : Layout)

/-- **The line does right by the target.** It is the leaf alone only where the leaf is an assignment, by its
mode or by its text, and otherwise the target of the statement, `:=` and the leaf. -/
structure KeepsTarget (number : Int32) (value : Leaf) (line : String) : Prop where
  alone : line = y.leaf value ++ ";" → value.mode.isAssignment = true ∨ Splits (y.leaf value)
  otherwise : ¬ (value.mode.isAssignment = true ∨ Splits (y.leaf value)) →
    line = y.function.reference number ++ " := " ++ y.leaf value ++ ";"

variable {y} {number : Int32} {value : Leaf}

theorem assign_of_contains (h : Text.contains (y.leaf value) ":=" = true) :
    y.assign number value = y.leaf value := by
  simp [assign, h]

theorem assign_of_not_contains (hmode : value.mode.isAssignment = false)
    (h : Text.contains (y.leaf value) ":=" = false) :
    y.assign number value = y.function.reference number ++ " := " ++ y.leaf value := by
  simp [assign, hmode, h]

/-- The leaf alone is never the leaf behind something. -/
theorem ne_leaf_of_target (target text : String) : target ++ " := " ++ text ++ ";" ≠ text ++ ";" := by
  intro h
  have hlength := congrArg String.length h
  simp only [String.length_append] at hlength
  have hsign : " := ".length = 4 := rfl
  omega

theorem keepsTarget_iff :
    y.KeepsTarget number value (y.assign number value ++ ";") ↔
      value.mode.isAssignment = true ∨ Splits (y.leaf value) ∨ Text.contains (y.leaf value) ":=" = false := by
  rw [← or_assoc]
  by_cases hwhole : value.mode.isAssignment = true ∨ Splits (y.leaf value)
  · exact iff_of_true ⟨fun _ => hwhole, fun hnot => absurd hwhole hnot⟩ (.inl hwhole)
  · have hmode : value.mode.isAssignment = false := by
      rw [← Bool.not_eq_true]
      exact fun hmode => hwhole (.inl hmode)
    simp only [hwhole, false_or]
    constructor
    · intro hkeeps
      rw [← Bool.not_eq_true]
      intro hcontains
      exact hwhole (hkeeps.alone (by rw [assign_of_contains hcontains]))
    · intro hcontains
      rw [assign_of_not_contains hmode hcontains]
      exact ⟨fun halone => absurd halone (ne_leaf_of_target _ _), fun _ => rfl⟩

end Layout

/-- **Where the target of an assignment is kept.** A statement that assigns is one line. The line does right by the
target exactly if the leaf has a mode for assignments, its text is an assignment, or `:=` stands nowhere in it.

Let the text be cut into lexemes. With a bare `:=` the line is the leaf alone, so no target is written in front of
another. Without one, and with no `=` or several in its place, the text is no assignment; one lexeme with `:=` in
it (an operator inside brackets, a string, a comment) is then enough for the target to be lost. -/
theorem assigned_target_is_kept_iff (y : Layout) (depth : Nat) (pending : Pending) (row number : Int32)
    (value : Leaf) :
    ∃ line, Stmt.lines y depth pending (.simple row (.assign number value)) = ([⟨depth, line⟩], pending) ∧
      (y.KeepsTarget number value line ↔
        value.mode.isAssignment = true ∨ Splits (y.leaf value) ∨
          Text.contains (y.leaf value) ":=" = false) ∧
      ∀ ls, lexemes (y.leaf value).toList = .ok ls →
        (bareAssigns ls ≠ [] → line = y.leaf value ++ ";") ∧
        (bareAssigns ls = [] → (bareEquals ls).length ≠ 1 → value.mode.isAssignment = false →
          (∃ l ∈ ls, Text.hasPiece [':', '='] l.source = true) →
          line = y.leaf value ++ ";" ∧ ¬ y.KeepsTarget number value line) := by
  refine ⟨y.assign number value ++ ";", by rw [Stmt.lines, Layout.simple], Layout.keepsTarget_iff, ?_⟩
  intro ls hls
  refine ⟨?_, ?_⟩
  · intro hassigns
    rw [Layout.assign_of_contains (contains_of_bareAssigns hls hassigns)]
  · rintro hassigns hequals hmode ⟨l, hl, hpiece⟩
    have hcontains : Text.contains (y.leaf value) ":=" = true := contains_of_mem hls hl hpiece
    refine ⟨by rw [Layout.assign_of_contains hcontains], ?_⟩
    rw [Layout.keepsTarget_iff, hmode, hcontains]
    simpa using not_splits_of_bareEquals hls hassigns hequals

/-- A routine with the variable `x`. -/
def oneVariable : Layout :=
  ⟨.postgres, ⟨[.scalar ⟨"x", 1, some (.raw "int"), false, false, none, none, none, 0⟩], ⟨2, none, [], none⟩⟩,
    none, true⟩

/-- An argument with a name and a string are values, but the variable is not written. -/
theorem operators_inside_a_value_drop_the_target :
    oneVariable.function.reference 0 = "x" ∧
      (∀ text ∈ ["f(a := 1)", "'a := 1'"],
        Stmt.lines oneVariable 1 [] (.simple 3 (.assign 0 (.raw text .expression))) = ([⟨1, text ++ ";"⟩], []) ∧
          Assignment.parse text = .error .noOperator) ∧
      ¬ ∀ (y : Layout) (depth : Nat) (pending : Pending) (row number : Int32) (value : Leaf) (line : String),
        Stmt.lines y depth pending (.simple row (.assign number value)) = ([⟨depth, line⟩], pending) →
          y.KeepsTarget number value line := by
  have hindex : oneVariable.function.index? 0 = some ⟨0, Nat.one_pos⟩ := by decide
  refine ⟨?_, by decide +kernel, ?_⟩
  · rw [Function.reference, Function.referenceAt, hindex]
    dsimp only
    rw [if_neg List.not_mem_nil]
    simp [oneVariable, Function.referenceIn]
  · intro hall
    have hkeeps : oneVariable.KeepsTarget 0 (.raw "f(a := 1)" .expression) "f(a := 1);" :=
      hall oneVariable 1 [] 3 0 (.raw "f(a := 1)" .expression) "f(a := 1);" (by decide +kernel)
    have hparse : Assignment.parse "f(a := 1)" = .error .noOperator := by decide +kernel
    rcases hkeeps.alone rfl with hmode | hsplits
    · cases hmode
    · exact not_splits_of_error hparse hsplits

end Routine
