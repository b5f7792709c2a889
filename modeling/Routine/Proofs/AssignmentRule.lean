import Mathlib.Data.List.TakeWhile
import Routine.Assignment
import Routine.Proofs.SelectList
import Routine.Proofs.Signs

/-!
# The rule for the operator of an assignment

The operator is looked for in one pass that counts brackets. The rule needs no pass: take the lexemes of the
text with what stands on both sides of each (`occurrences`). A lexeme is bare if the brackets before it are
closed. The operator is the first bare `:=`; without one it is the only bare `=` that is no part of a
comparison or an arrow, and two of them are one too many.

The pass and the rule have the same operators in the same order (`surface_eq`, `operatorOfLexemes_eq`). Around
the operator nothing is lost: the text is the two sides and the operator, but for blanks (`IsCutAt`). The operator
is a token, and the pieces meet at the offsets of its places (`operator_at_token`).
-/

namespace Routine
namespace Assignment

open Sql (Lexeme Token spelled tokens)
open Text (isBlank)
open IntoClause (IsTrimmed isTrimmed_strip exists_strip)

/-! ## Lexemes with what stands around them -/

/-- A lexeme of a text, and the lexemes on both sides of it. -/
structure Occurrence where
  before : List Lexeme
  lexeme : Lexeme
  after : List Lexeme
deriving DecidableEq

/-- The lexemes that come after others, in their order. -/
def occurrencesAfter (before : List Lexeme) : List Lexeme → List Occurrence
  | [] => []
  | l :: ls => ⟨before, l, ls⟩ :: occurrencesAfter (before ++ [l]) ls

/-- The lexemes of a text, in their order. -/
def occurrences (ls : List Lexeme) : List Occurrence := occurrencesAfter [] ls

theorem eq_of_mem_occurrencesAfter {before ls : List Lexeme} {o : Occurrence}
    (h : o ∈ occurrencesAfter before ls) : before ++ ls = o.before ++ o.lexeme :: o.after := by
  induction ls generalizing before with
  | nil => cases h
  | cons l ls ih =>
    rcases List.mem_cons.1 h with rfl | h
    · rfl
    · rw [List.append_cons]
      exact ih h

theorem eq_of_mem_occurrences {ls : List Lexeme} {o : Occurrence} (h : o ∈ occurrences ls) :
    ls = o.before ++ o.lexeme :: o.after :=
  eq_of_mem_occurrencesAfter h

/-! ## Bare operators -/

/-- Opening brackets less closing ones; round and square ones count alike. -/
def depth (ts : List Token) : Int :=
  ((ts.count (.sign "(") + ts.count (.sign "[") : Nat) : Int) - (ts.count (.sign ")") + ts.count (.sign "]") : Nat)

theorem depth_append (ts us : List Token) : depth (ts ++ us) = depth ts + depth us := by
  simp only [depth, List.count_append]
  omega

namespace Occurrence

/-- The brackets before the lexeme are closed. -/
def isBare (o : Occurrence) : Bool := depth (tokens o.before) = 0

/-- The token right before it; a gap is one. -/
def previous? (o : Occurrence) : Option Token := o.before.getLast?.map Lexeme.token

/-- The token right after it. -/
def next? (o : Occurrence) : Option Token := o.after.head?.map Lexeme.token

def isAssign (o : Occurrence) : Bool := o.lexeme.token = .sign ":="

/-- An `=` that no `<`, `>` or `!` stands right before, and no `>` right after. -/
def isEquals (o : Occurrence) : Bool :=
  o.lexeme.token = .sign "=" && o.previous? ∉ [some (.sign "<"), some (.sign ">"), some (.sign "!")] &&
    o.next? ≠ some (.sign ">")

/-- The lexeme as an operator of the text. -/
def operator (o : Occurrence) : Operator := ⟨(spelled o.before).length, o.lexeme.source.length⟩

end Occurrence

/-- The bare `:=` of a text, in their order. -/
def bareAssigns (ls : List Lexeme) : List Occurrence :=
  (occurrences ls).filter fun o => o.isBare && o.isAssign

/-- The bare `=` of a text that are no part of a comparison or an arrow, in their order. -/
def bareEquals (ls : List Lexeme) : List Occurrence :=
  (occurrences ls).filter fun o => o.isBare && o.isEquals

/-! ## The pass and the rule -/

theorem depth_singleton (t : Token) : depth [t] = tokenDepth t := by
  unfold tokenDepth
  split
  · rfl
  · rfl
  · rfl
  · rfl
  · next hround hsquare hround' hsquare' =>
    have hnone {u : Token} (hne : t ≠ u) : [t].count u = 0 :=
      List.count_eq_zero.2 fun hmem => hne (List.mem_singleton.1 hmem).symm
    rw [depth, hnone hround, hnone hsquare, hnone hround', hnone hsquare']
    rfl

theorem depth_concat (before : List Lexeme) (l : Lexeme) :
    depth (tokens (before ++ [l])) = depth (tokens before) + tokenDepth l.token := by
  rw [Sql.tokens_append, depth_append]
  cases hgap : l.token.isGap with
  | true =>
    rw [Sql.Token.eq_gap_of_isGap hgap]
    simp [tokens, hgap, depth, tokenDepth]
  | false => simp [tokens, hgap, depth_singleton]

/-- The lexeme as the pass sees it. -/
def Occurrence.placed (o : Occurrence) : Placed :=
  ⟨(spelled o.before).length, o.previous?, o.lexeme, o.next?⟩

/-- **One pass.** Depth, place and the token before are what the lexemes so far come to, and the pass keeps the
bare lexemes that are no brackets. -/
theorem surface_eq (before ls : List Lexeme) :
    surface (depth (tokens before)) (spelled before).length (before.getLast?.map Lexeme.token) ls =
      ((occurrencesAfter before ls).filter fun o => o.isBare && tokenDepth o.lexeme.token == 0).map
        Occurrence.placed := by
  -- On the lexemes that are left: the one that is read joins those before it.
  induction ls generalizing before with
  | nil => rfl
  | cons l ls ih =>
    have hnext := ih (before ++ [l])
    rw [depth_concat, List.getLast?_concat, Option.map_some] at hnext
    simp only [Sql.spelled_append, Sql.spelled_cons, Sql.spelled_nil, List.append_nil, List.length_append]
      at hnext
    rw [surface, occurrencesAfter, List.filter_cons]
    dsimp only
    rw [hnext]
    by_cases hkept : depth (tokens before) = 0 ∧ tokenDepth l.token = 0
    · simp [Occurrence.isBare, hkept, Occurrence.placed, Occurrence.previous?, Occurrence.next?]
    · have hdropped : ¬ (Occurrence.isBare ⟨before, l, ls⟩ && tokenDepth l.token == 0) = true := by
        simpa [Occurrence.isBare] using hkept
      rw [if_neg hkept, if_neg hdropped]

theorem tokenDepth_of_isAssign {o : Occurrence} (h : o.isAssign = true) : tokenDepth o.lexeme.token = 0 := by
  have htoken : o.lexeme.token = .sign ":=" := by simpa [Occurrence.isAssign] using h
  rw [htoken]
  rfl

theorem tokenDepth_of_isEquals {o : Occurrence} (h : o.isEquals = true) : tokenDepth o.lexeme.token = 0 := by
  have htoken : o.lexeme.token = .sign "=" := by
    simp only [Occurrence.isEquals, Bool.and_eq_true, decide_eq_true_eq] at h
    exact h.1.1
  rw [htoken]
  rfl

theorem isEquals_placed (o : Occurrence) : o.placed.isEquals = o.isEquals := by
  rw [Bool.eq_iff_iff]
  simp [Placed.isEquals, Occurrence.isEquals, Occurrence.placed, and_assoc]

/-- What the pass keeps of some kind of operator is what is bare of it. -/
theorem filter_surface {p : Placed → Bool} {q : Occurrence → Bool} (hp : ∀ o, p o.placed = q o)
    (hq : ∀ o, q o = true → tokenDepth o.lexeme.token = 0) (ls : List Lexeme) :
    ((surface 0 0 none ls).filter p).map Placed.operator =
      ((occurrences ls).filter fun o => o.isBare && q o).map Occurrence.operator := by
  have hsurface : surface 0 0 none ls = _ := surface_eq [] ls
  have hcomp : p ∘ Occurrence.placed = q := funext hp
  have hoperator : Placed.operator ∘ Occurrence.placed = Occurrence.operator := rfl
  rw [hsurface, List.filter_map, List.map_map, hcomp, hoperator, List.filter_filter]
  refine congrArg _ (List.filter_congr ?_)
  intro o _
  cases hkind : q o with
  | true => simp [hq o hkind]
  | false => simp

/-- **The pass finds what the rule says.** -/
theorem operatorOfLexemes_eq (ls : List Lexeme) :
    operatorOfLexemes ls =
      choose ((bareAssigns ls).map Occurrence.operator) ((bareEquals ls).map Occurrence.operator) := by
  rw [operatorOfLexemes, filter_surface (q := Occurrence.isEquals) isEquals_placed (fun _ => tokenDepth_of_isEquals),
    filter_surface (q := Occurrence.isAssign) (fun _ => rfl) (fun _ => tokenDepth_of_isAssign)]
  rfl

/-! ## The cut -/

/-- Only blanks, or nothing. -/
def AllBlank (cs : List Char) : Prop := ∀ c ∈ cs, isBlank c = true

theorem strip_eq_nil_iff {cs : List Char} : Text.strip cs = [] ↔ AllBlank cs := by
  constructor
  · intro hnil
    obtain ⟨bs, bs', hcs, hbs, hbs'⟩ := exists_strip cs
    rw [hnil, List.append_nil] at hcs
    intro c hc
    rw [hcs] at hc
    rcases List.mem_append.1 hc with hc | hc
    · exact hbs c hc
    · exact hbs' c hc
  · intro hblank
    have hnil : cs.dropWhile isBlank = [] := List.dropWhile_eq_nil_iff.2 hblank
    rw [Text.strip, Text.dropBlanks, hnil]
    rfl

/-- **The outcome of a cut.** The text is the pieces around an operator and the operator. A piece of blanks is
an empty side, the target's before the value's. Otherwise the sides are the pieces but for blanks. -/
structure IsCutAt (text : String) (before op after : List Char) : Prop where
  joined : text.toList = before ++ op ++ after
  noTarget : AllBlank before → parse text = .error (.emptySide .target)
  noValue : ¬ AllBlank before → AllBlank after → parse text = .error (.emptySide .value)
  sides : ¬ AllBlank before → ¬ AllBlank after →
    ∃ (target value : String) (b₁ b₂ b₃ b₄ : List Char), parse text = .ok ⟨target, value⟩ ∧
      before = b₁ ++ target.toList ++ b₂ ∧ after = b₃ ++ value.toList ++ b₄ ∧
      AllBlank b₁ ∧ AllBlank b₂ ∧ AllBlank b₃ ∧ AllBlank b₄ ∧
      target ≠ "" ∧ value ≠ "" ∧ IsTrimmed target.toList ∧ IsTrimmed value.toList

theorem parse_of_operator {text : String} {op : Operator} (h : operator text.toList = .ok op) :
    parse text =
      if Text.strip (text.toList.take op.start) = [] then .error (.emptySide .target)
      else if Text.strip (text.toList.drop (op.start + op.length)) = [] then .error (.emptySide .value)
      else .ok ⟨String.ofList (Text.strip (text.toList.take op.start)),
        String.ofList (Text.strip (text.toList.drop (op.start + op.length)))⟩ := by
  rw [parse, h]
  by_cases htarget : Text.strip (text.toList.take op.start) = []
  · simp [htarget, bind, Except.bind, throw, throwThe, MonadExceptOf.throw]
  · by_cases hvalue : Text.strip (text.toList.drop (op.start + op.length)) = []
    · simp [htarget, hvalue, bind, Except.bind, throw, throwThe, MonadExceptOf.throw]
    · simp [htarget, hvalue, bind, Except.bind, pure, Except.pure]

theorem isCutAt_of_operator {text : String} {before op after : List Char}
    (hjoined : text.toList = before ++ op ++ after)
    (h : operator text.toList = .ok ⟨before.length, op.length⟩) : IsCutAt text before op after := by
  have htake : text.toList.take before.length = before := by
    rw [hjoined, List.append_assoc, List.take_left]
  have hdrop : text.toList.drop (before.length + op.length) = after := by
    rw [hjoined, ← List.length_append, List.drop_left]
  have hparse := parse_of_operator h
  dsimp only at hparse
  rw [htake, hdrop] at hparse
  refine ⟨hjoined, ?_, ?_, ?_⟩
  · intro hbefore
    rw [hparse, if_pos (strip_eq_nil_iff.2 hbefore)]
  · intro hbefore hafter
    rw [hparse, if_neg (mt strip_eq_nil_iff.1 hbefore), if_pos (strip_eq_nil_iff.2 hafter)]
  · intro hbefore hafter
    obtain ⟨b₁, b₂, htarget, hb₁, hb₂⟩ := exists_strip before
    obtain ⟨b₃, b₄, hvalue, hb₃, hb₄⟩ := exists_strip after
    refine ⟨String.ofList (Text.strip before), String.ofList (Text.strip after), b₁, b₂, b₃, b₄, ?_, ?_, ?_,
      hb₁, hb₂, hb₃, hb₄, ?_, ?_, ?_, ?_⟩
    · rw [hparse, if_neg (mt strip_eq_nil_iff.1 hbefore), if_neg (mt strip_eq_nil_iff.1 hafter)]
    · simpa using htarget
    · simpa using hvalue
    · intro hempty
      exact hbefore (strip_eq_nil_iff.1 (by simpa using congrArg String.toList hempty))
    · intro hempty
      exact hafter (strip_eq_nil_iff.1 (by simpa using congrArg String.toList hempty))
    · simpa using isTrimmed_strip before
    · simpa using isTrimmed_strip after

/-- A text is cut at a lexeme of it that is the operator. -/
theorem Occurrence.isCutAt {text : String} {ls : List Lexeme} {o : Occurrence}
    (hls : Sql.lexemes text.toList = .ok ls) (ho : ls = o.before ++ o.lexeme :: o.after)
    (h : operatorOfLexemes ls = .ok o.operator) :
    IsCutAt text (spelled o.before) o.lexeme.source (spelled o.after) := by
  refine isCutAt_of_operator ?_ ?_
  · rw [← (Sql.lexemes_eq_ok_iff.1 hls).2, ho]
    simp
  · rw [Assignment.operator, hls]
    exact h

/-- A text whose lexemes have no operator is refused as they are. -/
theorem parse_of_fault {text : String} {ls : List Lexeme} {fault : Fault}
    (hls : Sql.lexemes text.toList = .ok ls) (hfault : operatorOfLexemes ls = .error fault) :
    parse text = .error fault := by
  rw [parse, Assignment.operator, hls]
  dsimp only
  rw [hfault]
  rfl

/-- An operator has one spelling. -/
theorem Occurrence.source_eq {text : String} {ls : List Lexeme} {o : Occurrence} {sign : String}
    (hls : Sql.lexemes text.toList = .ok ls) (ho : ls = o.before ++ o.lexeme :: o.after)
    (htoken : o.lexeme.token = .sign sign) (hsign : sign = ":=" ∨ sign = "=") :
    o.lexeme.source = sign.toList := by
  obtain ⟨hcut, -⟩ := Sql.lexemes_eq_ok_iff.1 hls
  rw [ho] at hcut
  exact (Sql.Cut.append_iff.1 hcut).2.1.source_of_sign htoken hsign

theorem mem_bareAssigns {ls : List Lexeme} {o : Occurrence} (h : o ∈ bareAssigns ls) :
    ls = o.before ++ o.lexeme :: o.after ∧ depth (tokens o.before) = 0 ∧ o.lexeme.token = .sign ":=" := by
  obtain ⟨hmem, hkind⟩ := List.mem_filter.1 h
  refine ⟨eq_of_mem_occurrences hmem, ?_⟩
  simpa [Occurrence.isBare, Occurrence.isAssign] using hkind

theorem mem_bareEquals {ls : List Lexeme} {o : Occurrence} (h : o ∈ bareEquals ls) :
    ls = o.before ++ o.lexeme :: o.after ∧ depth (tokens o.before) = 0 ∧ o.lexeme.token = .sign "=" := by
  obtain ⟨hmem, hkind⟩ := List.mem_filter.1 h
  refine ⟨eq_of_mem_occurrences hmem, ?_⟩
  simp only [Occurrence.isBare, Occurrence.isEquals, Bool.and_eq_true, decide_eq_true_eq] at hkind
  exact ⟨hkind.1, hkind.2.1.1⟩

end Assignment

open Assignment Sql

/-- **An assignment is cut at its operator, and nothing is lost.** In a text that can be cut into lexemes the
operator is the first bare `:=`. Without a bare `:=` it is the one bare `=` that is no part of a comparison or
an arrow; where there is none the text has no operator, and where there are several it is refused with their
number. The text around the operator is the two sides but for blanks, or a side is missing (`IsCutAt`). -/
theorem assignment_is_cut_at_its_operator {text : String} {ls : List Lexeme}
    (hls : lexemes text.toList = .ok ls) :
    (∀ o os, bareAssigns ls = o :: os →
      o.lexeme.source = [':', '='] ∧ IsCutAt text (spelled o.before) o.lexeme.source (spelled o.after)) ∧
    (bareAssigns ls = [] →
      (bareEquals ls = [] → Assignment.parse text = .error .noOperator) ∧
      (∀ o, bareEquals ls = [o] →
        o.lexeme.source = ['='] ∧ IsCutAt text (spelled o.before) o.lexeme.source (spelled o.after)) ∧
      (2 ≤ (bareEquals ls).length →
        Assignment.parse text = .error (.ambiguous (bareEquals ls).length))) := by
  have hrule := operatorOfLexemes_eq ls
  refine ⟨?_, ?_⟩
  · intro o os hassigns
    rw [hassigns] at hrule
    obtain ⟨ho, -, htoken⟩ := mem_bareAssigns (hassigns ▸ List.mem_cons_self)
    exact ⟨Occurrence.source_eq hls ho htoken (.inl rfl), Occurrence.isCutAt hls ho hrule⟩
  · intro hassigns
    rw [hassigns] at hrule
    refine ⟨?_, ?_, ?_⟩
    · intro hequals
      rw [hequals] at hrule
      exact parse_of_fault hls hrule
    · intro o hequals
      rw [hequals] at hrule
      obtain ⟨ho, -, htoken⟩ := mem_bareEquals (hequals ▸ List.mem_cons_self)
      exact ⟨Occurrence.source_eq hls ho htoken (.inr rfl), Occurrence.isCutAt hls ho hrule⟩
    · intro hseveral
      obtain ⟨first, second, rest, hequals⟩ : ∃ first second rest, bareEquals ls = first :: second :: rest := by
        match hlist : bareEquals ls with
        | [] => rw [hlist] at hseveral; exact absurd hseveral (by simp)
        | [o] => rw [hlist] at hseveral; exact absurd hseveral (by simp)
        | first :: second :: rest => exact ⟨first, second, rest, rfl⟩
      rw [hequals] at hrule ⊢
      refine parse_of_fault hls (hrule.trans ?_)
      simp [choose]

/-- The bare `:=` of `té[i = 1]`, a line end and `:= f(p := 2)`. -/
def Assignment.secondLine : Occurrence where
  before := [.bare "té", .mark "[", .bare "i", .space, .mark "=", .space, ⟨.number "1" false, ['1']⟩, .mark "]",
    ⟨.gap, ['\n']⟩]
  lexeme := .mark ":="
  after := [.space, .bare "f", .mark "(", .bare "p", .space, .mark ":=", .space, ⟨.number "2" false, ['2']⟩,
    .mark ")"]

theorem operators_inside_brackets_are_passed_over :
    lexemes "té[i = 1]\n:= f(p := 2)".toList =
        .ok (secondLine.before ++ secondLine.lexeme :: secondLine.after) ∧
      IsCutAt "té[i = 1]\n:= f(p := 2)" (spelled secondLine.before) [':', '='] (spelled secondLine.after) := by
  have hls : lexemes "té[i = 1]\n:= f(p := 2)".toList =
      .ok (secondLine.before ++ secondLine.lexeme :: secondLine.after) :=
    lexemes_of_toOption (by decide +kernel)
  exact ⟨hls, ((assignment_is_cut_at_its_operator hls).1 secondLine [] (by decide +kernel)).2⟩

end Routine
