import Routine.Proofs.AssignmentRule
import Routine.Proofs.DollarTags

/-!
# Assignments that are joined again

The two sides of an assignment are written as `target := value`, and the new text is cut in its turn. For the same
sides to come out, its operator has to be the new one (`parse_joined`, `operator_of_parse_joined`): what was no
operator in the target must be none now. Blanks count for nothing in either scan. Among lexemes, the tokens of the
target stay the same when the text around it changes (`operator_joined_of_lexemes`). Among characters, a blank
leaves the scan where it is (`operator_joined_of_chars`).

The two scans do not agree, though: only the one over lexemes knows of dollar quotations and comments. A text that
cannot be cut into lexemes can turn into one that can, and then the other scan looks for the operator.
-/

namespace Routine
namespace Assignment

open Sql (Lexeme Token spelled tokens Cut)
open Text (isBlank)
open IntoClause (IsTrimmed isTrimmed_strip exists_strip)

/-! ## The sides and the operator -/

/-- A trimmed text is what is left of it between blanks. -/
theorem strip_append {bs cs bs' : List Char} (hbs : AllBlank bs) (hcs : IsTrimmed cs) (hbs' : AllBlank bs') :
    Text.strip (bs ++ cs ++ bs') = cs := by
  obtain rfl | ⟨c, tail, rfl⟩ : cs = [] ∨ ∃ c tail, cs = c :: tail := by
    cases cs with
    | nil => exact .inl rfl
    | cons c tail => exact .inr ⟨c, tail, rfl⟩
  · refine strip_eq_nil_iff.2 ?_
    intro b hb
    rw [List.append_nil] at hb
    rcases List.mem_append.1 hb with hb | hb
    · exact hbs b hb
    · exact hbs' b hb
  · have hhead : isBlank c = false := hcs.head c rfl
    have hstart : Text.dropBlanks (bs ++ (c :: tail) ++ bs') = (c :: tail) ++ bs' := by
      rw [Text.dropBlanks, List.append_assoc, List.dropWhile_append_of_pos hbs]
      simp [hhead]
    have hend : (c :: tail).reverse.dropWhile isBlank = (c :: tail).reverse := by
      rw [List.dropWhile_eq_self_iff]
      intro hpos hblank
      have hlast : (c :: tail).getLast? = some ((c :: tail).reverse.get ⟨0, hpos⟩) := by
        rw [← List.head?_reverse, List.head?_eq_getElem?]
        exact List.getElem?_eq_getElem hpos
      exact absurd hblank (by simpa using hcs.last _ hlast)
    rw [Text.strip, hstart, Text.dropBlanksEnd, List.reverse_append,
      List.dropWhile_append_of_pos (fun b hb => hbs' b (List.mem_reverse.1 hb)), hend, List.reverse_reverse]

/-- What the sides of a text are. -/
theorem exists_operator_of_parse {text : String} {sides : Assignment} (h : parse text = .ok sides) :
    ∃ op, operator text.toList = .ok op ∧
      sides.target.toList = Text.strip (text.toList.take op.start) ∧
      sides.value.toList = Text.strip (text.toList.drop (op.start + op.length)) ∧
      sides.target.toList ≠ [] ∧ sides.value.toList ≠ [] := by
  cases hop : operator text.toList with
  | error fault =>
    rw [parse, hop] at h
    cases h
  | ok op =>
    rw [parse_of_operator hop] at h
    split at h
    · cases h
    split at h
    · cases h
    next htarget hvalue =>
      cases h
      exact ⟨op, rfl, by simp, by simp, by simpa using htarget, by simpa using hvalue⟩

/-- The two sides with an operator between them. -/
def joined (sides : Assignment) : String := sides.target ++ " := " ++ sides.value

theorem toList_joined (sides : Assignment) :
    sides.joined.toList = (sides.target.toList ++ [' ']) ++ [':', '='] ++ (' ' :: sides.value.toList) := by
  simp [joined]

/-- Sides that a text can have. -/
structure AreSides (sides : Assignment) : Prop where
  target : IsTrimmed sides.target.toList
  target_ne : sides.target.toList ≠ []
  value : IsTrimmed sides.value.toList
  value_ne : sides.value.toList ≠ []

theorem areSides_of_parse {text : String} {sides : Assignment} (h : parse text = .ok sides) : AreSides sides := by
  obtain ⟨op, -, htarget, hvalue, htarget', hvalue'⟩ := exists_operator_of_parse h
  exact ⟨htarget ▸ isTrimmed_strip _, htarget', hvalue ▸ isTrimmed_strip _, hvalue'⟩

theorem allBlank_space : AllBlank [' '] := by
  rintro b hb
  rw [List.mem_singleton.1 hb]
  decide

/-- **The sides come out again if the operator between them is found.** -/
theorem parse_joined {sides : Assignment} (hsides : AreSides sides)
    (hop : operator sides.joined.toList = .ok ⟨sides.target.toList.length + 1, 2⟩) :
    parse sides.joined = .ok sides := by
  have hnone : AllBlank [] := fun _ hb => nomatch hb
  have htake : sides.joined.toList.take (sides.target.toList.length + 1) = sides.target.toList ++ [' '] := by
    rw [toList_joined, List.append_assoc, ← List.length_singleton (a := ' '), ← List.length_append, List.take_left]
  have hdrop : sides.joined.toList.drop (sides.target.toList.length + 1 + 2) = ' ' :: sides.value.toList := by
    have hlength : sides.target.toList.length + 1 + 2 = (sides.target.toList ++ [' '] ++ [':', '=']).length := by simp
    rw [toList_joined, hlength, List.drop_left]
  have htarget : Text.strip (sides.target.toList ++ [' ']) = sides.target.toList :=
    strip_append hnone hsides.target allBlank_space
  have hvalue : Text.strip (' ' :: sides.value.toList) = sides.value.toList := by
    simpa using strip_append allBlank_space hsides.value hnone
  rw [parse_of_operator hop]
  dsimp only
  rw [htake, hdrop, htarget, hvalue, if_neg hsides.target_ne, if_neg hsides.value_ne]
  simp

/-- Of a blank, `:=` and a blank only `:=` is not blank. -/
theorem eq_of_middle {bs mid bs' : List Char} (h : [' ', ':', '=', ' '] = bs ++ mid ++ bs') (hbs : AllBlank bs)
    (hbs' : AllBlank bs') (hmid : mid.length ≤ 2) : bs.length = 1 ∧ mid.length = 2 := by
  have hcolon : isBlank ':' = false := by decide
  have hequals : isBlank '=' = false := by decide
  have hlength := congrArg List.length h
  simp only [List.length_append, List.length_cons, List.length_nil] at hlength
  have hstart : bs.length ≤ 1 := by
    refine Nat.le_of_not_lt ?_
    intro hlong
    have hmem : (':' : Char) ∈ bs := by
      have hat := congrArg (fun cs => cs[1]?) h
      rw [List.append_assoc, List.getElem?_append_left hlong] at hat
      exact List.mem_of_getElem? hat.symm
    exact absurd (hbs _ hmem) (by rw [hcolon]; decide)
  have hend : bs'.length ≤ 1 := by
    refine Nat.le_of_not_lt ?_
    intro hlong
    have hmem : ('=' : Char) ∈ bs' := by
      have hat := congrArg (fun cs => cs[2]?) h
      rw [List.getElem?_append_right (by rw [List.length_append]; omega)] at hat
      exact List.mem_of_getElem? hat.symm
    exact absurd (hbs' _ hmem) (by rw [hequals]; decide)
  omega

/-- A trimmed text at the start has no blanks before it, and one at the end has none behind it. -/
theorem eq_of_trimmed_append {t v mid bs ds bs' : List Char} (h : t ++ mid ++ v = bs ++ t ++ ds ++ v ++ bs')
    (ht : IsTrimmed t) (ht' : t ≠ []) (hv : IsTrimmed v) (hv' : v ≠ []) (hbs : AllBlank bs) (hbs' : AllBlank bs') :
    bs = [] ∧ mid = ds := by
  obtain rfl : bs = [] := by
    obtain ⟨c, tail, rfl⟩ := List.exists_cons_of_ne_nil ht'
    cases bs with
    | nil => rfl
    | cons b bs =>
      obtain ⟨rfl, -⟩ := List.cons.inj h
      exact absurd (hbs c List.mem_cons_self) (by rw [ht.head c rfl]; decide)
  obtain rfl : bs' = [] := by
    rcases List.eq_nil_or_concat bs' with rfl | ⟨init, b, rfl⟩
    · rfl
    · rw [List.concat_eq_append] at h hbs'
      have hlast := congrArg List.getLast? h
      rw [List.getLast?_append_of_ne_nil _ hv', ← List.append_assoc, List.getLast?_concat] at hlast
      exact absurd (hbs' b (by simp)) (by rw [hv.last b hlast]; decide)
  exact ⟨rfl, by simpa using h⟩

/-- **The sides come out again only if the operator between them is found.** -/
theorem operator_of_parse_joined {sides : Assignment} {op : Operator} (h : parse sides.joined = .ok sides)
    (hop : operator sides.joined.toList = .ok op) (hlength : op.length ≤ 2) :
    op = ⟨sides.target.toList.length + 1, 2⟩ := by
  obtain ⟨htarget, htarget', hvalue, hvalue'⟩ := areSides_of_parse h
  obtain ⟨op', hop', hstart, hend, -, -⟩ := exists_operator_of_parse h
  obtain rfl : op = op' := Except.ok.inj (hop.symm.trans hop')
  obtain ⟨start, length⟩ := op
  dsimp only at hstart hend hlength
  generalize hcs : sides.joined.toList = cs at hstart hend
  obtain ⟨b₁, b₂, htake, hb₁, hb₂⟩ := exists_strip (cs.take start)
  obtain ⟨b₃, b₄, hdrop, hb₃, hb₄⟩ := exists_strip (cs.drop (start + length))
  rw [← hstart] at htake
  rw [← hend] at hdrop
  have hjoined : sides.target.toList ++ [' ', ':', '=', ' '] ++ sides.value.toList =
      b₁ ++ sides.target.toList ++ (b₂ ++ (cs.drop start).take length ++ b₃) ++ sides.value.toList ++ b₄ :=
    calc sides.target.toList ++ [' ', ':', '=', ' '] ++ sides.value.toList
      _ = cs.take start ++ ((cs.drop start).take length ++ cs.drop (start + length)) := by
          rw [← List.drop_drop, List.take_append_drop, List.take_append_drop, ← hcs, toList_joined]
          simp
      _ = _ := by
          rw [htake, hdrop]
          simp
  obtain ⟨rfl, hmiddle⟩ := eq_of_trimmed_append hjoined htarget htarget' hvalue hvalue' hb₁ hb₄
  obtain ⟨hb₂', hmid⟩ := eq_of_middle hmiddle hb₂ hb₃ (by rw [List.length_take]; omega)
  have hlengths : cs.length = sides.target.toList.length + 4 + sides.value.toList.length := by
    rw [← hcs, toList_joined]
    simp
    omega
  have hstart' := congrArg List.length htake
  rw [List.nil_append, List.length_take, List.length_append] at hstart'
  rw [List.length_take, List.length_drop] at hmid
  obtain rfl : start = sides.target.toList.length + 1 := by omega
  obtain rfl : length = 2 := by omega
  rfl

/-! ## Among lexemes -/

theorem occurrencesAfter_append (before ls ms : List Lexeme) :
    occurrencesAfter before (ls ++ ms) =
      (occurrencesAfter before ls).map (fun o => { o with after := o.after ++ ms }) ++
        occurrencesAfter (before ++ ls) ms := by
  induction ls generalizing before with
  | nil => simp [occurrencesAfter]
  | cons l ls ih => simp [occurrencesAfter, ih]

/-- What comes later does not make an operator bare. -/
theorem bareAssigns_append (ls ms : List Lexeme) :
    bareAssigns (ls ++ ms) =
      (bareAssigns ls).map (fun o => { o with after := o.after ++ ms }) ++
        (occurrencesAfter ls ms).filter fun o => o.isBare && o.isAssign := by
  rw [bareAssigns, occurrences, occurrencesAfter_append, List.filter_append, List.filter_map]
  rfl

/-- The first bare `:=`. -/
theorem bareAssigns_of_first {before : List Lexeme} (hbefore : bareAssigns before = [])
    (hdepth : depth (tokens before) = 0) (after : List Lexeme) :
    ∃ os, bareAssigns (before ++ .mark ":=" :: after) = ⟨before, .mark ":=", after⟩ :: os := by
  rw [bareAssigns_append, hbefore, occurrencesAfter, List.filter_cons_of_pos]
  · exact ⟨_, rfl⟩
  · simp [Occurrence.isBare, Occurrence.isAssign, hdepth, Lexeme.mark]

/-- No bare `:=` comes before the first one. -/
theorem bareAssigns_before {ls : List Lexeme} {o : Occurrence} {os : List Occurrence}
    (h : bareAssigns ls = o :: os) : bareAssigns o.before = [] := by
  obtain ⟨hls, -, -⟩ := mem_bareAssigns (h ▸ List.mem_cons_self)
  rw [hls, bareAssigns_append] at h
  match hlist : bareAssigns o.before with
  | [] => rfl
  | o' :: _ =>
    obtain ⟨hbefore, -, -⟩ := mem_bareAssigns (hlist ▸ List.mem_cons_self)
    rw [hlist, List.map_cons, List.cons_append] at h
    have hsame := congrArg Occurrence.before (List.cons.inj h).1
    dsimp only at hsame
    have hlength := congrArg List.length hbefore
    rw [hsame, List.length_append, List.length_cons] at hlength
    omega

theorem bareAssigns_left {ls ms : List Lexeme} (h : bareAssigns (ls ++ ms) = []) : bareAssigns ls = [] := by
  rw [bareAssigns_append] at h
  exact List.map_eq_nil_iff.1 (List.append_eq_nil_iff.1 h).1

theorem mem_occurrencesAfter (before xs : List Lexeme) (l : Lexeme) (ys : List Lexeme) :
    ⟨before ++ xs, l, ys⟩ ∈ occurrencesAfter before (xs ++ l :: ys) := by
  rw [occurrencesAfter_append, occurrencesAfter]
  simp

/-- A token of a text is the token of a lexeme. -/
theorem exists_of_tokens_eq {ls : List Lexeme} {us vs : List Token} {t : Token}
    (h : tokens ls = us ++ t :: vs) : ∃ xs l ys, ls = xs ++ l :: ys ∧ tokens xs = us ∧ l.token = t := by
  induction ls generalizing us with
  | nil => cases us <;> cases h
  | cons l ls ih =>
    cases hgap : l.token.isGap with
    | true =>
      have hskip (ms : List Lexeme) : tokens (l :: ms) = tokens ms := by simp [tokens, hgap]
      rw [hskip] at h
      obtain ⟨xs, m, ys, rfl, hus, hm⟩ := ih h
      exact ⟨l :: xs, m, ys, rfl, (hskip xs).trans hus, hm⟩
    | false =>
      have hkeep (ms : List Lexeme) : tokens (l :: ms) = l.token :: tokens ms := by simp [tokens, hgap]
      rw [hkeep] at h
      cases us with
      | nil => exact ⟨[], l, ls, rfl, rfl, (List.cons.inj h).1⟩
      | cons u us =>
        obtain ⟨hu, h⟩ := List.cons.inj h
        obtain ⟨xs, m, ys, rfl, hus, hm⟩ := ih h
        exact ⟨l :: xs, m, ys, rfl, by rw [hkeep, hu, hus], hm⟩

/-- Gaps are no operators: whether there is a bare `:=` is up to the tokens. -/
theorem bareAssigns_eq_nil_iff {ls : List Lexeme} :
    bareAssigns ls = [] ↔ ∀ us vs, tokens ls = us ++ .sign ":=" :: vs → depth us ≠ 0 := by
  rw [bareAssigns, List.filter_eq_nil_iff]
  constructor
  · intro hnone us vs htokens hdepth
    obtain ⟨xs, l, ys, rfl, rfl, hl⟩ := exists_of_tokens_eq htokens
    refine hnone _ (mem_occurrencesAfter [] xs l ys) ?_
    simp [Occurrence.isBare, Occurrence.isAssign, hdepth, hl]
  · intro hfree o ho hbare
    obtain ⟨hls, hdepth, htoken⟩ := mem_bareAssigns (List.mem_filter.2 ⟨ho, hbare⟩)
    refine hfree (tokens o.before) (tokens o.after) ?_ hdepth
    rw [hls, Sql.tokens_append]
    simp [tokens, htoken, Token.isGap]

/-- The operator that is found among lexemes. -/
theorem exists_occurrence_of_operator {ls : List Lexeme} {op : Operator} (h : operatorOfLexemes ls = .ok op) :
    ∃ o, op = o.operator ∧
      ((∃ os, bareAssigns ls = o :: os) ∨ bareAssigns ls = [] ∧ bareEquals ls = [o]) := by
  rw [operatorOfLexemes_eq] at h
  match hassigns : bareAssigns ls, hequals : bareEquals ls with
  | o :: os, _ =>
    rw [hassigns] at h
    exact ⟨o, (Except.ok.inj h).symm, .inl ⟨os, rfl⟩⟩
  | [], [o] =>
    rw [hassigns, hequals] at h
    exact ⟨o, (Except.ok.inj h).symm, .inr ⟨rfl, rfl⟩⟩
  | [], [] =>
    rw [hassigns, hequals] at h
    cases h
  | [], _ :: _ :: _ =>
    rw [hassigns, hequals] at h
    cases h

/-- A text without `--` does not end in a comment that goes on. -/
theorem not_isOpenComment_of_contains {text : String} {ls : List Lexeme} (h : Text.contains text "--" = false)
    (hls : spelled ls <:+: text.toList) : ∀ l ∈ ls.getLast?, l.isOpenComment = false := by
  intro l hl
  rw [← Bool.not_eq_true]
  intro hopen
  obtain ⟨init, rfl⟩ := List.getLast?_eq_some_iff.1 hl
  rw [Lexeme.isOpenComment] at hopen
  split at hopen
  · next rest hsource =>
    have hmarks : "--".toList <:+: spelled (init ++ [l]) := by
      refine ⟨spelled init, rest, ?_⟩
      simp [hsource]
    exact absurd (Text.hasPiece_iff.2 (hmarks.trans hls)) (by rw [← Text.contains, h]; decide)
  · cases hopen

theorem isInfix_strip (cs : List Char) : Text.strip cs <:+: cs := by
  obtain ⟨bs, bs', hcs, -, -⟩ := exists_strip cs
  exact ⟨bs, bs', hcs.symm⟩

/-- **The new operator among lexemes.** A text that can be cut into lexemes and has no comment up to the end of a
line can be cut again when its sides are joined, and its first bare `:=` is the new one. -/
theorem operator_joined_of_lexemes {text : String} {sides : Assignment} {ls : List Lexeme}
    (hcomment : Text.contains text "--" = false) (hparse : parse text = .ok sides)
    (hls : Sql.lexemes text.toList = .ok ls) :
    operator sides.joined.toList = .ok ⟨sides.target.toList.length + 1, 2⟩ := by
  obtain ⟨op, hop, htarget, hvalue, -, -⟩ := exists_operator_of_parse hparse
  rw [operator, hls] at hop
  obtain ⟨o, rfl, hfirst⟩ := exists_occurrence_of_operator hop
  obtain ⟨hat, hdepth, hfree⟩ : ls = o.before ++ o.lexeme :: o.after ∧ depth (tokens o.before) = 0 ∧
      bareAssigns o.before = [] := by
    rcases hfirst with ⟨os, hassigns⟩ | ⟨hassigns, hequals⟩
    · obtain ⟨hat, hdepth, -⟩ := mem_bareAssigns (hassigns ▸ List.mem_cons_self)
      exact ⟨hat, hdepth, bareAssigns_before hassigns⟩
    · obtain ⟨hat, hdepth, -⟩ := mem_bareEquals (hequals ▸ List.mem_cons_self)
      exact ⟨hat, hdepth, bareAssigns_left (hat ▸ hassigns)⟩
  obtain ⟨hcut, htext⟩ := Sql.lexemes_eq_ok_iff.1 hls
  rw [hat] at hcut htext
  have hafter : Cut [] o.after := (Sql.Cut.append_iff.1 hcut).2.2
  have htake : text.toList.take o.operator.start = spelled o.before := by
    rw [← htext, Sql.spelled_append]
    exact List.take_left
  have hdrop : text.toList.drop (o.operator.start + o.operator.length) = spelled o.after := by
    rw [← htext, Sql.spelled_append, Sql.spelled_cons, ← List.append_assoc]
    exact List.drop_left' List.length_append
  rw [htake] at htarget
  rw [hdrop] at hvalue
  obtain ⟨ts, hts, htsText, htsTokens⟩ := hcut.left.strip
  obtain ⟨vs, hvs, hvsText, -⟩ := hafter.strip
  have hinside : spelled ts <:+: text.toList := by
    rw [htsText, ← htake]
    exact (isInfix_strip _).trans (List.take_prefix _ _).isInfix
  obtain ⟨js, hjs, hjsText, hjsTokens⟩ := hts.space (not_isOpenComment_of_contains hcomment hinside)
  have hjsTokens : tokens js = tokens o.before := hjsTokens.trans htsTokens
  have hjoined : Sql.lexemes sides.joined.toList = .ok (js ++ .mark ":=" :: .space :: vs) := by
    refine Sql.lexemes_eq_ok_iff.2 ⟨Sql.Cut.append_iff.2 ⟨hjs _, ?_, ?_, hvs⟩, ?_⟩
    · exact ⟨':', ['='], rfl, rfl⟩
    · exact ⟨' ', [], rfl, rfl⟩
    · rw [toList_joined, htarget, hvalue, ← htsText, ← hvsText, ← hjsText]
      simp [Lexeme.mark, Lexeme.space]
  have hjsFree : bareAssigns js = [] := by
    rw [bareAssigns_eq_nil_iff, hjsTokens, ← bareAssigns_eq_nil_iff]
    exact hfree
  obtain ⟨os, hos⟩ := bareAssigns_of_first hjsFree (hjsTokens ▸ hdepth) (.space :: vs)
  rw [operator, hjoined]
  dsimp only
  rw [operatorOfLexemes_eq, hos, List.map_cons, choose, Occurrence.operator]
  dsimp only
  rw [hjsText, htsText, ← htarget, List.length_append]
  rfl

/-! ## Among characters -/

/-- Where the scan of characters is: in which quotation, if any, and how deep in brackets. -/
structure Inside where
  quote : Option Char
  depth : Int
  isMark : ∀ q ∈ quote, q = '\'' ∨ q = '"'
deriving DecidableEq

namespace Inside

/-- Outside quotations and brackets. -/
def outside : Inside := ⟨none, 0, fun _ hq => nomatch hq⟩

/-- What a character changes. A mark that is doubled closes a quotation and opens it again. -/
def next (s : Inside) (c : Char) : Inside :=
  match s.quote with
  | some q => if c = q then ⟨none, s.depth, fun _ hq => nomatch hq⟩ else s
  | none =>
    if hc : c = '\'' ∨ c = '"' then ⟨some c, s.depth, by rintro q ⟨⟩; exact hc⟩
    else ⟨none, s.depth + charDepth c, fun _ hq => nomatch hq⟩

/-- Where the scan is after some characters. -/
def after (s : Inside) (cs : List Char) : Inside := cs.foldl next s

@[simp]
theorem after_nil (s : Inside) : s.after [] = s := rfl

@[simp]
theorem after_cons (s : Inside) (c : Char) (cs : List Char) : s.after (c :: cs) = (s.next c).after cs := rfl

theorem after_append (s : Inside) (cs ds : List Char) : s.after (cs ++ ds) = (s.after cs).after ds :=
  List.foldl_append

/-- Blanks change nothing. -/
theorem next_of_isBlank (s : Inside) {b : Char} (hb : isBlank b = true) : s.next b = s := by
  have hne {a : Char} (ha : isBlank a = false) : b ≠ a := Sql.Lexer.ne_of_holds hb ha
  have hmark {q : Char} (hq : q = '\'' ∨ q = '"') : b ≠ q := by
    rcases hq with rfl | rfl
    · exact hne (by decide)
    · exact hne (by decide)
  obtain ⟨quote, depth, isMark⟩ := s
  cases quote with
  | some q => simp [next, hmark (isMark q rfl)]
  | none =>
    have hdepth : charDepth b = 0 := by
      rw [charDepth, if_neg (not_or.2 ⟨hne (by decide), hne (by decide)⟩),
        if_neg (not_or.2 ⟨hne (by decide), hne (by decide)⟩)]
    simp [next, hmark (.inl rfl), hmark (.inr rfl), hdepth]

theorem after_of_allBlank (s : Inside) {bs : List Char} (hbs : AllBlank bs) : s.after bs = s := by
  induction bs with
  | nil => rfl
  | cons b bs ih =>
    obtain ⟨hb, hbs⟩ := List.forall_mem_cons.1 hbs
    rw [after_cons, s.next_of_isBlank hb]
    exact ih hbs

/-- The scan sees the character: it is outside, and the character is no mark and no bracket. -/
def sees (s : Inside) (c : Char) : Bool :=
  s = outside && c ∉ ['\'', '"'] && charDepth c = 0

end Inside

open Inside (outside)

/-- **One character of the scan.** -/
theorem surfaceChars_cons (s : Inside) (start : Nat) (before c : Char) (cs : List Char) :
    surfaceChars s.quote s.depth start before (c :: cs) =
      (if s.sees c then [⟨start, before, c, cs.head?.getD ' '⟩] else []) ++
        surfaceChars (s.next c).quote (s.next c).depth (start + 1) c cs := by
  obtain ⟨quote, depth, isMark⟩ := s
  cases quote with
  | none =>
    by_cases hc : c = '\'' ∨ c = '"'
    · have hsees : Inside.sees ⟨none, depth, isMark⟩ c = false := by
        rcases hc with rfl | rfl <;> simp [Inside.sees]
      simp [surfaceChars, hc, hsees, Inside.next]
    · have hsees : Inside.sees ⟨none, depth, isMark⟩ c = decide (depth = 0 ∧ charDepth c = 0) := by
        rw [Bool.eq_iff_iff]
        simpa [Inside.sees, outside] using fun _ _ => not_or.1 hc
      rw [hsees]
      by_cases hseen : depth = 0 ∧ charDepth c = 0
      · simp [surfaceChars, hc, hseen, Inside.next]
      · simp [surfaceChars, hc, hseen, Inside.next]
  | some q =>
    have hsees : Inside.sees ⟨some q, depth, isMark⟩ c = false := by simp [Inside.sees, outside]
    by_cases hc : c = q
    · subst hc
      cases cs with
      | nil => simp [surfaceChars, hsees]
      | cons d ds =>
        by_cases hd : d = c
        · -- The doubled mark closes the quotation and opens it again.
          subst hd
          simp [surfaceChars, hsees, Inside.next, isMark d rfl]
        · simp [surfaceChars, hsees, Inside.next, hd]
    · cases cs <;> simp [surfaceChars, hsees, Inside.next, hc]

/-- No `:=` starts outside quotations and brackets. -/
def AssignFree (s : Inside) : List Char → Prop
  | [] => True
  | c :: cs => ¬ (s = outside ∧ c = ':' ∧ cs.head? = some '=') ∧ AssignFree (s.next c) cs

namespace AssignFree

variable {s : Inside} {cs ds : List Char}

theorem left (h : AssignFree s (cs ++ ds)) : AssignFree s cs := by
  induction cs generalizing s with
  | nil => trivial
  | cons c cs ih =>
    rw [List.cons_append] at h
    refine ⟨?_, ih h.2⟩
    rintro ⟨hs, hc, hcs⟩
    exact h.1 ⟨hs, hc, by rw [List.head?_append, hcs, Option.some_or]⟩

theorem right (h : AssignFree s (cs ++ ds)) : AssignFree (s.after cs) ds := by
  induction cs generalizing s with
  | nil => exact h
  | cons c cs ih => exact ih h.2

/-- A blank can follow. -/
theorem append_space (h : AssignFree s cs) : AssignFree s (cs ++ [' ']) := by
  induction cs generalizing s with
  | nil => exact ⟨fun hfirst => absurd hfirst.2.1 (by decide), trivial⟩
  | cons c cs ih =>
    refine ⟨?_, ih h.2⟩
    rintro ⟨hs, hc, hcs⟩
    cases cs with
    | nil => cases hcs
    | cons d cs => exact h.1 ⟨hs, hc, hcs⟩

end AssignFree

theorem sees_colon {s : Inside} : s.sees ':' = true ↔ s = outside := by
  have hdepth : charDepth ':' = 0 := rfl
  simp [Inside.sees, hdepth]

/-- The places of `:=` among the first character and the others. -/
theorem filter_isAssign_cons (s : Inside) (start : Nat) (before c : Char) (cs : List Char) :
    (surfaceChars s.quote s.depth start before (c :: cs)).filter PlacedChar.isAssign =
      (if s = outside ∧ c = ':' ∧ cs.head? = some '=' then [⟨start, before, ':', '='⟩] else []) ++
        (surfaceChars (s.next c).quote (s.next c).depth (start + 1) c cs).filter PlacedChar.isAssign := by
  rw [surfaceChars_cons, List.filter_append]
  congr 1
  by_cases hfirst : s = outside ∧ c = ':' ∧ cs.head? = some '='
  · rw [if_pos hfirst]
    obtain ⟨hs, rfl, hcs⟩ := hfirst
    rw [if_pos (sees_colon.2 hs), hcs]
    rfl
  · rw [if_neg hfirst]
    cases hsees : s.sees c with
    | false => rfl
    | true =>
      have hnot : PlacedChar.isAssign ⟨start, before, c, cs.head?.getD ' '⟩ = false := by
        rw [← Bool.not_eq_true]
        intro hassign
        obtain ⟨rfl, hcs⟩ : c = ':' ∧ cs.head?.getD ' ' = '=' := by simpa [PlacedChar.isAssign] using hassign
        refine hfirst ⟨sees_colon.1 hsees, rfl, ?_⟩
        cases hhead : cs.head? with
        | none =>
          rw [hhead] at hcs
          exact absurd hcs (by decide)
        | some d =>
          rw [hhead] at hcs
          exact congrArg some hcs
      rw [if_pos rfl, List.filter_cons_of_neg (by rw [hnot]; decide), List.filter_nil]

/-- The scan finds a `:=` outside quotations and brackets when there is none before it. -/
theorem filter_isAssign_of_first {s : Inside} {xs : List Char} (hfree : AssignFree s xs)
    (hs : s.after xs = outside) (start : Nat) (before : Char) (ys : List Char) :
    ∃ p ps, (surfaceChars s.quote s.depth start before (xs ++ ':' :: '=' :: ys)).filter PlacedChar.isAssign =
      p :: ps ∧ p.start = start + xs.length := by
  induction xs generalizing s start before with
  | nil =>
    obtain rfl : s = outside := hs
    rw [List.nil_append, filter_isAssign_cons, if_pos ⟨rfl, rfl, rfl⟩]
    exact ⟨_, _, rfl, rfl⟩
  | cons x xs ih =>
    obtain ⟨p, ps, hfilter, hstart⟩ := ih hfree.2 hs (start + 1) x
    rw [List.cons_append, filter_isAssign_cons, if_neg, List.nil_append, hfilter]
    · refine ⟨p, ps, rfl, ?_⟩
      rw [hstart, List.length_cons]
      omega
    · rintro ⟨hs', hx, hhead⟩
      cases xs with
      | nil => exact absurd (Option.some.inj hhead) (by decide)
      | cons d xs => exact hfree.1 ⟨hs', hx, hhead⟩

/-- Before the first `:=` that the scan finds there is none. -/
theorem exists_of_filter_isAssign {s : Inside} {start : Nat} {before : Char} {cs : List Char} {p : PlacedChar}
    {ps : List PlacedChar}
    (h : (surfaceChars s.quote s.depth start before cs).filter PlacedChar.isAssign = p :: ps) :
    ∃ xs ys, cs = xs ++ ys ∧ p.start = start + xs.length ∧ s.after xs = outside ∧ AssignFree s xs := by
  induction cs generalizing s start before with
  | nil => simp [surfaceChars] at h
  | cons c cs ih =>
    rw [filter_isAssign_cons] at h
    split at h
    · next hfirst =>
      obtain ⟨rfl, -⟩ := List.cons.inj h
      exact ⟨[], c :: cs, rfl, rfl, hfirst.1, trivial⟩
    · next hfirst =>
      obtain ⟨xs, ys, rfl, hstart, hs, hfree⟩ := ih h
      refine ⟨c :: xs, ys, rfl, by rw [hstart, List.length_cons]; omega, hs, ?_, hfree⟩
      rintro ⟨hs', hc, hxs⟩
      exact hfirst ⟨hs', hc, by rw [List.head?_append, hxs, Option.some_or]⟩

theorem assignFree_of_filter_isAssign {s : Inside} {start : Nat} {before : Char} {cs : List Char}
    (h : (surfaceChars s.quote s.depth start before cs).filter PlacedChar.isAssign = []) : AssignFree s cs := by
  induction cs generalizing s start before with
  | nil => trivial
  | cons c cs ih =>
    rw [filter_isAssign_cons] at h
    obtain ⟨hnone, hrest⟩ := List.append_eq_nil_iff.1 h
    refine ⟨?_, ih hrest⟩
    intro hfirst
    rw [if_pos hfirst] at hnone
    cases hnone

/-- What the scan sees is outside quotations and brackets. -/
theorem exists_of_mem_surfaceChars {s : Inside} {start : Nat} {before : Char} {cs : List Char} {p : PlacedChar}
    (h : p ∈ surfaceChars s.quote s.depth start before cs) :
    ∃ xs ys, cs = xs ++ ys ∧ p.start = start + xs.length ∧ s.after xs = outside := by
  induction cs generalizing s start before with
  | nil => simp [surfaceChars] at h
  | cons c cs ih =>
    rw [surfaceChars_cons] at h
    rcases List.mem_append.1 h with h | h
    · cases hsees : s.sees c with
      | false => simp [hsees] at h
      | true =>
        rw [hsees, if_pos rfl] at h
        obtain rfl := List.mem_singleton.1 h
        have hs : s = outside := by
          simp only [Inside.sees, Bool.and_eq_true, decide_eq_true_eq] at hsees
          exact hsees.1.1
        exact ⟨[], c :: cs, rfl, rfl, hs⟩
    · obtain ⟨xs, ys, rfl, hstart, hs⟩ := ih h
      exact ⟨c :: xs, ys, rfl, by rw [hstart, List.length_cons]; omega, hs⟩

/-- Before the operator that is found among characters the scan is outside, and has found no `:=`. -/
theorem exists_of_operatorOfChars {cs : List Char} {op : Operator} (h : operatorOfChars cs = .ok op) :
    ∃ xs ys, cs = xs ++ ys ∧ op.start = xs.length ∧ outside.after xs = outside ∧ AssignFree outside xs := by
  rw [operatorOfChars] at h
  have hscan : surfaceChars none 0 0 ' ' cs = surfaceChars outside.quote outside.depth 0 ' ' cs := rfl
  rw [hscan] at h
  match hassigns : (surfaceChars outside.quote outside.depth 0 ' ' cs).filter PlacedChar.isAssign,
      hequals : (surfaceChars outside.quote outside.depth 0 ' ' cs).filter PlacedChar.isEquals with
  | p :: ps, _ =>
    rw [hassigns] at h
    obtain ⟨xs, ys, hcs, hstart, hs, hfree⟩ := exists_of_filter_isAssign hassigns
    obtain rfl := Except.ok.inj h
    exact ⟨xs, ys, hcs, by simpa using hstart, hs, hfree⟩
  | [], [p] =>
    rw [hassigns, hequals] at h
    have hmem : p ∈ surfaceChars outside.quote outside.depth 0 ' ' cs :=
      (List.mem_filter.1 (hequals ▸ List.mem_singleton_self p)).1
    obtain ⟨xs, ys, rfl, hstart, hs⟩ := exists_of_mem_surfaceChars hmem
    obtain rfl := Except.ok.inj h
    exact ⟨xs, ys, rfl, by simpa using hstart, hs, (assignFree_of_filter_isAssign hassigns).left⟩
  | [], [] =>
    rw [hassigns, hequals] at h
    cases h
  | [], _ :: _ :: _ =>
    rw [hassigns, hequals] at h
    cases h

/-- **The new operator among characters.** -/
theorem operator_joined_of_chars {text : String} {sides : Assignment} (hparse : parse text = .ok sides)
    {fault : Sql.LexFault} (htext : Sql.lexemes text.toList = .error fault) {fault' : Sql.LexFault}
    (hjoined : Sql.lexemes sides.joined.toList = .error fault') :
    operator sides.joined.toList = .ok ⟨sides.target.toList.length + 1, 2⟩ := by
  obtain ⟨op, hop, htarget, -, -, -⟩ := exists_operator_of_parse hparse
  rw [operator, htext] at hop
  obtain ⟨xs, ys, hcs, hstart, hs, hfree⟩ := exists_of_operatorOfChars hop
  rw [hcs, hstart, List.take_left] at htarget
  obtain ⟨bs, bs', hxs, hbs, hbs'⟩ := exists_strip xs
  rw [← htarget] at hxs
  rw [hxs, List.append_assoc] at hs hfree
  rw [Inside.after_append, Inside.after_of_allBlank _ hbs, Inside.after_append,
    Inside.after_of_allBlank _ hbs'] at hs
  have hfree := hfree.right.left
  rw [Inside.after_of_allBlank _ hbs] at hfree
  have hspace : outside.after (sides.target.toList ++ [' ']) = outside := by
    rw [Inside.after_append, hs, Inside.after_of_allBlank _ allBlank_space]
  obtain ⟨p, ps, hfilter, hp⟩ :=
    filter_isAssign_of_first hfree.append_space hspace 0 ' ' (' ' :: sides.value.toList)
  have hscan : (surfaceChars none 0 0 ' ' sides.joined.toList).filter PlacedChar.isAssign = p :: ps := by
    rw [toList_joined, List.append_assoc]
    exact hfilter
  rw [operator, hjoined]
  dsimp only
  rw [operatorOfChars, hscan, List.map_cons, choose, hp]
  simp

/-! ## Both scans -/

/-- Sides that are joined to a text which can be cut into lexemes come out again exactly if its first bare `:=` is
right behind the target. -/
theorem parse_joined_iff {sides : Assignment} {ls : List Lexeme} (hsides : AreSides sides)
    (hls : Sql.lexemes sides.joined.toList = .ok ls) :
    parse sides.joined = .ok sides ↔
      ∃ o os, bareAssigns ls = o :: os ∧ spelled o.before = sides.target.toList ++ [' '] := by
  have htext := (Sql.lexemes_eq_ok_iff.1 hls).2
  have hscan : operator sides.joined.toList = operatorOfLexemes ls := by rw [operator, hls]
  constructor
  · intro hparse
    obtain ⟨op, hop, -⟩ := exists_operator_of_parse hparse
    obtain ⟨o, rfl, ⟨os, hassigns⟩ | ⟨-, hequals⟩⟩ := exists_occurrence_of_operator (hscan ▸ hop)
    · obtain ⟨hat, -, htoken⟩ := mem_bareAssigns (hassigns ▸ List.mem_cons_self)
      have htwo : o.operator.length = 2 :=
        congrArg List.length (Occurrence.source_eq hls hat htoken (.inl rfl))
      have hplace := congrArg Operator.start (operator_of_parse_joined hparse hop (by rw [htwo]))
      have hlength : (spelled o.before).length = (sides.target.toList ++ [' ']).length := by
        rw [List.length_append]
        exact hplace
      rw [hat, Sql.spelled_append, toList_joined, List.append_assoc] at htext
      exact ⟨o, os, hassigns, List.append_inj_left htext hlength⟩
    · obtain ⟨hat, -, htoken⟩ := mem_bareEquals (hequals ▸ List.mem_cons_self)
      have hone : o.operator.length = 1 :=
        congrArg List.length (Occurrence.source_eq hls hat htoken (.inr rfl))
      have hplace := operator_of_parse_joined hparse hop (by rw [hone]; decide)
      rw [hplace] at hone
      exact absurd hone (Nat.succ_ne_self 1)
  · rintro ⟨o, os, hassigns, hbefore⟩
    obtain ⟨hat, -, htoken⟩ := mem_bareAssigns (hassigns ▸ List.mem_cons_self)
    refine parse_joined hsides ?_
    rw [hscan, operatorOfLexemes_eq, hassigns, List.map_cons, choose, Occurrence.operator, hbefore,
      Occurrence.source_eq hls hat htoken (.inl rfl), List.length_append]
    rfl

end Assignment

open Assignment Sql

/-- **Assignments that are joined again have the same sides**, if the same scan reads both texts: the text can be
cut into lexemes, or the new one cannot. A text that can be cut stays so. The one case left is a text that only
the new operator makes fit to be cut, and there the sides come out again exactly if the new operator is the first
bare `:=`. -/
theorem joined_assignment_has_its_sides_iff {text : String} {sides : Assignment}
    (hcomment : Text.contains text "--" = false) (hparse : Assignment.parse text = .ok sides) :
    Assignment.parse (sides.target ++ " := " ++ sides.value) = .ok sides ↔
      (∃ ls, lexemes text.toList = .ok ls) ∨
      (¬ ∃ ls, lexemes (sides.target ++ " := " ++ sides.value).toList = .ok ls) ∨
      ∃ ls o os, lexemes (sides.target ++ " := " ++ sides.value).toList = .ok ls ∧ bareAssigns ls = o :: os ∧
        spelled o.before = sides.target.toList ++ [' '] := by
  have hsides := areSides_of_parse hparse
  rw [← joined]
  cases htext : lexemes text.toList with
  | ok ls =>
    exact iff_of_true (parse_joined hsides (operator_joined_of_lexemes hcomment hparse htext)) (.inl ⟨ls, rfl⟩)
  | error fault =>
    cases hjoined : lexemes sides.joined.toList with
    | error fault' =>
      refine iff_of_true (parse_joined hsides (operator_joined_of_chars hparse htext hjoined)) (.inr (.inl ?_))
      rintro ⟨ls, ⟨⟩⟩
    | ok ls =>
      rw [parse_joined_iff hsides hjoined]
      constructor
      · rintro ⟨o, os, hfirst⟩
        exact .inr (.inr ⟨ls, o, os, rfl, hfirst⟩)
      · rintro (⟨ms, ⟨⟩⟩ | hnot | ⟨ms, o, os, hms, hfirst⟩)
        · exact absurd ⟨ls, rfl⟩ hnot
        · obtain rfl := Except.ok.inj hms
          exact ⟨o, os, hfirst⟩

/-- Operators inside brackets, strings and comments move nothing. -/
theorem joined_assignment_has_its_sides_nested :
    Assignment.parse "a['[=' = 1]\n/* := */= f(p := $$:=$$)" = .ok ⟨"a['[=' = 1]\n/* := */", "f(p := $$:=$$)"⟩ ∧
      Assignment.parse ("a['[=' = 1]\n/* := */" ++ " := " ++ "f(p := $$:=$$)") =
        .ok ⟨"a['[=' = 1]\n/* := */", "f(p := $$:=$$)"⟩ := by
  have hparse : Assignment.parse "a['[=' = 1]\n/* := */= f(p := $$:=$$)" =
      .ok ⟨"a['[=' = 1]\n/* := */", "f(p := $$:=$$)"⟩ := by decide +kernel
  have hok : (lexemes "a['[=' = 1]\n/* := */= f(p := $$:=$$)".toList).toOption.isSome = true := by decide +kernel
  obtain ⟨ls, hls⟩ := Option.isSome_iff_exists.1 hok
  exact ⟨hparse, (joined_assignment_has_its_sides_iff (by decide) hparse).2
    (.inl ⟨ls, lexemes_of_toOption hls⟩)⟩

/-- A bracket in a dollar quotation counts for one scan and not for the other. The first text ends in a string
without an end. In the second one a question mark stands by itself and takes the mark of that string, so it can be
cut into lexemes. -/
theorem joined_assignment_loses_its_operator :
    Assignment.parse "a[$$]$$-=?'b" = .ok ⟨"a[$$]$$-", "?'b"⟩ ∧
      Assignment.parse ("a[$$]$$-" ++ " := " ++ "?'b") = .error .noOperator ∧
      ¬ ∀ (text : String) (sides : Assignment), Text.contains text "--" = false →
        Assignment.parse text = .ok sides →
          Assignment.parse (sides.target ++ " := " ++ sides.value) = .ok sides := by
  have hparse : Assignment.parse "a[$$]$$-=?'b" = .ok ⟨"a[$$]$$-", "?'b"⟩ := by decide +kernel
  have hjoined : Assignment.parse ("a[$$]$$-" ++ " := " ++ "?'b") = .error .noOperator := by decide +kernel
  refine ⟨hparse, hjoined, ?_⟩
  intro hall
  have hsame : Assignment.parse ("a[$$]$$-" ++ " := " ++ "?'b") = .ok ⟨"a[$$]$$-", "?'b"⟩ :=
    hall "a[$$]$$-=?'b" ⟨"a[$$]$$-", "?'b"⟩ (by decide) hparse
  rw [hjoined] at hsame
  cases hsame

end Routine
