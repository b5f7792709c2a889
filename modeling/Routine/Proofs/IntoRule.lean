import Routine.Proofs.GapsAndWords
import Routine.Proofs.IntoPlace

/-!
# The rule for the place of an `INTO` clause

The scan for the place of the clause goes through the lexemes once, with a depth, a mode and a flag for the
point before a name. The rule that it follows needs none of these. Take the bare words of the text that stand
outside parentheses and follow no point (`outerWords`): the first that names a kind of statement says which
kind it is, and the clause goes in front of the first later word that ends the results, or to the end of the
text (`front`).

The scan is brought to the rule in two steps. Depth, flag and place are what the lexemes so far come to, so
that a scan is the mode and these lexemes (`scanAfter`), and it only acts on outer words (`scanAfter_cons`).
What a mode makes of outer words is the rule for the words that are left (`Mode.front_cons`).

The words are told by the lexemes before them. Each is a token of the text, and the text in front of it ends at the
offset of its place (`placement_at_token`).
-/

namespace Routine
namespace IntoClause

open Sql
open Text (isBlank)

/-! ## Outer words -/

/-- The last token is a point. -/
def endsInPoint (ls : List Lexeme) : Bool := (tokens ls).getLast? = some (.sign ".")

/-- A bare word of a text, and what stands before it. -/
structure BareWord where
  before : List Lexeme
  value : String

namespace BareWord

/-- The word is one of the keywords. -/
def isOneOf (keywords : List String) (w : BareWord) : Bool := IntoClause.isOneOf keywords w.value

/-- The word stands outside parentheses. -/
def isOutside (w : BareWord) : Bool := balance (tokens w.before) = 0

/-- The word is a name after a point; blanks and comments may stand between them. -/
def isName (w : BareWord) : Bool := endsInPoint w.before

/-- The word stands outside parentheses and is no name after a point. -/
def isOuter (w : BareWord) : Bool := w.isOutside && !w.isName

end BareWord

/-- The bare words among lexemes that come after others. -/
def bareWordsAfter (before : List Lexeme) : List Lexeme → List BareWord
  | [] => []
  | l :: ls =>
    match l.token with
    | .word value false => ⟨before, value⟩ :: bareWordsAfter (before ++ [l]) ls
    | _ => bareWordsAfter (before ++ [l]) ls

/-- The outer words among lexemes that come after others. -/
def outerWordsAfter (before ls : List Lexeme) : List BareWord :=
  (bareWordsAfter before ls).filter BareWord.isOuter

/-- The outer words of a text. -/
def outerWords (ls : List Lexeme) : List BareWord := outerWordsAfter [] ls

/-! ## The rule -/

/-- The text in front of the clause, in a query whose outer words after the first keyword are given: up to the
first word that ends the results, or all of it. None if a clause of its own comes first. -/
def frontOfQuery (text : List Char) (ws : List BareWord) : Option (List Char) :=
  match ws.find? (BareWord.isOneOf ("INTO" :: boundaries)) with
  | none => some text
  | some w => if w.isOneOf ["INTO"] then none else some (spelled w.before)

/-- The text in front of the clause, in a statement that changes data: all of it, unless there is a clause after
`RETURNING`. -/
def frontOfChange (text : List Char) (ws : List BareWord) : Option (List Char) :=
  if (ws.dropWhile fun w => !w.isOneOf ["RETURNING"]).tail.any (BareWord.isOneOf ["INTO"]) then none
  else some text

/-- The text in front of the clause, with the blanks at its end. The first of the outer words that names a kind
of statement decides. -/
def front (text : List Char) (ws : List BareWord) : Option (List Char) :=
  match ws.dropWhile fun w => !w.isOneOf ["SELECT", "VALUES", "INSERT", "UPDATE", "DELETE", "MERGE"] with
  | [] => some text
  | m :: later =>
    if m.isOneOf ["SELECT", "VALUES"] then frontOfQuery text later else frontOfChange text later

/-- The rule for the words that are left, when the mode is known. -/
def Mode.front (text : List Char) : Mode → List BareWord → Option (List Char)
  | undecided, ws => IntoClause.front text ws
  | query, ws => frontOfQuery text ws
  | change false, ws => frontOfChange text ws
  | change true, ws => if ws.any (BareWord.isOneOf ["INTO"]) then none else some text

theorem isOneOf_append (ks ks' : List String) (word : String) :
    isOneOf (ks ++ ks') word = (isOneOf ks word || isOneOf ks' word) :=
  List.any_append

/-- A word is not two keywords. -/
theorem sameName_of_sameName {word k k' : String} (h : Text.sameName word k = true)
    (h' : Text.sameName word k' = true) : Text.sameName k k' = true := by
  simp only [Text.sameName, Text.sameLetters, beq_iff_eq] at h h' ⊢
  rw [← h, h']

theorem not_isOneOf_of_ne {word k k' : String} (h : isOneOf [k] word = true)
    (hne : Text.sameName k k' = false) : isOneOf [k'] word = false := by
  rw [isOneOf, List.any_cons, List.any_nil, Bool.or_false] at h
  refine Bool.eq_false_iff.2 fun h' => ?_
  rw [isOneOf, List.any_cons, List.any_nil, Bool.or_false] at h'
  rw [sameName_of_sameName h h'] at hne
  cases hne

/-- **One word.** The rule for outer words is what the mode makes of the first, and the rule for the rest. -/
theorem Mode.front_cons (text : List Char) (mode : Mode) (w : BareWord) (ws : List BareWord) :
    mode.front text (w :: ws) =
      match mode.read w.value with
      | .goOn mode' => mode'.front text ws
      | .boundary => some (spelled w.before)
      | .present => none := by
  cases mode with
  | undecided =>
    have hstarts : isOneOf ["SELECT", "VALUES", "INSERT", "UPDATE", "DELETE", "MERGE"] w.value =
        (isOneOf ["SELECT", "VALUES"] w.value || isOneOf changes w.value) :=
      isOneOf_append ["SELECT", "VALUES"] changes w.value
    simp only [Mode.front, IntoClause.front, Mode.read, List.dropWhile_cons, BareWord.isOneOf, hstarts]
    by_cases hquery : isOneOf ["SELECT", "VALUES"] w.value = true
    · simp [hquery]
    · by_cases hchange : isOneOf changes w.value = true
      · simp [hquery, hchange]
      · simp [hquery, hchange]
  | query =>
    have hstops : isOneOf ("INTO" :: boundaries) w.value =
        (isOneOf ["INTO"] w.value || isOneOf boundaries w.value) :=
      isOneOf_append ["INTO"] boundaries w.value
    simp only [Mode.front, frontOfQuery, Mode.read, List.find?_cons, BareWord.isOneOf, hstops]
    by_cases hinto : isOneOf ["INTO"] w.value = true
    · simp [hinto]
    · by_cases hboundary : isOneOf boundaries w.value = true
      · simp [hinto, hboundary]
      · simp [hinto, hboundary]
  | change afterReturning =>
    cases afterReturning with
    | false =>
      simp only [Mode.front, frontOfChange, Mode.read, List.dropWhile_cons, BareWord.isOneOf]
      by_cases hreturning : isOneOf ["RETURNING"] w.value = true
      · simp [hreturning]
      · simp [hreturning]
    | true =>
      simp only [Mode.front, Mode.read, List.any_cons, BareWord.isOneOf]
      by_cases hreturning : isOneOf ["RETURNING"] w.value = true
      · have hinto : isOneOf ["INTO"] w.value = false := not_isOneOf_of_ne hreturning (by decide)
        simp [hreturning, hinto]
      · by_cases hinto : isOneOf ["INTO"] w.value = true
        · simp [hreturning, hinto]
        · simp [hreturning, hinto]

/-! ## The scan -/

/-- The lexeme as an outer word, if it is one. -/
def outerWord? (before : List Lexeme) (l : Lexeme) : Option BareWord :=
  match l.token with
  | .word value false => if (BareWord.mk before value).isOuter then some ⟨before, value⟩ else none
  | _ => none

theorem before_of_outerWord? {before : List Lexeme} {l : Lexeme} {w : BareWord}
    (h : outerWord? before l = some w) : w.before = before := by
  unfold outerWord? at h
  split at h
  · split at h
    · cases h
      rfl
    · cases h
  · cases h

theorem outerWordsAfter_cons (before : List Lexeme) (l : Lexeme) (ls : List Lexeme) :
    outerWordsAfter before (l :: ls) = (outerWord? before l).toList ++ outerWordsAfter (before ++ [l]) ls := by
  simp only [outerWordsAfter, bareWordsAfter, outerWord?]
  split
  · rw [List.filter_cons]
    split <;> rfl
  · rfl

/-- The scan of lexemes that come after others: depth, flag and place are what the others come to. -/
def scanAfter (mode : Mode) (before ls : List Lexeme) : Found :=
  scanLexemes (balance (tokens before)) mode (endsInPoint before) (spelled before).length ls

theorem balance_concat (before : List Lexeme) (l : Lexeme) :
    balance (tokens (before ++ [l])) = balance (tokens before) + balance (tokens [l]) := by
  rw [tokens_append, balance_append]

/-- A lexeme that is no parenthesis changes no depth. -/
theorem balance_other {l : Lexeme} (hopening : l.token ≠ .sign "(") (hclosing : l.token ≠ .sign ")") :
    balance (tokens [l]) = 0 := by
  cases hgap : l.token.isGap with
  | true => simp [balance, tokens, hgap]
  | false => simp [balance, tokens, hgap, hopening, hclosing]

theorem endsInPoint_concat (before : List Lexeme) (l : Lexeme) :
    endsInPoint (before ++ [l]) =
      if l.token.isGap then endsInPoint before else decide (l.token = .sign ".") := by
  cases hgap : l.token.isGap with
  | true => simp [endsInPoint, tokens, hgap]
  | false => simp [endsInPoint, tokens, hgap]

/-- **One lexeme.** The scan goes on with what the lexeme adds to those before it, and only an outer word can
change its mode or end it. -/
theorem scanAfter_cons (mode : Mode) (before : List Lexeme) (l : Lexeme) (ls : List Lexeme) :
    scanAfter mode before (l :: ls) =
      match outerWord? before l with
      | none => scanAfter mode (before ++ [l]) ls
      | some w =>
        match mode.read w.value with
        | .goOn mode' => scanAfter mode' (before ++ [l]) ls
        | .boundary => .boundary (spelled before).length
        | .present => .present := by
  have hlength : (spelled (before ++ [l])).length = (spelled before).length + l.source.length := by
    simp
  simp only [scanAfter, balance_concat, endsInPoint_concat, hlength]
  rw [scanLexemes]
  split
  · next htoken => simp [outerWord?, htoken, Token.isGap, tokens, balance]
  · next htoken => simp [outerWord?, htoken, Token.isGap, tokens, balance]
  · next htoken => simp [outerWord?, htoken, Token.isGap, tokens, balance, Int.sub_eq_add_neg]
  · next htoken => simp [outerWord?, htoken, Token.isGap, tokens, balance]
  · next value htoken =>
    have hbalance : balance (tokens [l]) = 0 := by simp [htoken, Token.isGap, tokens, balance]
    have houter : (BareWord.mk before value).isOuter = true ↔
        ¬ (endsInPoint before = true ∨ balance (tokens before) ≠ 0) := by
      simp [BareWord.isOuter, BareWord.isOutside, BareWord.isName, and_comm]
    simp only [outerWord?, htoken, hbalance, Int.add_zero, Token.isGap]
    by_cases hskipped : endsInPoint before = true ∨ balance (tokens before) ≠ 0
    · rw [if_pos hskipped, if_neg (mt houter.1 (not_not_intro hskipped))]
      rfl
    · rw [if_neg hskipped, if_pos (houter.2 hskipped)]
      rfl
  · next hgap hopening hclosing hpoint hword =>
    have hnone : outerWord? before l = none := by
      unfold outerWord?
      split
      · next value htoken => exact (hword value htoken).elim
      · rfl
    have hgap : l.token.isGap = false := Bool.eq_false_iff.2 fun h => hgap (Token.eq_gap_of_isGap h)
    have hbalance : balance (tokens [l]) = 0 := balance_other hopening hclosing
    simp [hnone, hgap, hbalance, decide_eq_false hpoint]

/-- The text in front of the clause, from the result of a scan. -/
def Found.front (text : List Char) : Found → Option (List Char)
  | present => none
  | boundary start => some (text.take start)
  | atEnd => some text

theorem Mode.front_nil (text : List Char) (mode : Mode) : mode.front text [] = some text := by
  cases mode with
  | undecided => rfl
  | query => rfl
  | change afterReturning => cases afterReturning <;> rfl

/-- **All lexemes.** The scan gives what the rule gives for the outer words. -/
theorem front_scanAfter {text : List Char} {before ls : List Lexeme} (htext : spelled (before ++ ls) = text)
    (mode : Mode) : (scanAfter mode before ls).front text = mode.front text (outerWordsAfter before ls) := by
  -- On the lexemes that are left. The scan and the rule both carry those before them and the mode.
  induction ls generalizing before mode with
  | nil => exact (mode.front_nil text).symm
  | cons l ls ih =>
    have hnext : spelled (before ++ [l] ++ ls) = text := by simpa using htext
    rw [scanAfter_cons, outerWordsAfter_cons]
    cases hword : outerWord? before l with
    | none => exact ih hnext mode
    | some w =>
      have hbefore : w.before = before := before_of_outerWord? hword
      have htake : text.take (spelled before).length = spelled w.before := by
        rw [← htext, hbefore, spelled_append, List.take_left]
      rw [Option.toList_some, List.singleton_append, Mode.front_cons]
      dsimp only
      cases mode.read w.value with
      | goOn mode' => exact ih hnext mode'
      | boundary => exact congrArg some htake
      | present => rfl

/-! ## The place -/

theorem Found.placement_eq (text : List Char) (found : Found) :
    found.placement text =
      match found.front text with
      | none => .alreadyPresent
      | some piece => placement.cut text piece := by
  cases found <;> rfl

/-- The place of the clause is the end of the text in front of it. -/
theorem placement_eq {sql : String} {ls : List Lexeme} (hsql : lexemes sql.toList = .ok ls) :
    placement sql =
      match front sql.toList (outerWords ls) with
      | none => .alreadyPresent
      | some piece => Found.placement.cut sql.toList piece := by
  have hspelled : spelled ([] ++ ls) = sql.toList := (lexemes_eq_ok_iff.1 hsql).2
  have hscan := front_scanAfter hspelled .undecided
  rw [placement, hsql]
  dsimp only
  rw [Found.placement_eq]
  show (match (scanAfter .undecided [] ls).front sql.toList with
    | none => Placement.alreadyPresent
    | some piece => Found.placement.cut sql.toList piece) = _
  rw [hscan]
  rfl

theorem offset_placement {sql : String} {ls : List Lexeme} (hsql : lexemes sql.toList = .ok ls) :
    (placement sql).offset =
      (front sql.toList (outerWords ls)).map fun piece => Text.byteLength (Text.dropBlanksEnd piece) := by
  rw [placement_eq hsql]
  cases front sql.toList (outerWords ls) with
  | none => rfl
  | some piece => simp [Found.placement.cut, Placement.offset]

/-- The text neither starts nor ends with a blank. -/
structure IsTrimmed (cs : List Char) : Prop where
  head : ∀ c ∈ cs.head?, isBlank c = false
  last : ∀ c ∈ cs.getLast?, isBlank c = false

theorem isTrimmed_strip (cs : List Char) : IsTrimmed (Text.strip cs) where
  head := by
    intro c hc
    obtain ⟨bs, hbs, -⟩ := exists_dropBlanksEnd (Text.dropBlanks cs)
    have hhead : (cs.dropWhile isBlank).head? = some c := by
      show (Text.dropBlanks cs).head? = some c
      rw [hbs, List.head?_append, ← Text.strip, Option.mem_def.1 hc, Option.some_or]
    have hnot := List.head?_dropWhile_not isBlank cs
    rw [hhead] at hnot
    simpa using hnot
  last := fun _ hc => not_isBlank_of_dropBlanksEnd hc

theorem exists_strip (cs : List Char) :
    ∃ bs bs', cs = bs ++ Text.strip cs ++ bs' ∧ (∀ b ∈ bs, isBlank b = true) ∧ ∀ b ∈ bs', isBlank b = true := by
  obtain ⟨bs', hbs', hblank⟩ := exists_dropBlanksEnd (Text.dropBlanks cs)
  refine ⟨cs.takeWhile isBlank, bs', ?_, List.all_eq_true.1 List.all_takeWhile, hblank⟩
  rw [List.append_assoc, Text.strip, ← hbs', Text.dropBlanks, List.takeWhile_append_dropWhile]

/-- A clause goes between blanks: one on each side if something follows. -/
theorem toList_insert {sql before after : String} (h : placement sql = .between before after)
    (clause : String) :
    (insert sql clause).toList =
      before.toList ++ ' ' :: clause.toList ++
        (if Text.strip after.toList = [] then [] else ' ' :: Text.strip after.toList) := by
  rw [insert, h]
  dsimp only
  by_cases hnil : Text.strip after.toList = []
  · simp [Text.trim, hnil]
  · simp [Text.trim, hnil]

end IntoClause

open IntoClause Sql

/-- **The place of the clause follows the rule.** In a text that can be cut, let the outer words be the bare
words outside parentheses that follow no point. The offset of the clause is the length of the text in front of
it without the blanks at its end (`IntoClause.front`): up to the first outer word after `SELECT` or `VALUES`
that ends the results, or to the end of the text; none if the text has a clause.

Wherever there is an offset it is one between two characters, and the text with the clause is the text before
it, the clause and what follows but for blanks, with one blank between them. -/
theorem into_clause_is_placed_by_the_rule {sql : String} {ls : List Lexeme}
    (hsql : lexemes sql.toList = .ok ls) :
    (placement sql).offset =
        (front sql.toList (outerWords ls)).map (fun piece => Text.byteLength (Text.dropBlanksEnd piece)) ∧
      ∀ offset, (placement sql).offset = some offset →
        ∃ before bs rest bs', sql.toList = before ++ bs ++ rest ++ bs' ∧ Text.byteLength before = offset ∧
          (∀ b ∈ bs, Text.isBlank b = true) ∧ (∀ b ∈ bs', Text.isBlank b = true) ∧ IsTrimmed rest ∧
          ∀ clause, (insert sql clause).toList =
            before ++ ' ' :: clause.toList ++ (if rest = [] then [] else ' ' :: rest) := by
  refine ⟨offset_placement hsql, ?_⟩
  intro offset hoffset
  cases hplacement : placement sql with
  | alreadyPresent =>
    rw [hplacement] at hoffset
    cases hoffset
  | between before after =>
    rw [hplacement] at hoffset
    obtain ⟨ts, us, hsplits, -⟩ := tokens?_pieces hsql hplacement
    obtain ⟨bs, bs', hafter, hbs, hbs'⟩ := exists_strip after.toList
    refine ⟨before.toList, bs, Text.strip after.toList, bs', ?_, Option.some.inj hoffset, hbs, hbs',
      isTrimmed_strip _, toList_insert hplacement⟩
    rw [← hsplits.joined, List.append_assoc, List.append_assoc, ← List.append_assoc bs, ← hafter]

/-- A query behind another one in parentheses, with a keyword for a column name. -/
def qualifiedColumn : String := "WITH s AS (SELECT 1 FROM x) SELECT p.limit, 'é'\n FROM s"

theorem into_clause_is_placed_by_the_rule_qualifiedColumn :
    ∃ ls, lexemes qualifiedColumn.toList = .ok ls ∧
      (front qualifiedColumn.toList (outerWords ls)).map
        (fun piece => Text.byteLength (Text.dropBlanksEnd piece)) = some 48 ∧
      ∃ before bs rest bs', qualifiedColumn.toList = before ++ bs ++ rest ++ bs' ∧
        Text.byteLength before = 48 ∧ IsTrimmed rest ∧
        ∀ clause, (insert qualifiedColumn clause).toList =
          before ++ ' ' :: clause.toList ++ (if rest = [] then [] else ' ' :: rest) := by
  have hoffset : (placement qualifiedColumn).offset = some 48 := by decide +kernel
  cases hls : lexemes qualifiedColumn.toList with
  | error fault =>
    have hcut : (tokens? qualifiedColumn.toList).isSome = true := by decide +kernel
    rw [tokens?, hls] at hcut
    cases hcut
  | ok ls =>
    obtain ⟨hrule, hinsert⟩ := into_clause_is_placed_by_the_rule hls
    obtain ⟨before, bs, rest, bs', htext, hlength, -, -, htrimmed, hclause⟩ := hinsert 48 hoffset
    exact ⟨ls, rfl, hrule.symm.trans hoffset, before, bs, rest, bs', htext, hlength, htrimmed, hclause⟩

end Routine
