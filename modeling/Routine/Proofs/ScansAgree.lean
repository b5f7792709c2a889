import Routine.Proofs.PassedOver

/-!
# Where the two scans for the clause agree

The place of an `INTO` clause is looked for among the lexemes of a text and, if it has none, among its characters.
Here is what both make of a text that has lexemes. One lexeme means the same for both if its characters are taken
for what it is and, where it is a bare keyword that counts, if both see that it is one: no character of a word
touches it on either side, and the text before it ends in a point for both or for none of them (`readsAlike`). The
scans agree on every text whose lexemes mean the same for both.

Texts with other lexemes are listed at the end, one of each kind.
-/

namespace Routine
namespace IntoClause

open Sql Lexer
open Text (isBlank)

/-! ## The condition -/

/-- Some character of a word comes next. -/
def startsInWord (rest : List Char) : Bool := (rest.head?.map isWordChar).getD false

/-- Both scans see the same in a bare word. A word that is no keyword, or stands in parentheses, means nothing for
either. -/
def countsAlike (before : List Lexeme) (value : String) (rest : List Char) : Bool :=
  let text := (spelled before).reverse
  !isOneOf keywords value || balance (tokens before) ≠ 0 ||
    endsInDot text = endsInPoint before && (endsInPoint before || !endsInWord text && !startsInWord rest)

/-- Both scans see the same in a lexeme. -/
def readsAlike (before : List Lexeme) (l : Lexeme) (rest : List Char) : Bool :=
  isSeen (spelled before).reverse l rest &&
    match l.token with
    | .word value false => countsAlike before value rest
    | _ => true

/-- Both scans see the same in all lexemes that come after others. -/
def allReadAlike (before : List Lexeme) : List Lexeme → Bool
  | [] => true
  | l :: ls => readsAlike before l (spelled ls) && allReadAlike (before ++ [l]) ls

/-! ## Lexemes that are passed over -/

section

variable {depth : Int} {before rest tail : List Char} {c : Char} {tok : Token}

theorem not_isPrefixOf_of_operatorStep {cs : List Char} (h : operatorStep c cs = none) {n : Lexer.Named}
    (hn : n ∈ named) : n.spelling.isPrefixOf (c :: cs) = false := by
  unfold operatorStep at h
  split at h
  · cases h
  · next hnone => exact Bool.eq_false_iff.2 (List.find?_eq_none.1 hnone n hn)

/-- A character without a meaning of its own. -/
theorem IsPassed.other (hplain : IsPlain c rest) (hsign : c ∉ punctuation) (hoperator : operatorStep c rest = none)
    (hstart : isWordStart c = false) : IsPassed depth before [c] rest := by
  have hminus : c ≠ '-' := by
    rintro rfl
    have hnot := not_isPrefixOf_of_operatorStep hoperator (n := ⟨['-'], "-", true⟩) (by simp [named])
    simp at hnot
  have hslash : c ≠ '/' := by
    rintro rfl
    have hnot := not_isPrefixOf_of_operatorStep hoperator (n := ⟨['/'], "/", false⟩) (by simp [named])
    simp at hnot
  have hopening : c ≠ '(' := by
    rintro rfl
    exact hsign (by decide)
  have hclosing : c ≠ ')' := by
    rintro rfl
    exact hsign (by decide)
  obtain ⟨halphabetic, hlow⟩ : Text.isAlphabetic c = false ∧ c ≠ '_' := by simpa [isWordStart] using hstart
  have halpha : c.isAlpha = false :=
    Bool.eq_false_iff.2 fun h => absurd (isAlphabetic_of_isAlpha h) (by rw [halphabetic]; decide)
  have hquiet : isQuiet c = true := by
    simp [isQuiet, hplain.quote, hplain.doubleQuote, hplain.dollar, hopening, hclosing, hminus, hslash, halpha, hlow]
  exact .quiet (by simpa using hquiet) (List.cons_ne_nil _ _)

theorem IsPassed.sign (hsign : c ∈ punctuation) (hopening : c ≠ '(') (hclosing : c ≠ ')') :
    IsPassed depth before [c] rest := by
  have hmarks : ∀ a ∈ punctuation, a ≠ '(' → a ≠ ')' → isQuiet a = true := forall_mem_of_all (by decide)
  refine .quiet ?_ (List.cons_ne_nil _ _)
  intro a ha
  obtain rfl := List.mem_singleton.1 ha
  exact hmarks a hsign hopening hclosing

/-- **A lexeme that is no parenthesis and no bare word is passed over**, if the scan sees what it is. -/
theorem IsPassed.of_step (h : step c (tail ++ rest) = .ok (tok, tail.length))
    (hcalm : Calm before (c :: (tail ++ rest))) (hseen : isSeen before ⟨tok, c :: tail⟩ rest = true)
    (hopening : tok ≠ .sign "(") (hclosing : tok ≠ .sign ")") (hword : ∀ value, tok ≠ .word value false) :
    IsPassed depth before (c :: tail) rest := by
  cases reads_of_step h with
  | quotation hc hstring =>
    subst hc
    obtain ⟨t, n, hbody, -, hlength⟩ := exists_of_stringStep hstring
    obtain rfl : n = tail.length := by omega
    have hescapes : opensEscapes before = false := hcalm rfl
    refine .quotation ?_ (quotedBody_closes hbody)
    rw [hescapes]
    exact quotedLength_of_quotedBody (by decide) hbody
  | quotedWord hc hbody htok => exact hc ▸ .doubleQuotation hbody
  | dollar hc hdollar =>
    subst hc
    exact .dollar hdollar hseen
  | lineBreak hc hcs htok hlength =>
    subst hc
    obtain ⟨tail, rfl, rfl⟩ := exists_cons_of_append hcs (by omega)
    obtain rfl : tail = [] := List.eq_nil_of_length_eq_zero (by rw [List.length_cons] at hlength; omega)
    exact .quiet (forall_mem_of_all (by decide)) (List.cons_ne_nil _ _)
  | lineComment hc hcs htok hlength =>
    subst hc htok
    obtain ⟨tail, rfl, rfl⟩ := exists_cons_of_append hcs (by omega)
    exact .lineComment (by rw [List.length_cons] at hlength; omega) hseen
  | @blockComment _ n hc hcs hcomment htok hlength =>
    subst hc
    obtain ⟨tail, rfl, rfl⟩ := exists_cons_of_append hcs (by omega)
    obtain rfl : n = tail.length := by rw [List.length_cons] at hlength; omega
    exact .blockComment hcomment
  | blank hblank htok hlength =>
    obtain rfl := List.eq_nil_of_length_eq_zero hlength
    exact .blank hblank
  | number hnumber htok hlength => exact .number hnumber hlength.symm
  | punctuation hsign htok hlength =>
    subst htok
    obtain rfl := List.eq_nil_of_length_eq_zero hlength
    refine .sign hsign ?_ ?_
    · rintro rfl
      exact hopening rfl
    · rintro rfl
      exact hclosing rfl
  | letter hnumber hletter => exact .letter hletter hseen
  | operator hplain hoperator => exact .operator hplain hoperator hseen
  | word hletter hstart hread => exact absurd (congrArg Prod.fst hread).symm (hword _)
  | other hplain hsign hoperator hstart htok hlength =>
    obtain rfl := List.eq_nil_of_length_eq_zero hlength
    exact .other hplain hsign hoperator hstart

end

/-! ## One lexeme -/

theorem source_of_parenthesis {l : Lexeme} {rest : List Char} {text : String} (h : l.Starts rest)
    (htoken : l.token = .sign text) (htext : text = "(" ∨ text = ")") : l.source = text.toList := by
  obtain ⟨c, cs, hsource, hstep⟩ := h
  rw [htoken] at hstep
  rcases step_sign hstep with ⟨-, rfl, hlength⟩ | rfl | hoperator
  · obtain rfl := List.eq_nil_of_length_eq_zero hlength
    rw [hsource, Char.toString, String.toList_singleton]
  · exact absurd htext (by decide)
  · have hshown : ∀ n ∈ named, n.shown ≠ "(" ∧ n.shown ≠ ")" := by decide
    rcases operatorStep_cases hoperator with ⟨n, hn, -, hread⟩ | ⟨-, hquestion, -⟩
    · rcases Named.read_cases hread with ⟨hsign, -⟩ | ⟨-, ⟨_, hcustom⟩, -⟩
      · obtain rfl := Token.sign.inj hsign
        exact absurd htext (not_or.2 (hshown n hn))
      · cases hcustom
    · obtain rfl := Token.sign.inj hquestion
      exact absurd htext (by decide)

/-- The scan of characters that come after lexemes: depth and text to the left are what the lexemes come to. -/
def scanTextAfter (mode : Mode) (before : List Lexeme) (text : List Char) : Found :=
  scanChars (balance (tokens before)) mode (spelled before).reverse text

section

variable {before : List Lexeme} {l : Lexeme} {rest : List Char}

theorem reverse_spelled_concat (before : List Lexeme) (l : Lexeme) :
    (spelled (before ++ [l])).reverse = l.source.reverse ++ (spelled before).reverse := by
  simp

theorem outerWord?_eq_none (h : ∀ value, l.token ≠ .word value false) : outerWord? before l = none := by
  unfold outerWord?
  split
  · next value htoken => exact absurd htoken (h value)
  · rfl

/-- A lexeme that changes no depth and is passed over. -/
theorem scanTextAfter_passed (hbalance : balance (tokens [l]) = 0)
    (h : IsPassed (balance (tokens before)) (spelled before).reverse l.source rest) (mode : Mode) :
    scanTextAfter mode before (l.source ++ rest) = scanTextAfter mode (before ++ [l]) rest := by
  rw [scanTextAfter, scanTextAfter, h.passes mode, balance_concat, hbalance, Int.add_zero, reverse_spelled_concat]

theorem scanTextAfter_parenthesis {c : Char} (hsource : l.source = [c]) (hc : c = '(' ∨ c = ')')
    (hbalance : balance (tokens [l]) = charBalance c) (mode : Mode) :
    scanTextAfter mode before (l.source ++ rest) = scanTextAfter mode (before ++ [l]) rest := by
  have hopens : opaqueLength (spelled before).reverse c rest = none := by
    rcases hc with rfl | rfl
    · rfl
    · rfl
  have hword : ¬ (c.isAlpha = true ∨ c = '_') := by
    rcases hc with rfl | rfl
    · decide
    · decide
  rw [scanTextAfter, scanTextAfter, balance_concat, hbalance, reverse_spelled_concat, hsource]
  exact scanChars_other hopens fun h => hword h.1

theorem outerWord?_word {value : String} (htoken : l.token = .word value false) :
    outerWord? before l =
      if balance (tokens before) = 0 ∧ endsInPoint before = false then some ⟨before, value⟩ else none := by
  simp [outerWord?, htoken, BareWord.isOuter, BareWord.isOutside, BareWord.isName]

/-- A bare keyword that counts for the scan of characters. -/
theorem scanTextAfter_keyword {c : Char} {tail : List Char} (hsource : l.source = c :: tail)
    (hword : IsWord c tail rest) (hc : c.isAlpha = true) (hbalance : balance (tokens [l]) = 0)
    (hdepth : balance (tokens before) = 0) (hdot : endsInDot (spelled before).reverse = false)
    (hbefore : endsInWord (spelled before).reverse = false) (hafter : startsInWord rest = false) (mode : Mode) :
    scanTextAfter mode before (l.source ++ rest) =
      match mode.read (String.ofList (c :: tail)) with
      | .goOn mode' => scanTextAfter mode' (before ++ [l]) rest
      | .boundary => .boundary (spelled before).length
      | .present => .present := by
  have hrun : (tail ++ rest).takeWhile isWordChar = tail := by
    rw [List.takeWhile_append_of_pos fun x hx => hword.isWordChar x (List.mem_cons_of_mem c hx)]
    cases rest with
    | nil => exact List.append_nil tail
    | cons x rest =>
      have hx : ¬ isWordChar x = true := Bool.eq_false_iff.1 hafter
      rw [List.takeWhile_cons_of_neg hx, List.append_nil]
  have hpassed : tail.reverse ++ c :: (spelled before).reverse = (spelled (before ++ [l])).reverse := by
    rw [reverse_spelled_concat, hsource, List.reverse_cons, List.append_assoc, List.singleton_append]
  rw [scanTextAfter, hsource, List.cons_append, scanChars_word (hword.opaqueLength_eq _ _) (.inl hc) hbefore,
    if_neg (by simp [hdot, hdepth]), hrun, List.drop_left, List.length_reverse]
  cases mode.read (String.ofList (c :: tail)) with
  | goOn mode' =>
    dsimp only
    rw [hpassed, scanTextAfter, balance_concat, hbalance, Int.add_zero]
  | boundary => rfl
  | present => rfl

/-- A bare word that means the same for both scans. -/
theorem scanTextAfter_word {value : String} (hl : l.Starts rest) (htoken : l.token = .word value false)
    (halike : countsAlike before value rest = true) (mode : Mode) :
    scanTextAfter mode before (l.source ++ rest) =
      match outerWord? before l with
      | none => scanTextAfter mode (before ++ [l]) rest
      | some w =>
        match mode.read w.value with
        | .goOn mode' => scanTextAfter mode' (before ++ [l]) rest
        | .boundary => .boundary (spelled before).length
        | .present => .present := by
  obtain ⟨c, tail, hsource, hvalue, hword⟩ := exists_isWord hl htoken
  have hbalance : balance (tokens [l]) = 0 := balance_other (by simp [htoken]) (by simp [htoken])
  have hskip (h : endsInDot (spelled before).reverse = true ∨ balance (tokens before) ≠ 0 ∨
      isOneOf keywords value = false) :
      scanTextAfter mode before (l.source ++ rest) = scanTextAfter mode (before ++ [l]) rest :=
    scanTextAfter_passed hbalance (hsource ▸ .word hword (hvalue ▸ h)) mode
  rw [outerWord?_word htoken]
  by_cases hkeyword : isOneOf keywords value = true
  · by_cases houter : balance (tokens before) = 0 ∧ endsInPoint before = false
    · obtain ⟨hdepth, hpoint⟩ := houter
      obtain ⟨hdot, hbefore, hafter⟩ : endsInDot (spelled before).reverse = false ∧
          endsInWord (spelled before).reverse = false ∧ startsInWord rest = false := by
        simpa [countsAlike, hkeyword, hdepth, hpoint] using halike
      have hc : c.isAlpha = true := isAlpha_of_isOneOf hkeyword c (by simp [hvalue])
      rw [if_pos ⟨hdepth, hpoint⟩, hvalue]
      exact scanTextAfter_keyword hsource hword hc hbalance hdepth hdot hbefore hafter mode
    · rw [if_neg houter]
      refine hskip ?_
      by_cases hdepth : balance (tokens before) = 0
      · have hpoint : endsInPoint before = true := by simpa [hdepth] using houter
        left
        simpa [countsAlike, hkeyword, hdepth, hpoint] using halike
      · exact .inr (.inl hdepth)
  · -- Whether it counts or not, the word changes nothing.
    have hnone := Bool.eq_false_iff.2 hkeyword
    rw [hskip (.inr (.inr hnone))]
    split
    · rfl
    · next w hw =>
      split at hw
      · cases hw
        rw [Mode.read_of_not_isOneOf hnone]
      · cases hw

/-- **One lexeme** means the same for both scans: that of characters acts on it as that of lexemes does. -/
theorem scanTextAfter_append (hl : l.Starts rest) (hcalm : Calm (spelled before).reverse (l.source ++ rest))
    (halike : readsAlike before l rest = true) (mode : Mode) :
    scanTextAfter mode before (l.source ++ rest) =
        (match outerWord? before l with
        | none => scanTextAfter mode (before ++ [l]) rest
        | some w =>
          match mode.read w.value with
          | .goOn mode' => scanTextAfter mode' (before ++ [l]) rest
          | .boundary => .boundary (spelled before).length
          | .present => .present) ∧
      Calm (spelled (before ++ [l])).reverse rest := by
  obtain ⟨hseen, hcounts⟩ := Bool.and_eq_true_iff.1 halike
  rw [reverse_spelled_concat]
  by_cases hparenthesis : ∃ text, l.token = .sign text ∧ (text = "(" ∨ text = ")")
  · obtain ⟨text, htoken, htext⟩ := hparenthesis
    have hsource := source_of_parenthesis hl htoken htext
    rw [outerWord?_eq_none (by simp [htoken])]
    rcases htext with rfl | rfl
    · refine ⟨scanTextAfter_parenthesis (c := '(') hsource (.inl rfl) ?_ mode, ?_⟩
      · simp [balance, tokens, htoken, Token.isGap, charBalance]
      · exact calm_of_getLast? (a := '(') (by rw [hsource]; rfl) (by decide) (by decide)
    · refine ⟨scanTextAfter_parenthesis (c := ')') hsource (.inr rfl) ?_ mode, ?_⟩
      · simp [balance, tokens, htoken, Token.isGap, charBalance]
      · exact calm_of_getLast? (a := ')') (by rw [hsource]; rfl) (by decide) (by decide)
  by_cases hbare : ∃ value, l.token = .word value false
  · obtain ⟨value, htoken⟩ := hbare
    rw [htoken] at hcounts
    refine ⟨scanTextAfter_word hl htoken hcounts mode, ?_⟩
    obtain ⟨c, tail, hsource, -, hword⟩ := exists_isWord hl htoken
    rw [hsource]
    exact hword.calm
  · have hopening : l.token ≠ .sign "(" := fun h => hparenthesis ⟨_, h, .inl rfl⟩
    have hclosing : l.token ≠ .sign ")" := fun h => hparenthesis ⟨_, h, .inr rfl⟩
    have hother (value : String) : l.token ≠ .word value false := fun h => hbare ⟨value, h⟩
    obtain ⟨c, tail, hsource, hstep⟩ := hl
    have hpassed : IsPassed (balance (tokens before)) (spelled before).reverse l.source rest := by
      obtain ⟨tok, source⟩ := l
      obtain rfl : source = c :: tail := hsource
      exact .of_step hstep hcalm hseen hopening hclosing hother
    rw [outerWord?_eq_none hother]
    exact ⟨scanTextAfter_passed (balance_other hopening hclosing) hpassed mode, hpassed.calm⟩

end

/-- **All lexemes.** -/
theorem scanTextAfter_eq {before ls : List Lexeme} (hcut : Cut [] ls)
    (hcalm : Calm (spelled before).reverse (spelled ls)) (halike : allReadAlike before ls = true) (mode : Mode) :
    scanTextAfter mode before (spelled ls) = scanAfter mode before ls := by
  induction ls generalizing before mode with
  | nil =>
    rw [scanTextAfter, spelled_nil, scanChars]
    rfl
  | cons l ls ih =>
    obtain ⟨hl, hls⟩ := hcut
    rw [List.append_nil] at hl
    obtain ⟨hone, hmore⟩ := Bool.and_eq_true_iff.1 halike
    obtain ⟨hscan, hnext⟩ := scanTextAfter_append hl hcalm hone mode
    rw [spelled_cons, hscan, scanAfter_cons]
    cases outerWord? before l with
    | none => exact ih hls hnext hmore mode
    | some w =>
      dsimp only
      cases mode.read w.value with
      | goOn mode' => exact ih hls hnext hmore mode'
      | boundary => rfl
      | present => rfl

end IntoClause

open IntoClause Sql

/-- **The scans for the clause agree.** A text that can be cut is scanned with the same result among its lexemes
and among its characters, if both scans see the same in each of its lexemes: strings, dollar quotations, operators
and comments end for both in the same place, and a bare keyword outside parentheses is one for both. -/
theorem scans_for_the_clause_agree {sql : String} {ls : List Lexeme} (hsql : lexemes sql.toList = .ok ls)
    (halike : allReadAlike [] ls = true) :
    scanChars 0 .undecided [] sql.toList = scanLexemes 0 .undecided false 0 ls := by
  obtain ⟨hcut, hspelled⟩ := lexemes_eq_ok_iff.1 hsql
  rw [← hspelled]
  have hcalm : Calm (spelled []).reverse (spelled ls) := fun _ => rfl
  exact scanTextAfter_eq hcut hcalm halike .undecided

/-- A query with keywords in parentheses, in a string, in a dollar quotation, behind a point and in a comment. -/
def hiddenKeywords : String :=
  "SELECT (1 FROM x), E'\\'from', $q$FROM$q$, p.limit /* FROM */ -- x\r\nFROM s"

theorem scans_for_the_clause_agree_hiddenKeywords :
    ∃ ls, lexemes hiddenKeywords.toList = .ok ls ∧ allReadAlike [] ls = true ∧
      scanChars 0 .undecided [] hiddenKeywords.toList = scanLexemes 0 .undecided false 0 ls ∧
      scanLexemes 0 .undecided false 0 ls = .boundary 67 := by
  have hrun : ((lexemes hiddenKeywords.toList).toOption.any fun ls =>
      allReadAlike [] ls && decide (scanLexemes 0 .undecided false 0 ls = .boundary 67)) = true := by
    decide +kernel
  obtain ⟨ls, hls, hboth⟩ := (Option.any_eq_true _ _).1 hrun
  obtain ⟨halike, hfound⟩ := Bool.and_eq_true_iff.1 hboth
  have hsql := lexemes_of_toOption hls
  exact ⟨ls, hsql, halike, scans_for_the_clause_agree hsql halike, of_decide_eq_true hfound⟩

/-- Texts in which a lexeme is taken for something else by the scan of characters. -/
def misread : List String := [
   -- A point that is no token: the end of a number, or of a comment.
   "SELECT 1. FROM t", "SELECT a -- note.\nFROM t",
   -- A point that is not seen behind a comment.
   "SELECT p./* c */from FROM t",
   -- A keyword right behind a character of a word that belongs to no word.
   "SELECT a\u00a0FROM t", "SELECT $$a$$FROM t",
   -- A backslash that escapes a quotation mark.
   "SELECT N'\\' FROM x' FROM t", "SELECT 1E'\\' FROM' FROM t",
   -- A tag with another letter, or with a digit in front.
   "SELECT $é$ FROM $é$ FROM t", "SELECT $1$ FROM $1$ FROM t",
   -- An operator with the mark of a comment in it, and a question mark that has taken a parenthesis.
   "SELECT a <-- b FROM t", "SELECT a ?(b FROM t",
   -- A comment up to a carriage return.
   "SELECT a -- note\rFROM t"]

theorem misread_texts_have_two_places :
    (¬ ∀ (sql : String) (ls : List Lexeme), lexemes sql.toList = .ok ls →
        (scanChars 0 .undecided [] sql.toList).placement sql.toList =
          (scanLexemes 0 .undecided false 0 ls).placement sql.toList) ∧
      ∀ sql ∈ misread, ∃ ls, lexemes sql.toList = .ok ls ∧
        (scanChars 0 .undecided [] sql.toList).placement sql.toList ≠
          (scanLexemes 0 .undecided false 0 ls).placement sql.toList := by
  have hrun : ∀ sql ∈ misread, ((lexemes sql.toList).toOption.any fun ls =>
      decide ((scanChars 0 .undecided [] sql.toList).placement sql.toList ≠
        (scanLexemes 0 .undecided false 0 ls).placement sql.toList)) = true := by
    decide +kernel
  have hdiffer : ∀ sql ∈ misread, ∃ ls, lexemes sql.toList = .ok ls ∧
      (scanChars 0 .undecided [] sql.toList).placement sql.toList ≠
        (scanLexemes 0 .undecided false 0 ls).placement sql.toList := by
    intro sql hsql
    obtain ⟨ls, hls, hne⟩ := (Option.any_eq_true _ _).1 (hrun sql hsql)
    exact ⟨ls, lexemes_of_toOption hls, of_decide_eq_true hne⟩
  refine ⟨fun hagree => ?_, hdiffer⟩
  obtain ⟨ls, hls, hne⟩ := hdiffer "SELECT 1. FROM t" List.mem_cons_self
  exact hne (hagree _ ls hls)

end Routine
