import Routine.Proofs.IntoRule
import Routine.Proofs.QuotedLengths
import Routine.Proofs.Signs

/-!
# What the scan of characters passes over

The scan of characters for the place of an `INTO` clause knows no lexemes. It goes on one character at a time, over
a word in one go and over a quotation or a comment in one go. Going over a word is the same as going over its
characters, since none of them starts a word after another (`passes_run`). So a lexeme is passed over if each of
its characters is (`Passes`), and where the scan is afterwards does not depend on how it came there.

For each kind of lexeme there is a lemma that says when it is passed over.
-/

namespace Routine
namespace IntoClause

open Sql Lexer
open Text (isBlank isAlphabetic isNumeric)

/-! ## Keywords -/

/-- The words that mean something for the clause in one of the modes. -/
def keywords : List String := ["SELECT", "VALUES"] ++ changes ++ ["INTO", "RETURNING"] ++ boundaries

theorem Mode.read_of_not_isOneOf {word : String} (h : isOneOf keywords word = false) (mode : Mode) :
    mode.read word = .goOn mode := by
  simp only [keywords, isOneOf_append, Bool.or_eq_false_iff] at h
  obtain ⟨⟨⟨hquery, hchange⟩, hother⟩, hboundary⟩ := h
  have hpair : isOneOf ["INTO"] word = false ∧ isOneOf ["RETURNING"] word = false :=
    Bool.or_eq_false_iff.1 (isOneOf_append ["INTO"] ["RETURNING"] word ▸ hother)
  cases mode with
  | undecided => simp [read, hquery, hchange]
  | query => simp [read, hpair.1, hboundary]
  | change afterReturning => simp [read, hpair.1, hpair.2]

theorem isAlpha_of_lower {c : Char} (h : (Text.lower c).isAlpha = true) : c.isAlpha = true := by
  unfold Text.lower Char.toLower at h
  split at h
  · next hupper => exact isAlpha_iff.2 (.inl hupper)
  · exact h

/-- Keywords are spelled with letters. -/
theorem isAlpha_of_isOneOf {word : String} (h : isOneOf keywords word = true) :
    ∀ c ∈ word.toList, c.isAlpha = true := by
  have hletters : ∀ k ∈ keywords, (k.toList.map Text.lower).all Char.isAlpha = true := by decide
  obtain ⟨k, hk, hsame⟩ := List.any_eq_true.1 h
  have hsame : word.toList.map Text.lower = k.toList.map Text.lower := by
    simpa [Text.sameName, Text.sameLetters] using hsame
  intro c hc
  exact isAlpha_of_lower (List.all_eq_true.1 (hletters k hk) _ (hsame ▸ List.mem_map_of_mem hc))

/-! ## One character -/

/-- The text that is already read, last character first, ends in a character of a word. -/
def endsInWord (before : List Char) : Bool := (before.head?.map isWordChar).getD false

/-- The text that is already read ends in a point, but for blanks. -/
def endsInDot (before : List Char) : Bool := (Text.dropBlanks before).head? = some '.'

/-- The scan goes on behind the piece as it was in front of it. -/
def Passes (depth : Int) (before piece rest : List Char) : Prop :=
  ∀ mode, scanChars depth mode before (piece ++ rest) = scanChars depth mode (piece.reverse ++ before) rest

namespace Passes

variable {depth : Int} {before piece rest : List Char}

theorem nil : Passes depth before [] rest := fun _ => rfl

theorem append {piece' : List Char} (h : Passes depth before piece (piece' ++ rest))
    (h' : Passes depth (piece.reverse ++ before) piece' rest) : Passes depth before (piece ++ piece') rest := by
  intro mode
  rw [List.append_assoc, h mode, h' mode, List.reverse_append, List.append_assoc]

theorem cons {c : Char} (h : Passes depth before [c] (piece ++ rest))
    (h' : Passes depth (c :: before) piece rest) : Passes depth before (c :: piece) rest :=
  append h h'

end Passes

/-- A character that opens nothing. -/
theorem opaqueLength_eq_none {before : List Char} {c : Char} {cs : List Char} (hquote : c ≠ '\'') (hdouble : c ≠ '"')
    (hline : c = '-' → cs.head? ≠ some '-') (hblock : c = '/' → cs.head? ≠ some '*')
    (hdollar : c = '$' → endsInWord before = true ∨ dollarLength cs = none) : opaqueLength before c cs = none := by
  unfold opaqueLength
  split
  · exact absurd rfl hquote
  · exact absurd rfl hdouble
  · exact absurd rfl (hline rfl)
  · exact absurd rfl (hblock rfl)
  · split
    · rfl
    · next hword => exact (hdollar rfl).resolve_left hword
  · rfl

/-- By how much a character changes the depth. -/
def charBalance (c : Char) : Int := if c = '(' then 1 else if c = ')' then -1 else 0

theorem scanChars_other {depth : Int} {mode : Mode} {before : List Char} {c : Char} {cs : List Char}
    (hopens : opaqueLength before c cs = none)
    (hword : ¬ ((c.isAlpha = true ∨ c = '_') ∧ endsInWord before = false)) :
    scanChars depth mode before (c :: cs) = scanChars (depth + charBalance c) mode (c :: before) cs := by
  have hdepth : (if c = '(' then depth + 1 else if c = ')' then depth - 1 else depth) = depth + charBalance c := by
    unfold charBalance
    split
    · rfl
    · split
      · exact Int.sub_eq_add_neg
      · exact (Int.add_zero depth).symm
  rw [scanChars, hopens, ← hdepth]
  exact if_neg hword

theorem scanChars_word {depth : Int} {mode : Mode} {before : List Char} {c : Char} {cs : List Char}
    (hopens : opaqueLength before c cs = none) (hc : c.isAlpha = true ∨ c = '_')
    (hbefore : endsInWord before = false) :
    scanChars depth mode before (c :: cs) =
      if endsInDot before = true ∨ depth ≠ 0 then
        scanChars depth mode ((cs.takeWhile isWordChar).reverse ++ c :: before)
          (cs.drop (cs.takeWhile isWordChar).length)
      else
        match mode.read (String.ofList (c :: cs.takeWhile isWordChar)) with
        | .goOn mode =>
          scanChars depth mode ((cs.takeWhile isWordChar).reverse ++ c :: before)
            (cs.drop (cs.takeWhile isWordChar).length)
        | .boundary => .boundary before.length
        | .present => .present := by
  have hdot : (Text.dropBlanks before).head? = some '.' ↔ endsInDot before = true := decide_eq_true_iff.symm
  rw [scanChars, hopens]
  exact (if_pos ⟨hc, hbefore⟩).trans (if_congr (or_congr_left hdot) rfl rfl)

theorem isWordChar_of_start {c : Char} (h : c.isAlpha = true ∨ c = '_') : isWordChar c = true := by
  rcases h with h | rfl
  · simp [isWordChar, Char.isAlphanum, h]
  · decide

/-- A character of a word opens nothing, unless it is a dollar sign. -/
theorem opaqueLength_of_isWordChar {before : List Char} {c : Char} (hc : isWordChar c = true)
    (hdollar : c = '$' → endsInWord before = true) (cs : List Char) : opaqueLength before c cs = none := by
  have hne {a : Char} (ha : isWordChar a = false) : c ≠ a := ne_of_holds hc ha
  exact opaqueLength_eq_none (hne (by decide)) (hne (by decide)) (fun h => absurd h (hne (by decide)))
    (fun h => absurd h (hne (by decide))) (fun h => .inl (hdollar h))

theorem charBalance_of_isWordChar {c : Char} (hc : isWordChar c = true) : charBalance c = 0 := by
  have hne {a : Char} (ha : isWordChar a = false) : c ≠ a := ne_of_holds hc ha
  rw [charBalance, if_neg (hne (by decide)), if_neg (hne (by decide))]

section

variable {depth : Int} {before rest : List Char} {c : Char}

/-- **Inside a word** nothing happens. -/
theorem passes_run {cs : List Char} (hbefore : endsInWord before = true) (hcs : ∀ c ∈ cs, isWordChar c = true) :
    Passes depth before cs rest := by
  induction cs generalizing before with
  | nil => exact .nil
  | cons c cs ih =>
    obtain ⟨hc, hcs⟩ := List.forall_mem_cons.1 hcs
    refine Passes.cons ?_ (ih hc hcs)
    intro mode
    have hopens := opaqueLength_of_isWordChar hc (fun _ => hbefore) (cs ++ rest)
    rw [List.singleton_append, scanChars_other hopens (by simp [hbefore]), charBalance_of_isWordChar hc,
      Int.add_zero]
    rfl

/-- **One character is passed over**, if it opens nothing, is no parenthesis and does not start a keyword where
one counts. -/
theorem passes_char (hopens : opaqueLength before c rest = none) (hopening : c ≠ '(') (hclosing : c ≠ ')')
    (hword : c.isAlpha = true ∨ c = '_' → endsInWord before = false →
      endsInDot before = true ∨ depth ≠ 0 ∨
        isOneOf keywords (String.ofList (c :: rest.takeWhile isWordChar)) = false) :
    Passes depth before [c] rest := by
  intro mode
  rw [List.singleton_append]
  by_cases hstart : (c.isAlpha = true ∨ c = '_') ∧ endsInWord before = false
  · -- The scan goes over the whole word, and its other characters can be gone over one by one.
    have hrun : Passes depth (c :: before) (rest.takeWhile isWordChar)
        (rest.drop (rest.takeWhile isWordChar).length) :=
      passes_run (isWordChar_of_start hstart.1) (List.all_eq_true.1 List.all_takeWhile)
    have hsame := (hrun mode).symm
    rw [List.prefix_iff_eq_append.1 (List.takeWhile_prefix _)] at hsame
    rw [scanChars_word hopens hstart.1 hstart.2]
    split
    · exact hsame
    · next hcounts =>
      obtain ⟨hdot, hdepth⟩ := not_or.1 hcounts
      have hnone := ((hword hstart.1 hstart.2).resolve_left hdot).resolve_left hdepth
      rw [Mode.read_of_not_isOneOf hnone]
      exact hsame
  · have hbalance : charBalance c = 0 := by rw [charBalance, if_neg hopening, if_neg hclosing]
    rw [scanChars_other hopens hstart, hbalance, Int.add_zero]
    rfl

/-- What a character opens is passed over in one go. -/
theorem passes_closed {tail : List Char} (h : opaqueLength before c (tail ++ rest) = some tail.length) :
    Passes depth before (c :: tail) rest := by
  intro mode
  rw [List.cons_append, scanChars, h]
  simp

/-- Of two ways over a piece, the longer one can be cut back to the shorter. -/
theorem Passes.of_append {piece piece' : List Char} (h : Passes depth before (piece ++ piece') rest)
    (h' : Passes depth (piece.reverse ++ before) piece' rest) : Passes depth before piece (piece' ++ rest) := by
  intro mode
  rw [← List.append_assoc, h mode, h' mode, List.reverse_append, List.append_assoc]

/-! ## Signs -/

/-- A character that opens nothing, is no parenthesis and starts no word. -/
def isQuiet (c : Char) : Bool :=
  c ∉ ['\'', '"', '$', '(', ')', '-', '/'] && !c.isAlpha && c ≠ '_'

/-- No comment starts in the piece. -/
def CommentFree (rest : List Char) : List Char → Prop
  | [] => True
  | c :: cs =>
    ¬ (c = '-' ∧ (cs ++ rest).head? = some '-') ∧ ¬ (c = '/' ∧ (cs ++ rest).head? = some '*') ∧ CommentFree rest cs

theorem passes_signs {cs : List Char} (hcs : ∀ c ∈ cs, isQuiet c = true ∨ c = '-' ∨ c = '/')
    (hfree : CommentFree rest cs) : Passes depth before cs rest := by
  induction cs generalizing before with
  | nil => exact .nil
  | cons c cs ih =>
    obtain ⟨hc, hcs⟩ := List.forall_mem_cons.1 hcs
    obtain ⟨hline, hblock, hfree⟩ := hfree
    have hne {a : Char} (ha : isQuiet a = false ∧ a ≠ '-' ∧ a ≠ '/') : c ≠ a := by
      rintro rfl
      rcases hc with hc | hc | hc
      · exact absurd hc (by rw [ha.1]; decide)
      · exact ha.2.1 hc
      · exact ha.2.2 hc
    have hstart : ¬ (c.isAlpha = true ∨ c = '_') := by
      rcases hc with hc | rfl | rfl
      · simp only [isQuiet, Bool.and_eq_true, Bool.not_eq_true', decide_eq_true_eq] at hc
        simp [hc.1.2, hc.2]
      · decide
      · decide
    refine Passes.cons (passes_char ?_ (hne (by decide)) (hne (by decide)) fun h => absurd h hstart) (ih hcs hfree)
    exact opaqueLength_eq_none (hne (by decide)) (hne (by decide)) (fun hc hhead => hline ⟨hc, hhead⟩)
      (fun hc hhead => hblock ⟨hc, hhead⟩) (fun hc => absurd hc (hne (by decide)))

theorem commentFree_quiet {cs : List Char} (hcs : ∀ c ∈ cs, isQuiet c = true) : CommentFree rest cs := by
  induction cs with
  | nil => trivial
  | cons c cs ih =>
    obtain ⟨hc, hcs⟩ := List.forall_mem_cons.1 hcs
    refine ⟨?_, ?_, ih hcs⟩
    · rintro ⟨rfl, -⟩
      exact absurd hc (by decide)
    · rintro ⟨rfl, -⟩
      exact absurd hc (by decide)

theorem passes_cons_quiet (hc : isQuiet c = true) : Passes depth before [c] rest := by
  have hall : ∀ a ∈ [c], isQuiet a = true := by simpa using hc
  exact passes_signs (fun a ha => .inl (hall a ha)) (commentFree_quiet hall)

/-- No comment starts in a piece without its marks, unless one starts with its last character. -/
theorem commentFree_of {cs : List Char} (hline : ¬ ['-', '-'] <:+: cs) (hblock : ¬ ['/', '*'] <:+: cs)
    (hlast : ∀ a ∈ cs.getLast?, ∀ b ∈ rest.head?, ¬ (a = '-' ∧ b = '-') ∧ ¬ (a = '/' ∧ b = '*')) :
    CommentFree rest cs := by
  induction cs with
  | nil => trivial
  | cons c cs ih =>
    have hnext {a b : Char} (hab : ¬ [a, b] <:+: c :: cs)
        (hend : ∀ x ∈ (c :: cs).getLast?, ∀ y ∈ rest.head?, ¬ (x = a ∧ y = b)) :
        ¬ (c = a ∧ (cs ++ rest).head? = some b) := by
      rintro ⟨rfl, hhead⟩
      cases cs with
      | nil => exact hend c rfl b hhead ⟨rfl, rfl⟩
      | cons d cs =>
        obtain rfl := Option.some.inj hhead
        exact hab ⟨[], cs, rfl⟩
    refine ⟨hnext hline fun x hx y hy => (hlast x hx y hy).1, hnext hblock fun x hx y hy => (hlast x hx y hy).2,
      ih (fun h => hline (h.trans (List.infix_cons (List.infix_refl _))))
        (fun h => hblock (h.trans (List.infix_cons (List.infix_refl _)))) ?_⟩
    intro a ha
    refine hlast a ?_
    rw [List.getLast?_cons, Option.mem_def.1 ha]
    rfl

end

/-! ## Lexemes -/

/-- No letter that would make backslashes escape stands right before a quotation mark. -/
def Calm (before rest : List Char) : Prop := rest.head? = some '\'' → opensEscapes before = false

/-- The scan passes over the piece, and the piece does not end in a letter that belongs to a string. -/
structure IsPassed (depth : Int) (before piece rest : List Char) : Prop where
  passes : Passes depth before piece rest
  calm : Calm (piece.reverse ++ before) rest

section

variable {depth : Int} {before rest tail : List Char} {c : Char} {tok : Token}

theorem calm_of_getLast? {piece : List Char} {a : Char} (h : piece.getLast? = some a) (hsmall : a ≠ 'e')
    (hcapital : a ≠ 'E') : Calm (piece.reverse ++ before) rest := by
  intro _
  obtain ⟨init, rfl⟩ := List.getLast?_eq_some_iff.1 h
  simp [opensEscapes, hsmall, hcapital]

theorem endsInWord_append {cs : List Char} (hbefore : endsInWord before = true)
    (hcs : ∀ c ∈ cs, isWordChar c = true) : endsInWord (cs.reverse ++ before) = true := by
  rcases List.eq_nil_or_concat cs with rfl | ⟨init, a, rfl⟩
  · exact hbefore
  · rw [List.concat_eq_append] at hcs ⊢
    rw [List.reverse_append]
    exact hcs a (by simp)

/-- A letter inside a word opens no string. -/
theorem calm_run {cs : List Char} (hbefore : endsInWord before = true) (hcs : ∀ c ∈ cs, isWordChar c = true)
    (hne : cs ≠ []) : Calm (cs.reverse ++ before) rest := by
  intro _
  obtain ⟨init, a, rfl⟩ := (List.eq_nil_or_concat cs).resolve_left hne
  rw [List.concat_eq_append] at hcs ⊢
  have hinit : endsInWord (init.reverse ++ before) = true :=
    endsInWord_append hbefore fun x hx => hcs x (List.mem_append_left _ hx)
  rw [List.reverse_append, List.reverse_singleton, List.singleton_append, List.cons_append]
  show ((a = 'E' || a = 'e') && !endsInWord (init.reverse ++ before)) = false
  rw [hinit]
  simp

/-- The scan of characters takes the lexeme for what it is: backslashes escape in a string for both or there are
none, a dollar quotation opens for both, what a question mark has taken opens nothing and starts no word, an
operator holds no marks of a comment, and a comment up to the end of its line ends in a line feed. -/
def isSeen (before : List Char) (l : Lexeme) (rest : List Char) : Bool :=
  match l.token with
  | .string .escaped _ => '\\' ∉ l.source || !endsInWord before
  | .string .national _ | .string .hex _ => '\\' ∉ l.source
  | .dollar tag _ => !endsInWord before && hasPlainTag tag
  | .sign "?" => l.source.tail.all isQuiet
  | .custom _ => !Text.hasPiece ['-', '-'] l.source && !Text.hasPiece ['/', '*'] l.source
  | .gap =>
    !(['-', '-'].isPrefixOf l.source) || l.source.getLast? = some '\n' || rest = [] || rest.head? = some '\n'
  | _ => true

/-! ### Signs in a row -/

theorem IsPassed.signs {piece : List Char} (hpiece : ∀ a ∈ piece, isQuiet a = true ∨ a = '-' ∨ a = '/')
    (hfree : CommentFree rest piece) (hne : piece ≠ []) : IsPassed depth before piece rest := by
  obtain ⟨init, a, rfl⟩ := (List.eq_nil_or_concat piece).resolve_left hne
  rw [List.concat_eq_append] at *
  have hlast : isQuiet a = true ∨ a = '-' ∨ a = '/' := hpiece a (by simp)
  refine ⟨passes_signs hpiece hfree, calm_of_getLast? List.getLast?_concat ?_ ?_⟩
  · rintro rfl
    exact absurd hlast (by decide)
  · rintro rfl
    exact absurd hlast (by decide)

theorem IsPassed.quiet {piece : List Char} (hpiece : ∀ a ∈ piece, isQuiet a = true) (hne : piece ≠ []) :
    IsPassed depth before piece rest :=
  .signs (fun a ha => .inl (hpiece a ha)) (commentFree_quiet hpiece) hne

/-! ### Words -/

/-- The characters are a bare word that ends where the rest starts. -/
structure IsWord (c : Char) (tail rest : List Char) : Prop where
  start : isWordStart c = true
  part : ∀ x ∈ tail, isWordPart x = true
  stop : ∀ x ∈ rest.head?, isWordPart x = false
  letter : letterStep c (tail ++ rest) = none

theorem exists_isWord {l : Lexeme} {value : String} (h : l.Starts rest) (htoken : l.token = .word value false) :
    ∃ c tail, l.source = c :: tail ∧ value = String.ofList (c :: tail) ∧ IsWord c tail rest := by
  obtain ⟨c, tail, hsource, hvalue, hstart, hletter, htake⟩ := h.letters_of_word htoken
  have hpart : ∀ x ∈ tail, isWordPart x = true := by
    rw [← htake]
    exact List.all_eq_true.1 List.all_takeWhile
  refine ⟨c, tail, hsource, hvalue, hstart, hpart, ?_, hletter⟩
  intro x hx
  obtain ⟨more, rfl⟩ := List.head?_eq_some_iff.1 hx
  rw [List.takeWhile_append_of_pos hpart, List.append_right_eq_self] at htake
  exact Bool.eq_false_iff.2 fun h => by simp [h] at htake

namespace IsWord

theorem isWordChar (h : IsWord c tail rest) : ∀ x ∈ c :: tail, isWordChar x = true := by
  refine List.forall_mem_cons.2 ⟨isWordChar_of_isWordPart ?_, fun x hx => isWordChar_of_isWordPart (h.part x hx)⟩
  have hstart := h.start
  simp only [isWordStart, isWordPart, Bool.or_eq_true, decide_eq_true_eq] at hstart ⊢
  grind

theorem ne (h : IsWord c tail rest) {a : Char} (ha : isWordStart a = false) : c ≠ a :=
  ne_of_holds h.start ha

theorem opaqueLength_eq (h : IsWord c tail rest) (before cs : List Char) : opaqueLength before c cs = none :=
  opaqueLength_of_isWordChar (h.isWordChar c List.mem_cons_self)
    (fun hdollar => absurd hdollar (h.ne (by decide))) cs

/-- What goes on behind a word makes no keyword of it. -/
theorem not_isOneOf_run (h : IsWord c tail rest) (hnone : isOneOf keywords (String.ofList (c :: tail)) = false) :
    isOneOf keywords (String.ofList (c :: (tail ++ rest).takeWhile Sql.isWordChar)) = false := by
  rw [List.takeWhile_append_of_pos fun x hx => h.isWordChar x (List.mem_cons_of_mem c hx)]
  cases hmore : rest.takeWhile Sql.isWordChar with
  | nil => rwa [List.append_nil]
  | cons x xs =>
    -- The next character is no letter, and keywords are letters.
    have hx : x ∈ rest.head? := by
      obtain ⟨ys, hys⟩ := List.takeWhile_prefix Sql.isWordChar (l := rest)
      rw [← hys, hmore]
      rfl
    refine Bool.eq_false_iff.2 fun hkeyword => ?_
    have halpha : x.isAlpha = true := isAlpha_of_isOneOf hkeyword x (by simp)
    have hpart : isWordPart x = true := by simp [isWordPart, isAlphabetic_of_isAlpha halpha]
    exact absurd hpart (by rw [h.stop x hx]; decide)

/-- A word opens no string, since a letter that opens one is no word. -/
theorem calm (h : IsWord c tail rest) : Calm ((c :: tail).reverse ++ before) rest := by
  obtain ⟨hc, htail⟩ := List.forall_mem_cons.1 h.isWordChar
  have hletter := h.letter
  cases tail with
  | nil =>
    intro hquote
    obtain ⟨more, rfl⟩ := List.head?_eq_some_iff.1 hquote
    have hne : c ≠ 'e' ∧ c ≠ 'E' := by
      constructor
      · rintro rfl
        cases hletter
      · rintro rfl
        cases hletter
    simp [opensEscapes, hne.1, hne.2]
  | cons x tail =>
    rw [List.reverse_cons, List.append_assoc, List.singleton_append]
    exact calm_run hc htail (List.cons_ne_nil x tail)

end IsWord

theorem IsPassed.word (h : IsWord c tail rest)
    (hskip : endsInDot before = true ∨ depth ≠ 0 ∨ isOneOf keywords (String.ofList (c :: tail)) = false) :
    IsPassed depth before (c :: tail) rest := by
  obtain ⟨hc, htail⟩ := List.forall_mem_cons.1 h.isWordChar
  refine ⟨Passes.cons (passes_char (h.opaqueLength_eq _ _) (h.ne (by decide)) (h.ne (by decide)) ?_)
    (passes_run hc htail), h.calm⟩
  intro _ _
  exact hskip.imp_right (Or.imp_right h.not_isOneOf_run)

/-! ### Quotations and comments -/

theorem getLast?_of_closes {a : Char} (h : 0 < tail.length ∧ (tail ++ rest)[tail.length - 1]? = some a)
    (c : Char) : (c :: tail).getLast? = some a := by
  obtain ⟨hpos, hlast⟩ := h
  rw [List.getElem?_append_left (by omega), ← List.getLast?_eq_getElem?] at hlast
  rw [List.getLast?_cons, hlast]
  rfl

/-- What a character opens and a mark closes. -/
theorem IsPassed.closed {a : Char} (h : opaqueLength before c (tail ++ rest) = some tail.length)
    (hlast : (c :: tail).getLast? = some a) (hsmall : a ≠ 'e') (hcapital : a ≠ 'E') :
    IsPassed depth before (c :: tail) rest :=
  ⟨passes_closed h, calm_of_getLast? hlast hsmall hcapital⟩

/-- A quotation whose end the scan sees. -/
theorem IsPassed.quotation (hquote : quotedLength '\'' (opensEscapes before) (tail ++ rest) = tail.length)
    (hcloses : 0 < tail.length ∧ (tail ++ rest)[tail.length - 1]? = some '\'') :
    IsPassed depth before ('\'' :: tail) rest :=
  .closed (congrArg some hquote) (getLast?_of_closes hcloses _) (by decide) (by decide)

theorem IsPassed.doubleQuotation {t : List Char}
    (h : quotedBody '"' false (tail ++ rest) = some (t, tail.length)) :
    IsPassed depth before ('"' :: tail) rest :=
  .closed (congrArg some (quotedLength_of_quotedBody (by decide) h)) (getLast?_of_closes (quotedBody_closes h) _)
    (by decide) (by decide)

theorem IsPassed.append {piece piece' : List Char} (h : Passes depth before piece (piece' ++ rest))
    (h' : IsPassed depth (piece.reverse ++ before) piece' rest) : IsPassed depth before (piece ++ piece') rest := by
  refine ⟨h.append h'.passes, ?_⟩
  rw [List.reverse_append, List.append_assoc]
  exact h'.calm

theorem IsPassed.cons {piece : List Char} (h : Passes depth before [c] (piece ++ rest))
    (h' : IsPassed depth (c :: before) piece rest) : IsPassed depth before (c :: piece) rest :=
  .append h h'

/-- A letter before a mark is no keyword. -/
theorem passes_letter {mark : Char} (hc : c ∈ ['b', 'B', 'n', 'N', 'x', 'X', 'e', 'E', 'u', 'U'])
    (hmark : ¬ isWordChar mark = true) : Passes depth before [c] (mark :: rest) := by
  have hall : ∀ a ∈ ['b', 'B', 'n', 'N', 'x', 'X', 'e', 'E', 'u', 'U'],
      isWordChar a = true ∧ a ≠ '$' ∧ a ≠ '(' ∧ a ≠ ')' ∧ isOneOf keywords (String.ofList [a]) = false :=
    forall_mem_of_all (by decide)
  obtain ⟨hword, hdollar, hopening, hclosing, hkeyword⟩ := hall c hc
  refine passes_char (opaqueLength_of_isWordChar hword (fun h => absurd h hdollar) _) hopening hclosing ?_
  intro _ _
  rw [List.takeWhile_cons_of_neg hmark]
  exact .inr (.inr hkeyword)

theorem IsPassed.letterQuotation (hc : c ∈ ['b', 'B', 'n', 'N', 'x', 'X', 'e', 'E'])
    (hquote : quotedLength '\'' (opensEscapes (c :: before)) (tail ++ rest) = tail.length)
    (hcloses : 0 < tail.length ∧ (tail ++ rest)[tail.length - 1]? = some '\'') :
    IsPassed depth before (c :: '\'' :: tail) rest :=
  .cons (passes_letter (List.mem_append_left ['u', 'U'] hc) (by decide)) (.quotation hquote hcloses)

/-- Without backslashes a quotation ends where the scan says, whatever it makes of them. -/
theorem quotedLength_of_plain {escapes : Bool} (h : quotedLength '\'' true (tail ++ rest) = tail.length)
    (hplain : escapes = true ∨ '\\' ∉ tail) : quotedLength '\'' escapes (tail ++ rest) = tail.length := by
  cases escapes with
  | true => exact h
  | false =>
    rw [quotedLength_of_not_mem (by decide), h]
    rw [h, List.take_left]
    exact hplain.resolve_left Bool.false_ne_true

/-- Backslashes escape for the scan where they have to. -/
theorem escapes_of_isSeen {t : String} (hc : c = 'e' ∨ c = 'E')
    (hseen : isSeen before ⟨.string .escaped t, c :: '\'' :: tail⟩ rest = true) :
    opensEscapes (c :: before) = true ∨ '\\' ∉ tail := by
  by_cases hmem : '\\' ∈ tail
  · left
    have hbefore : endsInWord before = false := by simpa [isSeen, hmem] using hseen
    show ((c = 'E' || c = 'e') && !endsInWord before) = true
    rw [hbefore]
    rcases hc with rfl | rfl <;> rfl
  · exact .inr hmem

/-- A string after a letter. -/
theorem IsPassed.letter (h : letterStep c (tail ++ rest) = some (.ok (tok, tail.length)))
    (hseen : isSeen before ⟨tok, c :: tail⟩ rest = true) : IsPassed depth before (c :: tail) rest := by
  generalize hx : tail ++ rest = x at h
  fun_cases letterStep c x
  case case1 | case2 =>
    obtain ⟨t, n, hbody, rfl, hlength⟩ := exists_of_stringStep (Option.some.inj h)
    obtain ⟨tail, rfl, rfl⟩ := exists_cons_of_append hx (by omega)
    obtain rfl : n = tail.length := by rw [List.length_cons] at hlength; omega
    exact .letterQuotation (by decide) (quotedLength_of_quotedBody (by decide) hbody) (quotedBody_closes hbody)
  case case3 | case4 =>
    obtain ⟨t, n, hbody, rfl, hlength⟩ := exists_of_stringStep (Option.some.inj h)
    obtain ⟨tail, rfl, rfl⟩ := exists_cons_of_append hx (by omega)
    obtain rfl : n = tail.length := by rw [List.length_cons] at hlength; omega
    exact .cons (passes_letter (by decide) (by decide)) (.doubleQuotation hbody)
  case case5 | case6 | case7 | case8 =>
    obtain ⟨t, n, hbody, rfl, hlength⟩ := exists_of_stringStep (Option.some.inj h)
    obtain ⟨tail, rfl, rfl⟩ := exists_cons_of_append hx (by omega)
    obtain rfl : n = tail.length := by rw [List.length_cons] at hlength; omega
    have hplain : '\\' ∉ tail := by
      intro hmem
      simp [isSeen, hmem] at hseen
    exact .letterQuotation (by decide)
      (quotedLength_of_plain (quotedLength_of_quotedBody (by decide) hbody) (.inr hplain)) (quotedBody_closes hbody)
  case case9 | case10 =>
    rename_i body
    have hstring := Option.some.inj h
    cases hbody : escapedBody body with
    | none =>
      rw [hbody] at hstring
      cases hstring
    | some text =>
      obtain ⟨t, n⟩ := text
      rw [hbody] at hstring
      obtain ⟨rfl, hlength⟩ := Prod.mk.inj (Except.ok.inj hstring)
      obtain ⟨tail, rfl, rfl⟩ := exists_cons_of_append hx (by omega)
      obtain rfl : n = tail.length := by rw [List.length_cons] at hlength; omega
      have hplain := escapes_of_isSeen (by decide) hseen
      exact .letterQuotation (by decide) (quotedLength_of_plain (quotedLength_of_escapedBody hbody) hplain)
        (escapedBody_closes hbody)
  case case11 | case12 =>
    obtain ⟨⟨t, n⟩, hbody, heq⟩ := bind_eq_ok (Option.some.inj h)
    obtain ⟨rfl, hlength⟩ := Prod.mk.inj (Except.ok.inj heq)
    obtain ⟨hlt, hcloses⟩ := unicodeBody_closes hbody
    obtain ⟨tail₁, rfl, hx₁⟩ := exists_cons_of_append hx (by omega)
    rw [List.length_cons] at hlength
    obtain ⟨tail, rfl, rfl⟩ := exists_cons_of_append hx₁ (by omega)
    rw [List.length_cons] at hlength
    obtain rfl : n = tail.length + 3 := by omega
    have hquote : quotedLength '\'' false (tail ++ rest) = tail.length := by
      have := quotedLength_of_unicodeBody hbody
      omega
    have hend : 0 < tail.length ∧ (tail ++ rest)[tail.length - 1]? = some '\'' := by
      rw [Nat.add_sub_cancel] at hcloses
      exact ⟨by omega, hcloses⟩
    exact .cons (passes_letter (by decide) (by decide))
      (.cons (passes_cons_quiet (by decide)) (.quotation hquote hend))
  case case13 =>
    unfold letterStep at h
    grind

/-! ### Numbers -/

theorem isWordChar_of_isDigit (h : c.isDigit = true) : isWordChar c = true := by
  simp [isWordChar, Char.isAlphanum, h]

theorem isQuiet_of_isDigit (h : c.isDigit = true) : isQuiet c = true := by
  have hne {a : Char} (ha : a.isDigit = false) : c ≠ a := ne_of_holds h ha
  have halpha : c.isAlpha = false := by
    have hnine : c ≤ '9' := of_decide_eq_true (Bool.and_eq_true_iff.1 h).2
    refine Bool.eq_false_iff.2 fun halpha => ?_
    rcases isAlpha_iff.1 halpha with ⟨hle, -⟩ | ⟨hle, -⟩
    · exact absurd (Char.le_trans hle hnine) (by decide)
    · exact absurd (Char.le_trans hle hnine) (by decide)
  simp [isQuiet, halpha, hne]

/-- The text that is already read ends inside a number. -/
def endsInNumber (before : List Char) : Bool := endsInWord before || endsInDot before

theorem endsInNumber_append {m : List Char} (hm : ∀ a ∈ m, a.isDigit = true ∨ a = '.') (hne : m ≠ []) :
    endsInNumber (m.reverse ++ before) = true := by
  obtain ⟨init, a, rfl⟩ := (List.eq_nil_or_concat m).resolve_left hne
  rw [List.concat_eq_append] at hm ⊢
  rw [List.reverse_append, List.reverse_singleton, List.singleton_append, List.cons_append]
  rcases hm a (by simp) with ha | rfl
  · exact Bool.or_eq_true_iff.2 (.inl (isWordChar_of_isDigit ha))
  · exact Bool.or_eq_true_iff.2 (.inr rfl)

/-- A letter of a number starts no word that counts. -/
theorem passes_numberLetter (hbefore : endsInNumber before = true) (hc : c ∈ ['e', 'E', 'L']) :
    Passes depth before [c] rest := by
  have hall : ∀ a ∈ ['e', 'E', 'L'], isWordChar a = true ∧ a ≠ '$' ∧ a ≠ '(' ∧ a ≠ ')' :=
    forall_mem_of_all (by decide)
  obtain ⟨hword, hdollar, hopening, hclosing⟩ := hall c hc
  refine passes_char (opaqueLength_of_isWordChar hword (fun h => absurd h hdollar) _) hopening hclosing ?_
  intro _ hfree
  rw [endsInNumber, hfree, Bool.false_or] at hbefore
  exact .inl hbefore

/-- Digits, which may end in a point, and the digits of an exponent. -/
theorem IsPassed.digits {m : List Char} (hm : ∀ a ∈ m, a.isDigit = true ∨ a = '.') (hne : m ≠ []) :
    IsPassed depth before m rest := by
  refine .quiet (fun a ha => ?_) hne
  rcases hm a ha with ha | rfl
  · exact isQuiet_of_isDigit ha
  · decide

theorem IsPassed.ofExponent {cs : List Char} (hbefore : endsInNumber before = true) (hne : exponent cs ≠ []) :
    IsPassed depth before (exponent cs) rest ∧ endsInNumber ((exponent cs).reverse ++ before) = true := by
  obtain ⟨e, sign, digits, rest', -, hexponent, he, hsign, hne, hdigits⟩ := (exponent_cases cs).resolve_left hne
  have hdigits : ∀ d ∈ digits, d.isDigit = true ∨ d = '.' := fun d hd => .inl (hdigits d hd)
  rw [hexponent]
  have hmark : Passes depth before (e :: sign) (digits ++ rest) := by
    refine Passes.cons (passes_numberLetter hbefore (by rcases he with rfl | rfl <;> decide)) ?_
    simp only [List.mem_cons, List.not_mem_nil, or_false] at hsign
    rcases hsign with rfl | rfl | rfl
    · exact .nil
    · exact passes_cons_quiet (by decide)
    · -- A digit comes after the sign, so it opens no comment.
      obtain ⟨d, ds, rfl⟩ := List.exists_cons_of_ne_nil hne
      refine passes_signs (forall_mem_of_all (by decide)) ⟨?_, fun h => absurd h.1 (by decide), trivial⟩
      rintro ⟨-, ⟨⟩⟩
      exact absurd (hdigits '-' List.mem_cons_self) (by decide)
  rw [← List.cons_append]
  refine ⟨.append hmark (.digits hdigits hne), ?_⟩
  rw [List.reverse_append, List.append_assoc]
  exact endsInNumber_append hdigits hne

/-- The digits of a number and its exponent. -/
theorem IsPassed.numeral {m xs : List Char} (hm : ∀ a ∈ m, a.isDigit = true ∨ a = '.') (hne : m ≠ []) :
    IsPassed depth before (m ++ exponent xs) rest ∧
      endsInNumber ((m ++ exponent xs).reverse ++ before) = true := by
  by_cases hnil : exponent xs = []
  · rw [hnil, List.append_nil]
    exact ⟨.digits hm hne, endsInNumber_append hm hne⟩
  · have hmantissa : endsInNumber (m.reverse ++ before) = true := endsInNumber_append hm hne
    obtain ⟨hpassed, hends⟩ : IsPassed depth (m.reverse ++ before) (exponent xs) rest ∧ _ :=
      IsPassed.ofExponent hmantissa hnil
    rw [List.reverse_append, List.append_assoc]
    exact ⟨.append (IsPassed.digits hm hne).passes hpassed, hends⟩

theorem isWordChar_of_digitValue? {base : Nat} (h : (digitValue? base c).isSome = true) : isWordChar c = true := by
  unfold digitValue? at h
  dsimp only at h
  split at h
  · next hdigit => exact isWordChar_of_isDigit hdigit
  · split at h
    · next hab =>
      exact isWordChar_of_start (.inl (isAlpha_iff.2 (.inr ⟨hab.1, Char.le_trans hab.2 (by decide)⟩)))
    · split at h
      · next hab =>
        exact isWordChar_of_start (.inl (isAlpha_iff.2 (.inl ⟨hab.1, Char.le_trans hab.2 (by decide)⟩)))
      · cases h

/-- A number or a point. -/
theorem IsPassed.number (hc : c.isDigit = true ∨ c = '.')
    (h : (numberFrom (c :: (tail ++ rest))).2 - 1 = tail.length) : IsPassed depth before (c :: tail) rest := by
  rcases exists_of_numberFrom hc h with ⟨digits, hsource, hdigits⟩ | ⟨m, xs, long, hsource, hne, hm, hlong⟩
  · have hrun : ∀ d ∈ 'x' :: digits, isWordChar d = true :=
      List.forall_mem_cons.2 ⟨by decide, fun d hd => isWordChar_of_digitValue? (hdigits d hd)⟩
    rw [hsource]
    refine ⟨Passes.cons (passes_cons_quiet (by decide)) (passes_run rfl hrun), ?_⟩
    rw [List.reverse_cons, List.append_assoc, List.singleton_append]
    exact calm_run rfl hrun (List.cons_ne_nil _ _)
  · obtain ⟨hpassed, hends⟩ : IsPassed depth before (m ++ exponent xs) (long ++ rest) ∧ _ :=
      IsPassed.numeral hm hne
    rw [hsource]
    rcases hlong with rfl | rfl
    · rw [List.append_nil]
      exact hpassed
    · refine .append hpassed.passes ⟨passes_numberLetter hends (by decide), ?_⟩
      exact calm_of_getLast? rfl (by decide) (by decide)

/-! ### Dollar signs -/

theorem isWordChar_of_isTagPart (h : isTagPart c = true) : isWordChar c = true := by
  simp only [isTagPart, Text.isAlphabetic, Text.isNumeric, Text.isDecimalDigit, Bool.or_eq_true, Bool.and_eq_true,
    decide_eq_true_eq] at h
  simp only [isWordChar, Char.isAlphanum, Bool.or_eq_true, decide_eq_true_eq]
  grind

/-- A dollar sign starts a quotation that ends in one, or a parameter. -/
theorem dollarStep_cases {cs : List Char} {k : Nat} (h : dollarStep cs = .ok (tok, k)) :
    (∃ tag value, tok = .dollar tag value) ∧ 0 < k ∧ cs[k - 1]? = some '$' ∨
      (∃ text, tok = .placeholder text) ∧ k = (cs.takeWhile isTagPart).length := by
  by_cases huntagged : ∃ rest, cs = '$' :: rest
  · obtain ⟨rest, rfl⟩ := huntagged
    rw [dollarStep] at h
    split at h
    · next text n hbody =>
      cases h
      exact .inl ⟨⟨_, _, rfl⟩, closes_cons '$' (untaggedBody_closes hbody)⟩
    · cases h
  · rw [dollarStep_of_ne fun rest hrest => huntagged ⟨rest, hrest⟩] at h
    have hcloses := taggedStep_closes h
    rw [taggedStep] at h
    dsimp only at h
    split at h
    · split at h
      · cases h
        refine .inl ⟨⟨_, _, rfl⟩, by omega, ?_⟩
        rcases hcloses with ⟨-, hlast⟩ | hlength
        · exact hlast
        · omega
      · cases h
    · cases h
      exact .inr ⟨⟨_, rfl⟩, rfl⟩

/-- A dollar quotation or a parameter. -/
theorem IsPassed.dollar (h : dollarStep (tail ++ rest) = .ok (tok, tail.length))
    (hseen : isSeen before ⟨tok, '$' :: tail⟩ rest = true) : IsPassed depth before ('$' :: tail) rest := by
  rcases dollarStep_cases h with ⟨⟨tag, value, rfl⟩, hcloses⟩ | ⟨⟨text, rfl⟩, hlength⟩
  · obtain ⟨hbefore, htag⟩ : endsInWord before = false ∧ hasPlainTag tag = true := by simpa [isSeen] using hseen
    refine .closed ?_ (getLast?_of_closes hcloses _) (by decide) (by decide)
    show (if endsInWord before = true then none else dollarLength (tail ++ rest)) = _
    rw [hbefore, if_neg Bool.false_ne_true, dollarLength_of_dollarStep h htag]
  · have htail : ∀ d ∈ tail, isWordChar d = true := by
      intro d hd
      have htake : (tail ++ rest).takeWhile isTagPart = tail := by
        obtain ⟨more, hmore⟩ := List.takeWhile_prefix isTagPart (l := tail ++ rest)
        exact List.append_inj_left hmore hlength.symm
      rw [← htake] at hd
      exact isWordChar_of_isTagPart (List.all_eq_true.1 List.all_takeWhile d hd)
    have hopens : opaqueLength before '$' (tail ++ rest) = none :=
      opaqueLength_eq_none (by decide) (by decide) (fun h => absurd h (by decide)) (fun h => absurd h (by decide))
        fun _ => .inr (dollarLength_of_placeholder h)
    refine ⟨Passes.cons (passes_char hopens (by decide) (by decide) fun h => absurd h (by decide))
      (passes_run rfl htail), ?_⟩
    cases tail with
    | nil =>
      have hlast : ['$'].getLast? = some '$' := rfl
      exact calm_of_getLast? hlast (by decide) (by decide)
    | cons d tail =>
      rw [List.reverse_cons, List.append_assoc, List.singleton_append]
      exact calm_run rfl htail (List.cons_ne_nil d tail)

/-! ### Gaps -/

theorem isQuiet_of_isBlank (h : isBlank c = true) : isQuiet c = true := by
  have hall : ∀ s ∈ stops, isBlank s = true → isQuiet s = true := forall_mem_of_all (by decide)
  exact hall c (mem_stops_of_isBlank h) h

theorem IsPassed.blank (h : isBlank c = true) : IsPassed depth before [c] rest := by
  have hne {a : Char} (ha : isBlank a = false) : c ≠ a := ne_of_holds h ha
  exact ⟨passes_cons_quiet (isQuiet_of_isBlank h), calm_of_getLast? rfl (hne (by decide)) (hne (by decide))⟩

theorem IsPassed.blockComment (h : blockComment 1 (tail ++ rest) = some tail.length) :
    IsPassed depth before ('/' :: '*' :: tail) rest := by
  refine .closed (a := '/') ?_ ?_ (by decide) (by decide)
  · show some ((Lexer.blockComment 1 (tail ++ rest)).getD _ + 1) = _
    rw [h]
    rfl
  · rw [List.getLast?_cons, getLast?_of_closes (blockComment_closes h) '*']
    rfl

/-- A comment up to the end of its line. -/
theorem IsPassed.lineComment (h : lineComment (tail ++ rest) = tail.length)
    (hseen : isSeen before ⟨.gap, '-' :: '-' :: tail⟩ rest = true) :
    IsPassed depth before ('-' :: '-' :: tail) rest := by
  have hend : tail.getLast? = some '\n' ∨ rest = [] ∨ ∃ rest', rest = '\n' :: rest' := by
    have hcases : ('-' :: '-' :: tail).getLast? = some '\n' ∨ rest = [] ∨ rest.head? = some '\n' := by
      simpa [isSeen, or_assoc] using hseen
    rcases hcases with hlast | hnil | hhead
    · left
      cases tail with
      | nil => exact absurd (Option.some.inj hlast) (by decide)
      | cons d tail => simpa using hlast
    · exact .inr (.inl hnil)
    · refine .inr (.inr ?_)
      cases rest with
      | nil => cases hhead
      | cons d rest => exact ⟨rest, by rw [Option.some.inj hhead]⟩
  have hopens (xs : List Char) : opaqueLength before '-' ('-' :: xs) =
      some (min ((xs.takeWhile (· ≠ '\n')).length + 1) xs.length + 1) := by
    show some (min ((('-' :: xs).takeWhile (· ≠ '\n')).length + 1) ('-' :: xs).length) = _
    rw [List.takeWhile_cons_of_pos (by decide), List.length_cons, List.length_cons, Nat.add_min_add_right]
  refine ⟨?_, ?_⟩
  · rcases lineComment_end h hend with hsame | ⟨⟨rest', rfl⟩, hlonger⟩
    · refine passes_closed ?_
      rw [List.cons_append, hopens, hsame]
      rfl
    · -- The scan goes on behind the line feed, which is passed over by itself as well.
      have hboth : Passes depth before ('-' :: ('-' :: tail ++ ['\n'])) rest' := by
        refine passes_closed ?_
        rw [List.cons_append, List.cons_append, List.append_assoc, hopens, List.singleton_append, hlonger]
        simp
      exact Passes.of_append hboth (passes_cons_quiet (by decide))
  · rcases cases_of_lineComment h with ⟨-, rfl⟩ | ⟨init, nl, rfl, hnl, -⟩
    · rintro ⟨⟩
    · refine calm_of_getLast? (a := nl) ?_ ?_ ?_
      · rw [← List.cons_append, ← List.cons_append, List.getLast?_concat]
      · rcases hnl with rfl | rfl <;> decide
      · rcases hnl with rfl | rfl <;> decide

/-! ### Operators -/

theorem isQuiet_of_isOperatorPart (h : isOperatorPart c = true) : isQuiet c = true ∨ c = '-' ∨ c = '/' := by
  have hall : ∀ a ∈ ['+', '-', '*', '/', '<', '>', '=', '~', '!', '@', '#', '%', '^', '&', '|', '`', '?'],
      isQuiet a = true ∨ a = '-' ∨ a = '/' := forall_mem_of_all (by decide)
  exact hall c (by simpa [isOperatorPart] using h)

/-- An operator that the dialect names, with what makes it longer. -/
theorem commentFree_named {n : Lexer.Named} (hn : n ∈ named) (hplain : IsPlain c (tail ++ rest))
    (hstarts : n.spelling <+: c :: (tail ++ rest)) (hread : n.read (tail ++ rest) = (tok, tail.length))
    (hseen : isSeen before ⟨tok, c :: tail⟩ rest = true) :
    (∀ a ∈ c :: tail, isQuiet a = true ∨ a = '-' ∨ a = '/') ∧ CommentFree rest (c :: tail) := by
  have hnamed : ∀ n ∈ named, n.spelling ≠ [] ∧
      (n.spelling.all fun a => decide (isQuiet a = true ∨ a = '-' ∨ a = '/')) = true ∧
      Text.hasPiece ['-', '-'] n.spelling = false ∧ Text.hasPiece ['/', '*'] n.spelling = false ∧
      (n.grows = true ∨ n.spelling = ['/'] ∨ n.spelling.getLast? ≠ some '-' ∧ n.spelling.getLast? ≠ some '/') := by
    decide
  obtain ⟨hne, hquiet, hline, hblock, hend⟩ := hnamed n hn
  obtain ⟨run, hsource, hrun, hcustom, hstops⟩ := exists_run_of_read hstarts hne hread
  have hmarks : Text.hasPiece ['-', '-'] (c :: tail) = false ∧ Text.hasPiece ['/', '*'] (c :: tail) = false := by
    rcases hcustom with rfl | ⟨-, text, rfl⟩
    · rw [hsource, List.append_nil]
      exact ⟨hline, hblock⟩
    · simpa [isSeen] using hseen
  refine ⟨?_, commentFree_of (mt Text.hasPiece_iff.2 (Bool.eq_false_iff.1 hmarks.1))
    (mt Text.hasPiece_iff.2 (Bool.eq_false_iff.1 hmarks.2)) ?_⟩
  · rw [hsource]
    exact List.forall_mem_append.2 ⟨forall_mem_of_all hquiet, fun a ha => isQuiet_of_isOperatorPart (hrun a ha)⟩
  · intro a ha b hb
    by_cases hgrows : n.grows = true
    · -- The operator took all characters that make it longer.
      have hb : isOperatorPart b = false := by
        cases rest with
        | nil => cases hb
        | cons x rest =>
          obtain rfl := Option.some.inj hb
          exact Bool.eq_false_iff.2 fun hx => by simpa [hx] using hstops hgrows
      have hne {x : Char} (hx : isOperatorPart x = true) : b ≠ x := (ne_of_holds hx hb).symm
      exact ⟨fun h => hne (by decide) h.2, fun h => hne (by decide) h.2⟩
    · obtain rfl : run = [] := hcustom.resolve_right fun h => hgrows h.1
      rw [List.append_nil] at hsource
      rcases hend.resolve_left hgrows with hslash | ⟨hminus, hslash⟩
      · obtain ⟨rfl, rfl⟩ := List.cons.inj (hsource.trans hslash)
        obtain rfl := Option.some.inj ha
        refine ⟨fun h => absurd h.1 (by decide), ?_⟩
        rintro ⟨-, rfl⟩
        obtain ⟨more, rfl⟩ := List.head?_eq_some_iff.1 hb
        exact hplain.blockComment more rfl rfl
      · rw [hsource] at ha
        refine ⟨?_, ?_⟩
        · rintro ⟨rfl, -⟩
          exact hminus ha
        · rintro ⟨rfl, -⟩
          exact hslash ha

/-- An operator, and a question mark with what it has taken. -/
theorem IsPassed.operator (hplain : IsPlain c (tail ++ rest))
    (h : operatorStep c (tail ++ rest) = some (tok, tail.length))
    (hseen : isSeen before ⟨tok, c :: tail⟩ rest = true) : IsPassed depth before (c :: tail) rest := by
  rcases operatorStep_cases h with ⟨n, hn, hstarts, hread⟩ | ⟨rfl, rfl, -⟩
  · obtain ⟨hquiet, hfree⟩ := commentFree_named hn hplain hstarts hread hseen
    exact .signs hquiet hfree (List.cons_ne_nil _ _)
  · have htail : ∀ a ∈ tail, isQuiet a = true := by simpa [isSeen] using hseen
    exact .quiet (List.forall_mem_cons.2 ⟨by decide, htail⟩) (List.cons_ne_nil _ _)

end

end IntoClause
end Routine
