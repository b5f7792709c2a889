import Routine.Layout.Declaration
import Routine.Proofs.QuotedLengths
import Routine.Proofs.Rejoining

/-!
# Emitted names

Where a name is written, a reader should find one identifier, and it should stand for the name
(`Identifier.IsFor`, `Identifier.Opens`). A name that is no plain word has only one such identifier, the name between
quotes with its own quotes doubled, and no text with the name in front starts with that (`opens_iff`). So a name that
is written as it stands reads back exactly when it needs no quotes (`emitted_name_reads_back_iff`), while `quote`
writes every name in a way that reads back (`isFor_quote`).
-/

namespace Routine

/-! ## Identifiers for a name -/

namespace Identifier

open Sql (Lexeme)

/-- The lexeme is an identifier for the name, between quotes if the name needs them. -/
structure Names (l : Lexeme) (name : String) : Prop where
  isWord : ∃ value inQuotes, l.token = .word value inQuotes ∧ (needsQuoting name = true → inQuotes = true)
  reads : normalize (String.ofList l.source) = name

/-- The text starts with an identifier for the name. -/
def Opens (name : String) (text : List Char) : Prop :=
  ∃ l rest, text = l.source ++ rest ∧ l.Starts rest ∧ Names l name

/-- The text is one identifier for the name. -/
def IsFor (name text : String) : Prop :=
  ∃ l : Lexeme, l.source = text.toList ∧ l.Starts [] ∧ Names l name

end Identifier

/-! ## Doubled marks -/

namespace Text

theorem doubled_cons_mark (mark : Char) (cs : List Char) :
    doubled mark (mark :: cs) = mark :: mark :: doubled mark cs := by
  simp [doubled]

theorem doubled_cons_of_ne {mark c : Char} (hc : c ≠ mark) (cs : List Char) :
    doubled mark (c :: cs) = c :: doubled mark cs := by
  simp [doubled, hc]

theorem undoubled_cons_of_ne {mark c : Char} (hc : c ≠ mark) (cs : List Char) :
    undoubled mark (c :: cs) = c :: undoubled mark cs := by
  cases cs with
  | nil => rfl
  | cons d ds => simp [undoubled, hc]

theorem undoubled_doubled (mark : Char) (cs : List Char) : undoubled mark (doubled mark cs) = cs := by
  induction cs with
  | nil => rfl
  | cons c cs ih =>
    by_cases hc : c = mark
    · subst hc
      rw [doubled_cons_mark, undoubled, if_pos ⟨rfl, rfl⟩, ih]
    · rw [doubled_cons_of_ne hc, undoubled_cons_of_ne hc, ih]

/-- A text with its marks doubled, behind one mark or more, never starts with the text and something else than a
mark. -/
theorem doubled_ne_append {mark b : Char} (hb : mark ≠ b) (count : Nat) (cs xs ys : List Char) :
    List.replicate (count + 1) mark ++ (doubled mark cs ++ xs) ≠ cs ++ b :: ys := by
  induction cs generalizing count with
  | nil =>
    intro heq
    exact hb (List.cons.inj heq).1
  | cons c cs ih =>
    intro heq
    rw [List.replicate_succ, List.cons_append, List.cons_append] at heq
    obtain ⟨rfl, htail⟩ := List.cons.inj heq
    -- The two marks for the one that was read join those in front.
    refine ih (count + 1) ?_
    rw [← htail, doubled_cons_mark, List.replicate_succ', List.replicate_succ']
    simp

end Text

/-! ## Words between quotes -/

namespace Sql
namespace Lexer

open Text (doubled)

/-- A body between marks, in which nothing is escaped, is its text with the marks in it doubled. -/
theorem quotedBody_eq_some_iff {mark : Char} {cs t : List Char} {n : Nat} :
    quotedBody mark false cs = some (t, n) ↔
      ∃ rest, cs = doubled mark t ++ mark :: rest ∧ n = (doubled mark t).length + 1 ∧
        rest.head? ≠ some mark := by
  constructor
  · intro h
    induction cs using quotedBody.induct mark false generalizing t n with
    | case1 => cases h
    | case2 ds ih =>
      simp [quotedBody_mark] at h
      obtain ⟨text, m, hm, rfl, rfl⟩ := h
      obtain ⟨rest, rfl, rfl, hrest⟩ := ih hm
      exact ⟨rest, by simp [Text.doubled_cons_mark], by simp [Text.doubled_cons_mark], hrest⟩
    | case3 d ds hd =>
      simp [quotedBody_mark, hd] at h
      obtain ⟨rfl, rfl⟩ := h
      exact ⟨d :: ds, rfl, rfl, by simpa using hd⟩
    | case4 =>
      simp [quotedBody_mark] at h
      obtain ⟨rfl, rfl⟩ := h
      exact ⟨[], rfl, rfl, by simp⟩
    | case5 c hc hescape d ds ih => exact absurd hescape.2 (by decide)
    | case6 c hc hescape => exact absurd hescape.2 (by decide)
    | case7 c cs hc hescape ih =>
      simp [quotedBody_plain hc hescape] at h
      obtain ⟨text, m, hm, rfl, rfl⟩ := h
      obtain ⟨rest, rfl, rfl, hrest⟩ := ih hm
      exact ⟨rest, by simp [Text.doubled_cons_of_ne hc], by simp [Text.doubled_cons_of_ne hc], hrest⟩
  · rintro ⟨rest, rfl, rfl, hrest⟩
    induction t with
    | nil =>
      show quotedBody mark false (mark :: rest) = some ([], 1)
      rw [quotedBody_mark, if_neg hrest]
    | cons c t ih =>
      by_cases hc : c = mark
      · subst hc
        simp [Text.doubled_cons_mark, quotedBody_mark, ih]
      · simp [Text.doubled_cons_of_ne hc, quotedBody_plain hc, ih]

theorem letterStep_eq_none {cs : List Char} (h : ∀ d ∈ cs.head?, d ∉ ['\'', '"', '&']) (c : Char) :
    letterStep c cs = none := by
  fun_cases letterStep c cs
  case case13 => rfl
  all_goals exact absurd (by decide) (h _ rfl)

/-- A word between quotes starts with a quote. -/
theorem quotedBody_of_step {c : Char} {cs : List Char} {value : String} {k : Nat}
    (h : step c cs = .ok (.word value true, k)) :
    c = '"' ∧ quotedBody '"' false cs = some (value.toList, k) := by
  have hword : (Token.word value true).isGapOrWord = true := rfl
  cases reads_of_step h with
  | quotedWord hc hbody htok =>
    cases htok
    exact ⟨hc, by rw [String.toList_ofList, hbody]⟩
  | quotation hc hstring =>
    obtain ⟨text, n, -, hother, -⟩ := exists_of_stringStep hstring
    cases hother
  | dollar hc hdollar => rcases exists_of_dollarStep hdollar with ⟨tag, text, hother⟩ | ⟨name, hother⟩ <;> cases hother
  | number hnumber htok hk =>
    rw [htok, numberFrom_not_gapOrWord] at hword
    cases hword
  | letter hnumber hletter =>
    obtain ⟨⟨kind, text, hother⟩, -⟩ := letterStep_closes hletter
    cases hother
  | operator hplain hoperator => cases operatorStep_not_gapOrWord hoperator
  | word hletter hstart hread => cases hread
  | lineBreak hc hcs hother hk | lineComment hc hcs hother hk | blank hblank hother hk => cases hother
  | blockComment hc hcs hcomment hother hk => cases hother
  | punctuation hsign hother hk => cases hother
  | other hplain hsign hoperator hstart hother hk => cases hother

end Lexer

namespace Lexeme

open Lexer

/-- The words between quotes are the enclosed names, as long as no quote follows. -/
theorem starts_quoted_iff {value : String} {source more : List Char} :
    Starts ⟨.word value true, source⟩ more ↔
      source = (Identifier.enclose value).toList ∧ more.head? ≠ some '"' := by
  rw [Identifier.enclose, String.toList_ofList, List.cons_append]
  constructor
  · rintro ⟨c, cs, rfl, hstep⟩
    obtain ⟨rfl, hbody⟩ := quotedBody_of_step hstep
    obtain ⟨rest, htext, hlength, hrest⟩ := quotedBody_eq_some_iff.1 hbody
    rw [← List.singleton_append, ← List.append_assoc] at htext
    obtain ⟨rfl, rfl⟩ := List.append_inj htext (by simpa using hlength)
    exact ⟨rfl, hrest⟩
  · rintro ⟨rfl, hmore⟩
    refine ⟨'"', _, rfl, ?_⟩
    have hbody : quotedBody '"' false (Text.doubled '"' value.toList ++ ['"'] ++ more) =
        some (value.toList, (Text.doubled '"' value.toList ++ ['"']).length) :=
      quotedBody_eq_some_iff.2 ⟨more, by simp, by simp, hmore⟩
    simp only [step_doubleQuote, hbody, String.ofList_toList]

end Lexeme
end Sql

/-! ## Names that read back -/

namespace Identifier

open Sql Lexer
open Text (isBlank)

theorem strip_eq_self {cs : List Char} (h : IntoClause.IsTrimmed cs) : Text.strip cs = cs := by
  have hstrip := @Assignment.strip_append [] cs [] nofun h nofun
  rwa [List.nil_append, List.append_nil] at hstrip

theorem isTrimmed_enclose (name : String) : IntoClause.IsTrimmed (enclose name).toList := by
  rw [enclose, String.toList_ofList]
  constructor
  · rintro c ⟨⟩
    decide
  · intro c hc
    rw [List.getLast?_concat] at hc
    cases hc
    decide

theorem normalize_enclose (name : String) : normalize (enclose name) = name := by
  rw [normalize, readPart, strip_eq_self (isTrimmed_enclose name)]
  simp [enclose, inner?, Text.undoubled_doubled]

/-- The letters of a plain name. -/
theorem exists_of_not_needsQuoting {name : String} (h : needsQuoting name = false) :
    ∃ c cs, name.toList = c :: cs ∧ isHeadChar c = true ∧ ∀ d ∈ c :: cs, isTailChar d = true := by
  rw [needsQuoting, Bool.not_eq_false', isPlain] at h
  split at h
  · cases h
  · next c cs heq =>
    simp only [Bool.and_eq_true, List.all_eq_true] at h
    obtain ⟨⟨hc, hcs⟩, -⟩ := h
    have hhead : isTailChar c = true := by
      simp only [isHeadChar, isTailChar, Bool.or_eq_true] at hc ⊢
      grind
    exact ⟨c, cs, heq, hc, List.forall_mem_cons.2 ⟨hhead, hcs⟩⟩

theorem isWordStart_of_isHeadChar {c : Char} (h : isHeadChar c = true) : isWordStart c = true := by
  rcases Bool.or_eq_true_iff.1 h with hlower | hmark
  · simp [isWordStart, IntoClause.isAlphabetic_of_isAlpha (Bool.or_eq_true_iff.2 (.inr hlower))]
  · rw [of_decide_eq_true hmark]
    decide

/-- A character of a plain name is one of a word, and a small one. -/
theorem spec_of_isTailChar {c : Char} (h : isTailChar c = true) :
    isWordPart c = true ∧ isBlank c = false ∧ Text.lower c = c ∧ c ∉ ['\'', '"', '&'] := by
  have hascii : c.toNat < 0x80 := by
    simp only [isTailChar, Bool.or_eq_true, decide_eq_true_eq] at h
    rcases h with ((hlower | hdigit) | rfl) | rfl
    · have hle : c ≤ 'z' := of_decide_eq_true (Bool.and_eq_true_iff.1 hlower).2
      exact Nat.lt_of_le_of_lt (UInt32.le_iff_toNat_le.1 hle) (by decide)
    · have hle : c ≤ '9' := of_decide_eq_true (Bool.and_eq_true_iff.1 hdigit).2
      exact Nat.lt_of_le_of_lt (UInt32.le_iff_toNat_le.1 hle) (by decide)
    · decide
    · decide
  exact Text.of_toNat_lt
    (p := fun c => isTailChar c = true →
      isWordPart c = true ∧ isBlank c = false ∧ Text.lower c = c ∧ c ∉ ['\'', '"', '&'])
    (by decide) hascii h

theorem isTrimmed_of_not_needsQuoting {name : String} (h : needsQuoting name = false) :
    IntoClause.IsTrimmed name.toList := by
  obtain ⟨c, cs, htext, -, htail⟩ := exists_of_not_needsQuoting h
  have hnotBlank : ∀ d ∈ name.toList, isBlank d = false := by
    rw [htext]
    intro d hd
    exact (spec_of_isTailChar (htail d hd)).2.1
  exact ⟨fun d hd => hnotBlank d (List.mem_of_head? hd), fun d hd => hnotBlank d (List.mem_of_getLast? hd)⟩

theorem normalize_of_not_needsQuoting {name : String} (h : needsQuoting name = false) : normalize name = name := by
  obtain ⟨c, cs, htext, -, htail⟩ := exists_of_not_needsQuoting h
  have hinner : inner? (c :: cs) = none := by
    have hquote : c ≠ '"' := by
      rintro rfl
      exact absurd (htail '"' List.mem_cons_self) (by decide)
    unfold inner?
    split
    · next heq => exact absurd (List.cons.inj heq).1 hquote
    · rfl
  have hlower : (c :: cs).map Text.lower = c :: cs :=
    (List.map_congr_left fun d hd => (spec_of_isTailChar (htail d hd)).2.2.1).trans (List.map_id _)
  rw [normalize, readPart, strip_eq_self (isTrimmed_of_not_needsQuoting h), htext]
  simp only [hinner, hlower]
  rw [← htext, String.ofList_toList]

/-- A plain name is a word, up to a blank or the end. -/
theorem starts_of_not_needsQuoting {name : String} (h : needsQuoting name = false) {more : List Char}
    (hmore : ∀ d ∈ more.head?, d = ' ') : Lexeme.Starts ⟨.word name false, name.toList⟩ more := by
  obtain ⟨c, cs, htext, hhead, htail⟩ := exists_of_not_needsQuoting h
  have hnext : ∀ d ∈ (cs ++ more).head?, d ∉ ['\'', '"', '&'] := by
    intro d hd
    cases cs with
    | nil => rw [hmore d hd]; decide
    | cons a cs =>
      obtain rfl := Option.some.inj hd
      exact (spec_of_isTailChar (htail a (by simp))).2.2.2
  have htake : (cs ++ more).takeWhile isWordPart = cs := by
    have hpart : ∀ d ∈ cs, isWordPart d = true := fun d hd => (spec_of_isTailChar (htail d (.tail c hd))).1
    rw [takeWhile_append_of_head, List.takeWhile_eq_self_iff.2 hpart]
    intro d hd
    rw [hmore d hd]
    decide
  refine ⟨c, cs, htext, ?_⟩
  rw [step_word (isWordStart_of_isHeadChar hhead) (letterStep_eq_none hnext c), wordFrom, htake]
  simp [← htext]

theorem isFor_of_starts {name text : String} {token : Sql.Token} (hstarts : Lexeme.Starts ⟨token, text.toList⟩ [])
    (hnames : Names ⟨token, text.toList⟩ name) : IsFor name text :=
  ⟨⟨token, text.toList⟩, rfl, hstarts, hnames⟩

theorem IsFor.opens {name text : String} (h : IsFor name text) : Opens name text.toList := by
  obtain ⟨l, hsource, hstarts, hnames⟩ := h
  exact ⟨l, [], by rw [hsource, List.append_nil], hstarts, hnames⟩

theorem names_of_not_needsQuoting {name : String} (h : needsQuoting name = false) :
    Names ⟨.word name false, name.toList⟩ name where
  isWord := ⟨name, false, rfl, fun hquoting => absurd hquoting (by rw [h]; decide)⟩
  reads := by rw [String.ofList_toList, normalize_of_not_needsQuoting h]

/-- The identifier for a name that needs quotes is the enclosed name. -/
theorem Names.source_eq {l : Lexeme} {name : String} {more : List Char} (h : Names l name) (hstarts : l.Starts more)
    (hquoting : needsQuoting name = true) : l.source = (enclose name).toList := by
  obtain ⟨token, source⟩ := l
  obtain ⟨⟨value, inQuotes, rfl, hquotes⟩, hreads⟩ := h
  obtain rfl := hquotes hquoting
  obtain ⟨rfl, -⟩ := Lexeme.starts_quoted_iff.1 hstarts
  dsimp only at hreads
  rw [String.ofList_toList, normalize_enclose] at hreads
  rw [hreads]

/-- A text that starts with a name, up to a blank or the end, starts with an identifier for it exactly if the name
needs no quotes. -/
theorem opens_iff {name : String} {more : List Char} (hmore : ∀ c ∈ more.head?, c = ' ') :
    Opens name (name.toList ++ more) ↔ needsQuoting name = false := by
  constructor
  · rintro ⟨l, rest, htext, hstarts, hnames⟩
    by_contra hplain
    have hsource := hnames.source_eq hstarts (by simpa using hplain)
    -- With the blank that may be missing at the end, the enclosed name would start with the name and a blank.
    obtain ⟨xs, ys, hblank⟩ : ∃ xs ys, l.source ++ xs = name.toList ++ ' ' :: ys := by
      cases more with
      | nil => exact ⟨rest ++ [' '], [], by rw [← List.append_assoc, ← htext, List.append_nil]⟩
      | cons c more =>
        obtain rfl := hmore c rfl
        exact ⟨rest, more, htext.symm⟩
    refine Text.doubled_ne_append (show '"' ≠ ' ' by decide) 0 name.toList (['"'] ++ xs) ys ?_
    rw [← hblank, hsource]
    simp [enclose]
  · intro hplain
    exact ⟨⟨.word name false, name.toList⟩, more, rfl, starts_of_not_needsQuoting hplain hmore,
      names_of_not_needsQuoting hplain⟩

theorem isFor_self_iff {name : String} : IsFor name name ↔ needsQuoting name = false := by
  constructor
  · intro hfor
    have hopens : Opens name (name.toList ++ []) := by simpa using hfor.opens
    exact (opens_iff (by simp)).1 hopens
  · intro hplain
    exact isFor_of_starts (starts_of_not_needsQuoting hplain (by simp)) (names_of_not_needsQuoting hplain)

/-- A name that is written with quotes where they are needed reads back. -/
theorem isFor_quote (name : String) : IsFor name (quote name) := by
  unfold quote
  split
  · refine isFor_of_starts (Lexeme.starts_quoted_iff.2 ⟨rfl, nofun⟩) ⟨⟨name, true, rfl, fun _ => rfl⟩, ?_⟩
    rw [String.ofList_toList, normalize_enclose]
  · next hplain => exact isFor_self_iff.2 (by simpa using hplain)

end Identifier

/-! ## Where names are written -/

/-- The name that a datum is written with; a row without a name and a field are written with those of others. -/
def Datum.ownName? : Datum → Option String
  | scalar v => some v.name
  | record r => some r.name
  | row r => if r.isUnnamed then none else some r.name
  | field _ => none

namespace Function

variable {f : Function} {d : Datum} {name : String}

theorem referenceIn_of_ownName? (h : d.ownName? = some name) (visiting : List (Fin f.data.length)) :
    f.referenceIn visiting d = name := by
  cases d with
  | scalar v =>
    cases h
    rw [referenceIn]
  | record r =>
    cases h
    rw [referenceIn]
  | row r =>
    rw [Datum.ownName?] at h
    split at h
    · cases h
    · next hnamed =>
      cases h
      rw [referenceIn, if_neg hnamed]
  | field a => cases h

theorem reference_of_ownName? (h : d.ownName? = some name) {number : Int32} (hd : f.datum? number = some d) :
    f.reference number = name := by
  rw [datum?_eq_map_index?, Option.map_eq_some_iff] at hd
  obtain ⟨i, hi, rfl⟩ := hd
  rw [reference, referenceAt, hi]
  dsimp only
  rw [if_neg List.not_mem_nil, referenceIn_of_ownName? h]

end Function

/-- A declaration is the name, a blank and the rest. -/
theorem Layout.exists_of_declaration {y : Layout} {d : Datum} {name line : String} (h : d.ownName? = some name)
    (hline : y.declaration d = some line) : ∃ more, line.toList = name.toList ++ ' ' :: more := by
  cases d with
  | scalar v =>
    cases h
    rw [declaration] at hline
    split at hline
    · cases hline
      simp [cursorDeclaration]
    · cases hline
      rw [variableDeclaration]
      split
      · simp
      · simp
  | record r =>
    cases h
    cases hline
    simp
  | row r => cases hline
  | field a => cases hline

open Identifier

/-- **An emitted name reads back exactly if it needs no quotes.** Let a datum have a name of its own: a variable, a
record or a named row. Its declaration starts with an identifier for the name, and its references by number and in a
statement are one, if the name needs no quotes and only then; as `quote` writes the name, it would always be one. -/
theorem emitted_name_reads_back_iff {d : Datum} {name : String} (h : d.ownName? = some name) (y : Layout) :
    (∀ line, y.declaration d = some line → (Opens name line.toList ↔ needsQuoting name = false)) ∧
      (∀ number, y.function.datum? number = some d →
        (IsFor name (y.function.reference number) ↔ needsQuoting name = false)) ∧
      (IsFor name (y.function.referenceFor d) ↔ needsQuoting name = false) ∧
      IsFor name (quote name) := by
  refine ⟨?_, ?_, ?_, isFor_quote name⟩
  · intro line hline
    obtain ⟨more, hmore⟩ := Layout.exists_of_declaration h hline
    rw [hmore]
    refine opens_iff ?_
    rintro c ⟨⟩
    rfl
  · intro number hnumber
    rw [Function.reference_of_ownName? h hnumber]
    exact isFor_self_iff
  · rw [Function.referenceFor, Function.referenceIn_of_ownName? h]
    exact isFor_self_iff

/-- An integer with a name. -/
def integerNamed (name : String) : Datum :=
  .scalar ⟨name, 1, some (.raw "integer"), false, false, none, none, none, 0⟩

/-- A routine that declares one integer. -/
def declaring (name : String) : Layout :=
  ⟨.postgres, ⟨[integerNamed name], ⟨2, none, [], none⟩⟩, none, true⟩

/-- The name `total` needs no quotes. -/
theorem emitted_name_reads_back_iff_total :
    (declaring "total").declaration (integerNamed "total") = some "total integer;" ∧
      Opens "total" "total integer;".toList ∧ IsFor "total" ((declaring "total").function.reference 0) ∧
      IsFor "total" ((declaring "total").function.referenceFor (integerNamed "total")) := by
  have hline : (declaring "total").declaration (integerNamed "total") = some "total integer;" := by decide
  have hplain : needsQuoting "total" = false := by decide
  have hreads := emitted_name_reads_back_iff (d := integerNamed "total") rfl (declaring "total")
  exact ⟨hline, (hreads.1 _ hline).2 hplain, (hreads.2.1 0 rfl).2 hplain, hreads.2.2.1.2 hplain⟩

/-- The name `Order Total` needs quotes, but none are written: a reader finds the word `Order`. -/
theorem names_are_emitted_without_quotes :
    (declaring "Order Total").declaration (integerNamed "Order Total") = some "Order Total integer;" ∧
      (declaring "Order Total").function.reference 0 = "Order Total" ∧
      ¬ ∀ (y : Layout) (d : Datum) (name : String), d.ownName? = some name →
        (∀ line, y.declaration d = some line → Opens name line.toList) ∧
          (∀ number, y.function.datum? number = some d → IsFor name (y.function.reference number)) ∧
          IsFor name (y.function.referenceFor d) := by
  have hname : (integerNamed "Order Total").ownName? = some "Order Total" := rfl
  have hnumber : (declaring "Order Total").function.datum? 0 = some (integerNamed "Order Total") := rfl
  refine ⟨by decide, Function.reference_of_ownName? hname hnumber, ?_⟩
  intro hall
  have hfor := (hall (declaring "Order Total") (integerNamed "Order Total") "Order Total" hname).2.2
  rw [Function.referenceFor, Function.referenceIn_of_ownName? hname, isFor_self_iff] at hfor
  exact absurd hfor (by decide)

end Routine
