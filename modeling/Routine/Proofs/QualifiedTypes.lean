import Routine.Proofs.QualifiedNames
import Routine.TypeName

/-!
# Qualified types

A qualified type is a dotted name, perhaps with a modifier in parentheses behind it and an array suffix behind that.
Three readers take it apart, one for the suffix, one for the modifier and one for the dots, and each keeps its own
count of quotes. What they find is the `TypeName.Reading` of the text.

Writing a reading puts quotes around the parts that need them, and these quotes are all closed, so that none of the
three readers is misled by them (`TypeName.Reading.ofText_text`). Hence a written type has the reading it was written
from. Writing is then repeatable for as long as the text is taken for a qualified name again: the one name that is
not is that of the catalog, whose qualifier is dropped.
-/

namespace Routine
namespace TypeName

open Identifier
open Assignment (AllBlank)
open IntoClause (IsTrimmed isTrimmed_strip exists_dropBlanksEnd not_isBlank_of_dropBlanksEnd)
open Text (unquoted isBlank)

/-! ## Cuts -/

/-- The text cut before the first mark outside quotes, the first piece without the blanks it ends with. -/
def cut (mark : Char) (cs : List Char) : List Char × List Char :=
  match (unquoted 0 mark cs).head? with
  | some n => (Text.dropBlanksEnd (cs.take n), cs.drop n)
  | none => (cs, [])

/-- The text is the front, blanks and the back, and the back starts with the first mark outside quotes. -/
structure IsCut (mark : Char) (cs front back : List Char) : Prop where
  joined : ∃ gap, cs = front ++ (gap ++ back) ∧ AllBlank gap ∧ (back = [] → gap = [])
  clear : unquoted 0 mark front = []
  starts : ∀ c ∈ back.head?, c = mark
  closed : back ≠ [] → front.count '"' % 2 = 0
  trimmed : back ≠ [] → ∀ c ∈ front.getLast?, isBlank c = false

variable {mark : Char} {cs front back : List Char}

theorem openingAt_eq (hmark : mark ≠ '"') (quotes : Nat) (cs : List Char) :
    openingAt mark (quotes % 2 == 1) cs = (unquoted quotes mark cs).head? := by
  induction cs generalizing quotes with
  | nil => rfl
  | cons c cs ih =>
    rw [openingAt, Text.unquoted_cons]
    by_cases hc : c = '"'
    · subst hc
      rw [if_pos rfl, if_neg fun h => hmark h.1.symm, ← Text.odd_succ, ih]
      simp
    · simp only [if_neg hc, Text.odd_eq_false_iff]
      split
      · rfl
      · rw [ih]
        simp [hc]

theorem cutBefore_eq (hmark : mark ≠ '"') (name : String) :
    cutBefore mark name =
      (String.ofList (cut mark name.toList).1, String.ofList (cut mark name.toList).2) := by
  have hopening : openingAt mark false name.toList = (unquoted 0 mark name.toList).head? :=
    openingAt_eq hmark 0 name.toList
  rw [cutBefore, cut, hopening]
  cases (unquoted 0 mark name.toList).head? with
  | none => simp
  | some n => rfl

theorem count_of_allBlank {gap : List Char} (h : AllBlank gap) : gap.count '"' = 0 := by
  refine List.count_eq_zero.2 ?_
  intro hmem
  exact absurd (h '"' hmem) (by decide)

/-- What is known of the first mark outside quotes. -/
theorem spec_of_head?_unquoted {n : Nat} (h : (unquoted 0 mark cs).head? = some n) :
    cs[n]? = some mark ∧ (cs.take n).count '"' % 2 = 0 ∧ unquoted 0 mark (cs.take n) = [] := by
  rw [unquoted, List.head?_filter, List.find?_range_eq_some] at h
  obtain ⟨hn, -, hbefore⟩ := h
  simp only [Bool.and_eq_true, beq_iff_eq, Nat.zero_add] at hn
  refine ⟨hn.1, hn.2, List.filter_eq_nil_iff.2 ?_⟩
  intro i hi
  have hin : i < n := by
    rw [List.mem_range, List.length_take] at hi
    omega
  rw [List.getElem?_take_of_lt hin, List.take_take, Nat.min_eq_left (Nat.le_of_lt hin)]
  exact Bool.eq_false_iff.1 (Bool.not_eq_true' _ ▸ hbefore i hin)

theorem isCut_cut (mark : Char) (cs : List Char) : IsCut mark cs (cut mark cs).1 (cut mark cs).2 := by
  rw [cut]
  cases hfirst : (unquoted 0 mark cs).head? with
  | none =>
    exact ⟨⟨[], by simp, nofun, fun _ => rfl⟩, List.head?_eq_none_iff.1 hfirst, nofun, fun h => absurd rfl h,
      fun h => absurd rfl h⟩
  | some n =>
    obtain ⟨hn, heven, hclear⟩ := spec_of_head?_unquoted hfirst
    obtain ⟨gap, hgap, hblank⟩ := exists_dropBlanksEnd (cs.take n)
    have hjoined : cs = Text.dropBlanksEnd (cs.take n) ++ (gap ++ cs.drop n) := by
      rw [← List.append_assoc, ← hgap, List.take_append_drop]
    have hsome : cs.drop n ≠ [] := by
      rw [Ne, List.drop_eq_nil_iff]
      exact Nat.not_le.2 (List.getElem?_eq_some_iff.1 hn).1
    have hcount : (cs.take n).count '"' = (Text.dropBlanksEnd (cs.take n)).count '"' := by
      conv_lhs => rw [hgap]
      rw [List.count_append, count_of_allBlank hblank, Nat.add_zero]
    exact {
      joined := ⟨gap, hjoined, hblank, fun hnone => absurd hnone hsome⟩
      clear := by
        rw [hgap] at hclear
        exact (Text.unquoted_append_eq_nil_iff.1 hclear).1
      starts := by
        intro c hc
        rw [List.head?_drop, hn] at hc
        exact (Option.some.inj hc).symm
      closed := fun _ => hcount ▸ heven
      trimmed := fun _ _ hc => not_isBlank_of_dropBlanksEnd hc }

theorem dropBlanksEnd_eq_self (h : ∀ c ∈ cs.getLast?, isBlank c = false) : Text.dropBlanksEnd cs = cs := by
  obtain ⟨gap, hgap, hblank⟩ := exists_dropBlanksEnd cs
  obtain rfl : gap = [] := by
    by_contra hsome
    obtain ⟨gap', b, rfl⟩ := List.eq_nil_or_concat gap |>.resolve_left hsome
    have hlast : b ∈ cs.getLast? := by
      rw [hgap]
      simp
    exact absurd (hblank b (by simp)) (by rw [h b hlast]; decide)
  rw [List.append_nil] at hgap
  exact hgap.symm

/-- Without blanks in front of the mark, the cut is where the pieces meet. -/
theorem cut_append (hclear : unquoted 0 mark front = []) (hstarts : ∀ c ∈ back.head?, c = mark)
    (hclosed : back ≠ [] → front.count '"' % 2 = 0)
    (htrimmed : back ≠ [] → ∀ c ∈ front.getLast?, isBlank c = false) :
    cut mark (front ++ back) = (front, back) := by
  rw [cut, Text.unquoted_append, hclear]
  cases back with
  | nil => simp
  | cons c back =>
    have hmark : c = mark := hstarts c rfl
    have hfirst : c = mark ∧ (0 + front.count '"') % 2 = 0 := ⟨hmark, by simpa using hclosed (by simp)⟩
    rw [Text.unquoted_cons, if_pos hfirst]
    simp [dropBlanksEnd_eq_self (htrimmed (by simp))]

/-! ## Readings -/

/-- What a text says as a qualified type: the names of its dotted name, its modifier and its array suffix. -/
structure Reading where
  names : List String
  modifier : String
  array : String
deriving DecidableEq

namespace Reading

/-- The reading of a text. -/
def ofText (text : String) : Reading :=
  let pieces := cut '[' text.toList
  let front := cut '(' pieces.1
  ⟨(split (String.ofList front.1)).map normalize, String.ofList front.2, String.ofList pieces.2⟩

/-- The text with the names written as they have to be. -/
def text (r : Reading) : String :=
  dotted r.names ++ r.modifier ++ r.array

end Reading

/-! ## Written names -/

theorem isTrimmed_quote (name : String) : IsTrimmed (quote name).toList := by
  unfold quote
  split
  · exact isTrimmed_enclose name
  · next hplain => exact isTrimmed_of_not_needsQuoting (by simpa using hplain)

theorem quote_ne_nil (name : String) : (quote name).toList ≠ [] := by
  unfold quote
  split
  · simp [enclose]
  · next hplain =>
    obtain ⟨c, cs, htext, -⟩ := exists_of_not_needsQuoting (by simpa using hplain)
    simp [htext]

/-- A dotted name is its first part, and behind that nothing or a dot. -/
theorem exists_dotted_cons (name : String) (names : List String) :
    ∃ more, (dotted (name :: names)).toList = (quote name).toList ++ more ∧ ∀ c ∈ more.head?, c = '.' := by
  cases names with
  | nil => exact ⟨[], by simp [dotted_singleton], nofun⟩
  | cons other names =>
    refine ⟨_, toList_dotted_cons_cons name other names, ?_⟩
    rintro c ⟨⟩
    rfl

/-- A dotted name is its last part, and in front of that nothing or a dot. -/
theorem exists_dotted_last {names : List String} (h : names ≠ []) :
    ∃ before last, (dotted names).toList = before ++ (quote last).toList ∧ ∀ c ∈ before.getLast?, c = '.' := by
  induction names with
  | nil => exact absurd rfl h
  | cons name names ih =>
    cases names with
    | nil => exact ⟨[], name, by simp [dotted_singleton], nofun⟩
    | cons other names =>
      obtain ⟨before, last, hbefore, hdot⟩ := ih (by simp)
      refine ⟨(quote name).toList ++ '.' :: before, last, ?_, ?_⟩
      · rw [toList_dotted_cons_cons, hbefore, List.append_assoc, List.cons_append]
      · intro c hc
        cases before with
        | nil => simpa [eq_comm] using hc
        | cons b before => exact hdot c (by simpa using hc)

theorem count_dotted (names : List String) : (dotted names).toList.count '"' % 2 = 0 := by
  induction names with
  | nil => rfl
  | cons name names ih =>
    have hname := count_quote name
    cases names with
    | nil => exact (dotted_singleton name).symm ▸ hname
    | cons other names =>
      rw [toList_dotted_cons_cons, List.count_append, List.count_cons_of_ne (by decide)]
      omega

theorem unquoted_dotted (hpart : isTailChar mark = false) (hmark : mark ≠ '"') (hdot : mark ≠ '.')
    (names : List String) : unquoted 0 mark (dotted names).toList = [] := by
  induction names with
  | nil => rfl
  | cons name names ih =>
    have hname := unquoted_quote hpart hmark name
    cases names with
    | nil => exact (dotted_singleton name).symm ▸ hname
    | cons other names =>
      have hrest : unquoted (0 + (quote name).toList.count '"') mark ['.'] = [] :=
        Text.unquoted_of_not_mem (by simpa using hdot)
      rw [toList_dotted_cons_cons, ← List.singleton_append]
      refine Text.unquoted_append_eq_nil_iff.2 ⟨hname, Text.unquoted_append_eq_nil_iff.2 ⟨hrest, ?_⟩⟩
      rw [← ih]
      refine Text.unquoted_congr fun _ => ?_
      have hcount := count_quote name
      have hnone : ['.'].count '"' = 0 := by simp
      omega

theorem isTrimmed_dotted {names : List String} (h : names ≠ []) : IsTrimmed (dotted names).toList where
  head := by
    obtain ⟨name, names, rfl⟩ := List.exists_cons_of_ne_nil h
    obtain ⟨more, hmore, -⟩ := exists_dotted_cons name names
    intro c hc
    rw [hmore, List.head?_append_of_ne_nil _ (quote_ne_nil name)] at hc
    exact (isTrimmed_quote name).head c hc
  last := by
    obtain ⟨before, last, hlast, -⟩ := exists_dotted_last h
    intro c hc
    rw [hlast, List.getLast?_append_of_ne_nil _ (quote_ne_nil last)] at hc
    exact (isTrimmed_quote last).last c hc

/-! ## Reading what was written -/

/-- What can stand behind a dotted name: a modifier without brackets outside its quotes, and an array suffix, in front
of which all quotes are closed and no blanks are left. -/
structure IsTail (modifier array : List Char) : Prop where
  starts : ∀ c ∈ modifier.head?, c = '('
  startsArray : ∀ c ∈ array.head?, c = '['
  clear : unquoted 0 '[' modifier = []
  closed : array ≠ [] → modifier.count '"' % 2 = 0
  trimmed : array ≠ [] → ∀ c ∈ modifier.getLast?, isBlank c = false

theorem IsCut.isTail {name modifier array : List Char} (h : IsCut '[' cs front array)
    (h' : IsCut '(' front name modifier) : IsTail modifier array := by
  obtain ⟨gap, rfl, hblank, -⟩ := h'.joined
  have hgap := count_of_allBlank hblank
  -- A modifier is read behind closed quotes.
  have hname : modifier ≠ [] → name.count '"' % 2 = 0 := h'.closed
  refine ⟨h'.starts, h.starts, ?_, ?_, ?_⟩
  · have hclear := (Text.unquoted_append_eq_nil_iff.1 (Text.unquoted_append_eq_nil_iff.1 h.clear).2).2
    rw [← hclear]
    refine Text.unquoted_congr fun hsome => ?_
    have heven := hname hsome
    omega
  · intro harray
    have hfront := h.closed harray
    rw [List.count_append, List.count_append] at hfront
    cases modifier with
    | nil => rfl
    | cons c modifier =>
      have heven := hname (by simp)
      omega
  · intro harray c hc
    refine h.trimmed harray c ?_
    have hsome : modifier ≠ [] := by
      rintro rfl
      cases hc
    rw [← List.append_assoc, List.getLast?_append_of_ne_nil _ hsome]
    exact hc

namespace Reading

/-- How a text is taken apart. -/
theorem exists_cuts (text : String) :
    ∃ front name, IsCut '[' text.toList front (ofText text).array.toList ∧
      IsCut '(' front name (ofText text).modifier.toList ∧
      (ofText text).names = (split (String.ofList name)).map normalize := by
  simp only [ofText, String.toList_ofList]
  exact ⟨_, _, isCut_cut '[' text.toList, isCut_cut '(' _, rfl⟩

theorem isTail_ofText (text : String) : IsTail (ofText text).modifier.toList (ofText text).array.toList := by
  obtain ⟨front, name, harray, hmodifier, -⟩ := exists_cuts text
  exact harray.isTail hmodifier

theorem names_ofText_ne_nil (text : String) : (ofText text).names ≠ [] := by
  obtain ⟨front, name, -, -, hnames⟩ := exists_cuts text
  rw [hnames]
  simp [split, splitDots_ne_nil]

/-- A reading that is written has its own text back. -/
theorem ofText_text {r : Reading} (hnames : r.names ≠ []) (htail : IsTail r.modifier.toList r.array.toList) :
    ofText r.text = r := by
  have hdotted := count_dotted r.names
  have htrimmed := isTrimmed_dotted hnames
  have harray : cut '[' r.text.toList = ((dotted r.names).toList ++ r.modifier.toList, r.array.toList) := by
    rw [text, String.toList_append, String.toList_append]
    refine cut_append ?_ htail.startsArray ?_ ?_
    · refine Text.unquoted_append_eq_nil_iff.2 ⟨unquoted_dotted (by decide) (by decide) (by decide) _, ?_⟩
      rw [← htail.clear]
      exact Text.unquoted_congr fun _ => by simpa using hdotted
    · intro hsome
      have hmodifier := htail.closed hsome
      rw [List.count_append]
      omega
    · intro hsome c hc
      by_cases hmodifier : r.modifier.toList = []
      · rw [hmodifier, List.append_nil] at hc
        exact htrimmed.last c hc
      · rw [List.getLast?_append_of_ne_nil _ hmodifier] at hc
        exact htail.trimmed hsome c hc
  have hmodifier : cut '(' ((dotted r.names).toList ++ r.modifier.toList) =
      ((dotted r.names).toList, r.modifier.toList) :=
    cut_append (unquoted_dotted (by decide) (by decide) (by decide) _) htail.starts (fun _ => hdotted)
      fun _ => htrimmed.last
  have hread : (split (dotted r.names)).map normalize = r.names := by
    rw [split_dotted hnames, map_normalize_quote]
  simp only [ofText, harray, hmodifier, String.ofList_toList, hread]

end Reading

/-! ## Types that are written -/

variable {x : String}

/-- A qualified type is written as its reading is. -/
theorem render_eq (href : splitReference (Text.trim x) = none)
    (hqualified : isQualified (dropCatalog (Text.trim x)) = true) :
    render x = (Reading.ofText (dropCatalog (Text.trim x))).text := by
  rw [render, href]
  simp only [hqualified, if_true, cutBefore_eq (show '[' ≠ '"' by decide),
    cutBefore_eq (show '(' ≠ '"' by decide), Reading.text, Reading.ofText, String.toList_ofList, dotted,
    List.map_map, Function.comp_def]

/-- A text that ends with a word ends with it behind a character that the word does not have. -/
theorem isSuffix_of_append_cons {w a b : List Char} {c : Char} (h : w <:+ a ++ c :: b) (hc : c ∉ w) : w <:+ b := by
  rcases List.suffix_or_suffix_of_suffix h (List.suffix_append a (c :: b)) with hshort | hlong
  · rcases List.suffix_cons_iff.1 hshort with rfl | hbehind
    · exact absurd List.mem_cons_self hc
    · exact hbehind
  · exact absurd (hlong.subset List.mem_cons_self) hc

theorem splitReference_eq_none_iff {name : String} :
    splitReference name = none ↔
      ∀ suffix ∈ referenceSuffixes, ¬ suffix.toList.map Text.lower <:+ name.toList.map Text.lower := by
  simp [splitReference, Text.endsWithName, Text.endsWithLetters]

theorem mem_referenceSuffixes : ∀ suffix ∈ referenceSuffixes, '%' ∈ suffix.toList.map Text.lower ∧
    ∀ c ∈ ['(', '['] ++ ['.', '"'], Text.lower c ∉ suffix.toList.map Text.lower := by
  simp only [referenceSuffixes, List.forall_mem_cons]
  refine ⟨⟨by decide, ?_⟩, ⟨by decide, ?_⟩, List.forall_mem_nil _⟩
  · exact Sql.Lexer.forall_mem_of_all (by decide)
  · exact Sql.Lexer.forall_mem_of_all (by decide)

theorem dropCatalog_isSuffix (name : String) : (dropCatalog name).toList <:+ name.toList := by
  rw [dropCatalog]
  split
  · rw [String.toList_ofList]
    exact List.drop_suffix _ _
  · exact List.suffix_refl _

theorem isQualified_iff {name : String} : isQualified name = true ↔ unquoted 0 '.' name.toList ≠ [] := by
  rw [isQualified, length_split, decide_eq_true_eq, ← List.length_pos_iff]
  omega

namespace Reading

/-- What stands behind the names, if anything does, ends in a part of the text that starts with a bracket. -/
theorem exists_ending {text : String}
    (h : (ofText text).modifier.toList ++ (ofText text).array.toList ≠ []) :
    ∃ before mark more, (ofText text).modifier.toList ++ (ofText text).array.toList = before ++ mark :: more ∧
      mark ∈ ['(', '['] ∧ mark :: more <:+ text.toList := by
  obtain ⟨front, name, harray, hmodifier, -⟩ := exists_cuts text
  obtain ⟨gap, htext, -, hgap⟩ := harray.joined
  obtain ⟨gap', hfront, -, -⟩ := hmodifier.joined
  have hstarts := harray.starts
  have hstarts' := hmodifier.starts
  cases hlast : (ofText text).array.toList with
  | nil =>
    rw [hlast] at htext hgap h
    rw [hgap rfl, List.append_nil, List.append_nil] at htext
    cases hfirst : (ofText text).modifier.toList with
    | nil => simp [hfirst] at h
    | cons c more =>
      rw [hfirst] at hstarts' hfront
      refine ⟨[], c, more, by simp, by simp [hstarts' c rfl], ?_⟩
      rw [htext, hfront, ← List.append_assoc]
      exact List.suffix_append _ _
  | cons c more =>
    rw [hlast] at hstarts htext
    refine ⟨_, c, more, rfl, by simp [hstarts c rfl], ?_⟩
    rw [htext, ← List.append_assoc]
    exact List.suffix_append _ _

/-- A text with a dot outside quotes is written with one. -/
theorem isQualified_text {text : String} (h : isQualified text = true) : isQualified (ofText text).text = true := by
  rw [isQualified_iff] at h ⊢
  intro hnone
  refine h ?_
  obtain ⟨front, name, harray, hmodifier, hnames⟩ := exists_cuts text
  have htail := isTail_ofText text
  have hdotted := count_dotted (ofText text).names
  rw [Reading.text, String.toList_append, String.toList_append, Text.unquoted_append_eq_nil_iff,
    Text.unquoted_append_eq_nil_iff, List.count_append] at hnone
  obtain ⟨⟨hdots, hdots'⟩, hdots''⟩ := hnone
  have hname : unquoted 0 '.' name = [] := by
    have hlength := length_split (dotted (ofText text).names)
    have hlength' := length_split (String.ofList name)
    rw [split_dotted (names_ofText_ne_nil text), hdots, hnames, List.length_map, List.length_map, hlength',
      String.toList_ofList] at hlength
    exact List.length_eq_zero_iff.1 (Nat.succ.inj hlength)
  obtain ⟨gap, htext, hblank, -⟩ := harray.joined
  obtain ⟨gap', rfl, hblank', -⟩ := hmodifier.joined
  have hgap := count_of_allBlank hblank
  have hgap' := count_of_allBlank hblank'
  -- Modifier and array suffix are behind closed quotes, in the text and where they are written.
  have hmodifier' : unquoted (0 + name.count '"' + gap'.count '"') '.' (ofText text).modifier.toList = [] := by
    rw [← hdots']
    refine Text.unquoted_congr fun hsome => ?_
    have heven := hmodifier.closed hsome
    omega
  have harray' : unquoted (0 + (name ++ (gap' ++ (ofText text).modifier.toList)).count '"' + gap.count '"') '.'
      (ofText text).array.toList = [] := by
    rw [← hdots'']
    refine Text.unquoted_congr fun hsome => ?_
    have heven := harray.closed hsome
    have heven' := htail.closed hsome
    omega
  rw [htext, Text.unquoted_append_eq_nil_iff, Text.unquoted_append_eq_nil_iff, Text.unquoted_append_eq_nil_iff,
    Text.unquoted_append_eq_nil_iff]
  have hclear : ∀ {quotes : Nat} {gap : List Char}, AllBlank gap → unquoted quotes '.' gap = [] := by
    intro quotes gap hgap
    exact Text.unquoted_of_not_mem fun hdot => absurd (hgap '.' hdot) (by decide)
  exact ⟨⟨hname, hclear hblank', hmodifier'⟩, hclear hblank, harray'⟩

/-- A written type neither starts nor ends with a blank, if its text does not end with one. -/
theorem isTrimmed_text {text : String} (h : ∀ c ∈ text.toList.getLast?, isBlank c = false) :
    IsTrimmed (ofText text).text.toList := by
  have hdotted := isTrimmed_dotted (names_ofText_ne_nil text)
  have hsome : (dotted (ofText text).names).toList ≠ [] := by
    obtain ⟨before, last, hlast, -⟩ := exists_dotted_last (names_ofText_ne_nil text)
    rw [hlast]
    exact List.append_ne_nil_of_right_ne_nil _ (quote_ne_nil last)
  rw [Reading.text, String.toList_append, String.toList_append, List.append_assoc]
  constructor
  · intro c hc
    rw [List.head?_append_of_ne_nil _ hsome] at hc
    exact hdotted.head c hc
  · intro c hc
    by_cases htail : (ofText text).modifier.toList ++ (ofText text).array.toList = []
    · rw [htail, List.append_nil] at hc
      exact hdotted.last c hc
    · obtain ⟨before, mark, more, hending, -, part, hpart⟩ := exists_ending htail
      rw [hending, ← List.append_assoc, List.getLast?_append_of_ne_nil _ (List.cons_ne_nil mark more)] at hc
      have hlast : text.toList.getLast? = (mark :: more).getLast? := by
        rw [← hpart, List.getLast?_append_of_ne_nil _ (List.cons_ne_nil mark more)]
      exact h c (hlast ▸ hc)

/-- A written type is a reference only if its text is one. -/
theorem splitReference_text {text : String} (h : splitReference text = none) :
    splitReference (ofText text).text = none := by
  rw [splitReference_eq_none_iff] at h ⊢
  intro suffix hsuffix hends
  obtain ⟨hpercent, hmarks⟩ := mem_referenceSuffixes suffix hsuffix
  rw [Reading.text, String.toList_append, String.toList_append, List.append_assoc, List.map_append] at hends
  by_cases htail : (ofText text).modifier.toList ++ (ofText text).array.toList = []
  · obtain ⟨before, last, hlast, hdot⟩ := exists_dotted_last (names_ofText_ne_nil text)
    rw [htail, hlast, List.map_nil, List.append_nil, List.map_append] at hends
    -- The last part is too short for the suffix, or plain; and what is in front of it is a dot.
    have hlast : suffix.toList.map Text.lower <:+ (quote last).toList.map Text.lower := by
      rcases List.eq_nil_or_concat before with rfl | ⟨before, c, rfl⟩
      · simpa using hends
      · obtain rfl := hdot c (by simp)
        refine isSuffix_of_append_cons (a := before.map Text.lower) ?_ (hmarks '.' (by decide))
        simpa using hends
    unfold quote at hlast
    split at hlast
    · rw [enclose, String.toList_ofList, List.map_append] at hlast
      have hnone := isSuffix_of_append_cons hlast (hmarks '"' (by decide))
      rw [List.map_nil, List.suffix_nil] at hnone
      rw [hnone] at hpercent
      cases hpercent
    · next hplain =>
      obtain ⟨c, cs, hletters, -, htail⟩ := exists_of_not_needsQuoting (by simpa using hplain)
      obtain ⟨d, hd, hlower⟩ := List.mem_map.1 (hlast.subset hpercent)
      rw [hletters] at hd
      rw [(spec_of_isTailChar (htail d hd)).2.2.1] at hlower
      exact absurd (hlower ▸ htail d hd) (by decide)
  · obtain ⟨before, mark, more, hending, hmark, hpart⟩ := exists_ending htail
    rw [hending, List.map_append, ← List.append_assoc, List.map_cons] at hends
    have hmore := isSuffix_of_append_cons hends (hmarks mark (List.mem_append_left ['.', '"'] hmark))
    exact h suffix hsuffix (hmore.trans ((List.suffix_cons mark more).trans hpart |>.map Text.lower))

/-- Behind the first part of a written type is nothing or a mark. -/
theorem exists_first {r : Reading} {name : String} (hname : r.names.head? = some name)
    (htail : IsTail r.modifier.toList r.array.toList) :
    ∃ more, r.text.toList = (quote name).toList ++ more ∧ ∀ c ∈ more.head?, c ∈ ['.', '(', '['] := by
  obtain ⟨names, hnames⟩ := List.head?_eq_some_iff.1 hname
  obtain ⟨more, hmore, hdot⟩ := exists_dotted_cons name names
  refine ⟨more ++ (r.modifier.toList ++ r.array.toList), ?_, ?_⟩
  · rw [text, hnames, String.toList_append, String.toList_append, hmore]
    simp
  · have hmodifier := htail.starts
    have harray := htail.startsArray
    intro c hc
    rw [List.head?_append, List.head?_append, Option.mem_def, Option.or_eq_some_iff, Option.or_eq_some_iff] at hc
    rcases hc with hc | ⟨-, hc | ⟨-, hc⟩⟩
    · simp [hdot c hc]
    · simp [hmodifier c hc]
    · simp [harray c hc]

/-- Only the qualifier of the catalog is dropped. -/
theorem dropCatalog_text {r : Reading} (hnames : r.names ≠ [])
    (htail : IsTail r.modifier.toList r.array.toList) (hcatalog : r.names.head? ≠ some "pg_catalog") :
    dropCatalog r.text = r.text := by
  obtain ⟨name, hname⟩ := Option.ne_none_iff_exists'.1 (mt List.head?_eq_none_iff.1 hnames)
  obtain ⟨more, hmore, hmarks⟩ := exists_first hname htail
  rw [dropCatalog, if_neg]
  intro hstarts
  refine hcatalog ?_
  rw [Text.startsWithName, Text.startsWithLetters, List.isPrefixOf_iff_prefix, hmore, List.map_append] at hstarts
  obtain ⟨rest, hrest⟩ := hstarts
  unfold quote at hrest
  split at hrest
  · rw [enclose, String.toList_ofList, List.cons_append, List.map_cons, List.cons_append] at hrest
    exact absurd (List.cons.inj hrest).1 (by decide)
  · next hplain =>
    obtain ⟨c, cs, hletters, -, hpart⟩ := exists_of_not_needsQuoting (by simpa using hplain)
    have hlower : name.toList.map Text.lower = name.toList := by
      rw [hletters]
      exact (List.map_congr_left fun d hd => (spec_of_isTailChar (hpart d hd)).2.2.1).trans (List.map_id _)
    -- Both names end at the first character that is none of a plain name.
    have hnone : ∀ e ∈ ['.', '(', '['], isTailChar (Text.lower e) = false :=
      Sql.Lexer.eq_false_of_all (by decide)
    have hfirst : (name.toList ++ more.map Text.lower).takeWhile isTailChar = name.toList := by
      rw [Sql.Lexer.takeWhile_append_of_head, List.takeWhile_eq_self_iff.2 (hletters ▸ hpart)]
      intro d hd
      rw [List.head?_map, Option.mem_def, Option.map_eq_some_iff] at hd
      obtain ⟨e, he, rfl⟩ := hd
      exact hnone e (hmarks e he)
    have hcatalog : ("pg_catalog".toList ++ '.' :: rest).takeWhile isTailChar = "pg_catalog".toList := by
      rw [Sql.Lexer.takeWhile_append_of_head]
      · decide
      · rintro d ⟨⟩
        decide
    have hsame : "pg_catalog".toList ++ '.' :: rest = name.toList ++ more.map Text.lower := by
      rw [← hlower, ← hrest]
      rfl
    rw [hname, ← String.toList_inj.1 (hcatalog.symm.trans ((congrArg _ hsame).trans hfirst))]

/-- A reading that was written is written again in the same way. -/
theorem render_text {text : String} (href : splitReference text = none) (hqualified : isQualified text = true)
    (hlast : ∀ c ∈ text.toList.getLast?, isBlank c = false)
    (hcatalog : (ofText text).names.head? ≠ some "pg_catalog") : render (ofText text).text = (ofText text).text := by
  have hnames := names_ofText_ne_nil text
  have htail := isTail_ofText text
  have htrim : Text.trim (ofText text).text = (ofText text).text := by
    rw [Text.trim, strip_eq_self (isTrimmed_text hlast), String.ofList_toList]
  have hdrop : dropCatalog (Text.trim (ofText text).text) = (ofText text).text := by
    rw [htrim, dropCatalog_text hnames htail hcatalog]
  have hrender := render_eq (x := (ofText text).text) (by rw [htrim, splitReference_text href])
    (by rw [hdrop, isQualified_text hqualified])
  rw [hrender, hdrop, ofText_text hnames htail]

end Reading

end TypeName

/-- **A qualified type keeps its identity.** Let a text be no reference and, without the qualifier of the catalog, be
qualified. What is written for it has the same names, the same modifier and the same array suffix, and if the first of
the names is not that of the catalog, it is written as it stands. -/
theorem qualified_type_keeps_its_identity {x : String}
    (href : TypeName.splitReference (Text.trim x) = none)
    (hqualified : Identifier.isQualified (TypeName.dropCatalog (Text.trim x)) = true) :
    TypeName.Reading.ofText (TypeName.render x) =
        TypeName.Reading.ofText (TypeName.dropCatalog (Text.trim x)) ∧
      ((TypeName.Reading.ofText (TypeName.dropCatalog (Text.trim x))).names.head? ≠ some "pg_catalog" →
        TypeName.render (TypeName.render x) = TypeName.render x) := by
  have hsuffix := TypeName.dropCatalog_isSuffix (Text.trim x)
  have href' : TypeName.splitReference (TypeName.dropCatalog (Text.trim x)) = none := by
    rw [TypeName.splitReference_eq_none_iff] at href ⊢
    intro suffix hmem hends
    exact href suffix hmem (hends.trans (hsuffix.map Text.lower))
  have hlast : ∀ c ∈ (TypeName.dropCatalog (Text.trim x)).toList.getLast?, Text.isBlank c = false := by
    intro c hc
    have hsome : (TypeName.dropCatalog (Text.trim x)).toList ≠ [] := by
      intro hnone
      rw [hnone] at hc
      cases hc
    have htrim : (Text.trim x).toList = Text.strip x.toList := String.toList_ofList
    obtain ⟨before, hbefore⟩ := hsuffix
    refine (IntoClause.isTrimmed_strip x.toList).last c ?_
    rw [← htrim, ← hbefore, List.getLast?_append_of_ne_nil _ hsome]
    exact hc
  rw [TypeName.render_eq href hqualified]
  exact ⟨TypeName.Reading.ofText_text (TypeName.Reading.names_ofText_ne_nil _) (TypeName.Reading.isTail_ofText _),
    TypeName.Reading.render_text href' hqualified hlast⟩

/-- Blanks, a quoted dot, a capital and a keyword; a bracket inside quotes ends no name. -/
theorem qualified_type_keeps_its_identity_brackets :
    TypeName.render " pg_catalog.App . \"a.[\".user (2) [] " = "app.\"a.[\".\"user\"(2)[]" ∧
      TypeName.Reading.ofText "app.\"a.[\".\"user\"(2)[]" =
        ⟨["app", "a.[", "user"], "(2)", "[]"⟩ ∧
      TypeName.render "app.\"a.[\".\"user\"(2)[]" = "app.\"a.[\".\"user\"(2)[]" := by
  have hread : TypeName.Reading.ofText
      (TypeName.dropCatalog (Text.trim " pg_catalog.App . \"a.[\".user (2) [] ")) =
        ⟨["app", "a.[", "user"], "(2)", "[]"⟩ := by decide +kernel
  have hrender : TypeName.render " pg_catalog.App . \"a.[\".user (2) [] " =
      "app.\"a.[\".\"user\"(2)[]" := by decide +kernel
  have hkeeps := qualified_type_keeps_its_identity (x := " pg_catalog.App . \"a.[\".user (2) [] ")
    (by decide +kernel) (by decide +kernel)
  rw [hread, hrender] at hkeeps
  exact ⟨hrender, hkeeps.1, hkeeps.2 (by decide)⟩

end Routine
