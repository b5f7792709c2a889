import Routine.Proofs.EmittedNames

/-!
# Qualified names

A dot separates two parts of a qualified name unless it stands between double quotes. The quotes decide by their
number alone: a mark stands outside them if an even number of quotes is before it (`Text.unquoted`). A quote that is
doubled inside a name adds two, so it changes nothing for the marks behind it, and the marks inside a quoted name all
have an odd number before them (`Text.unquoted_doubled`).

`Identifier.split` cuts at exactly these dots (`Identifier.length_split`), and loses nothing
(`Identifier.intercalate_split`). A name written by `Identifier.quote` has none of them, so names that are written
with dots between them are found again, whatever quotes and dots they are made of.
-/

namespace Routine

/-! ## Marks outside quotes -/

namespace Text

/-- The places where the mark stands outside double quotes, in a text behind a number of quotes: an even number of
quotes is before them. -/
def unquoted (quotes : Nat) (mark : Char) (cs : List Char) : List Nat :=
  (List.range cs.length).filter fun i => cs[i]? == some mark && (quotes + (cs.take i).count '"') % 2 == 0

variable {quotes : Nat} {mark : Char} {cs ds : List Char}

@[simp]
theorem unquoted_nil : unquoted quotes mark [] = [] := rfl

theorem count_quotes_cons (c : Char) (cs : List Char) : (c :: cs).count '"' = [c].count '"' + cs.count '"' := by
  rw [← List.singleton_append, List.count_append]

theorem unquoted_cons (c : Char) (cs : List Char) :
    unquoted quotes mark (c :: cs) =
      (if c = mark ∧ quotes % 2 = 0 then [0] else []) ++
        (unquoted (quotes + [c].count '"') mark cs).map Nat.succ := by
  have hlater : ((fun i => (c :: cs)[i]? == some mark && (quotes + ((c :: cs).take i).count '"') % 2 == 0) ∘
      Nat.succ) = fun i => cs[i]? == some mark && (quotes + [c].count '"' + (cs.take i).count '"') % 2 == 0 := by
    funext i
    simp only [Function.comp_apply, Nat.succ_eq_add_one, List.getElem?_cons_succ, List.take_succ_cons,
      count_quotes_cons c (cs.take i), Nat.add_assoc]
  rw [unquoted, List.length_cons, List.range_succ_eq_map, List.filter_cons, List.filter_map, hlater]
  by_cases hfirst : c = mark ∧ quotes % 2 = 0
  · simp [hfirst, unquoted]
  · rw [if_neg hfirst, if_neg (by simpa using hfirst)]
    rfl

theorem unquoted_append (cs ds : List Char) :
    unquoted quotes mark (cs ++ ds) =
      unquoted quotes mark cs ++ (unquoted (quotes + cs.count '"') mark ds).map (· + cs.length) := by
  induction cs generalizing quotes with
  | nil => simp
  | cons c cs ih =>
    rw [List.cons_append, unquoted_cons, unquoted_cons, ih, count_quotes_cons c cs]
    simp [Nat.add_assoc, Function.comp_def]

theorem unquoted_append_eq_nil_iff :
    unquoted quotes mark (cs ++ ds) = [] ↔
      unquoted quotes mark cs = [] ∧ unquoted (quotes + cs.count '"') mark ds = [] := by
  simp [unquoted_append]

/-- Only the parity of the quotes before a text matters. -/
theorem unquoted_congr {quotes' : Nat} (h : cs ≠ [] → quotes % 2 = quotes' % 2) :
    unquoted quotes mark cs = unquoted quotes' mark cs := by
  refine List.filter_congr ?_
  intro i hi
  have hsome : cs ≠ [] := by
    rintro rfl
    cases hi
  rw [Nat.add_mod, h hsome, ← Nat.add_mod]

theorem unquoted_of_not_mem (h : mark ∉ cs) : unquoted quotes mark cs = [] := by
  refine List.filter_eq_nil_iff.2 ?_
  intro i _ hi
  simp only [Bool.and_eq_true, beq_iff_eq] at hi
  exact h (List.mem_of_getElem? hi.1)

theorem odd_eq_false_iff {n : Nat} : (n % 2 == 1) = false ↔ n % 2 = 0 := by
  rw [beq_eq_false_iff_ne]
  omega

/-- A reader of quotes has a flag for an odd number of them, and each quote turns it over. -/
theorem odd_succ (n : Nat) : ((n + 1) % 2 == 1) = !(n % 2 == 1) := by
  rw [Bool.eq_iff_iff]
  simp only [beq_iff_eq, Bool.not_eq_true', odd_eq_false_iff]
  omega

/-- Behind an odd number of quotes, no mark of a text with doubled quotes is outside. -/
theorem unquoted_doubled (hmark : mark ≠ '"') (hquotes : quotes % 2 = 1) (cs : List Char) :
    unquoted quotes mark (doubled '"' cs) = [] := by
  induction cs generalizing quotes with
  | nil => rfl
  | cons c cs ih =>
    by_cases hc : c = '"'
    · subst hc
      have hpair : unquoted quotes mark ['"', '"'] = [] := unquoted_of_not_mem (by simpa using hmark)
      rw [doubled_cons_mark]
      exact unquoted_append_eq_nil_iff.2 ⟨hpair, ih (by simp; omega)⟩
    · have hsingle : unquoted quotes mark [c] = [] := by simp [unquoted_cons, hquotes]
      rw [doubled_cons_of_ne hc]
      exact unquoted_append_eq_nil_iff.2 ⟨hsingle, ih (by simpa [hc] using hquotes)⟩

theorem count_doubled (cs : List Char) : (doubled '"' cs).count '"' = 2 * cs.count '"' := by
  induction cs with
  | nil => rfl
  | cons c cs ih =>
    by_cases hc : c = '"'
    · subst hc
      rw [doubled_cons_mark, List.count_cons_self, List.count_cons_self, List.count_cons_self, ih, Nat.mul_succ]
    · rw [doubled_cons_of_ne hc, List.count_cons_of_ne hc, ih, List.count_cons_of_ne hc]

end Text

namespace Identifier

open Text (unquoted)

/-! ## Written names -/

/-- No character of a plain name is a quote. -/
theorem quote_not_mem {name : String} (h : needsQuoting name = false) : '"' ∉ name.toList := by
  obtain ⟨c, cs, htext, -, htail⟩ := exists_of_not_needsQuoting h
  intro hmem
  rw [htext] at hmem
  exact absurd (htail '"' hmem) (by decide)

/-- A written name leaves its reader outside quotes. -/
theorem count_quote (name : String) : (quote name).toList.count '"' % 2 = 0 := by
  unfold quote
  split
  · have hcount : (enclose name).toList.count '"' = 2 * (name.toList.count '"' + 1) := by
      simp [enclose, Text.count_doubled, Nat.mul_add]
    rw [hcount, Nat.mul_mod_right]
  · next hplain =>
    rw [List.count_eq_zero.2 (quote_not_mem (by simpa using hplain))]

/-- A mark that no plain name has is nowhere outside the quotes of a written name. -/
theorem unquoted_quote {mark : Char} (hpart : isTailChar mark = false) (hmark : mark ≠ '"') (name : String) :
    unquoted 0 mark (quote name).toList = [] := by
  unfold quote
  split
  · have hopening : unquoted 0 mark ['"'] = [] := Text.unquoted_of_not_mem (by simpa using hmark)
    have hclosing : ∀ quotes, unquoted quotes mark ['"'] = [] :=
      fun _ => Text.unquoted_of_not_mem (by simpa using hmark)
    have hinside : unquoted 1 mark (Text.doubled '"' name.toList) = [] := Text.unquoted_doubled hmark rfl _
    rw [enclose, String.toList_ofList, ← List.singleton_append]
    exact Text.unquoted_append_eq_nil_iff.2
      ⟨Text.unquoted_append_eq_nil_iff.2 ⟨hopening, hinside⟩, hclosing _⟩
  · next hplain =>
    obtain ⟨c, cs, htext, -, htail⟩ := exists_of_not_needsQuoting (by simpa using hplain)
    refine Text.unquoted_of_not_mem ?_
    intro hmem
    rw [htext] at hmem
    rw [htail mark hmem] at hpart
    cases hpart

theorem normalize_quote (name : String) : normalize (quote name) = name := by
  unfold quote
  split
  · exact normalize_enclose name
  · next hplain => exact normalize_of_not_needsQuoting (by simpa using hplain)

/-! ## Parts -/

theorem splitDots_ne_nil (inQuotes : Bool) (cs : List Char) : splitDots inQuotes cs ≠ [] := by
  cases cs with
  | nil => simp [splitDots]
  | cons c cs =>
    rw [splitDots]
    split
    · simp
    · cases splitDots (if c = '"' then !inQuotes else inQuotes) cs <;> simp [growFirst]

theorem growFirst_append (c : Char) {ps : List (List Char)} (h : ps ≠ []) (qs : List (List Char)) :
    growFirst c (ps ++ qs) = growFirst c ps ++ qs := by
  cases ps with
  | nil => exact absurd rfl h
  | cons p ps => rfl

/-- Splitting by the number of quotes that have been read. -/
theorem splitDots_cons (quotes : Nat) (c : Char) (cs : List Char) :
    splitDots (quotes % 2 == 1) (c :: cs) =
      if c = '.' ∧ quotes % 2 = 0 then [] :: splitDots (quotes % 2 == 1) cs
      else growFirst c (splitDots ((quotes + [c].count '"') % 2 == 1) cs) := by
  rw [splitDots]
  simp only [Text.odd_eq_false_iff]
  split
  · rfl
  · by_cases hc : c = '"'
    · subst hc
      simp [Text.odd_succ]
    · simp [hc]

/-- The parts of a text with dots between them again are the text. -/
theorem intercalate_splitDots (inQuotes : Bool) (cs : List Char) : ['.'].intercalate (splitDots inQuotes cs) = cs := by
  induction cs generalizing inQuotes with
  | nil => rfl
  | cons c cs ih =>
    rw [splitDots]
    split
    · next hdot =>
      have hnext := ih inQuotes
      obtain ⟨p, ps, hparts⟩ := List.exists_cons_of_ne_nil (splitDots_ne_nil inQuotes cs)
      rw [hparts] at hnext ⊢
      rw [List.intercalate_cons_cons, hnext, hdot.1]
      rfl
    · have hnext := ih (if c = '"' then !inQuotes else inQuotes)
      obtain ⟨p, ps, hparts⟩ := List.exists_cons_of_ne_nil
        (splitDots_ne_nil (if c = '"' then !inQuotes else inQuotes) cs)
      rw [hparts] at hnext ⊢
      rw [growFirst]
      cases ps with
      | nil => simpa using hnext
      | cons q qs => simpa [List.intercalate_cons_cons] using hnext

/-- There is one part more than there are dots outside quotes. -/
theorem length_splitDots_eq (quotes : Nat) (cs : List Char) :
    (splitDots (quotes % 2 == 1) cs).length = (unquoted quotes '.' cs).length + 1 := by
  -- The one side keeps whether a quote is open, the other how many quotes there were.
  induction cs generalizing quotes with
  | nil => rfl
  | cons c cs ih =>
    rw [splitDots_cons, Text.unquoted_cons]
    split
    · next hdot =>
      have hsame : quotes + [c].count '"' = quotes := by simp [hdot.1]
      rw [hsame, List.length_cons, ih quotes]
      simp
    · have hgrown : ∀ ps : List (List Char), ps ≠ [] → (growFirst c ps).length = ps.length := by
        intro ps hps
        cases ps with
        | nil => exact absurd rfl hps
        | cons p ps => rfl
      rw [hgrown _ (splitDots_ne_nil _ cs), ih]
      simp

theorem splitDots_of_unquoted_eq_nil {quotes : Nat} {cs : List Char} (h : unquoted quotes '.' cs = []) :
    splitDots (quotes % 2 == 1) cs = [cs] := by
  have hlength := length_splitDots_eq quotes cs
  rw [h] at hlength
  obtain ⟨part, hpart⟩ := List.length_eq_one_iff.1 hlength
  have hjoined := intercalate_splitDots (quotes % 2 == 1) cs
  rw [hpart, List.intercalate_singleton] at hjoined
  rw [hpart, hjoined]

/-- A dot behind an even number of quotes ends a part. -/
theorem splitDots_append_dot {quotes : Nat} {cs : List Char} (h : (quotes + cs.count '"') % 2 = 0)
    (ds : List Char) :
    splitDots (quotes % 2 == 1) (cs ++ '.' :: ds) = splitDots (quotes % 2 == 1) cs ++ splitDots false ds := by
  induction cs generalizing quotes with
  | nil =>
    have heven : quotes % 2 = 0 := by simpa using h
    rw [List.nil_append, splitDots_cons, if_pos ⟨rfl, heven⟩, heven]
    rfl
  | cons c cs ih =>
    rw [Text.count_quotes_cons] at h
    rw [List.cons_append, splitDots_cons, splitDots_cons]
    split
    · next hdot =>
      have hsame : [c].count '"' = 0 := by simp [hdot.1]
      rw [ih (by omega), List.cons_append]
    · rw [ih (by omega), growFirst_append c (splitDots_ne_nil _ cs)]

/-! ## Names -/

/-- The written names with dots between them. -/
def dotted (names : List String) : String :=
  String.intercalate "." (names.map quote)

theorem dotted_singleton (name : String) : dotted [name] = quote name := by
  simp [dotted]

theorem toList_dotted_cons_cons (name other : String) (names : List String) :
    (dotted (name :: other :: names)).toList = (quote name).toList ++ '.' :: (dotted (other :: names)).toList := by
  simp [dotted, String.intercalate_cons_cons]

theorem map_normalize_quote (names : List String) : (names.map quote).map normalize = names := by
  rw [List.map_map]
  refine (List.map_congr_left ?_).trans (List.map_id names)
  intro name _
  exact normalize_quote name

theorem split_dotted {names : List String} (h : names ≠ []) : split (dotted names) = names.map quote := by
  have hparts : splitDots false (dotted names).toList = names.map fun name => (quote name).toList := by
    induction names with
    | nil => exact absurd rfl h
    | cons name names ih =>
      have hfirst : splitDots false (quote name).toList = [(quote name).toList] :=
        splitDots_of_unquoted_eq_nil (unquoted_quote (by decide) (by decide) name)
      cases names with
      | nil => rw [dotted_singleton, hfirst, List.map_singleton]
      | cons other names =>
        have hclosed : (0 + (quote name).toList.count '"') % 2 = 0 := by simpa using count_quote name
        rw [toList_dotted_cons_cons, List.map_cons, ← ih (by simp)]
        refine (splitDots_append_dot hclosed _).trans ?_
        exact congrArg (· ++ _) hfirst
  rw [split, hparts, List.map_map]
  refine List.map_congr_left ?_
  intro name _
  exact String.ofList_toList

theorem intercalate_split (s : String) : String.intercalate "." (split s) = s := by
  apply String.toList_inj.1
  rw [String.toList_intercalate, split, List.map_map]
  have hlists : (splitDots false s.toList).map (String.toList ∘ String.ofList) = splitDots false s.toList := by
    simp [Function.comp_def]
  rw [hlists]
  exact intercalate_splitDots false s.toList

theorem length_split (s : String) : (split s).length = (unquoted 0 '.' s.toList).length + 1 := by
  rw [split, List.length_map]
  exact length_splitDots_eq 0 s.toList

end Identifier

open Identifier

/-- **Qualified names are found again.** Names that are written with quotes where they need them and dots between them
are split into the written names, and these read as the names. Every text is what its parts are with dots between
them, and there is one part more than there are dots outside quotes. -/
theorem qualified_names_are_found_again {names : List String} (h : names ≠ []) (s : String) :
    split (String.intercalate "." (names.map quote)) = names.map quote ∧
      (split (String.intercalate "." (names.map quote))).map normalize = names ∧
      String.intercalate "." (split s) = s ∧
      (split s).length = (Text.unquoted 0 '.' s.toList).length + 1 := by
  have hsplit : split (String.intercalate "." (names.map quote)) = names.map quote := split_dotted h
  refine ⟨hsplit, ?_, intercalate_split s, length_split s⟩
  rw [hsplit, map_normalize_quote]

/-- Names of quotes and dots, no name at all, and a keyword; a text whose last quote is never closed. -/
theorem qualified_names_are_found_again_quotes :
    String.intercalate "." (["a.b", "\".\"", "", "user", "total"].map quote) =
        "\"a.b\".\"\"\".\"\"\".\"\".\"user\".total" ∧
      split "\"a.b\".\"\"\".\"\"\".\"\".\"user\".total" = ["\"a.b\"", "\"\"\".\"\"\"", "\"\"", "\"user\"", "total"] ∧
      (split "\"a.b\".\"\"\".\"\"\".\"\".\"user\".total").map normalize = ["a.b", "\".\"", "", "user", "total"] ∧
      (split "a.b\".c").length = 2 := by
  have hwritten : String.intercalate "." (["a.b", "\".\"", "", "user", "total"].map quote) =
      "\"a.b\".\"\"\".\"\"\".\"\".\"user\".total" := by decide
  have hfound := @qualified_names_are_found_again ["a.b", "\".\"", "", "user", "total"] (by simp) "a.b\".c"
  rw [hwritten] at hfound
  refine ⟨hwritten, ?_, hfound.2.1, ?_⟩
  · rw [hfound.1]
    decide
  · rw [hfound.2.2.2]
    decide

end Routine
