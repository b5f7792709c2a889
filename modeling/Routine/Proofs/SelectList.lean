import Routine.Proofs.Bytes
import Routine.Proofs.IntoRule

/-!
# The clause and the list of results

In a query the clause goes in front of the first outer word that ends the results (`IntoClause.front`). After
`SELECT` and a list of items that word should be the `FROM` behind the list, but an item may hold such a word
itself: as a name after a point, which the rule leaves out, as a column label after `AS`, or as the `FROM` of
`IS DISTINCT FROM`. For the last two it is taken for the end of the results, and the clause lands in the middle
of the item.

The outer words of a list are those of its items (`hasOuter_itemList`): each item closes its parentheses, so
the next one is outside them again, and ends in no point, so what follows is no name after one (`IsComplete`).
A word starts with no blank, so a clause in front of a word of the list is not at its end
(`byteLength_before_lt`).
-/

namespace Routine

namespace Sql

open Text (isBlank)

deriving instance DecidableEq for Lexeme

namespace Lexeme

/-- A word outside quotes, spelled as it is. -/
def bare (value : String) : Lexeme := ⟨.word value false, value.toList⟩

/-- A sign, spelled as it is. -/
def mark (text : String) : Lexeme := ⟨.sign text, text.toList⟩

def space : Lexeme := ⟨.gap, [' ']⟩

end Lexeme

/-- Only gaps start with a blank. -/
theorem Lexeme.Starts.not_isBlank {l : Lexeme} {more : List Char} (h : l.Starts more)
    (hgap : l.token.isGap = false) : ∃ c cs, l.source = c :: cs ∧ isBlank c = false := by
  obtain ⟨c, cs, hsource, hstep⟩ := h
  refine ⟨c, cs, hsource, Bool.eq_false_iff.2 ?_⟩
  intro hblank
  have htoken : l.token = .gap := by
    rcases Lexer.step_of_isBlank hblank (cs ++ more) with hone | ⟨-, rest, -, htwo⟩
    · exact (Prod.mk.inj (Except.ok.inj (hstep.symm.trans hone))).1
    · exact (Prod.mk.inj (Except.ok.inj (hstep.symm.trans htwo))).1
  rw [htoken] at hgap
  cases hgap

end Sql

namespace IntoClause

open Sql
open Text (isBlank)

/-! ## Words behind other lexemes -/

theorem bareWordsAfter_append (before ls ms : List Lexeme) :
    bareWordsAfter before (ls ++ ms) = bareWordsAfter before ls ++ bareWordsAfter (before ++ ls) ms := by
  induction ls generalizing before with
  | nil => simp [bareWordsAfter]
  | cons l ls ih =>
    rw [List.cons_append, bareWordsAfter, bareWordsAfter]
    split
    · simp [ih]
    · simp [ih]

theorem outerWordsAfter_append (before ls ms : List Lexeme) :
    outerWordsAfter before (ls ++ ms) = outerWordsAfter before ls ++ outerWordsAfter (before ++ ls) ms := by
  rw [outerWordsAfter, bareWordsAfter_append, List.filter_append]
  rfl

/-- A word of the lexemes stands where it says. -/
theorem eq_of_mem_bareWordsAfter {before ls : List Lexeme} {w : BareWord} (h : w ∈ bareWordsAfter before ls) :
    ∃ l rest, before ++ ls = w.before ++ l :: rest ∧ l.token = .word w.value false := by
  induction ls generalizing before with
  | nil => cases h
  | cons l ls ih =>
    rw [List.append_cons]
    rw [bareWordsAfter] at h
    split at h
    · next value htoken =>
      rcases List.mem_cons.1 h with rfl | h
      · exact ⟨l, ls, List.append_assoc _ _ _, htoken⟩
      · exact ih h
    · exact ih h

/-- The word with more lexemes before it. -/
def BareWord.behind (before : List Lexeme) (w : BareWord) : BareWord := ⟨before ++ w.before, w.value⟩

theorem bareWordsAfter_eq_map (before mid ls : List Lexeme) :
    bareWordsAfter (before ++ mid) ls = (bareWordsAfter mid ls).map (BareWord.behind before) := by
  induction ls generalizing mid with
  | nil => rfl
  | cons l ls ih =>
    simp only [bareWordsAfter, List.append_assoc, ih]
    split <;> rfl

/-- The parentheses are closed, and the last token is no point. -/
structure IsComplete (ls : List Lexeme) : Prop where
  balanced : balance (tokens ls) = 0
  noPoint : endsInPoint ls = false

theorem endsInPoint_append {ls : List Lexeme} (h : endsInPoint ls = false) (ms : List Lexeme) :
    endsInPoint (ls ++ ms) = endsInPoint ms := by
  simp only [endsInPoint, tokens_append, List.getLast?_append] at h ⊢
  cases hlast : (tokens ms).getLast? with
  | none => exact h
  | some t => rfl

namespace IsComplete

theorem nil : IsComplete [] := ⟨rfl, rfl⟩

theorem append {ls ms : List Lexeme} (hls : IsComplete ls) (hms : IsComplete ms) : IsComplete (ls ++ ms) where
  balanced := by rw [tokens_append, balance_append, hls.balanced, hms.balanced, Int.add_zero]
  noPoint := (endsInPoint_append hls.noPoint ms).trans hms.noPoint

/-- Behind complete lexemes the same words are outer words. -/
theorem isOuter_behind {before : List Lexeme} (h : IsComplete before) (w : BareWord) :
    (w.behind before).isOuter = w.isOuter := by
  simp only [BareWord.isOuter, BareWord.isOutside, BareWord.isName, BareWord.behind, tokens_append,
    balance_append, h.balanced, Int.zero_add, endsInPoint_append h.noPoint]

theorem outerWordsAfter_eq_map {before : List Lexeme} (h : IsComplete before) (ls : List Lexeme) :
    outerWordsAfter before ls = (outerWords ls).map (BareWord.behind before) := by
  have hwords := bareWordsAfter_eq_map before [] ls
  rw [List.append_nil] at hwords
  rw [outerWordsAfter, hwords, List.filter_map]
  congr 1
  exact List.filter_congr fun w _ => h.isOuter_behind w

end IsComplete

/-- One of the outer words is one of the keywords. -/
def hasOuter (keywords : List String) (ls : List Lexeme) : Bool :=
  (outerWords ls).any (BareWord.isOneOf keywords)

theorem hasOuter_behind {before : List Lexeme} (h : IsComplete before) (keywords : List String)
    (ls : List Lexeme) :
    (outerWordsAfter before ls).any (BareWord.isOneOf keywords) = hasOuter keywords ls := by
  rw [h.outerWordsAfter_eq_map, List.any_map]
  rfl

theorem hasOuter_append {ls : List Lexeme} (h : IsComplete ls) (keywords : List String) (ms : List Lexeme) :
    hasOuter keywords (ls ++ ms) = (hasOuter keywords ls || hasOuter keywords ms) := by
  rw [hasOuter, outerWords, outerWordsAfter_append, List.any_append, List.nil_append, hasOuter_behind h]
  rfl

/-! ## Lists of items -/

theorem isComplete_comma : IsComplete [.mark ","] := ⟨by decide, by decide⟩

/-- The items with commas between them. -/
def itemList (items : List (List Lexeme)) : List Lexeme := List.intercalate [.mark ","] items

theorem itemList_cons_cons (item next : List Lexeme) (items : List (List Lexeme)) :
    itemList (item :: next :: items) = item ++ ([.mark ","] ++ itemList (next :: items)) := by
  rw [itemList, List.intercalate_cons_cons, List.append_assoc]
  rfl

theorem isComplete_itemList {items : List (List Lexeme)} (h : ∀ item ∈ items, IsComplete item) :
    IsComplete (itemList items) := by
  induction items with
  | nil => exact .nil
  | cons item items ih =>
    obtain ⟨hitem, hitems⟩ := List.forall_mem_cons.1 h
    cases items with
    | nil => simpa [itemList] using hitem
    | cons next items =>
      rw [itemList_cons_cons]
      exact hitem.append (isComplete_comma.append (ih hitems))

/-- **The outer words of a list are those of its items.** -/
theorem hasOuter_itemList {items : List (List Lexeme)} (h : ∀ item ∈ items, IsComplete item)
    (keywords : List String) : hasOuter keywords (itemList items) = items.any (hasOuter keywords) := by
  induction items with
  | nil => rfl
  | cons item items ih =>
    obtain ⟨hitem, hitems⟩ := List.forall_mem_cons.1 h
    cases items with
    | nil => simp [itemList]
    | cons next items =>
      rw [itemList_cons_cons, hasOuter_append hitem, hasOuter_append isComplete_comma, ih hitems, List.any_cons]
      rfl

/-! ## Keywords that an item may hold -/

/-- The keywords that the scan of a query acts on. -/
def enders : List String := "INTO" :: boundaries

/-- The token is the word, outside quotes. -/
def isBareWord (word : String) : Token → Bool
  | .word value false => Text.sameName value word
  | _ => false

/-- The tokens start with the words, and no point is next. -/
def startsWithWords : List String → List Token → Bool
  | [], ts => ts.head? ≠ some (.sign ".")
  | word :: words, t :: ts => isBareWord word t && startsWithWords words ts
  | _ :: _, [] => false

/-- The words are the last tokens, and the first of them is no name after a point. -/
def endsInWords (words : List String) (ls : List Lexeme) : Bool :=
  startsWithWords words.reverse (tokens ls).reverse

namespace BareWord

/-- The word is a column label. -/
def isLabel (w : BareWord) : Bool := endsInWords ["AS"] w.before

/-- The word is the last one of the comparison `IS DISTINCT FROM` or `IS NOT DISTINCT FROM`. -/
def isCompared (w : BareWord) : Bool :=
  w.isOneOf ["FROM"] &&
    (endsInWords ["IS", "DISTINCT"] w.before || endsInWords ["IS", "NOT", "DISTINCT"] w.before)

end BareWord

/-- An item of a list of results: it is complete, and a keyword outside parentheses is a name after a point, a
column label or part of a comparison. -/
structure IsItem (item : List Lexeme) : Prop extends IsComplete item where
  keywords : ∀ w ∈ bareWordsAfter [] item, w.isOutside = true → w.isOneOf enders = true →
    w.isName = true ∨ w.isLabel = true ∨ w.isCompared = true

instance (item : List Lexeme) : Decidable (IsItem item) :=
  decidable_of_iff
    (balance (tokens item) = 0 ∧ endsInPoint item = false ∧
      ∀ w ∈ bareWordsAfter [] item, w.isOutside = true → w.isOneOf enders = true →
        w.isName = true ∨ w.isLabel = true ∨ w.isCompared = true)
    ⟨fun h => ⟨⟨h.1, h.2.1⟩, h.2.2⟩, fun h => ⟨h.balanced, h.noPoint, h.keywords⟩⟩

/-- A keyword outside parentheses is a column label of the item or part of a comparison in it. -/
def holdsKeyword (item : List Lexeme) : Bool :=
  (bareWordsAfter [] item).any fun w => w.isOutside && w.isOneOf enders && (w.isLabel || w.isCompared)

/-- After a word there is no point. -/
theorem not_endsInPoint_of_endsInWords {words : List String} {ls : List Lexeme}
    (h : endsInWords words ls = true) (hne : words ≠ []) : endsInPoint ls = false := by
  obtain ⟨word, rest, hwords⟩ := List.exists_cons_of_ne_nil (List.reverse_ne_nil_iff.2 hne)
  rw [endsInWords, hwords] at h
  rw [endsInPoint, List.getLast?_eq_head?_reverse, decide_eq_false_iff_not]
  cases hreverse : (tokens ls).reverse with
  | nil => simp
  | cons t ts =>
    intro hpoint
    obtain rfl : t = .sign "." := by simpa using hpoint
    rw [hreverse] at h
    cases h

theorem BareWord.isOuter_of_isLabel_or_isCompared {w : BareWord} (houtside : w.isOutside = true)
    (h : w.isLabel = true ∨ w.isCompared = true) : w.isOuter = true := by
  have hname : w.isName = false := by
    rcases h with hlabel | hcompared
    · exact not_endsInPoint_of_endsInWords hlabel (List.cons_ne_nil _ _)
    · rw [isCompared, Bool.and_eq_true, Bool.or_eq_true] at hcompared
      rcases hcompared.2 with hdistinct | hdistinct
      · exact not_endsInPoint_of_endsInWords hdistinct (List.cons_ne_nil _ _)
      · exact not_endsInPoint_of_endsInWords hdistinct (List.cons_ne_nil _ _)
  rw [isOuter, houtside, hname]
  rfl

/-- The outer keywords of an item are its labels and comparisons. -/
theorem IsItem.hasOuter_eq {item : List Lexeme} (h : IsItem item) :
    hasOuter enders item = holdsKeyword item := by
  rw [hasOuter, outerWords, outerWordsAfter, List.any_filter, holdsKeyword, Bool.eq_iff_iff]
  simp only [List.any_eq_true, Bool.and_eq_true, Bool.or_eq_true]
  constructor
  · rintro ⟨w, hw, houter, hender⟩
    rw [BareWord.isOuter, Bool.and_eq_true, Bool.not_eq_true'] at houter
    refine ⟨w, hw, ⟨houter.1, hender⟩, ?_⟩
    refine (h.keywords w hw houter.1 hender).resolve_left ?_
    rw [houter.2]
    decide
  · rintro ⟨w, hw, ⟨houtside, hender⟩, hallowed⟩
    exact ⟨w, hw, w.isOuter_of_isLabel_or_isCompared houtside hallowed, hender⟩

/-! ## The place in a query -/

/-- `SELECT`, a list of items, `FROM` and the rest. -/
structure SelectFrom where
  select : Lexeme
  items : List (List Lexeme)
  origin : Lexeme
  rest : List Lexeme
  isSelect : isBareWord "SELECT" select.token = true
  isItem : ∀ item ∈ items, IsItem item
  isFrom : isBareWord "FROM" origin.token = true

namespace SelectFrom

/-- The query up to the end of the list. -/
def results (q : SelectFrom) : List Lexeme := q.select :: itemList q.items

def lexemes (q : SelectFrom) : List Lexeme := q.results ++ q.origin :: q.rest

end SelectFrom

theorem exists_of_isBareWord {word : String} {t : Token} (h : isBareWord word t = true) :
    ∃ value, t = .word value false ∧ isOneOf [word] value = true := by
  unfold isBareWord at h
  split at h
  · next value => exact ⟨value, rfl, by simpa [isOneOf] using h⟩
  · cases h

theorem isComplete_word {l : Lexeme} {value : String} (h : l.token = .word value false) : IsComplete [l] where
  balanced := balance_other (by simp [h]) (by simp [h])
  noPoint := by simp [endsInPoint, tokens, h, Token.isGap]

/-- A word behind complete lexemes is the next outer word. -/
theorem IsComplete.outerWordsAfter_word {before : List Lexeme} (hbefore : IsComplete before) {l : Lexeme}
    {value : String} (h : l.token = .word value false) (ls : List Lexeme) :
    outerWordsAfter before (l :: ls) = ⟨before, value⟩ :: outerWordsAfter (before ++ [l]) ls := by
  have houter : (BareWord.mk before value).isOuter = true := by
    simp [BareWord.isOuter, BareWord.isOutside, BareWord.isName, hbefore.balanced, hbefore.noPoint]
  rw [outerWordsAfter_cons, outerWord?, h]
  simp [houter]

namespace SelectFrom

theorem isComplete_item (q : SelectFrom) : ∀ item ∈ q.items, IsComplete item :=
  fun item hitem => (q.isItem item hitem).toIsComplete

theorem isComplete_select (q : SelectFrom) : IsComplete [q.select] := by
  obtain ⟨value, hvalue, -⟩ := exists_of_isBareWord q.isSelect
  exact isComplete_word hvalue

theorem isComplete_results (q : SelectFrom) : IsComplete q.results :=
  q.isComplete_select.append (isComplete_itemList q.isComplete_item)

/-- The list has no outer keyword where none of its items holds one. -/
theorem not_any_enders_iff (q : SelectFrom) :
    (outerWordsAfter [q.select] (itemList q.items)).any (BareWord.isOneOf enders) = false ↔
      ∀ item ∈ q.items, holdsKeyword item = false := by
  rw [hasOuter_behind q.isComplete_select, hasOuter_itemList q.isComplete_item]
  simp only [List.any_eq_false, Bool.not_eq_true]
  exact forall₂_congr fun item hitem => by rw [(q.isItem item hitem).hasOuter_eq]

/-- After `SELECT` the rule goes through the outer words of the list, and then it comes to `FROM`. -/
theorem front_eq (q : SelectFrom) (text : List Char) :
    ∃ w later, w.before = q.results ∧ w.isOneOf ["FROM"] = true ∧
      front text (outerWords q.lexemes) =
        frontOfQuery text (outerWordsAfter [q.select] (itemList q.items) ++ w :: later) := by
  obtain ⟨first, hfirst, hselect⟩ := exists_of_isBareWord q.isSelect
  obtain ⟨origin, horigin, hfrom⟩ := exists_of_isBareWord q.isFrom
  refine ⟨⟨q.results, origin⟩, outerWordsAfter (q.results ++ [q.origin]) q.rest, rfl, hfrom, ?_⟩
  have hwords : outerWords q.lexemes = ⟨[], first⟩ ::
      (outerWordsAfter [q.select] (itemList q.items) ++
        ⟨q.results, origin⟩ :: outerWordsAfter (q.results ++ [q.origin]) q.rest) := by
    rw [← q.isComplete_results.outerWordsAfter_word horigin]
    show outerWordsAfter [] (q.select :: (itemList q.items ++ q.origin :: q.rest)) = _
    rw [IsComplete.nil.outerWordsAfter_word hfirst, outerWordsAfter_append]
    rfl
  have hquery : isOneOf ["SELECT", "VALUES"] first = true := by
    rw [show ["SELECT", "VALUES"] = ["SELECT"] ++ ["VALUES"] from rfl, isOneOf_append, hselect, Bool.true_or]
  have hread := Mode.front_cons text .undecided ⟨[], first⟩
    (outerWordsAfter [q.select] (itemList q.items) ++
      ⟨q.results, origin⟩ :: outerWordsAfter (q.results ++ [q.origin]) q.rest)
  rw [hwords]
  simpa [Mode.read, hquery, Mode.front] using hread

end SelectFrom

theorem frontOfQuery_of_not_any {text : List Char} {ws later : List BareWord} {w : BareWord}
    (hws : ws.any (BareWord.isOneOf enders) = false) (hw : w.isOneOf ["FROM"] = true) :
    frontOfQuery text (ws ++ w :: later) = some (spelled w.before) := by
  have hnone : ws.find? (BareWord.isOneOf enders) = none := by
    rw [List.find?_eq_none]
    intro x hx
    exact List.any_eq_false.1 hws x hx
  have hender : w.isOneOf enders = true := by
    rw [BareWord.isOneOf, show enders = ["INTO"] ++ (["FROM"] ++ boundaries.tail) from rfl, isOneOf_append,
      isOneOf_append, show isOneOf ["FROM"] w.value = true from hw, Bool.true_or, Bool.or_true]
  have hinto : w.isOneOf ["INTO"] = false := not_isOneOf_of_ne hw (by decide)
  rw [frontOfQuery, ← enders, List.find?_append, hnone, List.find?_cons_of_pos hender, Option.none_or]
  simp [hinto]

/-- The first keyword decides. -/
theorem exists_of_frontOfQuery {text piece : List Char} {ws later : List BareWord}
    (hws : ws.any (BareWord.isOneOf enders) = true) (h : frontOfQuery text (ws ++ later) = some piece) :
    ∃ w ∈ ws, piece = spelled w.before := by
  rw [frontOfQuery, ← enders, List.find?_append] at h
  cases hfind : ws.find? (BareWord.isOneOf enders) with
  | none =>
    obtain ⟨x, hx, hender⟩ := List.any_eq_true.1 hws
    exact absurd hender (List.find?_eq_none.1 hfind x hx)
  | some w =>
    rw [hfind, Option.some_or] at h
    dsimp only at h
    split at h
    · cases h
    · exact ⟨w, List.mem_of_find?_eq_some hfind, (Option.some.inj h).symm⟩

/-- What is not blank is not dropped. -/
theorem byteLength_dropBlanksEnd_lt (cs : List Char) {c : Char} (hc : isBlank c = false) (ds : List Char) :
    Text.byteLength (Text.dropBlanksEnd cs) < Text.byteLength (Text.dropBlanksEnd (cs ++ c :: ds)) := by
  obtain ⟨bs, hcs, -⟩ := exists_dropBlanksEnd cs
  obtain ⟨bs', hall, hblank⟩ := exists_dropBlanksEnd (cs ++ c :: ds)
  have hle : Text.byteLength (Text.dropBlanksEnd cs) ≤ Text.byteLength cs := by
    have hlength := congrArg Text.byteLength hcs
    rw [Text.byteLength_append] at hlength
    omega
  have hnot : c ∉ bs' := by
    intro hmem
    rw [hblank c hmem] at hc
    cases hc
  rcases List.append_eq_append_iff.1 hall with ⟨as, hdropped, hrest⟩ | ⟨as, -, hrest⟩
  · -- The character is among those that stay.
    cases as with
    | nil =>
      have hmem : c ∈ [] ++ bs' := hrest ▸ List.mem_cons_self
      exact absurd hmem hnot
    | cons a as =>
      obtain ⟨rfl, -⟩ := List.cons.inj hrest
      have hpos : 0 < c.utf8Size := c.utf8Size_pos
      rw [hdropped, Text.byteLength_append, Text.byteLength]
      omega
  · exact absurd (hrest ▸ List.mem_append_right as List.mem_cons_self) hnot

/-- In front of a word is not the end of the text. -/
theorem byteLength_before_lt {before ls : List Lexeme} {more : List Char} (hcut : Cut more (before ++ ls))
    {w : BareWord} (hw : w ∈ bareWordsAfter before ls) :
    Text.byteLength (Text.dropBlanksEnd (spelled w.before)) <
      Text.byteLength (Text.dropBlanksEnd (spelled (before ++ ls))) := by
  obtain ⟨l, rest, hls, htoken⟩ := eq_of_mem_bareWordsAfter hw
  rw [hls] at hcut ⊢
  have hstarts : l.Starts (spelled rest ++ more) := (Cut.append_iff.1 hcut).2.1
  obtain ⟨c, cs, hsource, hc⟩ := hstarts.not_isBlank (by rw [htoken]; rfl)
  rw [spelled_append, spelled_cons, hsource, List.cons_append]
  exact byteLength_dropBlanksEnd_lt _ hc _

end IntoClause

open IntoClause Sql

/-- **The clause follows the list of results where no item holds a keyword.** In `SELECT`, a list of items and
`FROM`, the place of the clause is the end of the list exactly when no keyword is a column label of an item or
the end of `IS DISTINCT FROM` in one, outside parentheses. -/
theorem into_clause_follows_the_results_iff {sql : String} {q : SelectFrom}
    (hsql : lexemes sql.toList = .ok q.lexemes) :
    (placement sql).offset = some (Text.byteLength (Text.dropBlanksEnd (spelled q.results))) ↔
      ∀ item ∈ q.items, holdsKeyword item = false := by
  obtain ⟨w, later, hw, hfrom, hfront⟩ := q.front_eq sql.toList
  rw [offset_placement hsql, hfront, ← q.not_any_enders_iff]
  constructor
  · intro hoffset
    refine Bool.eq_false_iff.2 ?_
    intro hkeyword
    obtain ⟨piece, hpiece, hlength⟩ := Option.map_eq_some_iff.1 hoffset
    obtain ⟨keyword, hmem, rfl⟩ := exists_of_frontOfQuery hkeyword hpiece
    have hcut : Cut (spelled (q.origin :: q.rest) ++ []) ([q.select] ++ itemList q.items) :=
      (Cut.append_iff.1 (lexemes_eq_ok_iff.1 hsql).1).1
    have hlt := byteLength_before_lt hcut (List.mem_filter.1 hmem).1
    exact absurd hlength (Nat.ne_of_lt hlt)
  · intro hnone
    rw [frontOfQuery_of_not_any hnone hfrom, hw]
    rfl

/-- The lexemes of `SELECT p.limit, f(q FROM r) AS s FROM plans p`. -/
def limits : SelectFrom where
  select := .bare "SELECT"
  items := [[.space, .bare "p", .mark ".", .bare "limit"],
    [.space, .bare "f", .mark "(", .bare "q", .space, .bare "FROM", .space, .bare "r", .mark ")", .space,
      .bare "AS", .space, .bare "s", .space]]
  origin := .bare "FROM"
  rest := [.space, .bare "plans", .space, .bare "p"]
  isSelect := by decide
  isItem := by decide
  isFrom := by decide

theorem into_clause_follows_the_results_iff_limits :
    lexemes "SELECT p.limit, f(q FROM r) AS s FROM plans p".toList = .ok limits.lexemes ∧
      (placement "SELECT p.limit, f(q FROM r) AS s FROM plans p").offset =
        some (Text.byteLength (Text.dropBlanksEnd (spelled limits.results))) ∧
      spelled limits.results = "SELECT p.limit, f(q FROM r) AS s ".toList := by
  have hsql : lexemes "SELECT p.limit, f(q FROM r) AS s FROM plans p".toList = .ok limits.lexemes :=
    lexemes_of_toOption (by decide +kernel)
  exact ⟨hsql, (into_clause_follows_the_results_iff hsql).2 (by decide +kernel), by decide +kernel⟩

/-- The lexemes of `SELECT a AS limit FROM t`. -/
def labelled : SelectFrom where
  select := .bare "SELECT"
  items := [[.space, .bare "a", .space, .bare "AS", .space, .bare "limit", .space]]
  origin := .bare "FROM"
  rest := [.space, .bare "t"]
  isSelect := by decide
  isItem := by decide
  isFrom := by decide

/-- In front of a column label that is spelled like a keyword, the clause is within its item. -/
theorem into_clause_lands_in_front_of_a_label :
    ¬ ∀ (sql : String) (q : SelectFrom), lexemes sql.toList = .ok q.lexemes →
      (placement sql).offset = some (Text.byteLength (Text.dropBlanksEnd (spelled q.results))) := by
  intro hall
  have hsql : lexemes "SELECT a AS limit FROM t".toList = .ok labelled.lexemes :=
    lexemes_of_toOption (by decide +kernel)
  exact absurd (hall _ _ hsql) (by decide +kernel)

end Routine
