import Routine.IntoClause
import Routine.Layout.Basic
import Routine.Proofs.Cuts

/-!
# Where an `INTO` clause lands

The scan for the place of the clause stops between two lexemes and outside parentheses
(`standsIn_of_scanLexemes`), so the pieces around the place can be cut by themselves and have the tokens of
the text between them (`tokens?_pieces`). Writing the clause between them adds its tokens and changes no other
(`tokens?_insert`), with one exception: the blanks in front of the place are taken away, and the end of a line
that closes a comment may be among them.
-/

namespace Routine
namespace IntoClause

open Sql

/-! ## Outside parentheses -/

/-- Opening parentheses less closing ones. -/
def balance (ts : List Token) : Int :=
  (ts.count (.sign "(") : Int) - ts.count (.sign ")")

theorem balance_append (ts us : List Token) : balance (ts ++ us) = balance ts + balance us := by
  simp only [balance, List.count_append]
  omega

/-- The place is after some of the lexemes, and outside parentheses if the first is `depth` levels deep. -/
def StandsIn (ls : List Lexeme) (depth : Int) (n : Nat) : Prop :=
  ∃ ms rest, ls = ms ++ rest ∧ n = (spelled ms).length ∧ depth + balance (tokens ms) = 0

theorem StandsIn.cons {l : Lexeme} {ls : List Lexeme} {depth inner : Int} {n start : Nat}
    (h : StandsIn ls inner (n - (start + l.source.length))) (hinner : inner = depth + balance (tokens [l]))
    (hn : start + l.source.length ≤ n) : StandsIn (l :: ls) depth (n - start) := by
  obtain ⟨ms, rest, rfl, hlength, hbalance⟩ := h
  refine ⟨l :: ms, rest, rfl, ?_, ?_⟩
  · rw [spelled_cons, List.length_append]
    omega
  · rw [show l :: ms = [l] ++ ms from rfl, tokens_append, balance_append]
    omega

/-- A boundary that the scan finds stands outside parentheses. -/
theorem standsIn_of_scanLexemes {depth : Int} {mode : Mode} {afterDot : Bool} {start n : Nat}
    {ls : List Lexeme} (h : scanLexemes depth mode afterDot start ls = .boundary n) :
    start ≤ n ∧ StandsIn ls depth (n - start) := by
  fun_induction scanLexemes depth mode afterDot start ls with
  | case1 => cases h
  | case8 depth mode afterDot start l ls value hword hplain hread =>
    cases h
    refine ⟨Nat.le_refl _, [], l :: ls, rfl, Nat.sub_self _, ?_⟩
    simp only [not_or, Decidable.not_not] at hplain
    rw [hplain.2]
    rfl
  | case9 => cases h
  | case2 depth mode afterDot start l ls next htoken ih
  | case3 depth mode afterDot start l ls next htoken ih
  | case4 depth mode afterDot start l ls next htoken ih
  | case5 depth mode afterDot start l ls next htoken ih
  | case6 depth mode afterDot start l ls next value htoken hplain ih
  | case7 depth mode afterDot start l ls next value htoken hplain mode' hread ih =>
    obtain ⟨hle, hstands⟩ := ih h
    refine ⟨Nat.le_trans (Nat.le_add_right _ _) hle, hstands.cons ?_ hle⟩
    simp [tokens, htoken, Token.isGap, balance, Int.sub_eq_add_neg]
  | case10 depth mode afterDot start l ls next hgap hopening hclosing hpoint hword ih =>
    obtain ⟨hle, hstands⟩ := ih h
    refine ⟨Nat.le_trans (Nat.le_add_right _ _) hle, hstands.cons ?_ hle⟩
    have hopening : Token.sign "(" ∉ tokens [l] := by
      intro hmem
      exact hopening (List.mem_singleton.1 (List.mem_filter.1 hmem).1).symm
    have hclosing : Token.sign ")" ∉ tokens [l] := by
      intro hmem
      exact hclosing (List.mem_singleton.1 (List.mem_filter.1 hmem).1).symm
    rw [balance, List.count_eq_zero.2 hopening, List.count_eq_zero.2 hclosing]
    omega

/-! ## The pieces around the place -/

theorem exists_dropBlanksEnd (cs : List Char) :
    ∃ bs, cs = Text.dropBlanksEnd cs ++ bs ∧ ∀ b ∈ bs, Text.isBlank b = true := by
  refine ⟨(cs.reverse.takeWhile Text.isBlank).reverse, ?_, ?_⟩
  · rw [Text.dropBlanksEnd, ← List.reverse_append, List.takeWhile_append_dropWhile, List.reverse_reverse]
  · intro b hb
    exact List.all_eq_true.1 List.all_takeWhile b (List.mem_reverse.1 hb)

theorem not_isBlank_of_dropBlanksEnd {cs : List Char} {c : Char} (h : c ∈ (Text.dropBlanksEnd cs).getLast?) :
    Text.isBlank c = false := by
  rw [Text.dropBlanksEnd, List.getLast?_reverse] at h
  have hnot := List.head?_dropWhile_not Text.isBlank cs.reverse
  rw [Option.mem_def.1 h] at hnot
  simpa using hnot

/-- The pieces have the tokens of the text between them, and the first ends outside parentheses. -/
structure Splits (sql before after : List Char) (ts us : List Token) : Prop where
  joined : before ++ after = sql
  before : tokens? before = some ts
  after : tokens? after = some us
  outside : us = [] ∨ balance ts = 0

/-- Blanks at the end of the first piece go to the second. -/
theorem splits_of_cut {ms rest : List Lexeme} (h : Cut [] (ms ++ rest))
    (houtside : tokens rest = [] ∨ balance (tokens ms) = 0) :
    Splits (spelled (ms ++ rest)) (Text.dropBlanksEnd (spelled ms))
      ((spelled (ms ++ rest)).drop (Text.dropBlanksEnd (spelled ms)).length) (tokens ms) (tokens rest) := by
  obtain ⟨lb, hlb, hbefore, htokens⟩ := h.left.dropBlanksEnd
  obtain ⟨bs, hbs, hblank⟩ := exists_dropBlanksEnd (spelled ms)
  obtain ⟨la, hla, hafter, htokens'⟩ := (Cut.append_iff.1 h).2.append_blanks hblank
  have htext : spelled (ms ++ rest) = spelled lb ++ spelled la := by
    rw [spelled_append, hafter, hbefore, ← List.append_assoc, ← hbs]
  rw [← hbefore, htext, List.drop_left]
  exact ⟨rfl, htokens ▸ tokens?_spelled hlb, htokens' ▸ tokens?_spelled hla, houtside⟩

theorem tokens?_pieces {sql before after : String} {ls : List Lexeme} (hsql : lexemes sql.toList = .ok ls)
    (h : placement sql = .between before after) :
    ∃ ts us, Splits sql.toList before.toList after.toList ts us ∧ tokens ls = ts ++ us := by
  obtain ⟨hcut, hspelled⟩ := lexemes_eq_ok_iff.1 hsql
  rw [placement, hsql] at h
  dsimp only at h
  cases hfound : scanLexemes 0 .undecided false 0 ls with
  | present =>
    rw [hfound] at h
    cases h
  | atEnd =>
    rw [hfound, ← hspelled] at h
    obtain ⟨rfl, rfl⟩ := Placement.between.inj h
    have hall : Cut [] (ls ++ []) := by rwa [List.append_nil]
    have hsplits := splits_of_cut hall (.inl rfl)
    rw [List.append_nil] at hsplits
    exact ⟨tokens ls, tokens [], by simpa [hspelled] using hsplits, (List.append_nil _).symm⟩
  | boundary n =>
    obtain ⟨-, ms, rest, rfl, hn, hbalance⟩ := standsIn_of_scanLexemes hfound
    rw [Nat.sub_zero] at hn
    rw [Int.zero_add] at hbalance
    rw [hfound, ← hspelled] at h
    obtain ⟨rfl, rfl⟩ := Placement.between.inj h
    have htake : sql.toList.take n = spelled ms := by
      rw [← hspelled, hn, spelled_append, List.take_left]
    have hsplits := splits_of_cut hcut (.inr hbalance)
    exact ⟨tokens ms, tokens rest, by simpa [htake, hspelled] using hsplits, tokens_append ms rest⟩

/-- A clause that does not end in a comment is written between the tokens of the pieces. -/
theorem tokens?_insert {sql clause before after : String} {ts us vs : List Token}
    (hplacement : placement sql = .between before after)
    (hsplits : Splits sql.toList before.toList after.toList ts us)
    (hbefore : endsInComment before.toList = false) (hclause : tokens? clause.toList = some vs)
    (hopen : endsInComment clause.toList = false) :
    tokens? (insert sql clause).toList = some (ts ++ vs ++ us) := by
  have hrest := tokens?_strip hsplits.after
  rw [insert, hplacement]
  dsimp only
  split
  · next hempty =>
    have hnil : Text.strip after.toList = [] := by simpa [Text.trim] using hempty
    have hus : us = [] := by
      rw [hnil, tokens?_nil] at hrest
      exact (Option.some.inj hrest).symm
    have hspaced := tokens?_spaced hsplits.before hclause hbefore
    simpa [hus] using hspaced
  · have hspaced := tokens?_spaced hsplits.before (tokens?_spaced hclause hrest hopen) hbefore
    simpa [Text.trim] using hspaced

/-! ## Clauses -/

/-- The token is part of a name: a word, or the point between two. -/
def isNamePart : Token → Bool
  | .word _ _ => true
  | .sign text => text == "."
  | _ => false

/-- The text is a name: words with points between them. -/
def isName (name : String) : Bool :=
  match lexemes name.toList with
  | .ok ls => !ls.isEmpty && ls.all fun l => isNamePart l.token
  | .error _ => false

theorem exists_cut_of_isName {name : String} (h : isName name = true) :
    ∃ ls, Cut [] ls ∧ spelled ls = name.toList ∧ ls ≠ [] ∧ ∀ l ∈ ls, isNamePart l.token = true := by
  unfold isName at h
  split at h
  · next ls hls =>
    obtain ⟨hcut, hspelled⟩ := lexemes_eq_ok_iff.1 hls
    obtain ⟨hsome, hparts⟩ := Bool.and_eq_true_iff.1 h
    exact ⟨ls, hcut, hspelled, by simpa using hsome, List.all_eq_true.1 hparts⟩
  · cases h

/-- The clause that puts rows into the names. -/
def clauseFor (strict : Bool) (names : List String) : String :=
  "INTO " ++ (if strict then "STRICT " else "") ++ commas names

theorem not_isOpenComment_of_isNamePart {l : Lexeme} {more : List Char} (h : isNamePart l.token = true)
    (hstarts : l.Starts more) : l.isOpenComment = false := by
  refine Bool.eq_false_iff.2 fun hopen => ?_
  rw [hstarts.token_of_isOpenComment hopen] at h
  cases h

/-- No part of a name takes a comma. -/
theorem not_takes_of_isNamePart {l : Lexeme} {more : List Char} (h : isNamePart l.token = true)
    (hstarts : l.Starts more) : Lexer.takes l.source ',' = false := by
  refine Bool.eq_false_iff.2 fun htakes => ?_
  rcases Lexeme.cases_of_takes htakes with hopen | hquestion | ⟨-, hcomma⟩ | ⟨-, hcomma⟩
  · exact absurd hopen (by rw [not_isOpenComment_of_isNamePart h hstarts]; decide)
  · rw [hstarts.token_of_question hquestion] at h
    exact absurd h (by decide)
  · exact absurd hcomma (by decide)
  · exact absurd hcomma (by decide)

theorem getLast?_append_cons {ms : List Lexeme} (h : ms ≠ []) (ls : List Lexeme) (l : Lexeme) :
    (ls ++ l :: ms).getLast? = ms.getLast? := by
  cases hm : ms.getLast? with
  | none => exact absurd (List.getLast?_eq_none_iff.1 hm) h
  | some m => simp [List.getLast?_append, List.getLast?_cons, hm]

/-- Names with commas between them can be cut, and the last lexeme is part of a name. -/
theorem exists_cut_commas {names : List String} (h : ∀ name ∈ names, isName name = true) (hne : names ≠ []) :
    ∃ ls, Cut [] ls ∧ spelled ls = (commas names).toList ∧ ls ≠ [] ∧
      ∀ l ∈ ls.getLast?, isNamePart l.token = true := by
  induction names with
  | nil => exact absurd rfl hne
  | cons name names ih =>
    obtain ⟨hname, hnames⟩ := List.forall_mem_cons.1 h
    obtain ⟨ls, hcut, hspelled, hsome, hpart⟩ := exists_cut_of_isName hname
    obtain _ | ⟨next, names⟩ := names
    · exact ⟨ls, hcut, hspelled, hsome, fun l hl => hpart l (List.mem_of_getLast? hl)⟩
    · obtain ⟨ms, hms, hrest, hmsome, hlast⟩ := ih hnames (List.cons_ne_nil _ _)
      have hcomma : Cut [] (⟨.sign ",", [',']⟩ :: ⟨.gap, [' ']⟩ :: ms) :=
        ⟨⟨',', [], rfl, rfl⟩, ⟨' ', [], rfl, rfl⟩, hms⟩
      refine ⟨ls ++ ⟨.sign ",", [',']⟩ :: ⟨.gap, [' ']⟩ :: ms, hcut.join hcomma ?_ ?_, ?_, by simp [hsome],
        ?_⟩
      · rintro s ⟨⟩
        decide
      · rintro l hl s ⟨⟩
        exact not_takes_of_isNamePart (hpart l (List.mem_of_getLast? hl)) (hcut.starts_of_getLast? hl)
      · rw [commas, String.intercalate_cons_cons]
        simp [hspelled, hrest, commas]
      · intro l hl
        refine hlast l ?_
        rwa [List.append_cons, getLast?_append_cons hmsome] at hl

/-- A keyword in front of a clause. -/
theorem Cut.keyword_cons {w : Lexeme} {ls : List Lexeme} (hw : w.Starts [])
    (htakes : Lexer.takes w.source ' ' = false) (hls : Cut [] ls) : Cut [] (w :: ⟨.gap, [' ']⟩ :: ls) := by
  have hword : Cut [] [w] := ⟨hw, trivial⟩
  have hblank : Cut [] (⟨.gap, [' ']⟩ :: ls) := ⟨⟨' ', [], rfl, rfl⟩, hls⟩
  refine hword.join hblank ?_ ?_
  · rintro s ⟨⟩
    decide
  · rintro l ⟨⟩ s ⟨⟩
    exact htakes

theorem clauseFor_reads (strict : Bool) {names : List String} (h : ∀ name ∈ names, isName name = true)
    (hne : names ≠ []) :
    (∃ ts, tokens? (clauseFor strict names).toList = some ts) ∧
      endsInComment (clauseFor strict names).toList = false := by
  obtain ⟨ls, hls, hspelled, hsome, hlast⟩ := exists_cut_commas h hne
  have hinto : Lexeme.Starts ⟨.word "INTO" false, ['I', 'N', 'T', 'O']⟩ [] := ⟨_, _, rfl, rfl⟩
  have hstrict : Lexeme.Starts ⟨.word "STRICT" false, ['S', 'T', 'R', 'I', 'C', 'T']⟩ [] :=
    ⟨_, _, rfl, rfl⟩
  obtain ⟨ms, hms, hclause, hmlast⟩ : ∃ ms, Cut [] ms ∧ spelled ms = (clauseFor strict names).toList ∧
      ms.getLast? = ls.getLast? := by
    cases strict with
    | false =>
      exact ⟨_, Cut.keyword_cons hinto (by decide) hls, by simp [clauseFor, hspelled],
        getLast?_append_cons hsome [_] _⟩
    | true =>
      exact ⟨_, Cut.keyword_cons hinto (by decide) (Cut.keyword_cons hstrict (by decide) hls),
        by simp [clauseFor, hspelled], getLast?_append_cons hsome [_, _, _] _⟩
  refine ⟨⟨tokens ms, hclause ▸ tokens?_spelled hms⟩, ?_⟩
  rw [← hclause, endsInComment_spelled hms, hmlast]
  cases hl : ls.getLast? with
  | none => rfl
  | some l => exact not_isOpenComment_of_isNamePart (hlast l hl) (hls.starts_of_getLast? hl)

end IntoClause

open IntoClause Sql

/-- **The clause adds its tokens and changes no other.** Where a text that can be cut gets its clause between
two pieces, and the first piece does not end in a comment, the tokens of the result are those of the first
piece, of the clause and of the second piece. The pieces make up the text and have its tokens, and the first
one ends outside parentheses, or nothing follows. -/
theorem into_clause_adds_its_tokens {sql before after : String} (hsql : (tokens? sql.toList).isSome = true)
    (hplacement : placement sql = .between before after) {names : List String}
    (hnames : ∀ name ∈ names, isName name = true) (hne : names ≠ []) (strict : Bool)
    (hopen : endsInComment before.toList = false) :
    ∃ ts us vs, Splits sql.toList before.toList after.toList ts us ∧
      tokens? sql.toList = some (ts ++ us) ∧ tokens? (clauseFor strict names).toList = some vs ∧
      tokens? (insert sql (clauseFor strict names)).toList = some (ts ++ vs ++ us) := by
  cases hls : lexemes sql.toList with
  | error fault =>
    rw [tokens?, hls] at hsql
    cases hsql
  | ok ls =>
    obtain ⟨ts, us, hsplits, htokens⟩ := tokens?_pieces hls hplacement
    obtain ⟨⟨vs, hvs⟩, hclause⟩ := clauseFor_reads strict hnames hne
    refine ⟨ts, us, vs, hsplits, ?_, hvs, tokens?_insert hplacement hsplits hopen hvs hclause⟩
    rw [tokens?, hls]
    exact congrArg some htokens

/-- A query with a subquery, a string and comments, one of them right before the place. -/
theorem into_clause_adds_its_tokens_subquery :
    placement "SELECT (SELECT 'FROM' FROM p), -- all\n q /* so far */\nFROM t" =
        .between "SELECT (SELECT 'FROM' FROM p), -- all\n q /* so far */" "\nFROM t" ∧
      ∃ ts us vs, Splits "SELECT (SELECT 'FROM' FROM p), -- all\n q /* so far */\nFROM t".toList
          "SELECT (SELECT 'FROM' FROM p), -- all\n q /* so far */".toList "\nFROM t".toList ts us ∧
        tokens? "SELECT (SELECT 'FROM' FROM p), -- all\n q /* so far */\nFROM t".toList = some (ts ++ us) ∧
        tokens? (clauseFor true ["x", "r.y"]).toList = some vs ∧
        tokens? (insert "SELECT (SELECT 'FROM' FROM p), -- all\n q /* so far */\nFROM t"
          (clauseFor true ["x", "r.y"])).toList = some (ts ++ vs ++ us) := by
  have hplacement : placement "SELECT (SELECT 'FROM' FROM p), -- all\n q /* so far */\nFROM t" =
      .between "SELECT (SELECT 'FROM' FROM p), -- all\n q /* so far */" "\nFROM t" := by decide +kernel
  exact ⟨hplacement, into_clause_adds_its_tokens (by decide +kernel) hplacement (by decide +kernel) (by decide)
    true (by decide +kernel)⟩

/-- After a comment up to the end of its line, the clause is part of the comment. -/
theorem into_clause_lands_in_a_comment :
    ¬ ∀ (sql before after : String) (names : List String) (strict : Bool) (ts us vs : List Token),
      placement sql = .between before after → (∀ name ∈ names, isName name = true) → names ≠ [] →
      tokens? sql.toList = some (ts ++ us) → tokens? before.toList = some ts →
      tokens? after.toList = some us →
      tokens? (clauseFor strict names).toList = some vs →
      tokens? (insert sql (clauseFor strict names)).toList = some (ts ++ vs ++ us) := by
  intro hall
  have hinsert := hall "SELECT a -- note\nFROM t" "SELECT a -- note" "\nFROM t" ["x"] false
    [.word "SELECT" false, .word "a" false] [.word "FROM" false, .word "t" false]
    [.word "INTO" false, .word "x" false] (by decide +kernel) (by decide +kernel) (by decide)
    (by decide +kernel) (by decide +kernel) (by decide +kernel) (by decide +kernel)
  exact absurd hinsert (by decide +kernel)

end Routine
