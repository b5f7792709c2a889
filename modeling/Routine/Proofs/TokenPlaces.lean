import Routine.Proofs.AssignmentRule
import Routine.Proofs.Locations
import Routine.Proofs.PuttingBack
import Routine.Sql.Grammar.Parser

/-!
# Texts are cut at the places of tokens

A token stands between two places, counted in lines and columns (`Sql.Grammar.placed`). The lexemes before the token
spell the text up to the first of them, so the offset of that place is the length of their spelling, and the token ends
behind its own (`Sql.Grammar.cutsOut_placeAfter`).

Three cuts of a text are made at a token: in front of the word that an `INTO` clause goes before, around the operator
of an assignment, and around the literal that is the body of a routine. The scans count the characters of the lexemes
that they pass. That the cuts are those at the offsets of the token is shown here for each of the three.
-/

namespace Routine
namespace Sql
namespace Grammar

open Text (Location byteLength)

/-- The token of a lexeme that comes after others. -/
def placeAfter (here : Location) (before : List Lexeme) (l : Lexeme) : Placed :=
  ⟨l.token, ⟨here.after (spelled before), here.after (spelled (before ++ [l]))⟩⟩

theorem placeAfter_cons (here : Location) (m : Lexeme) (before : List Lexeme) (l : Lexeme) :
    placeAfter here (m :: before) l = placeAfter (here.after m.source) before l := by
  simp only [placeAfter, List.cons_append, spelled_cons, Location.after, List.foldl_append]

/-- The tokens are the lexemes other than gaps, each placed by all lexemes before it. -/
theorem mem_placed_iff {here : Location} {ls : List Lexeme} {p : Placed} :
    p ∈ placed here ls ↔
      ∃ before l after, ls = before ++ l :: after ∧ l.token.isGap = false ∧ p = placeAfter here before l := by
  induction ls generalizing here with
  | nil => simp [placed]
  | cons m ls ih =>
    have hfirst : placeAfter here [] m = ⟨m.token, ⟨here, here.after m.source⟩⟩ := by
      simp [placeAfter, Location.after]
    have hlater : p ∈ placed (here.after m.source) ls ↔ ∃ before l after, m :: ls = m :: before ++ l :: after ∧
        l.token.isGap = false ∧ p = placeAfter here (m :: before) l := by
      simp only [ih, placeAfter_cons, List.cons_append, List.cons.injEq, true_and]
    have hhere : p ∈ placed here (m :: ls) ↔
        (m.token.isGap = false ∧ p = placeAfter here [] m) ∨ p ∈ placed (here.after m.source) ls := by
      rw [placed, hfirst]
      cases m.token.isGap <;> simp
    rw [hhere, hlater]
    constructor
    · rintro (⟨hgap, rfl⟩ | ⟨before, l, after, hls, hgap, rfl⟩)
      · exact ⟨[], m, ls, rfl, hgap, rfl⟩
      · exact ⟨m :: before, l, after, hls, hgap, rfl⟩
    · rintro ⟨before, l, after, hls, hgap, rfl⟩
      obtain _ | ⟨m', before⟩ := before
      · obtain ⟨rfl, rfl⟩ := List.cons.inj hls
        exact .inl ⟨hgap, rfl⟩
      · obtain ⟨rfl, -⟩ := List.cons.inj hls
        exact .inr ⟨before, l, after, hls, hgap, rfl⟩

/-- The pieces of the text are those before the token, of it and after it: its places have the offsets where they
meet. -/
structure Placed.CutsOut (p : Placed) (text : String) (before source after : List Char) : Prop where
  joined : text.toList = before ++ source ++ after
  start : p.span.start.offsetAt text = byteLength before
  stop : p.span.stop.offsetAt text = byteLength (before ++ source)

variable {text : String} {ls before after : List Lexeme} {l : Lexeme}

/-- **A token stands where the lexemes before it end.** -/
theorem cutsOut_placeAfter (h : lexemes text.toList = .ok (before ++ l :: after)) :
    (placeAfter .start before l).CutsOut text (spelled before) l.source (spelled after) := by
  have htext : text.toList = spelled before ++ l.source ++ spelled after := by
    rw [← (lexemes_eq_ok_iff.1 h).2, spelled_append, spelled_cons, List.append_assoc]
  refine ⟨htext, ?_, ?_⟩
  · rw [Location.offsetAt, htext, List.append_assoc]
    exact Location.offsetFrom_after ..
  · have hstop : (placeAfter .start before l).span.stop = Location.start.after (spelled before ++ l.source) := by
      simp [placeAfter]
    rw [hstop, Location.offsetAt, htext]
    exact Location.offsetFrom_after ..

/-- Every token of a text is cut out by its places. -/
theorem exists_cutsOut {p : Placed} (h : lexemes text.toList = .ok ls) (hp : p ∈ placed .start ls) :
    ∃ before l after, ls = before ++ l :: after ∧ p.token = l.token ∧
      p.CutsOut text (spelled before) l.source (spelled after) := by
  obtain ⟨before, l, after, rfl, -, rfl⟩ := mem_placed_iff.1 hp
  exact ⟨before, l, after, rfl, rfl, cutsOut_placeAfter h⟩

/-- A lexeme that is no gap is a token that is cut out by its places. -/
theorem exists_placed (h : lexemes text.toList = .ok (before ++ l :: after)) (hgap : l.token.isGap = false) :
    ∃ p ∈ placed .start (before ++ l :: after), p.token = l.token ∧
      p.CutsOut text (spelled before) l.source (spelled after) :=
  ⟨placeAfter .start before l, mem_placed_iff.2 ⟨before, l, after, rfl, hgap, rfl⟩, rfl, cutsOut_placeAfter h⟩

end Grammar
end Sql

/-! ## An `INTO` clause -/

namespace IntoClause

open Sql
open Sql.Grammar (placed)

theorem mem_outerWordsAfter {before ls : List Lexeme} {w : BareWord} (h : w ∈ outerWordsAfter before ls) :
    ∃ l after, before ++ ls = w.before ++ l :: after ∧ l.token = .word w.value false := by
  induction ls generalizing before with
  | nil => cases h
  | cons l ls ih =>
    rw [outerWordsAfter_cons] at h
    rcases List.mem_append.1 h with h | h
    · have hword : outerWord? before l = some w := by simpa using h
      refine ⟨l, ls, by rw [before_of_outerWord? hword], ?_⟩
      unfold outerWord? at hword
      split at hword
      · next value htoken =>
        split at hword
        · cases hword
          exact htoken
        · cases hword
      · cases hword
    · rw [List.append_cons]
      exact ih h

/-- The text in front of the clause is all of it, or ends at an outer word that ends the results. -/
theorem front_cases {text front : List Char} {ws : List BareWord} (h : IntoClause.front text ws = some front) :
    front = text ∨ ∃ w ∈ ws, w.isOneOf boundaries = true ∧ front = spelled w.before := by
  unfold IntoClause.front at h
  split at h
  · exact .inl (Option.some.inj h).symm
  · next m later hdrop =>
    split at h
    · unfold frontOfQuery at h
      split at h
      · exact .inl (Option.some.inj h).symm
      · next w hfind =>
        split at h
        · cases h
        · next hinto =>
          have hlater : w ∈ ws.dropWhile fun w =>
              !w.isOneOf ["SELECT", "VALUES", "INSERT", "UPDATE", "DELETE", "MERGE"] := by
            rw [hdrop]
            exact List.mem_cons_of_mem m (List.mem_of_find?_eq_some hfind)
          have hstops : (w.isOneOf ["INTO"] || w.isOneOf boundaries) = true := by
            rw [← List.find?_some hfind]
            exact (isOneOf_append ["INTO"] boundaries w.value).symm
          refine .inr ⟨w, (List.dropWhile_suffix _).mem hlater, ?_, (Option.some.inj h).symm⟩
          simpa [hinto] using hstops
    · unfold frontOfChange at h
      split at h
      · cases h
      · exact .inl (Option.some.inj h).symm

/-- **The clause goes in front of a token**, where there is one for it to go before: up to the place of a bare word
that ends the results, or else to the end of the text, in either case without the blanks there. -/
theorem placement_at_token {sql before after : String} {ls : List Lexeme} (hsql : lexemes sql.toList = .ok ls)
    (h : placement sql = .between before after) :
    before.toList = Text.dropBlanksEnd sql.toList ∨
      ∃ p ∈ placed .start ls, ∃ value front source back, p.token = .word value false ∧
        isOneOf boundaries value = true ∧ p.CutsOut sql front source back ∧
        before.toList = Text.dropBlanksEnd front := by
  rw [placement_eq hsql] at h
  cases hfront : front sql.toList (outerWords ls) with
  | none =>
    rw [hfront] at h
    cases h
  | some piece =>
    rw [hfront] at h
    obtain ⟨rfl, -⟩ := Placement.between.inj h
    rcases front_cases hfront with rfl | ⟨w, hw, hboundary, rfl⟩
    · exact .inl (by simp)
    · obtain ⟨l, back, hls, htoken⟩ := mem_outerWordsAfter hw
      obtain rfl : ls = w.before ++ l :: back := hls
      obtain ⟨p, hp, hsame, hcuts⟩ := Grammar.exists_placed hsql (by rw [htoken]; rfl)
      exact .inr ⟨p, hp, w.value, _, _, _, hsame.trans htoken, hboundary, hcuts, by simp⟩

end IntoClause

/-! ## The operator of an assignment -/

namespace Assignment

open Sql (Lexeme lexemes)
open Sql.Grammar (placed)

theorem mem_of_choose {assigns equals : List Operator} {op : Operator} (h : choose assigns equals = .ok op) :
    op ∈ assigns ∨ op ∈ equals := by
  unfold choose at h
  split at h
  · cases h
    exact .inl List.mem_cons_self
  · split at h
    · cases h
    · cases h
      exact .inr List.mem_cons_self
    · cases h

/-- **An assignment is cut around a token**, its operator: at the place where the token starts and where it ends. -/
theorem operator_at_token {text : String} {ls : List Lexeme} {op : Operator} (hls : lexemes text.toList = .ok ls)
    (h : operatorOfLexemes ls = .ok op) :
    ∃ p ∈ placed .start ls, ∃ before source after, (p.token = .sign ":=" ∨ p.token = .sign "=") ∧
      p.CutsOut text before source after ∧ op = ⟨before.length, source.length⟩ ∧
      IsCutAt text before source after := by
  have hchosen := h
  rw [operatorOfLexemes_eq] at hchosen
  obtain ⟨o, rfl, ho, htoken⟩ : ∃ o : Occurrence, o.operator = op ∧ ls = o.before ++ o.lexeme :: o.after ∧
      (o.lexeme.token = .sign ":=" ∨ o.lexeme.token = .sign "=") := by
    rcases mem_of_choose hchosen with hmem | hmem
    · obtain ⟨o, ho, rfl⟩ := List.mem_map.1 hmem
      obtain ⟨hls, -, htoken⟩ := mem_bareAssigns ho
      exact ⟨o, rfl, hls, .inl htoken⟩
    · obtain ⟨o, ho, rfl⟩ := List.mem_map.1 hmem
      obtain ⟨hls, -, htoken⟩ := mem_bareEquals ho
      exact ⟨o, rfl, hls, .inr htoken⟩
  have hcut := Occurrence.isCutAt hls ho h
  have hgap : o.lexeme.token.isGap = false := by
    rcases htoken with htoken | htoken
    all_goals
      rw [htoken]
      rfl
  rw [ho] at hls
  obtain ⟨p, hp, hsame, hcuts⟩ := Sql.Grammar.exists_placed hls hgap
  rw [← ho] at hp
  exact ⟨p, hp, _, _, _, hsame ▸ htoken, hcuts, rfl, hcut⟩

end Assignment

/-! ## The literal of a body -/

namespace Signature

open Sql (lexemes)
open Sql.Grammar (placed)

/-- **A body is cut out as a token**: what a new body replaces is the literal, from its place to its end. -/
theorem body_at_token {sql : String} {b : Body} (h : body? sql = some b) :
    ∃ ls, lexemes sql.toList = .ok ls ∧ ∃ p ∈ placed .start ls, ∃ source, literal? p.token = some b.text ∧
      p.CutsOut sql b.before source b.after := by
  obtain ⟨lead, lit, rest, hls, hlit, hfinds⟩ := exists_lead h
  obtain ⟨p, hp, hsame, hcuts⟩ := Sql.Grammar.exists_placed hls (isGap_of_literal hlit)
  have hbody : b = ⟨spell lead.lexemes, b.text, spell rest⟩ :=
    Option.some.inj (h.symm.trans (body?_of_lead hls hlit hfinds))
  rw [hbody]
  exact ⟨_, hls, p, hp, lit.source, hsame ▸ hlit, hcuts⟩

end Signature
end Routine
