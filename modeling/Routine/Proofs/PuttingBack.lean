import Routine.Proofs.BodyPlace
import Routine.Proofs.DollarTags
import Routine.Proofs.GapsAndWords
import Routine.Source

/-!
# Putting a body back

A statement with a rendered body in it is cut into the lexemes of the statement before, with one literal
exchanged. To the right of the literal that holds because a quotation ends at its tag. To its left, the lexemes
up to the keyword do not look beyond the letter that the keyword starts with, and a gap is the same before
everything (`Lead.cut`). The keyword itself ends only if a gap follows it: right after `AS`, a dollar sign is
part of the word. So where the literal does not touch the keyword, a body is found where it was put, nothing else of
the statement is read otherwise (`exists_replaced`), and putting the body there again changes nothing
(`replaceBody_again`).
-/

namespace Routine
namespace Signature

open Sql (Lexeme Cut spelled)
open Sql.Lexer (isWordPart isTagPart Breaks)

/-! ## The lexemes before the literal -/

theorem cut_gaps {gaps : List Lexeme} {more more' : List Char} (h : Cut more gaps)
    (hgaps : ∀ g ∈ gaps, g.token.isGap = true) (hmore : more ≠ []) (hmore' : more'.head? ≠ some '\n') :
    Cut more' gaps := by
  induction gaps with
  | nil => trivial
  | cons g gaps ih =>
    obtain ⟨hg, hrest⟩ := h
    obtain ⟨hgap, hgaps⟩ := List.forall_mem_cons.1 hgaps
    refine ⟨hg.of_gap hgap (by simp [hmore]) ?_, ih hrest hgaps⟩
    cases hspelled : spelled gaps with
    | nil => exact .inl hmore'
    | cons c cs => exact .inr rfl

/-- The lexemes before the literal of a body do not depend on it, if a gap stands between. -/
theorem Lead.cut {p : Lead} {more more' : List Char} (h : Cut more p.lexemes) (hgaps : p.gaps ≠ [])
    (hmore : more ≠ []) (hmore' : more'.head? ≠ some '\n') : Cut more' p.lexemes := by
  obtain ⟨hinit, hkeyword, hcut⟩ := Cut.append_iff.1 h
  have hne : spelled p.gaps ≠ [] := fun hnil => hgaps (hcut.eq_nil_of_spelled hnil)
  obtain ⟨d, gap, hgap⟩ := List.exists_cons_of_ne_nil hne
  obtain ⟨⟨a, cs, hsource, ha⟩, -⟩ := hkeyword.letters_of_as p.isKeyword
  refine Cut.append_iff.2 ⟨?_, ?_, cut_gaps hcut p.isGap hmore hmore'⟩
  · have hspelled (ms : List Char) :
        spelled (p.keyword :: p.gaps) ++ ms = a :: (cs ++ (spelled p.gaps ++ ms)) := by
      rw [Sql.spelled_cons, hsource, List.cons_append, List.cons_append, List.append_assoc]
    rw [hspelled] at hinit ⊢
    have hbreaks : Breaks (a :: (cs ++ (spelled p.gaps ++ more'))) := by
      rintro s ⟨⟩
      rcases ha with rfl | rfl <;> decide
    have hnil : Cut ([] ++ a :: (cs ++ (spelled p.gaps ++ more))) p.init := hinit
    refine hnil.before (.inr ⟨hbreaks, rfl⟩) ?_
    rintro - l hl s ⟨⟩
    exact (hinit.starts_of_getLast? hl).not_takes ha
  · rw [hgap, List.cons_append] at hkeyword ⊢
    exact hkeyword.of_as p.isKeyword _

/-! ## The statement with its body put back -/

/-- The literal of the body does not touch the keyword before it. -/
def isApart (sql : String) : Bool :=
  (body? sql).all fun b => b.before.getLast?.all fun c => !isWordPart c

theorem gaps_ne_nil {p : Lead} {more : List Char} (h : Cut more p.lexemes)
    (hapart : ∀ c ∈ (spell p.lexemes).getLast?, isWordPart c = false) : p.gaps ≠ [] := by
  intro hnil
  rw [Lead.lexemes, hnil] at h hapart
  obtain ⟨-, hkeyword, -⟩ := Cut.append_iff.1 h
  obtain ⟨⟨a, cs, hsource, -⟩, hword⟩ := hkeyword.letters_of_as p.isKeyword
  obtain ⟨c, hc⟩ : ∃ c, p.keyword.source.getLast? = some c := by
    rw [hsource]
    exact ⟨_, List.getLast?_eq_some_getLast (List.cons_ne_nil a cs)⟩
  have hlast : (spell (p.init ++ [p.keyword])).getLast? = some c := by
    rw [spell_append]
    simp [spell, hc]
  have hpart := hapart c hlast
  rw [hword c hc] at hpart
  cases hpart

/-- The statement with another body. -/
theorem replaceBody_of_body? {sql body : String} {b : Body} (h : body? sql = some b) :
    replaceBody sql body =
      some (String.ofList (b.before ++ quotation body ++ b.after)) := by
  rw [replaceBody, h, Option.map_some, Option.some.injEq, ← String.toList_inj]
  simp [quotation]

theorem body?_of_lead {sql text : String} {p : Lead} {lit : Lexeme} {rest : List Lexeme}
    (hlexemes : Sql.lexemes sql.toList = .ok (p.lexemes ++ lit :: rest)) (hlit : literal? lit.token = some text)
    (hfinds : p.Finds bodyOf []) : body? sql = some ⟨spell p.lexemes, text, spell rest⟩ := by
  rw [body?_eq, hlexemes]
  exact hfinds lit rest text hlit

/-- Where a gap stands before the literal and the new body is delimited by its tag, the new body is found at the
place of the old one, in a statement that returns the same. -/
theorem exists_replaced {sql body text : String} {p : Lead} {lit : Lexeme} {rest : List Lexeme}
    (hlexemes : Sql.lexemes sql.toList = .ok (p.lexemes ++ lit :: rest)) (hlit : literal? lit.token = some text)
    (hfinds : p.Finds bodyOf []) (hgaps : p.gaps ≠ [])
    (hend : ¬ (tagFor body).toList.dropLast <:+ body.toList) :
    ∃ s, replaceBody sql body = some s ∧ s.toList = spell p.lexemes ++ quotation body ++ spell rest ∧
      body? s = some ⟨spell p.lexemes, body, spell rest⟩ ∧ returnKind s = returnKind sql := by
  have hb := body?_of_lead hlexemes hlit hfinds
  obtain ⟨hcut, -⟩ := Sql.lexemes_eq_ok_iff.1 hlexemes
  obtain ⟨hlead, hstarts, hrest⟩ := Cut.append_iff.1 hcut
  obtain ⟨name, hquotation⟩ :=
    (starts_quotation_iff body (spelled rest ++ [])).2 ((findPiece_tagFor_iff body _).2 hend)
  -- The same lexemes with the quotation for the literal are the new statement.
  have hcut' : Cut [] (p.lexemes ++ ⟨.dollar name body, quotation body⟩ :: rest) := by
    refine Cut.append_iff.2 ⟨Lead.cut hlead hgaps ?_ ?_, hquotation, hrest⟩
    · rw [Sql.spelled_cons, List.append_nil]
      exact List.append_ne_nil_of_left_ne_nil hstarts.source_ne _
    · rw [Sql.spelled_cons, List.head?_append, List.head?_append, head?_quotation]
      simp
  have hlexemes' : Sql.lexemes (spell p.lexemes ++ quotation body ++ spell rest) =
      .ok (p.lexemes ++ ⟨.dollar name body, quotation body⟩ :: rest) := by
    refine Sql.lexemes_eq_ok_iff.2 ⟨hcut', ?_⟩
    simp [spell, spelled]
  rw [← String.toList_ofList (l := spell p.lexemes ++ quotation body ++ spell rest)] at hlexemes'
  refine ⟨_, replaceBody_of_body? hb, String.toList_ofList, body?_of_lead hlexemes' rfl hfinds, ?_⟩
  refine returnKind_eq_of_unread hlexemes' hlexemes ?_
  rw [List.map_append, List.map_append, List.map_cons, List.map_cons, unread_of_literal hlit,
    unread_of_literal rfl]

/-- The end of a tag is no end of a body whose last character is none of a tag. -/
theorem not_isSuffix_of_getLast? {body : String}
    (hlast : ∀ c ∈ body.toList.getLast?, isTagPart c = false ∧ c ≠ '$') :
    ¬ (tagFor body).toList.dropLast <:+ body.toList := by
  obtain ⟨name, htag, hname⟩ := exists_name_tagFor body
  rw [htag, ← List.cons_append, List.dropLast_concat]
  rintro ⟨front, hbody⟩
  have hmem := List.getLast_mem (List.cons_ne_nil '$' name)
  obtain ⟨hpart, hdollar⟩ := hlast (('$' :: name).getLast (List.cons_ne_nil _ _)) (by
    rw [← hbody, List.getLast?_append_cons]
    exact List.getLast?_eq_some_getLast _)
  rcases List.mem_cons.1 hmem with heq | hmem
  · exact hdollar heq
  · exact absurd (hname _ hmem) (by rw [hpart]; decide)

/-- A body that has been put into a statement is found there, and putting it there again changes nothing. -/
theorem replaceBody_again {sql body s : String} (hapart : isApart sql = true)
    (hlast : ∀ c ∈ body.toList.getLast?, isTagPart c = false ∧ c ≠ '$') (h : replaceBody sql body = some s) :
    replaceBody s body = some s ∧ extractBody s = some body ∧ returnKind s = returnKind sql := by
  obtain ⟨b, hb, -⟩ := Option.map_eq_some_iff.1 h
  obtain ⟨p, lit, rest, hlexemes, hlit, hfinds⟩ := exists_lead hb
  have hgaps : p.gaps ≠ [] := by
    obtain ⟨hlead, -⟩ := Cut.append_iff.1 (Sql.lexemes_eq_ok_iff.1 hlexemes).1
    refine gaps_ne_nil hlead ?_
    intro c hc
    rw [isApart, body?_of_lead hlexemes hlit hfinds, Option.all_some, Option.mem_def.1 hc] at hapart
    simpa using hapart
  obtain ⟨s', hs', htext, hbody, hkind⟩ :=
    exists_replaced hlexemes hlit hfinds hgaps (not_isSuffix_of_getLast? hlast)
  obtain rfl := Option.some.inj (hs'.symm.trans h)
  refine ⟨?_, ?_, hkind⟩
  · rw [replaceBody_of_body? hbody, Option.some.injEq, ← String.toList_inj, htext, String.toList_ofList]
  · rw [extractBody, hbody]
    rfl

/-- The lexemes of the statement that spell `before` end in a blank or a comment. -/
def isAfterGap (sql : String) (before : List Char) : Bool :=
  match Sql.lexemes sql.toList with
  | .ok ls => ls.inits.any fun init => spell init == before && init.getLast?.any (·.token.isGap)
  | .error _ => false

theorem gaps_ne_nil_of_isAfterGap {sql : String} {p : Lead} {more : List Lexeme}
    (hlexemes : Sql.lexemes sql.toList = .ok (p.lexemes ++ more))
    (hgap : isAfterGap sql (spell p.lexemes) = true) : p.gaps ≠ [] := by
  simp only [isAfterGap, hlexemes, List.any_eq_true, List.mem_inits, Bool.and_eq_true, beq_iff_eq] at hgap
  obtain ⟨init, ⟨rest, hinit⟩, hspell, hlast⟩ := hgap
  have hcut : Cut [] (init ++ rest) := hinit ▸ (Sql.lexemes_eq_ok_iff.1 hlexemes).1
  obtain rfl := hcut.eq_of_spelled hinit hspell
  intro hnil
  rw [Lead.lexemes, hnil, List.getLast?_append_cons, List.getLast?_singleton, Option.any_some] at hlast
  have hkeyword := p.isKeyword
  rw [Sql.Token.eq_gap_of_isGap hlast] at hkeyword
  cases hkeyword

end Signature

theorem createFunction_eq_ok_iff {format : Format} {sql json s : String} :
    createFunction format sql json = .ok s ↔
      ∃ f fs kind, ParseTree.ofText json = .ok (f :: fs) ∧ Signature.returnKind sql = some kind ∧
        Signature.replaceBody sql (f.literalBody format (some kind)) = some s := by
  unfold createFunction
  cases hjson : ParseTree.ofText json with
  | error e => simp
  | ok t =>
    cases t with
    | nil => simp
    | cons f fs =>
      cases hkind : Signature.returnKind sql with
      | none => simp
      | some kind =>
        cases htext : Signature.replaceBody sql (f.literalBody format (some kind)) with
        | none => simp [htext]
        | some text => simp [htext]

/-- The literal ends in a line break. -/
theorem Function.getLast?_literalBody {format : Format}
    (hnewline : format.newline = "\n" ∨ format.newline = "\r\n") (kind : Option ReturnKind) (f : Function) :
    (f.literalBody format kind).toList.getLast? = some '\n' := by
  rw [literalBody, String.toList_append, List.getLast?_append]
  rcases hnewline with h | h
  · rw [h]
    rfl
  · rw [h]
    rfl

/-- **Putting a rendered body back is repeatable.** A statement that was made by putting the body of the first
routine into another one is left as it is when the body is put into it again, and its literal is the body on
lines of its own, rendered for what the other statement returns. The literal has to stand apart from the
keyword. -/
theorem putting_a_body_back_is_repeatable {format : Format} {sql json s : String}
    (hnewline : format.newline = "\n" ∨ format.newline = "\r\n") (hapart : Signature.isApart sql = true)
    (h : createFunction format sql json = .ok s) :
    createFunction format s json = .ok s ∧
      ∃ f fs kind, ParseTree.ofText json = .ok (f :: fs) ∧ Signature.returnKind sql = some kind ∧
        Signature.extractBody s = some (format.newline ++ f.body format (some kind) ++ format.newline) := by
  obtain ⟨f, fs, kind, hjson, hkind, htext⟩ := createFunction_eq_ok_iff.1 h
  have hlast : ∀ c ∈ (f.literalBody format (some kind)).toList.getLast?,
      Sql.Lexer.isTagPart c = false ∧ c ≠ '$' := by
    rw [f.getLast?_literalBody hnewline]
    rintro c ⟨⟩
    exact ⟨by decide +kernel, by decide⟩
  obtain ⟨hagain, hbody, hsame⟩ := Signature.replaceBody_again hapart hlast htext
  refine ⟨?_, f, fs, kind, hjson, hkind, hbody⟩
  exact createFunction_eq_ok_iff.2 ⟨f, fs, kind, hjson, hsame.trans hkind, hagain⟩

/-- A routine that does nothing, in a block with a label or without one. -/
def idle (label : Option String) : Function :=
  ⟨[], ⟨1, label, [], none⟩⟩

/-- A statement with a comment right after the keyword. -/
def creating : String :=
  "CREATE FUNCTION f(OUT a char(2)) AS--old\n'x'LANGUAGE plpgsql"

/-- The statement with a body that has dollar signs in it. -/
def created : String :=
  "CREATE FUNCTION f(OUT a char(2)) AS--old\n" ++
    "$body$\r\n<<a$$b>>\r\nBEGIN\r\nEND a$$b\r\n$body$LANGUAGE plpgsql"

theorem putting_a_body_back_is_repeatable_labelled :
    Signature.isApart creating = true ∧
      createFunction ⟨"", "\r\n", true⟩ creating (ParseTree.toJson [idle (some "a$$b")]) = .ok created ∧
      createFunction ⟨"", "\r\n", true⟩ created (ParseTree.toJson [idle (some "a$$b")]) = .ok created := by
  have hapart : Signature.isApart creating = true := by decide +kernel
  have hcreated : createFunction ⟨"", "\r\n", true⟩ creating (ParseTree.toJson [idle (some "a$$b")]) =
      .ok created := by decide +kernel
  exact ⟨hapart, hcreated, (putting_a_body_back_is_repeatable (.inr rfl) hapart hcreated).1⟩

/-- A body that is put right after the keyword is not found again: the dollar signs are part of the word. -/
theorem a_body_right_after_its_keyword_is_lost :
    ¬ ∀ (format : Format) (sql json s : String), format.newline = "\n" ∨ format.newline = "\r\n" →
      createFunction format sql json = .ok s →
      createFunction format s json = .ok s ∧
        ∃ f fs kind, ParseTree.ofText json = .ok (f :: fs) ∧ Signature.returnKind sql = some kind ∧
          Signature.extractBody s = some (format.newline ++ f.body format (some kind) ++ format.newline) := by
  intro hall
  have hagain := (hall {} "CREATE FUNCTION f() RETURNS int AS'x' LANGUAGE plpgsql"
    (ParseTree.toJson [idle none]) "CREATE FUNCTION f() RETURNS int AS$$\nBEGIN\nEND\n$$ LANGUAGE plpgsql"
    (.inl rfl) (by decide +kernel)).1
  exact absurd hagain (by decide +kernel)

/-- **Replacing a body is exact.** A statement with a blank or a comment right before the literal of its body can
be given every body that does not end in the start of a tag. Only the literal changes; the body is found again, the
statement returns what it did, and every other body can be put there as before. -/
theorem replacing_a_body_is_exact {sql body : String} {b : Signature.Body} (hb : Signature.body? sql = some b)
    (hgap : Signature.isAfterGap sql b.before = true)
    (hend : ∀ part, part ≠ [] → part ≠ (Signature.tagFor body).toList → part <+: (Signature.tagFor body).toList →
      ¬ part <:+ body.toList) :
    ∃ (s : String) (lit : Sql.Lexeme), Signature.replaceBody sql body = some s ∧
      Signature.literal? lit.token = some b.text ∧ lit.Starts b.after ∧
      sql.toList = b.before ++ lit.source ++ b.after ∧
      s.toList = b.before ++ ((Signature.tagFor body).toList ++ body.toList ++ (Signature.tagFor body).toList) ++
        b.after ∧
      Signature.extractBody s = some body ∧ Signature.returnKind s = Signature.returnKind sql ∧
      ∀ other, Signature.replaceBody s other = Signature.replaceBody sql other := by
  obtain ⟨p, lit, rest, hlexemes, hlit, hfinds⟩ := Signature.exists_lead hb
  have hplace := Signature.body?_of_lead hlexemes hlit hfinds
  obtain ⟨before, text, after⟩ := b
  obtain ⟨rfl, -, rfl⟩ := Signature.Body.mk.inj (Option.some.inj (hb.symm.trans hplace))
  obtain ⟨hcut, hspelled⟩ := Sql.lexemes_eq_ok_iff.1 hlexemes
  obtain ⟨-, hstarts, -⟩ := Sql.Cut.append_iff.1 hcut
  rw [List.append_nil] at hstarts
  -- The tag without its last sign is one of the parts that the body does not end in.
  have htag : ¬ (Signature.tagFor body).toList.dropLast <:+ body.toList := by
    obtain ⟨name, heq, -⟩ := Signature.exists_name_tagFor body
    refine hend _ ?_ ?_ (List.dropLast_prefix _)
    · rw [heq, ← List.cons_append, List.dropLast_concat]
      exact List.cons_ne_nil _ _
    · intro hsame
      have hlength := congrArg List.length hsame
      simp [heq] at hlength
  obtain ⟨s, hs, htext, hbody, hkind⟩ :=
    Signature.exists_replaced hlexemes hlit hfinds (Signature.gaps_ne_nil_of_isAfterGap hlexemes hgap) htag
  refine ⟨s, lit, hs, hlit, hstarts, ?_, htext, ?_, hkind, fun other => ?_⟩
  · rw [← hspelled]
    simp [Signature.spell, Sql.spelled]
  · rw [Signature.extractBody, hbody]
    rfl
  · rw [Signature.replaceBody_of_body? hbody, Signature.replaceBody_of_body? hplace]

theorem replacing_a_body_is_exact_dollars :
    ∃ s, Signature.replaceBody creating "a$$c" = some s ∧ Signature.extractBody s = some "a$$c" ∧
      Signature.returnKind s = some .outParams ∧
      Signature.replaceBody s "$" = Signature.replaceBody creating "$" := by
  have hbefore : (Signature.body? creating).map Signature.Body.before =
      some "CREATE FUNCTION f(OUT a char(2)) AS--old\n".toList := by decide +kernel
  obtain ⟨b, hb, hbefore⟩ := Option.map_eq_some_iff.1 hbefore
  have hgap : Signature.isAfterGap creating b.before = true := by
    rw [hbefore]
    decide +kernel
  have hend : ∀ part ∈ (Signature.tagFor "a$$c").toList.inits,
      part ≠ [] → part ≠ (Signature.tagFor "a$$c").toList → ¬ part <:+ "a$$c".toList := by decide +kernel
  obtain ⟨s, -, hs, -, -, -, -, hbody, hkind, hother⟩ := replacing_a_body_is_exact hb hgap
    fun part hne hproper hpart => hend part ((List.mem_inits _ _).2 hpart) hne hproper
  have hreturns : Signature.returnKind creating = some .outParams := by decide +kernel
  exact ⟨s, hs, hbody, hkind.trans hreturns, hother "$"⟩

end Routine
