import Routine.Proofs.Cuts
import Routine.Signature

/-!
# The place of a body

A statement with another literal in the place of its body returns the same and has its body at the same place.
What is returned is read off words, signs and gaps, and no literal is any of them (`returnKind_eq_of_unread`).
The body is found by the lexemes to its left (`Lead`), whatever comes after them (`exists_lead`). What stands on
both sides of it ends and starts at the offsets of its places (`body_at_token`).
-/

namespace Routine
namespace Signature

open Sql (Lexeme Token)

/-! ## Literals are not read -/

theorem cases_of_literal {t : Token} {text : String} (h : literal? t = some text) :
    (∃ tag, t = .dollar tag text) ∨ t = .string .plain text := by
  unfold literal? at h
  split at h
  · next tag value =>
    cases h
    exact .inl ⟨tag, rfl⟩
  · cases h
    exact .inr rfl
  · cases h

/-- The lexeme with nothing left of it if it is a literal that can hold a body. -/
def unread (l : Lexeme) : Lexeme :=
  match literal? l.token with
  | some _ => ⟨.dollar none "", []⟩
  | none => l

theorem unread_of_literal {l : Lexeme} {text : String} (h : literal? l.token = some text) :
    unread l = ⟨.dollar none "", []⟩ := by
  rw [unread, h]

/-- What is the same for all literals is the same for a lexeme and for what is left of it. -/
theorem token_unread {α : Type} {f : Token → α} {a : α} (hdollar : ∀ tag text, f (.dollar tag text) = a)
    (hstring : ∀ text, f (.string .plain text) = a) (l : Lexeme) : f (unread l).token = f l.token := by
  unfold unread
  split
  · next text htext =>
    rcases cases_of_literal htext with ⟨tag, ht⟩ | ht
    · rw [ht, hdollar, hdollar]
    · rw [ht, hdollar, hstring]
  · rfl

@[simp]
theorem isGap_unread (l : Lexeme) : (unread l).token.isGap = l.token.isGap :=
  token_unread (fun _ _ => rfl) (fun _ => rfl) l

@[simp]
theorem isSign_unread (text : String) (l : Lexeme) : (unread l).token.isSign text = l.token.isSign text :=
  token_unread (fun _ _ => rfl) (fun _ => rfl) l

@[simp]
theorem isKeyword_unread (keyword : String) (l : Lexeme) :
    (unread l).token.isKeyword keyword = l.token.isKeyword keyword :=
  token_unread (fun _ _ => rfl) (fun _ => rfl) l

@[simp]
theorem isWord_unread (name : String) (l : Lexeme) : (unread l).token.isWord name = l.token.isWord name :=
  token_unread (fun _ _ => rfl) (fun _ => rfl) l

theorem skipGaps_unread (ls : List Lexeme) : skipGaps (ls.map unread) = (skipGaps ls).map unread := by
  simp only [skipGaps, List.dropWhile_map, Function.comp_def, isGap_unread]

theorem keyword?_unread (keyword : String) (ls : List Lexeme) :
    keyword? keyword (ls.map unread) = (keyword? keyword ls).map (List.map unread) := by
  cases ls with
  | nil => rfl
  | cons l ls =>
    simp only [List.map_cons, keyword?, isKeyword_unread]
    split <;> rfl

/-- Lexemes that were read off a statement, with what the literals among them hold left out. -/
abbrev unreadRest {α : Type} (x : α × List Lexeme) : α × List Lexeme :=
  (x.1, x.2.map unread)

/-- The routine is a procedure, from the keyword that says so. -/
def routine? (ls : List Lexeme) : Option (Bool × List Lexeme) :=
  match keyword? "FUNCTION" ls, keyword? "PROCEDURE" ls with
  | some ls, _ => some (false, ls)
  | none, some ls => some (true, ls)
  | none, none => none

theorem routine?_unread (ls : List Lexeme) : routine? (ls.map unread) = (routine? ls).map unreadRest := by
  rw [routine?, routine?, keyword?_unread, keyword?_unread]
  cases keyword? "FUNCTION" ls with
  | some ls => rfl
  | none => cases keyword? "PROCEDURE" ls <;> rfl

theorem header?_eq (ls : List Lexeme) :
    header? ls = (keyword? "CREATE" (skipGaps ls)).bind fun ls =>
      match keyword? "OR" (skipGaps ls) with
      | some ls => (keyword? "REPLACE" (skipGaps ls)).bind fun ls => routine? (skipGaps ls)
      | none => routine? (skipGaps ls) := by
  rw [header?]
  cases keyword? "CREATE" (skipGaps ls) with
  | none => rfl
  | some ls =>
    simp only [Option.bind_eq_bind, Option.bind_some]
    cases keyword? "OR" (skipGaps ls) with
    | none => rfl
    | some ls =>
      dsimp only
      cases keyword? "REPLACE" (skipGaps ls) <;> rfl

theorem header?_unread (ls : List Lexeme) : header? (ls.map unread) = (header? ls).map unreadRest := by
  simp only [header?_eq, skipGaps_unread, keyword?_unread]
  cases keyword? "CREATE" (skipGaps ls) with
  | none => rfl
  | some ls =>
    simp only [Option.map_some, Option.bind_some, skipGaps_unread, keyword?_unread]
    cases keyword? "OR" (skipGaps ls) with
    | none => exact routine?_unread _
    | some ls =>
      simp only [Option.map_some, skipGaps_unread, keyword?_unread]
      cases keyword? "REPLACE" (skipGaps ls) with
      | none => rfl
      | some ls =>
        simp only [Option.map_some, Option.bind_some, skipGaps_unread]
        exact routine?_unread _

theorem arguments_unread (depth : Nat) (fresh found : Bool) (ls : List Lexeme) :
    arguments depth fresh found (ls.map unread) = unreadRest (arguments depth fresh found ls) := by
  induction ls generalizing depth fresh found with
  | nil => rfl
  | cons l ls ih =>
    simp only [List.map_cons, arguments, isGap_unread, isSign_unread, isWord_unread]
    split
    · rfl
    · split
      · exact ih ..
      · split
        · exact ih ..
        · split
          · exact ih ..
          · exact ih ..

/-- The name of a word token. -/
def nameOf : Token → Option String
  | .word value _ => some (Text.lowercase value)
  | _ => none

@[simp]
theorem nameOf_unread (l : Lexeme) : nameOf (unread l).token = nameOf l.token :=
  token_unread (fun _ _ => rfl) (fun _ => rfl) l

theorem lastPart_cons (l : Lexeme) (ls : List Lexeme) :
    lastPart (l :: ls) = (nameOf l.token).map fun name =>
      match ls with
      | dot :: rest => if dot.token.isSign "." then (lastPart rest).getD name else name
      | [] => name := by
  rw [lastPart.eq_def]
  dsimp only
  generalize l.token = t
  cases t with
  | word value inQuotes =>
    cases ls with
    | nil => rfl
    | cons dot rest =>
      simp only [nameOf, Option.map_some]
      split <;> rfl
  | _ => rfl

theorem lastPart_unread : (ls : List Lexeme) → lastPart (ls.map unread) = lastPart ls
  | [] => rfl
  | [l] => by
    simp only [List.map_cons, List.map_nil, lastPart_cons, nameOf_unread]
  | l :: dot :: ls => by
    simp only [List.map_cons, lastPart_cons, nameOf_unread, isSign_unread, lastPart_unread ls]

/-- Whether an argument is an output, and the lexemes after the list of arguments. -/
def afterArguments (ls : List Lexeme) : Bool × List Lexeme :=
  match ls.dropWhile (!·.token.isSign "(") with
  | _ :: ls => arguments 1 true false ls
  | [] => (false, [])

theorem afterArguments_unread (ls : List Lexeme) :
    afterArguments (ls.map unread) = unreadRest (afterArguments ls) := by
  simp only [afterArguments, List.dropWhile_map, Function.comp_def, isSign_unread]
  cases ls.dropWhile (!·.token.isSign "(") with
  | nil => rfl
  | cons l ls => exact arguments_unread ..

/-- The lexemes name a type of many rows. -/
def startsSet (ls : List Lexeme) : Bool :=
  (ls.head?.map fun l => l.token.isWord "SETOF" || l.token.isKeyword "TABLE").getD false

theorem startsSet_unread (ls : List Lexeme) : startsSet (ls.map unread) = startsSet ls := by
  cases ls with
  | nil => rfl
  | cons l ls => simp [startsSet]

/-- What a function returns, from the lexemes after its arguments. -/
def resultOf (hasOutputs : Bool) (ls : List Lexeme) : ReturnKind :=
  match keyword? "RETURNS" (skipGaps ls) with
  | none => if hasOutputs then .outParams else .void
  | some ls =>
    if startsSet (skipGaps ls) then .setof
    else if hasOutputs then .outParams
    else kindOfType (lastPart (skipGaps ls))

theorem resultOf_unread (hasOutputs : Bool) (ls : List Lexeme) :
    resultOf hasOutputs (ls.map unread) = resultOf hasOutputs ls := by
  rw [resultOf, resultOf, skipGaps_unread, keyword?_unread]
  cases keyword? "RETURNS" (skipGaps ls) with
  | none => rfl
  | some ls => simp only [Option.map_some, skipGaps_unread, startsSet_unread, lastPart_unread]

/-- What lexemes say that their statement returns. -/
def kindOf (ls : List Lexeme) : Option ReturnKind :=
  (header? ls).map fun (isProcedure, ls) =>
    if isProcedure then .void else resultOf (afterArguments ls).1 (afterArguments ls).2

theorem kindOf_unread (ls : List Lexeme) : kindOf (ls.map unread) = kindOf ls := by
  rw [kindOf, kindOf, header?_unread]
  cases header? ls with
  | none => rfl
  | some result => simp only [Option.map_some, afterArguments_unread, resultOf_unread]

theorem returnKind_eq (sql : String) : returnKind sql = (Sql.lexemes sql.toList).toOption.bind kindOf := by
  rw [returnKind]
  cases (Sql.lexemes sql.toList).toOption with
  | none => rfl
  | some ls =>
    show (header? ls).bind _ = (header? ls).map _
    cases header? ls with
    | none => rfl
    | some result =>
      obtain ⟨isProcedure, ls⟩ := result
      cases isProcedure with
      | true => rfl
      | false =>
        show (match keyword? "RETURNS" (skipGaps (afterArguments ls).2) with
          | none => some (if (afterArguments ls).1 then .outParams else .void)
          | some rest =>
            if startsSet (skipGaps rest) then some .setof
            else if (afterArguments ls).1 then some .outParams
            else some (kindOfType (lastPart (skipGaps rest)))) = some (resultOf _ _)
        rw [resultOf]
        cases keyword? "RETURNS" (skipGaps (afterArguments ls).2) with
        | none => rfl
        | some rest =>
          dsimp only
          split
          · rfl
          · split <;> rfl

/-- Statements that differ in literals only return the same. -/
theorem returnKind_eq_of_unread {sql sql' : String} {ls ls' : List Lexeme} (h : Sql.lexemes sql.toList = .ok ls)
    (h' : Sql.lexemes sql'.toList = .ok ls') (hsame : ls.map unread = ls'.map unread) :
    returnKind sql = returnKind sql' := by
  rw [returnKind_eq, returnKind_eq, h, h']
  show kindOf ls = kindOf ls'
  rw [← kindOf_unread, hsame, kindOf_unread]

/-! ## The lexemes before a body -/

/-- The lexemes up to the literal of a body: those before the keyword, the keyword, and the gaps after it. -/
structure Lead where
  init : List Lexeme
  keyword : Lexeme
  gaps : List Lexeme
  isKeyword : keyword.token.isKeyword "AS" = true
  isGap : ∀ g ∈ gaps, g.token.isGap = true

namespace Lead

def lexemes (p : Lead) : List Lexeme :=
  p.init ++ p.keyword :: p.gaps

theorem lexemes_ne_nil (p : Lead) : p.lexemes ≠ [] := by
  simp [lexemes]

/-- More lexemes come first. -/
def after (ls : List Lexeme) (p : Lead) : Lead :=
  { p with init := ls ++ p.init }

@[simp]
theorem lexemes_after (ls : List Lexeme) (p : Lead) : (p.after ls).lexemes = ls ++ p.lexemes := by
  simp [lexemes, after]

/-- The literal after the lexemes is taken for the body, whichever it is and whatever follows. -/
def Finds (p : Lead) (find : List Lexeme → Option Body) (before : List Char) : Prop :=
  ∀ lit rest text, literal? lit.token = some text →
    find (p.lexemes ++ lit :: rest) = some ⟨before ++ spell p.lexemes, text, spell rest⟩

end Lead

theorem isGap_of_literal {t : Token} {text : String} (h : literal? t = some text) : t.isGap = false := by
  rcases cases_of_literal h with ⟨tag, rfl⟩ | rfl
  · rfl
  · rfl

theorem spell_append (ls ms : List Lexeme) : spell (ls ++ ms) = spell ls ++ spell ms := by
  simp [spell]

/-- Where a lexeme is passed over, the lead of what follows it leads on. -/
theorem Lead.Finds.cons {p : Lead} {find find' : List Lexeme → Option Body} {before : List Char} {l : Lexeme}
    (h : p.Finds find (before ++ l.source)) (hfind : ∀ ls, find' (l :: ls) = find ls) :
    (p.after [l]).Finds find' before := by
  intro lit rest text htext
  rw [lexemes_after, List.singleton_append, List.cons_append, hfind, h lit rest text htext]
  simp [spell]

/-- Where a body is found among lexemes, every literal in its place is. -/
theorem bodyFrom_eq_some {depth : Int} {before : List Char} {ls : List Lexeme} {b : Body}
    (h : bodyFrom depth before ls = some b) :
    ∃ (p : Lead) (lit : Lexeme) (rest : List Lexeme), ls = p.lexemes ++ lit :: rest ∧
      literal? lit.token = some b.text ∧ p.Finds (bodyFrom depth before) before := by
  induction ls generalizing depth before with
  | nil => cases h
  | cons l ls ih =>
    -- A lexeme that is passed over is in front of the lead of the lexemes after it.
    have hpass {depth' : Int} (h : bodyFrom depth' (before ++ l.source) ls = some b)
        (hfind : ∀ ls, bodyFrom depth before (l :: ls) = bodyFrom depth' (before ++ l.source) ls) :
        ∃ (p : Lead) (lit : Lexeme) (rest : List Lexeme), l :: ls = p.lexemes ++ lit :: rest ∧
          literal? lit.token = some b.text ∧ p.Finds (bodyFrom depth before) before := by
      obtain ⟨p, lit, rest, rfl, hlit, hfinds⟩ := ih h
      exact ⟨p.after [l], lit, rest, by simp, hlit, hfinds.cons hfind⟩
    rw [bodyFrom] at h
    split at h
    · next hopen => exact hpass h fun ls => by rw [bodyFrom, if_pos hopen]
    · next hopen =>
      split at h
      · next hclose => exact hpass h fun ls => by rw [bodyFrom, if_neg hopen, if_pos hclose]
      · next hclose =>
        split at h
        · next hkeyword =>
          split at h
          · cases h
          · next lit rest hskip =>
            obtain ⟨text, htext, rfl⟩ := Option.map_eq_some_iff.1 h
            have hgaps : ∀ g ∈ ls.takeWhile (·.token.isGap), g.token.isGap = true :=
              List.all_eq_true.1 List.all_takeWhile
            refine ⟨⟨[], l, ls.takeWhile (·.token.isGap), hkeyword.2, hgaps⟩, lit, rest, ?_, htext, ?_⟩
            · rw [← hskip, skipGaps]
              simp [Lead.lexemes, List.takeWhile_append_dropWhile]
            · intro lit' rest' text' htext'
              generalize ls.takeWhile (·.token.isGap) = gaps at *
              have hlit := isGap_of_literal htext'
              rw [Lead.lexemes, List.nil_append, List.cons_append, bodyFrom, if_neg hopen, if_neg hclose,
                if_pos hkeyword, skipGaps, List.dropWhile_append_of_pos hgaps,
                List.takeWhile_append_of_pos hgaps]
              simp [hlit, htext', spell]
        · next hkeyword =>
          exact hpass h fun ls => by rw [bodyFrom, if_neg hopen, if_neg hclose, if_neg hkeyword]

/-- The body among the lexemes of a statement. -/
def bodyOf (ls : List Lexeme) : Option Body :=
  let opening := ls.takeWhile (!·.token.isSign "(")
  bodyFrom 0 (spell opening) (ls.drop opening.length)

theorem body?_eq (sql : String) : body? sql = (Sql.lexemes sql.toList).toOption.bind bodyOf := rfl

theorem bodyOf_eq_some {ls : List Lexeme} {b : Body} (h : bodyOf ls = some b) :
    ∃ (p : Lead) (lit : Lexeme) (rest : List Lexeme), ls = p.lexemes ++ lit :: rest ∧
      literal? lit.token = some b.text ∧ p.Finds bodyOf [] := by
  have hsplit := List.takeWhile_append_dropWhile (p := fun l : Lexeme => !l.token.isSign "(") (l := ls)
  have hopening : ∀ l ∈ ls.takeWhile (!·.token.isSign "("), (!l.token.isSign "(") = true :=
    List.all_eq_true.1 List.all_takeWhile
  have hhead := List.head?_dropWhile_not (fun l : Lexeme => !l.token.isSign "(") ls
  unfold bodyOf at h
  generalize ls.takeWhile (!·.token.isSign "(") = opening at *
  generalize ls.dropWhile (!·.token.isSign "(") = closing at *
  subst hsplit
  dsimp only at h
  rw [List.drop_left] at h
  obtain ⟨p, lit, rest, rfl, hlit, hfinds⟩ := bodyFrom_eq_some h
  refine ⟨p.after opening, lit, rest, by simp, hlit, ?_⟩
  intro lit' rest' text htext
  have hstop : (p.lexemes ++ lit' :: rest').takeWhile (!·.token.isSign "(") = [] := by
    obtain ⟨l, ls, hls⟩ := List.exists_cons_of_ne_nil p.lexemes_ne_nil
    rw [hls] at hhead ⊢
    have hsign : (!l.token.isSign "(") = false := hhead
    rw [List.cons_append, List.takeWhile_cons, hsign, if_neg Bool.false_ne_true]
  rw [Lead.lexemes_after, bodyOf, List.append_assoc, List.takeWhile_append_of_pos hopening, hstop]
  simp only [List.append_nil, List.drop_left]
  rw [hfinds lit' rest' text htext, spell_append, List.nil_append]

/-- The body of a statement is the literal after some lexemes, and every literal in its place is found there. -/
theorem exists_lead {sql : String} {b : Body} (h : body? sql = some b) :
    ∃ (p : Lead) (lit : Lexeme) (rest : List Lexeme), Sql.lexemes sql.toList = .ok (p.lexemes ++ lit :: rest) ∧
      literal? lit.token = some b.text ∧ p.Finds bodyOf [] := by
  rw [body?_eq] at h
  cases hls : Sql.lexemes sql.toList with
  | error fault =>
    rw [hls] at h
    cases h
  | ok ls =>
    rw [hls] at h
    obtain ⟨p, lit, rest, rfl, hlit, hfinds⟩ := bodyOf_eq_some h
    exact ⟨p, lit, rest, rfl, hlit, hfinds⟩

end Signature
end Routine
