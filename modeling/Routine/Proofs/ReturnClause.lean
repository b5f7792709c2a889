import Routine.Proofs.BodyPlace
import Routine.Proofs.GapsAndWords

/-!
# Return clauses

What a routine returns should follow from the tokens of its signature alone, whatever blanks and comments stand
between them. `Creation` is such a list of tokens: the head of the statement, the name, and what comes after the
parenthesis that opens the list of arguments; `Creation.kind` says what it returns.

A signature is read with the gaps in it. They are skipped in front of each keyword, in front of the list of
arguments and inside it (`arguments_eq`), but not inside the name of a type: it ends at the first gap, so that
`pg_catalog . void` is the type `pg_catalog`. Nor does it matter for `OUT`, `INOUT` and `SETOF` whether a word is in
quotes, so that an argument with the name `"out"` is taken for an output. Apart from this the reading is right
(`return_kind_follows_the_signature_iff`).
-/

namespace Routine
namespace Sql

theorem tokens_cons (l : Lexeme) (ls : List Lexeme) :
    tokens (l :: ls) = if l.token.isGap then tokens ls else l.token :: tokens ls := by
  unfold tokens
  rw [List.map_cons, List.filter_cons]
  cases l.token.isGap <;> rfl

end Sql

namespace Signature

open Sql (Lexeme Token tokens tokens_cons)

/-! ## Signatures without their gaps -/

/-- The tokens after the keyword, if they start with it. -/
def afterKeyword? (keyword : String) : List Token → Option (List Token)
  | t :: ts => if t.isKeyword keyword then some ts else none
  | [] => none

/-- The head of a statement that creates a routine, and whether the routine is a procedure. -/
inductive IsHead : Bool → List Token → Prop
  | create {isProcedure : Bool} {create routine : Token} (isCreate : create.isKeyword "CREATE" = true)
      (isRoutine : routine.isKeyword (if isProcedure then "PROCEDURE" else "FUNCTION") = true) :
      IsHead isProcedure [create, routine]
  | replace {isProcedure : Bool} {create or replace routine : Token} (isCreate : create.isKeyword "CREATE" = true)
      (isOr : or.isKeyword "OR" = true) (isReplace : replace.isKeyword "REPLACE" = true)
      (isRoutine : routine.isKeyword (if isProcedure then "PROCEDURE" else "FUNCTION") = true) :
      IsHead isProcedure [create, or, replace, routine]

/-- The parentheses that are open after a token. -/
def depthAfter (t : Token) (depth : Nat) : Nat :=
  if t.isSign "(" then depth + 1 else if t.isSign ")" then depth - 1 else depth

/-- The arguments of a list that is open `depth` parentheses deep, and the tokens after the list. Commas one deep
stand between arguments, and the list ends when no parenthesis is open. -/
def splitArguments (depth : Nat) : List Token → List (List Token) × List Token
  | [] => ([[]], [])
  | t :: ts =>
    if depthAfter t depth = 0 then ([[]], ts)
    else
      let (args, rest) := splitArguments (depthAfter t depth) ts
      (if t.isSign "," && depth = 1 then [] :: args else args.modifyHead (t :: ·), rest)

/-- The token is a word between double quotes. -/
def isQuoted : Token → Bool
  | .word _ inQuotes => inQuotes
  | _ => false

/-- The token is a word that marks an argument as an output. -/
def isMode (t : Token) : Bool :=
  t.isWord "OUT" || t.isWord "INOUT"

/-- Some argument starts with such a token. -/
def anyStarts (p : Token → Bool) (args : List (List Token)) : Bool :=
  args.any fun arg => arg.head?.any p

/-- The last part of the dotted name that the tokens start with, in small letters. -/
def lastName : List Token → Option String
  | .word value _ :: .sign "." :: ts => some ((lastName ts).getD (Text.lowercase value))
  | .word value _ :: _ => some (Text.lowercase value)
  | _ => none

/-- The tokens start with a keyword for a set of rows. -/
def startsWithSet (type : List Token) : Bool :=
  type.head?.any fun t => t.isWord "SETOF" && !isQuoted t || t.isKeyword "TABLE"

/-- The tokens start with a keyword for a set of rows, but it is in quotes. -/
def startsWithQuotedSet (type : List Token) : Bool :=
  type.head?.any fun t => t.isWord "SETOF" && isQuoted t

/-- The tokens of a statement that creates a routine with a list of arguments. -/
structure Creation where
  isProcedure : Bool
  head : List Token
  name : List Token
  /-- What comes after the parenthesis that opens the list of arguments. -/
  after : List Token
  isHead : IsHead isProcedure head
  isName : ∀ t ∈ name, t.isSign "(" = false

namespace Creation

variable (c : Creation)

def tokens : List Token :=
  c.head ++ (c.name ++ .sign "(" :: c.after)

def arguments : List (List Token) :=
  (splitArguments 1 c.after).1

/-- The tokens from the return type on, if the signature has one. -/
def result? : Option (List Token) :=
  afterKeyword? "RETURNS" (splitArguments 1 c.after).2

/-- Some argument has a mode for output. -/
def hasOutputs : Bool :=
  anyStarts (fun t => isMode t && !isQuoted t) c.arguments

/-- The routine returns a set of rows. -/
def returnsSet : Bool :=
  c.result?.any startsWithSet

/-- What the routine returns, by its signature. -/
def kind : ReturnKind :=
  if c.isProcedure then .void
  else match c.result? with
    | none => if c.hasOutputs then .outParams else .void
    | some type =>
      if c.returnsSet then .setof
      else if c.hasOutputs then .outParams
      else kindOfType (lastName type)

/-- A type with the name `SETOF`, in quotes, is taken for the keyword. -/
def misreadsSet : Bool :=
  c.result?.any startsWithQuotedSet

/-- No argument has a mode for output, but one with the name of a mode, in quotes, is taken for one that has. -/
def misreadsOutputs : Bool :=
  !c.hasOutputs && anyStarts isMode c.arguments

end Creation

/-- The lexemes from the return type on, if the statement has one. -/
def resultLexemes? (sql : String) : Option (List Lexeme) :=
  (Sql.lexemes sql.toList).toOption.bind fun ls => (header? ls).bind fun (_, ls) =>
    (keyword? "RETURNS" (skipGaps (afterArguments ls).2)).map skipGaps

/-- The return type up to the first gap is a type of another kind. -/
def misreadsType (sql : String) : Bool :=
  (resultLexemes? sql).any fun type =>
    kindOfType (lastName (tokens (type.takeWhile (!·.token.isGap)))) ≠ kindOfType (lastName (tokens type))

/-! ## Reading past gaps -/

theorem tokens_skipGaps (ls : List Lexeme) : tokens (skipGaps ls) = tokens ls := by
  induction ls with
  | nil => rfl
  | cons l ls ih =>
    rw [skipGaps, List.dropWhile_cons, tokens_cons]
    split
    · next hgap => exact ih
    · next hgap => rw [tokens_cons, if_neg hgap]

/-- What is left after gaps starts with the first token. -/
theorem skipGaps_cases (ls : List Lexeme) :
    skipGaps ls = [] ∧ tokens ls = [] ∨
      ∃ l ms, skipGaps ls = l :: ms ∧ tokens ls = l.token :: tokens ms := by
  cases hskip : skipGaps ls with
  | nil =>
    rw [← tokens_skipGaps, hskip]
    exact .inl ⟨rfl, rfl⟩
  | cons l ms =>
    have hgap : l.token.isGap = false := by
      have hhead := List.head?_dropWhile_not (fun l : Lexeme => l.token.isGap) ls
      rw [← skipGaps, hskip] at hhead
      exact hhead
    refine .inr ⟨l, ms, rfl, ?_⟩
    rw [← tokens_skipGaps, hskip, tokens_cons, hgap, if_neg Bool.false_ne_true]

theorem map_tokens_keyword? (keyword : String) (ls : List Lexeme) :
    (keyword? keyword (skipGaps ls)).map tokens = afterKeyword? keyword (tokens ls) := by
  rcases skipGaps_cases ls with ⟨hskip, htokens⟩ | ⟨l, ms, hskip, htokens⟩
  · rw [hskip, htokens]
    rfl
  · rw [hskip, htokens, keyword?, afterKeyword?]
    split <;> rfl

theorem exists_of_isKeyword {keyword : String} {ls : List Lexeme} {t : Token} {ts : List Token}
    (htokens : tokens ls = t :: ts) (ht : t.isKeyword keyword = true) :
    ∃ ms, keyword? keyword (skipGaps ls) = some ms ∧ tokens ms = ts := by
  have hmap := map_tokens_keyword? keyword ls
  rw [htokens, afterKeyword?, if_pos ht] at hmap
  exact Option.map_eq_some_iff.1 hmap

theorem keyword?_eq_none {keyword other : String} {ls : List Lexeme} {t : Token} {ts : List Token}
    (htokens : tokens ls = t :: ts) (ht : t.isKeyword other = true) (hne : other ≠ keyword) :
    keyword? keyword (skipGaps ls) = none := by
  obtain ⟨value, rfl, hform⟩ := Sql.Token.eq_word_of_isKeyword ht
  have hnot : ¬ (Token.word value false).isKeyword keyword = true := by
    rw [Token.isKeyword, hform, beq_iff_eq]
    exact hne
  have hmap := map_tokens_keyword? keyword ls
  rw [htokens, afterKeyword?, if_neg hnot] at hmap
  exact Option.map_eq_none_iff.1 hmap

theorem exists_routine? {isProcedure : Bool} {ls : List Lexeme} {t : Token} {ts : List Token}
    (htokens : tokens ls = t :: ts)
    (ht : t.isKeyword (if isProcedure then "PROCEDURE" else "FUNCTION") = true) :
    ∃ ms, routine? (skipGaps ls) = some (isProcedure, ms) ∧ tokens ms = ts := by
  obtain ⟨ms, hkeyword, hms⟩ := exists_of_isKeyword htokens ht
  refine ⟨ms, ?_, hms⟩
  cases isProcedure with
  | false =>
    rw [if_neg Bool.false_ne_true] at hkeyword
    rw [routine?, hkeyword]
  | true =>
    rw [if_pos rfl] at ht hkeyword
    rw [routine?, keyword?_eq_none htokens ht (by decide), hkeyword]

/-- The head of a statement is read whatever gaps it holds. -/
theorem exists_header? {isProcedure : Bool} {head more : List Token} (h : IsHead isProcedure head)
    {ls : List Lexeme} (htokens : tokens ls = head ++ more) :
    ∃ ms, header? ls = some (isProcedure, ms) ∧ tokens ms = more := by
  rw [header?_eq]
  cases h with
  | create isCreate isRoutine =>
    obtain ⟨ls₁, hcreate, htokens⟩ := exists_of_isKeyword htokens isCreate
    rw [hcreate, Option.bind_some, keyword?_eq_none htokens isRoutine (by cases isProcedure <;> decide)]
    exact exists_routine? htokens isRoutine
  | replace isCreate isOr isReplace isRoutine =>
    obtain ⟨ls₁, hcreate, htokens⟩ := exists_of_isKeyword htokens isCreate
    obtain ⟨ls₂, hor, htokens⟩ := exists_of_isKeyword htokens isOr
    obtain ⟨ls₃, hreplace, htokens⟩ := exists_of_isKeyword htokens isReplace
    rw [hcreate, Option.bind_some, hor]
    dsimp only
    rw [hreplace, Option.bind_some]
    exact exists_routine? htokens isRoutine

/-! ## The list of arguments -/

theorem exists_opening {name after : List Token} {ls : List Lexeme}
    (htokens : tokens ls = name ++ .sign "(" :: after) (hname : ∀ t ∈ name, t.isSign "(" = false) :
    ∃ l ms, ls.dropWhile (!·.token.isSign "(") = l :: ms ∧ tokens ms = after := by
  induction ls generalizing name with
  | nil => simp [tokens] at htokens
  | cons l ls ih =>
    rw [tokens_cons] at htokens
    rw [List.dropWhile_cons]
    split at htokens
    · next hgap =>
      rw [Sql.Token.eq_gap_of_isGap hgap]
      exact ih htokens hname
    · next hgap =>
      cases name with
      | nil =>
        obtain ⟨hl, hafter⟩ := List.cons.inj htokens
        rw [hl]
        exact ⟨l, ls, rfl, hafter⟩
      | cons t name =>
        obtain ⟨hl, hrest⟩ := List.cons.inj htokens
        obtain ⟨ht, hname⟩ := List.forall_mem_cons.1 hname
        rw [hl, ht]
        exact ih hrest hname

theorem eq_sign_of_isSign {t : Token} {text : String} (h : t.isSign text = true) : t = .sign text := by
  unfold Token.isSign at h
  split at h
  · rw [beq_iff_eq.1 h]
  · cases h

theorem arguments_zero (fresh found : Bool) (ls : List Lexeme) : arguments 0 fresh found ls = (found, ls) := by
  cases ls with
  | nil => rfl
  | cons l ls => rw [arguments, if_pos rfl]

/-- A token of the list opens or closes a parenthesis, ends an argument, or is its first token. -/
theorem arguments_cons {l : Lexeme} (hgap : l.token.isGap = false) (depth : Nat) (fresh found : Bool)
    (ls : List Lexeme) :
    arguments (depth + 1) fresh found (l :: ls) =
      arguments (depthAfter l.token (depth + 1)) (l.token.isSign "," && depth = 0)
        (found || (fresh && isMode l.token)) ls := by
  rw [arguments, if_neg (Nat.succ_ne_zero depth), hgap, if_neg Bool.false_ne_true, depthAfter]
  dsimp only
  split
  · next hopen =>
    rw [eq_sign_of_isSign hopen]
    rfl
  · split
    · next hclose =>
      rw [eq_sign_of_isSign hclose]
      rfl
    · simp [isMode, Bool.and_comm]

theorem splitArguments_ne_nil (depth : Nat) (ts : List Token) : (splitArguments depth ts).1 ≠ [] := by
  induction ts generalizing depth with
  | nil => exact List.cons_ne_nil _ _
  | cons t ts ih =>
    rw [splitArguments]
    split
    · exact List.cons_ne_nil _ _
    · dsimp only
      split
      · exact List.cons_ne_nil _ _
      · simpa using ih _

theorem eq_sign_of_depthAfter {t : Token} {depth : Nat} (h : depthAfter t (depth + 1) = 0) : t = .sign ")" := by
  unfold depthAfter at h
  split at h
  · cases h
  · split at h
    · next hclose => exact eq_sign_of_isSign hclose
    · cases h

/-- Reading a list of arguments looks at the first token of each of them. Where `fresh` does not hold, the first
argument has been begun before. -/
theorem arguments_eq (depth : Nat) (fresh found : Bool) (ls : List Lexeme) :
    (arguments (depth + 1) fresh found ls).1 =
        (found || anyStarts isMode (if fresh then (splitArguments (depth + 1) (tokens ls)).1
          else (splitArguments (depth + 1) (tokens ls)).1.tail)) ∧
      tokens (arguments (depth + 1) fresh found ls).2 = (splitArguments (depth + 1) (tokens ls)).2 := by
  induction ls generalizing depth fresh found with
  | nil => cases fresh <;> simp [arguments, splitArguments, tokens, anyStarts]
  | cons l ls ih =>
    rw [tokens_cons]
    cases hgap : l.token.isGap with
    | true =>
      rw [arguments, if_neg (Nat.succ_ne_zero depth), hgap, if_pos rfl]
      exact ih depth fresh found
    | false =>
      rw [arguments_cons hgap, if_neg Bool.false_ne_true, splitArguments]
      generalize l.token = t
      cases hdepth : depthAfter t (depth + 1) with
      | zero =>
        obtain rfl := eq_sign_of_depthAfter hdepth
        rw [arguments_zero]
        cases fresh <;> simp [anyStarts, isMode, Token.isWord]
      | succ inside =>
        rw [if_neg (Nat.succ_ne_zero inside)]
        obtain ⟨hfound, hrest⟩ := ih inside (t.isSign "," && depth = 0) (found || (fresh && isMode t))
        have hne := splitArguments_ne_nil (inside + 1) (tokens ls)
        rw [hfound, hrest]
        generalize splitArguments (inside + 1) (tokens ls) = split at hne
        obtain ⟨args, rest⟩ := split
        obtain ⟨arg, args, rfl⟩ := List.exists_cons_of_ne_nil hne
        refine ⟨?_, rfl⟩
        cases hcomma : t.isSign "," && depth = 0 with
        | true =>
          obtain ⟨hsign, hzero⟩ := Bool.and_eq_true_iff.1 hcomma
          obtain rfl := eq_sign_of_isSign hsign
          obtain rfl := of_decide_eq_true hzero
          cases fresh <;> simp [anyStarts, isMode, Token.isWord, Token.isSign]
        | false =>
          have hnot : ¬ (t.isSign "," = true ∧ depth = 0) := by simpa using hcomma
          cases fresh <;> simp [anyStarts, hnot, Bool.or_assoc]

/-! ## The return type -/

theorem lastName_cons (t : Token) (ts : List Token) :
    lastName (t :: ts) = (nameOf t).map fun name =>
      match ts with
      | dot :: rest => if dot.isSign "." then (lastName rest).getD name else name
      | [] => name := by
  cases t with
  | word value inQuotes =>
    cases ts with
    | nil => rfl
    | cons dot rest =>
      simp only [nameOf, Option.map_some]
      split
      · next hdot =>
        rw [eq_sign_of_isSign hdot, lastName]
      · next hdot =>
        rw [lastName]
        rintro ts' ⟨⟩
        exact hdot rfl
  | _ => rfl

theorem tokens_takeWhile_cons (l : Lexeme) (ls : List Lexeme) :
    tokens ((l :: ls).takeWhile (!·.token.isGap)) =
      if l.token.isGap then [] else l.token :: tokens (ls.takeWhile (!·.token.isGap)) := by
  rw [List.takeWhile_cons]
  cases hgap : l.token.isGap with
  | true => rfl
  | false => simp [tokens_cons, hgap]

/-- The name of a type is read up to the first gap. -/
theorem lastPart_eq : (ls : List Lexeme) → lastPart ls = lastName (tokens (ls.takeWhile (!·.token.isGap)))
  | [] => rfl
  | l :: ls => by
    rw [lastPart_cons, tokens_takeWhile_cons]
    cases hgap : l.token.isGap with
    | true => rw [Sql.Token.eq_gap_of_isGap hgap]; rfl
    | false =>
      rw [if_neg Bool.false_ne_true, lastName_cons]
      congr 1
      funext name
      cases ls with
      | nil => rfl
      | cons dot rest =>
        rw [tokens_takeWhile_cons]
        dsimp only
        cases hdot : dot.token.isGap with
        | true => rw [Sql.Token.eq_gap_of_isGap hdot]; rfl
        | false => rw [lastPart_eq rest]; rfl

/-! ## What the routine returns -/

/-- The kind of the return type, with the gaps in it left out. -/
def Creation.typeKind (c : Creation) : ReturnKind :=
  c.result?.elim .void fun type => kindOfType (lastName type)

theorem Creation.kind_eq (c : Creation) :
    c.kind =
      if c.isProcedure then .void
      else if c.returnsSet then .setof else if c.hasOutputs then .outParams else c.typeKind := by
  unfold kind returnsSet typeKind
  cases c.result? with
  | none => rfl
  | some type => rfl

/-- The kind of the return type, read up to the first gap. -/
def writtenKind (sql : String) : ReturnKind :=
  (resultLexemes? sql).elim .void fun type => kindOfType (lastName (tokens (type.takeWhile (!·.token.isGap))))

/-- The parts of a signature are found whatever gaps it holds. -/
theorem exists_parts {sql : String} {c : Creation} (h : Sql.tokens? sql.toList = some c.tokens) :
    ∃ ls ms, Sql.lexemes sql.toList = .ok ls ∧ header? ls = some (c.isProcedure, ms) ∧
      (afterArguments ms).1 = anyStarts isMode c.arguments ∧
      tokens (afterArguments ms).2 = (splitArguments 1 c.after).2 := by
  obtain ⟨ls, hls, htokens⟩ := Sql.tokens?_eq_some_iff.1 h
  obtain ⟨ms, hheader, hms⟩ := exists_header? c.isHead htokens
  obtain ⟨opening, inside, hopening, hinside⟩ := exists_opening hms c.isName
  have hafter : afterArguments ms = arguments 1 true false inside := by
    rw [afterArguments, hopening]
  obtain ⟨hfound, hrest⟩ := arguments_eq 0 true false inside
  rw [hinside, Bool.false_or, if_pos rfl, ← hafter] at hfound
  rw [hinside, ← hafter] at hrest
  exact ⟨ls, ms, Sql.lexemes_eq_ok_iff.2 hls, hheader, hfound, hrest⟩

theorem resultLexemes?_eq {sql : String} {ls ms : List Lexeme} {isProcedure : Bool}
    (hls : Sql.lexemes sql.toList = .ok ls) (hheader : header? ls = some (isProcedure, ms)) :
    resultLexemes? sql = (keyword? "RETURNS" (skipGaps (afterArguments ms).2)).map skipGaps := by
  rw [resultLexemes?, hls]
  show (header? ls).bind _ = _
  rw [hheader, Option.bind_some]

theorem map_tokens_resultLexemes? {sql : String} {c : Creation} (h : Sql.tokens? sql.toList = some c.tokens) :
    (resultLexemes? sql).map tokens = c.result? := by
  obtain ⟨ls, ms, hls, hheader, -, hrest⟩ := exists_parts h
  rw [resultLexemes?_eq hls hheader, Creation.result?, ← hrest, ← map_tokens_keyword?, Option.map_map]
  congr 1
  funext type
  exact tokens_skipGaps type

theorem startsSet_eq (ls : List Lexeme) :
    startsSet (skipGaps ls) = (startsWithSet (tokens ls) || startsWithQuotedSet (tokens ls)) := by
  rcases skipGaps_cases ls with ⟨hskip, htokens⟩ | ⟨l, ms, hskip, htokens⟩
  · rw [hskip, htokens]
    rfl
  · rw [hskip, htokens]
    simp only [startsSet, startsWithSet, startsWithQuotedSet, List.head?_cons, Option.map_some, Option.getD_some,
      Option.any_some]
    cases l.token with
    | word value inQuotes => cases inQuotes <;> simp [isQuoted, Token.isKeyword]
    | _ => rfl

theorem not_startsWithSet {type : List Token} (h : startsWithQuotedSet type = true) : startsWithSet type = false := by
  cases type with
  | nil => rfl
  | cons t ts =>
    cases t with
    | word value inQuotes =>
      cases inQuotes with
      | false => simp [startsWithQuotedSet, isQuoted] at h
      | true => simp [startsWithSet, isQuoted, Token.isKeyword]
    | _ => rfl

/-- A signature is read with words in quotes as keywords, and with a type that ends at the first gap. -/
theorem returnKind_of_tokens {sql : String} {c : Creation} (h : Sql.tokens? sql.toList = some c.tokens) :
    returnKind sql = some (
      if c.isProcedure then .void
      else if c.returnsSet || c.misreadsSet then .setof
      else if anyStarts isMode c.arguments then .outParams else writtenKind sql) := by
  have hresult := map_tokens_resultLexemes? h
  obtain ⟨ls, ms, hls, hheader, hfound, -⟩ := exists_parts h
  rw [returnKind_eq, hls, Creation.returnsSet, Creation.misreadsSet, ← hresult, writtenKind]
  show kindOf ls = _
  rw [kindOf, hheader, Option.map_some, resultLexemes?_eq hls hheader]
  dsimp only
  rw [resultOf, hfound]
  cases keyword? "RETURNS" (skipGaps (afterArguments ms).2) with
  | none => rfl
  | some type =>
    simp only [Option.map_some, Option.any_some, Option.elim_some, startsSet_eq, lastPart_eq, tokens_skipGaps]

theorem anyStarts_mono {p q : Token → Bool} (h : ∀ t, p t = true → q t = true) {args : List (List Token)}
    (hany : anyStarts p args = true) : anyStarts q args = true := by
  obtain ⟨arg, harg, hp⟩ := List.any_eq_true.1 hany
  refine List.any_eq_true.2 ⟨arg, harg, ?_⟩
  cases hhead : arg.head? with
  | none =>
    rw [hhead] at hp
    cases hp
  | some t =>
    rw [hhead] at hp
    exact h t hp

theorem Creation.modes_of_hasOutputs {c : Creation} (h : c.hasOutputs = true) :
    anyStarts isMode c.arguments = true :=
  anyStarts_mono (fun _ ht => (Bool.and_eq_true_iff.1 ht).1) h

theorem Creation.not_returnsSet_of_misreadsSet {c : Creation} (h : c.misreadsSet = true) :
    c.returnsSet = false := by
  unfold misreadsSet at h
  unfold returnsSet
  cases hresult : c.result? with
  | none => rfl
  | some type =>
    rw [hresult] at h
    exact not_startsWithSet h

theorem Creation.typeKind_ne (c : Creation) : c.typeKind ≠ .setof ∧ c.typeKind ≠ .outParams := by
  unfold typeKind kindOfType
  cases c.result? with
  | none => exact ⟨nofun, nofun⟩
  | some type =>
    dsimp only [Option.elim_some]
    split
    · exact ⟨nofun, nofun⟩
    · split
      · exact ⟨nofun, nofun⟩
      · exact ⟨nofun, nofun⟩

theorem misreadsType_eq_false_iff {sql : String} {c : Creation} (h : Sql.tokens? sql.toList = some c.tokens) :
    misreadsType sql = false ↔ writtenKind sql = c.typeKind := by
  rw [misreadsType, writtenKind, Creation.typeKind, ← map_tokens_resultLexemes? h]
  cases resultLexemes? sql with
  | none => simp
  | some type => simp

/-- Two readings, of which one takes more for a set and for outputs, agree where it does not. -/
theorem kind_eq_iff {set quotedSet outputs modes : Bool} {kind kind' : ReturnKind}
    (hquoted : quotedSet = true → set = false) (hmodes : outputs = true → modes = true)
    (hkind : kind ≠ .setof ∧ kind ≠ .outParams) :
    (if set || quotedSet then .setof else if modes then .outParams else kind') =
        (if set then .setof else if outputs then .outParams else kind) ↔
      quotedSet = false ∧ (set = true ∨ (!outputs && modes) = false ∧ (outputs = true ∨ kind' = kind)) := by
  cases set <;> cases quotedSet <;> cases outputs <;> cases modes <;> simp_all [eq_comm]

end Signature

open Signature in
/-- **What a routine returns follows from its signature**, whatever its layout, unless a type in quotes is taken for
`SETOF`, a name in quotes for a mode, or the start of a type for all of it. None of this matters for a procedure,
modes and types do not matter where a set is returned, and types do not where an argument is an output. -/
theorem return_kind_follows_the_signature_iff {sql : String} {c : Creation}
    (h : Sql.tokens? sql.toList = some c.tokens) :
    returnKind sql = some c.kind ↔
      c.isProcedure = true ∨ c.misreadsSet = false ∧
        (c.returnsSet = true ∨ c.misreadsOutputs = false ∧ (c.hasOutputs = true ∨ misreadsType sql = false)) := by
  rw [returnKind_of_tokens h, Option.some.injEq, c.kind_eq, misreadsType_eq_false_iff h, Creation.misreadsOutputs]
  cases c.isProcedure with
  | true => simp
  | false =>
    simp only [Bool.false_eq_true, if_false, false_or]
    exact kind_eq_iff c.not_returnsSet_of_misreadsSet c.modes_of_hasOutputs c.typeKind_ne

/-- The tokens of a function with a mode, in small letters, behind a comment. -/
def rounding : Signature.Creation where
  isProcedure := false
  head := [.word "CREATE" false, .word "OR" false, .word "REPLACE" false, .word "FUNCTION" false]
  name := [.word "s" false, .sign ".", .word "f" false]
  after := [.word "a" false, .word "numeric" false, .sign "(", .number "10" false, .sign ",", .number "2" false,
    .sign ")", .sign ",", .word "inout" false, .word "b" false, .word "int" false, .sign ")",
    .word "RETURNS" false, .word "int" false]
  isHead := .replace (by decide) (by decide) (by decide) (by decide)
  isName := by decide

theorem return_kind_follows_the_signature_iff_rounding :
    Signature.returnKind "CREATE OR/**/REPLACE FUNCTION s.f(a numeric(10, 2), -- OUT\n inout b int) RETURNS int" =
      some .outParams := by
  have htokens : Sql.tokens?
      "CREATE OR/**/REPLACE FUNCTION s.f(a numeric(10, 2), -- OUT\n inout b int) RETURNS int".toList =
        some rounding.tokens := by decide +kernel
  have hkind : rounding.kind = .outParams := by decide +kernel
  rw [(return_kind_follows_the_signature_iff htokens).2 (by decide), hkind]

/-- A name in quotes is taken for a mode. -/
example : Signature.returnKind "CREATE FUNCTION f(\"out\" int) RETURNS int AS ''" = some .outParams := by
  decide +kernel

/-- The tokens of a function that returns the type `void` of a schema. -/
def announcing : Signature.Creation where
  isProcedure := false
  head := [.word "CREATE" false, .word "FUNCTION" false]
  name := [.word "f" false]
  after := [.sign ")", .word "RETURNS" false, .word "pg_catalog" false, .sign ".", .word "void" false,
    .word "AS" false, .string .plain ""]
  isHead := .create (by decide) (by decide)
  isName := by decide

/-- Blanks around the point of a type change what a routine is taken to return. -/
theorem return_kind_hangs_on_the_layout :
    ¬ ∀ (sql : String) (c : Signature.Creation), Sql.tokens? sql.toList = some c.tokens →
      Signature.returnKind sql = some c.kind := by
  intro hall
  have hkind := hall "CREATE FUNCTION f() RETURNS pg_catalog . void AS ''" announcing (by decide +kernel)
  exact absurd hkind (by decide +kernel)

end Routine
