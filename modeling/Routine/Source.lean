import Routine.Codec.Tree
import Routine.Layout.Body

/-!
# Source text from parse trees

The two ways from an encoded parse tree to source text: the bodies of all routines, and the statement
that creates the first of them with its body replaced. What the signature of that statement says about
the result decides what a bare `RETURN` means.
-/

namespace Routine

/-- Why there is no source text. -/
inductive SourceError where
  | decode (cause : DecodeError)
  /-- The tree has no routine. -/
  | noFunctions
  /-- The statement creates no routine. -/
  | notRoutine
  /-- The statement has no body. -/
  | noBody
deriving DecidableEq, Repr

/-- The error in words. -/
def SourceError.message : SourceError → String
  | decode cause => "Failed to decode PL/pgSQL parse tree: " ++ cause.message
  | noFunctions => "Parse tree contains no functions"
  | notRoutine => "Input is not a CREATE FUNCTION or CREATE PROCEDURE statement"
  | noBody => "Failed to locate the function body"

/-- The bodies of the routines of an encoded tree. -/
def bodiesOfText (format : Format) (kind : Option ReturnKind) (json : String) :
    Except SourceError (List String) :=
  match ParseTree.ofText json with
  | .error e => .error (.decode e)
  | .ok t => .ok (t.bodies format kind)

/-- The body of a routine as the literal in a statement holds it, on lines of its own. -/
def Function.literalBody (format : Format) (kind : Option ReturnKind) (f : Function) : String :=
  format.newline ++ f.body format kind ++ format.newline

/-- The statement with the body of the first routine of an encoded tree. -/
def createFunction (format : Format) (sql json : String) : Except SourceError String :=
  match ParseTree.ofText json with
  | .error e => .error (.decode e)
  | .ok [] => .error .noFunctions
  | .ok (f :: _) =>
    match Signature.returnKind sql with
    | none => .error .notRoutine
    | some kind =>
      match Signature.replaceBody sql (f.literalBody format (some kind)) with
      | none => .error .noBody
      | some text => .ok text

/-! ## Files -/

/-- Why there is no tree in a file. -/
inductive FileError where
  | unreadable (path : String)
  | decode (cause : DecodeError)
deriving DecidableEq, Repr

/-- The error in words. -/
def FileError.message : FileError → String
  | unreadable path => "Failed to read parse tree file: " ++ path
  | decode cause => cause.message

/-- The tree in a file. The content is missing if the file could not be read. -/
def ParseTree.ofFile (path : String) (content : Option String) : Except FileError ParseTree :=
  match content with
  | none => .error (.unreadable path)
  | some text =>
    match ParseTree.ofText text with
    | .error e => .error (.decode e)
    | .ok t => .ok t

end Routine
