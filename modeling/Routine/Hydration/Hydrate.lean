import Routine.Assignment
import Routine.Sql.Backend
import Routine.TypeName
import Routine.Slot

/-!
# Hydration: text to parsed SQL

Every raw leaf is parsed as its mode says and becomes a hydrated one, which keeps its text. A leaf that
does not parse is kept as text and reported; an assignment can be reported once for each side. A type
is parsed only if it has a qualified name, and stays raw if that fails. Leaves that are hydrated
already are left alone.

What happens to one leaf does not depend on any other (`hydrateLeaf`, `hydrateType`). A routine is walked
from its first leaf to its last, and what they come to is recorded on the way (`Walk.visit`). Unless
hydration is to go on after an error, the first one ends the walk, and the first routine whose walk was
ended ends the hydration of the tree.
-/

namespace Routine

open Sql (Backend BackendError Tree)

/-! ## Outcomes -/

/-- What is hydrated, and whether an error ends it. -/
structure HydrateOptions where
  /-- Parse statements and expressions. -/
  expressions : Bool := true
  /-- Split assignments and parse their sides. -/
  assignments : Bool := true
  /-- Parse the qualified names of types. -/
  typeNames : Bool := true
  /-- Go on after an error. -/
  continueOnError : Bool := true
deriving DecidableEq, Repr

/-- What went wrong with a leaf. -/
inductive HydrationFault where
  | leafParse
  | assignmentSplit
  | typeName
deriving DecidableEq, Repr

/-- The name of a fault. -/
def HydrationFault.name : HydrationFault → String
  | leafParse => "LeafParse"
  | assignmentSplit => "AssignmentSplit"
  | typeName => "TypeName"

/-- A leaf that could not be hydrated. -/
structure HydrationError where
  path : Path
  captured : String
  mode : ParseMode
  fault : HydrationFault
  message : String
deriving DecidableEq, Repr

/-- Counts of what hydration did. -/
structure HydrationStats where
  /-- Leaves that hold SQL. -/
  expressions : Nat := 0
  /-- Leaves with a parsed tree. -/
  parsed : Nat := 0
  /-- Errors. -/
  failed : Nat := 0
  assignments : Nat := 0
  sqlExpressions : Nat := 0
  sqlStatements : Nat := 0
  /-- Leaves kept as text. -/
  raw : Nat := 0
  typeNames : Nat := 0
  alreadyHydrated : Nat := 0
deriving DecidableEq, Repr

namespace HydrationStats

/-- The counts of two parts together. -/
def add (s t : HydrationStats) : HydrationStats where
  expressions := s.expressions + t.expressions
  parsed := s.parsed + t.parsed
  failed := s.failed + t.failed
  assignments := s.assignments + t.assignments
  sqlExpressions := s.sqlExpressions + t.sqlExpressions
  sqlStatements := s.sqlStatements + t.sqlStatements
  raw := s.raw + t.raw
  typeNames := s.typeNames + t.typeNames
  alreadyHydrated := s.alreadyHydrated + t.alreadyHydrated

instance : Add HydrationStats := ⟨add⟩

end HydrationStats

/-- What became of a part of a tree. -/
structure Outcome (α : Type) where
  value : α
  errors : List HydrationError
  stats : HydrationStats

/-! ## One leaf -/

section

variable (b : Backend) (o : HydrateOptions)

/-- The leaf is kept as text. -/
def keepRaw (text : String) (mode : ParseMode) : Outcome Leaf :=
  ⟨.hydrated text mode .raw, [], { expressions := 1, raw := 1 }⟩

/-- The leaf is kept as text and reported. -/
def refuseLeaf (path : Path) (text : String) (mode : ParseMode) (fault : HydrationFault)
    (message : String) : Outcome Leaf :=
  ⟨.hydrated text mode .raw, [⟨path, text, mode, fault, message⟩],
    { expressions := 1, raw := 1, failed := 1 }⟩

/-- One side of an assignment: its tree, or a report about the whole leaf. -/
def parseSide (path : Path) (text : String) (mode : ParseMode) (side : String) :
    Option Tree × List HydrationError :=
  match b.parseExpression side with
  | .ok tree => (some tree, [])
  | .error e => (none, [⟨path, text, mode, .leafParse, "`" ++ side ++ "`: " ++ e.message⟩])

/-- The outcome of an assignment. -/
def hydrateAssignment (path : Path) (text : String) (mode : ParseMode) : Outcome Leaf :=
  match Assignment.parse text with
  | .error fault => refuseLeaf path text mode .assignmentSplit fault.message
  | .ok sides =>
    let (targetTree, targetErrors) := parseSide b path text mode sides.target
    let (valueTree, valueErrors) := parseSide b path text mode sides.value
    let errors := targetErrors ++ valueErrors
    ⟨.hydrated text mode (.assignment sides.target sides.value targetTree valueTree), errors,
      { expressions := 1
        failed := errors.length
        parsed := if targetTree.isSome || valueTree.isSome then 1 else 0 }⟩

/-- The outcome of a statement. -/
def hydrateStatement (path : Path) (text : String) (mode : ParseMode) : Outcome Leaf :=
  match b.parseStatement text with
  | .ok tree =>
    ⟨.hydrated text mode (.statement tree), [], { expressions := 1, parsed := 1, sqlStatements := 1 }⟩
  | .error e => refuseLeaf path text mode .leafParse e.message

/-- The outcome of an expression. -/
def hydrateExpression (path : Path) (text : String) (mode : ParseMode) : Outcome Leaf :=
  match b.parseExpression text with
  | .ok tree =>
    ⟨.hydrated text mode (.expression tree), [], { expressions := 1, parsed := 1, sqlExpressions := 1 }⟩
  | .error e => refuseLeaf path text mode .leafParse e.message

/-- The outcome of a raw leaf. -/
def hydrateRaw (path : Path) (text : String) (mode : ParseMode) : Outcome Leaf :=
  if mode.isAssignment then
    let outcome := if o.assignments then hydrateAssignment b path text mode else keepRaw text mode
    { outcome with stats := { outcome.stats with assignments := 1 } }
  else if o.expressions = false then keepRaw text mode
  else if mode = .statement then hydrateStatement b path text mode
  else if mode = .expression then hydrateExpression b path text mode
  else keepRaw text mode

/-- The outcome of a leaf. -/
def hydrateLeaf (path : Path) : Leaf → Outcome Leaf
  | .raw text mode => hydrateRaw b o path text mode
  | .hydrated captured mode content =>
    ⟨.hydrated captured mode content, [], { expressions := 1, alreadyHydrated := 1 }⟩

/-- The outcome of a type. -/
def hydrateType (path : Path) : TypeRef → Outcome TypeRef
  | .raw name =>
    match (if o.typeNames then TypeName.parsable? name else none) with
    | none => ⟨.raw name, [], {}⟩
    | some (base, suffix) =>
      match b.parseType base with
      | .ok tree => ⟨.hydrated name tree suffix, [], { typeNames := 1 }⟩
      | .error e => ⟨.raw name, [⟨path, name, .typeName, .typeName, e.message⟩], { failed := 1 }⟩
  | .hydrated captured tree suffix => ⟨.hydrated captured tree suffix, [], {}⟩

/-! ## A whole tree -/

/-- Hydration of every leaf. -/
def hydrator : Mapper where
  leaf path l := (hydrateLeaf b o path l).value
  type path t := (hydrateType b o path t).value

/-- The errors and counts of a leaf of either kind. -/
def slotOutcome : Placed → List HydrationError × HydrationStats
  | (path, .leaf l) => let r := hydrateLeaf b o path l; (r.errors, r.stats)
  | (path, .type t) => let r := hydrateType b o path t; (r.errors, r.stats)

/-- What the walk over the leaves of a routine has recorded so far. -/
structure Walk where
  errors : List HydrationError := []
  stats : HydrationStats := {}
  /-- An error has ended the walk, and the leaves that are left are passed over. -/
  aborted : Bool := false

/-- The walk after one more leaf. A leaf is recorded whole, also the errors after its first. -/
def Walk.visit (w : Walk) (x : Placed) : Walk :=
  if w.aborted then w
  else
    let (errors, stats) := slotOutcome b o x
    ⟨w.errors ++ errors, w.stats + stats, !o.continueOnError && !errors.isEmpty⟩

/-- The walk over the routine with an index. -/
def Function.walk (index : Nat) (f : Function) : Walk :=
  (f.slots index).foldl (Walk.visit b o) {}

/-- An error that ended hydration. -/
structure HydrationAborted where
  path : Path
  reason : String
deriving DecidableEq, Repr

/-- The end in words. -/
def HydrationAborted.message (e : HydrationAborted) : String :=
  "Hydration aborted at " ++ e.path.render ++ ": " ++ e.reason

namespace ParseTree

/-- The outcome of the routines from the index on. A routine whose walk was ended is dropped; the error
that ended it is the outcome. -/
def hydrateFrom (index : Nat) : ParseTree → Except HydrationAborted (Outcome ParseTree)
  | [] => .ok ⟨[], [], {}⟩
  | f :: fs =>
    let walk := f.walk b o index
    if walk.aborted then
      match walk.errors with
      | e :: _ => .error ⟨e.path, e.message⟩
      | [] => hydrateFrom (index + 1) fs
    else
      match hydrateFrom (index + 1) fs with
      | .error e => .error e
      | .ok rest =>
        .ok ⟨f.mapSlots (hydrator b o) index :: rest.value, walk.errors ++ rest.errors,
          walk.stats + rest.stats⟩

/-- The outcome of all routines. -/
def hydrate (t : ParseTree) : Except HydrationAborted (Outcome ParseTree) :=
  hydrateFrom b o 0 t

end ParseTree

end

end Routine
