import Routine.Hydration.Hydrate
import Routine.Layout.Basic
import Routine.Shape.OfJson

/-!
# Options in JSON

Options are given as an object, or as an array of their values in order; those that are missing have
their defaults.
-/

namespace Routine

/-- How bodies are written. -/
def Format.shape : Shape Format :=
  .convert (fun (indent, newline, capitals, ()) => .ok ⟨indent, newline, capitals⟩)
    (fun f => (f.indent, f.newline, f.capitals, ()))
    (.record "struct DeparseOptions"
      (.defaulted "indent" .string "  " <| .defaulted "newline" .string "\n" <|
        .defaulted "uppercase_keywords" .bool true .nil))

/-- What is hydrated. -/
def HydrateOptions.shape : Shape HydrateOptions :=
  .convert
    (fun (expressions, assignments, typeNames, continueOnError, ()) =>
      .ok ⟨expressions, assignments, typeNames, continueOnError⟩)
    (fun o => (o.expressions, o.assignments, o.typeNames, o.continueOnError, ()))
    (.record "struct HydrateOptions"
      (.defaulted "hydrate_expressions" .bool true <| .defaulted "hydrate_assignments" .bool true <|
        .defaulted "hydrate_type_names" .bool true <| .defaulted "continue_on_error" .bool true .nil))

/-- The word for a kind of result. -/
def ReturnKind.name : ReturnKind → String
  | void => "void"
  | setof => "setof"
  | trigger => "trigger"
  | scalar => "scalar"
  | outParams => "out_params"

/-- A kind of result, by its word. -/
def ReturnKind.shape : Shape ReturnKind :=
  .choice <|
    .bare "void" .void (· = .void) <| .bare "setof" .setof (· = .setof) <|
    .bare "trigger" .trigger (· = .trigger) <| .bare "scalar" .scalar (· = .scalar) <|
    .bare "out_params" .outParams (· = .outParams) .nil

/-- Decodes a value of options; null stands for the default. -/
def Shape.optionsOf {α : Type} (shape : Shape α) (default : α) (v : Json) :
    Except Json.Complaint α :=
  match v with
  | .null => .ok default
  | v => shape.ofJson v.canonical

end Routine
