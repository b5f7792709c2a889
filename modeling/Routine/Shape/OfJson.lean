import Routine.Shape.Basic

/-!
# Decoding a JSON value by shape

Members are visited in the order in which the value has them, and the first complaint counts.
Members that the shape does not name are passed over, and the members that are missing are
complained about last, in the order of the shape.
-/

namespace Routine

open Json (Complaint)

/-- Decodes the members of an object one after the other, and completes the record. -/
def Fields.ofMembers {α σ : Type} (fields : Fields α σ)
    (setMember : String → Json → σ → Except Complaint σ) (ms : List (String × Json)) :
    Except Complaint α :=
  match ms.foldlM (fun state m => setMember m.1 m.2 state) fields.none with
  | .error k => .error k
  | .ok state =>
    match fields.complete state with
    | .ok a => .ok a
    | .error name => .error (.missingField name)

/-- Decodes a record from an array, none of whose items may be left over. -/
def Fields.ofArray {α σ : Type} (fields : Fields α σ) (title : String)
    (ofItems : (expected : String) → (i : Nat) → List Json → Except Complaint (α × List Json))
    (vs : List Json) : Except Complaint α :=
  match ofItems (Fields.counted title fields.count) 0 vs with
  | .error k => .error k
  | .ok (a, []) => .ok a
  | .ok (_, _) => .error (.wrongLength vs.length "fewer elements in array")

mutual

/-- Decodes a value. -/
def Shape.ofJson : {α : Type} → Shape α → Json → Except Complaint α
  | _, .int32, v => Shape.int32? v
  | _, .int64, v => Shape.int64? v
  | _, .natural, v => Shape.natural? v
  | _, .bool, v => Shape.bool? v
  | _, .string, v => Shape.string? v
  | _, .character, v => Shape.character? v
  | _, .option item, v =>
    match v with
    | .null => .ok none
    | v => (item.ofJson v).map some
  | _, .list item, v =>
    match v with
    | .arr vs => vs.mapM item.ofJson
    | v => .error (.wrongType v.found "a sequence")
  | _, .record title fields, v =>
    match v with
    | .arr vs => fields.ofArray title fields.ofItems vs
    | .obj ms => fields.ofMembers fields.setMember ms
    | v => .error (.wrongType v.found title)
  | _, .tagged tag item, v =>
    match v with
    | .obj [] => .error (.wrongLength 0 (Shape.taggedName tag))
    | .obj ((name, v) :: more) =>
      if name = tag then
        match item.ofJson v with
        | .error k => .error k
        | .ok a => if more.isEmpty then .ok a else .error (.wrongLength 2 (Shape.taggedName tag))
      else .error (.unknownVariant name [tag])
    | v => .error (.wrongType v.found (Shape.taggedName tag))
  | _, .choice variants, v =>
    match v with
    | .obj [(name, v)] =>
      match variants.ofTag name with
      | some payload => payload (some v)
      | none => .error (.unknownVariant name variants.tags)
    | .obj _ => .error (.wrongValue .map "map with a single key")
    | .str name =>
      match variants.ofTag name with
      | some payload => payload none
      | none => .error (.unknownVariant name variants.tags)
    | v => .error (.wrongType v.found "string or map")
  | _, .convert read _ item, v =>
    match item.ofJson v with
    | .error k => .error k
    | .ok a =>
      match read a with
      | .error message => .error (.refused message)
      | .ok b => .ok b
  | _, .either title read _, v =>
    match read v with
    | some a => .ok a
    | none => .error (.noAlternative title)
  | _, .codec c, v => c.ofJson v
  | _, .exhausted, _ => .error (.refused "nesting is too deep")

/-- Decodes a member into its place. A name that the record does not have changes nothing. -/
def Fields.setMember : {α σ : Type} → Fields α σ → String → Json → σ → Except Complaint σ
  | _, _, .nil, _, _, state => .ok state
  | _, _, .cons name item _ _ _ rest, key, v, (x, xs) =>
    if key = name then
      if x.isSome then .error (.duplicateField name)
      else (item.ofJson v).map fun a => (some a, xs)
    else (rest.setMember key v xs).map (x, ·)

/-- Decodes members from the items in order: the record and the items left over. `i` members come
before these. -/
def Fields.ofItems : {α σ : Type} → Fields α σ → (expected : String) → (i : Nat) → List Json →
    Except Complaint (α × List Json)
  | _, _, .nil, _, _, vs => .ok ((), vs)
  | _, _, .cons _ item _ whenShort _ rest, expected, i, vs =>
    match vs with
    | [] =>
      match whenShort with
      | none => .error (.wrongLength i expected)
      | some a => (rest.ofItems expected (i + 1) []).map fun (b, vs) => ((a, b), vs)
    | v :: vs =>
      match item.ofJson v with
      | .error k => .error k
      | .ok a => (rest.ofItems expected (i + 1) vs).map fun (b, vs) => ((a, b), vs)

/-- How the value under a tag is decoded, if the family has the tag. A tag given as a bare string
has no value under it. -/
def Variants.ofTag : {α : Type} → Variants α → String → Option (Option Json → Except Complaint α)
  | _, .nil, _ => none
  | _, .bare tag value _ rest, name =>
    if name = tag then
      some fun
        | none => .ok value
        | some .null => .ok value
        | some v => .error (.wrongType v.found "unit")
    else rest.ofTag name
  | _, .holding tag item inject _ rest, name =>
    if name = tag then
      some fun
        | none => .error (.wrongType .bareTag "newtype variant")
        | some v => (item.ofJson v).map inject
    else rest.ofTag name
  | _, .named tag _ fields inject _ rest, name =>
    if name = tag then
      some fun
        | none => .error (.wrongType .bareTag "struct variant")
        | some (.obj ms) => (fields.ofMembers fields.setMember ms).map inject
        | some v => .error (.wrongType v.found "struct variant")
    else rest.ofTag name
  | _, .positional tag title fields inject _ rest, name =>
    if name = tag then
      some fun
        | none => .error (.wrongType .bareTag "tuple variant")
        | some (.arr []) => .error (.wrongType .null title)
        | some (.arr vs) => (fields.ofArray title fields.ofItems vs).map inject
        | some v => .error (.wrongType v.found "tuple variant")
    else rest.ofTag name

end

end Routine
