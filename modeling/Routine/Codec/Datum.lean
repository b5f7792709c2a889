import Routine.Codec.Leaf
import Routine.Datum

/-!
# Data in JSON
-/

namespace Routine

/-- A whole number that is zero when it is missing, and is not written when it is zero. -/
def Fields.nonzero {β σ : Type} (name : String) (rest : Fields β σ) :
    Fields (Int32 × β) (Option Int32 × σ) :=
  .cons name .int32 (some 0) (some 0) (· = 0) rest

/-- A line, which is zero when it is missing. -/
def Fields.line {β σ : Type} (rest : Fields β σ) : Fields (Int32 × β) (Option Int32 × σ) :=
  .defaulted "lineno" .int32 0 rest

/-- A member of a row. -/
def Member.shape : Shape Member :=
  .convert (fun (name, number, ()) => .ok ⟨name, number⟩) (fun m => (m.name, m.number, ()))
    (.record "struct RowField" (.required "name" .string (.required "varno" .int32 .nil)))

/-- A datum. -/
def Datum.shape (leaf : Shape Leaf) (type : Shape TypeRef) : Shape Datum :=
  .choice <|
    .holding "PLpgSQL_var"
      (.record "struct PlVar"
        (.required "refname" .string <| .line <| .optional "datatype" type <| .flag "isconst" <|
          .flag "notnull" <| .optional "default_val" leaf <| .optional "cursor_explicit_expr" leaf <|
          .optional "cursor_explicit_argrow" .int32 <| .nonzero "cursor_options" .nil))
      (fun (name, line, type, isConstant, notNull, initial, query, arguments, options, ()) =>
        scalar ⟨name, line, type, isConstant, notNull, initial, query, arguments, options⟩)
      (fun
        | scalar v =>
          some (v.name, v.line, v.type, v.isConstant, v.notNull, v.initial, v.cursorQuery,
            v.cursorArguments, v.cursorOptions, ())
        | _ => none) <|
    .holding "PLpgSQL_rec"
      (.record "struct PlRec"
        (.required "refname" .string <| .optional "dno" .int32 <| .line <| .optional "datatype" type .nil))
      (fun (name, number, line, type, ()) => record ⟨name, number, line, type⟩)
      (fun | record r => some (r.name, r.number, r.line, r.type, ()) | _ => none) <|
    .holding "PLpgSQL_row"
      (.record "struct PlRow"
        (.required "refname" .string <| .line <| .defaulted "fields" (.list Member.shape) [] .nil))
      (fun (name, line, members, ()) => row ⟨name, line, members⟩)
      (fun | row r => some (r.name, r.line, r.members, ()) | _ => none) <|
    .holding "PLpgSQL_recfield"
      (.record "struct PlRecField"
        (.required "fieldname" .string (.required "recparentno" .int32 .nil)))
      (fun (name, parent, ()) => field ⟨name, parent⟩)
      (fun | field f => some (f.name, f.record, ()) | _ => none) <|
    .nil

end Routine
