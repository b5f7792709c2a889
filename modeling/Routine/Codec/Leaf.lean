import Routine.Leaf
import Routine.Sql.Codec

/-!
# Leaves in JSON

A raw leaf is an object tagged `PLpgSQL_expr`; a hydrated one is tagged `Hydrated`, and inside it the
tag says what hydration made of it. `sql` are the codecs of parsed SQL.
-/

namespace Routine

/-- A mode is given by its code. -/
def ParseMode.shape : Shape ParseMode :=
  .convert (fun code => .ok (ofCode code)) code .int32

section

variable (sql : Sql.Codecs)

/-- The kinds of hydrated leaves. The text before hydration and its mode come first in each. -/
def hydratedVariants : Variants (String × ParseMode × Content) :=
  .named "Raw" "struct variant HydratedExpr::Raw"
    (.required "original" .string (.required "parse_mode" ParseMode.shape .nil))
    (fun (captured, mode, ()) => (captured, mode, .raw))
    (fun | (captured, mode, .raw) => some (captured, mode, ()) | _ => none) <|
  .named "SqlStmt" "struct variant HydratedExpr::SqlStmt"
    (.required "original" .string (.required "parse_mode" ParseMode.shape
      (.required "stmt" (.codec sql.statement) .nil)))
    (fun (captured, mode, tree, ()) => (captured, mode, .statement tree))
    (fun | (captured, mode, .statement tree) => some (captured, mode, tree, ()) | _ => none) <|
  .named "SqlExpr" "struct variant HydratedExpr::SqlExpr"
    (.required "original" .string (.required "parse_mode" ParseMode.shape
      (.required "expr" (.codec sql.expression) .nil)))
    (fun (captured, mode, tree, ()) => (captured, mode, .expression tree))
    (fun | (captured, mode, .expression tree) => some (captured, mode, tree, ()) | _ => none) <|
  .named "Assign" "struct variant HydratedExpr::Assign"
    (.required "original" .string (.required "parse_mode" ParseMode.shape
      (.required "target" .string (.required "value" .string
        (.nullable "target_expr" (.codec sql.expression)
          (.nullable "value_expr" (.codec sql.expression) .nil))))))
    (fun (captured, mode, target, value, targetTree, valueTree, ()) =>
      (captured, mode, .assignment target value targetTree valueTree))
    (fun
      | (captured, mode, .assignment target value targetTree valueTree) =>
        some (captured, mode, target, value, targetTree, valueTree, ())
      | _ => none) <|
  .nil

/-- A leaf. -/
def Leaf.shape : Shape Leaf :=
  .choice <|
    .holding "PLpgSQL_expr"
      (.record "struct RawExpr"
        (.required "query" .string (.defaulted "parseMode" ParseMode.shape .statement .nil)))
      (fun (text, mode, ()) => raw text mode)
      (fun | raw text mode => some (text, mode, ()) | _ => none) <|
    .holding "Hydrated" (.choice (hydratedVariants sql))
      (fun (captured, mode, content) => hydrated captured mode content)
      (fun | hydrated captured mode content => some (captured, mode, content) | _ => none) <|
    .nil

/-- A type. -/
def TypeRef.shape : Shape TypeRef :=
  .choice <|
    .holding "PLpgSQL_type" (.record "struct RawType" (.required "typname" .string .nil))
      (fun (name, ()) => raw name) (fun | raw name => some (name, ()) | _ => none) <|
    .holding "HydratedTypeName"
      (.record "struct HydratedTypeName"
        (.required "original" .string
          (.required "type_name" (.codec sql.type) (.nullable "suffix" .string .nil))))
      (fun (captured, tree, suffix, ()) => hydrated captured tree suffix)
      (fun | hydrated captured tree suffix => some (captured, tree, suffix, ()) | _ => none) <|
    .nil

end

end Routine
