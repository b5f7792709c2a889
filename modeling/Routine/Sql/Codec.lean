import Routine.Shape.OfJson
import Routine.Shape.OfText
import Routine.Shape.Write
import Routine.Sql.Tree

/-!
# Parsed SQL in JSON

Whoever parses SQL also says how parsed SQL looks in JSON: parse trees only hold it. So the formats of
its three kinds are a parameter, the `Codecs` of statements, expressions and types, and nothing about
parse trees depends on what they are.

For its own trees this library has one codec. The shape of a tree is given level by level: at level
`n + 1` the members of a tree have the shape of level `n`, and at level zero there is nothing. A tree is
described by every level that is at least its depth.
-/

namespace Routine
namespace Sql

open Text (Location)

/-- A place. -/
def locationShape : Shape Location :=
  .convert (fun (line, column, ()) => .ok ⟨line, column⟩) (fun l => (l.line, l.column, ()))
    (.record "struct Location" (.required "line" .natural (.required "column" .natural .nil)))

/-- A stretch of text. -/
def Span.shape : Shape Span :=
  .convert (fun (start, stop, ()) => .ok ⟨start, stop⟩) (fun s => (s.start, s.stop, ()))
    (.record "struct Span"
      (.required "start" locationShape (.required "end" locationShape .nil)))

/-- A name. -/
def Ident.shape : Shape Ident :=
  .convert (fun (value, mark, span, ()) => .ok ⟨value, mark, span⟩)
    (fun id => (id.value, id.mark, id.span, ()))
    (.record "struct Ident"
      (.required "value" .string
        (.nullable "quote_style" .character (.required "span" Span.shape .nil))))

namespace Literal

/-- A string of one notation. -/
def stringVariant (tag : String) (kind : StringKind) (rest : Variants Literal) : Variants Literal :=
  .holding tag .string (string kind)
    (fun | string k value => if k = kind then some value else none | _ => none) rest

/-- A constant. -/
def shape : Shape Literal :=
  .choice
    (.positional "Number" "tuple variant Value::Number"
      (.required "0" .string (.required "1" .bool .nil))
      (fun (digits, long, ()) => number digits long)
      (fun | number digits long => some (digits, long, ()) | _ => none) <|
    stringVariant "SingleQuotedString" .plain <|
    .named "DollarQuotedString" "struct DollarQuotedString"
      (.required "value" .string (.nullable "tag" .string .nil))
      (fun (value, tag, ()) => dollar tag value)
      (fun | dollar tag value => some (value, tag, ()) | _ => none) <|
    stringVariant "EscapedStringLiteral" .escaped <|
    stringVariant "UnicodeStringLiteral" .unicode <|
    stringVariant "SingleQuotedByteStringLiteral" .bits <|
    stringVariant "DoubleQuotedByteStringLiteral" .wideBits <|
    stringVariant "NationalStringLiteral" .national <|
    stringVariant "HexStringLiteral" .hex <|
    .holding "Boolean" .bool bool (fun | bool b => some b | _ => none) <|
    .bare "Null" null (· = null) <|
    .holding "Placeholder" .string placeholder
      (fun | placeholder text => some text | _ => none) <|
    .nil)

end Literal

/-! ## Operators -/

/-- The names of the operators with one operand, and their spellings. -/
def unaryOperators : List (String × String) :=
  [("Plus", "+"), ("Minus", "-"), ("Not", "NOT"), ("PGBitwiseNot", "~"), ("PGSquareRoot", "|/"),
   ("PGCubeRoot", "||/"), ("PGPostfixFactorial", "!"), ("PGPrefixFactorial", "!!"), ("PGAbs", "@")]

/-- The names of the operators with two operands, and their spellings. -/
def binaryOperators : List (String × String) :=
  [("Plus", "+"), ("Minus", "-"), ("Multiply", "*"), ("Divide", "/"), ("Modulo", "%"),
   ("StringConcat", "||"), ("Gt", ">"), ("Lt", "<"), ("GtEq", ">="), ("LtEq", "<="),
   ("Spaceship", "<=>"), ("Eq", "="), ("NotEq", "<>"), ("And", "AND"), ("Or", "OR"), ("Xor", "XOR"),
   ("BitwiseOr", "|"), ("BitwiseAnd", "&"), ("PGBitwiseXor", "#"), ("PGBitwiseShiftLeft", "<<"),
   ("PGBitwiseShiftRight", ">>"), ("PGExp", "^"), ("PGOverlap", "&&"), ("PGRegexMatch", "~"),
   ("PGRegexIMatch", "~*"), ("PGRegexNotMatch", "!~"), ("PGRegexNotIMatch", "!~*"),
   ("PGLikeMatch", "~~"), ("PGILikeMatch", "~~*"), ("PGNotLikeMatch", "!~~"),
   ("PGNotILikeMatch", "!~~*"), ("PGStartsWith", "^@"), ("Arrow", "->"), ("LongArrow", "->>"),
   ("HashArrow", "#>"), ("HashLongArrow", "#>>"), ("AtAt", "@@"), ("AtArrow", "@>"),
   ("ArrowAt", "<@"), ("HashMinus", "#-"), ("AtQuestion", "@?"), ("Question", "?"),
   ("QuestionAnd", "?&"), ("QuestionPipe", "?|"), ("Overlaps", "OVERLAPS")]

/-- An operator by its name in the table, and any other by its spelling. -/
def operatorShape (table : List (String × String)) : Shape String :=
  .choice (table.foldr (fun (name, text) rest => .bare name text (· = text) rest)
    (.holding "Custom" .string id some .nil))

namespace Tree

/-- The names of a dotted name. -/
def identsShape : Shape (List Ident) := .list Ident.shape

/-- The forms of a tree whose members have the shape `below`. -/
def variants (below : Shape Tree) : Variants Tree :=
  .holding "Identifier" Ident.shape identifier (fun | identifier id => some id | _ => none) <|
  .holding "CompoundIdentifier" identsShape compound (fun | compound ids => some ids | _ => none) <|
  .holding "Value" Literal.shape literal (fun | literal v => some v | _ => none) <|
  .holding "Nested" below nested (fun | nested t => some t | _ => none) <|
  .named "BinaryOp" "struct variant Expr::BinaryOp"
    (.required "left" below
      (.required "op" (operatorShape binaryOperators) (.required "right" below .nil)))
    (fun (left, op, right, ()) => binary op left right)
    (fun | binary op left right => some (left, op, right, ()) | _ => none) <|
  .named "UnaryOp" "struct variant Expr::UnaryOp"
    (.required "op" (operatorShape unaryOperators) (.required "expr" below .nil))
    (fun (op, operand, ()) => unary op operand)
    (fun | unary op operand => some (op, operand, ()) | _ => none) <|
  .holding "IsNull" below isNull (fun | isNull t => some t | _ => none) <|
  .holding "Subquery" below subquery (fun | subquery t => some t | _ => none) <|
  .named "Function" "struct Function"
    (.required "name" identsShape (.required "args" (.list below) .nil))
    (fun (function, rest, ()) => call function rest)
    (fun | call function rest => some (function, rest, ()) | _ => none) <|
  .named "CompoundFieldAccess" "struct variant Expr::CompoundFieldAccess"
    (.required "root" below (.required "access_chain" (.list below) .nil))
    (fun (root, steps, ()) => access root steps)
    (fun | access root steps => some (root, steps, ()) | _ => none) <|
  .named "Cast" "struct variant Expr::Cast"
    (.required "expr" below (.required "data_type" below .nil))
    (fun (value, type, ()) => cast value type)
    (fun | cast value type => some (value, type, ()) | _ => none) <|
  .bare "Text" (builtin "TEXT") (fun | builtin text => text = "TEXT" | _ => false) <|
  .holding "Builtin" .string builtin (fun | builtin text => some text | _ => none) <|
  .positional "Custom" "tuple variant DataType::Custom"
    (.required "0" identsShape (.required "1" (.list .string) .nil))
    (fun (type, modifiers, ()) => custom type modifiers)
    (fun | custom type modifiers => some (type, modifiers, ()) | _ => none) <|
  .holding "Array"
    (.choice (.positional "SquareBracket" "tuple variant ArrayElemTypeDef::SquareBracket"
      (.required "0" below (.required "1" (.option .natural) .nil)) id some .nil))
    (fun (item, size, ()) => array item size)
    (fun | array item size => some (item, size, ()) | _ => none) <|
  .named "Savepoint" "struct variant Statement::Savepoint" (.required "name" Ident.shape .nil)
    (fun (id, ()) => savepoint id) (fun | savepoint id => some (id, ()) | _ => none) <|
  .holding "Keyword" .string keyword (fun | keyword text => some text | _ => none) <|
  .holding "Name" Ident.shape name (fun | name id => some id | _ => none) <|
  .holding "Phrase" (.list below) phrase (fun | phrase parts => some parts | _ => none) <|
  .nil

/-- Trees up to a depth. -/
def shape : (level : Nat) → Shape Tree
  | 0 => .exhausted
  | level + 1 => .choice (variants (shape level))

/-- Trees of every depth. A value has no more levels than it is deep, and a text no more than there is
room for. -/
def codec : Codec Tree where
  write t := (shape t.depth).write t
  ofJson v := (shape (v.depth + 1)).ofJson v
  ofText room := (shape room).ofText room

end Tree

/-- How parsed SQL is written and read: the statements, the expressions and the types. -/
structure Codecs where
  statement : Codec Tree
  expression : Codec Tree
  type : Codec Tree

/-- All trees of this library are written in one way. -/
def codecs : Codecs := ⟨Tree.codec, Tree.codec, Tree.codec⟩

end Sql
end Routine
