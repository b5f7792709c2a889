import Routine.Assignment
import Routine.Codec.Datum
import Routine.Codec.Depth
import Routine.Codec.Leaf
import Routine.Codec.Options
import Routine.Codec.Statement
import Routine.Codec.Tree
import Routine.Datum
import Routine.Decimal.Shortest
import Routine.Hydration.Dehydrate
import Routine.Hydration.Edit
import Routine.Hydration.Hydrate
import Routine.Identifier
import Routine.IntoClause
import Routine.Json.Cursor
import Routine.Json.Fault
import Routine.Json.Number
import Routine.Json.Read
import Routine.Json.Skip
import Routine.Json.Value
import Routine.Layout.Basic
import Routine.Layout.Body
import Routine.Layout.CaseArm
import Routine.Layout.Declaration
import Routine.Layout.Simple
import Routine.Leaf
import Routine.Plan
import Routine.Proofs.Traversal
import Routine.Reference
import Routine.Shape.Basic
import Routine.Shape.OfJson
import Routine.Shape.OfText
import Routine.Shape.Write
import Routine.Signature
import Routine.Slot
import Routine.Source
import Routine.Sql.Backend
import Routine.Sql.Codec
import Routine.Sql.Grammar.Expression
import Routine.Sql.Grammar.Keyword
import Routine.Sql.Grammar.Parser
import Routine.Sql.Grammar.Query
import Routine.Sql.Grammar.Statement
import Routine.Sql.Grammar.Type
import Routine.Sql.Lexer
import Routine.Sql.Token
import Routine.Sql.Tree
import Routine.Sql.Words
import Routine.Statement
import Routine.Text.Alphabetic
import Routine.Text.Blank
import Routine.Text.Find
import Routine.Text.Letters
import Routine.Text.Location
import Routine.Text.Numeric
import Routine.Text.Quoted
import Routine.Text.Ranges
import Routine.TypeName
import Routine.Proofs.Hydration
import Routine.Proofs.Idempotence
import Routine.Proofs.Outcome
import Routine.Proofs.Paths
import Routine.Proofs.Untouched
import Routine.Proofs.Names
import Routine.Proofs.Rendering
import Routine.Proofs.Sections
import Routine.Proofs.JsonText
import Routine.Proofs.Scope
import Routine.Proofs.ShapeText
import Routine.Proofs.FaithfulLeaf
import Routine.Proofs.TreeCodec
import Routine.Proofs.RoundTrip
import Routine.Proofs.Survival
import Routine.Proofs.Declared
import Routine.Proofs.LoopVariables
import Routine.Proofs.Quotations
import Routine.Proofs.PlainTokens
import Routine.Proofs.TokenEnds
import Routine.Proofs.Cuts
import Routine.Proofs.IntoPlace
import Routine.Proofs.Phrase
import Routine.Proofs.Wording
import Routine.Proofs.Swallow
import Routine.Proofs.LeafPlaces
import Routine.Proofs.Reports
import Routine.Proofs.Skipping
import Routine.Proofs.Alike
import Routine.Proofs.Agreement
import Routine.Proofs.Canonical
import Routine.Proofs.Acceptance
import Routine.Proofs.UnknownTags
import Routine.Proofs.BodyPlace
import Routine.Proofs.DollarTags
import Routine.Proofs.GapsAndWords
import Routine.Proofs.PuttingBack
import Routine.Proofs.Counts
import Routine.Proofs.Fallback
import Routine.Proofs.IntoRule
import Routine.Proofs.SelectList
import Routine.Proofs.Signs
import Routine.Proofs.AssignmentRule
import Routine.Proofs.AssignedTargets
import Routine.Proofs.Rejoining
import Routine.Proofs.QuotedLengths
import Routine.Proofs.PassedOver
import Routine.Proofs.ScansAgree
import Routine.Proofs.ReturnClause
import Routine.Proofs.EmittedNames
import Routine.Proofs.QualifiedNames
import Routine.Proofs.QualifiedTypes
import Routine.Proofs.Expansion
import Routine.Proofs.Placement
import Routine.Proofs.ClearedLines
import Routine.Proofs.StablePaths
import Routine.Proofs.Mirror
import Routine.Proofs.Circles
import Routine.Proofs.Bytes
import Routine.Proofs.Locations
import Routine.Proofs.TokenPlaces
import Routine.Proofs.FreeTags
import Routine.Proofs.CaseValues
import Routine.Proofs.ByteLoops
import Routine.Proofs.ByteSkips
import Routine.Proofs.ByteScans
