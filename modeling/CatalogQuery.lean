import CatalogQuery.Agent.Generate
import CatalogQuery.Agent.Message
import CatalogQuery.Agent.Prompt
import CatalogQuery.Agent.Response
import CatalogQuery.Catalog
import CatalogQuery.CatalogFile
import CatalogQuery.Decimal.Basic
import CatalogQuery.Decimal.Binary
import CatalogQuery.Decimal.Shortest
import CatalogQuery.Decimal.Style
import CatalogQuery.Digest
import CatalogQuery.Draft.Basic
import CatalogQuery.Draft.Escape
import CatalogQuery.Draft.Narrow
import CatalogQuery.Environment
import CatalogQuery.Environment.Assignment
import CatalogQuery.Environment.Line
import CatalogQuery.Grammar.Expr
import CatalogQuery.Grammar.Furthest
import CatalogQuery.Grammar.Language
import CatalogQuery.Grammar.Matcher
import CatalogQuery.Grammar.ParseTree
import CatalogQuery.Grammar.Rule
import CatalogQuery.Json
import CatalogQuery.Log.Destination
import CatalogQuery.Log.Event
import CatalogQuery.Log.Filter
import CatalogQuery.Log.Line
import CatalogQuery.Main
import CatalogQuery.Mismatch
import CatalogQuery.ParamType
import CatalogQuery.Parse
import CatalogQuery.Program.Arguments
import CatalogQuery.Program.Startup
import CatalogQuery.Program.Task
import CatalogQuery.Query.Condition
import CatalogQuery.Query.Value
import CatalogQuery.QueryError
import CatalogQuery.Resolve.Basic
import CatalogQuery.Resolve.Rounds
import CatalogQuery.Settings
import CatalogQuery.Similarity.Choices
import CatalogQuery.Similarity.Index
import CatalogQuery.Similarity.JaroWinkler
import CatalogQuery.Source.Normalize
import CatalogQuery.Source.Snippet
import CatalogQuery.Text.Alphanumeric
import CatalogQuery.Text.Blank
import CatalogQuery.Text.Cased
import CatalogQuery.Text.Count
import CatalogQuery.Text.Lowercase
import CatalogQuery.Text.Quoted
import CatalogQuery.Text.Ranges
import CatalogQuery.Text.Split
import CatalogQuery.Validate
import CatalogQuery.Yaml.Basic
import CatalogQuery.Yaml.Cursor
import CatalogQuery.Yaml.Decode
import CatalogQuery.Yaml.Document
import CatalogQuery.Yaml.Layout
import CatalogQuery.Yaml.Scalar
import CatalogQuery.Proofs.Grammar.Reads
import CatalogQuery.Proofs.Grammar.Totality
import CatalogQuery.Proofs.Grammar.Shape
import CatalogQuery.Proofs.Draft.Narrow
import CatalogQuery.Proofs.Resolve.Delay
import CatalogQuery.Proofs.Decimal.Rounding
import CatalogQuery.Proofs.Query.Leaves
import CatalogQuery.Proofs.Draft.Leaves
import CatalogQuery.Proofs.Query.Accepted
import CatalogQuery.Proofs.Query.Faithful
import CatalogQuery.Proofs.Query.Sound
import CatalogQuery.Proofs.Decimal.Value
import CatalogQuery.Proofs.Decimal.Monotone
import CatalogQuery.Proofs.Decimal.ReadBack
import CatalogQuery.Proofs.Grammar.Matches
import CatalogQuery.Proofs.Grammar.Words
import CatalogQuery.Proofs.Grammar.Literals
import CatalogQuery.Proofs.Grammar.Layers
import CatalogQuery.Proofs.Render.Shown
import CatalogQuery.Proofs.Render.Values
import CatalogQuery.Proofs.Render.Calls
import CatalogQuery.Proofs.Render.Conditions
import CatalogQuery.Proofs.Render.Statements
import CatalogQuery.Proofs.Resolve.Replay
import CatalogQuery.Proofs.Query.Readable
import CatalogQuery.Proofs.Render.Capitals
import CatalogQuery.Proofs.Render.Spelled
import CatalogQuery.Proofs.Query.RoundTrip
import CatalogQuery.Proofs.Agent.Runs
import CatalogQuery.Proofs.Source.Offsets
import CatalogQuery.Proofs.Grammar.Quotes
import CatalogQuery.Proofs.Grammar.Spans
import CatalogQuery.Proofs.Draft.Snippets
import CatalogQuery.Proofs.Resolve.Snippets
import CatalogQuery.Proofs.Query.Snippets
import CatalogQuery.Proofs.Source.Zones
import CatalogQuery.Proofs.Grammar.InStep
import CatalogQuery.Proofs.Query.Strings
import CatalogQuery.Proofs.Source.Brackets
import CatalogQuery.Proofs.Grammar.Enclosed
import CatalogQuery.Proofs.Grammar.Chains
import CatalogQuery.Proofs.Resolve.Unplaced
import CatalogQuery.Proofs.Draft.Calls
import CatalogQuery.Proofs.Formula.Standard
import CatalogQuery.Proofs.Formula.Layout
import CatalogQuery.Proofs.Formula.Matched
import CatalogQuery.Proofs.Query.Formulas
import CatalogQuery.Proofs.Resolve.Lookups
import CatalogQuery.Proofs.Query.Lookups
import CatalogQuery.Proofs.Query.Modes
import CatalogQuery.Proofs.Query.Growth
import CatalogQuery.Proofs.Decimal.Distinct
import CatalogQuery.Proofs.Json.Unambiguous
import CatalogQuery.Proofs.Query.Canonical
import CatalogQuery.Proofs.Query.Admission
import CatalogQuery.Proofs.Grammar.Rows
import CatalogQuery.Proofs.Resolve.Stages
import CatalogQuery.Proofs.Resolve.Places
import CatalogQuery.Proofs.Query.FirstError
import CatalogQuery.Proofs.Agent.Fences
import CatalogQuery.Proofs.Similarity.Earliest
import CatalogQuery.Proofs.Similarity.JaroWinkler
import CatalogQuery.Proofs.Similarity.Nearest
import CatalogQuery.Proofs.Similarity.Recurs
import CatalogQuery.Proofs.Source.Edits
import CatalogQuery.Proofs.Query.Layout
import CatalogQuery.Proofs.Grammar.Carried
import CatalogQuery.Proofs.Source.Passed
import CatalogQuery.Proofs.Grammar.Continued
import CatalogQuery.Proofs.Query.Continued
import CatalogQuery.Proofs.Source.Idempotent
import CatalogQuery.Proofs.Source.Parts
import CatalogQuery.Proofs.Grammar.Filler
import CatalogQuery.Proofs.Grammar.Separated
import CatalogQuery.Proofs.Query.Statements
import CatalogQuery.Proofs.Grammar.Arguments
import CatalogQuery.Proofs.Draft.Integers
import CatalogQuery.Proofs.Draft.Supported
import CatalogQuery.Proofs.Query.Integers
import CatalogQuery.Proofs.Catalog.Histories
import CatalogQuery.Proofs.Text.Lowercase
import CatalogQuery.Proofs.Agent.Budgets
import CatalogQuery.Proofs.Agent.Sentinels
import CatalogQuery.Proofs.Draft.Digits
import CatalogQuery.Proofs.Draft.Escapes
import CatalogQuery.Proofs.Agent.Blocks
import CatalogQuery.Proofs.Grammar.Calls
import CatalogQuery.Proofs.Grammar.Gaps
import CatalogQuery.Proofs.Draft.Bounded
import CatalogQuery.Proofs.Query.Ending
