import TreeQuery.Cache.Counting
import TreeQuery.Compile.Drive
import TreeQuery.Custom.Catalogue
import TreeQuery.Document.Attributes
import TreeQuery.Document.Builder
import TreeQuery.Document.Print
import TreeQuery.Document.Walk
import TreeQuery.Event.OfTokens
import TreeQuery.Event.Record
import TreeQuery.Namespace
import TreeQuery.Pattern.OfText
import TreeQuery.Proofs.Cache.Arrangement
import TreeQuery.Proofs.Cache.Inclusion
import TreeQuery.Proofs.Cache.Refinement
import TreeQuery.Proofs.Compile.Additivity
import TreeQuery.Proofs.Compile.AttributeTests
import TreeQuery.Proofs.Compile.Driving
import TreeQuery.Proofs.Compile.Failures
import TreeQuery.Proofs.Compile.Indexing
import TreeQuery.Proofs.Compile.Inertness
import TreeQuery.Proofs.Compile.Memo
import TreeQuery.Proofs.Compile.Negation
import TreeQuery.Proofs.Compile.Nesting
import TreeQuery.Proofs.Compile.OnePass
import TreeQuery.Proofs.Compile.Reuse
import TreeQuery.Proofs.Compile.Session
import TreeQuery.Proofs.Compile.Translation
import TreeQuery.Proofs.Compile.TreeEvaluation
import TreeQuery.Proofs.Compile.Union
import TreeQuery.Proofs.Document.Preorder
import TreeQuery.Proofs.Document.Printing
import TreeQuery.Proofs.Document.SameElements
import TreeQuery.Proofs.Document.Settings
import TreeQuery.Proofs.Document.Siblings
import TreeQuery.Proofs.Event.Completeness
import TreeQuery.Proofs.Event.Cursor
import TreeQuery.Proofs.Event.Derivation
import TreeQuery.Proofs.Event.Grammar
import TreeQuery.Proofs.Event.Listener
import TreeQuery.Proofs.Event.Replay
import TreeQuery.Proofs.Event.Shown
import TreeQuery.Proofs.Event.Soundness
import TreeQuery.Proofs.Matching.Correctness
import TreeQuery.Proofs.Matching.Invisible
import TreeQuery.Proofs.Matching.Relation
import TreeQuery.Proofs.Matching.Steps
import TreeQuery.Proofs.Region.Cuts
import TreeQuery.Proofs.Region.Limit
import TreeQuery.Proofs.Region.Nested
import TreeQuery.Proofs.Region.Slice
import TreeQuery.Proofs.Region.Split
import TreeQuery.Proofs.Region.Traversal
import TreeQuery.Proofs.Selector.Keys
import TreeQuery.Proofs.Selector.Memo
import TreeQuery.Proofs.Selector.Repetition
import TreeQuery.Proofs.Selector.SiblingPosition
import TreeQuery.Proofs.Selector.Words
import TreeQuery.Proofs.Stage.FirstStages
import TreeQuery.Proofs.Text.Integer
import TreeQuery.Proofs.Token.Blanks
import TreeQuery.Proofs.Token.Lexeme
import TreeQuery.Proofs.Token.Render
import TreeQuery.Proofs.Token.Scan
import TreeQuery.Proofs.Token.Sequence
import TreeQuery.Proofs.Token.WellFormed
import TreeQuery.Region.Runs
import TreeQuery.Selector.Basic
import TreeQuery.Stage.Memo
import TreeQuery.Stage.Numbers
import TreeQuery.Text.Blank
import TreeQuery.Text.CaseFold
import TreeQuery.Text.CharRanges
import TreeQuery.Text.Integer
import TreeQuery.Text.Invisible
import TreeQuery.Text.Quoted
import TreeQuery.Text.WordCharacter
import TreeQuery.Token.Basic
import TreeQuery.Token.Reader
import TreeQuery.Token.Scan
import TreeQuery.Token.Stream
