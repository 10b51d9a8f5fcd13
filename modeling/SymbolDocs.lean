import SymbolDocs.Main
import SymbolDocs.Database.Query
import SymbolDocs.Tag.Handle
import SymbolDocs.TypeExpr.Spec
import SymbolDocs.Proofs.TypeExpr.RoundTrip
import SymbolDocs.Proofs.Database.Repetition
import SymbolDocs.Proofs.Naming.Spellings
import SymbolDocs.Proofs.Run.Balance
import SymbolDocs.Proofs.Run.Ancestry
import SymbolDocs.Proofs.Run.Events
import SymbolDocs.Proofs.Tag.Structured
import SymbolDocs.Proofs.Database.Additions
import SymbolDocs.Proofs.Database.Stability
import SymbolDocs.Proofs.Naming.Exports
import SymbolDocs.Proofs.Database.Composed
import SymbolDocs.Proofs.Run.Contents
import SymbolDocs.Proofs.Run.Stages
import SymbolDocs.Proofs.Tag.Outcomes
import SymbolDocs.Proofs.Comment.Lines
import SymbolDocs.Proofs.Grammar.Layers
import SymbolDocs.Proofs.Run.Parents
import SymbolDocs.Proofs.Grammar.Queries
import SymbolDocs.Proofs.Database.Scanning
import SymbolDocs.Proofs.Run.Pinned
import SymbolDocs.Proofs.Run.Errors
import SymbolDocs.Proofs.Naming.StatedScopes
import SymbolDocs.Proofs.Naming.Escapes
import SymbolDocs.Proofs.Naming.QualifiedNames
import SymbolDocs.Proofs.Source.WholeExports
import SymbolDocs.Proofs.Comment.Layout
import SymbolDocs.Proofs.Comment.Brackets
import SymbolDocs.Proofs.Comment.Openings
import SymbolDocs.Proofs.TypeExpr.Enclosing
import SymbolDocs.Proofs.Tag.Traces
import SymbolDocs.Proofs.Database.Walks
import SymbolDocs.Proofs.NamePath.Hierarchy
import SymbolDocs.Proofs.Database.Pruning
import SymbolDocs.Proofs.Tag.Accumulation
import SymbolDocs.Proofs.Database.Relations
import SymbolDocs.Proofs.Tag.Literals
import SymbolDocs.Proofs.TypeExpr.Words
import SymbolDocs.Proofs.Source.EmptyComments
import SymbolDocs.Proofs.Tag.RequiredNames
import SymbolDocs.Proofs.Tag.Unknown
import SymbolDocs.Proofs.Tag.Synonyms
import SymbolDocs.Proofs.Database.Lifecycle
import SymbolDocs.Proofs.Naming.Namespaces
import SymbolDocs.Proofs.NamePath.QuotedSegments
import SymbolDocs.Proofs.Run.Templates
import SymbolDocs.Proofs.TypeExpr.Progress
import SymbolDocs.Proofs.TypeExpr.Coverage
import SymbolDocs.Proofs.Tag.FirstWord
