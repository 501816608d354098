import DocTypes.Annotation.Brackets
import DocTypes.Annotation.Literal
import DocTypes.Annotation.Parameters
import DocTypes.Annotation.Shape
import DocTypes.CommandLine.Arguments
import DocTypes.CommandLine.Run
import DocTypes.Conversion.Basic
import DocTypes.Conversion.Finding
import DocTypes.Conversion.Traced
import DocTypes.Corpus
import DocTypes.Corpus.Declaration
import DocTypes.Corpus.File
import DocTypes.Diagnostic
import DocTypes.Diagnostic.Journal
import DocTypes.Files.Path
import DocTypes.Files.Tree
import DocTypes.Main
import DocTypes.Name
import DocTypes.Proofs.Annotation.Depth
import DocTypes.Proofs.Annotation.DuckType
import DocTypes.Proofs.Annotation.Enclosure
import DocTypes.Proofs.Annotation.Expression
import DocTypes.Proofs.Annotation.Head
import DocTypes.Proofs.Annotation.Joining
import DocTypes.Proofs.Annotation.Literal
import DocTypes.Proofs.Annotation.LiteralGrammar
import DocTypes.Proofs.Annotation.MethodName
import DocTypes.Proofs.Annotation.Parts
import DocTypes.Proofs.Annotation.Recognizers
import DocTypes.Proofs.Annotation.RunningDepth
import DocTypes.Proofs.Annotation.Separators
import DocTypes.Proofs.Annotation.Unbracketed
import DocTypes.Proofs.CommandLine.Outcome
import DocTypes.Proofs.CommandLine.Selection
import DocTypes.Proofs.CommandLine.Setup
import DocTypes.Proofs.Conversion.Alternatives
import DocTypes.Proofs.Conversion.Bracketing
import DocTypes.Proofs.Conversion.Entries
import DocTypes.Proofs.Conversion.ErrorReplacement
import DocTypes.Proofs.Conversion.Flat
import DocTypes.Proofs.Conversion.IndexUse
import DocTypes.Proofs.Conversion.Meaning
import DocTypes.Proofs.Conversion.Names
import DocTypes.Proofs.Conversion.Nesting
import DocTypes.Proofs.Conversion.NormalForm
import DocTypes.Proofs.Conversion.Printing
import DocTypes.Proofs.Conversion.Reading
import DocTypes.Proofs.Conversion.Reports
import DocTypes.Proofs.Conversion.Unlimited
import DocTypes.Proofs.Corpus.Contents
import DocTypes.Proofs.Corpus.Growth
import DocTypes.Proofs.Corpus.Listing
import DocTypes.Proofs.Corpus.Loading
import DocTypes.Proofs.Corpus.Lookup
import DocTypes.Proofs.Corpus.MemberPath
import DocTypes.Proofs.Corpus.MethodPath
import DocTypes.Proofs.Corpus.Outcome
import DocTypes.Proofs.Corpus.Path
import DocTypes.Proofs.Corpus.Places
import DocTypes.Proofs.Corpus.Rebuilding
import DocTypes.Proofs.Corpus.Spelling
import DocTypes.Proofs.Corpus.Stability
import DocTypes.Proofs.Corpus.Tree
import DocTypes.Proofs.Corpus.Walk
import DocTypes.Proofs.Diagnostic.Journal
import DocTypes.Proofs.ErrorReplacement
import DocTypes.Proofs.Files.Path
import DocTypes.Proofs.Files.Tree
import DocTypes.Proofs.Name
import DocTypes.Proofs.Name.Components
import DocTypes.Proofs.Name.Grammar
import DocTypes.Proofs.NormalForm
import DocTypes.Proofs.Printing
import DocTypes.Proofs.Resolver.Alternatives
import DocTypes.Proofs.Resolver.DeclarationOrder
import DocTypes.Proofs.Resolver.Dependencies
import DocTypes.Proofs.Resolver.DuckType
import DocTypes.Proofs.Resolver.Index
import DocTypes.Proofs.Resolver.Inference
import DocTypes.Proofs.Resolver.Lexical
import DocTypes.Proofs.Resolver.Lifecycle
import DocTypes.Proofs.Resolver.Output
import DocTypes.Proofs.Resolver.SameDeclarations
import DocTypes.Proofs.Resolver.Spelling
import DocTypes.Proofs.Signature.Alike
import DocTypes.Proofs.Signature.Balance
import DocTypes.Proofs.Signature.Discovery
import DocTypes.Proofs.Signature.Harvest
import DocTypes.Proofs.Signature.LeadingPath
import DocTypes.Proofs.Signature.Line
import DocTypes.Proofs.Signature.Nesting
import DocTypes.Proofs.Signature.Pruning
import DocTypes.Proofs.Signature.Recorded
import DocTypes.Proofs.Signature.Retouching
import DocTypes.Proofs.Signature.Role
import DocTypes.Proofs.Signature.Roundtrip
import DocTypes.Proofs.Signature.Run
import DocTypes.Proofs.Signature.Written
import DocTypes.Proofs.Text.Lines
import DocTypes.Proofs.Text.Regular
import DocTypes.Proofs.Text.Rows
import DocTypes.Proofs.Text.Sorted
import DocTypes.Proofs.Text.Trim
import DocTypes.Proofs.TypeParts
import DocTypes.Proofs.Unambiguity
import DocTypes.Proofs.UnionAlgebra
import DocTypes.Resolver.Basic
import DocTypes.Resolver.Conversion
import DocTypes.Resolver.Dependencies
import DocTypes.Resolver.Index
import DocTypes.Resolver.Lexical
import DocTypes.Signature.Basic
import DocTypes.Signature.File
import DocTypes.Signature.Line
import DocTypes.Signature.Scan
import DocTypes.Text.Basic
import DocTypes.Text.Blank
import DocTypes.Text.Bytes
import DocTypes.Text.Hidden
import DocTypes.Text.Quoted
import DocTypes.Text.Sorted
import DocTypes.TypeExpr
import DocTypes.Vocabulary.BuiltinClass
import DocTypes.Vocabulary.Container
import DocTypes.Vocabulary.Interface
import DocTypes.Vocabulary.Keyword
import DocTypes.Vocabulary.Version
