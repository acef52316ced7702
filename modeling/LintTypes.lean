import LintTypes.Bundle
import LintTypes.Command.Arguments
import LintTypes.Command.Exit
import LintTypes.Command.Invocation
import LintTypes.Document.Loading
import LintTypes.Document.Options
import LintTypes.Document.Record
import LintTypes.Document.Rules
import LintTypes.Entries
import LintTypes.Error
import LintTypes.Files.Access
import LintTypes.Files.Error
import LintTypes.Files.Path
import LintTypes.Files.Pattern
import LintTypes.Files.Search
import LintTypes.Files.Tree
import LintTypes.Json.Basic
import LintTypes.Json.Fault
import LintTypes.Json.Pointer
import LintTypes.Json.Reader
import LintTypes.Main
import LintTypes.Names
import LintTypes.Numeral.Binary64
import LintTypes.Numeral.Shortest
import LintTypes.Rule
import LintTypes.Schema.Arrays
import LintTypes.Schema.Hoisting
import LintTypes.Schema.Problem
import LintTypes.Schema.Rebase
import LintTypes.Schema.Types
import LintTypes.Source.Error
import LintTypes.Source.Grammar
import LintTypes.Source.Outcome
import LintTypes.Source.Token
import LintTypes.Style
import LintTypes.Text.Blank
import LintTypes.Text.Casing
import LintTypes.Text.DebugText
import LintTypes.Text.DecimalDigit
import LintTypes.Text.HexDigit
import LintTypes.Text.Identifier
import LintTypes.Text.LowerCase
import LintTypes.Text.Outline
import LintTypes.Text.Printable
import LintTypes.Types.Basic
import LintTypes.Types.Layout
import LintTypes.Types.NumberText
import LintTypes.Types.Quoted
import LintTypes.Types.Shape
import LintTypes.Proofs.Blanks
import LintTypes.Proofs.Tokens
import LintTypes.Proofs.TokenReading
import LintTypes.Proofs.LexicalReading
import LintTypes.Proofs.WrittenForms
import LintTypes.Proofs.TypeReading
import LintTypes.Proofs.DeclarationReading
import LintTypes.Proofs.NumberForms
import LintTypes.Proofs.StringForms
import LintTypes.Proofs.TypeInduction
import LintTypes.Proofs.TypeParts
import LintTypes.Proofs.OneLineForms
import LintTypes.Proofs.LayoutForms
import LintTypes.Proofs.RoundTrip
import LintTypes.Proofs.FreshNames
import LintTypes.Proofs.Nodes
import LintTypes.Proofs.SchemaTyping
import LintTypes.Proofs.HoistingRuns
import LintTypes.Proofs.Membership
import LintTypes.Proofs.Validity
import LintTypes.Proofs.Acceptance
import LintTypes.Proofs.TupleLengths
import LintTypes.Proofs.DecimalForms
import LintTypes.Proofs.SchemaForms
import LintTypes.Proofs.Rebasing
import LintTypes.Proofs.RuleText
import LintTypes.Proofs.ParsedForms
import LintTypes.Proofs.RuleErrors
import LintTypes.Proofs.Demands
import LintTypes.Proofs.SchemaRuns
import LintTypes.Proofs.DepthBound
import LintTypes.Proofs.ReferenceCycles
import LintTypes.Proofs.DeclaredNames
import LintTypes.Proofs.ConventionalNames
import LintTypes.Proofs.FileTrees
import LintTypes.Proofs.BundleFiles
import LintTypes.Proofs.ChangedPlaces
import LintTypes.Proofs.BundleRuns
import LintTypes.Proofs.ReadingActions
import LintTypes.Proofs.CommandLines
import LintTypes.Proofs.MergedDocuments
import LintTypes.Proofs.CommandAgreement
import LintTypes.Proofs.RebaseWalk
import LintTypes.Proofs.RebasedPlaces
import LintTypes.Proofs.RebasedTwice
import LintTypes.Proofs.SchemaPairs
import LintTypes.Proofs.HoistedNodes
import LintTypes.Proofs.NormalForms
import LintTypes.Proofs.Unfolding
import LintTypes.Proofs.UniformArrays
import LintTypes.Proofs.Inlining
import LintTypes.Proofs.InlinedTypes
import LintTypes.Proofs.OpenReferences
import LintTypes.Proofs.CircularAliases
import LintTypes.Proofs.WaysOfWriting
import LintTypes.Proofs.Reprinting
import LintTypes.Proofs.RunsInStep
import LintTypes.Proofs.UnconstrainedTypes
import LintTypes.Proofs.KeyOrder
import LintTypes.Proofs.LongerTexts
import LintTypes.Proofs.LongerTokens
import LintTypes.Proofs.LongerTypes
import LintTypes.Proofs.JoinedTexts
import LintTypes.Proofs.NameableNames
import LintTypes.Proofs.RuleIdentifiers
import LintTypes.Proofs.NumberValues
import LintTypes.Proofs.OneLineLayouts
import LintTypes.Proofs.IndexEntries
import LintTypes.Proofs.EnclosedTexts
import LintTypes.Proofs.RulePaths
import LintTypes.Proofs.LocalReading
import LintTypes.Proofs.LocalValues
import LintTypes.Proofs.LocalRecords
import LintTypes.Proofs.DocumentTexts
import LintTypes.Proofs.WrittenRules
import LintTypes.Proofs.TitleNames
import LintTypes.Proofs.Rounding
import LintTypes.Proofs.ShortestDecimals
