import Deduction.Command.Basic
import Deduction.Command.Check
import Deduction.Command.Init
import Deduction.Command.Line
import Deduction.Command.Models
import Deduction.Command.Rules
import Deduction.Config
import Deduction.Diagnostic
import Deduction.Files.Access
import Deduction.Files.Path
import Deduction.Files.Tree
import Deduction.Interpretation
import Deduction.LetterMap
import Deduction.Main
import Deduction.Proof.Basic
import Deduction.Proof.Check
import Deduction.Proof.Grammar
import Deduction.Proof.Layout
import Deduction.Proof.Scope
import Deduction.Reading.Cursor
import Deduction.Reading.Script
import Deduction.Report
import Deduction.Rule.Builtin
import Deduction.Rule.Definition
import Deduction.Rule.File
import Deduction.Rule.Library
import Deduction.Rule.Substitution
import Deduction.Rule.Template
import Deduction.Sentence.Basic
import Deduction.Sentence.Grammar
import Deduction.Source
import Deduction.Spelling
import Deduction.Text.Alphabetic
import Deduction.Text.Bytes
import Deduction.Text.Lines
import Deduction.Text.Whitespace
import Deduction.Toml.Decode
import Deduction.Toml.Document
import Deduction.Toml.Scalar
import Deduction.Toml.Value
import Deduction.Proofs.Matching
import Deduction.Proofs.Preservation
import Deduction.Proofs.Blocks
import Deduction.Proofs.BlockGrammar
import Deduction.Proofs.Scoping
import Deduction.Proofs.Passes
import Deduction.Proofs.Faults
import Deduction.Proofs.Soundness
import Deduction.Proofs.Derivation
import Deduction.Proofs.Completeness
import Deduction.Proofs.RuleSets
import Deduction.Proofs.UniformSubstitution
import Deduction.Proofs.Writing
import Deduction.Proofs.Taking
import Deduction.Proofs.SentenceGrammar
import Deduction.Proofs.LineGrammar
import Deduction.Proofs.WrittenLines
import Deduction.Proofs.RoundTrip
import Deduction.Proofs.ErrorPlaces
import Deduction.Proofs.SourceLines
import Deduction.Proofs.Marks
import Deduction.Proofs.Transcription
import Deduction.Proofs.SpelledLines
import Deduction.Proofs.RuleGroups
import Deduction.Proofs.RuleStore
import Deduction.Proofs.Instances
import Deduction.Proofs.Matchers
import Deduction.Proofs.Consequence
import Deduction.Proofs.OuterParentheses
import Deduction.Proofs.Failing
import Deduction.Proofs.SentenceFaults
import Deduction.Proofs.Bounds
import Deduction.Proofs.Increments
import Deduction.Proofs.Keeping
import Deduction.Proofs.MarkBoundaries
import Deduction.Proofs.Replacement
import Deduction.Proofs.Joining
import Deduction.Proofs.Enumeration
import Deduction.Proofs.Traversal
import Deduction.Proofs.TruthTables
import Deduction.Proofs.Loading
import Deduction.Proofs.Scanning
import Deduction.Proofs.Histories
