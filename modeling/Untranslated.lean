import Untranslated.Text.CodeRange
import Untranslated.Text.Alphabetic
import Untranslated.Text.Number
import Untranslated.Text.Word
import Untranslated.Text.Identifier
import Untranslated.Text.Blank
import Untranslated.Text.Bytes
import Untranslated.Text.Lines
import Untranslated.Text.Erasure
import Untranslated.Script.Dialect
import Untranslated.Script.Token
import Untranslated.Script.Tree
import Untranslated.Script.Lexer
import Untranslated.Script.Cursor
import Untranslated.Script.Grammar.Basic
import Untranslated.Script.Grammar.Types
import Untranslated.Script.Grammar.Patterns
import Untranslated.Script.Grammar.Functions
import Untranslated.Script.Grammar.Literals
import Untranslated.Script.Grammar.Subscripts
import Untranslated.Script.Grammar.Operands
import Untranslated.Script.Grammar.Operators
import Untranslated.Script.Grammar.Markup
import Untranslated.Script.Grammar.Statements
import Untranslated.Script.Grammar.Declarations
import Untranslated.Script.Grammar.Modules
import Untranslated.Script.Parser
import Untranslated.Script.Stripping
import Untranslated.Script.Callee
import Untranslated.Options
import Untranslated.Candidate
import Untranslated.Extraction
import Untranslated.Text.Pattern
import Untranslated.Directive
import Untranslated.Rule
import Untranslated.Classification
import Untranslated.Path
import Untranslated.Glob
import Untranslated.Target
import Untranslated.Diff
import Untranslated.Text.Utf8
import Untranslated.Json
import Untranslated.Config
import Untranslated.CommandLine
import Untranslated.FileTree
import Untranslated.DiffSource
import Untranslated.Report
import Untranslated.Scan
import Untranslated.Run
import Untranslated.Main
import Untranslated.Proofs.ChangedLines
import Untranslated.Proofs.DiffReading
import Untranslated.Proofs.GitDiff
import Untranslated.Proofs.Erasure
import Untranslated.Proofs.OverlappingRegions
import Untranslated.Proofs.Places
import Untranslated.Proofs.StrippedLines
import Untranslated.Proofs.ReadingOrder
import Untranslated.Proofs.Scopes
import Untranslated.Proofs.RecordedLiterals
import Untranslated.Proofs.LineNumbers
import Untranslated.Proofs.KeptCharacters
import Untranslated.Proofs.Verdicts
import Untranslated.Proofs.Anchors
import Untranslated.Proofs.SecondReading
import Untranslated.Proofs.ByteOrderMark
import Untranslated.Proofs.RootedPaths
import Untranslated.Proofs.FileWalk
import Untranslated.Proofs.ScanReports
import Untranslated.Proofs.DiffMode
import Untranslated.Proofs.DisjointLiterals
import Untranslated.Proofs.FileOrder
import Untranslated.Proofs.ScanOutcomes
import Untranslated.Proofs.GoverningConfig
import Untranslated.Proofs.PathSteps
import Untranslated.Proofs.PrintedNames
import Untranslated.Proofs.SpacedTrees
import Untranslated.Proofs.MovedRanges
import Untranslated.Proofs.SpacedScripts
import Untranslated.Proofs.Neighbours
import Untranslated.Proofs.SpacedCandidates
import Untranslated.Proofs.Layout
import Untranslated.Proofs.LinePlaces
import Untranslated.Proofs.MarkedLines
import Untranslated.Proofs.DirectivePlaces
import Untranslated.Proofs.HunkLines
import Untranslated.Proofs.IgnoredLines
import Untranslated.Proofs.ExemptCallees
import Untranslated.Proofs.DisplayedPaths
import Untranslated.Proofs.ExcludedPaths
import Untranslated.Proofs.UnreadableHunks
import Untranslated.Proofs.MarkupText
import Untranslated.Proofs.PathSpellings
import Untranslated.Proofs.WalkOrder
import Untranslated.Proofs.Patterns
import Untranslated.Proofs.ClassNames
import Untranslated.Proofs.DateRuns
import Untranslated.Proofs.ShownPaths
import Untranslated.Proofs.AcceptedFiles
import Untranslated.Proofs.WordlessTexts
import Untranslated.Proofs.CommandLines
import Untranslated.Proofs.PrintedReports
import Untranslated.Proofs.SpelledCallees
