import WrenFront.Main
import WrenFront.Proofs.TokenAccounting
import WrenFront.Proofs.CleanRuns
import WrenFront.Proofs.GrammarSoundness
import WrenFront.Proofs.GrammarCompleteness
import WrenFront.Proofs.LexerBalance
import WrenFront.Proofs.TreeStrings
import WrenFront.Proofs.StringDelimiters
import WrenFront.Proofs.TriviaGrammar
import WrenFront.Proofs.LexerTiling
import WrenFront.Proofs.LexemeGrammar
import WrenFront.Proofs.InterpolationNesting
import WrenFront.Proofs.LexerJoining
import WrenFront.Proofs.GrammarGrafting
import WrenFront.Proofs.ScriptJoining
import WrenFront.Proofs.TreeParts
import WrenFront.Proofs.Precedence
import WrenFront.Proofs.TreeListing
import WrenFront.Proofs.RuleListing
import WrenFront.Proofs.TreeInvariants
import WrenFront.Proofs.TokenOrder
import WrenFront.Proofs.LexemeSpacing
import WrenFront.Proofs.LexerLayout
import WrenFront.Proofs.KindsOnly
import WrenFront.Proofs.ErrorPlaces
import WrenFront.Proofs.LineLookup
import WrenFront.Proofs.CheckedReading
import WrenFront.Proofs.CheckedPrinting
import WrenFront.Proofs.CheckedRuns
import WrenFront.Proofs.JsonLines
import WrenFront.Proofs.LossyDecoding
import WrenFront.Proofs.CheckReports
import WrenFront.Proofs.TokenBoundaries
import WrenFront.Proofs.EncodedText
import WrenFront.Proofs.DiagnosticLabels
import WrenFront.Proofs.ProblemBounds
import WrenFront.Proofs.StrayCharacters
import WrenFront.Proofs.Placeholders
import WrenFront.Proofs.DumpOrder
import WrenFront.Proofs.ShownFailures
import WrenFront.Proofs.OperatorChains
import WrenFront.Proofs.TreeShapes
import WrenFront.Proofs.RuleShapes
import WrenFront.Proofs.StringSegments
import WrenFront.Proofs.LexicalErrors
import WrenFront.Proofs.TokenTexts
import WrenFront.Proofs.WrittenForms
import WrenFront.Proofs.FormReading
import WrenFront.Proofs.LegibleExpressions
import WrenFront.Proofs.LegibleStatements
import WrenFront.Proofs.DumpForms
import WrenFront.Proofs.FaithfulDump
import WrenFront.Proofs.LinePositions
import WrenFront.Proofs.TokenCharacters
import WrenFront.Proofs.PiecewiseDecoding
import WrenFront.Proofs.DirectoryListing
import WrenFront.Proofs.JoinedPaths
import WrenFront.Proofs.ScriptSearch
import WrenFront.Proofs.SegmentEnds
import WrenFront.Proofs.QuotedText
import WrenFront.Proofs.TokenListing
