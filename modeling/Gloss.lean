import Gloss.Cursor
import Gloss.Decimal.Fixed
import Gloss.Filter.Basic
import Gloss.Filter.Comments
import Gloss.Filter.Defaults
import Gloss.Filter.Literals
import Gloss.Filter.Words
import Gloss.Grammar.Basic
import Gloss.Grammar.Handlers
import Gloss.Guess.Overview
import Gloss.Guess.Weight
import Gloss.Highlight
import Gloss.Keyed
import Gloss.Language.Backus
import Gloss.Language.C
import Gloss.Language.Diff
import Gloss.Language.Haskell
import Gloss.Language.Html
import Gloss.Language.Perl
import Gloss.Language.Php
import Gloss.Language.Plain
import Gloss.Language.Script
import Gloss.Language.Style
import Gloss.Languages
import Gloss.Markup
import Gloss.Pattern.Basic
import Gloss.Pattern.Presets
import Gloss.Pattern.Replacement
import Gloss.Pattern.Table
import Gloss.Regex.Basic
import Gloss.Regex.Bracket
import Gloss.Regex.CharSet
import Gloss.Regex.Compose
import Gloss.Regex.Extent
import Gloss.Regex.Parser
import Gloss.Regex.Program
import Gloss.Regex.Search
import Gloss.Registry
import Gloss.Scan.Any
import Gloss.Scan.Error
import Gloss.Scan.Flat
import Gloss.Scan.Loops
import Gloss.Scan.Nested
import Gloss.Scan.Outline
import Gloss.Scan.Region
import Gloss.Scan.Scanner
import Gloss.Scan.State
import Gloss.Scan.Suspension
import Gloss.Scan.Unwind
import Gloss.Slash
import Gloss.Text.Find
import Gloss.Text.Newlines
import Gloss.Text.Source
import Gloss.Text.Spot
import Gloss.Token.Kind
import Gloss.Token.Stream
import Gloss.Unicode.Alphanumeric
import Gloss.Unicode.Blank
import Gloss.Unicode.CaseFold
import Gloss.Unicode.Digit
import Gloss.Unicode.Lowercase
import Gloss.Unicode.RangeTable
import Gloss.Unicode.Word
import Gloss.WordMap
import Gloss.Proofs.Regex.Edges
import Gloss.Proofs.Regex.Fronts
import Gloss.Proofs.Regex.Leftmost
import Gloss.Proofs.Regex.Picks
import Gloss.Proofs.Regex.Preferred
import Gloss.Proofs.Pattern.Finds
import Gloss.Proofs.Cursor.Searches
import Gloss.Proofs.Markup.Shows
import Gloss.Proofs.Regex.Words
import Gloss.Proofs.Markup.Nested
import Gloss.Proofs.Markup.Replaces
import Gloss.Proofs.Filter.Shown
import Gloss.Proofs.Filter.Rendering
import Gloss.Proofs.Cursor.Moves
import Gloss.Proofs.Scan.Effects
import Gloss.Proofs.Pattern.Nearest
import Gloss.Proofs.Scan.Recording
import Gloss.Proofs.Scan.Tokenization
import Gloss.Proofs.Scan.Handover
import Gloss.Proofs.Scan.Suspended
import Gloss.Proofs.Regex.Everywhere
import Gloss.Proofs.Language.Script.Runs
import Gloss.Proofs.Language.Script.Table
import Gloss.Proofs.Language.Script.Passed
import Gloss.Proofs.Language.Style.Runs
import Gloss.Proofs.Language.Html.Runs
import Gloss.Proofs.Regex.Quoted
import Gloss.Proofs.Language.Php.Code
import Gloss.Proofs.Language.Php.Announced
import Gloss.Proofs.Language.Php.Pages
import Gloss.Proofs.Filter.Lines
import Gloss.Proofs.Scan.Hosted
import Gloss.Proofs.Language.Embedded
import Gloss.Proofs.Markup.Legible
import Gloss.Proofs.Scan.Nesting
import Gloss.Proofs.Scan.Endings
import Gloss.Proofs.Scan.Outlines
import Gloss.Proofs.Scan.Growth
import Gloss.Proofs.Regex.LineEnds
import Gloss.Proofs.Markup.Telling
import Gloss.Proofs.Language.Diff.Lines
import Gloss.Proofs.Language.Diff.Runs
import Gloss.Proofs.Language.Php.Lines
import Gloss.Proofs.Scan.Nestable
import Gloss.Proofs.Scan.Handled
import Gloss.Proofs.Language.Compiled
import Gloss.Proofs.Scan.Trees
import Gloss.Proofs.Language.Backus
import Gloss.Proofs.Scan.Steady
import Gloss.Proofs.Scan.Renewal
import Gloss.Proofs.Language.Steady
import Gloss.Proofs.Language.Renewed
import Gloss.Proofs.Language.Perl.Bodies
import Gloss.Proofs.Language.Perl.Heredocs
import Gloss.Proofs.Language.Perl.Runs
import Gloss.Proofs.Language.Perl.Announced
import Gloss.Proofs.Filter.Torn
import Gloss.Proofs.Language.Perl.Interpolated
import Gloss.Proofs.Text.Newlines
import Gloss.Proofs.Registry.History
import Gloss.Proofs.Registry.Highlighting
import Gloss.Proofs.Language.Html.Suspended
import Gloss.Proofs.Scan.InStep
import Gloss.Proofs.Scan.Agreement
import Gloss.Proofs.Scan.Balanced
import Gloss.Proofs.Pattern.Resumed
import Gloss.Proofs.Language.Resumed
import Gloss.Proofs.Scan.Unwound
import Gloss.Proofs.Scan.Rendered
import Gloss.Proofs.Language.Style.Shape
import Gloss.Proofs.Pattern.Remains
import Gloss.Proofs.Language.Recovered
import Gloss.Proofs.Pattern.Closest
import Gloss.Proofs.Scan.Refused
import Gloss.Proofs.Scan.Spliced
import Gloss.Proofs.Language.Perl.Delimited
import Gloss.Proofs.Cursor.Positions
import Gloss.Proofs.Pattern.Presets
import Gloss.Proofs.Markup.WellFormed
import Gloss.Proofs.Scan.Stripped
import Gloss.Proofs.Filter.DocComments
import Gloss.Proofs.Words.History
