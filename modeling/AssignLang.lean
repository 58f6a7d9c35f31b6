import AssignLang.Main
import AssignLang.Proofs.Grammar.Phrase
import AssignLang.Proofs.Grammar.Unambiguous
import AssignLang.Proofs.Grammar.Derivation
import AssignLang.Proofs.Reading.Passage
import AssignLang.Proofs.Reading.Step
import AssignLang.Proofs.Reading.Completeness
import AssignLang.Proofs.Reading.Soundness
import AssignLang.Proofs.Reading.Language
import AssignLang.Proofs.Lexing.Lexemes
import AssignLang.Proofs.Lexing.Calls
import AssignLang.Proofs.Lexing.LongestMatch
import AssignLang.Proofs.Lexing.Coverage
import AssignLang.Proofs.Running.Effect
import AssignLang.Proofs.Lexing.Layout
import AssignLang.Proofs.Running.Larger
import AssignLang.Proofs.Lexing.Seam
import AssignLang.Proofs.Reading.Places
import AssignLang.Proofs.Running.Places
import AssignLang.Proofs.Reading.Joining
import AssignLang.Proofs.Running.Joining
import AssignLang.Proofs.CommandLine.Agreement
import AssignLang.Proofs.Reading.Tokens
import AssignLang.Proofs.Reading.Unplaced
import AssignLang.Proofs.Running.Outline
import AssignLang.Proofs.CommandLine.Pointing
import AssignLang.Proofs.Number.Rounding
import AssignLang.Proofs.Number.Decimals
import AssignLang.Proofs.Number.Positional
import AssignLang.Proofs.Number.Bits
import AssignLang.Proofs.Printing.Written
import AssignLang.Proofs.Printing.Derived
import AssignLang.Proofs.Printing.RoundTrip
import AssignLang.Proofs.Running.Null
import AssignLang.Proofs.Reading.Spelling
import AssignLang.Proofs.Running.PostOrder
import AssignLang.Proofs.Running.Sequence
import AssignLang.Proofs.Running.Variables
import AssignLang.Proofs.Running.Commuting
import AssignLang.Proofs.Running.Unbound
import AssignLang.Proofs.Grammar.Slot
import AssignLang.Proofs.Reading.Around
import AssignLang.Proofs.Reading.Brackets
import AssignLang.Proofs.Lexing.LineBreak
import AssignLang.Proofs.Reading.Ending
import AssignLang.Proofs.Lexing.BracketForms
import AssignLang.Proofs.Reading.Equality
import AssignLang.Proofs.Reading.BracketForms
import AssignLang.Proofs.Reading.BlankLines
import AssignLang.Proofs.Reading.Removal
import AssignLang.Proofs.Number.Scientific
import AssignLang.Proofs.Printing.Distinct
import AssignLang.Proofs.Text.ByteOrder
import AssignLang.Proofs.Scope.Declarations
import AssignLang.Proofs.Running.Renaming
import AssignLang.Proofs.Lexing.TrailingBlanks
import AssignLang.Proofs.CommandLine.Trimming
import AssignLang.Proofs.Lexing.Lines
import AssignLang.Proofs.Reading.Lines
import AssignLang.Proofs.Descent.Programs
import AssignLang.Proofs.Reading.TextEnd
