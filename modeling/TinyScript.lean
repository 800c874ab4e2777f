import TinyScript.Main
import TinyScript.Program.Printer
import TinyScript.Proofs.Grammar.Program
import TinyScript.Proofs.Recovery
import TinyScript.Proofs.Parser.Line
import TinyScript.Proofs.Token.Layout
import TinyScript.Proofs.Token.Veil
import TinyScript.Proofs.Session.CallLimit
import TinyScript.Proofs.Session.Reset
import TinyScript.Proofs.Printer.ReadBack
import TinyScript.Proofs.Guise.Renaming
import TinyScript.Proofs.Guise.Places
import TinyScript.Proofs.Session.Pieces
import TinyScript.Proofs.Session.Evaluator
import TinyScript.Proofs.Session.Rejection
import TinyScript.Proofs.Session.Permanence
import TinyScript.Proofs.Session.Renewal
import TinyScript.Proofs.Session.Scopes
import TinyScript.Proofs.Session.Variables
import TinyScript.Proofs.Session.Leftovers
import TinyScript.Proofs.Repl.Transcripts
import TinyScript.Proofs.CommandLine.Scripts
import TinyScript.Proofs.CommandLine.Groups
import TinyScript.Proofs.Store.Histories
import TinyScript.Proofs.Store.Closing
import TinyScript.Proofs.Evaluation.Unwinding
import TinyScript.Proofs.Token.Printed
import TinyScript.Proofs.Hollow.ForLoop
import TinyScript.Proofs.Token.Spacing
import TinyScript.Proofs.Parser.Cost
import TinyScript.Proofs.Parser.Truncation
import TinyScript.Proofs.Store.Drawing
import TinyScript.Proofs.Number.Identity
import TinyScript.Proofs.Session.Echo
import TinyScript.Proofs.Evaluation.Lists
import TinyScript.Proofs.Evaluation.Repetition
import TinyScript.Proofs.Evaluation.Objects
