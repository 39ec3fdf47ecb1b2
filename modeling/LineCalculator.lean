import LineCalculator.Line.Footprint
import LineCalculator.Main
import LineCalculator.NormalForm.Rewriting
import LineCalculator.Postfix.Phrase
import LineCalculator.Session
import LineCalculator.Proofs.Dialogue.Agreement
import LineCalculator.Proofs.Dialogue.Layout
import LineCalculator.Proofs.Expr.LastDigit
import LineCalculator.Proofs.Expr.Spelling
import LineCalculator.Proofs.Line.Acceptance
import LineCalculator.Proofs.Line.Footprint
import LineCalculator.Proofs.Line.Grammar
import LineCalculator.Proofs.Line.Literal
import LineCalculator.Proofs.Line.SignRun
import LineCalculator.Proofs.NormalForm.Confluence
import LineCalculator.Proofs.Outcome.Faults
import LineCalculator.Proofs.Outcome.Unknown
import LineCalculator.Proofs.Postfix.Printing
import LineCalculator.Proofs.Postfix.Refusal
import LineCalculator.Proofs.Postfix.Replacement
import LineCalculator.Proofs.Postfix.Waiting
import LineCalculator.Proofs.Power.Units
import LineCalculator.Proofs.Power.Width
import LineCalculator.Proofs.Session.Commutation
import LineCalculator.Proofs.Session.Display
import LineCalculator.Proofs.Session.Modes
import LineCalculator.Proofs.Session.Names
import LineCalculator.Proofs.Session.Repair
import LineCalculator.Proofs.Token.Separation
