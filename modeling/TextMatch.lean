import TextMatch.Session
import TextMatch.Proofs.Calculator.ErrorLocation
import TextMatch.Proofs.Calculator.ExactValue
import TextMatch.Proofs.Calculator.Layout
import TextMatch.Proofs.Calculator.LongestPrefix
import TextMatch.Proofs.Calculator.Openers
import TextMatch.Proofs.Calculator.PrintedValue
import TextMatch.Proofs.Cursor.Faithful
import TextMatch.Proofs.Cursor.Indexed
import TextMatch.Proofs.Cursor.Shifted
import TextMatch.Proofs.Decimal.Words
import TextMatch.Proofs.Engine.Alternatives
import TextMatch.Proofs.Engine.Backrefs
import TextMatch.Proofs.Engine.Derived
import TextMatch.Proofs.Engine.Factoring
import TextMatch.Proofs.Engine.Limits
import TextMatch.Proofs.Engine.Literals
import TextMatch.Proofs.Engine.References
import TextMatch.Proofs.Session.Lifetimes
