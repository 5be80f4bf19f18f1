import StackScript.Machine.Fuel
import StackScript.Main
import StackScript.Proofs.Answers
import StackScript.Proofs.Step
import StackScript.Proofs.CallDiscipline
import StackScript.Proofs.Callers
import StackScript.Proofs.Nested
import StackScript.Proofs.Dictionary
import StackScript.Proofs.Derivation
import StackScript.Proofs.Grammar
import StackScript.Proofs.Termination
import StackScript.Proofs.Lasting
import StackScript.Proofs.Meaning
import StackScript.Proofs.CompilerCorrectness
import StackScript.Proofs.Faults
import StackScript.Proofs.Lexemes
import StackScript.Proofs.CallLimit
import StackScript.Proofs.ScopeIsolation
import StackScript.Proofs.FaultReports
import StackScript.Proofs.Sequencing
import StackScript.Proofs.CallEffects
import StackScript.Proofs.Output
import StackScript.Proofs.Room
import StackScript.Proofs.RaisedLimit
import StackScript.Proofs.Likeness
import StackScript.Proofs.Renaming
import StackScript.Proofs.Lockstep
import StackScript.Proofs.Layout
import StackScript.Proofs.Inlining
import StackScript.Proofs.Interference
import StackScript.Proofs.Lines
import StackScript.Proofs.LineDiscipline
import StackScript.Proofs.ReservedNames
import StackScript.Proofs.JumpStructure
import StackScript.Proofs.Decompiling
import StackScript.Proofs.Rounding
import StackScript.Proofs.FloatArithmetic
import StackScript.Proofs.NaturalNumbers
import StackScript.Proofs.RadixLiterals
import StackScript.Proofs.TokenPlaces
import StackScript.Proofs.TokenAccount
import StackScript.Proofs.ScopeGrowth
import StackScript.Proofs.Visibility
import StackScript.Proofs.WordListing
import StackScript.Proofs.FailedRuns
import StackScript.Proofs.SignedNumbers
import StackScript.Proofs.NumeralGrammar
import StackScript.Proofs.CodeEquality
import StackScript.Proofs.ReadingBack
import StackScript.Proofs.CompilingByIndex
