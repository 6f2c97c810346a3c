import ScriptReader.Main
import ScriptReader.Proofs.Command.Agreement
import ScriptReader.Proofs.Document.Lossless
import ScriptReader.Proofs.Expr.BindsLast
import ScriptReader.Proofs.Expr.Covered
import ScriptReader.Proofs.Literal.Valued
import ScriptReader.Proofs.Phrase.Paired
import ScriptReader.Proofs.Phrase.Tiled
import ScriptReader.Proofs.Printed.Assignment
import ScriptReader.Proofs.Printed.Numeral
import ScriptReader.Proofs.Script.Automaton
import ScriptReader.Proofs.Script.Composition
import ScriptReader.Proofs.Script.HeaderParts
import ScriptReader.Proofs.Script.IndexGroups
import ScriptReader.Proofs.Script.Indices
import ScriptReader.Proofs.Script.Normal
import ScriptReader.Proofs.Script.Ordinary
import ScriptReader.Proofs.Script.Printed
import ScriptReader.Proofs.Script.Progress
import ScriptReader.Proofs.Script.Quoted
import ScriptReader.Proofs.Script.Reported
import ScriptReader.Proofs.Script.WellFormed
import ScriptReader.Proofs.Script.Writable
import ScriptReader.Proofs.Source.ShortStrings
import ScriptReader.Proofs.Store.Relocated
