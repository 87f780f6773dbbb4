import FormulaBar.Editor.Operation
import FormulaBar.Editor.Snapshot
import FormulaBar.Proofs.Editor.Checked
import FormulaBar.Proofs.Formula.Recognition
import FormulaBar.Proofs.Session.Lookups
import FormulaBar.Service.Client
import FormulaBar.Service.Endpoint
import FormulaBar.Session
import FormulaBar.Settings.Store
import FormulaBar.Proofs.Numeral.Digits
import FormulaBar.Proofs.Numeral.Double
import FormulaBar.Proofs.Numeral.Nearest
import FormulaBar.Proofs.Numeral.Plain
import FormulaBar.Proofs.Formula.Lexing
import FormulaBar.Proofs.Formula.Rendering
import FormulaBar.Proofs.Formula.Items
import FormulaBar.Proofs.Editor.Keystrokes
import FormulaBar.Proofs.Json.Literals
import FormulaBar.Proofs.Worker.Coalescing
import FormulaBar.Proofs.Json.Writing
import FormulaBar.Proofs.Settings.Saving
import FormulaBar.Proofs.Editor.Autocomplete
import FormulaBar.Proofs.Editor.EditBox
import FormulaBar.Proofs.Editor.Closing
import FormulaBar.Proofs.Json.Lines
import FormulaBar.Proofs.Settings.Commented
import FormulaBar.Proofs.Service.Client
import FormulaBar.Proofs.Service.Cache
import FormulaBar.Proofs.Service.Agreement
import FormulaBar.Proofs.Formula.SignedValues
import FormulaBar.Proofs.Formula.Operands
import FormulaBar.Proofs.Editor.Effects
import FormulaBar.Proofs.Editor.Histories
import FormulaBar.Proofs.Editor.Gap
import FormulaBar.Proofs.Editor.InPlace
import FormulaBar.Proofs.Formula.Faults
import FormulaBar.Proofs.Formula.Viability
import FormulaBar.Proofs.Formula.FirstFault
import FormulaBar.Proofs.Formula.Runs
import FormulaBar.Proofs.Formula.NumberTexts
import FormulaBar.Proofs.Editor.Reopening
import FormulaBar.Proofs.Catalog
import FormulaBar.Proofs.Editor.Refusal
import FormulaBar.Proofs.Json.Spelling
import FormulaBar.Proofs.Settings.Loading
import FormulaBar.Proofs.Json.Record
import FormulaBar.Proofs.Settings.Members
import FormulaBar.Proofs.Formula.Munching
import FormulaBar.Proofs.Formula.Procedures
import FormulaBar.Proofs.Formula.Bounds
import FormulaBar.Proofs.Formula.Context
import FormulaBar.Proofs.Numeral.Order
import FormulaBar.Proofs.Numeral.Rounding
import FormulaBar.Proofs.Json.Doubles
import FormulaBar.Proofs.Candidate.Lists
import FormulaBar.Proofs.Candidate.Ids
import FormulaBar.Proofs.Numeral.Whole
