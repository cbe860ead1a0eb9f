import MethodGroups.Conversion.Blueprint
import MethodGroups.Conversion.Convert
import MethodGroups.Conversion.Error
import MethodGroups.Conversion.Request
import MethodGroups.Hierarchy.Ancestors
import MethodGroups.Hierarchy.Slots
import MethodGroups.Index.Basic
import MethodGroups.Index.Build
import MethodGroups.Index.Definition
import MethodGroups.Inference
import MethodGroups.Outcome
import MethodGroups.Policy.Basic
import MethodGroups.Policy.Clause
import MethodGroups.Policy.Table
import MethodGroups.Proofs.Conversion.Arities
import MethodGroups.Proofs.Conversion.BaseCalls
import MethodGroups.Proofs.Conversion.Blueprints
import MethodGroups.Proofs.Conversion.Calls
import MethodGroups.Proofs.Conversion.Failures
import MethodGroups.Proofs.Conversion.GivenArguments
import MethodGroups.Proofs.Conversion.Growth
import MethodGroups.Proofs.Conversion.Receivers
import MethodGroups.Proofs.Conversion.Scope
import MethodGroups.Proofs.Conversion.Temporaries
import MethodGroups.Proofs.Conversion.Totality
import MethodGroups.Proofs.Conversion.TypeArguments
import MethodGroups.Proofs.Hierarchy.Ancestors
import MethodGroups.Proofs.Hierarchy.BaseTargets
import MethodGroups.Proofs.Hierarchy.Chains
import MethodGroups.Proofs.Hierarchy.Growth
import MethodGroups.Proofs.Hierarchy.NearestMembers
import MethodGroups.Proofs.Hierarchy.Scope
import MethodGroups.Proofs.Hierarchy.SlotRoots
import MethodGroups.Proofs.Hierarchy.Slots
import MethodGroups.Proofs.Hierarchy.Views
import MethodGroups.Proofs.Index.Acyclic
import MethodGroups.Proofs.Index.Bases
import MethodGroups.Proofs.Index.Cycles
import MethodGroups.Proofs.Index.Growth
import MethodGroups.Proofs.Index.Identity
import MethodGroups.Proofs.Index.Instantiation
import MethodGroups.Proofs.Index.Keys
import MethodGroups.Proofs.Index.Parameters
import MethodGroups.Proofs.Index.Redirection
import MethodGroups.Proofs.Index.Representation
import MethodGroups.Proofs.Index.Steps
import MethodGroups.Proofs.Index.WellFormed
import MethodGroups.Proofs.Inference.Concealment
import MethodGroups.Proofs.Inference.Exact
import MethodGroups.Proofs.Inference.Instances
import MethodGroups.Proofs.Inference.Scope
import MethodGroups.Proofs.Inference.Spellings
import MethodGroups.Proofs.Inference.TypeArgs
import MethodGroups.Proofs.Policy.Tables
import MethodGroups.Proofs.Report.JsonReader
import MethodGroups.Proofs.Report.JsonReports
import MethodGroups.Proofs.Report.JsonText
import MethodGroups.Proofs.Report.Positions
import MethodGroups.Proofs.Script.Assignments
import MethodGroups.Proofs.Script.Legibility
import MethodGroups.Proofs.Script.Lines
import MethodGroups.Proofs.Script.Literals
import MethodGroups.Proofs.Script.Reader
import MethodGroups.Proofs.Script.Regrouping
import MethodGroups.Proofs.Splitting
import MethodGroups.Proofs.Ty.Assignment
import MethodGroups.Proofs.Ty.Concealment
import MethodGroups.Proofs.Ty.Erasure
import MethodGroups.Proofs.Ty.Graft
import MethodGroups.Proofs.Ty.Names
import MethodGroups.Proofs.Ty.Positions
import MethodGroups.Proofs.Ty.Substitution
import MethodGroups.Proofs.Ty.VarFree
import MethodGroups.Proofs.Ty.Within
import MethodGroups.Proofs.Unification.Grounded
import MethodGroups.Proofs.Unification.Instances
import MethodGroups.Proofs.Unification.MostGeneral
import MethodGroups.Proofs.Unification.NormalForms
import MethodGroups.Proofs.Unification.Occurrences
import MethodGroups.Proofs.Unification.Scope
import MethodGroups.Proofs.Unification.Solutions
import MethodGroups.Proofs.Unification.Spellings
import MethodGroups.Proofs.Unification.Steps
import MethodGroups.Proofs.Unification.Strays
import MethodGroups.Proofs.Unification.Witnesses
import MethodGroups.Receiver
import MethodGroups.Report.Ink
import MethodGroups.Report.Json
import MethodGroups.Report.Layout
import MethodGroups.Report.Lines
import MethodGroups.Report.Render
import MethodGroups.Script.Quoted
import MethodGroups.Script.Text
import MethodGroups.Script.Tree
import MethodGroups.Settings.Basic
import MethodGroups.Settings.Decode
import MethodGroups.Settings.Load
import MethodGroups.Toml.DateTime
import MethodGroups.Toml.Document
import MethodGroups.Toml.Lexeme
import MethodGroups.Toml.Number
import MethodGroups.Toml.Quoted
import MethodGroups.Toml.Reader
import MethodGroups.Toml.Syntax
import MethodGroups.Toml.Table
import MethodGroups.Toml.Value
import MethodGroups.Ty.Basic
import MethodGroups.Ty.Subst
import MethodGroups.Ty.Text
import MethodGroups.Ty.Variables
import MethodGroups.Unification.Context
import MethodGroups.Unification.Solve
