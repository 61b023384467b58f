import ApiSurface.Check
import ApiSurface.Command
import ApiSurface.Command.Arguments
import ApiSurface.Comparison
import ApiSurface.Config
import ApiSurface.Decimal
import ApiSurface.Describe
import ApiSurface.Draft
import ApiSurface.Draft.Finish
import ApiSurface.Draft.Inheritance
import ApiSurface.Draft.Overrides
import ApiSurface.Fault
import ApiSurface.FileTree
import ApiSurface.Filter
import ApiSurface.Flags
import ApiSurface.Hierarchy
import ApiSurface.Host
import ApiSurface.Issue
import ApiSurface.Item
import ApiSurface.Json.Access
import ApiSurface.Json.Basic
import ApiSurface.Json.Decode
import ApiSurface.Json.Parser
import ApiSurface.Json.Printer
import ApiSurface.Log
import ApiSurface.Main
import ApiSurface.Modifiers
import ApiSurface.Report
import ApiSurface.Rules.Finding
import ApiSurface.Rules.Matched
import ApiSurface.Rules.Prescribed
import ApiSurface.Rules.Presence
import ApiSurface.Run
import ApiSurface.Signature
import ApiSurface.Snapshot
import ApiSurface.Snapshot.Decode
import ApiSurface.Snapshot.Encode
import ApiSurface.Spec
import ApiSurface.Surface
import ApiSurface.Text.Alphanumeric
import ApiSurface.Text.Blank
import ApiSurface.Text.Hex
import ApiSurface.Toml.Basic
import ApiSurface.Toml.Document
import ApiSurface.Toml.Parser
import ApiSurface.Toml.Scalar
import ApiSurface.TypeRef
import ApiSurface.View
import ApiSurface.Proofs.Reload
import ApiSurface.Proofs.Accounting
import ApiSurface.Proofs.Recording
import ApiSurface.Proofs.Reflexivity
import ApiSurface.Proofs.Arrangement
import ApiSurface.Proofs.LostClasses
import ApiSurface.Proofs.Fallbacks
import ApiSurface.Proofs.OrderIrrelevance
import ApiSurface.Proofs.MoreClasses
import ApiSurface.Proofs.ClassCoverage
import ApiSurface.Proofs.LoadedSurfaces
import ApiSurface.Proofs.SuperclassVerdicts
import ApiSurface.Proofs.Subjects
import ApiSurface.Proofs.Noninterference
import ApiSurface.Proofs.RenamedChecks
import ApiSurface.Proofs.MemberLookup
import ApiSurface.Proofs.OustedMethods
import ApiSurface.Proofs.GroupPairing
import ApiSurface.Proofs.WrittenTypes
import ApiSurface.Proofs.NarrowedExceptions
import ApiSurface.Proofs.RepeatedSignatures
import ApiSurface.Proofs.FinalErasures
import ApiSurface.Proofs.SuperclassChains
import ApiSurface.Proofs.EffectiveFlags
import ApiSurface.Proofs.FailedAdditions
import ApiSurface.Proofs.Tolerance
import ApiSurface.Proofs.Relaxation
import ApiSurface.Proofs.EventOrder
import ApiSurface.Proofs.OverrideLinks
import ApiSurface.Proofs.OverrideSearch
import ApiSurface.Proofs.Relisting
import ApiSurface.Proofs.RespacedChecks
import ApiSurface.Proofs.Stubs
import ApiSurface.Proofs.RebuiltSurfaces
import ApiSurface.Proofs.ArrayDepth
