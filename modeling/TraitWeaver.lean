import TraitWeaver.FileTree
import TraitWeaver.Json.Printer
import TraitWeaver.Main
import TraitWeaver.Proofs.Qualifier
import TraitWeaver.Proofs.Grouping
import TraitWeaver.Proofs.Preference
import TraitWeaver.Proofs.Lookup
import TraitWeaver.Proofs.Outcome
import TraitWeaver.Proofs.HostResolution
import TraitWeaver.Proofs.CompositionOrder
import TraitWeaver.Proofs.FreshName
import TraitWeaver.Proofs.Dispatch
import TraitWeaver.Proofs.OwnName
import TraitWeaver.Proofs.FileScope
import TraitWeaver.Proofs.Inheritance
import TraitWeaver.Proofs.FieldNames
import TraitWeaver.Proofs.Filing
import TraitWeaver.Proofs.Requests
import TraitWeaver.Proofs.RequestLog
import TraitWeaver.Proofs.RoundSteps
import TraitWeaver.Proofs.RoundAccount
import TraitWeaver.Proofs.Reordering
import TraitWeaver.Proofs.RoundOrder
import TraitWeaver.Proofs.OpenScopes
import TraitWeaver.Proofs.Legality
import TraitWeaver.Proofs.Retrying
import TraitWeaver.Proofs.FileLayout
import TraitWeaver.Proofs.JsonForm
import TraitWeaver.Proofs.FileCount
import TraitWeaver.Proofs.OutputPaths
import TraitWeaver.Proofs.Distinguishing
import TraitWeaver.Proofs.ArtifactNames
import TraitWeaver.Proofs.Delegation
import TraitWeaver.Proofs.EveryVariable
import TraitWeaver.Proofs.Requalifying
import TraitWeaver.Proofs.SuperclassBounds
import TraitWeaver.Proofs.RealParameters
import TraitWeaver.Proofs.MergedParameters
import TraitWeaver.Proofs.AliasNames
import TraitWeaver.Proofs.MethodList
import TraitWeaver.Proofs.Isolation
import TraitWeaver.Proofs.SelfAccessor
import TraitWeaver.Proofs.Consistency
import TraitWeaver.Proofs.GatheredTypes
import TraitWeaver.Proofs.Registrations
import TraitWeaver.Proofs.QualifierLaws
import TraitWeaver.Proofs.Equality
import TraitWeaver.Proofs.Parentheses
import TraitWeaver.Proofs.DelegateFields
import TraitWeaver.Proofs.Traversal
import TraitWeaver.Proofs.Varargs
