import HeuristicTyping.Arity
import HeuristicTyping.Ty.Basic
import HeuristicTyping.Ty.Substitution
import HeuristicTyping.Ty.Printer
import HeuristicTyping.Source.Path
import HeuristicTyping.Source.FileTable
import HeuristicTyping.Source.Location
import HeuristicTyping.Program.Node
import HeuristicTyping.Program.Graph
import HeuristicTyping.TypeIndex.Basic
import HeuristicTyping.TypeIndex.Hierarchy
import HeuristicTyping.TypeIndex.Listing
import HeuristicTyping.Registry.Table
import HeuristicTyping.Registry.Basic
import HeuristicTyping.Catalogue.Signatures
import HeuristicTyping.Catalogue.Basic
import HeuristicTyping.Catalogue.Core
import HeuristicTyping.Toml.Blank
import HeuristicTyping.Toml.Number
import HeuristicTyping.Toml.Moment
import HeuristicTyping.Toml.Basic
import HeuristicTyping.Toml.Quoted
import HeuristicTyping.Toml.Reader
import HeuristicTyping.Settings.Basic
import HeuristicTyping.Settings.Document
import HeuristicTyping.Simplifier
import HeuristicTyping.Inference.Basic
import HeuristicTyping.Inference.Inquiry
import HeuristicTyping.Inference.Project
import HeuristicTyping.Inference.Duck
import HeuristicTyping.Inference.Call
import HeuristicTyping.Inference.Rules
import HeuristicTyping.Inference.Memo
import HeuristicTyping.Inference.Resolver
import HeuristicTyping.Text.Json
import HeuristicTyping.Dump
import HeuristicTyping.Session
import HeuristicTyping.Proofs.Inquiries
import HeuristicTyping.Proofs.Rules.Dependence
import HeuristicTyping.Proofs.Rules.Calls
import HeuristicTyping.Proofs.Rules.Kinds
import HeuristicTyping.Proofs.Resolver.Slots
import HeuristicTyping.Proofs.Resolver.History
import HeuristicTyping.Proofs.Resolver.Chains
import HeuristicTyping.Proofs.Resolver.Limits
import HeuristicTyping.Proofs.Resolver.Reference
import HeuristicTyping.Proofs.Resolver.Requests
import HeuristicTyping.Proofs.Resolver.Visits
import HeuristicTyping.Proofs.Resolver.CommonCycles
import HeuristicTyping.Proofs.Resolver.QueryOrder
import HeuristicTyping.Proofs.Registries
import HeuristicTyping.Proofs.RegistryLog
import HeuristicTyping.Proofs.Renumbering.Calls
import HeuristicTyping.Proofs.Renumbering.Rules
import HeuristicTyping.Proofs.Renumbering.Locality
import HeuristicTyping.Proofs.Renumbering.Opacity
import HeuristicTyping.Proofs.Session.Building
import HeuristicTyping.Proofs.GraphLog
import HeuristicTyping.Proofs.Session.Histories
import HeuristicTyping.Proofs.Session.Freshness
import HeuristicTyping.Proofs.Session.Replay
import HeuristicTyping.Proofs.Session.Scripts
import HeuristicTyping.Proofs.Session.Contents
import HeuristicTyping.Proofs.Session.Reindexing
import HeuristicTyping.Proofs.TypeIndex.Ancestry
import HeuristicTyping.Proofs.Ty.Comparison
import HeuristicTyping.Proofs.Ty.NormalForm
import HeuristicTyping.Proofs.Ty.Equality
import HeuristicTyping.Proofs.Ty.Stages
import HeuristicTyping.Proofs.Ty.Known
import HeuristicTyping.Proofs.Ty.Permutations
import HeuristicTyping.Proofs.Ty.Rebuilding
import HeuristicTyping.Proofs.Ty.Substitution
import HeuristicTyping.Proofs.Ty.Simplification
import HeuristicTyping.Proofs.Resolver.Footprint
import HeuristicTyping.Proofs.Resolver.WellFormed
import HeuristicTyping.Proofs.Resolver.Simplified
import HeuristicTyping.Proofs.Resolver.Fresh
import HeuristicTyping.Proofs.Resolver.AcyclicQueries
import HeuristicTyping.Proofs.Resolver.UnionReceivers
import HeuristicTyping.Proofs.Resolver.TypeReferences
import HeuristicTyping.Proofs.Resolver.Tags
import HeuristicTyping.Proofs.Ty.Alternatives
import HeuristicTyping.Proofs.Rules.DuckTyping
import HeuristicTyping.Proofs.Rules.Descendants
import HeuristicTyping.Proofs.TypeIndex.Owners
import HeuristicTyping.Proofs.Catalogue.Entries
import HeuristicTyping.Proofs.Resolver.Circles
import HeuristicTyping.Proofs.Ty.Fields
import HeuristicTyping.Proofs.Rules.Relisting
import HeuristicTyping.Proofs.Resolver.HashLiterals
import HeuristicTyping.Proofs.Source.FileTables
import HeuristicTyping.Proofs.Source.FileNumbers
import HeuristicTyping.Proofs.Catalogue.Inheritance
