import TransitionNetworks.Grammar.Builder
import TransitionNetworks.Grammar.Layout
import TransitionNetworks.Grammar.Drafting
import TransitionNetworks.Grammar.Samples
import TransitionNetworks.Network.Graph
import TransitionNetworks.Network.Listing
import TransitionNetworks.Session
import TransitionNetworks.Parsing.Guarded
import TransitionNetworks.StackGraph.Operation
import TransitionNetworks.Chart.Operation
import TransitionNetworks.Tree.Outline
import TransitionNetworks.Tree.Typesetting
import TransitionNetworks.Proofs.Language
import TransitionNetworks.Proofs.Run.Growth
import TransitionNetworks.Proofs.Run.Links
import TransitionNetworks.Proofs.Run.Capacity
import TransitionNetworks.Proofs.Run.Closure
import TransitionNetworks.Proofs.Acceptance
import TransitionNetworks.Proofs.Grammar.Chains
import TransitionNetworks.Proofs.Grammar.Builder
import TransitionNetworks.Proofs.Grammar.Drafting
import TransitionNetworks.Proofs.Grammar.Decision
import TransitionNetworks.Proofs.Run.Guards
import TransitionNetworks.Proofs.Parsing
import TransitionNetworks.Proofs.Pushdown
import TransitionNetworks.Proofs.Run.Counts
import TransitionNetworks.Proofs.Run.Accounts
import TransitionNetworks.Proofs.Widening
import TransitionNetworks.Proofs.Wrapping
import TransitionNetworks.Proofs.Bounds
import TransitionNetworks.Proofs.Run.Order
import TransitionNetworks.Proofs.Observation
import TransitionNetworks.Proofs.Renumbering.Numberings
import TransitionNetworks.Proofs.Renumbering.Runs
import TransitionNetworks.Proofs.Renumbering.Parses
import TransitionNetworks.Proofs.Online
import TransitionNetworks.Proofs.Saturation
import TransitionNetworks.Proofs.Subcharts
import TransitionNetworks.Proofs.Grammar.CallSites
import TransitionNetworks.Proofs.Tree.Completions
import TransitionNetworks.Proofs.Repetition
import TransitionNetworks.Proofs.Tree.Brackets
import TransitionNetworks.Proofs.Tree.Listing
import TransitionNetworks.Proofs.WellFormed
import TransitionNetworks.Proofs.Tree.Traversal
import TransitionNetworks.Proofs.Tree.Rows
import TransitionNetworks.Proofs.Tiling
import TransitionNetworks.Proofs.Grammar.Resolution
import TransitionNetworks.Proofs.Refusals
import TransitionNetworks.Proofs.Grammar.Construction
import TransitionNetworks.Proofs.Grammar.Regions
import TransitionNetworks.Proofs.Enclosure
import TransitionNetworks.Proofs.Validation
import TransitionNetworks.Proofs.Text.Codes
import TransitionNetworks.Proofs.Description
import TransitionNetworks.Proofs.Run.Notes
import TransitionNetworks.Proofs.Logging
import TransitionNetworks.Proofs.Run.Situations
import TransitionNetworks.Proofs.Nesting
import TransitionNetworks.Proofs.Summing
import TransitionNetworks.Proofs.LinearSpace
import TransitionNetworks.Proofs.Text.Lines
import TransitionNetworks.Proofs.Tree.Typesetting
import TransitionNetworks.Proofs.Pages
import TransitionNetworks.Proofs.Interning
import TransitionNetworks.Proofs.Indexing
import TransitionNetworks.Proofs.Derivation.Ranked
import TransitionNetworks.Proofs.Locality
