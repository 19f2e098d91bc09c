import PatternGraph.CommandLine.Arguments
import PatternGraph.CommandLine.Files
import PatternGraph.CommandLine.Help
import PatternGraph.CommandLine.Render
import PatternGraph.CommandLine.Run
import PatternGraph.Derivation.Basic
import PatternGraph.Derivation.Builder
import PatternGraph.Edge.Basic
import PatternGraph.Edge.Key
import PatternGraph.Filter
import PatternGraph.Form.Answer
import PatternGraph.Form.Filter
import PatternGraph.Form.Graph
import PatternGraph.Form.Pattern
import PatternGraph.Form.Plan
import PatternGraph.Form.Rule
import PatternGraph.Graph.Adjacency
import PatternGraph.Graph.Basic
import PatternGraph.Graph.Error
import PatternGraph.Graph.Select
import PatternGraph.Graph.SlotIndex
import PatternGraph.Graph.SlotSet
import PatternGraph.Graph.Table
import PatternGraph.Graph.TripleIndex
import PatternGraph.Graph.TypeTable
import PatternGraph.Json.Decoder
import PatternGraph.Json.Double
import PatternGraph.Json.Draft
import PatternGraph.Json.Printer
import PatternGraph.Json.Reader
import PatternGraph.Json.Value
import PatternGraph.Main
import PatternGraph.Message
import PatternGraph.Pattern.Alias
import PatternGraph.Pattern.Basic
import PatternGraph.Pattern.Connector
import PatternGraph.Pattern.Grammar
import PatternGraph.Proofs.CommandLine.Arguments
import PatternGraph.Proofs.CommandLine.Files
import PatternGraph.Proofs.CommandLine.Run
import PatternGraph.Proofs.Derivation.Bound
import PatternGraph.Proofs.Derivation.Budget
import PatternGraph.Proofs.Derivation.Closure
import PatternGraph.Proofs.Derivation.Continuation
import PatternGraph.Proofs.Derivation.Failures
import PatternGraph.Proofs.Derivation.FixedPoint
import PatternGraph.Proofs.Derivation.Growth
import PatternGraph.Proofs.Derivation.Matching
import PatternGraph.Proofs.Derivation.Passes
import PatternGraph.Proofs.Derivation.Provenance
import PatternGraph.Proofs.Derivation.Reach
import PatternGraph.Proofs.Derivation.RuleIndex
import PatternGraph.Proofs.Derivation.Scan
import PatternGraph.Proofs.Edge.Canonical
import PatternGraph.Proofs.Edge.Key
import PatternGraph.Proofs.Except
import PatternGraph.Proofs.Filter
import PatternGraph.Proofs.Form.Graph
import PatternGraph.Proofs.Form.Pattern
import PatternGraph.Proofs.Form.Query
import PatternGraph.Proofs.Graph.Compaction
import PatternGraph.Proofs.Graph.Consistency
import PatternGraph.Proofs.Graph.EdgeIdentity
import PatternGraph.Proofs.Graph.EdgeOrder
import PatternGraph.Proofs.Graph.EdgeSpelling
import PatternGraph.Proofs.Graph.EdgeTable
import PatternGraph.Proofs.Graph.History
import PatternGraph.Proofs.Graph.Index
import PatternGraph.Proofs.Graph.Listing
import PatternGraph.Proofs.Graph.Numbering
import PatternGraph.Proofs.Graph.Rebuild
import PatternGraph.Proofs.Graph.Refinement
import PatternGraph.Proofs.Graph.Refusal
import PatternGraph.Proofs.Graph.Registration
import PatternGraph.Proofs.Graph.Rows
import PatternGraph.Proofs.Graph.Selection
import PatternGraph.Proofs.Graph.Stored
import PatternGraph.Proofs.Graph.TypeTable
import PatternGraph.Proofs.Graph.VertexSelection
import PatternGraph.Proofs.Graph.VertexTable
import PatternGraph.Proofs.Json.Choices
import PatternGraph.Proofs.Json.Records
import PatternGraph.Proofs.Json.Written
import PatternGraph.Proofs.Pattern.Decoding
import PatternGraph.Proofs.Pattern.Expansion
import PatternGraph.Proofs.Pattern.Grammar
import PatternGraph.Proofs.Pattern.Links
import PatternGraph.Proofs.Pattern.Mirror
import PatternGraph.Proofs.Pattern.Nodes
import PatternGraph.Proofs.Pattern.Spelling
import PatternGraph.Proofs.Query.Agreement
import PatternGraph.Proofs.Query.Aliases
import PatternGraph.Proofs.Query.Expansion
import PatternGraph.Proofs.Query.Mirror
import PatternGraph.Proofs.Query.NameSearch
import PatternGraph.Proofs.Query.Plan
import PatternGraph.Proofs.Query.Reading
import PatternGraph.Proofs.Query.Resumption
import PatternGraph.Proofs.Query.ScopeList
import PatternGraph.Proofs.Query.Walks
import PatternGraph.Proofs.Rule.Grammar
import PatternGraph.Proofs.Rule.Names
import PatternGraph.Proofs.Snapshot
import PatternGraph.Proofs.Text.Layout
import PatternGraph.Proofs.Text.Lowercase
import PatternGraph.Proofs.Text.Parser
import PatternGraph.Proofs.Text.Substring
import PatternGraph.Proofs.Text.Success
import PatternGraph.Proofs.Text.TypeList
import PatternGraph.Proofs.Text.TypeNames
import PatternGraph.Proofs.TypeSet
import PatternGraph.Query.Answer
import PatternGraph.Query.Plan
import PatternGraph.Query.Run
import PatternGraph.Repository.Basic
import PatternGraph.Repository.Faulty
import PatternGraph.Rule.Basic
import PatternGraph.Rule.Grammar
import PatternGraph.RuleFile
import PatternGraph.Snapshot
import PatternGraph.Text.Blank
import PatternGraph.Text.CaseTable
import PatternGraph.Text.Lowercase
import PatternGraph.Text.Parser
import PatternGraph.Text.Range
import PatternGraph.Text.Search
import PatternGraph.Text.Size
import PatternGraph.Text.TypeNames
import PatternGraph.TypeSet
import PatternGraph.Vertex
