import ShaderGraph.CommandLine.Run
import ShaderGraph.Main
import ShaderGraph.Proofs.DepthFirst
import ShaderGraph.Proofs.Discovery
import ShaderGraph.Proofs.Participation
import ShaderGraph.Proofs.Checks
import ShaderGraph.Proofs.Compiles
import ShaderGraph.Proofs.Emission
import ShaderGraph.Proofs.Availability
import ShaderGraph.Proofs.Execution
import ShaderGraph.Proofs.Literals
import ShaderGraph.Proofs.Scanning
import ShaderGraph.Proofs.Denotation
import ShaderGraph.Proofs.Meaning
import ShaderGraph.Proofs.Preservation
import ShaderGraph.Proofs.Expansion
import ShaderGraph.Proofs.Cycles
import ShaderGraph.Proofs.Ordering
import ShaderGraph.Proofs.Freshness
import ShaderGraph.Proofs.Linkage
import ShaderGraph.Proofs.Relabelling
import ShaderGraph.Proofs.Timekeeping
import ShaderGraph.Proofs.UniformKeys
import ShaderGraph.Proofs.Rewiring
import ShaderGraph.Proofs.Soundness
import ShaderGraph.Proofs.Isolation
import ShaderGraph.Proofs.Building
import ShaderGraph.Proofs.Chaining
import ShaderGraph.Proofs.Readiness
import ShaderGraph.Proofs.FiniteSettings
import ShaderGraph.Proofs.Readers
import ShaderGraph.Proofs.Places
import ShaderGraph.Proofs.Numerals
import ShaderGraph.Proofs.Lexemes
import ShaderGraph.Proofs.QuotedTexts
import ShaderGraph.Proofs.Documents
import ShaderGraph.Proofs.RoundTrip
import ShaderGraph.Proofs.Replacement
import ShaderGraph.Proofs.StageOrders
import ShaderGraph.Proofs.Assignments
import ShaderGraph.Proofs.FileMaps
import ShaderGraph.Proofs.SavedSettings
import ShaderGraph.Proofs.Wiring
import ShaderGraph.Proofs.Interruption
import ShaderGraph.Proofs.Indentation
import ShaderGraph.Proofs.Resolution
import ShaderGraph.Proofs.Lexing
import ShaderGraph.Proofs.SourceText
import ShaderGraph.Proofs.SlotWrites
import ShaderGraph.Proofs.DisplayNames
import ShaderGraph.Proofs.OutputScope
import ShaderGraph.Proofs.PrimaryInputs
import ShaderGraph.Proofs.FloatConstants
import ShaderGraph.Proofs.LiteralSources
import ShaderGraph.Proofs.LaterWiring
import ShaderGraph.Proofs.TreeSearch
import ShaderGraph.Proofs.NewNodes
import ShaderGraph.Proofs.MaterialGraph
import ShaderGraph.Proofs.MaterialNumbers
import ShaderGraph.Proofs.MaterialShape
import ShaderGraph.Proofs.Frames
import ShaderGraph.Proofs.ArgumentLists
import ShaderGraph.Proofs.Stems
