import Squishc.Main
import Squishc.ScopeTree
import Squishc.Proofs.Semantics
import Squishc.Proofs.Reduction
import Squishc.Proofs.ReductionSound
import Squishc.Proofs.LoopCounters
import Squishc.Proofs.UnrollSound
import Squishc.Proofs.OptimizeSound
import Squishc.Proofs.Walk
import Squishc.Proofs.LexicalScope
import Squishc.Proofs.NameResolution
import Squishc.Proofs.NodeScope
import Squishc.Proofs.ResolvedTree
import Squishc.Proofs.JsNaming
import Squishc.Proofs.OptimizeScope
import Squishc.Proofs.LoweredTree
import Squishc.Proofs.EmittedScope
import Squishc.Proofs.ReadPrintedExpr
import Squishc.Proofs.ReadPrinted
import Squishc.Proofs.RuleChoice
import Squishc.Proofs.KeptCalls
import Squishc.Proofs.NormalForm
import Squishc.Proofs.TypeRules
import Squishc.Proofs.TypeDrift
import Squishc.Proofs.Machine
import Squishc.Proofs.TypeSoundness
import Squishc.Proofs.ReadTree
import Squishc.Proofs.ClosedPipeline
import Squishc.Proofs.Placement
import Squishc.Proofs.DigitGrowth
import Squishc.Proofs.NameOrder
import Squishc.Proofs.Annotations
import Squishc.Proofs.PermissiveBodies
import Squishc.Proofs.Relabeling
import Squishc.Proofs.Renaming
import Squishc.Proofs.RenamedEmission
import Squishc.Proofs.RenamedText
import Squishc.Proofs.ListingDetermines
import Squishc.Proofs.OperandOrder
import Squishc.Proofs.WrappedProgram
import Squishc.Proofs.UntypedSums
import Squishc.Proofs.ExactValues
import Squishc.Proofs.FoldedFormulas
import Squishc.Proofs.Grammar
import Squishc.Proofs.ReadSound
import Squishc.Proofs.ReadPlan
import Squishc.Proofs.ReadBounds
import Squishc.Proofs.PlanRuns
import Squishc.Proofs.PlanCompletion
import Squishc.Proofs.ViablePrefix
import Squishc.Proofs.SpelledTokens
import Squishc.Proofs.StringLiterals
import Squishc.Proofs.TokenSlices
import Squishc.Proofs.NumberLiterals
import Squishc.Proofs.JsTokens
import Squishc.Proofs.JsReader
import Squishc.Proofs.EmittedExpressions
import Squishc.Proofs.KeptParts
import Squishc.Proofs.SpelledPrograms
import Squishc.Proofs.EmittedLines
import Squishc.Proofs.SecondPass
import Squishc.Proofs.UnrolledCounts
import Squishc.Proofs.Deliveries
import Squishc.Proofs.Positionals
import Squishc.Proofs.ScopeHistory
import Squishc.Proofs.TypeInstances
