/-!
# Analysis options

Which analyses a request asks for. The engine takes them as a bit mask. Some analyses build on
others: enabling one in a chain of options enables those it needs as well.
-/

namespace EngineHost

/-- One analysis that can be asked for. -/
inductive Analysis where
  | selectors
  | arguments
  | stateMutability
  | storage
  | disassemble
  | basicBlocks
  | controlFlowGraph
  deriving DecidableEq, Repr

/-- All analyses, in the order of their bits. -/
def Analysis.all : List Analysis :=
  [.selectors, .arguments, .stateMutability, .storage, .disassemble, .basicBlocks,
    .controlFlowGraph]

/-- The bit of an analysis. -/
def Analysis.bit : Analysis → UInt32
  | .selectors => 1
  | .arguments => 2
  | .stateMutability => 4
  | .storage => 8
  | .disassemble => 16
  | .basicBlocks => 32
  | .controlFlowGraph => 64

/-- The name of an analysis. -/
def Analysis.name : Analysis → String
  | .selectors => "selectors"
  | .arguments => "arguments"
  | .stateMutability => "state_mutability"
  | .storage => "storage"
  | .disassemble => "disassemble"
  | .basicBlocks => "basic_blocks"
  | .controlFlowGraph => "control_flow_graph"

/-- The analysis of this name. -/
def Analysis.ofName? (name : String) : Option Analysis := all.find? (·.name = name)

/-- The analyses that an analysis builds on. -/
def Analysis.needs : Analysis → List Analysis
  | .arguments => [.selectors]
  | .stateMutability => [.selectors]
  | .storage => [.arguments, .selectors]
  | .controlFlowGraph => [.basicBlocks]
  | .selectors | .disassemble | .basicBlocks => []

/-- `AnalysisOptions`: the analyses that a request asks for. -/
structure Options where
  selectors : Bool := false
  arguments : Bool := false
  stateMutability : Bool := false
  storage : Bool := false
  disassemble : Bool := false
  basicBlocks : Bool := false
  controlFlowGraph : Bool := false
  deriving DecidableEq, Repr

namespace Options

/-- `AnalysisOptions.new`: no analysis at all. -/
def empty : Options := {}

/-- Whether an analysis is asked for. -/
def has (o : Options) : Analysis → Bool
  | .selectors => o.selectors
  | .arguments => o.arguments
  | .stateMutability => o.stateMutability
  | .storage => o.storage
  | .disassemble => o.disassemble
  | .basicBlocks => o.basicBlocks
  | .controlFlowGraph => o.controlFlowGraph

/-- Asks for an analysis, and for nothing else. -/
def mark (o : Options) : Analysis → Options
  | .selectors => { o with selectors := true }
  | .arguments => { o with arguments := true }
  | .stateMutability => { o with stateMutability := true }
  | .storage => { o with storage := true }
  | .disassemble => { o with disassemble := true }
  | .basicBlocks => { o with basicBlocks := true }
  | .controlFlowGraph => { o with controlFlowGraph := true }

/-- The builder of an analysis, such as `with_arguments`: asks for it and for those it builds on. -/
def enable (o : Options) (a : Analysis) : Options := a.needs.foldl mark (o.mark a)

/-- `AnalysisOptions.all`: every analysis. -/
def all : Options := Analysis.all.foldl mark empty

/-- The analyses that are asked for, in the order of their bits. -/
def chosen (o : Options) : List Analysis := Analysis.all.filter o.has

/-- `AnalysisOptions.is_empty`: whether nothing is asked for. -/
def isEmpty (o : Options) : Bool := o.chosen.isEmpty

/-- `to_mask`: the bit mask that the engine takes. -/
def mask (o : Options) : UInt32 := o.chosen.foldl (fun m a => m ||| a.bit) 0

end Options

end EngineHost
