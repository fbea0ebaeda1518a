import Quadruple.FlowGraph.ConstantFolding
import Quadruple.FlowGraph.JumpThreading
import Quadruple.FlowGraph.Layout

/-!
Optimization: rounds of jump threading and constant folding, until a round takes nothing out or
enough rounds have been made, and then a new layout without what control cannot reach.
-/

namespace Quadruple

namespace Optimization

structure Options where
  jumpThreading : Bool := true
  constantFolding : Bool := true
  /-- The most rounds to make; with none or fewer the usual number is made. -/
  maxRounds : Int := 32
deriving DecidableEq

def defaultMaxRounds : Nat := 32

def Options.text (options : Options) : String :=
  let truth (flag : Bool) : String := if flag then "true" else "false"
  "\x7bJumpThreading:" ++ truth options.jumpThreading ++ " ConstantFolding:" ++
    truth options.constantFolding ++ " MaxRounds:" ++ Text.decimal options.maxRounds ++ "\x7d"

structure Stats where
  before : Nat
  after : Nat := 0
  unreachable : Nat := 0
  threaded : Nat := 0
  folded : Nat := 0
  rounds : Nat := 0
deriving DecidableEq

def Stats.text (stats : Stats) : String :=
  Text.digits 10 stats.before ++ " -> " ++ Text.digits 10 stats.after ++ " instructions (" ++
    Text.digits 10 stats.unreachable ++ " unreachable, " ++ Text.digits 10 stats.threaded ++
    " jumps threaded, " ++ Text.digits 10 stats.folded ++ " folded, " ++
    Text.digits 10 stats.rounds ++ " rounds)"

def Options.rounds (options : Options) : Nat :=
  if options.maxRounds ≤ 0 then defaultMaxRounds else options.maxRounds.toNat

def passIf (wanted : Bool) (pass : FlowGraph → FlowGraph × Nat) (graph : FlowGraph) :
    FlowGraph × Nat :=
  if wanted then pass graph else (graph, 0)

def iterate (options : Options) : Nat → FlowGraph → Stats → FlowGraph × Stats
  | 0, graph, stats => (graph, stats)
  | more + 1, graph, stats =>
    let (threaded, jumps) := passIf options.jumpThreading FlowGraph.threadJumps graph
    let (folded, constants) := passIf options.constantFolding FlowGraph.foldConstants threaded
    let counted :=
      { stats with
        rounds := stats.rounds + 1
        threaded := stats.threaded + jumps
        folded := stats.folded + constants }
    if folded.liveCount = graph.liveCount then (folded, counted)
    else iterate options more folded counted

def reduce (code : Code) (options : Options) : Except FlowGraph.Error (FlowGraph × Stats) := do
  let graph ← FlowGraph.ofCode code
  let stats : Stats := { before := code.size, unreachable := code.size - graph.liveCount }
  let (final, counted) := iterate options options.rounds graph stats
  .ok (final, { counted with after := final.toCode.size })

def optimize (code : Code) (options : Options) : Except FlowGraph.Error (Code × Stats) := do
  let (final, stats) ← reduce code options
  .ok (final.toCode, stats)

end Optimization

end Quadruple
