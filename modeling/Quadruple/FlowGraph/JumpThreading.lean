import Quadruple.FlowGraph.Basic

/-!
Jumps to jumps: an unconditional jump that is reached by jumps only is taken out, and what jumped to
it goes on directly.
-/

namespace Quadruple.FlowGraph

def onlyJumpedTo (graph : FlowGraph) (index : Nat) : Bool :=
  (graph.predecessors.getD index []).all fun source =>
    match graph.nodes[source]? with
    | none => true
    | some node =>
      node.next ≠ some index && node.target = some index && node.instruction.opcode ≠ .call

def isThreadable (graph : FlowGraph) (index : Nat) : Bool :=
  match graph.nodes[index]? with
  | none => false
  | some node =>
    node.live && node.instruction.opcode = .goto && node.target ≠ some index &&
      graph.onlyJumpedTo index

def threadAll (indices : List Nat) (graph : FlowGraph) : FlowGraph × Nat :=
  indices.foldl
    (fun (state, count) index =>
      if state.isThreadable index then (state.splice index, count + 1) else (state, count))
    (graph, 0)

def threadJumps (graph : FlowGraph) : FlowGraph × Nat :=
  threadAll graph.order graph

end Quadruple.FlowGraph
