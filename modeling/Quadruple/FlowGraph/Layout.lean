import Quadruple.FlowGraph.Basic

/-!
The program of a flow graph: the program's own body first, starting with its start, then the bodies
of functions, each in the order of the indices. Where control no longer goes to the instruction that
follows, a jump is added; where it goes to the end of the program, the program ends.
-/

namespace Quadruple.FlowGraph

inductive Item where
  | node (index : Nat)
  | exit
  | goto (target : Nat)
deriving DecidableEq

def layoutOrder (graph : FlowGraph) : List Nat :=
  let regions := graph.regions
  let others := graph.liveIndices.filter (· ≠ graph.root)
  let (main, functions) := others.partition fun index => (regions[index]?).join = some graph.root
  graph.root :: main ++ functions

/-- The places for an instruction: its own, and one for what has to follow it. -/
def itemsFor (graph : FlowGraph) (index : Nat) (following : Option Nat) : List Item :=
  match (graph.nodes[index]?).bind Node.next with
  | none => [.node index]
  | some next =>
    if next = graph.finish then [.node index, .exit]
    else if following = some next then [.node index]
    else [.node index, .goto next]

def itemsOf (graph : FlowGraph) : List Nat → List Item
  | [] => []
  | index :: rest => graph.itemsFor index rest.head? ++ graph.itemsOf rest

def leavesByJump (graph : FlowGraph) : Item → Bool
  | .node index => ((graph.nodes[index]?).bind Node.target) = some graph.finish
  | _ => false

def items (graph : FlowGraph) : List Item :=
  let placed := graph.itemsOf graph.layoutOrder
  if !placed.contains .exit && placed.any graph.leavesByJump then placed ++ [.exit] else placed

def placesOf (graph : FlowGraph) (items : List Item) : Array Nat :=
  items.zipIdx.foldl
    (fun table (item, place) =>
      match item with
      | .node index => table.setIfInBounds index place
      | _ => table)
    (Array.replicate graph.nodes.size 0)

def toCode (graph : FlowGraph) : Code :=
  let items := graph.items
  let places := graph.placesOf items
  let finish := items.idxOf .exit
  let placeOf (vertex : Nat) : Operand :=
    .target (if vertex = graph.finish then finish else places.getD vertex 0 : Nat)
  (items.filterMap fun item =>
    match item with
    | .exit => some { opcode := .exit }
    | .goto target => some { opcode := .goto, result := placeOf target }
    | .node index => (graph.nodes[index]?).map fun node =>
        match node.target with
        | some target => { node.instruction with result := placeOf target }
        | none => node.instruction).toArray

end Quadruple.FlowGraph
