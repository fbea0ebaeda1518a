import Quadruple.Code.Instruction
import Quadruple.FlowGraph.Traversal

/-!
The flow graph of a program. Its vertices are the instructions, known by their indices, and the end
of the program, which has the index after the last instruction. Control passes from an instruction
to the following one and to its target, where it has them.
-/

namespace Quadruple

namespace FlowGraph

structure Node where
  instruction : Instruction
  next : Option Nat
  target : Option Nat
  live : Bool

end FlowGraph

structure FlowGraph where
  nodes : Array FlowGraph.Node
  predecessors : Array (List Nat)
  root : Nat
  liveCount : Nat

namespace FlowGraph

inductive Error where
  | noTarget (opcode : Opcode) (index : Nat)
  | targetOutside (opcode : Opcode) (index : Nat) (target : Int)
  | noStart

def Error.report : Error → Report
  | noTarget opcode index =>
    .of .structuralJump (opcode.name ++ " at " ++ Text.digits 10 index ++ " has no target")
  | targetOutside opcode index target =>
    .of .structuralJump (opcode.name ++ " at " ++ Text.digits 10 index ++ " targets " ++
      Text.decimal target ++ " outside the program")
  | noStart => .of .structuralJump "program has no INIT instruction"

def fallsThrough : Opcode → Bool
  | .goto | .ret | .exit => false
  | _ => true

def finish (graph : FlowGraph) : Nat :=
  graph.nodes.size

/-- Where control can go from an instruction. A jump for when a condition fails lists its target
first, and one for when it holds lists it last. -/
def Node.successors (node : Node) : List Nat :=
  match node.instruction.opcode with
  | .goto => node.target.toList
  | .gotoFalse | .call => node.target.toList ++ node.next.toList
  | .gotoTrue => node.next.toList ++ node.target.toList
  | _ => node.next.toList

/-- Where control can go from a vertex; from the end it goes nowhere. -/
def successorsIn (nodes : Array Node) (vertex : Nat) : List Nat :=
  match nodes[vertex]? with
  | some node => node.successors
  | none => []

def successors (graph : FlowGraph) : Nat → List Nat :=
  successorsIn graph.nodes

def unmarked (nodes : Array Node) : Array Bool :=
  Array.replicate (nodes.size + 1) false

def reachableFrom (nodes : Array Node) (root : Nat) : List Nat :=
  (explore (successorsIn nodes) (.start (unmarked nodes) root)).1.filter (· ≠ nodes.size)

def order (graph : FlowGraph) : List Nat :=
  reachableFrom graph.nodes graph.root

def nodeOf (size : Nat) (instruction : Instruction) (index : Nat) : Except Error Node :=
  let next := if fallsThrough instruction.opcode then some (index + 1) else none
  if instruction.opcode.hasTarget then
    match instruction.target? with
    | none => .error (.noTarget instruction.opcode index)
    | some target =>
      if target < 0 || (size : Int) < target then
        .error (.targetOutside instruction.opcode index target)
      else .ok ⟨instruction, next, some target.toNat, false⟩
  else .ok ⟨instruction, next, none, false⟩

def nodesOf (code : Code) : Except Error (Array Node) :=
  (code.toList.zipIdx.mapM fun (instruction, index) => nodeOf code.size instruction index).map
    List.toArray

def addPredecessor (nodes : Array Node) (predecessors : Array (List Nat)) (index : Nat) :
    Array (List Nat) :=
  (successorsIn nodes index).foldl
    (fun table vertex => table.modify vertex fun sources => sources ++ [index]) predecessors

def predecessorsOf (nodes : Array Node) : Array (List Nat) :=
  let live := (List.range nodes.size).filter fun index => (nodes[index]?).any Node.live
  live.foldl (addPredecessor nodes) (Array.replicate (nodes.size + 1) [])

/-- The flow graph of a program, in which what control reaches from its start is live. -/
def ofCode (code : Code) : Except Error FlowGraph := do
  let nodes ← nodesOf code
  match code.findIdx? fun instruction => instruction.opcode = .init with
  | none => .error .noStart
  | some root =>
    let reached := reachableFrom nodes root
    let marked := reached.foldl
      (fun table index => table.modify index fun node => { node with live := true }) nodes
    .ok ⟨marked, predecessorsOf marked, root, reached.length⟩

def liveIndices (graph : FlowGraph) : List Nat :=
  (List.range graph.nodes.size).filter fun index => (graph.nodes[index]?).any Node.live

/-- Lets everything that led to an instruction lead to its only successor, and takes it out. -/
def splice (graph : FlowGraph) (index : Nat) : FlowGraph :=
  match graph.nodes[index]? with
  | none => graph
  | some node =>
    let successor := if node.instruction.opcode = .goto then node.target else node.next
    let sources := graph.predecessors.getD index []
    let redirect (vertex : Option Nat) : Option Nat :=
      if vertex = some index then successor else vertex
    let redirected := sources.foldl
      (fun table source => table.modify source fun node =>
        { node with next := redirect node.next, target := redirect node.target }) graph.nodes
    let joined :=
      match successor with
      | none => graph.predecessors
      | some vertex => graph.predecessors.modify vertex fun others =>
          others.filter (· ≠ index) ++ sources
    { graph with
      nodes := redirected.modify index fun node => { node with live := false }
      predecessors := joined.setIfInBounds index []
      liveCount := graph.liveCount - 1 }

/-- Where control goes inside a body: not into the functions that are called. -/
def bodySuccessors (graph : FlowGraph) (vertex : Nat) : List Nat :=
  match graph.nodes[vertex]? with
  | none => []
  | some node =>
    node.next.toList ++ if node.instruction.opcode.isJump then node.target.toList else []

/-- Where the bodies start: that of the program first, then those of the functions that are called,
in ascending order. -/
def entries (graph : FlowGraph) : List Nat :=
  let called := graph.liveIndices.filterMap fun index =>
    (graph.nodes[index]?).bind fun node =>
      if node.instruction.opcode = .call then node.target.filter (· ≠ graph.finish) else none
  graph.root :: called.mergeSort

/-- For every vertex the entry of the body to which it belongs. A vertex of several bodies belongs
to the first of them. -/
def regions (graph : FlowGraph) : Array (Option Nat) :=
  (graph.entries.foldl enter (unmarked graph.nodes, Array.replicate (graph.nodes.size + 1) none)).2
where
  enter (state : Array Bool × Array (Option Nat)) (entry : Nat) : Array Bool × Array (Option Nat) :=
    let (marked, table) := state
    if marked[entry]? = some false then
      let (visited, final) := explore graph.bodySuccessors (.start marked entry)
      (final, visited.foldl (fun assigned vertex => assigned.setIfInBounds vertex (some entry)) table)
    else state

end FlowGraph

end Quadruple
