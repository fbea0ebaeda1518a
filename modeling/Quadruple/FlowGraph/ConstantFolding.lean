import Quadruple.FlowGraph.Basic
import Quadruple.Operator.Evaluation

/-!
Constants: an instruction whose value is known is taken out, and the value takes the place of its
cell wherever it is read. Only intermediate results are treated so, and only those that a body writes
at one place. Since bodies use the same cells for different things, what is known is known of a body.
-/

namespace Quadruple.FlowGraph

structure Slot where
  region : Option Nat
  cell : Address
deriving DecidableEq

def written? (instruction : Instruction) : Option Address :=
  if instruction.opcode = .storeElement || instruction.opcode.hasTarget then none
  else
    match instruction.result with
    | .address cell => some cell.plain
    | _ => none

def known? (instruction : Instruction) : Option Value :=
  match instruction.opcode, instruction.left, instruction.right with
  | .load, .literal value, _ => some value
  | .load, _, _ => none
  | opcode, .literal left, .literal right =>
    if opcode.isPure then (opcode.eval left right).toOption else none
  | opcode, _, .literal right =>
    if opcode.isPure && opcode.arity ≠ 2 then (opcode.eval .absent right).toOption else none
  | _, _, _ => none

abbrev Facts := List (Slot × Value)

def Facts.forget (facts : Facts) (slot : Slot) : Facts :=
  facts.filter fun fact => fact.1 ≠ slot

def Facts.learn (facts : Facts) (slot : Slot) (value : Value) : Facts :=
  (slot, value) :: facts.forget slot

def Facts.apply (facts : Facts) (region : Option Nat) (operand : Operand) : Operand :=
  match operand with
  | .address cell =>
    if cell.area = .temps then
      match facts.lookup ⟨region, cell.plain⟩ with
      | some value => .literal value
      | none => operand
    else operand
  | _ => operand

def Facts.substitute (facts : Facts) (region : Option Nat) (instruction : Instruction) :
    Instruction :=
  match instruction.opcode with
  | .store | .param | .nativeParam | .gotoTrue | .gotoFalse =>
    { instruction with left := facts.apply region instruction.left }
  | .loadElement => { instruction with right := facts.apply region instruction.right }
  | .storeElement =>
    { instruction with
      right := facts.apply region instruction.right
      result := facts.apply region instruction.result }
  | opcode =>
    if opcode.isPure then
      { instruction with
        left := facts.apply region instruction.left
        right := facts.apply region instruction.right }
    else instruction

def hasOneSuccessor (node : Node) : Bool :=
  match node.successors with
  | [_] => true
  | [first, second] => first = second
  | _ => false

/-- The state of folding: the graph, what is known, and the instructions to take out, latest first. -/
structure Folding where
  graph : FlowGraph
  facts : Facts
  folded : List Nat

def regionOf (regions : Array (Option Nat)) (index : Nat) : Option Nat :=
  (regions[index]?).join

/-- Looks at one instruction: puts known values in, and learns or forgets what it writes. -/
def foldOne (regions : Array (Option Nat)) (writes : List Slot) (state : Folding) (index : Nat) :
    Folding :=
  match state.graph.nodes[index]? with
  | none => state
  | some node =>
    let region := regionOf regions index
    let instruction := state.facts.substitute region node.instruction
    let graph :=
      { state.graph with nodes := state.graph.nodes.modify index fun node => { node with instruction } }
    match written? instruction with
    | none => { state with graph }
    | some cell =>
      if cell.area ≠ .temps then { state with graph }
      else
        let slot : Slot := ⟨region, cell⟩
        match known? instruction with
        | none => { state with graph, facts := state.facts.forget slot }
        | some value =>
          if writes.count slot = 1 && value.type = cell.type && hasOneSuccessor { node with instruction }
          then ⟨graph, state.facts.learn slot value, index :: state.folded⟩
          else { state with graph, facts := state.facts.forget slot }

def writes (graph : FlowGraph) (regions : Array (Option Nat)) : List Slot :=
  graph.liveIndices.filterMap fun index =>
    (graph.nodes[index]?).bind fun node =>
      (written? node.instruction).map fun cell => ⟨regionOf regions index, cell⟩

def substituteAll (regions : Array (Option Nat)) (facts : Facts) (graph : FlowGraph) : FlowGraph :=
  let nodes := graph.liveIndices.foldl
    (fun table index => table.modify index fun node =>
      { node with instruction := facts.substitute (regionOf regions index) node.instruction })
    graph.nodes
  { graph with nodes }

def foldConstants (graph : FlowGraph) : FlowGraph × Nat :=
  let regions := graph.regions
  let state := graph.order.foldl (foldOne regions (graph.writes regions)) ⟨graph, [], []⟩
  if state.folded.isEmpty then (state.graph, 0)
  else
    let replaced := substituteAll regions state.facts state.graph
    (state.folded.reverse.foldl splice replaced, state.folded.length)

end Quadruple.FlowGraph
