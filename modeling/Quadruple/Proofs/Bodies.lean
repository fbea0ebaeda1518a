import Quadruple.Proofs.Splicing
import Quadruple.Proofs.Temporaries

/-!
Bodies and their activations. A body is what control reaches from its entry without following calls.
The intermediate results of an activation matter only where its body may have written them, so a walk
through a graph may be compared with a walk through another one that computes fewer of them, activation
by activation.
-/

namespace Quadruple.FlowGraph

variable (graph : FlowGraph)

/-- Where a body starts: at the start of the program, or at the target of a live call. -/
def Entry (vertex : Nat) : Prop :=
  vertex = graph.root ∨ ∃ (index : Nat) (node : Node), graph.nodes[index]? = some node ∧
    node.live = true ∧ node.instruction.opcode = .call ∧ node.target = some vertex

def Body (entry : Nat) : Nat → Prop :=
  Leads graph.bodySuccessors entry

/-- A place to which some path of a body leads on which an intermediate result is not written. -/
inductive Unwritten (cell : Address) (entry : Nat) : Nat → Prop where
  | start : Unwritten cell entry entry
  | step {place next : Nat} {node : Node} (before : Unwritten cell entry place)
      (found : graph.nodes[place]? = some node) (silent : ¬ node.instruction.Writes cell)
      (leads : next ∈ graph.bodySuccessors place) : Unwritten cell entry next

/-- A place from which control comes to a call through nothing but the passing of arguments. -/
inductive Calling : Nat → Prop where
  | call {place : Nat} {node : Node} (found : graph.nodes[place]? = some node)
      (calls : node.instruction.opcode = .call) : Calling place
  | param {place next : Nat} {node : Node} (found : graph.nodes[place]? = some node)
      (passes : node.instruction.opcode = .param) (leads : node.next = some next)
      (rest : Calling next) : Calling place

def OpensForCalls : Prop :=
  ∀ (place : Nat) (node : Node), graph.nodes[place]? = some node → node.live = true →
    node.instruction.opcode = .openRecord → ∃ next, node.next = some next ∧ graph.Calling next

variable {graph} {place next entry : Nat} {node : Node} {cell : Address}

theorem mem_bodySuccessors (found : graph.nodes[place]? = some node) :
    next ∈ graph.bodySuccessors place ↔
      node.next = some next ∨ (node.instruction.opcode.isJump = true ∧ node.target = some next) := by
  unfold bodySuccessors
  rw [found]
  cases jumps : node.instruction.opcode.isJump with
  | true | false => simp [jumps]

theorem bodySuccessors_ofCode {code : Code} (accepted : ofCode code = .ok graph)
    (leads : next ∈ graph.bodySuccessors place) :
    ∃ instr, code[place]? = some instr ∧
      (fallsThrough instr.opcode = true ∧ next = place + 1 ∨
        instr.opcode.isJump = true ∧ next = instr.targetIndex) := by
  cases found : graph.nodes[place]? with
  | none =>
    simp only [bodySuccessors, found] at leads
    cases leads
  | some node =>
    obtain ⟨instr, here, represents⟩ := represents_ofCode accepted found
    refine ⟨instr, here, ?_⟩
    rcases (mem_bodySuccessors found).1 leads with falls | ⟨jumps, target⟩
    · rw [represents.next] at falls
      split at falls
      · rename_i through
        cases falls
        exact .inl ⟨through, rfl⟩
      · cases falls
    · rw [represents.same] at jumps
      have named := represents.target
      split at named
      · obtain ⟨index, names, _, same⟩ := named
        cases same.symm.trans target
        refine .inr ⟨jumps, ?_⟩
        rw [Instruction.targetIndex, names]
        rfl
      · rw [named] at target
        cases target

theorem Coherent.mem_successors_of_body (coherent : graph.Coherent)
    (found : graph.nodes[place]? = some node) (leads : next ∈ graph.bodySuccessors place) :
    next ∈ node.successors := by
  rw [(coherent.shaped place node found).mem_successors]
  exact ((mem_bodySuccessors found).1 leads).imp id And.right

theorem Coherent.stands_entry (coherent : graph.Coherent) (isEntry : graph.Entry entry) :
    graph.Stands entry := by
  rcases isEntry with rfl | ⟨index, node, found, live, _, target⟩
  · exact .inr coherent.live_root
  · exact coherent.closed index node found live entry
      (((coherent.shaped index node found).mem_successors entry).2 (.inr target))

theorem bodySuccessors_finish (graph : FlowGraph) : graph.bodySuccessors graph.finish = [] := by
  have outside : graph.nodes[graph.finish]? = none := Array.getElem?_eq_none_iff.2 (Nat.le_refl _)
  simp only [bodySuccessors, outside]

theorem Stands.live_of_body (stands : graph.Stands place) (leads : next ∈ graph.bodySuccessors place) :
    graph.Live place := by
  rcases stands with rfl | live
  · rw [graph.bodySuccessors_finish] at leads
    cases leads
  · exact live

theorem Coherent.stands_of_body (coherent : graph.Coherent) (stands : graph.Stands entry)
    (inBody : graph.Body entry place) : graph.Stands place := by
  induction inBody with
  | refl => exact stands
  | @tail before after _ leads ih =>
    obtain ⟨node, found, live⟩ := ih.live_of_body leads
    exact coherent.closed before node found live after (coherent.mem_successors_of_body found leads)

theorem Coherent.stands_body (coherent : graph.Coherent) (isEntry : graph.Entry entry)
    (inBody : graph.Body entry place) : graph.Stands place :=
  coherent.stands_of_body (coherent.stands_entry isEntry) inBody

theorem Calling.opcode (calling : graph.Calling place) (found : graph.nodes[place]? = some node) :
    node.instruction.opcode = .call ∨
      (node.instruction.opcode = .param ∧ ∃ next, node.next = some next ∧ graph.Calling next) := by
  cases calling with
  | call found' calls =>
    cases found.symm.trans found'
    exact .inl calls
  | param found' passes leads rest =>
    cases found.symm.trans found'
    exact .inr ⟨passes, _, leads, rest⟩

/-- What is not written at a place and may be unwritten before is written before. -/
theorem not_unwritten_of_next (found : graph.nodes[place]? = some node)
    (leads : next ∈ graph.bodySuccessors place) (written : ¬ graph.Unwritten cell entry next)
    (silent : ¬ node.instruction.Writes cell) : ¬ graph.Unwritten cell entry place :=
  fun unwritten => written (.step unwritten found silent leads)

/-! ### Activations in two graphs -/

abbrev Room := DataType → Option (Nat × Nat)

abbrev Knowledge := Nat → Address → Value → Prop

variable (graph) (room : Room) (known : Knowledge) (gone : Nat → Address → Prop)

/-- The intermediate results have their room, and what the body has written is as known. -/
structure Holds (entry place : Nat) (temps : Bank) : Prop where
  room : temps.room = room
  values : ∀ (cell : Address) (value : Value), cell.IsTemp → known entry cell value →
    ¬ graph.Unwritten cell entry place → temps.cell? cell = some value

/-- The intermediate results of an activation in two walks agree on what the body has written, apart
from what is gone. -/
structure Settled (entry place : Nat) (temps temps' : Bank) : Prop where
  holds : graph.Holds room known entry place temps
  room : temps'.room = room
  same : ∀ cell : Address, cell.IsTemp → ¬ gone entry cell → ¬ graph.Unwritten cell entry place →
    temps.cell? cell = temps'.cell? cell

/-- The saved records of the active calls, with the places to which these return. -/
inductive Saved (move : Nat → Nat) : List Frame → List Frame → List Nat → List Nat → Prop where
  | nil : Saved move [] [] [] []
  | cons {entry place : Nat} {frame frame' : Frame} {frames frames' : List Frame}
      {returns returns' : List Nat} (isEntry : graph.Entry entry) (inBody : graph.Body entry place)
      (locals : frame.locals = frame'.locals)
      (settled : graph.Settled room known gone entry place frame.temps frame'.temps)
      (rest : Saved move frames frames' returns returns') :
      Saved move (frame :: frames) (frame' :: frames') (place :: returns) (move place :: returns')

/-- The records of two walks: those of the active calls, and perhaps one that waits for its call and
holds what the running body has. -/
def Recorded (move : Nat → Nat) (point point' : Point) : Prop :=
  (point.workspace.openRecords = 0 ∧ graph.Saved room known gone move
    point.workspace.memory.frames point'.workspace.memory.frames point.returns point'.returns) ∨
  (point.workspace.openRecords = 1 ∧ graph.Calling point.position ∧ ∃ frames frames',
    point.workspace.memory.frames =
      ⟨point.workspace.memory.locals, point.workspace.memory.temps⟩ :: frames ∧
    point'.workspace.memory.frames =
      ⟨point'.workspace.memory.locals, point'.workspace.memory.temps⟩ :: frames' ∧
    graph.Saved room known gone move frames frames' point.returns point'.returns)

structure Matched (move : Nat → Nat) (point point' : Point) : Prop where
  position : point'.position = move point.position
  alike : point.workspace.Alike (fun _ => False) point'.workspace
  settled : ∃ entry, graph.Entry entry ∧ graph.Body entry point.position ∧
    graph.Settled room known gone entry point.position point.workspace.memory.temps
      point'.workspace.memory.temps
  recorded : graph.Recorded room known gone move point point'

/-- An instruction that both walks execute. -/
structure Kept (graph' : FlowGraph) (move : Nat → Nat) (entry place : Nat) (node : Node) : Prop where
  counterpart : ∃ node', graph'.nodes[move place]? = some node' ∧
    node'.next = node.next.map move ∧ node'.target = node.target.map move ∧
    node'.instruction.opcode = node.instruction.opcode ∧ node'.instruction.BaseAside ∧
    (∀ cell, node'.instruction.Writes cell ↔ node.instruction.Writes cell) ∧
    (∀ cell, node'.instruction.Reads cell →
      ¬ gone entry cell ∧ ¬ graph.Unwritten cell entry place) ∧
    ∀ (workspace : Workspace) (callers : Nat),
      graph.Holds room known entry place workspace.memory.temps →
      workspace.effect callers node.instruction = workspace.effect callers node'.instruction

/-- An instruction that only the first walk executes: it stores a value that nothing needs. -/
structure Dropped (move rank : Nat → Nat) (entry place : Nat) (node : Node) : Prop where
  stores : ∃ cell value next, node.next = some next ∧ node.instruction.Writes cell ∧
    gone entry cell ∧ move place = move next ∧ rank next < rank place ∧
    ∀ (workspace : Workspace) (callers : Nat),
      graph.Holds room known entry place workspace.memory.temps →
      ∃ memory, workspace.memory.store cell value = .ok memory ∧
        workspace.effect callers node.instruction = .flow .next { workspace with memory }

/-- A graph computes what another one computes, except for intermediate results that nothing
needs. -/
structure Transfer (graph' : FlowGraph) (move rank : Nat → Nat) : Prop where
  coherent : graph.Coherent
  opens : graph.OpensForCalls
  finish : move graph.finish = graph'.finish
  aside : ∀ (place : Nat) (node : Node), graph.nodes[place]? = some node → node.live = true →
    node.instruction.BaseAside
  nodes : ∀ (entry place : Nat) (node : Node), graph.Entry entry → graph.Body entry place →
    graph.nodes[place]? = some node → node.live = true →
    graph.Kept room known gone graph' move entry place node ∨
      graph.Dropped room known gone move rank entry place node
  learns : ∀ (entry place : Nat) (node : Node) (cell : Address) (value : Value),
    graph.Entry entry → graph.Body entry place → graph.nodes[place]? = some node →
    node.live = true → known entry cell value → node.instruction.Writes cell →
    ∀ (workspace result : Workspace) (callers : Nat),
      graph.Holds room known entry place workspace.memory.temps →
      workspace.effect callers node.instruction = .flow .next result →
      result.memory.temps.cell? cell = some value

/-! ### What is seen of two walks -/

variable {graph room known gone} {move : Nat → Nat} {point point' : Point}

theorem Saved.lengths {frames frames' : List Frame} {returns returns' : List Nat}
    (saved : graph.Saved room known gone move frames frames' returns returns') :
    frames.length = returns.length ∧ frames'.length = returns'.length ∧
      returns.length = returns'.length ∧
      frames.map Frame.locals = frames'.map Frame.locals := by
  induction saved with
  | nil => exact ⟨rfl, rfl, rfl, rfl⟩
  | cons _ _ locals _ _ ih =>
    obtain ⟨first, second, third, fourth⟩ := ih
    refine ⟨?_, ?_, ?_, ?_⟩
    · rw [List.length_cons, List.length_cons, first]
    · rw [List.length_cons, List.length_cons, second]
    · rw [List.length_cons, List.length_cons, third]
    · rw [List.map_cons, List.map_cons, locals, fourth]

section

variable (matched : graph.Matched room known gone move point point')
include matched

theorem Matched.returns : point.returns.length = point'.returns.length := by
  rcases matched.recorded with ⟨_, saved⟩ | ⟨_, _, frames, frames', _, _, saved⟩ <;>
    exact saved.lengths.2.2.1

theorem Matched.frames :
    point.workspace.memory.frames.map Frame.locals =
      point'.workspace.memory.frames.map Frame.locals := by
  rcases matched.recorded with ⟨_, saved⟩ | ⟨_, _, frames, frames', same, same', saved⟩
  · exact saved.lengths.2.2.2
  · rw [same, same', List.map_cons, List.map_cons, saved.lengths.2.2.2,
      matched.alike.memory.locals]

theorem Matched.depth : point.workspace.memory.depth = point'.workspace.memory.depth := by
  have lengths := congrArg List.length matched.frames
  rw [List.length_map, List.length_map] at lengths
  exact lengths

/-- No record is open where an instruction stands that neither passes an argument nor calls. -/
theorem Matched.saved (found : graph.nodes[point.position]? = some node)
    (notCall : node.instruction.opcode ≠ .call) (notParam : node.instruction.opcode ≠ .param) :
    point.workspace.openRecords = 0 ∧ graph.Saved room known gone move
      point.workspace.memory.frames point'.workspace.memory.frames point.returns
      point'.returns := by
  rcases matched.recorded with saved | ⟨_, calling, _⟩
  · exact saved
  · rcases calling.opcode found with calls | ⟨passes, _⟩
    · exact absurd calls notCall
    · exact absurd passes notParam

end

end Quadruple.FlowGraph

namespace Quadruple

/-- What a memory holds apart from the contents of intermediate results: the variables and objects,
the cursors of all areas, and the variables in the saved records. -/
structure Memory.Lasting where
  global : Bank
  locals : Bank
  stack : Bank
  temps : DataType → Option (Nat × Nat)
  saved : List Bank

def Memory.lasting (memory : Memory) : Memory.Lasting :=
  ⟨memory.global, memory.locals, memory.stack, memory.temps.room, memory.frames.map Frame.locals⟩

theorem Workspace.Alike.seen {cells : Address → Prop} {left left' : Workspace}
    (alike : left.Alike cells left') (ending : Ending)
    (frames : left.memory.frames.map Frame.locals = left'.memory.frames.map Frame.locals) :
    Machine.seen Memory.lasting (ending, left) = Machine.seen Memory.lasting (ending, left') := by
  simp only [Machine.seen, Memory.lasting, alike.console, alike.memory.global,
    alike.memory.locals, alike.memory.stack, alike.memory.room, frames]

end Quadruple
