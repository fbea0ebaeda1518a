import Quadruple.Proofs.Discipline

/-!
Constant folding. What is learned about intermediate results is true of every activation, so known
values may take their place; the instructions that computed them then store what nothing reads, and
can be taken out.
-/

namespace Quadruple

variable {instruction : Instruction}

theorem Instruction.Regular.substitute {memory : Memory}
    (regular : instruction.Regular memory) {facts : FlowGraph.Facts} (region : Option Nat)
    (values : ∀ slot value, facts.lookup slot = some value → value.type ≠ .object) :
    (facts.substitute region instruction).Regular memory := by
  have changed : ∀ operand ∈ (facts.substitute region instruction).operands,
      operand ∈ instruction.operands ∨
        ∃ slot value, facts.lookup slot = some value ∧ operand = .literal value := by
    have applied : ∀ operand ∈ instruction.operands, ∀ replaced : Prop, ∀ [Decidable replaced],
        (if replaced then facts.apply region operand else operand) ∈ instruction.operands ∨
          ∃ slot value, facts.lookup slot = some value ∧
            (if replaced then facts.apply region operand else operand) = .literal value := by
      intro operand among replaced _
      split
      · rcases facts.apply_cases region operand with same | ⟨_, value, _, _, known, same⟩
        · rw [same]
          exact .inl among
        · exact .inr ⟨_, value, known, same⟩
      · exact .inl among
    intro operand among
    rw [FlowGraph.Facts.substitute_eq] at among
    simp only [operands, List.mem_cons, List.not_mem_nil, or_false] at among
    rcases among with rfl | rfl | rfl
    · exact applied instruction.left (by simp [operands]) _
    · exact applied instruction.right (by simp [operands]) _
    · exact applied instruction.result (by simp [operands]) _
  refine ⟨?_, ?_, ?_, ?_, ?_⟩
  · intro address among
    rcases changed _ among with original | ⟨_, _, _, impossible⟩
    · exact regular.addresses address original
    · cases impossible
  · intro value among
    rcases changed _ among with original | ⟨slot, _, known, same⟩
    · exact regular.literals value original
    · cases same
      exact values slot value known
  · intro unary
    rw [FlowGraph.Facts.opcode_substitute] at unary
    rw [FlowGraph.Facts.substitute_eq]
    simp only [regular.unary unary, FlowGraph.Facts.apply, ite_self]
  · intro allocates
    rw [FlowGraph.Facts.opcode_substitute] at allocates
    rw [FlowGraph.Facts.substitute_eq]
    simp only [allocates]
    exact regular.sizes allocates
  · intro looks address same
    rw [FlowGraph.Facts.opcode_substitute] at looks
    refine regular.aside looks address ?_
    rw [FlowGraph.Facts.substitute_eq] at same
    rcases looks with loads | stores
    · simp only [loads] at same
      exact same
    · simp only [stores] at same
      exact same

namespace FlowGraph

variable {index vertex : Nat} {slot : Slot} {value : Value}

/-! ### Graphs in which known values have been put in -/

/-- A graph whose instructions have other operands, and that is the same otherwise. -/
structure Reworded (graph graph' : FlowGraph) : Prop where
  root : graph'.root = graph.root
  predecessors : graph'.predecessors = graph.predecessors
  size : graph'.nodes.size = graph.nodes.size
  nodes : ∀ (place : Nat) (node : Node), graph.nodes[place]? = some node → ∃ instruction,
    graph'.nodes[place]? = some { node with instruction } ∧
      instruction.opcode = node.instruction.opcode

namespace Reworded

variable {graph graph' : FlowGraph} {place : Nat} (reworded : graph.Reworded graph')
include reworded

theorem origin {node' : Node} (found' : graph'.nodes[place]? = some node') :
    ∃ node, graph.nodes[place]? = some node ∧ ∃ instruction, node' = { node with instruction } ∧
      instruction.opcode = node.instruction.opcode := by
  have inside : place < graph.nodes.size := by
    rw [← reworded.size]
    exact (Array.getElem?_eq_some_iff.1 found').1
  have found : graph.nodes[place]? = some graph.nodes[place] := Array.getElem?_eq_getElem inside
  obtain ⟨instruction, found'', opcode⟩ := reworded.nodes place _ found
  exact ⟨_, found, instruction, Option.some.inj (found'.symm.trans found''), opcode⟩

theorem successors : graph'.successors = graph.successors := by
  funext place
  cases found : graph.nodes[place]? with
  | none =>
    have outside : graph'.nodes[place]? = none := by
      rw [Array.getElem?_eq_none_iff, reworded.size]
      exact Array.getElem?_eq_none_iff.1 found
    simp only [FlowGraph.successors, successorsIn, found, outside]
  | some node =>
    obtain ⟨instruction, found', opcode⟩ := reworded.nodes place node found
    simp only [FlowGraph.successors, successorsIn, found, found', Node.successors, opcode]

theorem live_iff : graph'.Live place ↔ graph.Live place := by
  constructor
  · rintro ⟨node', found', live⟩
    obtain ⟨node, found, _, rfl, _⟩ := reworded.origin found'
    exact ⟨node, found, live⟩
  · rintro ⟨node, found, live⟩
    obtain ⟨_, found', _⟩ := reworded.nodes place node found
    exact ⟨_, found', live⟩

theorem coherent (coherent : graph.Coherent) : graph'.Coherent := by
  refine ⟨?_, ?_, ?_, ?_, ?_⟩
  · intro place node' found'
    obtain ⟨node, found, instruction, rfl, opcode⟩ := reworded.origin found'
    obtain ⟨next, target⟩ := coherent.shaped place node found
    exact ⟨by rw [opcode]; exact next, by rw [opcode]; exact target⟩
  · obtain ⟨start, found, live, isInit⟩ := coherent.root
    obtain ⟨instruction, found', opcode⟩ := reworded.nodes _ start found
    rw [reworded.root]
    exact ⟨_, found', live, opcode.trans isInit⟩
  · intro place node' found' live other leads
    obtain ⟨node, found, instruction, rfl, opcode⟩ := reworded.origin found'
    simp only [Node.successors, opcode] at leads
    rw [FlowGraph.finish, reworded.size, reworded.live_iff]
    exact coherent.closed place node found live other leads
  · intro place node' found' live other leads
    obtain ⟨node, found, instruction, rfl, opcode⟩ := reworded.origin found'
    simp only [Node.successors, opcode] at leads
    rw [reworded.predecessors]
    exact coherent.sources place node found live other leads
  · rw [reworded.predecessors, reworded.size]
    exact coherent.size

end Reworded

/-- A graph in which known values have taken the place of cells: all of them in live instructions, and
perhaps some in others. -/
structure Substituted (graph : FlowGraph) (facts : Facts) (graph' : FlowGraph) : Prop where
  root : graph'.root = graph.root
  predecessors : graph'.predecessors = graph.predecessors
  size : graph'.nodes.size = graph.nodes.size
  nodes : ∀ (place : Nat) (node : Node), graph.nodes[place]? = some node → ∃ part : Facts,
    graph'.nodes[place]? = some
      { node with instruction := part.substitute (regionOf graph.regions place) node.instruction } ∧
    (node.live = true → part.substitute (regionOf graph.regions place) node.instruction =
      facts.substitute (regionOf graph.regions place) node.instruction)

/-- What is known is computed by the instructions that write the cell. -/
structure Certified (graph : FlowGraph) (facts : Facts) : Prop where
  typed : ∀ slot value, facts.lookup slot = some value →
    value.type = slot.cell.type ∧ value.type ≠ .object
  computed : ∀ (entry place : Nat) (node : Node) (cell : Address) (value : Value),
    graph.Entry entry → graph.Body entry place → graph.nodes[place]? = some node →
    node.live = true → node.instruction.Writes cell →
    facts.lookup ⟨some entry, cell⟩ = some value →
    known? (facts.substitute (some entry) node.instruction) = some value

namespace Substituted

variable {graph graph' : FlowGraph} {facts : Facts} {entry place : Nat} {node : Node}
  {cell : Address} {memory : Memory}

section

variable (substituted : graph.Substituted facts graph')
include substituted

/-- Apart from instructions, which keep their opcodes and the cells that they write, nodes are the
same. -/
theorem kept (found : graph.nodes[place]? = some node) :
    ∃ instruction, graph'.nodes[place]? = some { node with instruction } ∧
      instruction.opcode = node.instruction.opcode ∧
      ∀ cell, instruction.Writes cell ↔ node.instruction.Writes cell := by
  obtain ⟨part, found', _⟩ := substituted.nodes place node found
  exact ⟨_, found', part.opcode_substitute _ _, part.writes_substitute _ _⟩

theorem reworded : graph.Reworded graph' := by
  refine ⟨substituted.root, substituted.predecessors, substituted.size, fun place node found => ?_⟩
  obtain ⟨instruction, found', opcode, _⟩ := substituted.kept found
  exact ⟨instruction, found', opcode⟩

theorem origin {node' : Node} (found' : graph'.nodes[place]? = some node') :
    ∃ node, graph.nodes[place]? = some node ∧
      ∃ instruction, node' = { node with instruction } ∧
        instruction.opcode = node.instruction.opcode ∧
        ∀ cell, instruction.Writes cell ↔ node.instruction.Writes cell := by
  obtain ⟨node, found, _⟩ := substituted.reworded.origin found'
  obtain ⟨instruction, found'', same⟩ := substituted.kept found
  exact ⟨node, found, instruction, Option.some.inj (found'.symm.trans found''), same⟩

theorem finish : graph'.finish = graph.finish :=
  substituted.size

theorem live_iff : graph'.Live place ↔ graph.Live place :=
  substituted.reworded.live_iff

theorem bodySuccessors_eq : graph'.bodySuccessors = graph.bodySuccessors := by
  funext place
  unfold bodySuccessors
  cases found : graph.nodes[place]? with
  | none =>
    have outside : graph'.nodes[place]? = none := by
      rw [Array.getElem?_eq_none_iff, substituted.size]
      exact Array.getElem?_eq_none_iff.1 found
    rw [outside]
  | some node =>
    obtain ⟨instruction, found', opcode, _⟩ := substituted.kept found
    simp only [found', opcode]

theorem entry_iff : graph'.Entry entry ↔ graph.Entry entry := by
  unfold Entry
  rw [substituted.root]
  refine or_congr_right ⟨?_, ?_⟩
  · rintro ⟨index, node', found', live, calls, target⟩
    obtain ⟨node, found, instruction, rfl, opcode, _⟩ := substituted.origin found'
    exact ⟨index, node, found, live, opcode ▸ calls, target⟩
  · rintro ⟨index, node, found, live, calls, target⟩
    obtain ⟨instruction, found', opcode, _⟩ := substituted.kept found
    exact ⟨index, _, found', live, opcode.trans calls, target⟩

theorem body_iff : graph'.Body entry place ↔ graph.Body entry place := by
  unfold Body
  rw [substituted.bodySuccessors_eq]

theorem unwritten (unwritten : graph'.Unwritten cell entry place) :
    graph.Unwritten cell entry place := by
  induction unwritten with
  | start => exact .start
  | step _ found' silent leads ih =>
    obtain ⟨node, found, instruction, rfl, _, writes⟩ := substituted.origin found'
    rw [substituted.bodySuccessors_eq] at leads
    exact .step ih found (fun written => silent ((writes _).2 written)) leads

theorem calling (calling : graph.Calling place) : graph'.Calling place := by
  induction calling with
  | call found calls =>
    obtain ⟨instruction, found', opcode, _⟩ := substituted.kept found
    exact .call found' (opcode.trans calls)
  | param found passes leads _ ih =>
    obtain ⟨instruction, found', opcode, _⟩ := substituted.kept found
    exact .param found' (opcode.trans passes) leads ih

theorem coherent (coherent : graph.Coherent) : graph'.Coherent :=
  substituted.reworded.coherent coherent

theorem live_node (sound : graph.Sound memory) (isEntry : graph.Entry entry)
    (inBody : graph.Body entry place) (found : graph.nodes[place]? = some node)
    (live : node.live = true) :
    graph'.nodes[place]? = some
      { node with instruction := facts.substitute (some entry) node.instruction } := by
  obtain ⟨part, found', same⟩ := substituted.nodes place node found
  rw [found', same live,
    sound.coherent.regionOf_regions sound.disciplined.apart isEntry inBody ⟨node, found, live⟩]

theorem sound (sound : graph.Sound memory) (certified : graph.Certified facts) :
    graph'.Sound memory := by
  refine ⟨substituted.coherent sound.coherent, ?_, ?_, ?_, ?_, ?_⟩
  · intro place node' found' live next leads
    obtain ⟨node, found, instruction, rfl, _⟩ := substituted.origin found'
    exact sound.rising place node found live next leads
  · intro entry entry' place isEntry isEntry' live inBody inBody'
    exact sound.disciplined.apart entry entry' place (substituted.entry_iff.1 isEntry)
      (substituted.entry_iff.1 isEntry') (substituted.live_iff.1 live)
      (substituted.body_iff.1 inBody) (substituted.body_iff.1 inBody')
  · intro entry place node' cell isEntry inBody found' live reads unwritten
    rw [substituted.entry_iff] at isEntry
    rw [substituted.body_iff] at inBody
    obtain ⟨node, found, instruction, rfl, _⟩ := substituted.origin found'
    cases found'.symm.trans (substituted.live_node sound isEntry inBody found live)
    exact sound.disciplined.writesFirst entry place node cell isEntry inBody found live
      (Facts.reads_of_substitute reads).1 (substituted.unwritten unwritten)
  · intro place node' found' live opening
    obtain ⟨node, found, instruction, rfl, opcode, _⟩ := substituted.origin found'
    obtain ⟨next, leads, calling⟩ :=
      sound.disciplined.opens place node found live (opcode ▸ opening)
    exact ⟨next, leads, substituted.calling calling⟩
  · intro place node' found' live
    obtain ⟨node, found, _⟩ := substituted.origin found'
    obtain ⟨part, found'', same⟩ := substituted.nodes place node found
    cases found'.symm.trans found''
    rw [same live]
    exact (sound.disciplined.regular place node found live).substitute _
      fun slot value known => (certified.typed slot value known).2

end

/-- What is known holds for an instruction, by what its body has written. -/
theorem holdFor (sound : graph.Sound memory) (certified : graph.Certified facts)
    (isEntry : graph.Entry entry) (inBody : graph.Body entry place)
    (found : graph.nodes[place]? = some node) (live : node.live = true) {temps : Bank}
    (holds : graph.Holds memory.temps.room
      (fun entry cell value => facts.lookup ⟨some entry, cell⟩ = some value) entry place temps) :
    facts.HoldFor (some entry) node.instruction temps := by
  intro cell value reads known
  exact ⟨holds.values cell value reads.1 known
    (sound.disciplined.writesFirst entry place node cell isEntry inBody found live reads),
    (certified.typed _ _ known).1⟩

theorem transfer (substituted : graph.Substituted facts graph') (sound : graph.Sound memory)
    (certified : graph.Certified facts) :
    graph.Transfer memory.temps.room
      (fun entry cell value => facts.lookup ⟨some entry, cell⟩ = some value) (fun _ _ => False)
      graph' (fun place => place) (fun _ => 0) := by
  refine ⟨sound.coherent, sound.disciplined.opens, substituted.finish.symm, ?_, ?_, ?_⟩
  · exact fun place node found live => (sound.disciplined.regular place node found live).aside
  · intro entry place node isEntry inBody found live
    have found' := substituted.live_node sound isEntry inBody found live
    refine .inl ⟨_, found', ?_, ?_, facts.opcode_substitute _ _, ?_,
      facts.writes_substitute _ _, ?_, ?_⟩
    · exact Option.map_id'.symm
    · exact Option.map_id'.symm
    · exact ((substituted.sound sound certified).disciplined.regular place _ found' live).aside
    · intro cell reads
      exact ⟨id, sound.disciplined.writesFirst entry place node cell isEntry inBody found live
        (Facts.reads_of_substitute reads).1⟩
    · intro workspace callers holds
      exact (Facts.effect_substitute callers
        (holdFor sound certified isEntry inBody found live holds)).symm
  · intro entry place node cell value isEntry inBody found live known writes workspace result
      callers holds flows
    have regular := sound.disciplined.regular place node found live
    have computed :=
      certified.computed entry place node cell value isEntry inBody found live writes known
    have has : memory.Has cell := by
      obtain ⟨_, _, address, same, rfl⟩ := writes
      exact regular.addresses address (by simp [Instruction.operands, same])
    obtain ⟨after, stored⟩ := Memory.store_of_has has writes.1.1 holds.room value
    rw [← Facts.effect_substitute callers (holdFor sound certified isEntry inBody found live holds),
      effect_known callers computed
        ((facts.written?_substitute _ _).trans (written?_of_writes writes))
        (certified.typed _ _ known).1
        (regular.substitute _ fun slot value known => (certified.typed slot value known).2).unary
        stored] at flows
    cases flows
    rw [(Memory.store_temp writes.1 stored).2 cell writes.1, if_pos rfl]

theorem alikeWalks (substituted : graph.Substituted facts graph') (sound : graph.Sound memory)
    (certified : graph.Certified facts) : AlikeWalks memory graph graph' :=
  fun _ fresh => (substituted.transfer sound certified).agree substituted.root fresh.sized
    fresh.closed fresh.noFrames

end Substituted

/-! ### What the pass learns -/

section

variable {graph : FlowGraph} {memory : Memory}

theorem Coherent.nodup_order (coherent : graph.Coherent) : graph.order.Nodup :=
  (nodup_explore _ _ (sound_unmarked coherent.live_root.lt)).1.filter _

theorem successors_of_node {node : Node} (found : graph.nodes[index]? = some node) :
    graph.successors index = node.successors := by
  simp only [successors, successorsIn, found]

theorem successors_of_finish (graph : FlowGraph) : graph.successors graph.finish = [] := by
  have outside : graph.nodes[graph.finish]? = none := Array.getElem?_eq_none_iff.2 (Nat.le_refl _)
  simp only [successors, successorsIn, outside]

theorem Stands.live_of_leads {other : Nat} (stands : graph.Stands vertex)
    (leads : other ∈ graph.successors vertex) : graph.Live vertex := by
  rcases stands with rfl | live
  · rw [graph.successors_of_finish] at leads
    cases leads
  · exact live

theorem Coherent.stands_of_leads (coherent : graph.Coherent)
    (leads : Leads graph.successors graph.root vertex) : graph.Stands vertex := by
  induction leads with
  | refl => exact .inr coherent.live_root
  | @tail before after _ led ih =>
    obtain ⟨node, found, live⟩ := ih.live_of_leads led
    rw [successors_of_node found] at led
    exact coherent.closed before node found live after led

theorem Coherent.live_of_mem_order (coherent : graph.Coherent) {place : Nat}
    (listed : place ∈ graph.order) : graph.Live place := by
  rw [order, reachableFrom, List.mem_filter, decide_eq_true_eq] at listed
  obtain ⟨visited, notEnd⟩ := listed
  obtain ⟨start, onStack, leads⟩ := leads_of_explored _ _ visited
  rw [List.mem_singleton.1 onStack] at leads
  exact (coherent.stands_of_leads leads).resolve_left notEnd

def WritesSlot (graph : FlowGraph) (index : Nat) (slot : Slot) : Prop :=
  ∃ node, graph.nodes[index]? = some node ∧ node.live = true ∧
    slot.region = regionOf graph.regions index ∧ written? node.instruction = some slot.cell

def writers (graph : FlowGraph) (slot : Slot) : List Nat :=
  graph.liveIndices.filter fun index =>
    ((graph.nodes[index]?).bind fun node => (written? node.instruction).map fun cell =>
      (⟨regionOf graph.regions index, cell⟩ : Slot)) == some slot

theorem mem_writers : index ∈ graph.writers slot ↔ graph.WritesSlot index slot := by
  rw [writers, List.mem_filter, mem_liveIndices, beq_iff_eq, Option.bind_eq_some_iff]
  constructor
  · rintro ⟨⟨node, found, live⟩, node', found', writes⟩
    cases found.symm.trans found'
    obtain ⟨cell, written, rfl⟩ := Option.map_eq_some_iff.1 writes
    exact ⟨node, found, live, rfl, written⟩
  · rintro ⟨node, found, live, region, written⟩
    refine ⟨⟨node, found, live⟩, node, found, ?_⟩
    rw [written, Option.map_some, ← region]

theorem count_writes (graph : FlowGraph) (slot : Slot) :
    (graph.writes graph.regions).count slot = (graph.writers slot).length := by
  rw [FlowGraph.writes, List.count_filterMap, List.countP_eq_length_filter]
  rfl

theorem WritesSlot.unique {index' : Nat} (once : (graph.writes graph.regions).count slot = 1)
    (writes : graph.WritesSlot index slot) (writes' : graph.WritesSlot index' slot) : index = index' := by
  rw [count_writes, List.length_eq_one_iff] at once
  obtain ⟨writer, only⟩ := once
  rw [← mem_writers, only, List.mem_singleton] at writes writes'
  rw [writes, writes']

/-- The instruction that computes what is known of a cell. -/
structure Computes (graph : FlowGraph) (facts : Facts) (index : Nat) (slot : Slot) (value : Value) :
    Prop where
  writes : graph.WritesSlot index slot
  once : (graph.writes graph.regions).count slot = 1
  inTemps : slot.cell.area = .temps
  typed : value.type = slot.cell.type
  known : ∀ node : Node, graph.nodes[index]? = some node →
    known? (facts.substitute slot.region node.instruction) = some value

theorem Computes.mono {facts more : Facts} (computes : graph.Computes facts index slot value)
    (within : facts.Within more) : graph.Computes more index slot value := by
  refine { computes with known := fun node found => ?_ }
  rw [← Facts.substitute_substitute within]
  exact known?_substitute more _ (computes.known node found)

/-- What has been learned when some instructions have been looked at. -/
structure Learned (graph : FlowGraph) (done : List Nat) (state : Folding) : Prop where
  root : state.graph.root = graph.root
  predecessors : state.graph.predecessors = graph.predecessors
  size : state.graph.nodes.size = graph.nodes.size
  nodes : ∀ (place : Nat) (node : Node), graph.nodes[place]? = some node → ∃ part : Facts,
    part.Within state.facts ∧ state.graph.nodes[place]? = some
      { node with instruction := part.substitute (regionOf graph.regions place) node.instruction }
  rest : ∀ place, place ∉ done → state.graph.nodes[place]? = graph.nodes[place]?
  facts : ∀ slot value, state.facts.lookup slot = some value →
    ∃ index ∈ state.folded, graph.Computes state.facts index slot value
  folded : ∀ index ∈ state.folded, index ∈ done ∧ ∃ slot value,
    state.facts.lookup slot = some value ∧ graph.Computes state.facts index slot value
  nodup : state.folded.Nodup

namespace Learned

variable {done : List Nat} {state : Folding} {index : Nat} {node : Node} {more : Facts} {slot : Slot}

theorem start (graph : FlowGraph) : graph.Learned [] ⟨graph, [], []⟩ :=
  { root := rfl
    predecessors := rfl
    size := rfl
    nodes := fun place node found => ⟨[], fun _ _ known => (nomatch known),
      by rw [Facts.substitute_of_none fun _ => rfl]; exact found⟩
    rest := fun _ _ => rfl
    facts := fun _ _ known => (nomatch known)
    folded := nofun
    nodup := List.nodup_nil }

def putIn (state : Folding) (index : Nat) (instruction : Instruction) : FlowGraph :=
  { state.graph with
    nodes := state.graph.nodes.modify index fun node => { node with instruction } }

section

variable (learned : graph.Learned done state)
include learned

/-- Putting known values into one more instruction, while learning more or not. -/
theorem putIn_nodes (within : state.facts.Within more) (found : graph.nodes[index]? = some node)
    (fresh : index ∉ done) (place : Nat) (other : Node) (here : graph.nodes[place]? = some other) :
    ∃ part : Facts, part.Within more ∧
      (putIn state index (state.facts.substitute (regionOf graph.regions index)
        node.instruction)).nodes[place]? = some
      { other with
        instruction := part.substitute (regionOf graph.regions place) other.instruction } := by
  unfold putIn
  rw [Array.getElem?_modify]
  by_cases same : index = place
  · subst same
    cases found.symm.trans here
    rw [if_pos rfl, learned.rest index fresh, found]
    exact ⟨state.facts, within, rfl⟩
  · rw [if_neg same]
    obtain ⟨part, among, here'⟩ := learned.nodes place other here
    exact ⟨part, fun slot value known => within slot value (among slot value known), here'⟩

theorem putIn_rest (instruction : Instruction) (place : Nat) (aside : place ∉ index :: done) :
    (putIn state index instruction).nodes[place]? = graph.nodes[place]? := by
  obtain ⟨different, fresh⟩ := not_or.1 fun among => aside (List.mem_cons.2 among)
  unfold putIn
  rw [Array.getElem?_modify, if_neg fun same => different same.symm]
  exact learned.rest place fresh

theorem keep (found : graph.nodes[index]? = some node) (fresh : index ∉ done)
    (same : ∀ slot, more.lookup slot = state.facts.lookup slot) :
    graph.Learned (index :: done) ⟨putIn state index (state.facts.substitute
      (regionOf graph.regions index) node.instruction), more, state.folded⟩ := by
  have within : state.facts.Within more := fun slot value known => (same slot).trans known
  refine ⟨learned.root, learned.predecessors, ?_, learned.putIn_nodes within found fresh,
    learned.putIn_rest _, ?_, ?_, learned.nodup⟩
  · exact Array.size_modify.trans learned.size
  · intro slot value known
    obtain ⟨writer, listed, computes⟩ := learned.facts slot value ((same slot).symm.trans known)
    exact ⟨writer, listed, computes.mono within⟩
  · intro writer listed
    obtain ⟨before, slot, value, known, computes⟩ := learned.folded writer listed
    exact ⟨List.mem_cons_of_mem _ before, slot, value, within slot value known,
      computes.mono within⟩

theorem unknown (fresh : index ∉ done) (writes : graph.WritesSlot index slot) :
    state.facts.lookup slot = none := by
  refine Option.eq_none_iff_forall_ne_some.2 fun value known => ?_
  obtain ⟨writer, listed, computes⟩ := learned.facts slot value known
  have before := (learned.folded writer listed).1
  rw [computes.writes.unique computes.once writes] at before
  exact fresh before

theorem learn (found : graph.nodes[index]? = some node) (fresh : index ∉ done) {value : Value}
    (computes : graph.Computes state.facts index slot value) :
    graph.Learned (index :: done) ⟨putIn state index (state.facts.substitute
      (regionOf graph.regions index) node.instruction), state.facts.learn slot value,
      index :: state.folded⟩ := by
  have unknown := learned.unknown fresh computes.writes
  have within : state.facts.Within (state.facts.learn slot value) := by
    intro other known held
    rw [Facts.lookup_learn]
    by_cases same : other = slot
    · rw [same, unknown] at held
      cases held
    · rw [if_neg same]
      exact held
  refine ⟨learned.root, learned.predecessors, ?_, learned.putIn_nodes within found fresh,
    learned.putIn_rest _, ?_, ?_, ?_⟩
  · exact Array.size_modify.trans learned.size
  · intro other held known
    rw [Facts.lookup_learn] at known
    by_cases same : other = slot
    · rw [if_pos same] at known
      cases known
      rw [same]
      exact ⟨index, List.mem_cons_self, computes.mono within⟩
    · rw [if_neg same] at known
      obtain ⟨writer, listed, computes⟩ := learned.facts other held known
      exact ⟨writer, List.mem_cons_of_mem _ listed, computes.mono within⟩
  · intro writer listed
    rcases List.mem_cons.1 listed with rfl | earlier
    · exact ⟨List.mem_cons_self, slot, value, by rw [Facts.lookup_learn, if_pos rfl],
        computes.mono within⟩
    · obtain ⟨before, other, held, known, computes⟩ := learned.folded writer earlier
      exact ⟨List.mem_cons_of_mem _ before, other, held, within other held known,
        computes.mono within⟩
  · exact List.nodup_cons.2
      ⟨fun earlier => fresh (learned.folded index earlier).1, learned.nodup⟩

theorem step (live : graph.Live index) (fresh : index ∉ done) :
    graph.Learned (index :: done)
      (foldOne graph.regions (graph.writes graph.regions) state index) := by
  obtain ⟨node, found, live⟩ := live
  have here : state.graph.nodes[index]? = some node := (learned.rest index fresh).trans found
  have same : ∀ slot, state.facts.lookup slot = state.facts.lookup slot := fun _ => rfl
  unfold foldOne
  simp only [here]
  cases written : written? (state.facts.substitute (regionOf graph.regions index)
      node.instruction) with
  | none => exact learned.keep found fresh same
  | some cell =>
    simp only
    by_cases inTemps : cell.area = .temps
    · have writes : graph.WritesSlot index ⟨regionOf graph.regions index, cell⟩ :=
        ⟨node, found, live, rfl, (Facts.written?_substitute _ _ _).symm.trans written⟩
      have forgotten : ∀ slot, (state.facts.forget ⟨regionOf graph.regions index, cell⟩).lookup slot =
          state.facts.lookup slot := by
        intro slot
        rw [Facts.lookup_forget]
        split
        · rename_i isSlot
          rw [isSlot, learned.unknown fresh writes]
        · rfl
      rw [if_neg (not_not_intro inTemps)]
      cases known : known? (state.facts.substitute (regionOf graph.regions index)
          node.instruction) with
      | none => exact learned.keep found fresh forgotten
      | some value =>
        simp only
        split
        · rename_i conditions
          simp only [Bool.and_eq_true, decide_eq_true_eq] at conditions
          obtain ⟨⟨once, typed⟩, _⟩ := conditions
          refine learned.learn found fresh ⟨writes, once, inTemps, typed, ?_⟩
          intro node' found'
          cases found.symm.trans found'
          exact known
        · exact learned.keep found fresh forgotten
    · rw [if_pos inTemps]
      exact learned.keep found fresh same

theorem run (indices : List Nat) (live : ∀ index ∈ indices, graph.Live index)
    (nodup : (indices.reverse ++ done).Nodup) :
    graph.Learned (indices.reverse ++ done)
      (indices.foldl (foldOne graph.regions (graph.writes graph.regions)) state) := by
  induction indices generalizing done state with
  | nil => exact learned
  | cons first rest ih =>
    rw [List.reverse_cons, List.append_assoc, List.singleton_append] at nodup ⊢
    have fresh : first ∉ done := (List.nodup_cons.1 nodup.of_append_right).1
    exact ih (learned.step (live first List.mem_cons_self) fresh)
      (fun index later => live index (List.mem_cons_of_mem _ later)) nodup

end

end Learned

/-! ### The pass -/

section

variable {done : List Nat} {state : Folding}

theorem type_of_known (facts : Facts) (region : Option Nat) (regular : instruction.Regular memory)
    (known : known? (facts.substitute region instruction) = some value) :
    value.type ≠ .object := by
  rcases known?_eq_some known with ⟨loads, literal⟩ | ⟨_, right, _, computed⟩
  · rw [Facts.opcode_substitute] at loads
    rw [Facts.substitute_eq] at literal
    simp only [loads] at literal
    exact regular.literals value (by simp [Instruction.operands, ← literal, replacesLeft, Opcode.isPure])
  · rcases computed with ⟨left, _, computed⟩ | ⟨_, computed⟩ <;> exact Opcode.type_of_eval computed

/-- Puts known values into some instructions. -/
def substituteIn (regions : Array (Option Nat)) (facts : Facts) (graph : FlowGraph) (indices : List Nat) :
    FlowGraph :=
  { graph with nodes := indices.foldl (fun table index => table.modify index fun node =>
      { node with instruction := facts.substitute (regionOf regions index) node.instruction }) graph.nodes }

section

variable (regions : Array (Option Nat)) (facts : Facts) (graph) (indices : List Nat)

theorem getElem?_substituteIn (place : Nat) : (substituteIn regions facts graph indices).nodes[place]? =
    (graph.nodes[place]?).map fun node => if place ∈ indices then
      { node with instruction := facts.substitute (regionOf regions place) node.instruction }
      else node := by
  refine getElem?_foldl_modify (fun index (node : Node) => { node with
    instruction := facts.substitute (regionOf regions index) node.instruction }) ?_ _ _ place
  intro index node
  simp only [Facts.substitute_substitute (fun _ _ known => known)]

theorem reworded_substituteIn : graph.Reworded (substituteIn regions facts graph indices) := by
  refine ⟨rfl, rfl, size_foldl_modify (fun index (node : Node) => { node with
    instruction := facts.substitute (regionOf regions index) node.instruction }) _ _, ?_⟩
  intro place node found
  rw [getElem?_substituteIn, found, Option.map_some]
  split
  · exact ⟨_, rfl, facts.opcode_substitute _ _⟩
  · exact ⟨_, rfl, rfl⟩

end

section

variable (learned : graph.Learned done state)
include learned

theorem Learned.certified (sound : graph.Sound memory) : graph.Certified state.facts := by
  refine ⟨?_, ?_⟩
  · intro slot value known
    obtain ⟨index, _, computes⟩ := learned.facts slot value known
    obtain ⟨node, found, live, _⟩ := computes.writes
    exact ⟨computes.typed, type_of_known _ _ (sound.disciplined.regular index node found live)
      (computes.known node found)⟩
  · intro entry place node cell value isEntry inBody found live writes known
    obtain ⟨index, _, computes⟩ := learned.facts _ value known
    have region := sound.coherent.regionOf_regions sound.disciplined.apart isEntry inBody
      ⟨node, found, live⟩
    have same : place = index := WritesSlot.unique computes.once
      ⟨node, found, live, region.symm, written?_of_writes writes⟩ computes.writes
    subst same
    exact computes.known node found

theorem Learned.substituted_of_empty (nothing : state.folded = []) :
    graph.Substituted state.facts state.graph := by
  have empty : ∀ slot, state.facts.lookup slot = none := by
    refine fun slot => Option.eq_none_iff_forall_ne_some.2 fun value known => ?_
    obtain ⟨index, listed, _⟩ := learned.facts slot value known
    rw [nothing] at listed
    cases listed
  refine ⟨learned.root, learned.predecessors, learned.size, fun place node found => ?_⟩
  obtain ⟨part, within, found'⟩ := learned.nodes place node found
  refine ⟨part, found', fun _ => ?_⟩
  have none : ∀ slot, part.lookup slot = none := by
    refine fun slot => Option.eq_none_iff_forall_ne_some.2 fun value known => ?_
    cases (empty slot).symm.trans (within slot value known)
  rw [Facts.substitute_of_none none, Facts.substitute_of_none empty]

theorem Learned.substituted :
    graph.Substituted state.facts (substituteAll graph.regions state.facts state.graph) := by
  refine ⟨learned.root, learned.predecessors, ?_, ?_⟩
  · exact (reworded_substituteIn ..).size.trans learned.size
  · intro place node found
    obtain ⟨part, within, found'⟩ := learned.nodes place node found
    rw [substituteAll, ← substituteIn, getElem?_substituteIn, found', Option.map_some]
    by_cases live : place ∈ state.graph.liveIndices
    · refine ⟨state.facts, ?_, fun _ => rfl⟩
      rw [if_pos live]
      simp only [Facts.substitute_substitute within]
    · refine ⟨part, by rw [if_neg live], fun alive => ?_⟩
      exact absurd (mem_liveIndices.2 ⟨_, found', alive⟩) live

/-- What has been folded stores values that nothing reads any more. -/
theorem Learned.spare (sound : graph.Sound memory) {graph' : FlowGraph}
    (substituted : graph.Substituted state.facts graph') (listed : index ∈ state.folded) :
    ∃ cell value node, graph'.Spare index cell value node := by
  obtain ⟨_, slot, value, known, computes⟩ := learned.folded index listed
  obtain ⟨node, found, live, region, written⟩ := computes.writes
  obtain ⟨part, found', same⟩ := substituted.nodes index node found
  rw [same live, ← region] at found'
  refine ⟨slot.cell, value, _, found', live, computes.known node found,
    (Facts.written?_substitute _ _ _).trans written, computes.inTemps, computes.typed, ?_⟩
  intro entry place other isEntry within inBody here alive reads
  rw [substituted.entry_iff] at isEntry
  rw [substituted.body_iff] at within inBody
  obtain ⟨original, here', _⟩ := substituted.origin here
  have alive' : original.live = true := by
    obtain ⟨node', found'', live'⟩ := substituted.live_iff.1 ⟨other, here, alive⟩
    cases here'.symm.trans found''
    exact live'
  cases here.symm.trans (substituted.live_node sound isEntry inBody here' alive')
  have ofBody : slot.region = some entry := region.trans
    (sound.coherent.regionOf_regions sound.disciplined.apart isEntry within ⟨node, found, live⟩)
  have regular := sound.disciplined.regular place original here' alive'
  rcases (Facts.reads_of_substitute reads).2 with unknown | ⟨looks, address, left, plain⟩
  · rw [← ofBody, known] at unknown
    cases unknown
  · -- only the base of an element is looked through, and it would have to hold an object
    have notObject := ((learned.certified sound).typed slot value known).2
    have isObject : address.area ≠ .temps ∨ address.type = .object := by
      cases named : original.instruction.opcode with
      | malloc =>
        obtain ⟨size, literal⟩ := regular.sizes named
        rw [left] at literal
        cases literal
      | loadElement => exact regular.aside (.inl named) address left
      | storeElement => exact regular.aside (.inr named) address left
      | _ =>
        rw [named] at looks
        cases looks
    rw [computes.typed, ← plain] at notObject
    have inTemps := computes.inTemps
    rw [← plain] at inTemps
    exact isObject.elim (fun elsewhere => elsewhere inTemps) notObject

end

theorem Coherent.learned (coherent : graph.Coherent) :
    graph.Learned (graph.order.reverse ++ [])
      (graph.order.foldl (foldOne graph.regions (graph.writes graph.regions)) ⟨graph, [], []⟩) := by
  refine (Learned.start graph).run graph.order
    (fun index listed => coherent.live_of_mem_order listed) ?_
  rw [List.append_nil, List.nodup_reverse]
  exact coherent.nodup_order

theorem reworded_foldOne (regions : Array (Option Nat)) (writes : List Slot) (state : Folding) (index : Nat) :
    state.graph.Reworded (foldOne regions writes state index).graph ∧
      (foldOne regions writes state index).graph.liveCount = state.graph.liveCount := by
  unfold foldOne
  cases found : state.graph.nodes[index]? with
  | none => exact ⟨⟨rfl, rfl, rfl, fun _ node here => ⟨node.instruction, here, rfl⟩⟩, rfl⟩
  | some node =>
    have put : state.graph.Reworded { state.graph with
        nodes := state.graph.nodes.modify index fun other => { other with
          instruction := state.facts.substitute (regionOf regions index) node.instruction } } := by
      refine ⟨rfl, rfl, Array.size_modify, fun place other here => ?_⟩
      rw [Array.getElem?_modify, here]
      by_cases same : index = place
      · subst same
        cases found.symm.trans here
        exact ⟨_, by rw [if_pos rfl]; rfl, Facts.opcode_substitute _ _ _⟩
      · exact ⟨other.instruction, by rw [if_neg same], rfl⟩
    simp only
    (repeat' split) <;> exact ⟨put, rfl⟩

theorem liveCount_foldAll (graph : FlowGraph) :
    (graph.order.foldl (foldOne graph.regions (graph.writes graph.regions))
      ⟨graph, [], []⟩).graph.liveCount = graph.liveCount :=
  List.foldlRecOn (motive := fun state : Folding => state.graph.liveCount = graph.liveCount) _ _ rfl
    fun state same index _ => (reworded_foldOne _ _ state index).2.trans same

/-- The pass puts known values in and takes out what computes them. -/
theorem Coherent.foldConstants_eq (coherent : graph.Coherent) :
    ∃ state graph', graph.Learned (graph.order.reverse ++ []) state ∧
      graph.Substituted state.facts graph' ∧ graph'.liveCount = graph.liveCount ∧
      graph.foldConstants = (state.folded.reverse.foldl FlowGraph.splice graph', state.folded.length) := by
  have learned := coherent.learned
  have count := graph.liveCount_foldAll
  unfold FlowGraph.foldConstants
  simp only
  split
  · rename_i nothing
    have none_ := List.isEmpty_iff.1 nothing
    exact ⟨_, _, learned, learned.substituted_of_empty none_, count, by rw [none_]; rfl⟩
  · exact ⟨_, _, learned, learned.substituted, count, rfl⟩

/-- Constant folding keeps a graph sound and changes nothing but intermediate results. -/
theorem Sound.foldConstants (sound : graph.Sound memory) :
    graph.foldConstants.1.Sound memory ∧ AlikeWalks memory graph graph.foldConstants.1 := by
  obtain ⟨_, _, learned, substituted, _, folded⟩ := sound.coherent.foldConstants_eq
  have certified := learned.certified sound
  obtain ⟨final, alike⟩ := (substituted.sound sound certified).spliceAll _
    (List.nodup_reverse.2 learned.nodup) fun index listed =>
      learned.spare sound substituted (List.mem_reverse.1 listed)
  rw [folded]
  exact ⟨final, fun workspace fresh =>
    (substituted.alikeWalks sound certified workspace fresh).trans (alike workspace fresh)⟩

end

end

end FlowGraph

end Quadruple
