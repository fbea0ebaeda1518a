import Quadruple.Proofs.Cells
import Quadruple.Proofs.Constants
import Quadruple.Proofs.Regions
import Quadruple.Proofs.Transfer

/-!
Disciplined programs: bodies share no instruction, an intermediate result is written before it is
read, and records are opened for calls only. Taking instructions out keeps a program disciplined, and
storing a known value that no instruction of the body reads can be taken out.
-/

namespace Quadruple

theorem Memory.store_of_has {memory memory' : Memory} {cell : Address} (has : memory.Has cell)
    (isTemp : cell.area = .temps) (sized : memory'.temps.room = memory.temps.room) (value : Value) :
    ∃ after, memory'.store cell value = .ok after := by
  obtain ⟨arena, found, inside⟩ := has
  rw [isTemp] at found
  have room : memory'.temps.room cell.type = some arena.room := by
    rw [sized]
    exact congrArg (Option.map Arena.room) found
  obtain ⟨arena', found', same⟩ := Option.map_eq_some_iff.1 room
  have capacity : arena'.capacity = arena.capacity := congrArg Prod.fst same
  refine ⟨_, Memory.store_eq_ok.2 ⟨arena', ?_, ?_, rfl⟩⟩
  · rw [isTemp]
    exact found'
  · rw [capacity]
    exact inside

namespace Instruction

def operands (instr : Instruction) : List Operand :=
  [instr.left, instr.right, instr.result]

/-- The shape of the instructions of compiled programs, for a memory that has their cells. -/
structure Regular (memory : Memory) (instr : Instruction) : Prop where
  addresses : ∀ address : Address, .address address ∈ instr.operands → memory.Has address
  literals : ∀ value : Value, .literal value ∈ instr.operands → value.type ≠ .object
  unary : instr.opcode.arity = 1 → instr.left = .none
  sizes : instr.opcode = .malloc → ∃ size, instr.left = .literal size
  aside : instr.BaseAside

end Instruction

namespace FlowGraph

/-- On every path inside a body to an instruction that reads an intermediate result, that result is
written before. -/
def WritesFirst (graph : FlowGraph) : Prop :=
  ∀ (entry place : Nat) (node : Node) (cell : Address), graph.Entry entry →
    graph.Body entry place → graph.nodes[place]? = some node → node.live = true →
    node.instruction.Reads cell → ¬ graph.Unwritten cell entry place

structure Disciplined (graph : FlowGraph) (memory : Memory) : Prop where
  apart : graph.BodiesApart
  writesFirst : graph.WritesFirst
  opens : graph.OpensForCalls
  regular : ∀ (place : Nat) (node : Node), graph.nodes[place]? = some node → node.live = true →
    node.instruction.Regular memory

def Rising (graph : FlowGraph) : Prop :=
  ∀ (place : Nat) (node : Node), graph.nodes[place]? = some node → node.live = true →
    ∀ next, node.next = some next → place < next

/-- Control falls through to later places only, also in what has been taken out. -/
def Ascending (graph : FlowGraph) : Prop :=
  ∀ (place : Nat) (node : Node), graph.nodes[place]? = some node →
    ∀ next, node.next = some next → place < next

theorem ascending_ofCode {code : Code} {graph : FlowGraph} (accepted : ofCode code = .ok graph) :
    graph.Ascending := by
  intro place node found next leads
  obtain ⟨instr, _, represents⟩ := represents_ofCode accepted found
  rw [represents.next] at leads
  split at leads
  · cases leads
    exact Nat.lt_succ_self place
  · cases leads

theorem Ascending.rising {graph : FlowGraph} (ascending : graph.Ascending) : graph.Rising :=
  fun place node found _ => ascending place node found

/-! ### Taking an instruction out -/

/-- An instruction that can be taken out: it has one way on, and no call depends on it. -/
structure Skippable (graph : FlowGraph) (index dest : Nat) (node : Node) : Prop where
  coherent : graph.Coherent
  found : graph.nodes[index]? = some node
  live : node.live = true
  onward : node.onward = some dest
  apart : dest ≠ index
  notInit : node.instruction.opcode ≠ .init
  notCall : node.instruction.opcode ≠ .call
  notParam : node.instruction.opcode ≠ .param

section

variable {graph : FlowGraph} {index dest entry place : Nat} {node other : Node} {cell : Address}

namespace Skippable

section

variable (skippable : graph.Skippable index dest node)
include skippable

theorem splice : (graph.splice index).Coherent :=
  skippable.coherent.splice skippable.found skippable.live skippable.onward skippable.apart
    (skippable.coherent.not_root skippable.found skippable.notInit)

theorem kept (here : graph.nodes[place]? = some other) (live : other.live = true)
    (different : place ≠ index) :
    (graph.splice index).nodes[place]? = some (other.bypass index dest) :=
  node_splice skippable.coherent skippable.found skippable.onward skippable.apart here live different

theorem origin (here : (graph.splice index).nodes[place]? = some other) (live : other.live = true) :
    place ≠ index ∧ ∃ before, graph.nodes[place]? = some before ∧ before.live = true ∧
      other = before.bypass index dest :=
  origin_splice skippable.coherent skippable.found skippable.onward skippable.apart here live

theorem mem_bodySuccessors_dest : dest ∈ graph.bodySuccessors index := by
  rw [mem_bodySuccessors skippable.found]
  have onward := skippable.onward
  unfold Node.onward at onward
  split at onward
  · rename_i jumps
    exact .inr ⟨by rw [jumps]; rfl, onward⟩
  · exact .inl onward

theorem entry_bypass (isEntry : graph.Entry entry) :
    (graph.splice index).Entry (bypass index dest entry) := by
  rcases isEntry with rfl | ⟨caller, other, here, live, calls, target⟩
  · left
    rw [root_splice]
    exact bypass_of_ne (Ne.symm (skippable.coherent.not_root skippable.found skippable.notInit))
  · have different : caller ≠ index := by
      rintro rfl
      cases skippable.found.symm.trans here
      exact skippable.notCall calls
    refine .inr ⟨caller, _, skippable.kept here live different, live, calls, ?_⟩
    rw [Node.bypass, target, Option.map_some]

theorem entry_origin (isEntry : (graph.splice index).Entry entry) :
    ∃ before, graph.Entry before ∧ bypass index dest before = entry := by
  rcases isEntry with rfl | ⟨caller, after, here, live, calls, target⟩
  · refine ⟨graph.root, .inl rfl, ?_⟩
    rw [root_splice]
    exact bypass_of_ne (Ne.symm (skippable.coherent.not_root skippable.found skippable.notInit))
  · obtain ⟨_, before, here', live', rfl⟩ := skippable.origin here live
    obtain ⟨former, target', same⟩ := Option.map_eq_some_iff.1 target
    exact ⟨former, .inr ⟨caller, before, here', live', calls, target'⟩, same⟩

theorem bodySuccessors_origin (live : (graph.splice index).Live place) {next : Nat}
    (leads : next ∈ (graph.splice index).bodySuccessors place) :
    ∃ former ∈ graph.bodySuccessors place, bypass index dest former = next := by
  obtain ⟨after, here, live⟩ := live
  obtain ⟨_, before, here', _, rfl⟩ := skippable.origin here live
  rcases (mem_bodySuccessors here).1 leads with falls | ⟨jumps, target⟩
  · obtain ⟨former, falls', same⟩ := Option.map_eq_some_iff.1 falls
    exact ⟨former, (mem_bodySuccessors here').2 (.inl falls'), same⟩
  · obtain ⟨former, target', same⟩ := Option.map_eq_some_iff.1 target
    exact ⟨former, (mem_bodySuccessors here').2 (.inr ⟨jumps, target'⟩), same⟩

theorem live_of_body (isEntry : graph.Entry entry)
    (inBody : (graph.splice index).Body (bypass index dest entry) place) {next : Nat}
    (leads : next ∈ (graph.splice index).bodySuccessors place) :
    (graph.splice index).Live place := by
  rcases skippable.splice.stands_body (skippable.entry_bypass isEntry) inBody with isEnd | live
  · have outside : (graph.splice index).nodes[place]? = none := by
      rw [isEnd]
      exact Array.getElem?_eq_none_iff.2 (Nat.le_refl _)
    simp only [bodySuccessors, outside] at leads
    cases leads
  · exact live

end

/-- What a path may have left out, it may pass through. -/
theorem passing {reached : Nat → Prop} {former : Nat}
    (through : reached index → reached dest) (here : reached former) :
    reached (bypass index dest former) := by
  by_cases same : former = index
  · rw [same] at here ⊢
    rw [bypass_self]
    exact through here
  · rw [bypass_of_ne same]
    exact here

theorem body_origin (skippable : graph.Skippable index dest node) (isEntry : graph.Entry entry)
    (inBody : (graph.splice index).Body (bypass index dest entry) place) :
    graph.Body entry place := by
  have through : graph.Body entry index → graph.Body entry dest := fun inBody =>
    inBody.tail skippable.mem_bodySuccessors_dest
  induction inBody with
  | refl => exact passing through .refl
  | @tail before after inBody leads ih =>
    obtain ⟨former, leads', rfl⟩ :=
      skippable.bodySuccessors_origin (skippable.live_of_body isEntry inBody leads) leads
    exact passing through (ih.tail leads')

end Skippable

theorem Calling.ne_finish (calling : graph.Calling place) : place ≠ graph.finish := by
  have inside : ∀ {node : Node}, graph.nodes[place]? = some node → place ≠ graph.finish :=
    fun found => Nat.ne_of_lt (Array.getElem?_eq_some_iff.1 found).1
  cases calling with
  | call found | param found => exact inside found

theorem Unwritten.body (unwritten : graph.Unwritten cell entry place) : graph.Body entry place := by
  induction unwritten with
  | start => exact .refl
  | step _ _ _ leads ih => exact ih.tail leads

namespace Skippable

theorem unwritten_origin (skippable : graph.Skippable index dest node) (isEntry : graph.Entry entry)
    (silent : graph.Body entry index → ¬ node.instruction.Writes cell)
    (unwritten : (graph.splice index).Unwritten cell (bypass index dest entry) place) :
    graph.Unwritten cell entry place := by
  have through : graph.Unwritten cell entry index → graph.Unwritten cell entry dest :=
    fun before => .step before skippable.found (silent before.body) skippable.mem_bodySuccessors_dest
  induction unwritten with
  | start => exact passing through .start
  | @step before after passed earlier here quiet leads ih =>
    have live := skippable.live_of_body isEntry earlier.body leads
    obtain ⟨former, leads', rfl⟩ := skippable.bodySuccessors_origin live leads
    obtain ⟨passed', here', live'⟩ := live
    cases here.symm.trans here'
    obtain ⟨_, original, there, _, rfl⟩ := skippable.origin here live'
    exact passing through (.step ih there quiet leads')

theorem calling_splice (skippable : graph.Skippable index dest node) (calling : graph.Calling place)
    (live : graph.Live place) :
    place ≠ index ∧ (graph.splice index).Calling place := by
  induction calling with
  | @call place caller here calls =>
    obtain ⟨caller', here', live⟩ := live
    cases here.symm.trans here'
    have different : place ≠ index := by
      rintro rfl
      cases skippable.found.symm.trans here
      exact skippable.notCall calls
    exact ⟨different, .call (skippable.kept here live different) calls⟩
  | @param place next passing here passes leads rest ih =>
    obtain ⟨passing', here', live⟩ := live
    cases here.symm.trans here'
    have different : place ≠ index := by
      rintro rfl
      cases skippable.found.symm.trans here
      exact skippable.notParam passes
    have stands := skippable.coherent.closed place passing here live next
      (((skippable.coherent.shaped place passing here).mem_successors next).2 (.inl leads))
    have nextLive := stands.resolve_left rest.ne_finish
    obtain ⟨elsewhere, rest'⟩ := ih nextLive
    refine ⟨different, .param (skippable.kept here live different) passes ?_ rest'⟩
    rw [Node.bypass, leads, Option.map_some, bypass_of_ne elsewhere]

end Skippable

variable {memory : Memory}

/-- Taking an instruction out keeps a program disciplined, if no instruction of its body reads what
it writes. -/
theorem Disciplined.splice (disciplined : graph.Disciplined memory)
    (skippable : graph.Skippable index dest node)
    (unread : ∀ (entry place : Nat) (other : Node) (cell : Address), graph.Entry entry →
      graph.Body entry index → graph.Body entry place → graph.nodes[place]? = some other →
      other.live = true → node.instruction.Writes cell → ¬ other.instruction.Reads cell) :
    (graph.splice index).Disciplined memory := by
  refine ⟨?_, ?_, ?_, ?_⟩
  · intro entry entry' place isEntry isEntry' live inBody inBody'
    obtain ⟨before, isBefore, rfl⟩ := skippable.entry_origin isEntry
    obtain ⟨before', isBefore', rfl⟩ := skippable.entry_origin isEntry'
    rw [disciplined.apart before before' place isBefore isBefore'
      ((live_splice skippable.found skippable.onward skippable.apart).1 live).1
      (skippable.body_origin isBefore inBody) (skippable.body_origin isBefore' inBody')]
  · intro entry place after cell isEntry inBody here live reads unwritten
    obtain ⟨before, isBefore, rfl⟩ := skippable.entry_origin isEntry
    obtain ⟨_, other, here', live', rfl⟩ := skippable.origin here live
    have inBody' := skippable.body_origin isBefore inBody
    refine disciplined.writesFirst before place other cell isBefore inBody' here' live' reads ?_
    exact skippable.unwritten_origin isBefore (fun within writes =>
      unread before place other cell isBefore within inBody' here' live' writes reads) unwritten
  · intro place after here live opening
    obtain ⟨_, before, here', live', rfl⟩ := skippable.origin here live
    obtain ⟨next, leads, calling⟩ := disciplined.opens place before here' live' opening
    have nextLive := (skippable.coherent.closed place before here' live' next
      (((skippable.coherent.shaped place before here').mem_successors next).2
        (.inl leads))).resolve_left calling.ne_finish
    obtain ⟨elsewhere, calling'⟩ := skippable.calling_splice calling nextLive
    refine ⟨next, ?_, calling'⟩
    rw [Node.bypass, leads, Option.map_some, bypass_of_ne elsewhere]
  · intro place after here live
    obtain ⟨_, before, here', live', rfl⟩ := skippable.origin here live
    exact disciplined.regular place before here' live'

theorem Rising.splice (rising : graph.Rising) (skippable : graph.Skippable index dest node)
    (rises : ∀ (place : Nat) (other : Node), graph.nodes[place]? = some other → other.live = true →
      other.next = some index → place < dest) : (graph.splice index).Rising := by
  intro place after here live next leads
  obtain ⟨_, before, here', live', rfl⟩ := skippable.origin here live
  obtain ⟨former, leads', rfl⟩ := Option.map_eq_some_iff.1 leads
  by_cases through : former = index
  · rw [through, bypass_self]
    exact rises place before here' live' (through ▸ leads')
  · rw [bypass_of_ne through]
    exact rising place before here' live' former leads'

/-! ### Jumps to jumps -/

structure Sound (graph : FlowGraph) (memory : Memory) : Prop where
  coherent : graph.Coherent
  rising : graph.Rising
  disciplined : graph.Disciplined memory

theorem Sound.thread (sound : graph.Sound memory) (threadable : graph.isThreadable index = true) :
    (graph.splice index).Sound memory := by
  obtain ⟨node, dest, found, live, jumps, target, onward, apart⟩ :=
    isThreadable_eq_true sound.coherent threadable
  have skippable : graph.Skippable index dest node := by
    refine ⟨sound.coherent, found, live, onward, apart, ?_, ?_, ?_⟩
    · rw [jumps]; decide
    · rw [jumps]; decide
    · rw [jumps]; decide
  refine ⟨skippable.splice, sound.rising.splice skippable ?_,
    sound.disciplined.splice skippable ?_⟩
  · -- only jumps lead to a jump that is taken out
    intro place other here alive falls
    have listed := sound.coherent.sources place other here alive index
      (((sound.coherent.shaped place other here).mem_successors index).2 (.inl falls))
    simp only [isThreadable, found, Bool.and_eq_true, onlyJumpedTo, List.all_eq_true] at threadable
    have jumped := threadable.2 place listed
    simp [here, falls] at jumped
  · intro entry place other cell _ _ _ _ _ writes
    have stores := writes.2.1
    rw [Instruction.stores, jumps] at stores
    cases stores

theorem Sound.threadJumps (sound : graph.Sound memory) : graph.threadJumps.1.Sound memory :=
  threadJumps_induction (motive := fun after => after.Sound memory)
    (fun _ _ sound threadable => sound.thread threadable) sound

/-! ### Known values that nothing reads -/

/-- An instruction that stores a known value in a cell that no instruction of its body reads. -/
structure Spare (graph : FlowGraph) (index : Nat) (cell : Address) (value : Value) (node : Node) :
    Prop where
  found : graph.nodes[index]? = some node
  live : node.live = true
  known : known? node.instruction = some value
  written : written? node.instruction = some cell
  inTemps : cell.area = .temps
  typed : value.type = cell.type
  unread : ∀ (entry place : Nat) (other : Node), graph.Entry entry → graph.Body entry index →
    graph.Body entry place → graph.nodes[place]? = some other → other.live = true →
    ¬ other.instruction.Reads cell

/-- A workspace before the first instruction, with room like that of a memory. -/
structure Fresh (memory : Memory) (workspace : Workspace) : Prop where
  sized : workspace.memory.temps.room = memory.temps.room
  closed : workspace.openRecords = 0
  noFrames : workspace.memory.frames = []

def AlikeWalks (memory : Memory) (first second : FlowGraph) : Prop :=
  ∀ workspace, Fresh memory workspace → System.Agree (Machine.seen Memory.lasting)
    first.chart.walk second.chart.walk ⟨workspace, first.root, []⟩ ⟨workspace, second.root, []⟩

theorem opcode_of_known {instr : Instruction} {value : Value}
    (known : known? instr = some value) :
    fallsThrough instr.opcode = true ∧ instr.opcode ≠ .init ∧
      instr.opcode ≠ .call ∧ instr.opcode ≠ .param := by
  rcases known?_eq_some known with ⟨loads, _⟩ | ⟨pure, _⟩
  · rw [loads]
    decide
  · cases named : instr.opcode with
    | _ => first
      | decide
      | (rw [named] at pure; cases pure)

namespace Spare

variable {value value' : Value} {cell' : Address} {index' : Nat} {node' : Node}

section

variable (spare : graph.Spare index cell value node)
include spare

theorem skippable (sound : graph.Sound memory) :
    ∃ dest, node.next = some dest ∧ graph.Skippable index dest node := by
  obtain ⟨falls, notInit, notCall, notParam⟩ := opcode_of_known spare.known
  have leads := (sound.coherent.shaped index node spare.found).next
  rw [falls] at leads
  obtain ⟨dest, next⟩ := Option.isSome_iff_exists.1 leads
  refine ⟨dest, next, sound.coherent, spare.found, spare.live, ?_, ?_, notInit, notCall, notParam⟩
  · unfold Node.onward
    split
    · rename_i jumps
      rw [jumps] at falls
      cases falls
    · exact next
  · exact Nat.ne_of_gt (sound.rising index node spare.found spare.live dest next)

theorem writes : node.instruction.Writes cell :=
  writes_of_known spare.known spare.written spare.inTemps

section

variable (sound : graph.Sound memory)
include sound

theorem transfer (next : node.next = some dest) (skippable : graph.Skippable index dest node) :
    graph.Transfer memory.temps.room (fun _ _ _ => False)
      (fun entry cell => graph.Body entry index ∧ node.instruction.Writes cell)
      (graph.splice index) (bypass index dest) (fun place => if place = index then 1 else 0) := by
  refine ⟨sound.coherent, sound.disciplined.opens, ?_, ?_, ?_, ?_⟩
  · have elsewhere : graph.finish ≠ index := Nat.ne_of_gt (Live.lt ⟨node, spare.found, spare.live⟩)
    rw [bypass_of_ne elsewhere]
    exact (size_splice spare.found).symm
  · exact fun place other here live => (sound.disciplined.regular place other here live).aside
  · intro entry place other isEntry inBody here live
    by_cases same : place = index
    · subst same
      cases spare.found.symm.trans here
      refine .inr ⟨cell, value, dest, next, spare.writes, ⟨inBody, spare.writes⟩, ?_, ?_, ?_⟩
      · rw [bypass_self, bypass_of_ne skippable.apart]
      · rw [if_pos rfl, if_neg skippable.apart]
        exact Nat.zero_lt_one
      · intro workspace callers holds
        have regular := sound.disciplined.regular place node here live
        obtain ⟨address, result, plain⟩ := written?_eq_some spare.written
        have has : memory.Has cell := by
          rw [← plain]
          exact regular.addresses address (by simp [Instruction.operands, result])
        obtain ⟨after, stored⟩ := Memory.store_of_has has spare.inTemps holds.room value
        exact ⟨after, stored, effect_known callers spare.known spare.written spare.typed
          regular.unary stored⟩
    · refine .inl ⟨other.bypass index dest, ?_, rfl, rfl, rfl, ?_, fun _ => .rfl, ?_, fun _ _ _ => rfl⟩
      · rw [bypass_of_ne same]
        exact skippable.kept here live same
      · exact (sound.disciplined.regular place other here live).aside
      · intro read reads
        refine ⟨?_, sound.disciplined.writesFirst entry place other read isEntry inBody here live reads⟩
        rintro ⟨within, writes⟩
        rw [writes.unique spare.writes] at reads
        exact spare.unread entry place other isEntry within inBody here live reads
  · intro _ _ _ _ _ _ _ _ _ impossible
    exact impossible.elim

theorem alikeWalks : AlikeWalks memory graph (graph.splice index) := by
  obtain ⟨dest, next, skippable⟩ := spare.skippable sound
  intro workspace fresh
  refine (spare.transfer sound next skippable).agree ?_ fresh.sized fresh.closed fresh.noFrames
  rw [root_splice]
  exact (bypass_of_ne
    (Ne.symm (skippable.coherent.not_root skippable.found skippable.notInit))).symm

theorem sound_splice : (graph.splice index).Sound memory := by
  obtain ⟨dest, next, skippable⟩ := spare.skippable sound
  refine ⟨skippable.splice, sound.rising.splice skippable ?_, sound.disciplined.splice skippable ?_⟩
  · intro place other here live leads
    exact Nat.lt_trans (sound.rising place other here live index leads)
      (sound.rising index node spare.found spare.live dest next)
  · intro entry place other read isEntry within inBody here live writes reads
    rw [writes.unique spare.writes] at reads
    exact spare.unread entry place other isEntry within inBody here live reads

theorem splice (spare' : graph.Spare index' cell' value' node') (different : index' ≠ index) :
    ∃ node', (graph.splice index).Spare index' cell' value' node' := by
  obtain ⟨dest, next, skippable⟩ := spare.skippable sound
  refine ⟨node'.bypass index dest, skippable.kept spare'.found spare'.live different, spare'.live,
    spare'.known, spare'.written, spare'.inTemps, spare'.typed, ?_⟩
  intro entry place after isEntry within inBody here live
  obtain ⟨before, isBefore, rfl⟩ := skippable.entry_origin isEntry
  obtain ⟨_, other, here', live', rfl⟩ := skippable.origin here live
  exact spare'.unread before place other isBefore (skippable.body_origin isBefore within)
    (skippable.body_origin isBefore inBody) here' live'

end

end

end Spare

theorem Sound.spliceAll (sound : graph.Sound memory) (indices : List Nat) (nodup : indices.Nodup)
    (spare : ∀ index ∈ indices, ∃ cell value node, graph.Spare index cell value node) :
    (indices.foldl FlowGraph.splice graph).Sound memory ∧
      AlikeWalks memory graph (indices.foldl FlowGraph.splice graph) := by
  induction indices generalizing graph with
  | nil => exact ⟨sound, fun workspace _ => .refl _ _ _⟩
  | cons first rest ih =>
    obtain ⟨fresh, nodup⟩ := List.nodup_cons.1 nodup
    obtain ⟨cell, value, node, spareFirst⟩ := spare first List.mem_cons_self
    have others : ∀ index ∈ rest, ∃ cell value node,
        (graph.splice first).Spare index cell value node := by
      intro index later
      obtain ⟨cell', value', node', spareLater⟩ := spare index (List.mem_cons_of_mem _ later)
      have different : index ≠ first := fun same => fresh (same ▸ later)
      exact ⟨cell', value', spareFirst.splice sound spareLater different⟩
    obtain ⟨final, alike⟩ := ih (spareFirst.sound_splice sound) nodup others
    exact ⟨final, fun workspace isFresh =>
      (spareFirst.alikeWalks sound workspace isFresh).trans (alike workspace isFresh)⟩

end

end FlowGraph

end Quadruple
