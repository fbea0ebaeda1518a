import Quadruple.Proofs.RegionStability
import Quadruple.Proofs.Relayout

/-!
What is left of a program and still reads a cell. Where an instruction takes the value of an
intermediate result, constant folding has put the value in before it takes the write out, so a write of
the cell is left wherever there is such a reader in the region. The size of an allocation and the base of
an element are not put in, and nothing is put in outside the region: they may be read after their write is
gone.
-/

namespace Quadruple

namespace Instruction

/-- The operands whose values an instruction takes: its inputs but the size of an allocation and the
base of an element. -/
def values (instr : Instruction) : List Operand :=
  match instr.opcode with
  | .store | .param | .nativeParam | .gotoTrue | .gotoFalse => [instr.left]
  | .loadElement => [instr.right]
  | .storeElement => [instr.right, instr.result]
  | opcode => if opcode.isPure then [instr.left, instr.right] else []

def Takes (instr : Instruction) (cell : Address) : Prop :=
  cell.IsTemp ∧ ∃ operand ∈ instr.values, operand.Is cell

def Computing (instr : Instruction) : Prop :=
  instr.opcode = .load ∨ instr.opcode.isPure = true

def Needs (instr writer : Instruction) (cell : Address) : Prop :=
  instr.Takes cell ∨ instr.Reads cell ∧ ¬ writer.Computing

/-- An instruction that a pass has made of another one: it does the same, and takes nothing new. -/
structure ComesFrom (instr former : Instruction) : Prop where
  opcode : instr.opcode = former.opcode
  writes : ∀ cell, instr.Writes cell ↔ former.Writes cell
  reads : ∀ cell, instr.Reads cell → former.Reads cell
  takes : ∀ cell, instr.Takes cell → former.Takes cell

variable {instr former : Instruction} {cell : Address}

theorem mem_values {operand : Operand} :
    operand ∈ instr.values ↔
      (operand = instr.left ∧ FlowGraph.replacesLeft instr.opcode = true) ∨
      (operand = instr.right ∧ FlowGraph.replacesRight instr.opcode = true) ∨
      (operand = instr.result ∧ instr.opcode = .storeElement) := by
  unfold values
  cases instr.opcode with
  | _ => simp [FlowGraph.replacesLeft, FlowGraph.replacesRight, Opcode.isPure]

namespace ComesFrom

theorem refl (instr : Instruction) : instr.ComesFrom instr :=
  ⟨rfl, fun _ => .rfl, fun _ => id, fun _ => id⟩

section

variable (comes : instr.ComesFrom former)
include comes

theorem trans {first : Instruction} (comes' : former.ComesFrom first) : instr.ComesFrom first :=
  ⟨comes.opcode.trans comes'.opcode, fun cell => (comes.writes cell).trans (comes'.writes cell),
    fun cell reads => comes'.reads cell (comes.reads cell reads),
    fun cell takes => comes'.takes cell (comes.takes cell takes)⟩

theorem computing_iff : instr.Computing ↔ former.Computing := by
  unfold Computing
  rw [comes.opcode]

theorem needs {writer : Instruction} (needs : instr.Needs writer cell) : former.Needs writer cell :=
  needs.imp (comes.takes cell) fun reads => ⟨comes.reads cell reads.1, reads.2⟩

theorem needs_iff {reader : Instruction} : reader.Needs instr cell ↔ reader.Needs former cell := by
  unfold Needs
  rw [comes.computing_iff]

end

end ComesFrom

/-- Where an instruction jumps to matters for nothing that it reads or writes. -/
theorem Like.comesFrom (alike : Like former instr) : instr.ComesFrom former := by
  by_cases plain : former.opcode.hasTarget = false
  · rw [alike.eq plain]
    exact .refl instr
  · obtain ⟨opcode, left, right, result⟩ := former
    obtain ⟨opcode', left', right', result'⟩ := instr
    obtain ⟨rfl, rfl, rfl, _⟩ := alike
    have silent : ∀ result cell, ¬ Writes ⟨opcode, left, right, result⟩ cell := by
      rintro result cell ⟨_, stores, _⟩
      cases opcode with
      | _ => first | exact plain rfl | cases stores
    have same : inputs ⟨opcode, left, right, result'⟩ = inputs ⟨opcode, left, right, result⟩ ∧
        values ⟨opcode, left, right, result'⟩ = values ⟨opcode, left, right, result⟩ := by
      cases opcode with
      | _ => first | exact ⟨rfl, rfl⟩ | exact absurd rfl plain
    refine ⟨rfl, fun cell => iff_of_false (silent _ cell) (silent _ cell), ?_, ?_⟩
    · rintro cell ⟨isTemp, operand, among, named⟩
      exact ⟨isTemp, operand, same.1 ▸ among, named⟩
    · rintro cell ⟨isTemp, operand, among, named⟩
      exact ⟨isTemp, operand, same.2 ▸ among, named⟩

end Instruction

namespace FlowGraph

/-! ### Putting known values in -/

namespace Facts

variable {facts : Facts} {region : Option Nat} {instr : Instruction} {cell : Address}

/-- When known values have been put in, an instruction takes nothing that is known. -/
theorem takes_of_substitute (takes : (facts.substitute region instr).Takes cell) :
    instr.Takes cell ∧ facts.lookup ⟨region, cell⟩ = none := by
  obtain ⟨isTemp, operand, among, named⟩ := takes
  have taken : ∀ {operand : Operand}, operand ∈ instr.values →
      (facts.apply region operand).Is cell →
      instr.Takes cell ∧ facts.lookup ⟨region, cell⟩ = none := by
    intro operand among named
    obtain ⟨named, unknown⟩ := is_of_apply isTemp named
    exact ⟨⟨isTemp, operand, among, named⟩, unknown⟩
  rw [Instruction.mem_values, opcode_substitute, substitute_eq] at among
  rcases among with ⟨rfl, replaced⟩ | ⟨rfl, replaced⟩ | ⟨rfl, stored⟩
  · simp only [if_pos replaced] at named
    exact taken (Instruction.mem_values.2 (.inl ⟨rfl, replaced⟩)) named
  · simp only [if_pos replaced] at named
    exact taken (Instruction.mem_values.2 (.inr (.inl ⟨rfl, replaced⟩))) named
  · simp only [if_pos stored] at named
    exact taken (Instruction.mem_values.2 (.inr (.inr ⟨rfl, stored⟩))) named

theorem comesFrom_substitute (facts : Facts) (region : Option Nat) (instr : Instruction) :
    (facts.substitute region instr).ComesFrom instr :=
  ⟨facts.opcode_substitute region instr, facts.writes_substitute region instr,
    fun _ reads => (reads_of_substitute reads).1, fun _ takes => (takes_of_substitute takes).1⟩

end Facts

variable {graph graph' after : FlowGraph} {facts : Facts} {index entry vertex : Nat} {gone : List Nat}

namespace Substituted

section

variable (substituted : graph.Substituted facts graph')
include substituted

theorem contiguous (contiguous : graph.Contiguous) : graph'.Contiguous := by
  intro place next node' found' live leads vertex left
  obtain ⟨node, found, _, rfl, _⟩ := substituted.origin found'
  exact contiguous place next node found live leads vertex (substituted.live_iff.1 left)

theorem owner (coherent : graph.Coherent)
    (owns : graph.Owner entry vertex) (live : graph.Live vertex) : graph'.Owner entry vertex := by
  have isEntry := substituted.entry_iff.2 (coherent.entry_of_mem_entries owns.listed).1
  have inBody := substituted.body_iff.2 owns.inBody
  refine ⟨isEntry.mem_entries inBody (substituted.live_iff.2 live), inBody, ?_⟩
  rw [substituted.root]
  intro notStart other listed inBody'
  have isEntry' := ((substituted.coherent coherent).entry_of_mem_entries listed).1
  have within := substituted.body_iff.1 inBody'
  exact owns.first notStart other
    ((substituted.entry_iff.1 isEntry').mem_entries within live) within

theorem regionOf_eq (isExact : graph.Exact)
    (live : graph.Live vertex) : regionOf graph'.regions vertex = regionOf graph.regions vertex := by
  have coherent := isExact.coherent
  obtain ⟨owner, owns⟩ := isExact.exists_owner live
  have inside := (substituted.live_iff.2 live).lt
  rw [(coherent.regionOf_eq_some (Nat.le_of_lt live.lt)).2 owns,
    ((substituted.coherent coherent).regionOf_eq_some (Nat.le_of_lt inside)).2
      (substituted.owner coherent owns live)]

end

end Substituted

/-! ### Readers and writers -/

/-- What is left of a graph after some passes. Its instructions come from those that stood there, what
belonged to one region does so still, and every write is left that an instruction of its region
needs. -/
structure Descends (graph after : FlowGraph) : Prop where
  nodes : ∀ (vertex : Nat) (node' : Node), after.nodes[vertex]? = some node' → node'.live = true →
    ∃ node, graph.nodes[vertex]? = some node ∧ node.live = true ∧
      node'.instruction.ComesFrom node.instruction
  regions : ∀ vertex other, after.Live vertex → after.Live other →
    regionOf graph.regions vertex = regionOf graph.regions other →
    regionOf after.regions vertex = regionOf after.regions other
  needed : ∀ (reader writer : Nat) (node' node : Node) (cell : Address),
    after.nodes[reader]? = some node' → node'.live = true →
    graph.nodes[writer]? = some node → node.live = true → node.instruction.Writes cell →
    regionOf graph.regions writer = regionOf graph.regions reader →
    node'.instruction.Needs node.instruction cell → after.Live writer

namespace Descends

theorem live (descends : graph.Descends after) (left : after.Live vertex) : graph.Live vertex := by
  obtain ⟨node', found', live'⟩ := left
  obtain ⟨node, found, live, _⟩ := descends.nodes vertex node' found' live'
  exact ⟨node, found, live⟩

theorem refl (graph : FlowGraph) : graph.Descends graph :=
  ⟨fun _ node found live => ⟨node, found, live, .refl _⟩, fun _ _ _ _ same => same,
    fun _ _ _ node _ _ _ found live _ _ _ => ⟨node, found, live⟩⟩

theorem trans {later : FlowGraph} (descends : graph.Descends after)
    (descends' : after.Descends later) : graph.Descends later := by
  refine ⟨?_, ?_, ?_⟩
  · intro vertex node'' found'' live''
    obtain ⟨node', found', live', comes'⟩ := descends'.nodes vertex node'' found'' live''
    obtain ⟨node, found, live, comes⟩ := descends.nodes vertex node' found' live'
    exact ⟨node, found, live, comes'.trans comes⟩
  · intro vertex other left left' same
    exact descends'.regions vertex other left left'
      (descends.regions vertex other (descends'.live left) (descends'.live left') same)
  · intro reader writer node'' node cell found'' live'' found live writes same needs
    -- the reader needs the write in the graph between, where the write then still stands
    obtain ⟨between, here, alive, comes⟩ := descends'.nodes reader node'' found'' live''
    have stays : after.Live writer := descends.needed reader writer between node cell here alive found
      live writes same (comes.needs needs)
    obtain ⟨written, there, alive'⟩ := stays
    obtain ⟨node', found', _, made⟩ := descends.nodes writer written there alive'
    cases found.symm.trans found'
    have same' := descends.regions writer reader ⟨written, there, alive'⟩ ⟨between, here, alive⟩ same
    exact descends'.needed reader writer node'' written cell found'' live'' there alive'
      ((made.writes cell).2 writes) same' (made.needs_iff.2 needs)

end Descends

theorem Substituted.descends (substituted : graph.Substituted facts graph')
    (isExact : graph.Exact) : graph.Descends graph' := by
  refine ⟨?_, ?_, ?_⟩
  · intro vertex node' found' live'
    obtain ⟨node, found, _⟩ := substituted.origin found'
    obtain ⟨part, found'', _⟩ := substituted.nodes vertex node found
    cases found'.symm.trans found''
    exact ⟨node, found, live', part.comesFrom_substitute _ _⟩
  · intro vertex other left left' same
    rw [substituted.regionOf_eq isExact (substituted.live_iff.1 left),
      substituted.regionOf_eq isExact (substituted.live_iff.1 left'), same]
  · intro reader writer node' node cell _ _ found live _ _ _
    exact substituted.live_iff.2 ⟨node, found, live⟩

/-- No instruction of its region needs what an instruction writes. -/
def Unneeded (graph : FlowGraph) (writer : Nat) : Prop :=
  ∀ (reader : Nat) (node' node : Node) (cell : Address), graph.nodes[reader]? = some node' →
    node'.live = true → graph.nodes[writer]? = some node → node.instruction.Writes cell →
    regionOf graph.regions writer = regionOf graph.regions reader →
    ¬ node'.instruction.Needs node.instruction cell

theorem Thinned.descends (thinned : graph.Thinned gone after)
    (unneeded : ∀ index ∈ gone, graph.Unneeded index) : graph.Descends after := by
  refine ⟨?_, thinned.regions, ?_⟩
  · intro vertex node' found' live'
    obtain ⟨node, found, live, same⟩ := thinned.nodes vertex node' found' live'
    refine ⟨node, found, live, ?_⟩
    rw [same]
    exact .refl _
  · intro reader writer node'' node cell found'' live'' found live writes region needs
    obtain ⟨node', found', live', same⟩ := thinned.nodes reader node'' found'' live''
    rw [same] at needs
    refine (thinned.live writer).2 ⟨⟨node, found, live⟩, fun out => ?_⟩
    exact unneeded writer out reader node' node cell found' live' found writes region needs

/-! ### The passes -/

theorem Seamless.threadJumps (seamless : graph.Seamless) :
    graph.threadJumps.1.Seamless ∧ graph.Descends graph.threadJumps.1 := by
  refine threadJumps_induction (motive := fun after => after.Seamless ∧ graph.Descends after) ?_
    ⟨seamless, .refl graph⟩
  rintro after index ⟨seamless', descends⟩ threadable
  obtain ⟨dest, node, slips, jumps⟩ := seamless'.isExact.slips_thread threadable
  refine ⟨slips.seamless seamless', descends.trans ((slips.thinned seamless').descends ?_)⟩
  intro index' listed reader node' other cell _ _ found writes
  cases List.mem_singleton.1 listed
  cases slips.passes.skippable.found.symm.trans found
  have stores := writes.2.1
  rw [Instruction.stores, jumps] at stores
  cases stores

/-- What is folded, no reader needs once its value has been put in. -/
theorem Learned.unneeded {done : List Nat} {state : Folding} (learned : graph.Learned done state)
    (substituted : graph.Substituted state.facts graph') (isExact : graph.Exact)
    (listed : index ∈ state.folded) : graph'.Unneeded index := by
  obtain ⟨_, slot, value, known, computes⟩ := learned.folded index listed
  obtain ⟨node, found, live, region, written⟩ := computes.writes
  intro reader reading writing cell here alive found' writes same needs
  obtain ⟨_, computing, _, computed⟩ := learned.computing substituted listed
  cases found'.symm.trans computing
  rcases needs with takes | ⟨_, keeps⟩
  · obtain ⟨instr, there, _, written'⟩ := substituted.kept found
    cases found'.symm.trans there
    have sameCell : slot.cell = cell :=
      Option.some.inj (written.symm.trans (written?_of_writes ((written' cell).1 writes)))
    have alive' := substituted.live_iff.1 ⟨reading, here, alive⟩
    obtain ⟨original, here', stood⟩ := alive'
    obtain ⟨part, here'', applied⟩ := substituted.nodes reader original here'
    cases here.symm.trans here''
    simp only [applied stood] at takes
    rw [substituted.regionOf_eq isExact ⟨node, found, live⟩,
      substituted.regionOf_eq isExact ⟨original, here', stood⟩] at same
    have unknown := (Facts.takes_of_substitute takes).2
    rw [← same, ← region, ← sameCell, known] at unknown
    cases unknown
  · exact keeps computed

theorem Seamless.foldConstants (seamless : graph.Seamless) :
    graph.foldConstants.1.Seamless ∧ graph.Descends graph.foldConstants.1 := by
  have isExact := seamless.isExact
  obtain ⟨_, _, learned, substituted, count, folded⟩ := isExact.coherent.foldConstants_eq
  have seamless' : Seamless _ :=
    ⟨isExact.reworded substituted.reworded count, substituted.contiguous seamless.contiguous⟩
  obtain ⟨final, thinned⟩ := seamless'.spliceAll _ (List.nodup_reverse.2 learned.nodup)
    fun index listed => learned.computing substituted (List.mem_reverse.1 listed)
  rw [folded]
  refine ⟨final, (substituted.descends isExact).trans (thinned.descends fun index listed => ?_)⟩
  exact learned.unneeded substituted isExact (List.mem_reverse.1 listed)

/-! ### The layout -/

theorem Coherent.exists_reader (coherent : graph.Coherent) {place : Nat} {instr : Instruction}
    {cell : Address} (here : graph.toCode[place]? = some instr)
    (reads : instr.Reads cell) :
    ∃ vertex node, graph.items[place]? = some (.node vertex) ∧ graph.nodes[vertex]? = some node ∧
      node.live = true ∧ instr.ComesFrom node.instruction := by
  rw [getElem?_toCode coherent] at here
  obtain ⟨item, standing, made⟩ := Option.bind_eq_some_iff.1 here
  cases item with
  | node vertex =>
    obtain ⟨node, found, live⟩ := coherent.live_of_item standing
    rw [instructionAt, found, Option.map_some] at made
    cases made
    exact ⟨vertex, node, standing, found, live,
      (instructionFor_like (coherent.shaped vertex node found)).comesFrom⟩
  | goto dest | exit =>
    cases made
    obtain ⟨_, operand, among, _⟩ := reads
    cases among

theorem Coherent.writes_placeOf (coherent : graph.Coherent) {node : Node} {cell : Address}
    (found : graph.nodes[vertex]? = some node) (live : node.live = true)
    (writes : node.instruction.Writes cell) :
    ∃ instr, graph.toCode[graph.placeOf vertex]? = some instr ∧
      instr.Writes cell := by
  refine ⟨graph.instructionFor node, ?_, ?_⟩
  · rw [getElem?_toCode coherent, placed_goto coherent ⟨node, found, live⟩, Option.bind_some,
      instructionAt, found, Option.map_some]
  · exact ((instructionFor_like (coherent.shaped vertex node found)).comesFrom.writes cell).2 writes

end FlowGraph

namespace Optimization

open FlowGraph (regionOf)

variable {code : Code} {graph final : FlowGraph} {options : Options} {stats : Stats}

theorem descends_iterate (accepted : FlowGraph.ofCode code = .ok graph) (options : Options)
    (stats : Stats) :
    (iterate options options.rounds graph stats).1.Seamless ∧
      graph.Descends (iterate options options.rounds graph stats).1 :=
  iterate_induction (motive := fun after => after.Seamless ∧ graph.Descends after)
    (fun _ holds => ⟨holds.1.threadJumps.1, holds.2.trans holds.1.threadJumps.2⟩)
    (fun _ _ holds => ⟨holds.1.foldConstants.1, holds.2.trans holds.1.foldConstants.2⟩)
    options.rounds stats ⟨FlowGraph.seamless_ofCode accepted, .refl graph⟩

/-- Whatever reads an intermediate result in an optimized program did so in the program, and every write
of that cell by an instruction of its region that control could reach is still there, in its region, if
the reader takes the value of the cell or the write does more than to compute a value. -/
theorem readers_keep_their_writes (reduced : reduce code options = .ok (final, stats)) :
    ∃ graph after, FlowGraph.ofCode code = .ok graph ∧
      optimize code options = .ok (final.toCode, stats) ∧
      FlowGraph.ofCode final.toCode = .ok after ∧
      ∀ (place : Nat) (instruction : Instruction) (cell : Address),
        final.toCode[place]? = some instruction → instruction.Reads cell →
        ∃ reader original, final.items[place]? = some (.node reader) ∧
          code[reader]? = some original ∧ original.Reads cell ∧ graph.Live reader ∧
          ∀ (writer : Nat) (writing : Instruction), code[writer]? = some writing →
            graph.Live writer → writing.Writes cell →
            regionOf graph.regions writer = regionOf graph.regions reader →
            instruction.Takes cell ∨ ¬ writing.Computing →
            ∃ place' instruction', final.items[place']? = some (.node writer) ∧
              final.toCode[place']? = some instruction' ∧ instruction'.Writes cell ∧
              regionOf after.regions place' = regionOf after.regions place := by
  obtain ⟨graph, accepted, made⟩ := bind_eq_ok.1 reduced
  have optimized : optimize code options = .ok (final.toCode, stats) :=
    bind_eq_ok.2 ⟨_, reduced, rfl⟩
  cases made
  obtain ⟨seamless, descends⟩ := descends_iterate accepted options
    { before := code.size, unreachable := code.size - graph.liveCount }
  obtain ⟨after, relaid⟩ := seamless.isExact.exists_relaid
  refine ⟨graph, after, accepted, optimized, relaid.accepted, ?_⟩
  have coherent := seamless.isExact.coherent
  intro place instruction cell here reads
  obtain ⟨reader, node, standing, found, live, comes⟩ := coherent.exists_reader here reads
  obtain ⟨former, found', live', comes'⟩ := descends.nodes reader node found live
  obtain ⟨original, there, represents⟩ := FlowGraph.represents_ofCode accepted found'
  refine ⟨reader, original, standing, there, ?_, ⟨former, found', live'⟩, ?_⟩
  · rw [← represents.same]
    exact (comes.trans comes').reads cell reads
  · intro writer writing there' wasLive writes same needed
    obtain ⟨written, found'', alive⟩ := wasLive
    obtain ⟨_, there'', represents'⟩ := FlowGraph.represents_ofCode accepted found''
    cases there'.symm.trans there''
    rw [← represents'.same] at writes needed
    have needs : node.instruction.Needs written.instruction cell := needed.imp (comes.takes cell)
      fun keeps => ⟨comes.reads cell reads, keeps⟩
    have stays := descends.needed reader writer node written cell found live found'' alive writes same
      needs
    obtain ⟨left, found''', alive'⟩ := stays
    obtain ⟨_, same', _, comes''⟩ := descends.nodes writer left found''' alive'
    cases found''.symm.trans same'
    obtain ⟨instruction', there''', writes'⟩ :=
      coherent.writes_placeOf found''' alive' ((comes''.writes cell).2 writes)
    refine ⟨_, instruction', FlowGraph.placed_goto coherent ⟨left, found''', alive'⟩, there''', writes',
      ?_⟩
    rw [coherent.eq_placeOf standing, relaid.regionOf_placeOf ⟨left, found''', alive'⟩,
      relaid.regionOf_placeOf ⟨node, found, live⟩,
      descends.regions writer reader ⟨left, found''', alive'⟩ ⟨node, found, live⟩ same]

def sum : Address := { scratch with offset := 1 }

/-- A program that adds a constant to a variable. -/
def raise : Code :=
  #[{ opcode := .init },
    { opcode := .load, left := .literal (.int 3), result := .address scratch },
    { opcode := .add, left := .address .origin, right := .address scratch, result := .address sum },
    { opcode := .store, left := .address sum, result := .address .origin },
    { opcode := .exit }]

/-- The constant is put into the sum, and the sum is still there for the variable. -/
theorem raise_keeps_sum : ∃ (final : FlowGraph) (stats : Stats),
    reduce raise {} = .ok (final, stats) ∧
    final.toCode.map (·.opcode) = #[.init, .add, .store, .exit] ∧
    ∃ (place : Nat) (instruction : Instruction), final.items[place]? = some (.node 2) ∧
      final.toCode[place]? = some instruction ∧ instruction.Writes sum := by
  obtain ⟨⟨final, stats⟩, reduced, opcodes, here, standing⟩ : ∃ made, reduce raise {} = .ok made ∧
      made.1.toCode.map (·.opcode) = #[.init, .add, .store, .exit] ∧
      made.1.toCode[2]? =
        some { opcode := .store, left := .address sum, result := .address .origin } ∧
      made.1.items[2]? = some (.node 3) :=
    exists_ok_of_any (by decide +kernel)
  have regions : (FlowGraph.ofCode raise).toOption.any fun graph =>
      2 ∈ graph.liveIndices ∧ regionOf graph.regions 2 = regionOf graph.regions 3 := by
    decide +kernel
  obtain ⟨graph, _, accepted, _, _, kept⟩ := readers_keep_their_writes reduced
  rw [accepted] at regions
  obtain ⟨listed, same⟩ := of_decide_eq_true regions
  have reads : Instruction.Takes { opcode := .store, left := .address sum, result := .address .origin }
      sum := ⟨⟨rfl, rfl⟩, _, List.mem_singleton_self _, sum, rfl, rfl⟩
  obtain ⟨reader, _, standing', _, _, _, stays⟩ := kept 2 _ sum here reads
  cases standing.symm.trans standing'
  obtain ⟨place, instruction, placed, written, writes, _⟩ := stays 2 _ rfl
    (FlowGraph.mem_liveIndices.1 listed) ⟨⟨rfl, rfl⟩, rfl, sum, rfl, rfl⟩ same (.inl reads)
  exact ⟨final, stats, reduced, opcodes, place, instruction, placed, written, writes⟩

/-- Whether optimization takes out all writes of a cell that it lets an instruction of the same body
read. -/
def LosesWrites (code : Code) (writer reader : Nat) (cell : Address) : Prop :=
  ∃ graph made stats entry, FlowGraph.ofCode code = .ok graph ∧
    optimize code {} = .ok (made, stats) ∧ graph.Entry entry ∧ graph.Live writer ∧
    graph.Body entry writer ∧ graph.Body entry reader ∧
    (∃ instr, code[writer]? = some instr ∧ instr.Writes cell) ∧
    (∃ instr, code[reader]? = some instr ∧ instr ∈ made ∧
      instr.Reads cell) ∧
    ∀ instr ∈ made, ¬ instr.Writes cell

def pointer : Address := ⟨.temps, .object, true, 0⟩

def sized : Code :=
  #[{ opcode := .init },
    { opcode := .load, left := .literal (.int 3), result := .address scratch },
    { opcode := .malloc, left := .address scratch, result := .address pointer },
    { opcode := .exit }]

/-- A program with a function that goes on into the program's own body, which reads what the function has
written. -/
def joined : Code :=
  #[{ opcode := .init },
    { opcode := .call, result := .target 4 },
    { opcode := .store, left := .address scratch, result := .address .origin },
    { opcode := .exit },
    { opcode := .load, left := .literal (.int 2), result := .address scratch },
    { opcode := .goto, result := .target 2 }]

/-- The size of an object is folded, but not put in. What is written in one region is folded though the
body of its function goes on in another one. -/
theorem folded_before_put_in : LosesWrites sized 1 2 scratch ∧ LosesWrites joined 4 2 scratch := by
  constructor
  · obtain ⟨graph, accepted, root, live, first, second⟩ : ∃ graph, FlowGraph.ofCode sized = .ok graph ∧
        graph.root = 0 ∧ 1 ∈ graph.liveIndices ∧ 1 ∈ graph.bodySuccessors 0 ∧
          2 ∈ graph.bodySuccessors 1 :=
      exists_ok_of_any (by decide +kernel)
    obtain ⟨⟨made, stats⟩, optimized, rfl⟩ : ∃ made, optimize sized {} = .ok made ∧ made.1 =
        #[{ opcode := .init },
          { opcode := .malloc, left := .address scratch, result := .address pointer },
          { opcode := .exit }] :=
      exists_ok_of_any (by decide +kernel)
    have toWriter : graph.Body 0 1 := .single first
    refine ⟨graph, _, stats, 0, accepted, optimized, .inl root.symm, FlowGraph.mem_liveIndices.1 live,
      toWriter, toWriter.tail second, ⟨_, rfl, ⟨rfl, rfl⟩, rfl, scratch, rfl, rfl⟩,
      ⟨_, rfl, by simp [sized], ⟨rfl, rfl⟩, _, List.mem_singleton_self _, scratch, rfl, rfl⟩, ?_⟩
    decide
  · obtain ⟨graph, accepted, called, live, first, second⟩ : ∃ graph,
        FlowGraph.ofCode joined = .ok graph ∧ 4 ∈ graph.entries ∧ 4 ∈ graph.liveIndices ∧
          5 ∈ graph.bodySuccessors 4 ∧ 2 ∈ graph.bodySuccessors 5 :=
      exists_ok_of_any (by decide +kernel)
    obtain ⟨⟨made, stats⟩, optimized, rfl⟩ : ∃ made, optimize joined {} = .ok made ∧ made.1 =
        #[{ opcode := .init },
          { opcode := .call, result := .target 4 },
          { opcode := .store, left := .address scratch, result := .address .origin },
          { opcode := .exit },
          { opcode := .goto, result := .target 2 }] :=
      exists_ok_of_any (by decide +kernel)
    have isEntry := ((FlowGraph.coherent_ofCode accepted).entry_of_mem_entries called).1
    have toJump : graph.Body 4 5 := .single first
    refine ⟨graph, _, stats, 4, accepted, optimized, isEntry,
      FlowGraph.mem_liveIndices.1 live, .refl, toJump.tail second,
      ⟨_, rfl, ⟨rfl, rfl⟩, rfl, scratch, rfl, rfl⟩,
      ⟨_, rfl, by simp [joined], ⟨rfl, rfl⟩, _, List.mem_singleton_self _, scratch, rfl, rfl⟩, ?_⟩
    decide

end Optimization

end Quadruple
