import Quadruple.Proofs.Relayout

/-!
Optimizing an optimized program. A pass that has nothing to take out leaves a graph as it is, and what
it has to take out of a layout it would have had to take out of the graph that was laid out. So once
the rounds have come to an end, and unless a function or an added jump stands in the way, a program
that has been optimized is left alone.
-/

namespace Quadruple

/-- Either no element of a list makes a loop leave its first state, or one does and is counted. -/
theorem foldl_idle_or {α β : Type} {step : α → β → α} {start : α} {acts : β → Prop}
    (count : α → Nat) (idle : ∀ item, ¬ acts item → step start item = start)
    (works : ∀ item, acts item → 0 < count (step start item))
    (grows : ∀ state item, count state ≤ count (step state item)) (items : List β) :
    ((∀ item ∈ items, ¬ acts item) ∧ items.foldl step start = start) ∨
      ((∃ item ∈ items, acts item) ∧ 0 < count (items.foldl step start)) := by
  induction items with
  | nil => exact .inl ⟨fun _ listed => (nomatch listed), rfl⟩
  | cons first rest ih =>
    rw [List.foldl_cons]
    by_cases acting : acts first
    · refine .inr ⟨⟨first, List.mem_cons_self, acting⟩, ?_⟩
      exact List.foldlRecOn (motive := fun state => 0 < count state) rest step (works first acting)
        fun state positive item _ => Nat.lt_of_lt_of_le positive (grows state item)
    · rw [idle first acting]
      rcases ih with ⟨none, same⟩ | ⟨⟨item, later, acting⟩, positive⟩
      · exact .inl ⟨List.forall_mem_cons.2 ⟨acting, none⟩, same⟩
      · exact .inr ⟨⟨item, List.mem_cons_of_mem _ later, acting⟩, positive⟩

namespace FlowGraph

variable {graph after : FlowGraph} {vertex index place : Nat} {node : Node} {cell : Address}

/-! ### Passes with nothing to take out -/

/-- A pass takes something out where there is an instruction that it can take out, and otherwise leaves
the graph as it is. -/
def Finds (graph : FlowGraph) (acts : Nat → Prop) (result : FlowGraph × Nat) : Prop :=
  ((∀ index ∈ graph.order, ¬ acts index) ∧ result = (graph, 0)) ∨
    ((∃ index ∈ graph.order, acts index) ∧ 0 < result.2)

theorem finds_threadJumps (graph : FlowGraph) :
    graph.Finds (fun index => graph.isThreadable index = true) graph.threadJumps := by
  apply foldl_idle_or Prod.snd
  · intro index kept
    simp only [if_neg kept]
  · intro index threadable
    simp only [if_pos threadable]
    exact Nat.zero_lt_one
  · rintro ⟨state, count⟩ index
    simp only
    split
    · exact Nat.le_succ count
    · exact Nat.le_refl count

/-- An instruction that constant folding takes out of a graph of which nothing is known yet. -/
structure Foldable (graph : FlowGraph) (index : Nat) (node : Node) (cell : Address) (value : Value) :
    Prop where
  found : graph.nodes[index]? = some node
  written : written? node.instruction = some cell
  inTemps : cell.area = .temps
  known : known? node.instruction = some value
  once : (graph.writes graph.regions).count ⟨regionOf graph.regions index, cell⟩ = 1
  typed : value.type = cell.type
  single : hasOneSuccessor node = true

def CanFold (graph : FlowGraph) (index : Nat) : Prop :=
  ∃ node cell value, graph.Foldable index node cell value

theorem putIn_self (found : graph.nodes[index]? = some node) (facts : Facts) (folded : List Nat) :
    Learned.putIn ⟨graph, facts, folded⟩ index node.instruction = graph := by
  have same : graph.nodes.modify index (fun other => { other with instruction := node.instruction }) =
      graph.nodes := by
    apply Array.ext_getElem?
    intro place
    rw [Array.getElem?_modify]
    split
    · rename_i here
      rw [← here, found]
      rfl
    · rfl
  unfold Learned.putIn
  simp only [same]

theorem substitute_nil (region : Option Nat) (instr : Instruction) :
    Facts.substitute [] region instr = instr :=
  Facts.substitute_of_none (fun _ => rfl) region instr

theorem foldOne_idle (kept : ¬ graph.CanFold index) :
    foldOne graph.regions (graph.writes graph.regions) ⟨graph, [], []⟩ index = ⟨graph, [], []⟩ := by
  unfold foldOne
  cases found : graph.nodes[index]? with
  | none => rfl
  | some node =>
    have same := putIn_self found [] []
    unfold Learned.putIn at same
    simp only [substitute_nil, same]
    cases written : written? node.instruction with
    | none => rfl
    | some cell =>
      simp only
      by_cases inTemps : cell.area = .temps
      · rw [if_neg (not_not_intro inTemps)]
        cases known : known? node.instruction with
        | none => rfl
        | some value =>
          simp only
          split
          · rename_i conditions
            simp only [Bool.and_eq_true, decide_eq_true_eq] at conditions
            obtain ⟨⟨once, typed⟩, single⟩ := conditions
            exact absurd ⟨node, cell, value, found, written, inTemps, known, once, typed, single⟩ kept
          · rfl
      · rw [if_pos inTemps]

theorem foldOne_works (canFold : graph.CanFold index) :
    0 < (foldOne graph.regions (graph.writes graph.regions) ⟨graph, [], []⟩ index).folded.length := by
  obtain ⟨node, cell, value, foldable⟩ := canFold
  unfold foldOne
  simp only [foldable.found, substitute_nil, foldable.written, foldable.inTemps, foldable.known,
    foldable.once, foldable.typed, foldable.single, ne_eq, not_true_eq_false, if_false,
    decide_true, Bool.and_self, if_true, List.length_cons]
  exact Nat.succ_pos _

theorem length_folded_le (regions : Array (Option Nat)) (writes : List Slot) (state : Folding)
    (index : Nat) : state.folded.length ≤ (foldOne regions writes state index).folded.length := by
  unfold foldOne
  simp only
  (repeat' split) <;> first | exact Nat.le_refl _ | exact Nat.le_succ _

theorem finds_foldConstants (graph : FlowGraph) :
    graph.Finds graph.CanFold graph.foldConstants := by
  unfold Finds foldConstants
  rcases foldl_idle_or (fun state : Folding => state.folded.length) (fun _ => foldOne_idle)
    (fun _ => foldOne_works) (length_folded_le _ _) graph.order with ⟨none, same⟩ | ⟨some, positive⟩
  · exact .inl ⟨none, by simp only [same]; rfl⟩
  · refine .inr ⟨some, ?_⟩
    have nonempty : (graph.order.foldl (foldOne graph.regions (graph.writes graph.regions))
        ⟨graph, [], []⟩).folded.isEmpty = false := by
      rw [List.isEmpty_eq_false_iff]
      exact List.length_pos_iff.1 positive
    simp only [nonempty]
    exact positive

variable {slot : Slot}

theorem WritesSlot.live (writes : graph.WritesSlot index slot) : graph.Live index := by
  obtain ⟨node, found, live, _⟩ := writes
  exact ⟨node, found, live⟩

theorem WritesSlot.once (writes : graph.WritesSlot index slot)
    (only : ∀ other, graph.WritesSlot other slot → other = index) :
    (graph.writes graph.regions).count slot = 1 := by
  have nodup : (graph.writers slot).Nodup := graph.nodup_liveIndices.filter _
  have single : (graph.writers slot).Perm [index] := by
    rw [List.perm_ext_iff_of_nodup nodup (List.nodup_singleton index)]
    intro other
    rw [mem_writers, List.mem_singleton]
    constructor
    · exact only other
    · rintro rfl
      exact writes
  rw [count_writes, single.length_eq, List.length_singleton]

theorem hasTarget_of_written {instr : Instruction} (written : written? instr = some cell) :
    instr.opcode.hasTarget = false := by
  unfold written? at written
  split at written
  · cases written
  · rename_i plain
    rw [Bool.or_eq_true, not_or] at plain
    exact Bool.eq_false_iff.2 plain.2

section

variable (shaped : node.Shaped)
include shaped

theorem Node.Shaped.target_of_written
    (written : written? node.instruction = some cell) : node.target = none := by
  rw [← Option.isNone_iff_eq_none, ← Option.isSome_eq_false_iff, shaped.target]
  exact hasTarget_of_written written

theorem written?_instructionFor :
    written? (graph.instructionFor node) = written? node.instruction := by
  unfold instructionFor
  cases leads : node.target with
  | none => rfl
  | some target =>
    have hasTarget := shaped.target
    rw [leads] at hasTarget
    simp only [written?, ← hasTarget, Option.isSome_some, Bool.or_true, if_true]

theorem instructionFor_of_written (written : written? node.instruction = some cell) :
    graph.instructionFor node = node.instruction := by
  rw [instructionFor, shaped.target_of_written written]

theorem Node.Shaped.hasOneSuccessor_eq (aimless : node.target = none) :
    hasOneSuccessor node = node.next.isSome := by
  have onward : node.successors = node.next.toList := by
    unfold Node.successors
    cases named : node.instruction.opcode with
    | goto =>
      have stays := shaped.next
      rw [named] at stays
      rw [aimless, Option.isNone_iff_eq_none.1 (Option.isSome_eq_false_iff.1 stays)]
    | call | gotoFalse => rw [aimless, Option.toList_none, List.nil_append]
    | gotoTrue => rw [aimless, Option.toList_none, List.append_nil]
    | _ => rfl
  unfold hasOneSuccessor
  rw [onward]
  cases node.next <;> rfl

end

theorem Counterpart.hasOneSuccessor_eq {node' : Node} (counterpart : graph.Counterpart place node node')
    (shaped : node.Shaped) (shaped' : node'.Shaped) (aimless : node.target = none) :
    hasOneSuccessor node' = hasOneSuccessor node := by
  have aimless' : node'.target = none := by
    rw [counterpart.target, aimless]
    rfl
  rw [shaped.hasOneSuccessor_eq aimless, shaped'.hasOneSuccessor_eq aimless', counterpart.next,
    Option.isSome_map]

/-! ### Passes over a layout -/

def Item.added? : Item → Option Nat
  | .goto target => some target
  | _ => none

/-- Whether control goes on to an instruction from the place before it. -/
def isFallenInto (graph : FlowGraph) (index : Nat) : Bool :=
  0 < graph.placeOf index &&
    ((graph.items[graph.placeOf index - 1]?).bind Item.vertex?).any fun before =>
      ((graph.nodes[before]?).bind Node.next) = some index

/-- Whether an instruction jumps to another one, and a layout has nothing that keeps the jump. -/
def bounces (graph : FlowGraph) (index : Nat) : Bool :=
  (graph.nodes[index]?).any (fun node =>
    node.instruction.opcode = .goto && node.target ≠ some index) &&
      !graph.entries.contains index && !graph.isFallenInto index

/-- No jump is added that leads to a jump which is otherwise reached by jumps only. -/
def LandsClear (graph : FlowGraph) : Prop :=
  ∀ index ∈ graph.items.filterMap Item.added?, graph.bounces index = false

instance (graph : FlowGraph) : Decidable graph.LandsClear :=
  inferInstanceAs (Decidable (∀ index ∈ _, _))

theorem exists_of_isFallenInto (fallen : graph.isFallenInto index = true) :
    ∃ (place before : Nat) (node : Node), graph.placeOf index = place + 1 ∧
      graph.items[place]? = some (.node before) ∧ graph.nodes[before]? = some node ∧
      node.next = some index := by
  rw [isFallenInto, Bool.and_eq_true, decide_eq_true_eq, Option.any_eq_true] at fallen
  obtain ⟨positive, before, standing, leads⟩ := fallen
  obtain ⟨item, here, isNode⟩ := Option.bind_eq_some_iff.1 standing
  obtain ⟨node, found, next⟩ := Option.bind_eq_some_iff.1 (of_decide_eq_true leads)
  cases item with
  | exit | goto => cases isNode
  | node vertex =>
    cases isNode
    exact ⟨graph.placeOf index - 1, before, node, by omega, here, found, next⟩

/-- A jump that is not taken out is one to which control goes on, or with which a function starts. -/
theorem Exact.exists_source (isExact : graph.Exact) (found : graph.nodes[index]? = some node)
    (live : node.live = true) (jumps : node.instruction.opcode = .goto)
    (apart : node.target ≠ some index) (kept : ¬ graph.isThreadable index = true) :
    ∃ (source : Nat) (other : Node), graph.nodes[source]? = some other ∧ other.live = true ∧
      (other.next = some index ∨ other.instruction.opcode = .call ∧ other.target = some index) := by
  have reached : ¬ graph.onlyJumpedTo index = true := by
    intro only
    apply kept
    simp [isThreadable, found, live, jumps, apart, only]
  rw [onlyJumpedTo, List.all_eq_true] at reached
  simp only [not_forall] at reached
  obtain ⟨source, listed, elsewhere⟩ := reached
  obtain ⟨other, here, alive, leads⟩ := isExact.origins index source listed
  rw [(isExact.coherent.shaped source other here).mem_successors] at leads
  refine ⟨source, other, here, alive, ?_⟩
  by_cases falls : other.next = some index
  · exact .inl falls
  · have target := leads.resolve_left falls
    refine .inr ⟨?_, target⟩
    simpa [here, falls, target] using elsewhere

namespace Relaid

section

variable (relaid : graph.Relaid after)
include relaid

theorem ne_of_falls (threadable : after.isThreadable place = true) {before next : Nat}
    (standing : graph.items[before]? = some (.node vertex))
    (found : graph.nodes[vertex]? = some node) (leads : node.next = some next) :
    place ≠ before + 1 := by
  rintro rfl
  obtain ⟨node', found', live, same⟩ := relaid.live_counterpart standing found
  have next' : node'.next = some (before + 1) := by
    rw [same.next, leads]
    rfl
  have among := ((relaid.coherent'.shaped _ _ found').mem_successors _).2 (.inl next')
  exact (relaid.coherent'.jumps_of_threadable threadable found' live among).1 next'

theorem ne_of_calls (threadable : after.isThreadable place = true) {target : Nat}
    (found : graph.nodes[vertex]? = some node) (live : node.live = true)
    (calls : node.instruction.opcode = .call) (leads : node.target = some target) :
    place ≠ graph.placeOf target := by
  rintro rfl
  obtain ⟨node', found', live', same⟩ :=
    relaid.live_counterpart (placed_goto relaid.coherent ⟨node, found, live⟩) found
  have target' : node'.target = some (graph.placeOf target) := by
    rw [same.target, leads]
    rfl
  have among := ((relaid.coherent'.shaped _ _ found').mem_successors _).2 (.inr target')
  exact (relaid.coherent'.jumps_of_threadable threadable found' live' among).2 (same.opcode.trans calls)

/-- No jump can be taken out of a layout if none could be taken out before. -/
theorem not_threadable (landsClear : graph.LandsClear)
    (kept : ∀ index ∈ graph.order, ¬ graph.isThreadable index = true) (place : Nat) :
    ¬ after.isThreadable place = true := by
  intro threadable
  have coherent := relaid.coherent
  obtain ⟨node', dest, found', _, jumps, target', _, apart⟩ :=
    isThreadable_eq_true relaid.coherent' threadable
  obtain ⟨item, here, laid⟩ := relaid.laid_of_node found'
  cases laid with
  | exit instr =>
    rw [instr] at jumps
    cases jumps
  | goto =>
    cases coherent.arises here with
    | follows follows standing found leads =>
      exact relaid.ne_of_falls threadable standing found leads follows
  | @node vertex node found live same =>
    have isPlace := coherent.eq_placeOf here
    have isGoto : node.instruction.opcode = .goto := same.opcode.symm.trans jumps
    have elsewhere : node.target ≠ some vertex := by
      intro self
      have target := same.target
      rw [self, Option.map_some, target', ← isPlace] at target
      exact apart (Option.some.inj target)
    obtain ⟨source, other, found'', alive, falls | ⟨calls, leads⟩⟩ :=
      relaid.isExact.exists_source found live isGoto elsewhere
        (kept vertex (relaid.isExact.mem_order ⟨node, found, live⟩))
    · have standing := placed_goto coherent ⟨other, found'', alive⟩
      rcases placed_next coherent found'' alive falls standing with ⟨_, stands | added⟩ | ⟨isEnd, _⟩
      · apply relaid.ne_of_falls threadable standing found'' falls
        rw [coherent.eq_placeOf stands, isPlace]
      · -- an added jump leads to the jump, so a function starts with it or control goes on to it
        have clear := landsClear vertex (List.mem_filterMap.2
          ⟨.goto vertex, List.mem_of_getElem? added, rfl⟩)
        have reached : vertex ∈ graph.entries ∨ graph.isFallenInto vertex = true := by
          simpa [bounces, found, isGoto, elsewhere, ← or_iff_not_imp_left] using clear
        rcases reached with listed | fallen
        · rcases mem_entries.1 listed with rfl | ⟨_, _, _, called, alive, calls, leads⟩
          · obtain ⟨start, found', _, isInit⟩ := coherent.root
            cases found.symm.trans found'
            rw [isInit] at isGoto
            cases isGoto
          · exact relaid.ne_of_calls threadable called alive calls leads isPlace
        · obtain ⟨before, _, _, follows, standing, found, next⟩ := exists_of_isFallenInto fallen
          exact relaid.ne_of_falls threadable standing found next (isPlace.trans follows)
      · have inside := (coherent.live_of_item here).lt
        omega
    · exact relaid.ne_of_calls threadable found'' alive calls leads isPlace

theorem writesSlot (writes : graph.WritesSlot index slot) :
    after.WritesSlot (graph.placeOf index) ⟨slot.region.map graph.placeOf, slot.cell⟩ := by
  obtain ⟨node, found, live, region, written⟩ := writes
  obtain ⟨node', found', live', same⟩ :=
    relaid.live_counterpart (placed_goto relaid.coherent ⟨node, found, live⟩) found
  refine ⟨node', found', live', ?_, ?_⟩
  · rw [region, relaid.regionOf_placeOf ⟨node, found, live⟩]
  · rw [same.instruction, instructionFor_of_written (relaid.coherent.shaped _ _ found) written, written]

theorem once (writes : graph.WritesSlot index slot)
    (once' : (after.writes after.regions).count ⟨slot.region.map graph.placeOf, slot.cell⟩ = 1) :
    (graph.writes graph.regions).count slot = 1 := by
  apply writes.once
  intro other writes'
  apply relaid.coherent.placeOf_injective writes'.live writes.live
  exact (relaid.writesSlot writes').unique once' (relaid.writesSlot writes)

/-- No constant can be folded in a layout if none could be folded before. -/
theorem not_canFold (kept : ∀ index ∈ graph.order, ¬ graph.CanFold index) (place : Nat) :
    ¬ after.CanFold place := by
  rintro ⟨node', cell, value, foldable⟩
  have coherent := relaid.coherent
  obtain ⟨item, here, laid⟩ := relaid.laid_of_node foldable.found
  have written' := foldable.written
  cases laid with
  | exit instr =>
    rw [instr] at written'
    cases written'
  | goto _ opcode =>
    have plain := hasTarget_of_written written'
    rw [opcode] at plain
    cases plain
  | @node vertex node found live counterpart =>
    have shaped := coherent.shaped vertex node found
    have written : written? node.instruction = some cell := by
      rw [← written?_instructionFor shaped, ← counterpart.instruction]
      exact written'
    have same : node'.instruction = node.instruction :=
      counterpart.instruction.trans (instructionFor_of_written shaped written)
    have writes : graph.WritesSlot vertex ⟨regionOf graph.regions vertex, cell⟩ :=
      ⟨node, found, live, rfl, written⟩
    have once' := foldable.once
    rw [coherent.eq_placeOf here, relaid.regionOf_placeOf writes.live] at once'
    have single := foldable.single
    rw [counterpart.hasOneSuccessor_eq shaped (relaid.coherent'.shaped _ _ foldable.found)
      (shaped.target_of_written written)] at single
    exact kept vertex (relaid.isExact.mem_order writes.live) ⟨node, cell, value, found, written,
      foldable.inTemps, same ▸ foldable.known, relaid.once writes once', foldable.typed, single⟩

end

end Relaid

end FlowGraph

namespace Optimization

variable {code : Code} {graph after : FlowGraph} {options : Options}

/-! ### Rounds -/

def afterRound (options : Options) (graph : FlowGraph) : FlowGraph :=
  (passIf options.constantFolding FlowGraph.foldConstants
    (passIf options.jumpThreading FlowGraph.threadJumps graph).1).1

theorem iterate_succ (options : Options) (graph : FlowGraph) (stats : Stats) :
    ∃ counted : Stats, counted.rounds = stats.rounds + 1 ∧ ∀ rounds,
      iterate options (rounds + 1) graph stats =
        if (afterRound options graph).liveCount = graph.liveCount then
          (afterRound options graph, counted)
        else iterate options rounds (afterRound options graph) counted :=
  ⟨_, rfl, fun _ => rfl⟩

/-- No pass that is wanted has anything to take out. -/
structure Idle (options : Options) (graph : FlowGraph) : Prop where
  jumps : options.jumpThreading = true →
    ∀ index ∈ graph.order, ¬ graph.isThreadable index = true
  constants : options.constantFolding = true → ∀ index ∈ graph.order, ¬ graph.CanFold index

section

variable {acts : Nat → Prop} {pass : FlowGraph → FlowGraph × Nat} {wanted : Bool}

theorem passIf_of_none (finds : graph.Finds acts (pass graph))
    (none : wanted = true → ∀ index ∈ graph.order, ¬ acts index) :
    passIf wanted pass graph = (graph, 0) := by
  unfold passIf
  split
  · rename_i isWanted
    rcases finds with ⟨_, same⟩ | ⟨⟨index, listed, acting⟩, _⟩
    · exact same
    · exact absurd acting (none isWanted index listed)
  · rfl

theorem none_of_passIf (finds : graph.Finds acts (pass graph))
    (nothing : (passIf wanted pass graph).2 = 0) (isWanted : wanted = true) :
    ∀ index ∈ graph.order, ¬ acts index := by
  rw [passIf, if_pos isWanted] at nothing
  rcases finds with ⟨none, _⟩ | ⟨_, counted⟩
  · exact none
  · omega

theorem passIf_reduces (isExact : graph.Exact) (reduces : graph.Reduces (pass graph)) :
    graph.Reduces (passIf wanted pass graph) := by
  unfold passIf
  split
  · exact reduces
  · exact ⟨isExact, Nat.add_zero _⟩

end

theorem Idle.threadJumps (idle : Idle options graph) :
    passIf options.jumpThreading FlowGraph.threadJumps graph = (graph, 0) :=
  passIf_of_none graph.finds_threadJumps idle.jumps

theorem Idle.foldConstants (idle : Idle options graph) :
    passIf options.constantFolding FlowGraph.foldConstants graph = (graph, 0) :=
  passIf_of_none graph.finds_foldConstants idle.constants

theorem Idle.iterate (idle : Idle options graph) (rounds : Nat) (stats : Stats) :
    iterate options (rounds + 1) graph stats =
      (graph, { stats with rounds := stats.rounds + 1 }) := by
  simp only [Optimization.iterate, idle.threadJumps, idle.foldConstants, Nat.add_zero, if_true]

theorem round_reduces (options : Options) (isExact : graph.Exact) :
    graph.Reduces (passIf options.jumpThreading FlowGraph.threadJumps graph) ∧
      (passIf options.jumpThreading FlowGraph.threadJumps graph).1.Reduces
        (passIf options.constantFolding FlowGraph.foldConstants
          (passIf options.jumpThreading FlowGraph.threadJumps graph).1) := by
  have first := @passIf_reduces _ _ options.jumpThreading isExact isExact.threadJumps
  exact ⟨first, passIf_reduces first.isExact first.isExact.foldConstants⟩

/-- A round that takes nothing out leaves the graph as it is, and no further round would take anything
out. -/
theorem idle_of_round (isExact : graph.Exact)
    (same : (afterRound options graph).liveCount = graph.liveCount) :
    afterRound options graph = graph ∧ Idle options graph := by
  obtain ⟨⟨_, counts⟩, _, counts'⟩ := round_reduces options isExact
  unfold afterRound at same
  have noJumps : (passIf options.jumpThreading FlowGraph.threadJumps graph).2 = 0 := by omega
  have jumps := none_of_passIf graph.finds_threadJumps noJumps
  have unchanged := passIf_of_none graph.finds_threadJumps jumps
  rw [unchanged] at same counts'
  simp only at same counts'
  have noConstants : (passIf options.constantFolding FlowGraph.foldConstants graph).2 = 0 := by omega
  have idle : Idle options graph := ⟨jumps, none_of_passIf graph.finds_foldConstants noConstants⟩
  exact ⟨by rw [afterRound, idle.threadJumps, idle.foldConstants], idle⟩

/-- If one more round would not be made, the rounds have come to their end. -/
theorem idle_of_rounds (isExact : graph.Exact) (rounds : Nat) (stats : Stats)
    (ended : (iterate options (rounds + 1) graph stats).2.rounds =
      (iterate options rounds graph stats).2.rounds) :
    Idle options (iterate options rounds graph stats).1 := by
  induction rounds generalizing graph stats with
  | zero =>
    obtain ⟨counted, more, step⟩ := iterate_succ options graph stats
    rw [step] at ended
    split at ended
    · simp only [iterate] at ended
      omega
    · simp only [iterate] at ended
      omega
  | succ rounds ih =>
    obtain ⟨counted, _, step⟩ := iterate_succ options graph stats
    rw [step rounds]
    rw [step, step] at ended
    split
    · rename_i same
      obtain ⟨unchanged, idle⟩ := idle_of_round isExact same
      rw [unchanged]
      exact idle
    · rename_i different
      rw [if_neg different, if_neg different] at ended
      exact ih (round_reduces options isExact).2.isExact counted ended

/-! ### The second run -/

theorem idle_relaid (relaid : graph.Relaid after) (idle : Idle options graph)
    (landsClear : options.jumpThreading = true → graph.LandsClear) : Idle options after :=
  ⟨fun wanted place _ => relaid.not_threadable (landsClear wanted) (idle.jumps wanted) place,
    fun wanted place _ => relaid.not_canFold (idle.constants wanted) place⟩

theorem liveCount_relaid (relaid : graph.Relaid after) : after.liveCount = graph.toCode.size := by
  have all : after.liveIndices = List.range after.nodes.size := by
    apply List.filter_eq_self.2
    intro place inside
    obtain ⟨item, here⟩ := relaid.exists_item (List.mem_range.1 inside)
    obtain ⟨node, found, live⟩ := relaid.live here
    rw [found]
    exact live
  rw [(FlowGraph.exact_ofCode relaid.accepted).counted, all, List.length_range,
    FlowGraph.size_ofCode relaid.accepted]

theorem exists_rounds (options : Options) : ∃ more, options.rounds = more + 1 := by
  apply Nat.exists_eq_succ_of_ne_zero
  unfold Options.rounds
  split
  · decide
  · omega

theorem iterate_maxRounds (options : Options) (limit : Int) (rounds : Nat) (graph : FlowGraph)
    (stats : Stats) :
    iterate { options with maxRounds := limit } rounds graph stats =
      iterate options rounds graph stats := by
  induction rounds generalizing graph stats with
  | zero => rfl
  | succ rounds ih => simp only [iterate, ih]

/-- Where a higher limit changes nothing, the rounds have come to their end. -/
theorem idle_of_optimize (accepted : FlowGraph.ofCode code = .ok graph) {stats : Stats}
    (start : stats = { before := code.size, unreachable := code.size - graph.liveCount })
    (unlimited : optimize code { options with maxRounds := options.rounds + 1 } = optimize code options) :
    Idle options (iterate options options.rounds graph stats).1 := by
  have higher : Options.rounds { options with maxRounds := options.rounds + 1 } =
      options.rounds + 1 := by
    have positive : ¬ ((options.rounds : Int) + 1 ≤ 0) := by omega
    exact (if_neg positive).trans (Int.toNat_natCast (options.rounds + 1))
  rw [optimize_eq accepted, optimize_eq accepted, higher, iterate_maxRounds, ← start] at unlimited
  apply idle_of_rounds (FlowGraph.exact_ofCode accepted)
  exact congrArg (fun made : Code × Stats => made.2.rounds) (Except.ok.inj unlimited)

/-- An optimized program is left as it is when it is optimized again, provided that the limit on rounds
made no difference, that the program's own body ends before its functions, and that no jump to a jump
was added. -/
theorem optimize_optimized {final : FlowGraph} {counted : Stats}
    (accepted : FlowGraph.ofCode code = .ok graph) (reduced : iterate options options.rounds graph
      { before := code.size, unreachable := code.size - graph.liveCount } = (final, counted))
    (unlimited : optimize code { options with maxRounds := options.rounds + 1 } = optimize code options)
    (endsOwn : final.EndsOwn) (landsClear : options.jumpThreading = true → final.LandsClear) :
    ∃ first again : Stats, optimize code options = .ok (final.toCode, first) ∧
      optimize final.toCode options = .ok (final.toCode, again) ∧
      again.threaded = 0 ∧ again.folded = 0 ∧ again.unreachable = 0 := by
  have isExact := exact_iterate options accepted
    { before := code.size, unreachable := code.size - graph.liveCount }
  have idle := idle_of_optimize accepted rfl unlimited
  rw [reduced] at isExact idle
  obtain ⟨after, relaid⟩ := isExact.exists_relaid
  obtain ⟨more, rounds⟩ := exists_rounds options
  have idle' := idle_relaid relaid idle landsClear
  have second : optimize final.toCode options = .ok (final.toCode,
      { before := final.toCode.size, after := final.toCode.size, rounds := 1 }) := by
    rw [optimize_eq relaid.accepted, rounds, idle'.iterate, liveCount_relaid relaid, Nat.sub_self]
    simp only [relaid.toCode endsOwn, Nat.zero_add]
  refine ⟨{ counted with after := final.toCode.size }, _, ?_, second, rfl, rfl, rfl⟩
  rw [optimize_eq accepted, reduced]

/-- A program with a jump to a jump, a constant, and a function that goes on into the program's own
body, which then comes to the end of the program. -/
def relay : Code :=
  #[{ opcode := .goto, result := .target 1 },
    { opcode := .init },
    { opcode := .load, left := .literal (.int 2), result := .address scratch },
    { opcode := .openRecord },
    { opcode := .call, result := .target 9 },
    { opcode := .gotoFalse, left := .literal (.bool false), result := .target 8 },
    { opcode := .store, left := .address scratch, result := .address .origin },
    { opcode := .goto, result := .target 10 },
    { opcode := .goto, result := .target 6 },
    { opcode := .store, left := .literal (.int 3), result := .address .origin },
    { opcode := .store, left := .literal (.int 5), result := .address .origin }]

theorem relay_optimized : ∃ (graph final : FlowGraph) (counted first again : Stats),
    FlowGraph.ofCode relay = .ok graph ∧
    iterate {} (Options.rounds {}) graph
      { before := relay.size, unreachable := relay.size - graph.liveCount } = (final, counted) ∧
    optimize relay { maxRounds := Options.rounds {} + 1 } = optimize relay {} ∧
    final.EndsOwn ∧ final.LandsClear ∧
    optimize relay {} = .ok (final.toCode, first) ∧
    optimize final.toCode {} = .ok (final.toCode, again) ∧
    again.threaded = 0 ∧ again.folded = 0 ∧ again.unreachable = 0 := by
  obtain ⟨graph, accepted, endsOwn, landsClear⟩ : ∃ graph, FlowGraph.ofCode relay = .ok graph ∧
      let made := iterate {} (Options.rounds {}) graph
        { before := relay.size, unreachable := relay.size - graph.liveCount }
      made.1.EndsOwn ∧ made.1.LandsClear :=
    exists_ok_of_any (by decide +kernel)
  have unlimited : optimize relay { maxRounds := Options.rounds {} + 1 } = optimize relay {} := by
    have same : (optimize relay { maxRounds := Options.rounds {} + 1 }).toOption =
        (optimize relay {}).toOption := by
      decide +kernel
    rw [optimize_eq accepted, optimize_eq accepted] at same ⊢
    exact congrArg Except.ok (Option.some.inj same)
  rcases reduced : iterate {} (Options.rounds {}) graph
    { before := relay.size, unreachable := relay.size - graph.liveCount } with ⟨final, counted⟩
  rw [reduced] at endsOwn landsClear
  obtain ⟨first, again, outcome⟩ :=
    optimize_optimized accepted reduced unlimited endsOwn fun _ => landsClear
  exact ⟨graph, final, counted, first, again, accepted, reduced, unlimited, endsOwn, landsClear,
    outcome⟩

/-- Makes an intermediate result from the one before it. -/
def increment (offset : Nat) : Instruction :=
  { opcode := .add
    left := .address { scratch with offset := offset.toUInt32 }
    right := .literal (.int 1)
    result := .address { scratch with offset := (offset + 1).toUInt32 } }

/-- A program in which every instruction needs the result of the following one. -/
def descent : Code :=
  #[{ opcode := .init }] ++ ((List.range 32).reverse.map increment).toArray ++
    #[{ opcode := .load, left := .literal (.int 1), result := .address scratch }]

/-- Each round learns one result, so the rounds are used up before the last one is known. -/
theorem descent_optimized_twice : ∃ once twice first second, optimize descent {} = .ok (once, first) ∧
    optimize once {} = .ok (twice, second) ∧ twice ≠ once ∧ second.folded = 1 := by
  have checked : ((optimize descent {}).toOption.bind fun made =>
      (optimize made.1 {}).toOption.map fun remade => (made.1.size, remade.1.size, remade.2.folded)) =
        some (3, 2, 1) := by
    decide +kernel
  obtain ⟨⟨once, first⟩, made, checked⟩ := Option.bind_eq_some_iff.1 checked
  obtain ⟨⟨twice, second⟩, remade, checked⟩ := Option.map_eq_some_iff.1 checked
  simp only [Prod.mk.injEq] at checked
  obtain ⟨size, size', folded⟩ := checked
  refine ⟨once, twice, first, second, toOption_eq_some.1 made, toOption_eq_some.1 remade, ?_, folded⟩
  rintro rfl
  omega

end Optimization

end Quadruple
