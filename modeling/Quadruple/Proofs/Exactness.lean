import Quadruple.Optimization
import Quadruple.Proofs.Folding
import Quadruple.Proofs.Optimized

/-!
Exact flow graphs. The table of predecessors names nothing but live instructions that lead to the
vertex, every live instruction can be reached from the start, and their number is known. The flow
graph of a program is exact, and what the passes take out leaves it so.
-/

namespace Quadruple.FlowGraph

variable {graph : FlowGraph} {index dest vertex : Nat} {node : Node} {source : Nat} {graph' : FlowGraph}

structure Exact (graph : FlowGraph) : Prop where
  coherent : graph.Coherent
  ascending : graph.Ascending
  origins : ∀ vertex source : Nat, source ∈ graph.predecessors.getD vertex [] →
    ∃ node, graph.nodes[source]? = some node ∧ node.live = true ∧ vertex ∈ node.successors
  reached : ∀ vertex : Nat, graph.Live vertex → Leads graph.successors graph.root vertex
  counted : graph.liveCount = graph.liveIndices.length

theorem mem_order_of_leads (coherent : graph.Coherent)
    (leads : Leads graph.successors graph.root vertex) (inside : vertex < graph.finish) :
    vertex ∈ graph.order := by
  have rootInside : graph.root < graph.nodes.size := coherent.live_root.lt
  induction leads with
  | refl => exact mem_reachableFrom_root rootInside
  | @tail before after path led ih =>
    have bounded : before < graph.finish := by
      by_contra beyond
      have outside : graph.nodes[before]? = none :=
        Array.getElem?_eq_none_iff.2 (Nat.le_of_not_lt beyond)
      simp only [successors, successorsIn, outside] at led
      cases led
    exact mem_reachableFrom_of_leads rootInside (ih bounded) led inside

theorem Exact.mem_order (isExact : graph.Exact) (live : graph.Live vertex) : vertex ∈ graph.order :=
  mem_order_of_leads isExact.coherent (isExact.reached vertex live) live.lt

theorem Node.Shaped.isJump_or_call (shaped : node.Shaped) {target : Nat}
    (leads : node.target = some target) :
    node.instruction.opcode.isJump = true ∨ node.instruction.opcode = .call := by
  have hasTarget := shaped.target
  rw [leads] at hasTarget
  cases named : node.instruction.opcode with
  | goto | gotoTrue | gotoFalse => exact .inl rfl
  | call => exact .inr rfl
  | _ =>
    rw [named] at hasTarget
    cases hasTarget

theorem Exact.exists_owner (isExact : graph.Exact) (live : graph.Live vertex) :
    ∃ entry, graph.Owner entry vertex := by
  have coherent := isExact.coherent
  have inBody : ∃ entry ∈ graph.entries, graph.Body entry vertex := by
    have path := isExact.reached vertex live
    induction path with
    | refl => exact ⟨graph.root, mem_entries.2 (.inl rfl), .refl⟩
    | @tail before vertex path led ih =>
      obtain ⟨node, found, alive⟩ := (coherent.stands_of_leads path).live_of_leads led
      obtain ⟨entry, listed, inBody⟩ := ih ⟨node, found, alive⟩
      have shaped := coherent.shaped before node found
      rw [successors_of_node found, shaped.mem_successors] at led
      rcases led with next | target
      · exact ⟨entry, listed, inBody.tail ((mem_bodySuccessors found).2 (.inl next))⟩
      · rcases shaped.isJump_or_call target with jumps | calls
        · exact ⟨entry, listed, inBody.tail ((mem_bodySuccessors found).2 (.inr ⟨jumps, target⟩))⟩
        · exact ⟨vertex, mem_entries.2 (.inr ⟨Nat.ne_of_lt live.lt, before, node, found, alive, calls,
            target⟩), .refl⟩
  obtain ⟨entry, listed, inBody⟩ := inBody
  cases first : graph.firstEntry graph.entries vertex with
  | none => exact absurd inBody (firstEntry_eq_none.1 first entry listed)
  | some owner => exact ⟨owner, owner_of_firstEntry first⟩

/-! ### The flow graph of a program -/

theorem exists_of_mem_predecessorsOf {nodes : Array Node}
    (listed : source ∈ (predecessorsOf nodes).getD vertex []) :
    ∃ node, nodes[source]? = some node ∧ node.live = true ∧ vertex ∈ node.successors := by
  rcases mem_predecessors_foldl.1 listed with before | ⟨among, leads, _⟩
  · rw [Array.getD_eq_getD_getElem?, Array.getElem?_replicate] at before
    split at before <;> cases before
  · obtain ⟨node, found, live⟩ := (Option.any_eq_true _ _).1 (List.mem_filter.1 among).2
    refine ⟨node, found, live, ?_⟩
    simpa only [successorsIn, found] using leads

theorem nodup_liveIndices (graph : FlowGraph) : graph.liveIndices.Nodup :=
  List.nodup_range.filter _

theorem exact_ofCode {code : Code} (accepted : ofCode code = .ok graph) : graph.Exact := by
  have coherent := coherent_ofCode accepted
  refine ⟨coherent, ascending_ofCode accepted, ?_, ?_, ?_⟩
  · intro vertex source listed
    obtain ⟨_, _, _, _, table⟩ := ofCode_eq_ok accepted
    rw [table] at listed
    exact exists_of_mem_predecessorsOf listed
  · intro vertex live
    have visited := (live_ofCode accepted).1 live
    rw [reachableFrom, List.mem_filter] at visited
    obtain ⟨start, onStack, leads⟩ := leads_of_explored _ _ visited.1
    rw [List.mem_singleton.1 onStack] at leads
    exact leads
  · rw [liveCount_ofCode accepted]
    apply List.Perm.length_eq
    rw [List.perm_ext_iff_of_nodup coherent.nodup_order graph.nodup_liveIndices]
    intro vertex
    rw [mem_liveIndices]
    exact (live_ofCode accepted).symm

/-! ### Taking an instruction out -/

/-- An instruction that can be taken out, from which control goes on to one vertex only. -/
structure Passes (graph : FlowGraph) (index dest : Nat) (node : Node) : Prop where
  skippable : graph.Skippable index dest node
  only : ∀ other ∈ node.successors, other = dest
  /-- What control goes on from to the instruction stands before its successor too. -/
  rises : ∀ (place : Nat) (other : Node), graph.nodes[place]? = some other → other.live = true →
    other.next = some index → place < dest

namespace Passes

section

variable (passes : graph.Passes index dest node)
include passes

theorem origins (isExact : graph.Exact) {source : Nat}
    (listed : source ∈ (graph.splice index).predecessors.getD vertex []) :
    source ≠ index ∧ graph.Live source ∧
      ∃ former ∈ graph.successors source, bypass index dest former = vertex := by
  have skippable := passes.skippable
  have self : index ∉ graph.predecessors.getD index [] := by
    intro listed
    obtain ⟨other, found, _, leads⟩ := isExact.origins index index listed
    cases skippable.found.symm.trans found
    exact skippable.apart (passes.only index leads).symm
  -- a predecessor of the instruction, or of the vertex itself
  have from' : ∀ former, source ∈ graph.predecessors.getD former [] →
      graph.Live source ∧ former ∈ graph.successors source := by
    intro former listed
    obtain ⟨other, found, live, leads⟩ := isExact.origins former source listed
    exact ⟨⟨other, found, live⟩, by rw [successors_of_node found]; exact leads⟩
  have table := predecessors_splice skippable.found skippable.onward
  rw [table, Array.getD_eq_getD_getElem?, Array.getElem?_setIfInBounds] at listed
  by_cases here : index = vertex
  · rw [if_pos here] at listed
    split at listed <;> cases listed
  · rw [if_neg here, ← Array.getD_eq_getD_getElem?, getD_modify] at listed
    split at listed
    · rename_i isDest
      rcases List.mem_append.1 listed with before | through
      · obtain ⟨before, different⟩ := List.mem_filter.1 before
        obtain ⟨live, leads⟩ := from' vertex before
        exact ⟨of_decide_eq_true different, live, vertex, leads, bypass_of_ne (Ne.symm here)⟩
      · obtain ⟨live, leads⟩ := from' index through
        refine ⟨fun same => self (same ▸ through), live, index, leads, ?_⟩
        rw [bypass_self, isDest.1]
    · rename_i elsewhere
      obtain ⟨live, leads⟩ := from' vertex listed
      refine ⟨?_, live, vertex, leads, bypass_of_ne (Ne.symm here)⟩
      rintro rfl
      rw [successors_of_node skippable.found] at leads
      have bounded : vertex < graph.predecessors.size := by
        by_contra beyond
        rw [Array.getD_eq_getD_getElem?, Array.getElem?_eq_none_iff.2 (Nat.le_of_not_lt beyond)]
          at listed
        cases listed
      exact elsewhere ⟨passes.only vertex leads, bounded⟩

theorem leads (path : Leads graph.successors graph.root vertex) :
    Leads (graph.splice index).successors graph.root (bypass index dest vertex) := by
  have skippable := passes.skippable
  induction path with
  | refl =>
    rw [bypass_of_ne (Ne.symm (skippable.coherent.not_root skippable.found skippable.notInit))]
    exact .refl
  | @tail before after path led ih =>
    by_cases through : before = index
    · subst through
      rw [successors_of_node skippable.found] at led
      rw [passes.only after led, bypass_of_ne skippable.apart]
      rwa [bypass_self] at ih
    · rw [bypass_of_ne through] at ih
      obtain ⟨other, found, live⟩ := (skippable.coherent.stands_of_leads path).live_of_leads led
      rw [successors_of_node found] at led
      refine ih.tail ?_
      rw [successors_of_node (skippable.kept found live through), Node.mem_successors_bypass]
      exact ⟨after, led, rfl⟩

theorem liveIndices : (graph.splice index).liveIndices.length + 1 = graph.liveIndices.length := by
  have skippable := passes.skippable
  have listed : index ∈ graph.liveIndices :=
    mem_liveIndices.2 ⟨node, skippable.found, skippable.live⟩
  have fewer : (graph.splice index).liveIndices.Perm (graph.liveIndices.erase index) := by
    rw [List.perm_ext_iff_of_nodup (nodup_liveIndices _) (graph.nodup_liveIndices.erase index)]
    intro vertex
    rw [graph.nodup_liveIndices.mem_erase_iff, mem_liveIndices, mem_liveIndices,
      live_splice skippable.found skippable.onward skippable.apart, and_comm]
  have some := List.length_pos_of_mem listed
  rw [fewer.length_eq, List.length_erase_of_mem listed]
  omega

theorem liveCount (isExact : graph.Exact) :
    (graph.splice index).liveCount + 1 = graph.liveCount := by
  have fewer := passes.liveIndices
  have counted : (graph.splice index).liveCount = graph.liveCount - 1 := by
    unfold FlowGraph.splice
    rw [passes.skippable.found]
  rw [counted, isExact.counted]
  omega

theorem ascending (isExact : graph.Exact) : (graph.splice index).Ascending := by
  have skippable := passes.skippable
  intro place after here next leads
  rw [getElem?_splice skippable.found skippable.onward skippable.apart] at here
  obtain ⟨before, found, rfl⟩ := Option.map_eq_some_iff.1 here
  by_cases source : place ∈ graph.predecessors.getD index []
  · simp only [if_pos source, Node.bypass] at leads
    obtain ⟨former, leads', rfl⟩ := Option.map_eq_some_iff.1 leads
    by_cases through : former = index
    · obtain ⟨before', found', live, _⟩ := isExact.origins index place source
      cases found.symm.trans found'
      rw [through, bypass_self]
      exact passes.rises place before found live (through ▸ leads')
    · rw [bypass_of_ne through]
      exact isExact.ascending place before found former leads'
  · simp only [if_neg source] at leads
    exact isExact.ascending place before found next leads

theorem splice (isExact : graph.Exact) : (graph.splice index).Exact := by
  have skippable := passes.skippable
  refine ⟨skippable.splice, passes.ascending isExact, ?_, ?_, ?_⟩
  · intro vertex source listed
    obtain ⟨different, ⟨other, found, live⟩, former, leads, same⟩ := passes.origins isExact listed
    rw [successors_of_node found] at leads
    exact ⟨_, skippable.kept found live different, live,
      (other.mem_successors_bypass index dest vertex).2 ⟨former, leads, same⟩⟩
  · intro vertex live
    obtain ⟨before, different⟩ :=
      (live_splice skippable.found skippable.onward skippable.apart).1 live
    have path := passes.leads (isExact.reached vertex before)
    rwa [bypass_of_ne different, ← root_splice graph index] at path
  · have fewer := passes.liveCount isExact
    have fewer' := passes.liveIndices
    have counted := isExact.counted
    omega

end

end Passes

/-! ### The passes -/

/-- A pass leaves an exact graph and counts what it takes out. -/
structure Reduces (graph : FlowGraph) (result : FlowGraph × Nat) : Prop where
  isExact : result.1.Exact
  count : result.1.liveCount + result.2 = graph.liveCount

theorem Coherent.jumps_of_threadable (coherent : graph.Coherent)
    (threadable : graph.isThreadable index = true) (found : graph.nodes[source]? = some node)
    (live : node.live = true) (leads : index ∈ node.successors) :
    node.next ≠ some index ∧ node.instruction.opcode ≠ .call := by
  unfold isThreadable at threadable
  split at threadable
  · cases threadable
  · rw [Bool.and_eq_true, onlyJumpedTo, List.all_eq_true] at threadable
    have jumps := threadable.2 source (coherent.sources source node found live index leads)
    simp only [found, Bool.and_eq_true, decide_eq_true_eq] at jumps
    exact ⟨jumps.1.1, jumps.2⟩

theorem Exact.passes_thread (isExact : graph.Exact) (threadable : graph.isThreadable index = true) :
    ∃ dest node, graph.Passes index dest node := by
  obtain ⟨node, dest, found, live, jumps, target, onward, apart⟩ :=
    isThreadable_eq_true isExact.coherent threadable
  refine ⟨dest, node, ⟨isExact.coherent, found, live, onward, apart, ?_, ?_, ?_⟩, ?_, ?_⟩
  · rw [jumps]; decide
  · rw [jumps]; decide
  · rw [jumps]; decide
  · intro other leads
    simp only [Node.successors, jumps, target] at leads
    exact List.mem_singleton.1 leads
  · intro place other here alive falls
    have leads := ((isExact.coherent.shaped place other here).mem_successors index).2 (.inl falls)
    exact absurd falls (isExact.coherent.jumps_of_threadable threadable here alive leads).1

theorem Exact.threadAll (isExact : graph.Exact) (indices : List Nat) :
    graph.Reduces (threadAll indices graph) := by
  refine List.foldlRecOn (motive := graph.Reduces) _ _ ⟨isExact, Nat.add_zero _⟩ ?_
  rintro ⟨state, count⟩ ⟨isExact', total⟩ index _
  simp only at isExact' total
  by_cases threadable : state.isThreadable index = true
  · obtain ⟨dest, node, passes⟩ := isExact'.passes_thread threadable
    have fewer := passes.liveCount isExact'
    simp only [if_pos threadable]
    refine ⟨passes.splice isExact', ?_⟩
    simp only
    omega
  · simp only [if_neg threadable]
    exact ⟨isExact', total⟩

def Computing (graph : FlowGraph) (index : Nat) : Prop :=
  ∃ node, graph.nodes[index]? = some node ∧ node.live = true ∧
    (node.instruction.opcode = .load ∨ node.instruction.opcode.isPure = true)

theorem Exact.passes_computing (isExact : graph.Exact) (computing : graph.Computing index) :
    ∃ dest node, graph.Passes index dest node := by
  obtain ⟨node, found, live, computes⟩ := computing
  have shaped := isExact.coherent.shaped index node found
  have plain : node.instruction.opcode ≠ .goto ∧ fallsThrough node.instruction.opcode = true ∧
      node.instruction.opcode.hasTarget = false ∧ node.instruction.opcode ≠ .init ∧
      node.instruction.opcode ≠ .call ∧ node.instruction.opcode ≠ .param := by
    rcases computes with loads | pure
    · rw [loads]
      decide
    · cases named : node.instruction.opcode with
      | _ => first
        | decide
        | (rw [named] at pure; cases pure)
  obtain ⟨notGoto, falls, aimless, notInit, notCall, notParam⟩ := plain
  obtain ⟨dest, next⟩ := Option.isSome_iff_exists.1 (shaped.next.trans falls)
  have below := isExact.ascending index node found dest next
  have onward : node.onward = some dest := by
    rw [Node.onward, if_neg notGoto, next]
  refine ⟨dest, node, ⟨isExact.coherent, found, live, onward, Nat.ne_of_gt below, notInit, notCall,
    notParam⟩, ?_, ?_⟩
  · intro other leads
    rcases (shaped.mem_successors other).1 leads with same | target
    · exact Option.some.inj (same.symm.trans next)
    · have hasTarget := shaped.target
      rw [target, aimless] at hasTarget
      cases hasTarget
  · intro place other here alive falls
    exact Nat.lt_trans (isExact.ascending place other here index falls) below

theorem Passes.computing {other : Nat} (passes : graph.Passes index dest node)
    (computing : graph.Computing other) (different : other ≠ index) :
    (graph.splice index).Computing other := by
  obtain ⟨_, found, live, computes⟩ := computing
  exact ⟨_, passes.skippable.kept found live different, live, computes⟩

theorem Exact.spliceAll (isExact : graph.Exact) (indices : List Nat) (nodup : indices.Nodup)
    (computing : ∀ index ∈ indices, graph.Computing index) :
    graph.Reduces (indices.foldl FlowGraph.splice graph, indices.length) := by
  induction indices generalizing graph with
  | nil => exact ⟨isExact, Nat.add_zero _⟩
  | cons first rest ih =>
    obtain ⟨fresh, nodup⟩ := List.nodup_cons.1 nodup
    obtain ⟨dest, node, passes⟩ := isExact.passes_computing (computing first List.mem_cons_self)
    obtain ⟨final, total⟩ := ih (passes.splice isExact) nodup fun index later =>
      passes.computing (computing index (List.mem_cons_of_mem _ later)) fun same => fresh (same ▸ later)
    have fewer := passes.liveCount isExact
    refine ⟨final, ?_⟩
    simp only [List.foldl_cons, List.length_cons] at total ⊢
    omega

theorem Exact.reworded (isExact : graph.Exact) (reworded : graph.Reworded graph')
    (count : graph'.liveCount = graph.liveCount) : graph'.Exact := by
  refine ⟨reworded.coherent isExact.coherent, ?_, ?_, ?_, ?_⟩
  · intro place node' found' next leads
    obtain ⟨node, found, _, rfl, _⟩ := reworded.origin found'
    exact isExact.ascending place node found next leads
  · intro vertex source listed
    rw [reworded.predecessors] at listed
    obtain ⟨node, found, live, leads⟩ := isExact.origins vertex source listed
    obtain ⟨_, found', opcode⟩ := reworded.nodes source node found
    exact ⟨_, found', live, by simpa only [Node.successors, opcode] using leads⟩
  · intro vertex live
    rw [reworded.successors, reworded.root]
    exact isExact.reached vertex (reworded.live_iff.1 live)
  · rw [count, isExact.counted]
    apply List.Perm.length_eq
    rw [List.perm_ext_iff_of_nodup graph.nodup_liveIndices graph'.nodup_liveIndices]
    intro vertex
    rw [mem_liveIndices, mem_liveIndices, reworded.live_iff]

theorem Learned.computing {done : List Nat} {state : Folding} (learned : graph.Learned done state)
    (substituted : graph.Substituted state.facts graph') (listed : index ∈ state.folded) :
    graph'.Computing index := by
  obtain ⟨_, slot, value, _, computes⟩ := learned.folded index listed
  obtain ⟨node, found, live, _⟩ := computes.writes
  obtain ⟨instr, found', opcode, _⟩ := substituted.kept found
  refine ⟨_, found', live, ?_⟩
  rcases known?_eq_some (computes.known node found) with ⟨loads, _⟩ | ⟨pure, _⟩
  · rw [Facts.opcode_substitute] at loads
    exact .inl (opcode.trans loads)
  · rw [Facts.opcode_substitute] at pure
    exact .inr (by rw [opcode]; exact pure)

theorem Exact.threadJumps (isExact : graph.Exact) : graph.Reduces graph.threadJumps :=
  isExact.threadAll graph.order

theorem Exact.foldConstants (isExact : graph.Exact) : graph.Reduces graph.foldConstants := by
  obtain ⟨_, _, learned, substituted, count, folded⟩ := isExact.coherent.foldConstants_eq
  obtain ⟨final, total⟩ := (isExact.reworded substituted.reworded count).spliceAll _
    (List.nodup_reverse.2 learned.nodup) fun index listed =>
      learned.computing substituted (List.mem_reverse.1 listed)
  rw [List.length_reverse] at total
  rw [folded]
  exact ⟨final, total.trans count⟩

end Quadruple.FlowGraph

namespace Quadruple.Optimization

theorem exact_iterate {code : Code} {graph : FlowGraph} (options : Options)
    (accepted : FlowGraph.ofCode code = .ok graph) (stats : Stats) :
    (iterate options options.rounds graph stats).1.Exact :=
  iterate_induction (motive := FlowGraph.Exact) (fun _ isExact => isExact.threadJumps.isExact)
    (fun _ _ isExact => isExact.foldConstants.isExact) options.rounds stats
    (FlowGraph.exact_ofCode accepted)

end Quadruple.Optimization
