import Mathlib.Data.List.Chain
import Quadruple.Proofs.Exactness

/-!
The graphs that the passes go through. Whatever a pass has done so far, the table of predecessors fits
the ways on, the live instructions are those that control reaches and are as many as counted, and
control falls through to later places only. So a search of such a graph lists every live instruction
once, after all that control has to pass before it, and every one has its region.
-/

namespace Quadruple.FlowGraph

variable {graph start state : FlowGraph} {vertex : Nat} {code : Code}

/-! ### The passes -/

/-- What folding knows when it has looked at the first instructions of the order. -/
def foldingAfter (graph : FlowGraph) (seen : Nat) : Folding :=
  (graph.order.take seen).foldl (foldOne graph.regions (graph.writes graph.regions)) ⟨graph, [], []⟩

/-- The graphs that a pass goes through: when threading has looked at some instructions; when folding
has looked at some, when it has put what it knows into some, and when it has taken some out. -/
inductive During (graph : FlowGraph) : FlowGraph → Prop where
  | threading (seen : Nat) : During graph (threadAll (graph.order.take seen) graph).1
  | looking (seen : Nat) : During graph (graph.foldingAfter seen).graph
  | substituting (seen : Nat) {state : Folding} (looked : state = graph.foldingAfter graph.order.length) :
      During graph (substituteIn graph.regions state.facts state.graph
        (state.graph.liveIndices.take seen))
  | removing (seen : Nat) {state : Folding} (looked : state = graph.foldingAfter graph.order.length) :
      During graph ((state.folded.reverse.take seen).foldl splice
        (substituteAll graph.regions state.facts state.graph))

/-- The graphs that any number of passes leave. -/
inductive Left (start : FlowGraph) : FlowGraph → Prop where
  | start : Left start start
  | threaded {graph : FlowGraph} (left : Left start graph) : Left start graph.threadJumps.1
  | folded {graph : FlowGraph} (left : Left start graph) : Left start graph.foldConstants.1

theorem Exact.during (isExact : graph.Exact) (during : graph.During state) : state.Exact := by
  have looking : ∀ seen, (graph.foldingAfter seen).graph.Exact := fun seen =>
    List.foldlRecOn (motive := fun state : Folding => state.graph.Exact) _ _ isExact
      fun _ isExact _ _ => isExact.reworded (reworded_foldOne ..).1 (reworded_foldOne ..).2
  cases during with
  | threading seen => exact (isExact.threadAll _).isExact
  | looking seen => exact looking seen
  | substituting seen looked => exact (looked ▸ looking _).reworded (reworded_substituteIn ..) rfl
  | removing seen looked =>
    have learned := isExact.coherent.learned
    rw [foldingAfter, List.take_length] at looked
    rw [← looked] at learned
    refine (Exact.spliceAll ?_ _ ((List.nodup_reverse.2 learned.nodup).sublist
      (List.take_sublist ..)) ?_).isExact
    · have all := looking graph.order.length
      rw [foldingAfter, List.take_length, ← looked] at all
      exact all.reworded (reworded_substituteIn ..) rfl
    · exact fun index listed => learned.computing learned.substituted
        (List.mem_reverse.1 (List.mem_of_mem_take listed))

theorem Left.isExact (accepted : ofCode code = .ok start) (left : start.Left graph) : graph.Exact := by
  induction left with
  | start => exact exact_ofCode accepted
  | threaded _ ih => exact ih.threadJumps.isExact
  | folded _ ih => exact ih.foldConstants.isExact

/-- How the parts of a graph fit together. -/
structure Linked (graph : FlowGraph) : Prop where
  closed : ∀ vertex, graph.Live vertex → ∀ other ∈ graph.successors vertex, graph.Stands other
  sources : ∀ vertex, graph.Stands vertex → ∀ source : Nat,
    source ∈ graph.predecessors.getD vertex [] ↔ graph.Live source ∧ vertex ∈ graph.successors source
  counted : graph.liveCount = graph.liveIndices.length
  reached : ∀ vertex, graph.Live vertex ↔
    vertex ≠ graph.finish ∧ Leads graph.successors graph.root vertex
  ascending : graph.Ascending

theorem Exact.linked (isExact : graph.Exact) : graph.Linked := by
  have coherent := isExact.coherent
  refine ⟨?_, ?_, isExact.counted, ?_, isExact.ascending⟩
  · rintro vertex ⟨node, found, live⟩ other leads
    rw [successors_of_node found] at leads
    exact coherent.closed vertex node found live other leads
  · intro vertex _ source
    constructor
    · intro listed
      obtain ⟨node, found, live, leads⟩ := isExact.origins vertex source listed
      exact ⟨⟨node, found, live⟩, by rwa [successors_of_node found]⟩
    · rintro ⟨⟨node, found, live⟩, leads⟩
      rw [successors_of_node found] at leads
      exact coherent.sources source node found live vertex leads
  · intro vertex
    constructor
    · exact fun live => ⟨Nat.ne_of_lt live.lt, isExact.reached vertex live⟩
    · exact fun ⟨notEnd, leads⟩ => (coherent.stands_of_leads leads).resolve_left notEnd

/-- All graphs that the passes go through are linked, from that of the program on. -/
theorem passes_keep_links (accepted : ofCode code = .ok start) (left : start.Left graph)
    (during : graph.During state) : state.Linked :=
  ((left.isExact accepted).during during).linked

/-- The last of the four instructions at which threading looks is a jump, which it takes out. -/
theorem detour_linked : ∃ graph, ofCode Optimization.detour = .ok graph ∧
    (graph.liveCount = 4 ∧ (threadAll (graph.order.take 4) graph).1.liveCount = 3) ∧
    (threadAll (graph.order.take 4) graph).1.Linked := by
  obtain ⟨graph, accepted, shrinks⟩ : ∃ graph, ofCode Optimization.detour = .ok graph ∧
      graph.liveCount = 4 ∧ (threadAll (graph.order.take 4) graph).1.liveCount = 3 :=
    exists_ok_of_any (by decide +kernel)
  exact ⟨graph, accepted, shrinks, passes_keep_links accepted .start (.threading 4)⟩

/-! ### Searches -/

/-- Every way to a vertex leads through another one. -/
def Dominates (graph : FlowGraph) (dominator vertex : Nat) : Prop :=
  ∀ path : List Nat, path.IsChain (fun place other => other ∈ graph.successors place) →
    path.head? = some graph.root → path.getLast? = some vertex → dominator ∈ path

theorem Dominates.of_leads {dominator source : Nat} (dominates : graph.Dominates dominator vertex)
    (leads : vertex ∈ graph.successors source) (different : dominator ≠ vertex) :
    graph.Dominates dominator source := by
  intro path chain starts ends
  have longer := dominates (path ++ [vertex]) (chain.append (.singleton vertex) ?_) ?_ ?_
  · exact (List.mem_append.1 longer).resolve_right fun same => different (List.mem_singleton.1 same)
  · intro last isLast first isFirst
    cases ends.symm.trans isLast
    cases isFirst
    exact leads
  · rw [List.head?_append, starts, Option.some_or]
  · exact List.getLast?_concat

theorem source_in_order {before after : List Nat} (ordered : graph.order = before ++ vertex :: after)
    (notRoot : vertex ≠ graph.root) : ∃ source ∈ before, vertex ∈ graph.successors source := by
  obtain ⟨visited, rest, same, rfl, later⟩ := List.filter_eq_append_iff.1 ordered
  obtain ⟨skipped, rest, rfl, ends, _, _⟩ := List.filter_eq_cons_iff.1 later
  rw [← List.append_assoc] at same
  rcases source_of_explored _ _ same with onStack | ⟨source, earlier, leads⟩
  · exact absurd (List.mem_singleton.1 onStack) notRoot
  · have notEnd : source ≠ graph.finish := by
      rintro rfl
      change vertex ∈ graph.successors graph.finish at leads
      rw [graph.successors_of_finish] at leads
      cases leads
    rcases List.mem_append.1 earlier with listed | out
    · exact ⟨source, List.mem_filter.2 ⟨listed, decide_eq_true notEnd⟩, leads⟩
    · exact absurd (decide_eq_true notEnd) (ends source out)

theorem dominators_in_order {dominator vertex : Nat} {before after : List Nat}
    (ordered : graph.order = before ++ vertex :: after) (dominates : graph.Dominates dominator vertex)
    (different : dominator ≠ vertex) : dominator ∈ before := by
  have notRoot : vertex ≠ graph.root := by
    rintro rfl
    exact different (List.mem_singleton.1 (dominates [graph.root] (.singleton _) rfl rfl))
  obtain ⟨source, earlier, leads⟩ := source_in_order ordered notRoot
  by_cases same : dominator = source
  · exact same ▸ earlier
  · obtain ⟨front, back, split⟩ := List.append_of_mem earlier
    have ordered' : graph.order = front ++ source :: (back ++ vertex :: after) := by
      rw [ordered, split, List.append_assoc, List.cons_append]
    rw [split]
    exact List.mem_append_left _
      (dominators_in_order ordered' (dominates.of_leads leads different) same)
termination_by before.length
decreasing_by
  rw [split, List.length_append, List.length_cons]
  omega

/-- A search of a graph lists what can be reached from the start, each vertex once and after one that
leads to it and all that lie on every way to it, and each has the first entry that leads to it. -/
theorem searches_complete (accepted : ofCode code = .ok start) (left : start.Left graph)
    (during : graph.During state) :
    state.order.Nodup ∧
    (∀ vertex, vertex ∈ state.order ↔
      vertex ≠ state.finish ∧ Leads state.successors state.root vertex) ∧
    (∀ before vertex after, state.order = before ++ vertex :: after →
      (vertex ≠ state.root → ∃ source ∈ before, vertex ∈ state.successors source) ∧
        ∀ dominator, state.Dominates dominator vertex → dominator ≠ vertex → dominator ∈ before) ∧
    ∀ vertex, state.Live vertex →
      ∃ entry, regionOf state.regions vertex = some entry ∧ state.Owner entry vertex := by
  have isExact := (left.isExact accepted).during during
  have coherent := isExact.coherent
  refine ⟨coherent.nodup_order, fun vertex => ?_, fun before vertex after ordered => ?_, fun vertex live => ?_⟩
  · rw [← isExact.linked.reached]
    exact ⟨coherent.live_of_mem_order, isExact.mem_order⟩
  · exact ⟨source_in_order ordered, fun _ => dominators_in_order ordered⟩
  · obtain ⟨entry, owns⟩ := isExact.exists_owner live
    exact ⟨entry, (coherent.regionOf_eq_some (Nat.le_of_lt live.lt)).2 owns, owns⟩

theorem detour_searched : ∃ graph, ofCode Optimization.detour = .ok graph ∧
    ∀ vertex, vertex ∈ graph.threadJumps.1.order ↔ vertex ≠ graph.threadJumps.1.finish ∧
      Leads graph.threadJumps.1.successors graph.threadJumps.1.root vertex := by
  obtain ⟨graph, accepted, _⟩ := Optimization.detour_accepted
  obtain ⟨_, listed, _⟩ := searches_complete accepted (.threaded .start) (.looking 0)
  exact ⟨graph, accepted, listed⟩

end Quadruple.FlowGraph
