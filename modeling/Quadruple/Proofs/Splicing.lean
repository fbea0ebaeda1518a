import Quadruple.FlowGraph.JumpThreading
import Quadruple.Proofs.Coherence

/-!
Taking an instruction out of a flow graph. What led to it leads to its successor, the graph stays
coherent, and, where the instruction is an unconditional jump, walks do the same as before.
-/

namespace Quadruple.FlowGraph

def bypass (index dest vertex : Nat) : Nat :=
  if vertex = index then dest else vertex

def Node.bypass (node : Node) (index dest : Nat) : Node :=
  { node with
    next := node.next.map (FlowGraph.bypass index dest)
    target := node.target.map (FlowGraph.bypass index dest) }

def Node.onward (node : Node) : Option Nat :=
  if node.instruction.opcode = .goto then node.target else node.next

theorem bypass_self (index dest : Nat) : bypass index dest index = dest :=
  if_pos rfl

theorem bypass_of_ne {index dest vertex : Nat} (different : vertex ≠ index) :
    bypass index dest vertex = vertex :=
  if_neg different

theorem bypass_ne {index dest : Nat} (apart : dest ≠ index) (vertex : Nat) :
    bypass index dest vertex ≠ index := by
  unfold bypass
  split
  · exact apart
  · assumption

theorem Node.mem_successors_bypass (node : Node) (index dest vertex : Nat) :
    vertex ∈ (node.bypass index dest).successors ↔
      ∃ before ∈ node.successors, FlowGraph.bypass index dest before = vertex := by
  have mapped : (node.bypass index dest).successors =
      node.successors.map (FlowGraph.bypass index dest) := by
    have listed : ∀ way : Option Nat, (way.map (FlowGraph.bypass index dest)).toList =
        way.toList.map (FlowGraph.bypass index dest) := by
      intro way
      cases way <;> rfl
    unfold successors bypass
    simp only [listed]
    split <;> simp only [List.map_append]
  rw [mapped, List.mem_map]

variable {node : Node}

theorem Node.Shaped.bypass (shaped : node.Shaped) (index dest : Nat) :
    (node.bypass index dest).Shaped := by
  refine ⟨?_, ?_⟩
  · rw [Node.bypass, Option.isSome_map]
    exact shaped.next
  · rw [Node.bypass, Option.isSome_map]
    exact shaped.target

section

variable {graph : FlowGraph} {index dest : Nat} {node : Node}

theorem getElem?_splice (found : graph.nodes[index]? = some node)
    (onward : node.onward = some dest) (apart : dest ≠ index) (vertex : Nat) :
    (graph.splice index).nodes[vertex]? = (graph.nodes[vertex]?).map fun node =>
      { (if vertex ∈ graph.predecessors.getD index [] then node.bypass index dest else node) with
        live := node.live && vertex ≠ index } := by
  have redirected : ∀ way : Option Nat,
      (if way = some index then node.onward else way) = way.map (bypass index dest) := by
    intro way
    rw [onward]
    cases way with
    | none => rfl
    | some vertex =>
      unfold bypass
      by_cases here : vertex = index <;> simp [here]
  have changed : (graph.splice index).nodes =
      ((graph.predecessors.getD index []).foldl
        (fun table source => table.modify source fun node => node.bypass index dest)
        graph.nodes).modify index fun node => { node with live := false } := by
    unfold splice
    rw [found]
    simp only [Node.bypass, ← redirected]
    rfl
  have idempotent : ∀ (_ : Nat) (node : Node),
      (node.bypass index dest).bypass index dest = node.bypass index dest := by
    intro _ node
    have twice : ∀ way : Option Nat, (way.map (bypass index dest)).map (bypass index dest) =
        way.map (bypass index dest) := by
      intro way
      cases way with
      | none => rfl
      | some vertex =>
        rw [Option.map_some, Option.map_some, bypass_of_ne (bypass_ne apart vertex)]
    simp only [Node.bypass, twice]
  rw [changed, Array.getElem?_modify,
    getElem?_foldl_modify (fun _ (node : Node) => node.bypass index dest) idempotent]
  cases graph.nodes[vertex]? with
  | none => simp
  | some node =>
    by_cases here : index = vertex
    · subst here
      simp
    · have different : ¬ vertex = index := fun equal => here equal.symm
      simp only [if_neg here, Option.map_some, ne_eq, different, not_false_eq_true, decide_true,
        Bool.and_true, Option.some.injEq]
      split <;> rfl

theorem size_splice (found : graph.nodes[index]? = some node) :
    (graph.splice index).nodes.size = graph.nodes.size := by
  unfold splice
  rw [found]
  simp only [Array.size_modify]
  exact size_foldl_modify _ _ _

theorem root_splice (graph : FlowGraph) (index : Nat) :
    (graph.splice index).root = graph.root := by
  unfold splice
  split <;> rfl

variable {vertex : Nat}

theorem live_splice (found : graph.nodes[index]? = some node) (onward : node.onward = some dest)
    (apart : dest ≠ index) :
    (graph.splice index).Live vertex ↔ graph.Live vertex ∧ vertex ≠ index := by
  unfold Live
  rw [getElem?_splice found onward apart]
  constructor
  · rintro ⟨_, here, live⟩
    obtain ⟨before, here', rfl⟩ := Option.map_eq_some_iff.1 here
    simp only [Bool.and_eq_true, decide_eq_true_eq] at live
    exact ⟨⟨before, here', live.1⟩, live.2⟩
  · rintro ⟨⟨before, here, live⟩, different⟩
    exact ⟨_, by rw [here, Option.map_some], by simp [live, different]⟩

theorem node_splice (coherent : graph.Coherent) (found : graph.nodes[index]? = some node)
    (onward : node.onward = some dest) (apart : dest ≠ index) {other : Node}
    (here : graph.nodes[vertex]? = some other) (live : other.live = true)
    (different : vertex ≠ index) :
    (graph.splice index).nodes[vertex]? = some (other.bypass index dest) := by
  have shaped := coherent.shaped vertex other here
  -- what does not lead to the instruction is not changed, and need not be
  have untouched : vertex ∉ graph.predecessors.getD index [] →
      other.bypass index dest = other := by
    intro apartFrom
    have leadsElsewhere : index ∉ other.successors := fun leads =>
      apartFrom (coherent.sources vertex other here live index leads)
    rw [shaped.mem_successors] at leadsElsewhere
    have same : ∀ way : Option Nat, way ≠ some index → way.map (bypass index dest) = way := by
      intro way elsewhere
      cases way with
      | none => rfl
      | some vertex =>
        rw [Option.map_some, bypass_of_ne fun equal => elsewhere (by rw [equal])]
    unfold Node.bypass
    rw [same _ fun leads => leadsElsewhere (.inl leads),
      same _ fun leads => leadsElsewhere (.inr leads)]
  rw [getElem?_splice found onward apart, here, Option.map_some]
  by_cases source : vertex ∈ graph.predecessors.getD index []
  · simp only [if_pos source, Node.bypass, live, different, ne_eq, not_false_eq_true, decide_true,
      Bool.and_true]
  · simp only [untouched source, if_neg source, live, different, ne_eq, not_false_eq_true,
      decide_true, Bool.and_true, Option.some.injEq]
    rw [← live]

theorem origin_splice (coherent : graph.Coherent) (found : graph.nodes[index]? = some node)
    (onward : node.onward = some dest) (apart : dest ≠ index) {after : Node}
    (here : (graph.splice index).nodes[vertex]? = some after) (live : after.live = true) :
    vertex ≠ index ∧ ∃ before, graph.nodes[vertex]? = some before ∧ before.live = true ∧
      after = before.bypass index dest := by
  obtain ⟨⟨before, here', live'⟩, different⟩ := (live_splice found onward apart).1 ⟨after, here, live⟩
  exact ⟨different, before, here', live', Option.some.inj
    (here.symm.trans (node_splice coherent found onward apart here' live' different))⟩

theorem predecessors_splice (found : graph.nodes[index]? = some node)
    (onward : node.onward = some dest) :
    (graph.splice index).predecessors = (graph.predecessors.modify dest fun others =>
      others.filter (· ≠ index) ++ graph.predecessors.getD index []).setIfInBounds index [] := by
  have named : (if node.instruction.opcode = .goto then node.target else node.next) = some dest :=
    onward
  unfold splice
  rw [found]
  simp only [named]

theorem mem_successors_of_onward (shaped : node.Shaped) (onward : node.onward = some dest) :
    dest ∈ node.successors := by
  rw [shaped.mem_successors]
  unfold Node.onward at onward
  split at onward
  · exact .inr onward
  · exact .inl onward

theorem Coherent.splice (coherent : graph.Coherent) (found : graph.nodes[index]? = some node)
    (live : node.live = true) (onward : node.onward = some dest) (apart : dest ≠ index)
    (notRoot : index ≠ graph.root) : (graph.splice index).Coherent := by
  have finish : (graph.splice index).finish = graph.finish := size_splice found
  refine ⟨?_, ?_, ?_, ?_, ?_⟩
  · intro vertex after here
    rw [getElem?_splice found onward apart] at here
    obtain ⟨before, here', rfl⟩ := Option.map_eq_some_iff.1 here
    have shaped := coherent.shaped vertex before here'
    split
    · exact ⟨(shaped.bypass index dest).next, (shaped.bypass index dest).target⟩
    · exact ⟨shaped.next, shaped.target⟩
  · obtain ⟨start, here, alive, isInit⟩ := coherent.root
    rw [root_splice]
    exact ⟨start.bypass index dest,
      node_splice coherent found onward apart here alive (Ne.symm notRoot), alive, isInit⟩
  · intro vertex after here alive other leads
    obtain ⟨_, before, here', alive', rfl⟩ := origin_splice coherent found onward apart here alive
    obtain ⟨former, leads', rfl⟩ := (before.mem_successors_bypass index dest other).1 leads
    -- the edge led there before, or it led to the instruction and now leads to its successor
    have reached : bypass index dest former = graph.finish ∨
        graph.Live (bypass index dest former) := by
      by_cases through : former = index
      · rw [through, bypass_self]
        exact coherent.closed index node found live dest
          (mem_successors_of_onward (coherent.shaped index node found) onward)
      · rw [bypass_of_ne through]
        exact coherent.closed vertex before here' alive' former leads'
    rw [finish]
    exact reached.imp_right fun alive =>
      (live_splice found onward apart).2 ⟨alive, bypass_ne apart former⟩
  · intro vertex after here alive other leads
    obtain ⟨different, before, here', alive', rfl⟩ :=
      origin_splice coherent found onward apart here alive
    obtain ⟨former, leads', rfl⟩ := (before.mem_successors_bypass index dest other).1 leads
    have known := coherent.sources vertex before here' alive' former leads'
    have aside : ∀ table : Array (List Nat),
        (table.setIfInBounds index []).getD (bypass index dest former) [] =
          table.getD (bypass index dest former) [] := by
      intro table
      simp only [Array.getD_eq_getD_getElem?]
      rw [Array.getElem?_setIfInBounds_ne (Ne.symm (bypass_ne apart former))]
    rw [predecessors_splice found onward, aside, getD_modify]
    split
    · rename_i here
      rw [List.mem_append]
      by_cases through : former = index
      · rw [through] at known
        exact .inr known
      · rw [bypass_of_ne through]
        exact .inl (List.mem_filter.2 ⟨known, decide_eq_true different⟩)
    · rename_i elsewhere
      by_cases through : former = index
      · rw [through, bypass_self] at elsewhere
        have bounded : dest < graph.predecessors.size := by
          rw [coherent.size]
          rcases coherent.closed index node found live dest
            (mem_successors_of_onward (coherent.shaped index node found) onward) with isEnd | alive
          · rw [isEnd]
            exact Nat.lt_succ_self _
          · exact Nat.lt_succ_of_lt alive.lt
        exact absurd ⟨rfl, bounded⟩ elsewhere
      · rw [bypass_of_ne through]
        exact known
  · rw [predecessors_splice found onward, Array.size_setIfInBounds, Array.size_modify,
      coherent.size, size_splice found]

end

/-! ### Jumps to jumps -/

def Stands (graph : FlowGraph) (vertex : Nat) : Prop :=
  vertex = graph.finish ∨ graph.Live vertex

def SameWalks (first second : FlowGraph) : Prop :=
  ∀ workspace, System.Agree (fun final => final) first.chart.walk second.chart.walk
    ⟨workspace, first.root, []⟩ ⟨workspace, second.root, []⟩

section

variable {graph : FlowGraph} {index : Nat}

section

variable (coherent : graph.Coherent)
include coherent

theorem isThreadable_eq_true (threadable : graph.isThreadable index = true) :
    ∃ node dest, graph.nodes[index]? = some node ∧ node.live = true ∧
      node.instruction.opcode = .goto ∧ node.target = some dest ∧ node.onward = some dest ∧
      dest ≠ index := by
  unfold isThreadable at threadable
  cases found : graph.nodes[index]? with
  | none =>
    rw [found] at threadable
    cases threadable
  | some node =>
    rw [found] at threadable
    simp only [Bool.and_eq_true, decide_eq_true_eq] at threadable
    obtain ⟨⟨⟨live, jumps⟩, elsewhere⟩, _⟩ := threadable
    have leads := (coherent.shaped index node found).target
    rw [jumps] at leads
    obtain ⟨dest, target⟩ := Option.isSome_iff_exists.1 leads
    refine ⟨node, dest, rfl, live, jumps, target, ?_, ?_⟩
    · rw [Node.onward, if_pos jumps, target]
    · intro same
      rw [target, same] at elsewhere
      exact elsewhere rfl

theorem Coherent.not_root (found : graph.nodes[index]? = some node)
    (different : node.instruction.opcode ≠ .init) : index ≠ graph.root := by
  rintro rfl
  obtain ⟨start, here, _, isInit⟩ := coherent.root
  cases found.symm.trans here
  exact different isInit

theorem Coherent.thread (threadable : graph.isThreadable index = true) :
    (graph.splice index).Coherent := by
  obtain ⟨node, dest, found, live, jumps, _, onward, apart⟩ :=
    isThreadable_eq_true coherent threadable
  refine coherent.splice found live onward apart (coherent.not_root found ?_)
  rw [jumps]
  decide

/-- A walk goes through a jump that is taken out, or past it. -/
theorem meets_thread {dest : Nat} (found : graph.nodes[index]? = some node)
    (live : node.live = true) (jumps : node.instruction.opcode = .goto)
    (target : node.target = some dest) (onward : node.onward = some dest) (apart : dest ≠ index)
    (place place' : Nat) (related : graph.Stands place ∧ place' = bypass index dest place) :
    Chart.Meets graph.chart (graph.splice index).chart
      (fun place place' => graph.Stands place ∧ place' = bypass index dest place)
      (fun place _ => if place = index then 1 else 0) place place' := by
  obtain ⟨stands, rfl⟩ := related
  rcases stands with isEnd | ⟨other, here, alive⟩
  · have elsewhere : place ≠ index := by
      rw [isEnd]
      exact Nat.ne_of_gt (Live.lt ⟨node, found, live⟩)
    rw [bypass_of_ne elsewhere, isEnd]
    refine .same Chart.closing Chart.closing graph.chart_finish ?_ (.refl _) ?_ ?_
    · rw [← (graph.splice index).chart_finish]
      exact congrArg _ (size_splice found).symm
    · intro falls
      cases falls
    · intro jumps
      cases jumps
  by_cases through : place = index
  · subst through
    cases found.symm.trans here
    have leads := mem_successors_of_onward (coherent.shaped place node found) onward
    refine .left node.site (chart_of_node found) jumps ?_ ?_
    · simp only [Node.site, target, Option.getD_some]
      refine ⟨coherent.closed place node found live dest leads, ?_⟩
      rw [bypass_self, bypass_of_ne apart]
    · simp only [Node.site, target, Option.getD_some, if_neg apart, if_true]
      exact Nat.zero_lt_one
  · rw [bypass_of_ne through]
    have shaped := coherent.shaped place other here
    have along : ∀ (way : Option Nat), way.isSome = true →
        (∀ vertex, way = some vertex → vertex ∈ other.successors) →
        graph.Stands (way.getD 0) ∧
          (way.map (bypass index dest)).getD 0 = bypass index dest (way.getD 0) := by
      intro way isWay leads
      obtain ⟨vertex, rfl⟩ := Option.isSome_iff_exists.1 isWay
      exact ⟨coherent.closed place other here alive vertex (leads vertex rfl), rfl⟩
    refine .same other.site (other.bypass index dest).site (chart_of_node here)
      (chart_of_node (node_splice coherent found onward apart here alive through)) (.refl _) ?_ ?_
    · intro falls
      exact along other.next (shaped.next.trans falls) fun vertex same =>
        (shaped.mem_successors vertex).2 (.inl same)
    · intro jumps
      exact along other.target (shaped.target.trans jumps) fun vertex same =>
        (shaped.mem_successors vertex).2 (.inr same)

theorem sameWalks_thread (threadable : graph.isThreadable index = true) :
    graph.SameWalks (graph.splice index) := by
  obtain ⟨node, dest, found, live, jumps, target, onward, apart⟩ :=
    isThreadable_eq_true coherent threadable
  intro workspace
  refine (Chart.reroutes_simulation
    (meets_thread coherent found live jumps target onward apart)).agree ⟨rfl, ⟨?_, ?_⟩, .nil⟩
  · exact .inr coherent.live_root
  · have notRoot : graph.root ≠ index := by
      refine Ne.symm (coherent.not_root found ?_)
      rw [jumps]
      decide
    rw [bypass_of_ne notRoot]
    exact root_splice graph index

end

/-- What taking one jump out preserves, threading preserves. -/
theorem threadJumps_induction {motive : FlowGraph → Prop}
    (step : ∀ graph index, motive graph → graph.isThreadable index = true → motive (graph.splice index))
    (holds : motive graph) : motive graph.threadJumps.1 := by
  refine List.foldlRecOn (motive := fun (state : FlowGraph × Nat) => motive state.1) _ _ holds ?_
  rintro ⟨state, count⟩ holds index _
  by_cases threadable : state.isThreadable index = true
  · simp only [if_pos threadable]
    exact step state index holds threadable
  · simp only [if_neg threadable]
    exact holds

/-- Threading keeps a graph coherent and changes no walk. -/
theorem Coherent.threadJumps (coherent : graph.Coherent) :
    graph.threadJumps.1.Coherent ∧ graph.SameWalks graph.threadJumps.1 := by
  refine threadJumps_induction
    (motive := fun after => after.Coherent ∧ graph.SameWalks after) ?_
    ⟨coherent, fun workspace => .refl _ _ _⟩
  rintro after index ⟨coherent', same⟩ threadable
  exact ⟨coherent'.thread threadable, fun workspace =>
    (same workspace).trans (sameWalks_thread coherent' threadable workspace)⟩

end

end Quadruple.FlowGraph
