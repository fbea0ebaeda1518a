import Quadruple.Proofs.Instructions
import Quadruple.Proofs.Records
import Quadruple.Proofs.Rerouting
import Quadruple.Proofs.Search

/-!
Coherent flow graphs. What control can reach from a live instruction is live or the end of the
program, and the table of predecessors knows of every live instruction where it leads. The flow graph
of a program is coherent, and a walk through it does what the program does.
-/

namespace Quadruple

variable {α ε β : Type}

/-! ### Tables whose entries are changed one by one -/

theorem getElem?_foldl_modify (change : Nat → α → α)
    (idempotent : ∀ index entry, change index (change index entry) = change index entry) (indices : List Nat)
    (table : Array α) (index : Nat) :
    (indices.foldl (fun table index => table.modify index (change index)) table)[index]? =
      (table[index]?).map fun entry => if index ∈ indices then change index entry else entry := by
  induction indices generalizing table with
  | nil => simp
  | cons first rest ih =>
    rw [List.foldl_cons, ih, Array.getElem?_modify]
    by_cases same : first = index
    · subst same
      cases table[first]? with
      | none => simp
      | some entry =>
        simp only [if_true, Option.map_some, List.mem_cons, true_or]
        split
        · rw [idempotent]
        · rfl
    · have different : ¬ index = first := fun equal => same equal.symm
      simp only [if_neg same, List.mem_cons, different, false_or]

theorem size_foldl_modify (change : Nat → α → α) (indices : List Nat) (table : Array α) :
    (indices.foldl (fun table index => table.modify index (change index)) table).size =
      table.size := by
  induction indices generalizing table with
  | nil => rfl
  | cons first rest ih => exact (ih _).trans (Array.size_modify)

variable {convert : α → Except ε β}

theorem mapM_eq_ok {list : List α} {result : List β} : list.mapM convert = .ok result ↔
      List.Forall₂ (fun item image => convert item = .ok image) list result := by
  induction list generalizing result with
  | nil =>
    simp only [List.mapM_nil, pure, Except.pure, Except.ok.injEq, List.forall₂_nil_left_iff]
    exact eq_comm
  | cons item rest ih =>
    rw [List.mapM_cons, bind_eq_ok]
    constructor
    · rintro ⟨image, converted, more⟩
      obtain ⟨images, converts, ⟨⟩⟩ := bind_eq_ok.1 more
      exact .cons converted (ih.1 converts)
    · intro converts
      cases converts with
      | cons converted others =>
        exact ⟨_, converted, bind_eq_ok.2 ⟨_, ih.2 others, rfl⟩⟩

theorem exists_mapM {list : List α} (each : ∀ item ∈ list, ∃ image, convert item = .ok image) :
    ∃ result, list.mapM convert = .ok result := by
  induction list with
  | nil => exact ⟨[], rfl⟩
  | cons item rest ih =>
    obtain ⟨image, made⟩ := each item List.mem_cons_self
    obtain ⟨result, mapped⟩ := ih fun other listed => each other (List.mem_cons_of_mem _ listed)
    exact ⟨image :: result, mapM_eq_ok.2 (.cons made (mapM_eq_ok.1 mapped))⟩

namespace FlowGraph

variable {node : Node} {table : Array (List Nat)} {index source size : Nat} {instr : Instruction}

/-! ### Charts of flow graphs -/

def Node.site (node : Node) : Site :=
  ⟨node.instruction, node.next.getD 0, node.target.getD 0⟩

def chart (graph : FlowGraph) : Chart :=
  Chart.close fun vertex => (graph.nodes[vertex]?).map Node.site

variable {vertex : Nat} {graph : FlowGraph}

theorem chart_of_node (found : graph.nodes[vertex]? = some node) :
    graph.chart vertex = some node.site := by
  simp only [chart, Chart.close, found, Option.map_some, Option.getD_some]

theorem chart_finish (graph : FlowGraph) : graph.chart graph.finish = some Chart.closing := by
  have outside : graph.nodes[graph.finish]? = none :=
    Array.getElem?_eq_none_iff.2 (Nat.le_refl _)
  simp only [chart, Chart.close, outside, Option.map_none, Option.getD_none]

/-! ### Coherence -/

def Live (graph : FlowGraph) (vertex : Nat) : Prop :=
  ∃ node, graph.nodes[vertex]? = some node ∧ node.live = true

/-- A node has a way on exactly where its instruction has one. -/
structure Node.Shaped (node : Node) : Prop where
  next : node.next.isSome = fallsThrough node.instruction.opcode
  target : node.target.isSome = node.instruction.opcode.hasTarget

theorem Node.Shaped.mem_successors (shaped : node.Shaped) (vertex : Nat) :
    vertex ∈ node.successors ↔ node.next = some vertex ∨ node.target = some vertex := by
  obtain ⟨next, target⟩ := shaped
  unfold successors
  cases named : node.instruction.opcode with
  | goto =>
    rw [named] at next
    simp [Option.isNone_iff_eq_none.1 (Option.isSome_eq_false_iff.1 next)]
  | call | gotoFalse => simp [or_comm]
  | gotoTrue => simp
  | _ =>
    rw [named] at target
    simp [Option.isNone_iff_eq_none.1 (Option.isSome_eq_false_iff.1 target)]

structure Coherent (graph : FlowGraph) : Prop where
  shaped : ∀ (vertex : Nat) (node : Node), graph.nodes[vertex]? = some node → node.Shaped
  root : ∃ node, graph.nodes[graph.root]? = some node ∧ node.live = true ∧
    node.instruction.opcode = .init
  closed : ∀ (vertex : Nat) (node : Node), graph.nodes[vertex]? = some node → node.live = true →
    ∀ other ∈ node.successors, other = graph.finish ∨ graph.Live other
  sources : ∀ (vertex : Nat) (node : Node), graph.nodes[vertex]? = some node → node.live = true →
    ∀ other ∈ node.successors, vertex ∈ graph.predecessors.getD other []
  size : graph.predecessors.size = graph.nodes.size + 1

theorem Coherent.live_root (coherent : graph.Coherent) : graph.Live graph.root := by
  obtain ⟨node, found, live, _⟩ := coherent.root
  exact ⟨node, found, live⟩

theorem mem_liveIndices : vertex ∈ graph.liveIndices ↔ graph.Live vertex := by
  simp only [liveIndices, List.mem_filter, List.mem_range, Live, Option.any_eq_true]
  constructor
  · rintro ⟨_, node, found, live⟩
    exact ⟨node, found, live⟩
  · rintro ⟨node, found, live⟩
    exact ⟨(Array.getElem?_eq_some_iff.1 found).1, node, found, live⟩

theorem Live.lt (live : graph.Live vertex) : vertex < graph.finish := by
  obtain ⟨node, found, _⟩ := live
  exact (Array.getElem?_eq_some_iff.1 found).1

/-! ### The predecessors that a graph starts with -/

theorem size_addPredecessor (nodes : Array Node) (table : Array (List Nat)) (index : Nat) :
    (addPredecessor nodes table index).size = table.size :=
  size_foldl_modify (fun _ sources => sources ++ [index]) _ table

theorem getD_modify (table : Array (List Nat)) (vertex other : Nat)
    (change : List Nat → List Nat) :
    (table.modify vertex change).getD other [] =
      if other = vertex ∧ other < table.size then change (table.getD other [])
      else table.getD other [] := by
  simp only [Array.getD_eq_getD_getElem?, Array.getElem?_modify]
  by_cases same : vertex = other
  · subst same
    by_cases inside : vertex < table.size <;> simp [inside]
  · have different : ¬ other = vertex := fun equal => same equal.symm
    simp [same, different]

variable {nodes : Array Node}

theorem mem_addPredecessor : source ∈ (addPredecessor nodes table index).getD vertex [] ↔
      source ∈ table.getD vertex [] ∨
        (source = index ∧ vertex ∈ successorsIn nodes index ∧ vertex < table.size) := by
  unfold addPredecessor
  generalize successorsIn nodes index = vertices
  induction vertices generalizing table with
  | nil => simp
  | cons first rest ih =>
    rw [List.foldl_cons, ih, getD_modify, Array.size_modify, List.mem_cons]
    by_cases here : vertex = first ∧ vertex < table.size
    · rw [if_pos here, List.mem_append, List.mem_singleton]
      tauto
    · rw [if_neg here]
      tauto

theorem mem_predecessors_foldl {indices : List Nat} :
    source ∈ (indices.foldl (addPredecessor nodes) table).getD vertex [] ↔
      source ∈ table.getD vertex [] ∨
        (source ∈ indices ∧ vertex ∈ successorsIn nodes source ∧ vertex < table.size) := by
  induction indices generalizing table with
  | nil => simp
  | cons first rest ih =>
    rw [List.foldl_cons, ih, mem_addPredecessor, size_addPredecessor, List.mem_cons]
    constructor
    · rintro ((already | ⟨rfl, leads, inside⟩) | ⟨later, leads, inside⟩)
      · exact .inl already
      · exact .inr ⟨.inl rfl, leads, inside⟩
      · exact .inr ⟨.inr later, leads, inside⟩
    · rintro (already | ⟨rfl | later, leads, inside⟩)
      · exact .inl (.inl already)
      · exact .inl (.inr ⟨rfl, leads, inside⟩)
      · exact .inr ⟨later, leads, inside⟩

theorem size_predecessorsOf (nodes : Array Node) :
    (predecessorsOf nodes).size = nodes.size + 1 := by
  have kept : ∀ (indices : List Nat) (table : Array (List Nat)),
      (indices.foldl (addPredecessor nodes) table).size = table.size := by
    intro indices
    induction indices with
    | nil => intro table; rfl
    | cons first rest ih => intro table; exact (ih _).trans (size_addPredecessor nodes table first)
  exact (kept _ _).trans Array.size_replicate

theorem mem_predecessorsOf (found : nodes[source]? = some node) (live : node.live = true)
    (inside : vertex ≤ nodes.size) (leads : vertex ∈ node.successors) :
    source ∈ (predecessorsOf nodes).getD vertex [] := by
  unfold predecessorsOf
  rw [mem_predecessors_foldl]
  refine .inr ⟨?_, ?_, ?_⟩
  · rw [List.mem_filter, List.mem_range]
    exact ⟨(Array.getElem?_eq_some_iff.1 found).1, by rw [found]; exact live⟩
  · simp only [successorsIn, found]
    exact leads
  · rw [Array.size_replicate]
    omega

/-! ### What control reaches -/

section

variable {nodes : Array Node} {root vertex other : Nat}
  (inside : root < nodes.size)
include inside

theorem sound_unmarked : (Frontier.start (unmarked nodes) root).Sound := by
  refine Frontier.sound_start ?_
  rw [unmarked, Array.size_replicate]
  omega

theorem mem_reachableFrom_root : root ∈ reachableFrom nodes root := by
  rw [reachableFrom, List.mem_filter, decide_eq_true_eq]
  exact ⟨mem_explore_of_mem_stack _ _ List.mem_cons_self, Nat.ne_of_lt inside⟩

theorem lt_of_mem_reachableFrom
    (reached : vertex ∈ reachableFrom nodes root) : vertex < nodes.size := by
  rw [reachableFrom, List.mem_filter, decide_eq_true_eq] at reached
  obtain ⟨visited, notEnd⟩ := reached
  rcases (nodup_explore _ _ (sound_unmarked inside)).2 vertex visited with onStack | fresh
  · rw [List.mem_singleton.1 onStack]
    exact inside
  · obtain ⟨bound, _⟩ := Array.getElem?_eq_some_iff.1 fresh
    simp only [Frontier.start, Array.size_setIfInBounds, unmarked, Array.size_replicate] at bound
    omega

theorem mem_reachableFrom_of_leads
    (reached : vertex ∈ reachableFrom nodes root) (leads : other ∈ successorsIn nodes vertex)
    (bounded : other < nodes.size) : other ∈ reachableFrom nodes root := by
  have sound := sound_unmarked inside
  rw [reachableFrom, List.mem_filter, decide_eq_true_eq] at reached ⊢
  refine ⟨?_, Nat.ne_of_lt bounded⟩
  have marked := marked_of_explored (successorsIn nodes) _ sound reached.1 leads (by
    simp only [Frontier.start, Array.size_setIfInBounds, unmarked, Array.size_replicate]
    omega)
  rcases (marked_explore _ _ sound).1 marked with before | visited
  · -- only the root was marked before
    have isRoot : other = root := by
      by_contra different
      change ((unmarked nodes).setIfInBounds root true)[other]? = some true at before
      rw [Array.getElem?_setIfInBounds_ne (fun equal => different equal.symm), unmarked,
        Array.getElem?_replicate, if_pos (by omega)] at before
      cases before
    rw [isRoot]
    exact mem_explore_of_mem_stack _ _ List.mem_cons_self
  · exact visited

end

/-! ### The flow graph of a program -/

structure Node.Represents (node : Node) (size index : Nat) (instr : Instruction) : Prop where
  same : node.instruction = instr
  next : node.next = if fallsThrough instr.opcode then some (index + 1) else none
  target : if instr.opcode.hasTarget then
      ∃ target : Nat, instr.target? = some (target : Int) ∧ target ≤ size ∧
        node.target = some target
    else node.target = none

theorem nodeOf_eq_ok (made : nodeOf size instr index = .ok node) :
    node.Represents size index instr ∧ node.live = false := by
  unfold nodeOf at made
  by_cases jumps : instr.opcode.hasTarget = true
  · simp only [if_pos jumps] at made
    cases named : instr.target? with
    | none =>
      rw [named] at made
      cases made
    | some target =>
      rw [named] at made
      simp only at made
      split at made
      · cases made
      · rename_i bounds
        cases made
        have inside : 0 ≤ target ∧ target ≤ size := by
          simp only [Bool.or_eq_true, decide_eq_true_eq] at bounds
          omega
        refine ⟨⟨rfl, rfl, ?_⟩, rfl⟩
        rw [if_pos jumps]
        exact ⟨target.toNat, by rw [named, Int.toNat_of_nonneg inside.1], by omega, rfl⟩
  · simp only [if_neg jumps] at made
    cases made
    refine ⟨⟨rfl, rfl, ?_⟩, rfl⟩
    rw [if_neg jumps]

theorem Node.Represents.shaped (represents : node.Represents size index instr) : node.Shaped := by
  obtain ⟨rfl, next, target⟩ := represents
  constructor
  · rw [next]
    cases fallsThrough node.instruction.opcode <;> rfl
  · cases jumps : node.instruction.opcode.hasTarget with
    | true =>
      rw [if_pos jumps] at target
      obtain ⟨_, _, _, same⟩ := target
      rw [same]
      rfl
    | false =>
      rw [if_neg (by rw [jumps]; exact Bool.false_ne_true)] at target
      rw [target]
      rfl

theorem nodesOf_eq_ok {code : Code} (made : nodesOf code = .ok nodes) :
    nodes.size = code.size ∧ ∀ (index : Nat) (instr : Instruction),
      code[index]? = some instr → ∃ node, nodes[index]? = some node ∧
        node.Represents code.size index instr ∧ node.live = false := by
  obtain ⟨list, mapped, rfl⟩ := map_eq_ok.1 made
  have matched := mapM_eq_ok.1 mapped
  have length : list.length = code.size := by
    rw [← matched.length_eq, List.length_zipIdx, Array.length_toList]
  refine ⟨length, fun index instr found => ?_⟩
  have inside : index < code.size := (Array.getElem?_eq_some_iff.1 found).1
  have item : code.toList.zipIdx[index]? = some (instr, index) := by
    simp [List.getElem?_zipIdx, found]
  refine ⟨list.get ⟨index, by omega⟩, by simp, ?_⟩
  have pair := (List.forall₂_iff_get.1 matched).2 index
    (by rw [List.length_zipIdx, Array.length_toList]; exact inside) (by omega)
  have same : code.toList.zipIdx.get ⟨index, by
      rw [List.length_zipIdx, Array.length_toList]; exact inside⟩ = (instr, index) := by
    obtain ⟨_, same⟩ := List.getElem?_eq_some_iff.1 item
    exact same
  rw [same] at pair
  exact nodeOf_eq_ok pair

theorem ofCode_eq_ok {code : Code} (made : ofCode code = .ok graph) :
    ∃ nodes, nodesOf code = .ok nodes ∧
      code.findIdx? (fun instr => instr.opcode = .init) = some graph.root ∧
      graph.nodes = (reachableFrom nodes graph.root).foldl
        (fun table index => table.modify index fun node => { node with live := true }) nodes ∧
      graph.predecessors = predecessorsOf graph.nodes := by
  obtain ⟨nodes, found, rest⟩ := bind_eq_ok.1 made
  split at rest
  · cases rest
  · rename_i root start
    cases rest
    exact ⟨nodes, found, start, rfl, rfl⟩

section

variable {code : Code} {graph : FlowGraph}

section

variable (made : ofCode code = .ok graph)
include made

theorem node_ofCode (found : code[index]? = some instr) :
    ∃ node, graph.nodes[index]? = some node ∧ node.Represents code.size index instr := by
  obtain ⟨nodes, listed, _, marked, _⟩ := ofCode_eq_ok made
  obtain ⟨node, here, represents, _⟩ := (nodesOf_eq_ok listed).2 index instr found
  rw [marked, getElem?_foldl_modify (fun _ (node : Node) => { node with live := true }) (fun _ _ => rfl),
    here]
  refine ⟨_, rfl, ?_⟩
  split
  · exact ⟨represents.same, represents.next, represents.target⟩
  · exact represents

theorem size_ofCode : graph.nodes.size = code.size := by
  obtain ⟨nodes, listed, _, marked, _⟩ := ofCode_eq_ok made
  rw [marked, size_foldl_modify (fun _ (node : Node) => { node with live := true })]
  exact (nodesOf_eq_ok listed).1

theorem represents_ofCode (found : graph.nodes[index]? = some node) :
    ∃ instr, code[index]? = some instr ∧
      node.Represents code.size index instr := by
  have inside : index < code.size := by
    rw [← size_ofCode made]
    exact (Array.getElem?_eq_some_iff.1 found).1
  have here : code[index]? = some code[index] := Array.getElem?_eq_getElem inside
  obtain ⟨node', found', represents⟩ := node_ofCode made here
  cases found.symm.trans found'
  exact ⟨code[index], here, represents⟩

end

theorem Node.Represents.le_of_mem_successors {other : Nat} (represents : node.Represents size index instr)
    (inside : index < size) (leads : other ∈ node.successors) : other ≤ size := by
  rcases (represents.shaped.mem_successors other).1 leads with next | target
  · rw [represents.next] at next
    split at next
    · cases next
      omega
    · cases next
  · have named := represents.target
    split at named
    · obtain ⟨index', _, bounded, same⟩ := named
      cases same.symm.trans target
      exact bounded
    · rw [named] at target
      cases target

section

variable (made : ofCode code = .ok graph)
include made

theorem reachableFrom_ofCode (listed : nodesOf code = .ok nodes) :
    reachableFrom graph.nodes graph.root = reachableFrom nodes graph.root := by
  obtain ⟨nodes', listed', _, marked, _⟩ := ofCode_eq_ok made
  cases listed.symm.trans listed'
  have successors : successorsIn graph.nodes = successorsIn nodes := by
    funext vertex
    unfold successorsIn
    rw [marked, getElem?_foldl_modify (fun _ (node : Node) => { node with live := true }) (fun _ _ => rfl)]
    cases nodes[vertex]? with
    | none => rfl
    | some node =>
      simp only [Option.map_some]
      split <;> rfl
  unfold reachableFrom unmarked
  rw [successors, size_ofCode made, (nodesOf_eq_ok listed).1]

theorem liveCount_ofCode : graph.liveCount = graph.order.length := by
  obtain ⟨nodes, listed, rest⟩ := bind_eq_ok.1 made
  rw [order, reachableFrom_ofCode made listed]
  split at rest
  · cases rest
  · cases rest
    rfl

theorem live_ofCode : graph.Live vertex ↔ vertex ∈ reachableFrom graph.nodes graph.root := by
  obtain ⟨nodes, listed, start, marked, _⟩ := ofCode_eq_ok made
  have size : nodes.size = code.size := (nodesOf_eq_ok listed).1
  have inside : graph.root < nodes.size := by
    rw [size]
    exact (Array.findIdx?_eq_some_iff_getElem.1 start).1
  rw [reachableFrom_ofCode made listed]
  unfold Live
  rw [marked, getElem?_foldl_modify (fun _ (node : Node) => { node with live := true }) (fun _ _ => rfl)]
  constructor
  · rintro ⟨node, found, live⟩
    obtain ⟨before, here, rfl⟩ := Option.map_eq_some_iff.1 found
    by_contra unreached
    rw [if_neg unreached] at live
    have bounded : vertex < code.size := by
      rw [← size]
      exact (Array.getElem?_eq_some_iff.1 here).1
    obtain ⟨node, here', _, dead⟩ := (nodesOf_eq_ok listed).2 vertex code[vertex]
      (Array.getElem?_eq_getElem bounded)
    cases here.symm.trans here'
    rw [dead] at live
    cases live
  · intro reached
    have bounded := lt_of_mem_reachableFrom inside reached
    exact ⟨_, by rw [Array.getElem?_eq_getElem bounded, Option.map_some], by rw [if_pos reached]⟩

theorem coherent_ofCode : graph.Coherent := by
  have size := size_ofCode made
  obtain ⟨_, _, start, _, table⟩ := ofCode_eq_ok made
  obtain ⟨inside, isInit, _⟩ := Array.findIdx?_eq_some_iff_getElem.1 start
  have rootInside : graph.root < graph.nodes.size := by omega
  have bounded : ∀ (vertex : Nat) (node : Node), graph.nodes[vertex]? = some node →
      ∀ other ∈ node.successors, other ≤ graph.nodes.size := by
    intro vertex node found other leads
    obtain ⟨instr, here, represents⟩ := represents_ofCode made found
    rw [size]
    exact represents.le_of_mem_successors (Array.getElem?_eq_some_iff.1 here).1 leads
  refine ⟨?_, ?_, ?_, ?_, ?_⟩
  · intro vertex node found
    obtain ⟨instr, _, represents⟩ := represents_ofCode made found
    exact represents.shaped
  · obtain ⟨node, found, represents⟩ := node_ofCode made (Array.getElem?_eq_getElem inside)
    obtain ⟨node', found', live⟩ := (live_ofCode made).2 (mem_reachableFrom_root rootInside)
    cases found.symm.trans found'
    exact ⟨node, found, live, by rw [represents.same]; exact of_decide_eq_true isInit⟩
  · intro vertex node found live other leads
    have reached := (live_ofCode made).1 ⟨node, found, live⟩
    rcases Nat.lt_or_ge other graph.nodes.size with below | beyond
    · refine .inr ((live_ofCode made).2 (mem_reachableFrom_of_leads rootInside reached ?_ below))
      simp only [successorsIn, found]
      exact leads
    · exact .inl (Nat.le_antisymm (bounded vertex node found other leads) beyond)
  · intro vertex node found live other leads
    rw [table]
    exact mem_predecessorsOf found live (bounded vertex node found other leads) leads
  · rw [table]
    exact size_predecessorsOf graph.nodes

end

theorem targetsInside_nodesOf (made : nodesOf code = .ok nodes) : code.TargetsInside := by
  intro index instr found jumps
  obtain ⟨node, _, represents, _⟩ := (nodesOf_eq_ok made).2 index instr found
  have named := represents.target
  rw [if_pos jumps] at named
  obtain ⟨target, names, bounded, _⟩ := named
  exact ⟨target, names, bounded⟩

theorem targetsInside_ofCode (made : ofCode code = .ok graph) : Code.TargetsInside code := by
  obtain ⟨nodes, listed, _⟩ := ofCode_eq_ok made
  exact targetsInside_nodesOf listed

section

variable (inside : code.TargetsInside)
include inside

theorem exists_nodeOf (found : code[index]? = some instr) :
    ∃ node, nodeOf code.size instr index = .ok node := by
  unfold nodeOf
  by_cases jumps : instr.opcode.hasTarget = true
  · obtain ⟨target, named, bounded⟩ := inside index instr found jumps
    have fits : ¬ ((target : Int) < 0 || (code.size : Int) < target) = true := by
      simp only [Bool.or_eq_true, decide_eq_true_eq]
      omega
    simp only [if_pos jumps, named, if_neg fits]
    exact ⟨_, rfl⟩
  · simp only [if_neg jumps]
    exact ⟨_, rfl⟩

theorem exists_nodesOf : ∃ nodes, nodesOf code = .ok nodes := by
  have each : ∀ item ∈ code.toList.zipIdx, ∃ node, nodeOf code.size item.1 item.2 = .ok node := by
    intro item listed
    refine exists_nodeOf inside ?_
    rw [← Array.getElem?_toList]
    exact List.mem_zipIdx_iff_getElem?.1 listed
  obtain ⟨list, mapped⟩ := exists_mapM each
  exact ⟨list.toArray, map_eq_ok.2 ⟨list, mapped, rfl⟩⟩

/-- A program that has a start and whose targets lie inside has a flow graph. -/
theorem exists_ofCode {root : Nat}
    (start : code.findIdx? (fun instr => instr.opcode = .init) = some root) :
    ∃ graph, ofCode code = .ok graph ∧ graph.root = root := by
  obtain ⟨nodes, listed⟩ := exists_nodesOf inside
  unfold ofCode
  rw [start, listed]
  exact ⟨_, rfl, rfl⟩

end

/-- A program starts at its first start instruction, or with a jump to it. -/
def StartsAt (code : Code) (root : Nat) : Prop :=
  root = 0 ∨
    ∃ first, code[0]? = some first ∧ first.opcode = .goto ∧ first.target? = some (root : Int)

/-- A walk through a program that is closed at the end is a walk through its flow graph. -/
theorem meets_ofCode (made : ofCode code = .ok graph) (starts : StartsAt code graph.root)
    (place place' : Nat) (related : place = place' ∨ place = 0 ∧ place' = graph.root) :
    Chart.Meets (Code.chart code).close graph.chart
      (fun place place' => place = place' ∨ place = 0 ∧ place' = graph.root)
      (fun place place' => if place = place' then 0 else 1) place place' := by
  by_cases same : place = place'
  · subst same
    cases here : code[place]? with
    | none =>
      have outside : graph.nodes[place]? = none := by
        rw [Array.getElem?_eq_none_iff, size_ofCode made]
        exact Array.getElem?_eq_none_iff.1 here
      refine .same Chart.closing Chart.closing ?_ ?_ (.refl _) ?_ ?_
      · simp only [Chart.close, Code.chart, here, Option.map_none, Option.getD_none]
      · simp only [chart, Chart.close, outside, Option.map_none, Option.getD_none]
      · intro falls
        cases falls
      · intro jumps
        cases jumps
    | some instr =>
      obtain ⟨node, found, represents⟩ := node_ofCode made here
      refine .same ⟨instr, place + 1, instr.targetIndex⟩ node.site ?_
        (chart_of_node found) ?_ ?_ ?_
      · simp only [Chart.close, Code.chart, here, Option.map_some, Option.getD_some]
      · simp only [Node.site, represents.same]
        exact .refl _
      · intro falls
        simp only [Node.site, represents.next, if_pos falls]
        exact .inl rfl
      · intro jumps
        have named := represents.target
        rw [if_pos jumps] at named
        obtain ⟨target, names, _, leads⟩ := named
        simp only [Node.site, leads, Instruction.targetIndex, names]
        exact .inl rfl
  · obtain ⟨rfl, rfl⟩ := related.resolve_left same
    rcases starts with atStart | ⟨first, here, jumps, names⟩
    · exact absurd atStart.symm same
    · have target : first.targetIndex = graph.root := by
        simp only [Instruction.targetIndex, names, Option.getD_some, Int.toNat_natCast]
      refine .left ⟨first, 1, first.targetIndex⟩ ?_ jumps (.inl target) ?_
      · simp only [Chart.close, Code.chart, here, Option.map_some, Option.getD_some]
      · rw [if_pos target, if_neg same]
        exact Nat.zero_lt_one

end

end FlowGraph

end Quadruple
