import Mathlib.Data.List.Sort
import Quadruple.Proofs.LayoutOrder

/-!
The flow graph of a layout. Its vertices are the places, and each of them stands for a vertex of the
graph that was laid out. Control goes from place to place as it goes between the vertices that these
stand for, so bodies and regions are the same. Where the program ends within its own body, the
layout of a layout is that layout.
-/

namespace Quadruple.FlowGraph

variable {graph after : FlowGraph} {vertex place next entry : Nat} {node : Node} {item : Item}

/-! ### Nodes of a layout -/

structure Relaid (graph after : FlowGraph) : Prop where
  isExact : graph.Exact
  accepted : ofCode graph.toCode = .ok after

theorem start_toCode (coherent : graph.Coherent) :
    graph.toCode.findIdx? (fun instruction => instruction.opcode = .init) = some 0 := by
  obtain ⟨node, found, _, isInit⟩ := coherent.root
  have first : graph.toCode[0]? = some (graph.instructionFor node) := by
    rw [getElem?_toCode coherent, placed_root, Option.bind_some, instructionAt, found,
      Option.map_some]
  obtain ⟨inside, same⟩ := Array.getElem?_eq_some_iff.1 first
  refine Array.findIdx?_eq_some_iff_getElem.2 ⟨inside, ?_, fun _ below => absurd below (by omega)⟩
  have like : node.instruction.Like (graph.instructionFor node) :=
    instructionFor_like (coherent.shaped _ node found)
  rw [same]
  exact decide_eq_true (like.opcode.symm.trans isInit)

theorem Exact.exists_relaid (isExact : graph.Exact) : ∃ after, graph.Relaid after := by
  obtain ⟨after, accepted, _⟩ := exists_ofCode (targetsInside_toCode isExact.coherent)
    (start_toCode isExact.coherent)
  exact ⟨after, isExact, accepted⟩

structure Counterpart (graph : FlowGraph) (place : Nat) (node node' : Node) : Prop where
  instruction : node'.instruction = graph.instructionFor node
  opcode : node'.instruction.opcode = node.instruction.opcode
  next : node'.next = node.next.map fun _ => place + 1
  target : node'.target = node.target.map graph.placeOf

/-- What the node of a place holds, by what stands there. -/
inductive Laid (graph : FlowGraph) (place : Nat) (node' : Node) : Item → Prop where
  | node {vertex : Nat} {node : Node} (found : graph.nodes[vertex]? = some node)
      (live : node.live = true) (same : graph.Counterpart place node node') :
      Laid graph place node' (.node vertex)
  | goto {dest : Nat} (live : graph.Live dest) (opcode : node'.instruction.opcode = .goto)
      (next : node'.next = none) (target : node'.target = some (graph.placeOf dest)) :
      Laid graph place node' (.goto dest)
  | exit (instruction : node'.instruction = { opcode := .exit }) (next : node'.next = none)
      (target : node'.target = none) : Laid graph place node' .exit

namespace Relaid

section

variable (relaid : graph.Relaid after)
include relaid

theorem coherent : graph.Coherent :=
  relaid.isExact.coherent

theorem coherent' : after.Coherent :=
  coherent_ofCode relaid.accepted

theorem root : after.root = 0 := by
  obtain ⟨_, _, start, _⟩ := ofCode_eq_ok relaid.accepted
  exact Option.some.inj (start.symm.trans (start_toCode relaid.coherent))

theorem finish : after.finish = graph.items.length :=
  (size_ofCode relaid.accepted).trans (size_toCode relaid.coherent)

theorem laid (here : graph.items[place]? = some item) :
    ∃ node', after.nodes[place]? = some node' ∧ graph.Laid place node' item := by
  have coherent := relaid.coherent
  have code : graph.toCode[place]? = graph.instructionAt item := by
    rw [getElem?_toCode coherent, here, Option.bind_some]
  have fits := fits_items coherent item (List.mem_of_getElem? here)
  cases item with
  | exit =>
    obtain ⟨node', found', represents⟩ := node_ofCode relaid.accepted code
    exact ⟨node', found', .exit represents.same represents.next represents.target⟩
  | goto dest =>
    obtain ⟨node', found', represents⟩ := node_ofCode relaid.accepted code
    obtain ⟨target, names, _, leads⟩ := represents.target
    have same : graph.placeOf dest = target := Int.ofNat.inj (Option.some.inj names)
    refine ⟨node', found', .goto fits (by rw [represents.same]) represents.next ?_⟩
    rw [leads, same]
  | node vertex =>
    obtain ⟨node, found, live⟩ := fits
    rw [instructionAt, found, Option.map_some] at code
    obtain ⟨node', found', represents⟩ := node_ofCode relaid.accepted code
    have shaped := coherent.shaped vertex node found
    have like : node.instruction.Like (graph.instructionFor node) := instructionFor_like shaped
    refine ⟨node', found', .node found live ⟨represents.same, ?_, ?_, ?_⟩⟩
    · rw [represents.same, like.opcode]
    · rw [represents.next, ← like.opcode, ← shaped.next]
      cases node.next <;> rfl
    · have named := represents.target
      rw [← like.opcode, ← shaped.target] at named
      cases leads : node.target with
      | none =>
        rw [leads] at named
        exact named
      | some target =>
        rw [leads] at named
        obtain ⟨place', names, _, leads'⟩ := named
        rw [target?_instructionFor shaped leads] at names
        rw [leads', Option.map_some, Int.ofNat.inj (Option.some.inj names)]

theorem exists_item (inside : place < after.finish) : ∃ item, graph.items[place]? = some item := by
  rw [relaid.finish] at inside
  exact ⟨_, List.getElem?_eq_getElem inside⟩

variable {node' : Node}

theorem laid_of_node (found' : after.nodes[place]? = some node') :
    ∃ item, graph.items[place]? = some item ∧ graph.Laid place node' item := by
  obtain ⟨item, here⟩ := relaid.exists_item (Array.getElem?_eq_some_iff.1 found').1
  obtain ⟨other, found'', laid⟩ := relaid.laid here
  cases found'.symm.trans found''
  exact ⟨item, here, laid⟩

theorem counterpart (here : graph.items[place]? = some (.node vertex))
    (found : graph.nodes[vertex]? = some node) :
    ∃ node', after.nodes[place]? = some node' ∧ graph.Counterpart place node node' := by
  obtain ⟨node', found', laid⟩ := relaid.laid here
  cases laid with
  | node found'' _ same =>
    cases found.symm.trans found''
    exact ⟨node', found', same⟩

end

end Relaid

/-! ### Control between places -/

theorem Placed.unique {other : Nat} (placed : graph.Placed vertex place)
    (placed' : graph.Placed other place) : vertex = other := by
  rcases placed with ⟨_, here | here⟩ | ⟨isEnd, here⟩ <;>
    rcases placed' with ⟨_, here' | here'⟩ | ⟨isEnd', here'⟩ <;>
    cases here.symm.trans here'
  · rfl
  · rfl
  · rw [isEnd, isEnd']

theorem Placed.lt (placed : graph.Placed vertex place) : place < graph.items.length := by
  rcases placed with ⟨_, here | here⟩ | ⟨_, here⟩ <;> exact (List.getElem?_eq_some_iff.1 here).1

theorem Coherent.placed_of_live (coherent : graph.Coherent) (live : graph.Live vertex) :
    graph.Placed vertex (graph.placeOf vertex) :=
  .inl ⟨live, .inl (placed_goto coherent live)⟩

namespace Laid

theorem falls (laid : graph.Laid place node' item) (coherent : graph.Coherent)
    (here : graph.items[place]? = some item) (leads : node'.next = some next) :
    next = place + 1 ∧ ∃ vertex node dest, item = .node vertex ∧ graph.nodes[vertex]? = some node ∧
      node.next = some dest ∧ graph.Placed dest next := by
  cases laid with
  | node found live same =>
    rw [same.next, Option.map_eq_some_iff] at leads
    obtain ⟨dest, leads, rfl⟩ := leads
    exact ⟨rfl, _, _, dest, rfl, found, leads, placed_next coherent found live leads here⟩
  | goto _ _ next' _ | exit _ next' _ =>
    rw [next'] at leads
    cases leads

theorem jumps (laid : graph.Laid place node' item) (coherent : graph.Coherent)
    (leads : node'.target = some next) :
    ∃ dest, next = graph.placeOf dest ∧ graph.Placed dest next ∧
      (item = .goto dest ∨ ∃ vertex node, item = .node vertex ∧ graph.nodes[vertex]? = some node ∧
        node.live = true ∧ node.instruction.opcode = node'.instruction.opcode ∧
        node.target = some dest) := by
  cases laid with
  | node found live same =>
    rw [same.target, Option.map_eq_some_iff] at leads
    obtain ⟨dest, leads, rfl⟩ := leads
    exact ⟨dest, rfl, placed_target coherent found live leads,
      .inr ⟨_, _, rfl, found, live, same.opcode.symm, leads⟩⟩
  | goto live _ _ target =>
    cases target.symm.trans leads
    exact ⟨_, rfl, coherent.placed_of_live live, .inl rfl⟩
  | exit _ _ target =>
    rw [target] at leads
    cases leads

end Laid

namespace Relaid

section

variable (relaid : graph.Relaid after)
include relaid

theorem inner : after.Inner := by
  intro place node' found' leads
  obtain ⟨item, here, laid⟩ := relaid.laid_of_node found'
  have placed : ∃ vertex, graph.Placed vertex after.finish := by
    rcases ((relaid.coherent'.shaped place node' found').mem_successors _).1 leads with falls | jumps
    · obtain ⟨_, _, _, dest, _, _, _, placed⟩ := laid.falls relaid.coherent here falls
      exact ⟨dest, placed⟩
    · obtain ⟨dest, _, placed, _⟩ := laid.jumps relaid.coherent jumps
      exact ⟨dest, placed⟩
  obtain ⟨vertex, placed⟩ := placed
  have inside := placed.lt
  rw [relaid.finish] at inside
  omega

/-- A step within a body is a step between what the places stand for, or none. -/
theorem bodySuccessor (placed : graph.Placed vertex place)
    (leads : next ∈ after.bodySuccessors place) :
    ∃ other, graph.Placed other next ∧ (other = vertex ∨ other ∈ graph.bodySuccessors vertex) ∧
      (next = place + 1 ∨ next = graph.placeOf other) := by
  have coherent := relaid.coherent
  obtain ⟨item, here⟩ : ∃ item, graph.items[place]? = some item :=
    ⟨_, List.getElem?_eq_getElem placed.lt⟩
  obtain ⟨node', found', laid⟩ := relaid.laid here
  -- the instruction at a place is the vertex for which it stands
  have same : ∀ index, item = .node index → graph.Live index → vertex = index := by
    intro index isNode live
    exact placed.unique (.inl ⟨live, .inl (isNode ▸ here)⟩)
  rcases (mem_bodySuccessors found').1 leads with falls | ⟨isJump, jumps⟩
  · obtain ⟨onward, index, node, dest, isNode, found, leads, placed'⟩ := laid.falls coherent here falls
    rw [same index isNode (coherent.live_of_item (isNode ▸ here))]
    exact ⟨dest, placed', .inr ((mem_bodySuccessors found).2 (.inl leads)), .inl onward⟩
  · obtain ⟨dest, isPlace, placed', stands⟩ := laid.jumps coherent jumps
    refine ⟨dest, placed', ?_, .inr isPlace⟩
    rcases stands with added | ⟨index, node, isNode, found, live, opcode, leads⟩
    · have live : graph.Live dest :=
        fits_items coherent (.goto dest) (List.mem_of_getElem? (added ▸ here))
      exact .inl (placed.unique (.inl ⟨live, .inr (added ▸ here)⟩)).symm
    · rw [same index isNode ⟨node, found, live⟩]
      exact .inr ((mem_bodySuccessors found).2 (.inr ⟨opcode ▸ isJump, leads⟩))

variable {place' : Nat}

/-- What belongs to a body of places stands for what belongs to the body. -/
theorem body_origin (placed : graph.Placed entry place) (inBody : after.Body place place') :
    ∃ vertex, graph.Placed vertex place' ∧ graph.Body entry vertex := by
  induction inBody with
  | refl => exact ⟨entry, placed, .refl⟩
  | tail _ leads ih =>
    obtain ⟨before, placed', inBody⟩ := ih
    obtain ⟨other, placed'', steps, _⟩ := relaid.bodySuccessor placed' leads
    refine ⟨other, placed'', ?_⟩
    rcases steps with rfl | steps
    · exact inBody
    · exact inBody.tail steps

theorem next_mem (here : graph.items[place]? = some (.node vertex))
    (found : graph.nodes[vertex]? = some node) (leads : node.next = some next) :
    place + 1 ∈ after.bodySuccessors place := by
  obtain ⟨node', found', same⟩ := relaid.counterpart here found
  apply (mem_bodySuccessors found').2
  rw [same.next, leads]
  exact .inl rfl

theorem falls (found : graph.nodes[vertex]? = some node) (live : node.live = true)
    (leads : node.next = some next) (alive : graph.Live next) :
    after.Body (graph.placeOf vertex) (graph.placeOf next) := by
  have coherent := relaid.coherent
  have here := placed_goto coherent ⟨node, found, live⟩
  have first : after.Body (graph.placeOf vertex) (graph.placeOf vertex + 1) :=
    .single (relaid.next_mem here found leads)
  rcases placed_next coherent found live leads here with ⟨_, stands | added⟩ | ⟨isEnd, _⟩
  · rwa [coherent.eq_placeOf stands] at first
  · obtain ⟨node', found', laid⟩ := relaid.laid added
    cases laid with
    | goto _ opcode _ target =>
      exact first.tail ((mem_bodySuccessors found').2 (.inr ⟨by rw [opcode]; rfl, target⟩))
  · rw [isEnd] at alive
    exact absurd alive.lt (Nat.lt_irrefl _)

theorem exists_target (found : graph.nodes[vertex]? = some node) (live : node.live = true)
    (leads : node.target = some next) :
    ∃ node', after.nodes[graph.placeOf vertex]? = some node' ∧
      node'.instruction.opcode = node.instruction.opcode ∧
      node'.target = some (graph.placeOf next) := by
  obtain ⟨node', found', same⟩ :=
    relaid.counterpart (placed_goto relaid.coherent ⟨node, found, live⟩) found
  exact ⟨node', found', same.opcode, by rw [same.target, leads]; rfl⟩

theorem body_placeOf (live : graph.Live entry) (inBody : graph.Body entry vertex)
    (alive : graph.Live vertex) : after.Body (graph.placeOf entry) (graph.placeOf vertex) := by
  induction inBody with
  | refl => exact .refl
  | @tail before vertex path leads ih =>
    obtain ⟨node, found, live'⟩ :=
      (relaid.coherent.stands_of_body (.inr live) path).live_of_body leads
    have before := ih ⟨node, found, live'⟩
    rcases (mem_bodySuccessors found).1 leads with next | ⟨isJump, target⟩
    · exact before.trans (relaid.falls found live' next alive)
    · obtain ⟨node', found', opcode, target'⟩ := relaid.exists_target found live' target
      exact before.tail ((mem_bodySuccessors found').2 (.inr ⟨opcode ▸ isJump, target'⟩))

end

/-! ### The layout of a layout -/

section

variable (relaid : graph.Relaid after)
include relaid

theorem live_of_leads (inside : place < graph.items.length)
    (path : Leads after.successors after.root place) : after.Live place := by
  apply (live_ofCode relaid.accepted).2
  exact mem_order_of_leads relaid.coherent' path (by rw [relaid.finish]; exact inside)

theorem leads_of_body (inBody : after.Body place place') : Leads after.successors place place' := by
  refine Relation.ReflTransGen.mono (fun before next leads => ?_) _ _ inBody
  cases found : after.nodes[before]? with
  | none =>
    simp only [bodySuccessors, found] at leads
    cases leads
  | some node =>
    rw [successors_of_node found]
    exact relaid.coherent'.mem_successors_of_body found leads

theorem leads_placeOf (path : Leads graph.successors graph.root vertex) (live : graph.Live vertex) :
    Leads after.successors after.root (graph.placeOf vertex) := by
  induction path with
  | refl =>
    rw [relaid.coherent.placeOf_root, relaid.root]
    exact .refl
  | @tail before vertex path led ih =>
    obtain ⟨node, found, live'⟩ := (relaid.coherent.stands_of_leads path).live_of_leads led
    have before := ih ⟨node, found, live'⟩
    rw [successors_of_node found, (relaid.coherent.shaped _ _ found).mem_successors] at led
    rcases led with next | target
    · exact before.trans (relaid.leads_of_body (relaid.falls found live' next live))
    · obtain ⟨node', found', _, target'⟩ := relaid.exists_target found live' target
      apply before.tail
      rw [successors_of_node found', (relaid.coherent'.shaped _ _ found').mem_successors]
      exact .inr target'

theorem live (here : graph.items[place]? = some item) : after.Live place := by
  have coherent := relaid.coherent
  have reached : ∀ vertex, graph.Live vertex →
      Leads after.successors after.root (graph.placeOf vertex) :=
    fun vertex live => relaid.leads_placeOf (relaid.isExact.reached vertex live) live
  apply relaid.live_of_leads (List.getElem?_eq_some_iff.1 here).1
  cases coherent.arises here with
  | stands vertex =>
    rw [coherent.eq_placeOf here]
    exact reached vertex (coherent.live_of_item here)
  | follows at' standing found leads =>
    rw [at']
    have before := reached _ (coherent.live_of_item standing)
    rw [← coherent.eq_placeOf standing] at before
    exact before.trans (relaid.leads_of_body (.single (relaid.next_mem standing found leads)))
  | closes _ isEnd found live leads =>
    obtain ⟨node', found', _, target'⟩ := relaid.exists_target found live leads
    rw [isEnd]
    apply (reached _ ⟨_, found, live⟩).tail
    rw [successors_of_node found', (relaid.coherent'.shaped _ _ found').mem_successors]
    exact .inr target'

theorem live_counterpart (here : graph.items[place]? = some (.node vertex))
    (found : graph.nodes[vertex]? = some node) :
    ∃ node', after.nodes[place]? = some node' ∧ node'.live = true ∧
      graph.Counterpart place node node' := by
  obtain ⟨node', found', same⟩ := relaid.counterpart here found
  obtain ⟨other, found'', live⟩ := relaid.live here
  cases found'.symm.trans found''
  exact ⟨node', found', live, same⟩

end

end Relaid

/-- If the program's own body comes to the end of the program, then nothing but that body stands
before the place where the program ends. -/
def EndsOwn (graph : FlowGraph) : Prop :=
  regionOf graph.regions graph.finish = some graph.root →
    ∀ vertex ∈ (graph.items.take (graph.placeOf graph.finish)).filterMap Item.vertex?,
      regionOf graph.regions vertex = some graph.root

instance (graph : FlowGraph) : Decidable graph.EndsOwn :=
  inferInstanceAs (Decidable (_ → ∀ vertex ∈ _, _))

theorem EndsOwn.body (endsOwn : graph.EndsOwn) (coherent : graph.Coherent)
    (ends : graph.Body graph.root graph.finish) (here : graph.items[place]? = some (.node vertex))
    (before : place < graph.placeOf graph.finish) : graph.Body graph.root vertex := by
  rw [← coherent.regionOf_eq_root (Nat.le_of_lt (coherent.live_of_item here).lt)]
  apply endsOwn ((coherent.regionOf_eq_root (Nat.le_refl _)).2 ends)
  refine List.mem_filterMap.2 ⟨.node vertex, ?_, rfl⟩
  apply List.mem_of_getElem?
  rw [List.getElem?_take_of_lt before, here]

namespace Relaid

section

variable (relaid : graph.Relaid after)
include relaid

theorem exists_bearer (inside : place + 1 < graph.items.length) :
    ∃ before vertex, before ≤ place ∧ graph.items[before]? = some (.node vertex) ∧
      (graph.Body graph.root vertex → after.Body after.root place) := by
  have coherent := relaid.coherent
  have here : graph.items[place]? = some (graph.items.get ⟨place, by omega⟩) :=
    List.getElem?_eq_getElem (by omega)
  have own : ∀ before vertex, graph.items[before]? = some (.node vertex) →
      graph.Body graph.root vertex → after.Body after.root before := by
    intro before vertex standing inBody
    have placed := relaid.body_placeOf coherent.live_root inBody (coherent.live_of_item standing)
    rwa [coherent.placeOf_root, ← relaid.root, ← coherent.eq_placeOf standing] at placed
  generalize graph.items.get ⟨place, by omega⟩ = item at here
  cases coherent.arises here with
  | stands vertex => exact ⟨place, vertex, Nat.le_refl _, here, own place vertex here⟩
  | @follows before vertex _ _ _ follows standing found leads =>
    refine ⟨before, vertex, by omega, standing, fun inBody => ?_⟩
    rw [follows]
    exact (own before vertex standing inBody).tail (relaid.next_mem standing found leads)
  | closes last => omega

section

variable (endsOwn : graph.EndsOwn)
include endsOwn

/-- What stands before a place of the program's own body belongs to that body. -/
theorem own_before (inBody : after.Body after.root (place + 1)) : after.Body after.root place := by
  have coherent := relaid.coherent
  have start : graph.Placed graph.root after.root := by
    rw [relaid.root]
    exact .inl ⟨coherent.live_root, .inl placed_root⟩
  rcases inBody.cases_tail with same | ⟨before, path, leads⟩
  · rw [relaid.root] at same
    cases same
  obtain ⟨vertex, placed, inBody'⟩ := relaid.body_origin start path
  obtain ⟨other, placed', steps, onward | isPlace⟩ := relaid.bodySuccessor placed leads
  · cases onward
    exact path
  · have reached : graph.Body graph.root other := by
      rcases steps with rfl | steps
      · exact inBody'
      · exact inBody'.tail steps
    obtain ⟨first, bearer, below, standing, own⟩ := relaid.exists_bearer placed'.lt
    apply own
    rcases placed' with ⟨live, _⟩ | ⟨isEnd, _⟩
    · have here := placed_goto coherent live
      rw [← isPlace] at here
      exact (coherent.precedes (Nat.lt_succ_of_le below) standing here).own reached
    · rw [isEnd] at reached isPlace
      exact endsOwn.body coherent reached standing (by omega)

theorem own_of_le (below : place ≤ place')
    (inBody : after.Body after.root place') : after.Body after.root place := by
  induction below with
  | refl => exact inBody
  | step _ ih => exact ih (relaid.own_before endsOwn inBody)

theorem layoutOrder : after.layoutOrder = List.range after.finish := by
  apply List.Pairwise.eq_of_mem_iff (r := (· < ·)) ?_ List.pairwise_lt_range
  · intro place
    rw [mem_layoutOrder relaid.coherent', List.mem_range]
    constructor
    · exact Live.lt
    · intro inside
      obtain ⟨item, here⟩ := relaid.exists_item inside
      exact relaid.live here
  · refine (pairwise_layoutOrder relaid.coherent').imp fun {first second} precedes => ?_
    by_cases alike : after.Body after.root first ↔ after.Body after.root second
    · have different := precedes.different
      have start := relaid.root
      rcases precedes.rises alike with isStart | below
      · omega
      · exact below
    · by_contra above
      have outside : ¬ after.Body after.root second :=
        fun inBody => alike (iff_of_true (precedes.own inBody) inBody)
      apply alike
      exact iff_of_false
        (fun inBody => outside (relaid.own_of_le endsOwn (Nat.le_of_not_lt above) inBody)) outside

theorem toCode : after.toCode = graph.toCode :=
  toCode_of_straight relaid.accepted relaid.inner (relaid.layoutOrder endsOwn)

end

end

/-! ### Regions of a layout -/

section

variable (relaid : graph.Relaid after)
include relaid

theorem mem_entries_placeOf (listed : entry ∈ graph.entries) :
    graph.Live entry ∧ graph.placeOf entry ∈ after.entries := by
  have coherent := relaid.coherent
  rcases mem_entries.1 listed with rfl | ⟨notEnd, index, node, found, live, calls, target⟩
  · refine ⟨coherent.live_root, mem_entries.2 (.inl ?_)⟩
    rw [coherent.placeOf_root, relaid.root]
  · have alive := (coherent.stands_entry (.inr ⟨index, node, found, live, calls, target⟩)).resolve_left
      notEnd
    obtain ⟨node', found', live', same⟩ :=
      relaid.live_counterpart (placed_goto coherent ⟨node, found, live⟩) found
    refine ⟨alive, mem_entries.2 (.inr ⟨?_, _, node', found', live', same.opcode.trans calls, ?_⟩)⟩
    · rw [relaid.finish]
      exact Nat.ne_of_lt (coherent.placed_of_live alive).lt
    · rw [same.target, target]
      rfl

/-- An entry of the layout is the place of an entry, or that at which the program ends. -/
theorem exists_entry (listed : place ∈ after.entries) :
    ∃ entry, place = graph.placeOf entry ∧ graph.Placed entry place ∧
      (entry ∈ graph.entries ∨ entry = graph.finish) := by
  have coherent := relaid.coherent
  rcases mem_entries.1 listed with start | ⟨_, index, node', found', _, calls, target'⟩
  · refine ⟨graph.root, ?_, ?_, .inl (mem_entries.2 (.inl rfl))⟩
    · rw [start, relaid.root, coherent.placeOf_root]
    · rw [start, relaid.root]
      exact .inl ⟨coherent.live_root, .inl placed_root⟩
  · obtain ⟨item, here, laid⟩ := relaid.laid_of_node found'
    obtain ⟨entry, isPlace, placed, stands⟩ := laid.jumps coherent target'
    refine ⟨entry, isPlace, placed, ?_⟩
    rcases stands with rfl | ⟨vertex, node, _, found, live, opcode, target⟩
    · cases laid with
      | goto _ opcode _ _ =>
        rw [calls] at opcode
        cases opcode
    · by_cases isEnd : entry = graph.finish
      · exact .inr isEnd
      · exact .inl (mem_entries.2
          (.inr ⟨isEnd, vertex, node, found, live, opcode.trans calls, target⟩))

theorem owner (owns : graph.Owner entry vertex)
    (live : graph.Live vertex) : after.Owner (graph.placeOf entry) (graph.placeOf vertex) := by
  have coherent := relaid.coherent
  obtain ⟨alive, listed'⟩ := relaid.mem_entries_placeOf owns.listed
  refine ⟨listed', relaid.body_placeOf alive owns.inBody live, ?_⟩
  intro notStart place listed inBody
  have notRoot : entry ≠ graph.root := by
    rintro rfl
    rw [coherent.placeOf_root, relaid.root] at notStart
    exact notStart rfl
  obtain ⟨other, rfl, placed, isEntry⟩ := relaid.exists_entry listed
  obtain ⟨vertex', placed', inBody'⟩ := relaid.body_origin placed inBody
  rw [placed'.unique (coherent.placed_of_live live)] at inBody'
  have among : other ∈ graph.entries := isEntry.resolve_right (live.entry_ne_finish inBody')
  obtain ⟨otherNotRoot, least⟩ := owns.first notRoot other among inBody'
  have otherLive := (relaid.mem_entries_placeOf among).1
  -- the vertex lies outside the program's own body, so the entries of its bodies do
  have outside : ∀ index, graph.Body index vertex → ¬ graph.Body graph.root index := by
    intro index leads own
    exact (owns.first notRoot graph.root (mem_entries.2 (.inl rfl)) (own.trans leads)).1 rfl
  constructor
  · rw [relaid.root, ← coherent.placeOf_root]
    exact fun same => otherNotRoot (coherent.placeOf_injective otherLive coherent.live_root same)
  · exact coherent.placeOf_le alive otherLive least (outside entry owns.inBody) (outside other inBody')

theorem regionOf_placeOf (live : graph.Live vertex) :
    regionOf after.regions (graph.placeOf vertex) =
      (regionOf graph.regions vertex).map graph.placeOf := by
  obtain ⟨entry, owns⟩ := relaid.isExact.exists_owner live
  have inside : graph.placeOf vertex ≤ after.finish := by
    rw [relaid.finish]
    exact Nat.le_of_lt (relaid.coherent.placed_of_live live).lt
  rw [(relaid.coherent.regionOf_eq_some (Nat.le_of_lt live.lt)).2 owns, Option.map_some,
    (relaid.coherent'.regionOf_eq_some inside).2 (relaid.owner owns live)]

end

end Relaid

end Quadruple.FlowGraph
