import Quadruple.Proofs.Exactness

/-!
The order of a layout. The program's own body comes first and the rest follows in the order of the
indices, with one place for each instruction; what is added stands after the instruction from which
control goes on to it. A program whose instructions already stand in the order of its layout is its
own layout.
-/

namespace Quadruple.FlowGraph

variable {graph : FlowGraph} {vertex place : Nat} {node : Node} {item : Item} {first second index size : Nat}
  {instr : Instruction} {code : Code}

/-! ### The order of the instructions -/

theorem pairwise_liveIndices (graph : FlowGraph) : graph.liveIndices.Pairwise (· < ·) :=
  List.pairwise_lt_range.filter _

/-- How an instruction stands to one that is placed after it. -/
structure Precedes (graph : FlowGraph) (first second : Nat) : Prop where
  different : first ≠ second
  own : graph.Body graph.root second → graph.Body graph.root first
  rises : (graph.Body graph.root first ↔ graph.Body graph.root second) →
    first = graph.root ∨ first < second

theorem pairwise_layoutOrder (coherent : graph.Coherent) :
    graph.layoutOrder.Pairwise graph.Precedes := by
  have own : ∀ index ∈ graph.liveIndices,
      ((graph.regions[index]?).join = some graph.root ↔ graph.Body graph.root index) :=
    fun index listed => coherent.regionOf_eq_root (Nat.le_of_lt (mem_liveIndices.1 listed).lt)
  have sorted := graph.pairwise_liveIndices.filter (· ≠ graph.root)
  unfold layoutOrder
  simp only [List.partition_eq_filter_filter, List.cons_append]
  rw [List.pairwise_cons, List.pairwise_append]
  refine ⟨?_, ?_, ?_, ?_⟩
  · intro index listed
    refine ⟨?_, fun _ => .refl, fun _ => .inl rfl⟩
    rintro rfl
    simp at listed
  · apply (sorted.filter _).imp_of_mem
    intro first second listed _ below
    simp only [List.mem_filter, decide_eq_true_eq] at listed
    exact ⟨Nat.ne_of_lt below, fun _ => (own first listed.1.1).1 listed.2, fun _ => .inr below⟩
  · apply (sorted.filter _).imp_of_mem
    intro first second _ listed below
    simp only [List.mem_filter, decide_eq_true_eq, Function.comp_apply, Bool.not_eq_true',
      decide_eq_false_iff_not] at listed
    have outside := mt (own second listed.1.1).2 listed.2
    exact ⟨Nat.ne_of_lt below, fun inBody => absurd inBody outside, fun _ => .inr below⟩
  · intro first listed second listed'
    simp only [List.mem_filter, decide_eq_true_eq, Function.comp_apply, Bool.not_eq_true',
      decide_eq_false_iff_not] at listed listed'
    have inBody := (own first listed.1.1).1 listed.2
    have outside := mt (own second listed'.1.1).2 listed'.2
    refine ⟨?_, fun _ => inBody, fun same => absurd (same.1 inBody) outside⟩
    rintro rfl
    exact outside inBody

/-! ### The places of the instructions -/

def Item.vertex? : Item → Option Nat
  | .node index => some index
  | _ => none

theorem filterMap_itemsOf (graph : FlowGraph) (order : List Nat) :
    (graph.itemsOf order).filterMap Item.vertex? = order := by
  induction order with
  | nil => rfl
  | cons index rest ih =>
    have first : (graph.itemsFor index rest.head?).filterMap Item.vertex? = [index] := by
      rcases graph.itemsFor_cases index rest.head? with
        ⟨same, _⟩ | ⟨same, _⟩ | ⟨_, _, _, _, _, same⟩
      · rw [same]; rfl
      · rw [same]; rfl
      · rw [same]; rfl
    rw [itemsOf, List.filterMap_append, first, ih, List.singleton_append]

theorem filterMap_items (graph : FlowGraph) :
    graph.items.filterMap Item.vertex? = graph.layoutOrder := by
  have placed := graph.filterMap_itemsOf graph.layoutOrder
  rcases graph.items_prefix with same | same
  · rw [same, placed]
  · rw [same, List.filterMap_append, placed]
    exact List.append_nil _

section

variable (coherent : graph.Coherent)
include coherent

theorem Coherent.precedes {place' : Nat} (below : place < place')
    (here : graph.items[place]? = some (.node first))
    (here' : graph.items[place']? = some (.node second)) : graph.Precedes first second := by
  have ordered := pairwise_layoutOrder coherent
  rw [← graph.filterMap_items, List.pairwise_filterMap] at ordered
  obtain ⟨inside, same⟩ := List.getElem?_eq_some_iff.1 here
  obtain ⟨inside', same'⟩ := List.getElem?_eq_some_iff.1 here'
  have related := List.pairwise_iff_getElem.1 ordered place place' inside inside' below
  rw [same, same'] at related
  exact related first rfl second rfl

theorem Coherent.live_of_item (here : graph.items[place]? = some (.node vertex)) :
    graph.Live vertex :=
  fits_items coherent (.node vertex) (List.mem_of_getElem? here)

theorem Coherent.eq_placeOf (here : graph.items[place]? = some (.node vertex)) :
    place = graph.placeOf vertex := by
  have placed := placed_goto coherent (coherent.live_of_item here)
  rcases Nat.lt_trichotomy place (graph.placeOf vertex) with below | same | above
  · exact absurd rfl (coherent.precedes below here placed).different
  · exact same
  · exact absurd rfl (coherent.precedes above placed here).different

theorem Coherent.placeOf_root : graph.placeOf graph.root = 0 :=
  (coherent.eq_placeOf placed_root).symm

theorem Coherent.placeOf_injective (live : graph.Live first) (live' : graph.Live second)
    (same : graph.placeOf first = graph.placeOf second) : first = second := by
  have here := placed_goto coherent live
  rw [same, placed_goto coherent live'] at here
  cases here
  rfl

/-- Outside the program's own body, instructions are placed in the order of their indices. -/
theorem Coherent.placeOf_le (live : graph.Live first) (live' : graph.Live second)
    (ordered : first ≤ second) (outside : ¬ graph.Body graph.root first)
    (outside' : ¬ graph.Body graph.root second) : graph.placeOf first ≤ graph.placeOf second := by
  by_contra above
  have related := coherent.precedes (Nat.lt_of_not_le above) (placed_goto coherent live')
    (placed_goto coherent live)
  rcases related.rises (iff_of_false outside' outside) with start | below
  · rw [start] at outside'
    exact outside' .refl
  · omega

end

/-! ### What is added -/

/-- How a place comes to be: it is that of an instruction, or control goes on to it from the
instruction before it, or it is added at the end because a jump leads to the end of the program. -/
inductive Arises (graph : FlowGraph) (place : Nat) : Item → Prop where
  | stands (vertex : Nat) : Arises graph place (.node vertex)
  | follows {before vertex next : Nat} {node : Node} {item : Item} (after : place = before + 1)
      (standing : graph.items[before]? = some (.node vertex))
      (found : graph.nodes[vertex]? = some node) (leads : node.next = some next) :
      Arises graph place item
  | closes {vertex : Nat} {node : Node} (last : place + 1 = graph.items.length)
      (isEnd : place = graph.placeOf graph.finish) (found : graph.nodes[vertex]? = some node)
      (live : node.live = true) (leads : node.target = some graph.finish) :
      Arises graph place .exit

theorem itemsFor_follows {following : Option Nat}
    (here : (graph.itemsFor index following)[place + 1]? = some item) :
    place = 0 ∧ ∃ node next, graph.nodes[index]? = some node ∧ node.next = some next := by
  unfold itemsFor at here
  split at here
  · cases here
  · rename_i next leads
    obtain ⟨node, found, leads⟩ := Option.bind_eq_some_iff.1 leads
    refine ⟨?_, node, next, found, leads⟩
    split at here
    · exact Nat.lt_one_iff.1 (Nat.lt_of_succ_lt_succ (List.getElem?_eq_some_iff.1 here).1)
    · split at here
      · cases here
      · exact Nat.lt_one_iff.1 (Nat.lt_of_succ_lt_succ (List.getElem?_eq_some_iff.1 here).1)

theorem itemsOf_follows (order : List Nat) (here : (graph.itemsOf order)[place]? = some item) :
    (∃ vertex, item = .node vertex) ∨ ∃ before vertex node next, place = before + 1 ∧
      (graph.itemsOf order)[before]? = some (.node vertex) ∧
      graph.nodes[vertex]? = some node ∧ node.next = some next := by
  induction order generalizing place with
  | nil => cases here
  | cons first rest ih =>
    rcases Nat.lt_or_ge place (graph.itemsFor first rest.head?).length with inside | beyond
    · cases place with
      | zero =>
        rw [graph.itemsOf_head] at here
        exact .inl ⟨first, (Option.some.inj here).symm⟩
      | succ place =>
        rw [itemsOf, List.getElem?_append_left inside] at here
        obtain ⟨rfl, node, next, found, leads⟩ := itemsFor_follows here
        exact .inr ⟨0, first, node, next, rfl, graph.itemsOf_head first rest, found, leads⟩
    · rw [itemsOf, List.getElem?_append_right beyond] at here
      rcases ih here with isNode | ⟨before, vertex, node, next, same, standing, found, leads⟩
      · exact .inl isNode
      · refine .inr ⟨(graph.itemsFor first rest.head?).length + before, vertex, node, next,
          by omega, ?_, found, leads⟩
        rw [itemsOf, List.getElem?_append_right (Nat.le_add_right _ _), Nat.add_sub_cancel_left]
        exact standing

theorem Coherent.arises (coherent : graph.Coherent) (here : graph.items[place]? = some item) :
    graph.Arises place item := by
  have placed : (graph.itemsOf graph.layoutOrder)[place]? = some item →
      graph.Arises place item := by
    intro standing
    rcases itemsOf_follows _ standing with
      ⟨vertex, rfl⟩ | ⟨before, vertex, node, next, same, standing', found, leads⟩
    · exact .stands vertex
    · exact .follows same (getElem?_items standing') found leads
  by_cases needed : (!(graph.itemsOf graph.layoutOrder).contains .exit &&
      (graph.itemsOf graph.layoutOrder).any graph.leavesByJump) = true
  · have all : graph.items = graph.itemsOf graph.layoutOrder ++ [.exit] := by
      unfold items
      simp only [needed, if_true]
    rw [Bool.and_eq_true, Bool.not_eq_true', List.any_eq_true] at needed
    obtain ⟨absent, jump, listed, leaves⟩ := needed
    have fresh : .exit ∉ graph.itemsOf graph.layoutOrder := by simpa using absent
    have standing := here
    rw [all, List.getElem?_append] at standing
    split at standing
    · exact placed standing
    · rename_i beyond
      have inside := (List.getElem?_eq_some_iff.1 here).1
      rw [all, List.length_append, List.length_singleton] at inside
      have last : place = (graph.itemsOf graph.layoutOrder).length := by omega
      rw [last, Nat.sub_self] at standing
      cases standing
      cases jump with
      | exit | goto => cases leaves
      | node vertex =>
        obtain ⟨node, found, live⟩ :=
          (mem_layoutOrder coherent).1 ((graph.mem_itemsOf_node _ vertex).1 listed)
        refine .closes (by rw [all, last]; simp) ?_ found live ?_
        · rw [placeOf, if_pos rfl, all, List.idxOf_append_of_notMem fresh, last]
          simp
        · simpa [leavesByJump, found] using leaves
  · apply placed
    rw [← here]
    unfold items
    simp only [needed, if_false, Bool.false_eq_true]

/-! ### Programs that are laid out already -/

def Inner (graph : FlowGraph) : Prop :=
  ∀ (vertex : Nat) (node : Node), graph.nodes[vertex]? = some node → graph.finish ∉ node.successors

theorem Node.Represents.next_eq {next : Nat} (represents : node.Represents size index instr)
    (leads : node.next = some next) : next = index + 1 := by
  rw [represents.next] at leads
  split at leads
  · exact (Option.some.inj leads).symm
  · cases leads

theorem itemsOf_range' (accepted : ofCode code = .ok graph) (inner : graph.Inner) (start count : Nat)
    (whole : start + count = graph.finish) :
    graph.itemsOf (List.range' start count) = (List.range' start count).map .node := by
  induction count generalizing start with
  | zero => rfl
  | succ count ih =>
    have alone : graph.itemsFor start (List.range' (start + 1) count).head? = [.node start] := by
      unfold itemsFor
      split
      · rfl
      · rename_i next leads
        obtain ⟨node, found, leads⟩ := Option.bind_eq_some_iff.1 leads
        obtain ⟨instr, _, represents⟩ := represents_ofCode accepted found
        have notEnd : next ≠ graph.finish := by
          rintro rfl
          exact inner start node found ((represents.shaped.mem_successors _).2 (.inl leads))
        have onward := represents.next_eq leads
        have more : count ≠ 0 := by omega
        rw [if_neg notEnd, if_pos]
        rw [List.head?_range', if_neg more, onward]
    rw [List.range'_succ, itemsOf, alone, ih (start + 1) (by omega), List.map_cons,
      List.singleton_append]

theorem Coherent.leavesByJump_eq_false (coherent : graph.Coherent) (inner : graph.Inner)
    (item : Item) : graph.leavesByJump item = false := by
  cases item with
  | exit | goto => rfl
  | node index =>
    apply decide_eq_false
    intro leaves
    obtain ⟨node, found, leads⟩ := Option.bind_eq_some_iff.1 leaves
    exact inner index node found (((coherent.shaped index node found).mem_successors _).2 (.inr leads))

theorem instructionFor_of_represents (represents : node.Represents size index instr)
    (stays : ∀ target, node.target = some target → graph.placeOf target = target) :
    graph.instructionFor node = instr := by
  obtain ⟨rfl, _, named⟩ := represents
  unfold instructionFor
  split at named
  · rename_i jumps
    obtain ⟨target, names, _, leads⟩ := named
    have result : node.instruction.result = .target (target : Int) := by
      unfold Instruction.target? at names
      split at names
      · rename_i index same
        rw [if_pos jumps] at names
        rw [same, Option.some.inj names]
      · cases names
    simp only [leads, stays target leads, ← result]
  · rw [named]

/-- A program whose instructions are in the order of its layout is its own layout. -/
theorem toCode_of_straight (accepted : ofCode code = .ok graph) (inner : graph.Inner)
    (straight : graph.layoutOrder = List.range graph.finish) : graph.toCode = code := by
  have coherent := coherent_ofCode accepted
  have size : graph.finish = code.size := size_ofCode accepted
  have all : graph.items = (List.range graph.finish).map .node := by
    have never : (graph.itemsOf graph.layoutOrder).any graph.leavesByJump = false := by
      rw [List.any_eq_false]
      intro item _
      rw [coherent.leavesByJump_eq_false inner item]
      exact Bool.false_ne_true
    unfold items
    simp only [never, Bool.and_false, Bool.false_eq_true, if_false]
    rw [straight, List.range_eq_range']
    exact itemsOf_range' accepted inner 0 graph.finish (Nat.zero_add _)
  have here : ∀ place < graph.finish, graph.items[place]? = some (.node place) := by
    intro place inside
    simp [all, inside]
  apply Array.ext_getElem?
  intro place
  rw [getElem?_toCode coherent]
  by_cases inside : place < graph.finish
  · obtain ⟨node, found, represents⟩ :=
      node_ofCode accepted (Array.getElem?_eq_getElem (size ▸ inside))
    rw [here place inside, Option.bind_some, instructionAt, found, Option.map_some,
      Array.getElem?_eq_getElem (size ▸ inside), instructionFor_of_represents represents]
    intro target leads
    have among := (represents.shaped.mem_successors target).2 (.inr leads)
    have bounded := represents.le_of_mem_successors (size ▸ inside) among
    have notEnd : target ≠ graph.finish := by
      rintro rfl
      exact inner place node found among
    exact (coherent.eq_placeOf (here target (by omega))).symm
  · rw [Array.getElem?_eq_none_iff.2 (by omega), all]
    simp [inside]

end Quadruple.FlowGraph
