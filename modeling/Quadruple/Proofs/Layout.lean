import Quadruple.FlowGraph.Layout
import Quadruple.Proofs.Splicing

/-!
The layout of a coherent flow graph. Every live instruction has a place, and what follows it in the
program is where control goes from it, or a jump there, or the end of the program. So the program
does what a walk through the graph does.
-/

namespace Quadruple.FlowGraph

variable {vertex next place target : Nat} {node : Node} {item : Item}

section

variable {graph : FlowGraph}

theorem mem_layoutOrder (coherent : graph.Coherent) : vertex ∈ graph.layoutOrder ↔ graph.Live vertex := by
  unfold layoutOrder
  simp only [List.partition_eq_filter_filter, List.cons_append, List.mem_cons, List.mem_append,
    List.mem_filter, mem_liveIndices, Function.comp_apply, Bool.not_eq_true', decide_eq_true_eq]
  constructor
  · rintro (rfl | ⟨⟨live, _⟩, _⟩ | ⟨⟨live, _⟩, _⟩)
    · exact coherent.live_root
    · exact live
    · exact live
  · intro live
    by_cases start : vertex = graph.root
    · exact .inl start
    · by_cases main : (graph.regions[vertex]?).join = some graph.root
      · exact .inr (.inl ⟨⟨live, start⟩, main⟩)
      · exact .inr (.inr ⟨⟨live, start⟩, by rw [decide_eq_false main]⟩)

/-! ### Items -/

variable (graph)

theorem itemsFor_cases (index : Nat) (following : Option Nat) :
    (graph.itemsFor index following = [.node index] ∧
      ∀ node next, graph.nodes[index]? = some node → node.next = some next →
        next ≠ graph.finish ∧ following = some next) ∨
    (graph.itemsFor index following = [.node index, .exit] ∧
      ∀ node next, graph.nodes[index]? = some node → node.next = some next →
        next = graph.finish) ∨
    ∃ next node, graph.nodes[index]? = some node ∧ node.next = some next ∧ next ≠ graph.finish ∧
      graph.itemsFor index following = [.node index, .goto next] := by
  unfold itemsFor
  cases found : graph.nodes[index]? with
  | none => exact .inl ⟨rfl, fun _ _ here => nomatch here⟩
  | some node =>
    cases leads : node.next with
    | none =>
      refine .inl ⟨by simp [leads], fun _ next here leads' => ?_⟩
      cases here
      rw [leads] at leads'
      cases leads'
    | some next =>
      have unique : ∀ other next', some node = some other → other.next = some next' →
          next' = next := by
        intro other next' here leads'
        cases here
        exact Option.some.inj (leads'.symm.trans leads)
      simp only [Option.bind_some, leads]
      by_cases isEnd : next = graph.finish
      · rw [if_pos isEnd]
        exact .inr (.inl ⟨rfl, fun other next' here leads' => by
          rw [unique other next' here leads', isEnd]⟩)
      · rw [if_neg isEnd]
        by_cases follows : following = some next
        · rw [if_pos follows]
          exact .inl ⟨rfl, fun other next' here leads' => by
            rw [unique other next' here leads']
            exact ⟨isEnd, follows⟩⟩
        · rw [if_neg follows]
          exact .inr (.inr ⟨next, node, rfl, leads, isEnd, rfl⟩)

theorem itemsOf_head (index : Nat) (rest : List Nat) :
    (graph.itemsOf (index :: rest))[0]? = some (.node index) := by
  rw [itemsOf]
  rcases graph.itemsFor_cases index rest.head? with ⟨same, _⟩ | ⟨same, _⟩ | ⟨_, _, _, _, _, same⟩
  · rw [same]; rfl
  · rw [same]; rfl
  · rw [same]; rfl

theorem mem_itemsOf_node (order : List Nat) (vertex : Nat) :
    .node vertex ∈ graph.itemsOf order ↔ vertex ∈ order := by
  induction order with
  | nil => simp [itemsOf]
  | cons index rest ih =>
    rw [itemsOf, List.mem_append, ih, List.mem_cons]
    rcases graph.itemsFor_cases index rest.head? with
      ⟨same, _⟩ | ⟨same, _⟩ | ⟨_, _, _, _, _, same⟩
    · simp [same]
    · simp [same]
    · simp [same]

theorem mem_itemsOf_goto (order : List Nat) (vertex : Nat)
    (added : .goto vertex ∈ graph.itemsOf order) :
    ∃ index ∈ order, ∃ node, graph.nodes[index]? = some node ∧ node.next = some vertex ∧
      vertex ≠ graph.finish := by
  induction order with
  | nil => cases added
  | cons index rest ih =>
    rw [itemsOf, List.mem_append] at added
    rcases added with here | later
    · rcases graph.itemsFor_cases index rest.head? with
        ⟨same, _⟩ | ⟨same, _⟩ | ⟨next, node, found, leads, inner, same⟩
      · simp [same] at here
      · simp [same] at here
      · have isNext : vertex = next := by simpa [same] using here
        rw [isNext]
        exact ⟨index, List.mem_cons_self, node, found, leads, inner⟩
    · obtain ⟨source, member, node, found, leads⟩ := ih later
      exact ⟨source, List.mem_cons_of_mem _ member, node, found, leads⟩

theorem itemsOf_next (order : List Nat) (place : Nat) {index : Nat}
    (here : (graph.itemsOf order)[place]? = some (.node index)) (found : graph.nodes[index]? = some node)
    (leads : node.next = some next) :
    if next = graph.finish then (graph.itemsOf order)[place + 1]? = some .exit
    else (graph.itemsOf order)[place + 1]? = some (.node next) ∨
      (graph.itemsOf order)[place + 1]? = some (.goto next) := by
  induction order generalizing place with
  | nil => cases here
  | cons first rest ih =>
    rw [itemsOf] at here ⊢
    -- the place is that of the first instruction or lies among those of the rest
    have later : ∀ (items : List Item) (place' : Nat), place = items.length + place' →
        (items ++ graph.itemsOf rest)[place]? = some (.node index) →
        if next = graph.finish then (items ++ graph.itemsOf rest)[place + 1]? = some .exit
        else (items ++ graph.itemsOf rest)[place + 1]? = some (.node next) ∨
          (items ++ graph.itemsOf rest)[place + 1]? = some (.goto next) := by
      rintro items place' rfl standing
      rw [List.getElem?_append_right (by omega), Nat.add_sub_cancel_left] at standing
      rw [List.getElem?_append_right (by omega),
        show items.length + place' + 1 - items.length = place' + 1 by omega]
      exact ih place' standing
    rcases graph.itemsFor_cases first rest.head? with
      ⟨same, follows⟩ | ⟨same, isEnd⟩ | ⟨next', node', found', leads', inner, same⟩
    · rw [same] at here ⊢
      cases place with
      | zero =>
        have isFirst : first = index := by simpa using here
        subst isFirst
        obtain ⟨inner, following⟩ := follows node next found leads
        rw [if_neg inner]
        cases rest with
        | nil => cases following
        | cons second others =>
          cases following
          exact .inl (graph.itemsOf_head _ others)
      | succ place => exact later [.node first] place (Nat.add_comm _ _) here
    · rw [same] at here ⊢
      match place with
      | 0 =>
        have isFirst : first = index := by simpa using here
        subst isFirst
        rw [if_pos (isEnd node next found leads)]
        rfl
      | 1 => cases here
      | place + 2 => exact later [.node first, .exit] place (Nat.add_comm _ _) here
    · rw [same] at here ⊢
      match place with
      | 0 =>
        have isFirst : first = index := by simpa using here
        subst isFirst
        cases found'.symm.trans found
        cases leads'.symm.trans leads
        rw [if_neg inner]
        exact .inr rfl
      | 1 => cases here
      | place + 2 => exact later [.node first, .goto next'] place (Nat.add_comm _ _) here

/-! ### Places -/

theorem places_foldl (items : List Item) (start : Nat) (table : Array Nat) (vertex : Nat)
    (inside : vertex < table.size) :
    let final := (items.zipIdx start).foldl
      (fun table (item, place) =>
        match item with
        | .node index => table.setIfInBounds index place
        | _ => table) table
    (.node vertex ∉ items ∧ final.getD vertex 0 = table.getD vertex 0) ∨
      ∃ place, items[place]? = some (.node vertex) ∧ final.getD vertex 0 = start + place := by
  induction items generalizing start table with
  | nil => exact .inl ⟨List.not_mem_nil, rfl⟩
  | cons item rest ih =>
    rw [List.zipIdx_cons, List.foldl_cons]
    -- a place among the rest is one further among all items
    have further : ∀ (changed : Array Nat), vertex < changed.size →
        (.node vertex = item → changed.getD vertex 0 = start) →
        (.node vertex ≠ item → changed.getD vertex 0 = table.getD vertex 0) →
        let final := (rest.zipIdx (start + 1)).foldl
          (fun table (item, place) =>
            match item with
            | .node index => table.setIfInBounds index place
            | _ => table) changed
        (.node vertex ∉ item :: rest ∧ final.getD vertex 0 = table.getD vertex 0) ∨
          ∃ place, (item :: rest)[place]? = some (.node vertex) ∧
            final.getD vertex 0 = start + place := by
      intro changed bounded atHere elsewhere
      rcases ih (start + 1) changed bounded with ⟨absent, kept⟩ | ⟨place, standing, same⟩
      · by_cases here : .node vertex = item
        · refine .inr ⟨0, by rw [here]; rfl, ?_⟩
          exact kept.trans (atHere here)
        · exact .inl ⟨by simp [here, absent], kept.trans (elsewhere here)⟩
      · exact .inr ⟨place + 1, standing, same.trans (by omega)⟩
    cases item with
    | exit | goto other => exact further table inside (fun same => nomatch same) fun _ => rfl
    | node index =>
      refine further (table.setIfInBounds index start)
        (by rw [Array.size_setIfInBounds]; exact inside) ?_ ?_
      · intro same
        cases same
        simp [Array.getD_eq_getD_getElem?, inside]
      · intro different
        have elsewhere : index ≠ vertex := fun same => different (by rw [same])
        simp only [Array.getD_eq_getD_getElem?]
        rw [Array.getElem?_setIfInBounds_ne elsewhere]

theorem getElem?_placesOf {items : List Item} (present : .node vertex ∈ items)
    (inside : vertex < graph.nodes.size) :
    items[(graph.placesOf items).getD vertex 0]? = some (.node vertex) := by
  rcases places_foldl items 0 (Array.replicate graph.nodes.size 0) vertex
    (by rw [Array.size_replicate]; exact inside) with ⟨absent, _⟩ | ⟨place, standing, same⟩
  · exact absurd present absent
  · have found : (graph.placesOf items).getD vertex 0 = place := same.trans (Nat.zero_add place)
    rw [found]
    exact standing

def placeOf (vertex : Nat) : Nat :=
  if vertex = graph.finish then graph.items.idxOf .exit
  else (graph.placesOf graph.items).getD vertex 0

def instructionFor (node : Node) : Instruction :=
  match node.target with
  | some target => { node.instruction with result := .target (graph.placeOf target) }
  | none => node.instruction

def instructionAt : Item → Option Instruction
  | .exit => some { opcode := .exit }
  | .goto target => some { opcode := .goto, result := .target (graph.placeOf target) }
  | .node index => (graph.nodes[index]?).map graph.instructionFor

theorem toCode_eq : graph.toCode = (graph.items.filterMap graph.instructionAt).toArray := by
  congr 1

variable {graph}

/-- What the items of a coherent graph hold. -/
def Item.Fits (graph : FlowGraph) : Item → Prop
  | .exit => True
  | .goto target => graph.Live target
  | .node index => graph.Live index

theorem fits_items (coherent : graph.Coherent) : ∀ item ∈ graph.items, Item.Fits graph item := by
  have placed : ∀ item ∈ graph.itemsOf graph.layoutOrder, Item.Fits graph item := by
    intro item present
    cases item with
    | exit => trivial
    | node index =>
      exact (mem_layoutOrder coherent).1 ((graph.mem_itemsOf_node _ index).1 present)
    | goto target =>
      obtain ⟨index, member, node, found, leads, inner⟩ := graph.mem_itemsOf_goto _ _ present
      obtain ⟨node', found', live⟩ := (mem_layoutOrder coherent).1 member
      cases found.symm.trans found'
      exact (coherent.closed index node found live target
        (((coherent.shaped index node found).mem_successors target).2 (.inl leads))).resolve_left
        inner
  intro item present
  unfold items at present
  simp only at present
  split at present
  · rcases List.mem_append.1 present with before | last
    · exact placed item before
    · rw [List.mem_singleton.1 last]
      trivial
  · exact placed item present

theorem isSome_instructionAt (fits : item.Fits graph) : (graph.instructionAt item).isSome := by
  cases item with
  | exit | goto => rfl
  | node index =>
    obtain ⟨node, found, _⟩ := fits
    simp [instructionAt, found]

theorem getElem?_toCode (coherent : graph.Coherent) (place : Nat) :
    graph.toCode[place]? = (graph.items[place]?).bind graph.instructionAt := by
  have kept : ∀ (items : List Item), (∀ item ∈ items, Item.Fits graph item) → ∀ place : Nat,
      (items.filterMap graph.instructionAt)[place]? =
        (items[place]?).bind graph.instructionAt := by
    intro items
    induction items with
    | nil => intro _ place; rfl
    | cons item rest ih =>
      intro fits place
      have others := ih fun other member => fits other (List.mem_cons_of_mem _ member)
      obtain ⟨instr, found⟩ :=
        Option.isSome_iff_exists.1 (isSome_instructionAt (fits item List.mem_cons_self))
      simp only [List.filterMap_cons, found]
      cases place with
      | zero => simp [found]
      | succ place => simpa using others place
  rw [toCode_eq, List.getElem?_toArray]
  exact kept graph.items (fits_items coherent) place

theorem size_toCode (coherent : graph.Coherent) : graph.toCode.size = graph.items.length := by
  rw [toCode_eq, List.size_toArray, List.filterMap_length_eq_length]
  intro item listed
  exact isSome_instructionAt (fits_items coherent item listed)

theorem lt_size_toCode (coherent : graph.Coherent) (standing : graph.items[place]? = some item) :
    place < graph.toCode.size := by
  rw [size_toCode coherent]
  exact (List.getElem?_eq_some_iff.1 standing).1

/-! ### Walks through the graph and through its program -/

/-- A vertex and a place at which control comes to it, if only by a jump that was added. -/
def Placed (graph : FlowGraph) (vertex place : Nat) : Prop :=
  (graph.Live vertex ∧ (graph.items[place]? = some (.node vertex) ∨
    graph.items[place]? = some (.goto vertex))) ∨
  (vertex = graph.finish ∧ graph.items[place]? = some .exit)

theorem items_prefix : graph.items = graph.itemsOf graph.layoutOrder ∨
    graph.items = graph.itemsOf graph.layoutOrder ++ [.exit] := by
  unfold items
  simp only
  split
  · exact .inr rfl
  · exact .inl rfl

theorem getElem?_items (standing : (graph.itemsOf graph.layoutOrder)[place]? = some item) :
    graph.items[place]? = some item := by
  rcases graph.items_prefix with same | same
  · rw [same]
    exact standing
  · rw [same, List.getElem?_append_left (List.getElem?_eq_some_iff.1 standing).1]
    exact standing

theorem placed_root : graph.items[0]? = some (.node graph.root) :=
  getElem?_items (graph.itemsOf_head _ _)

section

variable (coherent : graph.Coherent)
include coherent

theorem node_mem_items (live : graph.Live vertex) : .node vertex ∈ graph.items := by
  have present : .node vertex ∈ graph.itemsOf graph.layoutOrder :=
    (graph.mem_itemsOf_node _ vertex).2 ((mem_layoutOrder coherent).2 live)
  rcases graph.items_prefix with same | same
  · rw [same]
    exact present
  · rw [same]
    exact List.mem_append_left _ present

section

variable (found : graph.nodes[vertex]? = some node)
include found

theorem placed_next (live : node.live = true)
    (leads : node.next = some next) (standing : graph.items[place]? = some (.node vertex)) :
    graph.Placed next (place + 1) := by
  have placed : (graph.itemsOf graph.layoutOrder)[place]? = some (.node vertex) := by
    rcases graph.items_prefix with same | same
    · rw [← same]
      exact standing
    · rw [same, List.getElem?_append] at standing
      split at standing
      · exact standing
      · rw [List.getElem?_singleton] at standing
        split at standing <;> cases standing
  have follows := graph.itemsOf_next _ place placed found leads
  by_cases isEnd : next = graph.finish
  · rw [if_pos isEnd] at follows
    exact .inr ⟨isEnd, getElem?_items follows⟩
  · rw [if_neg isEnd] at follows
    have alive := (coherent.closed vertex node found live next
      (((coherent.shaped vertex node found).mem_successors next).2 (.inl leads))).resolve_left isEnd
    exact .inl ⟨alive, follows.imp getElem?_items getElem?_items⟩

theorem exit_mem_items (live : node.live = true)
    (leads : node.target = some graph.finish) : .exit ∈ graph.items := by
  have present : .node vertex ∈ graph.itemsOf graph.layoutOrder :=
    (graph.mem_itemsOf_node _ vertex).2 ((mem_layoutOrder coherent).2 ⟨node, found, live⟩)
  by_cases already : .exit ∈ graph.itemsOf graph.layoutOrder
  · rcases graph.items_prefix with same | same
    · rw [same]
      exact already
    · rw [same]
      exact List.mem_append_left _ already
  · have needed : (!(graph.itemsOf graph.layoutOrder).contains .exit &&
        (graph.itemsOf graph.layoutOrder).any graph.leavesByJump) = true := by
      rw [Bool.and_eq_true, Bool.not_eq_true', List.any_eq_true]
      refine ⟨by simpa using already, .node vertex, present, ?_⟩
      simp [leavesByJump, found, leads]
    unfold items
    simp only [needed, if_true]
    exact List.mem_append_right _ List.mem_cons_self

theorem placed_target (live : node.live = true)
    (leads : node.target = some target) : graph.Placed target (graph.placeOf target) := by
  unfold placeOf
  by_cases isEnd : target = graph.finish
  · rw [if_pos isEnd]
    rw [isEnd] at leads
    exact .inr ⟨isEnd, List.getElem?_idxOf (exit_mem_items coherent found live leads)⟩
  · have alive := (coherent.closed vertex node found live target
      (((coherent.shaped vertex node found).mem_successors target).2 (.inr leads))).resolve_left isEnd
    rw [if_neg isEnd]
    exact .inl ⟨alive, .inl (graph.getElem?_placesOf (node_mem_items coherent alive) alive.lt)⟩

end

theorem placed_goto (live : graph.Live target) :
    graph.items[graph.placeOf target]? = some (.node target) := by
  rw [placeOf, if_neg (Nat.ne_of_lt live.lt)]
  exact graph.getElem?_placesOf (node_mem_items coherent live) live.lt

end

theorem instructionFor_like (shaped : node.Shaped) : node.instruction.Like (graph.instructionFor node) := by
  unfold instructionFor
  cases leads : node.target with
  | none => exact .refl _
  | some target =>
    refine ⟨rfl, rfl, rfl, fun plain => ?_⟩
    have hasTarget := shaped.target
    rw [leads, plain] at hasTarget
    cases hasTarget

theorem target?_instructionFor (shaped : node.Shaped) (leads : node.target = some target) :
    (graph.instructionFor node).target? = some (graph.placeOf target : Int) := by
  have hasTarget := shaped.target
  rw [leads] at hasTarget
  simp [instructionFor, leads, Instruction.target?, ← hasTarget]

theorem meets_toCode (coherent : graph.Coherent) (vertex place : Nat)
    (placed : graph.Placed vertex place) :
    Chart.Meets graph.chart (Code.chart graph.toCode) graph.Placed
      (fun vertex place => if graph.items[place]? = some (.goto vertex) then 1 else 0)
      vertex place := by
  rcases placed with ⟨⟨node, found, live⟩, standing | added⟩ | ⟨isEnd, standing⟩
  · have shaped := coherent.shaped vertex node found
    have here : Code.chart graph.toCode place = some ⟨graph.instructionFor node, place + 1,
        (graph.instructionFor node).targetIndex⟩ := by
      simp only [Code.chart, getElem?_toCode coherent, standing, Option.bind_some, instructionAt,
        found, Option.map_some]
    refine .same node.site _ (chart_of_node found) here (instructionFor_like shaped) ?_ ?_
    · intro falls
      obtain ⟨next, leads⟩ := Option.isSome_iff_exists.1 (shaped.next.trans falls)
      simp only [Node.site, leads, Option.getD_some]
      exact placed_next coherent found live leads standing
    · intro jumps
      obtain ⟨target, leads⟩ := Option.isSome_iff_exists.1 (shaped.target.trans jumps)
      simp only [Node.site, leads, Option.getD_some, Instruction.targetIndex,
        target?_instructionFor shaped leads]
      exact placed_target coherent found live leads
  · -- the program has a jump of its own here, and the graph has none
    have here : Code.chart graph.toCode place = some
        ⟨{ opcode := .goto, result := .target (graph.placeOf vertex) }, place + 1,
          graph.placeOf vertex⟩ := by
      simp only [Code.chart, getElem?_toCode coherent, added, Option.bind_some, instructionAt,
        Option.map_some]
      rfl
    have alive : graph.Live vertex := ⟨node, found, live⟩
    have standing := placed_goto coherent alive
    refine .right _ here rfl (.inl ⟨alive, .inl standing⟩) ?_
    rw [if_pos added, if_neg (by rw [standing]; simp)]
    exact Nat.zero_lt_one
  · have here : Code.chart graph.toCode place = some ⟨{ opcode := .exit }, place + 1, 0⟩ := by
      simp only [Code.chart, getElem?_toCode coherent, standing, Option.bind_some, instructionAt,
        Option.map_some]
      rfl
    rw [isEnd]
    refine .same Chart.closing _ graph.chart_finish here (.refl _) ?_ ?_
    · intro falls
      cases falls
    · intro jumps
      cases jumps

/-- The program of a graph does what a walk through the graph does. -/
theorem agree_toCode (coherent : graph.Coherent) (workspace : Workspace) :
    System.Agree (fun final => final) graph.chart.walk (Code.chart graph.toCode).walk
      ⟨workspace, graph.root, []⟩ ⟨workspace, 0, []⟩ :=
  (Chart.reroutes_simulation (meets_toCode coherent)).agree
    ⟨rfl, .inl ⟨coherent.live_root, .inl placed_root⟩, .nil⟩

theorem targetsInside_toCode (coherent : graph.Coherent) : Code.TargetsInside graph.toCode := by
  have inside : ∀ target, graph.Placed target (graph.placeOf target) →
      graph.placeOf target ≤ graph.toCode.size := by
    rintro target (⟨_, standing | standing⟩ | ⟨_, standing⟩) <;>
      exact Nat.le_of_lt (lt_size_toCode coherent standing)
  intro place instr found jumps
  rw [getElem?_toCode coherent] at found
  obtain ⟨item, standing, made⟩ := Option.bind_eq_some_iff.1 found
  have fits := fits_items coherent item (List.mem_of_getElem? standing)
  cases item with
  | exit =>
    cases made
    cases jumps
  | goto target =>
    cases made
    exact ⟨graph.placeOf target, rfl, inside target (.inl ⟨fits, .inl (placed_goto coherent fits)⟩)⟩
  | node index =>
    obtain ⟨node, here, rfl⟩ := Option.map_eq_some_iff.1 made
    obtain ⟨node', here', live⟩ := fits
    cases here.symm.trans here'
    have shaped := coherent.shaped index node here
    have hasTarget := shaped.target
    rw [(instructionFor_like shaped).opcode, jumps] at hasTarget
    obtain ⟨target, leads⟩ := Option.isSome_iff_exists.1 hasTarget
    exact ⟨graph.placeOf target, target?_instructionFor shaped leads,
      inside target (placed_target coherent here live leads)⟩

end

end Quadruple.FlowGraph
