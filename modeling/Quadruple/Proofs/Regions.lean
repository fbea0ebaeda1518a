import Quadruple.FlowGraph.ConstantFolding
import Quadruple.Proofs.Bodies

/-!
The table of regions. It gives for every vertex the first entry to whose body the vertex belongs; where
bodies share no live instruction, that is the entry of the only one.
-/

namespace Quadruple.FlowGraph

variable {α : Type} {entries entered : List Nat} {vertex : Nat} {state : Array Bool × Array (Option Nat)}

/-- Bodies of different entries share no live instruction. -/
def BodiesApart (graph : FlowGraph) : Prop :=
  ∀ entry entry' place : Nat, graph.Entry entry → graph.Entry entry' → graph.Live place →
    graph.Body entry place → graph.Body entry' place → entry = entry'

theorem getElem?_foldl_setIfInBounds (value : α) (indices : List Nat) (table : Array α) (index : Nat) :
    (indices.foldl (fun table index => table.setIfInBounds index value) table)[index]? =
      if index ∈ indices ∧ index < table.size then some value else table[index]? := by
  induction indices generalizing table with
  | nil => simp
  | cons first rest ih =>
    rw [List.foldl_cons, ih, Array.size_setIfInBounds, Array.getElem?_setIfInBounds]
    simp only [List.mem_cons]
    by_cases same : first = index
    · subst same
      by_cases inside : first < table.size <;> simp [inside]
    · have different : ¬ index = first := fun equal => same equal.symm
      simp only [if_neg same, different, false_or]

theorem size_foldl_setIfInBounds (value : α) (indices : List Nat) (table : Array α) :
    (indices.foldl (fun table index => table.setIfInBounds index value) table).size =
      table.size := by
  induction indices generalizing table with
  | nil => rfl
  | cons first rest ih => exact (ih _).trans Array.size_setIfInBounds

variable {graph : FlowGraph} {entry place : Nat}

theorem mem_entries :
    entry ∈ graph.entries ↔ entry = graph.root ∨ entry ≠ graph.finish ∧
      ∃ (index : Nat) (node : Node), graph.nodes[index]? = some node ∧ node.live = true ∧
        node.instruction.opcode = .call ∧ node.target = some entry := by
  simp only [entries, List.mem_cons, List.mem_mergeSort, List.mem_filterMap]
  refine or_congr_right ⟨?_, ?_⟩
  · rintro ⟨index, isLive, called⟩
    obtain ⟨node, found, called⟩ := Option.bind_eq_some_iff.1 called
    obtain ⟨node', found', live⟩ := mem_liveIndices.1 isLive
    cases found.symm.trans found'
    split at called
    · rename_i calls
      obtain ⟨target, inside⟩ := Option.filter_eq_some_iff.1 called
      exact ⟨of_decide_eq_true inside, index, node, found, live, calls, target⟩
    · cases called
  · rintro ⟨notEnd, index, node, found, live, calls, target⟩
    refine ⟨index, mem_liveIndices.2 ⟨node, found, live⟩, ?_⟩
    rw [found, Option.bind_some, if_pos calls, target, Option.filter_some]
    exact if_pos (decide_eq_true notEnd)

noncomputable def firstEntry (graph : FlowGraph) (entries : List Nat) (vertex : Nat) : Option Nat :=
  open Classical in entries.find? fun entry => graph.Body entry vertex

theorem firstEntry_eq_none :
    graph.firstEntry entries vertex = none ↔ ∀ entry ∈ entries, ¬ graph.Body entry vertex := by
  simp [firstEntry]

theorem firstEntry_concat_of_body (inBody : graph.Body entry vertex)
    (fresh : ∀ other ∈ entries, ¬ graph.Body other vertex) :
    graph.firstEntry (entries ++ [entry]) vertex = some entry := by
  have none : graph.firstEntry entries vertex = none := firstEntry_eq_none.2 fresh
  unfold firstEntry at none ⊢
  rw [List.find?_append, none, Option.none_or]
  simp [inBody]

theorem firstEntry_concat_of_known
    (known : graph.Body entry vertex → ∃ other ∈ entries, graph.Body other vertex) :
    graph.firstEntry (entries ++ [entry]) vertex = graph.firstEntry entries vertex := by
  cases first : graph.firstEntry entries vertex with
  | some owner =>
    unfold firstEntry at first ⊢
    rw [List.find?_append, first, Option.some_or]
  | none =>
    have fresh := firstEntry_eq_none.1 first
    refine firstEntry_eq_none.2 fun other listed inBody => ?_
    rcases List.mem_append.1 listed with before | last
    · exact fresh other before inBody
    · obtain ⟨other, before, inBody⟩ := known (List.mem_singleton.1 last ▸ inBody)
      exact fresh other before inBody

theorem body_of_firstEntry (first : graph.firstEntry entries vertex = some entry) :
    entry ∈ entries ∧ graph.Body entry vertex :=
  ⟨List.mem_of_find?_eq_some first, by simpa using List.find?_some first⟩

/-- The tables of regions once some bodies have been entered. -/
structure Assigned (graph : FlowGraph) (entered : List Nat)
    (state : Array Bool × Array (Option Nat)) : Prop where
  marks : state.1.size = graph.finish + 1
  size : state.2.size = graph.finish + 1
  marked : ∀ vertex : Nat, state.1[vertex]? = some true ↔
    ∃ entry ∈ entered, graph.Body entry vertex
  owner : ∀ vertex ≤ graph.finish, state.2[vertex]? = some (graph.firstEntry entered vertex)

theorem assigned_start (graph : FlowGraph) :
    graph.Assigned [] (unmarked graph.nodes, Array.replicate (graph.nodes.size + 1) none) := by
  refine ⟨Array.size_replicate, Array.size_replicate, fun vertex => ?_, fun vertex inside => ?_⟩
  · rw [unmarked, Array.getElem?_replicate]
    constructor
    · intro marked
      split at marked <;> cases marked
    · rintro ⟨_, listed, _⟩
      cases listed
  · have bounded : vertex < graph.nodes.size + 1 := Nat.lt_succ_of_le inside
    rw [Array.getElem?_replicate, if_pos bounded]
    rfl

theorem Stands.le (stands : graph.Stands place) : place ≤ graph.finish := by
  rcases stands with rfl | live
  · exact Nat.le_refl _
  · exact Nat.le_of_lt live.lt

theorem Coherent.entry_of_mem_entries (coherent : graph.Coherent) (listed : entry ∈ graph.entries) :
    graph.Entry entry ∧ entry ≤ graph.finish := by
  have isEntry : graph.Entry entry := (mem_entries.1 listed).imp id And.right
  exact ⟨isEntry, (coherent.stands_entry isEntry).le⟩

theorem Live.entry_ne_finish (live : graph.Live place) (inBody : graph.Body entry place) :
    entry ≠ graph.finish := by
  rintro rfl
  rcases inBody.cases_head with same | ⟨next, leads, _⟩
  · exact absurd live.lt (by omega)
  · rw [graph.bodySuccessors_finish] at leads
    cases leads

section

variable (coherent : graph.Coherent)
include coherent

/-- A search of a body that was not entered yet visits what belongs to no earlier one. -/
theorem Assigned.visited {marked : Array Bool} {table : Array (Option Nat)}
    (assigned : graph.Assigned entered (marked, table)) (isEntry : graph.Entry entry)
    (fresh : marked[entry]? = some false) (vertex : Nat) :
    vertex ∈ (explore graph.bodySuccessors (.start marked entry)).1 ↔
      graph.Body entry vertex ∧ marked[vertex]? ≠ some true := by
  have within : entry < marked.size := (Array.getElem?_eq_some_iff.1 fresh).1
  have sound : (Frontier.start marked entry).Sound := Frontier.sound_start within
  have start : ∀ other ≠ entry, (Frontier.start marked entry).marked[other]? = marked[other]? := by
    intro other different
    rw [Frontier.start, Array.getElem?_setIfInBounds_ne (Ne.symm different)]
  constructor
  · intro visited
    obtain ⟨origin, onStack, leads⟩ := leads_of_explored _ _ visited
    rw [List.mem_singleton.1 onStack] at leads
    refine ⟨leads, fun already => ?_⟩
    by_cases same : vertex = entry
    · rw [same, fresh] at already
      cases already
    · rcases (nodup_explore _ _ sound).2 vertex visited with onStack | unvisited
      · exact same (List.mem_singleton.1 onStack)
      · rw [start vertex same, already] at unvisited
        cases unvisited
  · rintro ⟨inBody, unmarked⟩
    induction inBody with
    | refl => exact mem_explore_of_mem_stack _ _ List.mem_cons_self
    | @tail before after path leads ih =>
      -- what leads to an unmarked vertex is itself unmarked
      have unmarked' : marked[before]? ≠ some true := by
        intro already
        obtain ⟨other, listed, inBody⟩ := (assigned.marked before).1 already
        exact unmarked ((assigned.marked after).2 ⟨other, listed, inBody.tail leads⟩)
      have bounded : after < (Frontier.start marked entry).marked.size := by
        have stands := (coherent.stands_body isEntry (path.tail leads)).le
        rw [Frontier.start, Array.size_setIfInBounds]
        have marks := assigned.marks
        simp only at marks
        omega
      have final := marked_of_explored _ _ sound (ih unmarked') leads bounded
      rcases (marked_explore _ _ sound).1 final with already | visited
      · by_cases same : after = entry
        · rw [same]
          exact mem_explore_of_mem_stack _ _ List.mem_cons_self
        · exact absurd ((start after same).symm.trans already) unmarked
      · exact visited

theorem Assigned.enter (assigned : graph.Assigned entered state) (isEntry : graph.Entry entry) :
    graph.Assigned (entered ++ [entry]) (regions.enter graph state entry) := by
  obtain ⟨marked, table⟩ := state
  have inside := (coherent.stands_entry isEntry).le
  have marks : marked.size = graph.finish + 1 := assigned.marks
  have concat (vertex : Nat) : (∃ other ∈ entered ++ [entry], graph.Body other vertex) ↔
      marked[vertex]? = some true ∨ graph.Body entry vertex := by
    rw [assigned.marked]
    simp [or_and_right, exists_or]
  unfold regions.enter
  by_cases fresh : marked[entry]? = some false
  · simp only [if_pos fresh]
    have visited := assigned.visited coherent isEntry fresh
    have sound : (Frontier.start marked entry).Sound := Frontier.sound_start (by omega)
    refine ⟨?_, ?_, fun vertex => ?_, fun vertex within => ?_⟩
    · rw [size_explore, Frontier.start, Array.size_setIfInBounds, marks]
    · exact (size_foldl_setIfInBounds _ _ table).trans assigned.size
    · have before : (Frontier.start marked entry).marked[vertex]? = some true ↔
          marked[vertex]? = some true ∨ vertex = entry := by
        by_cases same : vertex = entry
        · subst same
          simp [Frontier.start, marks, Nat.lt_succ_of_le inside]
        · rw [Frontier.start, Array.getElem?_setIfInBounds_ne (Ne.symm same)]
          simp [same]
      rw [marked_explore _ _ sound, before, visited, concat]
      constructor
      · rintro ((already | rfl) | ⟨inBody, _⟩)
        · exact .inl already
        · exact .inr .refl
        · exact .inr inBody
      · intro among
        by_cases already : marked[vertex]? = some true
        · exact .inl (.inl already)
        · exact .inr ⟨among.resolve_left already, already⟩
    · have bounded : vertex < table.size := by
        have size : table.size = graph.finish + 1 := assigned.size
        omega
      rw [getElem?_foldl_setIfInBounds]
      by_cases now : vertex ∈ (explore graph.bodySuccessors (.start marked entry)).1
      · obtain ⟨inBody, unmarked⟩ := (visited vertex).1 now
        rw [if_pos ⟨now, bounded⟩, firstEntry_concat_of_body inBody]
        intro other listed inBody'
        exact unmarked ((assigned.marked vertex).2 ⟨other, listed, inBody'⟩)
      · rw [if_neg fun both => now both.1, firstEntry_concat_of_known]
        · exact assigned.owner vertex within
        · intro inBody
          by_contra unknown
          exact now ((visited vertex).2 ⟨inBody, fun already =>
            unknown ((assigned.marked vertex).1 already)⟩)
  · simp only [if_neg fresh]
    -- the entry belongs to an earlier body, and so does everything to which it leads
    have already : marked[entry]? = some true := by
      rw [Array.getElem?_eq_getElem (by omega : entry < marked.size)] at fresh ⊢
      simpa using fresh
    obtain ⟨earlier, listed, inBody⟩ := (assigned.marked entry).1 already
    have known : ∀ vertex, graph.Body entry vertex → ∃ other ∈ entered, graph.Body other vertex :=
      fun vertex inBody' => ⟨earlier, listed, inBody.trans inBody'⟩
    refine ⟨marks, assigned.size, fun vertex => ?_, fun vertex within => ?_⟩
    · rw [concat]
      exact ⟨.inl, fun among => among.elim id fun inBody => (assigned.marked vertex).2 (known vertex inBody)⟩
    · rw [firstEntry_concat_of_known (known vertex)]
      exact assigned.owner vertex within

theorem Assigned.enterAll (assigned : graph.Assigned entered state) (entries : List Nat)
    (areEntries : ∀ entry ∈ entries, graph.Entry entry) :
    graph.Assigned (entered ++ entries) (entries.foldl (regions.enter graph) state) := by
  induction entries generalizing entered state with
  | nil =>
    rw [List.append_nil]
    exact assigned
  | cons first rest ih =>
    have next := ih (assigned.enter coherent (areEntries first List.mem_cons_self))
      fun entry later => areEntries entry (List.mem_cons_of_mem _ later)
    rwa [List.append_assoc, List.singleton_append] at next

/-- The region of a vertex is the first body to which it belongs. -/
theorem Coherent.regionOf_eq (inside : place ≤ graph.finish) :
    regionOf graph.regions place = graph.firstEntry graph.entries place := by
  have final := graph.assigned_start.enterAll coherent graph.entries fun entry listed =>
    (coherent.entry_of_mem_entries listed).1
  rw [List.nil_append] at final
  simp only [regionOf, regions, final.owner place inside, Option.join_some]

end

/-- The entry whose region a vertex belongs to: the start of the program if that leads to the vertex,
and otherwise the least of the entries that do. -/
structure Owner (graph : FlowGraph) (entry vertex : Nat) : Prop where
  listed : entry ∈ graph.entries
  inBody : graph.Body entry vertex
  first : entry ≠ graph.root → ∀ other ∈ graph.entries, graph.Body other vertex →
    other ≠ graph.root ∧ entry ≤ other

theorem Owner.unique {owner : Nat} (owns : graph.Owner entry vertex) (owns' : graph.Owner owner vertex) :
    entry = owner := by
  by_cases start : entry = graph.root
  · by_cases start' : owner = graph.root
    · rw [start, start']
    · exact absurd start (owns'.first start' entry owns.listed owns.inBody).1
  · obtain ⟨start', least⟩ := owns.first start owner owns'.listed owns'.inBody
    exact Nat.le_antisymm least (owns'.first start' entry owns.listed owns.inBody).2

theorem pairwise_entries (graph : FlowGraph) : graph.entries.tail.Pairwise (· ≤ ·) := by
  refine (List.pairwise_mergeSort ?_ ?_ _).imp of_decide_eq_true
  · intro first second third
    simp only [decide_eq_true_eq]
    exact Nat.le_trans
  · intro first second
    simp only [Bool.or_eq_true, decide_eq_true_eq]
    exact Nat.le_total first second

theorem owner_of_firstEntry (first : graph.firstEntry graph.entries vertex = some entry) :
    graph.Owner entry vertex := by
  obtain ⟨listed, inBody⟩ := body_of_firstEntry first
  refine ⟨listed, inBody, fun notStart other listed' inBody' => ?_⟩
  obtain ⟨_, earlier, later, same, unmatched⟩ := List.find?_eq_some_iff_append.1 first
  have unmatched : ∀ other ∈ earlier, ¬ graph.Body other vertex := by simpa using unmatched
  cases earlier with
  | nil =>
    exact absurd (List.cons.inj same).1.symm notStart
  | cons start earlier =>
    constructor
    · rintro rfl
      rw [(List.cons.inj same).1] at inBody'
      exact unmatched start List.mem_cons_self inBody'
    · rw [same] at listed'
      rcases List.mem_append.1 listed' with before | after
      · exact absurd inBody' (unmatched other before)
      · rcases List.mem_cons.1 after with rfl | after
        · exact Nat.le_refl _
        · have ordered := graph.pairwise_entries
          rw [same, List.cons_append, List.tail_cons, List.pairwise_append,
            List.pairwise_cons] at ordered
          exact ordered.2.1.1 other after

theorem Coherent.regionOf_eq_some (coherent : graph.Coherent) (inside : place ≤ graph.finish) :
    regionOf graph.regions place = some entry ↔ graph.Owner entry place := by
  rw [coherent.regionOf_eq inside]
  constructor
  · exact owner_of_firstEntry
  · intro owns
    cases first : graph.firstEntry graph.entries place with
    | none => exact absurd owns.inBody (firstEntry_eq_none.1 first entry owns.listed)
    | some owner => rw [owns.unique (owner_of_firstEntry first)]

/-- The program's own body is the region of its start. -/
theorem Coherent.regionOf_eq_root (coherent : graph.Coherent) (inside : place ≤ graph.finish) :
    regionOf graph.regions place = some graph.root ↔ graph.Body graph.root place := by
  rw [coherent.regionOf_eq_some inside]
  constructor
  · exact Owner.inBody
  · intro inBody
    exact ⟨mem_entries.2 (.inl rfl), inBody, fun notStart => absurd rfl notStart⟩

theorem Coherent.regionOf_regions (coherent : graph.Coherent) (apart : graph.BodiesApart)
    (isEntry : graph.Entry entry) (inBody : graph.Body entry place) (live : graph.Live place) :
    regionOf graph.regions place = some entry := by
  have listed : entry ∈ graph.entries := mem_entries.2 (isEntry.imp id fun called =>
    ⟨live.entry_ne_finish inBody, called⟩)
  refine (coherent.regionOf_eq_some (Nat.le_of_lt live.lt)).2
    ⟨listed, inBody, fun notStart other listed' inBody' => ?_⟩
  have same := apart entry other place isEntry (coherent.entry_of_mem_entries listed').1 live inBody inBody'
  exact ⟨same ▸ notStart, Nat.le_of_eq same⟩

end Quadruple.FlowGraph
