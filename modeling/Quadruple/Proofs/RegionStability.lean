import Quadruple.Proofs.Exactness

/-!
Regions while instructions are taken out. Vertices keep their numbers, and no instruction that is left
stands between an instruction and the one that control falls through to. So the entries keep their
order, and two instructions of one region stay in one region, whatever entry it is named after.
-/

namespace Quadruple.FlowGraph

variable {graph after : FlowGraph} {index dest entry place vertex : Nat} {node : Node}

/-- Control falls through to the nearest instruction that is left, or past the last one. -/
def Contiguous (graph : FlowGraph) : Prop :=
  ∀ (place next : Nat) (node : Node), graph.nodes[place]? = some node → node.live = true →
    node.next = some next → ∀ vertex, graph.Live vertex → vertex ≤ place ∨ next ≤ vertex

structure Seamless (graph : FlowGraph) : Prop where
  isExact : graph.Exact
  contiguous : graph.Contiguous

theorem seamless_ofCode {code : Code} (accepted : ofCode code = .ok graph) : graph.Seamless := by
  refine ⟨exact_ofCode accepted, ?_⟩
  intro place next node found _ leads vertex _
  obtain ⟨instr, _, represents⟩ := represents_ofCode accepted found
  rw [represents.next] at leads
  split at leads
  · cases leads
    omega
  · cases leads

theorem Entry.mem_entries (isEntry : graph.Entry entry) (inBody : graph.Body entry vertex)
    (live : graph.Live vertex) : entry ∈ graph.entries :=
  FlowGraph.mem_entries.2 (isEntry.imp id fun called => ⟨live.entry_ne_finish inBody, called⟩)

/-! ### Taking an instruction out -/

/-- Nothing but jumps leads to a vertex. -/
structure OnlyJumpedTo (graph : FlowGraph) (index : Nat) : Prop where
  notEntry : ¬ graph.Entry index
  notFallen : ∀ (place : Nat) (node : Node), graph.nodes[place]? = some node → node.live = true →
    node.next ≠ some index

/-- An instruction that can be taken out, and that control falls through from unless nothing but jumps
leads to it. -/
structure Slips (graph : FlowGraph) (index dest : Nat) (node : Node) : Prop where
  passes : graph.Passes index dest node
  falls : graph.OnlyJumpedTo index ∨ node.next = some dest

theorem Exact.slips_thread (isExact : graph.Exact) (threadable : graph.isThreadable index = true) :
    ∃ dest node, graph.Slips index dest node ∧ node.instruction.opcode = .goto := by
  have coherent := isExact.coherent
  obtain ⟨dest, node, passes⟩ := isExact.passes_thread threadable
  obtain ⟨node', _, found', _, jumps, _⟩ := isThreadable_eq_true coherent threadable
  cases passes.skippable.found.symm.trans found'
  refine ⟨dest, node, ⟨passes, .inl ⟨?_, ?_⟩⟩, jumps⟩
  · rintro (isRoot | ⟨caller, other, found, live, calls, target⟩)
    · exact coherent.not_root passes.skippable.found passes.skippable.notInit isRoot
    · have leads := ((coherent.shaped caller other found).mem_successors index).2 (.inr target)
      exact (coherent.jumps_of_threadable threadable found live leads).2 calls
  · intro place other found live falls
    have leads := ((coherent.shaped place other found).mem_successors index).2 (.inl falls)
    exact (coherent.jumps_of_threadable threadable found live leads).1 falls

theorem Exact.slips_computing (isExact : graph.Exact) (computing : graph.Computing index) :
    ∃ dest node, graph.Slips index dest node := by
  obtain ⟨dest, node, passes⟩ := isExact.passes_computing computing
  obtain ⟨node', found', _, computes⟩ := computing
  cases passes.skippable.found.symm.trans found'
  have notGoto : node.instruction.opcode ≠ .goto := by
    intro jumps
    rw [jumps] at computes
    rcases computes with loads | pure
    · cases loads
    · cases pure
  have onward := passes.skippable.onward
  rw [Node.onward, if_neg notGoto] at onward
  exact ⟨dest, node, passes, .inr onward⟩

namespace Passes

theorem body (passes : graph.Passes index dest node) (isEntry : graph.Entry entry)
    (inBody : graph.Body entry vertex) :
    (graph.splice index).Body (bypass index dest entry) (bypass index dest vertex) := by
  have skippable := passes.skippable
  have coherent := skippable.coherent
  induction inBody with
  | refl => exact .refl
  | @tail before after inBody led ih =>
    obtain ⟨other, found, live⟩ := (coherent.stands_body isEntry inBody).live_of_body led
    by_cases through : before = index
    · subst through
      cases skippable.found.symm.trans found
      rw [passes.only after (coherent.mem_successors_of_body found led), bypass_of_ne skippable.apart]
      rwa [bypass_self] at ih
    · rw [bypass_of_ne through] at ih
      refine ih.tail ((mem_bodySuccessors (skippable.kept found live through)).2 ?_)
      rcases (mem_bodySuccessors found).1 led with next | ⟨jumps, target⟩
      · exact .inl (by rw [Node.bypass, next, Option.map_some])
      · exact .inr ⟨jumps, by rw [Node.bypass, target, Option.map_some]⟩

theorem body_dest (passes : graph.Passes index dest node) (inBody : graph.Body index vertex)
    (different : vertex ≠ index) : graph.Body dest vertex := by
  rcases inBody.cases_head with same | ⟨next, leads, rest⟩
  · exact absurd same.symm different
  · have isDest := passes.only next
      (passes.skippable.coherent.mem_successors_of_body passes.skippable.found leads)
    rwa [isDest] at rest

end Passes

namespace Slips

section

variable (slips : graph.Slips index dest node)
include slips

theorem contiguous (contiguous : graph.Contiguous) : (graph.splice index).Contiguous := by
  have skippable := slips.passes.skippable
  intro place next after here live leads vertex left
  obtain ⟨_, before, here', live', rfl⟩ := skippable.origin here live
  obtain ⟨former, leads', rfl⟩ := Option.map_eq_some_iff.1 leads
  obtain ⟨stood, different⟩ :=
    (live_splice skippable.found skippable.onward skippable.apart).1 left
  have beside := contiguous place former before here' live' leads' vertex stood
  by_cases through : former = index
  · subst through
    rw [bypass_self]
    rcases slips.falls with jumped | falls
    · exact absurd leads' (jumped.notFallen place before here' live')
    · have behind := contiguous former dest node skippable.found skippable.live falls vertex stood
      omega
  · rw [bypass_of_ne through]
    exact beside

theorem seamless (seamless : graph.Seamless) : (graph.splice index).Seamless :=
  ⟨slips.passes.splice seamless.isExact, slips.contiguous seamless.contiguous⟩

theorem bypass_le (seamless : graph.Seamless) {other : Nat} (isEntry : graph.Entry entry)
    (isEntry' : graph.Entry other) (live : graph.Live other) (least : entry ≤ other) :
    bypass index dest entry ≤ bypass index dest other := by
  have skippable := slips.passes.skippable
  by_cases here : entry = index
  · by_cases here' : other = index
    · rw [here, here']
    · rw [here, bypass_self, bypass_of_ne here']
      rcases slips.falls with jumped | falls
      · exact absurd (here ▸ isEntry) jumped.notEntry
      · have behind := seamless.contiguous index dest node skippable.found skippable.live falls other
          live
        omega
  · by_cases here' : other = index
    · rw [bypass_of_ne here, here', bypass_self]
      rcases slips.falls with jumped | falls
      · exact absurd (here' ▸ isEntry') jumped.notEntry
      · have rises := seamless.isExact.ascending index node skippable.found dest falls
        omega
    · rw [bypass_of_ne here, bypass_of_ne here']
      exact least

/-- Who owns an instruction that is left owns it still, with the instruction after if its own is taken
out. -/
theorem owner (seamless : graph.Seamless) (owns : graph.Owner entry vertex)
    (left : (graph.splice index).Live vertex) :
    (graph.splice index).Owner (bypass index dest entry) vertex := by
  have passes := slips.passes
  have skippable := passes.skippable
  have coherent := skippable.coherent
  obtain ⟨live, different⟩ := (live_splice skippable.found skippable.onward skippable.apart).1 left
  have isEntry := (coherent.entry_of_mem_entries owns.listed).1
  have inBody := passes.body isEntry owns.inBody
  rw [bypass_of_ne different] at inBody
  have keepsRoot : bypass index dest graph.root = graph.root :=
    bypass_of_ne (Ne.symm (coherent.not_root skippable.found skippable.notInit))
  refine ⟨(skippable.entry_bypass isEntry).mem_entries inBody left, inBody, ?_⟩
  rw [root_splice]
  intro notStart other listed inBody'
  obtain ⟨former, isEntry', rfl⟩ :=
    skippable.entry_origin (skippable.splice.entry_of_mem_entries listed).1
  have passed := skippable.body_origin isEntry' inBody'
  have first := owns.first fun isRoot => notStart (isRoot ▸ keepsRoot)
  obtain ⟨notRoot, least⟩ := first former (isEntry'.mem_entries passed live) passed
  refine ⟨fun isRoot => ?_, ?_⟩
  · -- otherwise the instruction leads to the start, to whose body the vertex would belong
    by_cases through : former = index
    · subst through
      rw [bypass_self] at isRoot
      have fromStart := passes.body_dest passed different
      rw [isRoot] at fromStart
      exact (first graph.root (mem_entries.2 (.inl rfl)) fromStart).1 rfl
    · rw [bypass_of_ne through] at isRoot
      exact notRoot isRoot
  · have stands := (coherent.stands_entry isEntry').resolve_left (live.entry_ne_finish passed)
    exact slips.bypass_le seamless isEntry isEntry' stands least

theorem regionOf_splice (seamless : graph.Seamless) (left : (graph.splice index).Live vertex) :
    regionOf (graph.splice index).regions vertex =
      (regionOf graph.regions vertex).map (bypass index dest) := by
  have skippable := slips.passes.skippable
  have live := ((live_splice skippable.found skippable.onward skippable.apart).1 left).1
  obtain ⟨owner, owns⟩ := seamless.isExact.exists_owner live
  rw [(skippable.coherent.regionOf_eq_some (Nat.le_of_lt live.lt)).2 owns, Option.map_some,
    (skippable.splice.regionOf_eq_some (Nat.le_of_lt left.lt)).2 (slips.owner seamless owns left)]

end

end Slips

/-! ### Taking instructions out one after the other -/

/-- What is left of a graph when some instructions have been taken out. -/
structure Thinned (graph : FlowGraph) (gone : List Nat) (after : FlowGraph) : Prop where
  live : ∀ vertex, after.Live vertex ↔ graph.Live vertex ∧ vertex ∉ gone
  nodes : ∀ (vertex : Nat) (node' : Node), after.nodes[vertex]? = some node' → node'.live = true →
    ∃ node, graph.nodes[vertex]? = some node ∧ node.live = true ∧
      node'.instruction = node.instruction
  regions : ∀ vertex other, after.Live vertex → after.Live other →
    regionOf graph.regions vertex = regionOf graph.regions other →
    regionOf after.regions vertex = regionOf after.regions other

theorem Thinned.refl (graph : FlowGraph) : graph.Thinned [] graph :=
  ⟨fun _ => by simp, fun _ node found live => ⟨node, found, live, rfl⟩, fun _ _ _ _ same => same⟩

theorem Slips.thinned (slips : graph.Slips index dest node) (seamless : graph.Seamless) :
    graph.Thinned [index] (graph.splice index) := by
  have skippable := slips.passes.skippable
  refine ⟨fun vertex => ?_, ?_, ?_⟩
  · rw [live_splice skippable.found skippable.onward skippable.apart, List.mem_singleton]
  · intro vertex node' found' live
    obtain ⟨_, before, found, live', rfl⟩ := skippable.origin found' live
    exact ⟨before, found, live', rfl⟩
  · intro vertex other left left' same
    rw [slips.regionOf_splice seamless left, slips.regionOf_splice seamless left', same]

theorem Thinned.trans {gone gone' : List Nat} {later : FlowGraph}
    (thinned : graph.Thinned gone after) (thinned' : after.Thinned gone' later) :
    graph.Thinned (gone ++ gone') later := by
  have back : ∀ vertex, later.Live vertex → after.Live vertex := fun vertex left =>
    ((thinned'.live vertex).1 left).1
  refine ⟨fun vertex => ?_, ?_, ?_⟩
  · rw [thinned'.live, thinned.live, List.mem_append, not_or, and_assoc]
  · intro vertex node'' found'' live
    obtain ⟨node', found', live', same'⟩ := thinned'.nodes vertex node'' found'' live
    obtain ⟨node, found, live, same⟩ := thinned.nodes vertex node' found' live'
    exact ⟨node, found, live, same'.trans same⟩
  · intro vertex other left left' same
    exact thinned'.regions vertex other left left'
      (thinned.regions vertex other (back vertex left) (back other left') same)

theorem Seamless.spliceAll (seamless : graph.Seamless) (indices : List Nat) (nodup : indices.Nodup)
    (computing : ∀ index ∈ indices, graph.Computing index) :
    (indices.foldl FlowGraph.splice graph).Seamless ∧
      graph.Thinned indices (indices.foldl FlowGraph.splice graph) := by
  induction indices generalizing graph with
  | nil => exact ⟨seamless, .refl graph⟩
  | cons first rest ih =>
    obtain ⟨fresh, nodup⟩ := List.nodup_cons.1 nodup
    obtain ⟨dest, node, slips⟩ :=
      seamless.isExact.slips_computing (computing first List.mem_cons_self)
    obtain ⟨seamless', thinned⟩ := ih (slips.seamless seamless) nodup fun index later =>
      slips.passes.computing (computing index (List.mem_cons_of_mem _ later)) fun same =>
        fresh (same ▸ later)
    exact ⟨seamless', (slips.thinned seamless).trans thinned⟩

end Quadruple.FlowGraph
