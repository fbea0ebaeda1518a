import Quadruple.Proofs.Bodies

/-!
A graph that computes fewer intermediate results than another one does the same, apart from those.
What one instruction does to two walks is shown for data, calls, returns and the end of the program;
the walks as a whole follow.
-/

namespace Quadruple

variable {workspace result : Workspace} {callers : Nat} {instr : Instruction}

theorem Workspace.memory_of_param (passes : instr.opcode = .param)
    (flows : workspace.effect callers instr = .flow .next result) : result.memory = workspace.memory := by
  simp only [effect, passes] at flows
  cases outcome : workspace.idle.passParam instr with
  | error cause =>
    rw [outcome] at flows
    cases flows
  | ok after =>
    rw [outcome] at flows
    cases flows
    obtain ⟨_, _, _, _, rfl⟩ := Machine.passParam_eq_ok.1 outcome
    rfl

theorem Workspace.memory_of_openRecord {way : Flow} (opens : instr.opcode = .openRecord)
    (flows : workspace.effect callers instr = .flow way result) :
    result.memory = workspace.memory.snapshot := by
  simp only [effect, opens] at flows
  cases flows
  rfl

theorem Machine.bindAll_alike {cells : Address → Prop} (passed : List Passed)
    {memory memory' : Memory} (agree : memory.Agree cells memory') :
    (bindAll memory passed).1 = (bindAll memory' passed).1 ∧
      (bindAll memory passed).2.Agree cells (bindAll memory' passed).2 ∧
      (bindAll memory passed).2.temps.room = memory.temps.room := by
  induction passed generalizing memory memory' with
  | nil => exact ⟨rfl, agree, rfl⟩
  | cons argument rest ih =>
    unfold bindAll storeAt
    have plain : argument.destination.plain.reference = false := rfl
    have stores := agree.store plain (argument.value.coerce argument.destination.type)
    have room (after : Memory) := @Memory.keeps_temps_store memory after argument.destination
      (argument.value.coerce argument.destination.type)
    generalize memory.store _ _ = given, memory'.store _ _ = given' at stores room
    cases stores with
    | error => exact ⟨rfl, agree, rfl⟩
    | ok agree' =>
      obtain ⟨outcome, agreed, kept⟩ := ih (agree'.mono fun _ => .inl)
      exact ⟨outcome, agreed, kept.trans (room _ rfl).1⟩

namespace FlowGraph

variable {graph graph' : FlowGraph} {room : Room} {known : Knowledge} {gone : Nat → Address → Prop}
  {move rank : Nat → Nat} {point point' : Point} {entry place next : Nat} {node node' : Node}
  {temps temps' : Bank} {callers : Nat} {result result' : Workspace}

theorem Settled.start (sized : temps.room = room) (sized' : temps'.room = room) :
    graph.Settled room known gone entry entry temps temps' :=
  ⟨⟨sized, fun _ _ _ _ written => absurd .start written⟩, sized',
    fun _ _ _ written => absurd .start written⟩

theorem Settled.still (settled : graph.Settled room known gone entry place temps temps')
    (found : graph.nodes[place]? = some node) (leads : next ∈ graph.bodySuccessors place)
    (silent : node.instruction.stores = false) :
    graph.Settled room known gone entry next temps temps' := by
  have before : ∀ cell, ¬ graph.Unwritten cell entry next → ¬ graph.Unwritten cell entry place := by
    intro cell written
    refine not_unwritten_of_next found leads written fun writes => ?_
    exact Bool.false_ne_true (silent.symm.trans writes.2.1)
  exact ⟨⟨settled.holds.room, fun cell value isTemp knows written =>
      settled.holds.values cell value isTemp knows (before cell written)⟩, settled.room,
    fun cell isTemp stays written => settled.same cell isTemp stays (before cell written)⟩

/-- The walks can be compared cell by cell where an instruction stands. -/
theorem Matched.shared (matched : graph.Matched room known gone move point point')
    (settled : graph.Settled room known gone entry point.position point.workspace.memory.temps
      point'.workspace.memory.temps) :
    point.workspace.Alike
      (fun cell => ¬ gone entry cell ∧ ¬ graph.Unwritten cell entry point.position)
      point'.workspace :=
  { matched.alike with
    memory := { matched.alike.memory with
      cells := fun cell isTemp shared => settled.same cell isTemp shared.1 shared.2 } }

/-- How two walks proceed when they stand at the same instruction. -/
abbrev Proceeds (graph graph' : FlowGraph) (room : Room) (known : Knowledge)
    (gone : Nat → Address → Prop) (move rank : Nat → Nat) (point point' : Point) : Prop :=
  System.Progress (Machine.seen Memory.lasting) graph.chart.walk graph'.chart.walk
    (graph.Matched room known gone move) (fun point _ => rank point.position) point point'

section

variable (matched : graph.Matched room known gone move point point')
include matched

theorem chart_of_matched (found' : graph'.nodes[move point.position]? = some node') :
    graph'.chart point'.position = some node'.site := by
  rw [matched.position]
  exact chart_of_node found'

/-- The records after an instruction from which control goes on to the next one. -/
theorem Matched.recorded_next (opensForCalls : graph.OpensForCalls) {callers' : Nat}
    (found : graph.nodes[point.position]? = some node) (live : node.live = true)
    (leads : node.next = some next) (opcode : node'.instruction.opcode = node.instruction.opcode)
    (flows : point.workspace.effect callers node.instruction = .flow .next result)
    (flows' : point'.workspace.effect callers' node'.instruction = .flow .next result') :
    graph.Recorded room known gone move ⟨result, next, point.returns⟩
      ⟨result', move next, point'.returns⟩ := by
  have records := Workspace.records_of_next flows
  have records' := Workspace.records_of_next flows'
  rw [opcode] at records'
  by_cases opens : node.instruction.opcode = .openRecord
  · rw [if_pos opens] at records records'
    obtain ⟨closed, saved⟩ := matched.saved found (by rw [opens]; decide) (by rw [opens]; decide)
    obtain ⟨_, leads', calling⟩ := opensForCalls point.position node found live opens
    cases leads.symm.trans leads'
    have opens' : node'.instruction.opcode = .openRecord := opcode.trans opens
    refine .inr ⟨?_, calling, _, _, ?_, ?_, saved⟩
    · rw [records.2, closed]
    · rw [Workspace.memory_of_openRecord opens flows]
      rfl
    · rw [Workspace.memory_of_openRecord opens' flows']
      rfl
  · rw [if_neg opens] at records records'
    rcases matched.recorded with ⟨closed, saved⟩ | ⟨opened, calling, frames, frames', top, top', saved⟩
    · refine .inl ⟨by rw [records.2, closed], ?_⟩
      simp only [records.1, records'.1]
      exact saved
    · rcases calling.opcode found with calls | ⟨passes, _, leads', calling'⟩
      · have fits : Flow.next.Fits node.instruction.opcode := Workspace.effect_fits flows
        exact absurd calls fits.2.1
      · cases leads.symm.trans leads'
        have passes' : node'.instruction.opcode = .param := opcode.trans passes
        refine .inr ⟨by rw [records.2, opened], calling', frames, frames', ?_, ?_, saved⟩
        · rw [Workspace.memory_of_param passes flows]
          exact top
        · rw [Workspace.memory_of_param passes' flows']
          exact top'

theorem progress_exit {site site' : Site} (here : graph.chart point.position = some site)
    (here' : graph'.chart point'.position = some site') (exits : site.instruction.opcode = .exit)
    (exits' : site'.instruction.opcode = .exit) :
    Proceeds graph graph' room known gone move rank point point' := by
  have effect : point.workspace.effect point.returns.length site.instruction =
      point.workspace.exit point.returns.length := by
    simp only [Workspace.effect, exits]
  have effect' : point'.workspace.effect point'.returns.length site'.instruction =
      point'.workspace.exit point'.returns.length := by
    simp only [Workspace.effect, exits']
  have sameTest : (decide (0 < point'.workspace.memory.depth) || decide (0 < point'.returns.length)) =
      (decide (0 < point.workspace.memory.depth) || decide (0 < point.returns.length)) := by
    rw [matched.depth, matched.returns]
  unfold Workspace.exit at effect effect'
  rw [sameTest] at effect'
  by_cases inside : (decide (0 < point.workspace.memory.depth) ||
      decide (0 < point.returns.length)) = true
  · rw [if_pos inside] at effect effect'
    exact .finish _ _ (Chart.step_of_fault here effect) (Chart.step_of_fault here' effect')
      (matched.alike.seen _ matched.frames)
  · rw [if_neg inside] at effect effect'
    exact .finish _ _ (Chart.step_of_flow here effect) (Chart.step_of_flow here' effect')
      (matched.alike.seen _ matched.frames)

theorem progress_ret (found : graph.nodes[point.position]? = some node)
    (found' : graph'.nodes[move point.position]? = some node')
    (opcode : node'.instruction.opcode = node.instruction.opcode)
    (returns : node.instruction.opcode = .ret) :
    Proceeds graph graph' room known gone move rank point point' := by
  have here := chart_of_node found
  have here' := chart_of_matched matched found'
  have returns' : node'.instruction.opcode = .ret := opcode.trans returns
  obtain ⟨closed, saved⟩ := matched.saved found (by rw [returns]; decide) (by rw [returns]; decide)
  obtain ⟨workspace, position, callers⟩ := point
  obtain ⟨workspace', position', callers'⟩ := point'
  simp only at saved here here' closed
  generalize frames : workspace.memory.frames = list at saved
  generalize frames' : workspace'.memory.frames = list' at saved
  cases saved with
  | nil =>
    have effect : workspace.effect 0 node.instruction =
        .fault (.returnWithoutCaller node.instruction.left) workspace := by
      simp only [Workspace.effect, returns, Workspace.ret, if_true]
    have effect' : workspace'.effect 0 node'.instruction =
        .fault (.returnWithoutCaller node'.instruction.left) workspace' := by
      simp only [Workspace.effect, returns', Workspace.ret, if_true]
    exact .finish _ _ (Chart.step_of_fault here effect) (Chart.step_of_fault here' effect')
      (matched.alike.seen _ matched.frames)
  | @cons entry place frame frame' others others' rest rest' isEntry inBody locals settled saved =>
    have active : ∀ (place : Nat) (rest : List Nat), ¬ (place :: rest).length = 0 :=
      fun _ _ none => Nat.noConfusion none
    have effect : workspace.effect (place :: rest).length node.instruction =
        .flow .leave { workspace with memory := { workspace.memory with
          locals := frame.locals, temps := frame.temps, frames := others } } := by
      simp only [Workspace.effect, returns, Workspace.ret, if_neg (active place rest),
        Memory.restore, frames]
    have effect' : workspace'.effect (move place :: rest').length node'.instruction =
        .flow .leave { workspace' with memory := { workspace'.memory with
          locals := frame'.locals, temps := frame'.temps, frames := others' } } := by
      simp only [Workspace.effect, returns', Workspace.ret, if_neg (active (move place) rest'),
        Memory.restore, frames']
    have stepped : graph.chart.walk.step ⟨workspace, position, place :: rest⟩ =
        node.site.goOn (place :: rest) _ .leave := Chart.step_of_flow here effect
    have stepped' : graph'.chart.walk.step ⟨workspace', position', move place :: rest'⟩ =
        node'.site.goOn (move place :: rest') _ .leave := Chart.step_of_flow here' effect'
    simp only [Site.goOn] at stepped stepped'
    refine .both _ _ stepped stepped'
      ⟨rfl, ?_, ⟨entry, isEntry, inBody, settled⟩, .inl ⟨closed, saved⟩⟩
    exact { matched.alike with
      memory := { matched.alike.memory with
        locals, room := settled.holds.room.trans settled.room.symm
        cells := fun _ _ never => never.elim } }

end

section

variable (transfer : graph.Transfer room known gone graph' move rank)
  (matched : graph.Matched room known gone move point point') (isEntry : graph.Entry entry)
  (inBody : graph.Body entry point.position)
  (settled : graph.Settled room known gone entry point.position point.workspace.memory.temps
    point'.workspace.memory.temps)
  (found : graph.nodes[point.position]? = some node) (live : node.live = true)
include transfer matched isEntry inBody settled found live

omit matched in
/-- What the body has written is as expected at the next instruction, too. -/
theorem settled_next (leads : node.next = some next)
    (flows : point.workspace.effect callers node.instruction = .flow .next result)
    (sized : temps'.room = room) (shared : ∀ cell : Address, cell.IsTemp → ¬ gone entry cell →
      ¬ graph.Unwritten cell entry point.position ∨ node.instruction.Writes cell →
      result.memory.temps.cell? cell = temps'.cell? cell) :
    graph.Settled room known gone entry next result.memory.temps temps' := by
  have inner : next ∈ graph.bodySuccessors point.position :=
    (mem_bodySuccessors found).2 (.inl leads)
  obtain ⟨kept, unchanged⟩ :=
    Workspace.effect_keeps_temps (transfer.aside point.position node found live) flows
  refine ⟨⟨kept.trans settled.holds.room, fun cell value isTemp knows written => ?_⟩, sized,
    fun cell isTemp stays written => shared cell isTemp stays ?_⟩
  · by_cases writes : node.instruction.Writes cell
    · exact transfer.learns entry point.position node cell value isEntry inBody found live knows
        writes point.workspace result callers settled.holds flows
    · rw [unchanged cell isTemp writes]
      exact settled.holds.values cell value isTemp knows
        (not_unwritten_of_next found inner written writes)
  · by_cases writes : node.instruction.Writes cell
    · exact .inr writes
    · exact .inl (not_unwritten_of_next found inner written writes)

theorem progress_dropped
    (dropped : graph.Dropped room known gone move rank entry point.position node) :
    Proceeds graph graph' room known gone move rank point point' := by
  obtain ⟨cell, value, next, leads, writes, isGone, sameMove, lower, executes⟩ := dropped.stores
  obtain ⟨memory, stored, flows⟩ :=
    executes point.workspace point.returns.length settled.holds
  have storing := writes.2.1
  obtain ⟨closed, saved⟩ := matched.saved found
    (fun calls => by rw [Instruction.stores, calls] at storing; cases storing)
    (fun passes => by rw [Instruction.stores, passes] at storing; cases storing)
  have stepped : graph.chart.walk.step point =
      .inl ⟨{ point.workspace with memory }, next, point.returns⟩ := by
    rw [Chart.step_of_flow (chart_of_node found) flows]
    simp only [Site.goOn, Node.site, leads, Option.getD_some]
  have held := (Memory.store_temp writes.1 stored).2
  obtain ⟨global, locals, stack⟩ := Memory.variables_store_temp writes.1 stored
  have inner : next ∈ graph.bodySuccessors point.position :=
    (mem_bodySuccessors found).2 (.inl leads)
  have settled' := settled_next transfer isEntry inBody settled found live leads flows settled.room
    fun other isTemp stays shared => by
      have different : other ≠ cell := fun same => stays (same ▸ isGone)
      rw [held other isTemp, if_neg different]
      exact settled.same other isTemp stays
        (shared.resolve_right fun writes' => different (writes'.unique writes))
  refine .left _ stepped ⟨matched.position.trans sameMove, ?_, ?_, ?_⟩ lower
  · exact { matched.alike with
      memory :=
        { global := global.trans matched.alike.memory.global
          locals := locals.trans matched.alike.memory.locals
          stack := stack.trans matched.alike.memory.stack
          room := settled'.holds.room.trans settled.room.symm
          cells := fun _ _ never => never.elim } }
  · exact ⟨entry, isEntry, inBody.tail inner, settled'⟩
  · refine .inl ⟨closed, ?_⟩
    simp only [Memory.frames_store stored]
    exact saved

section

variable (found' : graph'.nodes[move point.position]? = some node')
  (nextMoves : node'.next = node.next.map move) (targetMoves : node'.target = node.target.map move)
  (opcode : node'.instruction.opcode = node.instruction.opcode)
include found' nextMoves targetMoves opcode

theorem progress_data (aside : node'.instruction.BaseAside)
    (writes : ∀ cell, node'.instruction.Writes cell ↔ node.instruction.Writes cell)
    (reads : ∀ cell, node'.instruction.Reads cell →
      ¬ gone entry cell ∧ ¬ graph.Unwritten cell entry point.position)
    (same : point.workspace.effect point.returns.length node.instruction =
      point.workspace.effect point.returns.length node'.instruction)
    (notCall : node.instruction.opcode ≠ .call) (notRet : node.instruction.opcode ≠ .ret)
    (notExit : node.instruction.opcode ≠ .exit) :
    Proceeds graph graph' room known gone move rank point point' := by
  have shaped := transfer.coherent.shaped point.position node found
  have here := chart_of_node found
  have here' := chart_of_matched matched found'
  have effects := Workspace.effect_alike (matched.shared settled) point.returns.length aside reads
    (by rw [opcode]; exact notCall) (by rw [opcode]; exact notRet) (by rw [opcode]; exact notExit)
  rw [← same] at effects
  generalize first : point.workspace.effect point.returns.length node.instruction = effect at effects
  generalize second : point'.workspace.effect point.returns.length node'.instruction = effect'
    at effects
  rw [matched.returns] at second
  cases effects with
  | unknown =>
    exact .finish _ _ (Chart.step_of_unknown here first) (Chart.step_of_unknown here' second)
      (matched.alike.seen _ matched.frames)
  | fault cause alike =>
    refine .finish _ _ (Chart.step_of_fault here first) (Chart.step_of_fault here' second)
      (alike.seen _ ?_)
    rw [Workspace.frames_of_fault first, Workspace.frames_of_fault second]
    exact matched.frames
  | @flow way result result' alike =>
    have fits := Workspace.effect_fits first
    have stepped := Chart.step_of_flow here first
    have stepped' := Chart.step_of_flow here' second
    cases way with
    | next =>
      obtain ⟨next, leads⟩ := Option.isSome_iff_exists.1
        (shaped.next.trans (Flow.fallsThrough_of_next fits))
      simp only [Site.goOn, Node.site, nextMoves, leads, Option.map_some, Option.getD_some]
        at stepped stepped'
      have inner : next ∈ graph.bodySuccessors point.position :=
        (mem_bodySuccessors found).2 (.inl leads)
      refine .both _ _ stepped stepped' ⟨rfl, ?_, ⟨entry, isEntry, inBody.tail inner, ?_⟩, ?_⟩
      · exact { alike with memory := alike.memory.mono fun _ never => never.elim }
      · refine settled_next transfer isEntry inBody settled found live leads first ?_ ?_
        · rw [← alike.memory.room, ← settled.holds.room]
          exact (Workspace.effect_keeps_temps (transfer.aside _ node found live) first).1
        · exact fun cell isTemp stays among => alike.memory.cells cell isTemp
            (among.imp (⟨stays, ·⟩) (writes cell).2)
      · exact matched.recorded_next transfer.opens found live leads opcode first second
    | target =>
      obtain ⟨target, leads⟩ := Option.isSome_iff_exists.1
        (shaped.target.trans (Flow.hasTarget_of_target fits))
      simp only [Site.goOn, Node.site, targetMoves, leads, Option.map_some, Option.getD_some]
        at stepped stepped'
      have jumps : node.instruction.opcode.isJump = true := fits
      have inner : target ∈ graph.bodySuccessors point.position :=
        (mem_bodySuccessors found).2 (.inr ⟨jumps, leads⟩)
      have silent : node.instruction.stores = false := by
        unfold Instruction.stores
        cases named : node.instruction.opcode <;> rw [named] at jumps <;> first | rfl | cases jumps
      have notParam : node.instruction.opcode ≠ .param := by
        intro passes
        rw [passes] at jumps
        cases jumps
      rw [Workspace.effect_target first] at stepped
      rw [Workspace.effect_target second] at stepped'
      exact .both _ _ stepped stepped' ⟨rfl, matched.alike,
        ⟨entry, isEntry, inBody.tail inner, settled.still found inner silent⟩,
        .inl (matched.saved found notCall notParam)⟩
    | enter => exact absurd fits notCall
    | leave => exact absurd fits notRet
    | halt => exact absurd fits notExit

/-- A call in both walks. The callee starts with whatever the caller left. -/
theorem progress_call (calls : node.instruction.opcode = .call) :
    Proceeds graph graph' room known gone move rank point point' := by
  have shaped := transfer.coherent.shaped point.position node found
  have here := chart_of_node found
  have here' := chart_of_matched matched found'
  have calls' : node'.instruction.opcode = .call := opcode.trans calls
  have opened := matched.alike.openRecords
  rcases matched.recorded with ⟨closed, _⟩ | ⟨one, _, frames, frames', top, top', saved⟩
  · have effect : point.workspace.effect point.returns.length node.instruction =
        .fault (.callWithoutRecord node.instruction.left) point.workspace := by
      simp only [Workspace.effect, calls, Workspace.call, if_pos closed]
    have effect' : point'.workspace.effect point'.returns.length node'.instruction =
        .fault (.callWithoutRecord node'.instruction.left) point'.workspace := by
      simp only [Workspace.effect, calls', Workspace.call, if_pos (opened ▸ closed)]
    exact .finish _ _ (Chart.step_of_fault here effect) (Chart.step_of_fault here' effect')
      (matched.alike.seen _ matched.frames)
  · have notClosed : ¬ point.workspace.openRecords = 0 := by omega
    have notClosed' : ¬ point'.workspace.openRecords = 0 := by omega
    obtain ⟨outcomes, agree, sized⟩ :=
      Machine.bindAll_alike point.workspace.passed matched.alike.memory
    have kept := Machine.frames_bindAll point.workspace.passed point.workspace.memory
    have kept' := Machine.frames_bindAll point.workspace.passed point'.workspace.memory
    have passed := matched.alike.passed
    cases bound : Machine.bindAll point.workspace.memory point.workspace.passed with
    | mk outcome memory =>
    cases bound' : Machine.bindAll point'.workspace.memory point.workspace.passed with
    | mk outcome' memory' =>
    rw [bound] at outcomes agree sized kept
    rw [bound'] at outcomes agree kept'
    simp only at outcomes agree sized kept kept'
    subst outcomes
    cases outcome with
    | error cause =>
      have effect : point.workspace.effect point.returns.length node.instruction =
          .fault cause { point.workspace with memory } := by
        simp only [Workspace.effect, calls, Workspace.call, if_neg notClosed, bound]
      have effect' : point'.workspace.effect point'.returns.length node'.instruction =
          .fault cause { point'.workspace with memory := memory' } := by
        simp only [Workspace.effect, calls', Workspace.call, if_neg notClosed', ← passed, bound']
      have alike : Workspace.Alike (fun _ => False) { point.workspace with memory }
          { point'.workspace with memory := memory' } := { matched.alike with memory := agree }
      refine .finish _ _ (Chart.step_of_fault here effect) (Chart.step_of_fault here' effect')
        (alike.seen _ ?_)
      simp only [kept, kept']
      exact matched.frames
    | ok _ =>
      have effect : point.workspace.effect point.returns.length node.instruction =
          .flow .enter { point.workspace with
            memory, passed := [], openRecords := point.workspace.openRecords - 1 } := by
        simp only [Workspace.effect, calls, Workspace.call, if_neg notClosed, bound]
      have effect' : point'.workspace.effect point'.returns.length node'.instruction =
          .flow .enter { point'.workspace with
            memory := memory', passed := [],
            openRecords := point'.workspace.openRecords - 1 } := by
        simp only [Workspace.effect, calls', Workspace.call, if_neg notClosed', ← passed, bound']
      obtain ⟨next, leads⟩ := Option.isSome_iff_exists.1
        (shaped.next.trans (by rw [calls]; rfl))
      obtain ⟨target, named⟩ := Option.isSome_iff_exists.1
        (shaped.target.trans (by rw [calls]; rfl))
      have stepped := Chart.step_of_flow here effect
      have stepped' := Chart.step_of_flow here' effect'
      simp only [Site.goOn, Node.site, nextMoves, targetMoves, leads, named, Option.map_some,
        Option.getD_some] at stepped stepped'
      have inner : next ∈ graph.bodySuccessors point.position :=
        (mem_bodySuccessors found).2 (.inl leads)
      have silent : node.instruction.stores = false := by
        rw [Instruction.stores, calls]
        rfl
      have sized' : memory.temps.room = room := sized.trans settled.holds.room
      refine .both _ _ stepped stepped' ⟨rfl, ?_, ⟨target, ?_, .refl, ?_⟩, .inl ⟨?_, ?_⟩⟩
      · exact { matched.alike with
          memory := agree, passed := rfl, openRecords := congrArg (· - 1) opened }
      · exact .inr ⟨point.position, node, found, live, calls, named⟩
      · exact .start sized' (agree.room.symm.trans sized')
      · simp only
        omega
      · simp only [kept, kept', top, top']
        exact .cons isEntry (inBody.tail inner) matched.alike.memory.locals
          (settled.still found inner silent) saved

end

end

section

variable (transfer : graph.Transfer room known gone graph' move rank)
include transfer

/-- Two walks proceed alike from places that correspond. -/
theorem Transfer.progress (matched : graph.Matched room known gone move point point') :
    Proceeds graph graph' room known gone move rank point point' := by
  obtain ⟨entry, isEntry, inBody, settled⟩ := matched.settled
  rcases transfer.coherent.stands_body isEntry inBody with isEnd | ⟨node, found, live⟩
  · have here : graph.chart point.position = some Chart.closing := by
      rw [isEnd]
      exact graph.chart_finish
    have here' : graph'.chart point'.position = some Chart.closing := by
      rw [matched.position, isEnd, transfer.finish]
      exact graph'.chart_finish
    exact progress_exit matched here here' rfl rfl
  rcases transfer.nodes entry point.position node isEntry inBody found live with kept | dropped
  · obtain ⟨node', found', next, target, opcode, aside, writes, reads, same⟩ := kept.counterpart
    by_cases calls : node.instruction.opcode = .call
    · exact progress_call transfer matched isEntry inBody settled found live found' next target
        opcode calls
    by_cases returns : node.instruction.opcode = .ret
    · exact progress_ret matched found found' opcode returns
    by_cases exits : node.instruction.opcode = .exit
    · exact progress_exit matched (chart_of_node found) (chart_of_matched matched found') exits
        (opcode.trans exits)
    · exact progress_data transfer matched isEntry inBody settled found live found' next target
        opcode aside writes reads (same point.workspace _ settled.holds) calls returns exits
  · exact progress_dropped transfer matched isEntry inBody settled found live dropped

/-- A graph to which another one transfers does the same, apart from intermediate results. -/
theorem Transfer.agree (root : graph'.root = move graph.root) {workspace : Workspace}
    (sized : workspace.memory.temps.room = room) (closed : workspace.openRecords = 0)
    (noFrames : workspace.memory.frames = []) :
    System.Agree (Machine.seen Memory.lasting) graph.chart.walk graph'.chart.walk
      ⟨workspace, graph.root, []⟩ ⟨workspace, graph'.root, []⟩ := by
  have simulation : System.Simulation (Machine.seen Memory.lasting) graph.chart.walk
      graph'.chart.walk (graph.Matched room known gone move) (fun point _ => rank point.position) :=
    ⟨fun point point' matched => congrArg Console.output matched.alike.console,
      fun point point' matched => transfer.progress matched⟩
  refine simulation.agree ⟨root, ?_, ⟨graph.root, .inl rfl, .refl, .start sized sized⟩, ?_⟩
  · exact ⟨⟨rfl, rfl, rfl, rfl, fun _ _ _ => rfl⟩, rfl, rfl, rfl, rfl⟩
  · refine .inl ⟨closed, ?_⟩
    simp only [noFrames]
    exact .nil

end

end FlowGraph

end Quadruple
