import Quadruple.Proofs.Invocations
import Mathlib.Data.List.Forall2

/-!
One event after another. What an event does to the code is to append instructions and then, if it is
about jumps, to steer; what it does to the scopes keeps them sound. So an invariant of compilation is
one that appending and steering keep.
-/

namespace Quadruple

open CodeBuffer (Append)
open Scope (Function)

namespace Generator

variable {rules : Rules} {command : Event.Command} {before between after : Generator} {done : Unit}
  {tree : Scope.Tree} {name : String} {returns : DataType}
  {first second : List Event.Command} {capacities : Capacities}

/-- What is asked of a command: a host's function is one that the rules know, and where places inside
objects are no cells, no field hides the object of a method, and every class has a name. -/
def Admitted (rules : Rules) (before : Generator) : Event.Command → Prop
  | .declareVariable name _ _ | .declareObject name _ =>
    before.tree.memberClass? = none ∨ rules.Loose ∨ name ≠ Scope.receiverName
  | .declareClass name => rules.Loose ∨ name ≠ ""
  | .declareNative name returns => rules.hosts name returns
  | _ => True

/-- What a command does to a compilation. -/
structure Advances (rules : Rules) (command : Event.Command) (before after : Generator) : Prop where
  sound : after.Sound rules
  code : ∃ middle, Relation.ReflTransGen
      (Append rules (before.callee? command) (before.made? command)) before.buffer middle ∧
    command.Steers rules middle after.buffer
  starts : ∀ start, after.tree.Starts start →
    start = (before.buffer.code.size : Int) ∨ before.tree.Starts start
  started : command = .start ∧ before.started = false ∧ after.started = true ∨
    command ≠ .start ∧ after.started = before.started

theorem ne_start (other : command.steers = false) : command ≠ .start := by
  rintro rfl
  cases other

theorem Works.advances
    (works : Works rules (before.callee? command) (before.made? command) before after)
    (other : command.steers = false) : Advances rules command before after where
  sound := works.sound
  code := ⟨after.buffer, works.appends, .other other⟩
  starts := by
    intro start starts
    rw [Scope.Tree.Starts, works.functions] at starts
    exact .inr starts
  started := .inr ⟨ne_start other, works.started⟩

theorem advances_declaration (sound : before.Sound rules) (kept : tree.Sound rules)
    (other : command.steers = false)
    (starts : ∀ start, tree.Starts start → start = (before.buffer.code.size : Int) ∨ before.tree.Starts start) :
    Advances rules command before { before with tree } :=
  ⟨⟨kept, sound.operands, sound.names⟩, ⟨before.buffer, .refl, .other other⟩, starts,
    .inr ⟨ne_start other, rfl⟩⟩

theorem advances_sameDeclarations (sound : before.Sound rules) (other : command.steers = false)
    (sizes : tree.memory.sizes = before.tree.memory.sizes) (nodes : tree.nodes = before.tree.nodes)
    (functions : tree.functions = before.tree.functions) (classes : tree.classes = before.tree.classes) :
    Advances rules command before { before with tree } := by
  refine advances_declaration sound (sound.tree.of_same sizes nodes functions classes) other ?_
  intro start starts
  rw [Scope.Tree.Starts, functions] at starts
  exact .inr starts

/-! ### Declarations -/

section

variable (sound : before.Sound rules)
include sound

theorem advances_declares {var : Scope.Variable} (other : command.steers = false)
    (admitted : before.tree.memberClass? = none ∨ rules.Loose ∨ name ≠ Scope.receiverName)
    (declares : before.tree.Declares name var tree) : Advances rules command before { before with tree } :=
  advances_declaration sound (sound.tree.declare admitted declares) other
    fun _ starts => .inr (declares.starts starts)

end

theorem starts_push {former : Scope.Tree} {function : Function} {start : Int}
    (functions : tree.functions = former.functions.push function) (starts : tree.Starts start) :
    start = function.start ∨ former.Starts start := by
  obtain ⟨id, other, found, ours, rfl⟩ := starts
  rw [functions, Array.getElem?_push] at found
  split at found
  · cases found
    exact .inl rfl
  · exact .inr ⟨id, other, found, ours, rfl⟩

section

variable (sound : before.Sound rules)
include sound

theorem advances_declareFunction (gives : Gives (declareFunction name returns) before done after) :
    Advances rules (.declareFunction name returns) before after := by
  unfold declareFunction at gives
  simp only [gives_bind, gives_get, gives_pure] at gives
  obtain ⟨_, _, ⟨rfl, rfl⟩, id, _, opened, _, rfl⟩ := gives
  obtain ⟨tree, declared, rfl⟩ := gives_openFunction opened
  obtain ⟨kept, _, function, functions, _, _, start, _⟩ := sound.tree.declareFunction declared
  refine advances_declaration sound kept rfl fun place starts => ?_
  rcases starts_push functions starts with here | former
  · exact .inl (here.trans start)
  · exact .inr former

theorem advances_declareNative (admitted : rules.hosts name returns)
    (gives : Gives (declareNative name returns) before done after) :
    Advances rules (.declareNative name returns) before after := by
  obtain ⟨outside, id, tree, declared, rfl⟩ := gives_declareNative gives
  obtain ⟨kept, rfl, function, functions, rfl, rfl, _, _, owner⟩ :=
    sound.tree.declareFunction declared
  have here : tree.functions[before.tree.functions.size]? = some function := by
    rw [functions, Array.getElem?_push_size]
  refine advances_declaration sound (kept.setFunction fun other found => ?_) rfl fun start starts => ?_
  · cases here.symm.trans found
    have fits := kept.functions _ function here
    exact ⟨⟨fits.arguments, fits.result, fun _ => ⟨owner outside, admitted⟩, fits.method⟩, rfl⟩
  · obtain ⟨other, given, found, ours, rfl⟩ := starts
    simp only [Scope.Tree.setFunction, Array.getElem?_modify] at found
    split at found
    · obtain ⟨former, _, rfl⟩ := Option.map_eq_some_iff.1 found
      cases ours
    · rename_i different
      rw [functions, Array.getElem?_push, if_neg (Ne.symm different)] at found
      exact .inr ⟨other, given, found, ours, rfl⟩

theorem advances_closeFunction (gives : Gives closeFunction before done after) :
    Advances rules .closeFunction before after := by
  obtain ⟨function, buffer, id, tree, _, appends, closed, rfl⟩ := gives_closeFunction gives
  obtain ⟨opened, _, rfl⟩ := Scope.Tree.closeFunction_eq_ok closed
  have kept : Advances rules .closeFunction before { before with
      tree := { before.tree with
        current := (before.tree.parent opened.scope).getD before.tree.current
        openFunction := none
        memory := before.tree.memory.resetLocals } } := by
    refine advances_sameDeclarations sound rfl ?_ rfl rfl rfl
    exact Memory.sizes_resetLocals before.tree.memory
  refine ⟨⟨kept.sound.tree, sound.operands, sound.names⟩, ⟨buffer, ?_, .other rfl⟩, kept.starts,
    kept.started⟩
  rcases appends with rfl | ⟨_, rfl⟩
  · exact .refl
  · exact .single (.plain (.ret function.name))

theorem advances_declareClass (admitted : rules.Loose ∨ name ≠ "")
    (gives : Gives (declareClass name) before done after) :
    Advances rules (.declareClass name) before after := by
  obtain ⟨tree, declared, rfl⟩ := gives_declareClass gives
  refine advances_declaration sound (sound.tree.declareClass admitted declared) rfl ?_
  intro start starts
  obtain ⟨_, _, _, rfl⟩ := Scope.Tree.declareClass_eq_ok declared
  exact .inr starts

theorem advances_closeClass (gives : Gives closeClass before done after) :
    Advances rules .closeClass before after := by
  obtain ⟨tree, closed, rfl⟩ := gives_closeClass gives
  obtain ⟨_, _, _, rfl⟩ := Scope.Tree.closeClass_eq_ok closed
  exact advances_sameDeclarations sound rfl rfl rfl rfl rfl

theorem advances_pushScope (gives : Gives pushScope before done after) :
    Advances rules .pushScope before after := by
  cases gives_setTree.1 gives
  exact advances_declaration sound sound.tree.push rfl fun start starts => .inr starts

theorem advances_popScope (gives : Gives popScope before done after) :
    Advances rules .popScope before after := by
  cases gives_setTree.1 gives
  obtain ⟨current, same⟩ := before.tree.pop_eq
  rw [same]
  exact advances_sameDeclarations sound rfl rfl rfl rfl rfl

end

/-! ### Jumps, start and end -/

section

variable (sound : before.Sound rules)
include sound

theorem advances_steering {buffer : CodeBuffer} (steers : command.Steers rules before.buffer buffer)
    (other : command ≠ .start) : Advances rules command before { before with buffer } :=
  ⟨⟨sound.tree, sound.operands, sound.names⟩, ⟨before.buffer, .refl, steers⟩,
    fun _ starts => .inr starts, .inr ⟨other, rfl⟩⟩

theorem advances_patchPending (gives : Gives patchPending before done after) :
    Advances rules .patchPending before after := by
  obtain ⟨buffer, patched, rfl⟩ := gives_onBuffer.1 gives
  exact advances_steering sound (.patchAll patched) nofun

theorem advances_patchJump {depth : Int} (gives : Gives (patchJump depth) before done after) :
    Advances rules (.patchJump depth) before after := by
  obtain ⟨buffer, patched, rfl⟩ := gives_onBuffer.1 gives
  exact advances_steering sound (.patchOne patched) nofun

theorem advances_conditionalJump (gives : Gives conditionalJump before done after) :
    Advances rules .conditionalJump before after := by
  obtain ⟨condition, between, popped, rfl⟩ := gives_conditionalJump gives
  obtain ⟨usable, works⟩ := (steady_working rules (before.callee? .conditionalJump)
    (before.made? .conditionalJump) before).keeps_popValue.of_gives (.refl sound) popped
  refine ⟨⟨works.sound.tree, works.sound.operands, works.sound.names⟩,
    ⟨between.buffer, works.appends, .branch (usable trivial)⟩, fun start starts => ?_,
    .inr ⟨nofun, works.started⟩⟩
  rw [Scope.Tree.Starts, works.functions] at starts
  exact .inr starts

theorem advances_start (gives : Gives start before done after) :
    Advances rules .start before after := by
  obtain ⟨unstarted, code, patched, rfl⟩ := gives_start gives
  exact ⟨⟨sound.tree, sound.operands, sound.names⟩, ⟨before.buffer, .refl, .start patched⟩,
    fun _ starts => .inr starts, .inl ⟨rfl, unstarted, rfl⟩⟩

theorem advances (admitted : before.Admitted rules command)
    (gives : Gives command.perform before done after) : Advances rules command before after := by
  have steady := steady_working rules (before.callee? command) (before.made? command) before
  have works (keeps : Survives (working rules (before.callee? command) (before.made? command) before)
      command.perform) (other : command.steers = false) : Advances rules command before after :=
    Works.advances (keeps.of_gives (.refl sound) gives).2 other
  cases command with
  | constant => exact works (steady.keeps_constant _) rfl
  | identifier => exact works (steady.keeps_identifier _) rfl
  | member => exact works (steady.keeps_memberContext _) rfl
  | clearContext => exact works steady.keeps_forgetContext rfl
  | «variable» => exact works (steady.keeps_variableOperand _) rfl
  | call => exact (works_call sound gives).advances rfl
  | operator => exact works (steady.keeps_operator _) rfl
  | assign => exact works (steady.keeps_assign _) rfl
  | expression => exact works steady.keeps_expressionStatement rfl
  | declareVariable =>
    obtain ⟨_, _, declared, rfl⟩ := gives_declareVariable gives
    exact advances_declares sound rfl admitted (.inl (Scope.Tree.places_variable declared))
  | declareObject =>
    obtain ⟨_, _, declared, rfl⟩ := gives_onTree_pure gives
    exact advances_declares sound rfl admitted (.inl (Scope.Tree.places_object declared))
  | declareArgument =>
    obtain ⟨_, _, declared, rfl⟩ := gives_declareArgument gives
    obtain ⟨outside, declares⟩ := Scope.Tree.declares_argument declared
    exact advances_declares sound rfl (.inl outside) declares
  | declareObjectArgument =>
    obtain ⟨_, _, declared, rfl⟩ := gives_onTree_pure gives
    obtain ⟨outside, declares⟩ := Scope.Tree.declares_objectArgument declared
    exact advances_declares sound rfl (.inl outside) declares
  | declareFunction => exact advances_declareFunction sound gives
  | declareNative => exact advances_declareNative sound admitted gives
  | closeFunction => exact advances_closeFunction sound gives
  | declareClass => exact advances_declareClass sound admitted gives
  | closeClass => exact advances_closeClass sound gives
  | newObject => exact (works_newObject sound gives).advances rfl
  | returnValue => exact works (steady.keeps_returnValue fun _ _ => trivial) rfl
  | pushScope => exact advances_pushScope sound gives
  | popScope => exact advances_popScope sound gives
  | pushDelimiter =>
    cases gives_modify.1 gives
    exact advances_steering sound .delimiter nofun
  | patchPending => exact advances_patchPending sound gives
  | conditionalJump => exact advances_conditionalJump sound gives
  | jump =>
    cases gives_jump gives
    exact advances_steering sound .jump nofun
  | patchJump => exact advances_patchJump sound gives
  | loopStart =>
    cases gives_loopStart gives
    exact advances_steering sound .head nofun
  | loopJump =>
    obtain ⟨head, buffer, taken, rfl⟩ := gives_loopJump gives
    exact advances_steering sound (.loop taken) nofun
  | start => exact advances_start sound gives
  | exit =>
    obtain ⟨_, closed, rfl⟩ := gives_exit gives
    exact advances_steering sound (.exit closed) nofun

end

/-! ### Whole compilations -/

/-- Commands that are all performed, one after the other. -/
inductive Performs : List Event.Command → Generator → Generator → Prop where
  | nil (generator : Generator) : Performs [] generator generator
  | cons {command : Event.Command} {commands : List Event.Command}
      {before between after : Generator} (performs : Gives command.perform before () between)
      (rest : Performs commands between after) : Performs (command :: commands) before after

theorem performs_append :
    Performs (first ++ second) before after ↔
      ∃ between, Performs first before between ∧ Performs second between after := by
  constructor
  · intro performs
    induction first generalizing before with
    | nil => exact ⟨before, .nil before, performs⟩
    | cons command rest ih =>
      cases performs with
      | cons performed onward =>
        obtain ⟨between, front, back⟩ := ih onward
        exact ⟨between, .cons performed front, back⟩
  · rintro ⟨between, performs, rest⟩
    induction performs with
    | nil => exact rest
    | cons performed _ ih => exact .cons performed (ih rest)

theorem Performs.append (performs : Performs first before between) (rest : Performs second between after) :
    Performs (first ++ second) before after :=
  performs_append.2 ⟨between, performs, rest⟩

theorem sound_ofCapacities (rules : Rules) :
    (Generator.ofCapacities rules.capacities).Sound rules :=
  ⟨Scope.Tree.sound_ofMemory rules, fun _ listed => (nomatch listed),
    nofun⟩

def Admits (rules : Rules) (commands : List Event.Command) : Prop :=
  ∀ earlier command later before, commands = earlier ++ command :: later →
    Performs earlier (.ofCapacities rules.capacities) before → before.Admitted rules command

theorem admits_of_loose (loose : rules.Loose) (hosts : ∀ name returns, rules.hosts name returns)
    (commands : List Event.Command) : Admits rules commands := by
  intro _ command _ _ _ _
  cases command with
  | declareVariable | declareObject => exact .inr (.inl loose)
  | declareClass => exact .inl loose
  | declareNative name returns => exact hosts name returns
  | _ => exact trivial

theorem admits_lax (capacities : Capacities) (commands : List Event.Command) :
    Admits (.lax capacities) commands :=
  admits_of_loose (fun _ _ _ => trivial) (fun _ _ => trivial) commands

theorem Performs.invariant {commands : List Event.Command}
    {motive : List Event.Command → Generator → Prop}
    (performs : Performs commands (.ofCapacities rules.capacities) after)
    (admits : Admits rules commands) (start : motive [] (.ofCapacities rules.capacities))
    (keeps : ∀ earlier command before after,
      Performs earlier (.ofCapacities rules.capacities) before → motive earlier before →
      before.Sound rules → Gives command.perform before () after →
      Advances rules command before after → motive (earlier ++ [command]) after) :
    after.Sound rules ∧ motive commands after := by
  have onward : ∀ (later earlier : List Event.Command) (before : Generator),
      commands = earlier ++ later → Performs earlier (.ofCapacities rules.capacities) before →
      before.Sound rules → motive earlier before → Performs later before after →
      after.Sound rules ∧ motive commands after := by
    intro later
    induction later with
    | nil =>
      intro earlier before whole _ sound holds performs
      cases performs
      rw [whole, List.append_nil]
      exact ⟨sound, holds⟩
    | cons command later ih =>
      intro earlier before whole reached sound holds performs
      cases performs with
      | @cons _ _ _ between _ performed rest =>
        have step := advances sound (admits earlier command later before whole reached) performed
        exact ih (earlier ++ [command]) between (by rw [whole, List.append_assoc]; rfl)
          (reached.append (.cons performed (.nil between))) step.sound
          (keeps earlier command before between reached holds sound performed step) rest
  exact onward commands [] _ rfl (.nil _) (sound_ofCapacities rules) start performs

theorem Performs.sound {commands : List Event.Command}
    (performs : Performs commands (.ofCapacities capacities) after) : after.Sound (.lax capacities) :=
  (Performs.invariant (motive := fun _ _ => True) performs (admits_lax capacities commands) trivial
    fun _ _ _ _ _ _ _ _ _ => trivial).1

/-- The command from which the instruction at a position comes, and the compilation before it. -/
def Emitted (capacities : Capacities) (commands : List Event.Command) (position : Nat)
    (command : Event.Command) (before : Generator) : Prop :=
  ∃ earlier later after, commands = earlier ++ command :: later ∧
    Performs earlier (.ofCapacities capacities) before ∧ Gives command.perform before () after ∧
    before.buffer.code.size ≤ position ∧ position < after.buffer.code.size

theorem Emitted.append {commands : List Event.Command} {position : Nat}
    (emitted : Emitted capacities commands position command before) (more : List Event.Command) :
    Emitted capacities (commands ++ more) position command before := by
  obtain ⟨earlier, later, after, rfl, rest⟩ := emitted
  exact ⟨earlier, later ++ more, after, by simp, rest⟩

theorem performs_forIn {α : Type} {elements : List α} {body : α → PUnit → Action (ForInStep PUnit)}
    (command : α → Event.Command)
    (performs : ∀ element before step after, Gives (body element ⟨⟩) before step after →
      step = .yield ⟨⟩ ∧ Gives (command element).perform before () after)
    {finished : PUnit} (gives : Gives (forIn elements ⟨⟩ body) before finished after) :
    Performs (elements.map command) before after := by
  induction elements generalizing before with
  | nil =>
    obtain ⟨_, rfl⟩ := gives_pure.1 gives
    exact .nil before
  | cons element elements ih =>
    rw [List.forIn_cons] at gives
    obtain ⟨step, between, once, rest⟩ := gives_bind.1 gives
    obtain ⟨rfl, performed⟩ := performs element before step between once
    exact .cons performed (ih rest)

def NativeSignature.commands (signature : NativeSignature) : List Event.Command :=
  .declareNative signature.name signature.returns ::
    (signature.parameters.zipIdx.map fun parameter =>
      .declareArgument (parameterName parameter.2) parameter.1 []) ++
    [.closeFunction]

theorem performs_declareSignature {signature : NativeSignature}
    (gives : Gives (declareSignature signature) before done after) :
    Performs signature.commands before after := by
  unfold declareSignature at gives
  simp only [gives_bind] at gives
  obtain ⟨_, between, opened, _, middle, argued, closed⟩ := gives
  refine .cons opened (Performs.append (performs_forIn _ ?_ argued) (.cons closed (.nil after)))
  intro parameter before step after once
  simp only [gives_bind, gives_pure] at once
  obtain ⟨_, _, argued, rfl, rfl⟩ := once
  exact ⟨rfl, argued⟩

theorem performs_declareSignatures {signatures : List NativeSignature}
    (gives : Gives (signatures.forM declareSignature) before done after) :
    Performs (signatures.flatMap NativeSignature.commands) before after := by
  induction signatures generalizing before with
  | nil =>
    obtain ⟨_, rfl⟩ := gives_pure.1 gives
    exact .nil before
  | cons signature signatures ih =>
    obtain ⟨_, between, declared, rest⟩ := gives_bind.1 gives
    exact (performs_declareSignature declared).append (ih rest)

end Generator

namespace Transcript

open Generator (Performs NativeSignature standardNatives)

variable {transcript : Transcript}

/-- What a transcript asks for: the declarations of the host's functions, if it has them, and then
what its events say. -/
def Asks (transcript : Transcript) (commands : List Event.Command) : Prop :=
  ∃ told, List.Forall₂ (fun event command => Event.command event = .ok command) transcript.events
      told ∧
    commands =
      (if transcript.natives then standardNatives.flatMap NativeSignature.commands else []) ++ told

def told (transcript : Transcript) : List Event.Command :=
  transcript.events.filterMap fun event => event.command.toOption

theorem Asks.told {commands : List Event.Command} (asks : transcript.Asks commands) : commands =
      (if transcript.natives then standardNatives.flatMap NativeSignature.commands else []) ++
        transcript.told := by
  obtain ⟨told, asked, rfl⟩ := asks
  unfold Transcript.told
  generalize transcript.events = events at asked
  congr 1
  induction asked with
  | nil => rfl
  | cons here _ ih => rw [List.filterMap_cons, here, ih]; rfl

theorem Asks.admits {commands : List Event.Command} {rules : Rules} (asks : transcript.Asks commands)
    (hosts : ∀ signature ∈ standardNatives, rules.hosts signature.name signature.returns)
    (told : ∀ earlier command later before, commands = earlier ++ command :: later →
      Performs earlier (.ofCapacities rules.capacities) before → command ∈ transcript.told →
      before.Admitted rules command) :
    Generator.Admits rules commands := by
  intro earlier command later before whole reached
  have listed : command ∈ commands := by
    rw [whole]
    exact List.mem_append_right _ List.mem_cons_self
  rw [asks.told] at listed
  rcases List.mem_append.1 listed with listed | listed
  · split at listed
    · obtain ⟨signature, known, listed⟩ := List.mem_flatMap.1 listed
      rcases List.mem_append.1 listed with listed | listed
      · rcases List.mem_cons.1 listed with rfl | listed
        · exact hosts signature known
        · obtain ⟨_, _, rfl⟩ := List.mem_map.1 listed
          exact trivial
      · cases List.mem_singleton.1 listed
        exact trivial
    · cases listed
  · exact told earlier command later before whole reached listed

theorem Delivers.performs {events : List Event} {before after : Generator}
    (delivers : Delivers events before after) : ∃ told,
      List.Forall₂ (fun event command => Event.command event = .ok command) events told ∧
      Performs told before after := by
  induction delivers with
  | nil generator => exact ⟨[], .nil, .nil generator⟩
  | cons reads performs _ ih =>
    obtain ⟨told, asked, rest⟩ := ih
    exact ⟨_ :: told, .cons reads asked, .cons performs rest⟩

theorem compile_performs {capacities : Capacities} {code : Code}
    (compiled : transcript.compile capacities = .ok code) :
    ∃ commands after,
      transcript.Asks commands ∧ Performs commands (.ofCapacities capacities) after ∧
      after.buffer.code = code := by
  obtain ⟨prepared, after, prepares, delivers, same⟩ := compile_eq_ok compiled
  obtain ⟨told, asked, performs⟩ := delivers.performs
  rcases prepares with ⟨natives, declared⟩ | ⟨natives, rfl⟩
  · exact ⟨_, after, ⟨told, asked, rfl⟩, by
      rw [natives]
      exact (Generator.performs_declareSignatures declared).append performs, same⟩
  · exact ⟨_, after, ⟨told, asked, rfl⟩, by
      rw [natives]
      exact performs, same⟩

end Transcript

end Quadruple
