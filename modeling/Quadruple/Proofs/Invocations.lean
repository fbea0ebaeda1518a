import Quadruple.Proofs.Expressions
import Quadruple.Proofs.Operations

/-!
Compilation of calls. A call appends its whole sequence at once: the values of the arguments are
computed before the activation record is opened, or before the first argument of a host's function is
passed, and each formal that is declared by then gets one value.
-/

namespace Quadruple.Generator

open CodeBuffer (Append)
open Scope (Function Variable)

variable {rules : Rules} {callee : Option Function} {made : Option Scope.Class}
  {before between after : Generator} {done : Unit} {function : Function} {object : Option Address}
  {name : String} {command : Event.Command}

/-- Work on the code that declares nothing. -/
structure Works (rules : Rules) (callee : Option Function) (made : Option Scope.Class)
    (before after : Generator) : Prop where
  sound : after.Sound rules
  appends : Relation.ReflTransGen (Append rules callee made) before.buffer after.buffer
  functions : after.tree.functions = before.tree.functions
  started : after.started = before.started

theorem Works.refl (sound : before.Sound rules) : Works rules callee made before before :=
  ⟨sound, .refl, rfl, rfl⟩

section

variable (works : Works rules callee made before after)
include works

theorem Works.append {buffer : CodeBuffer} (append : Append rules callee made after.buffer buffer) :
    Works rules callee made before { after with buffer } :=
  ⟨⟨works.sound.tree, works.sound.operands, works.sound.names⟩, works.appends.tail append,
    works.functions, works.started⟩

theorem Works.inContext (context : Option String) :
    Works rules callee made before { after with tree := { after.tree with context } } :=
  ⟨⟨works.sound.tree.of_same rfl rfl rfl rfl, works.sound.operands, works.sound.names⟩, works.appends,
    works.functions, works.started⟩

theorem Works.allocate {type : DataType} {reference : Bool} {address : Address} {memory : Memory}
    (allocated : after.tree.memory.allocate .temps type 1 reference = .ok (address, memory)) :
    Works rules callee made before { after with tree := { after.tree with memory } } := by
  obtain ⟨_, _, sizes⟩ := Memory.has_of_allocate works.sound.tree.sizes allocated
  exact ⟨⟨works.sound.tree.of_same (sizes.trans works.sound.tree.sizes.symm) rfl rfl rfl, works.sound.operands,
    works.sound.names⟩, works.appends, works.functions, works.started⟩

end

/-! ### The sequences of calls -/

theorem gives_forIn_emit {α : Type} {elements : List α} {body : α → PUnit → Action (ForInStep PUnit)}
    (instr : α → Instruction)
    (emits : ∀ element before step after, Gives (body element ⟨⟩) before step after →
      step = .yield ⟨⟩ ∧ { before with buffer := before.buffer.emit (instr element) } = after)
    {finished : PUnit} (gives : Gives (forIn elements ⟨⟩ body) before finished after) :
    { before with buffer := before.buffer.emitAll (elements.map instr) } = after := by
  induction elements generalizing before with
  | nil =>
    obtain ⟨_, rfl⟩ := gives_pure.1 gives
    rw [List.map_nil, CodeBuffer.emitAll_nil]
  | cons element elements ih =>
    rw [List.forIn_cons] at gives
    obtain ⟨step, between, once, rest⟩ := gives_bind.1 gives
    obtain ⟨rfl, rfl⟩ := emits element before step between once
    rw [List.map_cons, CodeBuffer.emitAll_cons]
    exact ih rest

theorem gives_passArgument {value formal : Address} :
    Gives (passArgument value formal) before done after ↔
      { before with buffer := before.buffer.emit (.passing (value, formal)) } = after := by
  simp only [passArgument, gives_bind, gives_emit, gives_pure]
  constructor
  · rintro ⟨_, _, ⟨_, rfl⟩, _, rfl⟩
    rfl
  · rintro rfl
    exact ⟨_, _, ⟨rfl, rfl⟩, trivial, rfl⟩

theorem gives_passReceiver (gives : Gives (passReceiver function object) before done after) :
    { before with buffer := before.buffer.emitAll ((received function object).map .passing) } = after := by
  cases object with
  | none =>
    obtain ⟨_, rfl⟩ := gives_pure.1 gives
    rw [received, List.map_nil, CodeBuffer.emitAll_nil]
  | some value =>
    simp only [passReceiver] at gives
    split at gives
    · exact (gives_throw.1 gives).elim
    · rename_i this others found
      cases gives_passArgument.1 gives
      rw [received, found, List.take_one, List.head?_cons, Option.toList_some, List.map_singleton,
        List.map_singleton, CodeBuffer.emitAll_singleton]

theorem gives_passing {passed : List (Address × Address)}
    (gives : Gives (passing function object passed) before done after) :
    { before with buffer := before.buffer.emitAll (function.calling (received function object ++ passed)) } =
      after := by
  simp only [passing, gives_bind, gives_emit, gives_pure] at gives
  obtain ⟨_, _, ⟨_, rfl⟩, _, _, receives, _, _, looped, _, _, ⟨_, rfl⟩, _, rfl⟩ := gives
  cases gives_passReceiver receives
  cases gives_forIn_emit .passing (by
    intro argument before step after once
    simp only [gives_bind, gives_passArgument, gives_pure] at once
    obtain ⟨_, _, rfl, rfl, rfl⟩ := once
    exact ⟨rfl, rfl⟩) looped
  rw [Function.calling, List.cons_append, CodeBuffer.emitAll_cons, List.map_append,
    CodeBuffer.emitAll_append, CodeBuffer.emitAll_append, CodeBuffer.emitAll_singleton]

theorem Works.callHost {arguments : List Classed} (works : Works rules callee made before between)
    (calls : callee = some function) (native : function.native = true)
    (hosts : rules.hosts function.name function.returns)
    (complete : arguments.length = function.arguments.length)
    (usable : ∀ argument ∈ arguments, rules.usable argument.address)
    (gives : Gives (callNative function arguments) between done after) :
    Works rules callee made before after := by
  obtain ⟨_, middle, passed, gives⟩ := gives_bind.1 gives
  cases gives_forIn_emit (fun argument : Classed => .passingHost argument.address) (by
    intro argument before step after once
    simp only [gives_bind, gives_emit, gives_pure] at once
    obtain ⟨_, _, ⟨_, rfl⟩, rfl, rfl⟩ := once
    exact ⟨rfl, rfl⟩) passed
  have sequence : ∀ result, rules.Receives function result → Append rules callee made between.buffer
      ((between.buffer.emitAll (arguments.map fun argument => .passingHost argument.address)).emit
        ⟨.nativeCall, .name function.name, .none, result⟩) := by
    intro result receives
    have append : Append rules callee made between.buffer (between.buffer.emitAll
        (function.callingHost (arguments.map Classed.address) result)) :=
      .callHost calls native hosts (by rw [List.length_map, complete]) (by
        intro address listed
        obtain ⟨argument, present, rfl⟩ := List.mem_map.1 listed
        exact usable argument present) receives
    rw [Function.callingHost, CodeBuffer.emitAll_append, CodeBuffer.emitAll_singleton,
      List.map_map] at append
    exact append
  split at gives
  · rename_i isVoid
    simp only [gives_bind, gives_emit, gives_pure] at gives
    obtain ⟨_, _, ⟨_, rfl⟩, _, rfl⟩ := gives
    exact works.append (sequence _ (.nothing isVoid))
  · simp only [gives_bind, gives_temp, gives_emit, gives_push] at gives
    obtain ⟨cell, _, ⟨memory, allocated, rfl⟩, _, _, ⟨_, rfl⟩, rfl⟩ := gives
    obtain ⟨has, typed, _⟩ := Memory.has_of_allocate works.sound.tree.sizes allocated
    have fresh := rules.usable_of_has _ has
    have called := (works.allocate allocated).append (sequence _ (.value typed fresh))
    refine ⟨⟨called.sound.tree, fun entry listed => ?_, called.sound.names⟩, called.appends, called.functions,
      called.started⟩
    rcases List.mem_cons.1 listed with rfl | listed
    · exact fresh
    · exact called.sound.operands entry listed

/-- To work on the code; what is left by a failure does not matter. -/
def working (rules : Rules) (callee : Option Function) (made : Option Scope.Class) (before : Generator) :
    Terms where
  holds := Works rules callee made before
  fails := fun _ _ => True
  reports := fun _ _ _ => trivial

theorem survives_working {action : Action Unit}
    (works : ∀ between after, Works rules callee made before between → Gives action between () after →
      Works rules callee made before after) :
    Survives (working rules callee made before) action := by
  intro between worked
  cases performed : action.run.run between with
  | mk outcome after =>
    cases outcome with
    | ok => exact ⟨trivial, works between after worked performed⟩
    | error => trivial

theorem steady_working (rules : Rules) (callee : Option Function) (made : Option Scope.Class)
    (before : Generator) :
    Steady (working rules callee made before) True rules callee made where
  sound := fun _ _ works => works.sound
  emit := fun _ _ works plain => works.append (.plain (plain trivial))
  temp := fun _ _ _ _ _ works allocated => works.allocate allocated
  context := fun _ context works => works.inContext context
  operands := fun _ _ works fits =>
    ⟨⟨works.sound.tree, fits trivial, works.sound.names⟩, works.appends, works.functions, works.started⟩
  names := fun _ _ works fits =>
    ⟨⟨works.sound.tree, works.sound.operands, fits trivial⟩, works.appends, works.functions, works.started⟩
  call := by
    intro function object passed ours _ calls
    refine survives_working fun between after works gives => ?_
    cases gives_passing gives
    exact works.append (.call (calls trivial).1 ours (calls trivial).2)
  callHost := by
    intro function arguments native calls
    obtain ⟨calls, hosts, complete, usable⟩ := calls trivial
    exact survives_working fun _ _ works gives => works.callHost calls native hosts complete usable gives
  functions := .inl fun _ _ => trivial
  constructors := .inl fun _ _ => trivial

/-! ### What an event calls and makes -/

def made? (generator : Generator) : Event.Command → Option Scope.Class
  | .newObject => generator.names.head?.bind fun pending => generator.tree.class? pending.name
  | _ => none

/-- The function that an event calls: the one of the waiting name, or the one that sets up an object
of the class of the waiting name. -/
def callee? (generator : Generator) : Event.Command → Option Function
  | .call => generator.names.head?.bind fun pending =>
    ((searched generator.tree pending.className).resolveFunction pending.name).toOption.bind
      generator.tree.function?
  | .newObject => (generator.made? .newObject).bind fun class_ =>
    class_.constructor.bind generator.tree.function?
  | _ => none

theorem gives_resolveFunction {className : Option String}
    (gives : Gives (resolveFunction name className) before function after) :
    ((searched before.tree className).resolveFunction name).toOption.bind before.tree.function? =
        some function ∧ after = { before with tree := before.tree.clearContext } := by
  unfold resolveFunction at gives
  cases className
  case' none =>
    simp only [gives_bind, gives_get, gives_setTree] at gives
    obtain ⟨_, _, ⟨rfl, rfl⟩, _, _, rfl, gives⟩ := gives
  case' some class_ =>
    simp only [gives_bind, gives_get, gives_setTree] at gives
    obtain ⟨_, _, rfl, _, _, ⟨rfl, rfl⟩, _, _, rfl, gives⟩ := gives
  all_goals
    split at gives
    · exact (gives_fail.1 gives).elim
    · rename_i id resolved
      split at gives
      · rename_i found
        obtain ⟨rfl, rfl⟩ := gives_pure.1 gives
        exact ⟨by rw [searched, resolved]; exact found, rfl⟩
      · exact (gives_throw.1 gives).elim

theorem exists_callee? (calls : before.callee? command = some function) :
    ∃ id, before.tree.function? id = some function := by
  unfold callee? at calls
  split at calls
  · obtain ⟨pending, _, calls⟩ := Option.bind_eq_some_iff.1 calls
    obtain ⟨id, _, found⟩ := Option.bind_eq_some_iff.1 calls
    exact ⟨id, found⟩
  · obtain ⟨class_, _, calls⟩ := Option.bind_eq_some_iff.1 calls
    obtain ⟨id, _, found⟩ := Option.bind_eq_some_iff.1 calls
    exact ⟨id, found⟩
  · cases calls

section

variable (sound : before.Sound rules)
include sound

theorem sound_callee? (calls : before.callee? command = some function) : function.Sound rules := by
  obtain ⟨id, found⟩ := exists_callee? calls
  exact sound.tree.functions id function found

theorem works_call (gives : Gives call before done after) :
    Works rules (before.callee? .call) made before after := by
  have steady := steady_working rules (before.callee? .call) made before
  obtain ⟨pending, between, popped, gives⟩ := gives_bind.1 gives
  obtain ⟨refers, works⟩ := steady.keeps_popName.of_gives (.refl sound) popped
  obtain ⟨_, names, top, rfl⟩ := gives_popName popped
  obtain ⟨function, middle, resolved, gives⟩ := gives_bind.1 gives
  obtain ⟨found, rfl⟩ := gives_resolveFunction resolved
  have calls : before.callee? .call = some function := by
    rw [callee?, top]
    exact found
  have called {generator : Generator} {object : Option Address}
      (works : Works rules (before.callee? .call) made before generator)
      (gives : Gives (callFunction function object) generator done after)
      (refers : ∀ value, object = some value → rules.Refers value)
      (matched : object.isSome = function.isMethod) :
      Works rules (before.callee? .call) made before after :=
    ((steady.keeps_callFunction (.inl fun _ _ => trivial) fun _ =>
      ⟨calls, sound_callee? sound calls, refers, matched⟩).of_gives works gives).2
  have ready := works.inContext none
  split at gives
  · rename_i isMethod
    split at gives
    · rename_i object base
      refine called ready gives (fun value same => ?_) isMethod.symm
      cases same
      exact refers trivial object base
    · obtain ⟨this, last, received, gives⟩ := gives_bind.1 gives
      obtain ⟨refersTo, ready⟩ := (steady.keeps_receiver _ (bne_iff_ne.1 isMethod)).of_gives ready received
      refine called ready gives (fun value same => ?_) isMethod.symm
      cases same
      exact refersTo trivial
  · rename_i notMethod
    exact called ready gives nofun (Bool.eq_false_iff.2 notMethod).symm

theorem isMethod_constructor {class_ : Scope.Class} (listed : class_ ∈ before.tree.classes)
    (named : class_.name ≠ "")
    (found : class_.constructor.bind before.tree.function? = some function) :
    function.isMethod = true := by
  obtain ⟨id, isConstructor, here⟩ := Option.bind_eq_some_iff.1 found
  obtain ⟨other, here', owner⟩ := sound.tree.constructors class_ listed id isConstructor
  cases here.symm.trans here'
  rw [Function.isMethod, owner]
  exact bne_iff_ne.2 named

theorem works_newObject (gives : Gives newObject before done after) :
    Works rules (before.callee? .newObject) (before.made? .newObject) before after := by
  have steady := steady_working rules (before.callee? .newObject) (before.made? .newObject) before
  obtain ⟨pending, between, popped, gives⟩ := gives_bind.1 gives
  obtain ⟨_, works⟩ := steady.keeps_popName.of_gives (.refl sound) popped
  obtain ⟨named, names, top, rfl⟩ := gives_popName popped
  simp only [gives_get_bind] at gives
  split at gives
  · exact (gives_fail.1 gives).elim
  rename_i class_ found
  have here : before.tree.class? pending.name = some class_ := Scope.Tree.getClass_eq_ok found
  have makes : before.made? .newObject = some class_ := by
    rw [made?, top]
    exact here
  obtain ⟨pointer, middle, given, gives⟩ := gives_bind.1 gives
  obtain ⟨cell, works⟩ := (steady.keeps_allocateTemp _ _).of_gives works given
  have refers : rules.Refers pointer := ⟨cell.typed, cell.usable trivial⟩
  simp only [gives_bind, gives_emit] at gives
  obtain ⟨_, _, ⟨_, rfl⟩, gives⟩ := gives
  have allocated := works.append (.malloc makes refers)
  have pushes := steady.keeps_push (.cell pointer class_.name) cell.usable
  split at gives
  · rename_i constructor constructs
    have calls : before.callee? .newObject = some constructor := by
      rw [callee?, makes]
      exact constructs
    have isMethod : constructor.isMethod = true :=
      isMethod_constructor sound (List.mem_of_find?_eq_some here)
        (by rw [Scope.Tree.name_of_class? here]; exact named) constructs
    obtain ⟨_, last, called, gives⟩ := gives_bind.1 gives
    have ready : Calls rules (before.callee? .newObject) constructor (some pointer) :=
      ⟨calls, sound_callee? sound calls, fun value same => by cases same; exact refers, isMethod.symm⟩
    have constructed := ((steady.keeps_callFunction (.inl fun _ _ => trivial) fun _ => ready).of_gives
      allocated called).2
    split at gives
    · obtain ⟨_, _, popped, gives⟩ := gives_bind.1 gives
      exact (pushes.of_gives (steady.keeps_pop.of_gives constructed popped).2 gives).2
    · exact (pushes.of_gives constructed gives).2
  · exact (pushes.of_gives allocated gives).2

end

end Quadruple.Generator
