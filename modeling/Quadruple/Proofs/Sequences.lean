import Quadruple.Proofs.Patching

/-!
The sequences of calls. A call of a function is a record that is opened, the arguments that are
passed, and the call itself, one right after the other; a call of the host is the same without a
record. Nothing else comes between them, and no jump, loop or function starts there.
-/

namespace Quadruple

open CodeBuffer (Append)
open Scope (Function)

/-! ### Stages -/

/-- How far a call has come. -/
inductive Stage where
  | clear
  | record
  | host
deriving DecidableEq

namespace Instruction

def stage (instr : Instruction) : Stage :=
  match instr.opcode with
  | .openRecord | .param => .record
  | .nativeParam => .host
  | _ => .clear

/-- The stages at which an instruction can come. -/
def Accepts (instr : Instruction) (stage : Stage) : Prop :=
  match instr.opcode with
  | .param | .call => stage = .record
  | .nativeParam | .nativeCall => stage ≠ .record
  | _ => stage = .clear

def binding? (instr : Instruction) : Option (Operand × Operand) :=
  if instr.opcode = .param then some (instr.left, instr.result) else none

def hostArgument? (instr : Instruction) : Option Operand :=
  if instr.opcode = .nativeParam then some instr.left else none

structure Apart (instr : Instruction) : Prop where
  opens : instr.opcode ≠ .openRecord
  passes : instr.opcode ≠ .param
  calls : instr.opcode ≠ .call
  passesHost : instr.opcode ≠ .nativeParam
  callsHost : instr.opcode ≠ .nativeCall

variable {instr : Instruction}

theorem Apart.accepts (apart : instr.Apart) {stage : Stage} :
    instr.Accepts stage ↔ stage = .clear := by
  obtain ⟨opens, passes, calls, passesHost, callsHost⟩ := apart
  unfold Accepts
  split <;> simp_all

theorem Apart.stage (apart : instr.Apart) : instr.stage = .clear := by
  obtain ⟨opens, passes, calls, passesHost, callsHost⟩ := apart
  unfold Instruction.stage
  split <;> simp_all

theorem binding?_of_stage (stage : instr.stage ≠ .record) : instr.binding? = none := by
  refine if_neg fun passes => stage ?_
  rw [Instruction.stage, passes]

theorem hostArgument?_of_stage (stage : instr.stage ≠ .host) :
    instr.hostArgument? = none := by
  refine if_neg fun passes => stage ?_
  rw [Instruction.stage, passes]

end Instruction

theorem Rules.Plain.apart {rules : Rules} {instr : Instruction}
    (plain : rules.Plain instr) : instr.Apart := by
  have isPlain := plain.isPlain
  constructor <;>
    (intro same
     rw [same] at isPlain
     cases isPlain)

namespace Code

variable {code : Code} {place : Nat} {instr : Instruction} {α : Type} {pick : Instruction → Option α}

def stage (code : Code) : Nat → Stage
  | 0 => .clear
  | place + 1 => ((code[place]?).map Instruction.stage).getD .clear

/-- What the instructions right before a place pass, as far as they pass something. -/
def gather (pick : Instruction → Option α) (code : Code) : Nat → List α
  | 0 => []
  | place + 1 =>
    match (code[place]?).bind pick with
    | some passed => gather pick code place ++ [passed]
    | none => []

def Clear (code : Code) (index : Int) : Prop :=
  ∃ place : Nat, index = place ∧ place ≤ code.size ∧ code.stage place = .clear

/-- The instructions follow each other as calls demand, and jumps stay out of calls. -/
structure Orderly (code : Code) : Prop where
  accepts : ∀ (place : Nat) (instr : Instruction), code[place]? = some instr →
    instr.Accepts (code.stage place)
  aims : ∀ (place : Nat) (instr : Instruction) (target : Int),
    code[place]? = some instr → instr.result = .target target → code.Clear target

section

variable (found : code[place]? = some instr)
include found

theorem stage_succ : code.stage (place + 1) = instr.stage := by
  rw [stage, found]
  rfl

theorem gather_some {passed : α} (picked : pick instr = some passed) :
    code.gather pick (place + 1) = code.gather pick place ++ [passed] := by
  simp only [gather, found, Option.bind_some, picked]

theorem gather_none (picked : pick instr = none) : code.gather pick (place + 1) = [] := by
  simp only [gather, found, Option.bind_some, picked]

end

/-- Nothing is gathered outside of the sequence of a call. -/
theorem gather_of_stage {during : Stage}
    (aside : ∀ {instr : Instruction}, instr.stage ≠ during → pick instr = none)
    (stage : code.stage place ≠ during) : code.gather pick place = [] := by
  cases place with
  | zero => rfl
  | succ place =>
    cases found : code[place]? with
    | none => simp only [gather, found, Option.bind_none]
    | some instr =>
      rw [stage_succ found] at stage
      exact gather_none found (aside stage)

theorem gather_binding? (stage : code.stage place ≠ .record) :
    code.gather Instruction.binding? place = [] :=
  gather_of_stage Instruction.binding?_of_stage stage

theorem gather_hostArgument? (stage : code.stage place ≠ .host) :
    code.gather Instruction.hostArgument? place = [] :=
  gather_of_stage Instruction.hostArgument?_of_stage stage

/-! ### Code that grows -/

/-- Code that has grown: instructions were appended, and instructions outside of calls may have got
another target. -/
structure Grows (before after : Code) : Prop where
  size : before.size ≤ after.size
  keeps : ∀ (place : Nat) (instr : Instruction), before[place]? = some instr →
    ∃ changed : Instruction, after[place]? = some changed ∧
      changed.opcode = instr.opcode ∧ changed.left = instr.left ∧
      (changed.result = instr.result ∨ before.stage place = .clear)

variable {before between after : Code}

theorem grows_refl (code : Code) : code.Grows code where
  size := Nat.le_refl _
  keeps := fun _ instr found => ⟨instr, found, rfl, rfl, .inl rfl⟩

theorem grows_push (code : Code) (instr : Instruction) :
    code.Grows (code.push instr) where
  size := by simp
  keeps := by
    intro place other found
    have inside : place < code.size := (Array.getElem?_eq_some_iff.1 found).1
    refine ⟨other, ?_, rfl, rfl, .inl rfl⟩
    rw [Array.getElem?_push, if_neg (by omega)]
    exact found

theorem grows_aim (found : code[place]? = some instr) (clear : code.stage place = .clear)
    (target : Int) : code.Grows (code.setIfInBounds place (instr.aimed target)) where
  size := by simp
  keeps := by
    intro other here found'
    rw [Array.getElem?_setIfInBounds]
    by_cases same : place = other
    · subst same
      cases found.symm.trans found'
      have inside : place < code.size := (Array.getElem?_eq_some_iff.1 found).1
      exact ⟨instr.aimed target, by rw [if_pos rfl, if_pos inside], rfl, rfl, .inr clear⟩
    · exact ⟨here, by rw [if_neg same]; exact found', rfl, rfl, .inl rfl⟩

theorem Grows.stage (grows : before.Grows after) (inside : place ≤ before.size) :
    after.stage place = before.stage place := by
  cases place with
  | zero => rfl
  | succ place =>
    have found : before[place]? = some before[place] := Array.getElem?_eq_getElem inside
    obtain ⟨changed, found', same, _, _⟩ := grows.keeps place _ found
    rw [stage_succ found, stage_succ found']
    unfold Instruction.stage
    rw [same]

theorem Grows.trans (grows : before.Grows between) (more : between.Grows after) :
    before.Grows after where
  size := Nat.le_trans grows.size more.size
  keeps := by
    intro place instr found
    obtain ⟨changed, found', opcode, left, result⟩ := grows.keeps place instr found
    obtain ⟨final, found'', opcode', left', result'⟩ := more.keeps place changed found'
    have inside : place < before.size := (Array.getElem?_eq_some_iff.1 found).1
    rw [grows.stage (Nat.le_of_lt inside)] at result'
    refine ⟨final, found'', opcode'.trans opcode, left'.trans left, ?_⟩
    rcases result with result | clear
    · rcases result' with result' | clear
      · exact .inl (result'.trans result)
      · exact .inr clear
    · exact .inr clear

section

variable (grows : before.Grows after)
include grows

theorem Grows.clear {index : Int} (clear : before.Clear index) : after.Clear index := by
  obtain ⟨place, rfl, inside, clear⟩ := clear
  exact ⟨place, rfl, Nat.le_trans inside grows.size, by rw [grows.stage inside]; exact clear⟩

theorem Grows.gather
    (picks : ∀ (place : Nat) (instr changed : Instruction), before[place]? = some instr →
      changed.opcode = instr.opcode → changed.left = instr.left →
      (changed.result = instr.result ∨ before.stage place = .clear) → pick changed = pick instr)
    (inside : place ≤ before.size) :
    after.gather pick place = before.gather pick place := by
  induction place with
  | zero => rfl
  | succ place ih =>
    have found : before[place]? = some before[place] := Array.getElem?_eq_getElem inside
    obtain ⟨changed, found', opcode, left, result⟩ := grows.keeps place _ found
    have same := picks place _ changed found opcode left result
    cases picked : pick before[place] with
    | none =>
      rw [picked] at same
      rw [gather_none found picked, gather_none found' same]
    | some passed =>
      rw [picked] at same
      rw [gather_some found picked, gather_some found' same, ih (by omega)]

theorem Grows.gather_hostArgument? (inside : place ≤ before.size) :
    after.gather Instruction.hostArgument? place = before.gather Instruction.hostArgument? place := by
  refine grows.gather (fun _ instr changed _ opcode left _ => ?_) inside
  rw [Instruction.hostArgument?, Instruction.hostArgument?, opcode, left]

theorem Grows.gather_binding? (orderly : before.Orderly) (inside : place ≤ before.size) :
    after.gather Instruction.binding? place = before.gather Instruction.binding? place := by
  refine grows.gather (fun place instr changed found opcode left result => ?_) inside
  unfold Instruction.binding?
  rw [opcode, left]
  by_cases passes : instr.opcode = .param
  · have accepted := orderly.accepts place instr found
    rw [Instruction.Accepts, passes] at accepted
    rcases result with result | clear
    · rw [result]
    · rw [accepted] at clear
      cases clear
  · rw [if_neg passes, if_neg passes]

end

/-- An instruction that comes at its stage and jumps out of calls only. -/
def Suits (code : Code) (place : Nat) (instr : Instruction) : Prop :=
  place ≤ code.size ∧ instr.Accepts (code.stage place) ∧
    ∀ target, instr.result = .target target → code.Clear target

theorem Orderly.suits (orderly : code.Orderly) (found : code[place]? = some instr) :
    code.Suits place instr :=
  ⟨Nat.le_of_lt (Array.getElem?_eq_some_iff.1 found).1, orderly.accepts place instr found,
    fun target => orderly.aims place instr target found⟩

theorem Grows.orderly (grows : before.Grows after)
    (suit : ∀ place instr, after[place]? = some instr → before.Suits place instr) : after.Orderly where
  accepts := by
    intro place instr found
    obtain ⟨inside, accepts, _⟩ := suit place instr found
    rw [grows.stage inside]
    exact accepts
  aims := fun place instr target found result => grows.clear ((suit place instr found).2.2 target result)

theorem Orderly.push (orderly : code.Orderly)
    (accepts : instr.Accepts (code.stage code.size))
    (aims : ∀ target, instr.result = .target target → code.Clear target) :
    Orderly (code.push instr) := by
  refine (code.grows_push instr).orderly fun place other found => ?_
  rw [Array.getElem?_push] at found
  split at found
  · rename_i same
    cases found
    cases same
    exact ⟨Nat.le_refl _, accepts, aims⟩
  · exact orderly.suits found

theorem Orderly.aim (orderly : code.Orderly) (found : code[place]? = some instr)
    (clear : code.stage place = .clear) {target : Int} (aimed : code.Clear target) :
    Orderly (code.setIfInBounds place (instr.aimed target)) := by
  refine (grows_aim found clear target).orderly fun other changed found' => ?_
  rw [Array.getElem?_setIfInBounds] at found'
  split at found'
  · rename_i same
    cases same
    split at found'
    · cases found'
      obtain ⟨inside, accepts, _⟩ := orderly.suits found
      exact ⟨inside, accepts, fun _ same => by cases same; exact aimed⟩
    · cases found'
  · exact orderly.suits found'

/-- The instruction at a place calls a function, and what has been passed before is one value for
each argument of the function, in their order. -/
structure Calls (code : Code) (place : Nat) (instr : Instruction) (function : Function) :
    Prop where
  ours : instr.opcode = .call → function.native = false ∧
    (code.gather Instruction.binding? place).map Prod.snd =
      function.arguments.map fun argument => .address argument.address
  host : instr.opcode = .nativeCall → function.native = true ∧
    (code.gather Instruction.hostArgument? place).length = function.arguments.length

theorem Calls.grow {function : Function} {changed : Instruction}
    (calls : before.Calls place instr function) (orderly : before.Orderly)
    (grows : before.Grows after) (inside : place ≤ before.size)
    (same : changed.opcode = instr.opcode) : after.Calls place changed function where
  ours := by
    rw [same, grows.gather_binding? orderly inside]
    exact calls.ours
  host := by
    rw [same, grows.gather_hostArgument? inside]
    exact calls.host

end Code

/-! ### Sequences of calls -/

namespace CodeBuffer

variable {function : Function}

/-- Code that an event with at most one callee has appended to. -/
structure Follows (callee : Option Function) (before after : Code) : Prop where
  grows : before.Grows after
  orderly : after.Orderly
  calls : ∀ (place : Nat) (instr : Instruction), before.size ≤ place →
    after[place]? = some instr →
    instr.opcode = .call ∨ instr.opcode = .nativeCall →
    ∃ function, callee = some function ∧ after.Calls place instr function

variable {rules : Rules} {callee : Option Function} {made : Option Scope.Class}
  {before : Code} {buffer after : CodeBuffer} {instr : Instruction}

theorem getElem?_emit (buffer : CodeBuffer) (instr : Instruction) :
    (buffer.emit instr).code[buffer.code.size]? = some instr := by
  simp [CodeBuffer.emit]

theorem size_emit (buffer : CodeBuffer) (instr : Instruction) :
    (buffer.emit instr).code.size = buffer.code.size + 1 := by
  simp [CodeBuffer.emit]

theorem stage_emit (buffer : CodeBuffer) (instr : Instruction) :
    (buffer.emit instr).code.stage (buffer.emit instr).code.size =
      instr.stage := by
  rw [size_emit, Code.stage_succ (buffer.getElem?_emit instr)]

theorem follows_refl (orderly : before.Orderly) : Follows callee before before where
  grows := Code.grows_refl before
  orderly := orderly
  calls := by
    intro place instr beyond found
    have inside := (Array.getElem?_eq_some_iff.1 found).1
    omega

theorem Follows.emit (follows : Follows callee before buffer.code)
    (accepts : instr.Accepts (buffer.code.stage buffer.code.size))
    (aims : ∀ target, instr.result = .target target → buffer.code.Clear target)
    (calls : instr.opcode = .call ∨ instr.opcode = .nativeCall →
      ∃ function, callee = some function ∧
        buffer.code.Calls buffer.code.size instr function) :
    Follows callee before (buffer.emit instr).code where
  grows := follows.grows.trans (buffer.code.grows_push instr)
  orderly := follows.orderly.push accepts aims
  calls := by
    intro place other beyond found opcode
    have grows := buffer.code.grows_push instr
    have found' : (buffer.code.push instr)[place]? = some other := found
    rw [Array.getElem?_push] at found'
    split at found'
    · rename_i same
      cases found'
      obtain ⟨function, called, passed⟩ := calls opcode
      rw [same]
      exact ⟨function, called, passed.grow follows.orderly grows (Nat.le_refl _) rfl⟩
    · obtain ⟨function, called, passed⟩ := follows.calls place other beyond found' opcode
      have inside := (Array.getElem?_eq_some_iff.1 found').1
      exact ⟨function, called, passed.grow follows.orderly grows (Nat.le_of_lt inside) rfl⟩

theorem Follows.emit_apart (follows : Follows callee before buffer.code) (apart : instr.Apart)
    (clear : buffer.code.stage buffer.code.size = .clear)
    (aims : ∀ target, instr.result = .target target → buffer.code.Clear target) :
    Follows callee before (buffer.emit instr).code ∧
      (buffer.emit instr).code.stage (buffer.emit instr).code.size = .clear := by
  refine ⟨follows.emit (apart.accepts.2 clear) aims ?_, ?_⟩
  · rintro (calls | calls)
    · exact absurd calls apart.calls
    · exact absurd calls apart.callsHost
  · rw [stage_emit, apart.stage]

/-- Arguments that are passed one after the other are gathered in their order. -/
theorem Follows.emitAll {α β : Type} (make : β → Instruction) (pick : Instruction → Option α)
    (given : β → α) (fits : Stage → Prop)
    (accepts : ∀ item stage, fits stage → (make item).Accepts stage)
    (leads : ∀ item, fits (make item).stage)
    (aims : ∀ item target, (make item).result ≠ .target target)
    (calls : ∀ item, (make item).opcode ≠ .call ∧ (make item).opcode ≠ .nativeCall)
    (picks : ∀ item, pick (make item) = some (given item))
    (keeps : ∀ {code : Code} (instr : Instruction), code.Orderly →
      Code.gather pick (code.push instr) code.size = code.gather pick code.size)
    (items : List β) (follows : Follows callee before buffer.code)
    (here : fits (buffer.code.stage buffer.code.size)) :
    Follows callee before (buffer.emitAll (items.map make)).code ∧
      fits ((buffer.emitAll (items.map make)).code.stage
        (buffer.emitAll (items.map make)).code.size) ∧
      (buffer.emitAll (items.map make)).code.gather pick
          (buffer.emitAll (items.map make)).code.size =
        buffer.code.gather pick buffer.code.size ++ items.map given := by
  induction items generalizing buffer with
  | nil =>
    rw [List.map_nil, List.map_nil, emitAll_nil, List.append_nil]
    exact ⟨follows, here, rfl⟩
  | cons item items ih =>
    have once : Follows callee before (buffer.emit (make item)).code :=
      follows.emit (accepts item _ here) (fun target result => absurd result (aims item target))
        (fun opcode => absurd opcode (not_or.2 (calls item)))
    have stage : fits ((buffer.emit (make item)).code.stage (buffer.emit (make item)).code.size) := by
      rw [stage_emit]
      exact leads item
    have gathered : (buffer.emit (make item)).code.gather pick (buffer.emit (make item)).code.size =
        buffer.code.gather pick buffer.code.size ++ [given item] := by
      rw [size_emit, Code.gather_some (buffer.getElem?_emit (make item)) (picks item)]
      exact congrArg (· ++ [given item]) (keeps (make item) follows.orderly)
    rw [List.map_cons, emitAll_cons, List.map_cons, List.append_cons, ← gathered]
    exact ih once stage

section

variable (follows : Follows callee before buffer.code)
  (clear : buffer.code.stage buffer.code.size = .clear)
include follows clear

theorem Follows.calling {passed : List (Address × Address)} (calls : callee = some function)
    (ours : function.native = false) (passes : rules.Passes function passed)
    (starts : before.Clear function.start) :
    Follows callee before (buffer.emitAll (function.calling passed)).code ∧
      (buffer.emitAll (function.calling passed)).code.stage
        (buffer.emitAll (function.calling passed)).code.size = .clear := by
  let opening : Instruction := { opcode := .openRecord, left := .name function.name }
  let closing : Instruction := ⟨.call, .name function.name, .none, .target function.start⟩
  have opened : Follows callee before (buffer.emit opening).code := by
    refine follows.emit clear nofun ?_
    rintro (same | same) <;> cases same
  have empty : (buffer.emit opening).code.gather Instruction.binding?
      (buffer.emit opening).code.size = [] := by
    rw [size_emit]
    exact Code.gather_none (buffer.getElem?_emit opening) rfl
  obtain ⟨argued, stage, gathered⟩ := opened.emitAll .passing Instruction.binding?
    (fun argument => (.address argument.1, .address argument.2)) (· = .record)
    (fun _ _ here => here) (fun _ => rfl) (fun _ _ => by simp [Instruction.passing])
    (fun _ => by simp [Instruction.passing]) (fun _ => rfl)
    (fun instr orderly =>
      (Code.grows_push _ instr).gather_binding? orderly (Nat.le_refl _)) passed
    (buffer.stage_emit opening)
  rw [empty, List.nil_append] at gathered
  have called : Follows callee before
      (((buffer.emit opening).emitAll (passed.map .passing)).emit closing).code := by
    refine argued.emit stage (fun target same => ?_) fun _ => ⟨function, calls, ?_, ?_⟩
    · cases same
      exact argued.grows.clear starts
    · intro _
      refine ⟨ours, ?_⟩
      rw [gathered, List.map_map]
      have complete := congrArg (List.map Operand.address) passes.complete
      rw [List.map_map, List.map_map] at complete
      exact complete
    · intro same
      cases same
  rw [Function.calling, List.cons_append, emitAll_cons, emitAll_append, emitAll_singleton]
  exact ⟨called, stage_emit _ closing⟩

theorem Follows.callingHost {arguments : List Address} {result : Operand} (calls : callee = some function)
    (native : function.native = true) (complete : arguments.length = function.arguments.length)
    (receives : rules.Receives function result) :
    Follows callee before (buffer.emitAll (function.callingHost arguments result)).code ∧
      (buffer.emitAll (function.callingHost arguments result)).code.stage
        (buffer.emitAll (function.callingHost arguments result)).code.size = .clear := by
  let closing : Instruction := ⟨.nativeCall, .name function.name, .none, result⟩
  have empty : buffer.code.gather Instruction.hostArgument? buffer.code.size = [] := by
    refine Code.gather_hostArgument? ?_
    rw [clear]
    simp
  obtain ⟨argued, stage, gathered⟩ := follows.emitAll .passingHost Instruction.hostArgument?
    Operand.address (· ≠ .record) (fun _ _ here => here)
    (fun _ => by simp [Instruction.stage, Instruction.passingHost])
    (fun _ _ => by simp [Instruction.passingHost]) (fun _ => by simp [Instruction.passingHost])
    (fun _ => rfl)
    (fun instr _ => (Code.grows_push _ instr).gather_hostArgument? (Nat.le_refl _))
    arguments (by rw [clear]; simp)
  rw [empty, List.nil_append] at gathered
  have called : Follows callee before
      ((buffer.emitAll (arguments.map .passingHost)).emit closing).code := by
    refine argued.emit stage (fun target same => ?_) fun _ => ⟨function, calls, ?_, ?_⟩
    · cases receives with
      | nothing | value => cases same
    · intro same
      cases same
    · intro _
      rw [gathered, List.length_map]
      exact ⟨native, complete⟩
  rw [Function.callingHost, emitAll_append, emitAll_singleton]
  exact ⟨called, stage_emit _ closing⟩

/-- Whatever an event appends, it completes the calls that it begins. -/
theorem Follows.append
    (starts : ∀ function, callee = some function → function.native = false → before.Clear function.start)
    (append : Append rules callee made buffer after) :
    Follows callee before after.code ∧ after.code.stage after.code.size = .clear := by
  cases append with
  | plain plain =>
    refine follows.emit_apart plain.apart clear fun target same => ?_
    cases plain <;> cases same
  | malloc =>
    exact follows.emit_apart (by constructor <;> simp) clear nofun
  | call calls ours passes => exact follows.calling clear calls ours passes (starts _ calls ours)
  | callHost calls native _ complete _ receives =>
    exact follows.callingHost clear calls native complete receives

end

/-! ### Jumps -/

/-- Code between two calls, with the jumps that wait for a target and the loops that wait for their
end, all of them outside of calls. -/
structure Settled (callee : Option Function) (before : Code) (buffer : CodeBuffer) : Prop where
  follows : Follows callee before buffer.code
  clear : buffer.code.stage buffer.code.size = .clear
  waits : ∀ index, Pending.jump index ∈ buffer.pending → buffer.code.Clear index

section

variable (settled : Settled callee before buffer)
include settled

theorem Settled.append
    (starts : ∀ function, callee = some function → function.native = false → before.Clear function.start)
    (append : Append rules callee made buffer after) : Settled callee before after := by
  obtain ⟨follows, clear⟩ := settled.follows.append settled.clear starts append
  have ⟨grown, _⟩ := (follows_refl settled.follows.orderly).append settled.clear
    (fun function calls ours => settled.follows.grows.clear (starts function calls ours)) append
  refine ⟨follows, clear, fun index listed => grown.grows.clear (settled.waits index ?_)⟩
  cases append <;> exact listed

theorem Settled.emit (apart : instr.Apart)
    (aims : ∀ target, instr.result = .target target → buffer.code.Clear target) :
    Settled callee before (buffer.emit instr) := by
  obtain ⟨follows, clear⟩ := settled.follows.emit_apart apart settled.clear aims
  exact ⟨follows, clear, fun index listed =>
    (buffer.code.grows_push instr).clear (settled.waits index listed)⟩

/-- An instruction outside of calls gets the end of the code as its target. -/
theorem Settled.aim {place : Nat} (found : buffer.code[place]? = some instr)
    (here : buffer.code.Clear place) :
    Settled callee before
      { buffer with
        code := buffer.code.setIfInBounds place (instr.aimed buffer.code.size) } := by
  obtain ⟨_, same, _, here⟩ := here
  cases Int.ofNat_inj.1 same
  have grows := Code.grows_aim found here buffer.code.size
  refine ⟨⟨settled.follows.grows.trans grows, ?_, ?_⟩, ?_, fun index listed =>
    grows.clear (settled.waits index listed)⟩
  · exact settled.follows.orderly.aim found here ⟨_, rfl, Nat.le_refl _, settled.clear⟩
  · intro other changed beyond found' opcode
    have inside : other < buffer.code.size := by
      have bound := (Array.getElem?_eq_some_iff.1 found').1
      simpa using bound
    have kept : buffer.code[other]? = some buffer.code[other] := Array.getElem?_eq_getElem inside
    obtain ⟨_, found'', same, _, _⟩ := grows.keeps other _ kept
    cases found'.symm.trans found''
    rw [same] at opcode
    obtain ⟨function, called, passed⟩ := settled.follows.calls other _ beyond kept opcode
    exact ⟨function, called, passed.grow settled.follows.orderly grows (Nat.le_of_lt inside) same⟩
  · have size : (buffer.code.setIfInBounds place (instr.aimed buffer.code.size)).size =
        buffer.code.size := by simp
    rw [size]
    exact (grows.stage (Nat.le_refl _)).trans settled.clear

theorem Settled.forget {rest : List Pending} (sublist : rest.Sublist buffer.pending) :
    Settled callee before { buffer with pending := rest } :=
  ⟨settled.follows, settled.clear, fun index listed =>
    settled.waits index (sublist.subset listed)⟩

theorem Settled.wait {index : Int} (clear : buffer.code.Clear index) :
    Settled callee before (buffer.pushPending index) := by
  refine ⟨settled.follows, settled.clear, fun other listed => ?_⟩
  rcases List.mem_cons.1 listed with same | listed
  · unfold Pending.ofIndex at same
    split at same
    · cases same
    · cases same
      exact clear
  · exact settled.waits other listed

theorem Settled.patchPending (patched : buffer.patchPending = (.ok (), after)) :
    Settled callee before after := by
  refine patchPending_keeps (motive := fun code pending => Settled callee before ⟨code, pending⟩)
    ?_ ?_ patched settled
  · intro code place instr rest settled found
    have here := settled.waits place List.mem_cons_self
    exact (settled.aim found here).forget (List.sublist_cons_self _ _)
  · intro code rest settled
    exact settled.forget (List.sublist_cons_self _ _)

theorem Settled.steer {command : Event.Command} (steers : command.Steers rules buffer after) :
    Settled callee before after := by
  have here : buffer.code.Clear buffer.code.size := ⟨_, rfl, Nat.le_refl _, settled.clear⟩
  cases steers with
  | other => exact settled
  | delimiter =>
    refine ⟨settled.follows, settled.clear, fun index listed => settled.waits index ?_⟩
    rcases List.mem_cons.1 listed with same | listed
    · cases same
    · exact listed
  | branch | jump =>
    refine (settled.emit (by constructor <;> simp) ?_).wait ((buffer.code.grows_push _).clear here)
    exact nofun
  | head => exact settled.wait here
  | patchAll patched => exact settled.patchPending patched
  | patchOne patched =>
    obtain ⟨place, index, instr, _, waits, found, rfl⟩ := patchOne_eq_ok patched
    exact (settled.aim found (settled.waits index (List.mem_of_getElem? waits))).forget
      (List.eraseIdx_sublist _ _)
  | loop taken =>
    obtain ⟨place, _, waits, rfl⟩ := take_eq_ok taken
    refine (settled.forget (List.eraseIdx_sublist _ _)).emit (by constructor <;> simp)
      fun target same => ?_
    cases same
    exact settled.waits _ (List.mem_of_getElem? waits)
  | start patched =>
    obtain ⟨place, instr, same, found, rfl⟩ := Code.setTarget_eq_ok patched
    cases Int.ofNat_inj.1 same
    exact (settled.aim found ⟨0, rfl, Nat.zero_le _, rfl⟩).emit (by constructor <;> simp) nofun
  | exit => exact settled.emit (by constructor <;> simp) nofun

end

end CodeBuffer

/-! ### Whole compilations -/

namespace Generator

/-- The function for which the call at a position was compiled, as it was declared then. -/
def CompiledFor (capacities : Capacities) (commands : List Event.Command) (position : Nat)
    (function : Function) : Prop :=
  ∃ command before, Emitted capacities commands position command before ∧
    before.callee? command = some function

/-- A compilation whose calls are complete, with a function for each of them. -/
structure InOrder (capacities : Capacities) (commands : List Event.Command)
    (generator : Generator) : Prop where
  orderly : generator.buffer.code.Orderly
  clear : generator.buffer.code.stage generator.buffer.code.size = .clear
  waits : ∀ index, Pending.jump index ∈ generator.buffer.pending →
    generator.buffer.code.Clear index
  starts : ∀ start, generator.tree.Starts start → generator.buffer.code.Clear start
  calls : ∀ (place : Nat) (instr : Instruction),
    generator.buffer.code[place]? = some instr →
    instr.opcode = .call ∨ instr.opcode = .nativeCall →
    ∃ function, CompiledFor capacities commands place function ∧
      (function.isMethod = true → ∃ this others, function.arguments = this :: others ∧
        this.name = Scope.receiverName) ∧
      generator.buffer.code.Calls place instr function

variable {rules : Rules} {command : Event.Command} {commands : List Event.Command}
  {before after : Generator}

theorem inOrder_ofCapacities (capacities : Capacities) :
    InOrder capacities [] (.ofCapacities capacities) where
  orderly := by
    have empty : Code.Orderly #[] := by
      constructor
      · intro place instr found
        simp at found
      · intro place instr target found
        simp at found
    exact empty.push rfl nofun
  clear := rfl
  waits := fun _ listed => (nomatch listed)
  starts := by
    rintro start ⟨id, function, found, _⟩
    cases found
  calls := by
    intro place instr found opcode
    cases place with
    | zero =>
      cases found
      rcases opcode with same | same <;> cases same
    | succ place =>
      simp [Generator.ofCapacities, CodeBuffer.emit] at found

/-- A command keeps to the order, and the calls that it adds are of its callee. -/
theorem InOrder.advance (inOrder : InOrder rules.capacities commands before)
    (reached : Performs commands (.ofCapacities rules.capacities) before)
    (sound : before.Sound rules) (performs : Gives command.perform before () after)
    (advances : Advances rules command before after) :
    InOrder rules.capacities (commands ++ [command]) after := by
  obtain ⟨middle, appends, steers⟩ := advances.code
  have starts : ∀ function, before.callee? command = some function → function.native = false →
      before.buffer.code.Clear function.start := by
    intro function calls ours
    obtain ⟨id, found⟩ := exists_callee? calls
    exact inOrder.starts function.start ⟨id, function, found, ours, rfl⟩
  have settled : CodeBuffer.Settled (before.callee? command) before.buffer.code middle := by
    clear steers
    induction appends with
    | refl => exact ⟨CodeBuffer.follows_refl inOrder.orderly, inOrder.clear, inOrder.waits⟩
    | tail _ append ih => exact ih.append starts append
  have final := settled.steer steers
  refine ⟨final.follows.orderly, final.clear, final.waits, ?_, ?_⟩
  · intro start begun
    rcases advances.starts start begun with rfl | earlier
    · exact final.follows.grows.clear ⟨_, rfl, Nat.le_refl _, inOrder.clear⟩
    · exact final.follows.grows.clear (inOrder.starts start earlier)
  · intro place instr found opcode
    by_cases old : place < before.buffer.code.size
    · have kept : before.buffer.code[place]? = some before.buffer.code[place] :=
        Array.getElem?_eq_getElem old
      obtain ⟨_, found', same, _, _⟩ := final.follows.grows.keeps place _ kept
      cases found.symm.trans found'
      rw [same] at opcode
      obtain ⟨function, ⟨earlier, state, emitted, calls⟩, method, passed⟩ :=
        inOrder.calls place _ kept opcode
      exact ⟨function, ⟨earlier, state, emitted.append _, calls⟩, method,
        passed.grow inOrder.orderly final.follows.grows (Nat.le_of_lt old) same⟩
    · obtain ⟨function, calls, passed⟩ :=
        final.follows.calls place instr (Nat.le_of_not_lt old) found opcode
      refine ⟨function, ⟨command, before, ⟨commands, [], after, rfl, reached, performs,
        Nat.le_of_not_lt old, (Array.getElem?_eq_some_iff.1 found).1⟩, calls⟩, fun isMethod => ?_,
        passed⟩
      obtain ⟨this, others, arguments, named, _⟩ := (sound_callee? sound calls).method isMethod
      exact ⟨this, others, arguments, named⟩

theorem Performs.inOrder (performs : Performs commands (.ofCapacities rules.capacities) after)
    (admits : Admits rules commands) :
    InOrder rules.capacities commands after := by
  refine (performs.invariant admits (inOrder_ofCapacities rules.capacities) ?_).2
  intro earlier command before after reached inOrder sound performed advances
  exact inOrder.advance reached sound performed advances

end Generator

end Quadruple
