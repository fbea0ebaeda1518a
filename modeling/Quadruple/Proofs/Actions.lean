import Quadruple.Proofs.Instructions
import Quadruple.Transcript.Replay

/-!
What compilation does when it succeeds. An operation that consists of others succeeds if they do, one
after the other; each basic operation changes its own part of the state.
-/

namespace Quadruple

theorem Pending.ofIndex_natCast (index : Nat) : Pending.ofIndex index = .jump index := by
  unfold ofIndex
  rw [if_neg (by omega)]

namespace Generator

def Gives {α : Type} (action : Action α) (before : Generator) (value : α) (after : Generator) : Prop :=
  action.run.run before = (.ok value, after)

section

variable {α β : Type} {action : Action α} {rest : α → Action β} {before after : Generator}
  {value : α} {result : β}

theorem gives_bind :
    Gives (action >>= rest) before result after ↔ ∃ value between,
      Gives action before value between ∧ Gives (rest value) between result after := by
  unfold Gives
  rw [ExceptT.run_bind, StateT.run_bind]
  cases StateT.run (ExceptT.run action) before with
  | mk outcome between =>
    cases outcome with
    | error cause =>
      constructor
      · intro same
        cases same
      · rintro ⟨_, _, same, _⟩
        cases same
    | ok given =>
      constructor
      · intro same
        exact ⟨given, between, rfl, same⟩
      · rintro ⟨_, _, same, rest⟩
        cases same
        exact rest

theorem gives_ite_bind {condition : Prop} [Decidable condition] {other : Action α} :
    Gives (if condition then action >>= rest else other >>= rest) before result after ↔
      Gives ((if condition then action else other) >>= rest) before result after := by
  split <;> rfl

theorem gives_pure {given : α} :
    Gives (pure given) before value after ↔ given = value ∧ before = after := by
  unfold Gives
  rw [ExceptT.run_pure, StateT.run_pure]
  constructor
  · intro same
    cases same
    exact ⟨rfl, rfl⟩
  · rintro ⟨rfl, rfl⟩
    rfl

theorem gives_throw {failure : Failure} :
    Gives (throw failure : Action α) before value after ↔ False := by
  constructor
  · intro gives
    cases gives
  · exact False.elim

theorem gives_fail {cause : Error} : Gives (fail cause : Action α) before value after ↔ False :=
  gives_throw

theorem gives_get {found : Generator} :
    Gives (get : Action Generator) before found after ↔ before = found ∧ before = after := by
  constructor
  · intro gives
    cases gives
    exact ⟨rfl, rfl⟩
  · rintro ⟨rfl, rfl⟩
    rfl

theorem gives_get_bind {rest : Generator → Action β} :
    Gives ((get : Action Generator) >>= rest) before result after ↔
      Gives (rest before) before result after := by
  rw [gives_bind]
  simp only [gives_get]
  constructor
  · rintro ⟨_, _, ⟨rfl, rfl⟩, gives⟩
    exact gives
  · exact fun gives => ⟨_, _, ⟨rfl, rfl⟩, gives⟩

theorem not_gives_fail_bind {cause : Error} :
    ¬ Gives ((fail cause : Action α) >>= rest) before result after := by
  intro gives
  obtain ⟨_, _, failed, _⟩ := gives_bind.1 gives
  exact gives_fail.1 failed

variable {change : Generator → Generator}

theorem gives_modify {done : Unit} :
    Gives (modify change : Action Unit) before done after ↔ change before = after := by
  constructor
  · intro gives
    cases gives
    rfl
  · rintro rfl
    rfl

theorem gives_modify_pure {given : α} : Gives (do modify change; pure given) before value after ↔
      given = value ∧ change before = after := by
  simp only [gives_bind, gives_modify, gives_pure]
  constructor
  · rintro ⟨_, _, rfl, rfl, rfl⟩
    exact ⟨rfl, rfl⟩
  · rintro ⟨rfl, rfl⟩
    exact ⟨(), _, rfl, rfl, rfl⟩

theorem gives_settle {outcome : Except Error α} :
    Gives (settle outcome) before value after ↔ outcome = .ok value ∧ before = after := by
  unfold settle
  cases outcome with
  | error cause => simp [gives_fail]
  | ok given => simp [gives_pure]

end

section

variable {before after : Generator} {done : Unit}

theorem gives_emit {instr : Instruction} {index : Nat} :
    Gives (emit instr) before index after ↔ before.buffer.code.size = index ∧
      { before with buffer := before.buffer.emit instr } = after := by
  unfold emit
  rw [gives_get_bind]
  exact gives_modify_pure

theorem gives_allocateTemp {type : DataType} {reference : Bool} {address : Address} :
    Gives (allocateTemp type reference) before address after ↔ ∃ memory,
      before.tree.memory.allocate .temps type 1 reference = .ok (address, memory) ∧
      { before with tree := { before.tree with memory } } = after := by
  unfold allocateTemp
  simp only [gives_get_bind]
  constructor
  · intro gives
    split at gives
    · rename_i found memory allocated
      obtain ⟨rfl, rfl⟩ := gives_modify_pure.1 gives
      exact ⟨memory, allocated, rfl⟩
    · exact (gives_fail.1 gives).elim
  · rintro ⟨memory, allocated, rfl⟩
    rw [allocated]
    exact gives_modify_pure.2 ⟨rfl, rfl⟩

theorem gives_temp {type : DataType} {address : Address} :
    Gives (temp type) before address after ↔ ∃ memory,
      before.tree.memory.allocate .temps type 1 false = .ok (address, memory) ∧
      { before with tree := { before.tree with memory } } = after :=
  gives_allocateTemp

theorem gives_setTree {change : Scope.Tree → Scope.Tree} :
    Gives (setTree change) before done after ↔
      { before with tree := change before.tree } = after :=
  gives_modify

theorem gives_push {entry : Entry} :
    Gives (push entry) before done after ↔
      { before with operands := entry :: before.operands } = after :=
  gives_modify

theorem gives_pushName {name : PendingName} :
    Gives (pushName name) before done after ↔
      { before with names := name :: before.names } = after :=
  gives_modify

theorem gives_pop {entry : Entry} :
    Gives pop before entry after ↔ ∃ operands, before.operands = entry :: operands ∧
      { before with operands } = after := by
  unfold pop
  simp only [gives_get_bind]
  constructor
  · intro gives
    split at gives
    · exact (gives_fail.1 gives).elim
    · rename_i top operands found
      obtain ⟨rfl, rfl⟩ := gives_modify_pure.1 gives
      exact ⟨operands, found, rfl⟩
  · rintro ⟨operands, found, rfl⟩
    rw [found]
    exact gives_modify_pure.2 ⟨rfl, rfl⟩

theorem gives_onTree {α : Type} {operation : Scope.Tree → Except Scope.Error (α × Scope.Tree)}
    {value : α} :
    Gives (onTree operation) before value after ↔ ∃ tree,
      operation before.tree = .ok (value, tree) ∧ { before with tree } = after := by
  unfold onTree
  simp only [gives_get_bind]
  constructor
  · intro gives
    split at gives
    · rename_i given tree found
      obtain ⟨rfl, rfl⟩ := gives_modify_pure.1 gives
      exact ⟨tree, found, rfl⟩
    · exact (gives_fail.1 gives).elim
  · rintro ⟨tree, found, rfl⟩
    rw [found]
    exact gives_modify_pure.2 ⟨rfl, rfl⟩

theorem gives_onBuffer {operation : CodeBuffer → Except Code.Error Unit × CodeBuffer} :
    Gives (onBuffer operation) before done after ↔ ∃ buffer,
      operation before.buffer = (.ok (), buffer) ∧ { before with buffer } = after := by
  unfold onBuffer
  simp only [gives_bind, gives_get, gives_modify]
  constructor
  · rintro ⟨_, _, ⟨rfl, rfl⟩, _, _, rfl, gives⟩
    cases performed : operation before.buffer with
    | mk outcome buffer =>
      rw [performed] at gives
      cases outcome with
      | error cause => exact (gives_fail.1 gives).elim
      | ok _ =>
        obtain ⟨_, rfl⟩ := gives_pure.1 gives
        exact ⟨buffer, rfl, rfl⟩
  · rintro ⟨buffer, performed, rfl⟩
    refine ⟨_, _, ⟨rfl, rfl⟩, (), _, rfl, ?_⟩
    rw [performed]
    exact gives_pure.2 ⟨rfl, rfl⟩

end

end Generator

/-! ### Events -/

namespace Event

variable {before after : Generator}

theorem deliver_eq_ok {event : Event} (delivered : event.deliver before = (.ok (), after)) :
    ∃ command, event.command = .ok command ∧ Generator.Gives command.perform before () after := by
  unfold deliver at delivered
  split at delivered
  · cases delivered
  · rename_i command reads
    refine ⟨command, reads, ?_⟩
    split at delivered
    · rename_i performed
      cases delivered
      exact performed
    · cases delivered
    · cases delivered

end Event

namespace Transcript

/-- Events that are all delivered, one after the other. -/
inductive Delivers : List Event → Generator → Generator → Prop where
  | nil (generator : Generator) : Delivers [] generator generator
  | cons {event : Event} {events : List Event} {before between after : Generator}
      {command : Event.Command} (reads : event.command = .ok command)
      (performs : Generator.Gives command.perform before () between)
      (rest : Delivers events between after) : Delivers (event :: events) before after

theorem replay_eq_ok {position : Nat} {events : List Event}
    (replayed : replay position events before = (.ok (), after)) : Delivers events before after := by
  induction events generalizing position before with
  | nil =>
    cases replayed
    exact .nil _
  | cons event events ih =>
    unfold replay at replayed
    split at replayed
    · rename_i delivered
      obtain ⟨command, reads, performs⟩ := Event.deliver_eq_ok delivered
      exact .cons reads performs (ih replayed)
    · cases replayed
    · cases replayed

theorem Delivers.of_append {first second : List Event}
    (delivers : Delivers (first ++ second) before after) :
    ∃ between, Delivers first before between ∧ Delivers second between after := by
  induction first generalizing before with
  | nil => exact ⟨before, .nil before, delivers⟩
  | cons event events ih =>
    cases delivers with
    | cons reads performs rest =>
      obtain ⟨between, start, finish⟩ := ih rest
      exact ⟨between, .cons reads performs start, finish⟩

theorem declareNatives_eq_ok (declared : declareNatives before = (.ok (), after)) :
    Generator.Gives Generator.declareStandardNatives before () after := by
  unfold declareNatives at declared
  split at declared
  · rename_i performed
    cases declared
    exact performed
  · cases declared
  · cases declared

/-- The code of a transcript is what its events leave, after the host's functions if it has them. -/
theorem compile_eq_ok {transcript : Transcript} {capacities : Capacities} {code : Code}
    (compiled : transcript.compile capacities = .ok code) : ∃ prepared after,
      (transcript.natives = true ∧ Generator.Gives Generator.declareStandardNatives
          (.ofCapacities capacities) () prepared ∨
        transcript.natives = false ∧ prepared = .ofCapacities capacities) ∧
      Delivers transcript.events prepared after ∧ after.buffer.code = code := by
  unfold compile at compiled
  simp only [bind, Except.bind] at compiled
  split at compiled
  · rename_i natives
    split at compiled
    · rename_i prepared declared
      split at compiled
      · rename_i after replayed
        cases compiled
        exact ⟨prepared, after, .inl ⟨natives, declareNatives_eq_ok declared⟩,
          replay_eq_ok replayed, rfl⟩
      · cases compiled
    · cases compiled
  · rename_i natives
    split at compiled
    · rename_i after replayed
      cases compiled
      exact ⟨_, after, .inr ⟨Bool.eq_false_iff.2 natives, rfl⟩, replay_eq_ok replayed, rfl⟩
    · cases compiled

end Transcript

end Quadruple
