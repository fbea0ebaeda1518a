import Quadruple.Proofs.Cells
import Quadruple.Proofs.PlainMemory

/-!
The grid of arenas is a plain memory. Whatever is asked of the arenas, in any order and however
activations are nested, they answer as the plain memory for which they stand.
-/

namespace Quadruple

open Function (update)

/-- The column for which an arena stands; where there is none, every cell holds zero. -/
def Column.ofArena (type : DataType) (arena : Option Arena) : Column :=
  (arena.map fun arena => ⟨arena.get type, arena.cursor⟩).getD ⟨fun _ => .zero type, 0⟩

def Bank.columns (bank : Bank) : Plane :=
  fun type => .ofArena type (bank.arena? type)

def Frame.columns (frame : Frame) : Plane × Plane :=
  (frame.locals.columns, frame.temps.columns)

namespace Memory

def operations : Operations Memory where
  allocate := allocate
  reset := reset
  resetLocals := resetLocals
  snapshot := snapshot
  restore := restore
  load := load
  store := store

variable {memory : Memory} {capacities : Capacities} {area : Area} {type : DataType} {arena : Arena}

def plain (memory : Memory) : PlainMemory where
  columns := fun area type => .ofArena type (memory.arena? area type)
  saved := memory.frames.map Frame.columns

/-- Whether all arenas, those in use and those that are saved, have as many cells as was asked for, and
have handed out no more. -/
def Sized (memory : Memory) (capacities : Capacities) : Prop :=
  memory.Every fun area _ arena =>
    arena.capacity = capacities.cells area ∧ arena.cursor ≤ capacities.cells area

theorem column_eq (found : memory.arena? area type = some arena) :
    memory.plain.columns area type = ⟨arena.get type, arena.cursor⟩ :=
  congrArg (Column.ofArena type) found

theorem plain_setArena (found : memory.arena? area type = some arena) (changed : Arena) :
    (memory.setArena area type changed).plain =
      memory.plain.setColumn area type ⟨changed.get type, changed.cursor⟩ := by
  unfold plain PlainMemory.setColumn
  rw [frames_setArena]
  refine congrArg (PlainMemory.mk · _) (funext₂ fun area' type' => ?_)
  rw [arena?_setArena found]
  by_cases here : area' = area
  · subst here
    by_cases same : type' = type
    · subst same
      simp only [Function.update_self, and_self, if_true]
      rfl
    · simp only [same, Function.update_self, Function.update_of_ne same, and_false, if_false]
  · simp only [here, Function.update_of_ne here, false_and, if_false]

theorem limit_eq (sized : memory.Sized capacities) (area : Area) (type : DataType) :
    PlainMemory.limit capacities area type =
      memory.arena area type >>= fun arena => .ok arena.capacity := by
  have present := memory.arena?_isSome area type
  unfold PlainMemory.limit Memory.arena
  rw [← present]
  cases found : memory.arena? area type with
  | none => rfl
  | some arena => rw [Option.isSome_some, if_pos rfl, ← (sized.arenas area type arena found).1]; rfl

theorem arena?_resetLocals (memory : Memory) (area : Area) (type : DataType) :
    memory.resetLocals.arena? area type =
      if area.isFramed then (memory.arena? area type).map Arena.reset else memory.arena? area type := by
  cases area <;> cases type <;> rfl

theorem Sized.setArena (sized : memory.Sized capacities)
    (found : memory.arena? area type = some arena) {changed : Arena}
    (capacity : changed.capacity = arena.capacity) (cursor : changed.cursor ≤ arena.capacity) :
    (memory.setArena area type changed).Sized capacities := by
  have size := (sized.arenas area type arena found).1
  exact Every.setArena sized found ⟨capacity.trans size, size ▸ cursor⟩

theorem Sized.resetLocals (sized : memory.Sized capacities) : memory.resetLocals.Sized capacities := by
  refine Every.mk (fun area type arena found => ?_) sized.saved
  rw [arena?_resetLocals] at found
  split at found
  · obtain ⟨former, here, rfl⟩ := Option.map_eq_some_iff.1 found
    exact ⟨(sized.arenas area type former here).1, Nat.zero_le _⟩
  · exact sized.arenas area type arena found

/-! ### Agreement -/

/-- Outcomes of arenas and of the plain memory: the same error, or the same answer with arenas that stand
for the new plain memory. -/
inductive Agrees (capacities : Capacities) :
    Except Error (Answer × Memory) → Except Error (Answer × PlainMemory) → Prop where
  | ok {after : Memory} (answer : Answer) (sized : after.Sized capacities) :
      Agrees capacities (.ok (answer, after)) (.ok (answer, after.plain))
  | error (cause : Error) : Agrees capacities (.error cause) (.error cause)

/-- Arenas answer a request as their plain memory does. -/
def Simulates (capacities : Capacities) (memory : Memory) (request : Request) : Prop :=
  Agrees capacities (operations.attempt memory request)
    ((PlainMemory.operations capacities).attempt memory.plain request)

theorem plain_setCursor (found : memory.arena? area type = some arena) (cursor : Nat) :
    (memory.setArena area type { arena with cursor }).plain = memory.plain.setCursor area type cursor := by
  rw [plain_setArena found, PlainMemory.setCursor, column_eq found]
  rfl

theorem plain_setCell {address : Address} (found : memory.arena? address.area address.type = some arena)
    (value : Value) :
    (memory.setArena address.area address.type
      (arena.put address.type address.offset.toNat value)).plain = memory.plain.setCell address value := by
  have written : (arena.put address.type address.offset.toNat value).get address.type =
      update (arena.get address.type) address.offset.toNat value := by
    funext offset
    rw [Arena.get_put, Function.update_apply]
  rw [plain_setArena found, written, Arena.cursor_put, PlainMemory.setCell, column_eq found]

section

variable (sized : memory.Sized capacities)
include sized

theorem agrees_within {α β : Type} {use : Arena → Except Error α} {use' : Nat → Except Error β}
    {change : α → Answer × Memory} {change' : β → Answer × PlainMemory}
    (agrees : ∀ arena, memory.arena? area type = some arena →
      Agrees capacities ((use arena).map change) ((use' arena.capacity).map change')) :
    Agrees capacities ((memory.arena area type >>= use).map change)
      ((PlainMemory.limit capacities area type >>= use').map change') := by
  rw [limit_eq sized, Memory.arena]
  cases found : memory.arena? area type with
  | none => exact .error _
  | some arena => exact agrees arena found

theorem simulates_allocate (area : Area) (type : DataType) (size : Int) (reference : Bool) :
    memory.Simulates capacities (.allocate area type size reference) := by
  refine agrees_within sized fun arena found => ?_
  have count : (if size < 1 then 1 else size) = max size 1 := by split <;> omega
  have whole : (if size < 1 then 1 else size.toNat) = (max size 1).toNat := by split <;> omega
  simp only [column_eq found, count, whole]
  by_cases full : arena.cursor + (max size 1).toNat > arena.capacity
  · rw [if_pos full, if_neg (by omega)]
    exact .error _
  · rw [if_neg full, if_pos (by omega), ← plain_setCursor found]
    exact .ok _ (sized.setArena found rfl (Nat.not_lt.1 full))

theorem simulates_reset (area : Area) (type : DataType) :
    memory.Simulates capacities (.reset area type) := by
  refine agrees_within sized fun arena found => ?_
  rw [← plain_setCursor found]
  exact .ok _ (sized.setArena found rfl (Nat.zero_le _))

theorem simulates_load (address : Address) : memory.Simulates capacities (.load address) := by
  refine agrees_within sized fun arena found => ?_
  simp only [PlainMemory.cell, column_eq found]
  split
  · exact .ok _ sized
  · exact .error _

theorem simulates_store (address : Address) (value : Value) :
    memory.Simulates capacities (.store address value) := by
  refine agrees_within sized fun arena found => ?_
  split
  · rw [← plain_setCell found]
    obtain ⟨size, cursor⟩ := sized.arenas _ _ arena found
    exact .ok _ (sized.setArena found (Arena.capacity_put ..) (size ▸ cursor))
  · exact .error _

end

theorem plain_resetLocals (memory : Memory) : memory.resetLocals.plain = memory.plain.resetLocals := by
  refine congrArg (PlainMemory.mk · _) (funext₂ fun area type => ?_)
  rw [arena?_resetLocals]
  split
  · cases found : memory.arena? area type <;> simp only [plain, found] <;> rfl
  · rfl

theorem plain_restored (memory : Memory) (frame : Frame) (frames : List Frame) :
    Memory.plain { memory with locals := frame.locals, temps := frame.temps, frames } =
      memory.plain.givenBack frame.columns (frames.map Frame.columns) := by
  refine congrArg (PlainMemory.mk · _) (funext fun area => ?_)
  cases area <;> rfl

section

variable (sized : memory.Sized capacities)
include sized

theorem simulates_restore : memory.Simulates capacities .restore := by
  simp only [Simulates, Operations.attempt, operations, PlainMemory.operations, restore,
    PlainMemory.restore]
  have records : memory.plain.saved = memory.frames.map Frame.columns := rfl
  rw [records]
  cases saved : memory.frames with
  | nil => exact .error _
  | cons frame frames =>
    simp only [List.map_cons, Except.map]
    rw [← plain_restored]
    exact .ok _ (sized.restore (by rw [restore, saved]))

theorem simulates (request : Request) : memory.Simulates capacities request := by
  cases request with
  | allocate area type size reference => exact simulates_allocate sized area type size reference
  | reset area type => exact simulates_reset sized area type
  | resetLocals =>
    have agrees := Agrees.ok .done sized.resetLocals
    rw [plain_resetLocals] at agrees
    exact agrees
  | snapshot =>
    exact Agrees.ok .done sized.snapshot
  | restore => exact simulates_restore sized
  | load address => exact simulates_load sized address
  | store address value => exact simulates_store sized address value

theorem perform_plain (request : Request) :
    (operations.perform memory request).1 =
        ((PlainMemory.operations capacities).perform memory.plain request).1 ∧
      (operations.perform memory request).2.plain =
        ((PlainMemory.operations capacities).perform memory.plain request).2 ∧
      (operations.perform memory request).2.Sized capacities := by
  have agrees : Agrees _ _ _ := simulates sized request
  unfold Operations.perform
  generalize operations.attempt memory request = outcome at agrees
  generalize (PlainMemory.operations capacities).attempt memory.plain request = expected at agrees
  cases agrees with
  | ok answer sized | error cause => exact ⟨rfl, rfl, sized⟩

/-- All answers are those of the plain memory, and the arenas stand for it in the end. -/
theorem answers_plain (requests : List Request) :
    operations.answers memory requests =
        (PlainMemory.operations capacities).answers memory.plain requests ∧
      (operations.after memory requests).plain =
        (PlainMemory.operations capacities).after memory.plain requests ∧
      (operations.after memory requests).Sized capacities := by
  induction requests generalizing memory with
  | nil => exact ⟨rfl, rfl, sized⟩
  | cons request rest ih =>
    obtain ⟨answer, state, sized⟩ := perform_plain sized request
    obtain ⟨answers, last, sized⟩ := ih sized
    rw [state] at answers last
    refine ⟨?_, last, sized⟩
    rw [Operations.answers, Operations.answers, answer, answers]

end

/-- Every arena of a new memory has the cells that were asked for. -/
theorem sized_ofCapacities (capacities : Capacities) :
    (ofCapacities capacities).Sized capacities := by
  refine Every.mk (fun area type arena found => ?_) nofun
  have made : ∃ requested, arena = .ofCapacity requested ∧
      capacities.cells area = Capacities.cells.atMost requested := by
    cases area <;> cases type <;> cases found <;> exact ⟨_, rfl, rfl⟩
  obtain ⟨requested, rfl, cells⟩ := made
  refine ⟨?_, Nat.zero_le _⟩
  rw [cells, Capacities.cells.atMost, Arena.ofCapacity]
  simp only [Bool.or_eq_true, decide_eq_true_eq]
  split <;> split <;> omega

theorem plain_ofCapacities (capacities : Capacities) :
    (ofCapacities capacities).plain = PlainMemory.blank := by
  refine congrArg (PlainMemory.mk · _) (funext₂ fun area type => ?_)
  cases found : (ofCapacities capacities).arena? area type with
  | none => rfl
  | some arena =>
    obtain ⟨_, cursor, cells⟩ := arena?_ofCapacities found
    have zeros : arena.get type = fun _ => .zero type := by
      funext offset
      rw [Arena.get_eq, cells]
      rfl
    simp [Column.ofArena, zeros, cursor]

/-! ### Records -/

theorem perform_restore {frame : Frame} {frames : List Frame} (saved : memory.frames = frame :: frames) :
    operations.perform memory .restore =
      (.ok .done, { memory with locals := frame.locals, temps := frame.temps, frames }) := by
  simp only [Operations.perform, Operations.attempt, operations, restore, saved, Except.map]

theorem perform_restore_nil (none_ : memory.frames = []) :
    operations.perform memory .restore = (.error .noFrame, memory) := by
  simp only [Operations.perform, Operations.attempt, operations, restore, none_, Except.map]

theorem framed : operations.Framed (fun memory => Frame.mk memory.locals memory.temps) frames where
  snapshot := fun _ => rfl
  restore := by
    intro memory
    cases saved : memory.frames with
    | nil => rw [perform_restore_nil saved, saved, List.tail_nil]
    | cons => rw [perform_restore saved, List.tail_cons]
  other := by
    intro memory request notSaved notGiven
    refine operations.perform_keeps (fun after => after.frames = memory.frames) rfl
      fun answer after done => ?_
    cases request with
    | allocate =>
      obtain ⟨_, allocated, ⟨⟩⟩ := map_eq_ok.1 done
      exact frames_allocate allocated
    | reset =>
      obtain ⟨_, rewound, ⟨⟩⟩ := map_eq_ok.1 done
      obtain ⟨arena, _, ⟨⟩⟩ := bind_eq_ok.1 rewound
      exact memory.frames_setArena ..
    | resetLocals =>
      cases done
      rfl
    | snapshot => exact absurd rfl notSaved
    | restore => exact absurd rfl notGiven
    | load =>
      obtain ⟨_, _, ⟨⟩⟩ := map_eq_ok.1 done
      rfl
    | store =>
      obtain ⟨_, stored, ⟨⟩⟩ := map_eq_ok.1 done
      exact frames_store stored

/-! ### Runs -/

def reached (capacities : Capacities) (requests : List Request) : Memory :=
  operations.after (ofCapacities capacities) requests

theorem sized_reached (capacities : Capacities) (requests : List Request) :
    (reached capacities requests).Sized capacities :=
  (answers_plain (sized_ofCapacities capacities) requests).2.2

theorem plain_reached (capacities : Capacities) (requests : List Request) :
    (reached capacities requests).plain =
      (PlainMemory.operations capacities).after .blank requests := by
  rw [← plain_ofCapacities capacities]
  exact (answers_plain (sized_ofCapacities capacities) requests).2.1

theorem perform_reached (capacities : Capacities) (requests : List Request) (request : Request) :
    (operations.perform (reached capacities requests) request).1 =
      ((PlainMemory.operations capacities).perform
        ((PlainMemory.operations capacities).after .blank requests) request).1 := by
  rw [← plain_reached]
  exact (perform_plain (sized_reached capacities requests) request).1

/-- Arenas are a plain memory, whatever capacities are asked for and whatever requests are made. Every
answer, errors included, is that of the plain memory, for which the arenas stand all the time. So a load
finds what was stored last in its cell, by whatever mark it is addressed: that no other store to the cell
came in between is enough outside of activations, and inside them that what came in between is nested.
Each record that is given back was saved by one request; after anything that is nested it brings back the
very arenas of an activation, with the cells they had then and no others, and changes nothing else. What
the plain memory grants is done, and what it does not grant fails and changes nothing. -/
theorem arenas_are_plain_memory (capacities : Capacities) (requests : List Request) :
    operations.answers (ofCapacities capacities) requests =
        (PlainMemory.operations capacities).answers .blank requests ∧
    (reached capacities requests).plain = (PlainMemory.operations capacities).after .blank requests ∧
    (∀ (address : Address) (value : Value) (answer : Answer) (between : List Request)
      (reference : Bool),
      (operations.perform (reached capacities requests) (.store address value)).1 = .ok answer →
      (∀ other written, Request.store other written ∈ between → other.plain ≠ address.plain) →
      (address.area.isFramed = true → Nested between) →
      (operations.perform (reached capacities (requests ++ .store address value :: between))
        (.load (address.withReference reference))).1 = .ok (.value value)) ∧
    (∀ answer : Answer,
      (operations.perform (reached capacities requests) .restore).1 = .ok answer →
      ∃ earlier between, requests = earlier ++ .snapshot :: between ∧ Nested between ∧
        reached capacities (requests ++ [.restore]) =
          { reached capacities requests with
            locals := (reached capacities earlier).locals
            temps := (reached capacities earlier).temps
            frames := (reached capacities earlier).frames }) ∧
    (∀ request answer after, (reached capacities requests).plain.Grants capacities request answer after →
      (operations.perform (reached capacities requests) request).1 = .ok answer ∧
        (reached capacities (requests ++ [request])).plain = after) ∧
    ∀ request,
      (¬ ∃ answer after, (reached capacities requests).plain.Grants capacities request answer after) →
      ∃ cause, operations.perform (reached capacities requests) request =
        (.error cause, reached capacities requests) := by
  refine ⟨?_, plain_reached capacities requests, ?_, ?_, fun request answer after grants => ?_,
    fun request refused => ?_⟩
  · rw [← plain_ofCapacities capacities]
    exact (answers_plain (sized_ofCapacities capacities) requests).1
  · intro address value answer between reference stored unstored nested
    rw [perform_reached] at stored ⊢
    rw [Operations.after_append]
    exact PlainMemory.perform_load_last stored unstored nested reference
  · intro answer given
    have unused : (ofCapacities capacities).frames = [] := rfl
    rcases framed.matching unused requests with none_ | ⟨earlier, between, same, nested, saved⟩
    · rw [reached, perform_restore_nil none_] at given
      cases given
    · refine ⟨earlier, between, same, nested, ?_⟩
      rw [reached, Operations.after_concat, perform_restore saved]
      rfl
  · obtain ⟨answers, state, _⟩ := perform_plain (sized_reached capacities requests) request
    rw [grants.perform] at answers state
    refine ⟨answers, ?_⟩
    rw [reached, Operations.after_concat]
    exact state
  · cases done : operations.attempt (reached capacities requests) request with
    | error cause => exact ⟨cause, by rw [Operations.perform, done]⟩
    | ok given =>
      have answers := (perform_plain (sized_reached capacities requests) request).1
      rw [Operations.perform_eq _ done] at answers
      exact absurd ⟨_, _, PlainMemory.attempt_eq_ok.1 (Operations.attempt_eq _ answers.symm)⟩ refused

/-- A cell of an activation is stored to again inside a nested one, and another behind it, before which
zeros are filled in. When the activation ends, all this is undone; then there is no record left to give
back. -/
theorem nested_activation_answers :
    operations.answers (ofCapacities { locals := 4 })
      [.store ⟨.locals, .int, true, 0⟩ (.int 7), .snapshot, .store ⟨.locals, .int, false, 0⟩ (.int 9),
        .store ⟨.locals, .int, false, 3⟩ (.int 8), .load ⟨.locals, .int, false, 2⟩, .store .origin (.int 5),
        .allocate .locals .int 1 false, .restore, .load ⟨.locals, .int, false, 0⟩,
        .load ⟨.locals, .int, false, 3⟩, .load .origin, .allocate .locals .int 1 false, .restore,
        .load ⟨.locals, .int, false, 4⟩] =
      [.ok .done, .ok .done, .ok .done, .ok .done, .ok (.value (.int 0)), .ok .done,
        .ok (.address ⟨.locals, .int, false, 0⟩), .ok .done, .ok (.value (.int 7)),
        .ok (.value (.int 0)), .ok (.value (.int 5)), .ok (.address ⟨.locals, .int, false, 0⟩),
        .error .noFrame, .error (.readOutside ⟨.locals, .int, false, 4⟩ 4)] :=
  (arenas_are_plain_memory { locals := 4 } _).1.trans rfl

end Memory

end Quadruple
