import Quadruple.Value

/-!
Storage for values: an arena of cells for each area and type, and a stack of activation records.
Compilation uses the cursors, which hand out fresh cells; execution uses the cells. An activation
record keeps copies of the arenas of the running function's variables and intermediate results, cursors
and cells alike, and gives them back, with as many cells as there were then.
-/

namespace Quadruple

/-- The cells of one area and type. There are only as many as stores have asked for so far; the others, up
to the capacity, read as their type's zero. -/
structure Arena where
  capacity : Nat
  cursor : Nat
  cells : Array Value

namespace Arena

def ofCapacity (requested : Nat) : Arena :=
  { capacity :=
      if requested = 0 || Address.defaultCapacity < requested then Address.defaultCapacity
      else requested
    cursor := 0
    cells := #[] }

def get (arena : Arena) (type : DataType) (offset : Nat) : Value :=
  if there : offset < arena.cells.size then arena.cells[offset] else .zero type

/-- Appends a number of cells that hold the same value. -/
def fill (value : Value) : Nat → Array Value → Array Value
  | 0, cells => cells
  | count + 1, cells => fill value count (cells.push value)

/-- Stores to a cell. If it is not there yet, it is added, with zeros for the cells before it. -/
def put (arena : Arena) (type : DataType) (offset : Nat) (value : Value) : Arena :=
  let cells :=
    if offset < arena.cells.size then arena.cells
    else fill (.zero type) (offset + 1 - arena.cells.size) arena.cells
  { arena with cells := cells.setIfInBounds offset value }

def reset (arena : Arena) : Arena :=
  { arena with cursor := 0 }

end Arena

structure Bank where
  ints : Arena
  floats : Arena
  strings : Arena
  objects : Arena
  bools : Arena

namespace Bank

def ofCapacity (requested : Nat) : Bank :=
  let arena := Arena.ofCapacity requested
  ⟨arena, arena, arena, arena, arena⟩

def arena? (bank : Bank) : DataType → Option Arena
  | .int => some bank.ints
  | .float => some bank.floats
  | .string => some bank.strings
  | .object => some bank.objects
  | .bool => some bank.bools
  | .void | .reserved .. => none

/-- Replaces the arena of a type; a type without storage has none to replace. -/
def setArena (bank : Bank) (type : DataType) (arena : Arena) : Bank :=
  match type with
  | .int => { bank with ints := arena }
  | .float => { bank with floats := arena }
  | .string => { bank with strings := arena }
  | .object => { bank with objects := arena }
  | .bool => { bank with bools := arena }
  | .void | .reserved .. => bank

def reset (bank : Bank) : Bank :=
  ⟨bank.ints.reset, bank.floats.reset, bank.strings.reset, bank.objects.reset, bank.bools.reset⟩

end Bank

/-- The part of the storage that belongs to one activation of a function. -/
structure Frame where
  locals : Bank
  temps : Bank

structure Memory where
  global : Bank
  locals : Bank
  temps : Bank
  stack : Bank
  frames : List Frame

/-- Cells per arena in each area; zero asks for all possible ones. -/
structure Capacities where
  global : Nat := 0
  locals : Nat := 0
  temps : Nat := 0
  stack : Nat := 0
deriving DecidableEq

namespace Memory

inductive Error where
  | noArena (area : Area) (type : DataType)
  | full (area : Area) (type : DataType) (used capacity : Nat) (requested : Int)
  | readOutside (address : Address) (capacity : Nat)
  | writeOutside (address : Address) (capacity : Nat)
  | noFrame

def Error.report : Error → Report
  | noArena area type => .plain ("no arena for " ++ area.name ++ " " ++ type.name)
  | full area type used capacity requested =>
    .of .allocationExhausted (area.name ++ " " ++ type.name ++ " arena full: " ++
      Text.digits 10 used ++ " of " ++ Text.digits 10 capacity ++ " cells used, requested " ++
      Text.decimal requested)
  | readOutside address capacity =>
    .of .allocationExhausted ("read of " ++ address.plain.text ++ " outside arena capacity " ++
      Text.digits 10 capacity)
  | writeOutside address capacity =>
    .of .allocationExhausted ("write of " ++ address.plain.text ++ " outside arena capacity " ++
      Text.digits 10 capacity)
  | noFrame => .of .activationImbalance "restore without a saved activation record"

def ofCapacities (capacities : Capacities) : Memory :=
  { global := .ofCapacity capacities.global
    locals := .ofCapacity capacities.locals
    temps := .ofCapacity capacities.temps
    stack := .ofCapacity capacities.stack
    frames := [] }

def bank? (memory : Memory) : Area → Option Bank
  | .global => some memory.global
  | .locals => some memory.locals
  | .temps => some memory.temps
  | .stack => some memory.stack
  | .reserved .. => none

/-- Replaces the arenas of an area; an area without storage has none to replace. -/
def setBank (memory : Memory) (area : Area) (bank : Bank) : Memory :=
  match area with
  | .global => { memory with global := bank }
  | .locals => { memory with locals := bank }
  | .temps => { memory with temps := bank }
  | .stack => { memory with stack := bank }
  | .reserved .. => memory

def arena? (memory : Memory) (area : Area) (type : DataType) : Option Arena :=
  (memory.bank? area).bind fun bank => bank.arena? type

def setArena (memory : Memory) (area : Area) (type : DataType) (arena : Arena) : Memory :=
  match memory.bank? area with
  | none => memory
  | some bank => memory.setBank area (bank.setArena type arena)

def arena (memory : Memory) (area : Area) (type : DataType) : Except Error Arena :=
  match memory.arena? area type with
  | none => .error (.noArena area type)
  | some arena => .ok arena

def allocate (memory : Memory) (area : Area) (type : DataType) (size : Int) (reference : Bool) :
    Except Error (Address × Memory) := do
  let arena ← memory.arena area type
  let count := if size < 1 then 1 else size.toNat
  if arena.cursor + count > arena.capacity then
    .error (.full area type arena.cursor arena.capacity (if size < 1 then 1 else size))
  else
    .ok (⟨area, type, reference, UInt32.ofNat arena.cursor⟩,
      memory.setArena area type { arena with cursor := arena.cursor + count })

/-- Rewinds the cursors of the running function's variables and intermediate results. The cells
keep what they hold. -/
def resetLocals (memory : Memory) : Memory :=
  { memory with locals := memory.locals.reset, temps := memory.temps.reset }

def reset (memory : Memory) (area : Area) (type : DataType) : Except Error Memory := do
  let arena ← memory.arena area type
  .ok (memory.setArena area type arena.reset)

def snapshot (memory : Memory) : Memory :=
  { memory with frames := ⟨memory.locals, memory.temps⟩ :: memory.frames }

def restore (memory : Memory) : Except Error Memory :=
  match memory.frames with
  | [] => .error .noFrame
  | frame :: frames => .ok { memory with locals := frame.locals, temps := frame.temps, frames }

def depth (memory : Memory) : Nat :=
  memory.frames.length

/-- Reads a cell. The reference mark makes no difference. -/
def load (memory : Memory) (address : Address) : Except Error Value := do
  let arena ← memory.arena address.area address.type
  if address.offset.toNat < arena.capacity then .ok (arena.get address.type address.offset.toNat)
  else .error (.readOutside address arena.capacity)

/-- Writes a cell. The reference mark makes no difference. -/
def store (memory : Memory) (address : Address) (value : Value) : Except Error Memory := do
  let arena ← memory.arena address.area address.type
  if address.offset.toNat < arena.capacity then
    .ok (memory.setArena address.area address.type
      (arena.put address.type address.offset.toNat value))
  else .error (.writeOutside address arena.capacity)

def grid : List (Area × DataType) :=
  [Area.global, .locals, .temps, .stack].flatMap fun area =>
    [DataType.int, .float, .string, .object, .bool].map fun type => (area, type)

def cursors (memory : Memory) : List (Area × DataType × Nat) :=
  grid.filterMap fun (area, type) =>
    match memory.arena? area type with
    | some arena => if arena.cursor = 0 then none else some (area, type, arena.cursor)
    | none => none

end Memory

end Quadruple
