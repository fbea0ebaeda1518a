import Quadruple.Code.Opcode
import Std.Data.TreeMap

/-!
Counts of executed opcodes and of the calls of each function. A function is hot once it has been
called as often as the threshold says.
-/

namespace Quadruple

open Std

structure FunctionProfile where
  invocations : Nat := 0
  isHot : Bool := false

structure Profile where
  threshold : Nat
  /-- How often each opcode was executed, by its code. -/
  opcodes : TreeMap Nat Nat
  /-- The functions that were called, by the instruction at which they start. -/
  calls : TreeMap Int FunctionProfile
  /-- How many functions have become hot. -/
  hot : Nat := 0

namespace Profile

def defaultThreshold : Nat := 100

def ofThreshold (threshold : Nat) : Profile :=
  { threshold, opcodes := ∅, calls := ∅ }

def recordOpcode (profile : Profile) (opcode : Opcode) : Profile :=
  { profile with
    opcodes := profile.opcodes.alter opcode.code.toNat fun count => some (count.getD 0 + 1) }

def function (profile : Profile) (entry : Int) : FunctionProfile :=
  (profile.calls[entry]?).getD {}

def invocations (profile : Profile) (entry : Int) : Nat :=
  (profile.function entry).invocations

def becomesHot (profile : Profile) (entry : Int) : Bool :=
  let function := profile.function entry
  !function.isHot && profile.threshold ≤ function.invocations + 1

def recordCall (profile : Profile) (entry : Int) : Profile :=
  let function := profile.function entry
  let becomes := profile.becomesHot entry
  { profile with
    calls := profile.calls.insert entry
      { invocations := function.invocations + 1, isHot := function.isHot || becomes }
    hot := if becomes then profile.hot + 1 else profile.hot }

/-- The executed opcodes with their counts, the most frequent first; of equally frequent ones the
one with the smaller code. -/
def histogram (profile : Profile) : List (Opcode × Nat) :=
  let rows := profile.opcodes.toList.map fun (code, count) => (Opcode.ofCode (UInt8.ofNat code), count)
  rows.mergeSort fun first second =>
    second.2 < first.2 || (first.2 = second.2 && first.1.code ≤ second.1.code)

def instructions (profile : Profile) : Nat :=
  profile.opcodes.toList.foldl (fun total row => total + row.2) 0

def functions (profile : Profile) : Nat :=
  profile.calls.size

def totalCalls (profile : Profile) : Nat :=
  profile.calls.toList.foldl (fun total row => total + row.2.invocations) 0

def hotEntries (profile : Profile) : List Int :=
  (profile.calls.toList.filter fun (_, function) => function.isHot).map Prod.fst

end Profile

end Quadruple
