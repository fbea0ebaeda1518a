import Quadruple.Machine.Step

/-!
Runs of a program. Since a program may never halt, a run is followed for a number of steps.
-/

namespace Quadruple.Machine

inductive Outcome where
  | halted
  | failed (error : Error)
  | unfinished

/-- Runs until the machine halts or an instruction fails, for at most the given number of steps. -/
def run : Nat → Machine → Outcome × Machine
  | 0, machine => (if machine.halted then .halted else .unfinished, machine)
  | more + 1, machine =>
    if machine.halted then (.halted, machine)
    else
      match machine.step with
      | (.ok (), after) => run more after
      | (.error error, after) => (.failed error, after)

def cancel (machine : Machine) : Outcome × Machine :=
  if machine.halted then (.halted, machine) else (.failed (.cancelled machine.position), machine)

end Quadruple.Machine
