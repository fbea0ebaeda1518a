/-!
A worker does one job after the other. A job that breaks down fails like any other, and the worker
goes on with the next.
-/

namespace Quadruple.Server

inductive Job (α : Type) where
  | value (result : α)
  | failure (message : String)
  | breakdown (message : String)

def Job.perform {α : Type} : Job α → Except String α
  | value result => .ok result
  | failure message => .error message
  | breakdown message => .error message

def performAll {α : Type} (jobs : List (Job α)) : List (Except String α) :=
  jobs.map Job.perform

end Quadruple.Server
