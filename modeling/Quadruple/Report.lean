import Quadruple.Text.Numeral

/-!
What a failure tells its caller: a kind to decide by, and a message that starts with the kind's
name. A failure of no particular kind has a message only.
-/

namespace Quadruple

/-- The kinds of failure, by which a caller decides whether to go on. -/
inductive ErrorKind where
  | plain
  | redeclaration
  | unresolvedAlias
  | dimensionMismatch
  | typeError
  | allocationExhausted
  | structuralJump
  | activationImbalance
  | runtime
  | reserved (code : UInt8) (unassigned : 9 ≤ code)
deriving DecidableEq

namespace ErrorKind

def code : ErrorKind → UInt8
  | plain => 0
  | redeclaration => 1
  | unresolvedAlias => 2
  | dimensionMismatch => 3
  | typeError => 4
  | allocationExhausted => 5
  | structuralJump => 6
  | activationImbalance => 7
  | runtime => 8
  | reserved code _ => code

def ofCode (code : UInt8) : ErrorKind :=
  if free : 9 ≤ code then reserved code free
  else
    match code with
    | 1 => redeclaration
    | 2 => unresolvedAlias
    | 3 => dimensionMismatch
    | 4 => typeError
    | 5 => allocationExhausted
    | 6 => structuralJump
    | 7 => activationImbalance
    | 8 => runtime
    | _ => plain

def name : ErrorKind → String
  | plain => "error"
  | redeclaration => "redeclaration"
  | unresolvedAlias => "unresolved alias"
  | dimensionMismatch => "dimension mismatch"
  | typeError => "type error"
  | allocationExhausted => "allocation exhausted"
  | structuralJump => "structural jump error"
  | activationImbalance => "activation imbalance"
  | runtime => "runtime error"
  | reserved code _ => "Kind(" ++ Text.digits 10 code.toNat ++ ")"

def distinguished : List ErrorKind :=
  [redeclaration, unresolvedAlias, dimensionMismatch, typeError, allocationExhausted,
    structuralJump, activationImbalance, runtime]

end ErrorKind

structure Report where
  kind : ErrorKind
  message : String
deriving DecidableEq

namespace Report

/-- A failure of a kind; the detail, if there is one, follows the kind's name. -/
def of (kind : ErrorKind) (detail : String) : Report :=
  ⟨kind, if detail = "" then kind.name else kind.name ++ ": " ++ detail⟩

def plain (message : String) : Report :=
  ⟨.plain, message⟩

def within (context : String) (report : Report) : Report :=
  { report with message := context ++ ": " ++ report.message }

end Report

end Quadruple
