import Quadruple.Generator.Declaration

/-!
The functions that every host provides.
-/

namespace Quadruple.Generator

/-- A function of the host: its name, the type of its value and the types of its arguments. -/
structure NativeSignature where
  name : String
  returns : DataType
  parameters : List DataType

def standardNatives : List NativeSignature :=
  [⟨"write", .void, [.string]⟩,
    ⟨"read", .string, [.string]⟩,
    ⟨"putchar", .void, [.string]⟩,
    ⟨"clear_console", .void, []⟩,
    ⟨"cursor_home", .void, []⟩,
    ⟨"sin", .float, [.float]⟩,
    ⟨"cos", .float, [.float]⟩,
    ⟨"sqrt", .float, [.float]⟩,
    ⟨"pow", .float, [.float, .float]⟩,
    ⟨"f2i", .int, [.float]⟩,
    ⟨"str_len", .int, [.string]⟩,
    ⟨"str_to_int", .int, [.string]⟩,
    ⟨"str_to_float", .float, [.string]⟩]

/-- The arguments of a host function are named by the letters from `a` on. -/
def parameterName (position : Nat) : String :=
  String.singleton (Char.ofNat ('a'.toNat + position))

def declareSignature (signature : NativeSignature) : Action Unit := do
  declareNative signature.name signature.returns
  for (parameter, position) in signature.parameters.zipIdx do
    declareArgument (parameterName position) parameter []
  closeFunction

def declareStandardNatives : Action Unit :=
  standardNatives.forM declareSignature

end Quadruple.Generator
