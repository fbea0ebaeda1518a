import Quadruple.Code.Instruction
import Quadruple.Text.Columns

/-!
Numbered listings of programs, with the parts of the instructions in columns.
-/

namespace Quadruple

def listing (code : Code) : String :=
  Text.aligned <| String.join <| code.toList.zipIdx.map fun (instruction, index) =>
    Text.zeroPadded 4 index ++ "\t" ++ instruction.tabbed ++ "\n"

end Quadruple
