import Quadruple.Image.Basic
import Quadruple.Optimization

/-!
Optimizing the program of an image. An operand that is left as it was keeps its record, with
everything that the record says beyond what the operand's kind uses.
-/

namespace Quadruple

def OperandRecord.revised (record : OperandRecord) (operand : Operand) : OperandRecord :=
  if record.toOperand = operand then record else .ofOperand operand

/-- The record of an instruction that was made of the recorded one. A target is always a new one. -/
def InstructionRecord.revised (record : InstructionRecord) (instruction : Instruction) :
    InstructionRecord where
  opcode := instruction.opcode
  left := record.left.revised instruction.left
  right := record.right.revised instruction.right
  result :=
    if instruction.opcode.hasTarget then .ofOperand instruction.result
    else record.result.revised instruction.result

namespace Image

def revisedRecord (records : List InstructionRecord) (item : FlowGraph.Item)
    (instruction : Instruction) : InstructionRecord :=
  match item with
  | .node index =>
    ((records[index]?).map fun record => record.revised instruction).getD (.ofInstruction instruction)
  | _ => .ofInstruction instruction

def revisedRecords (records : List InstructionRecord) (graph : FlowGraph) :
    List InstructionRecord :=
  (graph.items.zip graph.toCode.toList).map fun (item, instruction) =>
    revisedRecord records item instruction

def optimize (image : Image) (options : Optimization.Options) :
    Except FlowGraph.Error (Image × Optimization.Stats) := do
  let (final, stats) ← Optimization.reduce image.code options
  return (.ofRecords image.name (revisedRecords image.records final) true, stats)

end Image

end Quadruple
