import Quadruple.Image.Basic

/-!
Which native functions an image may call. What counts is what its instructions call, not what the
image declares.
-/

namespace Quadruple.Image

structure Policy where
  /-- The only natives allowed, if they are restricted at all. -/
  allowed : Option (List String) := none
  denied : List String := []

namespace Policy

inductive Violation where
  | denied (native : String)
  | notAllowed (native : String)
deriving DecidableEq

def Violation.report : Violation → Report
  | denied native => .plain ("image: native " ++ Text.quoted native ++ " is explicitly denied")
  | notAllowed native => .plain ("image: native " ++ Text.quoted native ++ " is not allowed")

def checkNative (policy : Policy) (native : String) : Except Violation Unit :=
  if policy.denied.contains native then .error (.denied native)
  else if policy.allowed.all (·.contains native) then .ok ()
  else .error (.notAllowed native)

def check (policy : Policy) (image : Image) : Except Violation Unit :=
  (calledNatives image.records).forM policy.checkNative

end Policy

end Quadruple.Image
