import Quadruple.Text.Bytes

/-!
What a command does to the world around it: it reads and writes files, makes directories, looks at
the clock and uses three streams of text. An action says what is to be done next, and what then
follows from the answer; whoever carries it out decides how.
-/

namespace Quadruple.Files

inductive Cause where
  | missing
  | notADirectory
  | isADirectory
  | alreadyThere
  | nameTooLong
  | invalid
  | other (message : String)
deriving DecidableEq

def Cause.message : Cause → String
  | missing => "no such file or directory"
  | notADirectory => "not a directory"
  | isADirectory => "is a directory"
  | alreadyThere => "file exists"
  | nameTooLong => "file name too long"
  | invalid => "invalid argument"
  | other message => message

structure Failure where
  operation : String
  path : String
  cause : Cause
deriving DecidableEq

def Failure.message (failure : Failure) : String :=
  failure.operation ++ " " ++ failure.path ++ ": " ++ failure.cause.message

inductive Action (α : Type) where
  | done (result : α)
  | clock (next : Nat → Action α)
  | workingDirectory (next : String → Action α)
  | isPresent (path : String) (next : Bool → Action α)
  | read (path : String) (next : Except Failure Bytes → Action α)
  | write (path : String) (content : Bytes) (next : Except Failure Unit → Action α)
  | makeDirectory (path : String) (next : Except Failure Unit → Action α)
  | input (next : String → Action α)
  | output (text : String) (next : Action α)
  | complain (text : String) (next : Action α)

namespace Action

def andThen {α β : Type} (action : Action α) (follow : α → Action β) : Action β :=
  match action with
  | done result => follow result
  | clock next => clock fun answer => (next answer).andThen follow
  | workingDirectory next => workingDirectory fun answer => (next answer).andThen follow
  | isPresent path next => isPresent path fun answer => (next answer).andThen follow
  | read path next => read path fun answer => (next answer).andThen follow
  | write path content next => write path content fun answer => (next answer).andThen follow
  | makeDirectory path next => makeDirectory path fun answer => (next answer).andThen follow
  | input next => input fun answer => (next answer).andThen follow
  | output text next => output text (next.andThen follow)
  | complain text next => complain text (next.andThen follow)

instance : Monad Action where
  pure := done
  bind := andThen

end Action

end Quadruple.Files
