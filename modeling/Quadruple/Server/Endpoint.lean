import Quadruple.Server.Basic
import Quadruple.Text.Percent

/-!
A server on the web: where it is found, and how it answers a message that is posted to one of its
procedures.
-/

namespace Quadruple.Server

/-- The address under which a client finds a server, given as it is listened on. A missing host
is the client's own. -/
def baseUrl (address : String) : String :=
  let startsWith (front : String) : Bool := front.toList.isPrefixOf address.toList
  if startsWith "http://" || startsWith "https://" then address
  else if startsWith ":" then "http://localhost" ++ address
  else "http://" ++ address

inductive Route where
  | run
  | getRun
  /-- The path can be said in a shorter way, to which the client is referred. -/
  | moved
  | missing
deriving DecidableEq

/-- Whether the names of a path stand for themselves. Only behind the last slash may there be
nothing. -/
def isDirect (names : List (List Char)) : Bool :=
  names.dropLast.all (!·.isEmpty) && names.all fun name => name ≠ ['.'] && name ≠ ['.', '.']

def Route.ofName (name : List Char) : Route :=
  if name = "Run".toList then .run else if name = "GetRun".toList then .getRun else .missing

/-- The route to what is written behind the path of the service, up to a question mark. Escapes are
part of a name, unless a character stands beside them that would need one; then they are read first.
There is no route if a blank or a control character is written, or half an escape. -/
def Route.ofTarget? (target : String) : Option Route := do
  if target.toList.any fun character => character.toNat ≤ 0x20 || character.toNat = 0x7f then none
  let written := target.toList.takeWhile (· ≠ '?')
  let decoded ← (Text.percentDecoded written).toOption
  let names := (if written.all Text.isPathCharacter then written else decoded).splitOnP (· = '/')
  if !isDirect names then return .moved
  if names.length = 1 then return .ofName decoded
  return .missing

structure PostAnswer where
  status : Nat
  code : String := ""
deriving DecidableEq

def PostAnswer.ofRefusal (refusal : Refusal) : PostAnswer :=
  ⟨refusal.code.status, refusal.code.name⟩

/-- Deals with a message that is posted to a target behind the path of the service. There is no
answer if there is no route, or if a run was not followed to its end. -/
def post (server : Server) (patience : Nat) (occasion : Occasion) (target : String) (body : Bytes) :
    Option PostAnswer × Server :=
  let message := Cbor.decode? body
  match Route.ofTarget? target with
  | none => (none, server)
  | some .moved => (some ⟨307, ""⟩, server)
  | some .missing => (some ⟨404, ""⟩, server)
  | some .run =>
    match message.bind RunRequest.ofItem? with
    | none => (some (.ofRefusal .unreadable), server)
    | some request =>
      match server.run patience occasion request with
      | (.refused refusal, after) => (some (.ofRefusal refusal), after)
      | (.finished _, after) => (some ⟨200, ""⟩, after)
      | (.unfinished, after) => (none, after)
  | some .getRun =>
    match message.bind runNameOfItem? with
    | none => (some (.ofRefusal .unreadable), server)
    | some name =>
      match server.getRun name with
      | .error refusal => (some (.ofRefusal refusal), server)
      | .ok _ => (some ⟨200, ""⟩, server)

end Quadruple.Server
