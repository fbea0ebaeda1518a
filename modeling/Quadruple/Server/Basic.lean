import Quadruple.Cbor.Decoding
import Quadruple.Machine.Run
import Quadruple.Server.Message

/-!
A server that runs programs for its clients. It may have a store, from which a program can be run by
its hash and to which a client can add its image. A policy says which natives programs may call, and
a cap how many steps a run may take. Every run leaves a record until it is swept away.
-/

namespace Quadruple

structure Server where
  policy : Image.Policy := {}
  maxSteps : Nat := 0
  store : Option Image.Store := none
  records : List Server.RunRecord := []

namespace Server

structure Occasion where
  freshName : String
  now : Int

inductive Answer where
  | refused (refusal : Refusal)
  | finished (response : Response)
  | unfinished

/-- The steps that a run may take: what the client asks for, within the cap. -/
def stepLimit (server : Server) (requested : Nat) : Nat :=
  if server.maxSteps = 0 then requested
  else if requested = 0 || server.maxSteps < requested then server.maxSteps
  else requested

def keepImage (server : Server) (now : Int) (image : Image) : Except Refusal Server :=
  match server.store with
  | none => .error .noStore
  | some store =>
    match store.put now.toNat image with
    | .ok (_, kept) => .ok { server with store := some kept }
    | .error cause => .error (.unpackable cause)

def sentImage (server : Server) (now : Int) (request : RunRequest) :
    Except Refusal (Image × Hash × Server) := do
  let image ← (Image.decode request.image).mapError .invalidImage
  let hash ← image.hash.mapError .unpackable
  if request.keep then return (image, hash, ← server.keepImage now image)
  else return (image, hash, server)

def storedImage (server : Server) (request : RunRequest) : Except Refusal (Image × Hash) := do
  match server.store with
  | none => throw .noStore
  | some store =>
    let hash ← (Hash.ofText request.hash).mapError .invalidHash
    let image ← (store.get hash).mapError .store
    return (image, hash)

def resolve (server : Server) (now : Int) (request : RunRequest) :
    Except Refusal (Image × Hash × Server) := do
  if request.image.isEmpty then
    if request.hash = "" then throw .nothingToRun
    let (image, hash) ← server.storedImage request
    return (image, hash, server)
  else if request.hash ≠ "" then throw .imageAndHash
  else server.sentImage now request

def machineFor (server : Server) (request : RunRequest) (image : Image) : Machine :=
  .ofProgram image.program
    { input := request.input, limit := server.stepLimit request.maxSteps }

/-- Runs an image and records the run. It is followed for a number of steps. -/
def execute (server : Server) (patience : Nat) (occasion : Occasion) (request : RunRequest)
    (image : Image) (hash : Hash) : Answer × Server :=
  let finish (error : Option Report) (machine : Machine) : Answer × Server :=
    let record := ⟨occasion.freshName, hash, machine.steps, error, occasion.now⟩
    (.finished ⟨record, machine.console.output⟩,
      { server with records := server.records ++ [record] })
  match (server.machineFor request image).run patience with
  | (.halted, machine) => finish none machine
  | (.failed error, machine) => finish (some error.report) machine
  | (.unfinished, _) => (.unfinished, server)

/-- Deals with a request for a run. An image is kept before the policy is asked about it. -/
def run (server : Server) (patience : Nat) (occasion : Occasion) (request : RunRequest) :
    Answer × Server :=
  match server.resolve occasion.now request with
  | .error refusal => (.refused refusal, server)
  | .ok (image, hash, after) =>
    match after.policy.check image with
    | .error violation => (.refused (.notPermitted violation), after)
    | .ok () => after.execute patience occasion request image hash

def getRun (server : Server) (name : String) : Except Refusal RunRecord :=
  if name = "" then .error .noRunName
  else
    match server.records.find? (·.name = name) with
    | some record => .ok record
    | none => .error (.unknownRun name)

def sweep (server : Server) (now age : Int) : Server :=
  { server with records := server.records.filter fun record => !(record.ended < now - age) }

end Server

end Quadruple
