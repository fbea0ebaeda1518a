import Quadruple.Proofs.Instructions
import Quadruple.Server.Basic

/-!
Requests that a server refuses. Whatever the reason, no run is recorded. The store stays as it was as
well, unless the request asks to keep an image that the policy then does not let pass: an image is
stored before the policy is asked about it.
-/

namespace Quadruple.Server

variable {server after : Server} {request : RunRequest} {now : Int} {image : Image} {hash : Hash}

inductive Finds (server : Server) (now : Int) (request : RunRequest) : Server → Prop where
  | same : Finds server now request server
  | keeps {image : Image} {after : Server} (asked : request.keep = true)
      (sent : Image.decode request.image = .ok image)
      (kept : server.keepImage now image = .ok after) : Finds server now request after

theorem records_keepImage (kept : server.keepImage now image = .ok after) :
    after.records = server.records := by
  unfold keepImage at kept
  split at kept
  · cases kept
  · split at kept
    · cases kept
      rfl
    · cases kept

theorem Finds.records (finds : Finds server now request after) :
    after.records = server.records := by
  cases finds with
  | same => rfl
  | keeps _ _ kept => exact records_keepImage kept

theorem finds_sentImage (sent : server.sentImage now request = .ok (image, hash, after)) :
    Finds server now request after := by
  obtain ⟨decoded, read, rest⟩ := bind_eq_ok.1 sent
  obtain ⟨_, _, rest⟩ := bind_eq_ok.1 rest
  split at rest
  · rename_i asked
    obtain ⟨_, kept, ⟨⟩⟩ := bind_eq_ok.1 rest
    exact .keeps asked (mapError_eq_ok.1 read) kept
  · cases rest
    exact .same

theorem finds_resolve (resolved : server.resolve now request = .ok (image, hash, after)) :
    Finds server now request after := by
  unfold resolve at resolved
  split at resolved
  · split at resolved
    · cases resolved
    · obtain ⟨_, _, ⟨⟩⟩ := bind_eq_ok.1 resolved
      exact .same
  · split at resolved
    · cases resolved
    · exact finds_sentImage resolved

/-- A refused request records no run. It leaves the server as it was, unless it asks to keep an image
that the policy does not permit: then the image is kept, and that is all. -/
theorem refused_keeps_server {patience : Nat} {occasion : Occasion} {refusal : Refusal}
    (refused : server.run patience occasion request = (.refused refusal, after)) :
    after.records = server.records ∧
      (after = server ∨ request.keep = true ∧ refusal.code = .permissionDenied ∧ ∃ image,
        Image.decode request.image = .ok image ∧
          server.keepImage occasion.now image = .ok after) := by
  unfold run at refused
  split at refused
  · cases refused
    exact ⟨rfl, .inl rfl⟩
  · rename_i resolved
    have finds := finds_resolve resolved
    split at refused
    · cases refused
      refine ⟨finds.records, ?_⟩
      cases finds with
      | same => exact .inl rfl
      | keeps asked sent kept => exact .inr ⟨asked, rfl, _, sent, kept⟩
    · -- from here on the request is carried out
      unfold execute at refused
      simp only at refused
      split at refused <;> cases refused

/-- An image that writes. -/
def scribe : Image :=
  .ofCode "scribe" #[
    { opcode := .init },
    { opcode := .nativeParam, left := .literal (.int 5) },
    { opcode := .nativeCall, left := .name "write" },
    { opcode := .exit }] false

def silent : Server :=
  { policy := { denied := ["write"] }, store := some {} }

def scribeRequest (keep : Bool) : RunRequest :=
  { image := scribe.encode.toOption.getD [], keep }

def Answer.refusal? : Answer → Option Refusal
  | .refused refusal => some refusal
  | _ => none

theorem exists_refused (server : Server) (patience : Nat) (occasion : Occasion) (request : RunRequest)
    (denied : (server.run patience occasion request).1.refusal?.map Refusal.code = some .permissionDenied) :
    ∃ refusal after, server.run patience occasion request = (.refused refusal, after) ∧
      refusal.code = .permissionDenied := by
  generalize server.run patience occasion request = made at denied ⊢
  obtain ⟨answer, after⟩ := made
  obtain ⟨refusal, given, code⟩ := Option.map_eq_some_iff.1 denied
  cases answer with
  | refused other =>
    cases given
    exact ⟨refusal, after, rfl, code⟩
  | finished | unfinished => cases given

theorem scribe_refused : ∃ refusal,
    silent.run 0 ⟨"first", 0⟩ (scribeRequest false) = (.refused refusal, silent) ∧
      refusal.code = .permissionDenied := by
  obtain ⟨refusal, after, refused, code⟩ :=
    exists_refused silent 0 ⟨"first", 0⟩ (scribeRequest false) (by decide +kernel)
  have same : after = silent :=
    (refused_keeps_server refused).2.resolve_right fun kept => nomatch kept.1
  exact ⟨refusal, same ▸ refused, code⟩

/-- The image that may not run is in the store all the same. -/
theorem scribe_kept : ∃ refusal after kept,
    silent.run 0 ⟨"first", 0⟩ (scribeRequest true) = (.refused refusal, after) ∧
      refusal.code = .permissionDenied ∧ after.store = some kept ∧
      kept.images.map Image.Stored.name = ["scribe"] := by
  obtain ⟨refusal, after, refused, code⟩ :=
    exists_refused silent 0 ⟨"first", 0⟩ (scribeRequest true) (by decide +kernel)
  have stored : (silent.run 0 ⟨"first", 0⟩ (scribeRequest true)).2.store.map
      (fun store => store.images.map Image.Stored.name) = some ["scribe"] := by
    decide +kernel
  rw [refused] at stored
  obtain ⟨kept, found, names⟩ := Option.map_eq_some_iff.1 stored
  exact ⟨refusal, after, kept, refused, code, found, names⟩

end Quadruple.Server
