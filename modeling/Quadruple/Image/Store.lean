import Quadruple.Image.Basic

/-!
A store of images, each under its hash, with a cache of compilations: a key made of what was
compiled leads to the image that came of it. A key never leads to an image that is not stored.
-/

namespace Quadruple.Image

structure Stored where
  hash : Hash
  name : String
  content : Bytes
  count : Nat
  stored : Nat
deriving DecidableEq

structure Store where
  images : List Stored := []
  cache : List (String × Hash) := []

namespace Store

inductive Error where
  | notFound (hash : Hash)
  | corrupt (hash : Hash)
  | invalid (cause : Image.Error)
  | notStored (key : String)

def Error.report : Error → Report
  | notFound hash => .plain (hash.text ++ ": image not found")
  | corrupt hash => .plain ("image " ++ hash.text ++ " is corrupt")
  | invalid cause => cause.report
  | notStored key => .plain ("caching " ++ key ++ ": constraint failed")

def find? (store : Store) (hash : Hash) : Option Stored :=
  store.images.find? (·.hash = hash)

def has (store : Store) (hash : Hash) : Bool :=
  (store.find? hash).isSome

/-- Stores an image at a time. One that is stored already stays as and where it is. -/
def put (store : Store) (now : Nat) (image : Image) : Except Address.Unpackable (Hash × Store) := do
  let content ← image.encode
  let hash := Hash.ofContent content
  if store.has hash then return (hash, store)
  else
    return (hash, { store with
      images := ⟨hash, image.name, content, image.records.length, now⟩ :: store.images })

def get (store : Store) (hash : Hash) : Except Error Image :=
  match store.find? hash with
  | none => .error (.notFound hash)
  | some stored =>
    if Hash.ofContent stored.content = hash then (Image.decode stored.content).mapError .invalid
    else .error (.corrupt hash)

def delete (store : Store) (hash : Hash) : Except Error Store :=
  if store.has hash then
    .ok { images := store.images.filter (·.hash ≠ hash), cache := store.cache.filter (·.2 ≠ hash) }
  else .error (.notFound hash)

def overwrite (store : Store) (hash : Hash) (content : Bytes) : Store :=
  { store with images := store.images.map fun stored =>
      if stored.hash = hash then { stored with content } else stored }

def remember (store : Store) (key : String) (hash : Hash) : Except Error Store :=
  if store.has hash then
    .ok { store with cache := (key, hash) :: store.cache.filter (·.1 ≠ key) }
  else .error (.notStored key)

def lookup (store : Store) (key : String) : Except Error (Option Image) :=
  match store.cache.lookup key with
  | none => .ok none
  | some hash =>
    match store.get hash with
    | .ok image => .ok (some image)
    | .error (.notFound _) => .ok none
    | .error cause => .error cause

end Store

def sourceKey (source : Bytes) (settings : List String) : String :=
  (Hash.ofContent (source ++ settings.flatMap fun setting => 0 :: Bytes.ofText setting)).text

end Quadruple.Image
