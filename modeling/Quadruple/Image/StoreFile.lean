import Quadruple.Image.Store
import Quadruple.Text.Percent

/-!
A store of images as the content of a file, and where the file is.
-/

namespace Quadruple

def Hash.ofBytes? (bytes : Bytes) : Option Hash :=
  if length_eq : bytes.length = 32 then some ⟨bytes, length_eq⟩ else none

namespace Image

open Cbor (Item)

namespace Stored

def toItem (stored : Stored) : Item :=
  .array [.bytes stored.hash.bytes, .ofText stored.name, .bytes stored.content,
    .unsigned stored.count, .unsigned stored.stored]

def ofItem? : Item → Option Stored
  | .array [hash, name, content, count, stored] => do
    return {
      hash := ← Hash.ofBytes? (← hash.bytes?)
      name := ← name.string?
      content := ← content.bytes?
      count := ← count.word64?
      stored := ← stored.word64? }
  | _ => none

end Stored

namespace Store

def keyToItem (entry : String × Hash) : Item :=
  .array [.ofText entry.1, .bytes entry.2.bytes]

def keyOfItem? : Item → Option (String × Hash)
  | .array [key, hash] => do
    return (← key.string?, ← Hash.ofBytes? (← hash.bytes?))
  | _ => none

def encode (store : Store) : Bytes :=
  (Item.array [.array (store.images.map Stored.toItem),
    .array (store.cache.map keyToItem)]).encode

/-- The store that a file holds. An empty file is a store without images. -/
def decode? (content : Bytes) : Option Store :=
  if content.isEmpty then some {}
  else
    match Cbor.decode? content with
    | some (.array [.array images, .array cache]) => do
      return { images := ← images.mapM Stored.ofItem?, cache := ← cache.mapM keyOfItem? }
    | _ => none

/-- Where a store is kept: in a file, with what else is said about it. -/
structure Location where
  file : String
  settings : String
deriving DecidableEq

namespace Location

/-- Settings stand behind a question mark. The name of the file ends at a zero. -/
def ofText (text : String) : Location :=
  let front := text.toList.takeWhile (· ≠ '?')
  ⟨String.ofList (front.takeWhile (· ≠ '\x00')), String.ofList (text.toList.drop (front.length + 1))⟩

inductive Fault where
  | semicolon
  | badEscape (escape : String)
  | unknownSystem
  | cannotOpen
deriving DecidableEq

def Fault.message : Fault → String
  | semicolon => "invalid semicolon separator in query"
  | badEscape escape => "invalid URL escape " ++ Text.quoted escape
  | unknownSystem => "SQL logic error: out of memory (1)"
  | cannotOpen => "unable to open database file: out of memory (14)"

def setting (text : List Char) : Except String (List Char × List Char) := do
  let name := text.takeWhile (· ≠ '=')
  return (← Text.percentDecoded name, ← Text.percentDecoded (text.drop (name.length + 1)))

def systems : List String :=
  ["", "unix", "unix-dotfile", "unix-excl", "unix-none"]

def settingsFault? (location : Location) : Option Fault :=
  if location.settings.toList.contains ';' then some .semicolon
  else
    let written := (location.settings.toList.splitOnP (· = '&')).filter (!·.isEmpty)
    match written.mapM setting with
    | .error escape => some (.badEscape escape)
    | .ok settings =>
      if settings.all fun (name, value) =>
          name ≠ "vfs".toList || systems.contains (String.ofList value) then none
      else some .unknownSystem

def longestPath : Nat := 512

def fault? (location : Location) : Option Fault :=
  match location.settingsFault? with
  | some fault => some fault
  | none => if location.file.utf8ByteSize ≤ longestPath then none else some .cannotOpen

end Location

end Store

end Image

end Quadruple
