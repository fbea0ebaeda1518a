import Quadruple.Cbor.Item

/-!
Reading one data item from bytes. Items of indefinite length are read as what they contain, and
numbers may be longer than need be. Items may be nested only so deep, and collections may be only
so large.
-/

namespace Quadruple.Cbor

def maxDepth : Nat := 32

def maxCount : Nat := 131072

/-- The first bytes of an item. The argument of an indefinite length is missing. -/
structure Head where
  major : Nat
  info : Nat
  argument : Option Nat

def take? (count : Nat) (input : Bytes) : Option (Bytes × Bytes) :=
  let front := input.take count
  if front.length = count then some (front, input.drop count) else none

def head? : Bytes → Option (Head × Bytes)
  | [] => none
  | first :: rest =>
    let major := first.toNat / 32
    let info := first.toNat % 32
    let wide (width : Nat) : Option (Head × Bytes) := do
      let (argument, rest) ← take? width rest
      return (⟨major, info, some argument.toNat⟩, rest)
    match info with
    | 24 => wide 1
    | 25 => wide 2
    | 26 => wide 4
    | 27 => wide 8
    | 28 | 29 | 30 => none
    | 31 => if 2 ≤ major && major ≤ 5 then some (⟨major, info, none⟩, rest) else none
    | _ => some (⟨major, info, some info⟩, rest)

def breakByte : UInt8 := 0xff

/-- The pieces of a string of indefinite length, each of the same major type and of a length of its
own. -/
def chunks? (major : Nat) : Nat → Bytes → Option (List Bytes × Bytes)
  | 0, _ => none
  | fuel + 1, input =>
    if input.head? = some breakByte then some ([], input.tail)
    else do
      let (head, rest) ← head? input
      if head.major = major then
        let (piece, rest) ← take? (← head.argument) rest
        let (others, rest) ← chunks? major fuel rest
        return (piece :: others, rest)
      else none

def string? (head : Head) (input : Bytes) : Option (List Bytes × Bytes) :=
  match head.argument with
  | some length => (take? length input).map fun (content, rest) => ([content], rest)
  | none => chunks? head.major (input.length + 1) input

/-- A text in pieces. If one of them is no text then neither is the whole, whatever its bytes. -/
def textOf (pieces : List Bytes) : Bytes :=
  (pieces.find? (·.text?.isNone)).getD pieces.flatten

def simple? (head : Head) : Option Item := do
  let argument ← head.argument
  match head.info with
  | 24 => if argument < 32 then none else some (.simple argument)
  | 25 => some (.float (Number.BinaryFormat.half.toFloat argument))
  | 26 => some (.float (Number.BinaryFormat.single.toFloat argument))
  | 27 => some (.float (Float.ofBits (UInt64.ofNat argument)))
  | _ => some (.simple argument)

def pairs? : List Item → Option (List (Item × Item))
  | [] => some []
  | [_] => none
  | key :: value :: rest => (pairs? rest).map ((key, value) :: ·)

def startsTagged (input : Bytes) : Bool :=
  match input with
  | [] => false
  | first :: _ => first.toNat / 32 = 6

def isOpen (depth count : Nat) : Bool :=
  0 < depth && count ≤ maxCount

mutual

/-- Reads an item. The second argument is the depth to which collections may still be nested; a tag
right behind a tag takes one level of it. -/
def item? : Nat → Nat → Bytes → Option (Item × Bytes)
  | 0, _, _ => none
  | fuel + 1, depth, input => do
    let (head, rest) ← head? input
    match head.major with
    | 0 => return (.unsigned (← head.argument), rest)
    | 1 => return (.negative (← head.argument), rest)
    | 2 =>
      let (pieces, rest) ← string? head rest
      return (.bytes pieces.flatten, rest)
    | 3 =>
      let (pieces, rest) ← string? head rest
      return (.text (textOf pieces), rest)
    | 4 =>
      let (elements, rest) ←
        match head.argument with
        | some count => if isOpen depth count then items? fuel (depth - 1) count rest else none
        | none => if isOpen depth 0 then itemsToBreak? fuel (depth - 1) rest else none
      if elements.length ≤ maxCount then return (.array elements, rest) else none
    | 5 =>
      let (elements, rest) ←
        match head.argument with
        | some count => if isOpen depth count then items? fuel (depth - 1) (2 * count) rest else none
        | none => if isOpen depth 0 then itemsToBreak? fuel (depth - 1) rest else none
      if elements.length ≤ 2 * maxCount then return (.map (← pairs? elements), rest) else none
    | 6 =>
      let nested := startsTagged rest
      if nested && depth = 0 then none
      else
        let (content, rest) ← item? fuel (if nested then depth - 1 else depth) rest
        return (.tagged (← head.argument) content, rest)
    | _ => return (← simple? head, rest)

def items? : Nat → Nat → Nat → Bytes → Option (List Item × Bytes)
  | 0, _, _, _ => none
  | fuel + 1, depth, count, input =>
    match count with
    | 0 => some ([], input)
    | count + 1 => do
      let (first, rest) ← item? fuel depth input
      let (others, rest) ← items? fuel depth count rest
      return (first :: others, rest)

def itemsToBreak? : Nat → Nat → Bytes → Option (List Item × Bytes)
  | 0, _, _ => none
  | fuel + 1, depth, input =>
    if input.head? = some breakByte then some ([], input.tail)
    else do
      let (first, rest) ← item? fuel depth input
      let (others, rest) ← itemsToBreak? fuel depth rest
      return (first :: others, rest)

end

/-- The item that the bytes encode, all of them. Every byte read allows two more calls, which is
enough: a call that reads no byte is followed by one that does. -/
def decode? (input : Bytes) : Option Item := do
  let (item, rest) ← item? (2 * input.length + 2) maxDepth input
  guard rest.isEmpty
  return item

end Quadruple.Cbor
