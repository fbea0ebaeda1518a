import Quadruple.Cbor.Decoding
import Mathlib.Tactic.Ring

/-!
What is written can be read. An item whose numbers and collections stay within the limits is read
back from its encoding; only a float comes back as what its narrowest format makes of it.
-/

namespace Quadruple

/-! ### Numbers in bytes -/

namespace Bytes

theorem toNat_append (front back : Bytes) :
    toNat (front ++ back) = toNat front * 256 ^ back.length + toNat back := by
  have shift : ∀ (back : Bytes) (number : Nat),
      back.foldl (fun number byte => number * 256 + byte.toNat) number =
        number * 256 ^ back.length + toNat back := by
    intro back
    induction back with
    | nil =>
      intro number
      simp [toNat]
    | cons byte rest ih =>
      intro number
      have whole : toNat (byte :: rest) = (0 * 256 + byte.toNat) * 256 ^ rest.length + toNat rest :=
        ih (0 * 256 + byte.toNat)
      rw [List.foldl_cons, ih, whole, List.length_cons, Nat.pow_succ]
      ring
  rw [toNat, List.foldl_append, shift]
  rfl

theorem toNat_bigEndian (width number : Nat) :
    toNat (bigEndian width number) = number % 256 ^ width := by
  induction width with
  | zero => rw [Nat.pow_zero, Nat.mod_one]; rfl
  | succ width ih =>
    rw [bigEndian, ← List.singleton_append, toNat_append, ih, length_bigEndian]
    have byte : toNat [UInt8.ofNat (number / Nat.pow 256 width)] = number / 256 ^ width % 256 := by
      simp [toNat]
    rw [byte, Nat.pow_succ, Nat.mod_mul]
    ring

end Bytes

namespace Cbor

/-! ### Heads -/

def infoOf (argument : Nat) : Nat :=
  if argument < 24 then argument
  else if argument < 256 then 24
  else if argument < 65536 then 25
  else if argument < 4294967296 then 26
  else 27

theorem toNat_first (major : UInt8) (info : Nat) (few : major.toNat < 8) (small : info < 32) :
    (major <<< 5 ||| UInt8.ofNat info).toNat = 32 * major.toNat + info := by
  have all : ∀ (major : Fin 8) (info : Fin 32),
      (UInt8.ofNat major <<< 5 ||| UInt8.ofNat info).toNat = 32 * major.val + info.val := by
    decide
  have here := all ⟨major.toNat, few⟩ ⟨info, small⟩
  rwa [UInt8.ofNat_toNat] at here

theorem take?_append (front back : Bytes) :
    take? front.length (front ++ back) = some (front, back) := by
  simp [take?]

theorem take?_bigEndian (width number : Nat) (rest : Bytes) :
    take? width (Bytes.bigEndian width number ++ rest) =
      some (Bytes.bigEndian width number, rest) := by
  have taken := take?_append (Bytes.bigEndian width number) rest
  rwa [Bytes.length_bigEndian] at taken

theorem first_bits (major : UInt8) (info : Nat) (few : major.toNat < 8) (small : info < 32) :
    (major <<< 5 ||| UInt8.ofNat info).toNat / 32 = major.toNat ∧
      (major <<< 5 ||| UInt8.ofNat info).toNat % 32 = info := by
  rw [toNat_first major info few small]
  omega

theorem head?_wide (major : UInt8) (info width : Nat) {argument : Nat} (rest : Bytes)
    (few : major.toNat < 8) (listed : (info, width) ∈ [(24, 1), (25, 2), (26, 4), (27, 8)])
    (small : argument < 256 ^ width) :
    head? ((major <<< 5 ||| UInt8.ofNat info) :: Bytes.bigEndian width argument ++ rest) =
      some (⟨major.toNat, info, some argument⟩, rest) := by
  have number : Bytes.toNat (Bytes.bigEndian width argument) = argument := by
    rw [Bytes.toNat_bigEndian, Nat.mod_eq_of_lt small]
  simp only [List.mem_cons, Prod.mk.injEq, List.not_mem_nil, or_false] at listed
  obtain ⟨majorBits, infoBits⟩ := first_bits major info few (by omega)
  rw [List.cons_append, head?, majorBits, infoBits]
  rcases listed with ⟨rfl, rfl⟩ | ⟨rfl, rfl⟩ | ⟨rfl, rfl⟩ | ⟨rfl, rfl⟩ <;>
    simp only [take?_bigEndian, number, bind, Option.bind, pure]

theorem head?_head (major : UInt8) {argument : Nat} (rest : Bytes) (few : major.toNat < 8)
    (bounded : argument < 18446744073709551616) :
    head? (head major argument ++ rest) =
      some (⟨major.toNat, infoOf argument, some argument⟩, rest) := by
  unfold head infoOf
  split
  · obtain ⟨majorBits, infoBits⟩ := first_bits major argument few (by omega)
    rw [List.singleton_append, head?, majorBits, infoBits]
    split <;> first | omega | rfl
  split
  · exact head?_wide major 24 1 rest few (by simp) (by omega)
  split
  · exact head?_wide major 25 2 rest few (by simp) (by omega)
  split
  · exact head?_wide major 26 4 rest few (by simp) (by omega)
  · exact head?_wide major 27 8 rest few (by simp) (by omega)

theorem length_head_pos (major : UInt8) (argument : Nat) : 0 < (head major argument).length := by
  unfold head
  split
  · exact Nat.zero_lt_one
  · split
    · exact Nat.zero_lt_succ _
    · split
      · exact Nat.zero_lt_succ _
      · split <;> exact Nat.zero_lt_succ _

/-! ### Floats -/

def rereadFloat (number : Float) : Float :=
  if number.isNaN then Number.BinaryFormat.half.toFloat Number.BinaryFormat.half.notANumber
  else
    match Number.scaled? number with
    | none =>
      Number.BinaryFormat.half.toFloat (Number.BinaryFormat.half.infinity (number < 0))
    | some exact =>
      match exact.narrow? .half, exact.narrow? .single with
      | some bits, _ => Number.BinaryFormat.half.toFloat bits
      | none, some bits => Number.BinaryFormat.single.toFloat bits
      | none, none => Float.ofBits number.toBits

theorem narrow?_lt {exact : Number.Scaled} {format : Number.BinaryFormat} {bits : Nat}
    (narrows : exact.narrow? format = some bits) :
    bits < 2 ^ (format.exponentBits + format.fractionBits + 1) := by
  have sign : ∀ negative, format.sign negative ≤ 2 ^ (format.exponentBits + format.fractionBits) := by
    intro negative
    unfold Number.BinaryFormat.sign
    split
    · exact Nat.le_refl _
    · exact Nat.zero_le _
  have positive : 0 < 2 ^ (format.exponentBits + format.fractionBits) := Nat.two_pow_pos _
  rw [Nat.pow_succ]
  unfold Number.Scaled.narrow? at narrows
  split at narrows
  · cases narrows
    have := sign exact.negative
    omega
  · simp only at narrows
    split at narrows
    · cases narrows
    · split at narrows
      · rename_i small
        cases narrows
        have := sign exact.negative
        have most : format.special * Nat.pow 2 format.fractionBits ≤
            2 ^ (format.exponentBits + format.fractionBits) := by
          rw [Nat.pow_add]
          exact Nat.mul_le_mul_right _ (Nat.sub_le _ _)
        omega
      · cases narrows

theorem item?_encodeFloat (fuel depth : Nat) (number : Float) (rest : Bytes) :
    item? (fuel + 1) depth (encodeFloat number ++ rest) =
      some (.float (rereadFloat number), rest) := by
  have half : ∀ bits < 65536, item? (fuel + 1) depth (0xf9 :: Bytes.bigEndian 2 bits ++ rest) =
      some (.float (Number.BinaryFormat.half.toFloat bits), rest) := by
    intro bits small
    have read := head?_wide 7 25 2 rest (by decide) (by simp) small
    unfold item?
    rw [show (0xf9 : UInt8) = (7 : UInt8) <<< 5 ||| UInt8.ofNat 25 from rfl, read]
    rfl
  unfold encodeFloat rereadFloat
  split
  · exact half _ (by decide)
  · cases Number.scaled? number with
    | none =>
      refine half _ ?_
      unfold Number.BinaryFormat.infinity Number.BinaryFormat.sign
      split <;> decide
    | some exact =>
      cases short : exact.narrow? .half with
      | some bits => simpa only [short] using half bits (narrow?_lt short)
      | none =>
        cases medium : exact.narrow? .single with
        | some bits =>
          have read := head?_wide 7 26 4 rest (by decide) (by simp) (narrow?_lt medium)
          simp only [short, medium]
          unfold item?
          rw [show (0xfa : UInt8) = (7 : UInt8) <<< 5 ||| UInt8.ofNat 26 from rfl, read]
          rfl
        | none =>
          have read := head?_wide 7 27 8 rest (by decide) (by simp) number.toBits.toNat_lt
          simp only [short, medium]
          unfold item?
          rw [show (0xfb : UInt8) = (7 : UInt8) <<< 5 ||| UInt8.ofNat 27 from rfl, read]
          simp [simple?]

/-! ### Items -/

mutual

def Item.reread : Item → Item
  | .array elements => .array (rereadElements elements)
  | .map entries => .map (rereadEntries entries)
  | .float number => .float (rereadFloat number)
  | item => item

def rereadElements : List Item → List Item
  | [] => []
  | element :: rest => element.reread :: rereadElements rest

def rereadEntries : List (Item × Item) → List (Item × Item)
  | [] => []
  | (key, value) :: rest => (key.reread, value.reread) :: rereadEntries rest

end

mutual

/-- The numbers and the collections of an item are within the limits, its collections can be nested
as deep as they are, and no item has a tag. -/
def Item.Fits : Nat → Item → Prop
  | _, .unsigned number => number < 18446744073709551616
  | _, .negative number => number < 18446744073709551616
  | _, .bytes content => content.length < 18446744073709551616
  | _, .text content => content.length < 18446744073709551616
  | depth, .array elements =>
    0 < depth ∧ elements.length ≤ maxCount ∧ ElementsFit (depth - 1) elements
  | depth, .map entries => 0 < depth ∧ entries.length ≤ maxCount ∧ EntriesFit (depth - 1) entries
  | _, .tagged .. => False
  | _, .simple code => code < 24
  | _, .float _ => True

def ElementsFit : Nat → List Item → Prop
  | _, [] => True
  | depth, element :: rest => element.Fits depth ∧ ElementsFit depth rest

def EntriesFit : Nat → List (Item × Item) → Prop
  | _, [] => True
  | depth, (key, value) :: rest => key.Fits depth ∧ value.Fits depth ∧ EntriesFit depth rest

end

def inRow : List (Item × Item) → List Item
  | [] => []
  | (key, value) :: rest => key :: value :: inRow rest

theorem length_inRow (entries : List (Item × Item)) :
    (inRow entries).length = 2 * entries.length := by
  induction entries with
  | nil => rfl
  | cons entry rest ih =>
    simp only [inRow, List.length_cons, ih]
    omega

theorem pairs?_inRow (entries : List (Item × Item)) : pairs? (inRow entries) = some entries := by
  induction entries with
  | nil => rfl
  | cons entry rest ih => rw [inRow, pairs?, ih, Option.map_some]

theorem length_rereadElements (elements : List Item) :
    (rereadElements elements).length = elements.length := by
  induction elements with
  | nil => rfl
  | cons element rest ih => rw [rereadElements, List.length_cons, ih, List.length_cons]

theorem length_rereadEntries (entries : List (Item × Item)) :
    (rereadEntries entries).length = entries.length := by
  induction entries with
  | nil => rfl
  | cons entry rest ih => rw [rereadEntries, List.length_cons, ih, List.length_cons]

theorem textOf_singleton (content : Bytes) : textOf [content] = content := by
  unfold textOf
  rw [List.find?_singleton]
  split <;> simp

theorem isOpen_of_fits {depth count : Nat} (deep : 0 < depth) (few : count ≤ maxCount) :
    isOpen depth count = true := by
  simp [isOpen, deep, few]

theorem length_encodeFloat_pos (number : Float) : 0 < (encodeFloat number).length := by
  unfold encodeFloat
  split
  · exact Nat.zero_lt_succ _
  · split
    · exact Nat.zero_lt_succ _
    · split <;> exact Nat.zero_lt_succ _

theorem length_encode_pos (item : Item) : 0 < item.encode.length := by
  cases item with
  | float number => exact length_encodeFloat_pos number
  | unsigned | negative | simple => exact length_head_pos _ _
  | bytes | text | array | map | tagged =>
    simp only [Item.encode, List.length_append]
    exact Nat.add_pos_left (length_head_pos _ _) _

mutual

/-- What is written is read, with whatever follows it left over. Every byte allows two calls. -/
theorem item?_encode (item : Item) (fuel depth : Nat) (rest : Bytes) (fits : item.Fits depth)
    (enough : 2 * item.encode.length ≤ fuel) :
    item? fuel depth (item.encode ++ rest) = some (item.reread, rest) := by
  obtain ⟨fuel, rfl⟩ : ∃ less, fuel = less + 1 :=
    ⟨fuel - 1, by have := length_encode_pos item; omega⟩
  match item with
  | .unsigned number =>
    have read := head?_head 0 rest (by decide) fits
    unfold item?
    rw [Item.encode, read]
    rfl
  | .negative number =>
    have read := head?_head 1 rest (by decide) fits
    unfold item?
    rw [Item.encode, read]
    rfl
  | .bytes content =>
    have read := head?_head 2 (content ++ rest) (by decide) fits
    unfold item?
    rw [Item.encode, List.append_assoc, read]
    simp [string?, take?_append, Item.reread]
  | .text content =>
    have read := head?_head 3 (content ++ rest) (by decide) fits
    unfold item?
    rw [Item.encode, List.append_assoc, read]
    simp [string?, take?_append, textOf_singleton, Item.reread]
  | .array elements =>
    obtain ⟨deep, few, inside⟩ := fits
    have bounded := Nat.lt_of_le_of_lt few (show maxCount < 18446744073709551616 by decide)
    have read := head?_head 4 (encodeElements elements ++ rest) (by decide) bounded
    have long := length_head_pos 4 elements.length
    rw [Item.encode, List.length_append] at enough
    have listed := items?_encodeElements elements fuel (depth - 1) rest inside (by omega)
    unfold item?
    rw [Item.encode, List.append_assoc, read]
    simp [isOpen_of_fits deep few, listed, length_rereadElements, few, Item.reread]
  | .map entries =>
    obtain ⟨deep, few, inside⟩ := fits
    have bounded := Nat.lt_of_le_of_lt few (show maxCount < 18446744073709551616 by decide)
    have read := head?_head 5 (encodeEntries entries ++ rest) (by decide) bounded
    have long := length_head_pos 5 entries.length
    rw [Item.encode, List.length_append] at enough
    have listed := items?_encodeEntries entries fuel (depth - 1) rest inside (by omega)
    unfold item?
    rw [Item.encode, List.append_assoc, read]
    simp [isOpen_of_fits deep few, listed, length_inRow, length_rereadEntries, few, pairs?_inRow,
      Item.reread]
  | .simple code =>
    have small : code < 24 := fits
    have read := head?_head 7 rest (by decide) (show code < 18446744073709551616 by omega)
    have named : simple? ⟨7, code, some code⟩ = some (.simple code) := by
      simp only [simple?, bind, Option.bind]
      split <;> first | omega | rfl
    unfold item?
    rw [Item.encode, read, infoOf, if_pos small]
    simp [named, Item.reread]
  | .float number => exact item?_encodeFloat fuel depth number rest

theorem items?_encodeElements (elements : List Item) (fuel depth : Nat) (rest : Bytes)
    (fits : ElementsFit depth elements) (enough : 2 * (encodeElements elements).length + 1 ≤ fuel) :
    items? fuel depth elements.length (encodeElements elements ++ rest) =
      some (rereadElements elements, rest) := by
  obtain ⟨fuel, rfl⟩ : ∃ less, fuel = less + 1 := ⟨fuel - 1, by omega⟩
  match elements with
  | [] => simp [items?, encodeElements, rereadElements]
  | element :: others =>
    rw [encodeElements, List.length_append] at enough
    have long := length_encode_pos element
    have first := item?_encode element fuel depth (encodeElements others ++ rest) fits.1 (by omega)
    have second := items?_encodeElements others fuel depth rest fits.2 (by omega)
    rw [encodeElements, List.append_assoc, List.length_cons, items?, first]
    simp [second, rereadElements]

theorem items?_encodeEntries (entries : List (Item × Item)) (fuel depth : Nat) (rest : Bytes)
    (fits : EntriesFit depth entries) (enough : 2 * (encodeEntries entries).length + 1 ≤ fuel) :
    items? fuel depth (2 * entries.length) (encodeEntries entries ++ rest) =
      some (inRow (rereadEntries entries), rest) := by
  obtain ⟨fuel, rfl⟩ : ∃ less, fuel = less + 1 := ⟨fuel - 1, by omega⟩
  match entries with
  | [] => simp [items?, encodeEntries, rereadEntries, inRow]
  | (key, value) :: others =>
    rw [encodeEntries, List.length_append, List.length_append] at enough
    have long := length_encode_pos key
    have long' := length_encode_pos value
    obtain ⟨fuel, rfl⟩ : ∃ less, fuel = less + 1 := ⟨fuel - 1, by omega⟩
    have first := item?_encode key (fuel + 1) depth
      (value.encode ++ (encodeEntries others ++ rest)) fits.1 (by omega)
    have second := item?_encode value fuel depth (encodeEntries others ++ rest) fits.2.1 (by omega)
    have third := items?_encodeEntries others fuel depth rest fits.2.2 (by omega)
    rw [encodeEntries, List.append_assoc, List.append_assoc, List.length_cons, Nat.mul_succ, items?,
      first]
    simp [items?, second, third, rereadEntries, inRow]

end

theorem decode?_encode {item : Item} (fits : item.Fits maxDepth) :
    decode? item.encode = some item.reread := by
  have read := item?_encode item (2 * item.encode.length + 2) maxDepth [] fits (by omega)
  rw [List.append_nil] at read
  simp [decode?, read]

end Cbor

end Quadruple
