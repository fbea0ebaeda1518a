import Mathlib
import Quadruple.Proofs.Instructions
import Quadruple.Project.Build

/-!
What a cache key covers. The key of a build is the hash of the transcript and of its settings, each
behind a zero byte. No setting has a zero byte in its text and every setting can be read off its
text, so two builds with the same bytes have the same transcript and the same settings.
-/

namespace Quadruple

/-! ### Marks -/

section

variable {α : Type} {mark : α} {front front' back back' : List α}
  (same : front ++ mark :: back = front' ++ mark :: back')
include same

/-- Where the mark stands first, a list is cut in one way. -/
theorem cut_first (free : mark ∉ front)
    (free' : mark ∉ front') : front = front' ∧ back = back' := by
  rcases List.append_eq_append_iff.1 same with ⟨between, rfl, rest⟩ | ⟨between, rfl, rest⟩
  · cases between with
    | nil => exact ⟨(List.append_nil front).symm, (List.cons.inj rest).2⟩
    | cons first others =>
      have marked : mark = first := (List.cons.inj rest).1
      apply absurd _ free'
      rw [marked]
      exact List.mem_append_right front List.mem_cons_self
  · cases between with
    | nil => exact ⟨List.append_nil front', (List.cons.inj rest).2.symm⟩
    | cons first others =>
      have marked : mark = first := (List.cons.inj rest).1
      apply absurd _ free
      rw [marked]
      exact List.mem_append_right front' List.mem_cons_self

/-- Where the mark stands last, a list is cut in one way. -/
theorem cut_last (free : mark ∉ back) (free' : mark ∉ back') : front = front' ∧ back = back' := by
  have reversed : back.reverse ++ mark :: front.reverse =
      back'.reverse ++ mark :: front'.reverse := by
    calc back.reverse ++ mark :: front.reverse = (front ++ mark :: back).reverse := by simp
      _ = (front' ++ mark :: back').reverse := by rw [same]
      _ = back'.reverse ++ mark :: front'.reverse := by simp
  obtain ⟨backs, fronts⟩ := cut_first reversed (by simpa using free) (by simpa using free')
  exact ⟨List.reverse_inj.1 fronts, List.reverse_inj.1 backs⟩

end

/-! ### Texts as bytes -/

namespace Bytes

theorem ofText_eq (text : String) : ofText text = text.toList.flatMap String.utf8EncodeChar := by
  unfold ofText
  rw [← String.utf8Encode_toList, List.utf8Encode, List.data_toByteArray]

theorem ofText_injective : Function.Injective ofText := by
  intro first second same
  apply String.toByteArray_inj.1
  apply ByteArray.ext
  exact Array.toList_inj.1 same

theorem zero_notMem_utf8EncodeChar {character : Char} (positive : character.val.toNat ≠ 0) :
    0 ∉ String.utf8EncodeChar character := by
  have byte : ∀ number : Nat, 0 < number → number < 256 → (0 : UInt8) ≠ UInt8.ofNat number := by
    intro number low high zero
    have same := congrArg UInt8.toNat zero
    rw [UInt8.toNat_ofNat', UInt8.toNat_zero] at same
    omega
  unfold String.utf8EncodeChar
  simp only
  split
  · simp only [List.mem_singleton]
    exact byte _ (by omega) (by omega)
  · split
    · simp only [List.mem_cons, List.not_mem_nil, or_false, not_or]
      exact ⟨byte _ (by omega) (by omega), byte _ (by omega) (by omega)⟩
    · split
      · simp only [List.mem_cons, List.not_mem_nil, or_false, not_or]
        exact ⟨byte _ (by omega) (by omega), byte _ (by omega) (by omega),
          byte _ (by omega) (by omega)⟩
      · simp only [List.mem_cons, List.not_mem_nil, or_false, not_or]
        exact ⟨byte _ (by omega) (by omega), byte _ (by omega) (by omega),
          byte _ (by omega) (by omega), byte _ (by omega) (by omega)⟩

theorem zero_notMem_ofText {text : String} (free : Char.ofNat 0 ∉ text.toList) :
    0 ∉ ofText text := by
  rw [ofText_eq]
  intro listed
  obtain ⟨character, among, zero⟩ := List.mem_flatMap.1 listed
  apply zero_notMem_utf8EncodeChar _ zero
  intro null
  apply free
  rwa [show character = Char.ofNat 0 from Char.toNat_inj.1 null] at among

/-! ### Hexadecimal digits -/

theorem hexPadded_spells : ∀ number < 256, (ofText (Text.hexPadded 2 number)).length = 2 ∧
    (ofHexDigits (ofText (Text.hexPadded 2 number))).toOption = some [UInt8.ofNat number] := by
  decide +kernel

theorem ofHexDigits_pair {high low byte : UInt8} (spelt : ofHexDigits [high, low] = .ok [byte])
    (rest : Bytes) : ofHexDigits (high :: low :: rest) = (ofHexDigits rest).map (byte :: ·) := by
  rw [ofHexDigits] at spelt ⊢
  obtain ⟨upper, isUpper, spelt⟩ := bind_eq_ok.1 spelt
  obtain ⟨lower, isLower, spelt⟩ := bind_eq_ok.1 spelt
  have made : [upper <<< 4 ||| lower] = [byte] := Except.ok.inj spelt
  rw [isUpper, isLower, ← List.head_eq_of_cons_eq made]
  cases ofHexDigits rest <;> rfl

theorem ofHex_hex (bytes : Bytes) : ofHex bytes.hex = .ok bytes := by
  unfold ofHex hex
  rw [ofText_eq, String.toList_join]
  induction bytes with
  | nil => rfl
  | cons byte rest ih =>
    obtain ⟨two, spells⟩ := hexPadded_spells byte.toNat byte.toNat_lt
    obtain ⟨high, low, digits⟩ := List.length_eq_two.1 two
    rw [digits, UInt8.ofNat_toNat, toOption_eq_some] at spells
    rw [List.map_cons, List.flatMap_cons, List.flatMap_append, ← ofText_eq, digits]
    rw [List.cons_append, List.cons_append, List.nil_append, ofHexDigits_pair spells, ih]
    rfl

end Bytes

theorem Hash.ofText_text (hash : Hash) : ofText hash.text = .ok hash := by
  unfold ofText text
  rw [Bytes.ofHex_hex]
  exact dif_pos hash.length_eq

theorem Hash.text_injective : Function.Injective text := by
  intro first second same
  apply Except.ok.inj
  calc Except.ok first = ofText first.text := (ofText_text first).symm
    _ = ofText second.text := by rw [same]
    _ = .ok second := ofText_text second

/-! ### Settings -/

namespace Text

variable {mark : Char}

theorem notMem_digits (other : mark.isDigit = false) (number : Nat) :
    mark ∉ (digits 10 number).toList := by
  unfold digits
  rw [String.toList_ofList]
  intro listed
  have isDigit := Nat.isDigit_of_mem_toDigits (by decide) (by decide) listed
  rw [other] at isDigit
  cases isDigit

theorem digits_injective : Function.Injective (digits 10) := by
  intro first second same
  apply Nat.repr_injective
  rw [Nat.repr_eq_ofList_toDigits, Nat.repr_eq_ofList_toDigits]
  exact same

variable {rest rest' : List Char}

theorem digits_append_inj (other : mark.isDigit = false) {first second : Nat}
    (same : (digits 10 first).toList ++ mark :: rest = (digits 10 second).toList ++ mark :: rest') :
    first = second ∧ rest = rest' := by
  obtain ⟨numbers, rests⟩ :=
    cut_first same (notMem_digits other first) (notMem_digits other second)
  exact ⟨digits_injective (String.toList_inj.1 numbers), rests⟩

theorem decimal_eq_repr (number : Int) : decimal number = number.repr := by
  cases number with
  | ofNat number => exact Nat.repr_eq_ofList_toDigits.symm
  | negSucc number => exact congrArg ("-" ++ ·) Nat.repr_eq_ofList_toDigits.symm

theorem decimal_injective : Function.Injective decimal := by
  intro first second same
  rw [decimal_eq_repr, decimal_eq_repr] at same
  exact Int.repr_injective same

theorem notMem_decimal (other : mark.isDigit = false) (sign : mark ≠ '-')
    (number : Int) : mark ∉ (decimal number).toList := by
  cases number with
  | ofNat number => exact notMem_digits other number
  | negSucc number =>
    unfold decimal
    rw [String.toList_append, List.mem_append, not_or]
    refine ⟨?_, notMem_digits other _⟩
    intro listed
    exact sign (List.mem_singleton.1 listed)

theorem truth_append_inj {first second : Bool}
    (same : (if first then "true" else "false" : String).toList ++ rest =
      (if second then "true" else "false" : String).toList ++ rest') :
    first = second ∧ rest = rest' := by
  cases first <;> cases second <;> simp_all

end Text

namespace Optimization.Options

theorem toList_text (options : Options) : options.text.toList = "\x7bJumpThreading:".toList ++
    ((if options.jumpThreading then "true" else "false" : String).toList ++
      (" ConstantFolding:".toList ++
        ((if options.constantFolding then "true" else "false" : String).toList ++
          (" MaxRounds:".toList ++
            ((Text.decimal options.maxRounds).toList ++ "\x7d".toList))))) := by
  unfold text
  simp only [String.toList_append, List.append_assoc]

theorem text_injective : Function.Injective text := by
  intro first second same
  have characters : first.text.toList = second.text.toList := by rw [same]
  rw [toList_text, toList_text] at characters
  obtain ⟨threading, characters⟩ := Text.truth_append_inj (List.append_cancel_left characters)
  obtain ⟨folding, characters⟩ := Text.truth_append_inj (List.append_cancel_left characters)
  have rounds := List.append_cancel_right (List.append_cancel_left characters)
  have limits := Text.decimal_injective (String.toList_inj.1 rounds)
  cases first
  cases second
  simp_all

theorem zero_notMem_text (options : Options) : 0 ∉ Bytes.ofText options.text := by
  apply Bytes.zero_notMem_ofText
  have truth : ∀ flag : Bool,
      Char.ofNat 0 ∉ (if flag then "true" else "false" : String).toList := by decide +kernel
  rw [toList_text]
  simp only [List.mem_append, not_or]
  exact ⟨by decide +kernel, truth _, by decide +kernel, truth _, by decide +kernel,
    Text.notMem_decimal (by decide) (by decide) _, by decide +kernel⟩

end Optimization.Options

namespace Capacities

theorem toList_text (capacities : Capacities) : capacities.text.toList =
    "\x7bCapacity:[".toList ++ ((Text.digits 10 capacities.global).toList ++
      ' ' :: ((Text.digits 10 capacities.locals).toList ++
        ' ' :: ((Text.digits 10 capacities.temps).toList ++
          ' ' :: ((Text.digits 10 capacities.stack).toList ++ ']' :: ['\x7d'])))) := by
  have space : " ".toList = [' '] := by decide +kernel
  have close : "]\x7d".toList = [']', '\x7d'] := by decide +kernel
  unfold text
  simp only [String.toList_append, List.append_assoc, space, close, List.cons_append,
    List.nil_append]

theorem text_injective : Function.Injective text := by
  intro first second same
  have characters : first.text.toList = second.text.toList := by rw [same]
  rw [toList_text, toList_text] at characters
  have space : ' '.isDigit = false := by decide
  have bracket : ']'.isDigit = false := by decide
  have behind := List.append_cancel_left characters
  obtain ⟨globals, behind⟩ := Text.digits_append_inj space behind
  obtain ⟨locals, behind⟩ := Text.digits_append_inj space behind
  obtain ⟨temps, behind⟩ := Text.digits_append_inj space behind
  obtain ⟨stack, _⟩ := Text.digits_append_inj bracket behind
  cases first
  cases second
  simp_all

theorem zero_notMem_text (capacities : Capacities) : 0 ∉ Bytes.ofText capacities.text := by
  apply Bytes.zero_notMem_ofText
  have digits := @Text.notMem_digits (Char.ofNat 0) (by decide)
  rw [toList_text]
  simp only [List.mem_append, List.mem_cons, not_or]
  exact ⟨by decide +kernel, digits _, by decide, digits _, by decide, digits _, by decide,
    digits _, by decide, by decide, List.not_mem_nil⟩

end Capacities

/-! ### Keys of builds -/

theorem Build.optimizeText_injective {first second : Bool}
    (same : "optimize=" ++ (if first then "true" else "false") =
      "optimize=" ++ (if second then "true" else "false")) : first = second := by
  have characters := congrArg String.toList same
  rw [String.toList_append, String.toList_append] at characters
  have truths := congrArg (· ++ []) (List.append_cancel_left characters)
  exact (Text.truth_append_inj truths).1

namespace Build.Task

def settings (task : Task) : List String :=
  ["optimize=" ++ (if task.optimize then "true" else "false"), task.manifest.optimizer.text,
    task.manifest.memory.text]

def covered (task : Task) : Bytes :=
  task.source ++ task.settings.flatMap fun setting => 0 :: Bytes.ofText setting

/-- The tasks differ at most in what a key does not cover. -/
structure Alike (task other : Task) : Prop where
  source : task.source = other.source
  optimize : task.optimize = other.optimize
  optimizer : task.manifest.optimizer = other.manifest.optimizer
  memory : task.manifest.memory = other.manifest.memory

theorem Alike.key_eq {task other : Task} (alike : task.Alike other) : task.key = other.key := by
  unfold key Manifest.cacheKey
  rw [alike.source, alike.optimize, alike.optimizer, alike.memory]

/-- The settings are cut off the covered bytes from behind: the transcript may have zero bytes of
its own. -/
theorem alike_of_covered {task other : Task} (same : task.covered = other.covered) :
    task.Alike other := by
  have opened : ∀ task : Task, task.covered = ((task.source ++
      0 :: Bytes.ofText ("optimize=" ++ (if task.optimize then "true" else "false"))) ++
      0 :: Bytes.ofText task.manifest.optimizer.text) ++
      0 :: Bytes.ofText task.manifest.memory.text := by
    intro task
    simp [covered, settings]
  have wanted : ∀ flag : Bool,
      0 ∉ Bytes.ofText ("optimize=" ++ (if flag then "true" else "false")) := by decide +kernel
  rw [opened, opened] at same
  obtain ⟨same, memory⟩ :=
    cut_last same (Capacities.zero_notMem_text _) (Capacities.zero_notMem_text _)
  obtain ⟨same, optimizer⟩ := cut_last same (Optimization.Options.zero_notMem_text _)
    (Optimization.Options.zero_notMem_text _)
  obtain ⟨source, optimize⟩ := cut_last same (wanted _) (wanted _)
  exact ⟨source, optimizeText_injective (Bytes.ofText_injective optimize),
    Optimization.Options.text_injective (Bytes.ofText_injective optimizer),
    Capacities.text_injective (Bytes.ofText_injective memory)⟩

end Build.Task

end Quadruple
