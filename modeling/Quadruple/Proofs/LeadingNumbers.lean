import Mathlib.Algebra.Order.Ring.Int
import Quadruple.Machine.Native

/-!
Numbers at the start of a text. The functions of the host that read one take the longest start of the text,
without the blanks around it, that has the form of a number; of floats, the longest that is also in range.
-/

namespace Quadruple.Native

open Number

variable {text front digits rest : List Char} {value : Int}

/-- The longest start of a text with a property. -/
structure Longest (p : List Char → Prop) (text front : List Char) : Prop where
  isPrefix : front <+: text
  holds : p front
  greatest : ∀ other, other <+: text → p other → other <+: front

theorem Longest.unique {p : List Char → Prop} {other : List Char} (first : Longest p text front)
    (second : Longest p text other) : front = other :=
  (second.greatest front first.isPrefix first.holds).eq_of_length_le
    (first.greatest other second.isPrefix second.holds).length_le

theorem read_ok_iff {α : Type} {given : Except Error α} {make : α → Value}
    (injective : ∀ first second, make first = make second → first = second) {number : α}
    {console : Console} :
    (given.map make, console) = (.ok (make number), console) ↔ given = .ok number := by
  cases given with
  | error failure => simp [Except.map]
  | ok found =>
    simp only [Except.map, Prod.mk.injEq, Except.ok.injEq, and_true]
    exact ⟨injective found number, congrArg make⟩

theorem read_error_iff {α : Type} {given : Except Error α} {make : α → Value} {console : Console} :
    (∃ failure, (given.map make, console) = (.error failure, console) ∧ failure.report.kind = .runtime) ↔
      ∀ number, given ≠ .ok number := by
  cases given with
  | ok found => simp [Except.map]
  | error failure => cases failure <;> simp [Except.map, Error.report, Report.of]

/-! ### Integers -/

variable {sign : List Char}

/-- Digits, behind a sign or alone. -/
structure Spelled (text sign digits : List Char) : Prop where
  eq : text = sign ++ digits
  signs : sign = [] ∨ sign = ['+'] ∨ sign = ['-']
  some : digits ≠ []
  all : ∀ digit ∈ digits, digit.isDigit = true

def IsInteger (text : List Char) : Prop :=
  ∃ sign digits, Spelled text sign digits

/-- The integer that a text denotes. -/
def Denotes (text : List Char) (value : Int) : Prop :=
  ∃ sign digits, Spelled text sign digits ∧
    value = if sign = ['-'] then -(Nat.ofDigitChars 10 digits 0 : Int) else Nat.ofDigitChars 10 digits 0

theorem execute_textToInt (argument : Value) (more : List Value) (console : Console) :
    textToInt.execute (argument :: more) console = ((parseInt argument.text).map .int, console) :=
  if_neg (by simp [arity])

theorem Spelled.intPrefix_append (spelled : Spelled front sign digits) (rest : List Char) :
    intPrefix (front ++ rest) = (sign, digits ++ rest.takeWhile Char.isDigit) := by
  obtain ⟨rfl, signs, some, all⟩ := spelled
  rw [← List.takeWhile_append_of_pos all, List.append_assoc]
  rcases signs with rfl | rfl | rfl
  · obtain ⟨first, digits, rfl⟩ := List.exists_cons_of_ne_nil some
    have isDigit := all first List.mem_cons_self
    rw [List.nil_append, intPrefix]
    all_goals
      rintro others ⟨⟩
      cases isDigit
  · rfl
  · rfl

theorem spelled_intPrefix (some : (intPrefix text).2 ≠ []) :
    (intPrefix text).1 ++ (intPrefix text).2 <+: text ∧
      Spelled ((intPrefix text).1 ++ (intPrefix text).2) (intPrefix text).1 (intPrefix text).2 := by
  unfold intPrefix at some ⊢
  split <;> refine ⟨?_, rfl, by simp, by simpa [*] using some, List.all_eq_true.1 List.all_takeWhile⟩
  · exact (List.prefix_cons_inj _).2 (List.takeWhile_prefix _)
  · exact (List.prefix_cons_inj _).2 (List.takeWhile_prefix _)
  · exact List.takeWhile_prefix _

theorem digitsValue_eq (digits : List Char) : digitsValue digits = Nat.ofDigitChars 10 digits 0 := by
  simp only [digitsValue, Nat.ofDigitChars, Nat.mul_comm]

theorem parseInt_of_denotes {text : String} {number : Int64}
    (split : Text.trim text.toList = front ++ rest) (apart : rest.takeWhile Char.isDigit = [])
    (denotes : Denotes front number.toInt) : parseInt text = .ok number := by
  obtain ⟨sign, digits, spelled, value⟩ := denotes
  have fits : fitsInt64 number.toInt = true := by
    have least := number.le_toInt
    have greatest := number.toInt_lt
    simp only [fitsInt64, Bool.and_eq_true, decide_eq_true_eq]
    omega
  simp only [parseInt, split, spelled.intPrefix_append, apart, List.append_nil, List.isEmpty_iff,
    if_neg spelled.some, digitsValue_eq, ← value, fits, if_true, Int64.ofInt_toInt]

theorem toInt_of_word {failure : Error} {number : Int64}
    (word : (if fitsInt64 value = true then Except.ok (Int64.ofInt value) else .error failure) = .ok number) :
    number.toInt = value := by
  split at word
  · rename_i fits
    simp only [fitsInt64, Bool.and_eq_true, decide_eq_true_eq] at fits
    cases word
    exact Int64.toInt_ofInt_of_le (by omega) (by omega)
  · cases word

/-- What is read is the longest integer, if it fits a word. -/
theorem parseInt_eq_ok_iff {text : String} {number : Int64} : parseInt text = .ok number ↔
    ∃ front, Longest IsInteger (Text.trim text.toList) front ∧ Denotes front number.toInt := by
  constructor
  · intro parsed
    simp only [parseInt, List.isEmpty_iff, digitsValue_eq] at parsed
    split at parsed
    · cases parsed
    · rename_i some
      obtain ⟨isPrefix, spelled⟩ := spelled_intPrefix some
      refine ⟨_, ⟨isPrefix, ⟨_, _, spelled⟩, ?_⟩, _, _, spelled, toInt_of_word parsed⟩
      rintro other ⟨rest, same⟩ ⟨sign, digits, spelled'⟩
      rw [← same, spelled'.intPrefix_append, spelled'.eq, List.prefix_append_right_inj]
      exact List.prefix_append _ _
  · rintro ⟨front, ⟨⟨rest, same⟩, _, greatest⟩, sign, digits, spelled, value⟩
    refine parseInt_of_denotes same.symm ?_ ⟨sign, digits, spelled, value⟩
    have read := spelled.intPrefix_append rest
    rw [same] at read
    obtain ⟨isPrefix, spelled'⟩ := @spelled_intPrefix (Text.trim text.toList) (by simp [read, spelled.some])
    have shorter := (greatest _ isPrefix ⟨_, _, spelled'⟩).length_le
    simp only [read, spelled.eq, List.length_append] at shorter
    exact List.length_eq_zero_iff.1 (by omega)

theorem Spelled.notBlank (spelled : Spelled text sign digits) (character : Char)
    (listed : character ∈ text) : Text.isBlank character = false := by
  obtain ⟨rfl, signs, _, all⟩ := spelled
  rcases List.mem_append.1 listed with listed | listed
  · rcases signs with rfl | rfl | rfl
    · cases listed
    · cases List.mem_singleton.1 listed
      rfl
    · cases List.mem_singleton.1 listed
      rfl
  · have bounds := Char.isDigit_iff_toNat.1 (all character listed)
    simp only [Char.reduceToNat] at bounds
    simp [Text.isBlank]
    omega

/-- Blanks are removed at the ends only. -/
theorem trim_append (clean : ∀ character ∈ front, Text.isBlank character = false) (some : front ≠ []) :
    ∃ rest', Text.trim (front ++ rest) = front ++ rest' ∧ rest' <+: rest := by
  have kept : ∀ text : List Char, (∀ character ∈ text, Text.isBlank character = false) →
      text.dropWhile Text.isBlank = text := by
    rintro (_ | ⟨first, text⟩) clean
    · rfl
    · rw [List.dropWhile_cons_of_neg (by simp [clean])]
  refine ⟨(rest.reverse.dropWhile Text.isBlank).reverse, ?_, ?_⟩
  · rw [Text.trim, List.dropWhile_append, kept front clean, if_neg (by simpa using some),
      List.reverse_append, List.dropWhile_append, kept front.reverse (by simpa using clean)]
    split <;> simp_all
  · rw [← List.reverse_suffix, List.reverse_reverse]
    exact List.dropWhile_suffix _

theorem denotes_decimal (number : Int) : Denotes (Text.decimal number).toList number := by
  have all (number : Nat) : ∀ digit ∈ Nat.toDigits 10 number, digit.isDigit = true :=
    fun _ => Nat.isDigit_of_mem_toDigits (by decide) (by decide)
  have same (number : Nat) := @Nat.ofDigitChars_toDigits 10 number (by decide) (by decide)
  cases number with
  | ofNat number =>
    refine ⟨[], Nat.toDigits 10 number, ⟨?_, .inl rfl, Nat.toDigits_ne_nil, all number⟩, ?_⟩
    · simp [Text.decimal, Text.digits]
    · simp [same]
  | negSucc number =>
    refine ⟨['-'], Nat.toDigits 10 (number + 1), ⟨?_, .inr (.inr rfl), Nat.toDigits_ne_nil, all _⟩, ?_⟩
    · simp [Text.decimal, Text.digits]
    · simp [same, Int.negSucc_eq]

/-- The integer that is read is the longest one at the start of the text, behind blanks; reading fails
exactly if there is none or it does not fit a word. An integer that was written is read again, whatever
follows its digits. -/
theorem leading_integer_read (argument : Value) (more : List Value) (console : Console) :
    (∀ number, textToInt.execute (argument :: more) console = (.ok (.int number), console) ↔
      ∃ front, Longest IsInteger (Text.trim argument.text.toList) front ∧ Denotes front number.toInt) ∧
    ((∃ failure, textToInt.execute (argument :: more) console = (.error failure, console) ∧
        failure.report.kind = .runtime) ↔
      ¬ ∃ front value, Longest IsInteger (Text.trim argument.text.toList) front ∧ Denotes front value ∧
        -2 ^ 63 ≤ value ∧ value < 2 ^ 63) ∧
    ∀ (number : Int64) (rest : String), rest.toList.takeWhile Char.isDigit = [] →
      argument.text = (Value.int number).text ++ rest →
      textToInt.execute (argument :: more) console = (.ok (.int number), console) := by
  simp only [execute_textToInt, read_ok_iff fun _ _ => Value.int.inj, read_error_iff]
  refine ⟨fun number => parseInt_eq_ok_iff, ?_, fun number rest apart same => ?_⟩
  · simp only [Ne, parseInt_eq_ok_iff]
    constructor
    · rintro fails ⟨front, value, longest, denotes, least, greatest⟩
      refine fails (Int64.ofInt value) ⟨front, longest, ?_⟩
      rwa [Int64.toInt_ofInt_of_le least greatest]
    · rintro absent number ⟨front, longest, denotes⟩
      exact absent ⟨front, _, longest, denotes, number.le_toInt, number.toInt_lt⟩
  · obtain ⟨sign, digits, spelled, value⟩ := denotes_decimal number.toInt
    obtain ⟨rest', trimmed, isPrefix⟩ := @trim_append _ rest.toList spelled.notBlank (by
      simp [spelled.eq, spelled.some])
    refine parseInt_of_denotes (by rw [same, String.toList_append]; exact trimmed) ?_
      ⟨sign, digits, spelled, value⟩
    obtain ⟨more, same⟩ := isPrefix
    rw [← same] at apart
    cases rest' with
    | nil => rfl
    | cons next rest' => simpa [List.takeWhile_cons] using apart

/-! ### Floats -/

/-- The float that a numeral denotes, if it is in range. -/
def float? (numeral : List Char) : Option Float :=
  (numeral? numeral).bind Numeral.toFloat?

def InRange (text : List Char) : Prop :=
  (float? text).isSome = true

theorem execute_textToFloat (argument : Value) (more : List Value) (console : Console) :
    textToFloat.execute (argument :: more) console = ((parseFloat argument.text).map .float, console) :=
  if_neg (by simp [arity])

variable {length : Nat}

/-- A start of a text with one more character is all of it, or a start of one with one fewer. -/
theorem prefix_take_succ (isPrefix : front <+: text.take (length + 1)) :
    front = text.take (length + 1) ∨ front <+: text.take length := by
  obtain ⟨within, short⟩ := List.prefix_take_iff.1 isPrefix
  by_cases shorter : front.length ≤ length
  · exact .inr (List.prefix_take_iff.2 ⟨within, shorter⟩)
  · have full : front.length = length + 1 := by omega
    exact .inl (full ▸ List.prefix_iff_eq_take.1 within)

theorem longest_of_floatPrefix? {number : Float} (found : floatPrefix? text length = some number) :
    ∃ front, Longest InRange (text.take length) front ∧ float? front = some number := by
  induction length with
  | zero => cases found
  | succ length ih =>
    rw [floatPrefix?] at found
    split at found
    · rename_i here
      cases found
      exact ⟨_, ⟨List.prefix_refl _, Option.isSome_of_mem here, fun _ isPrefix _ => isPrefix⟩, here⟩
    · rename_i here
      obtain ⟨front, ⟨isPrefix, holds, greatest⟩, read⟩ := ih found
      have within : text.take length <+: text.take (length + 1) := List.take_prefix_take_left (by omega)
      refine ⟨front, ⟨isPrefix.trans within, holds, fun other isPrefix holds => ?_⟩, read⟩
      rcases prefix_take_succ isPrefix with rfl | within
      · cases (Option.isSome_iff_ne_none.1 holds) here
      · exact greatest other within holds

theorem not_inRange_of_floatPrefix? (absent : floatPrefix? text length = none)
    (isPrefix : front <+: text.take length) : ¬ InRange front := by
  induction length with
  | zero =>
    rw [List.take_zero, List.prefix_nil] at isPrefix
    cases isPrefix
    exact Bool.noConfusion
  | succ length ih =>
    rw [floatPrefix?] at absent
    split at absent
    · cases absent
    · rename_i here
      rcases prefix_take_succ isPrefix with rfl | within
      · exact fun holds => (Option.isSome_iff_ne_none.1 holds) here
      · exact ih absent within

theorem parseFloat_eq_ok_iff {text : String} {number : Float} :
    parseFloat text = .ok number ↔
      ∃ front, Longest InRange (Text.trim text.toList) front ∧ float? front = some number := by
  unfold parseFloat
  simp only
  split
  · rename_i found
    obtain ⟨front, longest, read⟩ := longest_of_floatPrefix? found
    rw [List.take_length] at longest
    constructor
    · rintro ⟨⟩
      exact ⟨front, longest, read⟩
    · rintro ⟨other, longest', read'⟩
      rw [longest.unique longest', read'] at read
      exact congrArg _ (Option.some.inj read).symm
  · rename_i absent
    refine iff_of_false (by rintro ⟨⟩) ?_
    rintro ⟨front, longest, _⟩
    exact not_inRange_of_floatPrefix? absent (by rw [List.take_length]; exact longest.isPrefix) longest.holds

/-- The float that is read is that of the longest start of the text, behind blanks, that is a numeral in
range; reading fails exactly if there is none. So where the longest numeral is in range, it is the one
that is read. -/
theorem leading_float_read (argument : Value) (more : List Value) (console : Console) :
    (∀ number, textToFloat.execute (argument :: more) console = (.ok (.float number), console) ↔
      ∃ front, Longest InRange (Text.trim argument.text.toList) front ∧ float? front = some number) ∧
    ((∃ failure, textToFloat.execute (argument :: more) console = (.error failure, console) ∧
        failure.report.kind = .runtime) ↔
      ¬ ∃ front, front <+: Text.trim argument.text.toList ∧ InRange front) ∧
    ∀ front number, Longest (fun front => (numeral? front).isSome = true)
      (Text.trim argument.text.toList) front → float? front = some number →
      textToFloat.execute (argument :: more) console = (.ok (.float number), console) := by
  have reads (number : Float) : textToFloat.execute (argument :: more) console =
      (.ok (.float number), console) ↔
      ∃ front, Longest InRange (Text.trim argument.text.toList) front ∧ float? front = some number := by
    rw [execute_textToFloat, read_ok_iff fun _ _ => Value.float.inj, parseFloat_eq_ok_iff]
  refine ⟨reads, ?_, fun front number longest read =>
    (reads number).2 ⟨front, ⟨longest.isPrefix, ?_, ?_⟩, read⟩⟩
  · rw [execute_textToFloat, read_error_iff]
    constructor
    · rintro fails ⟨front, isPrefix, holds⟩
      cases found : floatPrefix? (Text.trim argument.text.toList) (Text.trim argument.text.toList).length with
      | none => exact not_inRange_of_floatPrefix? found (by rwa [List.take_length]) holds
      | some number => exact fails number (by simp only [parseFloat, found])
    · intro absent number given
      obtain ⟨front, longest, _⟩ := parseFloat_eq_ok_iff.1 given
      exact absent ⟨front, longest.isPrefix, longest.holds⟩
  · exact Option.isSome_of_mem read
  · intro other isPrefix holds
    exact longest.greatest other isPrefix (Option.isSome_of_isSome_bind holds)

/-- A numeral out of range is not refused, but cut short. -/
theorem float_out_of_range_cut_short :
    (numeral? "1e400".toList).isSome = true ∧ ¬ InRange "1e400".toList ∧
      textToFloat.execute [.string "1e400"] (.ofInput "") = (.ok (.float 1e40), .ofInput "") := by
  have read : floatPrefix? (Text.trim "1e400".toList) (Text.trim "1e400".toList).length = some 1e40 := by
    decide +kernel
  refine ⟨by decide, by unfold InRange; decide +kernel, ?_⟩
  simp only [execute_textToFloat, Value.text, parseFloat, read, Except.map]

end Quadruple.Native
