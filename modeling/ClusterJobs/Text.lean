/-
This file holds the text operations of the Python programs: `split` at a character (which is
`List.splitOn`), `strip`, `readlines`, the slice `[0:-2]` and `int`. A text is the list of
its characters, and texts are compared character by character, so that numbers printed without
leading zeros need not come in the order of their values. The last part says what `readlines` makes
of a text that was cut off in the middle: the complete lines up to the cut, and the piece of a line
it was made in.
-/

import Mathlib.Algebra.Group.Nat.Defs
import Mathlib.Data.Char
import Mathlib.Data.List.Infix
import Mathlib.Data.List.Lex
import Mathlib.Tactic.Common

namespace Python

abbrev Text := List Char

instance decidableMemText (text : Text) (texts : List Text) : Decidable (text ∈ texts) :=
  inferInstance

/-- The system calls whose failure raises `OSError`. -/
inductive OsCall
  | rename
  | chdir
  | listdir
  | open
  deriving DecidableEq, Repr

/-- The exceptions the programs can raise. -/
inductive PyError
  | indexError
  | keyError
  | valueError
  | typeError
  | osError (call : OsCall)
  deriving DecidableEq, Repr

/-! ### `strip`, `readlines` and `int` -/

/-- The characters `str.strip()` removes. -/
def isSpace (character : Char) : Bool :=
  character ∈ [' ', '\t', '\n', '\r', '\x0b', '\x0c']

/-- `text.strip()`. -/
def strip (text : Text) : Text :=
  ((text.dropWhile isSpace).reverse.dropWhile isSpace).reverse

/-- `file.readlines()`: the lines with their newline; the last one may lack it. -/
def readlines : Text → List Text
  | [] => []
  | character :: rest =>
    if character = '\n' then [character] :: readlines rest
    else match readlines rest with
      | [] => [[character]]
      | line :: lines => (character :: line) :: lines

/-- `items[0:-2]`. -/
def dropLastTwo {α : Type} (items : List α) : List α := items.take (items.length - 2)

/-- The value of a text of decimal digits; `none` when it has another character or none. -/
def digitsValue (digits : Text) : Option Nat :=
  if digits ≠ [] ∧ digits.all Char.isDigit then
    some (digits.foldl (fun value digit => 10 * value + (digit.toNat - '0'.toNat)) 0)
  else none

/-- `int(text)` in base ten: blanks around the number and one sign are accepted. -/
def int (text : Text) : Except PyError Int :=
  match strip text with
  | '-' :: digits => (digitsValue digits).elim (.error .valueError) fun value => .ok (-value)
  | '+' :: digits => (digitsValue digits).elim (.error .valueError) fun value => .ok value
  | digits => (digitsValue digits).elim (.error .valueError) fun value => .ok value

/-- `int` raises `ValueError` and nothing else. -/
theorem int_error {text : Text} {error : PyError} (raised : int text = .error error) :
    error = .valueError := by
  have either : ∀ (value : Option Nat) (result : Nat → Int),
      value.elim (Except.error PyError.valueError) (fun value => Except.ok (result value)) =
        Except.error error → error = .valueError := by
    intro value result raised
    cases value with
    | none => exact (Except.error.inj raised).symm
    | some value => cases raised
  unfold int at raised
  split at raised
  · exact either _ _ raised
  · exact either _ _ raised
  · exact either _ _ raised

/-- A non-negative number as `str` and `%lld` print it. -/
def decimal (value : Nat) : Text := Nat.toDigits 10 value

/-- An integer as `%lld` prints it. -/
def signedDecimal (value : Int) : Text :=
  if value < 0 then '-' :: decimal value.natAbs else decimal value.natAbs

theorem newline_not_mem_decimal (value : Nat) : '\n' ∉ decimal value := by
  intro member
  have digit := Nat.isDigit_of_mem_toDigits (by decide) (by decide) member
  exact absurd digit (by decide)

theorem newline_not_mem_signedDecimal (value : Int) : '\n' ∉ signedDecimal value := by
  unfold signedDecimal
  split
  · rw [List.mem_cons, not_or]
    exact ⟨by decide, newline_not_mem_decimal _⟩
  · exact newline_not_mem_decimal _

/-! ### Reading back what was printed -/

theorem dropWhile_blanks {blanks text : Text} (blank : ∀ character ∈ blanks, isSpace character)
    (first : ∀ character, text.head? = some character → isSpace character = false) :
    (blanks ++ text).dropWhile isSpace = text := by
  rw [List.dropWhile_append_of_pos blank]
  cases text with
  | nil => rfl
  | cons character rest => rw [List.dropWhile_cons_of_neg (by simp [first character rfl])]

/-- `strip` takes blanks away up to the first and the last character that is none. -/
theorem strip_blanks {left text right : Text} (blankLeft : ∀ character ∈ left, isSpace character)
    (blankRight : ∀ character ∈ right, isSpace character) (nonempty : text ≠ [])
    (first : ∀ character, text.head? = some character → isSpace character = false)
    (last : ∀ character, text.getLast? = some character → isSpace character = false) :
    strip (left ++ text ++ right) = text := by
  have front : (left ++ (text ++ right)).dropWhile isSpace = text ++ right := by
    refine dropWhile_blanks blankLeft fun character found => first character ?_
    rwa [List.head?_append_of_ne_nil _ nonempty] at found
  have back : (right.reverse ++ text.reverse).dropWhile isSpace = text.reverse := by
    refine dropWhile_blanks (fun character member => ?_) fun character found => ?_
    · exact blankRight character (List.mem_reverse.mp member)
    · exact last character (by rwa [List.head?_reverse] at found)
  rw [strip, List.append_assoc, front, List.reverse_append, back, List.reverse_reverse]

theorem isDigit_of_mem_decimal {value : Nat} {character : Char}
    (member : character ∈ decimal value) : character.isDigit :=
  Nat.isDigit_of_mem_toDigits (by decide) (by decide) member

theorem isSpace_of_isDigit {character : Char} (digit : character.isDigit) :
    isSpace character = false := by
  rw [isSpace, decide_eq_false_iff_not]
  intro member
  simp only [List.mem_cons, List.not_mem_nil, or_false] at member
  rcases member with rfl | rfl | rfl | rfl | rfl | rfl <;> exact absurd digit (by decide)

theorem digitsValue_decimal (value : Nat) : digitsValue (decimal value) = some value := by
  have digits : (decimal value).all Char.isDigit :=
    List.all_eq_true.mpr fun _ => isDigit_of_mem_decimal
  rw [digitsValue, if_pos ⟨Nat.toDigits_ne_nil, digits⟩]
  exact congrArg some Nat.ofDigitChars_ten_toDigits

/-- No character of a printed integer is a blank. -/
theorem isSpace_of_mem_signedDecimal {value : Int} {character : Char}
    (member : character ∈ signedDecimal value) : isSpace character = false := by
  unfold signedDecimal at member
  split at member
  · rcases List.mem_cons.mp member with rfl | digit
    · decide
    · exact isSpace_of_isDigit (isDigit_of_mem_decimal digit)
  · exact isSpace_of_isDigit (isDigit_of_mem_decimal member)

theorem signedDecimal_ne_nil (value : Int) : signedDecimal value ≠ [] := by
  unfold signedDecimal
  split
  · exact List.cons_ne_nil _ _
  · exact Nat.toDigits_ne_nil

/-- Blanks around a printed integer are stripped. -/
theorem strip_signedDecimal {left right : Text} (blankLeft : ∀ character ∈ left, isSpace character)
    (blankRight : ∀ character ∈ right, isSpace character) (value : Int) :
    strip (left ++ signedDecimal value ++ right) = signedDecimal value :=
  strip_blanks blankLeft blankRight (signedDecimal_ne_nil value)
    (fun _ found => isSpace_of_mem_signedDecimal (List.mem_of_mem_head? found))
    (fun _ found => isSpace_of_mem_signedDecimal (List.mem_of_getLast? found))

/-- `int` reads back what `%lld` prints. -/
theorem int_signedDecimal (value : Int) : int (signedDecimal value) = .ok value := by
  have blanks : strip ([] ++ signedDecimal value ++ []) = signedDecimal value :=
    strip_signedDecimal (by simp) (by simp) value
  rw [List.nil_append, List.append_nil] at blanks
  have number := digitsValue_decimal value.natAbs
  rw [int, blanks, signedDecimal]
  by_cases negative : value < 0
  · rw [if_pos negative]
    simp only [number, Option.elim_some]
    congr 1
    omega
  · rw [if_neg negative]
    have natural : (value.natAbs : Int) = value := by omega
    split
    · rename_i digits same
      exact absurd (isDigit_of_mem_decimal (same ▸ List.mem_cons_self)) (by decide)
    · rename_i digits same
      exact absurd (isDigit_of_mem_decimal (same ▸ List.mem_cons_self)) (by decide)
    · rw [number, Option.elim_some, natural]

theorem int_decimal (value : Nat) : int (decimal value) = .ok value := by
  have unsigned : signedDecimal value = decimal value := by
    rw [signedDecimal, if_neg (by omega), Int.natAbs_natCast]
  rw [← unsigned]
  exact int_signedDecimal value

/-! ### Printed numbers in the order of their characters -/

theorem isDigit_toNat {digit : Char} (isDigit : digit.isDigit) :
    48 ≤ digit.toNat ∧ digit.toNat ≤ 57 := by
  simp only [Char.isDigit, Bool.and_eq_true, decide_eq_true_eq] at isDigit
  exact isDigit

theorem ofDigitChars_cons_eq (digit : Char) (digits : Text) :
    Nat.ofDigitChars 10 (digit :: digits) 0 =
      (digit.toNat - 48) * 10 ^ digits.length + Nat.ofDigitChars 10 digits 0 := by
  rw [Nat.ofDigitChars_cons, Nat.ofDigitChars_eq_ofDigitChars_zero, Nat.mul_zero, Nat.zero_add,
    Nat.mul_comm]
  rfl

theorem ofDigitChars_lt {digits : Text} (areDigits : ∀ digit ∈ digits, digit.isDigit) :
    Nat.ofDigitChars 10 digits 0 < 10 ^ digits.length := by
  induction digits with
  | nil => simp
  | cons digit digits inductionHypothesis =>
    obtain ⟨first, others⟩ := List.forall_mem_cons.mp areDigits
    have value := inductionHypothesis others
    have range := isDigit_toNat first
    have bound : (digit.toNat - 48) * 10 ^ digits.length ≤ 9 * 10 ^ digits.length :=
      Nat.mul_le_mul_right _ (by omega)
    rw [ofDigitChars_cons_eq, List.length_cons, Nat.pow_succ]
    omega

/-- Of two texts of digits the shorter one comes first exactly when its number, filled up with
zeros, is not greater. -/
theorem not_lt_iff_filled_up {shorter longer : Text}
    (digits : ∀ digit ∈ shorter, digit.isDigit) (digits' : ∀ digit ∈ longer, digit.isDigit)
    (length : shorter.length ≤ longer.length) :
    ¬ longer < shorter ↔
      Nat.ofDigitChars 10 shorter 0 * 10 ^ (longer.length - shorter.length) ≤
        Nat.ofDigitChars 10 longer 0 := by
  induction shorter generalizing longer with
  | nil => simp
  | cons first shorter inductionHypothesis =>
    cases longer with
    | nil => cases length
    | cons first' longer =>
      obtain ⟨isDigit, others⟩ := List.forall_mem_cons.mp digits
      obtain ⟨isDigit', others'⟩ := List.forall_mem_cons.mp digits'
      have range := isDigit_toNat isDigit
      have range' := isDigit_toNat isDigit'
      have length' : shorter.length ≤ longer.length := Nat.le_of_succ_le_succ length
      have rest := inductionHypothesis others others' length'
      -- Both remainders are below the power of ten that belongs to the first digits.
      have power : 10 ^ shorter.length * 10 ^ (longer.length - shorter.length) =
          10 ^ longer.length := by
        rw [← Nat.pow_add, Nat.add_sub_cancel' length']
      have remainder : Nat.ofDigitChars 10 shorter 0 * 10 ^ (longer.length - shorter.length) <
          10 ^ longer.length := by
        rw [← power]
        exact Nat.mul_lt_mul_of_pos_right (ofDigitChars_lt others) (Nat.pow_pos (by decide))
      have remainder' := ofDigitChars_lt others'
      rw [List.cons_lt_cons_iff, ofDigitChars_cons_eq, ofDigitChars_cons_eq, List.length_cons,
        List.length_cons, Nat.add_sub_add_right, Nat.add_mul, Nat.mul_assoc, power]
      rcases Nat.lt_trichotomy first.toNat first'.toNat with less | same | more
      · have step : (first.toNat - 48 + 1) * 10 ^ longer.length ≤
            (first'.toNat - 48) * 10 ^ longer.length := Nat.mul_le_mul_right _ (by omega)
        rw [Nat.add_mul, Nat.one_mul] at step
        refine iff_of_true ?_ (by omega)
        rintro (before | ⟨equal, _⟩)
        · have smaller : first'.toNat < first.toNat := before
          omega
        · rw [equal] at less
          omega
      · obtain rfl := Char.toNat_inj.mp same
        rw [Nat.add_le_add_iff_left, ← rest]
        simp
      · have step : (first'.toNat - 48 + 1) * 10 ^ longer.length ≤
            (first.toNat - 48) * 10 ^ longer.length := Nat.mul_le_mul_right _ (by omega)
        rw [Nat.add_mul, Nat.one_mul] at step
        refine iff_of_false (fun order => order (.inl ?_)) (by omega)
        exact more

theorem length_decimal_le {number latest : Nat} (le : number ≤ latest) :
    (decimal number).length ≤ (decimal latest).length := by
  have bound := (Nat.length_toDigits_le_iff (b := 10) (by decide) Nat.length_toDigits_pos).mp
    (Nat.le_refl (decimal latest).length)
  exact (Nat.length_toDigits_le_iff (by decide) Nat.length_toDigits_pos).mpr (le.trans_lt bound)

/-- When a number does not come after a greater one in the order of the characters. -/
theorem decimal_not_lt_iff {number latest : Nat} (le : number ≤ latest) :
    ¬ decimal latest < decimal number ↔
      number * 10 ^ ((decimal latest).length - (decimal number).length) ≤ latest := by
  rw [not_lt_iff_filled_up (fun _ => isDigit_of_mem_decimal) (fun _ => isDigit_of_mem_decimal)
    (length_decimal_le le), decimal, decimal, Nat.ofDigitChars_ten_toDigits,
    Nat.ofDigitChars_ten_toDigits]

/-! ### Reading a text that was cut off -/

/-- A line with its newline at the end and nowhere else. -/
def IsLine (line : Text) : Prop := ∃ body, '\n' ∉ body ∧ line = body ++ ['\n']

theorem readlines_line {body : Text} (plain : '\n' ∉ body) (rest : Text) :
    readlines (body ++ '\n' :: rest) = (body ++ ['\n']) :: readlines rest := by
  induction body with
  | nil => rw [List.nil_append, readlines, if_pos rfl, List.nil_append]
  | cons head body inductionHypothesis =>
    rw [List.mem_cons, not_or] at plain
    rw [List.cons_append, readlines, if_neg (Ne.symm plain.1), inductionHypothesis plain.2,
      List.cons_append]

/-- A text without a newline is read as one line, or as none when it is empty. -/
theorem readlines_plain {body : Text} (plain : '\n' ∉ body) :
    readlines body = if body = [] then [] else [body] := by
  induction body with
  | nil => rfl
  | cons head body inductionHypothesis =>
    rw [List.mem_cons, not_or] at plain
    rw [readlines, if_neg (Ne.symm plain.1), inductionHypothesis plain.2]
    by_cases empty : body = [] <;> simp [empty]

/-- A cut-off text of lines is read as the lines before the cut and, when the cut falls inside
a line, the piece of that line before it. -/
theorem readlines_cut (lines : List Text) (whole : ∀ line ∈ lines, IsLine line) (text : Text)
    (cut : text <+: lines.flatten) :
    ∃ count piece, readlines text = lines.take count ++ (if piece = [] then [] else [piece]) ∧
      text = (lines.take count).flatten ++ piece ∧
      (piece ≠ [] → ∃ line, lines[count]? = some line ∧ piece.length < line.length) := by
  induction lines generalizing text with
  | nil =>
    have empty : text = [] := List.prefix_nil.mp cut
    exact ⟨0, [], by rw [empty]; rfl, by simp [empty], fun nonempty => absurd rfl nonempty⟩
  | cons line lines inductionHypothesis =>
    obtain ⟨body, plain, rfl⟩ := whole line List.mem_cons_self
    rw [List.flatten_cons] at cut
    by_cases short : text.length ≤ body.length
    · have within : text <+: body := by
        refine List.prefix_of_prefix_length_le cut ?_ short
        rw [List.append_assoc]
        exact List.prefix_append _ _
      have plainText : '\n' ∉ text := fun member => plain (within.subset member)
      refine ⟨0, text, ?_, rfl, fun _ => ⟨_, rfl, ?_⟩⟩
      · rw [readlines_plain plainText, List.take_zero, List.nil_append]
      · rw [List.length_append, List.length_singleton]
        omega
    · have covers : body ++ ['\n'] <+: text := by
        refine List.prefix_of_prefix_length_le (List.prefix_append _ _) cut ?_
        rw [List.length_append, List.length_singleton]
        omega
      obtain ⟨rest, rfl⟩ := covers
      obtain ⟨count, piece, read, split, inside⟩ := inductionHypothesis
        (fun line member => whole line (List.mem_cons_of_mem _ member)) rest
        ((List.prefix_append_right_inj _).mp cut)
      refine ⟨count + 1, piece, ?_, ?_, inside⟩
      · rw [List.append_assoc, List.singleton_append, readlines_line plain, read,
          List.take_succ_cons, List.cons_append]
      · rw [List.take_succ_cons, List.flatten_cons, List.append_assoc (body ++ ['\n']), ← split]

/-- A complete text of lines is read as these lines. -/
theorem readlines_flatten (lines : List Text) (whole : ∀ line ∈ lines, IsLine line) :
    readlines lines.flatten = lines := by
  induction lines with
  | nil => rfl
  | cons line lines inductionHypothesis =>
    obtain ⟨body, plain, rfl⟩ := whole line List.mem_cons_self
    rw [List.flatten_cons, List.append_assoc, List.singleton_append, readlines_line plain,
      inductionHypothesis fun other member => whole other (List.mem_cons_of_mem _ member)]

end Python
