/-
This file says what a text for `dmtcp_env.txt` means, and proves that the plugin reads it that way.

A line sets a variable to a value, removes one, or does nothing; a comment may stand behind it. A
value is put together from plain characters, escaped characters, quoted text and variables. The
meaning of a value depends on the lines before: a variable that one of them has set stands for its
new value.

Some texts have no such meaning, and the plugin does something else with them: in a value a second
`=` throws away what comes before it, and a line that begins with `=` makes the plugin ignore all
lines after it.
-/

import ClusterJobs.ModifyEnv
import Mathlib.Data.List.TakeWhile

namespace ClusterJobs.ModifyEnv

open Python RestartEnv

/-! ### The meaning of a text -/

inductive Piece
  | plain (character : Char)
  | escaped (character : Char)
  | quoted (text : Text)
  | expansion (name : Text)
  deriving DecidableEq, Repr

inductive Setting
  | nothing
  | remove (name : Text)
  | assign (name : Text) (value : List Piece)
  deriving DecidableEq, Repr

/-- A line, with what stands behind the setting. -/
structure Line where
  setting : Setting
  comment : Text
  deriving DecidableEq, Repr

def Piece.text : Piece → Text
  | .plain character => [character]
  | .escaped character => ['\\', character]
  | .quoted text => '"' :: text ++ ['"']
  | .expansion name => '$' :: name

def Setting.text : Setting → Text
  | .nothing => []
  | .remove name => name
  | .assign name value => name ++ '=' :: value.flatMap Piece.text

def Line.text (line : Line) : Text := line.setting.text ++ line.comment ++ ['\n']

/-- The environment, and the names that have been changed in it. -/
structure Outcome where
  environ : Environ
  changed : List Text := []

/-- What a variable stands for: its new value, or the one in the environment of the restart. -/
def Outcome.lookup (restart : Text → Option Text) (outcome : Outcome) (name : Text) :
    Option Text :=
  (if name ∈ outcome.changed then outcome.environ.lookup name else none).or (restart name)

def Piece.meaning (restart : Text → Option Text) (outcome : Outcome) : Piece → Text
  | .plain character => [character]
  | .escaped character => [character]
  | .quoted text => text
  | .expansion name => (outcome.lookup restart name).getD []

def Setting.apply (restart : Text → Option Text) (outcome : Outcome) : Setting → Outcome
  | .nothing => outcome
  | .remove name => ⟨outcome.environ.erase name, outcome.changed ++ [name]⟩
  | .assign name value =>
    ⟨outcome.environ.insert name (value.flatMap (Piece.meaning restart outcome)),
      outcome.changed ++ [name]⟩

/-- The environment that a text leads to. -/
def apply (restart : Text → Option Text) (outcome : Outcome) (lines : List Line) : Outcome :=
  lines.foldl (fun outcome line => line.setting.apply restart outcome) outcome

/-! ### Texts that have a meaning -/

/-- The characters with a meaning of their own. -/
def special : List Char := [nul, readEOF, '\n', ' ', '\t', '#', '=', '\\', '"', '$']

/-- Those that keep it in quotes. -/
def specialInQuotes : List Char := [nul, readEOF, '=', '\\', '"', '$']

def IsName (name : Text) : Prop :=
  name ≠ [] ∧ name.length + 1 < bufSize ∧ ∀ character ∈ name, character ∉ special

def IsComment (comment : Text) : Prop :=
  (∀ character ∈ comment.head?, character = ' ' ∨ character = '\t' ∨ character = '#') ∧
    ∀ character ∈ comment, character ≠ '\n' ∧ character ≠ readEOF

/-- What follows a variable does not look like a part of its name. -/
def EndsName (rest : Text) : Prop := ∀ character ∈ rest.head?, isNameChar character = false

/-- A piece is written as the plugin understands it, and there is room for it behind `used`
characters. The test for the room that a variable needs looks at its name as well. -/
def Piece.Fits (restart : Text → Option Text) (outcome : Outcome) (used : Nat) (rest : Text) :
    Piece → Prop
  | .plain character => character ∉ special ∧ used + 1 < bufSize
  | .escaped character => character ≠ nul ∧ used + 1 < bufSize
  | .quoted text => (∀ character ∈ text, character ∉ specialInQuotes) ∧
      used + text.length < bufSize
  | .expansion name => name ≠ [] ∧ (∀ character ∈ name, isNameChar character = true) ∧
      EndsName rest ∧ used + name.length < bufSize ∧
      ∃ value, outcome.lookup restart name = some value ∧ nul ∉ value ∧
        used + value.length < bufSize

/-- The pieces of a value, one after the other. -/
def PiecesFit (restart : Text → Option Text) (outcome : Outcome) : Nat → List Piece → Prop
  | _, [] => True
  | used, piece :: pieces =>
    piece.Fits restart outcome used (pieces.flatMap Piece.text) ∧
      PiecesFit restart outcome (used + (piece.meaning restart outcome).length) pieces

def Setting.Fits (restart : Text → Option Text) (outcome : Outcome) : Setting → Prop
  | .nothing => True
  | .remove name => IsName name
  | .assign name value => IsName name ∧ PiecesFit restart outcome 0 value

/-- The lines of a text, one after the other. -/
def LinesFit (restart : Text → Option Text) : Outcome → List Line → Prop
  | _, [] => True
  | outcome, line :: lines =>
    line.setting.Fits restart outcome ∧ IsComment line.comment ∧
      LinesFit restart (line.setting.apply restart outcome) lines

/-! ### Rounds of the loop -/

variable {restartEnv : Text → Nat → Except Fault Lookup}

/-- The loop gets from one place to another. -/
inductive Reads (restartEnv : Text → Nat → Except Fault Lookup) :
    Reader → Text → Reader → Text → Prop
  | stop (reader : Reader) (buffer : Text) : Reads restartEnv reader buffer reader buffer
  | round {reader next last : Reader} {character : Char} {rest after final : Text}
      (goesOn : character ≠ readEOF)
      (result : iteration restartEnv reader character rest = .ok (next, after))
      (reads : Reads restartEnv next after last final) :
      Reads restartEnv reader (character :: rest) last final

section Reads

variable {reader next last : Reader} {buffer after final : Text}

theorem Reads.trans (first : Reads restartEnv reader buffer next after)
    (second : Reads restartEnv next after last final) :
    Reads restartEnv reader buffer last final := by
  induction first with
  | stop => exact second
  | round goesOn result _ inductionHypothesis =>
    exact .round goesOn result (inductionHypothesis second)

/-- A single round. -/
theorem reads_round {character : Char} {rest : Text} (goesOn : character ≠ readEOF)
    (result : iteration restartEnv reader character rest = .ok (next, after)) :
    Reads restartEnv reader (character :: rest) next after :=
  .round goesOn result (.stop next after)

theorem map_pair_eq_ok {result : Except Fault Reader} {rest : Text}
    (same : result.map (fun reader => (reader, rest)) = .ok (next, after)) : after = rest := by
  cases result with
  | error fault => cases same
  | ok reader => cases same; rfl

/-- Every round consumes what it has looked at. -/
theorem length_le_of_iteration {character : Char} {rest : Text}
    (result : iteration restartEnv reader character rest = .ok (next, after)) :
    after.length ≤ rest.length := by
  unfold iteration at result
  split at result
  case h_2 | h_3 | h_4 =>
    split at result
    · rw [map_pair_eq_ok result]
    · cases result
      exact (List.dropWhile_suffix _).length_le
  case h_6 =>
    split at result
    · cases result
    · rw [map_pair_eq_ok result]
      simp
  case h_7 =>
    cases result
    exact le_rfl
  case h_8 =>
    rw [map_pair_eq_ok result]
    exact (List.dropWhile_suffix _).length_le
  all_goals rw [map_pair_eq_ok result]

/-- When the loop gets to the mark, it returns. -/
theorem Reads.readLoop (reads : Reads restartEnv reader buffer last (readEOF :: final))
    {rounds : Nat} (enough : buffer.length ≤ rounds) :
    readLoop restartEnv rounds reader buffer = .ok last.environ := by
  generalize mark : readEOF :: final = rest at reads
  induction reads generalizing rounds with
  | stop reader buffer =>
    subst mark
    obtain ⟨rounds, rfl⟩ : ∃ more, rounds = more + 1 :=
      Nat.exists_eq_succ_of_ne_zero (by rw [List.length_cons] at enough; omega)
    rw [ModifyEnv.readLoop, if_pos rfl]
  | round goesOn result _ inductionHypothesis =>
    rw [List.length_cons] at enough
    obtain ⟨rounds, rfl⟩ : ∃ more, rounds = more + 1 :=
      Nat.exists_eq_succ_of_ne_zero (by omega)
    have shorter := length_le_of_iteration result
    rw [ModifyEnv.readLoop, if_neg goesOn]
    simp only [result]
    exact inductionHypothesis (by omega) mark

end Reads

/-! ### Characters -/

section Writing

variable {reader : Reader}

@[simp] theorem written_write (text : Text) :
    (reader.write text).written = reader.written ++ text := by
  cases value : reader.inValue <;> simp [Reader.write, Reader.written, value]

@[simp] theorem inValue_write (text : Text) : (reader.write text).inValue = reader.inValue := by
  cases value : reader.inValue <;> simp [Reader.write, value]

@[simp] theorem isStringMode_write (text : Text) :
    (reader.write text).isStringMode = reader.isStringMode := by
  cases value : reader.inValue <;> simp [Reader.write, value]

theorem write_append (first second : Text) :
    (reader.write first).write second = reader.write (first ++ second) := by
  cases value : reader.inValue <;> simp [Reader.write, value]

theorem write_nil : reader.write [] = reader := by
  cases value : reader.inValue <;> simp [Reader.write]

theorem put_eq {character : Char} (room : reader.written.length < bufSize) :
    reader.put character = .ok (reader.write [character]) := if_pos room

/-- Texts of which each character is put where it belongs. -/
theorem reads_text (accepted : Reader → Char → Prop)
    (stays : ∀ reader text character, accepted reader character →
      accepted (reader.write text) character)
    (puts : ∀ reader character, accepted reader character → character ≠ readEOF ∧
      ∀ rest, iteration restartEnv reader character rest = (reader.put character).map (·, rest))
    {text : Text} (accepts : ∀ character ∈ text, accepted reader character)
    (room : reader.written.length + text.length ≤ bufSize) (rest : Text) :
    Reads restartEnv reader (text ++ rest) (reader.write text) rest := by
  induction text generalizing reader with
  | nil =>
    rw [write_nil]
    exact .stop reader rest
  | cons character text inductionHypothesis =>
    rw [List.length_cons] at room
    obtain ⟨here, later⟩ := List.forall_mem_cons.mp accepts
    obtain ⟨goesOn, result⟩ := puts reader character here
    have shorter : (reader.write [character]).written.length + text.length ≤ bufSize := by
      rw [written_write, List.length_append, List.length_singleton]
      omega
    have reads := inductionHypothesis (fun other found => stays _ _ _ (later other found)) shorter
    rw [write_append, List.singleton_append] at reads
    refine .round goesOn ?_ reads
    rw [result, put_eq (by omega)]
    rfl

theorem iteration_plain {character : Char} (plain : character ∉ special) (rest : Text) :
    iteration restartEnv reader character rest = (reader.put character).map (·, rest) := by
  unfold iteration
  split
  case h_9 => rfl
  all_goals exact absurd (by decide) plain

theorem iteration_quoted {character : Char} (plain : character ∉ specialInQuotes)
    (quoted : reader.isStringMode = true) (rest : Text) :
    iteration restartEnv reader character rest = (reader.put character).map (·, rest) := by
  unfold iteration
  split
  case h_1 => rw [Reader.newline, if_pos quoted]
  case h_2 | h_3 | h_4 => rw [if_pos quoted]
  case h_9 => rfl
  all_goals exact absurd (by decide) plain

theorem reads_plain (reader : Reader) {text : Text}
    (plain : ∀ character ∈ text, character ∉ special)
    (room : reader.written.length + text.length ≤ bufSize) (rest : Text) :
    Reads restartEnv reader (text ++ rest) (reader.write text) rest := by
  refine reads_text (fun _ character => character ∉ special)
    (fun _ _ _ accepts => accepts) (fun reader character accepts => ⟨?_, ?_⟩) plain room rest
  · rintro rfl
    exact accepts (by decide)
  · exact iteration_plain accepts

theorem reads_quoted (reader : Reader) {text : Text}
    (plain : ∀ character ∈ text, character ∉ specialInQuotes)
    (quoted : reader.isStringMode = true)
    (room : reader.written.length + text.length ≤ bufSize) (rest : Text) :
    Reads restartEnv reader (text ++ rest) (reader.write text) rest := by
  refine reads_text
    (fun reader character => character ∉ specialInQuotes ∧ reader.isStringMode = true)
    (fun reader text character accepts => ⟨accepts.1, by simpa using accepts.2⟩)
    (fun reader character accepts => ⟨?_, ?_⟩)
    (fun character found => ⟨plain character found, quoted⟩) room rest
  · rintro rfl
    exact accepts.1 (by decide)
  · exact iteration_quoted accepts.1 accepts.2

end Writing

/-! ### Values -/

/-- What the lookup in the environment of the restart is good for: a name that is there is answered
when there is room for it and for its value. -/
def Answers (restartEnv : Text → Nat → Except Fault Lookup) (restart : Text → Option Text) : Prop :=
  ∀ name value, restart name = some value → ∀ maxvaluelen, name.length < maxvaluelen →
    value.length < maxvaluelen →
    restartEnv name maxvaluelen = .ok { rc := .success, value := value, terminated := true }

/-- The plugin knows what has happened before. An empty name is of no use to anybody. -/
structure Agrees (reader : Reader) (outcome : Outcome) : Prop where
  environ : reader.environ = outcome.environ
  changed : ∀ name, name ≠ [] → (name ∈ reader.nameChanged ↔ name ∈ outcome.changed)

theorem Agrees.write {reader : Reader} {outcome : Outcome} (agrees : Agrees reader outcome)
    (text : Text) : Agrees (reader.write text) outcome := by
  obtain ⟨environ, changed⟩ := agrees
  unfold Reader.write
  split <;> exact ⟨environ, changed⟩

section Values

variable {restart : Text → Option Text} {reader : Reader} {outcome : Outcome}

/-- `$name` in a value. -/
theorem expand_eq (answers : Answers restartEnv restart) (agrees : Agrees reader outcome)
    (inValue : reader.inValue = true) {name value : Text} (isName : name ≠ [])
    (nameFits : reader.value.length + name.length < bufSize)
    (isValue : outcome.lookup restart name = some value)
    (valueFits : reader.value.length + value.length < bufSize) :
    reader.expand restartEnv name = .ok (reader.write value) := by
  have written : reader.written = reader.value := if_pos inValue
  have short : name.length < bufSize := by omega
  have room : reader.value.length < bufSize := by omega
  have same : (if name ∈ reader.nameChanged then reader.environ.lookup name else none) =
      if name ∈ outcome.changed then outcome.environ.lookup name else none := by
    rw [agrees.environ]
    simp only [agrees.changed name isName]
  unfold Reader.expand
  rw [if_pos short, same, written]
  rw [Outcome.lookup] at isValue
  cases new : (if name ∈ outcome.changed then outcome.environ.lookup name else none) with
  | some newValue =>
    rw [new, Option.some_or] at isValue
    cases isValue
    simp [valueFits]
  | none =>
    rw [new, Option.none_or] at isValue
    have answer := answers name value isValue (bufSize - reader.value.length) (by omega) (by omega)
    simp [inValue, room, answer]

theorem reads_piece (answers : Answers restartEnv restart) (agrees : Agrees reader outcome)
    (inValue : reader.inValue = true) (unquoted : reader.isStringMode = false) {piece : Piece}
    {rest : Text} (fits : piece.Fits restart outcome reader.value.length rest) :
    Reads restartEnv reader (piece.text ++ rest)
      (reader.write (piece.meaning restart outcome)) rest := by
  have written : reader.written = reader.value := if_pos inValue
  cases piece with
  | plain character =>
    obtain ⟨plain, room⟩ := fits
    have plainText : ∀ other ∈ [character], other ∉ special := by simpa using plain
    exact reads_plain reader plainText (by rw [written, List.length_singleton]; omega) rest
  | escaped character =>
    obtain ⟨-, room⟩ := fits
    refine reads_round (by decide) ?_
    show (reader.put character).map _ = _
    rw [put_eq (by rw [written]; omega)]
    rfl
  | quoted text =>
    obtain ⟨plain, room⟩ := fits
    have enters : Reads restartEnv reader ('"' :: (text ++ '"' :: rest))
        { reader with isStringMode := true } (text ++ '"' :: rest) := by
      refine reads_round (by decide) ?_
      show Except.ok ({ reader with isStringMode := !reader.isStringMode }, _) = _
      rw [unquoted]
      rfl
    have room' : ({ reader with isStringMode := true } : Reader).written.length + text.length ≤
        bufSize := by
      show reader.written.length + text.length ≤ bufSize
      rw [written]
      omega
    have leaves : Reads restartEnv (({ reader with isStringMode := true } : Reader).write text)
        ('"' :: rest) (reader.write text) rest := by
      refine reads_round (by decide) ?_
      show Except.ok (_, rest) = _
      simp [Reader.write, inValue, unquoted]
    have quotes : (Piece.quoted text).text ++ rest = '"' :: (text ++ '"' :: rest) := by
      simp [Piece.text]
    rw [quotes]
    exact enters.trans ((reads_quoted _ plain rfl room' _).trans leaves)
  | expansion name =>
    obtain ⟨isName, nameChars, ends, nameFits, value, isValue, -, valueFits⟩ := fits
    have stops : rest.takeWhile isNameChar = [] ∧ rest.dropWhile isNameChar = rest := by
      cases rest with
      | nil => exact ⟨rfl, rfl⟩
      | cons first others =>
        have other := ends first rfl
        simp [other]
    have taken : (name ++ rest).takeWhile isNameChar = name := by
      rw [List.takeWhile_append_of_pos nameChars, stops.1, List.append_nil]
    have dropped : (name ++ rest).dropWhile isNameChar = rest := by
      rw [List.dropWhile_append_of_pos nameChars, stops.2]
    refine reads_round (by decide) ?_
    show (reader.expand restartEnv ((name ++ rest).takeWhile isNameChar)).map
      (·, (name ++ rest).dropWhile isNameChar) = _
    rw [taken, dropped, expand_eq answers agrees inValue isName nameFits isValue valueFits]
    simp [Piece.meaning, isValue, Except.map]

theorem EndsName.append {first second : Text} (ends : EndsName first)
    (endsToo : EndsName second) : EndsName (first ++ second) := by
  cases first with
  | nil => exact endsToo
  | cons character rest => exact ends

theorem Piece.Fits.append {used : Nat} {piece : Piece} {rest behind : Text}
    (fits : piece.Fits restart outcome used rest) (ends : EndsName behind) :
    piece.Fits restart outcome used (rest ++ behind) := by
  cases piece with
  | expansion name =>
    obtain ⟨isName, nameChars, endsHere, others⟩ := fits
    exact ⟨isName, nameChars, endsHere.append ends, others⟩
  | plain _ | escaped _ | quoted _ => exact fits

theorem reads_pieces (reader : Reader) (answers : Answers restartEnv restart)
    {pieces : List Piece} (agrees : Agrees reader outcome) (inValue : reader.inValue = true)
    (unquoted : reader.isStringMode = false)
    (fits : PiecesFit restart outcome reader.value.length pieces) {behind : Text}
    (ends : EndsName behind) :
    Reads restartEnv reader (pieces.flatMap Piece.text ++ behind)
      (reader.write (pieces.flatMap (Piece.meaning restart outcome))) behind := by
  induction pieces generalizing reader with
  | nil =>
    rw [List.flatMap_nil, List.flatMap_nil, write_nil]
    exact .stop reader behind
  | cons piece pieces inductionHypothesis =>
    obtain ⟨here, later⟩ := fits
    have first := reads_piece answers agrees inValue unquoted (here.append ends)
    have value : (reader.write (piece.meaning restart outcome)).value.length =
        reader.value.length + (piece.meaning restart outcome).length := by
      simp [Reader.write, inValue]
    have others := inductionHypothesis _ (agrees.write (piece.meaning restart outcome))
      ((inValue_write _).trans inValue) ((isStringMode_write _).trans unquoted)
      (by rw [value]; exact later)
    rw [write_append] at others
    rw [List.flatMap_cons, List.flatMap_cons, List.append_assoc]
    exact first.trans others

/-- There is room for the whole value, and it has no null character in it. -/
theorem PiecesFit.value {used : Nat} {pieces : List Piece}
    (fits : PiecesFit restart outcome used pieces) (room : used < bufSize) :
    used + (pieces.flatMap (Piece.meaning restart outcome)).length < bufSize ∧
      nul ∉ pieces.flatMap (Piece.meaning restart outcome) := by
  induction pieces generalizing used with
  | nil => exact ⟨by simpa using room, by simp⟩
  | cons piece pieces inductionHypothesis =>
    obtain ⟨here, later⟩ := fits
    have pieceFits : used + (piece.meaning restart outcome).length < bufSize ∧
        nul ∉ piece.meaning restart outcome := by
      cases piece with
      | plain character =>
        exact ⟨here.2, fun found => here.1 (by rw [← List.mem_singleton.mp found]; decide)⟩
      | escaped character => exact ⟨here.2, fun found => here.1 (List.mem_singleton.mp found).symm⟩
      | quoted text => exact ⟨here.2, fun found => here.1 nul found (by decide)⟩
      | expansion name =>
        obtain ⟨-, -, -, -, value, isValue, clean, valueFits⟩ := here
        rw [Piece.meaning, isValue, Option.getD_some]
        exact ⟨valueFits, clean⟩
    obtain ⟨total, clean⟩ := inductionHypothesis later pieceFits.1
    rw [List.flatMap_cons, List.length_append]
    refine ⟨by omega, fun found => ?_⟩
    rcases List.mem_append.mp found with first | second
    · exact pieceFits.2 first
    · exact clean second

end Values

/-! ### Lines -/

/-- The plugin is at the beginning of a line. -/
structure LineStart (reader : Reader) : Prop where
  inName : reader.inValue = false
  noName : reader.name = []
  unquoted : reader.isStringMode = false

theorem cString_of_not_mem {text : Text} (clean : nul ∉ text) : cString text = text := by
  refine List.takeWhile_eq_self_iff.mpr fun character found => ?_
  simp only [decide_eq_true_eq]
  rintro rfl
  exact clean found

theorem IsName.clean {name : Text} (isName : IsName name) : nul ∉ name := fun found =>
  isName.2.2 nul found (by decide)

theorem IsName.no_equals {name : Text} (isName : IsName name) : ¬ (name = [] ∨ '=' ∈ name) := by
  rintro (empty | found)
  · exact isName.1 empty
  · exact isName.2.2 '=' found (by decide)

section Lines

variable {restart : Text → Option Text} {reader : Reader} {outcome : Outcome}

/-- A comment is passed over. -/
theorem reads_comment {comment : Text} (isComment : IsComment comment)
    (unquoted : reader.isStringMode = false) (rest : Text) :
    Reads restartEnv reader (comment ++ '\n' :: rest) reader ('\n' :: rest) := by
  cases comment with
  | nil => exact .stop reader _
  | cons first comment =>
    obtain ⟨begins, inLine⟩ := isComment
    have skipped : restOfLine (comment ++ '\n' :: rest) = '\n' :: rest := by
      unfold restOfLine
      rw [List.dropWhile_append_of_pos]
      · simp
      · intro character found
        simpa using inLine character (List.mem_cons_of_mem _ found)
    refine reads_round (inLine first List.mem_cons_self).2 ?_
    rcases begins first rfl with rfl | rfl | rfl <;>
      simp [iteration, unquoted, skipped]

/-- The plugin at the end of a line, with a name remembered. -/
def Reader.after (reader : Reader) (environ : Environ) (stale : Bool) (name : Text) : Reader :=
  { reader with
    environ := environ
    inValue := false
    name := []
    stale := stale
    isStringMode := false
    nameChanged := reader.nameChanged ++ [name] }

theorem lineStart_after (environ : Environ) (stale : Bool) (name : Text) :
    LineStart (reader.after environ stale name) := ⟨rfl, rfl, rfl⟩

theorem changedSize_after (environ : Environ) (stale : Bool) (name : Text) :
    (reader.after environ stale name).changedSize = reader.changedSize + name.length + 1 := by
  simp [Reader.changedSize, Reader.after, Nat.add_assoc]

theorem Agrees.after (agrees : Agrees reader outcome) (environ : Environ) (stale : Bool)
    (name : Text) :
    Agrees (reader.after environ stale name) ⟨environ, outcome.changed ++ [name]⟩ where
  environ := rfl
  changed := by
    intro other isName
    simp [Reader.after, agrees.changed other isName]

/-- What a line leaves behind when it has a name. -/
theorem change_eq (environ : Environ) (isName : IsName reader.name)
    (room : reader.changedSize + reader.name.length + 1 < nameChangedSize) :
    reader.change environ = .ok (reader.after environ false reader.name) := by
  have notFull : ¬ reader.changedSize = nameChangedSize := by omega
  have fits : reader.changedSize + reader.name.length + 1 ≤ nameChangedSize := by omega
  have named : ¬ reader.name = [] := isName.1
  simp [Reader.change, cString_of_not_mem isName.clean, notFull, fits, named, Reader.after]

theorem noName_eq_false (isName : IsName reader.name) : reader.noName = false := by
  unfold Reader.noName
  cases same : reader.name with
  | nil => exact absurd same isName.1
  | cons first others =>
    have clean := isName.clean
    rw [same] at clean
    have other : first ≠ nul := fun isNul => clean (by rw [isNul]; exact List.mem_cons_self)
    simpa using other

/-- The end of a line that has only a name. -/
theorem newline_of_name (reader : Reader) (inName : reader.inValue = false)
    (unquoted : reader.isStringMode = false) (isName : IsName reader.name)
    (room : reader.changedSize + reader.name.length + 1 < nameChangedSize) :
    reader.newline = .ok (reader.after (reader.environ.erase reader.name) false reader.name) := by
  have short := isName.2.1
  have written : reader.written = reader.name := by
    rw [Reader.written, inName]
    rfl
  unfold Reader.newline
  rw [unquoted, if_neg Bool.false_ne_true, noName_eq_false isName, if_neg Bool.false_ne_true,
    if_pos (by rw [written]; omega), inName, if_neg Bool.false_ne_true, if_pos short,
    cString_of_not_mem isName.clean, unsetenv, if_neg isName.no_equals, change_eq _ isName room]

/-- The end of a line that has a name and a value. -/
theorem newline_of_value (reader : Reader) (inValue : reader.inValue = true)
    (unquoted : reader.isStringMode = false) (isName : IsName reader.name)
    (short : reader.value.length < bufSize) (clean : nul ∉ reader.value)
    (room : reader.changedSize + reader.name.length + 1 < nameChangedSize) :
    reader.newline =
      .ok (reader.after (reader.environ.insert reader.name reader.value) false reader.name) := by
  have written : reader.written = reader.value := if_pos inValue
  unfold Reader.newline
  rw [unquoted, if_neg Bool.false_ne_true, noName_eq_false isName, if_neg Bool.false_ne_true,
    if_pos (by rw [written]; exact short), if_pos inValue, cString_of_not_mem isName.clean,
    cString_of_not_mem clean, setenv, if_neg isName.no_equals, change_eq _ isName room]

/-- The end of a line without a name: nothing is changed, but after the first name an empty one is
remembered. -/
theorem newline_of_nothing (start : LineStart reader) (agrees : Agrees reader outcome)
    (room : reader.changedSize + 1 < nameChangedSize) :
    ∃ next, reader.newline = .ok next ∧ LineStart next ∧ Agrees next outcome ∧
      next.changedSize ≤ reader.changedSize + 1 := by
  have noName : reader.noName = reader.stale := by
    rw [Reader.noName, start.noName]
  have written : reader.written = [] := by
    rw [Reader.written, start.inName, start.noName]
    rfl
  unfold Reader.newline
  rw [start.unquoted, if_neg Bool.false_ne_true, noName]
  cases stale : reader.stale with
  | true => exact ⟨reader, rfl, start, agrees, Nat.le_succ _⟩
  | false =>
    have notFull : ¬ reader.changedSize = nameChangedSize := by omega
    refine ⟨reader.after reader.environ true [], ?_, lineStart_after _ _ _,
      ⟨agrees.environ, ?_⟩, by rw [changedSize_after]; simp⟩
    · rw [if_neg Bool.false_ne_true, if_pos (by rw [written]; decide), start.inName,
        if_neg Bool.false_ne_true, start.noName, if_pos (by decide)]
      simp [Reader.change, Reader.after, notFull, start.noName, cString, unsetenv, room.le]
    · intro name isName
      simp [Reader.after, agrees.changed name isName, isName]

/-- A name at the beginning of a line. -/
theorem reads_name (start : LineStart reader) {name : Text} (isName : IsName name) (rest : Text) :
    Reads restartEnv reader (name ++ rest) { reader with name := name } rest := by
  have written : reader.written = [] := by
    rw [Reader.written, start.inName, start.noName]
    rfl
  have named : reader.write name = { reader with name := name } := by
    simp [Reader.write, start.inName, start.noName]
  have short := isName.2.1
  rw [← named]
  exact reads_plain reader isName.2.2 (by rw [written, List.length_nil]; omega) rest

theorem endsName_comment {comment : Text} (isComment : IsComment comment) (rest : Text) :
    EndsName (comment ++ '\n' :: rest) := by
  intro character isHead
  cases comment with
  | nil =>
    cases isHead
    decide
  | cons first comment =>
    obtain rfl := Option.some.inj isHead
    rcases isComment.1 first rfl with rfl | rfl | rfl <;> decide

/-- A name with a value. -/
theorem reads_assignment (answers : Answers restartEnv restart) (start : LineStart reader)
    (agrees : Agrees reader outcome) {name : Text} (isName : IsName name) {value : List Piece}
    (fits : PiecesFit restart outcome 0 value) {behind : Text} (ends : EndsName behind) :
    Reads restartEnv reader ((Setting.assign name value).text ++ behind)
      { reader with
        name := name
        inValue := true
        value := value.flatMap (Piece.meaning restart outcome) } behind := by
  have equals : Reads restartEnv { reader with name := name }
      ('=' :: (value.flatMap Piece.text ++ behind))
      { reader with name := name, inValue := true, value := [] }
      (value.flatMap Piece.text ++ behind) := by
    refine reads_round (by decide) ?_
    have short : name.length < bufSize := by
      have bound := isName.2.1
      omega
    show (Reader.equals { reader with name := name }).map _ = _
    simp [Reader.equals, Reader.written, start.inName, short, isName.1, Except.map]
  have pieces := reads_pieces { reader with name := name, inValue := true, value := [] } answers
    ⟨agrees.environ, agrees.changed⟩ rfl start.unquoted fits ends
  rw [Setting.text, List.append_assoc, List.cons_append]
  exact (reads_name start isName _).trans (equals.trans pieces)

/-- What the plugin has done at the end of a line. -/
structure LineRead (restartEnv : Text → Nat → Except Fault Lookup) (reader : Reader) (text : Text)
    (outcome : Outcome) (rest : Text) (next : Reader) : Prop where
  reads : Reads restartEnv reader (text ++ rest) next rest
  start : LineStart next
  agrees : Agrees next outcome
  changedSize : next.changedSize ≤ reader.changedSize + text.length

theorem reads_line (answers : Answers restartEnv restart) (start : LineStart reader)
    (agrees : Agrees reader outcome) {line : Line} (fits : line.setting.Fits restart outcome)
    (isComment : IsComment line.comment)
    (room : reader.changedSize + line.text.length < nameChangedSize) (rest : Text) :
    ∃ next,
      LineRead restartEnv reader line.text (line.setting.apply restart outcome) rest next := by
  obtain ⟨setting, comment⟩ := line
  have length : (Line.text ⟨setting, comment⟩).length =
      setting.text.length + comment.length + 1 := by
    simp [Line.text, Nat.add_assoc]
  have text : Line.text ⟨setting, comment⟩ ++ rest =
      setting.text ++ (comment ++ '\n' :: rest) := by
    simp [Line.text]
  -- Whatever the setting has written, the comment and the end of the line follow.
  have ends : ∀ {before next : Reader},
      Reads restartEnv reader (setting.text ++ (comment ++ '\n' :: rest)) before
        (comment ++ '\n' :: rest) →
      before.isStringMode = false → before.newline = .ok next →
      Reads restartEnv reader (Line.text ⟨setting, comment⟩ ++ rest) next rest := by
    intro before next reads unquoted newline
    rw [text]
    refine reads.trans ((reads_comment isComment unquoted rest).trans
      (reads_round (by decide) ?_))
    show before.newline.map _ = _
    rw [newline]
    rfl
  rw [length] at room
  cases setting with
  | nothing =>
    obtain ⟨next, newline, nextStart, nextAgrees, size⟩ :=
      newline_of_nothing start agrees (by omega)
    exact ⟨next, ends (.stop _ _) start.unquoted newline, nextStart, nextAgrees, by omega⟩
  | remove name =>
    have isName : IsName name := fits
    have size : (Setting.remove name).text.length = name.length := rfl
    have named : Agrees { reader with name := name } outcome := ⟨agrees.environ, agrees.changed⟩
    have newline := newline_of_name { reader with name := name } start.inName start.unquoted isName
      (by show reader.changedSize + name.length + 1 < _; omega)
    refine ⟨_, ends (reads_name start isName _) start.unquoted newline, lineStart_after _ _ _,
      ?_, ?_⟩
    · show Agrees _ ⟨outcome.environ.erase name, _⟩
      rw [← agrees.environ]
      exact named.after _ false name
    · rw [changedSize_after]
      show reader.changedSize + name.length + 1 ≤ _
      omega
  | assign name value =>
    obtain ⟨isName, valueFits⟩ := fits
    obtain ⟨short, clean⟩ := valueFits.value (by decide)
    rw [Nat.zero_add] at short
    have size : name.length ≤ (Setting.assign name value).text.length := by
      simp [Setting.text]
    have named : Agrees { reader with
        name := name
        inValue := true
        value := value.flatMap (Piece.meaning restart outcome) } outcome :=
      ⟨agrees.environ, agrees.changed⟩
    have newline := newline_of_value { reader with
        name := name
        inValue := true
        value := value.flatMap (Piece.meaning restart outcome) } rfl start.unquoted isName short
      clean (by show reader.changedSize + name.length + 1 < _; omega)
    refine ⟨_, ends (reads_assignment answers start agrees isName valueFits
      (endsName_comment isComment rest)) start.unquoted newline, lineStart_after _ _ _, ?_, ?_⟩
    · show Agrees _ ⟨outcome.environ.insert name _, _⟩
      rw [← agrees.environ]
      exact named.after _ false name
    · rw [changedSize_after]
      show reader.changedSize + name.length + 1 ≤ _
      omega

theorem reads_lines (answers : Answers restartEnv restart) {lines : List Line}
    (start : LineStart reader) (agrees : Agrees reader outcome)
    (fits : LinesFit restart outcome lines)
    (room : reader.changedSize + (lines.flatMap Line.text).length < nameChangedSize)
    (rest : Text) :
    ∃ next, Reads restartEnv reader (lines.flatMap Line.text ++ rest) next rest ∧
      next.environ = (apply restart outcome lines).environ := by
  induction lines generalizing reader outcome with
  | nil => exact ⟨reader, .stop reader rest, agrees.environ⟩
  | cons line lines inductionHypothesis =>
    obtain ⟨here, isComment, later⟩ := fits
    rw [List.flatMap_cons, List.length_append] at room
    obtain ⟨next, lineRead⟩ := reads_line answers start agrees here isComment (by omega)
      (lines.flatMap Line.text ++ rest)
    have bound := lineRead.changedSize
    obtain ⟨last, reads, environ⟩ := inductionHypothesis lineRead.start lineRead.agrees later
      (by omega)
    refine ⟨last, ?_, environ⟩
    rw [List.flatMap_cons, List.append_assoc]
    exact lineRead.reads.trans reads

end Lines

/-! ### Files -/

/-- A file is read when it has at most 3996 characters. -/
theorem readall_eq (size rounds count : Nat) (file : Text) (enough : file.length < rounds) :
    readall size rounds count file =
      if count + file.length + 100 ≤ size then some (count + file.length) else none := by
  induction rounds generalizing count file with
  | zero => omega
  | succ rounds inductionHypothesis =>
    rw [readall]
    split
    · rw [if_neg (by omega)]
    · split
      · rename_i room empty
        subst empty
        rw [if_pos (by simpa using not_lt.mp room)]
        rfl
      · rename_i nonempty
        have positive := List.length_pos_iff.mpr nonempty
        rw [inductionHypothesis _ _ (by rw [List.length_drop]; omega)]
        have total : count + (file.take 100).length + (file.drop 100).length =
            count + file.length := by
          rw [List.length_take, List.length_drop]
          omega
        rw [total]

/-- `dmtcp_event_hook` for `DMTCP_EVENT_RESTART`; `none` when the file is too large. -/
def restartHook (restartEnv : Text → Nat → Except Fault Lookup) (environ : Environ) (file : Text) :
    Option (Except Fault Environ) :=
  (readDmtcpEnvFile file 4096).map (readAndSetEnv restartEnv environ)

/-- The plugin gives a file its meaning: whatever lines it has, as long as they are written as they
should be and fit. -/
theorem restartHook_eq {restart : Text → Option Text} (answers : Answers restartEnv restart)
    (environ : Environ) {lines : List Line} (fits : LinesFit restart { environ := environ } lines)
    (short : (lines.flatMap Line.text).length ≤ 3996) :
    restartHook restartEnv environ (lines.flatMap Line.text) =
      some (.ok (apply restart { environ := environ } lines).environ) := by
  have read : readDmtcpEnvFile (lines.flatMap Line.text) 4096 =
      some (lines.flatMap Line.text ++ readEOF ::
        List.replicate (4096 - 1 - (lines.flatMap Line.text).length) nul) := by
    rw [readDmtcpEnvFile, readall_eq _ _ _ _ (Nat.lt_succ_self _), if_pos (by omega), Nat.zero_add]
    rfl
  have start : LineStart { environ := environ } := ⟨rfl, rfl, rfl⟩
  have agrees : Agrees { environ := environ } { environ := environ } := ⟨rfl, fun _ _ => Iff.rfl⟩
  have size : (lines.flatMap Line.text).length < nameChangedSize :=
    lt_of_le_of_lt short (by decide)
  obtain ⟨next, reads, result⟩ := reads_lines answers start agrees fits
    (by simpa [Reader.changedSize] using size)
    (readEOF :: List.replicate (4096 - 1 - (lines.flatMap Line.text).length) nul)
  rw [restartHook, read, Option.map_some, readAndSetEnv, reads.readLoop le_rfl, result]

end ClusterJobs.ModifyEnv
