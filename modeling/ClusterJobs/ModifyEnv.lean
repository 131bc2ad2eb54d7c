/-
This file models the plugin that gives a restarted process new values for environment variables
(`dmtcp/plugin/modify-env/modify-env.c`).

The file `dmtcp_env.txt` is read character by character, with a pointer into one of two buffers: the
name up to `=`, then the value. A line without `=` removes the variable. Blanks and `#` end a line
early unless they stand in quotes, and `$NAME` stands for the value in the environment of the
restart command, or for the new value when the file has changed it before.

Only the characters that have been written to a buffer since the pointer was last set to its start
are kept here, and whether the name before them was empty: the buffer of the name is not cleared
after a line. The buffers have 1000 characters; what would be written behind them is an overrun.
-/

import ClusterJobs.RestartEnv
import Mathlib.Data.List.AList
import Mathlib.Algebra.Order.Ring.Int

namespace ClusterJobs.ModifyEnv

open Python RestartEnv

/-- `(char)-1`, the mark behind the text in the buffer. -/
def readEOF : Char := '\xff'

abbrev Environ := AList fun _ : Text => Text

def setenv (name value : Text) (environ : Environ) : Environ :=
  if name = [] ∨ '=' ∈ name then environ else environ.insert name value

def unsetenv (name : Text) (environ : Environ) : Environ :=
  if name = [] ∨ '=' ∈ name then environ else environ.erase name

/-- What a buffer holds for the functions of the C library. -/
def cString (text : Text) : Text := text.takeWhile (· ≠ nul)

/-- The size of `nameBuf`, `valueBuf` and `envName`. -/
def bufSize : Nat := 1000

def nameChangedSize : Nat := 10000

/-- The variables of `readAndSetEnv`. `dest` is behind the last character of `value` or of `name`;
`stale` is `nameBuf[0] == '\0'` as long as nothing has been written to the name. -/
structure Reader where
  environ : Environ
  inValue : Bool := false
  name : Text := []
  stale : Bool := true
  value : Text := []
  isStringMode : Bool := false
  nameChanged : List Text := []

namespace Reader

/-- What lies before `dest` in its buffer. -/
def written (reader : Reader) : Text := if reader.inValue then reader.value else reader.name

def write (reader : Reader) (text : Text) : Reader :=
  if reader.inValue then { reader with value := reader.value ++ text }
  else { reader with name := reader.name ++ text }

/-- `*dest++ = *c`. -/
def put (reader : Reader) (character : Char) : Except Fault Reader :=
  if reader.written.length < bufSize then .ok (reader.write [character]) else .error .overrun

/-- `nameBuf[0] == '\0'`. -/
def noName (reader : Reader) : Bool :=
  match reader.name with
  | [] => reader.stale
  | first :: _ => first == nul

/-- The character `=`. In a value it starts the value again. -/
def equals (reader : Reader) : Except Fault Reader :=
  if reader.written.length < bufSize then
    .ok { reader with
      inValue := true
      value := []
      stale := reader.stale || (!reader.inValue && reader.name = []) }
  else .error .overrun

/-- The name goes into `nameChanged`. -/
def changedSize (reader : Reader) : Nat :=
  (reader.nameChanged.map fun name => name.length + 1).sum

def change (reader : Reader) (environ : Environ) : Except Fault Reader :=
  let next := { reader with
    environ := environ
    inValue := false
    name := []
    stale := reader.name = []
    isStringMode := false }
  if reader.changedSize = nameChangedSize then .ok next
  else if reader.changedSize + (cString reader.name).length + 1 ≤ nameChangedSize then
    .ok { next with nameChanged := reader.nameChanged ++ [cString reader.name] }
  else .error .overrun

/-- The end of a line. A name that fills its buffer is taken for one with a value, and what is in
the buffer of the value by then is not known. -/
def newline (reader : Reader) : Except Fault Reader :=
  if reader.isStringMode then reader.put '\n'
  else if reader.noName then .ok reader
  else if reader.written.length < bufSize then
    if reader.inValue then
      reader.change (setenv (cString reader.name) (cString reader.value) reader.environ)
    else if reader.name.length + 1 < bufSize then
      reader.change (unsetenv (cString reader.name) reader.environ)
    else .error .uninitialised
  else .error .overrun

/-- `$envName`. The space that is left is computed from the buffer of the value, so that in a name
nothing is known about it. -/
def expand (restartEnv : Text → Nat → Except Fault Lookup) (reader : Reader) (envName : Text) :
    Except Fault Reader :=
  if envName.length < bufSize then
    match if envName ∈ reader.nameChanged then reader.environ.lookup envName else none with
    | some value =>
      if reader.written.length + value.length < bufSize then .ok (reader.write value)
      else .error .overrun
    | none =>
      if reader.inValue = false then .error .uninitialised
      else if reader.value.length < bufSize then
        match restartEnv envName (bufSize - reader.value.length) with
        | .error fault => .error fault
        | .ok lookup =>
          if lookup.rc ≠ .success then .ok reader
          else if lookup.terminated then .ok (reader.write lookup.value)
          else .error .overrun
      else .error .overrun
  else .error .overrun

end Reader

/-- The characters of a name behind `$`. -/
def isNameChar (character : Char) : Bool := character.isAlphanum || character == '_'

/-- The rest of a line, up to the end of it or of the file. -/
def restOfLine (buffer : Text) : Text :=
  buffer.dropWhile fun other => other ≠ '\n' ∧ other ≠ readEOF

/-- One round of the loop of `readAndSetEnv`: the variables, and where `c` points to. -/
def iteration (restartEnv : Text → Nat → Except Fault Lookup) (reader : Reader) (character : Char)
    (rest : Text) : Except Fault (Reader × Text) :=
  match character with
  | '\n' => reader.newline.map (·, rest)
  | ' ' | '\t' | '#' =>
    if reader.isStringMode then (reader.put character).map (·, rest)
    else .ok (reader, restOfLine rest)
  | '=' => reader.equals.map (·, rest)
  | '\\' => match rest with
    | [] => .error .overrun
    | escaped :: rest => (reader.put escaped).map (·, rest)
  | '"' => .ok ({ reader with isStringMode := !reader.isStringMode }, rest)
  | '$' => (reader.expand restartEnv (rest.takeWhile isNameChar)).map
      (·, rest.dropWhile isNameChar)
  | _ => (reader.put character).map (·, rest)

/-- The loop of `readAndSetEnv`. -/
def readLoop (restartEnv : Text → Nat → Except Fault Lookup) :
    Nat → Reader → Text → Except Fault Environ
  | 0, _, _ => .error .endless
  | _ + 1, _, [] => .error .overrun
  | rounds + 1, reader, character :: rest =>
    if character = readEOF then .ok reader.environ
    else match iteration restartEnv reader character rest with
      | .error fault => .error fault
      | .ok (next, after) => readLoop restartEnv rounds next after

def readAndSetEnv (restartEnv : Text → Nat → Except Fault Lookup) (environ : Environ)
    (buf : Text) : Except Fault Environ :=
  readLoop restartEnv buf.length { environ := environ } buf

/-- `readall`, for a file that is read in pieces of 100 characters. -/
def readall (maxCount : Nat) : Nat → Nat → Text → Option Nat
  | 0, _, _ => none
  | rounds + 1, count, file =>
    if count + 100 > maxCount then none
    else if file = [] then some count
    else readall maxCount rounds (count + (file.take 100).length) (file.drop 100)

/-- `read_dmtcp_env_file`, from the moment the file is open; `none` ends the process. Behind the
text the buffer is empty. -/
def readDmtcpEnvFile (file : Text) (size : Nat) : Option Text :=
  (readall size (file.length + 1) 0 file).map fun count =>
    file ++ readEOF :: List.replicate (size - 1 - count) nul

end ClusterJobs.ModifyEnv
