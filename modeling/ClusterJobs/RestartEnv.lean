/-
This file models how a restarted process sees the environment of the command that restarted it
(`setEnvironFd` in `dmtcp_restart.cpp`, `dmtcp_get_restart_env` in `dmtcpplugin.cpp`).

`dmtcp_restart` writes its environment to a file, one string after the other with a null character
behind each. A name is looked up through a buffer of 2000 characters. When it is not among the
strings that are complete in the buffer, the rest of the last one is moved to the front and the
buffer is filled again. The return value for a name that is not there is never returned: the search
goes on at the end of the file, and there an assertion looks at a character that was left behind in
the buffer.
-/

import ClusterJobs.Text

namespace ClusterJobs.RestartEnv

open Python

/-- The characters of a text are looked at one after the other. -/
scoped instance decidableForallText (test : Char → Prop) [DecidablePred test] (text : Text) :
    Decidable (∀ character ∈ text, test character) :=
  List.decidableBAll test text

scoped instance decidableForallHead (test : Char → Prop) [DecidablePred test] (text : Text) :
    Decidable (∀ character ∈ text.head?, test character) :=
  match text with
  | [] => isTrue (by simp)
  | character :: _ => decidable_of_iff (test character) (by simp)

def nul : Char := '\x00'

inductive Fault
  | assertion
  | overrun
  | uninitialised
  | endless
  deriving DecidableEq, Repr

/-- The return values. `NULL_PTR` and `INTERNAL_ERROR` are left out: the caller passes its own
buffers, and a file that can be read is read. -/
inductive Rc
  | success
  | notfound
  | toolong
  | dmtcpBufTooSmall
  deriving DecidableEq, Repr

/-- What the caller gets: the return value, and what has been copied to `value`. The copy of a value
that does not fit lacks its null character. -/
structure Lookup where
  rc : Rc
  value : Text := []
  terminated : Bool := true
  deriving DecidableEq, Repr

/-- `setEnvironFd`. The last write, of a null character that would end the list, is given a null
pointer; it fails, and nobody looks. -/
def setEnvironFd (environ : List Text) : Text :=
  environ.flatMap fun entry => entry ++ [nul]

/-- The loop that sets up `env_ptr_v`: the complete strings, and the incomplete one at the end. -/
def scan (current : Text) (found : List Text) : Text → List Text × Text
  | [] => (found, current)
  | character :: rest =>
    if character = nul then scan [] (found ++ [current]) rest
    else scan (current ++ [character]) found rest

/-- The value in a string `name=value` with the right name. -/
def valueOf (name entry : Text) : Option Text :=
  if entry.take name.length = name ∧ entry[name.length]? = some '=' then
    some (entry.drop (name.length + 1))
  else none

/-- One round of the loop over `env_ptr_v`. The test for a value that is too long looks at the
name. -/
def search (name : Text) (maxvaluelen : Nat) (lookup : Lookup) (entry : Text) : Lookup :=
  match valueOf name entry with
  | some value =>
    { rc := if name.length + 1 > maxvaluelen then .toolong else .success
      value := value.take maxvaluelen
      terminated := value.length < maxvaluelen }
  | none => lookup

/-- `sizeof(env_buf)`. -/
def envBufSize : Nat := 2000

/-- The length of `env_ptr_v`. -/
def envPtrCount : Nat := envBufSize / 4

/-- The loop of `dmtcp_get_restart_env`: the first character of the buffer, what has been kept of
it, and the rest of the file. -/
def lookupLoop (name : Text) (maxvaluelen : Nat) :
    Nat → Option Char → Text → Text → Except Fault Lookup
  | 0, _, _, _ => .error .endless
  | rounds + 1, front, kept, rest =>
    let buffer := kept ++ rest.take (envBufSize - kept.length)
    if buffer = [] ∧ front ≠ some nul then
      .error (if front = none then .uninitialised else .assertion)
    else
      let (found, last) := scan [] [] buffer
      if found.length < envPtrCount then
        let lookup := found.foldl (search name maxvaluelen)
          { rc := if found = [] then .dmtcpBufTooSmall else .notfound }
        if lookup.rc = .notfound then
          lookupLoop name maxvaluelen rounds (buffer.head?.or front) last
            (rest.drop (envBufSize - kept.length))
        else .ok lookup
      else .error .overrun

def dmtcpGetRestartEnv (file name : Text) (maxvaluelen : Nat) : Except Fault Lookup :=
  lookupLoop name maxvaluelen (file.length + 1) none [] file

/-! ### What is in the buffer -/

section Scan

variable {current entry : Text} {found environ : List Text}

theorem scan_of_not_mem (text : Text) (none : nul ∉ text) :
    scan current found text = (found, current ++ text) := by
  induction text generalizing current with
  | nil => simp [scan]
  | cons character rest inductionHypothesis =>
    obtain ⟨other, noneLater⟩ := not_or.mp (List.mem_cons.not.mp none)
    rw [scan, if_neg (Ne.symm other), inductionHypothesis noneLater]
    simp

theorem scan_entry (none : nul ∉ entry) (rest : Text) :
    scan current found (entry ++ nul :: rest) = scan [] (found ++ [current ++ entry]) rest := by
  induction entry generalizing current with
  | nil => simp [scan]
  | cons character entry inductionHypothesis =>
    obtain ⟨other, noneLater⟩ := not_or.mp (List.mem_cons.not.mp none)
    rw [List.cons_append, scan, if_neg (Ne.symm other), inductionHypothesis noneLater]
    simp

theorem setEnvironFd_cons (entry : Text) (environ : List Text) :
    setEnvironFd (entry :: environ) = entry ++ nul :: setEnvironFd environ := by
  simp [setEnvironFd]

/-- The first part of the file holds the first entries, and the beginning of another one. -/
theorem scan_take (environ : List Text) (clean : ∀ entry ∈ environ, nul ∉ entry) (size : Nat)
    (found : List Text) :
    ∃ count last, scan [] found ((setEnvironFd environ).take size) =
        (found ++ environ.take count, last) ∧
      last ++ (setEnvironFd environ).drop size = setEnvironFd (environ.drop count) ∧
      last.length ≤ size ∧
      ∀ entry ∈ environ.head?, entry.length < size → 0 < count := by
  induction environ generalizing size found with
  | nil => exact ⟨0, [], by simp [setEnvironFd, scan]⟩
  | cons entry environ inductionHypothesis =>
    obtain ⟨cleanHere, cleanLater⟩ := List.forall_mem_cons.mp clean
    rw [setEnvironFd_cons]
    by_cases fits : entry.length < size
    · obtain ⟨count, last, scanned, remaining, short, -⟩ :=
        inductionHypothesis cleanLater (size - (entry.length + 1)) (found ++ [entry])
      have front : (entry ++ nul :: setEnvironFd environ).take size =
          entry ++ nul :: (setEnvironFd environ).take (size - (entry.length + 1)) := by
        rw [List.take_append, List.take_of_length_le fits.le,
          show size - entry.length = size - (entry.length + 1) + 1 by omega, List.take_succ_cons]
      have back : (entry ++ nul :: setEnvironFd environ).drop size =
          (setEnvironFd environ).drop (size - (entry.length + 1)) := by
        rw [List.drop_append, List.drop_eq_nil_of_le fits.le, List.nil_append,
          show size - entry.length = size - (entry.length + 1) + 1 by omega, List.drop_succ_cons]
      refine ⟨count + 1, last, ?_, ?_, by omega, fun _ _ _ => Nat.succ_pos count⟩
      · rw [front, scan_entry cleanHere, List.nil_append, scanned]
        simp
      · rw [back, remaining, List.drop_succ_cons]
    · refine ⟨0, entry.take size, ?_, ?_, List.length_take_le _ _, ?_⟩
      · rw [List.take_append_of_le_length (not_lt.mp fits),
          scan_of_not_mem _ fun inTake => cleanHere (List.mem_of_mem_take inTake)]
        simp
      · rw [List.drop_append_of_le_length (not_lt.mp fits), ← List.append_assoc,
          List.take_append_drop, List.drop_zero, setEnvironFd_cons]
      · intro head isHead short
        cases isHead
        exact absurd short fits

end Scan

/-! ### The search -/

section Search

variable {name : Text} {maxvaluelen : Nat}

theorem foldl_search_of_nil {found : List Text} (missing : found.filterMap (valueOf name) = [])
    (lookup : Lookup) : found.foldl (search name maxvaluelen) lookup = lookup := by
  induction found generalizing lookup with
  | nil => rfl
  | cons entry found inductionHypothesis =>
    rw [List.filterMap_cons] at missing
    split at missing
    · rename_i other
      rw [List.foldl_cons, search, other]
      exact inductionHypothesis missing lookup
    · cases missing

/-- What a name that occurs once leads to. A value that does not fit is cut off, with the return
value for success; the value for `TOOLONG` is about the name. -/
def hit (name value : Text) (maxvaluelen : Nat) : Lookup where
  rc := if name.length + 1 > maxvaluelen then .toolong else .success
  value := value.take maxvaluelen
  terminated := value.length < maxvaluelen

theorem foldl_search_of_singleton {found : List Text} {value : Text}
    (once : found.filterMap (valueOf name) = [value]) (lookup : Lookup) :
    found.foldl (search name maxvaluelen) lookup = hit name value maxvaluelen := by
  induction found generalizing lookup with
  | nil => cases once
  | cons entry found inductionHypothesis =>
    rw [List.filterMap_cons] at once
    rw [List.foldl_cons]
    split at once
    · rename_i other
      rw [search, other]
      exact inductionHypothesis once lookup
    · rename_i other isValue
      obtain ⟨rfl, none⟩ := List.cons.inj once
      rw [foldl_search_of_nil none, search, isValue]
      rfl

/-! ### The loop -/

/-- The strings of an environment as the code can take them. -/
structure Readable (environ : List Text) : Prop where
  clean : ∀ entry ∈ environ, nul ∉ entry
  short : ∀ entry ∈ environ, entry.length < envBufSize
  few : environ.length < envPtrCount

theorem Readable.drop {environ : List Text} (readable : Readable environ) (count : Nat) :
    Readable (environ.drop count) where
  clean := fun entry found => readable.clean entry (List.mem_of_mem_drop found)
  short := fun entry found => readable.short entry (List.mem_of_mem_drop found)
  few := lt_of_le_of_lt (by simp) readable.few

/-- One filling of the buffer: some strings are looked at, and the loop goes on with the others. -/
theorem lookupLoop_succ (name : Text) (maxvaluelen : Nat) {environ : List Text}
    (readable : Readable environ) (nonempty : environ ≠ []) {kept rest : Text}
    (file : kept ++ rest = setEnvironFd environ) (fits : kept.length ≤ envBufSize) (rounds : Nat)
    (front : Option Char) :
    ∃ count last later, 0 < count ∧ last ++ later = setEnvironFd (environ.drop count) ∧
      last.length ≤ envBufSize ∧
      lookupLoop name maxvaluelen (rounds + 1) front kept rest =
        let lookup := (environ.take count).foldl (search name maxvaluelen) { rc := .notfound }
        if lookup.rc = .notfound then
          lookupLoop name maxvaluelen rounds (setEnvironFd environ).head? last later
        else .ok lookup := by
  obtain ⟨count, last, scanned, remaining, short, progress⟩ :=
    scan_take environ readable.clean envBufSize []
  obtain ⟨first, others, rfl⟩ := List.exists_cons_of_ne_nil nonempty
  have positive : 0 < count := progress first rfl (readable.short first List.mem_cons_self)
  have buffer : kept ++ rest.take (envBufSize - kept.length) =
      (setEnvironFd (first :: others)).take envBufSize := by
    rw [← file, List.take_append, List.take_of_length_le fits]
  have later : rest.drop (envBufSize - kept.length) =
      (setEnvironFd (first :: others)).drop envBufSize := by
    rw [← file, List.drop_append, List.drop_eq_nil_of_le fits, List.nil_append]
  have full : (setEnvironFd (first :: others)).take envBufSize ≠ [] := by
    rw [setEnvironFd_cons]
    cases first <;> simp [envBufSize]
  have head : ((setEnvironFd (first :: others)).take envBufSize).head?.or front =
      (setEnvironFd (first :: others)).head? := by
    rw [setEnvironFd_cons]
    cases first <;> simp [envBufSize]
  have something : (first :: others).take count ≠ [] := by
    obtain ⟨count, rfl⟩ := Nat.exists_eq_succ_of_ne_zero positive.ne'
    simp
  have bounded : ((first :: others).take count).length < envPtrCount :=
    lt_of_le_of_lt (by rw [List.length_take]; exact min_le_right _ _) readable.few
  refine ⟨count, last, _, positive, remaining, short, ?_⟩
  rw [lookupLoop]
  simp only [buffer, later, head, full, false_and, if_false, scanned, List.nil_append, bounded,
    if_true, something]

/-- A name that occurs once is found, wherever in the file it is. -/
theorem lookupLoop_of_once {value : Text} (rounds : Nat) {environ : List Text}
    (readable : Readable environ) (once : environ.filterMap (valueOf name) = [value])
    {kept rest : Text} (file : kept ++ rest = setEnvironFd environ)
    (fits : kept.length ≤ envBufSize) (enough : environ.length < rounds) (front : Option Char) :
    lookupLoop name maxvaluelen rounds front kept rest =
      .ok (hit name value maxvaluelen) := by
  induction rounds generalizing environ kept rest front with
  | zero => omega
  | succ rounds inductionHypothesis =>
    have nonempty : environ ≠ [] := by
      rintro rfl
      cases once
    obtain ⟨count, last, later, positive, remaining, short, step⟩ :=
      lookupLoop_succ name maxvaluelen readable nonempty file fits rounds front
    rw [step]
    have split : (environ.take count).filterMap (valueOf name) ++
        (environ.drop count).filterMap (valueOf name) = [value] := by
      rw [← List.filterMap_append, List.take_append_drop]
      exact once
    rcases List.append_eq_singleton_iff.mp split with ⟨none, later⟩ | ⟨here, none⟩
    · simp only [foldl_search_of_nil none, if_true]
      refine inductionHypothesis (readable.drop count) later remaining short ?_ _
      have positive' : 0 < environ.length := List.length_pos_iff.mpr nonempty
      rw [List.length_drop]
      omega
    · simp only [foldl_search_of_singleton here]
      rw [if_neg]
      unfold hit
      dsimp only
      split <;> decide

/-- A name that does not occur ends the process. -/
theorem lookupLoop_of_missing (rounds : Nat) {environ : List Text} (readable : Readable environ)
    (whole : ∀ entry ∈ environ, entry ≠ [])
    (missing : environ.filterMap (valueOf name) = []) {kept rest : Text}
    (file : kept ++ rest = setEnvironFd environ) (fits : kept.length ≤ envBufSize)
    (enough : environ.length < rounds) {front : Option Char}
    (stale : environ = [] → ∃ character, front = some character ∧ character ≠ nul) :
    lookupLoop name maxvaluelen rounds front kept rest = .error .assertion := by
  induction rounds generalizing environ kept rest front with
  | zero => omega
  | succ rounds inductionHypothesis =>
    by_cases nonempty : environ = []
    · obtain ⟨character, rfl, other⟩ := stale nonempty
      subst nonempty
      obtain ⟨rfl, rfl⟩ := List.append_eq_nil_iff.mp file
      simp [lookupLoop, other]
    · obtain ⟨count, last, later, positive, remaining, short, step⟩ :=
        lookupLoop_succ name maxvaluelen readable nonempty file fits rounds front
      have split : (environ.take count).filterMap (valueOf name) ++
          (environ.drop count).filterMap (valueOf name) = [] := by
        rw [← List.filterMap_append, List.take_append_drop]
        exact missing
      obtain ⟨noneHere, noneLater⟩ := List.append_eq_nil_iff.mp split
      rw [step]
      simp only [foldl_search_of_nil noneHere, if_true]
      refine inductionHypothesis (readable.drop count)
        (fun entry found => whole entry (List.mem_of_mem_drop found)) noneLater remaining short ?_
        fun _ => ?_
      · have positive' : 0 < environ.length := List.length_pos_iff.mpr nonempty
        rw [List.length_drop]
        omega
      · -- What is left behind is the first character of a string.
        obtain ⟨first, others, rfl⟩ := List.exists_cons_of_ne_nil nonempty
        obtain ⟨character, rest', isFirst⟩ :=
          List.exists_cons_of_ne_nil (whole first List.mem_cons_self)
        refine ⟨character, by rw [setEnvironFd_cons, isFirst]; rfl, fun isNul => ?_⟩
        refine readable.clean first List.mem_cons_self ?_
        rw [isFirst, isNul]
        exact List.mem_cons_self

end Search

theorem length_le_setEnvironFd (environ : List Text) :
    environ.length ≤ (setEnvironFd environ).length := by
  induction environ with
  | nil => simp
  | cons entry environ inductionHypothesis =>
    rw [setEnvironFd_cons, List.length_append, List.length_cons, List.length_cons]
    omega

theorem dmtcpGetRestartEnv_eq_hit {environ : List Text} (readable : Readable environ)
    {name value : Text} (once : environ.filterMap (valueOf name) = [value]) (maxvaluelen : Nat) :
    dmtcpGetRestartEnv (setEnvironFd environ) name maxvaluelen =
      .ok (hit name value maxvaluelen) := by
  have enough : environ.length < (setEnvironFd environ).length + 1 :=
    Nat.lt_succ_of_le (length_le_setEnvironFd environ)
  exact lookupLoop_of_once _ readable once rfl (Nat.zero_le _) enough none

theorem dmtcpGetRestartEnv_of_once {environ : List Text} (readable : Readable environ)
    {name value : Text} (once : environ.filterMap (valueOf name) = [value]) {maxvaluelen : Nat}
    (nameFits : name.length < maxvaluelen) (valueFits : value.length < maxvaluelen) :
    dmtcpGetRestartEnv (setEnvironFd environ) name maxvaluelen =
      .ok { rc := .success, value := value, terminated := true } := by
  rw [dmtcpGetRestartEnv_eq_hit readable once]
  simp [hit, List.take_of_length_le valueFits.le, valueFits, Nat.not_lt.mpr nameFits]

/-- The loop goes on where it could say that there is no such name. -/
theorem lookupLoop_ne_notfound {name : Text} {maxvaluelen rounds : Nat} {front : Option Char}
    {kept rest : Text} {lookup : Lookup}
    (found : lookupLoop name maxvaluelen rounds front kept rest = .ok lookup) :
    lookup.rc ≠ .notfound := by
  induction rounds generalizing front kept rest with
  | zero => cases found
  | succ rounds inductionHypothesis =>
    rw [lookupLoop] at found
    dsimp only at found
    generalize List.foldl (search name maxvaluelen) _ _ = answer at found
    split at found
    · cases found
    · split at found
      · split at found
        · exact inductionHypothesis found
        · rename_i answered
          cases found
          exact answered
      · cases found

/-- What `dmtcp_get_restart_env` makes of an environment. A name that occurs once is found, with its
value as far as it fits; one that does not occur ends the process, whatever the comment says about
the return value -1, which no lookup has. -/
theorem dmtcpGetRestartEnv_cases {environ : List Text} (readable : Readable environ)
    (whole : ∀ entry ∈ environ, entry ≠ []) (nonempty : environ ≠ []) (name : Text)
    (maxvaluelen : Nat) :
    (∀ value, environ.filterMap (valueOf name) = [value] →
      dmtcpGetRestartEnv (setEnvironFd environ) name maxvaluelen =
        .ok (hit name value maxvaluelen)) ∧
    (environ.filterMap (valueOf name) = [] →
      dmtcpGetRestartEnv (setEnvironFd environ) name maxvaluelen = .error .assertion) ∧
    ∀ file lookup, dmtcpGetRestartEnv file name maxvaluelen = .ok lookup →
      lookup.rc ≠ .notfound := by
  refine ⟨fun value once => dmtcpGetRestartEnv_eq_hit readable once maxvaluelen,
    fun missing => ?_, fun file lookup found => lookupLoop_ne_notfound found⟩
  have enough : environ.length < (setEnvironFd environ).length + 1 :=
    Nat.lt_succ_of_le (length_le_setEnvironFd environ)
  exact lookupLoop_of_missing _ readable whole missing rfl (Nat.zero_le _) enough
    fun empty => absurd empty nonempty

/-- Two variables, one of them looked for with enough space and with too little. -/
theorem path_found_and_home_missing :
    dmtcpGetRestartEnv (setEnvironFd ["PATH=/usr/bin".toList, "A=1".toList]) "PATH".toList 100 =
        .ok { rc := .success, value := "/usr/bin".toList, terminated := true } ∧
      dmtcpGetRestartEnv (setEnvironFd ["PATH=/usr/bin".toList, "A=1".toList]) "PATH".toList 6 =
        .ok { rc := .success, value := "/usr/b".toList, terminated := false } ∧
      dmtcpGetRestartEnv (setEnvironFd ["PATH=/usr/bin".toList, "A=1".toList]) "HOME".toList 100 =
        .error .assertion := by
  have readable : Readable ["PATH=/usr/bin".toList, "A=1".toList] :=
    ⟨by decide, by decide, by decide⟩
  exact ⟨(dmtcpGetRestartEnv_cases readable (by decide) (by decide) "PATH".toList 100).1
      "/usr/bin".toList (by decide),
    (dmtcpGetRestartEnv_cases readable (by decide) (by decide) "PATH".toList 6).1
      "/usr/bin".toList (by decide),
    (dmtcpGetRestartEnv_cases readable (by decide) (by decide) "HOME".toList 100).2.1 (by decide)⟩

end ClusterJobs.RestartEnv
