/-
This file fixes what a program is in the development and how one is reasoned about.

A program reads and writes a state and either returns a value or raises. `Ensures` is its
weakest precondition: it says what holds of the value and the state when the program
returns, and of the exception when it raises, so that one notion covers both "whatever it
returns is right" and "it never raises".

The second half is the loop `for item in items:` over a list that the body itself edits. The
iterator is an index into the list as it is at that moment, so an item is looked up again in
every round and the list may have moved under the index. `Follows` is for what every part of a
program does to the state alike, and the last section is about runs of a step function. Nothing
here knows a particular program.
-/

import Mathlib.Data.List.Basic
import Mathlib.Order.Defs.Unbundled
import Mathlib.Tactic.Common

namespace Python

variable {σ ε α β γ : Type}

/-- A program over a state: it returns a value with the new state, or raises. -/
abbrev Program (σ ε α : Type) := StateT σ (Except ε) α

/-! ### What a program ensures -/

/-- Started in `state`, the program returns a value and a state satisfying `post`, or raises
an exception satisfying `raised`. -/
def Ensures (program : Program σ ε α) (state : σ) (post : α → σ → Prop)
    (raised : ε → Prop) : Prop :=
  match program.run state with
  | .ok (value, next) => post value next
  | .error error => raised error

theorem Ensures.mono {program : Program σ ε α} {state : σ} {post post' : α → σ → Prop}
    {raised raised' : ε → Prop} (ensured : Ensures program state post raised)
    (returns : ∀ value next, post value next → post' value next)
    (raises : ∀ error, raised error → raised' error) :
    Ensures program state post' raised' := by
  unfold Ensures at *
  cases outcome : program.run state with
  | ok result =>
    rw [outcome] at ensured
    exact returns _ _ ensured
  | error error =>
    rw [outcome] at ensured
    exact raises _ ensured

/-- Weakening only what holds on return. -/
theorem Ensures.imp {program : Program σ ε α} {state : σ} {post post' : α → σ → Prop}
    {raised : ε → Prop} (ensured : Ensures program state post raised)
    (returns : ∀ value next, post value next → post' value next) :
    Ensures program state post' raised :=
  ensured.mono returns fun _ holds => holds

/-- Both of two guarantees hold at once. -/
theorem Ensures.and {program : Program σ ε α} {state : σ} {post post' : α → σ → Prop}
    {raised raised' : ε → Prop} (first : Ensures program state post raised)
    (second : Ensures program state post' raised') :
    Ensures program state (fun value next => post value next ∧ post' value next)
      (fun error => raised error ∧ raised' error) := by
  unfold Ensures at *
  cases outcome : program.run state with
  | ok result =>
    rw [outcome] at first second
    exact ⟨first, second⟩
  | error error =>
    rw [outcome] at first second
    exact ⟨first, second⟩

theorem Ensures.of_run {program : Program σ ε α} {state next : σ} {value : α}
    {post : α → σ → Prop} {raised : ε → Prop} (ensured : Ensures program state post raised)
    (run : program.run state = .ok (value, next)) : post value next := by
  unfold Ensures at ensured
  rwa [run] at ensured

theorem Ensures.of_error {program : Program σ ε α} {state : σ} {error : ε}
    {post : α → σ → Prop} {raised : ε → Prop} (ensured : Ensures program state post raised)
    (run : program.run state = .error error) : raised error := by
  unfold Ensures at ensured
  rwa [run] at ensured

/-- A program that raises nothing returns. -/
theorem Ensures.returns {program : Program σ ε α} {state : σ} {post : α → σ → Prop}
    (ensured : Ensures program state post fun _ => False) :
    ∃ value next, program.run state = .ok (value, next) ∧ post value next := by
  cases outcome : program.run state with
  | ok result => exact ⟨result.1, result.2, rfl, ensured.of_run outcome⟩
  | error error => exact (ensured.of_error outcome).elim

@[simp]
theorem ensures_pure (value : α) (state : σ) (post : α → σ → Prop) (raised : ε → Prop) :
    Ensures (pure value : Program σ ε α) state post raised ↔ post value state := Iff.rfl

@[simp]
theorem ensures_throw (error : ε) (state : σ) (post : α → σ → Prop) (raised : ε → Prop) :
    Ensures (throw error : Program σ ε α) state post raised ↔ raised error := Iff.rfl

@[simp]
theorem ensures_get (state : σ) (post : σ → σ → Prop) (raised : ε → Prop) :
    Ensures (get : Program σ ε σ) state post raised ↔ post state state := Iff.rfl

@[simp]
theorem ensures_modify (change : σ → σ) (state : σ) (post : PUnit → σ → Prop)
    (raised : ε → Prop) :
    Ensures (modify change : Program σ ε PUnit) state post raised ↔
      post ⟨⟩ (change state) := Iff.rfl

@[simp]
theorem ensures_bind (first : Program σ ε α) (second : α → Program σ ε β) (state : σ)
    (post : β → σ → Prop) (raised : ε → Prop) :
    Ensures (first >>= second) state post raised ↔
      Ensures first state (fun value next => Ensures (second value) next post raised)
        raised := by
  unfold Ensures
  rw [StateT.run_bind]
  cases first.run state <;> rfl

@[simp]
theorem ensures_ite (condition : Prop) [Decidable condition] (first second : Program σ ε α)
    (state : σ) (post : α → σ → Prop) (raised : ε → Prop) :
    Ensures (if condition then first else second) state post raised ↔
      (condition → Ensures first state post raised) ∧
        (¬ condition → Ensures second state post raised) := by
  split <;> simp_all

/-- Lifting a computation that only may raise. -/
@[simp]
theorem ensures_liftExcept (outcome : Except ε α) (state : σ) (post : α → σ → Prop)
    (raised : ε → Prop) :
    Ensures (liftM outcome : Program σ ε α) state post raised ↔
      (∀ value, outcome = .ok value → post value state) ∧
        (∀ error, outcome = .error error → raised error) := by
  cases outcome with
  | ok value =>
    show post value state ↔ _
    simp
  | error error =>
    show raised error ↔ _
    simp

/-- A computation that may raise returns through a bind exactly when both parts return. -/
theorem bind_eq_ok_iff {first : Except ε α} {second : α → Except ε β} {result : β} :
    (first >>= second) = .ok result ↔ ∃ value, first = .ok value ∧ second value = .ok result := by
  cases first with
  | ok value =>
    show second value = .ok result ↔ _
    simp
  | error error =>
    show Except.error error = .ok result ↔ _
    simp

/-- A fold none of whose steps raises. -/
theorem foldlM_eq_ok {step : β → α → Except ε β} {next : β → α → β} {items : List α}
    (steps : ∀ acc, ∀ item ∈ items, step acc item = .ok (next acc item)) (acc : β) :
    items.foldlM step acc = .ok (items.foldl next acc) := by
  induction items generalizing acc with
  | nil => rfl
  | cons item items inductionHypothesis =>
    rw [List.foldlM_cons, steps acc item List.mem_cons_self, List.foldl_cons]
    exact inductionHypothesis
      (fun acc other member => steps acc other (List.mem_cons_of_mem _ member)) (next acc item)

/-- A fold returns when an invariant about the items still to come keeps every step from
raising. -/
theorem foldlM_returns {step : β → α → Except ε β} (inv : List α → β → Prop)
    (round : ∀ item rest acc, inv (item :: rest) acc →
      ∃ next, step acc item = .ok next ∧ inv rest next) :
    ∀ (rest : List α) (acc : β), inv rest acc →
      ∃ result, rest.foldlM step acc = .ok result ∧ inv [] result := by
  intro rest
  induction rest with
  | nil => exact fun acc initial => ⟨acc, rfl, initial⟩
  | cons item rest inductionHypothesis =>
    intro acc initial
    obtain ⟨next, stepped, holds⟩ := round item rest acc initial
    rw [List.foldlM_cons, stepped]
    exact inductionHypothesis next holds

/-- What a fold raises is what one of its steps raises. -/
theorem foldlM_error {step : β → α → Except ε β} (raised : ε → Prop)
    (steps : ∀ acc item error, step acc item = .error error → raised error) :
    ∀ (items : List α) (acc : β) (error : ε), items.foldlM step acc = .error error →
      raised error := by
  intro items
  induction items with
  | nil => exact fun acc error outcome => by cases outcome
  | cons item items inductionHypothesis =>
    intro acc error outcome
    rw [List.foldlM_cons] at outcome
    cases stepped : step acc item with
    | error failure =>
      rw [stepped] at outcome
      have same : failure = error := Except.error.inj outcome
      exact same ▸ steps acc item failure stepped
    | ok next =>
      rw [stepped] at outcome
      exact inductionHypothesis next error outcome

/-! ### Iterating over a list the body may edit -/

/-- The rounds of `for item in items: body` from a given index on. The list is read again in
every round; `fuel` bounds the number of rounds. -/
def iterate (items : σ → List α) (body : α → β → Program σ ε (ForInStep β)) :
    Nat → Nat → β → Program σ ε β
  | 0, _, acc => pure acc
  | fuel + 1, index, acc => do
    let state ← get
    match (items state)[index]? with
    | none => pure acc
    | some item => do
      match ← body item acc with
      | .done result => pure result
      | .yield next => iterate items body fuel (index + 1) next

/-- `for item in items: body`, where `body` may remove items but never adds one: as many
rounds as the list has items are then enough. `ForInStep.done` is a `return` or `break` in
the body. -/
def forEach (items : σ → List α) (body : α → β → Program σ ε (ForInStep β)) (acc : β) :
    Program σ ε β := do
  let state ← get
  iterate items body (items state).length 0 acc

/-- The step of a loop whose value is seen through a function. -/
def mapStep (forget : γ → β) : ForInStep γ → ForInStep β
  | .done result => .done (forget result)
  | .yield acc => .yield (forget acc)

/-- A loop may carry a record along that its body does not depend on. -/
theorem iterate_forget {items : σ → List α} {body : α → β → Program σ ε (ForInStep β)}
    {recording : α → γ → Program σ ε (ForInStep γ)} (forget : γ → β)
    (same : ∀ item acc, body item (forget acc) = mapStep forget <$> recording item acc) :
    ∀ fuel index acc, iterate items body fuel index (forget acc) =
      forget <$> iterate items recording fuel index acc := by
  intro fuel
  induction fuel with
  | zero =>
    intro index acc
    rw [iterate, iterate, map_pure]
  | succ fuel inductionHypothesis =>
    intro index acc
    rw [iterate, iterate, map_bind]
    congr 1
    funext state
    split
    · rw [map_pure]
    · rw [map_bind, same, bind_map_left]
      congr 1
      funext step
      cases step with
      | done result => rw [map_pure]; rfl
      | yield next => exact inductionHypothesis _ _

theorem forEach_forget {items : σ → List α} {body : α → β → Program σ ε (ForInStep β)}
    {recording : α → γ → Program σ ε (ForInStep γ)} (forget : γ → β)
    (same : ∀ item acc, body item (forget acc) = mapStep forget <$> recording item acc)
    (acc : γ) : forEach items body (forget acc) = forget <$> forEach items recording acc := by
  rw [forEach, forEach, map_bind]
  congr 1
  funext state
  exact iterate_forget forget same _ _ _

section Iterate

variable {items : σ → List α} {body : α → β → Program σ ε (ForInStep β)}
  {inv : Nat → β → σ → Prop} {post : β → σ → Prop} {raised : ε → Prop}

/-- What one round has to establish: it keeps the invariant at the next index without
lengthening the list, or leaves the loop. -/
def RoundOk (items : σ → List α) (inv : Nat → β → σ → Prop) (post : β → σ → Prop)
    (index : Nat) (state : σ) (step : ForInStep β) (next : σ) : Prop :=
  match step with
  | .done result => post result next
  | .yield acc => inv (index + 1) acc next ∧ (items next).length ≤ (items state).length

theorem ensures_iterate
    (round : ∀ index acc item state, inv index acc state → (items state)[index]? = some item →
      Ensures (body item acc) state (RoundOk items inv post index state) raised)
    (exhausted : ∀ index acc state, inv index acc state → (items state)[index]? = none →
      post acc state) :
    ∀ fuel index acc state, inv index acc state → (items state).length ≤ index + fuel →
      Ensures (iterate items body fuel index acc) state post raised := by
  intro fuel
  induction fuel with
  | zero =>
    intro index acc state holds bound
    exact exhausted index acc state holds (List.getElem?_eq_none bound)
  | succ fuel inductionHypothesis =>
    intro index acc state holds bound
    rw [iterate, ensures_bind, ensures_get]
    cases found : (items state)[index]? with
    | none => exact exhausted index acc state holds found
    | some item =>
      rw [ensures_bind]
      refine (round index acc item state holds found).imp fun step next outcome => ?_
      cases step with
      | done result => exact outcome
      | yield acc' => exact inductionHypothesis _ _ _ outcome.1 (by have := outcome.2; omega)

/-- The rule for a loop over a list under edit: an invariant at every index, kept by each
round, gives its consequence when the index runs off the list. -/
theorem ensures_forEach (inv : Nat → β → σ → Prop) {acc : β} {state : σ}
    (round : ∀ index acc item state, inv index acc state → (items state)[index]? = some item →
      Ensures (body item acc) state (RoundOk items inv post index state) raised)
    (exhausted : ∀ index acc state, inv index acc state → (items state)[index]? = none →
      post acc state)
    (initial : inv 0 acc state) : Ensures (forEach items body acc) state post raised := by
  rw [forEach, ensures_bind, ensures_get]
  exact ensures_iterate round exhausted _ _ _ _ initial (by omega)

end Iterate

/-! ### Iterating over a list that stays as it is -/

@[simp]
theorem ensures_forM_nil (body : α → Program σ ε PUnit) (state : σ) (post : PUnit → σ → Prop)
    (raised : ε → Prop) : Ensures ([].forM body) state post raised ↔ post ⟨⟩ state := Iff.rfl

/-- The rule for a loop over a fixed list: the invariant speaks of the items still to come,
and every round consumes one of them. -/
theorem ensures_forM (inv : List α → σ → Prop) {raised : ε → Prop}
    {body : α → Program σ ε PUnit}
    (round : ∀ item rest state, inv (item :: rest) state →
      Ensures (body item) state (fun _ next => inv rest next) raised) :
    ∀ (rest : List α) (state : σ), inv rest state →
      Ensures (rest.forM body) state (fun _ next => inv [] next) raised := by
  intro rest
  induction rest with
  | nil => exact fun state initial => initial
  | cons item rest inductionHypothesis =>
    intro state initial
    show Ensures (body item >>= fun _ => rest.forM body) state _ raised
    rw [ensures_bind]
    exact (round item rest state initial).imp fun _ next holds =>
      inductionHypothesis next holds

/-- The same for a loop that carries a value from round to round. -/
theorem ensures_foldlM (inv : List α → β → σ → Prop) {raised : ε → Prop}
    {body : β → α → Program σ ε β}
    (round : ∀ item rest acc state, inv (item :: rest) acc state →
      Ensures (body acc item) state (fun acc' next => inv rest acc' next) raised) :
    ∀ (rest : List α) (acc : β) (state : σ), inv rest acc state →
      Ensures (rest.foldlM body acc) state (fun acc next => inv [] acc next) raised := by
  intro rest
  induction rest with
  | nil => exact fun acc state initial => initial
  | cons item rest inductionHypothesis =>
    intro acc state initial
    rw [List.foldlM_cons, ensures_bind]
    exact (round item rest acc state initial).imp fun acc' next holds =>
      inductionHypothesis acc' next holds

/-! ### Programs that follow a relation -/

/-- Whenever the program returns, the relation leads from the state before to the state
after. -/
def Follows (relation : σ → σ → Prop) (program : Program σ ε α) : Prop :=
  ∀ state, Ensures program state (fun _ next => relation state next) fun _ => True

section Follows

variable {relation : σ → σ → Prop}

theorem follows_throw (error : ε) : Follows relation (throw error : Program σ ε α) :=
  fun _ => trivial

theorem follows_modify {change : σ → σ} (related : ∀ state, relation state (change state)) :
    Follows relation (modify change : Program σ ε PUnit) :=
  related

theorem Follows.ite {condition : Prop} [Decidable condition] {first second : Program σ ε α}
    (yes : Follows relation first) (no : Follows relation second) :
    Follows relation (if condition then first else second) := by
  split
  · exact yes
  · exact no

variable [IsPreorder σ relation]

theorem follows_pure (value : α) : Follows relation (pure value : Program σ ε α) :=
  fun state => refl_of relation state

theorem follows_get : Follows relation (get : Program σ ε σ) :=
  fun state => refl_of relation state

theorem follows_liftExcept (outcome : Except ε α) :
    Follows relation (liftM outcome : Program σ ε α) := by
  intro state
  rw [ensures_liftExcept]
  exact ⟨fun _ _ => refl_of relation state, fun _ _ => trivial⟩

theorem Follows.bind {first : Program σ ε α} {second : α → Program σ ε β}
    (before : Follows relation first) (after : ∀ value, Follows relation (second value)) :
    Follows relation (first >>= second) := by
  intro state
  rw [ensures_bind]
  refine (before state).imp fun value middle reached => ?_
  exact (after value middle).imp fun _ next later => trans_of relation reached later

theorem Follows.forM {body : α → Program σ ε PUnit} (round : ∀ item, Follows relation (body item))
    (items : List α) : Follows relation (items.forM body) := by
  induction items with
  | nil => exact follows_pure _
  | cons item items inductionHypothesis => exact (round item).bind fun _ => inductionHypothesis

theorem Follows.foldlM {body : β → α → Program σ ε β}
    (round : ∀ acc item, Follows relation (body acc item)) (items : List α) (acc : β) :
    Follows relation (items.foldlM body acc) := by
  induction items generalizing acc with
  | nil => exact follows_pure _
  | cons item items inductionHypothesis =>
    rw [List.foldlM_cons]
    exact (round acc item).bind fun acc' => inductionHypothesis acc'

/-- A loop over a list under edit follows a relation that never lengthens the list, when its
body does in every state that the loop may have led to. -/
theorem Follows.forEach {items : σ → List α} {body : α → β → Program σ ε (ForInStep β)} {acc : β}
    (shrinks : ∀ state next, relation state next → (items next).length ≤ (items state).length)
    {start : σ} (round : ∀ acc item state, relation start state → item ∈ items state →
      Ensures (body item acc) state (fun _ next => relation state next) fun _ => True) :
    Ensures (forEach items body acc) start (fun _ next => relation start next)
      fun _ => True := by
  refine ensures_forEach (fun _ _ state => relation start state) ?_ (fun _ _ _ holds _ => holds)
    (refl_of relation start)
  intro index acc item state reached found
  refine (round acc item state reached (List.mem_of_getElem? found)).imp fun step next later => ?_
  cases step with
  | done result => exact trans_of relation reached later
  | yield acc' => exact ⟨trans_of relation reached later, shrinks state next later⟩

end Follows

/-! ### Runs of a step function -/

/-- The states a run of `step` from `start` passes through. A step that raises ends the
run. -/
inductive Reachable (step : σ → Except ε σ) (start : σ) : σ → Prop
  | refl : Reachable step start start
  | next {state state' : σ} : Reachable step start state → step state = .ok state' →
      Reachable step start state'

/-- What holds at the start and is kept by every step holds throughout the run. -/
theorem Reachable.invariant {step : σ → Except ε σ} {start state : σ} (inv : σ → Prop)
    (reached : Reachable step start state) (initial : inv start)
    (preserved : ∀ state state', inv state → step state = .ok state' → inv state') :
    inv state := by
  induction reached with
  | refl => exact initial
  | next _ stepped inductionHypothesis => exact preserved _ _ inductionHypothesis stepped

/-- A run together with the number of its steps that start in a marked state. -/
inductive Passes (step : σ → Except ε σ) (mark : σ → Prop) (start : σ) : Nat → σ → Prop
  | refl : Passes step mark start 0 start
  | next {count : Nat} {state state' : σ} : Passes step mark start count state →
      ¬ mark state → step state = .ok state' → Passes step mark start count state'
  | pass {count : Nat} {state state' : σ} : Passes step mark start count state →
      mark state → step state = .ok state' → Passes step mark start (count + 1) state'

theorem Passes.reachable {step : σ → Except ε σ} {mark : σ → Prop} {start state : σ}
    {count : Nat} (run : Passes step mark start count state) : Reachable step start state := by
  induction run with
  | refl => exact .refl
  | next _ _ stepped inductionHypothesis => exact inductionHypothesis.next stepped
  | pass _ _ stepped inductionHypothesis => exact inductionHypothesis.next stepped

/-- The state after a number of steps. -/
def runSteps (step : σ → Except ε σ) : Nat → σ → Except ε σ
  | 0, state => .ok state
  | count + 1, state => step state >>= runSteps step count

theorem Reachable.trans {step : σ → Except ε σ} {start middle last : σ}
    (first : Reachable step start middle) (second : Reachable step middle last) :
    Reachable step start last := by
  induction second with
  | refl => exact first
  | next _ stepped inductionHypothesis => exact inductionHypothesis.next stepped

/-- Whether the state after a number of steps passes a check. -/
def reaches (step : σ → Except ε σ) (count : Nat) (start : σ) (check : σ → Bool) : Bool :=
  match runSteps step count start with
  | .ok state => check state
  | .error _ => false

theorem reachable_runSteps {step : σ → Except ε σ} {count : Nat} {start last : σ}
    (run : runSteps step count start = .ok last) : Reachable step start last := by
  induction count generalizing start with
  | zero =>
    cases run
    exact .refl
  | succ count inductionHypothesis =>
    cases stepped : step start with
    | error error =>
      rw [runSteps, stepped] at run
      cases run
    | ok middle =>
      rw [runSteps, stepped] at run
      exact (Reachable.refl.next stepped).trans (inductionHypothesis run)

/-- A state that a run reaches and that passes a check, found by running it. -/
theorem exists_reachable (step : σ → Except ε σ) (count : Nat) (start : σ) (check : σ → Prop)
    [DecidablePred check]
    (passed : reaches step count start (fun state => decide (check state)) = true) :
    ∃ state, Reachable step start state ∧ check state := by
  unfold reaches at passed
  split at passed
  · rename_i state run
    exact ⟨state, reachable_runSteps run, of_decide_eq_true passed⟩
  · cases passed

/-- The same for a run none of whose steps starts in a marked state. -/
def passesNone (step : σ → Except ε σ) (mark : σ → Bool) : Nat → σ → (σ → Bool) → Bool
  | 0, state, check => check state
  | count + 1, state, check => !mark state && match step state with
    | .ok next => passesNone step mark count next check
    | .error _ => false

theorem exists_passes (step : σ → Except ε σ) (mark check : σ → Prop) [DecidablePred mark]
    [DecidablePred check] (count : Nat) {start state : σ}
    (passed : passesNone step (fun state => decide (mark state)) count state
      (fun state => decide (check state)) = true) (run : Passes step mark start 0 state) :
    ∃ last, Passes step mark start 0 last ∧ check last := by
  induction count generalizing state with
  | zero => exact ⟨state, run, of_decide_eq_true passed⟩
  | succ count inductionHypothesis =>
    rw [passesNone, Bool.and_eq_true, Bool.not_eq_true', decide_eq_false_iff_not] at passed
    obtain ⟨unmarked, passed⟩ := passed
    split at passed
    · rename_i next stepped
      exact inductionHypothesis passed (run.next unmarked stepped)
    · cases passed

/-- The next state, when it passes a check. -/
theorem exists_step {step : σ → Except ε σ} {state : σ} {check : σ → Prop} [DecidablePred check]
    (passed : reaches step 1 state (fun next => decide (check next)) = true) :
    ∃ next, step state = .ok next ∧ check next := by
  unfold reaches at passed
  split at passed
  · rename_i next run
    obtain ⟨middle, stepped, same⟩ := bind_eq_ok_iff.mp run
    cases same
    exact ⟨next, stepped, of_decide_eq_true passed⟩
  · cases passed

end Python
