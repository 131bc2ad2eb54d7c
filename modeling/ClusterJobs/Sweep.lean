/-
This file describes what a loop that removes items from the very list it iterates over
leaves behind.

Removing the current item moves its successor into the current slot, and the next round
looks at the slot after that: the successor is never looked at. `Sweep keep drop` is the
resulting relation between the list before and after, with `keep` what the loop knows of an
item it looked at and left in place, and `drop` what it knows of an item it removed; a
skipped item is subject to neither. `ensures_sweep_counted` derives it for every loop of this
shape, `ensures_sweep` for the bodies that do not depend on the number of rounds, and the rest
of the file says when the relation amounts to an honest filter (no two neighbours are both
removed), what it does when everything it looks at goes (every second item survives), and how
far it moves an item that should have gone.
-/

import ClusterJobs.Program
import Mathlib.Data.List.Nodup
import Mathlib.Data.List.Chain

namespace Python

variable {σ ε α β : Type}

/-- The list a removing loop starts with, and the list it leaves. -/
inductive Sweep (keep drop : α → Prop) : List α → List α → Prop
  | nil : Sweep keep drop [] []
  | keep {item : α} {rest rest' : List α} : keep item → Sweep keep drop rest rest' →
      Sweep keep drop (item :: rest) (item :: rest')
  | dropLast {item : α} : drop item → Sweep keep drop [item] []
  | dropSkip {item skipped : α} {rest rest' : List α} : drop item →
      Sweep keep drop rest rest' → Sweep keep drop (item :: skipped :: rest) (skipped :: rest')

/-! ### The loop rule -/

/-- The part of a removing loop still ahead at an index: the list is what has been passed
followed by what is ahead, and whatever becomes of the rest, the whole is a sweep of the
list the loop started with. -/
def Ahead (keep drop : α → Prop) (start current : List α) (index : Nat) : Prop :=
  ∃ passed rest, current = passed ++ rest ∧ passed.length ≤ index ∧
    (rest ≠ [] → passed.length = index) ∧
    ∀ rest', Sweep keep drop rest rest' → Sweep keep drop start (passed ++ rest')

theorem Ahead.initial (keep drop : α → Prop) (start : List α) :
    Ahead keep drop start start 0 :=
  ⟨[], start, rfl, le_rfl, fun _ => rfl, fun _ swept => swept⟩

/-- At the slot of an item the list splits there. -/
theorem Ahead.split {keep drop : α → Prop} {start current : List α} {index : Nat} {item : α}
    (ahead : Ahead keep drop start current index) (found : current[index]? = some item) :
    ∃ passed rest, current = passed ++ item :: rest ∧ passed.length = index ∧
      ∀ rest', Sweep keep drop (item :: rest) rest' →
        Sweep keep drop start (passed ++ rest') := by
  obtain ⟨passed, rest, rfl, bound, exact, swept⟩ := ahead
  cases rest with
  | nil =>
    rw [List.append_nil, List.getElem?_eq_none bound] at found
    cases found
  | cons head rest =>
    have length : passed.length = index := exact (List.cons_ne_nil _ _)
    have same : head = item := by simpa [← length] using found
    subst same
    exact ⟨passed, rest, rfl, length, swept⟩

theorem Ahead.keepItem {keep drop : α → Prop} {start current : List α} {index : Nat} {item : α}
    (ahead : Ahead keep drop start current index) (found : current[index]? = some item)
    (kept : keep item) : Ahead keep drop start current (index + 1) := by
  obtain ⟨passed, rest, rfl, length, swept⟩ := ahead.split found
  refine ⟨passed ++ [item], rest, by simp, by simp [length], fun _ => by simp [length], ?_⟩
  intro rest' sweptRest
  rw [List.append_assoc]
  exact swept _ (Sweep.keep kept sweptRest)

theorem Ahead.dropItem [DecidableEq α] {keep drop : α → Prop} {start current : List α}
    {index : Nat} {item : α} (ahead : Ahead keep drop start current index)
    (nodup : current.Nodup) (found : current[index]? = some item) (dropped : drop item) :
    Ahead keep drop start (current.erase item) (index + 1) := by
  obtain ⟨passed, rest, rfl, length, swept⟩ := ahead.split found
  have absent : item ∉ passed := by
    intro member
    exact (List.nodup_append.mp nodup).2.2 item member item List.mem_cons_self rfl
  rw [List.erase_append_right _ absent, List.erase_cons_head]
  cases rest with
  | nil =>
    refine ⟨passed, [], rfl, by omega, fun nonempty => absurd rfl nonempty, ?_⟩
    intro rest' sweptRest
    cases sweptRest
    exact swept _ (Sweep.dropLast dropped)
  | cons skipped rest =>
    refine ⟨passed ++ [skipped], rest, by simp, by simp [length], fun _ => by simp [length], ?_⟩
    intro rest' sweptRest
    rw [List.append_assoc]
    exact swept _ (Sweep.dropSkip dropped sweptRest)

theorem Ahead.exhausted {keep drop : α → Prop} {start current : List α} {index : Nat}
    (ahead : Ahead keep drop start current index) (none : current[index]? = none) :
    Sweep keep drop start current := by
  obtain ⟨passed, rest, rfl, bound, exact, swept⟩ := ahead
  cases rest with
  | nil => exact swept _ .nil
  | cons head rest =>
    have length : passed.length = index := exact (List.cons_ne_nil _ _)
    simp [← length] at none

/-- The rule for a loop whose body leaves the list alone or removes the current item: it
keeps the invariant of its rounds and sweeps the list. The rounds are counted, and there are at most
as many as the list had items. -/
theorem ensures_sweep_counted [DecidableEq α] {items : σ → List α}
    {body : α → β → Program σ ε (ForInStep β)} (inv : Nat → β → σ → Prop) {raised : ε → Prop}
    {keep drop : α → Prop} {acc : β} {state : σ}
    (nodup : ∀ index acc state, inv index acc state → (items state).Nodup)
    (round : ∀ index acc item current, index < (items state).length → inv index acc current →
      item ∈ items current →
      Ensures (body item acc) current (fun step next => ∃ acc', step = .yield acc' ∧
        inv (index + 1) acc' next ∧ (items next = items current ∧ keep item ∨
          items next = (items current).erase item ∧ drop item)) raised)
    (initial : inv 0 acc state) :
    Ensures (forEach items body acc) state
      (fun acc next => (∃ index, inv index acc next) ∧
        Sweep keep drop (items state) (items next)) raised := by
  refine ensures_forEach (fun index acc next => inv index acc next ∧
      (items next).length ≤ (items state).length ∧
      Ahead keep drop (items state) (items next) index)
    ?_ ?_ ⟨initial, le_rfl, Ahead.initial _ _ _⟩
  · rintro index acc item current ⟨holds, shorter, ahead⟩ found
    have bound := (List.getElem?_eq_some_iff.mp found).1.trans_le shorter
    refine (round index acc item current bound holds (List.mem_of_getElem? found)).imp ?_
    rintro step next ⟨acc', rfl, kept, ⟨same, keeps⟩ | ⟨erased, drops⟩⟩
    · refine ⟨⟨kept, by rw [same]; exact shorter, ?_⟩, by rw [same]⟩
      rw [same]
      exact ahead.keepItem found keeps
    · have fewer : (items next).length ≤ (items current).length := by
        rw [erased]
        exact List.length_erase_le
      refine ⟨⟨kept, fewer.trans shorter, ?_⟩, fewer⟩
      rw [erased]
      exact ahead.dropItem (nodup _ _ _ holds) found drops
  · rintro index acc current ⟨holds, -, ahead⟩ none
    exact ⟨⟨index, holds⟩, ahead.exhausted none⟩

/-- The same when nothing depends on the number of rounds. -/
theorem ensures_sweep [DecidableEq α] {items : σ → List α}
    {body : α → β → Program σ ε (ForInStep β)} {inv : β → σ → Prop} {raised : ε → Prop}
    {keep drop : α → Prop} {acc : β} {state : σ}
    (nodup : ∀ acc state, inv acc state → (items state).Nodup)
    (round : ∀ acc item state, inv acc state → item ∈ items state →
      Ensures (body item acc) state (fun step next => ∃ acc', step = .yield acc' ∧
        inv acc' next ∧ (items next = items state ∧ keep item ∨
          items next = (items state).erase item ∧ drop item)) raised)
    (initial : inv acc state) :
    Ensures (forEach items body acc) state
      (fun acc next => inv acc next ∧ Sweep keep drop (items state) (items next)) raised := by
  refine (ensures_sweep_counted (fun _ => inv) (fun _ => nodup)
    (fun _ acc item current _ => round acc item current) initial).imp ?_
  rintro acc next ⟨⟨_, holds⟩, swept⟩
  exact ⟨holds, swept⟩

/-- The rule for a loop that removes every item it looks at and goes on: it looks at the items
at even positions of the list it started with, and at no others. -/
theorem ensures_halve [DecidableEq α] {items : σ → List α}
    {body : α → β → Program σ ε (ForInStep β)} {inv : β → σ → Prop} {raised : ε → Prop}
    {acc : β} {state : σ} (nodup : (items state).Nodup)
    (round : ∀ half acc item current, (items state)[2 * half]? = some item → inv acc current →
      Ensures (body item acc) current (fun step next => ∃ acc', step = .yield acc' ∧
        inv acc' next ∧ items next = (items current).erase item) raised)
    (initial : inv acc state) :
    Ensures (forEach items body acc) state inv raised := by
  refine ensures_forEach (fun index acc current => inv acc current ∧ (items current).Nodup ∧
    ∀ offset, (items current)[index + offset]? = (items state)[2 * index + offset]?)
    ?_ (fun _ _ _ holds _ => holds.1) ⟨initial, nodup, fun _ => by simp⟩
  rintro index acc item current ⟨holds, distinct, rest⟩ found
  have even : (items state)[2 * index]? = some item := (rest 0).symm.trans found
  refine (round index acc item current even holds).imp ?_
  rintro step next ⟨acc', rfl, kept, erased⟩
  refine ⟨⟨kept, erased ▸ distinct.erase item, fun offset => ?_⟩, ?_⟩
  · obtain ⟨bound, rfl⟩ := List.getElem?_eq_some_iff.mp found
    rw [erased, distinct.erase_getElem, List.getElem?_eraseIdx_of_ge (by omega)]
    have later := rest (2 + offset)
    rw [show index + 1 + offset + 1 = index + (2 + offset) by omega,
      show 2 * (index + 1) + offset = 2 * index + (2 + offset) by omega]
    exact later
  · rw [erased]
    exact List.length_erase_le

/-- What is left of a list by a loop that removes the items it looks at, as long as they are ready,
and stops at the first one that is not. -/
def halted (ready : α → Prop) [DecidablePred ready] : List α → List α
  | [] => []
  | [item] => if ready item then [] else [item]
  | item :: skipped :: rest =>
    if ready item then skipped :: halted ready rest else item :: skipped :: rest

/-- Such a loop looks at the items at even positions; all of these are ready. -/
def AllReady (ready : α → Prop) (items : List α) : Prop :=
  ∀ (half : Nat) (item : α), items[2 * half]? = some item → ready item

theorem halted_sublist (ready : α → Prop) [DecidablePred ready] (items : List α) :
    (halted ready items).Sublist items := by
  induction items using halted.induct ready with
  | case1 => exact .refl _
  | case2 item isReady => simp [halted, isReady]
  | case3 item unready => simp [halted, unready]
  | case4 item skipped rest isReady inductionHypothesis =>
    rw [halted, if_pos isReady]
    exact (inductionHypothesis.cons_cons skipped).cons item
  | case5 item skipped rest unready => simp [halted, unready]

theorem halted_of_not_ready {ready : α → Prop} [DecidablePred ready] {item : α}
    (unready : ¬ ready item) (rest : List α) : halted ready (item :: rest) = item :: rest := by
  cases rest with
  | nil => rw [halted, if_neg unready]
  | cons skipped rest => rw [halted, if_neg unready]

theorem allReady_cons {ready : α → Prop} {item : α} (isReady : ready item) (rest : List α) :
    AllReady ready (item :: rest) ↔ AllReady ready rest.tail := by
  constructor
  · intro all half other found
    refine all (half + 1) other ?_
    rw [show 2 * (half + 1) = 2 * half + 1 + 1 by omega, List.getElem?_cons_succ,
      ← List.getElem?_tail, found]
  · rintro all half other found
    cases half with
    | zero =>
      cases found
      exact isReady
    | succ half =>
      refine all half other ?_
      rw [List.getElem?_tail, ← List.getElem?_cons_succ (a := item), ← found]
      rfl

theorem length_halted_lt {ready : α → Prop} [DecidablePred ready] {item : α}
    (isReady : ready item) (rest : List α) :
    (halted ready (item :: rest)).length < (item :: rest).length := by
  cases rest with
  | nil =>
    rw [halted, if_pos isReady]
    exact Nat.zero_lt_one
  | cons skipped rest =>
    have shorter := (halted_sublist ready rest).length_le
    rw [halted, if_pos isReady]
    simp only [List.length_cons]
    omega

/-- No more rounds than there are items: each one takes an item off, or nothing changes any more. -/
theorem exists_allReady_iff {ready : α → Prop} [DecidablePred ready] {items : List α} :
    (∃ rounds, AllReady ready ((halted ready)^[rounds] items)) ↔
      ∃ rounds ≤ items.length, AllReady ready ((halted ready)^[rounds] items) := by
  constructor
  · rintro ⟨rounds, all⟩
    induction rounds generalizing items with
    | zero => exact ⟨0, Nat.zero_le _, all⟩
    | succ rounds inductionHypothesis =>
      rw [Function.iterate_succ_apply] at all
      cases items with
      | nil => exact ⟨0, le_rfl, fun half item found => by simp at found⟩
      | cons item rest =>
        by_cases isReady : ready item
        · obtain ⟨count, bound, ready⟩ := inductionHypothesis all
          have shorter := length_halted_lt isReady rest
          exact ⟨count + 1, by omega, ready⟩
        · rw [halted_of_not_ready isReady] at all
          exact inductionHypothesis all
  · rintro ⟨rounds, _, all⟩
    exact ⟨rounds, all⟩

/-- The rule for a loop that removes the items it looks at and answers `False` at the first one
that is not ready. -/
theorem ensures_halting [DecidableEq α] {items : σ → List α}
    {body : α → Bool → Program σ ε (ForInStep Bool)} (inv : σ → Prop) {raised : ε → Prop}
    {ready : α → Prop} [DecidablePred ready] {state : σ} (nodup : (items state).Nodup)
    (round : ∀ acc item current, item ∈ items state → inv current →
      Ensures (body item acc) current (fun step next => inv next ∧
        (ready item ∧ step = .yield true ∧ items next = (items current).erase item ∨
          ¬ ready item ∧ step = .done false ∧ items next = items current)) raised)
    (initial : inv state) :
    Ensures (forEach items body true) state (fun completed next => inv next ∧
      (completed = true ↔ AllReady ready (items state)) ∧
      items next = halted ready (items state)) raised := by
  -- Everything before the index has been skipped, and the rest is as it was.
  refine ensures_forEach (fun index acc current => inv current ∧ acc = true ∧
      ∃ skipped rest, items current = skipped ++ rest ∧ skipped.length ≤ index ∧
        (rest ≠ [] → skipped.length = index) ∧ (skipped ++ rest).Sublist (items state) ∧
        halted ready (items state) = skipped ++ halted ready rest ∧
        (AllReady ready (items state) ↔ AllReady ready rest))
    ?_ ?_ ⟨initial, rfl, [], items state, rfl, le_rfl, fun _ => rfl, .refl _, rfl, Iff.rfl⟩
  · rintro index acc item current
      ⟨holds, rfl, skipped, rest, list, short, exact, sub, left, all⟩ found
    cases rest with
    | nil =>
      rw [list, List.append_nil, List.getElem?_eq_none short] at found
      cases found
    | cons head rest =>
      have length := exact (List.cons_ne_nil _ _)
      rw [list, ← length, List.getElem?_append_right le_rfl, Nat.sub_self] at found
      cases found
      have member : item ∈ items state :=
        sub.subset (List.mem_append_right _ List.mem_cons_self)
      have fresh : item ∉ skipped := fun before =>
        (List.nodup_append.mp (nodup.sublist sub)).2.2 item before item List.mem_cons_self rfl
      have erased : (items current).erase item = skipped ++ rest := by
        rw [list, List.erase_append_right _ fresh, List.erase_cons_head]
      refine (round true item current member holds).imp ?_
      rintro step next ⟨holdsNext, ⟨isReady, rfl, same⟩ | ⟨unready, rfl, same⟩⟩
      · refine ⟨⟨holdsNext, rfl, ?_⟩, by rw [same]; exact List.length_erase_le⟩
        have sub' : (skipped ++ rest).Sublist (items state) :=
          ((List.Sublist.refl skipped).append (List.sublist_cons_self item rest)).trans sub
        rw [same, erased, left, all, allReady_cons isReady]
        cases rest with
        | nil =>
          exact ⟨skipped, [], rfl, by omega, fun nonempty => absurd rfl nonempty, sub',
            by simp [halted, isReady], Iff.rfl⟩
        | cons second rest =>
          refine ⟨skipped ++ [second], rest, by simp, by simp [length], fun _ => by simp [length],
            by simpa using sub', ?_, Iff.rfl⟩
          rw [halted, if_pos isReady, List.append_assoc]
          rfl
      · refine ⟨holdsNext, ?_, ?_⟩
        · rw [all]
          exact iff_of_false Bool.false_ne_true fun every => unready (every 0 item rfl)
        · rw [same, list, left, halted_of_not_ready unready]
  · rintro index acc current ⟨holds, rfl, skipped, rest, list, _, exact, _, left, all⟩ exhausted
    cases rest with
    | nil =>
      have none : AllReady ready ([] : List α) := fun half item found => by simp at found
      exact ⟨holds, iff_of_true rfl (all.mpr none), by rw [list, left, halted]⟩
    | cons head rest =>
      rw [list, ← exact (List.cons_ne_nil _ _), List.getElem?_append_right le_rfl] at exhausted
      simp at exhausted

/-! ### What a sweep leaves -/

theorem Sweep.sublist {keep drop : α → Prop} {before after : List α}
    (swept : Sweep keep drop before after) : after.Sublist before := by
  induction swept with
  | nil => exact List.Sublist.refl _
  | keep _ _ inductionHypothesis => exact inductionHypothesis.cons_cons _
  | dropLast _ => exact List.nil_sublist _
  | dropSkip _ _ inductionHypothesis => exact (inductionHypothesis.cons_cons _).cons _

/-- An item the loop could not have left in place is gone or has moved up: it was skipped
because an item before it was removed. -/
theorem Sweep.idxOf_lt [DecidableEq α] {keep drop : α → Prop} {before after : List α}
    (swept : Sweep keep drop before after) (nodup : before.Nodup) {item : α}
    (unkept : ¬ keep item) (member : item ∈ after) :
    after.idxOf item < before.idxOf item := by
  induction swept with
  | nil => cases member
  | @keep head rest rest' kept _ inductionHypothesis =>
    have different : head ≠ item := fun same => unkept (same ▸ kept)
    have tail : item ∈ rest' := (List.mem_cons.mp member).resolve_left different.symm
    rw [List.idxOf_cons_ne _ different, List.idxOf_cons_ne _ different]
    exact Nat.succ_lt_succ (inductionHypothesis nodup.of_cons tail)
  | dropLast _ => cases member
  | @dropSkip head skipped rest rest' _ swept inductionHypothesis =>
    have inBefore : item ∈ skipped :: rest := (swept.sublist.cons_cons skipped).subset member
    have different : head ≠ item := fun same => (List.nodup_cons.mp nodup).1 (same ▸ inBefore)
    rw [List.idxOf_cons_ne _ different]
    by_cases same : skipped = item
    · rw [same, List.idxOf_cons_self]
      exact Nat.succ_pos _
    · have tail : item ∈ rest' := (List.mem_cons.mp member).resolve_left (Ne.symm same)
      rw [List.idxOf_cons_ne _ same, List.idxOf_cons_ne _ same]
      have := inductionHypothesis nodup.of_cons.of_cons tail
      omega

/-- When no two neighbours are both removed, nothing that should go is skipped. -/
theorem Sweep.eq_filter {leaves : α → Prop} [DecidablePred leaves] {before after : List α}
    (swept : Sweep (fun item => ¬ leaves item) leaves before after)
    (apart : before.IsChain fun first second => ¬ (leaves first ∧ leaves second)) :
    after = before.filter fun item => ¬ leaves item := by
  induction swept with
  | nil => rfl
  | keep stays _ inductionHypothesis =>
    rw [List.filter_cons_of_pos (by simpa using stays), ← inductionHypothesis apart.tail]
  | dropLast goes => simp [goes]
  | dropSkip goes _ inductionHypothesis =>
    have stays := (List.isChain_cons_cons.mp apart).1
    rw [List.filter_cons_of_neg (by simpa using goes),
      List.filter_cons_of_pos (by simpa [goes] using stays),
      ← inductionHypothesis apart.tail.tail]

/-- When nothing that should go is left, no two neighbours were both to be removed. -/
theorem Sweep.apart {leaves : α → Prop} {before after : List α}
    (swept : Sweep (fun item => ¬ leaves item) leaves before after)
    (cleared : ∀ item ∈ after, ¬ leaves item) :
    before.IsChain fun first second => ¬ (leaves first ∧ leaves second) := by
  induction swept with
  | nil => exact List.isChain_nil
  | keep stays _ inductionHypothesis =>
    refine List.isChain_cons.mpr ⟨fun _ _ both => stays both.1, ?_⟩
    exact inductionHypothesis fun item member => cleared item (List.mem_cons_of_mem _ member)
  | dropLast _ => exact List.isChain_singleton _
  | dropSkip _ _ inductionHypothesis =>
    have stays := cleared _ List.mem_cons_self
    refine List.isChain_cons_cons.mpr ⟨fun both => stays both.2, ?_⟩
    refine List.isChain_cons.mpr ⟨fun _ _ both => stays both.1, ?_⟩
    exact inductionHypothesis fun item member => cleared item (List.mem_cons_of_mem _ member)

/-- Every second item, from the second one on. -/
def odds : List α → List α
  | [] => []
  | [_] => []
  | _ :: second :: rest => second :: odds rest

/-- When everything the loop looks at goes, every second item survives unseen. -/
theorem Sweep.eq_odds {keep drop : α → Prop} {before after : List α}
    (swept : Sweep keep drop before after) (unkept : ∀ item ∈ before, ¬ keep item) :
    after = odds before := by
  induction swept with
  | nil => rfl
  | keep kept _ _ => exact absurd kept (unkept _ List.mem_cons_self)
  | dropLast _ => rfl
  | dropSkip _ _ inductionHypothesis =>
    rw [odds, inductionHypothesis fun item member =>
      unkept item (List.mem_cons_of_mem _ (List.mem_cons_of_mem _ member))]

theorem mem_odds_iff (items : List α) (item : α) :
    item ∈ odds items ↔ ∃ half : Nat, items[2 * half + 1]? = some item := by
  induction items using odds.induct with
  | case1 => simp [odds]
  | case2 head =>
    simp [odds]
  | case3 head second rest inductionHypothesis =>
    rw [odds, List.mem_cons, inductionHypothesis]
    constructor
    · rintro (rfl | ⟨half, found⟩)
      · exact ⟨0, rfl⟩
      · exact ⟨half + 1, by simpa [Nat.mul_add] using found⟩
    · rintro ⟨half, found⟩
      cases half with
      | zero => exact Or.inl (by simpa using found.symm)
      | succ half => exact Or.inr ⟨half, by simpa [Nat.mul_add] using found⟩

/-- In a list without repetitions, what survives a sweep that takes everything it looks at
is what does not stand at an even position. -/
theorem mem_odds_iff_not_even {items : List α} (nodup : items.Nodup) {item : α}
    (member : item ∈ items) :
    item ∈ odds items ↔ ¬ ∃ half : Nat, items[2 * half]? = some item := by
  rw [mem_odds_iff]
  constructor
  · rintro ⟨half, odd⟩ ⟨half', even⟩
    have same := (List.getElem?_inj (by
      have := List.getElem?_eq_some_iff.mp odd
      exact this.1) nodup).mp (odd.trans even.symm)
    omega
  · intro notEven
    obtain ⟨position, found⟩ := List.getElem?_of_mem member
    have parity : position = 2 * (position / 2) ∨ position = 2 * (position / 2) + 1 := by omega
    rcases parity with even | odd
    · exact absurd ⟨position / 2, even ▸ found⟩ notEven
    · exact ⟨position / 2, odd ▸ found⟩

/-- A list all of whose survivors are everything has nothing to lose. -/
theorem odds_eq_self_iff (items : List α) : odds items = items ↔ items = [] := by
  constructor
  · intro same
    have length : ∀ items : List α, 2 * (odds items).length ≤ items.length := by
      intro items
      induction items using odds.induct with
      | case1 => simp [odds]
      | case2 head => simp [odds]
      | case3 head second rest inductionHypothesis =>
        simp only [odds, List.length_cons]
        omega
    have bound := length items
    rw [same] at bound
    exact List.eq_nil_of_length_eq_zero (by omega)
  · rintro rfl
    rfl

/-- Removing other items from a list without repetitions never moves an item back. -/
theorem idxOf_le_of_sublist [DecidableEq α] {after before : List α}
    (sublist : after.Sublist before) (nodup : before.Nodup) {item : α} (member : item ∈ after) :
    after.idxOf item ≤ before.idxOf item := by
  induction sublist with
  | slnil => cases member
  | @cons after before head sublist inductionHypothesis =>
    have different : head ≠ item :=
      fun same => (List.nodup_cons.mp nodup).1 (same ▸ sublist.subset member)
    rw [List.idxOf_cons_ne _ different]
    exact (inductionHypothesis nodup.of_cons member).trans (Nat.le_succ _)
  | @cons_cons after before head sublist inductionHypothesis =>
    by_cases same : head = item
    · rw [same, List.idxOf_cons_self]
      exact Nat.zero_le _
    · rw [List.idxOf_cons_ne _ same, List.idxOf_cons_ne _ same]
      exact Nat.succ_le_succ (inductionHypothesis nodup.of_cons
        ((List.mem_cons.mp member).resolve_left (Ne.symm same)))

end Python
