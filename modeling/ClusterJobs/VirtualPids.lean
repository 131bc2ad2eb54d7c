/-
This file proves that a process that joins a computation gets a virtual pid of its own.

The coordinator hands out the pids 40000, 41000, and so on, round and round, and skips those it has
in its map. The loop has no bound of its own, and the assertion before it compares the size of the
map with a number that is larger than the number of pids there are. The loop ends exactly when one
of the pids is free.
-/

import ClusterJobs.Coordinator
import Mathlib.Data.List.Perm.Subperm
import Mathlib.Tactic.Ring

namespace ClusterJobs.Dmtcp

open Coordinator

/-- The pids that the loop goes through. -/
def virtualPid (slot : Nat) : Nat := initialVirtualPid + 1000 * slot

def IsVirtualPid (pid : Nat) : Prop := ∃ slot < virtualPidCount, pid = virtualPid slot

theorem virtualPid_injective : Function.Injective virtualPid := by
  intro first second same
  simp only [virtualPid] at same
  omega

theorem isVirtualPid_initial : IsVirtualPid initialVirtualPid :=
  ⟨0, by decide, rfl⟩

theorem IsVirtualPid.ne_zero {pid : Nat} (isPid : IsVirtualPid pid) : pid ≠ 0 := by
  obtain ⟨slot, -, rfl⟩ := isPid
  simp only [virtualPid, initialVirtualPid]
  omega

/-- The loop goes from a pid to the next one, and from the last one to the first. -/
theorem advancePid_virtualPid {slot : Nat} (bound : slot < virtualPidCount) :
    advancePid (virtualPid slot) = virtualPid ((slot + 1) % virtualPidCount) := by
  have count : virtualPidCount = 399961 := rfl
  rw [count] at bound ⊢
  unfold advancePid virtualPid initialVirtualPid maxVirtualPid
  by_cases last : slot = 399960
  · subst last
    decide
  · rw [Nat.mod_eq_of_lt (by omega), if_neg (by omega)]
    ring

theorem IsVirtualPid.advancePid {pid : Nat} (isPid : IsVirtualPid pid) :
    IsVirtualPid (advancePid pid) := by
  obtain ⟨slot, bound, rfl⟩ := isPid
  rw [advancePid_virtualPid bound]
  exact ⟨_, Nat.mod_lt _ (by decide), rfl⟩

/-- The pid that the loop finds is not in use. -/
theorem findVirtualPid_some {used : List Nat} {rounds pid found next : Nat}
    (isPid : IsVirtualPid pid) (result : findVirtualPid used rounds pid = some (found, next)) :
    found ∉ used ∧ IsVirtualPid found ∧ IsVirtualPid next := by
  induction rounds generalizing pid with
  | zero => cases result
  | succ rounds inductionHypothesis =>
    rw [findVirtualPid] at result
    split at result
    · exact inductionHypothesis isPid.advancePid result
    · rename_i free
      cases result
      exact ⟨free, isPid, isPid.advancePid⟩

/-- The loop finds nothing in some rounds when what it looks at is in use. -/
theorem findVirtualPid_eq_none {used : List Nat} {rounds slot : Nat}
    (bound : slot < virtualPidCount) :
    findVirtualPid used rounds (virtualPid slot) = none ↔
      ∀ round < rounds, virtualPid ((slot + round) % virtualPidCount) ∈ used := by
  induction rounds generalizing slot with
  | zero => simp [findVirtualPid]
  | succ rounds inductionHypothesis =>
    have here : virtualPid ((slot + 0) % virtualPidCount) = virtualPid slot := by
      rw [Nat.add_zero, Nat.mod_eq_of_lt bound]
    have later : ∀ round, virtualPid (((slot + 1) % virtualPidCount + round) % virtualPidCount) =
        virtualPid ((slot + (round + 1)) % virtualPidCount) := by
      intro round
      rw [Nat.mod_add_mod, Nat.add_assoc, Nat.add_comm 1 round]
    rw [findVirtualPid]
    split
    · rename_i taken
      rw [advancePid_virtualPid bound, inductionHypothesis (Nat.mod_lt _ (by decide)),
        Nat.forall_lt_succ_left, here]
      simp only [later, taken, true_and]
    · rename_i free
      simp only [reduceCtorEq, false_iff, not_forall]
      exact ⟨0, Nat.zero_lt_succ _, by rw [here]; exact free⟩

/-- In all its rounds the loop has looked at every pid. -/
theorem findVirtualPid_virtualPidCount (used : List Nat) {pid : Nat} (isPid : IsVirtualPid pid) :
    findVirtualPid used virtualPidCount pid = none ↔
      ∀ other, IsVirtualPid other → other ∈ used := by
  obtain ⟨slot, bound, rfl⟩ := isPid
  rw [findVirtualPid_eq_none bound]
  constructor
  · rintro taken other ⟨target, targetBound, rfl⟩
    -- The round in which the loop gets from `slot` to `target`.
    have found := taken ((target + virtualPidCount - slot) % virtualPidCount)
      (Nat.mod_lt _ (by decide))
    rwa [Nat.add_mod_mod, show slot + (target + virtualPidCount - slot) = target + virtualPidCount
      by omega, Nat.add_mod_right, Nat.mod_eq_of_lt targetBound] at found
  · intro taken round _
    exact taken _ ⟨_, Nat.mod_lt _ (by decide), rfl⟩

theorem exists_free_of_length_lt {used : List Nat} (few : used.length < virtualPidCount) :
    ∃ pid, IsVirtualPid pid ∧ pid ∉ used := by
  by_contra none
  push Not at none
  have subset : (List.range virtualPidCount).map virtualPid ⊆ used := by
    intro pid found
    obtain ⟨slot, bound, rfl⟩ := List.mem_map.mp found
    exact none _ ⟨slot, List.mem_range.mp bound, rfl⟩
  have length := (List.nodup_range.map virtualPid_injective).length_le_of_subset subset
  rw [List.length_map, List.length_range] at length
  omega

/-- `getNewVirtualPid` with the loop taken as long as it needs: it returns when fewer than
`MAX_VIRTUAL_PID / 1000` pids are in the map and one of the pids it goes through is not. -/
theorem getNewVirtualPid_ok {coordinator : Coordinator}
    (isPid : IsVirtualPid coordinator.nextVirtualPid)
    (few : coordinator.virtualPids.length < virtualPidCount) :
    ∃ pid next, coordinator.getNewVirtualPid =
        .ok (pid, { coordinator with nextVirtualPid := next }) ∧
      pid ∉ coordinator.virtualPids ∧ IsVirtualPid pid ∧ IsVirtualPid next := by
  have enough : coordinator.virtualPids.length < maxVirtualPid / 1000 :=
    lt_trans few (by decide)
  cases found : findVirtualPid coordinator.virtualPids virtualPidCount
      coordinator.nextVirtualPid with
  | none =>
    obtain ⟨pid, isFree, free⟩ := exists_free_of_length_lt few
    exact absurd ((findVirtualPid_virtualPidCount _ isPid).mp found pid isFree) free
  | some pair =>
    obtain ⟨pid, next⟩ := pair
    refine ⟨pid, next, ?_, findVirtualPid_some isPid found⟩
    rw [Coordinator.getNewVirtualPid, if_pos enough, found]

/-- The three things that can come of it. The assertion stops the coordinator only when there are
more processes than pids; between the two numbers the loop goes round for ever. -/
theorem getNewVirtualPid_cases (coordinator : Coordinator)
    (isPid : IsVirtualPid coordinator.nextVirtualPid) :
    (coordinator.getNewVirtualPid = .error .coordinator ↔
      400000 ≤ coordinator.virtualPids.length) ∧
    (coordinator.getNewVirtualPid = .error .loop ↔ coordinator.virtualPids.length < 400000 ∧
      ∀ pid, IsVirtualPid pid → pid ∈ coordinator.virtualPids) ∧
    ((∃ pid next, coordinator.getNewVirtualPid =
        .ok (pid, { coordinator with nextVirtualPid := next }) ∧
          pid ∉ coordinator.virtualPids ∧ IsVirtualPid pid) ↔
      coordinator.virtualPids.length < 400000 ∧
        ∃ pid, IsVirtualPid pid ∧ pid ∉ coordinator.virtualPids) := by
  have limit : maxVirtualPid / 1000 = 400000 := rfl
  have all := findVirtualPid_virtualPidCount coordinator.virtualPids isPid
  unfold Coordinator.getNewVirtualPid
  rw [limit]
  by_cases enough : coordinator.virtualPids.length < 400000
  · rw [if_pos enough]
    cases found : findVirtualPid coordinator.virtualPids virtualPidCount
        coordinator.nextVirtualPid with
    | none =>
      have taken := all.mp found
      refine ⟨by simpa using enough, by simpa [enough] using taken, ?_⟩
      simpa [enough] using taken
    | some pair =>
      obtain ⟨pid, next⟩ := pair
      obtain ⟨free, isFree, -⟩ := findVirtualPid_some isPid found
      refine ⟨by simpa using enough, ?_, ?_⟩
      · simp only [reduceCtorEq, enough, true_and, false_iff, not_forall]
        exact ⟨pid, isFree, free⟩
      · simp only [enough, true_and]
        exact ⟨fun _ => ⟨pid, isFree, free⟩, fun _ => ⟨pid, next, rfl, free, isFree⟩⟩
  · rw [if_neg enough]
    simp [enough, not_lt.mp enough]

/-- The next two pids are in use, and a third one that the loop does not come to. -/
def twoTaken : Coordinator where
  virtualPids := [41000, 40000, 399999000]
  nextVirtualPid := 40000

theorem getNewVirtualPid_cases_twoTaken :
    ∃ pid next, twoTaken.getNewVirtualPid =
      .ok (pid, { twoTaken with nextVirtualPid := next }) ∧
        pid ∉ twoTaken.virtualPids ∧ IsVirtualPid pid :=
  (getNewVirtualPid_cases twoTaken isVirtualPid_initial).2.2.mpr
    ⟨by decide, 42000, ⟨2, by decide, rfl⟩, by decide⟩

/-! ### The map -/

/-- The map of the virtual pids, next to the list of the clients. -/
structure PidMap (coordinator : Coordinator) : Prop where
  nodup : coordinator.virtualPids.Nodup
  subset : coordinator.virtualPids ⊆ coordinator.clients.map CoordClient.virtualPid
  next : IsVirtualPid coordinator.nextVirtualPid

section Map

variable {coordinator next : Coordinator}

theorem PidMap.length_le (pids : PidMap coordinator) :
    coordinator.virtualPids.length ≤ coordinator.clients.length := by
  have length := pids.nodup.length_le_of_subset pids.subset
  rwa [List.length_map] at length

/-- A list in which one element has been replaced by another one that looks the same. -/
theorem map_set_eq_map {α β : Type} {list : List α} {index : Nat} {before after : α} (f : α → β)
    (there : list[index]? = some before) (same : f after = f before) :
    (list.set index after).map f = list.map f := by
  obtain ⟨bound, rfl⟩ := List.getElem?_eq_some_iff.mp there
  rw [List.map_set, same, ← List.getElem_map f (h := by simpa using bound), List.set_getElem_self]

/-- The map is about the pids of the clients only. -/
theorem PidMap.congr (pids : PidMap coordinator)
    (virtualPids : next.virtualPids = coordinator.virtualPids)
    (clients : next.clients.map CoordClient.virtualPid =
      coordinator.clients.map CoordClient.virtualPid)
    (nextPid : next.nextVirtualPid = coordinator.nextVirtualPid) : PidMap next :=
  ⟨virtualPids ▸ pids.nodup, by rw [virtualPids, clients]; exact pids.subset, nextPid ▸ pids.next⟩

theorem PidMap.set (pids : PidMap coordinator) {index : Nat} {client after : CoordClient}
    (there : coordinator.clients[index]? = some client)
    (same : after.virtualPid = client.virtualPid) :
    PidMap { coordinator with clients := coordinator.clients.set index after } :=
  pids.congr rfl (map_set_eq_map _ there same) rfl

theorem PidMap.addClient (pids : PidMap coordinator) (hello : Hello) (client : CoordClient) :
    PidMap (coordinator.addClient hello client) := by
  refine ⟨pids.nodup.insert, ?_, pids.next⟩
  intro pid found
  rcases List.mem_insert_iff.mp found with rfl | before
  · simp [Coordinator.addClient]
  · simpa [Coordinator.addClient] using .inl (List.mem_map.mp (pids.subset before))

/-- A client leaves, and its pid with it. -/
theorem PidMap.erase (pids : PidMap coordinator) {index : Nat} {client : CoordClient}
    (there : coordinator.clients[index]? = some client) :
    PidMap { coordinator with
      clients := coordinator.clients.eraseIdx index
      virtualPids := coordinator.virtualPids.erase client.virtualPid } := by
  refine ⟨pids.nodup.erase _, ?_, pids.next⟩
  intro pid found
  have other : pid ≠ client.virtualPid := fun same =>
    pids.nodup.not_mem_erase (same ▸ found)
  obtain ⟨holder, isClient, rfl⟩ := List.mem_map.mp (pids.subset (List.mem_of_mem_erase found))
  refine List.mem_map.mpr ⟨holder, ?_, rfl⟩
  obtain ⟨position, place⟩ := List.mem_iff_getElem?.mp isClient
  refine List.mem_eraseIdx_iff_getElem?.mpr ⟨position, ?_, place⟩
  rintro rfl
  rw [there] at place
  exact other (by rw [Option.some.inj place])

end Map

end ClusterJobs.Dmtcp
