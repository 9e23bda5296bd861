/-
The receiver's start, and the request it opens the stream with.

# Holding the start back

`start_after_dependencies` launches the receiver only when its list of
dependencies has run out, and takes a dependency off the list only when that
plugin has started. So the receiver is never launched before every
dependency was seen started at some tick (`launched_after_dependencies`). It
is launched at the latest at the first tick at which all of them have started
(`launched_once_dependencies_started`): a dependency already taken off is not
looked at again, so one that stops afterwards does not hold the start back.

# The positions it asks the node to check

`request_blocks` walks `by_blocknum` from `lower_bound(irreversible)` while the
block number is at most the head. Over a sorted ring that walk is the range
query it stands for: the ring's entries between the irreversible block and the
head, in increasing order of block number (`requestBlocks_positions`). The
ring of every reachable state is sorted (`storeSound_of_reachable`).
-/
import Chronicle.Receiver.Startup
import Chronicle.Proofs.Ring

namespace Chronicle

-- ===================================================== holding the start back

section Dependencies

variable {P : Type} {started : P → Bool} {deps rest : List (P × String)}

/-- A call that launches the receiver found every dependency started. -/
theorem startAfterDependencies_eq_none (h : startAfterDependencies started deps = none) :
    ∀ d ∈ deps, started d.1 = true := by
  induction deps with
  | nil => nofun
  | cons d ds ih =>
    by_cases hd : started d.1 = true
    · rw [startAfterDependencies, if_pos hd] at h
      exact List.forall_mem_cons.mpr ⟨hd, ih h⟩
    · rw [startAfterDependencies, if_neg hd] at h
      cases h

/-- A call that waits took a prefix of started dependencies off the list. -/
theorem startAfterDependencies_eq_some (h : startAfterDependencies started deps = some rest) :
    ∃ pre, deps = pre ++ rest ∧ ∀ d ∈ pre, started d.1 = true := by
  induction deps with
  | nil => cases h
  | cons d ds ih =>
    by_cases hd : started d.1 = true
    · rw [startAfterDependencies, if_pos hd] at h
      obtain ⟨pre, rfl, hpre⟩ := ih h
      exact ⟨d :: pre, rfl, List.forall_mem_cons.mpr ⟨hd, hpre⟩⟩
    · rw [startAfterDependencies, if_neg hd] at h
      cases h
      exact ⟨[], rfl, nofun⟩

variable {ticks : List (P → Bool)} {k : Nat}

/-- The receiver is launched only once every dependency was seen started, at
the tick that launches it or before. -/
theorem launched_after_dependencies (h : launchTick ticks deps = some k) :
    ∀ d ∈ deps, ∃ j ≤ k, ∃ st, ticks[j]? = some st ∧ st d.1 = true := by
  induction ticks generalizing deps k with
  | nil => cases h
  | cons st ticks ih =>
    cases hc : startAfterDependencies st deps with
    | none =>
      simp only [launchTick, hc, Option.some.injEq] at h
      exact fun d hd => ⟨0, Nat.zero_le _, st, List.getElem?_cons_zero,
        startAfterDependencies_eq_none hc d hd⟩
    | some rest =>
      simp only [launchTick, hc] at h
      obtain ⟨k', hk', rfl⟩ := Option.map_eq_some'.mp h
      obtain ⟨pre, rfl, hpre⟩ := startAfterDependencies_eq_some hc
      intro d hd
      rcases List.mem_append.mp hd with hd | hd
      · exact ⟨0, Nat.zero_le _, st, List.getElem?_cons_zero, hpre d hd⟩
      · obtain ⟨j, hj, st', hst', hd'⟩ := ih hk' d hd
        exact ⟨j + 1, Nat.succ_le_succ hj, st', by rw [List.getElem?_cons_succ, hst'], hd'⟩

/-- Plugin `1` starts at the first tick and plugin `2` at the second. -/
theorem launched_after_dependencies_second_tick :
    launchTick [fun p => p == 1, fun p : Nat => decide (p ≤ 2)] [(1, "a"), (2, "b")] = some 1 ∧
      ∀ d ∈ [(1, "a"), (2, "b")], ∃ j ≤ 1, ∃ st,
        [fun p => p == 1, fun p : Nat => decide (p ≤ 2)][j]? = some st ∧ st d.1 = true :=
  ⟨rfl, launched_after_dependencies rfl⟩

end Dependencies

-- ===================================================== the requested positions

section Request

variable {a b : Nat} {l : List ReceivedBlock}

/-- `lower_bound` over a sorted ring: the entries at or above the bound. -/
theorem dropWhile_eq_filter (hs : RingSorted l) :
    (l.dropWhile fun r => r.blockIndex < a) = l.filter fun r => a ≤ r.blockIndex := by
  induction l with
  | nil => rfl
  | cons x rest ih =>
    have hx : ∀ y ∈ rest, x.blockIndex < y.blockIndex := fun _ => List.rel_of_pairwise_cons hs
    by_cases h : x.blockIndex < a
    · rw [List.dropWhile_cons_of_pos (by simpa using h),
        List.filter_cons_of_neg (by simpa using h), ih hs.of_cons]
    · rw [List.dropWhile_cons_of_neg (by simpa using h),
        List.filter_cons_of_pos (by simpa using h), List.filter_eq_self.mpr]
      intro y hy
      have := hx y hy
      simp only [decide_eq_true_eq]
      omega

/-- Walking a sorted ring while the block number is at most `b`: the entries
at or below `b`. -/
theorem takeWhile_eq_filter (hs : RingSorted l) :
    (l.takeWhile fun r => r.blockIndex ≤ b) = l.filter fun r => r.blockIndex ≤ b := by
  induction l with
  | nil => rfl
  | cons x rest ih =>
    have hx : ∀ y ∈ rest, x.blockIndex < y.blockIndex := fun _ => List.rel_of_pairwise_cons hs
    by_cases h : x.blockIndex ≤ b
    · rw [List.takeWhile_cons_of_pos (by simpa using h),
        List.filter_cons_of_pos (by simpa using h), ih hs.of_cons]
    · rw [List.takeWhile_cons_of_neg (by simpa using h),
        List.filter_cons_of_neg (by simpa using h), List.filter_eq_nil_iff.mpr]
      intro y hy
      have := hx y hy
      simp only [decide_eq_true_eq]
      omega

/-- Over a sorted ring, `have_positions` is the range query from the
irreversible block to the head. -/
theorem havePositions_eq_filter (hs : RingSorted l) :
    havePositions a b l =
      (l.filter fun r => a ≤ r.blockIndex ∧ r.blockIndex ≤ b).map fun r => ⟨r.blockIndex, r.blockId⟩ := by
  rw [havePositions, dropWhile_eq_filter hs, takeWhile_eq_filter (hs.sublist (List.filter_sublist _)),
    List.filter_filter]
  congr 2
  funext r
  simp only [Bool.decide_and, Bool.and_comm]

variable {cfg : Config} {sys : Sys}

/-- In every reachable state, the positions `request_blocks` sends are the
ring's entries from the irreversible block to the head, in increasing order
of block number. -/
theorem requestBlocks_positions (h : Reachable cfg sys) :
    (requestBlocks sys.recv).havePositions =
        (sys.recv.db.contents.receivedBlocks.filter fun r =>
          sys.recv.irreversible ≤ r.blockIndex ∧ r.blockIndex ≤ sys.recv.head).map
          (fun r => ⟨r.blockIndex, r.blockId⟩) ∧
      (requestBlocks sys.recv).havePositions.Pairwise fun p q => p.blockNum < q.blockNum := by
  have hs : RingSorted sys.recv.db.contents.receivedBlocks := (storeSound_of_reachable h).1.sorted
  have heq := havePositions_eq_filter (a := sys.recv.irreversible) (b := sys.recv.head) hs
  refine ⟨heq, ?_⟩
  show (havePositions _ _ _).Pairwise _
  rw [heq, List.pairwise_map]
  exact hs.sublist (List.filter_sublist _)

/-- Blocks 10 and 11 from the start. -/
theorem requestBlocks_positions_two_blocks :
    ∃ sys, (Sys.start (sampleConfig false)).run (sampleConfig false)
        [.read 0 0, .frame (blockFrame 10 10 none 5), .read 0 0,
          .frame (blockFrame 11 11 (some 10) 5)] = some sys ∧
      (requestBlocks sys.recv).havePositions =
          (sys.recv.db.contents.receivedBlocks.filter fun r =>
            sys.recv.irreversible ≤ r.blockIndex ∧ r.blockIndex ≤ sys.recv.head).map
            (fun r => ⟨r.blockIndex, r.blockId⟩) ∧
        (requestBlocks sys.recv).havePositions.Pairwise fun p q => p.blockNum < q.blockNum := by
  obtain ⟨sys, hrun⟩ : ∃ sys, (Sys.start (sampleConfig false)).run (sampleConfig false)
      [.read 0 0, .frame (blockFrame 10 10 none 5), .read 0 0,
        .frame (blockFrame 11 11 (some 10) 5)] = some sys := ⟨_, rfl⟩
  exact ⟨sys, hrun, requestBlocks_positions (Reachable.run Reachable.start hrun)⟩

end Request

end Chronicle
