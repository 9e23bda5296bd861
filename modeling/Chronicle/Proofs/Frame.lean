/-
What `receive_result` does with a frame, phase by phase, and where it leaves
the store's revision.

# Phases

A frame with a block that is accepted goes through the revision adjustment,
the fork check, the block's own work inside its undo session, then
`save_state` and the commit (`receiveResult_accepted`). Each phase has its
lemma: `adjustRevision_ok`, `checkFork_fork` and `checkFork_not_fork` here,
`applyBlock_ok` and `applyBlock_frame` in `Footprint`. The properties of
accepted frames are assembled from them, never by unfolding `receive_result`
again.

# Revisions

`set_revision(b)` followed by `start_undo_session` puts a block's session at
revision `b + 1`; a fork frame, whose loop undoes down to `b - 1`, puts it at
`b` (`revision_of_accepted`). So the fork loop `while (revision >= b) undo()`
undoes the session of block `b - 1` as well (`block_session_numbering`). And
the first block of a fresh store lifts the floor to that block's number: the
loop over a fork of that very block undoes its session, finds the store at
revision `b` with nothing left to undo, and never exits
(`fork_of_first_block_spins`); the "Cannot rollback" check after it is never
reached.

# The prev-block check

A block above the head is checked against it only when it is also above the
frame's last irreversible block (`follows_head_of_accepted`); otherwise any
block is taken (`unlinked_block_accepted`).
-/
import Chronicle.Receiver.System
import Chronicle.Proofs.Footprint

namespace Chronicle

variable {cfg : Config} {r : GetBlocksResultV0} {tb : BlockPosition} {s s' : Receiver}
  {u : Unit}

-- ===================================================== the phases

/-- The fork branch of `receive_result`: a block above the frame's last
irreversible block, at or below the head. -/
def IsFork (r : GetBlocksResultV0) (tb : BlockPosition) (s : Receiver) : Prop :=
  r.lastIrreversible.blockNum < tb.blockNum ∧ tb.blockNum ≤ s.head

instance : Decidable (IsFork r tb s) := inferInstanceAs (Decidable (_ ∧ _))

/-- The session's body returned, since a thrown exception leaves through the
destructor and is thrown again. -/
theorem undoOnError_eq_ok {body : RecvM Unit} (h : undoOnError body s = .ok u s') :
    body s = .ok u s' := by
  cases hb : body s with
  | ok a t => rwa [undoOnError, run_tryCatch_ok _ hb] at h
  | error f t =>
    rw [undoOnError, run_tryCatch_error _ hb] at h
    cases f <;> cases h

/-- An accepted frame with a block, phase by phase. -/
theorem receiveResult_accepted (htb : r.thisBlock = some tb)
    (h : receiveResult cfg (.ok r) s = .ok true s') :
    ∃ s₁ s₂ s₃ s₄, adjustRevision tb.blockNum s = .ok () s₁ ∧ checkFork r tb s₁ = .ok () s₂ ∧
      applyBlock cfg r tb { s₂ with db := s₂.db.startUndoSession } = .ok () s₃ ∧
      s₃.aborting = false ∧ saveState s₃ = .ok () s₄ ∧ commitBlock cfg s₄ = .ok () s' := by
  simp only [receiveResult, decodeResult, run_pure_bind, htb] at h
  obtain ⟨⟨⟩, s₁, h₁, h⟩ := run_bind_eq_ok h
  obtain ⟨⟨⟩, s₂, h₂, h⟩ := run_bind_eq_ok h
  obtain ⟨⟨⟩, _, hstart, h⟩ := run_bind_eq_ok h
  cases hstart
  obtain ⟨⟨⟩, s₃, h₃, h⟩ := run_bind_eq_ok h
  rw [run_get_bind] at h
  by_cases ha : s₃.aborting = true
  · simp only [ha, if_true, dropUndoSession, run_modify_bind, run_pure] at h
    cases h
  · rw [if_neg ha] at h
    simp only [saveState, commitBlock, run_modify_bind, run_pure] at h
    cases h
    exact ⟨s₁, s₂, s₃, _, h₁, h₂, undoOnError_eq_ok h₃, by simpa using ha, rfl, rfl⟩

/-- "set DB revision": only forward, and only the revision. -/
theorem adjustRevision_ok {b : Nat} (h : adjustRevision b s = .ok u s') :
    s' = { s with db := s'.db } ∧ s'.db.contents = s.db.contents ∧
      s'.db.stack = s.db.stack ∧ s'.db.revision = max s.db.revision b := by
  simp only [adjustRevision, run_get_bind] at h
  by_cases hlt : s.db.revision < b
  · rw [if_pos hlt] at h
    simp only [setRevision, run_get_bind] at h
    rcases hdb : s.db.setRevision b with _ | db <;> rw [hdb] at h
    · cases h
    · obtain ⟨hnil, hc, hr, hs⟩ := Store.setRevision_eq_ok hdb
      cases h
      exact ⟨rfl, hc, hs.trans hnil.symm, hr.trans (by omega)⟩
  · rw [if_neg hlt] at h
    cases h
    exact ⟨rfl, rfl, rfl, by omega⟩

theorem adjustRevision_error {b : Nat} {f : Fault} (h : adjustRevision b s = .error f s') :
    s' = s := by
  simp only [adjustRevision, run_get_bind] at h
  by_cases hlt : s.db.revision < b
  · rw [if_pos hlt] at h
    simp only [setRevision, run_get_bind] at h
    rcases hdb : s.db.setRevision b with _ | db <;> rw [hdb] at h
    · cases h; rfl
    · cases h
  · rw [if_neg hlt] at h
    cases h

/-- The fork branch: the ABI context rebuilt, the store rolled back below the
block, and the fork announced. -/
theorem checkFork_fork (hf : IsFork r tb s) (h : checkFork r tb s = .ok u s') :
    ∃ db, s.db.rollback tb.blockNum = some db ∧ db.revision ≠ 0 ∧
      s' = { s with
        db
        contractAbiCtxt := some fun _ => none
        contractAbiImported :=
          if s.contractAbiCtxt.isSome then fun _ => false else s.contractAbiImported
        published := s.published ++ [.fork tb.blockNum (s.head - tb.blockNum) .network] } := by
  obtain ⟨hL, hb⟩ := hf
  simp only [checkFork, if_pos hL, run_get_bind, if_pos hb] at h
  obtain ⟨⟨⟩, _, h₁, h⟩ := run_bind_eq_ok h
  cases h₁
  obtain ⟨⟨⟩, _, h₂, h⟩ := run_bind_eq_ok h
  simp only [rollbackTo, run_get_bind] at h₂
  rcases hr : s.db.rollback tb.blockNum with _ | db <;> rw [hr] at h₂ <;> cases h₂
  simp only [run_get_bind] at h
  by_cases h0 : db.revision = 0
  · simp only [h0, if_true, run_fail_bind] at h; cases h
  · simp only [h0, if_false, run_pure_bind, run_publish] at h
    cases h
    exact ⟨db, rfl, h0, rfl⟩

/-- Outside the fork branch nothing changes, and a block above the frame's
last irreversible one continues the head unless nothing was received yet. -/
theorem checkFork_not_fork (hf : ¬IsFork r tb s) (h : checkFork r tb s = .ok u s') :
    s' = s ∧ (r.lastIrreversible.blockNum < tb.blockNum → 0 < s.head →
      ∃ p, r.prevBlock = some p ∧ p.blockId = s.headId) := by
  by_cases hL : r.lastIrreversible.blockNum < tb.blockNum
  · have hb : ¬tb.blockNum ≤ s.head := fun hb => hf ⟨hL, hb⟩
    simp only [checkFork, if_pos hL, run_get_bind, if_neg hb] at h
    split at h
    · cases h
    · rename_i hprev
      cases h
      refine ⟨rfl, fun _ hhead => ?_⟩
      cases hp : r.prevBlock with
      | none => simp [hp, hhead] at hprev
      | some p => exact ⟨p, rfl, by simpa [hp, hhead] using hprev⟩
  · simp only [checkFork, if_neg hL, run_pure] at h
    cases h
    exact ⟨rfl, fun h => absurd h hL⟩

/-- What the fork check may change: the store, the ABI context and the events. -/
theorem checkFork_ok_eq (h : checkFork r tb s = .ok u s') :
    s' = { s with
      db := s'.db
      contractAbiCtxt := s'.contractAbiCtxt
      contractAbiImported := s'.contractAbiImported
      published := s'.published } := by
  by_cases hf : IsFork r tb s
  · obtain ⟨db, -, -, rfl⟩ := checkFork_fork hf h
    rfl
  · obtain ⟨rfl, -⟩ := checkFork_not_fork hf h
    rfl

/-- A fork check that throws leaves the store as it was, or rolled back. -/
theorem checkFork_error {f : Fault} (h : checkFork r tb s = .error f s') :
    s'.db = s.db ∨ s.db.rollback tb.blockNum = some s'.db := by
  by_cases hL : r.lastIrreversible.blockNum < tb.blockNum
  · simp only [checkFork, if_pos hL, run_get_bind] at h
    by_cases hb : tb.blockNum ≤ s.head
    · simp only [if_pos hb, initContractAbiCtxt, run_modify_bind] at h
      rcases run_bind_eq_error h with h | ⟨⟨⟩, s₂, h₂, h⟩
      · simp only [rollbackTo, run_get_bind] at h
        rcases hdb : s.db.rollback tb.blockNum with _ | db <;> simp only [hdb, run_throw, run_set] at h
        · cases h; exact .inl rfl
        · cases h
      · simp only [rollbackTo, run_get_bind] at h₂
        rcases hdb : s.db.rollback tb.blockNum with _ | db <;>
          simp only [hdb, run_throw, run_set] at h₂
        · cases h₂
        · cases h₂
          simp only [run_get_bind] at h
          by_cases h0 : db.revision = 0
          · simp only [h0, if_true, run_fail_bind] at h
            cases h
            exact .inr rfl
          · simp only [h0, if_false, run_pure_bind, run_publish] at h
            cases h
    · simp only [if_neg hb] at h
      split at h
      · cases h; exact .inl rfl
      · cases h
  · simp only [checkFork, if_neg hL, run_pure] at h
    cases h

/-- An exception from the block's own work runs the session's destructor. -/
theorem undoOnError_triple {body : RecvM Unit} {P : Receiver → Prop}
    {Q : Unit → Receiver → Prop} {E : Fault → Receiver → Prop} (h : Triple P body Q E)
    (hE : ∀ f t, E f t → E f { t with db := t.db.undo }) : Triple P (undoOnError body) Q E := by
  refine Triple.tryCatch' h fun f => ?_
  cases f with
  | error what =>
    exact Triple.bind' (M := fun _ => E (.error what)) (Triple.modify' fun t ht => hE _ t ht)
      fun _ => Triple.throw' fun _ h => h
  | _ => exact Triple.throw' fun _ h => h

-- ===================================================== revisions

/-- Where an accepted frame leaves the revision: at the block after a fork,
else one past the block or the revision it found, whichever is higher. -/
theorem revision_of_accepted (htb : r.thisBlock = some tb)
    (h : receiveResult cfg (.ok r) s = .ok true s') :
    s'.db.revision =
      if IsFork r tb s then tb.blockNum else max s.db.revision tb.blockNum + 1 := by
  obtain ⟨s₁, s₂, s₃, s₄, h₁, h₂, h₃, -, h₄, h₅⟩ := receiveResult_accepted htb h
  obtain ⟨hs₁, -, -, hrev₁⟩ := adjustRevision_ok h₁
  have hbody := (applyBlock_frame.holds_of_ok ⟨rfl, List.prefix_refl _⟩ h₃).1
  cases h₄
  cases h₅
  have hrev₃ : s₃.db.revision = s₂.db.revision + 1 := congrArg Untouched.revision hbody
  show s₃.db.revision = _
  have hfork : IsFork r tb s₁ ↔ IsFork r tb s := by rw [hs₁]; rfl
  by_cases hf : IsFork r tb s
  · obtain ⟨db, hr, -, rfl⟩ := checkFork_fork (hfork.mpr hf) h₂
    have := (Store.rollback_revision hr).2 (by omega)
    rw [if_pos hf, hrev₃]
    exact this
  · obtain ⟨rfl, -⟩ := checkFork_not_fork (mt hfork.mp hf) h₂
    rw [if_neg hf, hrev₃, hrev₁]

/-- The first block of a fresh store, block 10, leaves the store at revision
11, and block 11 after it at 12: the fork loop for block 11 then undoes both
sessions, block 10's with it, down to a ring with no block in it. -/
theorem block_session_numbering :
    ∃ sys₁ sys₂,
      (Sys.start (sampleConfig false)).run (sampleConfig false)
        [.read 0 0, .frame (blockFrame 10 10 none 5)] = some sys₁ ∧
      sys₁.phase = .idle ∧ sys₁.recv.db.revision = 11 ∧
      sys₁.run (sampleConfig false) [.read 0 0, .frame (blockFrame 11 11 (some 10) 5)] = some sys₂ ∧
      sys₂.phase = .idle ∧ sys₂.recv.db.revision = 12 ∧
      (sys₂.recv.db.rollback 11).map (·.stack.length) = some 0 ∧
      (sys₂.recv.db.rollback 11).map (·.contents.receivedBlocks) = some [] :=
  ⟨_, _, rfl, rfl, rfl, rfl, rfl, rfl, rfl, rfl⟩

/-- Block 10 is the first block of a fresh store, and the same height then
comes again on another branch. The fork loop for block 10 undoes block 10's
session, is left at revision 10 with nothing more to undo, and never exits,
whatever number of iterations it is given: `receive_result` hangs, and its
"Cannot rollback" check is never reached. -/
theorem fork_of_first_block_spins :
    ∃ sys, (Sys.start (sampleConfig false)).run (sampleConfig false)
        [.read 0 0, .frame (blockFrame 10 10 none 5), .read 0 0] = some sys ∧
      sys.phase = .reading ∧ (∀ fuel, Store.undoWhile 10 fuel sys.recv.db = none) ∧
      ∃ s', receiveResult (sampleConfig false) (blockFrame 10 11 none 5) sys.recv =
        .error .hang s' :=
  ⟨_, rfl, rfl, Store.rollback_eq_none_iff_forever.mp (Store.rollback_eq_none_iff.mpr (by decide)),
    _, rfl⟩

-- ===================================================== the prev-block check

/-- A frame for a block above both the head and its own last irreversible
block is accepted only if its `prev_block` is the head. -/
theorem follows_head_of_accepted (hhead : 0 < s.head) (htb : r.thisBlock = some tb)
    (habove : s.head < tb.blockNum) (hL : r.lastIrreversible.blockNum < tb.blockNum)
    (h : receiveResult cfg (.ok r) s = .ok true s') :
    ∃ p, r.prevBlock = some p ∧ p.blockId = s.headId := by
  obtain ⟨s₁, s₂, -, -, h₁, h₂, -⟩ := receiveResult_accepted htb h
  obtain ⟨hs₁, -⟩ := adjustRevision_ok h₁
  rw [hs₁] at h₂
  have hnf : ¬IsFork r tb { s with db := s₁.db } := fun hf => Nat.not_le.mpr habove hf.2
  exact (checkFork_not_fork hnf h₂).2 hL hhead

/-- Block 11 following block 10, the head. -/
theorem follows_head_of_accepted_eleven :
    ∃ p, (blockResult 11 11 (some 10) 5).prevBlock = some p ∧ p.blockId = 10 :=
  follows_head_of_accepted
    (s := { Receiver.init Store.empty with
      head := 10, headId := 10, contractAbiCtxt := some fun _ => none })
    (by decide) rfl (by decide) (by decide)
    (show receiveResult (sampleConfig false) _ _ = _ from rfl)

/-- Block 15 arrives after block 10 with no `prev_block` at all, both frames
giving block 20 as the last irreversible one: no check is made and the block
is taken. -/
theorem unlinked_block_accepted :
    ∃ sys s', (Sys.start (sampleConfig false)).run (sampleConfig false)
        [.read 0 0, .frame (blockFrame 10 10 none 20), .read 0 0] = some sys ∧
      sys.phase = .reading ∧ sys.recv.head = 10 ∧
      receiveResult (sampleConfig false) (blockFrame 15 15 none 20) sys.recv = .ok true s' ∧
      s'.head = 15 :=
  ⟨_, _, rfl, rfl, rfl, rfl, rfl⟩

end Chronicle
