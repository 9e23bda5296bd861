/-
What the store keeps through every run.

# The committed base

`commit(n)` makes every session at revision `n` or below permanent. What lies
below the open sessions, the store's base at its floor, is what a restart
resumes from, and no later `undo` reaches it. Along any run of the system,
from any state and not only from a fresh store, the floor never drops, and
while it stays the base stays (`run_keeps_committed`): a fork rolls back only
sessions, the block's own work runs inside its own session, and a commit that
moves the base raises the floor (`Store.keepsCommitted_commit`). Only a
restart undoes every session, and it lands on the base at the floor.

# The saved positions

`save_state` writes the head, the irreversible block and their ids into the
state object in the same session as the block, so while the read loop is not
closed the receiver's positions are those its store holds, or a fresh store's
zeros (`positionsSaved_of_reachable`). A frame that throws has its session
undone in the store but not in the receiver's fields, and closes the loop;
the restart that follows reads the positions back from the store. A second
restart before anything else happens finds no session to undo: it resumes the
same receiver, without announcing a fork again (`restart_restart`).

# What a restart sends again

With exporter acknowledgements, `commit_rev` is never above the last block the
exporter acknowledged, and the base a commit leaves holds the positions of a
block at or below its floor, so at or below that revision. Acknowledgements
only grow, a frame leaves them alone, and a restart sets them to the head it
resumes from. So in every reachable state a restart resumes at or below the
last acknowledged block (`restart_at_or_below_acked`): every block the
exporter has not acknowledged is requested again.
-/
import Chronicle.Proofs.Restart

namespace Chronicle

-- ===================================================== the committed base

namespace Store

/-- `db` keeps what `db₀` made permanent: its floor is higher, or it is the
same floor over the same base. -/
def KeepsCommitted (db₀ db : Store) : Prop :=
  db₀.floor < db.floor ∨ (db.floor = db₀.floor ∧ db.base = db₀.base)

theorem KeepsCommitted.refl (db : Store) : KeepsCommitted db db := .inr ⟨rfl, rfl⟩

theorem KeepsCommitted.trans {db₁ db₂ db₃ : Store} (h₁ : KeepsCommitted db₁ db₂)
    (h₂ : KeepsCommitted db₂ db₃) : KeepsCommitted db₁ db₃ := by
  rcases h₁ with h₁ | ⟨hf₁, hb₁⟩ <;> rcases h₂ with h₂ | ⟨hf₂, hb₂⟩
  · exact .inl (h₁.trans h₂)
  · exact .inl (hf₂ ▸ h₁)
  · exact .inl (hf₁ ▸ h₂)
  · exact .inr ⟨hf₂.trans hf₁, hb₂.trans hb₁⟩

end Store

variable {cfg : Config} {s s' : Receiver} {res : GetBlocksResultV0} {tb : BlockPosition}

/-- An accepted frame for a block, up to its commit: the base and a floor at
least as high as it found, and the same acknowledgement. -/
theorem accepted_before_commit (htb : res.thisBlock = some tb)
    (h : receiveResult cfg (.ok res) s = .ok true s') :
    ∃ s₄ : Receiver, BaseAt s.db.base s.db.floor s₄ ∧
      s₄.exporterAckedBlock = s.exporterAckedBlock ∧
      s' = { s₄ with db := s₄.db.commit (commitRev cfg s₄) } := by
  obtain ⟨s₁, s₂, s₃, s₄, h₁, h₂, h₃, -, h₄, h₅⟩ := receiveResult_accepted htb h
  have hb₂ : BaseAt s.db.base s.db.floor s₂ :=
    checkFork_base.holds_of_ok ((adjustRevision_base _).holds_of_ok ⟨rfl, Nat.le_refl _⟩ h₁) h₂
  have hb₃ := applyBlock_base.ok_post ⟨⟨Store.startUndoSession_base.trans hb₂.1,
    Nat.le_trans hb₂.2 (Nat.le_of_eq Store.startUndoSession_floor.symm)⟩, List.cons_ne_nil _ _⟩ h₃
  have hack₃ : s₃.exporterAckedBlock = s.exporterAckedBlock := calc
    s₃.exporterAckedBlock = s₂.exporterAckedBlock := congrArg Untouched.exporterAckedBlock
      (applyBlock_frame.holds_of_ok ⟨rfl, List.prefix_refl _⟩ h₃).1
    _ = s₁.exporterAckedBlock := (congrArg Receiver.exporterAckedBlock (checkFork_ok_eq h₂) :)
    _ = s.exporterAckedBlock := (congrArg Receiver.exporterAckedBlock (adjustRevision_ok h₁).1 :)
  refine ⟨s₄, ?_, ?_, by cases h₅; rfl⟩ <;> cases h₄
  · exact ⟨(Store.modify_base _ hb₃.2).trans hb₃.1.1, hb₃.1.2⟩
  · exact hack₃

/-- A frame without a block changes nothing. -/
theorem receiveResult_of_no_block (htb : res.thisBlock = none) :
    receiveResult cfg (.ok res) s = .ok true s := by
  simp only [receiveResult, decodeResult, run_pure_bind, htb, run_pure]

/-- A frame `receive_result` accepts is one for a block, or changes nothing. -/
theorem receiveResult_accepted_cases {f : Frame} (h : receiveResult cfg f s = .ok true s') :
    s' = s ∨ ∃ res tb, f = .ok res ∧ res.thisBlock = some tb := by
  rcases f with e | res
  · cases h
  rcases htb : res.thisBlock with _ | tb
  · rw [receiveResult_of_no_block htb] at h
    exact .inl (EStateM.Result.ok.inj h).2.symm
  · exact .inr ⟨res, tb, rfl, htb⟩

variable {sys sys' : Sys} {op : Op}

/-- The receiver's positions are those its state object holds, or a fresh
store's zeros when there is none. -/
def PositionsSaved (s : Receiver) : Prop :=
  (s.head, s.headId, s.irreversible, s.irreversibleId) =
    match s.db.contents.state with
    | some o => (o.head, o.headId, o.irreversible, o.irreversibleId)
    | none => (0, 0, 0, 0)

theorem positionsSaved_restart (cfg : Config) (db : Store) : PositionsSaved (restart cfg db) := by
  obtain ⟨hc, hpos⟩ := restart_positions cfg db
  unfold PositionsSaved
  rw [hc]
  exact hpos

theorem positionsSaved_step (hs : sys.phase ≠ .closed → PositionsSaved sys.recv)
    (h : sys.step cfg op = some sys') (hc : sys'.phase ≠ .closed) : PositionsSaved sys'.recv := by
  by_cases hop : op = .restart
  · subst hop
    rw [step_restart h]
    exact positionsSaved_restart cfg _
  have hs := hs fun hcl => hc (step_closed h hcl hop)
  by_cases hp : op.IsPacing
  · obtain ⟨_, _, _, _, _, he⟩ := step_pacing hp h
    rw [he]
    exact hs
  cases op with
  | frame f =>
    obtain ⟨-, ⟨hok, -⟩ | ⟨-, hcl⟩⟩ := step_frame h
    · rcases receiveResult_accepted_cases hok with he | ⟨res, tb, rfl, htb⟩
      · rw [he]
        exact hs
      · unfold PositionsSaved
        rw [saved_of_accepted htb hok]
    · exact absurd hcl hc
  | contractAbiCtxt a =>
    obtain ⟨b, hready, -⟩ := step_contractAbiCtxt h
    rw [getContractAbiReady_ok hready]
    exact hs
  | restart => exact absurd rfl hop
  | _ => exact absurd trivial hp

/-- In every reachable state whose read loop is not closed, the head, the
irreversible block and their ids are those the store's state object holds. -/
theorem positionsSaved_of_reachable (h : Reachable cfg sys) (hopen : sys.phase ≠ .closed) :
    PositionsSaved sys.recv := by
  induction h with
  | start => exact positionsSaved_restart cfg _
  | step op _ hstep ih => exact positionsSaved_step ih hstep hopen

/-- Block 10 from the start. -/
theorem positionsSaved_after_first_block :
    ∃ sys, (Sys.start (sampleConfig false)).run (sampleConfig false)
        [.read 0 0, .frame (blockFrame 10 10 none 5)] = some sys ∧
      sys.phase ≠ .closed ∧ PositionsSaved sys.recv := by
  obtain ⟨sys, hrun, hph⟩ : ∃ sys, (Sys.start (sampleConfig false)).run (sampleConfig false)
      [.read 0 0, .frame (blockFrame 10 10 none 5)] = some sys ∧ sys.phase = .idle := ⟨_, rfl, rfl⟩
  have hopen : sys.phase ≠ .closed := by rw [hph]; nofun
  exact ⟨sys, hrun, hopen, positionsSaved_of_reachable (Reachable.run Reachable.start hrun) hopen⟩

/-- Undoing every session twice is undoing them once. -/
theorem Store.undoAll_undoAll (db : Store) : db.undoAll.undoAll = db.undoAll := by
  have hnil : db.undoAll.stack = [] := Store.undoAll_eq.2.2
  rw [Store.undoAll, hnil]
  rfl

/-- A process stopped right after its `load_state` and started again resumes
the same receiver; only the restart fork event is not announced again. -/
theorem restart_restart (cfg : Config) (db : Store) :
    restart cfg (restart cfg db).db = { restart cfg db with published := [] } := by
  have hnil : db.undoAll.stack = [] := Store.undoAll_eq.2.2
  rw [restart_db, restart_eq, restart_eq, Store.undoAll_undoAll, hnil]
  split <;> simp

-- ===================================================== what a restart sends again

section Acknowledged

variable {A : Nat} {h : History}

/-- The positions a restart would resume from are at or below the
acknowledgement. -/
def AckCovered (s : Receiver) : Prop :=
  ∀ o, s.db.base.state = some o → o.head ≤ s.exporterAckedBlock

theorem adjustRevision_ack (b : Nat) :
    Triple.Keeps (fun t => t.exporterAckedBlock = A) (adjustRevision b) := by
  intro s hs
  cases h : adjustRevision b s with
  | ok u s' => exact (congrArg Receiver.exporterAckedBlock (adjustRevision_ok h).1 :).trans hs
  | error f s' => rw [adjustRevision_error h]; exact hs

theorem checkFork_ack : Triple.Keeps (fun t => t.exporterAckedBlock = A) (checkFork res tb) := by
  intro s hs
  simp only [checkFork]
  split_ifs
  case neg => exact hs
  simp only [run_get_bind]
  split_ifs
  · simp only [initContractAbiCtxt, rollbackTo, bind_assoc, run_modify_bind, run_get_bind]
    rcases s.db.rollback tb.blockNum with _ | db
    · exact hs
    simp only [run_set_bind, run_get_bind]
    by_cases h0 : db.revision = 0
    · simp only [h0, if_true, run_fail_bind]
      exact hs
    · simp only [h0, if_false, run_pure_bind, run_publish]
      exact hs
  all_goals exact hs

theorem applyBlock_ack : Triple.Keeps (fun t => t.exporterAckedBlock = A) (applyBlock cfg res tb) :=
  Triple.Keeps.of_rel (fun _ => applyBlock_frame) (fun _ => ⟨rfl, List.prefix_refl _⟩)
    fun _ _ ht hf => (congrArg Untouched.exporterAckedBlock hf.1).trans ht

/-- `receive_result` never changes the acknowledgement. -/
theorem receiveResult_ack (f : Frame) :
    Triple.Keeps (fun t => t.exporterAckedBlock = A) (receiveResult cfg f) := by
  refine Triple.Keeps.bind' decodeResult_keeps fun r => ?_
  split
  · exact Triple.Keeps.pure'
  · exact Triple.Keeps.bind' (adjustRevision_ack _) fun _ => Triple.Keeps.bind' checkFork_ack fun _ =>
      Triple.Keeps.bind' (Triple.Keeps.modify' fun _ h => h) fun _ =>
      Triple.Keeps.bind' (undoOnError_triple applyBlock_ack fun _ _ h => h) fun _ =>
      Triple.Keeps.get_bind' fun _ _ => Triple.Keeps.ite'
        (Triple.Keeps.bind' (Triple.Keeps.modify' fun _ h => h) fun _ => Triple.Keeps.pure')
        (Triple.Keeps.bind' (Triple.Keeps.modify' fun _ h => h) fun _ =>
          Triple.Keeps.bind' (Triple.Keeps.modify' fun _ h => h) fun _ => Triple.Keeps.pure')

/-- The read loop's passes and the exporter's pacing calls never lower the
acknowledgement. -/
theorem step_pacing_ack (hop : op.IsPacing) (h : sys.step cfg op = some sys') :
    sys.recv.exporterAckedBlock ≤ sys'.recv.exporterAckedBlock := by
  cases op with
  | read _ _ =>
    simp only [Sys.step] at h
    split at h
    · cases h
      obtain ⟨_, _, _, -, rfl⟩ := continueRead_ok ‹_›
      exact le_rfl
    · cases h
  | ackBlock n =>
    simp only [Sys.step] at h
    split at h
    · obtain ⟨hle, rfl⟩ := ackBlock_ok ‹_›
      cases h
      exact hle
    · cases h
  | slowdown | abortReceiver =>
    simp only [Sys.step, slowdown, abortReceiver, run_modify, Option.some.injEq] at h
    subst h
    exact le_rfl
  | frame _ | contractAbiCtxt _ | restart => cases hop

theorem commitRev_le_ack (hack : cfg.exporterWillAck = true) (s : Receiver) :
    commitRev cfg s ≤ s.exporterAckedBlock := by
  simp only [commitRev, hack, Bool.true_and, decide_eq_true_eq]
  split <;> omega

theorem restart_ack (hack : cfg.exporterWillAck = true) (db : Store) :
    (restart cfg db).exporterAckedBlock = (restart cfg db).head := by
  rw [restart_eq]
  simp [hack]

/-- While the read loop is open, the base holds the positions of a block at or
below the floor. -/
theorem Restorable.base_head_le {sys : Sys} (hr : Restorable h sys) (hopen : sys.phase ≠ .closed)
    {o : StateObject} (ho : sys.recv.db.base.state = some o) : o.head ≤ sys.recv.db.floor := by
  rcases (hr.graded hopen).base with ⟨he, -⟩ | ⟨x, hx, hxc, hxr⟩
  · rw [he] at ho
    cases ho
  · rw [← hxc, hr.saved x hx] at ho
    cases ho
    exact hxr

theorem ackCovered_restart (hack : cfg.exporterWillAck = true) (db : Store) :
    AckCovered (restart cfg db) := by
  intro o ho
  rw [restart_db, Store.undoAll_base_floor.1] at ho
  obtain ⟨-, hpos⟩ := restart_positions cfg db
  rw [ho] at hpos
  rw [restart_ack hack, (Prod.mk.inj hpos).1]

/-- An accepted frame: either its commit keeps every session, and the base and
the acknowledgement stay, or it leaves the floor at `commit_rev`, which is at
most the acknowledgement. -/
theorem ackCovered_accepted (hack : cfg.exporterWillAck = true) {sys : Sys} (hI : AckCovered sys.recv)
    (hr : Restorable h sys) (hread : sys.phase = .reading) (htb : res.thisBlock = some tb)
    (hok : receiveResult cfg (.ok res) sys.recv = .ok true s') : AckCovered s' := by
  have hr' := hr.accepted hread htb hok
  obtain ⟨s₄, hb, hack₄, rfl⟩ := accepted_before_commit htb hok
  intro o ho
  rcases @Store.commit_stack_or_floor s₄.db (commitRev cfg s₄) with hs | hf
  · have hbase : (s₄.db.commit (commitRev cfg s₄)).base = sys.recv.db.base := by
      rw [← hb.1]
      simp only [Store.base, hs, Store.commit_contents]
    have ho' : sys.recv.db.base.state = some o := hbase ▸ ho
    exact (hI o ho').trans (Nat.le_of_eq hack₄.symm)
  · calc o.head ≤ (s₄.db.commit (commitRev cfg s₄)).floor := hr'.base_head_le nofun ho
      _ ≤ commitRev cfg s₄ := hf
      _ ≤ s₄.exporterAckedBlock := commitRev_le_ack hack s₄

theorem ackCovered_step (hack : cfg.exporterWillAck = true) (hI : AckCovered sys.recv)
    (hr : Restorable h sys) (hstep : sys.step cfg op = some sys') : AckCovered sys'.recv := by
  by_cases hop : op = .restart
  · subst hop
    rw [step_restart hstep]
    exact ackCovered_restart hack _
  by_cases hp : op.IsPacing
  · obtain ⟨_, _, _, _, _, he⟩ := step_pacing hp hstep
    intro o ho
    rw [he] at ho
    exact (hI o ho).trans (step_pacing_ack hp hstep)
  cases op with
  | frame f =>
    obtain ⟨hread, ⟨hok, -⟩ | ⟨hnot, -⟩⟩ := step_frame hstep
    · rcases receiveResult_accepted_cases hok with he | ⟨res, tb, rfl, htb⟩
      · rw [he]
        exact hI
      · exact ackCovered_accepted hack hI hr hread htb hok
    · obtain ⟨hb, ha⟩ : BaseAt sys.recv.db.base sys.recv.db.floor sys'.recv ∧
          sys'.recv.exporterAckedBlock = sys.recv.exporterAckedBlock := by
        rcases hnot with hf | ⟨e, he⟩
        · exact ⟨(receiveResult_base f).ok_post ⟨rfl, le_rfl⟩ hf rfl,
            (receiveResult_ack f).holds_of_ok rfl hf⟩
        · exact ⟨(receiveResult_base f).error_post ⟨rfl, le_rfl⟩ he,
            (receiveResult_ack f).holds_of_error rfl he⟩
      intro o ho
      rw [hb.1] at ho
      exact ha ▸ hI o ho
  | contractAbiCtxt a =>
    obtain ⟨b, hready, -⟩ := step_contractAbiCtxt hstep
    rw [getContractAbiReady_ok hready]
    exact hI
  | restart => exact absurd rfl hop
  | _ => exact absurd trivial hp

theorem ackCovered_of_traced (hack : cfg.exporterWillAck = true) (ht : Traced cfg sys h) :
    AckCovered sys.recv := by
  induction ht with
  | start => exact ackCovered_restart hack _
  | step op ht' hstep ih => exact ackCovered_step hack ih (restorable_of_traced ht') hstep

/-- With exporter acknowledgements, in every reachable state a restart resumes
at or below the last block the exporter acknowledged. -/
theorem restart_at_or_below_acked (hack : cfg.exporterWillAck = true) (h : Reachable cfg sys) :
    (restart cfg sys.recv.db).head ≤ sys.recv.exporterAckedBlock := by
  obtain ⟨hist, ht⟩ := h.traced
  have hI := ackCovered_of_traced hack ht
  obtain ⟨-, hpos⟩ := restart_positions cfg sys.recv.db
  rcases hs : sys.recv.db.base.state with _ | o <;> rw [hs] at hpos <;> rw [(Prod.mk.inj hpos).1]
  · exact Nat.zero_le _
  · exact hI o hs

/-- Block 10 with acknowledgements, acknowledged, then block 11, not yet. -/
theorem restart_at_or_below_acked_eleven :
    ∃ sys, (Sys.start (sampleConfig true)).run (sampleConfig true)
        [.read 0 0, .frame (blockFrame 10 10 none 5), .ackBlock 10, .read 0 0,
          .frame (blockFrame 11 11 (some 10) 5)] = some sys ∧
      (sampleConfig true).exporterWillAck = true ∧
      (restart (sampleConfig true) sys.recv.db).head ≤ sys.recv.exporterAckedBlock := by
  obtain ⟨sys, hrun⟩ : ∃ sys, (Sys.start (sampleConfig true)).run (sampleConfig true)
      [.read 0 0, .frame (blockFrame 10 10 none 5), .ackBlock 10, .read 0 0,
        .frame (blockFrame 11 11 (some 10) 5)] = some sys := ⟨_, rfl⟩
  exact ⟨sys, hrun, rfl, restart_at_or_below_acked rfl (Reachable.run Reachable.start hrun)⟩

end Acknowledged

end Chronicle
