/-
What `load_state` restores after a restart.

# The history

A restart undoes every open session: the receiver resumes from the store's
base. The store alone does not say where those contents came from, so a run is
followed here with a history beside it (`History`): the receiver as each
accepted frame for a block left it, and the largest revision handed to
`commit` so far. `Traced` is `Reachable` with that history; erasing it gives
`Reachable` back, and every reachable state has one.

# The invariant

`LeftBy h c r` holds of contents `c` that are those of a fresh store, while
no commit has gone above `r`, or those an accepted frame for a block at or
below `r` left. While the read loop is not
closed the store is graded by it: the current contents at the revision, and
each open session's contents at the revision below it. The base is left by a
frame for a block at or below both the floor and the largest commit.

An accepted frame opens its session over contents the fork check left, which
the grading covers, and leaves its own contents at its block, which is at most
the revision after it. Its commit moves the base only to a session at or below
the revision committed (`Store.commit_stack_or_floor`), and the sessions it
keeps lie above that revision (`Store.SessionsGraded.take_sub`), so a fresh
store stays graded only as long as no commit reaches its oldest session. Every
other exit of a
frame, and every other operation, leaves the base where it was and the floor
where it was or higher (`receiveResult_base`); a frame that crashes with its
session open leaves contents the grading does not cover, but the loop is then
closed and only a restart, which undoes that session, leaves it.

# What a restart restores

The head, head id, irreversible block and its id, the ring and the ABI records
after `load_state` are those some accepted frame for a block at or below the
largest commit left, or those of a fresh store, and then no commit so far has
reached the store's oldest session, the first block's since the store was
fresh (`restart_restores_committed`). A receiver that took block 10 with last
irreversible block 5 thus restarts empty (`restart_before_first_commit`), one
that took it with last irreversible block 11 restarts at block 10.
-/
import Chronicle.Proofs.Ring

namespace Chronicle

-- ===================================================== the history

/-- What a run has done that the store does not record: the receiver as each
accepted frame for a block left it, newest first, and the largest revision
passed to `commit`. -/
structure History where
  left : List Receiver
  maxCommit : Nat

/-- The history after one operation: an accepted frame for a block is added,
with the revision it committed. -/
def History.record (cfg : Config) (h : History) (op : Op) (sys' : Sys) : History :=
  match op with
  | .frame (.ok res) =>
    if res.thisBlock.isSome ∧ sys'.phase = .idle then
      ⟨sys'.recv :: h.left, max h.maxCommit (commitRev cfg sys'.recv)⟩
    else h
  | _ => h

/-- The reachable states, each with the history of a run reaching it. -/
inductive Traced (cfg : Config) : Sys → History → Prop
  | start : Traced cfg (Sys.start cfg) ⟨[], 0⟩
  | step {sys sys' : Sys} {h : History} (op : Op) : Traced cfg sys h →
      sys.step cfg op = some sys' → Traced cfg sys' (h.record cfg op sys')

variable {cfg : Config}

theorem Traced.reachable {sys : Sys} {h : History} (ht : Traced cfg sys h) : Reachable cfg sys := by
  induction ht with
  | start => exact .start
  | step op _ hstep ih => exact ih.step op hstep

theorem Reachable.traced {sys : Sys} (hr : Reachable cfg sys) : ∃ h, Traced cfg sys h := by
  induction hr with
  | start => exact ⟨_, .start⟩
  | step op _ hstep ih =>
    obtain ⟨h, ht⟩ := ih
    exact ⟨_, ht.step op hstep⟩

-- ===================================================== the invariant

/-- The contents of a fresh store while no commit has gone above `r`, or those
an accepted frame for a block at or below `r` left. -/
def LeftBy (h : History) (c : Contents) (r : Nat) : Prop :=
  (c = Contents.empty ∧ h.maxCommit ≤ r) ∨ ∃ x ∈ h.left, x.db.contents = c ∧ x.head ≤ r

variable {h : History} {c : Contents} {r r' : Nat}

theorem LeftBy.mono (hc : LeftBy h c r) (hr : r ≤ r') : LeftBy h c r' :=
  hc.imp (fun ⟨he, hm⟩ => ⟨he, Nat.le_trans hm hr⟩)
    fun ⟨x, hx, hcx, hxr⟩ => ⟨x, hx, hcx, Nat.le_trans hxr hr⟩

/-- Another frame and a commit, which must not go above `r` if no commit so
far did. -/
theorem LeftBy.cons {x : Receiver} {m : Nat} (hc : LeftBy h c r) (hm : h.maxCommit ≤ r → m ≤ r) :
    LeftBy ⟨x :: h.left, m⟩ c r :=
  hc.imp (fun ⟨he, hle⟩ => ⟨he, hm hle⟩)
    fun ⟨y, hy, hcy, hyr⟩ => ⟨y, List.mem_cons_of_mem _ hy, hcy, hyr⟩

/-- A state a restart can resume from, with the history of its run. -/
structure Restorable (h : History) (sys : Sys) : Prop where
  graded : sys.phase ≠ .closed → Store.Graded (LeftBy h) sys.recv.db
  base : LeftBy h sys.recv.db.base (min h.maxCommit sys.recv.db.floor)
  saved : ∀ x ∈ h.left,
    x.db.contents.state = some ⟨x.head, x.headId, x.irreversible, x.irreversibleId⟩

-- ===================================================== a frame and the base

/-- The store's base is `B` and its floor at least `F`. -/
def BaseAt (B : Contents) (F : Nat) (s : Receiver) : Prop :=
  s.db.base = B ∧ F ≤ s.db.floor

variable {B : Contents} {F : Nat} {s s' : Receiver} {res : GetBlocksResultV0} {tb : BlockPosition}

theorem adjustRevision_base (b : Nat) : Triple.Keeps (BaseAt B F) (adjustRevision b) := by
  intro s hs
  cases h : adjustRevision b s with
  | ok u s' =>
    obtain ⟨-, hc, hst, hr⟩ := adjustRevision_ok h
    refine ⟨by rw [← hs.1]; simp only [Store.base, hc, hst], Nat.le_trans hs.2 ?_⟩
    simp only [Store.floor, hst, hr]
    omega
  | error f s' => rw [adjustRevision_error h]; exact hs

theorem checkFork_base : Triple.Keeps (BaseAt B F) (checkFork res tb) := by
  intro s hs
  cases h : checkFork res tb s with
  | ok u s' =>
    by_cases hf : IsFork res tb s
    · obtain ⟨db, hr, -, rfl⟩ := checkFork_fork hf h
      exact ⟨(Store.rollback_base hr).trans hs.1, (Store.rollback_floor hr).symm ▸ hs.2⟩
    · obtain ⟨rfl, -⟩ := checkFork_not_fork hf h
      exact hs
  | error f s' =>
    show BaseAt B F s'
    rcases checkFork_error h with he | hr
    · unfold BaseAt; rw [he]; exact hs
    · exact ⟨(Store.rollback_base hr).trans hs.1, (Store.rollback_floor hr).symm ▸ hs.2⟩

/-- Inside its session the block's own work keeps the sessions and the
revision, so the base and the floor. -/
theorem applyBlock_base :
    Triple (fun t => BaseAt B F t ∧ t.db.stack ≠ []) (applyBlock cfg res tb)
      (fun _ t => BaseAt B F t ∧ t.db.stack ≠ []) (fun _ => BaseAt B F) :=
  (Triple.Keeps.of_rel (fun _ => applyBlock_frame) (fun t => ⟨rfl, List.prefix_refl _⟩)
    fun t t' ht hf => by
      obtain ⟨hb, hfl⟩ := Store.base_floor_of_stack hf.stack hf.revision ht.2
      exact ⟨⟨hb.trans ht.1.1, hfl ▸ ht.1.2⟩, hf.stack ▸ ht.2⟩).conseq
    (fun _ h => h) (fun _ _ h => h) fun _ _ h => h.1

/-- Every exit of `receive_result` but the acceptance of a frame leaves the
store's base where it was, and its floor there or higher. -/
theorem receiveResult_base (f : Frame) :
    Triple (BaseAt B F) (receiveResult cfg f) (fun ok t => ok = false → BaseAt B F t)
      (fun _ => BaseAt B F) := by
  refine Triple.bind' decodeResult_keeps fun r => ?_
  split
  · exact Triple.pure' fun _ h _ => h
  · refine Triple.bind' (adjustRevision_base _) fun _ => Triple.bind' checkFork_base fun _ =>
      Triple.bind' (M := fun _ t => BaseAt B F t ∧ t.db.stack ≠ [])
        (Triple.modify' fun t ht => ⟨⟨Store.startUndoSession_base.trans ht.1,
          Nat.le_trans ht.2 (Nat.le_of_eq Store.startUndoSession_floor.symm)⟩, List.cons_ne_nil _ _⟩)
        fun _ =>
      Triple.bind' (undoOnError_triple applyBlock_base fun _ _ ht =>
        ⟨Store.undo_base.trans ht.1, Nat.le_trans ht.2 (Nat.le_of_eq Store.undo_floor.symm)⟩) fun _ =>
      Triple.get_bind' fun t ht => Triple.ite' (fun _ => ?_) fun _ => ?_
    · refine Triple.bind' (Triple.modify' (Q := fun _ t' => BaseAt B F t') fun _ he => ?_)
        fun _ => Triple.pure' fun _ h _ => h
      subst he
      exact ⟨Store.undo_base.trans ht.1.1, Nat.le_trans ht.1.2 (Nat.le_of_eq Store.undo_floor.symm)⟩
    · rintro _ rfl
      nofun

-- ===================================================== an accepted frame

/-- An accepted frame's receiver saved its own positions. -/
theorem saved_of_accepted (htb : res.thisBlock = some tb)
    (h : receiveResult cfg (.ok res) s = .ok true s') :
    s'.db.contents.state = some ⟨s'.head, s'.headId, s'.irreversible, s'.irreversibleId⟩ := by
  obtain ⟨_, _, _, _, -, -, -, -, h₄, h₅⟩ := receiveResult_accepted htb h
  cases h₄
  cases h₅
  rfl

/-- A commit of `n` over a store whose open sessions and current contents are
graded, and whose base is committed: the base it leaves is committed too, with
the commit recorded. Either the commit keeps every session, and the base,
and is at or below the floor; or the floor drops to the revision committed,
where the grading covers the new base. -/
theorem commit_base_leftBy {D : Store} {n : Nat} {x : Receiver} (hne : D.stack ≠ [])
    (hg : Store.Graded (LeftBy ⟨x :: h.left, max h.maxCommit n⟩) (D.commit n))
    (hb : LeftBy h D.base (min h.maxCommit D.floor)) :
    LeftBy ⟨x :: h.left, max h.maxCommit n⟩ (D.commit n).base
      (min (max h.maxCommit n) (D.commit n).floor) := by
  obtain hkeep | hfloor : (D.commit n).stack = D.stack ∨ (D.commit n).floor ≤ n :=
    Store.commit_stack_or_floor n
  · obtain ⟨hb', hf'⟩ := Store.base_floor_of_stack hkeep rfl hne
    have hn := Store.le_floor_of_commit_stack hkeep hne
    rw [hb', hf']
    exact (hb.mono (by omega)).cons fun _ => by omega
  · exact hg.base.mono (by omega)

/-- An accepted frame for a block keeps the invariant, with itself and its
commit added to the history. -/
theorem Restorable.accepted {sys : Sys} (hr : Restorable h sys) (hphase : sys.phase = .reading)
    (htb : res.thisBlock = some tb) (hok : receiveResult cfg (.ok res) sys.recv = .ok true s') :
    Restorable ⟨s' :: h.left, max h.maxCommit (commitRev cfg s')⟩ ⟨s', .idle⟩ := by
  obtain ⟨s₁, s₂, s₃, s₄, h₁, h₂, h₃, -, h₄, h₅⟩ := receiveResult_accepted htb hok
  have hsaved := saved_of_accepted htb hok
  have hrev := revision_of_accepted htb hok
  -- up to the session: graded, over the same base, at a floor as high
  have hg₂ := checkFork_graded.ok_post ((adjustRevision_graded (Q := LeftBy h)
    (fun _ _ _ => LeftBy.mono) tb.blockNum).ok_post (hr.graded (by rw [hphase]; nofun)) h₁) h₂
  have hb₂ : BaseAt sys.recv.db.base sys.recv.db.floor s₂ :=
    checkFork_base.holds_of_ok ((adjustRevision_base _).holds_of_ok ⟨rfl, Nat.le_refl _⟩ h₁) h₂
  -- the block's own work, then `save_state`
  have hb₃ := applyBlock_base.ok_post ⟨⟨Store.startUndoSession_base.trans hb₂.1,
    Nat.le_trans hb₂.2 (Nat.le_of_eq Store.startUndoSession_floor.symm)⟩, List.cons_ne_nil _ _⟩ h₃
  have hframe := applyBlock_frame.holds_of_ok ⟨rfl, List.prefix_refl _⟩ h₃
  obtain ⟨t, -, hpay⟩ := applyBlock_ok h₃
  have hhead := ((receivePayloads_frame res).holds_of_ok (PayloadFrame.refl cfg _) hpay).head
  obtain ⟨hst₄, hrev₄, hbase₄, hhead₄⟩ : s₄.db.stack = s₃.db.stack ∧
      s₄.db.revision = s₃.db.revision ∧ s₄.db.base = s₃.db.base ∧ s₄.head = s₃.head := by
    cases h₄
    exact ⟨rfl, rfl, Store.modify_base _ hb₃.2, rfl⟩
  obtain rfl : s' = { s₄ with db := s₄.db.commit (commitRev cfg s₄) } := by cases h₅; rfl
  -- the commit
  have hsessions : Store.SessionsGraded (LeftBy h) s₄.db.stack s₄.db.revision := by
    rw [hst₄, hrev₄, hframe.stack, hframe.revision]
    exact (hg₂.1.startUndoSession fun _ _ hc => hc.mono (Nat.le_succ _)).2
  have hle : s₄.head ≤ s₄.db.revision := by
    have hb : s₄.head = tb.blockNum := hhead₄.trans hhead
    have hr : s₄.db.revision = if IsFork res tb sys.recv then tb.blockNum
        else max sys.recv.db.revision tb.blockNum + 1 := hrev
    rw [hb, hr]
    split <;> omega
  have hgraded : Store.Graded (LeftBy ⟨{ s₄ with db := s₄.db.commit (commitRev cfg s₄) } :: h.left,
      max h.maxCommit (commitRev cfg s₄)⟩) (s₄.db.commit (commitRev cfg s₄)) :=
    ⟨.inr ⟨_, List.mem_cons_self _ _, rfl, hle⟩,
      hsessions.take_sub.imp fun _ _ hc => hc.1.cons fun hM => max_le hM hc.2⟩
  have hfloor : s₄.db.floor = s₃.db.floor := by simp only [Store.floor, hst₄, hrev₄]
  refine ⟨fun _ => hgraded, commit_base_leftBy (hst₄ ▸ hb₃.2) hgraded ?_, fun x hx => ?_⟩
  · rw [hbase₄, hb₃.1.1, hfloor]
    exact hr.base.mono (by have := hb₃.1.2; omega)
  · rcases List.mem_cons.mp hx with rfl | hx
    · exact hsaved
    · exact hr.saved x hx

-- ===================================================== every run

theorem Restorable.of_db {sys sys' : Sys} (hr : Restorable h sys)
    (hdb : sys'.recv.db = sys.recv.db) (hph : sys'.phase ≠ .closed → sys.phase ≠ .closed) :
    Restorable h sys' :=
  ⟨fun hc => hdb ▸ hr.graded (hph hc), hdb ▸ hr.base, hr.saved⟩

/-- `load_state` undoes every open session: the store it leaves is the base,
at the floor. -/
theorem Restorable.loadState {sys : Sys} (hr : Restorable h sys) :
    Restorable h ⟨restart cfg sys.recv.db, .idle⟩ := by
  have hu : sys.recv.db.undoAll.contents = sys.recv.db.base ∧
      sys.recv.db.undoAll.revision = sys.recv.db.floor ∧ sys.recv.db.undoAll.stack = [] :=
    Store.undoAll_eq
  have hbf : sys.recv.db.undoAll.base = sys.recv.db.base ∧
      sys.recv.db.undoAll.floor = sys.recv.db.floor := Store.undoAll_base_floor
  refine ⟨fun _ => ?_, ?_, hr.saved⟩
  · rw [restart_db]
    refine ⟨?_, by rw [hu.2.2]; trivial⟩
    rw [hu.1, hu.2.1]
    exact hr.base.mono (Nat.min_le_right _ _)
  · rw [restart_db, hbf.1, hbf.2]
    exact hr.base

/-- A frame that is not accepted closes the loop over the same base. -/
theorem Restorable.refused {sys sys' : Sys} {f : Frame} (hr : Restorable h sys)
    (hcl : sys'.phase = .closed)
    (hnot : receiveResult cfg f sys.recv = .ok false sys'.recv ∨
      ∃ e, receiveResult cfg f sys.recv = .error e sys'.recv) :
    Restorable h sys' := by
  have hbase : BaseAt sys.recv.db.base sys.recv.db.floor sys'.recv := by
    rcases hnot with hf | ⟨e, he⟩
    · exact (receiveResult_base f).ok_post ⟨rfl, Nat.le_refl _⟩ hf rfl
    · exact (receiveResult_base f).error_post ⟨rfl, Nat.le_refl _⟩ he
  refine ⟨fun hc => absurd hcl hc, ?_, hr.saved⟩
  rw [hbase.1]
  exact hr.base.mono (by have := hbase.2; omega)

/-- One operation keeps the invariant, with the history it records. -/
theorem Restorable.step {sys sys' : Sys} {op : Op} (hr : Restorable h sys)
    (hstep : sys.step cfg op = some sys') : Restorable (h.record cfg op sys') sys' := by
  by_cases hop : op = .restart
  · subst hop
    rw [step_restart hstep]
    exact hr.loadState
  have hph : sys'.phase ≠ .closed → sys.phase ≠ .closed := fun h' hc => h' (step_closed hstep hc hop)
  by_cases hp : op.IsPacing
  · obtain ⟨_, _, _, _, _, he⟩ := step_pacing hp hstep
    cases op <;> first | exact False.elim hp | exact hr.of_db (by rw [he]) hph
  cases op with
  | frame f =>
    obtain ⟨hread, ⟨hok, hidle⟩ | ⟨hnot, hcl⟩⟩ := step_frame hstep
    · rcases f with e | res
      · simp [receiveResult, decodeResult] at hok
      rcases htb : res.thisBlock with _ | tb
      · -- no block: nothing changes
        have hrec : h.record cfg (.frame (.ok res)) sys' = h := if_neg (by simp [htb])
        simp only [receiveResult, decodeResult, run_pure_bind, htb, run_pure] at hok
        rw [hrec]
        exact hr.of_db (congrArg Receiver.db (EStateM.Result.ok.inj hok).2).symm
          fun _ => by rw [hread]; nofun
      · have hrec : h.record cfg (.frame (.ok res)) sys' =
            ⟨sys'.recv :: h.left, max h.maxCommit (commitRev cfg sys'.recv)⟩ :=
          if_pos ⟨by rw [htb]; rfl, hidle⟩
        rw [hrec]
        obtain ⟨recv', phase'⟩ := sys'
        cases hidle
        exact hr.accepted hread htb hok
    · have hrec : h.record cfg (.frame f) sys' = h := by
        rcases f with e | res
        · rfl
        · exact if_neg fun hc => by rw [hcl] at hc; cases hc.2
      rw [hrec]
      exact hr.refused hcl hnot
  | contractAbiCtxt a =>
    obtain ⟨b, hready, -⟩ := step_contractAbiCtxt hstep
    exact hr.of_db (by rw [getContractAbiReady_ok hready]) hph
  | restart => exact absurd rfl hop
  | _ => exact absurd trivial hp

theorem restorable_of_traced {sys : Sys} (ht : Traced cfg sys h) : Restorable h sys := by
  induction ht with
  | start =>
    have hdb : (Sys.start cfg).recv.db = Store.empty := restart_db cfg Store.empty
    exact ⟨fun _ => by rw [hdb]; exact ⟨.inl ⟨rfl, Nat.zero_le _⟩, trivial⟩,
      by rw [hdb]; exact .inl ⟨rfl, Nat.zero_le _⟩, nofun⟩
  | step op _ hstep ih => exact ih.step hstep

-- ===================================================== what a restart restores

/-- `load_state` resumes from the base: its contents, and the positions its
state object saved, or none. -/
theorem restart_positions (cfg : Config) (db : Store) :
    (restart cfg db).db.contents = db.base ∧
      ((restart cfg db).head, (restart cfg db).headId, (restart cfg db).irreversible,
          (restart cfg db).irreversibleId) =
        match db.base.state with
        | some o => (o.head, o.headId, o.irreversible, o.irreversibleId)
        | none => (0, 0, 0, 0) := by
  have hu : db.undoAll.contents = db.base ∧ db.undoAll.revision = db.floor ∧
      db.undoAll.stack = [] := Store.undoAll_eq
  refine ⟨by rw [restart_db]; exact hu.1, ?_⟩
  rw [restart_eq, hu.1]
  cases db.base.state <;> rfl

/-- Whatever the run, stopped anywhere and restarted, `load_state` restores the
positions, the ring and the ABI records that an accepted frame for a block at
or below the largest revision committed left, or those of a fresh store; and
then every commit so far was at or below the store's floor, the revision under
its oldest open session: no commit has reached that session, which is the
first block's since the store was fresh. -/
theorem restart_restores_committed {sys : Sys} (ht : Traced cfg sys h) :
    let r := restart cfg sys.recv.db
    (r.db.contents = Contents.empty ∧ h.maxCommit ≤ sys.recv.db.floor ∧
        r.head = 0 ∧ r.headId = 0 ∧ r.irreversible = 0 ∧ r.irreversibleId = 0) ∨
      ∃ x ∈ h.left, x.head ≤ h.maxCommit ∧ r.db.contents = x.db.contents ∧
        r.head = x.head ∧ r.headId = x.headId ∧ r.irreversible = x.irreversible ∧
        r.irreversibleId = x.irreversibleId := by
  intro r
  have hR := restorable_of_traced ht
  obtain ⟨hc, hpos⟩ := restart_positions cfg sys.recv.db
  rcases hR.base with ⟨he, hm⟩ | ⟨x, hx, hxc, hxh⟩
  · have hst : sys.recv.db.base.state = none := by rw [he]; rfl
    rw [hst] at hpos
    simp only [Prod.mk.injEq] at hpos
    exact .inl ⟨hc.trans he, Nat.le_trans hm (Nat.min_le_right _ _), hpos⟩
  · rw [← hxc, hR.saved x hx] at hpos
    simp only [Prod.mk.injEq] at hpos
    exact .inr ⟨x, hx, Nat.le_trans hxh (Nat.min_le_left _ _), hc.trans hxc.symm, hpos⟩

/-- Block 10 arrives with block 11 as the last irreversible one: its commit
makes the block's session permanent, and a restart resumes at block 10. -/
theorem restart_restores_committed_block_ten :
    ∃ sys h, Traced (sampleConfig false) sys h ∧ h.maxCommit = 11 ∧
      (restart (sampleConfig false) sys.recv.db).head = 10 ∧
      let r := restart (sampleConfig false) sys.recv.db
      (r.db.contents = Contents.empty ∧ h.maxCommit ≤ sys.recv.db.floor ∧
          r.head = 0 ∧ r.headId = 0 ∧ r.irreversible = 0 ∧ r.irreversibleId = 0) ∨
        ∃ x ∈ h.left, x.head ≤ h.maxCommit ∧ r.db.contents = x.db.contents ∧
          r.head = x.head ∧ r.headId = x.headId ∧ r.irreversible = x.irreversible ∧
          r.irreversibleId = x.irreversibleId := by
  have ht := Traced.step (.frame (blockFrame 10 10 none 11))
    (Traced.step (.read 0 0) (Traced.start : Traced (sampleConfig false) _ _) rfl) rfl
  exact ⟨_, _, ht, rfl, rfl, restart_restores_committed ht⟩

/-- Block 10 is accepted with block 5 as the last irreversible one: its commit
makes nothing permanent, and a restart then resumes from the empty store, not
from a state any accepted frame left. -/
theorem restart_before_first_commit :
    ∃ sys sys', (Sys.start (sampleConfig false)).run (sampleConfig false)
        [.read 0 0, .frame (blockFrame 10 10 none 5)] = some sys ∧
      sys.phase = .idle ∧ sys.recv.head = 10 ∧ commitRev (sampleConfig false) sys.recv = 5 ∧
      sys.step (sampleConfig false) .restart = some sys' ∧
      sys'.recv.head = 0 ∧ sys'.recv.db.contents = Contents.empty :=
  ⟨_, _, rfl, rfl, rfl, rfl, rfl, rfl, rfl⟩

end Chronicle
