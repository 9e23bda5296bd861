/-
What one operation of the system can change.

`Sys.step` has a case per operation. This module says once what each does, so
that every property of runs is proved by induction over `Reachable` from these
lemmas, without unfolding `Sys.step` again.

- The read loop's passes and the exporter's calls other than
  `get_contract_abi_ctxt` (`Op.IsPacing`) change only the pause, the slowdown
  request, the acknowledgement, `aborting` and the events (`step_pacing`).
- `get_contract_abi_ctxt` changes only the ABI context and the set of accounts
  imported into it (`step_contractAbiCtxt`).
- A frame arrives only in the `reading` phase; accepted, it leaves the loop
  `idle`, and otherwise the socket is closed (`step_frame`).
- A restart rebuilds the receiver from its store (`step_restart`).
-/
import Chronicle.Receiver.System
import Chronicle.Proofs.Triple

namespace Chronicle

variable {cfg : Config} {q : Nat} {s : Receiver}

-- ========================================== check_pause and continue_read

/-- `check_pause` when it pauses: the pause grows, the slowdown request is
used up, and a pause event goes out from 2 s on. -/
theorem checkPause_of_mustPause (h : mustPause cfg q s = true) :
    checkPause cfg q s = .ok false
      { s with
        slowdownRequested := false
        pauseTimeMsec := nextPauseTime s.pauseTimeMsec
        published := s.published ++
          if 2000 ≤ nextPauseTime s.pauseTimeMsec then
            [.receiverPause s.head s.exporterAckedBlock] else [] } := by
  simp only [checkPause, run_get_bind, h, if_true, run_modify_bind]
  split <;> simp_all

theorem checkPause_of_not_mustPause (h : mustPause cfg q s = false) :
    checkPause cfg q s = .ok true s := by
  simp [checkPause, h]

theorem continueRead_of_mustPause (h : mustPause cfg q s = true) :
    continueRead cfg q s = checkPause cfg q s := by
  show (checkPause cfg q >>= _) s = _
  rw [run_bind_ok _ (checkPause_of_mustPause h), checkPause_of_mustPause h]
  rfl

theorem continueRead_of_not_mustPause (h : mustPause cfg q s = false) :
    continueRead cfg q s = .ok true { s with pauseTimeMsec := 0 } := by
  show (checkPause cfg q >>= _) s = _
  rw [run_bind_ok _ (checkPause_of_not_mustPause h)]
  rfl

/-- `ack_block` that returns: the acknowledgement only grows. -/
theorem ackBlock_ok {n : Nat} {s' : Receiver} (h : ackBlock cfg n s = .ok () s') :
    s.exporterAckedBlock ≤ n ∧ s' = { s with exporterAckedBlock := n } := by
  by_cases hw : cfg.exporterWillAck = true
  · simp only [ackBlock, hw, Bool.not_true, Bool.false_eq_true, if_false, run_pure_bind,
      run_get_bind] at h
    by_cases hlt : n < s.exporterAckedBlock
    · rw [if_pos hlt] at h; cases h
    · rw [if_neg hlt] at h; cases h; exact ⟨by omega, rfl⟩
  · simp only [ackBlock, hw, Bool.not_false, if_true, run_throw_bind] at h
    cases h

/-- `get_contract_abi_ready` touches nothing but the ABI context and the set of
accounts imported into it. -/
theorem getContractAbiReady_ok {a : Nat} {b : Bool} {s' : Receiver}
    (h : getContractAbiReady cfg a s = .ok b s') :
    s' = { s with contractAbiCtxt := s'.contractAbiCtxt,
                  contractAbiImported := s'.contractAbiImported } := by
  simp only [getContractAbiReady, run_get_bind] at h
  by_cases hi : s.contractAbiImported a = true
  · rw [if_pos hi] at h; cases h; rfl
  · rw [if_neg hi] at h
    cases hr : s.db.contents.contractAbis a with
    | none => simp only [hr, run_pure] at h; cases h; rfl
    | some abi =>
      simp only [hr, setAbiBin, bind_assoc, run_get_bind] at h
      cases hc : s.contractAbiCtxt with
      | none => simp only [hc, run_throw_bind] at h; cases h
      | some ctxt =>
        cases hv : cfg.abieos.setAbiBin abi <;>
          simp only [hc, hv, run_pure_bind, run_set_bind, run_modify_bind, run_pure] at h <;>
          cases h <;> rfl

/-- What a pass of `continue_read` changes: the pause, the slowdown request,
and the events, to which it adds at most pause announcements. -/
theorem continueRead_ok {go : Bool} {s' : Receiver} (h : continueRead cfg q s = .ok go s') :
    ∃ p sd m, (∀ e ∈ m, e.channel = .receiverPauses) ∧
      s' = { s with pauseTimeMsec := p, slowdownRequested := sd, published := s.published ++ m } := by
  by_cases hp : mustPause cfg q s = true
  · rw [continueRead_of_mustPause hp, checkPause_of_mustPause hp] at h
    cases h
    refine ⟨_, _, _, fun e he => ?_, rfl⟩
    split at he
    · rw [List.mem_singleton.mp he]
      rfl
    · cases he
  · rw [continueRead_of_not_mustPause (by simpa using hp)] at h
    cases h
    exact ⟨_, _, [], nofun, by rw [List.append_nil]⟩

-- ============================================================ load_state

/-- A process started over the store `db`: every session undone, the positions
read back from the state object if there is one, a restart fork announced when
sessions were undone, the acknowledgement set to the head, and an empty ABI
context. -/
theorem restart_eq (cfg : Config) (db : Store) : restart cfg db =
    let s₀ : Receiver := match db.undoAll.contents.state with
      | some o => { Receiver.init db.undoAll with
          head := o.head, headId := o.headId, irreversible := o.irreversible,
          irreversibleId := o.irreversibleId }
      | none => Receiver.init db.undoAll
    { s₀ with
      published := if 0 < db.stack.length then [.fork s₀.head db.stack.length .restart] else []
      exporterAckedBlock := if cfg.exporterWillAck then s₀.head else 0
      contractAbiCtxt := some fun _ => none } := by
  simp only [restart, loadState, run_get_bind, run_modify_bind, Receiver.init]
  cases db.undoAll.contents.state <;> by_cases h : 0 < db.stack.length <;>
    cases cfg.exporterWillAck <;> simp [h, initContractAbiCtxt]

theorem restart_db (cfg : Config) (db : Store) : (restart cfg db).db = db.undoAll := by
  rw [restart_eq]
  split <;> rfl

-- ============================================================ the steps

variable {sys sys' : Sys}

/-- The read loop's passes and the exporter's calls that only pace the reader
or stop it. -/
def Op.IsPacing : Op → Prop
  | .read _ _ | .ackBlock _ | .slowdown | .abortReceiver => True
  | _ => False

theorem step_pacing {op : Op} (hop : op.IsPacing) (h : sys.step cfg op = some sys') :
    ∃ p sd ack ab pub, sys'.recv = { sys.recv with
      pauseTimeMsec := p, slowdownRequested := sd, exporterAckedBlock := ack, aborting := ab,
      published := pub } := by
  cases op with
  | read _ _ =>
    simp only [Sys.step] at h
    split at h
    · rename_i hread
      cases h
      obtain ⟨p, sd, m, -, rfl⟩ := continueRead_ok hread
      exact ⟨p, sd, _, _, _, rfl⟩
    · cases h
  | ackBlock n =>
    simp only [Sys.step] at h
    split at h
    · obtain ⟨-, rfl⟩ := ackBlock_ok ‹_›
      cases h
      exact ⟨_, _, _, _, _, rfl⟩
    · cases h
  | slowdown | abortReceiver =>
    simp only [Sys.step, slowdown, abortReceiver, run_modify, Option.some.injEq] at h
    subst h
    exact ⟨_, _, _, _, _, rfl⟩
  | frame _ | contractAbiCtxt _ | restart => cases hop

theorem step_contractAbiCtxt {a : Nat} (h : sys.step cfg (.contractAbiCtxt a) = some sys') :
    ∃ b, getContractAbiReady cfg a sys.recv = .ok b sys'.recv ∧ sys'.phase = sys.phase := by
  simp only [Sys.step] at h
  split at h
  · cases h
    exact ⟨_, ‹_›, rfl⟩
  · cases h

/-- A frame is read in the `reading` phase; an accepted one leaves the loop
`idle`, anything else closed. -/
theorem step_frame {f : Frame} (h : sys.step cfg (.frame f) = some sys') :
    sys.phase = .reading ∧
      (receiveResult cfg f sys.recv = .ok true sys'.recv ∧ sys'.phase = .idle ∨
        (receiveResult cfg f sys.recv = .ok false sys'.recv ∨
          ∃ e, receiveResult cfg f sys.recv = .error e sys'.recv) ∧ sys'.phase = .closed) := by
  simp only [Sys.step] at h
  split at h <;> cases h
  · exact ⟨‹_›, .inl ⟨‹_›, rfl⟩⟩
  · exact ⟨‹_›, .inr ⟨.inl ‹_›, rfl⟩⟩
  · exact ⟨‹_›, .inr ⟨.inr ⟨_, ‹_›⟩, rfl⟩⟩

theorem step_restart (h : sys.step cfg .restart = some sys') :
    sys' = ⟨restart cfg sys.recv.db, .idle⟩ := by
  simp only [Sys.step, Option.some.injEq] at h
  exact h.symm

/-- Only a restart leaves a closed read loop. -/
theorem step_closed {op : Op} (h : sys.step cfg op = some sys')
    (hc : sys.phase = .closed) (hop : op ≠ .restart) : sys'.phase = .closed := by
  cases op with
  | read _ _ => simp [Sys.step, hc] at h
  | frame f => simp [Sys.step, hc] at h
  | contractAbiCtxt a =>
    obtain ⟨_, -, he⟩ := step_contractAbiCtxt h
    rw [he, hc]
  | restart => exact absurd rfl hop
  | _ =>
    simp only [Sys.step] at h
    split at h <;> cases h
    all_goals first | exact hc | simp [hc]

end Chronicle
