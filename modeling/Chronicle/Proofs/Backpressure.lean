/-
The read loop's back-off, and what a network fork does to it when the
exporter acknowledges blocks.

# The back-off

`check_pause` doubles the pause for as long as the reader must wait, from
100 ms. Its cap is tested before the doubling (`pause_time_msec < 8000`), so
the pause climbs 100, 200, …, 6400 and then to 12800 ms, where it stays
(`nextPauseTime_repeat`). `continue_read` resets it as soon as a read may go
ahead. Along consecutive pausing passes the pause is the back-off iterated
(`pauseTime_of_pausing_reads`), and the eighth pause in a row is 12800 ms
(`eighth_pause_is_12800`).

# A fork below the acknowledged block

The acknowledgement lag `head - exporter_acked_block` is a `uint32`
difference, and `ack_block` lets the acknowledgement only grow. A network fork
moves `head` back below blocks the exporter may already have acknowledged,
the lag wraps to nearly `2^32`, and from then on every pass of `continue_read`
pauses: the reader never reads again (`stalled_forever`, and the run
`fork_below_ack_stalls` that gets there). `load_state` sets the
acknowledgement back to the head after its rollback; the network fork path
does not.
-/
import Mathlib.Algebra.Group.Nat.Basic
import Chronicle.Proofs.Step

namespace Chronicle

variable {cfg : Config} {q : Nat} {s : Receiver}

-- ============================================================ the back-off

/-- The back-off from no pause: 100 ms doubled, up to 12800 ms. -/
theorem nextPauseTime_repeat (k : Nat) :
    Nat.repeat nextPauseTime (k + 1) 0 = min (100 * 2 ^ k) 12800 := by
  induction k with
  | zero => rfl
  | succ k ih =>
    have hpos : 1 ≤ 2 ^ k := Nat.one_le_two_pow
    have hcap : 2 ^ k ≤ 64 ∨ 128 ≤ 2 ^ k := by
      rcases Nat.lt_or_ge k 7 with hk | hk
      · exact .inl (Nat.pow_le_pow_right (n := 2) (by omega) (by omega : k ≤ 6))
      · exact .inr (Nat.pow_le_pow_right (n := 2) (by omega) hk)
    rw [Nat.repeat, ih, Nat.pow_succ]
    generalize 2 ^ k = x at *
    simp only [nextPauseTime, Nat.min_def]
    split_ifs <;> first | omega | contradiction

/-- Iterating once more is iterating from the next value. -/
theorem repeat_succ_apply {α : Type} (f : α → α) : ∀ (n : Nat) (a : α),
    Nat.repeat f n (f a) = Nat.repeat f (n + 1) a
  | 0, _ => rfl
  | n + 1, a => congrArg f (repeat_succ_apply f n a)

/-- A read loop that keeps pausing: after the passes of `continue_read` with
the queues `qs`, all of which paused, the pause is the back-off iterated once
per pass. -/
theorem pauseTime_of_pausing_reads : ∀ (qs : List (Nat × Nat)) {sys sys' : Sys},
    sys.phase = .idle → sys.run cfg (qs.map (Function.uncurry Op.read)) = some sys' →
      sys'.phase = .idle →
      sys'.recv.pauseTimeMsec = Nat.repeat nextPauseTime qs.length sys.recv.pauseTimeMsec
  | [], _, _, _, hrun, _ => by cases hrun; rfl
  | (h, o) :: qs, ⟨s, _⟩, sys', hidle, hrun, hend => by
    cases hidle
    by_cases hp : mustPause cfg (queueSize cfg s h o) s = true
    · simp only [List.map_cons, Function.uncurry_apply_pair, Sys.run, Sys.step,
        continueRead_of_mustPause hp,
        checkPause_of_mustPause hp, Option.some_bind, if_false] at hrun
      rw [pauseTime_of_pausing_reads qs rfl hrun hend]
      exact repeat_succ_apply _ _ _
    · have hp : mustPause cfg (queueSize cfg s h o) s = false := by simpa using hp
      simp only [List.map_cons, Function.uncurry_apply_pair, Sys.run, Sys.step,
        continueRead_of_not_mustPause hp,
        Option.some_bind, if_true] at hrun
      cases qs with
      | nil => cases hrun; cases hend
      | cons q' qs => obtain ⟨_, _⟩ := q'; simp [Sys.run, Sys.step] at hrun

/-- From a reset pause, pass after pass that pauses: the `k + 1`-th pause in
a row is `100 * 2^k` ms, up to 12800 ms. -/
theorem pauseTime_backoff (q : Nat × Nat) (qs : List (Nat × Nat)) {sys sys' : Sys}
    (hidle : sys.phase = .idle) (hzero : sys.recv.pauseTimeMsec = 0)
    (hrun : sys.run cfg ((q :: qs).map (Function.uncurry Op.read)) = some sys')
    (hend : sys'.phase = .idle) :
    sys'.recv.pauseTimeMsec = min (100 * 2 ^ qs.length) 12800 := by
  rw [pauseTime_of_pausing_reads _ hidle hrun hend, hzero, List.length_cons, nextPauseTime_repeat]

/-- Eight pausing passes from the start: the eighth pause is `min (100 * 2^7) 12800`. -/
theorem pauseTime_backoff_eighth :
    ∃ sys', (Sys.start (sampleConfig true)).run (sampleConfig true)
        (((0, 10001) :: List.replicate 7 (0, 10001)).map (Function.uncurry Op.read)) =
          some sys' ∧ sys'.phase = .idle ∧
      sys'.recv.pauseTimeMsec = min (100 * 2 ^ (List.replicate 7 (0, 10001)).length) 12800 :=
  ⟨_, rfl, rfl, @pauseTime_backoff (sampleConfig true) (0, 10001) (List.replicate 7 (0, 10001))
    (Sys.start (sampleConfig true)) _ rfl rfl rfl rfl⟩

/-- Eight passes of the read loop over an overlong appbase queue: the eighth
pause is 12800 ms. -/
theorem eighth_pause_is_12800 :
    ((Sys.start (sampleConfig true)).run (sampleConfig true)
      (List.replicate 8 (.read 0 10001))).map (·.recv.pauseTimeMsec) = some 12800 := by
  decide

-- ========================================= a fork below the acknowledgement

/-- The exporter has acknowledged past the head: the lag wraps around. -/
def AckedPastHead (s : Receiver) : Prop :=
  s.head < s.exporterAckedBlock ∧ s.exporterAckedBlock < 4294967296

instance : DecidablePred AckedPastHead := fun _ => inferInstanceAs (Decidable (_ ∧ _))

/-- Past the head the wrapped lag is never below one block. -/
theorem one_le_subU32_of_ackedPastHead (h : AckedPastHead s) :
    1 ≤ subU32 s.head s.exporterAckedBlock := by
  obtain ⟨hlt, hbound⟩ := h
  simp only [subU32, Nat.mod_eq_of_lt hbound]
  rw [Nat.mod_eq_of_lt (by omega)]
  omega

section Stalled

variable (hack : cfg.exporterWillAck = true) (hmax : cfg.exporterMaxUnconfirmed ≤ 1)

include hack hmax

/-- One operation on a reader that is not reading and whose acknowledgement is
past the head, other than a restart and with an acknowledgement that fits in
32 bits: the reader still is not reading, the acknowledgement still is past
the head, and the head has not moved. A pass of the read loop pauses, an
acknowledgement only grows, and a frame cannot arrive without a read. -/
theorem stalled_step {sys sys' : Sys} {op : Op} (hnr : sys.phase ≠ .reading)
    (hpast : AckedPastHead sys.recv) (hnrs : op ≠ .restart)
    (hnack : ∀ n, op = .ackBlock n → n < 4294967296) (hstep : sys.step cfg op = some sys') :
    sys'.phase ≠ .reading ∧ AckedPastHead sys'.recv ∧ sys'.recv.head = sys.recv.head := by
  obtain ⟨s, phase⟩ := sys
  change AckedPastHead s at hpast
  cases op with
  | read handled other =>
    have hp : mustPause cfg (queueSize cfg s handled other) s = true := by
      have := one_le_subU32_of_ackedPastHead hpast
      simp only [mustPause, hack, Bool.true_and, Bool.or_eq_true, decide_eq_true_eq]
      omega
    cases phase with
    | idle =>
      simp only [Sys.step, continueRead_of_mustPause hp, checkPause_of_mustPause hp,
        if_false, Option.some.injEq] at hstep
      subst hstep
      exact ⟨nofun, hpast, rfl⟩
    | reading => exact absurd rfl hnr
    | closed => simp [Sys.step] at hstep
  | frame f =>
    cases phase <;> first | exact absurd rfl hnr | simp [Sys.step] at hstep
  | ackBlock n =>
    simp only [Sys.step] at hstep
    split at hstep
    · obtain ⟨hle, rfl⟩ := ackBlock_ok ‹_›
      cases hstep
      refine ⟨hnr, ⟨?_, hnack n rfl⟩, rfl⟩
      show s.head < n
      have := hpast.1
      omega
    · cases hstep
  | slowdown | abortReceiver =>
    simp only [Sys.step, slowdown, abortReceiver, run_modify, Option.some.injEq] at hstep
    subst hstep
    exact ⟨by cases phase <;> simp_all, hpast, rfl⟩
  | contractAbiCtxt a =>
    simp only [Sys.step] at hstep
    split at hstep
    · rename_i b s₁ hready
      cases hstep
      rw [getContractAbiReady_ok hready]
      exact ⟨hnr, hpast, rfl⟩
    · cases hstep
  | restart => exact absurd rfl hnrs

/-- Once the exporter has acknowledged past the head, with an exporter that
pauses the reader at one unacknowledged block, no pass of the read loop ever
starts a read again, whatever acknowledgements and exporter calls come
between. -/
theorem stalled_forever : ∀ (ops : List Op) {sys sys' : Sys}, sys.phase ≠ .reading →
    AckedPastHead sys.recv → (∀ op ∈ ops, op ≠ .restart ∧ ∀ n, op = .ackBlock n → n < 4294967296) →
    sys.run cfg ops = some sys' → sys'.phase ≠ .reading ∧ sys'.recv.head = sys.recv.head
  | [], _, _, hnr, _, _, hrun => by cases hrun; exact ⟨hnr, rfl⟩
  | op :: ops, sys, sys', hnr, hpast, hops, hrun => by
    simp only [Sys.run, Option.bind_eq_some] at hrun
    obtain ⟨mid, hstep, hrest⟩ := hrun
    obtain ⟨hnrs, hnack⟩ := hops op (List.mem_cons_self _ _)
    have hmid := stalled_step hack hmax hnr hpast hnrs hnack hstep
    obtain ⟨h1, h2⟩ := stalled_forever ops hmid.1 hmid.2.1
      (fun o ho => hops o (List.mem_cons_of_mem _ ho)) hrest
    exact ⟨h1, h2.trans hmid.2.2⟩

end Stalled

/-- The exporter acknowledges blocks 10, 11 and 12 as they come; block 11 then
arrives again on another branch. The fork takes the head back to 11 while the
acknowledgement stays at 12, the `uint32` lag is `2^32 - 1`, and no later pass
of the read loop, with any acknowledgements and exporter calls in between,
starts another read. -/
theorem fork_below_ack_stalls :
    ∃ sys, (Sys.start (sampleConfig true)).run (sampleConfig true)
        [.read 0 0, .frame (blockFrame 10 10 (some 9) 5), .ackBlock 10,
         .read 0 0, .frame (blockFrame 11 11 (some 10) 5), .ackBlock 11,
         .read 0 0, .frame (blockFrame 12 12 (some 11) 5), .ackBlock 12,
         .read 0 0, .frame (blockFrame 11 111 (some 10) 5)] = some sys ∧
      sys.recv.head = 11 ∧ sys.recv.exporterAckedBlock = 12 ∧
      subU32 sys.recv.head sys.recv.exporterAckedBlock = 4294967295 ∧
      ∀ (ops : List Op) (sys' : Sys),
        (∀ op ∈ ops, op ≠ .restart ∧ ∀ n, op = .ackBlock n → n < 4294967296) →
        sys.run (sampleConfig true) ops = some sys' → sys'.phase ≠ .reading := by
  refine ⟨_, rfl, rfl, rfl, rfl, fun ops sys' hops hrun => ?_⟩
  exact (stalled_forever rfl (by decide) ops (by decide) (by decide) hops hrun).1

end Chronicle
