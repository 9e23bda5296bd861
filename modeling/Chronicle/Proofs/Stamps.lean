/-
The block number and the timestamp on the events of a frame.

Every event a frame's payloads publish is stamped from the receiver's members
when the event is made: `head`, which the frame has just set to its own block,
and `block_timestamp`. Only `receive_block` sets `block_timestamp`, from the
header of the block it decodes, and it runs before the deltas and the traces.
A frame without a block payload therefore stamps its events with the timestamp
the receiver held before it: the last block payload's, from an earlier frame,
or the member's initial 0 after a restart.

# What is proved here

- `Event.Stamped n ts e`: `e` carries block number `n` and timestamp `ts`, in
  whichever of the two fields it has; a block event's timestamp is its block
  header's.
- `StampedSince pre n ts t`: the head and the timestamp of `t` are `n` and
  `ts`, and every event after `pre` carries them. The handlers of the deltas
  and the traces keep it, one lemma per handler: none of them changes the head
  or the timestamp, and each stamps its events from the state.
- `receivePayloads_stamped`: the events of a frame's payloads carry the head,
  and the block's timestamp when the frame has a block payload, else the
  timestamp held before. `receiveResult_stamps` says the same of every event
  an accepted frame publishes.
- `stale_timestamp_without_block`: the frame for block 11 without a block
  payload stamps its trace with block 10's timestamp.
- `receiveTraces_published`: when a frame's traces decode, `receive_traces`
  publishes one event for each trace whose first action is not blacklisted,
  in the traces' order, and nothing when `transaction_traces` has no
  subscriber.
-/
import Chronicle.Proofs.Frame

namespace Chronicle

-- ===================================================== the stamps

/-- `e` carries block number `n` and timestamp `ts` in the fields it has:
`block_num` and `block_timestamp`, or, for a block event, `block_num` and its
block header's timestamp. A `block_table_delta` is given no block number, and
fork and pause events carry neither field. -/
def Event.Stamped (n ts : Nat) : Event → Prop
  | .block blockNum _ b => blockNum = n ∧ b.timestamp = ts
  | .blockTableDelta blockTimestamp _ => blockTimestamp = ts
  | .transactionTrace blockNum blockTimestamp _ | .abiUpdate blockNum blockTimestamp _ _
  | .abiRemoval blockNum blockTimestamp _ | .abiError blockNum blockTimestamp _ _
  | .tableRowUpdate blockNum blockTimestamp _ _ => blockNum = n ∧ blockTimestamp = ts
  | .fork .. | .receiverPause .. => True

instance (n ts : Nat) : DecidablePred (Event.Stamped n ts)
  | .block k _ b => inferInstanceAs (Decidable (k = n ∧ b.timestamp = ts))
  | .blockTableDelta t _ => inferInstanceAs (Decidable (t = ts))
  | .transactionTrace k t _ => inferInstanceAs (Decidable (k = n ∧ t = ts))
  | .abiUpdate k t _ _ => inferInstanceAs (Decidable (k = n ∧ t = ts))
  | .abiRemoval k t _ => inferInstanceAs (Decidable (k = n ∧ t = ts))
  | .abiError k t _ _ => inferInstanceAs (Decidable (k = n ∧ t = ts))
  | .tableRowUpdate k t _ _ => inferInstanceAs (Decidable (k = n ∧ t = ts))
  | .fork .. | .receiverPause .. => isTrue trivial

/-- `t` is at head `n` and timestamp `ts`, and every event it published after
`pre` carries them. -/
structure StampedSince (pre : List Event) (n ts : Nat) (t : Receiver) : Prop where
  head : t.head = n
  blockTimestamp : t.blockTimestamp = ts
  published : ∃ post, t.published = pre ++ post ∧ ∀ e ∈ post, e.Stamped n ts

variable {pre : List Event} {n ts : Nat} {t t' : Receiver}

theorem StampedSince.start (t : Receiver) :
    StampedSince t.published t.head t.blockTimestamp t :=
  ⟨rfl, rfl, [], (List.append_nil _).symm, nofun⟩

/-- A step that changes neither the head, the timestamp nor the events. -/
theorem StampedSince.congr (h : StampedSince pre n ts t) (hh : t'.head = t.head)
    (hts : t'.blockTimestamp = t.blockTimestamp) (hp : t'.published = t.published) :
    StampedSince pre n ts t' :=
  ⟨hh.trans h.head, hts.trans h.blockTimestamp, hp ▸ h.published⟩

theorem StampedSince.publish {e : Event} (h : StampedSince pre n ts t) (he : e.Stamped n ts) :
    StampedSince pre n ts { t with published := t.published ++ [e] } := by
  obtain ⟨post, hpost, hall⟩ := h.published
  refine ⟨h.head, h.blockTimestamp, post ++ [e], by rw [hpost, List.append_assoc], fun x hx => ?_⟩
  rcases List.mem_append.mp hx with hx | hx
  · exact hall x hx
  · rw [List.mem_singleton.mp hx]
    exact he

-- ===================================================== the handlers

section Handlers

variable {cfg : Config}

/-- An event stamped from a state at head `n` and timestamp `ts`. -/
theorem publish_stamped {s : Receiver} {e : Event} (hs : StampedSince pre n ts s)
    (he : e.Stamped s.head s.blockTimestamp) : Triple.Keeps (StampedSince pre n ts) (publish e) :=
  fun _ h => h.publish (by rw [hs.head, hs.blockTimestamp] at he; exact he)

theorem initContractAbiCtxt_stamped :
    Triple.Keeps (StampedSince pre n ts) initContractAbiCtxt :=
  fun _ h => h.congr rfl rfl rfl

theorem setAbiBin_stamped (a : Nat) (d : Bytes) :
    Triple.Keeps (StampedSince pre n ts) (setAbiBin cfg a d) := by
  refine Triple.Keeps.get_bind' fun s hs => ?_
  split
  · exact Triple.Keeps.throw'
  · split
    · exact Triple.Keeps.pure'
    · exact Triple.Keeps.bind' (fun _ _ => hs.congr rfl rfl rfl) fun _ => Triple.Keeps.pure'

theorem clearContractAbi_stamped (a : Nat) :
    Triple.Keeps (StampedSince pre n ts) (clearContractAbi a) := by
  refine Triple.Keeps.get_bind' fun _ _ => Triple.Keeps.ite'
    (Triple.Keeps.bind' initContractAbiCtxt_stamped fun _ => ?_)
    (Triple.Keeps.bind' Triple.Keeps.pure' fun _ => ?_) <;>
  exact Triple.Keeps.get_bind' fun s hs => Triple.Keeps.ite'
    (Triple.Keeps.bind' (fun _ _ => hs.congr rfl rfl rfl) fun _ => publish_stamped hs ⟨rfl, rfl⟩)
    Triple.Keeps.pure'

theorem installContractAbi_stamped (a : Nat) (d : Bytes) :
    Triple.Keeps (StampedSince pre n ts) (installContractAbi cfg a d) := by
  refine Triple.Keeps.bind' (setAbiBin_stamped a d) fun res => ?_
  rcases res with e | ⟨⟩
  · exact Triple.Keeps.throw'
  · refine Triple.Keeps.bind' (Triple.Keeps.modify' fun _ h => h.congr rfl rfl rfl) fun _ =>
      Triple.Keeps.ite' ?_ Triple.Keeps.pure'
    split
    · exact Triple.Keeps.throw'
    · exact Triple.Keeps.get_bind' fun s hs => publish_stamped hs ⟨rfl, rfl⟩

theorem saveContractAbi_stamped (a : Nat) (d : Bytes) :
    Triple.Keeps (StampedSince pre n ts) (saveContractAbi cfg a d) := by
  refine Triple.Keeps.get_bind' fun _ _ => Triple.Keeps.ite'
    (Triple.Keeps.bind' initContractAbiCtxt_stamped fun _ => ?_)
    (Triple.Keeps.bind' Triple.Keeps.pure' fun _ => ?_) <;>
  refine Triple.Keeps.tryCatch' (installContractAbi_stamped a d) fun f => ?_ <;>
  cases f <;>
  first
  | exact Triple.Keeps.throw'
  | exact Triple.Keeps.get_bind' fun s hs => publish_stamped hs ⟨rfl, rfl⟩

theorem getContractAbiReady_stamped (a : Nat) :
    Triple.Keeps (StampedSince pre n ts) (getContractAbiReady cfg a) := by
  refine Triple.Keeps.get_bind' fun _ _ => Triple.Keeps.ite' Triple.Keeps.pure' ?_
  split
  · exact Triple.Keeps.bind' (setAbiBin_stamped _ _) fun _ => Triple.Keeps.bind'
      (Triple.Keeps.modify' fun _ h => h.congr rfl rfl rfl) fun _ => Triple.Keeps.pure'
  · exact Triple.Keeps.pure'

theorem receiveAccountRow_stamped (row : Row) :
    Triple.Keeps (StampedSince pre n ts) (receiveAccountRow cfg row) :=
  receiveAccountRow_keeps clearContractAbi_stamped saveContractAbi_stamped row

theorem receiveContractRow_stamped (row : Row) :
    Triple.Keeps (StampedSince pre n ts) (receiveContractRow cfg row) := by
  refine Triple.Keeps.get_bind' fun s hs => ?_
  split
  · exact Triple.Keeps.throw'
  · exact Triple.Keeps.bind' (getContractAbiReady_stamped _) fun _ => Triple.Keeps.ite'
      (Triple.Keeps.bind' (publish_stamped hs ⟨rfl, rfl⟩) fun _ => Triple.Keeps.pure')
      (Triple.Keeps.bind' (publish_stamped hs ⟨rfl, rfl⟩) fun _ => Triple.Keeps.pure')

/-- A table delta is announced with the timestamp read before its rows. -/
theorem receiveTableDelta_stamped (delta : Except String TableDeltaV0) :
    Triple.Keeps (StampedSince pre n ts) (receiveTableDelta cfg delta) := by
  refine Triple.Keeps.get_bind' fun s hs => ?_
  split
  · exact Triple.Keeps.throw'
  · refine Triple.Keeps.bind' (Triple.Keeps.mapM' fun row _ => checkRowVariant_keeps row)
      fun _ => Triple.Keeps.ite' ?_ (Triple.Keeps.ite' ?_ ?_) <;>
    refine Triple.Keeps.bind' ?_ fun _ => publish_stamped hs rfl
    · exact Triple.Keeps.mapM' fun row _ => receiveAccountRow_stamped row
    · exact Triple.Keeps.mapM' fun row _ => receiveContractRow_stamped row
    · exact Triple.Keeps.pure'

theorem receiveTraces_stamped (buf : ListPayload TransactionTrace) :
    Triple.Keeps (StampedSince pre n ts) (receiveTraces cfg buf) := by
  refine Triple.Keeps.ite' ?_ Triple.Keeps.pure'
  split
  · exact Triple.Keeps.throw'
  · refine Triple.Keeps.forM' fun trace _ => ?_
    unfold receiveTrace
    split
    · exact Triple.Keeps.throw'
    · exact Triple.Keeps.ite' (Triple.Keeps.get_bind' fun s hs => publish_stamped hs ⟨rfl, rfl⟩)
        Triple.Keeps.pure'

/-- The deltas and the traces of a frame, after its block. -/
theorem deltasTraces_stamped (r : GetBlocksResultV0) :
    Triple.Keeps (StampedSince pre n ts)
      (do r.deltas.forM (receiveDeltas cfg); r.traces.forM (receiveTraces cfg)) := by
  refine Triple.Keeps.bind' (Triple.Keeps.optionForM' fun buf => ?_) fun _ =>
    Triple.Keeps.optionForM' receiveTraces_stamped
  unfold receiveDeltas
  split
  · exact Triple.Keeps.throw'
  · exact Triple.Keeps.forM' fun delta _ => receiveTableDelta_stamped delta

/-- The events of a frame's payloads carry the head, and the timestamp of the
frame's block when it has one, else the timestamp held before. -/
theorem receivePayloads_stamped {r : GetBlocksResultV0} {s s' : Receiver}
    (h : receivePayloads cfg r s = .ok () s') :
    ∃ post, s'.published = s.published ++ post ∧
      (∀ b, r.block = some (.ok b) → ∀ e ∈ post, e.Stamped s.head b.timestamp) ∧
      (r.block = none → ∀ e ∈ post, e.Stamped s.head s.blockTimestamp) := by
  obtain ⟨⟨⟩, s₁, h₁, h₂⟩ := run_bind_eq_ok h
  rcases hb : r.block with _ | (e | b) <;> rw [hb] at h₁
  · cases h₁
    obtain ⟨-, -, post, hpost, hall⟩ := (deltasTraces_stamped r).holds_of_ok (StampedSince.start s) h₂
    exact ⟨post, hpost, nofun, fun _ => hall⟩
  · cases h₁
  · simp only [Option.forM, receiveBlock, run_get_bind, run_set_bind, run_publish] at h₁
    cases h₁
    have hblock : StampedSince s.published s.head b.timestamp
        { s with blockTimestamp := b.timestamp, published := s.published ++ [.block s.head s.irreversible b] } :=
      ⟨rfl, rfl, _, rfl, fun e he => by rw [List.mem_singleton.mp he]; exact ⟨rfl, rfl⟩⟩
    obtain ⟨-, -, post, hpost, hall⟩ := (deltasTraces_stamped r).holds_of_ok hblock h₂
    refine ⟨post, hpost, fun b' hb' => ?_, nofun⟩
    cases hb'
    exact hall

end Handlers

-- ===================================================== an accepted frame

/-- Every event an accepted frame publishes carries the frame's block number,
and the timestamp of its block payload, or, when it has none, the timestamp
the receiver held before the frame. -/
theorem receiveResult_stamps {cfg : Config} {res : GetBlocksResultV0} {tb : BlockPosition}
    {s s' : Receiver} (htb : res.thisBlock = some tb)
    (h : receiveResult cfg (.ok res) s = .ok true s') :
    ∃ post, s'.published = s.published ++ post ∧
      (∀ b, res.block = some (.ok b) → ∀ e ∈ post, e.Stamped tb.blockNum b.timestamp) ∧
      (res.block = none → ∀ e ∈ post, e.Stamped tb.blockNum s.blockTimestamp) := by
  obtain ⟨s₁, s₂, s₃, s₄, h₁, h₂, h₃, -, h₄, h₅⟩ := receiveResult_accepted htb h
  obtain ⟨hs₁, -⟩ := adjustRevision_ok h₁
  -- the fork check publishes at most the fork event, which carries neither field
  obtain ⟨fs, hfs, hfork⟩ : ∃ fs, s₂.published = s₁.published ++ fs ∧
      ∀ e ∈ fs, ∀ n ts, e.Stamped n ts := by
    by_cases hf : IsFork res tb s₁
    · obtain ⟨db, -, -, rfl⟩ := checkFork_fork hf h₂
      exact ⟨_, rfl, fun e he _ _ => by rw [List.mem_singleton.mp he]; trivial⟩
    · obtain ⟨rfl, -⟩ := checkFork_not_fork hf h₂
      exact ⟨[], (List.append_nil _).symm, nofun⟩
  have hts : s₂.blockTimestamp = s.blockTimestamp := calc
    s₂.blockTimestamp = s₁.blockTimestamp := (congrArg Receiver.blockTimestamp (checkFork_ok_eq h₂) :)
    _ = s.blockTimestamp := (congrArg Receiver.blockTimestamp hs₁ :)
  have hp₁ : s₁.published = s.published := (congrArg Receiver.published hs₁ :)
  obtain ⟨t, ht, hpay⟩ := applyBlock_ok h₃
  obtain ⟨blocks, rfl, -, -⟩ := addReceivedBlock_ok ht
  obtain ⟨post, hpost, hblock, hnone⟩ := receivePayloads_stamped hpay
  cases h₄
  cases h₅
  have hall : ∀ ts, (∀ e ∈ post, e.Stamped tb.blockNum ts) →
      ∀ e ∈ fs ++ post, e.Stamped tb.blockNum ts :=
    fun _ hp e he => (List.mem_append.mp he).elim (fun he => hfork e he _ _) (hp e)
  refine ⟨fs ++ post, ?_, fun b hb => hall _ (hblock b hb), fun hb => hall _ ?_⟩
  · calc s₃.published = s₂.published ++ post := hpost
      _ = s.published ++ (fs ++ post) := by rw [hfs, hp₁, List.append_assoc]
  · rw [← hts]
    exact hnone hb

/-- The first frame of a fresh store, for block 10 with its block: its events
carry block 10 and the block's timestamp. -/
theorem receiveResult_stamps_first_block :
    ∃ s', receiveResult (sampleConfig false) (blockFrame 10 10 none 5)
        (Sys.start (sampleConfig false)).recv = .ok true s' ∧
      ∃ post, s'.published = (Sys.start (sampleConfig false)).recv.published ++ post ∧
        (∀ b, (blockResult 10 10 none 5).block = some (.ok b) →
          ∀ e ∈ post, e.Stamped 10 b.timestamp) ∧
        ((blockResult 10 10 none 5).block = none →
          ∀ e ∈ post, e.Stamped 10 (Sys.start (sampleConfig false)).recv.blockTimestamp) := by
  obtain ⟨s', h⟩ : ∃ s', receiveResult (sampleConfig false) (blockFrame 10 10 none 5)
      (Sys.start (sampleConfig false)).recv = .ok true s' := ⟨_, rfl⟩
  exact ⟨s', h, receiveResult_stamps rfl h⟩

/-- Block 10 arrives with its block, whose header has timestamp 10; the frame
for block 11 then carries a trace and no block payload. It is accepted, and
its trace is stamped with block 11 and with block 10's timestamp. -/
theorem stale_timestamp_without_block :
    ∃ sys s', (Sys.start (sampleConfig false)).run (sampleConfig false)
        [.read 0 0, .frame (blockFrame 10 10 none 5), .read 0 0] = some sys ∧
      sys.recv.published = [.block 10 5 ⟨10⟩] ∧
      receiveResult (sampleConfig false)
        (.ok { blockResult 11 11 (some 10) 5 with
          block := none, traces := some (.ok [.ok ⟨7, []⟩]) }) sys.recv = .ok true s' ∧
      s'.published = [.block 10 5 ⟨10⟩, .transactionTrace 11 10 ⟨7, []⟩] := by
  have h : ((Sys.start (sampleConfig false)).run (sampleConfig false)
      [.read 0 0, .frame (blockFrame 10 10 none 5), .read 0 0]).map (fun sys =>
        (decide (sys.recv.published = [.block 10 5 ⟨10⟩]),
          (receiveResult (sampleConfig false)
            (.ok { blockResult 11 11 (some 10) 5 with
              block := none, traces := some (.ok [.ok ⟨7, []⟩]) }) >>= fun b =>
            get >>= fun t => pure (b, decide (t.published =
              [.block 10 5 ⟨10⟩, .transactionTrace 11 10 ⟨7, []⟩]))).run' sys.recv)) =
      some (true, some (true, true)) := by decide!
  obtain ⟨sys, hrun, hf⟩ := Option.map_eq_some'.mp h
  simp only [Prod.mk.injEq, decide_eq_true_eq] at hf
  obtain ⟨s', hr, hv⟩ := run_eq_ok_of_view hf.2
  exact ⟨sys, s', hrun, hf.1, hr, of_decide_eq_true hv⟩

-- ===================================================== the traces a frame publishes

variable {cfg : Config}

theorem forM_receiveTrace (traces : List TransactionTrace) (s : Receiver) :
    (traces.map Except.ok).forM (receiveTrace cfg) s =
      .ok () { s with
        published := s.published ++ ((traces.filter fun tr => !blacklisted cfg tr).map
          (Event.transactionTrace s.head s.blockTimestamp)) } := by
  induction traces generalizing s with
  | nil => simp
  | cons tr trs ih => cases hb : blacklisted cfg tr <;> simp [receiveTrace, hb, ih]

/-- Traces that decode: one event per trace whose first action is not
blacklisted, in order, stamped with the head and the block timestamp; none
without a subscriber. -/
theorem receiveTraces_published (traces : List TransactionTrace) (s : Receiver) :
    receiveTraces cfg (.ok (traces.map .ok)) s =
      .ok () { s with
        published := s.published ++
          if cfg.hasSubscribers .transactionTraces then
            (traces.filter fun tr => !blacklisted cfg tr).map
              (Event.transactionTrace s.head s.blockTimestamp)
          else [] } := by
  unfold receiveTraces
  split
  · exact forM_receiveTrace traces s
  · simp

end Chronicle
