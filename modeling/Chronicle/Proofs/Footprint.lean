/-
What the handlers of a block's payloads may change.

The payload handlers (`receive_block`, `receive_deltas` with its account and
contract rows and the ABI registry they drive, `receive_traces`) run inside the
block's undo session. They change the ABI records, the ABI context, the block
timestamp, and append events. They never touch the store's sessions or
revision, the state object, the received-block ring, the head and irreversible
positions, or the read loop's pacing.

# What is proved here

- `PayloadFrame cfg s t` says that of a state `t` reached from `s`, and that
  every ABI record of `t` was already one of `s` or holds bytes abieos
  accepts; every handler keeps it on every exit, normal or not, one lemma per
  handler, and `receivePayloads_frame` for all of them, through the one walk
  over the payloads that `receivePayloads_keeps` gives for any invariant.
- The block's own work, `applyBlock`, adds to that the ring and the new
  positions (`applyBlock_ok`): it too leaves the sessions, the revision and the
  pacing alone, and only appends events.
-/
import Chronicle.Receiver.Result
import Chronicle.Proofs.Triple

namespace Chronicle

/-- The part of the receiver a block's own work leaves alone: the store's
sessions and revision, and everything outside `receive_result`. -/
structure Untouched where
  revision : Nat
  stack : List Contents
  aborting : Bool
  exporterAckedBlock : Nat
  pauseTimeMsec : Nat
  slowdownRequested : Bool

/-- The part of the receiver the payload handlers leave alone: besides the
untouched part, the state object, the ring, and the positions. -/
structure Kept where
  untouched : Untouched
  state : Option StateObject
  receivedBlocks : List ReceivedBlock
  head : Nat
  headId : Nat
  irreversible : Nat
  irreversibleId : Nat

/-- The untouched part of a receiver. -/
def Receiver.untouched (s : Receiver) : Untouched :=
  ⟨s.db.revision, s.db.stack, s.aborting, s.exporterAckedBlock, s.pauseTimeMsec,
    s.slowdownRequested⟩

/-- The kept part of a receiver. -/
def Receiver.kept (s : Receiver) : Kept :=
  ⟨s.untouched, s.db.contents.state, s.db.contents.receivedBlocks, s.head, s.headId,
    s.irreversible, s.irreversibleId⟩

/-- `t` is `s` after some of a block's work: the untouched part is unchanged
and events were only appended. -/
def BlockFrame (s t : Receiver) : Prop :=
  t.untouched = s.untouched ∧ s.published <+: t.published

/-- `t` is `s` after some payload handling: the kept part is unchanged, events
were only appended, and every ABI record of `t` was one of `s` or holds bytes
abieos accepts. -/
structure PayloadFrame (cfg : Config) (s t : Receiver) : Prop where
  kept : t.kept = s.kept
  published : s.published <+: t.published
  records : ∀ a d, t.db.contents.contractAbis a = some d →
    s.db.contents.contractAbis a = some d ∨ cfg.abieos.setAbiBin d = .ok ()

theorem PayloadFrame.refl (cfg : Config) (s : Receiver) : PayloadFrame cfg s s :=
  ⟨rfl, List.prefix_refl _, fun _ _ => .inl⟩

/-- A step that keeps the kept part, only appends events, and only adds
records abieos accepts. -/
theorem PayloadFrame.step {cfg : Config} {s t t' : Receiver} (h : PayloadFrame cfg s t)
    (hk : t'.kept = t.kept) (hp : t.published <+: t'.published)
    (hr : ∀ a d, t'.db.contents.contractAbis a = some d →
      t.db.contents.contractAbis a = some d ∨ cfg.abieos.setAbiBin d = .ok ()) :
    PayloadFrame cfg s t' :=
  ⟨hk.trans h.kept, h.published.trans hp, fun a d hd => (hr a d hd).elim (h.records a d) .inr⟩

/-- A step that keeps the untouched part and only appends events. -/
theorem BlockFrame.step {s t t' : Receiver} (h : BlockFrame s t)
    (hk : t'.untouched = t.untouched) (hp : t.published <+: t'.published) : BlockFrame s t' :=
  ⟨hk.trans h.1, h.2.trans hp⟩

section Fields

variable {cfg : Config} {s t : Receiver}

theorem BlockFrame.revision (h : BlockFrame s t) : t.db.revision = s.db.revision :=
  congrArg Untouched.revision h.1

theorem BlockFrame.stack (h : BlockFrame s t) : t.db.stack = s.db.stack :=
  congrArg Untouched.stack h.1

theorem BlockFrame.aborting (h : BlockFrame s t) : t.aborting = s.aborting :=
  congrArg Untouched.aborting h.1

theorem PayloadFrame.toBlockFrame (h : PayloadFrame cfg s t) : BlockFrame s t :=
  ⟨congrArg Kept.untouched h.kept, h.published⟩

theorem PayloadFrame.receivedBlocks (h : PayloadFrame cfg s t) :
    t.db.contents.receivedBlocks = s.db.contents.receivedBlocks :=
  congrArg Kept.receivedBlocks h.kept

theorem PayloadFrame.state (h : PayloadFrame cfg s t) : t.db.contents.state = s.db.contents.state :=
  congrArg Kept.state h.kept

theorem PayloadFrame.head (h : PayloadFrame cfg s t) : t.head = s.head :=
  congrArg Kept.head h.kept

end Fields

variable {cfg : Config} {s₀ : Receiver}

-- ================================================= the ABI registry

theorem Contents.removeAbi_eq_some {c : Contents} {a a' : Nat} {d : Bytes}
    (h : (c.removeAbi a).contractAbis a' = some d) : c.contractAbis a' = some d := by
  dsimp only [Contents.removeAbi] at h
  split at h
  · cases h
  · exact h

theorem Contents.setAbi_eq_some {c : Contents} {a a' : Nat} {d d' : Bytes}
    (h : (c.setAbi a d).contractAbis a' = some d') : c.contractAbis a' = some d' ∨ d' = d := by
  dsimp only [Contents.setAbi] at h
  split at h
  · cases h; exact .inr rfl
  · exact .inl h

theorem publish_frame (e : Event) : Triple.Keeps (PayloadFrame cfg s₀) (publish e) :=
  fun _ h => h.step rfl (List.prefix_append _ _) fun _ _ => .inl

theorem initContractAbiCtxt_frame : Triple.Keeps (PayloadFrame cfg s₀) initContractAbiCtxt :=
  fun _ h => h.step rfl (List.prefix_refl _) fun _ _ => .inl

/-- `abieos_set_abi_bin` changes only the context, and reports success only
for bytes abieos accepts. -/
theorem setAbiBin_spec (a : Nat) (d : Bytes) :
    Triple (PayloadFrame cfg s₀) (setAbiBin cfg a d)
      (fun res t => PayloadFrame cfg s₀ t ∧ (res = .ok () → cfg.abieos.setAbiBin d = .ok ()))
      (fun _ => PayloadFrame cfg s₀) := by
  refine Triple.get_bind' fun s hs => ?_
  split
  · rintro _ rfl; exact hs
  · split
    · rintro _ rfl; exact ⟨hs, nofun⟩
    · rename_i hv
      rintro _ rfl
      exact ⟨hs.step rfl (List.prefix_refl _) fun _ _ => .inl, fun _ => hv⟩

theorem clearContractAbi_frame (a : Nat) :
    Triple.Keeps (PayloadFrame cfg s₀) (clearContractAbi a) := by
  refine Triple.Keeps.get_bind' fun _ _ => Triple.Keeps.ite'
    (Triple.Keeps.bind' initContractAbiCtxt_frame fun _ => ?_)
    (Triple.Keeps.bind' Triple.Keeps.pure' fun _ => ?_) <;>
  exact Triple.Keeps.get_bind' fun s hs => Triple.Keeps.ite'
    (Triple.Keeps.bind' (fun _ _ => hs.step rfl (List.prefix_refl _) fun _ _ hd =>
      .inl (Contents.removeAbi_eq_some hd)) fun _ => publish_frame _)
    Triple.Keeps.pure'

theorem installContractAbi_frame (a : Nat) (d : Bytes) :
    Triple.Keeps (PayloadFrame cfg s₀) (installContractAbi cfg a d) := by
  refine Triple.bind' (setAbiBin_spec a d) fun res => ?_
  rcases res with e | ⟨⟩
  · exact fun _ h => h.1
  · refine Triple.bind' (M := fun _ => PayloadFrame cfg s₀) (Triple.modify' fun t ht => ?_)
      fun _ => Triple.Keeps.ite' ?_ Triple.Keeps.pure'
    · exact ht.1.step rfl (List.prefix_refl _) fun _ _ hd =>
        (Contents.setAbi_eq_some hd).imp_right fun h => by rw [h]; exact ht.2 rfl
    · split
      · exact Triple.Keeps.throw'
      · exact Triple.Keeps.get_bind' fun _ _ => publish_frame _

theorem saveContractAbi_frame (a : Nat) (d : Bytes) :
    Triple.Keeps (PayloadFrame cfg s₀) (saveContractAbi cfg a d) := by
  refine Triple.Keeps.get_bind' fun _ _ => Triple.Keeps.ite'
    (Triple.Keeps.bind' initContractAbiCtxt_frame fun _ => ?_)
    (Triple.Keeps.bind' Triple.Keeps.pure' fun _ => ?_) <;>
  refine Triple.Keeps.tryCatch' (installContractAbi_frame a d) fun f => ?_ <;>
  cases f <;>
  first
  | exact Triple.Keeps.throw'
  | exact Triple.Keeps.get_bind' fun _ _ => publish_frame _

theorem getContractAbiReady_frame (a : Nat) :
    Triple.Keeps (PayloadFrame cfg s₀) (getContractAbiReady cfg a) := by
  refine Triple.Keeps.get_bind' fun _ _ => Triple.Keeps.ite' Triple.Keeps.pure' ?_
  split
  · exact Triple.bind' (setAbiBin_spec _ _) fun _ =>
      Triple.bind' (M := fun _ => PayloadFrame cfg s₀)
        (Triple.modify' fun _ h => h.1.step rfl (List.prefix_refl _) fun _ _ => .inl)
        fun _ => Triple.Keeps.pure'
  · exact Triple.Keeps.pure'

/-- A row handler keeps what the calls it makes keep. -/
theorem receiveAccountRow_keeps {I : Receiver → Prop}
    (hclear : ∀ a, Triple.Keeps I (clearContractAbi a))
    (hsave : ∀ a d, Triple.Keeps I (saveContractAbi cfg a d)) (row : Row) :
    Triple.Keeps I (receiveAccountRow cfg row) := by
  refine Triple.Keeps.ite' ?_ Triple.Keeps.pure'
  split
  · exact Triple.Keeps.throw'
  · exact Triple.Keeps.ite' (Triple.Keeps.bind' (hclear _) fun _ => Triple.Keeps.pure')
      (Triple.Keeps.bind' (hsave _ _) fun _ => Triple.Keeps.pure')

theorem receiveContractRow_keeps {I : Receiver → Prop}
    (hready : ∀ a, Triple.Keeps I (getContractAbiReady cfg a))
    (hpub : ∀ e, Triple.Keeps I (publish e)) (row : Row) :
    Triple.Keeps I (receiveContractRow cfg row) := by
  refine Triple.Keeps.get_bind' fun _ _ => ?_
  split
  · exact Triple.Keeps.throw'
  · exact Triple.Keeps.bind' (hready _) fun _ =>
      Triple.Keeps.ite' (Triple.Keeps.bind' (hpub _) fun _ => Triple.Keeps.pure')
        (Triple.Keeps.bind' (hpub _) fun _ => Triple.Keeps.pure')

theorem receiveAccountRow_frame (row : Row) :
    Triple.Keeps (PayloadFrame cfg s₀) (receiveAccountRow cfg row) :=
  receiveAccountRow_keeps clearContractAbi_frame saveContractAbi_frame row

theorem receiveContractRow_frame (row : Row) :
    Triple.Keeps (PayloadFrame cfg s₀) (receiveContractRow cfg row) :=
  receiveContractRow_keeps getContractAbiReady_frame publish_frame row

-- ================================================= the payloads

section Payloads

/-! The walk over a frame's payloads, once for every invariant its leaves keep:
announcing an event, setting the block timestamp, and the account and contract
rows. -/

variable {I : Receiver → Prop}

/-- The row as `check_variant` leaves it when the check passes. -/
def Row.pastVariant (row : Row) : Row :=
  match row.variantCheck with
  | .ok n => row.advance n
  | .error _ => row

/-- `check_variant` reads a row and nothing else: it returns the row past its
variant index, or throws. -/
theorem checkRowVariant_spec (row : Row) :
    Triple I (checkRowVariant row) (fun r s => I s ∧ r = row.pastVariant) (fun _ => I) := by
  unfold checkRowVariant Row.pastVariant
  split
  · exact Triple.throw' fun _ h => h
  · exact Triple.pure' fun _ h => ⟨h, by simp only [*]⟩

theorem checkRowVariant_keeps (row : Row) : Triple.Keeps I (checkRowVariant row) :=
  (checkRowVariant_spec row).conseq (fun _ h => h) (fun _ _ h => h.1) fun _ _ h => h

theorem receiveTableDelta_keeps (hpub : ∀ e, Triple.Keeps I (publish e))
    (hacc : ∀ row, Triple.Keeps I (receiveAccountRow cfg row))
    (hcon : ∀ row, Triple.Keeps I (receiveContractRow cfg row))
    (delta : Except String TableDeltaV0) : Triple.Keeps I (receiveTableDelta cfg delta) := by
  refine Triple.Keeps.get_bind' fun _ _ => ?_
  split
  · exact Triple.Keeps.throw'
  · exact Triple.Keeps.bind' (Triple.Keeps.mapM' fun row _ => checkRowVariant_keeps row)
      fun _ => Triple.Keeps.ite' (Triple.Keeps.bind' (Triple.Keeps.mapM' fun row _ => hacc row)
        fun _ => hpub _) (Triple.Keeps.ite' (Triple.Keeps.bind' (Triple.Keeps.mapM' fun row _ =>
          hcon row) fun _ => hpub _) (Triple.Keeps.bind' Triple.Keeps.pure' fun _ => hpub _))

theorem receiveDeltas_keeps (hpub : ∀ e, Triple.Keeps I (publish e))
    (hacc : ∀ row, Triple.Keeps I (receiveAccountRow cfg row))
    (hcon : ∀ row, Triple.Keeps I (receiveContractRow cfg row))
    (buf : ListPayload TableDeltaV0) : Triple.Keeps I (receiveDeltas cfg buf) := by
  unfold receiveDeltas
  split
  · exact Triple.Keeps.throw'
  · exact Triple.Keeps.forM' fun delta _ => receiveTableDelta_keeps hpub hacc hcon delta

theorem receiveBlock_keeps (hpub : ∀ e, Triple.Keeps I (publish e))
    (hts : ∀ s t, I s → I { s with blockTimestamp := t })
    (block : Except String SignedBlock) : Triple.Keeps I (receiveBlock block) := by
  refine Triple.Keeps.get_bind' fun s hs => ?_
  split
  · exact Triple.Keeps.throw'
  · exact Triple.Keeps.bind' (fun _ _ => hts s _ hs) fun _ => hpub _

theorem receiveTraces_keeps (hpub : ∀ e, Triple.Keeps I (publish e))
    (buf : ListPayload TransactionTrace) : Triple.Keeps I (receiveTraces cfg buf) := by
  refine Triple.Keeps.ite' ?_ Triple.Keeps.pure'
  split
  · exact Triple.Keeps.throw'
  · refine Triple.Keeps.forM' fun trace _ => ?_
    unfold receiveTrace
    split
    · exact Triple.Keeps.throw'
    · exact Triple.Keeps.ite' (Triple.Keeps.get_bind' fun _ _ => hpub _) Triple.Keeps.pure'

theorem receivePayloads_keeps (hpub : ∀ e, Triple.Keeps I (publish e))
    (hts : ∀ s t, I s → I { s with blockTimestamp := t })
    (hacc : ∀ row, Triple.Keeps I (receiveAccountRow cfg row))
    (hcon : ∀ row, Triple.Keeps I (receiveContractRow cfg row))
    (r : GetBlocksResultV0) : Triple.Keeps I (receivePayloads cfg r) :=
  Triple.Keeps.bind' (Triple.Keeps.optionForM' (receiveBlock_keeps hpub hts)) fun _ =>
    Triple.Keeps.bind' (Triple.Keeps.optionForM' (receiveDeltas_keeps hpub hacc hcon)) fun _ =>
      Triple.Keeps.optionForM' (receiveTraces_keeps hpub)

end Payloads

theorem blockTimestamp_frame {s : Receiver} (h : PayloadFrame cfg s₀ s) (t : Nat) :
    PayloadFrame cfg s₀ { s with blockTimestamp := t } :=
  h.step rfl (List.prefix_refl _) fun _ _ => .inl

/-- Every payload handler leaves the kept part alone, only appends events, and
only adds records abieos accepts. -/
theorem receivePayloads_frame (r : GetBlocksResultV0) :
    Triple.Keeps (PayloadFrame cfg s₀) (receivePayloads cfg r) :=
  receivePayloads_keeps publish_frame (fun _ _ h => blockTimestamp_frame h _)
    receiveAccountRow_frame receiveContractRow_frame r

-- ================================================= the block's own work

variable {r : GetBlocksResultV0} {tb : BlockPosition} {s s' : Receiver} {u : Unit}

/-- The ring after "add the new block" and "truncate old blocks": the
insertion and truncation for a block above the irreversible one, else the ring
as it was. -/
theorem addReceivedBlock_ok (h : addReceivedBlock tb s = .ok u s') :
    ∃ blocks, s' = { s with db := s.db.modify fun c => { c with receivedBlocks := blocks } } ∧
      (s.irreversible < tb.blockNum → ∃ inserted,
        insertReceivedBlock ⟨tb.blockNum, tb.blockId⟩ s.db.contents.receivedBlocks = some inserted ∧
        truncateReceivedBlocks s.irreversible inserted = some blocks) ∧
      (¬ s.irreversible < tb.blockNum → blocks = s.db.contents.receivedBlocks) := by
  simp only [addReceivedBlock, run_get_bind] at h
  by_cases hlt : s.irreversible < tb.blockNum
  · rw [if_pos hlt] at h
    rcases hins : insertReceivedBlock ⟨tb.blockNum, tb.blockId⟩ s.db.contents.receivedBlocks
      with _ | inserted
    · rw [hins] at h; cases h
    rcases htrunc : truncateReceivedBlocks s.irreversible inserted with _ | blocks
    · rw [hins] at h; dsimp only at h; rw [htrunc] at h; cases h
    rw [hins] at h; dsimp only at h; rw [htrunc] at h
    cases h
    exact ⟨blocks, rfl, fun _ => ⟨inserted, rfl, htrunc⟩, fun h => absurd hlt h⟩
  · rw [if_neg hlt] at h
    cases h
    exact ⟨_, rfl, fun h => absurd h hlt, fun _ => rfl⟩

/-- A ring step that throws has changed nothing. -/
theorem addReceivedBlock_error {f : Fault} (h : addReceivedBlock tb s = .error f s') : s' = s := by
  simp only [addReceivedBlock, run_get_bind] at h
  by_cases hlt : s.irreversible < tb.blockNum
  · rw [if_pos hlt] at h
    rcases hins : insertReceivedBlock ⟨tb.blockNum, tb.blockId⟩ s.db.contents.receivedBlocks
      with _ | inserted <;> rw [hins] at h
    · cases h; rfl
    · dsimp only at h
      rcases ht : truncateReceivedBlocks s.irreversible inserted with _ | blocks <;> rw [ht] at h
      · cases h; rfl
      · cases h
  · rw [if_neg hlt] at h
    cases h

theorem addReceivedBlock_frame : Triple.Keeps (BlockFrame s₀) (addReceivedBlock tb) := by
  refine Triple.Keeps.get_bind' fun s hs => Triple.Keeps.ite' ?_ Triple.Keeps.pure'
  split
  · exact Triple.Keeps.throw'
  · split
    · exact Triple.Keeps.throw'
    · exact fun _ _ => hs.step rfl (List.prefix_refl _)

theorem receivePayloads_blockFrame :
    Triple.Keeps (BlockFrame s₀) (receivePayloads cfg r) :=
  Triple.Keeps.of_rel (fun _ => receivePayloads_frame r) (PayloadFrame.refl cfg)
    fun _ _ h h' => h.step h'.toBlockFrame.1 h'.published

/-- A block's own work leaves the sessions, the revision and the pacing alone,
and only appends events, on every exit. -/
theorem applyBlock_frame : Triple.Keeps (BlockFrame s₀) (applyBlock cfg r tb) :=
  Triple.Keeps.bind' addReceivedBlock_frame fun _ =>
    Triple.Keeps.bind' (Triple.Keeps.modify' fun _ h => h.step rfl (List.prefix_refl _))
      fun _ => receivePayloads_blockFrame

/-- A block payload that decodes is announced first, with the new positions. -/
theorem receivePayloads_block {blk : SignedBlock} (hb : r.block = some (.ok blk))
    (h : receivePayloads cfg r s = .ok u s') :
    ∃ post, s'.published = s.published ++ .block s.head s.irreversible blk :: post := by
  simp only [receivePayloads, hb, Option.forM] at h
  obtain ⟨⟨⟩, s₁, h₁, h⟩ := run_bind_eq_ok h
  simp only [receiveBlock, run_get_bind, run_set_bind, run_publish] at h₁
  cases h₁
  obtain ⟨post, hpost⟩ := ((Triple.Keeps.bind' (Triple.Keeps.optionForM'
      (receiveDeltas_keeps publish_frame receiveAccountRow_frame receiveContractRow_frame))
    fun _ => Triple.Keeps.optionForM' (receiveTraces_keeps publish_frame)).holds_of_ok
      (PayloadFrame.refl cfg _) h).published
  exact ⟨post, by rw [← hpost]; simp⟩

/-- A block's own work, when it returns: the ring step, the new positions, then
payload handling. -/
theorem applyBlock_ok (h : applyBlock cfg r tb s = .ok u s') :
    ∃ s₁, addReceivedBlock tb s = .ok () s₁ ∧
      receivePayloads cfg r { s₁ with
        head := tb.blockNum, headId := tb.blockId
        irreversible := r.lastIrreversible.blockNum
        irreversibleId := r.lastIrreversible.blockId } = .ok () s' := by
  obtain ⟨⟨⟩, s₁, h₁, h⟩ := run_bind_eq_ok h
  obtain ⟨⟨⟩, s₂, h₂, h⟩ := run_bind_eq_ok h
  cases h₂
  exact ⟨s₁, h₁, h⟩

end Chronicle
