/-
The store's contents in every reachable state, and the received-block ring
after an accepted frame.

# The contents invariant

`ContentsSound cfg c r` holds of contents `c` at revision `r`: the ring is
strictly increasing by block number, no entry of it is above `r`, and every
ABI record holds bytes abieos accepts. `StoreSound` asks it of the current
contents at the current revision and of each open session's contents at the
revision below it (`Store.Graded`), so that undoing, a rollback or a restart
lands on contents that have it too. Every phase of `receive_result` keeps it
on every exit (`receiveResult_sound`), and so does every other operation:
it holds in every reachable state (`storeSound_of_reachable`).

# The ring after a frame

"add the new block" inserts in order and refuses a duplicate; the truncation
then removes entries from the front while they are below `I`, the
irreversible block known before the frame. After an accepted frame for a
block `b > I` the ring is strictly increasing, holds `b` with the frame's id,
and has nothing below `I` (`ring_of_accepted`). The entries between `I` and
the frame's own last irreversible block stay (`ring_keeps_irreversible_entries`).

The truncation tests `itr->block_index` before `itr != idx.end()`, and is
safe only because the entry just created is not below `I`: the loop stops
there at the latest, having removed only entries below `I`, one per iteration
(`truncation_stops_at_new_block`), so that the ring step never dereferences
`idx.end()`, from any ring (`addReceivedBlock_defined`).

# Forks

A fork frame rolls the store back below `b` before the block's own work, so
after it the ring has nothing above `b`, holds `b` with the frame's id when
`b > I`, and the fork event precedes the block's events (`fork_of_accepted`).
The rollback goes one session further than the abandoned blocks (sessions are
numbered one above their blocks, see `Frame`) and takes block `b - 1`'s work
with it, its ABI records included (`fork_loses_parent_abi`).
-/
import Chronicle.Proofs.Step
import Chronicle.Proofs.Frame

namespace Chronicle

-- ===================================================== the ring's order

/-- Strictly increasing block numbers: the `by_blocknum` order of an index
whose `block_index` is unique. -/
def RingSorted (l : List ReceivedBlock) : Prop :=
  l.Pairwise fun x y => x.blockIndex < y.blockIndex

/-- In a sorted ring a block number names at most one entry. -/
theorem RingSorted.eq_of_blockIndex_eq : ∀ {l : List ReceivedBlock} {e e' : ReceivedBlock},
    RingSorted l → e ∈ l → e' ∈ l → e.blockIndex = e'.blockIndex → e = e'
  | x :: rest, e, e', hs, he, he', hidx => by
    have hx : ∀ {y}, y ∈ rest → x.blockIndex < y.blockIndex := List.rel_of_pairwise_cons hs
    rcases List.mem_cons.mp he with rfl | h₁ <;> rcases List.mem_cons.mp he' with rfl | h₂
    · rfl
    · have := hx h₂; omega
    · have := hx h₁; omega
    · exact RingSorted.eq_of_blockIndex_eq hs.of_cons h₁ h₂ hidx

variable {r : ReceivedBlock} {i : Nat} {e : ReceivedBlock}

theorem mem_insertReceivedBlock : ∀ {l l' : List ReceivedBlock},
    insertReceivedBlock r l = some l' → ∀ e, e ∈ l' ↔ e = r ∨ e ∈ l
  | [], l', h, e => by cases h; simp
  | x :: rest, l', h, e => by
    simp only [insertReceivedBlock] at h
    split_ifs at h
    · cases h; simp
    · obtain ⟨l'', h', rfl⟩ := Option.map_eq_some'.mp h
      simp only [List.mem_cons, mem_insertReceivedBlock h' e]
      exact or_left_comm

theorem insertReceivedBlock_sorted : ∀ {l l' : List ReceivedBlock},
    RingSorted l → insertReceivedBlock r l = some l' → RingSorted l'
  | [], l', _, h => by cases h; exact List.pairwise_singleton _ _
  | x :: rest, l', hs, h => by
    have hx : ∀ {y}, y ∈ rest → x.blockIndex < y.blockIndex := List.rel_of_pairwise_cons hs
    simp only [insertReceivedBlock] at h
    split_ifs at h with hlt heq
    · cases h
      refine List.Pairwise.cons (fun y hy => ?_) hs
      rcases List.mem_cons.mp hy with rfl | hy
      · exact hlt
      · exact Nat.lt_trans hlt (hx hy)
    · obtain ⟨l'', h', rfl⟩ := Option.map_eq_some'.mp h
      refine List.Pairwise.cons (fun y hy => ?_) (insertReceivedBlock_sorted hs.of_cons h')
      rcases (mem_insertReceivedBlock h' y).mp hy with rfl | hy
      · omega
      · exact hx hy

theorem truncateReceivedBlocks_suffix : ∀ {l l' : List ReceivedBlock},
    truncateReceivedBlocks i l = some l' → l' <:+ l
  | [], _, h => by cases h
  | x :: rest, l', h => by
    simp only [truncateReceivedBlocks] at h
    split_ifs at h
    · exact (truncateReceivedBlocks_suffix h).trans (List.suffix_cons _ _)
    · cases h; exact List.suffix_refl _

/-- The truncation stops at the first entry not below `i`; in a sorted ring
every entry after it is not below `i` either. -/
theorem le_of_mem_truncateReceivedBlocks : ∀ {l l' : List ReceivedBlock},
    RingSorted l → truncateReceivedBlocks i l = some l' → ∀ e ∈ l', i ≤ e.blockIndex
  | [], _, _, h => by cases h
  | x :: rest, l', hs, h => by
    simp only [truncateReceivedBlocks] at h
    split_ifs at h with hlt
    · exact le_of_mem_truncateReceivedBlocks hs.of_cons h
    · cases h
      intro e he
      rcases List.mem_cons.mp he with rfl | he
      · omega
      · have := List.rel_of_pairwise_cons hs he
        omega

theorem mem_truncateReceivedBlocks : ∀ {l l' : List ReceivedBlock},
    truncateReceivedBlocks i l = some l' → e ∈ l → i ≤ e.blockIndex → e ∈ l'
  | [], _, h, _, _ => by cases h
  | x :: rest, l', h, he, hi => by
    simp only [truncateReceivedBlocks] at h
    split_ifs at h with hlt
    · rcases List.mem_cons.mp he with rfl | he
      · omega
      · exact mem_truncateReceivedBlocks h he hi
    · cases h; exact he

/-- The truncation over a ring holding an entry `e` not below `i`: it removes
the entries in front of the first such entry, each below `i`, and stops there,
with `e` kept. -/
theorem truncateReceivedBlocks_of_mem : ∀ {l : List ReceivedBlock}, e ∈ l → i ≤ e.blockIndex →
    ∃ removed kept, l = removed ++ kept ∧ (∀ x ∈ removed, x.blockIndex < i) ∧ e ∈ kept ∧
      (∀ x ∈ kept.head?, i ≤ x.blockIndex) ∧ truncateReceivedBlocks i l = some kept
  | [], he, _ => absurd he (List.not_mem_nil _)
  | x :: rest, he, hi => by
    by_cases hx : x.blockIndex < i
    · have he' : e ∈ rest := (List.mem_cons.mp he).resolve_left fun h => by subst h; omega
      obtain ⟨removed, kept, rfl, hrem, hk, hhead, ht⟩ := truncateReceivedBlocks_of_mem he' hi
      refine ⟨x :: removed, kept, rfl, fun y hy => ?_, hk, hhead, ?_⟩
      · rcases List.mem_cons.mp hy with rfl | hy
        · exact hx
        · exact hrem y hy
      · rw [truncateReceivedBlocks, if_pos hx, ht]
    · refine ⟨[], x :: rest, rfl, nofun, he, ?_, by rw [truncateReceivedBlocks, if_neg hx]⟩
      rintro y ⟨⟩
      omega

/-- The ring step for a block above the irreversible one: once the new entry is
created, the truncation loop removes only entries below the irreversible
block, one per iteration, and stops at an entry not below it, the new entry at
the latest, which stays: it never reaches `idx.end()`. -/
theorem truncation_stops_at_new_block {irreversible : Nat} {ring inserted : List ReceivedBlock}
    (hr : irreversible < r.blockIndex) (hins : insertReceivedBlock r ring = some inserted) :
    ∃ removed kept, inserted = removed ++ kept ∧ (∀ x ∈ removed, x.blockIndex < irreversible) ∧
      r ∈ kept ∧ (∀ x ∈ kept.head?, irreversible ≤ x.blockIndex) ∧
      truncateReceivedBlocks irreversible inserted = some kept :=
  truncateReceivedBlocks_of_mem ((mem_insertReceivedBlock hins r).mpr (.inl rfl)) (Nat.le_of_lt hr)

/-- Block 10 over the ring 3, 5, 8, with block 6 irreversible: 3 and 5 are
removed, and the loop stops at 8. -/
theorem truncation_stops_at_new_block_ten :
    6 < (⟨10, 10⟩ : ReceivedBlock).blockIndex ∧
      insertReceivedBlock ⟨10, 10⟩ [⟨3, 3⟩, ⟨5, 5⟩, ⟨8, 8⟩] =
        some [⟨3, 3⟩, ⟨5, 5⟩, ⟨8, 8⟩, ⟨10, 10⟩] ∧
      ∃ removed kept, [⟨3, 3⟩, ⟨5, 5⟩, ⟨8, 8⟩, ⟨10, 10⟩] = removed ++ kept ∧
        (∀ x ∈ removed, x.blockIndex < 6) ∧ ⟨10, 10⟩ ∈ kept ∧
        (∀ x ∈ kept.head?, 6 ≤ x.blockIndex) ∧
        truncateReceivedBlocks 6 [⟨3, 3⟩, ⟨5, 5⟩, ⟨8, 8⟩, ⟨10, 10⟩] = some kept :=
  ⟨by decide, rfl, @truncation_stops_at_new_block ⟨10, 10⟩ 6 [⟨3, 3⟩, ⟨5, 5⟩, ⟨8, 8⟩] _
    (by decide) rfl⟩

/-- From any ring, the ring step of `receive_result` returns, or throws the
unique index's error with nothing changed: it never reaches undefined
behaviour. -/
theorem addReceivedBlock_defined (tb : BlockPosition) (s : Receiver) :
    (∃ s', addReceivedBlock tb s = .ok () s') ∨ addReceivedBlock tb s =
      .error (.error "could not insert object, most likely a uniqueness constraint was violated") s := by
  simp only [addReceivedBlock, run_get_bind]
  split_ifs with hlt
  · rcases hins : insertReceivedBlock ⟨tb.blockNum, tb.blockId⟩ s.db.contents.receivedBlocks
      with _ | inserted
    · exact .inr rfl
    · obtain ⟨-, kept, -, -, -, -, ht⟩ :=
        truncateReceivedBlocks_of_mem ((mem_insertReceivedBlock hins _).mpr (.inl rfl))
          (Nat.le_of_lt hlt)
      simp only [ht]
      exact .inl ⟨_, rfl⟩
  · exact .inl ⟨_, rfl⟩

-- ===================================================== the contents invariant

/-- What the contents at revision `r` satisfy. -/
structure ContentsSound (cfg : Config) (c : Contents) (r : Nat) : Prop where
  sorted : RingSorted c.receivedBlocks
  bounded : ∀ e ∈ c.receivedBlocks, e.blockIndex ≤ r
  accepted : ∀ a d, c.contractAbis a = some d → cfg.abieos.setAbiBin d = .ok ()

/-- Every contents the store holds, current or remembered by a session, is
sound at its revision. -/
def StoreSound (cfg : Config) (s : Receiver) : Prop :=
  Store.Graded (ContentsSound cfg) s.db

variable {cfg : Config} {s t : Receiver}

theorem ContentsSound.mono {c : Contents} {n n' : Nat} (h : ContentsSound cfg c n)
    (hn : n ≤ n') : ContentsSound cfg c n' :=
  ⟨h.sorted, fun e he => Nat.le_trans (h.bounded e he) hn, h.accepted⟩

theorem ContentsSound.succ {c : Contents} {n : Nat} (h : ContentsSound cfg c n) :
    ContentsSound cfg c (n + 1) :=
  h.mono (Nat.le_succ n)

/-- Payload handling keeps the invariant: the ring and the sessions stay, and
records are only removed or added with bytes abieos accepts. -/
theorem StoreSound.of_payloadFrame (h : StoreSound cfg s) (hf : PayloadFrame cfg s t) :
    StoreSound cfg t := by
  have hb := hf.toBlockFrame
  refine ⟨⟨?_, ?_, fun a d hd => (hf.records a d hd).elim (h.1.accepted a d) id⟩, ?_⟩
  · rw [hf.receivedBlocks]; exact h.1.sorted
  · rw [hf.receivedBlocks, hb.revision]; exact h.1.bounded
  · rw [hb.stack, hb.revision]; exact h.2

theorem StoreSound.undo (h : StoreSound cfg s) : StoreSound cfg { s with db := s.db.undo } :=
  Store.Graded.undo h

-- ===================================================== receive_result keeps it

variable {tb : BlockPosition} {res : GetBlocksResultV0}

section Graded

/-! The store phases of `receive_result` keep any grading of the store that a
higher revision still satisfies. -/

variable {Q : Contents → Nat → Prop}

theorem adjustRevision_graded (hQ : ∀ c r r', Q c r → r ≤ r' → Q c r') (b : Nat) :
    Triple (fun s => Store.Graded Q s.db) (adjustRevision b)
      (fun _ s => Store.Graded Q s.db ∧ b ≤ s.db.revision) (fun _ s => Store.Graded Q s.db) := by
  refine Triple.get_bind' fun s hs => Triple.ite' (fun hlt => ?_) fun hge =>
    Triple.pure' fun _ h => h ▸ ⟨hs, by omega⟩
  refine Triple.get_bind' fun _ h => ?_
  subst h
  split
  · rename_i db hdb
    obtain ⟨hnil, hc, hr, hstack⟩ := Store.setRevision_eq_ok hdb
    rintro _ rfl
    refine ⟨⟨?_, by rw [hstack]; trivial⟩, Nat.le_of_eq hr.symm⟩
    rw [hc, hr]
    exact hQ _ _ _ hs.1 (Nat.le_of_lt hlt)
  · rintro _ rfl; exact hs

theorem checkFork_graded :
    Triple (fun s => Store.Graded Q s.db ∧ tb.blockNum ≤ s.db.revision) (checkFork res tb)
      (fun _ s => Store.Graded Q s.db ∧ tb.blockNum ≤ s.db.revision + 1)
      (fun _ s => Store.Graded Q s.db) := by
  intro s hs
  cases h : checkFork res tb s with
  | ok u s' =>
    by_cases hf : IsFork res tb s
    · obtain ⟨db, hr, -, rfl⟩ := checkFork_fork hf h
      exact ⟨Store.Graded.rollback hs.1 hr, Nat.le_of_eq ((Store.rollback_revision hr).2 hs.2).symm⟩
    · obtain ⟨rfl, -⟩ := checkFork_not_fork hf h
      exact ⟨hs.1, by omega⟩
  | error f s' =>
    show Store.Graded Q s'.db
    rcases checkFork_error h with he | hr
    · rw [he]; exact hs.1
    · exact Store.Graded.rollback hs.1 hr

end Graded

theorem adjustRevision_sound (b : Nat) :
    Triple (StoreSound cfg) (adjustRevision b) (fun _ s => StoreSound cfg s ∧ b ≤ s.db.revision)
      (fun _ => StoreSound cfg) :=
  adjustRevision_graded (fun _ _ _ h hr => h.mono hr) b

theorem checkFork_sound :
    Triple (fun s => StoreSound cfg s ∧ tb.blockNum ≤ s.db.revision) (checkFork res tb)
      (fun _ s => StoreSound cfg s ∧ tb.blockNum ≤ s.db.revision + 1)
      (fun _ => StoreSound cfg) :=
  checkFork_graded

theorem addReceivedBlock_sound :
    Triple (fun s => StoreSound cfg s ∧ tb.blockNum ≤ s.db.revision) (addReceivedBlock tb)
      (fun _ => StoreSound cfg) (fun _ => StoreSound cfg) := by
  intro s hs
  cases h : addReceivedBlock tb s with
  | ok u s' =>
    obtain ⟨blocks, rfl, hins, hkeep⟩ := addReceivedBlock_ok h
    by_cases hlt : s.irreversible < tb.blockNum
    · obtain ⟨inserted, hi, ht⟩ := hins hlt
      have hsub := (truncateReceivedBlocks_suffix ht).sublist
      refine Store.Graded.modify hs.1 ⟨List.Pairwise.sublist hsub
        (insertReceivedBlock_sorted hs.1.1.sorted hi), fun e he => ?_, hs.1.1.accepted⟩
      rcases (mem_insertReceivedBlock hi e).mp (hsub.subset he) with rfl | he
      · exact hs.2
      · exact hs.1.1.bounded e he
    · rw [hkeep hlt]
      exact hs.1
  | error f s' => rw [addReceivedBlock_error h]; exact hs.1

theorem applyBlock_sound :
    Triple (fun s => StoreSound cfg s ∧ tb.blockNum ≤ s.db.revision) (applyBlock cfg res tb)
      (fun _ => StoreSound cfg) (fun _ => StoreSound cfg) :=
  Triple.bind' addReceivedBlock_sound fun _ =>
    Triple.Keeps.bind' (Triple.Keeps.modify' fun _ h => h) fun _ =>
      Triple.Keeps.of_rel (fun _ => receivePayloads_frame res) (PayloadFrame.refl cfg)
        fun _ _ h hf => h.of_payloadFrame hf

theorem decodeResult_keeps {I : Receiver → Prop} {frame : Frame} :
    Triple.Keeps I (decodeResult frame) := by
  unfold decodeResult
  split
  · exact Triple.Keeps.throw'
  · exact Triple.Keeps.pure'

/-- Every exit of `receive_result` leaves a sound store. -/
theorem receiveResult_sound (frame : Frame) :
    Triple.Keeps (StoreSound cfg) (receiveResult cfg frame) := by
  refine Triple.Keeps.bind' decodeResult_keeps fun r => ?_
  split
  · exact Triple.Keeps.pure'
  · refine Triple.bind' (adjustRevision_sound _) fun _ => Triple.bind' checkFork_sound fun _ =>
      Triple.bind' (M := fun _ s => StoreSound cfg s ∧ _ ≤ s.db.revision)
        (Triple.modify' fun s hs => ⟨hs.1.startUndoSession fun _ _ => ContentsSound.succ,
          by simpa using hs.2⟩) fun _ =>
      Triple.bind' (undoOnError_triple applyBlock_sound fun _ _ h => h.undo) fun _ =>
      Triple.Keeps.get_bind' fun _ _ => Triple.Keeps.ite'
        (Triple.Keeps.bind' (Triple.Keeps.modify' fun _ h => h.undo) fun _ => Triple.Keeps.pure')
        (Triple.Keeps.bind' (Triple.Keeps.modify' fun _ h => Store.Graded.modify h
            ⟨h.1.sorted, h.1.bounded, h.1.accepted⟩) fun _ =>
          Triple.Keeps.bind' (Triple.Keeps.modify' fun _ h => Store.Graded.commit h _)
            fun _ => Triple.Keeps.pure')

/-- The store of every reachable state is sound. -/
theorem storeSound_of_reachable {sys : Sys} (h : Reachable cfg sys) : StoreSound cfg sys.recv := by
  induction h with
  | start =>
    show Store.Graded _ (restart cfg Store.empty).db
    rw [restart_db]
    exact Store.Graded.undoAll ⟨⟨List.Pairwise.nil, nofun, fun _ _ h => nomatch h⟩, trivial⟩
  | step op _ hstep ih =>
    by_cases hp : op.IsPacing
    · obtain ⟨_, _, _, _, _, he⟩ := step_pacing hp hstep
      unfold StoreSound
      rw [he]
      exact ih
    · cases op with
      | frame f =>
        obtain ⟨-, ⟨hok, -⟩ | ⟨hok | ⟨e, herr⟩, -⟩⟩ := step_frame hstep
        · exact (receiveResult_sound f).holds_of_ok ih hok
        · exact (receiveResult_sound f).holds_of_ok ih hok
        · exact (receiveResult_sound f).holds_of_error ih herr
      | contractAbiCtxt a =>
        obtain ⟨b, hready, -⟩ := step_contractAbiCtxt hstep
        unfold StoreSound
        rw [getContractAbiReady_ok hready]
        exact ih
      | restart =>
        rw [step_restart hstep]
        unfold StoreSound
        rw [restart_db]
        exact ih.undoAll
      | _ => exact absurd trivial hp

/-- In every reachable state the ring of received blocks is strictly
increasing, no entry of it is above the store's revision, and every ABI record
holds bytes abieos accepted. -/
theorem reachable_store_sound {sys : Sys} (h : Reachable cfg sys) :
    RingSorted sys.recv.db.contents.receivedBlocks ∧
      (∀ e ∈ sys.recv.db.contents.receivedBlocks, e.blockIndex ≤ sys.recv.db.revision) ∧
      ∀ a d, sys.recv.db.contents.contractAbis a = some d → cfg.abieos.setAbiBin d = .ok () :=
  let ⟨⟨hs, hb, ha⟩, _⟩ := storeSound_of_reachable h
  ⟨hs, hb, ha⟩

/-- Blocks 10 and 11 from the start: the store after them is sound. -/
theorem reachable_store_sound_two_blocks :
    ∃ sys, (Sys.start (sampleConfig false)).run (sampleConfig false)
        [.read 0 0, .frame (blockFrame 10 10 none 5), .read 0 0,
          .frame (blockFrame 11 11 (some 10) 5)] = some sys ∧
      RingSorted sys.recv.db.contents.receivedBlocks ∧
      (∀ e ∈ sys.recv.db.contents.receivedBlocks, e.blockIndex ≤ sys.recv.db.revision) ∧
      ∀ a d, sys.recv.db.contents.contractAbis a = some d →
        (sampleConfig false).abieos.setAbiBin d = .ok () := by
  obtain ⟨sys, hrun⟩ : ∃ sys, (Sys.start (sampleConfig false)).run (sampleConfig false)
      [.read 0 0, .frame (blockFrame 10 10 none 5), .read 0 0,
        .frame (blockFrame 11 11 (some 10) 5)] = some sys := ⟨_, rfl⟩
  exact ⟨sys, hrun, reachable_store_sound (Reachable.run Reachable.start hrun)⟩

-- ===================================================== the ring after a frame

variable {s' : Receiver}

/-- An accepted frame, seen from the state its fork check left: that state is
sound and keeps the irreversible block known before; after a fork it lies
below `b` and has announced the fork. The block is then added to its ring in a
new session, and the payloads run from the new positions; saving the state and
committing change neither the ring nor the events. -/
theorem accepted_stages (hs : StoreSound cfg s) (htb : res.thisBlock = some tb)
    (h : receiveResult cfg (.ok res) s = .ok true s') :
    ∃ s₂ t s₃, StoreSound cfg s₂ ∧ s₂.irreversible = s.irreversible ∧
      (IsFork res tb s → s₂.db.revision < tb.blockNum ∧
        s₂.published = s.published ++ [.fork tb.blockNum (s.head - tb.blockNum) .network]) ∧
      addReceivedBlock tb { s₂ with db := s₂.db.startUndoSession } = .ok () t ∧
      receivePayloads cfg res { t with
        head := tb.blockNum, headId := tb.blockId
        irreversible := res.lastIrreversible.blockNum
        irreversibleId := res.lastIrreversible.blockId } = .ok () s₃ ∧
      s'.db.contents.receivedBlocks = s₃.db.contents.receivedBlocks ∧
      s'.published = s₃.published := by
  obtain ⟨s₁, s₂, s₃, s₄, h₁, h₂, h₃, -, h₄, h₅⟩ := receiveResult_accepted htb h
  obtain ⟨hs₁eq, -⟩ := adjustRevision_ok h₁
  have hs₂ := checkFork_sound.ok_post ((adjustRevision_sound tb.blockNum).ok_post hs h₁) h₂
  obtain ⟨t, ht, hpay⟩ := applyBlock_ok h₃
  cases h₄
  cases h₅
  refine ⟨s₂, t, s₃, hs₂.1, ?_, fun hf => ?_, ht, hpay, rfl, rfl⟩
  · rw [checkFork_ok_eq h₂, hs₁eq]
  · have hf₁ : IsFork res tb s₁ := by rw [hs₁eq]; exact hf
    obtain ⟨db, hr, -, rfl⟩ := checkFork_fork hf₁ h₂
    exact ⟨(Store.rollback_revision hr).1, by rw [hs₁eq]⟩

/-- The ring an accepted frame for `b > I` leaves: `b` with the frame's id, and
nothing below `I`. -/
theorem accepted_ring_entries (hs : StoreSound cfg s) (htb : res.thisBlock = some tb)
    (h : receiveResult cfg (.ok res) s = .ok true s') (hlt : s.irreversible < tb.blockNum) :
    ⟨tb.blockNum, tb.blockId⟩ ∈ s'.db.contents.receivedBlocks ∧
      ∀ e ∈ s'.db.contents.receivedBlocks, s.irreversible ≤ e.blockIndex := by
  obtain ⟨s₂, t, s₃, hs₂, hirr, -, ht, hpay, hring, -⟩ := accepted_stages hs htb h
  obtain ⟨blocks, rfl, hins, -⟩ := addReceivedBlock_ok ht
  obtain ⟨ins, hi, htr⟩ := hins (show s₂.irreversible < tb.blockNum by rw [hirr]; exact hlt)
  have hblocks : s'.db.contents.receivedBlocks = blocks :=
    hring.trans ((receivePayloads_frame res).holds_of_ok (PayloadFrame.refl cfg _) hpay).receivedBlocks
  rw [hblocks, ← hirr]
  exact ⟨mem_truncateReceivedBlocks htr ((mem_insertReceivedBlock hi _).mpr (.inl rfl))
      (Nat.le_of_lt (hirr ▸ hlt)),
    le_of_mem_truncateReceivedBlocks (insertReceivedBlock_sorted hs₂.1.sorted hi) htr⟩

/-- After an accepted frame for block `b`, from any reachable state, the ring
is strictly increasing by block number; when `b` is above the irreversible
block `I` known before the frame, it holds `b` with the frame's id and nothing
below `I`. -/
theorem ring_of_accepted {sys : Sys} (hreach : Reachable cfg sys) (htb : res.thisBlock = some tb)
    (h : receiveResult cfg (.ok res) sys.recv = .ok true s') :
    RingSorted s'.db.contents.receivedBlocks ∧
      (sys.recv.irreversible < tb.blockNum →
        ⟨tb.blockNum, tb.blockId⟩ ∈ s'.db.contents.receivedBlocks ∧
        ∀ e ∈ s'.db.contents.receivedBlocks, sys.recv.irreversible ≤ e.blockIndex) := by
  have hs := storeSound_of_reachable hreach
  exact ⟨((receiveResult_sound _).holds_of_ok hs h).1.sorted, accepted_ring_entries hs htb h⟩

/-- Blocks 10 and 11, the frame for 11 making block 11 irreversible, then
block 12: the ring held 10 and 11, and block 12's frame prunes block 10, below
the irreversible block 11 known before it. -/
theorem ring_of_accepted_twelve :
    ∃ sys s', Reachable (sampleConfig false) sys ∧ sys.recv.irreversible = 11 ∧
      sys.recv.db.contents.receivedBlocks = [⟨10, 10⟩, ⟨11, 11⟩] ∧
      (blockResult 12 12 (some 11) 11).thisBlock = some ⟨12, 12⟩ ∧
      receiveResult (sampleConfig false) (.ok (blockResult 12 12 (some 11) 11)) sys.recv =
        .ok true s' ∧
      s'.db.contents.receivedBlocks = [⟨11, 11⟩, ⟨12, 12⟩] ∧
      RingSorted s'.db.contents.receivedBlocks ∧
      (sys.recv.irreversible < 12 → ⟨12, 12⟩ ∈ s'.db.contents.receivedBlocks ∧
        ∀ e ∈ s'.db.contents.receivedBlocks, sys.recv.irreversible ≤ e.blockIndex) := by
  have hreach := Reachable.run Reachable.start (show (Sys.start (sampleConfig false)).run
    (sampleConfig false) [.read 0 0, .frame (blockFrame 10 10 none 5), .read 0 0,
      .frame (blockFrame 11 11 (some 10) 11), .read 0 0] = some _ from rfl)
  have htb : (blockResult 12 12 (some 11) 11).thisBlock = some ⟨12, 12⟩ := rfl
  exact ⟨_, _, hreach, rfl, rfl, htb, rfl, rfl, ring_of_accepted hreach htb rfl⟩

/-- Block 11 makes block 11 irreversible at once: the truncation compares with
block 5, the irreversible block known before, and block 10 stays in the ring
below the irreversible block just set. -/
theorem ring_keeps_irreversible_entries :
    ∃ sys, (Sys.start (sampleConfig false)).run (sampleConfig false)
        [.read 0 0, .frame (blockFrame 10 10 none 5),
         .read 0 0, .frame (blockFrame 11 11 (some 10) 11)] = some sys ∧
      sys.phase = .idle ∧ sys.recv.irreversible = 11 ∧
      sys.recv.db.contents.receivedBlocks = [⟨10, 10⟩, ⟨11, 11⟩] :=
  ⟨_, rfl, rfl, rfl, rfl⟩

-- ===================================================== forks

/-- An accepted fork frame for block `b`, from any reachable state: no entry of
the ring is above `b`; when `b` is above the irreversible block known before,
the ring's one entry for `b` carries the frame's id; and the fork event comes
right after every event published before the frame, and before the block's
own event. -/
theorem fork_of_accepted {sys : Sys} (hreach : Reachable cfg sys) (htb : res.thisBlock = some tb)
    (hf : IsFork res tb sys.recv) (h : receiveResult cfg (.ok res) sys.recv = .ok true s') :
    (∀ e ∈ s'.db.contents.receivedBlocks, e.blockIndex ≤ tb.blockNum) ∧
      (sys.recv.irreversible < tb.blockNum →
        ⟨tb.blockNum, tb.blockId⟩ ∈ s'.db.contents.receivedBlocks ∧
        ∀ e ∈ s'.db.contents.receivedBlocks, e.blockIndex = tb.blockNum →
          e = ⟨tb.blockNum, tb.blockId⟩) ∧
      ∃ post, s'.published =
          sys.recv.published ++ .fork tb.blockNum (sys.recv.head - tb.blockNum) .network :: post ∧
        ∀ blk, res.block = some (.ok blk) →
          .block tb.blockNum res.lastIrreversible.blockNum blk ∈ post := by
  have hs := storeSound_of_reachable hreach
  obtain ⟨s₂, t, s₃, hs₂, -, hfork, ht, hpay, hring, hpub⟩ := accepted_stages hs htb h
  obtain ⟨hrev, hpub₂⟩ := hfork hf
  have hframe := (receivePayloads_frame res).holds_of_ok (PayloadFrame.refl cfg _) hpay
  obtain ⟨blocks, rfl, hins, hkeep⟩ := addReceivedBlock_ok ht
  have hlow : ∀ e ∈ s₂.db.contents.receivedBlocks, e.blockIndex < tb.blockNum :=
    fun e he => Nat.lt_of_le_of_lt (hs₂.1.bounded e he) hrev
  refine ⟨fun e he => ?_, fun hlt => ?_, ?_⟩
  · -- the rolled-back ring lies below `b`, and only `b` is added
    rw [hring, hframe.receivedBlocks] at he
    by_cases hlt : s₂.irreversible < tb.blockNum
    · obtain ⟨ins, hi, htr⟩ := hins hlt
      rcases (mem_insertReceivedBlock hi e).mp ((truncateReceivedBlocks_suffix htr).subset he)
        with rfl | he
      · exact Nat.le_refl _
      · exact Nat.le_of_lt (hlow e he)
    · rw [hkeep hlt] at he
      exact Nat.le_of_lt (hlow e he)
  · obtain ⟨hmem, -⟩ := accepted_ring_entries hs htb h hlt
    exact ⟨hmem, fun e he hidx =>
      RingSorted.eq_of_blockIndex_eq ((receiveResult_sound _).holds_of_ok hs h).1.sorted he hmem hidx⟩
  · -- the fork event is the last event before the block's payloads
    by_cases hb : ∃ blk, res.block = some (.ok blk)
    · obtain ⟨blk, hb⟩ := hb
      obtain ⟨post, hpost⟩ := receivePayloads_block hb hpay
      refine ⟨.block tb.blockNum res.lastIrreversible.blockNum blk :: post, ?_, fun blk' hb' => ?_⟩
      · rw [hpub, hpost]
        show s₂.published ++ _ = _
        rw [hpub₂, List.append_assoc, List.singleton_append]
      · rw [hb] at hb'
        cases hb'
        exact List.mem_cons_self _ _
    · obtain ⟨post, hpost⟩ := hframe.published
      refine ⟨post, ?_, fun blk hb' => absurd ⟨blk, hb'⟩ hb⟩
      rw [hpub, ← hpost]
      show s₂.published ++ post = _
      rw [hpub₂, List.append_assoc, List.singleton_append]

/-- Blocks 10 and 11, then block 11 again on another branch: the fork is
accepted, the new block 11 is the ring's one entry for 11, and the fork is
announced before the block. -/
theorem fork_of_accepted_eleven :
    ∃ sys s', Reachable (sampleConfig false) sys ∧
      (blockResult 11 111 (some 10) 5).thisBlock = some ⟨11, 111⟩ ∧
      IsFork (blockResult 11 111 (some 10) 5) ⟨11, 111⟩ sys.recv ∧
      receiveResult (sampleConfig false) (.ok (blockResult 11 111 (some 10) 5)) sys.recv =
        .ok true s' ∧
      (∀ e ∈ s'.db.contents.receivedBlocks, e.blockIndex ≤ 11) ∧
      (sys.recv.irreversible < 11 → ⟨11, 111⟩ ∈ s'.db.contents.receivedBlocks ∧
        ∀ e ∈ s'.db.contents.receivedBlocks, e.blockIndex = 11 → e = ⟨11, 111⟩) ∧
      ∃ post, s'.published = sys.recv.published ++ .fork 11 (sys.recv.head - 11) .network :: post ∧
        ∀ blk, (blockResult 11 111 (some 10) 5).block = some (.ok blk) → .block 11 5 blk ∈ post := by
  have hreach := Reachable.run Reachable.start (show (Sys.start (sampleConfig false)).run
    (sampleConfig false) [.read 0 0, .frame (blockFrame 10 10 none 5), .read 0 0,
      .frame (blockFrame 11 11 (some 10) 5), .read 0 0] = some _ from rfl)
  have htb : (blockResult 11 111 (some 10) 5).thisBlock = some ⟨11, 111⟩ := rfl
  exact ⟨_, _, hreach, htb, ⟨by decide, by decide⟩, rfl,
    fork_of_accepted hreach htb ⟨by decide, by decide⟩ rfl⟩

/-- Block 10 sets the ABI of account 1 and block 11 follows it; block 11 then
arrives on another branch. The fork is accepted, with the ring holding the new
block 11 alone, but the rollback undid block 10's session as well, and account
1's ABI record is gone although block 10 stays on the chain and is not sent
again. -/
theorem fork_loses_parent_abi :
    ∃ sys s', (Sys.start (sampleConfig false)).run (sampleConfig false)
        [.read 0 0, .frame (abiFrame 10 10 none 5 1 [1]),
         .read 0 0, .frame (blockFrame 11 11 (some 10) 5), .read 0 0] = some sys ∧
      sys.phase = .reading ∧ sys.recv.db.contents.contractAbis 1 = some [1] ∧
      receiveResult (sampleConfig false) (blockFrame 11 111 (some 10) 5) sys.recv = .ok true s' ∧
      s'.head = 11 ∧ s'.db.contents.receivedBlocks = [⟨11, 111⟩] ∧
      s'.db.contents.contractAbis 1 = none := by
  have h : ((Sys.start (sampleConfig false)).run (sampleConfig false)
      [.read 0 0, .frame (abiFrame 10 10 none 5 1 [1]),
       .read 0 0, .frame (blockFrame 11 11 (some 10) 5), .read 0 0]).map (fun sys =>
        (decide (sys.phase = .reading ∧ sys.recv.db.contents.contractAbis 1 = some [1]),
          (receiveResult (sampleConfig false) (blockFrame 11 111 (some 10) 5) >>= fun b =>
            get >>= fun t => pure (b, decide (t.head = 11 ∧
              t.db.contents.receivedBlocks = [⟨11, 111⟩] ∧ t.db.contents.contractAbis 1 = none))).run'
            sys.recv)) = some (true, some (true, true)) := by decide!
  obtain ⟨sys, hrun, hf⟩ := Option.map_eq_some'.mp h
  simp only [Prod.mk.injEq, decide_eq_true_eq] at hf
  obtain ⟨s', hr, hv⟩ := run_eq_ok_of_view hf.2
  exact ⟨sys, s', hrun, hf.1.1, hf.1.2, hr, of_decide_eq_true hv⟩

end Chronicle
