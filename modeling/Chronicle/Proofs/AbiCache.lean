/-
The abieos context as a cache of the ABI records.

# The invariant

`AbiCacheSound cfg s`: the context exists and is exactly the records of the
accounts in `contract_abi_imported` (`Receiver.loadedAbis`), every imported
account has a record, and every record holds bytes abieos accepts. abieos'
map can neither replace nor forget an entry, so the receiver keeps it right by
destroying the whole context (`init_contract_abi_ctxt`) before it replaces or
removes an ABI it has imported, and by importing an account only into a
context that does not hold it yet.

# What keeps it

Every handler that touches the registry keeps it on every exit, normal or not:
`clear_contract_abi` and `save_contract_abi` rebuild the context first when the
account was imported, the `try` block of `save_contract_abi` imports the new
ABI only once abieos accepted it, and the lazy load of
`get_contract_abi_ready` installs a record that, by the invariant, abieos
accepts. A fork rebuilds the context empty after its rollback, and
`load_state` starts with an empty one. So the invariant holds in every
reachable state whose read loop is not closed (`abiCacheSound_of_reachable`).
A frame that throws undoes its session, and with it the records it wrote, but
not the context: the closed state it leaves is outside the invariant until a
restart.

# What follows

`get_contract_abi_ready a` returns whether `a` has a record, and when it does
the context afterwards holds that record for `a`, byte for byte
(`getContractAbiReady_sound`): a contract row is decoded with its contract's
current ABI or not at all (`abiCache_of_reachable`).
-/
import Chronicle.Proofs.Ring

namespace Chronicle

-- ===================================================== the invariant

/-- What the context should hold: each imported account's record. -/
def Receiver.loadedAbis (s : Receiver) (a : Nat) : Option Bytes :=
  if s.contractAbiImported a then s.db.contents.contractAbis a else none

/-- The context mirrors the records of the imported accounts. -/
structure AbiCacheSound (cfg : Config) (s : Receiver) : Prop where
  mirrors : s.contractAbiCtxt = some s.loadedAbis
  loaded : ∀ a, s.contractAbiImported a = true → (s.db.contents.contractAbis a).isSome
  accepted : ∀ a d, s.db.contents.contractAbis a = some d → cfg.abieos.setAbiBin d = .ok ()

variable {cfg : Config} {s t : Receiver} {a : Nat} {d : Bytes}

namespace AbiCacheSound

/-- A state with the same context, imports and records. -/
theorem of_eq (h : AbiCacheSound cfg s) (hc : t.contractAbiCtxt = s.contractAbiCtxt)
    (hi : t.contractAbiImported = s.contractAbiImported)
    (hr : t.db.contents.contractAbis = s.db.contents.contractAbis) : AbiCacheSound cfg t := by
  have hl : t.loadedAbis = s.loadedAbis := funext fun a => by simp only [Receiver.loadedAbis, hi, hr]
  exact ⟨by rw [hc, h.mirrors, hl], by rw [hi, hr]; exact h.loaded, by rw [hr]; exact h.accepted⟩

/-- An empty context with nothing imported, over records abieos accepts. -/
theorem of_empty (hc : t.contractAbiCtxt = some fun _ => none)
    (hi : ∀ a, t.contractAbiImported a = false)
    (hr : ∀ a d, t.db.contents.contractAbis a = some d → cfg.abieos.setAbiBin d = .ok ()) :
    AbiCacheSound cfg t where
  mirrors := by
    rw [hc]
    congr 1
    funext a
    simp [Receiver.loadedAbis, hi]
  loaded a ha := by rw [hi a] at ha; cases ha
  accepted := hr

/-- Importing `a` with bytes abieos accepts, into a context that does not hold
it, with the records holding those bytes for `a`. -/
theorem load (h : AbiCacheSound cfg s) (ha : s.contractAbiImported a = false)
    (hv : cfg.abieos.setAbiBin d = .ok ())
    (hc : t.contractAbiCtxt = some (insertAbi s.loadedAbis a d))
    (hi : t.contractAbiImported = insertImported s.contractAbiImported a)
    (hr : t.db.contents.contractAbis =
      fun a' => if a' = a then some d else s.db.contents.contractAbis a') :
    AbiCacheSound cfg t where
  mirrors := by
    rw [hc]
    congr 1
    funext a'
    by_cases h' : a' = a
    · subst h'
      simp [insertAbi, Receiver.loadedAbis, insertImported, hi, hr, ha]
    · simp [insertAbi, Receiver.loadedAbis, insertImported, hi, hr, h']
  loaded a' ha' := by
    rw [hr]
    by_cases h' : a' = a
    · simp [h']
    · rw [hi] at ha'
      simpa [h'] using h.loaded a' (by simpa [insertImported, h'] using ha')
  accepted a' d' hd := by
    rw [hr] at hd
    dsimp only at hd
    split at hd
    · cases hd; exact hv
    · exact h.accepted a' d' hd

/-- Removing the record of an account that is not imported. -/
theorem remove (h : AbiCacheSound cfg s) (ha : s.contractAbiImported a = false) :
    AbiCacheSound cfg { s with db := s.db.modify (·.removeAbi a) } where
  mirrors := by
    rw [h.mirrors]
    congr 1
    funext a'
    by_cases h' : a' = a
    · subst h'
      simp [Receiver.loadedAbis, Contents.removeAbi, ha]
    · simp [Receiver.loadedAbis, Contents.removeAbi, h']
  loaded a' ha' := by
    have h' : a' ≠ a := by rintro rfl; rw [ha] at ha'; cases ha'
    simpa [Contents.removeAbi, h'] using h.loaded a' ha'
  accepted a' d' hd := h.accepted a' d' (Contents.removeAbi_eq_some hd)

end AbiCacheSound

-- ===================================================== the registry keeps it

theorem publish_sound (e : Event) : Triple.Keeps (AbiCacheSound cfg) (publish e) :=
  fun _ h => h.of_eq rfl rfl rfl

/-- `init_contract_abi_ctxt` over a sound state: still sound, nothing imported. -/
theorem initContractAbiCtxt_sound :
    Triple (AbiCacheSound cfg) initContractAbiCtxt
      (fun _ t => AbiCacheSound cfg t ∧ ∀ a, t.contractAbiImported a = false)
      (fun _ => AbiCacheSound cfg) := by
  intro s hs
  simp only [initContractAbiCtxt, run_modify]
  exact ⟨.of_empty rfl (fun _ => by simp [hs.mirrors]) hs.accepted, fun _ => by simp [hs.mirrors]⟩

/-- The opening of `clear_contract_abi` and `save_contract_abi`: rebuild the
context first when `a` was imported, so that the rest runs with `a` not
imported. -/
theorem resetIfImported_sound {jp : PUnit → RecvM Unit} (hs : AbiCacheSound cfg s)
    (hjp : Triple (fun t => AbiCacheSound cfg t ∧ t.contractAbiImported a = false) (jp ⟨⟩)
      (fun _ => AbiCacheSound cfg) (fun _ => AbiCacheSound cfg)) :
    Triple (· = s)
      (if s.contractAbiImported a then initContractAbiCtxt >>= jp else pure ⟨⟩ >>= jp)
      (fun _ => AbiCacheSound cfg) (fun _ => AbiCacheSound cfg) :=
  Triple.ite' (fun _ => Triple.bind' (initContractAbiCtxt_sound.conseq (fun _ ht => ht ▸ hs)
      (fun _ _ h => ⟨h.1, h.2 a⟩) fun _ _ => id) fun _ => hjp)
    fun hi => Triple.bind' (Triple.pure' fun _ ht => ht ▸ ⟨hs, by simpa using hi⟩) fun _ => hjp

theorem clearContractAbi_sound (a : Nat) :
    Triple.Keeps (AbiCacheSound cfg) (clearContractAbi a) := by
  refine Triple.get_bind' fun s hs => resetIfImported_sound hs ?_
  exact Triple.get_bind' fun t ht => Triple.ite'
    (fun _ => Triple.bind' (Triple.set' fun _ _ => ht.1.remove ht.2) fun _ => publish_sound _)
    fun _ => Triple.pure' fun _ h => h ▸ ht.1

/-- The `try` block of `save_contract_abi`, for an account not imported. -/
theorem installContractAbi_sound (a : Nat) (d : Bytes) :
    Triple (fun t => AbiCacheSound cfg t ∧ t.contractAbiImported a = false)
      (installContractAbi cfg a d) (fun _ => AbiCacheSound cfg) (fun _ => AbiCacheSound cfg) := by
  rintro s ⟨hs, ha⟩
  simp only [installContractAbi, setAbiBin, bind_assoc, run_get_bind, hs.mirrors]
  cases hv : cfg.abieos.setAbiBin d with
  | error e => exact hs
  | ok u =>
    simp only [run_set_bind, run_pure_bind, run_modify_bind]
    refine Triple.Keeps.ite' ?_ Triple.Keeps.pure' _ (hs.load ha hv rfl rfl rfl)
    split
    · exact Triple.Keeps.throw'
    · exact Triple.Keeps.get_bind' fun _ _ => publish_sound _

theorem saveContractAbi_sound (a : Nat) (d : Bytes) :
    Triple.Keeps (AbiCacheSound cfg) (saveContractAbi cfg a d) := by
  refine Triple.get_bind' fun s hs => resetIfImported_sound hs
    (Triple.tryCatch' (installContractAbi_sound a d) fun f => ?_)
  cases f
  · exact Triple.Keeps.get_bind' fun _ _ => publish_sound _
  all_goals exact Triple.Keeps.throw'

/-- `get_contract_abi_ready` over a sound state returns whether the account
has a record, keeps the invariant, and leaves the record in the context when
there is one. -/
theorem getContractAbiReady_sound (h : AbiCacheSound cfg s) (a : Nat) :
    ∃ t, getContractAbiReady cfg a s = .ok (s.db.contents.contractAbis a).isSome t ∧
      AbiCacheSound cfg t ∧ t.db = s.db ∧
      ((s.db.contents.contractAbis a).isSome →
        ∃ ctxt, t.contractAbiCtxt = some ctxt ∧ ctxt a = s.db.contents.contractAbis a) := by
  simp only [getContractAbiReady, run_get_bind]
  by_cases hi : s.contractAbiImported a = true
  · rw [if_pos hi, h.loaded a hi]
    exact ⟨s, rfl, h, rfl, fun _ => ⟨_, h.mirrors, by simp [Receiver.loadedAbis, hi]⟩⟩
  · have hi : s.contractAbiImported a = false := by simpa using hi
    rw [if_neg (by simp [hi])]
    cases hr : s.db.contents.contractAbis a with
    | none => exact ⟨s, rfl, h, rfl, nofun⟩
    | some d =>
      have hv := h.accepted a d hr
      simp only [setAbiBin, bind_assoc, run_get_bind, h.mirrors, hv, run_pure_bind, run_set_bind,
        run_modify_bind, run_pure, Option.isSome_some]
      have hsame : s.db.contents.contractAbis =
          fun a' => if a' = a then some d else s.db.contents.contractAbis a' := by
        funext a'
        split
        · subst a'; exact hr
        · rfl
      exact ⟨_, rfl, h.load hi hv rfl rfl hsame, rfl, fun _ =>
        ⟨_, rfl, by simp [insertAbi, Receiver.loadedAbis, hi]⟩⟩

theorem getContractAbiReady_keeps (a : Nat) :
    Triple.Keeps (AbiCacheSound cfg) (getContractAbiReady cfg a) := by
  intro s hs
  obtain ⟨t, ht, hts, -⟩ := getContractAbiReady_sound hs a
  rw [ht]
  exact hts

theorem receiveAccountRow_sound (row : Row) :
    Triple.Keeps (AbiCacheSound cfg) (receiveAccountRow cfg row) :=
  receiveAccountRow_keeps clearContractAbi_sound saveContractAbi_sound row

theorem receiveContractRow_sound (row : Row) :
    Triple.Keeps (AbiCacheSound cfg) (receiveContractRow cfg row) :=
  receiveContractRow_keeps getContractAbiReady_keeps publish_sound row

/-- Every payload handler keeps the context a mirror of the records. -/
theorem receivePayloads_sound (r : GetBlocksResultV0) :
    Triple.Keeps (AbiCacheSound cfg) (receivePayloads cfg r) :=
  receivePayloads_keeps publish_sound (fun _ _ h => h.of_eq rfl rfl rfl)
    receiveAccountRow_sound receiveContractRow_sound r

-- ===================================================== frames and restarts

/-- An accepted frame keeps the invariant: a fork rebuilds the context empty
over the rolled-back records, and the block's own work keeps it. -/
theorem receiveResult_abiCache {f : Frame} (hs : StoreSound cfg s) (ha : AbiCacheSound cfg s)
    {s' : Receiver} (h : receiveResult cfg f s = .ok true s') : AbiCacheSound cfg s' := by
  rcases f with e | res
  · cases h
  rcases htb : res.thisBlock with _ | tb
  · simp only [receiveResult, decodeResult, run_pure_bind, htb, run_pure] at h
    cases h
    exact ha
  obtain ⟨s₁, s₂, s₃, s₄, h₁, h₂, h₃, -, h₄, h₅⟩ := receiveResult_accepted htb h
  obtain ⟨hs₁eq, hc₁, -⟩ := adjustRevision_ok h₁
  have ha₁ : AbiCacheSound cfg s₁ := ha.of_eq (by rw [hs₁eq]) (by rw [hs₁eq]) (by rw [hc₁])
  have ha₂ : AbiCacheSound cfg s₂ := by
    by_cases hf : IsFork res tb s₁
    · have hs₂ := checkFork_sound.ok_post ((adjustRevision_sound tb.blockNum).ok_post hs h₁) h₂
      obtain ⟨db, -, -, rfl⟩ := checkFork_fork hf h₂
      exact AbiCacheSound.of_empty rfl (fun _ => by simp [ha₁.mirrors]) hs₂.1.1.accepted
    · obtain ⟨rfl, -⟩ := checkFork_not_fork hf h₂
      exact ha₁
  obtain ⟨t, ht, hpay⟩ := applyBlock_ok h₃
  obtain ⟨blocks, rfl, -⟩ := addReceivedBlock_ok ht
  have ha₃ := (receivePayloads_sound res).holds_of_ok (by exact ha₂.of_eq rfl rfl rfl) hpay
  cases h₄
  cases h₅
  exact ha₃.of_eq rfl rfl rfl

/-- `load_state` starts with an empty context, over the committed records. -/
theorem restart_abiCache {db : Store} (hs : StoreSound cfg (restart cfg db)) :
    AbiCacheSound cfg (restart cfg db) :=
  AbiCacheSound.of_empty (by rw [restart_eq])
    (fun _ => by rw [restart_eq]; cases db.undoAll.contents.state <;> rfl) hs.1.accepted

/-- The context mirrors the records in every reachable state whose read loop is
not closed. -/
theorem abiCacheSound_of_reachable {sys : Sys} (hreach : Reachable cfg sys) :
    sys.phase ≠ .closed → AbiCacheSound cfg sys.recv := by
  induction hreach with
  | start => exact fun _ => restart_abiCache (storeSound_of_reachable Reachable.start)
  | step op hr hstep ih =>
    intro hopen
    by_cases hop : op = .restart
    · subst hop
      have hs' := storeSound_of_reachable (hr.step _ hstep)
      rw [step_restart hstep] at hs' ⊢
      exact restart_abiCache hs'
    have ih := ih fun hc => hopen (step_closed hstep hc hop)
    by_cases hp : op.IsPacing
    · obtain ⟨_, _, _, _, _, he⟩ := step_pacing hp hstep
      exact ih.of_eq (by rw [he]) (by rw [he]) (by rw [he])
    cases op with
    | frame f =>
      obtain ⟨-, ⟨hok, -⟩ | ⟨-, hc⟩⟩ := step_frame hstep
      · exact receiveResult_abiCache (storeSound_of_reachable hr) ih hok
      · exact absurd hc hopen
    | contractAbiCtxt a =>
      obtain ⟨b, hready, -⟩ := step_contractAbiCtxt hstep
      obtain ⟨t, ht, hts, -⟩ := getContractAbiReady_sound ih a
      rw [ht] at hready
      cases hready
      exact hts
    | restart => exact absurd rfl hop
    | _ => exact absurd trivial hp

/-- In every reachable state whose read loop is not closed, the context holds
exactly the records of the imported accounts, each imported account has a
record, and `get_contract_abi_ready a` answers whether `a` has a record, with
that record in the context for `a` afterwards. -/
theorem abiCache_of_reachable {sys : Sys} (hreach : Reachable cfg sys)
    (hopen : sys.phase ≠ .closed) :
    sys.recv.contractAbiCtxt = some sys.recv.loadedAbis ∧
      (∀ a, sys.recv.contractAbiImported a = true →
        (sys.recv.db.contents.contractAbis a).isSome) ∧
      ∀ a, ∃ t, getContractAbiReady cfg a sys.recv =
          .ok (sys.recv.db.contents.contractAbis a).isSome t ∧
        ((sys.recv.db.contents.contractAbis a).isSome →
          ∃ ctxt, t.contractAbiCtxt = some ctxt ∧ ctxt a = sys.recv.db.contents.contractAbis a) := by
  have h := abiCacheSound_of_reachable hreach hopen
  refine ⟨h.mirrors, h.loaded, fun a => ?_⟩
  obtain ⟨t, ht, -, -, hctxt⟩ := getContractAbiReady_sound h a
  exact ⟨t, ht, hctxt⟩

/-- Block 10, irreversible at once, sets account 1's ABI; a restart rebuilds
the context empty, and the exporter's `get_contract_abi_ctxt` for account 1
imports that ABI again. -/
theorem abiCache_of_reachable_after_restart :
    ∃ sys, (Sys.start (sampleConfig false)).run (sampleConfig false)
        [.read 0 0, .frame (abiFrame 10 10 none 11 1 [7]), .restart, .contractAbiCtxt 1] =
          some sys ∧
      sys.phase ≠ .closed ∧ sys.recv.contractAbiImported 1 = true ∧
      sys.recv.db.contents.contractAbis 1 = some [7] ∧
      sys.recv.contractAbiCtxt = some sys.recv.loadedAbis ∧
      (∀ a, sys.recv.contractAbiImported a = true →
        (sys.recv.db.contents.contractAbis a).isSome) ∧
      ∀ a, ∃ t, getContractAbiReady (sampleConfig false) a sys.recv =
          .ok (sys.recv.db.contents.contractAbis a).isSome t ∧
        ((sys.recv.db.contents.contractAbis a).isSome →
          ∃ ctxt, t.contractAbiCtxt = some ctxt ∧ ctxt a = sys.recv.db.contents.contractAbis a) := by
  have h : ((Sys.start (sampleConfig false)).run (sampleConfig false)
      [.read 0 0, .frame (abiFrame 10 10 none 11 1 [7]), .restart, .contractAbiCtxt 1]).map
        (fun sys => (decide (sys.phase ≠ .closed), sys.recv.contractAbiImported 1,
          sys.recv.db.contents.contractAbis 1)) = some (true, true, some [7]) := by decide!
  obtain ⟨sys, hrun, hf⟩ := Option.map_eq_some'.mp h
  simp only [Prod.mk.injEq, decide_eq_true_eq] at hf
  exact ⟨sys, hrun, hf.1, hf.2.1, hf.2.2,
    abiCache_of_reachable (Reachable.run Reachable.start hrun) hf.1⟩

end Chronicle
