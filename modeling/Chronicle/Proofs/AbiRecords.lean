/-
What a frame's `account` rows do to the contract ABI records.

`receive_deltas` hands every row of an `account` delta to its handler. A
present row with an empty ABI goes to `clear_contract_abi`, which removes the
account's `contract_abi_object`. A present row with an ABI goes to
`save_contract_abi`, which writes the object only once `abieos_set_abi_bin`
has accepted the bytes. A row that is not present, a deleted account, is
skipped. The other handlers (the variant checks, `contract_row` rows, the
events) never write the records.

So the records after a frame's deltas are a fold of its account rows, in
order (`receiveDeltas_abiRecords`), one row by `abiRecordAfter`. An ABI that
abieos rejects leaves the account's previous record in force, and so does
the deletion of the account. The rejection is reported on `abi_errors`; so is
a failure of `bin_to_native(abi_def)` on bytes abieos accepted, with the
record already written.

The statements carry the ABI context: every handler needs it to exist, and
keeps it existing (`RecordsAt`).
-/
import Chronicle.Receiver.System
import Chronicle.Proofs.Footprint

namespace Chronicle

-- ===================================================== the records a row leaves

/-- The records with `account`'s removed. -/
def removeRecord (m : Nat → Option Bytes) (account : Nat) : Nat → Option Bytes :=
  fun a => if a = account then none else m a

/-- The records after `save_contract_abi`: `account` gets `data` when abieos
accepts it, else nothing changes. -/
def abiSaved (cfg : Config) (m : Nat → Option Bytes) (account : Nat) (data : Bytes) :
    Nat → Option Bytes :=
  match cfg.abieos.setAbiBin data with
  | .ok () => fun a => if a = account then some data else m a
  | .error _ => m

/-- What one `account` row leaves of the records `m`. -/
def abiRecordAfter (cfg : Config) (m : Nat → Option Bytes) (row : Row) : Nat → Option Bytes :=
  match row.present, row.account with
  | true, .ok (acc, _) =>
    if acc.abi.isEmpty then removeRecord m acc.name else abiSaved cfg m acc.name acc.abi
  | _, _ => m

/-- What a frame's deltas leave of the records `m`: the rows of its `account`
deltas, in order. -/
def abiRecordsAfterDeltas (cfg : Config) (m : Nat → Option Bytes)
    (deltas : List TableDeltaV0) : Nat → Option Bytes :=
  deltas.foldl (fun m td => if td.name = "account" then td.rows.foldl (abiRecordAfter cfg) m else m) m

theorem abiRecordAfter_of_ok {cfg : Config} {m : Nat → Option Bytes} {row : Row}
    {acc : AccountObject} {w : Nat} (hp : row.present = true) (hacc : row.account = .ok (acc, w)) :
    abiRecordAfter cfg m row =
      if acc.abi.isEmpty then removeRecord m acc.name else abiSaved cfg m acc.name acc.abi := by
  simp only [abiRecordAfter, hp, hacc]

/-- The records a row leaves do not depend on how far its data was read. -/
theorem foldl_abiRecordAfter_pastVariant (cfg : Config) (m : Nat → Option Bytes) (rows : List Row) :
    (rows.map Row.pastVariant).foldl (abiRecordAfter cfg) m = rows.foldl (abiRecordAfter cfg) m := by
  rw [List.foldl_map]
  congr
  funext m row
  unfold Row.pastVariant
  split <;> rfl

-- ===================================================== the handlers

/-- The ABI records are `m`, and the ABI context exists. -/
def RecordsAt (m : Nat → Option Bytes) (t : Receiver) : Prop :=
  t.db.contents.contractAbis = m ∧ t.contractAbiCtxt.isSome

variable {cfg : Config} {m : Nat → Option Bytes}

/-- What an invariant kept on every exit says of the normal ones. -/
theorem Triple.Keeps.normal {α : Type} {I : Receiver → Prop} {x : RecvM α} (h : Triple.Keeps I x) :
    Triple I x (fun _ => I) (fun _ _ => True) :=
  h.conseq (fun _ h => h) (fun _ _ h => h) fun _ _ _ => trivial

theorem publish_records (e : Event) : Triple.Keeps (RecordsAt m) (publish e) := fun _ h => h

theorem initContractAbiCtxt_records : Triple.Keeps (RecordsAt m) initContractAbiCtxt :=
  fun _ h => ⟨h.1, rfl⟩

/-- `abieos_set_abi_bin` on an existing context returns abieos' verdict and
leaves the records. -/
theorem setAbiBin_records (a : Nat) (d : Bytes) :
    Triple (RecordsAt m) (setAbiBin cfg a d)
      (fun r t => RecordsAt m t ∧ r = cfg.abieos.setAbiBin d) (fun _ _ => False) := by
  refine Triple.get_bind' fun s hs => ?_
  split
  · rename_i hc
    rintro _ rfl
    simp [RecordsAt, hc] at hs
  · split <;> rintro _ rfl
    · exact ⟨hs, (by assumption : cfg.abieos.setAbiBin d = _).symm⟩
    · exact ⟨⟨hs.1, rfl⟩, (by assumption : cfg.abieos.setAbiBin d = _).symm⟩

theorem getContractAbiReady_records (a : Nat) :
    Triple.Keeps (RecordsAt m) (getContractAbiReady cfg a) := by
  refine Triple.Keeps.get_bind' fun _ _ => Triple.Keeps.ite' Triple.Keeps.pure' ?_
  split
  · exact Triple.bind' ((setAbiBin_records _ _).conseq (fun _ h => h) (fun _ _ h => h.1) nofun)
      fun _ => Triple.Keeps.bind' (Triple.Keeps.modify' fun _ h => h) fun _ => Triple.Keeps.pure'
  · exact Triple.Keeps.pure'

theorem removeRecord_of_none {a : Nat} (h : m a = none) : removeRecord m a = m := by
  funext a'
  by_cases ha : a' = a
  · rw [ha, h]
    simp [removeRecord]
  · simp [removeRecord, ha]

theorem clearContractAbi_records (a : Nat) :
    Triple (RecordsAt m) (clearContractAbi a) (fun _ => RecordsAt (removeRecord m a))
      (fun _ _ => True) := by
  refine Triple.get_bind_of' fun _ _ => Triple.ite'
    (fun _ => Triple.bind' initContractAbiCtxt_records.normal fun _ => ?_)
    (fun _ => Triple.bind' (M := fun _ => RecordsAt m) (Triple.pure' fun _ h => h) fun _ => ?_) <;>
  exact Triple.get_bind_of' fun s hs => Triple.ite'
    (fun _ => Triple.bind' (M := fun _ => RecordsAt (removeRecord m a))
      (Triple.set' fun _ _ => ⟨by rw [← hs.1]; rfl, hs.2⟩) fun _ => (publish_records _).normal)
    fun hnone => Triple.pure' fun _ ht =>
      ⟨ht.1.trans (removeRecord_of_none (by rw [← hs.1]; simpa using hnone)).symm, ht.2⟩

theorem installContractAbi_records (a : Nat) (d : Bytes) :
    Triple (RecordsAt m) (installContractAbi cfg a d) (fun _ => RecordsAt (abiSaved cfg m a d))
      (fun _ => RecordsAt (abiSaved cfg m a d)) := by
  refine Triple.bind' ((setAbiBin_records a d).conseq (fun _ h => h) (fun _ _ h => h)
    fun _ _ h => h.elim) fun r => ?_
  rcases r with e | ⟨⟩
  · refine Triple.throw' fun t ht => ?_
    rw [abiSaved, ← ht.2]
    exact ht.1
  · refine Triple.bind' (M := fun _ => RecordsAt (abiSaved cfg m a d))
      (Triple.modify' fun t ht => ⟨?_, ht.1.2⟩) fun _ => Triple.Keeps.ite' ?_ Triple.Keeps.pure'
    · rw [abiSaved, ← ht.2, ← ht.1.1]
      rfl
    · split
      · exact Triple.Keeps.throw'
      · exact Triple.Keeps.get_bind' fun _ _ => publish_records _

theorem saveContractAbi_records (a : Nat) (d : Bytes) :
    Triple (RecordsAt m) (saveContractAbi cfg a d) (fun _ => RecordsAt (abiSaved cfg m a d))
      (fun _ _ => True) := by
  refine Triple.get_bind_of' fun _ _ => Triple.ite'
    (fun _ => Triple.bind' initContractAbiCtxt_records.normal fun _ => ?_)
    (fun _ => Triple.bind' (M := fun _ => RecordsAt m) (Triple.pure' fun _ h => h) fun _ => ?_) <;>
  refine Triple.tryCatch' (installContractAbi_records a d) fun f => ?_ <;>
  cases f <;>
  first
  | exact Triple.throw' fun _ _ => trivial
  | exact Triple.get_bind_of' fun _ _ => (publish_records _).normal

theorem receiveAccountRow_records (row : Row) :
    Triple (RecordsAt m) (receiveAccountRow cfg row)
      (fun _ => RecordsAt (abiRecordAfter cfg m row)) (fun _ _ => True) := by
  unfold receiveAccountRow
  by_cases hp : row.present = true
  · rw [if_pos hp]
    split
    · exact Triple.throw' fun _ _ => trivial
    · rename_i acc _ hacc
      rw [abiRecordAfter_of_ok hp hacc]
      exact Triple.ite'
        (fun he => by rw [if_pos he]; exact Triple.bind' (clearContractAbi_records _) fun _ =>
          Triple.pure' fun _ h => h)
        fun he => by rw [if_neg he]; exact Triple.bind' (saveContractAbi_records _ _) fun _ =>
          Triple.pure' fun _ h => h
  · rw [if_neg hp]
    refine Triple.pure' fun t ht => ?_
    rwa [abiRecordAfter, Bool.eq_false_iff.mpr hp]

theorem receiveContractRow_records (row : Row) :
    Triple.Keeps (RecordsAt m) (receiveContractRow cfg row) :=
  receiveContractRow_keeps getContractAbiReady_records publish_records row

-- ===================================================== the deltas

theorem receiveTableDelta_records (td : TableDeltaV0) :
    Triple (RecordsAt m) (receiveTableDelta cfg (.ok td))
      (fun _ => RecordsAt (if td.name = "account" then td.rows.foldl (abiRecordAfter cfg) m else m))
      (fun _ _ => True) := by
  refine Triple.get_bind_of' fun _ _ => Triple.bind' ((Triple.mapM_map' fun row _ =>
    checkRowVariant_spec row).conseq (fun _ h => h) (fun _ _ h => h) fun _ _ _ => trivial)
    fun rows t ⟨ht, hrows⟩ => ?_
  subst hrows
  by_cases hn : td.name = "account"
  · rw [if_pos hn, if_pos hn, ← foldl_abiRecordAfter_pastVariant]
    exact Triple.bind' (Triple.mapM_foldl' (fun row _ m => receiveAccountRow_records row) m)
      (fun _ => (publish_records _).normal) t ht
  · rw [if_neg hn, if_neg hn]
    exact Triple.ite'
      (fun _ => Triple.bind' (Triple.Keeps.mapM' fun row _ => receiveContractRow_records row).normal
        fun _ => (publish_records _).normal)
      (fun _ => Triple.bind' (M := fun _ => RecordsAt m) (Triple.pure' fun _ h => h)
        fun _ => (publish_records _).normal) t ht

/-- Deltas that decode, on an existing ABI context: `receive_deltas` leaves
the records the account rows, in order, say. -/
theorem receiveDeltas_abiRecords {deltas : List TableDeltaV0} {s s' : Receiver}
    (hctxt : s.contractAbiCtxt.isSome)
    (h : receiveDeltas cfg (.ok (deltas.map .ok)) s = .ok () s') :
    s'.db.contents.contractAbis = abiRecordsAfterDeltas cfg s.db.contents.contractAbis deltas := by
  have hloop := Triple.forM_foldl' (R := RecordsAt) (E := fun _ _ => True)
    (g := fun m d => match d with
      | .ok td => if td.name = "account" then td.rows.foldl (abiRecordAfter cfg) m else m
      | .error _ => m)
    (l := deltas.map .ok) (f := receiveTableDelta cfg) (fun d hd c => ?_) s.db.contents.contractAbis
  · have := (hloop.ok_post ⟨rfl, hctxt⟩ h).1
    rwa [List.foldl_map] at this
  · obtain ⟨td, -, rfl⟩ := List.mem_map.mp hd
    exact receiveTableDelta_records td

/-- A freshly started receiver, and a frame whose one `account` delta sets
account 1's ABI. -/
theorem receiveDeltas_abiRecords_first_abi :
    (Sys.start (sampleConfig false)).recv.contractAbiCtxt.isSome ∧
      ∃ s', receiveDeltas (sampleConfig false)
          (.ok ([⟨"account", [⟨true, [0, 7], .ok 1, .ok (⟨1, [7]⟩, 1), .error ""⟩]⟩].map .ok))
          (Sys.start (sampleConfig false)).recv = .ok () s' ∧
        s'.db.contents.contractAbis = abiRecordsAfterDeltas (sampleConfig false)
          (Sys.start (sampleConfig false)).recv.db.contents.contractAbis
          [⟨"account", [⟨true, [0, 7], .ok 1, .ok (⟨1, [7]⟩, 1), .error ""⟩]⟩] := by
  have hctxt : (Sys.start (sampleConfig false)).recv.contractAbiCtxt.isSome := rfl
  obtain ⟨s', h⟩ : ∃ s', receiveDeltas (sampleConfig false)
      (.ok ([⟨"account", [⟨true, [0, 7], .ok 1, .ok (⟨1, [7]⟩, 1), .error ""⟩]⟩].map .ok))
      (Sys.start (sampleConfig false)).recv = .ok () s' := ⟨_, rfl⟩
  exact ⟨hctxt, s', h, receiveDeltas_abiRecords hctxt h⟩

end Chronicle
