/-
The receiver as a running system. A process starts over whatever database it
finds: `start` runs `load_state`, which undoes every session that was not
committed, before it connects. From then on the state moves by frames, passes
of the read loop, the exporter's calls, and restarts.

The read loop's control flow is the phase. `continue_read` starts a read only
when `check_pause` lets it (`idle` to `reading`); the frame that arrives goes
to `receive_result` (back to `idle`); a frame that throws, hangs or is aborted
leaves the socket closed (`closed`), and only a restart reads again. The
exporter's `abort_receiver` closes the socket too, but a read already started
may still deliver a frame that had arrived, which `receive_result` then drops
because `aborting` is set. The exporter's calls run between the reactor's
callbacks in any phase. A restart
is a new process over the same database: every member of
`receiver_plugin_impl` starts from its initializer.
-/
import Chronicle.Receiver.Pause

namespace Chronicle

/-- `load_state`. -/
def loadState (cfg : Config) : RecvM Unit := do
  let depth := (← get).db.stack.length
  modify fun s => { s with db := s.db.undoAll }
  let s ← get
  if let some o := s.db.contents.state then
    set { s with
      head := o.head, headId := o.headId
      irreversible := o.irreversible, irreversibleId := o.irreversibleId }
  if 0 < depth then
    let s ← get
    publish (.fork s.head depth .restart)
  if cfg.exporterWillAck then
    modify fun s => { s with exporterAckedBlock := s.head }
  initContractAbiCtxt

/-- The receiver of a process started over the database `db`. -/
def restart (cfg : Config) (db : Store) : Receiver :=
  match loadState cfg (Receiver.init db) with
  | .ok _ s => s
  | .error _ s => s

/-- Where the read loop stands. -/
inductive Phase
  | idle
  | reading
  | closed
  deriving DecidableEq, Repr

/-- The receiver and its read loop. -/
structure Sys where
  recv : Receiver
  phase : Phase

/-- What can happen next. -/
inductive Op
  /-- `continue_read`, once the application has run `handled` of the handlers
  the receiver's publishes posted, while other plugins have `other` entries
  queued. -/
  | read (handled other : Nat)
  /-- The frame a started read delivers. -/
  | frame (frame : Frame)
  /-- The exporter's `ack_block`. -/
  | ackBlock (blockNum : Nat)
  /-- The exporter's `slowdown`. -/
  | slowdown
  /-- The exporter's `get_contract_abi_ctxt`. -/
  | contractAbiCtxt (account : Nat)
  /-- The exporter's `abort_receiver`. -/
  | abortReceiver
  /-- The process is stopped, at any point, and started again. -/
  | restart
  deriving DecidableEq, Repr

/-- The length of the appbase queue that `check_pause` reads: a
`channel::publish` posts a handler only on a channel with subscribers, so the
receiver's share is what it delivered since the process started, less what the
application has run. -/
def queueSize (cfg : Config) (s : Receiver) (handled other : Nat) : Nat :=
  (delivered cfg s).length - handled + other

/-- One step; `none` when the operation cannot happen in this phase, or when an
exporter's call throws back to the exporter. -/
def Sys.step (cfg : Config) (sys : Sys) : Op → Option Sys
  | .read handled other =>
    match sys.phase, continueRead cfg (queueSize cfg sys.recv handled other) sys.recv with
    | .idle, .ok go s => some ⟨s, if go then .reading else .idle⟩
    | _, _ => none
  | .frame frame =>
    match sys.phase, receiveResult cfg frame sys.recv with
    | .reading, .ok true s => some ⟨s, .idle⟩
    | .reading, .ok false s => some ⟨s, .closed⟩
    | .reading, .error _ s => some ⟨s, .closed⟩
    | _, _ => none
  | .ackBlock blockNum =>
    match ackBlock cfg blockNum sys.recv with
    | .ok _ s => some ⟨s, sys.phase⟩
    | .error _ _ => none
  | .slowdown =>
    match slowdown sys.recv with
    | .ok _ s => some ⟨s, sys.phase⟩
    | .error _ _ => none
  | .contractAbiCtxt account =>
    match getContractAbiReady cfg account sys.recv with
    | .ok _ s => some ⟨s, sys.phase⟩
    | .error _ _ => none
  | .abortReceiver =>
    match abortReceiver sys.recv with
    | .ok _ s => some ⟨s, if sys.phase = .reading then .reading else .closed⟩
    | .error _ _ => none
  | .restart => some ⟨restart cfg sys.recv.db, .idle⟩

/-- The first start, over an empty data directory. -/
def Sys.start (cfg : Config) : Sys := ⟨restart cfg Store.empty, .idle⟩

/-- The states a receiver can be in. -/
inductive Reachable (cfg : Config) : Sys → Prop
  | start : Reachable cfg (Sys.start cfg)
  | step {sys sys' : Sys} (op : Op) : Reachable cfg sys → sys.step cfg op = some sys' →
      Reachable cfg sys'

/-- A sequence of operations, stopping at the first that cannot happen. -/
def Sys.run (cfg : Config) (sys : Sys) : List Op → Option Sys
  | [] => some sys
  | op :: ops => (sys.step cfg op).bind fun sys' => sys'.run cfg ops

-- ===================================================== a concrete deployment

/-- A deployment with every channel subscribed, the default `max-queue-size`
of 10000, no blacklist and an abieos that accepts every ABI; `ack` turns on
the exporter's acknowledgements, pausing at one unacknowledged block. -/
def sampleConfig (ack : Bool) : Config where
  hasSubscribers := fun _ => true
  exporterWillAck := ack
  exporterMaxUnconfirmed := 1
  maxQueueSize := 10000
  blacklistActions := []
  abieos := ⟨fun _ => .ok (), fun _ => .ok ()⟩

/-- The result for block `b` with id `id`, following the block with id `prev`
if any, while `lib` is the last irreversible block: its block payload carries
timestamp `b`, and it has no deltas or traces. -/
def blockResult (b id : Nat) (prev : Option Nat) (lib : Nat) : GetBlocksResultV0 :=
  { head := ⟨b, id⟩, lastIrreversible := ⟨lib, lib⟩, thisBlock := some ⟨b, id⟩,
    prevBlock := prev.map (⟨b - 1, ·⟩), block := some (.ok ⟨b⟩), traces := none,
    deltas := none }

/-- `blockResult` as it arrives. -/
def blockFrame (b id : Nat) (prev : Option Nat) (lib : Nat) : Frame :=
  .ok (blockResult b id prev lib)

/-- `blockResult` with one `account` delta, whose one row sets the ABI of
`account` to `abi`: its data is the variant index `0`, then the object, read
as `abi`'s bytes. -/
def abiFrame (b id : Nat) (prev : Option Nat) (lib account : Nat) (abi : Bytes) : Frame :=
  .ok { blockResult b id prev lib with
    deltas := some (.ok [.ok ⟨"account",
      [⟨true, 0 :: abi, .ok 1, .ok (⟨account, abi⟩, abi.length), .error ""⟩]⟩]) }

/-- `blockResult` with one `contract_row` delta, whose one row updates a row of
contract `code`: its data is the variant index `0`, then two bytes, which the
`key_value_object` reader takes. -/
def contractRowFrame (b id : Nat) (prev : Option Nat) (lib code : Nat) : Frame :=
  .ok { blockResult b id prev lib with
    deltas := some (.ok [.ok ⟨"contract_row",
      [⟨true, [0, 1, 2], .ok 1, .error "", .ok (⟨code, 0, 0, 0, 0, []⟩, 2)⟩]⟩]) }

theorem Reachable.run {cfg : Config} :
    ∀ {sys sys' : Sys} {ops : List Op}, Reachable cfg sys → sys.run cfg ops = some sys' →
      Reachable cfg sys'
  | _, _, [], h, hrun => by cases hrun; exact h
  | sys, _, op :: ops, h, hrun => by
    simp only [Sys.run, Option.bind_eq_some] at hrun
    obtain ⟨mid, hstep, hrest⟩ := hrun
    exact Reachable.run (h.step op hstep) hrest

end Chronicle
