/-
The receiver's data: what a `get_blocks_result_v0` frame carries once abieos
has read it, the events the receiver publishes, the channels they go out on,
and the in-memory state of `receiver_plugin_impl`.

# The decoding boundary

The binary reader (abieos, zlib) is a dependency of the receiver and is taken
as given. A frame is therefore modelled by what each read the receiver asks
for returns on it: a value, or the reader's error text. The receiver's own
control flow around those reads — the order they happen in, what is published
before a failing read, the messages it prefixes — is the model's business and
is translated in `Receiver/Result.lean`. Fields of the wire structures that the
receiver never reads are left out (see MODEL_MAP.json).

Block numbers are `uint32` in the source and natural numbers here; the one
place where the width shows, the lag `head - exporter_acked_block` in
`check_pause`, takes its remainder modulo `2^32` explicitly.
-/
import Chronicle.Store.Chainbase

namespace Chronicle

/-- Decoder results are compared when whole frames and events are. -/
instance instDecidableEqExcept {ε α : Type} [DecidableEq ε] [DecidableEq α] :
    DecidableEq (Except ε α)
  | .error a, .error b => decidable_of_iff (a = b) ⟨congrArg _, Except.error.inj⟩
  | .ok a, .ok b => decidable_of_iff (a = b) ⟨congrArg _, Except.ok.inj⟩
  | .error _, .ok _ => isFalse nofun
  | .ok _, .error _ => isFalse nofun

/-- `block_position`. -/
structure BlockPosition where
  blockNum : Nat
  blockId : Nat
  deriving DecidableEq, Repr

/-- `account_object`: the fields `receive_deltas` reads from an `account` row. -/
structure AccountObject where
  name : Nat
  abi : Bytes
  deriving DecidableEq, Repr

/-- `key_value_object`, as a `table_row_update` event carries it. -/
structure KeyValueObject where
  code : Nat
  scope : Nat
  table : Nat
  primaryKey : Nat
  payer : Nat
  value : Bytes
  deriving DecidableEq, Repr

/-- A `row` of a `table_delta_v0`: `present`, its `data`, and what the readers
make of that data. `data` is an `input_buffer`, which every reader handed it
moves past the bytes it read; the delta published afterwards carries the rows
as the readers left them. -/
structure Row where
  present : Bool
  /-- The bytes of `data` not read yet. -/
  data : Bytes
  /-- `check_variant(row.data, variant_type, 0u)`: the bytes its variant index
  took, or its error. -/
  variantCheck : Except String Nat
  /-- `bin_to_native(account_object)` on the row's data: the object and the
  bytes it took. -/
  account : Except String (AccountObject × Nat)
  /-- `bin_to_native(key_value_object)` on the row's data: the object and the
  bytes it took. -/
  kvo : Except String (KeyValueObject × Nat)
  deriving DecidableEq, Repr

/-- A reader took `n` bytes of the row's data. -/
def Row.advance (n : Nat) (row : Row) : Row := { row with data := row.data.drop n }

/-- `table_delta_v0`, once its variant tag, its fields and its table type have
been checked. -/
structure TableDeltaV0 where
  name : String
  rows : List Row
  deriving DecidableEq, Repr

/-- `action_trace`: the fields the blacklist reads. -/
structure ActionTrace where
  account : Nat
  name : Nat
  deriving DecidableEq, Repr

/-- `transaction_trace`: its id and its action traces. -/
structure TransactionTrace where
  id : Nat
  traces : List ActionTrace
  deriving DecidableEq, Repr

/-- `signed_block`: the field the receiver reads. -/
structure SignedBlock where
  timestamp : Nat
  deriving DecidableEq, Repr

/-- A compressed list payload (`deltas`, `traces`) as the receiver reads it:
decompression and the `varuint32` count fail with an error or yield the
elements, each read in turn and either decoded or failing with the error the
receiver throws for it. -/
abbrev ListPayload (α : Type) := Except String (List (Except String α))

/-- `get_blocks_result_v0`. -/
structure GetBlocksResultV0 where
  head : BlockPosition
  lastIrreversible : BlockPosition
  thisBlock : Option BlockPosition
  prevBlock : Option BlockPosition
  /-- `bin_to_native(signed_block)` on the `block` payload. -/
  block : Option (Except String SignedBlock)
  traces : Option (ListPayload TransactionTrace)
  deltas : Option (ListPayload TableDeltaV0)
  deriving DecidableEq, Repr

/-- One frame of the read loop: the envelope decoded, or the error
`check_variant` / `bin_to_native` threw on it. -/
abbrev Frame := Except String GetBlocksResultV0

/-- `fork_reason_val`. -/
inductive ForkReason
  | network
  | restart
  deriving DecidableEq, Repr

/-- The events the receiver publishes, with the fields it sets. -/
inductive Event
  | fork (forkBlockNum depth : Nat) (forkReason : ForkReason)
  | block (blockNum lastIrreversible : Nat) (block : SignedBlock)
  | blockTableDelta (blockTimestamp : Nat) (tableDelta : TableDeltaV0)
  | transactionTrace (blockNum blockTimestamp : Nat) (trace : TransactionTrace)
  | abiUpdate (blockNum blockTimestamp account : Nat) (abiBytes : Bytes)
  | abiRemoval (blockNum blockTimestamp account : Nat)
  | abiError (blockNum blockTimestamp account : Nat) (error : String)
  | tableRowUpdate (blockNum blockTimestamp : Nat) (added : Bool) (kvo : KeyValueObject)
  | receiverPause (head acknowledged : Nat)
  deriving DecidableEq, Repr

/-- The channels of `chronicle::channels` the receiver publishes on. -/
inductive Channel
  | forks
  | blocks
  | blockTableDeltas
  | transactionTraces
  | abiUpdates
  | abiRemovals
  | abiErrors
  | tableRowUpdates
  | receiverPauses
  deriving DecidableEq, Repr

/-- The channel each event goes out on. -/
def Event.channel : Event → Channel
  | .fork .. => .forks
  | .block .. => .blocks
  | .blockTableDelta .. => .blockTableDeltas
  | .transactionTrace .. => .transactionTraces
  | .abiUpdate .. => .abiUpdates
  | .abiRemoval .. => .abiRemovals
  | .abiError .. => .abiErrors
  | .tableRowUpdate .. => .tableRowUpdates
  | .receiverPause .. => .receiverPauses

/-- The two abieos entry points the receiver calls on contract ABI bytes. -/
structure Abieos where
  /-- `abieos_set_abi_bin`: installs, or fails with what `abieos_get_error`
  then reports. -/
  setAbiBin : Bytes → Except String Unit
  /-- `bin_to_native(abi_def)`: decodes, or fails with its error. -/
  abiDef : Bytes → Except String Unit

/-- What stays fixed while the receiver runs: its options, the exporter's
acknowledgement mode (`exporter_will_ack_blocks` runs before the receiver
starts), the channels' subscriptions and the ABI reader. -/
structure Config where
  hasSubscribers : Channel → Bool
  exporterWillAck : Bool
  exporterMaxUnconfirmed : Nat
  maxQueueSize : Nat
  /-- `blacklist_actions`: action names by contract account. -/
  blacklistActions : List (Nat × List Nat)
  abieos : Abieos

/-- How a call of the receiver can fail to return normally. -/
inductive Fault
  /-- An exception: `catch_and_close` logs it and closes the socket. -/
  | error (what : String)
  /-- The fork loop never exits. -/
  | hang
  /-- Undefined behaviour: `idx.end()` or a null context dereferenced. -/
  | undefined
  /-- An `assert` fails and the process aborts. -/
  | assertion
  deriving DecidableEq, Repr

/-- `receiver_plugin_impl`'s mutable state, with the database it owns. -/
structure Receiver where
  db : Store
  head : Nat
  headId : Nat
  irreversible : Nat
  irreversibleId : Nat
  blockTimestamp : Nat
  /-- `contract_abi_ctxt`: `none` while it is `nullptr`, else the ABI
  installed for each account. -/
  contractAbiCtxt : Option (Nat → Option Bytes)
  contractAbiImported : Nat → Bool
  aborting : Bool
  exporterAckedBlock : Nat
  pauseTimeMsec : Nat
  slowdownRequested : Bool
  /-- Every `publish` call so far, oldest first. -/
  published : List Event

/-- A new process over the database `db`: the member initializers. -/
def Receiver.init (db : Store) : Receiver :=
  { db, head := 0, headId := 0, irreversible := 0, irreversibleId := 0,
    blockTimestamp := 0, contractAbiCtxt := none, contractAbiImported := fun _ => false,
    aborting := false, exporterAckedBlock := 0, pauseTimeMsec := 0,
    slowdownRequested := false, published := [] }

/-- The receiver's computations: state passing with exceptions that keep the
state they were thrown in. -/
abbrev RecvM := EStateM Fault Receiver

/-- `throw runtime_error(what)`. -/
def fail {α : Type} (what : String) : RecvM α := throw (.error what)

/-- `chan.publish(channel_priority, e)`. -/
def publish (e : Event) : RecvM Unit :=
  modify fun s => { s with published := s.published ++ [e] }

/-- The events that reached a subscriber: appbase drops a publish on a channel
nobody subscribed to. -/
def delivered (cfg : Config) (s : Receiver) : List Event :=
  s.published.filter fun e => cfg.hasSubscribers e.channel

end Chronicle
