/-
`receive_result` and the paths it drives: the fork check and rollback, the
received-block ring, the block, delta and trace payloads, and the commit.

`receiveResult` follows the source statement by statement; its phases are
named after what they do so that each has a lemma of its own. The RAII
`undo_session` is explicit: the session is opened by `startUndoSession`, kept by
`push` when the frame is accepted, and undone by its destructor when the frame
is aborted (`return false`) or an exception leaves the scope (`undoOnError`).
-/
import Chronicle.Receiver.Abi

namespace Chronicle

-- ================================================== the received-block ring

/-- `db->create<received_block_object>`: placed in `by_blocknum` order; the
unique index refuses a second object with the same `block_index`. -/
def insertReceivedBlock (r : ReceivedBlock) : List ReceivedBlock → Option (List ReceivedBlock)
  | [] => some [r]
  | x :: rest =>
    if r.blockIndex < x.blockIndex then some (r :: x :: rest)
    else if r.blockIndex = x.blockIndex then none
    else (insertReceivedBlock r rest).map (x :: ·)

/-- `while( itr->block_index < irreversible && itr != idx.end() )`, removing
`idx.begin()` each time, over the `by_blocknum` order; `none` where
`itr->block_index` reads `idx.end()`. -/
def truncateReceivedBlocks (irreversible : Nat) :
    List ReceivedBlock → Option (List ReceivedBlock)
  | [] => none
  | r :: rest =>
    if r.blockIndex < irreversible then truncateReceivedBlocks irreversible rest
    else some (r :: rest)

/-- "add the new block" and "truncate old blocks up to previously known
irreversible": only for a block above the irreversible one. -/
def addReceivedBlock (thisBlock : BlockPosition) : RecvM Unit := do
  let s ← get
  if s.irreversible < thisBlock.blockNum then
    match insertReceivedBlock ⟨thisBlock.blockNum, thisBlock.blockId⟩
        s.db.contents.receivedBlocks with
    | none => fail "could not insert object, most likely a uniqueness constraint was violated"
    | some blocks =>
      match truncateReceivedBlocks s.irreversible blocks with
      | none => throw .undefined
      | some blocks =>
        set { s with db := s.db.modify fun c => { c with receivedBlocks := blocks } }

-- ======================================================== the store calls

/-- `db->set_revision(n)`. -/
def setRevision (n : Nat) : RecvM Unit := do
  let s ← get
  match s.db.setRevision n with
  | .ok db => set { s with db }
  | .error e => fail e

/-- `db->start_undo_session(true)`. -/
def startUndoSession : RecvM Unit :=
  modify fun s => { s with db := s.db.startUndoSession }

/-- The destructor of an `undo_session` that was not pushed. -/
def dropUndoSession : RecvM Unit :=
  modify fun s => { s with db := s.db.undo }

/-- An exception leaving the session's scope runs its destructor first. -/
def undoOnError (body : RecvM Unit) : RecvM Unit :=
  tryCatch body fun
    | .error what => do dropUndoSession; throw (.error what)
    | f => throw f

/-- `while( db->revision() >= block_num ) db->undo();` When the loop never
exits, the receiver is left spinning on a store with nothing more to undo. -/
def rollbackTo (blockNum : Nat) : RecvM Unit := do
  let s ← get
  match s.db.rollback blockNum with
  | some db => set { s with db }
  | none => throw .hang

/-- `save_state`: the singleton is modified, or created the first time. -/
def saveState : RecvM Unit :=
  modify fun s =>
    { s with db := s.db.modify fun c =>
        { c with state := some ⟨s.head, s.headId, s.irreversible, s.irreversibleId⟩ } }

/-- `commit_rev`: the irreversible block, or the last acknowledged one when the
exporter acknowledges and is behind. -/
def commitRev (cfg : Config) (s : Receiver) : Nat :=
  if cfg.exporterWillAck && decide (s.exporterAckedBlock < s.irreversible) then
    s.exporterAckedBlock
  else s.irreversible

/-- `db->commit(commit_rev)`. -/
def commitBlock (cfg : Config) : RecvM Unit :=
  modify fun s => { s with db := s.db.commit (commitRev cfg s) }

-- ============================================================ the payloads

/-- `receive_block`. -/
def receiveBlock (block : Except String SignedBlock) : RecvM Unit := do
  let s ← get
  match block with
  | .error e => fail ("block conversion error: " ++ e)
  | .ok b =>
    set { s with blockTimestamp := b.timestamp }
    publish (.block s.head s.irreversible b)

/-- One `account` row: a present row's ABI is saved, or cleared when empty.
The row is returned as the reader left it. -/
def receiveAccountRow (cfg : Config) (row : Row) : RecvM Row :=
  if row.present then
    match row.account with
    | .error e => fail ("account row conversion error: " ++ e)
    | .ok (acc, n) => do
      if acc.abi.isEmpty then clearContractAbi acc.name
      else saveContractAbi cfg acc.name acc.abi
      pure (row.advance n)
  else pure row

/-- One `contract_row` row: a row update when its contract's ABI is at hand,
else an ABI error. The row is returned as the reader left it. -/
def receiveContractRow (cfg : Config) (row : Row) : RecvM Row := do
  let s ← get
  match row.kvo with
  | .error e => fail ("cannot read table row object" ++ e)
  | .ok (kvo, n) =>
    if ← getContractAbiReady cfg kvo.code then
      publish (.tableRowUpdate s.head s.blockTimestamp row.present kvo)
    else
      publish (.abiError s.head s.blockTimestamp kvo.code
        "cannot decode table delta because of missing ABI")
    pure (row.advance n)

/-- `check_variant(row.data, variant_type, 0u)` on a row: the row past its
variant index. -/
def checkRowVariant (row : Row) : RecvM Row :=
  match row.variantCheck with
  | .error e => fail e
  | .ok n => pure (row.advance n)

/-- One `table_delta` of `receive_deltas`. Each loop over `rows` reads the
rows in place; the delta is published with the rows as the last loop left
them. -/
def receiveTableDelta (cfg : Config) (delta : Except String TableDeltaV0) : RecvM Unit := do
  let blockTimestamp := (← get).blockTimestamp
  match delta with
  | .error e => fail e
  | .ok td =>
    let rows ← td.rows.mapM checkRowVariant
    let rows ←
      if td.name = "account" then
        rows.mapM (receiveAccountRow cfg)
      else if td.name = "contract_row" &&
          (cfg.hasSubscribers .tableRowUpdates || cfg.hasSubscribers .abiErrors) then
        rows.mapM (receiveContractRow cfg)
      else pure rows
    publish (.blockTableDelta blockTimestamp { td with rows })

/-- `receive_deltas`. -/
def receiveDeltas (cfg : Config) (buf : ListPayload TableDeltaV0) : RecvM Unit :=
  match buf with
  | .error e => fail e
  | .ok deltas => deltas.forM (receiveTableDelta cfg)

/-- The blacklist test of `receive_traces`: the first action's contract and
name. -/
def blacklisted (cfg : Config) (trace : TransactionTrace) : Bool :=
  match trace.traces with
  | [] => false
  | act :: _ =>
    match cfg.blacklistActions.lookup act.account with
    | some names => names.contains act.name
    | none => false

/-- One trace of `receive_traces`. -/
def receiveTrace (cfg : Config) (trace : Except String TransactionTrace) : RecvM Unit := do
  match trace with
  | .error e => fail ("transaction_trace conversion error: " ++ e)
  | .ok tr =>
    if !blacklisted cfg tr then
      let s ← get
      publish (.transactionTrace s.head s.blockTimestamp tr)

/-- `receive_traces`: nothing is decoded without subscribers. -/
def receiveTraces (cfg : Config) (buf : ListPayload TransactionTrace) : RecvM Unit :=
  if cfg.hasSubscribers .transactionTraces then
    match buf with
    | .error e => fail e
    | .ok traces => traces.forM (receiveTrace cfg)
  else pure ()

/-- The payloads of a frame, each when present, in the order `receive_result`
hands them on. -/
def receivePayloads (cfg : Config) (result : GetBlocksResultV0) : RecvM Unit := do
  result.block.forM receiveBlock
  result.deltas.forM (receiveDeltas cfg)
  result.traces.forM (receiveTraces cfg)

-- ============================================================ receive_result

/-- The envelope: `check_variant` and `bin_to_native` on the frame. -/
def decodeResult (frame : Frame) : RecvM GetBlocksResultV0 :=
  match frame with
  | .error e => fail e
  | .ok result => pure result

/-- "set DB revision": only ever forward. -/
def adjustRevision (blockNum : Nat) : RecvM Unit := do
  if (← get).db.revision < blockNum then
    setRevision blockNum

/-- A block above the frame's irreversible one: a block at or below the head
is a fork, rolled back with the ABI context rebuilt; any other block must
continue the head, unless nothing was received yet. -/
def checkFork (result : GetBlocksResultV0) (thisBlock : BlockPosition) : RecvM Unit := do
  let blockNum := thisBlock.blockNum
  if result.lastIrreversible.blockNum < blockNum then
    let s ← get
    if blockNum ≤ s.head then
      let depth := s.head - blockNum
      initContractAbiCtxt
      rollbackTo blockNum
      let s ← get
      if s.db.revision = 0 then
        fail ("Cannot rollback, no undo stack at revision " ++ toString s.db.revision)
      publish (.fork blockNum depth .network)
    else if 0 < s.head && (match result.prevBlock with
        | none => true
        | some prev => prev.blockId != s.headId) then
      fail "prev_block does not match"

/-- The new head and irreversible positions. -/
def updateHead (result : GetBlocksResultV0) (thisBlock : BlockPosition) : RecvM Unit :=
  modify fun s =>
    { s with
      head := thisBlock.blockNum
      headId := thisBlock.blockId
      irreversible := result.lastIrreversible.blockNum
      irreversibleId := result.lastIrreversible.blockId }

/-- The block's own work, inside its undo session: the ring, the new head, and
the payloads. -/
def applyBlock (cfg : Config) (result : GetBlocksResultV0) (thisBlock : BlockPosition) :
    RecvM Unit := do
  addReceivedBlock thisBlock
  updateHead result thisBlock
  receivePayloads cfg result

/-- `receive_result`: `true` to go on reading, `false` when aborting. -/
def receiveResult (cfg : Config) (frame : Frame) : RecvM Bool := do
  let result ← decodeResult frame
  match result.thisBlock with
  | none => pure true
  | some thisBlock =>
    adjustRevision thisBlock.blockNum
    checkFork result thisBlock
    startUndoSession
    undoOnError (applyBlock cfg result thisBlock)
    if (← get).aborting then
      dropUndoSession
      pure false
    else
      saveState
      commitBlock cfg
      pure true

end Chronicle
