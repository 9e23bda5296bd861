/-
The read loop's pacing: `check_pause` and `continue_read`, and the calls the
exporter makes into the receiver (`ack_block`, `slowdown`,
`get_contract_abi_ctxt`, `abort_receiver`).
-/
import Chronicle.Receiver.Result

namespace Chronicle

/-- `a - b` on `uint32`. -/
def subU32 (a b : Nat) : Nat := (a + (4294967296 - b % 4294967296)) % 4294967296

/-- The condition of `check_pause`: a requested slowdown, too many blocks the
exporter has not acknowledged, or too long an appbase queue. -/
def mustPause (cfg : Config) (queueSize : Nat) (s : Receiver) : Bool :=
  s.slowdownRequested ||
    cfg.exporterWillAck && decide (cfg.exporterMaxUnconfirmed ≤ subU32 s.head s.exporterAckedBlock) ||
    decide (cfg.maxQueueSize < queueSize)

/-- How `check_pause` lengthens the pause. -/
def nextPauseTime (p : Nat) : Nat :=
  if p = 0 then 100 else if p < 8000 then p * 2 else p

/-- `check_pause`: `true` when the next read may go ahead. Otherwise the pause
is lengthened, announced from 2 s on, and the timer will call `continue_read`
again once it has passed. -/
def checkPause (cfg : Config) (queueSize : Nat) : RecvM Bool := do
  if mustPause cfg queueSize (← get) then
    modify fun s =>
      { s with slowdownRequested := false, pauseTimeMsec := nextPauseTime s.pauseTimeMsec }
    let s ← get
    if 2000 ≤ s.pauseTimeMsec then
      publish (.receiverPause s.head s.exporterAckedBlock)
    pure false
  else pure true

/-- `continue_read`: `true` when it starts reading the next frame. -/
def continueRead (cfg : Config) (queueSize : Nat) : RecvM Bool := do
  if ← checkPause cfg queueSize then
    modify fun s => { s with pauseTimeMsec := 0 }
    pure true
  else pure false

/-- `receiver_plugin::ack_block`. -/
def ackBlock (cfg : Config) (blockNum : Nat) : RecvM Unit := do
  if !cfg.exporterWillAck then
    throw .assertion
  let s ← get
  if blockNum < s.exporterAckedBlock then
    fail "Exporter acked block below prevuously acked one"
  set { s with exporterAckedBlock := blockNum }

/-- `receiver_plugin::slowdown`. -/
def slowdown : RecvM Unit :=
  modify fun s => { s with slowdownRequested := true }

/-- `receiver_plugin::abort_receiver`: the socket is closed (the read loop's
phase, in `Sys.step`) and `aborting` is set. -/
def abortReceiver : RecvM Unit :=
  modify fun s => { s with aborting := true }

end Chronicle
