/-
What the receiver does before it reads: `start_after_dependencies`, which
holds the start back until the plugins that called
`donot_start_receiver_before` have started, and `request_blocks`, the request
it sends once the state history ABI has arrived (`start_read`), right after
the `load_state` of its start.

`start_after_dependencies` takes the started plugins off the front of its list
in order and stops at the first that has not started; it then tries again on
its 1 s timer, with the plugins' states as they are by then. A run of it is
the list of those states, one per tick (`launchTick`).
-/
import Chronicle.Receiver.System

namespace Chronicle

-- ===================================================== start_after_dependencies

/-- One call of `start_after_dependencies` with the plugins' states `started`:
`none` when the list of dependencies runs out and the receiver is launched,
else the dependencies left to wait for, the first of them not started. -/
def startAfterDependencies {P : Type} (started : P → Bool) :
    List (P × String) → Option (List (P × String))
  | [] => none
  | d :: ds => if started d.1 then startAfterDependencies started ds else some (d :: ds)

/-- The calls of `start_after_dependencies`, one per tick of its timer with
the plugins' states at that tick: the tick that launches the receiver, if one
of them does. -/
def launchTick {P : Type} : List (P → Bool) → List (P × String) → Option Nat
  | [], _ => none
  | started :: ticks, deps =>
    match startAfterDependencies started deps with
    | none => some 0
    | some rest => (launchTick ticks rest).map (· + 1)

-- ===================================================== request_blocks

/-- `get_blocks_request_v0` as `request_blocks` fills it. -/
structure GetBlocksRequestV0 where
  startBlockNum : Nat
  endBlockNum : Nat
  maxMessagesInFlight : Nat
  havePositions : List BlockPosition
  irreversibleOnly : Bool
  fetchBlock : Bool
  fetchTraces : Bool
  fetchDeltas : Bool
  deriving DecidableEq, Repr

/-- The `have_positions` loop of `request_blocks`: from
`idx.lower_bound(irreversible)` on `by_blocknum`, every entry while
`itr->block_index <= head`. -/
def havePositions (irreversible head : Nat) (ring : List ReceivedBlock) : List BlockPosition :=
  ((ring.dropWhile fun r => r.blockIndex < irreversible).takeWhile
    fun r => r.blockIndex ≤ head).map fun r => ⟨r.blockIndex, r.blockId⟩

/-- `request_blocks`: every block from the one after the head
(`uint32_t start_block = head + 1`), with the received blocks between the
irreversible block and the head as the positions the node may check. -/
def requestBlocks (s : Receiver) : GetBlocksRequestV0 where
  startBlockNum := (s.head + 1) % 4294967296
  endBlockNum := 4294967295
  maxMessagesInFlight := 4294967295
  havePositions := havePositions s.irreversible s.head s.db.contents.receivedBlocks
  irreversibleOnly := false
  fetchBlock := true
  fetchTraces := true
  fetchDeltas := true

end Chronicle
