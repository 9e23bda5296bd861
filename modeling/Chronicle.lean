import Chronicle.Store.Chainbase
import Chronicle.Receiver.Types
import Chronicle.Receiver.Abi
import Chronicle.Receiver.Result
import Chronicle.Receiver.Pause
import Chronicle.Receiver.System
import Chronicle.Proofs.Triple
import Chronicle.Proofs.Step
import Chronicle.Proofs.Backpressure
import Chronicle.Proofs.Footprint
import Chronicle.Proofs.Frame
import Chronicle.Proofs.Ring
import Chronicle.Proofs.AbiCache
import Chronicle.Proofs.Restart
import Chronicle.Proofs.Relational
import Chronicle.Proofs.Subscribers
import Chronicle.Proofs.Stamps
import Chronicle.Receiver.Startup
import Chronicle.Proofs.Durability
import Chronicle.Proofs.Startup
import Chronicle.Proofs.AbiRecords
