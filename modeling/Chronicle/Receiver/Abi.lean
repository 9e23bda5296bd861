/-
The contract ABI registry of `receiver_plugin_impl`: the ABI records in the
database, the abieos context that holds decoded ABIs, and the set
`contract_abi_imported` of accounts loaded into it.

The abieos context is a map from account to ABI bytes. `abieos_create` makes
it empty; `abieos_set_abi_bin` adds an account's ABI when abieos accepts the
bytes, and, being a `map::insert`, leaves an account it already holds as it
was. The context cannot forget an account, which is why the receiver destroys
and recreates it (`init_contract_abi_ctxt`) before replacing or removing an
ABI it has loaded.
-/
import Chronicle.Receiver.Types

namespace Chronicle

/-- abieos' `contracts.insert`: `account` gets `data` unless it already has an
entry. -/
def insertAbi (ctxt : Nat → Option Bytes) (account : Nat) (data : Bytes) : Nat → Option Bytes :=
  fun a => if a = account then some ((ctxt a).getD data) else ctxt a

/-- `contract_abi_imported.insert(account)`. -/
def insertImported (imported : Nat → Bool) (account : Nat) : Nat → Bool :=
  fun a => a = account || imported a

/-- The upsert of `save_contract_abi` on `contract_abi_index`: `modify` the
account's object if `find` has one, else `create` it. -/
def Contents.setAbi (c : Contents) (account : Nat) (data : Bytes) : Contents :=
  { c with contractAbis := fun a => if a = account then some data else c.contractAbis a }

/-- `db->remove` of the account's `contract_abi_object`. -/
def Contents.removeAbi (c : Contents) (account : Nat) : Contents :=
  { c with contractAbis := fun a => if a = account then none else c.contractAbis a }

/-- `init_contract_abi_ctxt`: destroy the context, with what was imported into
it, and create an empty one. Before the first call the context is `nullptr`
and nothing is cleared. -/
def initContractAbiCtxt : RecvM Unit :=
  modify fun s =>
    { s with
      contractAbiImported := if s.contractAbiCtxt.isSome then fun _ => false
        else s.contractAbiImported
      contractAbiCtxt := some fun _ => none }

/-- `abieos_set_abi_bin(contract_abi_ctxt, account, data, size)`: `ok` when
abieos accepted the bytes, else the error it reports. -/
def setAbiBin (cfg : Config) (account : Nat) (data : Bytes) : RecvM (Except String Unit) := do
  let s ← get
  match s.contractAbiCtxt with
  | none => throw .undefined
  | some ctxt =>
    match cfg.abieos.setAbiBin data with
    | .error e => pure (.error e)
    | .ok () =>
      set { s with contractAbiCtxt := some (insertAbi ctxt account data) }
      pure (.ok ())

/-- `clear_contract_abi`: an account row with an empty ABI. -/
def clearContractAbi (account : Nat) : RecvM Unit := do
  if (← get).contractAbiImported account then
    initContractAbiCtxt
  let s ← get
  if (s.db.contents.contractAbis account).isSome then
    set { s with db := s.db.modify (·.removeAbi account) }
    publish (.abiRemoval s.head s.blockTimestamp account)

/-- The `try` block of `save_contract_abi`: install the ABI, record it, and
announce it to `abi_updates` subscribers. -/
def installContractAbi (cfg : Config) (account : Nat) (data : Bytes) : RecvM Unit := do
  match ← setAbiBin cfg account data with
  | .error e => fail e
  | .ok () =>
    modify fun s =>
      { s with
        contractAbiImported := insertImported s.contractAbiImported account
        db := s.db.modify (·.setAbi account data) }
    if cfg.hasSubscribers .abiUpdates then
      match cfg.abieos.abiDef data with
      | .error e => fail e
      | .ok () =>
        let s ← get
        publish (.abiUpdate s.head s.blockTimestamp account data)

/-- `save_contract_abi`: an account row with a non-empty ABI. A failure to
install or decode it is reported on `abi_errors`, and processing goes on. -/
def saveContractAbi (cfg : Config) (account : Nat) (data : Bytes) : RecvM Unit := do
  if (← get).contractAbiImported account then
    initContractAbiCtxt
  tryCatch (installContractAbi cfg account data) fun
    | .error what => do
      let s ← get
      publish (.abiError s.head s.blockTimestamp account what)
    | f => throw f

/-- `get_contract_abi_ready`: whether the account's ABI is in the context,
loading it from its record first if needed. -/
def getContractAbiReady (cfg : Config) (account : Nat) : RecvM Bool := do
  let s ← get
  if s.contractAbiImported account then
    pure true
  else
    match s.db.contents.contractAbis account with
    | some abi =>
      let _ ← setAbiBin cfg account abi
      modify fun s => { s with contractAbiImported := insertImported s.contractAbiImported account }
      pure true
    | none => pure false

end Chronicle
