import Mathlib.Data.List.InsertIdx
import Mathlib.Data.List.Sort
import Mathlib.Logic.Equiv.Defs
import Varcoin.Types

/-!
# `TransactionBuilder`

The builder collects outputs with `add_output` and inputs with `add_input`, and `sign`
turns them into a signed `Transaction`.  An input is a ring: the real output being spent
among mixins of the same amount, ordered by global index, with the real output's place
in the ring kept in `real_output_index` for the ring signature and the global indexes
written as relative offsets.

The primitives the builder calls from the crypto library and from the transaction
format code live outside this file; they are the fields of `Crypto`.  `std::sort` leaves
the order of outputs with equal global indexes to the library, so the sort is a
parameter too (`Sorter`), and so are the permutations the two `std::shuffle` calls of
`sign` choose.

C++ exceptions keep the state the method had reached when it threw: `add_input` raises
`m_inputs_amount` before it can fail, and `EStateM.Result` returns that state with the
error.
-/

namespace Varcoin

/-- `KeyInput`: an input spending one output of its ring.  `output_indexes` are the
ring's global indexes as relative offsets. -/
structure KeyInput where
  amount : Amount
  output_indexes : List UInt32
  key_image : KeyImage
  deriving DecidableEq, Repr

/-- `TransactionInput`: `boost::variant<CoinbaseInput, KeyInput>`. -/
inductive TransactionInput where
  | coinbase (height : Height)
  | key (input : KeyInput)
  deriving DecidableEq, Repr

/-- `boost::get<KeyInput>`; `none` is the `boost::bad_get` it throws. -/
def TransactionInput.getKey : TransactionInput → Option KeyInput
  | .key input => some input
  | .coinbase _ => none

structure KeyOutput where
  key : PublicKey
  deriving DecidableEq, Repr

structure TransactionOutput where
  amount : Amount
  target : KeyOutput
  deriving DecidableEq, Repr

/-- `TransactionPrefix`: what the prefix hash covers. -/
structure TransactionPrefix where
  version : UInt8
  unlock_time : UnlockMoment
  inputs : List TransactionInput
  outputs : List TransactionOutput
  extra : List UInt8
  deriving DecidableEq, Repr

/-- `Transaction`: the prefix and one vector of ring signatures per input. -/
structure Transaction extends TransactionPrefix where
  signatures : List (List Signature)
  deriving DecidableEq, Repr

/-- The fields of `TransactionExtra` the builder sets; `set` replaces the field of its
kind. -/
structure TransactionExtra where
  nonce : Option (List UInt8)
  public_key : Option PublicKey
  deriving DecidableEq, Repr

/-- The primitives the builder calls.  `hash_bytes` is the 32 bytes of a hash, and
`generate_ring_signature` gives the signature it writes at each position of the
caller's buffer, which has one entry per ring member. -/
structure Crypto where
  generateKeyDerivation : PublicKey → SecretKey → Option KeyDerivation
  derivePublicKey : KeyDerivation → Nat → PublicKey → Option PublicKey
  deriveSecretKey : KeyDerivation → Nat → SecretKey → SecretKey
  generateKeyImage : PublicKey → SecretKey → KeyImage
  hashBytes : Hash → List UInt8
  hashToScalar : List UInt8 → SecretKey
  secretKeyToPublicKey : SecretKey → PublicKey
  getTransactionInputsHash : TransactionPrefix → Hash
  getTransactionPrefixHash : TransactionPrefix → Hash
  generateRingSignature :
    Hash → KeyImage → List PublicKey → SecretKey → Nat → Option (Nat → Signature)
  serialize : TransactionExtra → List UInt8
  setPaymentIdToTransactionExtraNonce : Hash → List UInt8

/-- `APIOutputLessGlobalIndex`, as the order it sorts by. -/
def LeGlobalIndex (a b : Output) : Prop := a.global_index ≤ b.global_index

instance : DecidableRel LeGlobalIndex := fun a b =>
  inferInstanceAs (Decidable (a.global_index ≤ b.global_index))

/-- What `std::sort` with `APIOutputLessGlobalIndex` promises: a permutation of its input,
ordered by global index. -/
structure Sorter where
  sort : List Output → List Output
  perm : ∀ l, (sort l).Perm l
  sorted : ∀ l, (sort l).Sorted LeGlobalIndex

/-- `InputDesc`: an input before signing, with its ring and its one-time keys. -/
structure InputDesc where
  outputs : List Output
  real_output_index : Nat
  eph_keys : KeyPair
  input : KeyInput
  deriving DecidableEq, Repr

structure OutputDesc where
  amount : Amount
  addr : AccountPublicAddress
  deriving DecidableEq, Repr

structure TransactionBuilder where
  transaction : Transaction
  extra : TransactionExtra
  input_descs : List InputDesc
  output_descs : List OutputDesc
  inputs_amount : Amount
  outputs_amount : Amount
  deriving Repr

section Builder

variable (cr : Crypto)

/-- `derive_public_key(to, tx_key, output_index, ephemeral_key)`, with `to` as `addr`. -/
def derivePublicKey (addr : AccountPublicAddress) (tx_key : SecretKey) (output_index : Nat) :
    Option PublicKey := do
  let derivation ← cr.generateKeyDerivation addr.view_public_key tx_key
  cr.derivePublicKey derivation output_index addr.spend_public_key

/-- `generate_key_image_helper`: the one-time keys of the output and its key image. -/
def generateKeyImageHelper (ack : AccountKeys) (tx_public_key : PublicKey)
    (real_output_index : Nat) : Option (KeyPair × KeyImage) := do
  let recv_derivation ← cr.generateKeyDerivation tx_public_key ack.view_secret_key
  let public_key ← cr.derivePublicKey recv_derivation real_output_index
    ack.address.spend_public_key
  let secret_key := cr.deriveSecretKey recv_derivation real_output_index ack.spend_secret_key
  pure (⟨public_key, secret_key⟩, cr.generateKeyImage public_key secret_key)

/-- `deterministic_keys_from_seed(tx_inputs_hash, tx_derivation_seed)`. -/
def deterministicKeysFromSeed (tx_inputs_hash tx_derivation_seed : Hash) : KeyPair :=
  let secret_key := cr.hashToScalar (cr.hashBytes tx_inputs_hash ++
    cr.hashBytes tx_derivation_seed)
  ⟨cr.secretKeyToPublicKey secret_key, secret_key⟩

end Builder

/-- `absolute_output_offsets_to_relative`: the loop
`for (i = 1; i < copy.size(); ++i) copy[i] = off[i] - off[i - 1]` over a copy of `off`. -/
def absoluteOutputOffsetsToRelative (off : List UInt32) : List UInt32 :=
  (List.range' 1 (off.length - 1)).foldl
    (fun copy i => copy.set i (off.getD i 0 - off.getD (i - 1) 0)) off

/-- `std::lower_bound` of `real_output` in `outputs`: on a sorted range, the first position
whose output is not less than `real_output`. -/
def lowerBound (outputs : List Output) (real_output : Output) : Nat :=
  outputs.findIdx fun o => !decide (o.global_index < real_output.global_index)

namespace TransactionBuilder

/-- The constructor `TransactionBuilder(currency, unlock_time)`. -/
def create (currency : Currency) (unlock_time : UnlockMoment) : TransactionBuilder :=
  ⟨⟨⟨currency.current_transaction_version, unlock_time, [], [], []⟩, []⟩, ⟨none, none⟩, [], [],
    0, 0⟩

section Builder

variable (cr : Crypto) (sorter : Sorter)

/-- `set_extra_nonce(nonce)`. -/
def setExtraNonce (b : TransactionBuilder) (nonce : List UInt8) : TransactionBuilder :=
  let extra := { b.extra with nonce := some nonce }
  { b with extra := extra, transaction.extra := cr.serialize extra }

/-- `set_payment_id(hash)`. -/
def setPaymentId (b : TransactionBuilder) (hash : Hash) : TransactionBuilder :=
  b.setExtraNonce cr (cr.setPaymentIdToTransactionExtraNonce hash)

/-- `add_output(amount, to)`, with `to` as `addr`: the builder afterwards and the
output's index. -/
def addOutput (b : TransactionBuilder) (amount : Amount) (addr : AccountPublicAddress) :
    TransactionBuilder × Nat :=
  ({ b with outputs_amount := b.outputs_amount + amount,
            output_descs := b.output_descs ++ [⟨amount, addr⟩] }, b.output_descs.length)

/-- The `InputDesc` that `add_input` builds: the ring sorted by global index with the real
output inserted at its lower bound, the key image checked against the real output's, and
every ring member checked to carry the real output's amount. -/
def inputDesc (sender_keys : AccountKeys) (real_output : Output) (mix_outputs : List Output) :
    Except String InputDesc :=
  let sorted := sorter.sort mix_outputs
  let real_output_index := lowerBound sorted real_output
  let outputs := sorted.insertIdx real_output_index real_output
  match generateKeyImageHelper cr sender_keys real_output.transaction_public_key
      real_output.index_in_transaction.toNat with
  | none => .error "generating keyimage failed"
  | some (eph_keys, key_image) =>
    if key_image ≠ real_output.key_image then .error "generated keyimage does not match input"
    else if outputs.any (·.amount ≠ real_output.amount) then
      .error "Mixin outputs with different amounts is not allowed"
    else .ok ⟨outputs, real_output_index, eph_keys, ⟨real_output.amount,
      absoluteOutputOffsetsToRelative (outputs.map (·.global_index)), key_image⟩⟩

/-- `add_input(sender_keys, real_output, mix_outputs)`: the input's index.  The amount is
added before anything can throw, so a failed call leaves it added. -/
def addInput (b : TransactionBuilder) (sender_keys : AccountKeys) (real_output : Output)
    (mix_outputs : List Output) : EStateM.Result String TransactionBuilder Nat :=
  let b := { b with inputs_amount := b.inputs_amount + real_output.amount }
  match inputDesc cr sorter sender_keys real_output mix_outputs with
  | .error e => .error e b
  | .ok desc => .ok b.input_descs.length { b with input_descs := b.input_descs ++ [desc] }

/-- `std::shuffle`, as the permutation it applies: position `i` receives the element at
`σ i`. -/
def shuffle {α : Type} (l : List α) (σ : Equiv.Perm (Fin l.length)) : List α :=
  List.ofFn fun i => l.get (σ i)

/-- The loop deriving the output keys: output `i` pays its amount to a key derived for
position `i`. -/
def outputKeys (tx_key : SecretKey) (output_descs : List OutputDesc) :
    Except String (List TransactionOutput) :=
  output_descs.enum.mapM fun (i, desc) =>
    match derivePublicKey cr desc.addr tx_key i with
    | none => .error "output keys detected as corrupted during output key derivation"
    | some key => .ok ⟨desc.amount, ⟨key⟩⟩

/-- The ring signature of one input: one signature per ring member. -/
def ringSignature (hash : Hash) (input : TransactionInput) (desc : InputDesc) :
    Except String (List Signature) :=
  match input.getKey with
  | none => .error "boost::bad_get"
  | some input =>
    match cr.generateRingSignature hash input.key_image (desc.outputs.map (·.public_key))
        desc.eph_keys.secret_key desc.real_output_index with
    | none => .error "output keys detected as corrupted during ring signing"
    | some sig => .ok ((List.range desc.outputs.length).map sig)

/-- `sign(tx_derivation_seed)`, with `out_order` and `in_order` the permutations the two
shuffles choose.  The transaction key comes from the inputs, the output keys from the
transaction key, and every ring signature signs the prefix hash of the finished
prefix. -/
def sign (b : TransactionBuilder) (out_order : Equiv.Perm (Fin b.output_descs.length))
    (in_order : Equiv.Perm (Fin b.input_descs.length)) (tx_derivation_seed : Hash) :
    Except String Transaction := do
  let output_descs := shuffle b.output_descs out_order
  let input_descs := shuffle b.input_descs in_order
  let tx := { b.transaction with
    inputs := input_descs.map fun (desc : InputDesc) => .key desc.input }
  let tx_keys := deterministicKeysFromSeed cr
    (cr.getTransactionInputsHash tx.toTransactionPrefix) tx_derivation_seed
  let extra := { b.extra with public_key := some tx_keys.public_key }
  let outputs ← outputKeys cr tx_keys.secret_key output_descs
  let tx := { tx with extra := cr.serialize extra, outputs := outputs }
  let hash := cr.getTransactionPrefixHash tx.toTransactionPrefix
  let signatures ← (tx.inputs.zip input_descs).mapM fun (input, desc) =>
    ringSignature cr hash input desc
  pure { tx with signatures := signatures }

end Builder

end TransactionBuilder

/-- A call of the builder's interface before `sign`. -/
inductive Call where
  | addOutput (amount : Amount) (addr : AccountPublicAddress)
  | addInput (sender_keys : AccountKeys) (real_output : Output) (mix_outputs : List Output)
  | setExtraNonce (nonce : List UInt8)
  | setPaymentId (hash : Hash)

/-- The arguments of an `add_input` call. -/
def Call.inputArgs : Call → Option (AccountKeys × Output × List Output)
  | .addInput sender_keys real_output mix_outputs => some (sender_keys, real_output, mix_outputs)
  | _ => none

/-- The arguments of an `add_output` call. -/
def Call.outputArgs : Call → Option OutputDesc
  | .addOutput amount addr => some ⟨amount, addr⟩
  | _ => none

namespace TransactionBuilder

section Calls

variable (cr : Crypto) (sorter : Sorter)

/-- One call that returns; `.error` is a call that threw. -/
def step (b : TransactionBuilder) : Call → Except String TransactionBuilder
  | .addOutput amount addr => .ok (b.addOutput amount addr).1
  | .addInput sender_keys real_output mix_outputs =>
    match b.addInput cr sorter sender_keys real_output mix_outputs with
    | .ok _ b => .ok b
    | .error e _ => .error e
  | .setExtraNonce nonce => .ok (b.setExtraNonce cr nonce)
  | .setPaymentId hash => .ok (b.setPaymentId cr hash)

/-- A sequence of calls, every one of which returns. -/
def run (b : TransactionBuilder) (calls : List Call) : Except String TransactionBuilder :=
  calls.foldlM (step cr sorter) b

end Calls

end TransactionBuilder

end Varcoin
