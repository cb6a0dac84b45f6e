import Mathlib.Data.List.FinRange
import Varcoin.Builder.Ring
import Varcoin.Selector.Coins

/-!
# Signing

A run of `add_output`, `add_input`, `set_extra_nonce` and `set_payment_id` calls leaves one
`InputDesc` per `add_input` call, in call order, each spending its call's real output
(`run_holds`).  `sign` shuffles the inputs, and `sign_spec` says what it does with each
one: the input at position `i` is the `KeyInput` of the `InputDesc` shuffled to `i`, and
its signatures come from `generate_ring_signature` over that ring and the prefix hash of
the returned transaction.  Together they pair every input position with its own
`add_input` call (`sign_inputs_match_calls`), and every output with its own `add_output`
call (`sign_outputs_match_calls`).
-/

namespace Varcoin

/-- Input position `i` of `tx` spends `real_output` of the `add_input` call
`(sender_keys, real_output, mix_outputs)`, with ring `R`: the input carries the real
output's amount and key image and offsets that decode to the ring's global indexes, the
ring is the mixins and the real output sorted by global index with the real output at
`real_output_index`, and the input's signatures are the ring signature of the prefix hash
of `tx`, one per ring member. -/
structure SignedRing (cr : Crypto) (tx : Transaction) (i : Nat) (sender_keys : AccountKeys)
    (real_output : Output) (mix_outputs : List Output) (R : List Output)
    (real_output_index : Nat) (eph_keys : KeyPair) (signatures : List Signature) : Prop where
  key_input : ∃ offsets, tx.inputs[i]? =
      some (.key ⟨real_output.amount, offsets, real_output.key_image⟩) ∧
    prefixSums 0 offsets = R.map (·.global_index.toNat)
  perm : R.Perm (mix_outputs ++ [real_output])
  sorted : R.Sorted LeGlobalIndex
  real : R[real_output_index]? = some real_output
  keys : generateKeyImageHelper cr sender_keys real_output.transaction_public_key
    real_output.index_in_transaction.toNat = some (eph_keys, real_output.key_image)
  signatures_at : tx.signatures[i]? = some signatures
  length : signatures.length = R.length
  signed : ∃ sig, cr.generateRingSignature (cr.getTransactionPrefixHash tx.toTransactionPrefix)
      real_output.key_image (R.map (·.public_key)) eph_keys.secret_key real_output_index =
        some sig ∧ signatures = (List.range R.length).map sig

/-- Input position `i` of `tx` spends the real output of the `add_input` call `call`. -/
def SignsFor (cr : Crypto) (tx : Transaction) (i : Nat)
    (call : AccountKeys × Output × List Output) : Prop :=
  ∃ R real_output_index eph_keys signatures,
    SignedRing cr tx i call.1 call.2.1 call.2.2 R real_output_index eph_keys signatures

/-- What a run of calls leaves in the builder: an `InputDesc` spending each `add_input`
call's real output and an `OutputDesc` for each `add_output` call, in call order, and the
`uint64` sums of their amounts. -/
structure TransactionBuilder.Holds (cr : Crypto) (b : TransactionBuilder) (calls : List Call) :
    Prop where
  inputs : List.Forall₂ (fun d (c : AccountKeys × Output × List Output) =>
    d.Spends cr c.1 c.2.1 c.2.2) b.input_descs (calls.filterMap Call.inputArgs)
  outputs : b.output_descs = calls.filterMap Call.outputArgs
  inputs_amount : b.inputs_amount = ((calls.filterMap Call.inputArgs).map (·.2.1.amount)).sum
  outputs_amount : b.outputs_amount = ((calls.filterMap Call.outputArgs).map (·.amount)).sum

theorem shuffle_perm {α : Type} (l : List α) (σ : Equiv.Perm (Fin l.length)) :
    (TransactionBuilder.shuffle l σ).Perm l := by
  simpa [TransactionBuilder.shuffle] using σ.ofFn_comp_perm l.get

@[simp] theorem length_shuffle {α : Type} (l : List α) (σ : Equiv.Perm (Fin l.length)) :
    (TransactionBuilder.shuffle l σ).length = l.length := (shuffle_perm l σ).length_eq

/-- A `mapM` in `Except` that returns relates each element to its result. -/
theorem mapM_ok {α β ε : Type} {f : α → Except ε β} {l : List α} {ys : List β}
    (h : l.mapM f = .ok ys) : List.Forall₂ (fun a b => f a = .ok b) l ys := by
  induction l generalizing ys with
  | nil => cases h; exact .nil
  | cons a l ih =>
    rw [List.mapM_cons] at h
    cases ha : f a with
    | error e => rw [ha] at h; cases h
    | ok b =>
      cases hl : l.mapM f with
      | error e => rw [ha, hl] at h; cases h
      | ok bs =>
        rw [ha, hl] at h
        cases h; exact .cons ha (ih hl)

theorem forall₂_zip_map {α β γ : Type} {f : α → β} {R : β × α → γ → Prop} {l : List α}
    {ys : List γ} :
    List.Forall₂ R ((l.map f).zip l) ys ↔ List.Forall₂ (fun a y => R (f a, a) y) l ys := by
  induction l generalizing ys with
  | nil => simp
  | cons a l ih => cases ys <;> simp [ih]

/-- A `mapM` in `Except` that throws throws the error of one of its elements. -/
theorem mapM_error {α β ε : Type} {f : α → Except ε β} {l : List α} {e : ε}
    (h : l.mapM f = .error e) : ∃ a ∈ l, f a = .error e := by
  induction l with
  | nil => cases h
  | cons a l ih =>
    rw [List.mapM_cons] at h
    cases ha : f a with
    | error e' =>
      rw [ha] at h
      cases h
      exact ⟨a, List.mem_cons_self _ _, ha⟩
    | ok b =>
      cases hl : l.mapM f with
      | error e' =>
        rw [ha, hl] at h
        cases h
        obtain ⟨x, hx, hfx⟩ := ih hl
        exact ⟨x, List.mem_cons_of_mem _ hx, hfx⟩
      | ok bs => rw [ha, hl] at h; cases h

theorem mem_zip_map_self {α β : Type} {f : α → β} :
    ∀ {l : List α} {p : β × α}, p ∈ (l.map f).zip l → ∃ a, p = (f a, a)
  | [], _, h => by cases h
  | a :: l, p, h => by
    simp only [List.map_cons, List.zip_cons_cons, List.mem_cons] at h
    rcases h with rfl | h
    · exact ⟨a, rfl⟩
    · exact mem_zip_map_self h

/-- Primitives to run the model on: sums of the key values, with the ring signature at
each position made of the hash, the key image and the position. -/
def demoCrypto : Crypto where
  generateKeyDerivation pk sk := some ⟨pk.data + sk.data⟩
  derivePublicKey d i pk := some ⟨d.data + i + pk.data⟩
  deriveSecretKey d i sk := ⟨d.data + i + sk.data⟩
  generateKeyImage pk sk := ⟨pk.data + sk.data⟩
  hashBytes h := [UInt8.ofNat h.data]
  hashToScalar bytes := ⟨(bytes.map UInt8.toNat).sum⟩
  secretKeyToPublicKey sk := ⟨sk.data + 1⟩
  getTransactionInputsHash tx := ⟨tx.inputs.length⟩
  getTransactionPrefixHash tx := ⟨tx.inputs.length + 2 * tx.outputs.length⟩
  generateRingSignature h ki _ _ _ := some fun j => ⟨h.data + ki.data + j⟩
  serialize e := (e.public_key.map fun pk => [1, UInt8.ofNat pk.data]).getD []
  setPaymentIdToTransactionExtraNonce h := [0, UInt8.ofNat h.data]

/-- The account every address of `demoCurrency` parses to, with both secret keys 0: the
key image of `demoCoin 1` is its own. -/
def demoKeys : AccountKeys := ⟨⟨⟨1⟩, ⟨2⟩⟩, ⟨0⟩, ⟨0⟩⟩

/-- An output, then two inputs spending `demoCoin 1` with different mixins. -/
def demoCalls : List Call :=
  [.addOutput 7 ⟨⟨3⟩, ⟨4⟩⟩, .addInput demoKeys (demoCoin 1 5 false) [demoCoin 4 5 false,
    demoCoin 0 5 false], .setExtraNonce [9], .addInput demoKeys (demoCoin 1 5 false)
    [demoCoin 3 5 false]]

/-- The nonce of the extra after `calls`, from `nonce`: the last one that a
`set_extra_nonce` or a `set_payment_id` call set. -/
def Call.nonceAfter (cr : Crypto) : Option (List UInt8) → List Call → Option (List UInt8)
  | nonce, [] => nonce
  | _, .setExtraNonce nonce :: calls => nonceAfter cr (some nonce) calls
  | _, .setPaymentId hash :: calls =>
    nonceAfter cr (some (cr.setPaymentIdToTransactionExtraNonce hash)) calls
  | nonce, _ :: calls => nonceAfter cr nonce calls

theorem Call.nonceAfter_cons (cr : Crypto) (nonce : Option (List UInt8)) (c : Call)
    (calls : List Call) :
    Call.nonceAfter cr nonce (c :: calls) =
      Call.nonceAfter cr (Call.nonceAfter cr nonce [c]) calls := by
  cases c <;> rfl

namespace TransactionBuilder

variable {cr : Crypto} {sorter : Sorter}

/-- The offsets of the ring that `add_input` stores are positive after the first exactly
when no two outputs of the ring share a global index.  `add_input` does not check it: a
mixin given twice, or one with the real output's global index, leaves a zero offset. -/
theorem add_input_ring_offsets {b b' : TransactionBuilder} {k : AccountKeys} {r : Output}
    {m : List Output} {n : Nat} (h : b.addInput cr sorter k r m = .ok n b') :
    ∃ d, b'.input_descs = b.input_descs ++ [d] ∧
      ((∀ x ∈ d.input.output_indexes.tail, 0 < x) ↔
        ((m ++ [r]).map (·.global_index)).Nodup) := by
  obtain ⟨d, hd, he⟩ := add_input_ok h
  have hs := inputDesc_spends hd
  have hsorted : (d.outputs.map (·.global_index)).Sorted (· ≤ ·) :=
    List.pairwise_map.mpr hs.sorted
  refine ⟨d, he, ?_⟩
  rw [hs.input, relative_tail_pos_iff hsorted, sorted_lt_iff_nodup hsorted]
  exact (hs.perm.map _).nodup_iff

/-- `demoCoin 4` given twice as a mixin is accepted, and its ring repeats global index 4. -/
theorem add_input_ring_offsets_demo :
    ∃ n b', (create demoCurrency 0).addInput demoCrypto insertionSorter demoKeys
        (demoCoin 1 5 false) [demoCoin 4 5 false, demoCoin 4 5 false] = .ok n b' ∧
      ∃ d, b'.input_descs = (create demoCurrency 0).input_descs ++ [d] ∧
        ((∀ x ∈ d.input.output_indexes.tail, 0 < x) ↔
          (([demoCoin 4 5 false, demoCoin 4 5 false] ++ [demoCoin 1 5 false]).map
            (·.global_index)).Nodup) :=
  ⟨_, _, rfl, @add_input_ring_offsets demoCrypto insertionSorter (create demoCurrency 0) _
    demoKeys (demoCoin 1 5 false) [demoCoin 4 5 false, demoCoin 4 5 false] _ rfl⟩

/-- The signatures of a key input: the ring signature over its ring, one per member. -/
theorem ringSignature_key {hash : Hash} {d : InputDesc} {sigs : List Signature}
    (h : ringSignature cr hash (.key d.input) d = .ok sigs) :
    ∃ sig, cr.generateRingSignature hash d.input.key_image (d.outputs.map (·.public_key))
      d.eph_keys.secret_key d.real_output_index = some sig ∧
      sigs = (List.range d.outputs.length).map sig := by
  simp only [ringSignature, TransactionInput.getKey] at h
  split at h
  · cases h
  · rename_i sig hsig
    cases h
    exact ⟨sig, hsig, rfl⟩

/-- The output loop of `sign`: output `i` pays the amount of the `OutputDesc` at `i` to the
key derived for position `i`. -/
theorem outputKeys_spec {tx_key : SecretKey} {descs : List OutputDesc}
    {outs : List TransactionOutput} (h : outputKeys cr tx_key descs = .ok outs) :
    List.Forall₂ (fun (p : Nat × OutputDesc) o => ∃ key,
      derivePublicKey cr p.2.addr tx_key p.1 = some key ∧ o = ⟨p.2.amount, ⟨key⟩⟩)
      descs.enum outs := by
  refine (mapM_ok h).imp fun p o hp => ?_
  dsimp only at hp
  split at hp
  · cases hp
  · rename_i key hkey
    cases hp
    exact ⟨key, hkey, rfl⟩

/-- What `sign` returns: the inputs are the `KeyInput`s of the shuffled `InputDesc`s; the
outputs are the shuffled `OutputDesc`s, each paying its amount to a key derived for its
position from one transaction key; and each input's signatures are the ring signature,
over that `InputDesc`'s ring, of the prefix hash of the returned transaction. -/
theorem sign_spec {b : TransactionBuilder} {out_order : Equiv.Perm (Fin b.output_descs.length)}
    {in_order : Equiv.Perm (Fin b.input_descs.length)} {seed : Hash} {tx : Transaction}
    (h : b.sign cr out_order in_order seed = .ok tx) :
    tx.inputs = (shuffle b.input_descs in_order).map (fun d => .key d.input) ∧
    (∃ tx_key, List.Forall₂ (fun (p : Nat × OutputDesc) o => ∃ key,
      derivePublicKey cr p.2.addr tx_key p.1 = some key ∧ o = ⟨p.2.amount, ⟨key⟩⟩)
      (shuffle b.output_descs out_order).enum tx.outputs) ∧
    List.Forall₂ (fun (d : InputDesc) sigs => ∃ sig, cr.generateRingSignature
        (cr.getTransactionPrefixHash tx.toTransactionPrefix) d.input.key_image
        (d.outputs.map (·.public_key)) d.eph_keys.secret_key d.real_output_index = some sig ∧
        sigs = (List.range d.outputs.length).map sig)
      (shuffle b.input_descs in_order) tx.signatures := by
  unfold sign at h
  simp only [bind, Except.bind] at h
  split at h
  · cases h
  · rename_i outs houts
    split at h
    · cases h
    · rename_i sigs hsigs
      cases h
      exact ⟨rfl, ⟨_, outputKeys_spec houts⟩,
        (forall₂_zip_map.mp (mapM_ok hsigs)).imp fun _ _ => ringSignature_key⟩

theorem outputKeys_error {tx_key : SecretKey} {descs : List OutputDesc} {e : String}
    (h : outputKeys cr tx_key descs = .error e) :
    e = "output keys detected as corrupted during output key derivation" ∧
      ∃ p ∈ descs.enum, derivePublicKey cr p.2.addr tx_key p.1 = none := by
  obtain ⟨p, hp, he⟩ := mapM_error h
  dsimp only at he
  split at he
  · cases he
    exact ⟨rfl, p, hp, ‹_›⟩
  · cases he

theorem ringSignature_error {hash : Hash} {d : InputDesc} {e : String}
    (h : ringSignature cr hash (.key d.input) d = .error e) :
    e = "output keys detected as corrupted during ring signing" ∧
      cr.generateRingSignature hash d.input.key_image (d.outputs.map (·.public_key))
        d.eph_keys.secret_key d.real_output_index = none := by
  simp only [ringSignature, TransactionInput.getKey] at h
  split at h
  · cases h
    exact ⟨rfl, ‹_›⟩
  · cases h

/-- `sign` throws only where a primitive fails, on the values `sign` itself computes: the key
of an output at its position cannot be derived from the transaction key that
`deterministic_keys_from_seed` gives for the inputs, or, with every output key derived, the
ring of an input cannot be signed over the prefix hash of the transaction with those
outputs.  The `boost::get<KeyInput>` of the signing loop never throws, as every input
`sign` builds is a key input.  So `sign` returns whenever the primitives do. -/
theorem sign_errors (b : TransactionBuilder) (out_order : Equiv.Perm (Fin b.output_descs.length))
    (in_order : Equiv.Perm (Fin b.input_descs.length)) (seed : Hash) (e : String)
    (h : b.sign cr out_order in_order seed = .error e) :
    let tx : Transaction := { b.transaction with
      inputs := (shuffle b.input_descs in_order).map fun (d : InputDesc) => .key d.input }
    let tx_keys := deterministicKeysFromSeed cr (cr.getTransactionInputsHash tx.toTransactionPrefix)
      seed
    (e = "output keys detected as corrupted during output key derivation" ∧
      ∃ p ∈ (shuffle b.output_descs out_order).enum,
        derivePublicKey cr p.2.addr tx_keys.secret_key p.1 = none) ∨
    (e = "output keys detected as corrupted during ring signing" ∧
      ∃ outputs, outputKeys cr tx_keys.secret_key (shuffle b.output_descs out_order) = .ok outputs ∧
        let signed : Transaction := { tx with
          extra := cr.serialize { b.extra with public_key := some tx_keys.public_key },
          outputs := outputs }
        ∃ d ∈ shuffle b.input_descs in_order, cr.generateRingSignature
          (cr.getTransactionPrefixHash signed.toTransactionPrefix) d.input.key_image
          (d.outputs.map (·.public_key)) d.eph_keys.secret_key d.real_output_index = none) := by
  unfold sign at h
  simp only [bind, Except.bind] at h
  split at h
  · rename_i e' he'
    cases h
    exact .inl (outputKeys_error he')
  · rename_i outs houts
    split at h
    · rename_i e' he'
      cases h
      obtain ⟨p, hmem, hd⟩ := mapM_error he'
      obtain ⟨d, rfl⟩ := mem_zip_map_self hmem
      exact .inr ⟨(ringSignature_error hd).1, outs, houts, d, (List.of_mem_zip hmem).2,
        (ringSignature_error hd).2⟩
    · cases h

/-- The demo primitives with a key derivation that always fails. -/
def failingCrypto : Crypto := { demoCrypto with derivePublicKey := fun _ _ _ => none }

/-- One output, whose key cannot be derived: `sign` throws the output-key error. -/
theorem sign_errors_demo :
    ∃ b, run failingCrypto insertionSorter (create demoCurrency 0)
        [.addOutput 7 ⟨⟨3⟩, ⟨4⟩⟩] = .ok b ∧
      b.sign failingCrypto (Equiv.refl _) (Equiv.refl _) ⟨5⟩ =
        .error "output keys detected as corrupted during output key derivation" ∧
      let tx : Transaction := { b.transaction with
        inputs := (shuffle b.input_descs (Equiv.refl _)).map fun (d : InputDesc) => .key d.input }
      let tx_keys := deterministicKeysFromSeed failingCrypto
        (failingCrypto.getTransactionInputsHash tx.toTransactionPrefix) ⟨5⟩
      ∃ p ∈ (shuffle b.output_descs (Equiv.refl _)).enum,
        derivePublicKey failingCrypto p.2.addr tx_keys.secret_key p.1 = none :=
  ⟨_, rfl, rfl, (Or.resolve_right (@sign_errors failingCrypto ((create demoCurrency 0).addOutput 7
    ⟨⟨3⟩, ⟨4⟩⟩).1 (Equiv.refl _) (Equiv.refl _) ⟨5⟩ _ rfl) fun h => absurd h.1 (by decide)).2⟩

theorem holds_create (currency : Currency) (unlock_time : UnlockMoment) :
    (create currency unlock_time).Holds cr [] := ⟨.nil, rfl, rfl, rfl⟩

/-- One call that returns keeps `Holds`. -/
theorem step_holds {b b' : TransactionBuilder} {calls : List Call} {c : Call}
    (hb : b.Holds cr calls) (h : step cr sorter b c = .ok b') : b'.Holds cr (calls ++ [c]) := by
  obtain ⟨hin, hout, hia, hoa⟩ := hb
  cases c with
  | addInput k r m =>
    cases hd : inputDesc cr sorter k r m with
    | error e => simp [step, addInput, hd] at h
    | ok d =>
      simp only [step, addInput, hd, Except.ok.injEq] at h
      subst h
      exact ⟨by simpa [Call.inputArgs] using
          List.rel_append hin (.cons (inputDesc_spends hd) .nil),
        by simpa [Call.outputArgs] using hout, by simp [Call.inputArgs, hia],
        by simpa [Call.outputArgs] using hoa⟩
  | addOutput _ _ | setExtraNonce _ | setPaymentId _ =>
    cases h
    exact ⟨by simpa [Call.inputArgs, addOutput, setExtraNonce, setPaymentId] using hin,
      by simp [Call.outputArgs, addOutput, setExtraNonce, setPaymentId, hout],
      by simp [Call.inputArgs, addOutput, setExtraNonce, setPaymentId, hia],
      by simp [Call.outputArgs, addOutput, setExtraNonce, setPaymentId, hoa]⟩

/-- A run of calls that all return keeps `Holds`. -/
theorem run_holds {b b' : TransactionBuilder} {pre calls : List Call} (hb : b.Holds cr pre)
    (h : run cr sorter b calls = .ok b') : b'.Holds cr (pre ++ calls) := by
  induction calls generalizing b pre with
  | nil => cases h; simpa using hb
  | cons c calls ih =>
    unfold run at h
    rw [List.foldlM_cons] at h
    cases hc : step cr sorter b c with
    | error e => simp [hc, bind, Except.bind] at h
    | ok b₁ =>
      simp only [hc, bind, Except.bind] at h
      simpa using ih (step_holds hb hc) h

/-- An `InputDesc` spending a call's real output, placed at position `i` of `tx` and signed
there, makes position `i` a `SignedRing` of that call over the `InputDesc`'s ring. -/
theorem signedRing_of_spends {tx : Transaction} {i : Nat} {d : InputDesc} {k : AccountKeys}
    {r : Output} {m : List Output} {sigs : List Signature} (hd : d.Spends cr k r m)
    (hin : tx.inputs[i]? = some (.key d.input)) (hsigs : tx.signatures[i]? = some sigs)
    (hsig : ∃ sig, cr.generateRingSignature
      (cr.getTransactionPrefixHash tx.toTransactionPrefix)
      d.input.key_image (d.outputs.map (·.public_key)) d.eph_keys.secret_key
      d.real_output_index = some sig ∧ sigs = (List.range d.outputs.length).map sig) :
    SignedRing cr tx i k r m d.outputs d.real_output_index d.eph_keys sigs := by
  obtain ⟨outputs, real_output_index, eph_keys, ⟨amount, offsets, key_image⟩⟩ := d
  have hp := hd.prefixSums
  have hinput : (⟨amount, offsets, key_image⟩ : KeyInput) = ⟨r.amount,
      absoluteOutputOffsetsToRelative (outputs.map (·.global_index)), r.key_image⟩ :=
    hd.input
  obtain ⟨rfl, rfl, rfl⟩ := KeyInput.mk.inj hinput
  obtain ⟨sig, hs, rfl⟩ := hsig
  exact ⟨⟨_, hin, hp⟩, hd.perm, hd.sorted, hd.real, hd.keys, hsigs, by simp, sig, hs, rfl⟩

/-- The outputs of a transaction that `sign` returns after a run of calls are the
`add_output` calls in some order, each paying its amount to a key derived for its
position from one transaction key. -/
theorem sign_outputs_match_calls {currency : Currency} {unlock_time : UnlockMoment}
    {calls : List Call} {b : TransactionBuilder}
    {out_order : Equiv.Perm (Fin b.output_descs.length)}
    {in_order : Equiv.Perm (Fin b.input_descs.length)} {seed : Hash} {tx : Transaction}
    (hrun : run cr sorter (create currency unlock_time) calls = .ok b)
    (hsign : b.sign cr out_order in_order seed = .ok tx) :
    ∃ tx_key, ∃ order : List OutputDesc, order.Perm (calls.filterMap Call.outputArgs) ∧
      List.Forall₂ (fun (p : Nat × OutputDesc) o => ∃ key,
        derivePublicKey cr p.2.addr tx_key p.1 = some key ∧ o = ⟨p.2.amount, ⟨key⟩⟩)
        order.enum tx.outputs := by
  obtain ⟨-, ⟨tx_key, h⟩, -⟩ := sign_spec hsign
  have hb := run_holds (holds_create currency unlock_time) hrun
  exact ⟨tx_key, _, (shuffle_perm _ _).trans (List.Perm.of_eq hb.outputs), h⟩

theorem sign_outputs_match_calls_demo :
    ∃ b tx, run demoCrypto insertionSorter (create demoCurrency 0) demoCalls = .ok b ∧
    b.sign demoCrypto (Equiv.refl _) (Equiv.refl _) ⟨5⟩ = .ok tx ∧
    ∃ tx_key, ∃ order : List OutputDesc, order.Perm (demoCalls.filterMap Call.outputArgs) ∧
      List.Forall₂ (fun (p : Nat × OutputDesc) o => ∃ key,
        derivePublicKey demoCrypto p.2.addr tx_key p.1 = some key ∧ o = ⟨p.2.amount, ⟨key⟩⟩)
        order.enum tx.outputs :=
  ⟨_, _, rfl, rfl, @sign_outputs_match_calls demoCrypto insertionSorter demoCurrency 0 demoCalls
    _ (Equiv.refl _) (Equiv.refl _) ⟨5⟩ _ rfl rfl⟩

/-- A call leaves the version and the unlock time alone, and sets only the nonce of the
extra. -/
theorem step_frame {b b' : TransactionBuilder} {c : Call} (h : step cr sorter b c = .ok b') :
    b'.transaction.version = b.transaction.version ∧
    b'.transaction.unlock_time = b.transaction.unlock_time ∧
    b'.extra = ⟨Call.nonceAfter cr b.extra.nonce [c], b.extra.public_key⟩ := by
  cases c with
  | addInput k r m =>
    cases hd : inputDesc cr sorter k r m with
    | error e => simp [step, addInput, hd] at h
    | ok d =>
      simp only [step, addInput, hd, Except.ok.injEq] at h
      subst h
      exact ⟨rfl, rfl, rfl⟩
  | addOutput _ _ | setExtraNonce _ | setPaymentId _ =>
    cases h
    exact ⟨rfl, rfl, rfl⟩

theorem run_frame {b b' : TransactionBuilder} {calls : List Call}
    (h : run cr sorter b calls = .ok b') :
    b'.transaction.version = b.transaction.version ∧
    b'.transaction.unlock_time = b.transaction.unlock_time ∧
    b'.extra = ⟨Call.nonceAfter cr b.extra.nonce calls, b.extra.public_key⟩ := by
  induction calls generalizing b with
  | nil => cases h; exact ⟨rfl, rfl, rfl⟩
  | cons c calls ih =>
    unfold run at h
    rw [List.foldlM_cons] at h
    cases hc : step cr sorter b c with
    | error e => simp [hc, bind, Except.bind] at h
    | ok b₁ =>
      simp only [hc, bind, Except.bind] at h
      obtain ⟨hv, hu, he⟩ := step_frame hc
      obtain ⟨hv', hu', he'⟩ := ih h
      rw [Call.nonceAfter_cons]
      exact ⟨hv'.trans hv, hu'.trans hu, by rw [he', he]⟩

/-- `sign` keeps the version and the unlock time, and writes into the extra the public key
of the transaction key that it derives every output key from. -/
theorem sign_header {b : TransactionBuilder} {out_order : Equiv.Perm (Fin b.output_descs.length)}
    {in_order : Equiv.Perm (Fin b.input_descs.length)} {seed : Hash} {tx : Transaction}
    (h : b.sign cr out_order in_order seed = .ok tx) :
    tx.version = b.transaction.version ∧ tx.unlock_time = b.transaction.unlock_time ∧
    ∃ tx_key, tx.extra =
        cr.serialize { b.extra with public_key := some (cr.secretKeyToPublicKey tx_key) } ∧
      List.Forall₂ (fun (p : Nat × OutputDesc) o => ∃ key,
        derivePublicKey cr p.2.addr tx_key p.1 = some key ∧ o = ⟨p.2.amount, ⟨key⟩⟩)
        (shuffle b.output_descs out_order).enum tx.outputs := by
  unfold sign at h
  simp only [bind, Except.bind] at h
  split at h
  · cases h
  · rename_i outs houts
    split at h
    · cases h
    · cases h
      exact ⟨rfl, rfl, _, rfl, outputKeys_spec houts⟩

/-- After calls that all return, `sign` keeps the version and the unlock time the builder
was made with, and its extra carries the nonce of the last `set_extra_nonce` or
`set_payment_id` call together with the public key of the one transaction key every output
key is derived from, so a receiver that scans with that public key finds its outputs. -/
theorem sign_extra (currency : Currency) (unlock_time : UnlockMoment) (calls : List Call)
    {b : TransactionBuilder} {out_order : Equiv.Perm (Fin b.output_descs.length)}
    {in_order : Equiv.Perm (Fin b.input_descs.length)} {seed : Hash} {tx : Transaction}
    (hrun : run cr sorter (create currency unlock_time) calls = .ok b)
    (hsign : b.sign cr out_order in_order seed = .ok tx) :
    tx.version = currency.current_transaction_version ∧ tx.unlock_time = unlock_time ∧
    ∃ tx_key, tx.extra = cr.serialize
        ⟨Call.nonceAfter cr none calls, some (cr.secretKeyToPublicKey tx_key)⟩ ∧
      List.Forall₂ (fun (p : Nat × OutputDesc) o => ∃ key,
        derivePublicKey cr p.2.addr tx_key p.1 = some key ∧ o = ⟨p.2.amount, ⟨key⟩⟩)
        (shuffle b.output_descs out_order).enum tx.outputs := by
  obtain ⟨hv, hu, he⟩ := run_frame hrun
  obtain ⟨hv', hu', tx_key, hx, hk⟩ := sign_header hsign
  exact ⟨hv'.trans hv, hu'.trans hu, tx_key, by rw [hx, he]; rfl, hk⟩

theorem sign_extra_demo :
    ∃ b tx, run demoCrypto insertionSorter (create demoCurrency 0) demoCalls = .ok b ∧
    b.sign demoCrypto (Equiv.refl _) (Equiv.refl _) ⟨5⟩ = .ok tx ∧
    tx.version = demoCurrency.current_transaction_version ∧ tx.unlock_time = 0 ∧
    ∃ tx_key, tx.extra = demoCrypto.serialize
        ⟨Call.nonceAfter demoCrypto none demoCalls,
          some (demoCrypto.secretKeyToPublicKey tx_key)⟩ ∧
      List.Forall₂ (fun (p : Nat × OutputDesc) o => ∃ key,
        derivePublicKey demoCrypto p.2.addr tx_key p.1 = some key ∧ o = ⟨p.2.amount, ⟨key⟩⟩)
        (shuffle b.output_descs (Equiv.refl _)).enum tx.outputs :=
  ⟨_, _, rfl, rfl, @sign_extra demoCrypto insertionSorter demoCurrency 0 demoCalls
    _ (Equiv.refl _) (Equiv.refl _) ⟨5⟩ _ rfl rfl⟩

/-- Every input of a transaction that `sign` returns after a run of calls spends the real
output of its own `add_input` call: the calls, listed in the order of the inputs they
became, are a permutation of the `add_input` calls, and position `i` is a `SignedRing` of
the `i`-th of them. -/
theorem sign_inputs_match_calls {currency : Currency} {unlock_time : UnlockMoment}
    {calls : List Call} {b : TransactionBuilder}
    {out_order : Equiv.Perm (Fin b.output_descs.length)}
    {in_order : Equiv.Perm (Fin b.input_descs.length)} {seed : Hash} {tx : Transaction}
    (hrun : run cr sorter (create currency unlock_time) calls = .ok b)
    (hsign : b.sign cr out_order in_order seed = .ok tx) :
    tx.signatures.length = tx.inputs.length ∧
    ∃ order, order.Perm (calls.filterMap Call.inputArgs) ∧
      List.Forall₂ (SignsFor cr tx) (List.range tx.inputs.length) order := by
  have hb := run_holds (holds_create currency unlock_time) hrun
  obtain ⟨hin, -, hsig⟩ := sign_spec hsign
  obtain ⟨order, hF, hP⟩ := List.perm_comp_forall₂ (shuffle_perm b.input_descs in_order) hb.inputs
  have hlen : tx.inputs.length = (shuffle b.input_descs in_order).length := by simp [hin]
  refine ⟨by rw [hlen, hsig.length_eq], order, hP, List.forall₂_iff_get.mpr
    ⟨by simp [hlen, hF.length_eq], fun i h₁ h₂ => ?_⟩⟩
  have hi : i < (shuffle b.input_descs in_order).length := by simpa [hlen] using h₁
  have hs : i < tx.signatures.length := hsig.length_eq ▸ hi
  rw [List.get_eq_getElem, List.getElem_range]
  exact ⟨_, _, _, _, signedRing_of_spends (hF.get hi h₂)
    (by simp [hin, List.getElem?_eq_getElem hi]) (List.getElem?_eq_getElem hs) (hsig.get hi hs)⟩

end TransactionBuilder

theorem sign_inputs_match_calls_demo :
    ∃ b tx, TransactionBuilder.run demoCrypto insertionSorter
      (TransactionBuilder.create demoCurrency 0) demoCalls = .ok b ∧
    b.sign demoCrypto (Equiv.refl _) (Equiv.refl _) ⟨5⟩ = .ok tx ∧ tx.signatures.length = tx.inputs.length ∧
    ∃ order, order.Perm (demoCalls.filterMap Call.inputArgs) ∧
      List.Forall₂ (SignsFor demoCrypto tx) (List.range tx.inputs.length) order :=
  ⟨_, _, rfl, rfl, @TransactionBuilder.sign_inputs_match_calls demoCrypto insertionSorter
    demoCurrency 0 demoCalls _ (Equiv.refl _) (Equiv.refl _) ⟨5⟩ _ rfl rfl⟩

/-- Two `add_input` calls with the same arguments. -/
def duplicateInputCalls : List Call :=
  [.addInput demoKeys (demoCoin 1 5 false) [], .addInput demoKeys (demoCoin 1 5 false) []]

/-- Two `add_input` calls with the same arguments both match the first input, so no call
is the only one that does. -/
theorem sign_duplicate_input_calls :
    ∃ b tx, TransactionBuilder.run demoCrypto insertionSorter
      (TransactionBuilder.create demoCurrency 0) duplicateInputCalls = .ok b ∧
    b.sign demoCrypto (Equiv.refl _) (Equiv.refl _) ⟨0⟩ = .ok tx ∧
    SignsFor demoCrypto tx 0 (demoKeys, demoCoin 1 5 false, []) ∧
    ¬ ∀ i < tx.inputs.length, ∃! j : Fin (duplicateInputCalls.filterMap Call.inputArgs).length,
      SignsFor demoCrypto tx i (duplicateInputCalls.filterMap Call.inputArgs)[j] := by
  have key : ∀ tx, SignsFor demoCrypto tx 0 (demoKeys, demoCoin 1 5 false, []) →
      ¬ ∀ i < tx.inputs.length, ∃! j : Fin (duplicateInputCalls.filterMap Call.inputArgs).length,
        SignsFor demoCrypto tx i (duplicateInputCalls.filterMap Call.inputArgs)[j] := by
    intro tx hs h
    obtain ⟨_, _, _, _, ⟨_, hk, -⟩, -⟩ := id hs
    have hlen : 0 < tx.inputs.length := by
      by_contra hlt; rw [List.getElem?_eq_none (by omega)] at hk; cases hk
    obtain ⟨j, -, huniq⟩ := h 0 hlen
    exact absurd ((huniq ⟨0, by decide⟩ hs).trans (huniq ⟨1, by decide⟩ hs).symm) (by decide)
  refine ⟨_, _, rfl, rfl, ?hs, key _ ?hs⟩
  exact ⟨[demoCoin 1 5 false], 0, ⟨⟨1⟩, ⟨0⟩⟩, [⟨3⟩], ⟨[1], rfl, rfl⟩, .refl _,
    List.sorted_singleton _, rfl, rfl, rfl, rfl, _, rfl, rfl⟩

end Varcoin
