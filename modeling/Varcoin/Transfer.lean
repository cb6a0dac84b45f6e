import Varcoin.Builder.Mixins
import Varcoin.Selector.Run

/-!
# A transfer, from the selection to the signed transaction

The wallet's transfer runs the pieces modelled apart in one order: `select_optimal_outputs`
on a fresh selector, the builder calls for the destinations and extras, `add_mixed_inputs`
for the coins the selector committed, and `sign`.  Each piece has its own spec, and this
module puts them together.  The coins of an `OK` answer are spendable entries of the pool,
each taken at most as often as the pool holds it (`ok_used_unspents`); `add_mixed_inputs`
extends the run of calls by one `add_input` call per committed coin
(`addMixedLoop_holds`); and `sign` pairs each input of the transaction with one of the
calls (`sign_inputs_of_holds`).  So the signed transaction spends the committed coins and
the run's own inputs, each at one input position, and nothing else
(`transfer_spends_selection`).  Its amounts are the ones the builder counted: the inputs
sum to `m_inputs_amount` and the outputs to `m_outputs_amount` (`sign_amounts`), and
`add_mixed_inputs` raises `m_inputs_amount` by the selector's `m_used_total`.
-/

namespace Varcoin

namespace TransactionBuilder

variable {cr : Crypto}

/-- What `sign` returns from a builder that holds for a list of calls: the calls, listed in
the order of the inputs they became, are a permutation of the `add_input` calls, and
position `i` is a `SignedRing` of the `i`-th of them. -/
theorem sign_inputs_of_holds {b : TransactionBuilder} {calls : List Call}
    (hb : b.Holds cr calls) {out_order : Equiv.Perm (Fin b.output_descs.length)}
    {in_order : Equiv.Perm (Fin b.input_descs.length)} {seed : Hash} {tx : Transaction}
    (hsign : b.sign cr out_order in_order seed = .ok tx) :
    tx.signatures.length = tx.inputs.length ∧
    ∃ order, order.Perm (calls.filterMap Call.inputArgs) ∧
      List.Forall₂ (SignsFor cr tx) (List.range tx.inputs.length) order := by
  obtain ⟨hin, -, hsig⟩ := sign_spec hsign
  obtain ⟨order, hF, hP⟩ :=
    List.perm_comp_forall₂ (shuffle_perm b.input_descs in_order) hb.inputs
  have hlen : tx.inputs.length = (shuffle b.input_descs in_order).length := by simp [hin]
  refine ⟨by rw [hlen, hsig.length_eq], order, hP, List.forall₂_iff_get.mpr
    ⟨by simp [hlen, hF.length_eq], fun i h₁ h₂ => ?_⟩⟩
  have hi : i < (shuffle b.input_descs in_order).length := by simpa [hlen] using h₁
  have hs : i < tx.signatures.length := hsig.length_eq ▸ hi
  rw [List.get_eq_getElem, List.getElem_range]
  exact ⟨_, _, _, _, signedRing_of_spends (hF.get hi h₂)
    (by simp [hin, List.getElem?_eq_getElem hi]) (List.getElem?_eq_getElem hs) (hsig.get hi hs)⟩

/-- The input amounts of a builder that holds for its calls are the amounts of the real
outputs of its `add_input` calls, in call order. -/
theorem Holds.input_amounts {b : TransactionBuilder} {calls : List Call}
    (hb : b.Holds cr calls) :
    b.input_descs.map (·.input.amount) = (calls.filterMap Call.inputArgs).map (·.2.1.amount) := by
  rw [← List.forall₂_eq_eq_eq, List.forall₂_map_left_iff, List.forall₂_map_right_iff]
  exact hb.inputs.imp fun _ _ hd => by rw [hd.input]

/-- A transaction that `sign` returns after a run of calls carries the amounts the builder
counted.  Its inputs are all `KeyInput`s, and their amounts sum, in `uint64`, to
`m_inputs_amount`, the sum of the real outputs of the `add_input` calls; its outputs sum
to `m_outputs_amount`, the sum of the amounts of the `add_output` calls. -/
theorem sign_amounts {sorter : Sorter} {currency : Currency} {unlock_time : UnlockMoment}
    {calls : List Call} {b : TransactionBuilder}
    {out_order : Equiv.Perm (Fin b.output_descs.length)}
    {in_order : Equiv.Perm (Fin b.input_descs.length)} {seed : Hash} {tx : Transaction}
    (hrun : run cr sorter (create currency unlock_time) calls = .ok b)
    (hsign : b.sign cr out_order in_order seed = .ok tx) :
    (tx.inputs.filterMap TransactionInput.getKey).length = tx.inputs.length ∧
    ((tx.inputs.filterMap TransactionInput.getKey).map (·.amount)).sum = b.inputs_amount ∧
    (tx.outputs.map (·.amount)).sum = b.outputs_amount ∧
    b.inputs_amount = ((calls.filterMap Call.inputArgs).map (·.2.1.amount)).sum ∧
    b.outputs_amount = ((calls.filterMap Call.outputArgs).map (·.amount)).sum := by
  have hb : b.Holds cr calls := by simpa using run_holds (holds_create currency unlock_time) hrun
  obtain ⟨hin, ⟨_, hout⟩, -⟩ := sign_spec hsign
  have hkeys : tx.inputs.filterMap TransactionInput.getKey =
      (shuffle b.input_descs in_order).map (·.input) := by
    rw [hin, List.filterMap_map]
    exact congrFun (List.filterMap_eq_map (InputDesc.input)) _
  have houts : tx.outputs.map (·.amount) = (shuffle b.output_descs out_order).map (·.amount) := by
    calc tx.outputs.map (·.amount)
        = ((shuffle b.output_descs out_order).enum.map Prod.snd).map (·.amount) := by
          rw [List.map_map, ← List.forall₂_eq_eq_eq, List.forall₂_map_left_iff,
            List.forall₂_map_right_iff]
          exact hout.flip.imp fun _ _ ⟨_, _, ho⟩ => by rw [ho]; rfl
      _ = (shuffle b.output_descs out_order).map (·.amount) := by rw [List.enum_map_snd]
  refine ⟨by rw [hkeys, hin]; simp, ?_, ?_, hb.inputs_amount, hb.outputs_amount⟩
  · calc ((tx.inputs.filterMap TransactionInput.getKey).map (·.amount)).sum
        = ((shuffle b.input_descs in_order).map (·.input.amount)).sum := by
          rw [hkeys, List.map_map]; rfl
      _ = (b.input_descs.map (·.input.amount)).sum := ((shuffle_perm _ _).map _).sum_eq
      _ = b.inputs_amount := by rw [hb.input_amounts, hb.inputs_amount]
  · calc (tx.outputs.map (·.amount)).sum
        = ((shuffle b.output_descs out_order).map (·.amount)).sum := by rw [houts]
      _ = (b.output_descs.map (·.amount)).sum := ((shuffle_perm _ _).map _).sum_eq
      _ = b.outputs_amount := by rw [hb.outputs, hb.outputs_amount]

theorem sign_amounts_demo :
    ∃ b tx, run demoCrypto insertionSorter (create demoCurrency 0) demoCalls = .ok b ∧
    b.sign demoCrypto (Equiv.refl _) (Equiv.refl _) ⟨5⟩ = .ok tx ∧
    (tx.inputs.filterMap TransactionInput.getKey).length = tx.inputs.length ∧
    ((tx.inputs.filterMap TransactionInput.getKey).map (·.amount)).sum = b.inputs_amount ∧
    (tx.outputs.map (·.amount)).sum = b.outputs_amount ∧
    b.inputs_amount = ((demoCalls.filterMap Call.inputArgs).map (·.2.1.amount)).sum ∧
    b.outputs_amount = ((demoCalls.filterMap Call.outputArgs).map (·.amount)).sum :=
  ⟨_, _, rfl, rfl, @sign_amounts demoCrypto insertionSorter demoCurrency 0 demoCalls _
    (Equiv.refl _) (Equiv.refl _) ⟨5⟩ _ rfl rfl⟩

end TransactionBuilder

/-- The `add_input` calls of a run followed by one call per `(keys, real output, mixins)`
triple are the run's own calls followed by the triples. -/
theorem inputArgs_append_add_inputs (calls : List Call)
    (mixed : List (AccountKeys × Output × List Output)) :
    (calls ++ mixed.map fun c => Call.addInput c.1 c.2.1 c.2.2).filterMap Call.inputArgs =
      calls.filterMap Call.inputArgs ++ mixed := by
  simp [List.filterMap_map, Function.comp_def, Call.inputArgs]

namespace UnspentSelector

/-- The coins an `OK` answer from a fresh selector over a positive pool commits are
spendable entries of the pool, each taken at most as often as the pool holds it, and
`m_used_total` is their `uint64` sum: the optimization picks have all been folded in. -/
theorem ok_used_unspents {cur : Currency} {unspents : List Output}
    (hpos : ∀ c ∈ unspents, 0 < c.amount) {block_height : Height} {block_time : Timestamp}
    {confirmed_height : Height} {effective_median_size anonymity : Nat} {total_amount : Amount}
    {total_outputs : Nat} {fee_per_byte : Amount} {optimization_level : String} {fuel : Nat}
    {change : Option Amount} {sel : UnspentSelector}
    (h : (create unspents).selectOptimalOutputs cur block_height block_time confirmed_height
      effective_median_size anonymity total_amount total_outputs fee_per_byte
      optimization_level fuel = some (.done ("", change, sel))) :
    sel.used_unspents.Subperm (unspents.filter
      (spendable cur block_height block_time confirmed_height)) ∧
    sel.used_total = (sel.used_unspents.map (·.amount)).sum := by
  have hd := onDone_select_optimal_outputs (P := fun r => r.1 = "" →
      r.2.2.Sound cur anonymity (unspents.filter
        (spendable cur block_height block_time confirmed_height)) ∧
      r.2.2.optimization_unspents = []) cur (create unspents) block_height block_time
    confirmed_height effective_median_size anonymity total_amount total_outputs fee_per_byte
    optimization_level fuel fun _ status _ _ hr hf hst =>
      ⟨finish_sound (fresh_after_conserves hpos hr hf) unspents status,
        by subst hst; simp [finish, combineOptimizedUnspents]⟩
  rw [h] at hd
  obtain ⟨hs, ho : sel.optimization_unspents = []⟩ := hd rfl
  simpa [ho] using And.intro hs.subperm hs.used_total

end UnspentSelector

/-- A transfer, end to end.  A fresh selector over a pool of positive amounts answers `OK`
with the selector `sel`; a run of calls builds `b` from a new builder; `add_mixed_inputs`
adds the coins `sel` committed to it; and `sign` returns `tx`.  Then the committed coins
are spendable entries of the pool, each taken at most as often as the pool holds it, and
`m_inputs_amount` has grown by `m_used_total`, their `uint64` sum.  The inputs of `tx`, in
their order, are the `add_input` calls of the run and one call per committed coin, in some
order: each committed coin is the real output of its own call, with `anonymity` mixins,
and input position `i` spends the real output of the `i`-th call. -/
theorem transfer_spends_selection {cur : Currency} {cr : Crypto} {sorter : Sorter}
    {unspents : List Output} (hpos : ∀ c ∈ unspents, 0 < c.amount) {block_height : Height}
    {block_time : Timestamp} {confirmed_height : Height} {effective_median_size : Nat}
    {anonymity : UInt32} {total_amount : Amount} {total_outputs : Nat} {fee_per_byte : Amount}
    {optimization_level : String} {fuel : Nat} {change : Option Amount} {sel : UnspentSelector}
    (hsel : (UnspentSelector.create unspents).selectOptimalOutputs cur block_height block_time
      confirmed_height effective_median_size anonymity.toNat total_amount total_outputs
      fee_per_byte optimization_level fuel = some (.done ("", change, sel)))
    {unlock_time : UnlockMoment} {calls : List Call} {b b' : TransactionBuilder}
    (hrun : TransactionBuilder.run cr sorter (TransactionBuilder.create cur unlock_time) calls =
      .ok b)
    {view_secret_key : SecretKey} {wallet_records : PublicKey → Option WalletRecord}
    {ra_response : StdMap (List Output)}
    (hmix : sel.addMixedInputs cur cr sorter view_secret_key wallet_records anonymity b
      ra_response = .ok () b')
    {out_order : Equiv.Perm (Fin b'.output_descs.length)}
    {in_order : Equiv.Perm (Fin b'.input_descs.length)} {seed : Hash} {tx : Transaction}
    (hsign : b'.sign cr out_order in_order seed = .ok tx) :
    sel.used_unspents.Subperm (unspents.filter
      (spendable cur block_height block_time confirmed_height)) ∧
    b'.inputs_amount = b.inputs_amount + sel.used_total ∧
    tx.signatures.length = tx.inputs.length ∧
    ∃ mixed : List (AccountKeys × Output × List Output),
      mixed.map (·.2.1) = sel.used_unspents ∧
      (∀ c ∈ mixed, c.2.2.length = anonymity.toNat) ∧
      ∃ order, order.Perm (calls.filterMap Call.inputArgs ++ mixed) ∧
        List.Forall₂ (SignsFor cr tx) (List.range tx.inputs.length) order := by
  obtain ⟨hsub, htotal⟩ := UnspentSelector.ok_used_unspents hpos hsel
  have hb : b.Holds cr calls := by
    simpa using TransactionBuilder.run_holds (TransactionBuilder.holds_create cur unlock_time) hrun
  obtain ⟨mixed, hmap, hlen, hb'⟩ := addMixedLoop_holds hb hmix
  obtain ⟨hsigs, order, hperm, hF⟩ := TransactionBuilder.sign_inputs_of_holds hb' hsign
  have hia := hb'.inputs_amount
  rw [inputArgs_append_add_inputs] at hperm hia
  refine ⟨hsub, ?_, hsigs, mixed, hmap, hlen, order, hperm, hF⟩
  rw [hia, hb.inputs_amount, htotal, ← hmap]
  simp [List.map_map, Function.comp_def]

/-- The node's outputs of amount 100, read from the back: indexes 7, 1 and 4. -/
def transferResponse : StdMap (List Output) :=
  StdMap.empty.insert 100 [demoCoin 7 100 false, demoCoin 1 100 false, demoCoin 4 100 false]

/-- One coin of 100 in the pool and a transfer of 50 with two mixins: the selector commits
the coin, the node's response gives it its mixins, and the transaction is signed. -/
theorem transfer_spends_selection_demo :
    ∃ change sel b b' tx,
      (UnspentSelector.create [demoCoin 1 100 false]).selectOptimalOutputs demoCurrency 100 0
        100 100000 2 50 1 0 "" 1 = some (.done ("", change, sel)) ∧
      TransactionBuilder.run demoCrypto insertionSorter (TransactionBuilder.create demoCurrency 0)
        [.addOutput 50 ⟨⟨3⟩, ⟨4⟩⟩] = .ok b ∧
      sel.addMixedInputs demoCurrency demoCrypto insertionSorter ⟨0⟩ demoWallet 2 b
        transferResponse = .ok () b' ∧
      b'.sign demoCrypto (Equiv.refl _) (Equiv.refl _) ⟨5⟩ = .ok tx ∧
      sel.used_unspents.Subperm
        ([demoCoin 1 100 false].filter (spendable demoCurrency 100 0 100)) ∧
      b'.inputs_amount = b.inputs_amount + sel.used_total ∧
      tx.signatures.length = tx.inputs.length ∧
      ∃ mixed : List (AccountKeys × Output × List Output),
        mixed.map (·.2.1) = sel.used_unspents ∧ (∀ c ∈ mixed, c.2.2.length = 2) ∧
        ∃ order,
          order.Perm (([.addOutput 50 ⟨⟨3⟩, ⟨4⟩⟩] : List Call).filterMap Call.inputArgs ++ mixed) ∧
          List.Forall₂ (SignsFor demoCrypto tx) (List.range tx.inputs.length) order :=
  ⟨_, _, _, _, _, rfl, rfl, rfl, rfl, @transfer_spends_selection demoCurrency demoCrypto
    insertionSorter [demoCoin 1 100 false] (by decide) 100 0 100 100000 2 50 1 0 "" 1 _ _ rfl 0
    [.addOutput 50 ⟨⟨3⟩, ⟨4⟩⟩] _ _ rfl ⟨0⟩
    demoWallet transferResponse rfl (Equiv.refl _) (Equiv.refl _) ⟨5⟩ _ rfl⟩

end Varcoin
