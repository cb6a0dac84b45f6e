import Varcoin.Builder.Sign
import Varcoin.Selector.Outer

/-!
# Mixing the selected coins: `add_mixed_inputs`

For each used unspent, `add_mixed_inputs` pops outputs off the back of the node's vector
for that amount until it has `anonymity` mixins, skipping outputs with the unspent's own
global index, looks up the spend key of the unspent's address in the wallet and calls
`add_input`.  The vector is shared by all unspents of one amount, so each draws from what
the previous ones left.

`add_mixed_inputs_rings` says what a call that returns leaves: one input per used unspent,
with a ring of `anonymity + 1` outputs whose decoded global indexes never decrease and
which holds the real output's global index once.  The mixins are only filtered against
the real output, so the indexes increase strictly when the node's vectors hold distinct
indexes, and only then.  Across inputs no output of the response is drawn twice: for each
amount, the mixins of its inputs, in input order, are a sublist of its vector
(`add_mixed_inputs_draws`).  `add_mixed_inputs_error` says what a call that throws leaves.
-/

namespace Varcoin

/-- The exceptions of `add_mixed_inputs`: `std::runtime_error`, and `json_rpc::Error` with
code `json_rpc::INVALID_PARAMS`. -/
inductive AddMixedError where
  | runtime_error (what : String)
  | invalid_params (message : String)
  deriving DecidableEq, Repr

/-- The spend keys the wallet holds for an address. -/
structure WalletRecord where
  spend_public_key : PublicKey
  spend_secret_key : SecretKey
  deriving DecidableEq, Repr

/-- The `while` loop of `add_mixed_inputs`: pop outputs off `our_ra_outputs` (its head is
the vector's back) into `mix_outputs`, skipping those with `uu`'s global index, until there
are `anonymity`.  Gives the mixins and what is left of the vector. -/
def drawMixins (uu : Output) (anonymity : UInt32) :
    List Output → List Output → Except AddMixedError (List Output × List Output)
  | mix_outputs, [] =>
    if mix_outputs.length < anonymity.toNat then
      .error (.runtime_error ("Not enough anonymity for amount " ++ toString uu.amount))
    else .ok (mix_outputs, [])
  | mix_outputs, out :: our_ra_outputs =>
    if mix_outputs.length < anonymity.toNat then
      drawMixins uu anonymity
        (if out.global_index ≠ uu.global_index then mix_outputs ++ [out] else mix_outputs)
        our_ra_outputs
    else .ok (mix_outputs, out :: our_ra_outputs)

section AddMixed

variable (currency : Currency) (cr : Crypto) (sorter : Sorter) (view_secret_key : SecretKey)
  (wallet_records : PublicKey → Option WalletRecord) (anonymity : UInt32)

/-- The body of the loop of `add_mixed_inputs` for one used unspent `uu`: the response
left for the next unspent, with the builder as state. -/
def addMixedInput (uu : Output) (b : TransactionBuilder) (ra_outputs : StdMap (List Output)) :
    EStateM.Result AddMixedError TransactionBuilder (StdMap (List Output)) :=
  match drawMixins uu anonymity [] ((ra_outputs.find? uu.amount.toNat).getD []) with
  | .error e => .error e b
  | .ok (mix_outputs, rest) =>
    match currency.parseAccountAddressString uu.address with
    | none => .error (.invalid_params ("Could not parse address " ++ uu.address)) b
    | some address =>
      match wallet_records address.spend_public_key with
      | none => .error (.invalid_params ("No keys in wallet for address " ++ uu.address)) b
      | some record =>
        if record.spend_public_key ≠ address.spend_public_key then
          .error (.invalid_params ("No keys in wallet for address " ++ uu.address)) b
        else
          match b.addInput cr sorter ⟨address, record.spend_secret_key, view_secret_key⟩ uu
              mix_outputs with
          | .error e b => .error (.runtime_error e) b
          | .ok _ b => .ok (ra_outputs.insert uu.amount.toNat rest) b

/-- The loop of `add_mixed_inputs` over the used unspents. -/
def addMixedLoop :
    List Output → TransactionBuilder → StdMap (List Output) →
      EStateM.Result AddMixedError TransactionBuilder Unit
  | [], b, _ => .ok () b
  | uu :: used, b, ra_outputs =>
    match addMixedInput currency cr sorter view_secret_key wallet_records anonymity uu b
        ra_outputs with
    | .error e b => .error e b
    | .ok ra_outputs b => addMixedLoop used b ra_outputs

/-- `add_mixed_inputs(view_secret_key, wallet_records, builder, anonymity, ra_response)`:
the response's `outputs` map, keyed by amount, with each vector read from its back. -/
def UnspentSelector.addMixedInputs (sel : UnspentSelector) (builder : TransactionBuilder)
    (ra_response : StdMap (List Output)) : EStateM.Result AddMixedError TransactionBuilder Unit :=
  addMixedLoop currency cr sorter view_secret_key wallet_records anonymity sel.used_unspents
    builder ra_response

end AddMixed

/-! ## The rings `add_mixed_inputs` builds -/

/-- The mixins a draw keeps out of the outputs it popped: those not at `uu`'s index. -/
def keptMixins (uu : Output) (taken : List Output) : List Output :=
  taken.filter fun o => decide (o.global_index ≠ uu.global_index)

/-- A draw that returns pops a prefix `taken` of the vector, keeps its outputs not at the
real output's index, and stops with exactly `anonymity` mixins. -/
theorem drawMixins_spec {uu : Output} {anonymity : UInt32} {mix stack mix' rest : List Output}
    (h : drawMixins uu anonymity mix stack = .ok (mix', rest))
    (hle : mix.length ≤ anonymity.toNat) :
    mix'.length = anonymity.toNat ∧ ∃ taken, stack = taken ++ rest ∧
      mix' = mix ++ keptMixins uu taken := by
  induction stack generalizing mix with
  | nil =>
    unfold drawMixins at h
    split_ifs at h with hlt
    cases h
    exact ⟨by omega, [], rfl, by simp [keptMixins]⟩
  | cons out stack ih =>
    unfold drawMixins at h
    by_cases hlt : mix.length < anonymity.toNat
    · rw [if_pos hlt] at h
      have hle₁ : (if out.global_index ≠ uu.global_index then mix ++ [out] else mix).length ≤
          anonymity.toNat := by
        split_ifs <;> (try simp only [List.length_append, List.length_singleton]) <;> omega
      obtain ⟨hlen, taken, rfl, rfl⟩ := ih h hle₁
      refine ⟨hlen, out :: taken, rfl, ?_⟩
      by_cases hout : out.global_index = uu.global_index <;> simp [keptMixins, hout]
    · rw [if_neg hlt] at h
      cases h
      exact ⟨by omega, [], rfl, by simp [keptMixins]⟩

/-- The ring `add_mixed_inputs` gives the input of the used unspent `uu`: `anonymity`
mixins and `uu` at `real_output_index`, with `uu`'s global index once, and offsets that
decode to the ring's global indexes, which never decrease. -/
structure MixedRing (anonymity : UInt32) (uu : Output) (d : InputDesc) : Prop where
  length : d.outputs.length = anonymity.toNat + 1
  real : d.outputs[d.real_output_index]? = some uu
  real_once : (d.outputs.map (·.global_index)).count uu.global_index = 1
  decodes : prefixSums 0 d.input.output_indexes = d.outputs.map (·.global_index.toNat)
  ascending : (prefixSums 0 d.input.output_indexes).Sorted (· ≤ ·)

/-- Every vector of the node's response lists pairwise distinct global indexes. -/
def DistinctIndexes (ra_outputs : StdMap (List Output)) : Prop :=
  ∀ k l, ra_outputs.find? k = some l → (l.map (·.global_index)).Nodup

theorem mixedRing_of_spends {cr : Crypto} {k : AccountKeys} {anonymity : UInt32}
    {uu : Output} {taken : List Output} {d : InputDesc}
    (hd : d.Spends cr k uu (keptMixins uu taken))
    (hlen : (keptMixins uu taken).length = anonymity.toNat) : MixedRing anonymity uu d where
  length := by rw [hd.perm.length_eq, List.length_append, hlen]; rfl
  real := hd.real
  real_once := by
    rw [(hd.perm.map _).count_eq, List.map_append, List.count_append, keptMixins]
    simp [List.count_eq_zero]
  decodes := hd.prefixSums
  ascending := by rw [hd.prefixSums]; exact List.pairwise_map.mpr hd.sorted

/-- Mixins drawn from a vector of distinct indexes make a ring of distinct indexes, whose
decoded indexes increase strictly. -/
theorem MixedRing.strict {cr : Crypto} {k : AccountKeys} {anonymity : UInt32}
    {uu : Output} {taken rest : List Output} {d : InputDesc}
    (hd : d.Spends cr k uu (keptMixins uu taken)) (hr : MixedRing anonymity uu d)
    (hnd : ((taken ++ rest).map (·.global_index)).Nodup) :
    (prefixSums 0 d.input.output_indexes).Sorted (· < ·) := by
  have hkept : ((keptMixins uu taken).map (·.global_index)).Nodup :=
    ((List.nodup_append.mp (List.map_append _ _ _ ▸ hnd)).1).sublist
      ((List.filter_sublist _).map _)
  have hnot : uu.global_index ∉ (keptMixins uu taken).map (·.global_index) := by
    simp [keptMixins]
  have hring : ((keptMixins uu taken ++ [uu]).map (·.global_index)).Nodup := by
    rw [List.map_append]
    exact hkept.append (List.nodup_singleton _) (List.disjoint_singleton.mpr hnot)
  have hinj : Function.Injective UInt32.toNat := fun _ _ h => UInt32.toNat.inj h
  have hnat : (d.outputs.map (·.global_index.toNat)).Nodup := by
    simpa [List.map_map] using ((hd.perm.map _).nodup_iff.mpr hring).map hinj
  have hasc := hr.ascending
  rw [hr.decodes] at hasc ⊢
  exact hasc.lt_of_le hnat

section AddMixed

variable {currency : Currency} {cr : Crypto} {sorter : Sorter} {view_secret_key : SecretKey}
  {wallet_records : PublicKey → Option WalletRecord} {anonymity : UInt32}

/-- One used unspent that goes through adds one `InputDesc` spending it, with the mixins
kept from a prefix of its amount's vector, and leaves the rest of the vector. -/
theorem addMixedInput_spec {uu : Output} {b b' : TransactionBuilder}
    {ra_outputs ra_outputs' : StdMap (List Output)}
    (h : addMixedInput currency cr sorter view_secret_key wallet_records anonymity uu b
      ra_outputs = .ok ra_outputs' b') :
    ∃ d k taken rest, b'.input_descs = b.input_descs ++ [d] ∧
      d.Spends cr k uu (keptMixins uu taken) ∧ (keptMixins uu taken).length = anonymity.toNat ∧
      (ra_outputs.find? uu.amount.toNat).getD [] = taken ++ rest ∧
      ra_outputs' = ra_outputs.insert uu.amount.toNat rest := by
  unfold addMixedInput at h
  split at h
  · cases h
  rename_i mix rest hdraw
  obtain ⟨hlen, taken, hstack, rfl⟩ := drawMixins_spec hdraw (Nat.zero_le _)
  split at h
  · cases h
  split at h
  · cases h
  split_ifs at h
  split at h
  · cases h
  rename_i hadd
  cases h
  obtain ⟨d, hd, hb'⟩ := TransactionBuilder.add_input_ok hadd
  exact ⟨d, _, taken, rest, hb', TransactionBuilder.inputDesc_spends hd, by simpa using hlen,
    hstack, rfl⟩

/-- The draw fails only for want of outputs, naming the amount. -/
theorem drawMixins_error {uu : Output} {anonymity : UInt32} {mix stack : List Output}
    {e : AddMixedError} (h : drawMixins uu anonymity mix stack = .error e) :
    e = .runtime_error ("Not enough anonymity for amount " ++ toString uu.amount) := by
  induction stack generalizing mix with
  | nil =>
    unfold drawMixins at h
    split_ifs at h
    cases h; rfl
  | cons out stack ih =>
    unfold drawMixins at h
    split_ifs at h <;> exact ih h

/-- A used unspent that goes through changes the builder only by one more input
description and `m_inputs_amount` raised by its amount. -/
theorem addMixedInput_builder {uu : Output} {b b' : TransactionBuilder}
    {ra_outputs ra_outputs' : StdMap (List Output)}
    (h : addMixedInput currency cr sorter view_secret_key wallet_records anonymity uu b
      ra_outputs = .ok ra_outputs' b') :
    b' = { b with input_descs := b'.input_descs,
                  inputs_amount := b.inputs_amount + uu.amount } := by
  unfold addMixedInput at h
  split at h
  · cases h
  split at h
  · cases h
  split at h
  · cases h
  split_ifs at h
  split at h
  · cases h
  rename_i hadd
  cases h
  exact TransactionBuilder.add_input_ok_frame hadd

/-- A used unspent that fails either fails before `add_input`, for want of mixins, of an
address or of the wallet's keys, leaving the builder as it was, or inside `add_input`,
which has already raised `m_inputs_amount` by its amount. -/
theorem addMixedInput_error {uu : Output} {b b' : TransactionBuilder}
    {ra_outputs : StdMap (List Output)} {e : AddMixedError}
    (h : addMixedInput currency cr sorter view_secret_key wallet_records anonymity uu b
      ra_outputs = .error e b') :
    (e = .runtime_error ("Not enough anonymity for amount " ++ toString uu.amount) ∨
        e = .invalid_params ("Could not parse address " ++ uu.address) ∨
        e = .invalid_params ("No keys in wallet for address " ++ uu.address)) ∧ b' = b ∨
      (e = .runtime_error "generating keyimage failed" ∨
        e = .runtime_error "generated keyimage does not match input" ∨
        e = .runtime_error "Mixin outputs with different amounts is not allowed") ∧
      b' = { b with inputs_amount := b.inputs_amount + uu.amount } := by
  unfold addMixedInput at h
  split at h
  · cases h; exact .inl ⟨.inl (drawMixins_error ‹_›), rfl⟩
  split at h
  · cases h; exact .inl ⟨.inr (.inl rfl), rfl⟩
  split at h
  · cases h; exact .inl ⟨.inr (.inr rfl), rfl⟩
  split_ifs at h
  · cases h; exact .inl ⟨.inr (.inr rfl), rfl⟩
  split at h
  · rename_i e' b₂ hadd
    cases h
    exact .inr ⟨(TransactionBuilder.add_input_error_message hadd).imp (congrArg _)
      (.imp (congrArg _) (congrArg _)), TransactionBuilder.add_input_error hadd⟩
  · cases h

/-- One used unspent that goes through is an `add_input` call of its own: the builder keeps
`Holds` for the calls before it and that call, whose mixins number `anonymity`. -/
theorem addMixedInput_holds {calls : List Call} {uu : Output} {b b' : TransactionBuilder}
    {ra_outputs ra_outputs' : StdMap (List Output)} (hb : b.Holds cr calls)
    (h : addMixedInput currency cr sorter view_secret_key wallet_records anonymity uu b
      ra_outputs = .ok ra_outputs' b') :
    ∃ k m, m.length = anonymity.toNat ∧ b'.Holds cr (calls ++ [.addInput k uu m]) := by
  obtain ⟨d, k, taken, rest, hb', hd, hlen, -, -⟩ := addMixedInput_spec h
  obtain ⟨hin, hout, hia, hoa⟩ := hb
  refine ⟨k, keptMixins uu taken, hlen, ?_⟩
  rw [addMixedInput_builder h]
  exact ⟨by simpa [hb', Call.inputArgs] using List.rel_append hin (.cons hd .nil),
    by simpa [Call.outputArgs] using hout, by simp [Call.inputArgs, hia],
    by simpa [Call.outputArgs] using hoa⟩

/-- The vectors left after a draw still hold distinct indexes. -/
theorem DistinctIndexes.insert_rest {ra_outputs : StdMap (List Output)} {key : Nat}
    {taken rest : List Output} (hD : DistinctIndexes ra_outputs)
    (hstack : (ra_outputs.find? key).getD [] = taken ++ rest) :
    ((taken ++ rest).map (·.global_index)).Nodup ∧
      DistinctIndexes (ra_outputs.insert key rest) := by
  have hnd : ((taken ++ rest).map (·.global_index)).Nodup := by
    cases hf : ra_outputs.find? key with
    | none => rw [hf] at hstack; simp [← hstack]
    | some l => rw [hf] at hstack; exact hstack ▸ hD key l hf
  refine ⟨hnd, fun k l hk => ?_⟩
  rw [StdMap.find?_insert] at hk
  split_ifs at hk
  · cases hk
    exact (List.nodup_append.mp (List.map_append _ _ _ ▸ hnd)).2.1
  · exact hD k l hk

/-- The loop over the used unspents: a run that returns adds one input per unspent, in
order, each with its `MixedRing`, and strictly increasing indexes if the response's
vectors hold distinct indexes. -/
theorem addMixedLoop_spec {used : List Output} {b b' : TransactionBuilder}
    {ra_outputs : StdMap (List Output)}
    (h : addMixedLoop currency cr sorter view_secret_key wallet_records anonymity used b
      ra_outputs = .ok () b') :
    ∃ descs, b'.input_descs = b.input_descs ++ descs ∧
      List.Forall₂ (fun d uu => MixedRing anonymity uu d) descs used ∧
      (DistinctIndexes ra_outputs →
        ∀ d ∈ descs, (prefixSums 0 d.input.output_indexes).Sorted (· < ·)) := by
  induction used generalizing b ra_outputs with
  | nil => cases h; exact ⟨[], by simp, .nil, by simp⟩
  | cons uu used ih =>
    unfold addMixedLoop at h
    split at h
    · cases h
    rename_i ra₁ b₁ h₁
    obtain ⟨d, k, taken, rest, hb₁, hd, hlen, hstack, rfl⟩ := addMixedInput_spec h₁
    obtain ⟨descs, hb', hF, hstrict⟩ := ih h
    have hr := mixedRing_of_spends hd hlen
    refine ⟨d :: descs, by simp [hb', hb₁], .cons hr hF, fun hD e he => ?_⟩
    obtain ⟨hnd, hD₁⟩ := hD.insert_rest hstack
    rcases List.mem_cons.mp he with rfl | he
    · exact hr.strict hd hnd
    · exact hstrict hD₁ e he

/-- The loop over the used unspents when it throws: it went through the unspents before the
failing one, adding one input each, and the builder changed only by those inputs and by
`m_inputs_amount`. -/
theorem addMixedLoop_error {used : List Output} {b b' : TransactionBuilder}
    {ra_outputs : StdMap (List Output)} {e : AddMixedError}
    (h : addMixedLoop currency cr sorter view_secret_key wallet_records anonymity used b
      ra_outputs = .error e b') :
    ∃ done uu rest descs, used = done ++ uu :: rest ∧
      List.Forall₂ (fun d uu => MixedRing anonymity uu d) descs done ∧
      ((e = .runtime_error ("Not enough anonymity for amount " ++ toString uu.amount) ∨
          e = .invalid_params ("Could not parse address " ++ uu.address) ∨
          e = .invalid_params ("No keys in wallet for address " ++ uu.address)) ∧
        b' = { b with
          input_descs := b.input_descs ++ descs
          inputs_amount := b.inputs_amount + (done.map (·.amount)).sum } ∨
        (e = .runtime_error "generating keyimage failed" ∨
          e = .runtime_error "generated keyimage does not match input" ∨
          e = .runtime_error "Mixin outputs with different amounts is not allowed") ∧
        b' = { b with
          input_descs := b.input_descs ++ descs
          inputs_amount := b.inputs_amount + (done.map (·.amount)).sum + uu.amount }) := by
  induction used generalizing b ra_outputs with
  | nil => cases h
  | cons uu used ih =>
    unfold addMixedLoop at h
    split at h
    · rename_i h₁
      cases h
      refine ⟨[], uu, used, [], rfl, .nil, ?_⟩
      rcases addMixedInput_error h₁ with ⟨he, rfl⟩ | ⟨he, rfl⟩
      · exact .inl ⟨he, by simp⟩
      · exact .inr ⟨he, by simp⟩
    · rename_i ra₁ b₁ h₁
      obtain ⟨d, _, _, _, hb₁, hd, hlen, -, -⟩ := addMixedInput_spec h₁
      have hframe : b₁ = { b with input_descs := b.input_descs ++ [d],
                                  inputs_amount := b.inputs_amount + uu.amount } := by
        rw [← hb₁]; exact addMixedInput_builder h₁
      subst hframe
      obtain ⟨done, uu', rest, descs, rfl, hF, hcase⟩ := ih h
      refine ⟨uu :: done, uu', rest, d :: descs, rfl,
        .cons (mixedRing_of_spends hd hlen) hF, ?_⟩
      rcases hcase with ⟨he, rfl⟩ | ⟨he, rfl⟩
      · exact .inl ⟨he, by simp [add_assoc]⟩
      · exact .inr ⟨he, by simp [add_assoc]⟩

/-- A loop over the used unspents that returns is a run of `add_input` calls, one per used
unspent and in their order, each with `anonymity` mixins. -/
theorem addMixedLoop_holds {calls : List Call} {used : List Output} {b b' : TransactionBuilder}
    {ra_outputs : StdMap (List Output)} (hb : b.Holds cr calls)
    (h : addMixedLoop currency cr sorter view_secret_key wallet_records anonymity used b
      ra_outputs = .ok () b') :
    ∃ mixed : List (AccountKeys × Output × List Output), mixed.map (·.2.1) = used ∧
      (∀ c ∈ mixed, c.2.2.length = anonymity.toNat) ∧
      b'.Holds cr (calls ++ mixed.map fun c => .addInput c.1 c.2.1 c.2.2) := by
  induction used generalizing b calls ra_outputs with
  | nil => cases h; exact ⟨[], rfl, by simp, by simpa using hb⟩
  | cons uu used ih =>
    unfold addMixedLoop at h
    split at h
    · cases h
    rename_i ra₁ b₁ h₁
    obtain ⟨k, m, hm, hb₁⟩ := addMixedInput_holds hb h₁
    obtain ⟨mixed, hmap, hlen, hb'⟩ := ih hb₁ h
    exact ⟨(k, uu, m) :: mixed, by simp [hmap], List.forall_mem_cons.mpr ⟨hm, hlen⟩,
      by simpa using hb'⟩

/-- A loop over the used unspents that returns draws each input's mixins from the node's
vector for its amount, past the outputs that the earlier inputs of that amount drew. -/
theorem addMixedLoop_draws {used : List Output} {b b' : TransactionBuilder}
    {ra_outputs : StdMap (List Output)}
    (h : addMixedLoop currency cr sorter view_secret_key wallet_records anonymity used b
      ra_outputs = .ok () b') :
    ∃ (descs : List InputDesc) (mixed : List (AccountKeys × Output × List Output)),
      b'.input_descs = b.input_descs ++ descs ∧
      List.Forall₂ (fun d c => d.Spends cr c.1 c.2.1 c.2.2) descs mixed ∧
      mixed.map (·.2.1) = used ∧
      ∀ a, ((mixed.filter fun c => c.2.1.amount.toNat = a).flatMap (·.2.2)).Sublist
        ((ra_outputs.find? a).getD []) := by
  induction used generalizing b ra_outputs with
  | nil => cases h; exact ⟨[], [], by simp, .nil, rfl, fun a => by simp⟩
  | cons uu used ih =>
    unfold addMixedLoop at h
    split at h
    · cases h
    rename_i ra₁ b₁ h₁
    obtain ⟨d, k, taken, rest, hb₁, hd, -, hstack, rfl⟩ := addMixedInput_spec h₁
    obtain ⟨descs, mixed, hb', hF, hmap, hsub⟩ := ih h
    refine ⟨d :: descs, (k, uu, keptMixins uu taken) :: mixed, by simp [hb', hb₁], .cons hd hF,
      by simp [hmap], fun a => ?_⟩
    have ha := hsub a
    rw [StdMap.find?_insert] at ha
    by_cases hk : uu.amount.toNat = a
    · subst hk
      have hkept : (keptMixins uu taken).Sublist taken := List.filter_sublist _
      rw [if_pos rfl] at ha
      simpa [List.filter_cons, hstack] using hkept.append ha
    · rw [if_neg hk] at ha
      simpa [List.filter_cons, hk] using ha

/-- Every input a returning `add_mixed_inputs` adds, one per used unspent and in their
order, has a ring of `anonymity + 1` outputs holding the real output's global index once,
whose offsets decode to non-decreasing global indexes; these increase strictly when the
response's vectors hold distinct global indexes. -/
theorem UnspentSelector.add_mixed_inputs_rings {sel : UnspentSelector}
    {b b' : TransactionBuilder} {ra_response : StdMap (List Output)}
    (h : sel.addMixedInputs currency cr sorter view_secret_key wallet_records anonymity b
      ra_response = .ok () b') :
    ∃ descs, b'.input_descs = b.input_descs ++ descs ∧
      List.Forall₂ (fun d uu => MixedRing anonymity uu d) descs sel.used_unspents ∧
      (DistinctIndexes ra_response →
        ∀ d ∈ descs, (prefixSums 0 d.input.output_indexes).Sorted (· < ·)) :=
  addMixedLoop_spec h

/-- When `add_mixed_inputs` throws, it has gone through the used unspents before the one it
failed on, adding to the builder one input with its `MixedRing` for each, and its exception
names that unspent's amount or address, or is one of `add_input`'s.  The builder has
changed only by those inputs and by `m_inputs_amount`, raised by their amounts and, when
`add_input` threw, by the failing unspent's amount too. -/
theorem UnspentSelector.add_mixed_inputs_error {sel : UnspentSelector}
    {b b' : TransactionBuilder} {ra_response : StdMap (List Output)} {e : AddMixedError}
    (h : sel.addMixedInputs currency cr sorter view_secret_key wallet_records anonymity b
      ra_response = .error e b') :
    ∃ done uu rest descs, sel.used_unspents = done ++ uu :: rest ∧
      List.Forall₂ (fun d uu => MixedRing anonymity uu d) descs done ∧
      ((e = .runtime_error ("Not enough anonymity for amount " ++ toString uu.amount) ∨
          e = .invalid_params ("Could not parse address " ++ uu.address) ∨
          e = .invalid_params ("No keys in wallet for address " ++ uu.address)) ∧
        b' = { b with
          input_descs := b.input_descs ++ descs
          inputs_amount := b.inputs_amount + (done.map (·.amount)).sum } ∨
        (e = .runtime_error "generating keyimage failed" ∨
          e = .runtime_error "generated keyimage does not match input" ∨
          e = .runtime_error "Mixin outputs with different amounts is not allowed") ∧
        b' = { b with
          input_descs := b.input_descs ++ descs
          inputs_amount := b.inputs_amount + (done.map (·.amount)).sum + uu.amount }) :=
  addMixedLoop_error h

/-- A returning `add_mixed_inputs` adds one input per used unspent, in their order, each
spending its unspent with mixins from the node's vector for its amount, and never uses an
output of the response twice: for every amount, the mixins of the inputs of that amount,
in input order, are a sublist of the response's vector for it, read from its back. -/
theorem UnspentSelector.add_mixed_inputs_draws {sel : UnspentSelector}
    {b b' : TransactionBuilder} {ra_response : StdMap (List Output)}
    (h : sel.addMixedInputs currency cr sorter view_secret_key wallet_records anonymity b
      ra_response = .ok () b') :
    ∃ (descs : List InputDesc) (mixed : List (AccountKeys × Output × List Output)),
      b'.input_descs = b.input_descs ++ descs ∧
      List.Forall₂ (fun d c => d.Spends cr c.1 c.2.1 c.2.2) descs mixed ∧
      mixed.map (·.2.1) = sel.used_unspents ∧
      ∀ a, ((mixed.filter fun c => c.2.1.amount.toNat = a).flatMap (·.2.2)).Sublist
        ((ra_response.find? a).getD []) :=
  addMixedLoop_draws h

end AddMixed

/-- The wallet of `demoKeys`: the spend keys of its address. -/
def demoWallet (pk : PublicKey) : Option WalletRecord :=
  if pk = ⟨1⟩ then some ⟨⟨1⟩, ⟨0⟩⟩ else none

/-- A selection that spends `demoCoin 1` of amount 5. -/
def demoSelection : UnspentSelector := ⟨[], [demoCoin 1 5 false], [], 5, 1, [5]⟩

/-- The node's outputs of amount 5, read from the back: indexes 7, 1 and 4. -/
def demoResponse : StdMap (List Output) :=
  StdMap.empty.insert 5 [demoCoin 7 5 false, demoCoin 1 5 false, demoCoin 4 5 false]

theorem add_mixed_inputs_rings_demo :
    ∃ b', demoSelection.addMixedInputs demoCurrency demoCrypto insertionSorter ⟨0⟩ demoWallet 2
      (TransactionBuilder.create demoCurrency 0) demoResponse = .ok () b' ∧
    ∃ descs, b'.input_descs = [] ++ descs ∧
      List.Forall₂ (fun d uu => MixedRing 2 uu d) descs demoSelection.used_unspents ∧
      (DistinctIndexes demoResponse →
        ∀ d ∈ descs, (prefixSums 0 d.input.output_indexes).Sorted (· < ·)) :=
  ⟨_, rfl, @UnspentSelector.add_mixed_inputs_rings demoCurrency demoCrypto insertionSorter ⟨0⟩
    demoWallet 2 demoSelection (TransactionBuilder.create demoCurrency 0) _ demoResponse rfl⟩

/-- The node's outputs of amount 5 with index 7 twice. -/
def repeatedResponse : StdMap (List Output) :=
  StdMap.empty.insert 5 [demoCoin 7 5 false, demoCoin 7 5 false]

/-- A vector repeating a global index puts that output into the ring twice: the decoded
indexes are 1, 7, 7. -/
theorem add_mixed_inputs_repeated_mixin :
    ∃ b', demoSelection.addMixedInputs demoCurrency demoCrypto insertionSorter ⟨0⟩ demoWallet 2
      (TransactionBuilder.create demoCurrency 0) repeatedResponse = .ok () b' ∧
    b'.input_descs.map (fun d => prefixSums 0 d.input.output_indexes) = [[1, 7, 7]] ∧
    ¬ ∀ d ∈ b'.input_descs, (prefixSums 0 d.input.output_indexes).Sorted (· < ·) :=
  ⟨_, rfl, rfl, by decide⟩

/-- With `anonymity = 5` the three outputs of `demoResponse` are too few. -/
theorem add_mixed_inputs_error_demo :
    ∃ e b', demoSelection.addMixedInputs demoCurrency demoCrypto insertionSorter ⟨0⟩
      demoWallet 5 (TransactionBuilder.create demoCurrency 0) demoResponse = .error e b' ∧
    ∃ done uu rest descs, demoSelection.used_unspents = done ++ uu :: rest ∧
      List.Forall₂ (fun d uu => MixedRing 5 uu d) descs done ∧
      ((e = .runtime_error ("Not enough anonymity for amount " ++ toString uu.amount) ∨
          e = .invalid_params ("Could not parse address " ++ uu.address) ∨
          e = .invalid_params ("No keys in wallet for address " ++ uu.address)) ∧
        b' = { TransactionBuilder.create demoCurrency 0 with
          input_descs := [] ++ descs
          inputs_amount := 0 + (done.map (·.amount)).sum } ∨
        (e = .runtime_error "generating keyimage failed" ∨
          e = .runtime_error "generated keyimage does not match input" ∨
          e = .runtime_error "Mixin outputs with different amounts is not allowed") ∧
        b' = { TransactionBuilder.create demoCurrency 0 with
          input_descs := [] ++ descs
          inputs_amount := 0 + (done.map (·.amount)).sum + uu.amount }) :=
  ⟨_, _, rfl, @UnspentSelector.add_mixed_inputs_error demoCurrency demoCrypto insertionSorter
    ⟨0⟩ demoWallet 5 demoSelection (TransactionBuilder.create demoCurrency 0) _ demoResponse _
    rfl⟩

/-- The second output of the transaction of `demoCoin 1`, of amount 5 at global index 2,
with the key image `demoKeys` derive for it. -/
def twinCoin : Output := { demoCoin 2 5 false with index_in_transaction := 1, key_image := ⟨3⟩ }

/-- Two outputs of one transaction, both of amount 5, spent together. -/
def twinSelection : UnspentSelector := ⟨[], [demoCoin 1 5 false, twinCoin], [], 10, 2, [5, 5]⟩

/-- The node's outputs of amount 5, read from the back: indexes 7, 1, 4, 9 and 3. -/
def twinResponse : StdMap (List Output) :=
  StdMap.empty.insert 5 [demoCoin 7 5 false, demoCoin 1 5 false, demoCoin 4 5 false,
    demoCoin 9 5 false, demoCoin 3 5 false]

/-- With two mixins each, the first input draws 7 and 4, skipping its own index 1, and the
second draws 9 and 3. -/
theorem add_mixed_inputs_draws_demo :
    ∃ b', twinSelection.addMixedInputs demoCurrency demoCrypto insertionSorter ⟨0⟩
      demoWallet 2 (TransactionBuilder.create demoCurrency 0) twinResponse = .ok () b' ∧
    ∃ (descs : List InputDesc) (mixed : List (AccountKeys × Output × List Output)),
      b'.input_descs = [] ++ descs ∧
      List.Forall₂ (fun d c => d.Spends demoCrypto c.1 c.2.1 c.2.2) descs mixed ∧
      mixed.map (·.2.1) = twinSelection.used_unspents ∧
      ∀ a, ((mixed.filter fun c => c.2.1.amount.toNat = a).flatMap (·.2.2)).Sublist
        ((twinResponse.find? a).getD []) :=
  ⟨_, rfl, @UnspentSelector.add_mixed_inputs_draws demoCurrency demoCrypto insertionSorter ⟨0⟩
    demoWallet 2 twinSelection (TransactionBuilder.create demoCurrency 0) _ twinResponse rfl⟩

end Varcoin
