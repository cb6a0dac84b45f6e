import Varcoin.Selector.Outer

/-!
# Whole runs of the selector

A pass of the fee loop changes the selection only by moves of the inner selector and by
the rollback `unoptimize_amounts` (`feeStep_moves`), so whatever the moves keep holds in
every state of a run, after any number of fee and size retries.

Two facts are kept.  The shape of the maps (no empty stack, no empty digit map) makes
every `back()`, `pop_back()` and `--end()` of the code defined, so no run reaches
undefined behaviour (`select_optimal_outputs_ne_none`).  The conservation of coins
(`Conserves`) says the picked coins are eligible pool entries, each taken once, with
`m_used_total` and `m_inputs_count` kept in step with them
(`select_optimal_outputs_sound`).
-/

namespace Varcoin

namespace Selection

/-- What every state of a run keeps: the selection holds exactly the `eligible` coins,
the total and the count describe the picked coins, with `anonymity ≠ 0` no coin that
`Currency::is_dust` rejects is in `have_coins` or picked, and a coin sits in `dust_coins`
only if `Currency::is_dust` or its own `dust` field put it there. -/
structure Conserves (cur : Currency) (anonymity : Nat) (eligible : List Output)
    (s : Selection) : Prop where
  held : s.held.Perm eligible
  used_total : s.used_total = (s.optimization_unspents.map (·.amount)).sum
  inputs_count : s.inputs_count = s.optimization_unspents.length
  clean : anonymity ≠ 0 →
    ∀ c ∈ s.have_coins.coins ++ s.optimization_unspents, cur.isDust c.amount = false
  filed : ∀ c ∈ s.dust_coins.coins, cur.isDust c.amount = true ∨ c.dust = true

section Conserves

variable {cur : Currency} {anonymity : Nat} {eligible : List Output} {s s' : Selection}

theorem Conserves.push (hc : Conserves cur anonymity eligible s) {h' : HaveCoins}
    {un : Output} (hp : s.have_coins.coins.Perm (un :: h'.coins))
    (hheld : (({ s with have_coins := h' }).push un).held.Perm s.held) :
    Conserves cur anonymity eligible ({ s with have_coins := h' }.push un) := by
  refine ⟨hheld.trans hc.held, by simp [hc.used_total], by simp [hc.inputs_count],
    fun ha c hc' => hc.clean ha c ?_, hc.filed⟩
  have hsub : ∀ x ∈ h'.coins, x ∈ s.have_coins.coins := fun x hx =>
    hp.symm.subset (List.mem_cons_of_mem _ hx)
  simp only [push_have_coins, push_optimization_unspents, List.mem_append,
    List.mem_singleton] at hc' ⊢
  rcases hc' with hc' | hc' | rfl
  · exact .inl (hsub c hc')
  · exact .inr hc'
  · exact .inl (hp.symm.subset (List.mem_cons_self _ _))

theorem PickHave.conserves (h : PickHave s s') (hc : Conserves cur anonymity eligible s) :
    Conserves cur anonymity eligible s' := by
  have hheld := h.held
  obtain ⟨un, h', hp, rfl⟩ := h
  exact hc.push hp hheld

theorem PickDust.conserves (h : PickDust s s') (h0 : anonymity = 0)
    (hc : Conserves cur anonymity eligible s) : Conserves cur anonymity eligible s' := by
  have hheld := h.held
  obtain ⟨un, d', hp, rfl⟩ := h
  exact ⟨hheld.trans hc.held, by simp [hc.used_total], by simp [hc.inputs_count],
    fun ha => absurd h0 ha, fun c h => hc.filed c (hp.symm.subset (List.mem_cons_of_mem _ h))⟩

theorem Conserves.unoptimizeAmounts (hc : Conserves cur anonymity eligible s) :
    Conserves cur anonymity eligible s.unoptimizeAmounts := by
  obtain ⟨h₁, h₂, h₃, h₄, -⟩ := foldl_unoptimizeOne s.optimization_unspents s
  refine ⟨(held_unoptimize s).trans hc.held, ?_, ?_, fun ha c hc' => hc.clean ha c ?_,
    fun c hc' => ?_⟩
  · simpa [Selection.unoptimizeAmounts, hc.used_total] using h₃
  · simpa [Selection.unoptimizeAmounts, hc.inputs_count] using h₄
  · have : c ∈ s.optimization_unspents.filter (!·.dust) ++ s.have_coins.coins :=
      h₁.subset (by simpa [Selection.unoptimizeAmounts] using hc')
    simp only [List.mem_append, List.mem_filter] at this ⊢
    exact this.elim (fun h => .inr h.1) .inl
  · have : c ∈ s.optimization_unspents.filter (·.dust) ++ s.dust_coins.coins :=
      h₂.subset (by simpa [Selection.unoptimizeAmounts] using hc')
    rcases List.mem_append.mp this with h | h
    · exact .inr (List.mem_filter.mp h).2
    · exact hc.filed c h

/-- The rollback files a coin by its `dust` field, where `create_have_coins` asked
`Currency::is_dust`: a coin of 1 flagged as dust goes into `have_coins` when the maps are
built, is picked, and comes back into `dust_coins`. -/
theorem unoptimize_amounts_refiles_by_dust_field :
    ∃ (s : Selection) (r : Bool × Selection),
      createHaveCoins demoCurrency 100 0 100 [demoCoin 0 1 true] =
        (s.have_coins, s.dust_coins, 0) ∧
      s.optimization_unspents = [] ∧ s.used_total = 0 ∧ s.inputs_count = 0 ∧
      s.have_coins.coins = [demoCoin 0 1 true] ∧ s.dust_coins.coins = [] ∧
      s.selectOptimalOutputs 0 1 1 0 = some r ∧
      r.2.optimization_unspents = [demoCoin 0 1 true] ∧
      r.2.unoptimizeAmounts.have_coins.coins = [] ∧
      r.2.unoptimizeAmounts.dust_coins.coins = [demoCoin 0 1 true] :=
  ⟨⟨_, _, [], 0, 0⟩, _, rfl, rfl, rfl, rfl, rfl, rfl, rfl, rfl, rfl, rfl⟩

theorem Move.conserves (h : Move anonymity s s') (hc : Conserves cur anonymity eligible s) :
    Conserves cur anonymity eligible s' := by
  rcases h with (h | ⟨h0, h⟩) | rfl
  · exact h.conserves hc
  · exact h.conserves h0 hc
  · exact hc.unoptimizeAmounts

theorem moves_conserves (h : Relation.ReflTransGen (Move anonymity) s s')
    (hc : Conserves cur anonymity eligible s) : Conserves cur anonymity eligible s' := by
  induction h with
  | refl => exact hc
  | tail _ hm ih => exact hm.conserves ih

end Conserves

end Selection

/-- The selection a pass of the fee loop leaves, whether it goes round again or returns. -/
def FeeLoop.after : Flow FeeLoop (String × Option Amount × Selection) → Selection
  | .next L => L.sel
  | .done r => r.2.2

open Selection

section FeeLoop

variable (cur : Currency) (max_digits effective_median_size anonymity : Nat)
  (total_amount : Amount) (total_outputs : Nat) (fee_per_byte : Amount)
  (optimization_median : Nat)

/-- A pass leaves the selection the inner selector returned, or rolls it back. -/
theorem feeStep_after {L : FeeLoop} {f : Flow FeeLoop (String × Option Amount × Selection)}
    (h : feeStep cur max_digits effective_median_size anonymity total_amount total_outputs
      fee_per_byte optimization_median L = some f) :
    ∃ r, L.sel.selectOptimalOutputs max_digits (total_amount + L.fee) anonymity
        L.optimizations = some r ∧
      (FeeLoop.after f = r.2 ∨ FeeLoop.after f = r.2.unoptimizeAmounts) := by
  obtain ⟨r, hr, h⟩ := Option.bind_eq_some.mp h
  refine ⟨r, hr, ?_⟩
  dsimp only at h
  split_ifs at h <;> cases h <;> simp [FeeLoop.after]

/-- From a state of the right shape holding positive coins, a pass is defined, changes the
selection only by moves, and keeps the shape. -/
theorem feeStep_spec {L : FeeLoop} (hs : L.sel.Shape) (hp : L.sel.Positive) :
    ∃ f, feeStep cur max_digits effective_median_size anonymity total_amount total_outputs
        fee_per_byte optimization_median L = some f ∧
      Relation.ReflTransGen (Move anonymity) L.sel (FeeLoop.after f) ∧
      (FeeLoop.after f).Shape := by
  obtain ⟨r, e, m, hs', -⟩ := select_optimal_outputs_spec max_digits (total_amount + L.fee)
    anonymity L.optimizations hs hp
  obtain ⟨f, hf⟩ : ∃ f, feeStep cur max_digits effective_median_size anonymity total_amount
      total_outputs fee_per_byte optimization_median L = some f := by
    simp only [feeStep, e, Option.some_bind]
    split_ifs <;> exact ⟨_, rfl⟩
  obtain ⟨r', e', ha⟩ := feeStep_after cur max_digits effective_median_size anonymity
    total_amount total_outputs fee_per_byte optimization_median hf
  obtain rfl := Option.some_injective _ (e.symm.trans e')
  refine ⟨f, hf, ?_⟩
  rcases ha with ha | ha <;> rw [ha]
  · exact ⟨m, hs'⟩
  · exact ⟨m.tail (.inr rfl), unoptimize_amounts_shape hs'⟩

/-- Every loop state a run reaches is reached by moves and keeps the shape. -/
theorem feeStep_reach {L₀ L : FeeLoop}
    (h : Flow.Reach (feeStep cur max_digits effective_median_size anonymity total_amount
      total_outputs fee_per_byte optimization_median) L₀ L)
    (hs : L₀.sel.Shape) (hp : L₀.sel.Positive) :
    Relation.ReflTransGen (Move anonymity) L₀.sel L.sel ∧ L.sel.Shape := by
  induction h with
  | refl => exact ⟨.refl, hs⟩
  | tail _ hab ih =>
    obtain ⟨m, ha⟩ := ih
    obtain ⟨f, hf, m', hf'⟩ := feeStep_spec cur max_digits effective_median_size anonymity
      total_amount total_outputs fee_per_byte optimization_median ha
      (fun c hc => hp c ((moves_held m).subset hc))
    obtain rfl := Option.some_injective _ (hab.symm.trans hf)
    exact ⟨m.trans m', hf'⟩

end FeeLoop

namespace UnspentSelector

/-- The selector after a run: the picked coins `m_used_unspents ++ m_optimization_unspents`
are eligible coins, each taken at most as often as the pool holds it, none rejected by
`Currency::is_dust` when `anonymity ≠ 0`, and `m_used_total`, `m_inputs_count` and
`m_ra_amounts` describe them. -/
structure Sound (cur : Currency) (anonymity : Nat) (eligible : List Output)
    (sel : UnspentSelector) : Prop where
  subperm : (sel.used_unspents ++ sel.optimization_unspents).Subperm eligible
  clean : anonymity ≠ 0 →
    ∀ c ∈ sel.used_unspents ++ sel.optimization_unspents, cur.isDust c.amount = false
  used_total : sel.used_total = ((sel.used_unspents ++ sel.optimization_unspents).map (·.amount)).sum
  inputs_count : sel.inputs_count = (sel.used_unspents ++ sel.optimization_unspents).length
  ra_amounts : sel.ra_amounts = sel.used_unspents.map (·.amount)

section Start

variable (cur : Currency) (sel : UnspentSelector) (block_height : Height)
  (block_time : Timestamp) (confirmed_height : Height) (optimization_level : String)

/-- The first state of the fee loop holds the spendable pool entries and the picks the
selector already had. -/
theorem start_held :
    (start cur sel block_height block_time confirmed_height optimization_level).1.sel.held.Perm
      (sel.unspents.filter (spendable cur block_height block_time confirmed_height) ++
        sel.optimization_unspents) := by
  obtain ⟨h₁, h₂⟩ := create_have_coins_coins cur block_height block_time confirmed_height
    sel.unspents
  exact ((h₁.append h₂).trans (List.perm_append_comm.trans (List.filter_append_perm _ _))).append_right _

theorem start_shape :
    (start cur sel block_height block_time confirmed_height optimization_level).1.sel.Shape :=
  create_have_coins_shape cur block_height block_time confirmed_height sel.unspents

theorem start_positive (hpos : ∀ c ∈ sel.unspents ++ sel.optimization_unspents, 0 < c.amount) :
    (start cur sel block_height block_time confirmed_height optimization_level).1.sel.Positive :=
  fun c hc => hpos c <| by
    have := (start_held cur sel block_height block_time confirmed_height optimization_level).subset hc
    simp only [List.mem_append, List.mem_filter] at this ⊢
    exact this.imp_left (·.1)

end Start

/-- No run of `select_optimal_outputs` on coins with positive amounts reaches undefined
behaviour, whatever the arguments and however many passes it makes. -/
theorem select_optimal_outputs_ne_none (cur : Currency) (sel : UnspentSelector)
    (hpos : ∀ c ∈ sel.unspents ++ sel.optimization_unspents, 0 < c.amount)
    (block_height : Height) (block_time : Timestamp) (confirmed_height : Height)
    (effective_median_size anonymity : Nat) (total_amount : Amount) (total_outputs : Nat)
    (fee_per_byte : Amount) (optimization_level : String) (fuel : Nat) :
    sel.selectOptimalOutputs cur block_height block_time confirmed_height
      effective_median_size anonymity total_amount total_outputs fee_per_byte
      optimization_level fuel ≠ none := by
  have hp := start_positive cur sel block_height block_time confirmed_height optimization_level hpos
  rw [selectOptimalOutputs, ne_eq, Option.map_eq_none']
  refine Flow.iterate_ne_none fun L h => ?_
  obtain ⟨m, hs⟩ := feeStep_reach _ _ _ _ _ _ _ _ h (start_shape ..) hp
  obtain ⟨f, hf, -⟩ := feeStep_spec _ _ _ _ _ _ _ _ hs (fun c hc => hp c ((moves_held m).subset hc))
  exact fun e => Option.some_ne_none f (hf.symm.trans e)

theorem select_optimal_outputs_ne_none_demo :
    (∀ c ∈ (create [demoCoin 0 1000 false]).unspents ++
      (create [demoCoin 0 1000 false]).optimization_unspents, 0 < c.amount) ∧
    (create [demoCoin 0 1000 false]).selectOptimalOutputs demoCurrency 100 0 100 100000 0 990
      0 0 "" 20 ≠ none :=
  ⟨by decide, select_optimal_outputs_ne_none demoCurrency _ (by decide) 100 0 100 100000 0 990
    0 0 "" 20⟩

/-- Writing back a selection that conserves the coins leaves a fresh selector sound. -/
theorem finish_sound {cur : Currency} {anonymity : Nat} {eligible : List Output}
    {s : Selection} (hc : s.Conserves cur anonymity eligible) (unspents : List Output)
    (status : String) : ((create unspents).finish status s).Sound cur anonymity eligible := by
  have hsub : s.optimization_unspents.Subperm eligible :=
    (List.sublist_append_right _ _).subperm.trans hc.held.subperm
  have hclean : anonymity ≠ 0 → ∀ c ∈ s.optimization_unspents, cur.isDust c.amount = false :=
    fun ha c h => hc.clean ha c (List.mem_append_right _ h)
  unfold finish
  split_ifs
  · exact ⟨by simpa [combineOptimizedUnspents, create] using hsub,
      by simpa [combineOptimizedUnspents, create] using hclean,
      by simpa [combineOptimizedUnspents, create] using hc.used_total,
      by simpa [combineOptimizedUnspents, create] using hc.inputs_count,
      by simp [combineOptimizedUnspents, create]⟩
  · exact ⟨by simpa [create] using hsub, by simpa [create] using hclean,
      by simpa [create] using hc.used_total, by simpa [create] using hc.inputs_count, rfl⟩

/-- Every answer of the public `select_optimal_outputs` is a pass of the fee loop, from a
state the loop reached, written back into the selector. -/
theorem selectOptimalOutputs_done {cur : Currency} {sel : UnspentSelector}
    {block_height : Height} {block_time : Timestamp} {confirmed_height : Height}
    {effective_median_size anonymity : Nat} {total_amount : Amount} {total_outputs : Nat}
    {fee_per_byte : Amount} {optimization_level : String} {fuel : Nat} {status : String}
    {change : Option Amount} {sel' : UnspentSelector}
    (h : sel.selectOptimalOutputs cur block_height block_time confirmed_height
      effective_median_size anonymity total_amount total_outputs fee_per_byte
      optimization_level fuel = some (.done (status, change, sel'))) :
    ∃ L s, Flow.Reach (feeStep cur (start cur sel block_height block_time confirmed_height
          optimization_level).2 effective_median_size anonymity total_amount total_outputs
          fee_per_byte (effective_median_size * medianPercentOf optimization_level % 2 ^ 64 / 100))
        (start cur sel block_height block_time confirmed_height optimization_level).1 L ∧
      feeStep cur (start cur sel block_height block_time confirmed_height optimization_level).2
          effective_median_size anonymity total_amount total_outputs fee_per_byte
          (effective_median_size * medianPercentOf optimization_level % 2 ^ 64 / 100) L =
        some (.done (status, change, s)) ∧
      sel' = sel.finish status s := by
  unfold selectOptimalOutputs at h
  obtain ⟨r, e, hr⟩ := Option.map_eq_some'.mp h
  obtain ⟨L, hL, rfl | h'⟩ := Flow.iterate_some e
  · cases hr
  · obtain _ | ⟨_, _, s⟩ := r <;> cases hr
    exact ⟨L, s, hL, h', rfl⟩

/-- What holds of every pass that ends a run, written back into the selector, holds of the
run's answer. -/
theorem onDone_select_optimal_outputs {P : String × Option Amount × UnspentSelector → Prop}
    (cur : Currency) (sel : UnspentSelector) (block_height : Height) (block_time : Timestamp)
    (confirmed_height : Height) (effective_median_size anonymity : Nat) (total_amount : Amount)
    (total_outputs : Nat) (fee_per_byte : Amount) (optimization_level : String) (fuel : Nat)
    (h : ∀ L status change s,
      Flow.Reach (feeStep cur (start cur sel block_height block_time confirmed_height
          optimization_level).2 effective_median_size anonymity total_amount total_outputs
          fee_per_byte (effective_median_size * medianPercentOf optimization_level % 2 ^ 64 / 100))
        (start cur sel block_height block_time confirmed_height optimization_level).1 L →
      feeStep cur (start cur sel block_height block_time confirmed_height optimization_level).2
          effective_median_size anonymity total_amount total_outputs fee_per_byte
          (effective_median_size * medianPercentOf optimization_level % 2 ^ 64 / 100) L =
        some (.done (status, change, s)) →
      P (status, change, sel.finish status s)) :
    Flow.OnDone P (sel.selectOptimalOutputs cur block_height block_time confirmed_height
      effective_median_size anonymity total_amount total_outputs fee_per_byte
      optimization_level fuel) := by
  rcases e : sel.selectOptimalOutputs cur block_height block_time confirmed_height
    effective_median_size anonymity total_amount total_outputs fee_per_byte optimization_level
    fuel with _ | _ | ⟨status, change, sel'⟩
  · trivial
  · trivial
  obtain ⟨L, s, hr, hf, rfl⟩ := selectOptimalOutputs_done e
  exact h L status change s hr hf

section FreshRun

variable (cur : Currency) (unspents : List Output) (block_height : Height)
  (block_time : Timestamp) (confirmed_height : Height) (optimization_level : String)
  (anonymity : Nat)

/-- A fresh selector starts the fee loop holding the spendable entries of its pool. -/
theorem start_conserves :
    (start cur (create unspents) block_height block_time confirmed_height
      optimization_level).1.sel.Conserves cur anonymity
        (unspents.filter (spendable cur block_height block_time confirmed_height)) := by
  have hh := start_held cur (create unspents) block_height block_time confirmed_height
    optimization_level
  refine ⟨by simpa [create] using hh, rfl, rfl, fun _ c hc => ?_, fun c hc => .inl ?_⟩
  · have := (create_have_coins_coins cur block_height block_time confirmed_height
      unspents).1.subset (by simpa [start, create] using hc)
    simpa using (List.mem_filter.mp this).2
  · exact (List.mem_filter.mp ((create_have_coins_coins cur block_height block_time
      confirmed_height unspents).2.subset hc)).2

variable {cur unspents block_height block_time confirmed_height optimization_level anonymity}
  {max_digits effective_median_size : Nat} {total_amount : Amount} {total_outputs : Nat}
  {fee_per_byte : Amount} {optimization_median : Nat} {L : FeeLoop}

/-- Every loop state of a run from a fresh selector over a positive pool keeps the shape,
holds positive coins, and conserves the pool's spendable entries. -/
theorem fresh_reach (hpos : ∀ c ∈ unspents, 0 < c.amount)
    (hr : Flow.Reach (feeStep cur max_digits effective_median_size anonymity total_amount
      total_outputs fee_per_byte optimization_median)
      (start cur (create unspents) block_height block_time confirmed_height
        optimization_level).1 L) :
    L.sel.Shape ∧ L.sel.Positive ∧ L.sel.Conserves cur anonymity
      (unspents.filter (spendable cur block_height block_time confirmed_height)) := by
  have hp := start_positive cur (create unspents) block_height block_time confirmed_height
    optimization_level (by simpa [create] using hpos)
  obtain ⟨m, hs⟩ := feeStep_reach _ _ _ _ _ _ _ _ hr (start_shape ..) hp
  exact ⟨hs, fun c hc => hp c ((moves_held m).subset hc),
    Selection.moves_conserves m (start_conserves ..)⟩

/-- Every pass of a run from a fresh selector over a positive pool leaves a selection that
conserves the pool's spendable entries. -/
theorem fresh_after_conserves (hpos : ∀ c ∈ unspents, 0 < c.amount)
    {f : Flow FeeLoop (String × Option Amount × Selection)}
    (hr : Flow.Reach (feeStep cur max_digits effective_median_size anonymity total_amount
      total_outputs fee_per_byte optimization_median)
      (start cur (create unspents) block_height block_time confirmed_height
        optimization_level).1 L)
    (hf : feeStep cur max_digits effective_median_size anonymity total_amount total_outputs
      fee_per_byte optimization_median L = some f) :
    (FeeLoop.after f).Conserves cur anonymity
      (unspents.filter (spendable cur block_height block_time confirmed_height)) := by
  obtain ⟨hs, hp, hc⟩ := fresh_reach hpos hr
  obtain ⟨f', hf', m, -⟩ := feeStep_spec _ _ _ _ _ _ _ _ hs hp
  obtain rfl := Option.some_injective _ (hf.symm.trans hf')
  exact Selection.moves_conserves m hc

end FreshRun

/-- A run of `select_optimal_outputs` from a fresh selector over a pool of positive amounts,
through any number of retries and rollbacks, leaves the selector sound with respect to the
pool's spendable entries, whatever status it returns. -/
theorem select_optimal_outputs_sound (cur : Currency) (unspents : List Output)
    (hpos : ∀ c ∈ unspents, 0 < c.amount)
    (block_height : Height) (block_time : Timestamp) (confirmed_height : Height)
    (effective_median_size anonymity : Nat) (total_amount : Amount) (total_outputs : Nat)
    (fee_per_byte : Amount) (optimization_level : String) (fuel : Nat) :
    Flow.OnDone (fun r => r.2.2.Sound cur anonymity
        (unspents.filter (spendable cur block_height block_time confirmed_height)))
      ((create unspents).selectOptimalOutputs cur block_height block_time confirmed_height
        effective_median_size anonymity total_amount total_outputs fee_per_byte
        optimization_level fuel) :=
  onDone_select_optimal_outputs _ _ _ _ _ _ _ _ _ _ _ _ fun _ status _ _ hr hf =>
    finish_sound (fresh_after_conserves hpos hr hf) unspents status

theorem select_optimal_outputs_sound_demo :
    (∀ c ∈ [demoCoin 0 1000 false, demoCoin 1 7 true], 0 < c.amount) ∧
    Flow.OnDone (fun r => r.2.2.Sound demoCurrency 1
        ([demoCoin 0 1000 false, demoCoin 1 7 true].filter (spendable demoCurrency 100 0 100)))
      ((create [demoCoin 0 1000 false, demoCoin 1 7 true]).selectOptimalOutputs demoCurrency
        100 0 100 100000 1 990 0 1 "" 20) :=
  ⟨by decide, select_optimal_outputs_sound demoCurrency _ (by decide) 100 0 100 100000 1 990 0 1
    "" 20⟩

end UnspentSelector

end Varcoin
