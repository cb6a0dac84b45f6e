import Varcoin.Selector.Fee

/-!
# The fee loop returns when no fee wraps

`select_optimal_outputs_fee_cycle` is a run that never returns: the rounding of a raised
fee wraps and the fee falls back to 0.  Without that wraparound every run returns.  A pass
that goes round again either lowers the optimization budget and keeps the fee, or raises
the fee (`raisedFee_gt`) and keeps the budget (`feeStep_next`).  `feeMeasure` counts the
fee's distance to `2^64` in units larger than any budget, plus the budget, so it falls at
every such pass, and a run from a fresh selector returns within that many passes
(`select_optimal_outputs_returns`).

The assumptions say that no fee the loop computes wraps: the dust threshold `D` is
positive, `minimum_fee + D` fits in 64 bits, and so does `fee_per_byte * tx_size + 2 * D`
for every transaction of at most as many inputs as the pool has entries.
-/

namespace Varcoin

/-- The fee's distance to `2^64` in units of `B + 1`, plus the optimization budget. -/
def feeMeasure (B : Nat) (L : FeeLoop) : Nat :=
  (2 ^ 64 - L.fee.toNat) * (B + 1) + L.optimizations

/-- Lowering the budget with the fee kept, or raising the fee with a budget of at most
`B`, lowers the measure. -/
theorem feeMeasure_lt {B : Nat} {L L' : FeeLoop} (hB : L'.optimizations ≤ B)
    (h : L'.fee = L.fee ∧ L'.optimizations < L.optimizations ∨ L.fee < L'.fee) :
    feeMeasure B L' < feeMeasure B L := by
  unfold feeMeasure
  rcases h with ⟨hf, ho⟩ | hf
  · rw [hf]; omega
  · rw [u64_lt_iff] at hf
    calc (2 ^ 64 - L'.fee.toNat) * (B + 1) + L'.optimizations
        < (2 ^ 64 - L'.fee.toNat + 1) * (B + 1) := by rw [Nat.add_mul, Nat.one_mul]; omega
      _ ≤ (2 ^ 64 - L.fee.toNat) * (B + 1) :=
        Nat.mul_le_mul_right _ (by have := u64_toNat_lt L'.fee; omega)
      _ ≤ _ := Nat.le_add_right _ _

/-- The size fee, read over the naturals, is at most `fee_per_byte * tx_size`. -/
theorem sizeFee_toNat_le (fee_per_byte : Amount) (n : Nat) :
    (fee_per_byte * UInt64.ofNat n).toNat ≤ fee_per_byte.toNat * n := by
  rw [u64_toNat_mul, u64_toNat_ofNat]
  exact (Nat.mod_le _ _).trans (Nat.mul_le_mul_left _ (Nat.mod_le _ _))

/-- A raised fee is at most its numerator: it is the numerator rounded down to a multiple
of `D`. -/
theorem raisedFee_toNat_le (cur : Currency) (size_fee change_dust_fee : Amount) :
    (raisedFee cur size_fee change_dust_fee).toNat ≤
      (size_fee - change_dust_fee + cur.default_dust_threshold - 1).toNat := by
  rw [raisedFee, u64_toNat_mul, UInt64.toNat_div]
  exact (Nat.mod_le _ _).trans (Nat.div_mul_le_self _ _)

section FeeLoop

variable (cur : Currency) (max_digits effective_median_size anonymity : Nat)
  (total_amount : Amount) (total_outputs : Nat) (fee_per_byte : Amount)
  (optimization_median : Nat)

/-- A pass that goes round again either lowers the budget and keeps the fee, or raises
the fee and keeps the budget, when the old fee leaves room for the dust threshold and the
size fee of the selection, with twice the threshold, fits in 64 bits.  A raised fee stays
below the size fee plus the threshold. -/
theorem feeStep_next {L L' : FeeLoop} {r : Bool × Selection}
    (hD : 0 < cur.default_dust_threshold.toNat)
    (hfee : L.fee.toNat + cur.default_dust_threshold.toNat ≤ 2 ^ 64)
    (hr : L.sel.selectOptimalOutputs max_digits (total_amount + L.fee) anonymity
      L.optimizations = some r)
    (hsize : fee_per_byte.toNat * txSize cur anonymity total_outputs r.2 +
      2 * cur.default_dust_threshold.toNat ≤ 2 ^ 64)
    (h : feeStep cur max_digits effective_median_size anonymity total_amount total_outputs
      fee_per_byte optimization_median L = some (.next L')) :
    L'.fee = L.fee ∧ L'.optimizations < L.optimizations ∨
      L.fee < L'.fee ∧ L'.optimizations = L.optimizations ∧
        L'.fee.toNat + cur.default_dust_threshold.toNat <
          fee_per_byte.toNat * txSize cur anonymity total_outputs r.2 +
            2 * cur.default_dust_threshold.toNat := by
  rw [feeStep, hr, Option.some_bind] at h
  dsimp only at h
  split_ifs at h with _ hopt hzero _ hpay <;> cases h
  · exact .inl ⟨rfl, hopt.2⟩
  · exact .inl ⟨rfl, Nat.div_lt_self hopt.2 (by decide)⟩
  · have hcdf : (changeDustFee cur total_amount r.2 L.fee).toNat <
        cur.default_dust_threshold.toNat := by
      rw [changeDustFee, UInt64.toNat_mod]; exact Nat.mod_lt _ hD
    have hsf := sizeFee_toNat_le fee_per_byte (txSize cur anonymity total_outputs r.2)
    have hlt : L.fee.toNat + (changeDustFee cur total_amount r.2 L.fee).toNat <
        (fee_per_byte * UInt64.ofNat (txSize cur anonymity total_outputs r.2)).toNat := by
      rw [ge_iff_le, u64_le_iff, u64_toNat_add, Nat.mod_eq_of_lt (by omega)] at hpay
      omega
    have hle := raisedFee_toNat_le cur
      (fee_per_byte * UInt64.ofNat (txSize cur anonymity total_outputs r.2))
      (changeDustFee cur total_amount r.2 L.fee)
    rw [raisedFee_numerator_toNat cur hD (by omega), Nat.mod_eq_of_lt (by omega)] at hle
    exact .inr ⟨raisedFee_gt cur hD hlt (by omega), rfl, by dsimp only; omega⟩

end FeeLoop

namespace Flow

variable {σ α : Type} {f : σ → Option (Flow σ α)}

/-- A loop whose every pass from a state satisfying `P` is defined, and goes round again
only to a state satisfying `P` of smaller measure, returns once the fuel exceeds the
measure. -/
theorem iterate_done (μ : σ → Nat) {P : σ → Prop}
    (h : ∀ s, P s → ∃ r, f s = some r ∧ ∀ s', r = .next s' → P s' ∧ μ s' < μ s) :
    ∀ (n : Nat) {s : σ}, P s → μ s < n → ∃ a, iterate f n s = some (.done a)
  | 0, _, _, hn => absurd hn (Nat.not_lt_zero _)
  | n + 1, s, hs, hn => by
    obtain ⟨r, hr, hnext⟩ := h s hs
    cases r with
    | done a => exact ⟨a, by simp [iterate, hr]⟩
    | next s' =>
      obtain ⟨hs', hμ⟩ := hnext s' rfl
      rw [iterate_succ_next hr]
      exact iterate_done μ h n hs' (by omega)

end Flow

namespace UnspentSelector

section FreshRun

variable {cur : Currency} {unspents : List Output} {block_height : Height}
  {block_time : Timestamp} {confirmed_height : Height} {optimization_level : String}
  {effective_median_size anonymity : Nat} {total_amount : Amount} {total_outputs : Nat}
  {fee_per_byte : Amount} {optimization_median : Nat}

/-- Every selection the inner selector returns in a run from a fresh selector holds at
most as many inputs as the pool has entries. -/
theorem fresh_inputs_count_le (hpos : ∀ c ∈ unspents, 0 < c.amount) {L : FeeLoop}
    {r : Bool × Selection}
    (hr : Flow.Reach (feeStep cur (start cur (create unspents) block_height block_time
      confirmed_height optimization_level).2 effective_median_size anonymity total_amount
      total_outputs fee_per_byte optimization_median)
      (start cur (create unspents) block_height block_time confirmed_height
        optimization_level).1 L)
    (he : L.sel.selectOptimalOutputs (start cur (create unspents) block_height block_time
      confirmed_height optimization_level).2 (total_amount + L.fee) anonymity
      L.optimizations = some r) :
    r.2.inputs_count ≤ unspents.length := by
  obtain ⟨hs, hp, hc⟩ := fresh_reach hpos hr
  obtain ⟨r', e, m, -⟩ := Selection.select_optimal_outputs_spec _ _ _ _ hs hp
  obtain rfl := Option.some_injective _ (e.symm.trans he)
  have hc' := Selection.moves_conserves m hc
  have hlen := hc'.held.length_eq
  have hfilter := List.length_filter_le (spendable cur block_height block_time confirmed_height)
    unspents
  simp only [Selection.held, List.length_append] at hlen
  rw [hc'.inputs_count]
  omega

/-- A pass from a reachable state whose fee leaves room for the dust threshold and whose
budget is at most `optimizationsOf optimization_level` is defined, and goes round again
only to a state with the same bounds and a smaller measure. -/
theorem fresh_feeStep_next (hpos : ∀ c ∈ unspents, 0 < c.amount)
    (hD : 0 < cur.default_dust_threshold.toNat)
    (hsize : ∀ n ≤ unspents.length, fee_per_byte.toNat *
      cur.getMaximumTxSize n ((total_outputs + 8) % 2 ^ 64) anonymity +
        2 * cur.default_dust_threshold.toNat ≤ 2 ^ 64) {L : FeeLoop}
    (hL : Flow.Reach (feeStep cur (start cur (create unspents) block_height block_time
      confirmed_height optimization_level).2 effective_median_size anonymity total_amount
      total_outputs fee_per_byte optimization_median)
      (start cur (create unspents) block_height block_time confirmed_height
        optimization_level).1 L ∧
      L.fee.toNat + cur.default_dust_threshold.toNat ≤ 2 ^ 64 ∧
      L.optimizations ≤ optimizationsOf optimization_level) :
    ∃ f, feeStep cur (start cur (create unspents) block_height block_time confirmed_height
        optimization_level).2 effective_median_size anonymity total_amount total_outputs
        fee_per_byte optimization_median L = some f ∧
      ∀ L', f = .next L' →
        (Flow.Reach (feeStep cur (start cur (create unspents) block_height block_time
          confirmed_height optimization_level).2 effective_median_size anonymity total_amount
          total_outputs fee_per_byte optimization_median)
          (start cur (create unspents) block_height block_time confirmed_height
            optimization_level).1 L' ∧
          L'.fee.toNat + cur.default_dust_threshold.toNat ≤ 2 ^ 64 ∧
          L'.optimizations ≤ optimizationsOf optimization_level) ∧
        feeMeasure (optimizationsOf optimization_level) L' <
          feeMeasure (optimizationsOf optimization_level) L := by
  obtain ⟨hr, hfee, hB⟩ := hL
  obtain ⟨hs, hp, -⟩ := fresh_reach hpos hr
  obtain ⟨f, hf, -⟩ := feeStep_spec cur (start cur (create unspents) block_height block_time
    confirmed_height optimization_level).2 effective_median_size anonymity total_amount
    total_outputs fee_per_byte optimization_median hs hp
  refine ⟨f, hf, fun L' hL' => ?_⟩
  subst hL'
  obtain ⟨r, e, -⟩ := feeStep_after cur _ _ _ _ _ _ _ hf
  have hsz : fee_per_byte.toNat * txSize cur anonymity total_outputs r.2 +
      2 * cur.default_dust_threshold.toNat ≤ 2 ^ 64 := hsize _ (fresh_inputs_count_le hpos hr e)
  rcases feeStep_next cur _ _ _ _ _ _ _ hD hfee e hsz hf with ⟨hf', ho⟩ | ⟨hf', ho, hlt⟩
  · exact ⟨⟨hr.tail hf, by rw [hf']; exact hfee, by omega⟩,
      feeMeasure_lt (by omega) (.inl ⟨hf', ho⟩)⟩
  · exact ⟨⟨hr.tail hf, by omega, by omega⟩, feeMeasure_lt (by omega) (.inr hf')⟩

end FreshRun

/-- Without wraparound of the fee, `select_optimal_outputs` returns.  From a fresh selector
over a pool of positive amounts, with a positive dust threshold `D`, `minimum_fee + D`
within 64 bits, and `fee_per_byte * tx_size + 2 * D` within 64 bits for every transaction
of at most as many inputs as the pool has entries, the fee loop answers within
`(2^64 + 1) * (optimizations + 1)` passes, whatever the other arguments. -/
theorem select_optimal_outputs_returns (cur : Currency) (unspents : List Output)
    (hpos : ∀ c ∈ unspents, 0 < c.amount)
    (block_height : Height) (block_time : Timestamp) (confirmed_height : Height)
    (effective_median_size anonymity : Nat) (total_amount : Amount) (total_outputs : Nat)
    (fee_per_byte : Amount) (optimization_level : String)
    (hD : 0 < cur.default_dust_threshold.toNat)
    (hmin : cur.minimum_fee.toNat + cur.default_dust_threshold.toNat ≤ 2 ^ 64)
    (hsize : ∀ n ≤ unspents.length, fee_per_byte.toNat *
      cur.getMaximumTxSize n ((total_outputs + 8) % 2 ^ 64) anonymity +
        2 * cur.default_dust_threshold.toNat ≤ 2 ^ 64)
    (fuel : Nat) (hfuel : (2 ^ 64 + 1) * (optimizationsOf optimization_level + 1) ≤ fuel) :
    ∃ r, (create unspents).selectOptimalOutputs cur block_height block_time
      confirmed_height effective_median_size anonymity total_amount total_outputs
      fee_per_byte optimization_level fuel = some (.done r) := by
  have hμ : feeMeasure (optimizationsOf optimization_level)
      (start cur (create unspents) block_height block_time confirmed_height
        optimization_level).1 < fuel := by
    show (2 ^ 64 - cur.minimum_fee.toNat) * (optimizationsOf optimization_level + 1) +
      optimizationsOf optimization_level < fuel
    have := Nat.mul_le_mul_right (optimizationsOf optimization_level + 1)
      (Nat.sub_le (2 ^ 64) cur.minimum_fee.toNat)
    rw [Nat.add_mul _ 1, Nat.one_mul] at hfuel
    omega
  obtain ⟨a, ha⟩ := Flow.iterate_done _ (fun _ => fresh_feeStep_next hpos hD hsize) fuel
    ⟨.refl, hmin, le_rfl⟩ hμ
  exact ⟨_, by rw [selectOptimalOutputs, ha]; rfl⟩

theorem select_optimal_outputs_returns_demo :
    (∀ c ∈ [demoCoin 0 1000 false, demoCoin 1 7 true], 0 < c.amount) ∧
    0 < demoCurrency.default_dust_threshold.toNat ∧
    demoCurrency.minimum_fee.toNat + demoCurrency.default_dust_threshold.toNat ≤ 2 ^ 64 ∧
    (∀ n ≤ [demoCoin 0 1000 false, demoCoin 1 7 true].length, (1 : Amount).toNat *
      demoCurrency.getMaximumTxSize n ((0 + 8) % 2 ^ 64) 1 +
        2 * demoCurrency.default_dust_threshold.toNat ≤ 2 ^ 64) ∧
    ∃ r, (create [demoCoin 0 1000 false, demoCoin 1 7 true]).selectOptimalOutputs
      demoCurrency 100 0 100 100000 1 990 0 1 "" ((2 ^ 64 + 1) * (optimizationsOf "" + 1)) =
        some (.done r) :=
  ⟨by decide, by decide, by decide, by decide,
    select_optimal_outputs_returns demoCurrency _ (by decide) 100 0 100 100000 1 990 0 1 ""
      (by decide) (by decide) (by decide) _ le_rfl⟩

end UnspentSelector

end Varcoin
