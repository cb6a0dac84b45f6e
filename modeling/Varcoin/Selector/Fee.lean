import Varcoin.Selector.Run

/-!
# What the answers of the fee loop say

An `OK` answer comes from a pass whose fee, with the residue `change_dust_fee`, covered
`fee_per_byte * tx_size` and whose size fit the median; the change is what is left above
`total_amount + fee`, rounded down to the dust threshold (`feeStep_ok`).
All of this holds in `uint64` arithmetic, and no more: `total_amount + fee` is never
checked for wraparound, so a target near `2^64` wraps to a small one and an `OK` answer
can report change that its inputs do not pay for.  A `NOT_ENOUGH_FUNDS` answer comes from
a pass whose picks fell short of `total_amount` plus that pass's fee, with every unpicked
coin held back as dust (`select_optimal_outputs_not_enough`).

The fee loop has no decreasing measure either.  A fee retry raises the fee to the size
fee rounded up to the dust threshold (`raisedFee_gt`) unless the rounding itself wraps,
and then the fee falls to 0 and the loop can repeat a pass forever.
-/

namespace Varcoin

open Selection

section FeeLoop

variable (cur : Currency) (max_digits effective_median_size anonymity : Nat)
  (total_amount : Amount) (total_outputs : Nat) (fee_per_byte : Amount)
  (optimization_median : Nat)

/-- A pass answers `OK` only when the size fits and the fee pays for it, with the change
left above `total_amount + fee` and the residue. -/
theorem feeStep_ok {L : FeeLoop} {change : Option Amount} {s : Selection}
    (h : feeStep cur max_digits effective_median_size anonymity total_amount total_outputs
      fee_per_byte optimization_median L = some (.done ("", change, s))) :
    txSize cur anonymity total_outputs s ≤ effective_median_size ∧
    fee_per_byte * UInt64.ofNat (txSize cur anonymity total_outputs s) ≤
      L.fee + changeDustFee cur total_amount s L.fee ∧
    change = some (s.used_total - total_amount - L.fee - changeDustFee cur total_amount s L.fee) := by
  obtain ⟨r, -, h⟩ := Option.bind_eq_some.mp h
  dsimp only at h
  split_ifs at h with _ _ _ hsize hfee <;> simp at h
  obtain ⟨rfl, rfl⟩ := h
  exact ⟨Nat.le_of_not_lt hsize, hfee, rfl⟩

/-- A pass answers `NOT_ENOUGH_FUNDS` only when the inner selector answered `false`. -/
theorem feeStep_not_enough {L : FeeLoop} {change : Option Amount} {s : Selection}
    (h : feeStep cur max_digits effective_median_size anonymity total_amount total_outputs
      fee_per_byte optimization_median L = some (.done ("NOT_ENOUGH_FUNDS", change, s))) :
    L.sel.selectOptimalOutputs max_digits (total_amount + L.fee) anonymity L.optimizations =
      some (false, s) ∧ change = none := by
  obtain ⟨⟨found, r⟩, hr, h⟩ := Option.bind_eq_some.mp h
  dsimp only at h
  split_ifs at h with h₁ <;> simp at h
  obtain ⟨rfl, rfl⟩ := h
  exact ⟨by simpa [h₁] using hr, rfl⟩

/-- The numerator of the fee rounding, `size_fee - change_dust_fee + D - 1`, over the
naturals. -/
theorem raisedFee_numerator_toNat {size_fee change_dust_fee : Amount}
    (hD : 0 < cur.default_dust_threshold.toNat) (hle : change_dust_fee.toNat ≤ size_fee.toNat) :
    (size_fee - change_dust_fee + cur.default_dust_threshold - 1).toNat =
      (size_fee.toNat - change_dust_fee.toNat + cur.default_dust_threshold.toNat - 1) % 2 ^ 64 := by
  rw [u64_toNat_sub, u64_toNat_add, u64_toNat_sub, show (1 : UInt64).toNat = 1 from rfl]
  have := u64_toNat_lt size_fee
  have := u64_toNat_lt cur.default_dust_threshold
  omega

/-- Without wraparound a fee retry raises the fee: the new fee is the size fee less the
residue rounded up to the dust threshold, which the old fee with the residue fell short of. -/
theorem raisedFee_gt {fee size_fee change_dust_fee : Amount}
    (hD : 0 < cur.default_dust_threshold.toNat)
    (hlt : fee.toNat + change_dust_fee.toNat < size_fee.toNat)
    (hwrap : size_fee.toNat - change_dust_fee.toNat + cur.default_dust_threshold.toNat - 1 < 2 ^ 64) :
    fee < raisedFee cur size_fee change_dust_fee := by
  have hx := raisedFee_numerator_toNat cur hD
    (show change_dust_fee.toNat ≤ size_fee.toNat by omega)
  rw [Nat.mod_eq_of_lt hwrap] at hx
  have hq := Nat.div_add_mod (size_fee.toNat - change_dust_fee.toNat +
    cur.default_dust_threshold.toNat - 1) cur.default_dust_threshold.toNat
  have hr := Nat.mod_lt (size_fee.toNat - change_dust_fee.toNat +
    cur.default_dust_threshold.toNat - 1) hD
  rw [u64_lt_iff, raisedFee, u64_toNat_mul, UInt64.toNat_div, hx, Nat.mul_comm,
    Nat.mod_eq_of_lt (by omega)]
  omega

/-- When the rounding wraps, a fee retry sets the fee to 0. -/
theorem raisedFee_wraps {size_fee change_dust_fee : Amount}
    (hD : 0 < cur.default_dust_threshold.toNat)
    (hle : change_dust_fee.toNat ≤ size_fee.toNat)
    (hwrap : 2 ^ 64 ≤ size_fee.toNat - change_dust_fee.toNat + cur.default_dust_threshold.toNat - 1) :
    raisedFee cur size_fee change_dust_fee = 0 := by
  have hx : (size_fee - change_dust_fee + cur.default_dust_threshold - 1).toNat <
      cur.default_dust_threshold.toNat := by
    rw [raisedFee_numerator_toNat cur hD hle]
    have := u64_toNat_lt size_fee
    omega
  refine u64_eq_of_toNat_eq ?_
  rw [raisedFee, u64_toNat_mul, UInt64.toNat_div, Nat.div_eq_of_lt hx]
  simp

/-- Twenty-one coins of 1 at global indexes 0 to 20. -/
def cyclePool : List Output := (List.range 21).map fun i => demoCoin i 1 false

/-- A state of the fee loop with fee 0, a budget of 50 optimizations, nothing picked, and
`stack` as the only stack. -/
def cycleState (stack : List Output) : FeeLoop :=
  ⟨⟨StdMap.empty.insert 0 (StdMap.empty.insert 1 stack), StdMap.empty, [], 0, 0⟩, 0, 50⟩

end FeeLoop

namespace UnspentSelector

/-- With `cyclePool`, `total_amount = 0` and `anonymity = 1`, every pass takes ten coins
from the stack of twenty-one and makes a transaction of 1820 bytes; `fee_per_byte` is
chosen so that the size fee is `2^64 - 4`.  The first fee retry rounds that up past `2^64`
(`raisedFee_wraps`), the fee becomes 0, and from then on each pass rolls back, reverses
the ten coins on top of the stack, and sets the fee to 0 again: the loop never returns. -/
theorem select_optimal_outputs_fee_cycle (fuel : Nat) :
    ∃ L, (create cyclePool).selectOptimalOutputs demoCurrency 100 0 100 100000 1 0 0
      1155455398023565321 "" fuel = some (.next L) := by
  have h₀ : feeStep demoCurrency (start demoCurrency (create cyclePool) 100 0 100 "").2 100000 1
      0 0 1155455398023565321 (100000 * medianPercentOf "" % 2 ^ 64 / 100)
      (start demoCurrency (create cyclePool) 100 0 100 "").1 =
      some (.next (cycleState ((cyclePool.take 10).reverse ++ cyclePool.drop 10))) := rfl
  have h₁ : feeStep demoCurrency (start demoCurrency (create cyclePool) 100 0 100 "").2 100000 1
      0 0 1155455398023565321 (100000 * medianPercentOf "" % 2 ^ 64 / 100)
      (cycleState ((cyclePool.take 10).reverse ++ cyclePool.drop 10)) =
      some (.next (cycleState cyclePool)) := rfl
  have h₂ : feeStep demoCurrency (start demoCurrency (create cyclePool) 100 0 100 "").2 100000 1
      0 0 1155455398023565321 (100000 * medianPercentOf "" % 2 ^ 64 / 100)
      (cycleState cyclePool) =
      some (.next (cycleState ((cyclePool.take 10).reverse ++ cyclePool.drop 10))) := rfl
  unfold selectOptimalOutputs
  dsimp only
  cases fuel with
  | zero => exact ⟨_, rfl⟩
  | succ n =>
    obtain ⟨L, hL⟩ := Flow.iterate_cycle h₁ h₂ n
    exact ⟨L, by rw [Flow.iterate_succ_next h₀, hL]; rfl⟩

/-- `total_amount = 2^64 - 8` and one coin of 3: the first target `total_amount + 10` wraps
to 2, the coin covers it, and the answer is `OK` with change 0 from inputs worth 3. -/
theorem select_optimal_outputs_ok_target_wraps :
    ∃ sel, (create [demoCoin 0 3 false]).selectOptimalOutputs demoCurrency 100 0 100 100000 0
        (0 - 8) 0 0 "" 1 = some (.done ("", some 0, sel)) ∧
      sel.used_unspents = [demoCoin 0 3 false] ∧
      (sel.used_unspents.map (·.amount.toNat)).sum < (0 - 8 : Amount).toNat + (0 : Amount).toNat :=
  ⟨_, rfl, rfl, by decide⟩

/-- `total_amount = 2^64 - 10` and an empty pool: the target `total_amount + 10` wraps to 0,
nothing needs to be picked, and the answer is `OK` with change 0 and no inputs at all. -/
theorem select_optimal_outputs_ok_without_inputs :
    ∃ sel, (create []).selectOptimalOutputs demoCurrency 100 0 100 100000 0 (0 - 10) 0 0 ""
        1 = some (.done ("", some 0, sel)) ∧
      sel.used_unspents = [] ∧
      (sel.used_unspents.map (·.amount.toNat)).sum <
        (0 - 10 : Amount).toNat + demoCurrency.minimum_fee.toNat + (0 : Amount).toNat :=
  ⟨_, rfl, rfl, by decide⟩

/-- A `NOT_ENOUGH_FUNDS` answer from a fresh selector over a positive pool leaves `*change`
unwritten and comes from a pass `L` of the fee loop, reached from its start, whose inner
selection was written back.  For that pass's fee the picks total less than
`total_amount + L.fee`, and every spendable pool entry left unpicked was held back by
`anonymity ≠ 0` together with `Currency::is_dust` or its own `dust` field. -/
theorem select_optimal_outputs_not_enough (cur : Currency) (unspents : List Output)
    (hpos : ∀ c ∈ unspents, 0 < c.amount)
    (block_height : Height) (block_time : Timestamp) (confirmed_height : Height)
    (effective_median_size anonymity : Nat) (total_amount : Amount) (total_outputs : Nat)
    (fee_per_byte : Amount) (optimization_level : String) (fuel : Nat)
    (change : Option Amount) (sel : UnspentSelector)
    (h : (create unspents).selectOptimalOutputs cur block_height block_time confirmed_height
      effective_median_size anonymity total_amount total_outputs fee_per_byte
      optimization_level fuel = some (.done ("NOT_ENOUGH_FUNDS", change, sel))) :
    let st := start cur (create unspents) block_height block_time confirmed_height
      optimization_level
    let pass := feeStep cur st.2 effective_median_size anonymity total_amount total_outputs
      fee_per_byte (effective_median_size * medianPercentOf optimization_level % 2 ^ 64 / 100)
    change = none ∧ ∃ L s, Flow.Reach pass st.1 L ∧
      pass L = some (.done ("NOT_ENOUGH_FUNDS", none, s)) ∧
      sel = (create unspents).finish "NOT_ENOUGH_FUNDS" s ∧
      sel.used_total < total_amount + L.fee ∧
      ∃ rest, (unspents.filter (spendable cur block_height block_time confirmed_height)).Perm
          (sel.optimization_unspents ++ rest) ∧
        ∀ c ∈ rest, anonymity ≠ 0 ∧ (cur.isDust c.amount = true ∨ c.dust = true) := by
  obtain ⟨L, s, hr, hf, rfl⟩ := selectOptimalOutputs_done h
  obtain ⟨hin, rfl⟩ := feeStep_not_enough _ _ _ _ _ _ _ _ hf
  obtain ⟨hs, hp, -⟩ := fresh_reach hpos hr
  have hc : s.Conserves cur anonymity _ := fresh_after_conserves hpos hr hf
  obtain ⟨r, e, -, -, -, hfalse⟩ := Selection.select_optimal_outputs_spec _ _ _ _ hs hp
  obtain rfl := Option.some_injective _ (e.symm.trans hin)
  obtain ⟨hlt, hhave, hdust⟩ := hfalse rfl
  have hheld : s.held = s.dust_coins.coins ++ s.optimization_unspents := by
    simp [Selection.held, HaveCoins.coins, StdMap.flatMap_eq_nil hhave]
  refine ⟨rfl, L, s, hr, hf, rfl, by simpa using hlt, s.dust_coins.coins, ?_,
    fun c hc' => ⟨fun h0 => ?_, hc.filed c hc'⟩⟩
  · simpa [finish] using hc.held.symm.trans (hheld ▸ List.perm_append_comm)
  · simp [h0, DustCoins.coins, StdMap.flatMap_eq_nil (hdust.resolve_left (· h0))] at hc'

theorem select_optimal_outputs_not_enough_demo :
    ∃ sel, (∀ c ∈ [demoCoin 1 100 false], 0 < c.amount) ∧
      (create [demoCoin 1 100 false]).selectOptimalOutputs demoCurrency 100 0 100 100000 2 500
        1 0 "" 1 = some (.done ("NOT_ENOUGH_FUNDS", none, sel)) ∧
      let st := start demoCurrency (create [demoCoin 1 100 false]) 100 0 100 ""
      let pass := feeStep demoCurrency st.2 100000 2 500 1 0 (100000 * medianPercentOf "" % 2 ^ 64 / 100)
      (none : Option Amount) = none ∧ ∃ L s, Flow.Reach pass st.1 L ∧
        pass L = some (.done ("NOT_ENOUGH_FUNDS", none, s)) ∧
        sel = (create [demoCoin 1 100 false]).finish "NOT_ENOUGH_FUNDS" s ∧
        sel.used_total < 500 + L.fee ∧
        ∃ rest, ([demoCoin 1 100 false].filter (spendable demoCurrency 100 0 100)).Perm
            (sel.optimization_unspents ++ rest) ∧
          ∀ c ∈ rest, 2 ≠ 0 ∧ (demoCurrency.isDust c.amount = true ∨ c.dust = true) :=
  ⟨_, by decide, rfl, @select_optimal_outputs_not_enough demoCurrency [demoCoin 1 100 false]
    (by decide) 100 0 100 100000 2 500 1 0 "" 1 none _ rfl⟩

/-- A coin of 1 that `Currency::is_dust` takes for clean but whose `dust` field is set, and
two coins of 20, with `anonymity = 1` and `total_amount = 31`: the three coins pay exactly
`total_amount + minimum_fee`, but the optimization picks the coin of 1, the rollback
before the filler files it under `dust_coins`, which the filler may not use, and the
answer is `NOT_ENOUGH_FUNDS`. -/
theorem select_optimal_outputs_not_enough_spurious :
    ∃ sel, (create [demoCoin 0 1 true, demoCoin 1 20 false, demoCoin 2 20 false]).selectOptimalOutputs
        demoCurrency 100 0 100 100000 1 31 0 0 "" 1 = some (.done ("NOT_ENOUGH_FUNDS", none, sel)) ∧
      (([demoCoin 0 1 true, demoCoin 1 20 false, demoCoin 2 20 false].filter fun c =>
          spendable demoCurrency 100 0 100 c && !demoCurrency.isDust c.amount).map
        (·.amount.toNat)).sum = (31 : Amount).toNat + demoCurrency.minimum_fee.toNat :=
  ⟨_, rfl, by decide⟩

end UnspentSelector

end Varcoin
