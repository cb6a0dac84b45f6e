import Mathlib.Algebra.Order.BigOperators.Group.List
import Varcoin.Selector.Termination
import Varcoin.Selector.Rounding

/-!
# What an `OK` answer pays when no target wraps

`select_optimal_outputs_ok_target_wraps` is an `OK` answer whose inputs are worth less than
`total_amount`: the inner target `total_amount + fee` wrapped.  That is the only gap.  When
the pool's total fits in 64 bits, and so does `total_amount` plus every fee the loop can
compute plus the dust threshold `D`, an `OK` answer from a fresh selector balances over the
naturals: the committed coins pay `total_amount`, the change, a multiple of `D`, and a fee
of at least `minimum_fee` and at least `fee_per_byte * tx_size`
(`select_optimal_outputs_ok_balance`).

Two facts carry it.  The fee of a run never falls, and a raised fee stays below a size fee
plus `D` (`fresh_fee_bounds`), so no target wraps; and the inner selector answers `true`
only after its picks reached the target, which later picks only raise while the sums fit
in 64 bits (`fresh_ok_reached`).
-/

namespace Varcoin

namespace Selection

/-- Picks add their amounts to `m_used_total`. -/
theorem pickHave_used_total {s s' : Selection} (h : Relation.ReflTransGen PickHave s s') :
    ∃ p, s'.optimization_unspents = s.optimization_unspents ++ p ∧
      s'.used_total = s.used_total + (p.map (·.amount)).sum := by
  induction h with
  | refl => exact ⟨[], by simp, by simp⟩
  | tail _ hm ih =>
    obtain ⟨p, hp, hu⟩ := ih
    obtain ⟨un, h', -, rfl⟩ := hm
    exact ⟨p ++ [un], by simp [hp], by simp [hu, add_assoc]⟩

/-- The picks of a selection that conserves a list are worth at most that list. -/
theorem Conserves.sum_le {cur : Currency} {anonymity : Nat} {eligible : List Output}
    {s : Selection} (hc : s.Conserves cur anonymity eligible) :
    (s.optimization_unspents.map (·.amount.toNat)).sum ≤
      (eligible.map (·.amount.toNat)).sum := by
  obtain ⟨l, hp, hsub⟩ := (List.sublist_append_right _ _).subperm.trans hc.held.subperm
  rw [← (hp.map _).sum_eq]
  exact (hsub.map _).sum_le_sum fun _ _ => Nat.zero_le _

end Selection

/-- The size fee read over the naturals, when it fits in 64 bits. -/
theorem sizeFee_toNat {fee_per_byte : Amount} {n : Nat} (h : fee_per_byte.toNat * n < 2 ^ 64) :
    (fee_per_byte * UInt64.ofNat n).toNat = fee_per_byte.toNat * n := by
  rw [u64_toNat_mul, u64_toNat_ofNat]
  rcases Nat.eq_zero_or_pos fee_per_byte.toNat with h0 | h0
  · simp [h0]
  · have hn : n < 2 ^ 64 := lt_of_le_of_lt (Nat.le_mul_of_pos_left n h0) h
    rw [Nat.mod_eq_of_lt hn, Nat.mod_eq_of_lt h]

/-- The change and the fee of an `OK` pass read over the naturals, when the target
`T + F` leaves room for `D` and the picks `S` reach it. -/
theorem ok_change_toNat {S T F D : Amount} (hD : 0 < D.toNat)
    (hTF : T.toNat + F.toNat + D.toNat ≤ 2 ^ 64) (hS : (T + F).toNat ≤ S.toNat) :
    (S - T - F - (S - T - F) % D).toNat =
        S.toNat - T.toNat - F.toNat - (S.toNat - T.toNat - F.toNat) % D.toNat ∧
      (F + (S - T - F) % D).toNat = F.toNat + (S.toNat - T.toNat - F.toNat) % D.toNat := by
  rw [u64_toNat_add, Nat.mod_eq_of_lt (by omega)] at hS
  have h₁ : (S - T).toNat = S.toNat - T.toNat :=
    UInt64.toNat_sub_of_le _ _ (by rw [u64_le_iff]; omega)
  have h₂ : (S - T - F).toNat = S.toNat - T.toNat - F.toNat := by
    rw [UInt64.toNat_sub_of_le _ _ (by rw [u64_le_iff, h₁]; omega), h₁]
  have hmod : ((S - T - F) % D).toNat = (S.toNat - T.toNat - F.toNat) % D.toNat := by
    rw [UInt64.toNat_mod, h₂]
  have hlt := Nat.mod_lt (S.toNat - T.toNat - F.toNat) hD
  refine ⟨?_, by rw [u64_toNat_add, hmod, Nat.mod_eq_of_lt (by omega)]⟩
  rw [UInt64.toNat_sub_of_le _ _ (by rw [u64_le_iff, hmod, h₂]; exact Nat.mod_le _ _), h₂, hmod]

namespace UnspentSelector

section FeeLoop

variable (cur : Currency) (max_digits effective_median_size anonymity : Nat)
  (total_amount : Amount) (total_outputs : Nat) (fee_per_byte : Amount)
  (optimization_median : Nat)

/-- A pass answers `OK` only when the inner selector answered `true`. -/
theorem feeStep_ok_found {L : FeeLoop} {change : Option Amount} {s : Selection}
    (h : feeStep cur max_digits effective_median_size anonymity total_amount total_outputs
      fee_per_byte optimization_median L = some (.done ("", change, s))) :
    L.sel.selectOptimalOutputs max_digits (total_amount + L.fee) anonymity L.optimizations =
      some (true, s) := by
  obtain ⟨⟨found, r⟩, hr, h⟩ := Option.bind_eq_some.mp h
  dsimp only at h
  split_ifs at h with h₁ <;> simp at h
  obtain ⟨-, rfl⟩ := h
  simpa [h₁] using hr

end FeeLoop

section FreshRun

variable {cur : Currency} {unspents : List Output} {block_height : Height}
  {block_time : Timestamp} {confirmed_height : Height} {optimization_level : String}
  {effective_median_size anonymity : Nat} {total_amount : Amount} {total_outputs : Nat}
  {fee_per_byte : Amount} {optimization_median : Nat}

/-- The fee of every loop state of a run from a fresh selector is at least `minimum_fee`
and leaves room for `total_amount` and `D`, when `total_amount` plus `minimum_fee`, or
plus the size fee of a selection from the pool and `2 * D`, fits in 64 bits. -/
theorem fresh_fee_bounds (hpos : ∀ c ∈ unspents, 0 < c.amount)
    (hD : 0 < cur.default_dust_threshold.toNat)
    (hmin : total_amount.toNat + cur.minimum_fee.toNat + cur.default_dust_threshold.toNat ≤
      2 ^ 64)
    (hsize : ∀ n ≤ unspents.length, total_amount.toNat + fee_per_byte.toNat *
      cur.getMaximumTxSize n ((total_outputs + 8) % 2 ^ 64) anonymity +
        2 * cur.default_dust_threshold.toNat ≤ 2 ^ 64) {L : FeeLoop}
    (hr : Flow.Reach (feeStep cur (start cur (create unspents) block_height block_time
      confirmed_height optimization_level).2 effective_median_size anonymity total_amount
      total_outputs fee_per_byte optimization_median)
      (start cur (create unspents) block_height block_time confirmed_height
        optimization_level).1 L) :
    cur.minimum_fee.toNat ≤ L.fee.toNat ∧
      total_amount.toNat + L.fee.toNat + cur.default_dust_threshold.toNat ≤ 2 ^ 64 := by
  induction hr with
  | refl => exact ⟨le_rfl, hmin⟩
  | tail hr₀ hf ih =>
    obtain ⟨hlo, hhi⟩ := ih
    obtain ⟨r, e, -⟩ := feeStep_after cur _ _ _ _ _ _ _ hf
    have hsz : total_amount.toNat + fee_per_byte.toNat * txSize cur anonymity total_outputs r.2 +
        2 * cur.default_dust_threshold.toNat ≤ 2 ^ 64 :=
      hsize _ (fresh_inputs_count_le hpos hr₀ e)
    rcases feeStep_next cur _ _ _ _ _ _ _ hD (by omega) e (by omega) hf with
      ⟨hf', -⟩ | ⟨hlt, -, hb⟩
    · rw [hf']
      exact ⟨hlo, hhi⟩
    · exact ⟨hlo.trans (u64_lt_iff.mp hlt).le, by omega⟩

/-- An `OK` pass of a run from a fresh selector over a pool whose total fits in 64 bits
ends with picks worth at least the pass's target, over the naturals, and `m_used_total`
is their sum. -/
theorem fresh_ok_reached (hpos : ∀ c ∈ unspents, 0 < c.amount)
    (hpool : (unspents.map (·.amount.toNat)).sum < 2 ^ 64) {L : FeeLoop}
    {change : Option Amount} {s : Selection}
    (hr : Flow.Reach (feeStep cur (start cur (create unspents) block_height block_time
      confirmed_height optimization_level).2 effective_median_size anonymity total_amount
      total_outputs fee_per_byte optimization_median)
      (start cur (create unspents) block_height block_time confirmed_height
        optimization_level).1 L)
    (hf : feeStep cur (start cur (create unspents) block_height block_time confirmed_height
      optimization_level).2 effective_median_size anonymity total_amount total_outputs
      fee_per_byte optimization_median L = some (.done ("", change, s))) :
    (total_amount + L.fee).toNat ≤ (s.optimization_unspents.map (·.amount.toNat)).sum ∧
      s.used_total.toNat = (s.optimization_unspents.map (·.amount.toNat)).sum := by
  obtain ⟨hs, hp, -⟩ := fresh_reach hpos hr
  have hc : s.Conserves cur anonymity
      (unspents.filter (spendable cur block_height block_time confirmed_height)) :=
    fresh_after_conserves hpos hr hf
  have hsum : (s.optimization_unspents.map (·.amount.toNat)).sum < 2 ^ 64 :=
    lt_of_le_of_lt (hc.sum_le.trans
      (((List.filter_sublist unspents).map _).sum_le_sum fun _ _ => Nat.zero_le _)) hpool
  obtain ⟨r, e, -, -, hrep⟩ := Selection.select_optimal_outputs_spec _ _ _ _ hs hp
  obtain rfl := Option.some_injective _ (e.symm.trans (feeStep_ok_found _ _ _ _ _ _ _ _ hf))
  obtain ⟨s₀, hT, hpick⟩ := hrep.1 rfl
  obtain ⟨p, hopt, hused⟩ := Selection.pickHave_used_total hpick
  have h₀ : s₀.used_total = (s₀.optimization_unspents.map (·.amount)).sum := by
    have := hc.used_total
    rw [hused, hopt, List.map_append, List.sum_append] at this
    exact add_right_cancel this
  have hle : (s₀.optimization_unspents.map (·.amount.toNat)).sum ≤
      (s.optimization_unspents.map (·.amount.toNat)).sum := by
    rw [hopt, List.map_append, List.sum_append]
    exact Nat.le_add_right _ _
  refine ⟨(u64_le_iff.mp hT).trans ?_, by rw [hc.used_total, amount_sum_toNat,
    Nat.mod_eq_of_lt hsum]⟩
  rw [h₀, amount_sum_toNat, Nat.mod_eq_of_lt (lt_of_le_of_lt hle hsum)]
  exact hle

end FreshRun

/-- An `OK` answer balances when no target wraps.  From a fresh selector over a pool of
positive amounts whose total fits in 64 bits, with a positive dust threshold `D`, and with
`total_amount + minimum_fee + D` and `total_amount + fee_per_byte * tx_size + 2 * D`
within 64 bits for every transaction of at most as many inputs as the pool has entries, an
`OK` answer commits coins worth `S` over the naturals, `m_used_total` is `S`, and
`S = total_amount + fee + *change` for a fee of at least `minimum_fee` and at least
`fee_per_byte * tx_size` of the committed inputs, a change that is a multiple of `D`, and
a transaction that fits the median. -/
theorem select_optimal_outputs_ok_balance (cur : Currency) (unspents : List Output)
    (hpos : ∀ c ∈ unspents, 0 < c.amount)
    (block_height : Height) (block_time : Timestamp) (confirmed_height : Height)
    (effective_median_size anonymity : Nat) (total_amount : Amount) (total_outputs : Nat)
    (fee_per_byte : Amount) (optimization_level : String)
    (hD : 0 < cur.default_dust_threshold.toNat)
    (hpool : (unspents.map (·.amount.toNat)).sum < 2 ^ 64)
    (hmin : total_amount.toNat + cur.minimum_fee.toNat + cur.default_dust_threshold.toNat ≤
      2 ^ 64)
    (hsize : ∀ n ≤ unspents.length, total_amount.toNat + fee_per_byte.toNat *
      cur.getMaximumTxSize n ((total_outputs + 8) % 2 ^ 64) anonymity +
        2 * cur.default_dust_threshold.toNat ≤ 2 ^ 64)
    (fuel : Nat) :
    Flow.OnDone (fun r => r.1 = "" → ∃ (fee : Nat) (change : Amount),
        let S := (r.2.2.used_unspents.map (·.amount.toNat)).sum
        let tx_size := cur.getMaximumTxSize r.2.2.used_unspents.length
          ((total_outputs + 8) % 2 ^ 64) anonymity
        r.2.1 = some change ∧ S = total_amount.toNat + fee + change.toNat ∧
        r.2.2.used_total.toNat = S ∧ cur.minimum_fee.toNat ≤ fee ∧
        fee_per_byte.toNat * tx_size ≤ fee ∧
        change.toNat % cur.default_dust_threshold.toNat = 0 ∧ tx_size ≤ effective_median_size)
      ((create unspents).selectOptimalOutputs cur block_height block_time confirmed_height
        effective_median_size anonymity total_amount total_outputs fee_per_byte
        optimization_level fuel) :=
  onDone_select_optimal_outputs _ _ _ _ _ _ _ _ _ _ _ _ fun L status change s hr hf hst => by
    subst hst
    have hin := fresh_inputs_count_le hpos hr (feeStep_ok_found _ _ _ _ _ _ _ _ hf)
    obtain ⟨hsz, hfee, rfl⟩ := feeStep_ok _ _ _ _ _ _ _ _ hf
    obtain ⟨hlo, hhi⟩ := fresh_fee_bounds hpos hD hmin hsize hr
    obtain ⟨hreach, hS⟩ := fresh_ok_reached hpos hpool hr hf
    obtain ⟨hchange, hfee'⟩ := ok_change_toNat hD hhi (hreach.trans hS.symm.le)
    have hc : s.Conserves cur anonymity
        (unspents.filter (spendable cur block_height block_time confirmed_height)) :=
      fresh_after_conserves hpos hr hf
    have hfin : ((create unspents).finish "" s).used_unspents = s.optimization_unspents := by
      simp [finish, combineOptimizedUnspents, create]
    have hpay : total_amount.toNat + fee_per_byte.toNat * txSize cur anonymity total_outputs s +
        2 * cur.default_dust_threshold.toNat ≤ 2 ^ 64 := hsize _ hin
    have hfee_nat := u64_le_iff.mp hfee
    rw [changeDustFee, hfee', sizeFee_toNat (by omega)] at hfee_nat
    have hd := Nat.mod_le (s.used_total.toNat - total_amount.toNat - L.fee.toNat)
      cur.default_dust_threshold.toNat
    have htf := u64_toNat_add total_amount L.fee
    rw [hfin, ← hS, ← hc.inputs_count]
    refine ⟨L.fee.toNat + (s.used_total.toNat - total_amount.toNat - L.fee.toNat) %
      cur.default_dust_threshold.toNat, _, rfl, ?_, by simp, by omega, hfee_nat, ?_, hsz⟩
    · rw [changeDustFee, hchange]
      omega
    · rw [changeDustFee, hchange]
      exact Nat.sub_mod_eq_zero_of_mod_eq (Nat.mod_mod _ _).symm

/-- One coin of 1000 and a transfer of 50 at one unit a byte: the first pass offers the
minimum fee 10, the second the size fee 670, and the answer is `OK` with change 280. -/
theorem select_optimal_outputs_ok_balance_demo :
    (∀ c ∈ [demoCoin 1 1000 false], 0 < c.amount) ∧
    0 < demoCurrency.default_dust_threshold.toNat ∧
    ([demoCoin 1 1000 false].map (·.amount.toNat)).sum < 2 ^ 64 ∧
    (50 : Amount).toNat + demoCurrency.minimum_fee.toNat +
      demoCurrency.default_dust_threshold.toNat ≤ 2 ^ 64 ∧
    (∀ n ≤ [demoCoin 1 1000 false].length, (50 : Amount).toNat + (1 : Amount).toNat *
      demoCurrency.getMaximumTxSize n ((1 + 8) % 2 ^ 64) 2 +
        2 * demoCurrency.default_dust_threshold.toNat ≤ 2 ^ 64) ∧
    Flow.OnDone (fun r => r.1 = "" → ∃ (fee : Nat) (change : Amount),
        let S := (r.2.2.used_unspents.map (·.amount.toNat)).sum
        let tx_size := demoCurrency.getMaximumTxSize r.2.2.used_unspents.length
          ((1 + 8) % 2 ^ 64) 2
        r.2.1 = some change ∧ S = (50 : Amount).toNat + fee + change.toNat ∧
        r.2.2.used_total.toNat = S ∧ demoCurrency.minimum_fee.toNat ≤ fee ∧
        (1 : Amount).toNat * tx_size ≤ fee ∧
        change.toNat % demoCurrency.default_dust_threshold.toNat = 0 ∧ tx_size ≤ 100000)
      ((create [demoCoin 1 1000 false]).selectOptimalOutputs demoCurrency 100 0 100 100000 2
        50 1 1 "" 2) :=
  ⟨by decide, by decide, by decide, by decide, by decide,
    select_optimal_outputs_ok_balance demoCurrency _ (by decide) 100 0 100 100000 2 50 1 1 ""
      (by decide) (by decide) (by decide) (by decide) 2⟩

end UnspentSelector

end Varcoin
