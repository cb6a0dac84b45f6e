import Varcoin.Selector.Inner
import Varcoin.Selector.Rounding

/-!
# Phase 4: one clean coin for the shortfall

When digit rounding leaves the target unreached, the inner `select_optimal_outputs` looks
for the smallest clean coin that covers the shortfall `total_amount - m_used_total`, digit
by digit up to `max_digit`, and reads a coin's value off its keys as
`ait->first * digit_amount`.  On a denominated map whose digits stay within `max_digit`,
that reading is the coin's amount (`keyValue_eq`), so the search is exact: `takeLargeCoin`
takes a coin exactly when some clean coin covers the shortfall, and the coin it takes
covers it (`takeLargeCoin_covers`).  `create_have_coins` gives its maps both conditions:
its `max_digit` bounds every digit it files (`create_have_coins_digits`), and the map is
denominated when the clean amounts are one digit times a power of ten
(`create_have_coins_denominated`).
-/

namespace Varcoin

/-- `digit_amount *= 10`: the digit amount of the next digit. -/
theorem digitAmount_succ (d : Nat) :
    UInt64.ofNat (10 ^ d) * 10 = UInt64.ofNat (10 ^ (d + 1)) := by
  refine u64_eq_of_toNat_eq ?_
  rw [u64_toNat_mul, u64_toNat_ofNat, u64_toNat_ofNat, pow_succ]
  exact Nat.mod_mul_mod

/-- The value the search reads off the keys of a positive coin in a denominated map is the
coin's amount. -/
theorem keyValue_eq {h : HaveCoins} (hden : h.Denominated) {d l : Nat} {inner : StdMap Stack}
    {st : Stack} {c : Output} (hd : h.find? d = some inner) (hl : inner.find? l = some st)
    (hc : c ∈ st) (hpos : 0 < c.amount) :
    UInt64.ofNat l * UInt64.ofNat (10 ^ d) = c.amount := by
  have hv := hden d inner l st c hd hl hc
  have hlt : l * 10 ^ d < 2 ^ 64 := hv ▸ u64_toNat_lt c.amount
  have hl0 : 0 < l := Nat.pos_of_ne_zero fun h0 => by
    have : (0 : Nat) < c.amount.toNat := hpos
    simp [h0] at hv
    omega
  have h10 : 10 ^ d < 2 ^ 64 := lt_of_le_of_lt (Nat.le_mul_of_pos_left _ hl0) hlt
  have hl64 : l < 2 ^ 64 := lt_of_le_of_lt (Nat.le_mul_of_pos_right _ (Nat.pos_pow_of_pos d
    (by decide))) hlt
  refine u64_eq_of_toNat_eq ?_
  rw [u64_toNat_mul, u64_toNat_ofNat, u64_toNat_ofNat, Nat.mod_eq_of_lt hl64,
    Nat.mod_eq_of_lt h10, hv]
  exact Nat.mod_eq_of_lt hlt

namespace Selection

/-- A coin the search finds has a key value that covers the shortfall. -/
theorem findLargeCoin_sound {T u : Amount} {h : HaveCoins} :
    ∀ {k d d' l : Nat}, findLargeCoin T u h k d (UInt64.ofNat (10 ^ d)) = some (d', l) →
      T - u ≤ UInt64.ofNat l * UInt64.ofNat (10 ^ d')
  | 0, _, _, _, hf => by cases hf
  | k + 1, d, d', l, hf => by
    unfold findLargeCoin at hf
    rw [digitAmount_succ] at hf
    split at hf
    · exact findLargeCoin_sound hf
    · split at hf
      · rename_i a ha
        cases hf
        have hne := List.find?_some ha
        simp only [Bool.and_eq_true, decide_eq_true_eq] at hne
        exact hne.2
      · exact findLargeCoin_sound hf

/-- When the search finds nothing, no nonempty stack of the digits it visits has a key
value that covers the shortfall. -/
theorem findLargeCoin_none {T u : Amount} {h : HaveCoins} :
    ∀ {k d : Nat}, findLargeCoin T u h k d (UInt64.ofNat (10 ^ d)) = none →
      ∀ d', d ≤ d' → d' < d + k → ∀ inner l st, h.find? d' = some inner →
        inner.find? l = some st → st ≠ [] → UInt64.ofNat l * UInt64.ofNat (10 ^ d') < T - u
  | 0, _, _, _, h₁, h₂, _, _, _, _, _, _ => by omega
  | k + 1, d, hf, d', h₁, h₂, inner, l, st, hd, hl, hst => by
    unfold findLargeCoin at hf
    rw [digitAmount_succ] at hf
    rcases Nat.eq_or_lt_of_le h₁ with rfl | hlt
    · split at hf
      · rename_i hnone
        rw [hnone] at hd
        cases hd
      · rename_i inner₀ hd₀
        rw [hd₀] at hd
        cases hd
        split at hf
        · cases hf
        · rename_i hnf
          have hP := List.find?_eq_none.mp hnf (l, st) (StdMap.find?_eq_some_iff.mp hl)
          simp only [Bool.and_eq_true, Bool.not_eq_true', List.isEmpty_eq_false_iff_exists_mem,
            decide_eq_true_eq, not_and] at hP
          exact u64_lt_iff.mpr (Nat.lt_of_not_le fun hle =>
            hP (List.exists_mem_of_ne_nil st hst) (u64_le_iff.mpr hle))
    · split at hf
      · exact findLargeCoin_none hf d' hlt (by omega) inner l st hd hl hst
      · split at hf
        · cases hf
        · exact findLargeCoin_none hf d' hlt (by omega) inner l st hd hl hst

end Selection

namespace HaveCoins

/-- A coin of the map sits in a stack under a digit and a leading digit. -/
theorem exists_of_mem_coins {h : HaveCoins} {c : Output} (hc : c ∈ h.coins) :
    ∃ d inner l st, h.find? d = some inner ∧ inner.find? l = some st ∧ c ∈ st := by
  obtain ⟨⟨d, inner⟩, hd, hc⟩ := List.mem_flatMap.mp hc
  obtain ⟨⟨l, st⟩, hl, hc⟩ := List.mem_flatMap.mp hc
  exact ⟨d, inner, l, st, StdMap.find?_eq_some_iff.mpr hd, StdMap.find?_eq_some_iff.mpr hl, hc⟩

end HaveCoins

namespace Selection

/-- Phase 4 is exact on a denominated map of positive coins whose digits stay within
`max_digit`: either it takes one clean coin, and that coin covers the shortfall
`total_amount - m_used_total`, or it takes nothing, and no clean coin covers it. -/
theorem takeLargeCoin_covers (max_digit : Nat) (T : Amount) {s s' : Selection}
    (hden : s.have_coins.Denominated) (hpos : ∀ c ∈ s.have_coins.coins, 0 < c.amount)
    (hdig : ∀ d inner, s.have_coins.find? d = some inner → d ≤ max_digit)
    (h : takeLargeCoin max_digit T s = some s') :
    (∃ un, PickHave s s' ∧ s'.optimization_unspents = s.optimization_unspents ++ [un] ∧
      T - s.used_total ≤ un.amount) ∨
    s' = s ∧ ∀ c ∈ s.have_coins.coins, c.amount < T - s.used_total := by
  unfold takeLargeCoin at h
  split at h
  · rename_i hnone
    cases h
    refine .inr ⟨rfl, fun c hc => ?_⟩
    obtain ⟨d, inner, l, st, hd, hl, hcs⟩ := HaveCoins.exists_of_mem_coins hc
    rw [← keyValue_eq hden hd hl hcs (hpos c hc)]
    exact findLargeCoin_none hnone d (Nat.zero_le _) (by have := hdig d inner hd; omega)
      inner l st hd hl (List.ne_nil_of_mem hcs)
  · rename_i d l hf
    obtain ⟨inner, un, rest, hd, hl, rfl⟩ := takeHave_eq_some h
    have hcover := findLargeCoin_sound hf
    rw [keyValue_eq hden hd hl (List.mem_cons_self un rest) (hpos un (HaveCoins.mem_coins hd hl
      (List.mem_cons_self un rest)))] at hcover
    exact .inl ⟨un, takeHave_pick h, by simp, hcover⟩

end Selection

/-- `create_have_coins` files every clean coin under a digit at most its `max_digit`. -/
theorem create_have_coins_digits (cur : Currency) (block_height : Height)
    (block_time : Timestamp) (confirmed_height : Height) (l : List Output) :
    ∀ d inner, (createHaveCoins cur block_height block_time confirmed_height l).1.find? d =
      some inner →
        d ≤ (createHaveCoins cur block_height block_time confirmed_height l).2.2 := by
  induction l with
  | nil => intro d inner hd; cases hd
  | cons un l ih =>
    rw [create_have_coins_cons]
    split_ifs
    · exact ih
    · intro d inner hd
      simp only [HaveCoins.push, StdMap.modify, StdMap.find?_insert] at hd
      split_ifs at hd with h₁
      · exact h₁ ▸ le_max_right _ _
      · exact (ih d inner hd).trans (le_max_left _ _)
    · exact ih

/-- Clean coins of 300, 20 and 5 before any pick, with `max_digit = 2`. -/
def coverDemo : Selection :=
  let coins := createHaveCoins demoCurrency 100 0 100
    [demoCoin 0 300 false, demoCoin 1 20 false, demoCoin 2 5 false]
  ⟨coins.1, coins.2.1, [], 0, 0⟩

/-- A shortfall of 250: the search reads 5 and 20 below it and takes the coin of 300. -/
theorem takeLargeCoin_covers_demo :
    coverDemo.have_coins.Denominated ∧ (∀ c ∈ coverDemo.have_coins.coins, 0 < c.amount) ∧
    (∀ d inner, coverDemo.have_coins.find? d = some inner → d ≤ 2) ∧
    ∃ s', Selection.takeLargeCoin 2 250 coverDemo = some s' ∧
      ((∃ un, Selection.PickHave coverDemo s' ∧
        s'.optimization_unspents = coverDemo.optimization_unspents ++ [un] ∧
        250 - coverDemo.used_total ≤ un.amount) ∨
      s' = coverDemo ∧
        ∀ c ∈ coverDemo.have_coins.coins, c.amount < 250 - coverDemo.used_total) :=
  have hden : coverDemo.have_coins.Denominated :=
    create_have_coins_denominated demoCurrency 100 0 100 _ (by decide)
  have hpos : ∀ c ∈ coverDemo.have_coins.coins, 0 < c.amount := by decide
  have hdig : ∀ d inner, coverDemo.have_coins.find? d = some inner → d ≤ 2 :=
    create_have_coins_digits demoCurrency 100 0 100 _
  ⟨hden, hpos, hdig, _, rfl, Selection.takeLargeCoin_covers 2 250 hden hpos hdig rfl⟩

end Varcoin
