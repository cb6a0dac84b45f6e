import Mathlib.Tactic.Ring
import Varcoin.Selector.Optimize

/-!
# What the digit rounding achieves

`optimize_amounts` is there to make the surplus `used_total - total_amount` round.  At each
position it reads the residue `⌈X / 10^digit⌉ mod 10` of
`X = fake_large + total_amount - used_total` and tries to take coins of that position
whose leading digits add up to it.  When it does (a pair, or a single coin that matches),
or when the residue is already zero, the position is round after the round, and it stays
round: every later round takes coins of a higher position, which are multiples of
`10^(digit + 1)`.

`optimize_amounts_rounds` states this for every position the loop reaches before its
early break, under the two assumptions the arithmetic needs: every coin of
`have_coins[d][l]` is worth `l * 10^d` (`HaveCoins.Denominated`), and no pick takes
`used_total` past `fake_large + total_amount`, which keeps every `uint64` operation of the
loop exact.
-/

namespace Varcoin

/-! ### The residue over the naturals -/

/-- `⌈(F - u) / 10^d⌉`: how many `10^d` coins are missing from `u` to `F`, rounded up. -/
def ceilQuot (F u d : Nat) : Nat := (F - u + 10 ^ d - 1) / 10 ^ d

/-- Coins worth `k * 10^d` take `k` off the count at position `d`. -/
theorem ceilQuot_add (F u k d : Nat) (h : u + k * 10 ^ d ≤ F) :
    ceilQuot F (u + k * 10 ^ d) d + k = ceilQuot F u d := by
  unfold ceilQuot
  have hp : 0 < 10 ^ d := Nat.pow_pos (by decide)
  have hk : k ≤ (F - u + 10 ^ d - 1) / 10 ^ d :=
    (Nat.le_div_iff_mul_le hp).mpr (by omega)
  have hm : 10 ^ d * k = k * 10 ^ d := Nat.mul_comm _ _
  rw [show F - (u + k * 10 ^ d) + 10 ^ d - 1 = (F - u + 10 ^ d - 1) - 10 ^ d * k by omega,
    Nat.sub_mul_div _ _ _ (by omega)]
  omega

/-- Coins that make up the missing digit at position `d` leave a round residue there. -/
theorem ceilQuot_rounded {F u k d : Nat} (h : u + k * 10 ^ d ≤ F)
    (hk : (k + (10 - ceilQuot F u d % 10)) % 10 = 0) : ceilQuot F (u + k * 10 ^ d) d % 10 = 0 := by
  have := ceilQuot_add F u k d h
  omega

/-- Coins of a higher position leave the residue at position `d` as it was. -/
theorem ceilQuot_add_higher (F u m d d' : Nat) (hd : d < d') (h : u + m * 10 ^ d' ≤ F) :
    ceilQuot F (u + m * 10 ^ d') d % 10 = ceilQuot F u d % 10 := by
  obtain ⟨j, rfl⟩ : ∃ j, d' = d + j + 1 := ⟨d' - d - 1, by omega⟩
  have e : m * 10 ^ (d + j + 1) = m * 10 ^ j * 10 * 10 ^ d := by ring
  have := ceilQuot_add F u (m * 10 ^ j * 10) d (e ▸ h)
  rw [e]
  omega

/-- Below `fake_large`, a round residue is a zero digit of the surplus: with
`X = 10^18 + T - u` and `u ≥ T`, `⌈X / 10^d⌉ ≡ 0 (mod 10)` makes digit `d` of `u - T` zero. -/
theorem surplus_digit_of_ceilQuot {T u d : Nat} (hd : d ≤ 17) (hT : T ≤ u) (hu : u ≤ 10 ^ 18 + T)
    (h : ceilQuot (10 ^ 18 + T) u d % 10 = 0) : (u - T) / 10 ^ d % 10 = 0 := by
  obtain ⟨j, hj⟩ : ∃ j, 18 = d + (j + 1) := ⟨17 - d, by omega⟩
  have hp : 0 < 10 ^ d := Nat.pow_pos (by decide)
  have hA : 10 ^ 18 = 10 ^ (j + 1) * 10 ^ d := by rw [hj, Nat.pow_add, Nat.mul_comm]
  have hA10 : 10 ^ (j + 1) % 10 = 0 := by rw [Nat.pow_succ, Nat.mul_mod_left]
  have hv := Nat.div_add_mod (u - T) (10 ^ d)
  have hr := Nat.mod_lt (u - T) hp
  have hq : (u - T) / 10 ^ d ≤ 10 ^ (j + 1) :=
    (Nat.div_le_iff_le_mul_add_pred hp).mpr (by rw [Nat.mul_comm, ← hA]; omega)
  have hsub : (10 ^ (j + 1) - (u - T) / 10 ^ d) * 10 ^ d =
      10 ^ 18 - 10 ^ d * ((u - T) / 10 ^ d) := by
    rw [Nat.sub_mul, hA, Nat.mul_comm (10 ^ d)]
  have hc : ceilQuot (10 ^ 18 + T) u d = 10 ^ (j + 1) - (u - T) / 10 ^ d := by
    unfold ceilQuot
    refine Nat.div_eq_of_lt_le ?_ ?_
    · rw [hsub]; omega
    · rw [Nat.succ_mul, hsub]; omega
  rw [hc] at h
  omega

/-- `missingDigit` is ten less the residue, when nothing in it wraps. -/
theorem missingDigit_toNat {T used da : Amount} {d : Nat} (hda : da.toNat = 10 ^ d)
    (hu : used.toNat ≤ fakeLarge.toNat + T.toNat)
    (hb : fakeLarge.toNat + T.toNat + 10 ^ d ≤ 2 ^ 64) :
    (missingDigit T used da).toNat =
      10 - ceilQuot (fakeLarge.toNat + T.toNat) used.toNat d % 10 := by
  have hp : 0 < 10 ^ d := Nat.pow_pos (by decide)
  have hx : (fakeLarge + T + da - 1 - used).toNat =
      fakeLarge.toNat + T.toNat - used.toNat + 10 ^ d - 1 := by
    rw [u64_toNat_sub, u64_toNat_sub, u64_toNat_add, u64_toNat_add, Nat.mod_add_mod, hda,
      show (1 : UInt64).toNat = 1 from rfl]
    have := u64_toNat_lt used
    omega
  have hr : ((fakeLarge + T + da - 1 - used) / da % 10).toNat =
      ceilQuot (fakeLarge.toNat + T.toNat) used.toNat d % 10 := by
    rw [UInt64.toNat_mod, UInt64.toNat_div, hx, hda]; rfl
  have h9 := Nat.mod_lt (ceilQuot (fakeLarge.toNat + T.toNat) used.toNat d) (by decide : 0 < 10)
  rw [missingDigit, UInt64.toNat_sub_of_le _ _ (by rw [u64_le_iff, hr]; exact Nat.le_of_lt h9),
    hr]
  rfl

/-- The `uint64` sum of amounts, read over the naturals. -/
theorem amount_sum_toNat (l : List Output) :
    ((l.map fun c : Output => c.amount).sum).toNat = (l.map (·.amount.toNat)).sum % 2 ^ 64 := by
  induction l with
  | nil => rfl
  | cons c l ih => simp only [List.map_cons, List.sum_cons, u64_toNat_add, ih, Nat.add_mod_mod]

/-! ### Denominated coins -/

/-- Every coin stored under `have_coins[d][l]` is worth `l * 10^d`. -/
def HaveCoins.Denominated (h : HaveCoins) : Prop :=
  ∀ d inner l st c, h.find? d = some inner → inner.find? l = some st → c ∈ st →
    c.amount.toNat = l * 10 ^ d

/-- A coin pushed at its own decomposition keeps the map denominated. -/
theorem HaveCoins.Denominated.push {h : HaveCoins} (hden : h.Denominated) {un : Output}
    (hun : un.amount.toNat = (decompose un.amount).2 * 10 ^ (decompose un.amount).1) :
    (h.push un).Denominated := by
  intro d inner l st c hd hl hc
  simp only [HaveCoins.push, StdMap.modify, StdMap.find?_insert] at hd
  split_ifs at hd with h₁
  · subst h₁
    obtain rfl := Option.some.inj hd
    simp only [StdMap.find?_insert] at hl
    split_ifs at hl with h₂
    · subst h₂
      obtain rfl := Option.some.inj hl
      rcases List.mem_cons.mp hc with rfl | hc
      · exact hun
      · cases hd' : h.find? (decompose un.amount).1 <;> simp only [hd', Option.getD] at hc
        · simp at hc
        · rename_i inner₀
          cases hl' : inner₀.find? (decompose un.amount).2 <;> simp [hl'] at hc
          exact hden _ _ _ _ c hd' hl' hc
    · cases hd' : h.find? (decompose un.amount).1 <;> simp only [hd', Option.getD] at hl
      · simp at hl
      · exact hden _ _ _ _ c hd' hl hc
  · exact hden _ _ _ _ c hd hl hc

/-- `create_have_coins` files every coin at its decomposition, so the map is denominated
when every coin that `Currency::is_dust` lets into it is one digit times a power of ten. -/
theorem create_have_coins_denominated (cur : Currency) (block_height : Height)
    (block_time : Timestamp) (confirmed_height : Height) (l : List Output)
    (hcanon : ∀ c ∈ l, cur.isDust c.amount = false →
      c.amount.toNat = (decompose c.amount).2 * 10 ^ (decompose c.amount).1) :
    (createHaveCoins cur block_height block_time confirmed_height l).1.Denominated := by
  induction l with
  | nil => intro d inner l st c hd; cases hd
  | cons un l ih =>
    have ih' := ih fun c hc => hcanon c (List.mem_cons_of_mem _ hc)
    rw [create_have_coins_cons]
    split_ifs with _ hd
    · exact ih'
    · exact ih'.push (hcanon un (List.mem_cons_self _ _) (by simpa using hd))
    · exact ih'

theorem stackShrink_find? {m : StdMap Stack} {k k' : Nat} {rest st : Stack}
    (h : (stackShrink m k rest).find? k' = some st) : k = k' ∧ st = rest ∨ m.find? k' = some st := by
  unfold stackShrink at h
  split_ifs at h <;> simp only [StdMap.find?_erase, StdMap.find?_insert] at h <;>
    split_ifs at h with hk
  · exact .inr h
  · exact .inl ⟨hk, (Option.some.inj h).symm⟩
  · exact .inr h

theorem HaveCoins.shrink_find? {h : HaveCoins} {d d' : Nat} {inner inner' : StdMap Stack}
    (hf : (h.shrink d inner).find? d' = some inner') :
    d = d' ∧ inner' = inner ∨ h.find? d' = some inner' := by
  unfold HaveCoins.shrink at hf
  split_ifs at hf <;> simp only [StdMap.find?_erase, StdMap.find?_insert] at hf <;>
    split_ifs at hf with hk
  · exact .inr hf
  · exact .inl ⟨hk, (Option.some.inj hf).symm⟩
  · exact .inr hf

namespace Selection

/-- A pick from `have_coins[d][l]` appends one coin worth `l * 10^d` and keeps the map
denominated. -/
theorem takeHave_denominated {s s' : Selection} {d l : Nat} (hden : s.have_coins.Denominated)
    (h : s.takeHave d l = some s') :
    s'.have_coins.Denominated ∧ ∃ un, s'.optimization_unspents = s.optimization_unspents ++ [un] ∧
      s'.used_total = s.used_total + un.amount ∧ un.amount.toNat = l * 10 ^ d := by
  obtain ⟨inner, un, rest, hd, hl, rfl⟩ := takeHave_eq_some h
  refine ⟨fun d' inner' l' st c hd' hl' hc => ?_, un, rfl, rfl,
    hden d inner l _ un hd hl (List.mem_cons_self _ _)⟩
  rcases HaveCoins.shrink_find? hd' with ⟨rfl, rfl⟩ | hd'
  · rcases stackShrink_find? hl' with ⟨rfl, rfl⟩ | hl'
    · exact hden _ inner _ _ c hd hl (List.mem_cons_of_mem _ hc)
    · exact hden _ inner _ _ c hd hl' hc
  · exact hden _ _ _ _ c hd' hl' hc

/-- Picks only append to `m_optimization_unspents`. -/
theorem pickHave_appends {s s' : Selection} (h : Relation.ReflTransGen PickHave s s') :
    ∃ p, s'.optimization_unspents = s.optimization_unspents ++ p := by
  induction h with
  | refl => exact ⟨[], by simp⟩
  | tail _ hm ih =>
    obtain ⟨p, hp⟩ := ih
    obtain ⟨un, h', -, rfl⟩ := hm
    exact ⟨p ++ [un], by simp [hp]⟩

end Selection

/-! ### One round -/

/-- Whether the round at `digit` leaves that position round, in one of the three ways the
code has: the residue is already zero (`am == 10`), a pair is taken, or a single coin whose
leading digit is the residue is taken. -/
def roundsDigit (total_amount : Amount) (digit : Nat) (digit_amount : Amount)
    (s : Selection) : Bool :=
  let am := missingDigit total_amount s.used_total digit_amount
  match s.have_coins.find? digit with
  | none => am == 10
  | some inner =>
    (bestPair am inner).1 != 0 || am == 10 ||
      (bestSingle am inner.entries 0 0 != 0 && (bestSingle am inner.entries 0 0 + am.toNat) % 10 == 0)

/-- The positions the digit loop rounds, in order, up to its early break. -/
def roundedDigits (total_amount : Amount) : Nat → Nat → Amount → Selection → List Nat
  | 0, _, _, _ => []
  | k + 1, digit, digit_amount, s =>
    if optimizeDone total_amount digit_amount s then [] else
    match optimizeDigit total_amount digit digit_amount s with
    | none => []
    | some s' => (if roundsDigit total_amount digit digit_amount s then [digit] else []) ++
        roundedDigits total_amount k (digit + 1) (digit_amount * 10) s'

open Selection in
/-- A round at `digit` appends coins worth `k * 10^digit` in all, and when it rounds the
position, `k` completes the residue: `k + am ≡ 0 (mod 10)`. -/
theorem optimizeDigit_denominated {T da : Amount} {d : Nat} {s s₁ : Selection}
    (hden : s.have_coins.Denominated) (h : optimizeDigit T d da s = some s₁) :
    s₁.have_coins.Denominated ∧ ∃ (picked : List Output) (k : Nat),
      s₁.optimization_unspents = s.optimization_unspents ++ picked ∧
      s₁.used_total = s.used_total + (picked.map (·.amount)).sum ∧
      (picked.map (·.amount.toNat)).sum = k * 10 ^ d ∧
      (roundsDigit T d da s = true → (k + (missingDigit T s.used_total da).toNat) % 10 = 0) := by
  unfold optimizeDigit at h
  split at h
  · rename_i hd
    cases h
    refine ⟨hden, [], 0, by simp, by simp, by simp, fun hr => ?_⟩
    simp only [roundsDigit, hd, beq_iff_eq] at hr
    rw [hr]; decide
  · rename_i inner hd
    dsimp only at h
    split_ifs at h with h1 h2 h3
    · obtain ⟨s₂, h₂, h₃⟩ := Option.bind_eq_some.mp h
      obtain ⟨hden₂, un₁, ho₁, hu₁, ha₁⟩ := takeHave_denominated hden h₂
      obtain ⟨hden₁, un₂, ho₂, hu₂, ha₂⟩ := takeHave_denominated hden₂ h₃
      obtain ⟨-, -, -, -, hm, -⟩ := bestPair_spec _ inner h1
      refine ⟨hden₁, [un₁, un₂], _, by simp [ho₂, ho₁], by simp [hu₂, hu₁, add_assoc],
        by simp [ha₁, ha₂, Nat.add_mul], fun _ => hm⟩
    · cases h
      exact ⟨hden, [], 0, by simp, by simp, by simp, fun _ => by rw [h2]; decide⟩
    · obtain ⟨hden₁, un, ho, hu, ha⟩ := takeHave_denominated hden h
      refine ⟨hden₁, [un], bestSingle (missingDigit T s.used_total da) inner.entries 0 0,
        by simp [ho], by simp [hu], by simp [ha], fun hr => ?_⟩
      simp only [ne_eq, not_not] at h1
      simp [roundsDigit, hd, h1, h2] at hr
      exact hr.2
    · cases h
      refine ⟨hden, [], 0, by simp, by simp, by simp, fun hr => ?_⟩
      simp [roundsDigit, hd, h1, h2, h3] at hr

/-- The digit loop only appends to `m_optimization_unspents`. -/
theorem optimizeLoop_appends {T : Amount} :
    ∀ {k d : Nat} {da : Amount} {s s' : Selection}, optimizeLoop T k d da s = some s' →
      ∃ p, s'.optimization_unspents = s.optimization_unspents ++ p
  | 0, _, _, s, s', h => by cases h; exact ⟨[], by simp⟩
  | k + 1, d, da, s, s', h => by
    unfold optimizeLoop at h
    split_ifs at h
    · cases h; exact ⟨[], by simp⟩
    · obtain ⟨s₁, h₁, h₂⟩ := Option.bind_eq_some.mp h
      obtain ⟨p₁, hp₁⟩ := Selection.pickHave_appends (optimizeDigit_pick h₁)
      obtain ⟨p₂, hp₂⟩ := optimizeLoop_appends h₂
      exact ⟨p₁ ++ p₂, by rw [hp₂, hp₁, List.append_assoc]⟩

section Loop

variable (T : Amount) {max_digit : Nat}
  (hb : fakeLarge.toNat + T.toNat + 10 ^ max_digit < 2 ^ 64)
include hb

/-- The run lemma of the digit loop: every position it rounds is round at the end, and
the positions below where it started keep their residue. -/
theorem optimizeLoop_rounds :
    ∀ (k d : Nat) (da : Amount) {s s' : Selection} {picked : List Output},
      da.toNat = 10 ^ d % 2 ^ 64 → d + k ≤ max_digit + 1 → s.have_coins.Denominated →
      optimizeLoop T k d da s = some s' →
      s'.optimization_unspents = s.optimization_unspents ++ picked →
      s.used_total.toNat + (picked.map (·.amount.toNat)).sum ≤ fakeLarge.toNat + T.toNat →
      s'.used_total.toNat = s.used_total.toNat + (picked.map (·.amount.toNat)).sum ∧
      (∀ d' ∈ roundedDigits T k d da s,
        ceilQuot (fakeLarge.toNat + T.toNat) s'.used_total.toNat d' % 10 = 0) ∧
      ∀ d' < d, ceilQuot (fakeLarge.toNat + T.toNat) s'.used_total.toNat d' % 10 =
        ceilQuot (fakeLarge.toNat + T.toNat) s.used_total.toNat d' % 10 := by
  intro k
  induction k with
  | zero =>
    intro _ _ s s' picked _ _ _ h hp _
    cases h
    obtain rfl : picked = [] := by simpa using hp
    exact ⟨rfl, fun _ h => absurd h (List.not_mem_nil _), fun _ _ => rfl⟩
  | succ k ih =>
    intro d da s s' picked hda hk hden h hp hstay
    unfold optimizeLoop at h
    unfold roundedDigits
    by_cases hdone : optimizeDone T da s
    · rw [if_pos hdone] at h ⊢
      cases h
      obtain rfl : picked = [] := by simpa using hp
      exact ⟨rfl, fun _ h => absurd h (List.not_mem_nil _), fun _ _ => rfl⟩
    rw [if_neg hdone] at h ⊢
    obtain ⟨s₁, h₁, h₂⟩ := Option.bind_eq_some.mp h
    rw [h₁]
    obtain ⟨hden₁, p₁, k₁, ho₁, hu₁, hs₁, hr₁⟩ := optimizeDigit_denominated hden h₁
    obtain ⟨p₂, ho₂⟩ := optimizeLoop_appends h₂
    have hpicked : picked = p₁ ++ p₂ := by
      rw [ho₂, ho₁, List.append_assoc] at hp
      exact (List.append_cancel_left hp).symm
    subst hpicked
    simp only [List.map_append, List.sum_append] at hstay
    have hpow : 10 ^ d ≤ 10 ^ max_digit := Nat.pow_le_pow_right (by decide) (by omega)
    have hda' : da.toNat = 10 ^ d := by rw [hda, Nat.mod_eq_of_lt (by omega)]
    have hused₁ : s₁.used_total.toNat = s.used_total.toNat + k₁ * 10 ^ d := by
      rw [hu₁, u64_toNat_add, amount_sum_toNat, hs₁, Nat.mod_eq_of_lt (by omega),
        Nat.mod_eq_of_lt (by omega)]
    have hda₁ : (da * 10).toNat = 10 ^ (d + 1) % 2 ^ 64 := by
      rw [u64_toNat_mul, hda, show (10 : UInt64).toNat = 10 from rfl, Nat.mod_mul_mod]
      rfl
    obtain ⟨ih₀, ih₁, ih₂⟩ := ih (d + 1) (da * 10) hda₁ (by omega) hden₁ h₂ ho₂ (by omega)
    refine ⟨by rw [List.map_append, List.sum_append]; omega, fun d' hd' => ?_, fun d' hd' => ?_⟩
    · rcases List.mem_append.mp hd' with hd' | hd'
      · split_ifs at hd' with hr
        · obtain rfl := List.mem_singleton.mp hd'
          have hk₁ := hr₁ hr
          rw [missingDigit_toNat hda' (by omega) (by omega)] at hk₁
          rw [ih₂ d' (Nat.lt_succ_self d'), hused₁]
          exact ceilQuot_rounded (by omega) hk₁
        · exact absurd hd' (List.not_mem_nil _)
      · exact ih₁ d' hd'
    · rw [ih₂ d' (by omega), hused₁]
      exact ceilQuot_add_higher _ _ k₁ d' d hd' (by omega)

end Loop

/-- Digit rounding.  Let `have_coins` be denominated, and let `fake_large + total_amount +
10^max_digit` and `used_total` plus every coin `optimize_amounts` picks stay below `2^64`
and `fake_large + total_amount`.  Then for every position `d` that the loop rounded before
its early break (`roundedDigits`), the final `X = fake_large + total_amount - used_total`
has `⌈X / 10^d⌉ ≡ 0 (mod 10)`; equivalently, for `d ≤ 17` and `used_total ≥
total_amount`, digit `d` of the surplus `used_total - total_amount` is zero. -/
theorem optimize_amounts_rounds (max_digit : Nat) (total_amount : Amount) {s s' : Selection}
    {picked : List Output} (hden : s.have_coins.Denominated)
    (hb : fakeLarge.toNat + total_amount.toNat + 10 ^ max_digit < 2 ^ 64)
    (h : optimizeAmounts max_digit total_amount s = some s')
    (hp : s'.optimization_unspents = s.optimization_unspents ++ picked)
    (hstay : s.used_total.toNat + (picked.map (·.amount.toNat)).sum ≤
      fakeLarge.toNat + total_amount.toNat) :
    ∀ d ∈ roundedDigits total_amount (max_digit + 1) 0 1 s,
      ceilQuot (fakeLarge.toNat + total_amount.toNat) s'.used_total.toNat d % 10 = 0 ∧
      (d ≤ 17 → total_amount.toNat ≤ s'.used_total.toNat →
        (s'.used_total.toNat - total_amount.toNat) / 10 ^ d % 10 = 0) := by
  obtain ⟨hu, hr, -⟩ := optimizeLoop_rounds total_amount hb (max_digit + 1) 0 1 rfl (by omega)
    hden h hp hstay
  have hfl : fakeLarge.toNat = 10 ^ 18 := rfl
  rw [← hu] at hstay
  intro d hd
  exact ⟨hr d hd, fun h17 hT => surplus_digit_of_ceilQuot h17 hT (hfl ▸ hstay) (hfl ▸ hr d hd)⟩

/-- The maps of a coin of 3 and a coin of 70, with nothing picked. -/
def roundingDemo : Selection :=
  ⟨(createHaveCoins demoCurrency 100 0 100 [demoCoin 0 3 false, demoCoin 1 70 false]).1,
    StdMap.empty, [], 0, 0⟩

theorem optimize_amounts_rounds_demo :
    ∃ (s' : Selection) (picked : List Output),
      roundingDemo.have_coins.Denominated ∧
      fakeLarge.toNat + (3 : Amount).toNat + 10 ^ 1 < 2 ^ 64 ∧
      optimizeAmounts 1 3 roundingDemo = some s' ∧
      s'.optimization_unspents = roundingDemo.optimization_unspents ++ picked ∧
      roundingDemo.used_total.toNat + (picked.map (·.amount.toNat)).sum ≤
        fakeLarge.toNat + (3 : Amount).toNat ∧
      ∀ d ∈ roundedDigits 3 (1 + 1) 0 1 roundingDemo,
        ceilQuot (fakeLarge.toNat + (3 : Amount).toNat) s'.used_total.toNat d % 10 = 0 ∧
        (d ≤ 17 → (3 : Amount).toNat ≤ s'.used_total.toNat →
          (s'.used_total.toNat - (3 : Amount).toNat) / 10 ^ d % 10 = 0) := by
  have hden : roundingDemo.have_coins.Denominated :=
    create_have_coins_denominated demoCurrency 100 0 100 _ (by decide)
  exact ⟨_, _, hden, by decide, rfl, rfl, by decide,
    optimize_amounts_rounds 1 3 hden (by decide) rfl rfl (by decide)⟩

end Varcoin
