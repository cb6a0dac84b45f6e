import Varcoin.Selector.Coins

/-!
# Digit rounding: `optimize_amounts`

For each decimal position `digit` from the units up to `max_digit`, `optimize_amounts`
computes from the part of `total_amount` still missing the count `am` of
`10^digit` coins that would round that position, and then takes either a pair of coins
of that position whose leading digits make up the residue (`bestPair`), or one coin
whose leading digit is the residue or above it (`bestSingle`).  The loop stops early
once the total is covered and the position is above the total.

`fake_large` (10^18) is added to the target so that the unsigned arithmetic of the
residue does not go below zero while the total is short.

The lemmas here say what one round does: it makes at most two picks, all from
`have_coins[digit]` (`optimizeDigit_pick`), and it keeps the stack shape; the pair
round never reaches a dangling `dit` (`optimizeDigit_ne_none`).
-/

namespace Varcoin

/-- `fake_large`. -/
def fakeLarge : Amount := 1000000000000000000

def twoThreshold : Nat := 10

def stackOptimizationThreshold : Nat := 20

/-- `am`: ten minus the residue, at the position of `digit_amount`, of what is missing
to `total_amount`, rounded up. -/
def missingDigit (total_amount used_total digit_amount : Amount) : Amount :=
  10 - ((fakeLarge + total_amount + digit_amount - 1 - used_total) / digit_amount) % 10

/-- One round of the pair search of `optimize_amounts`: `(best_weight, best_two_counts)`
after comparing the pair `(a, b)`. -/
def pairStep (am : Amount) (acc : Nat × Nat × Nat) (a b : Nat × Stack) : Nat × Nat × Nat :=
  if (a.1 + b.1 + am.toNat) % 10 = 0 ∧
      (a.2.length ≥ twoThreshold ∨ b.2.length ≥ twoThreshold) ∧
      a.2.length + b.2.length > acc.1
  then (a.2.length + b.2.length, a.1, b.1) else acc

/-- The pair search over every ordered pair of stacks of the digit: `best_weight` and the
two leading digits. -/
def bestPair (am : Amount) (inner : StdMap Stack) : Nat × Nat × Nat :=
  inner.entries.foldl (fun acc a => inner.entries.foldl (fun acc b => pairStep am acc a b) acc)
    (0, 0, 0)

/-- The single search: the first leading digit that completes the residue, or else the
first of the tallest stacks whose leading digit is above the residue; `0` if none. -/
def bestSingle (am : Amount) : List (Nat × Stack) → Nat → Nat → Nat
  | [], best_single, _ => best_single
  | (l, st) :: rest, best_single, best_weight =>
    if (l + am.toNat) % 10 = 0 then l
    else if l > 10 - am.toNat ∧ st.length > best_weight then bestSingle am rest l st.length
    else bestSingle am rest best_single best_weight

/-- One round of the digit loop of `optimize_amounts`, after its break test. -/
def optimizeDigit (total_amount : Amount) (digit : Nat) (digit_amount : Amount)
    (s : Selection) : Option Selection :=
  let am := missingDigit total_amount s.used_total digit_amount
  match s.have_coins.find? digit with
  | none => some s
  | some inner =>
    let best := bestPair am inner
    if best.1 ≠ 0 then (s.takeHave digit best.2.1).bind (·.takeHave digit best.2.2)
    else if am = 10 then some s
    else
      let best_single := bestSingle am inner.entries 0 0
      if best_single ≠ 0 then s.takeHave digit best_single else some s

/-- The break test of the digit loop: the total is covered and the position is above
it. -/
def optimizeDone (total_amount digit_amount : Amount) (s : Selection) : Prop :=
  s.used_total ≥ total_amount ∧ digit_amount > s.used_total

instance (total_amount digit_amount : Amount) (s : Selection) :
    Decidable (optimizeDone total_amount digit_amount s) :=
  inferInstanceAs (Decidable (_ ∧ _))

/-- The digit loop, `k` rounds from `digit`. -/
def optimizeLoop (total_amount : Amount) : Nat → Nat → Amount → Selection → Option Selection
  | 0, _, _, s => some s
  | k + 1, digit, digit_amount, s =>
    if optimizeDone total_amount digit_amount s then some s
    else (optimizeDigit total_amount digit digit_amount s).bind
      (optimizeLoop total_amount k (digit + 1) (digit_amount * 10))

/-- `optimize_amounts(have_coins, max_digit, total_amount)`. -/
def optimizeAmounts (max_digit : Nat) (total_amount : Amount) (s : Selection) :
    Option Selection :=
  optimizeLoop total_amount (max_digit + 1) 0 1 s

/-! ### What the searches return -/

theorem pairStep_spec (am : Amount) (inner : StdMap Stack) (P : Nat × Nat × Nat → Prop)
    (a b : Nat × Stack) (ha : a ∈ inner.entries) (hb : b ∈ inner.entries) (acc : Nat × Nat × Nat)
    (hacc : P acc)
    (hP : ∀ A B, (a.1, A) ∈ inner.entries → (b.1, B) ∈ inner.entries →
      (a.1 + b.1 + am.toNat) % 10 = 0 → (twoThreshold ≤ A.length ∨ twoThreshold ≤ B.length) →
      P (A.length + B.length, a.1, b.1)) :
    P (pairStep am acc a b) := by
  unfold pairStep
  split_ifs with h
  · exact hP a.2 b.2 ha hb h.1 h.2.1
  · exact hacc

/-- A pair is found only between two stored stacks of which one has `TWO_THRESHOLD`
coins, and its leading digits complete the residue. -/
theorem bestPair_spec (am : Amount) (inner : StdMap Stack) :
    let best := bestPair am inner
    best.1 ≠ 0 → ∃ A B, (best.2.1, A) ∈ inner.entries ∧ (best.2.2, B) ∈ inner.entries ∧
      (best.2.1 + best.2.2 + am.toNat) % 10 = 0 ∧
      (twoThreshold ≤ A.length ∨ twoThreshold ≤ B.length) := by
  let P : Nat × Nat × Nat → Prop := fun best => best.1 ≠ 0 →
    ∃ A B, (best.2.1, A) ∈ inner.entries ∧ (best.2.2, B) ∈ inner.entries ∧
      (best.2.1 + best.2.2 + am.toNat) % 10 = 0 ∧
      (twoThreshold ≤ A.length ∨ twoThreshold ≤ B.length)
  show P (bestPair am inner)
  refine List.foldlRecOn (motive := P) _ _ _ (fun h => absurd rfl h) fun acc hacc a ha => ?_
  exact List.foldlRecOn (motive := P) _ _ _ hacc fun acc hacc b hb =>
    pairStep_spec am inner P a b ha hb acc hacc fun A B hA hB hm h _ => ⟨A, B, hA, hB, hm, h⟩

/-- A nonzero single is a stored leading digit. -/
theorem bestSingle_mem (am : Amount) :
    ∀ (l : List (Nat × Stack)) (bs bw : Nat), bestSingle am l bs bw ≠ bs →
      ∃ st, (bestSingle am l bs bw, st) ∈ l
  | [], _, _, h => absurd rfl h
  | (k, st) :: rest, bs, bw, h => by
    unfold bestSingle at h ⊢
    split_ifs at h ⊢ with h1 h2
    · exact ⟨st, List.mem_cons_self _ _⟩
    · by_cases hk : bestSingle am rest k st.length = k
      · exact ⟨st, by rw [hk]; exact List.mem_cons_self _ _⟩
      · obtain ⟨st', h'⟩ := bestSingle_mem am rest _ _ hk
        exact ⟨st', List.mem_cons_of_mem _ h'⟩
    · obtain ⟨st', h'⟩ := bestSingle_mem am rest _ _ h
      exact ⟨st', List.mem_cons_of_mem _ h'⟩

/-! ### One round -/

namespace Selection

theorem takeHave_bind_pick {s s' : Selection} {d a b : Nat}
    (h : (s.takeHave d a).bind (·.takeHave d b) = some s') :
    Relation.ReflTransGen PickHave s s' := by
  obtain ⟨s₁, h₁, h₂⟩ := Option.bind_eq_some.mp h
  exact .tail (.single (takeHave_pick h₁)) (takeHave_pick h₂)

theorem takeHave_bind_shape {s s' : Selection} {d a b : Nat} (hs : s.Shape)
    (h : (s.takeHave d a).bind (·.takeHave d b) = some s') : s'.Shape := by
  obtain ⟨s₁, h₁, h₂⟩ := Option.bind_eq_some.mp h
  exact takeHave_shape (takeHave_shape hs h₁) h₂

/-- The second pick of a pair finds its digit map: the first pick leaves the second stack
in place, or, when both are the same stack, leaves it with coins, as one of the two has
`TWO_THRESHOLD` coins. -/
theorem takeHave_pair_ne_none {s : Selection} {d a b : Nat} {inner : StdMap Stack}
    {A B : Stack} (hs : s.Shape) (hd : s.have_coins.find? d = some inner)
    (hA : (a, A) ∈ inner.entries) (hB : (b, B) ∈ inner.entries)
    (hlen : twoThreshold ≤ A.length ∨ twoThreshold ≤ B.length) :
    (s.takeHave d a).bind (·.takeHave d b) ≠ none := by
  have hA' := StdMap.find?_eq_some_iff.mpr hA
  have hB' := StdMap.find?_eq_some_iff.mpr hB
  obtain _ | ⟨un, rest⟩ := A
  · exact absurd rfl ((hs.1 d inner hd).2 a [] hA')
  have h₁ : s.takeHave d a =
      some ({ s with have_coins := s.have_coins.shrink d (stackShrink inner a rest) }.push un) := by
    simp [takeHave, hd, hA']
  have hs₁ := takeHave_shape hs h₁
  -- the stack `b` is still stored after the first pick
  obtain ⟨B', hB''⟩ : ∃ B', (stackShrink inner a rest).find? b = some B' := by
    by_cases hab : a = b
    · subst hab
      have hBA : B = un :: rest := Option.some.inj (hB'.symm.trans hA')
      have hr : rest.isEmpty = false := by
        subst hBA
        cases rest with
        | nil => simp [twoThreshold] at hlen
        | cons _ _ => rfl
      exact ⟨rest, by simp [stackShrink, hr]⟩
    · exact ⟨B, by unfold stackShrink; split_ifs <;> simp [hab, hB']⟩
  have hne : (stackShrink inner a rest).isEmpty = false :=
    StdMap.isEmpty_eq_false_iff.mpr ⟨b, B', hB''⟩
  have hd₁ : (s.have_coins.shrink d (stackShrink inner a rest)).find? d =
      some (stackShrink inner a rest) := by
    simp [HaveCoins.shrink, hne]
  rw [h₁, Option.some_bind]
  exact takeHave_ne_none hs₁ hd₁ hB''

end Selection

open Selection in
theorem optimizeDigit_pick {T da : Amount} {d : Nat} {s s' : Selection}
    (h : optimizeDigit T d da s = some s') : Relation.ReflTransGen PickHave s s' := by
  unfold optimizeDigit at h
  split at h
  · cases h; exact .refl
  · dsimp only at h
    split_ifs at h
    · exact takeHave_bind_pick h
    · cases h; exact .refl
    · exact .single (takeHave_pick h)
    · cases h; exact .refl

open Selection in
theorem optimizeDigit_shape {T da : Amount} {d : Nat} {s s' : Selection} (hs : s.Shape)
    (h : optimizeDigit T d da s = some s') : s'.Shape := by
  unfold optimizeDigit at h
  split at h
  · cases h; exact hs
  · dsimp only at h
    split_ifs at h
    · exact takeHave_bind_shape hs h
    · cases h; exact hs
    · exact takeHave_shape hs h
    · cases h; exact hs

/-- No round of the digit loop has undefined behaviour. -/
theorem optimizeDigit_ne_none (T da : Amount) (d : Nat) {s : Selection} (hs : s.Shape) :
    optimizeDigit T d da s ≠ none := by
  unfold optimizeDigit
  split
  · simp
  · rename_i inner hd
    dsimp only
    split_ifs with h1 h2 h3
    · obtain ⟨A, B, hA, hB, -, hlen⟩ := bestPair_spec _ inner h1
      exact Selection.takeHave_pair_ne_none hs hd hA hB hlen
    · simp
    · obtain ⟨st, hst⟩ := bestSingle_mem _ inner.entries 0 0 h3
      exact Selection.takeHave_ne_none hs hd (StdMap.find?_eq_some_iff.mpr hst)
    · simp

theorem optimizeLoop_spec (T : Amount) :
    ∀ (k d : Nat) (da : Amount) {s : Selection}, s.Shape →
      ∃ s', optimizeLoop T k d da s = some s' ∧ Relation.ReflTransGen Selection.PickHave s s' ∧
        s'.Shape
  | 0, _, _, s, hs => ⟨s, rfl, .refl, hs⟩
  | k + 1, d, da, s, hs => by
    unfold optimizeLoop
    split_ifs
    · exact ⟨s, rfl, .refl, hs⟩
    · obtain ⟨s₁, h₁⟩ := Option.ne_none_iff_exists'.mp (optimizeDigit_ne_none T da d hs)
      obtain ⟨s₂, h₂, hp, hs₂⟩ := optimizeLoop_spec T k (d + 1) (da * 10) (optimizeDigit_shape hs h₁)
      exact ⟨s₂, by rw [h₁, Option.some_bind, h₂], (optimizeDigit_pick h₁).trans hp, hs₂⟩

/-- `optimize_amounts` always returns, by picks from `have_coins`, and keeps the shape. -/
theorem optimize_amounts_spec (max_digit : Nat) (T : Amount) {s : Selection} (hs : s.Shape) :
    ∃ s', optimizeAmounts max_digit T s = some s' ∧
      Relation.ReflTransGen Selection.PickHave s s' ∧ s'.Shape :=
  optimizeLoop_spec T _ _ _ hs

end Varcoin
