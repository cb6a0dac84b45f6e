import Mathlib.Algebra.Order.BigOperators.Group.List
import Varcoin.Selector.Graded

/-!
# Picking coins by value

Two phases of the inner `select_optimal_outputs` choose coins by their value.  Phase 1,
with `anonymity == 0`, takes the smallest dust coin that covers the shortfall
(`Selection.takeLargeDust_smallest`).  Phase 5, after the rollback, runs the loop
`while (m_used_total < total_amount)`: each round compares the top clean coin, `back()` of
the last stack of the last digit, with the top dust coin, `back()` of the stack of the
largest dust amount, and takes the larger; the dust side counts only with
`anonymity == 0`.  It is the only place that reports failure.

The top coins are the largest when the maps are graded (`Selection.Graded`), which every
state of a run keeps on a pool of round clean coins (`fresh_reach_graded`).  Then each
round takes a coin no smaller than any it leaves (`fillerPick_greedy`), so the loop takes
its coins largest first.  Taking the largest coins first reaches a sum with the fewest
coins: the loop reaches the target with as few coins as any choice from the coins it may
draw from, and it reports failure only when all of them together fall short
(`fillLoop_fewest_coins`).
-/

namespace Varcoin

namespace Selection

/-- The coins the refill loop may draw from: the clean coins, and the dust coins when
`anonymity == 0`. -/
def fillPool (anonymity : Nat) (s : Selection) : List Output :=
  s.have_coins.coins ++ if anonymity = 0 then s.dust_coins.coins else []

end Selection

/-! ### The top coins are the largest -/

/-- On a graded clean map, the top coin `back()` of the last stack of the last digit is
worth at least every coin of the map. -/
theorem HaveCoins.top?_max {h : HaveCoins} (hden : h.Denominated) (hlead : h.Leading)
    {d l : Nat} {un c : Output} (ht : h.top? = some (d, l, un)) (hc : c ∈ h.coins) :
    c.amount ≤ un.amount := by
  unfold HaveCoins.top? at ht
  obtain ⟨⟨d₀, inner⟩, h₁, ht⟩ := Option.bind_eq_some.mp ht
  obtain ⟨⟨l₀, st⟩, h₂, ht⟩ := Option.bind_eq_some.mp ht
  obtain ⟨un₀, h₃, ht⟩ := Option.map_eq_some'.mp ht
  cases ht
  have hd := StdMap.back?_find? h₁
  have hl := StdMap.back?_find? h₂
  obtain ⟨d', inner', l', st', hd', hl', hc'⟩ := HaveCoins.exists_of_mem_coins hc
  have hl0 := (hlead d inner l st hd hl).1
  have hl9 := (hlead d' inner' l' st' hd' hl').2
  rw [u64_le_iff, hden d' inner' l' st' c hd' hl' hc',
    hden d inner l st un hd hl (List.mem_of_mem_head? h₃)]
  rcases Nat.eq_or_lt_of_le (StdMap.back?_max h₁ hd') with rfl | hlt
  · cases hd'.symm.trans hd
    exact Nat.mul_le_mul_right _ (StdMap.back?_max h₂ hl')
  · have hp : 0 < 10 ^ d' := Nat.pos_pow_of_pos d' (by decide)
    calc l' * 10 ^ d' ≤ 9 * 10 ^ d' := Nat.mul_le_mul_right _ (by omega)
      _ ≤ 10 ^ (d' + 1) := by rw [pow_succ]; omega
      _ ≤ 10 ^ d := Nat.pow_le_pow_right (by decide) hlt
      _ ≤ l * 10 ^ d := Nat.le_mul_of_pos_left _ hl0

/-- On a keyed dust map, the top coin of the largest amount is worth at least every coin
of the map. -/
theorem DustCoins.top?_max {m : DustCoins} (hkey : m.Keyed) {a : Nat} {un c : Output}
    (ht : m.top? = some (a, un)) (hc : c ∈ m.coins) : c.amount ≤ un.amount := by
  unfold DustCoins.top? at ht
  obtain ⟨⟨a₀, st⟩, h₁, ht⟩ := Option.bind_eq_some.mp ht
  obtain ⟨un₀, h₂, ht⟩ := Option.map_eq_some'.mp ht
  cases ht
  obtain ⟨⟨a', st'⟩, ha', hc'⟩ := List.mem_flatMap.mp hc
  have ha' := StdMap.find?_eq_some_iff.mpr ha'
  rw [u64_le_iff, hkey a' st' c ha' hc',
    hkey a st un (StdMap.back?_find? h₁) (List.mem_of_mem_head? h₂)]
  exact StdMap.back?_max h₁ ha'

/-! ### Phase 1: the smallest dust coin that covers the shortfall -/

/-- With `anonymity == 0` and the target missed, phase 1 looks for a dust coin with
`dust_coins->lower_bound(total_amount - m_used_total)`.  On a keyed dust map the search is
exact: it takes a coin exactly when some dust coin covers the shortfall, and then the
smallest of them. -/
theorem Selection.takeLargeDust_smallest (T : Amount) {s s' : Selection}
    (hkey : s.dust_coins.Keyed) (hlt : s.used_total < T) (h : s.takeLargeDust T = some s') :
    (∃ un, PickDust s s' ∧ s'.optimization_unspents = s.optimization_unspents ++ [un] ∧
      T - s.used_total ≤ un.amount ∧
      ∀ c ∈ s.dust_coins.coins, T - s.used_total ≤ c.amount → un.amount ≤ c.amount) ∨
    s' = s ∧ ∀ c ∈ s.dust_coins.coins, c.amount < T - s.used_total := by
  have keyOf : ∀ c ∈ s.dust_coins.coins, ∃ a st, s.dust_coins.find? a = some st ∧
      c.amount.toNat = a := fun c hc =>
    let ⟨⟨a, st⟩, ha, hc⟩ := List.mem_flatMap.mp hc
    ⟨a, st, StdMap.find?_eq_some_iff.mpr ha, hkey a st c (StdMap.find?_eq_some_iff.mpr ha) hc⟩
  unfold Selection.takeLargeDust at h
  rw [if_pos hlt] at h
  split at h
  · rename_i hlb
    cases h
    refine .inr ⟨rfl, fun c hc => ?_⟩
    obtain ⟨a, st, ha, hca⟩ := keyOf c hc
    rw [u64_lt_iff, hca]
    exact StdMap.lowerBound_none hlb ha
  · rename_i a st hlb
    have hp := takeDust_pick h
    obtain ⟨un, rest, ha, rfl⟩ := takeDust_eq_some h
    obtain ⟨hle, hleast⟩ := StdMap.lowerBound_least hlb
    have hun : un.amount.toNat = a := hkey a _ un ha (List.mem_cons_self _ _)
    refine .inl ⟨un, hp, rfl, by rw [u64_le_iff, hun]; exact hle, fun c hc hcov => ?_⟩
    obtain ⟨a', st', ha', hca⟩ := keyOf c hc
    rw [u64_le_iff, hun, hca]
    exact hleast a' st' ha' (hca ▸ hcov)

/-- Dust coins of 13 and 27 and a clean coin of 5, before any pick. -/
def largeDustDemo : Selection :=
  let coins := createHaveCoins demoCurrency 100 0 100
    [demoCoin 0 13 true, demoCoin 1 27 true, demoCoin 2 5 false]
  ⟨coins.1, coins.2.1, [], 0, 0⟩

/-- A shortfall of 20: the search passes over 13 and takes 27. -/
theorem takeLargeDust_smallest_demo :
    largeDustDemo.dust_coins.Keyed ∧ largeDustDemo.used_total < 20 ∧
    ∃ s', largeDustDemo.takeLargeDust 20 = some s' ∧
      ((∃ un, Selection.PickDust largeDustDemo s' ∧
        s'.optimization_unspents = largeDustDemo.optimization_unspents ++ [un] ∧
        20 - largeDustDemo.used_total ≤ un.amount ∧
        ∀ c ∈ largeDustDemo.dust_coins.coins, 20 - largeDustDemo.used_total ≤ c.amount →
          un.amount ≤ c.amount) ∨
      s' = largeDustDemo ∧
        ∀ c ∈ largeDustDemo.dust_coins.coins, c.amount < 20 - largeDustDemo.used_total) :=
  have hkey : largeDustDemo.dust_coins.Keyed := create_have_coins_keyed demoCurrency 100 0 100 _
  ⟨hkey, by decide, _, rfl, Selection.takeLargeDust_smallest 20 hkey (by decide) rfl⟩

theorem HaveCoins.isEmpty_eq_false_of_mem {h : HaveCoins} {c : Output} (hc : c ∈ h.coins) :
    h.isEmpty = false := by
  cases he : h.isEmpty
  · rfl
  · simp [HaveCoins.coins, StdMap.flatMap_eq_nil he] at hc

theorem DustCoins.isEmpty_eq_false_of_mem {m : DustCoins} {c : Output} (hc : c ∈ m.coins) :
    m.isEmpty = false := by
  cases he : m.isEmpty
  · rfl
  · simp [DustCoins.coins, StdMap.flatMap_eq_nil he] at hc

namespace Selection

theorem Graded.have_pos {s : Selection} (hg : s.Graded) :
    ∀ c ∈ s.have_coins.coins, 0 < c.amount := fun c hc => by
  obtain ⟨d, inner, l, st, hd, hl, hc⟩ := HaveCoins.exists_of_mem_coins hc
  have hv := hg.filed.denominated d inner l st c hd hl hc
  have hl0 := (hg.filed.leading d inner l st hd hl).1
  rw [u64_lt_iff, hv]
  exact Nat.mul_pos hl0 (Nat.pos_pow_of_pos d (by decide))

/-! ### Runs of the refill loop -/

/-- What a run of the refill loop from `s` to `s'` did: it took `taken` from the coins it
may draw from, largest first, each coin worth at least every coin it left, and all but
the last with the target still missed. -/
structure FillRun (T : Amount) (anonymity : Nat) (s s' : Selection) (taken : List Output) :
    Prop where
  appends : s'.optimization_unspents = s.optimization_unspents ++ taken
  pool : (fillPool anonymity s).Perm (taken ++ fillPool anonymity s')
  sorted : taken.Pairwise fun a b => b.amount ≤ a.amount
  above : ∀ c ∈ taken, ∀ c' ∈ fillPool anonymity s', c'.amount ≤ c.amount
  total : s'.used_total.toNat = s.used_total.toNat + (taken.map (·.amount.toNat)).sum
  short : ∀ k < taken.length,
    s.used_total.toNat + ((taken.take k).map (·.amount.toNat)).sum < T.toNat

theorem FillRun.nil (T : Amount) (anonymity : Nat) (s : Selection) :
    FillRun T anonymity s s [] :=
  ⟨by simp, .refl _, .nil, by simp, by simp, by simp⟩

theorem FillRun.cons {T : Amount} {anonymity : Nat} {s s₁ s' : Selection} {un : Output}
    {taken : List Output} (h₁ : FillRun T anonymity s s₁ [un])
    (h₂ : FillRun T anonymity s₁ s' taken) : FillRun T anonymity s s' (un :: taken) where
  appends := by rw [h₂.appends, h₁.appends]; simp
  pool := h₁.pool.trans (.cons un h₂.pool)
  sorted := List.pairwise_cons.mpr ⟨fun c hc => h₁.above un (List.mem_singleton_self _) c
    (h₂.pool.symm.subset (List.mem_append_left _ hc)), h₂.sorted⟩
  above c hc c' hc' := by
    rcases List.mem_cons.mp hc with rfl | hc
    · exact h₁.above c (List.mem_singleton_self _) c'
        (h₂.pool.symm.subset (List.mem_append_right _ hc'))
    · exact h₂.above c hc c' hc'
  total := by rw [h₂.total, h₁.total]; simp; omega
  short k hk := by
    cases k with
    | zero => simpa using h₁.short 0 (by simp)
    | succ k =>
      have := h₂.short k (by simpa using hk)
      rw [h₁.total] at this
      simp at this ⊢
      omega

/-- A run moves value from the coins it may draw from into `m_used_total`. -/
theorem FillRun.sum_eq {T : Amount} {anonymity : Nat} {s s' : Selection} {taken : List Output}
    (hr : FillRun T anonymity s s' taken) :
    s'.used_total.toNat + ((fillPool anonymity s').map (·.amount.toNat)).sum =
      s.used_total.toNat + ((fillPool anonymity s).map (·.amount.toNat)).sum := by
  rw [hr.total, (hr.pool.map _).sum_eq, List.map_append, List.sum_append]
  omega

/-- One round of the filler on graded maps takes a coin worth at least every coin it may
draw from, and keeps the maps graded. -/
theorem fillerPick_greedy {T : Amount} {anonymity : Nat} {s s' : Selection} (hg : s.Graded)
    (hgo : ¬(s.have_coins.isEmpty = true ∧ (anonymity ≠ 0 ∨ s.dust_coins.isEmpty = true)))
    (hlt : s.used_total < T)
    (hsum : s.used_total.toNat + ((fillPool anonymity s).map (·.amount.toNat)).sum < 2 ^ 64)
    (h : fillerPick anonymity s = some s') :
    s'.Graded ∧ ∃ un, FillRun T anonymity s s' [un] := by
  have step : ∀ un, s'.optimization_unspents = s.optimization_unspents ++ [un] →
      s'.used_total = s.used_total + un.amount →
      (fillPool anonymity s).Perm (un :: fillPool anonymity s') →
      (∀ c ∈ fillPool anonymity s, c.amount ≤ un.amount) → FillRun T anonymity s s' [un] := by
    intro un ho hu hp hmax
    have hun : un.amount.toNat ≤ ((fillPool anonymity s).map (·.amount.toNat)).sum := by
      rw [(hp.map _).sum_eq]; simp
    refine ⟨ho, hp, List.pairwise_singleton _ _, ?_, ?_, ?_⟩
    · intro c hc c' hc'
      cases List.mem_singleton.mp hc
      exact hmax c' (hp.symm.subset (List.mem_cons_of_mem _ hc'))
    · rw [hu, u64_toNat_add, Nat.mod_eq_of_lt (by omega)]; simp
    · intro k hk
      obtain rfl : k = 0 := by simpa using hk
      simpa using hlt
  rcases fillerPick_eq_some h with ⟨d, l, un, ht, e, hdu⟩ | ⟨a, du, ht, e, hha⟩
  · obtain ⟨inner, rest, hd, hl⟩ := HaveCoins.top?_spec ht
    obtain ⟨inner', un', rest', hd', hl', rfl⟩ := takeHave_eq_some e
    cases hd.symm.trans hd'
    cases hl.symm.trans hl'
    refine ⟨hg.takeHave e, un, step un rfl rfl
      ((HaveCoins.coins_pick hd hl).append_right _) fun c hc => ?_⟩
    rcases List.mem_append.mp hc with hc | hc
    · exact HaveCoins.top?_max hg.filed.denominated hg.filed.leading ht hc
    · split_ifs at hc with h0
      · obtain ⟨⟨a, du⟩, hdt⟩ := Option.ne_none_iff_exists'.mp
          (DustCoins.top?_ne_none hg.shape.2 (DustCoins.isEmpty_eq_false_of_mem hc))
        exact u64_le_iff.mpr (Nat.le_trans (DustCoins.top?_max hg.filed.keyed hdt hc)
          (Nat.le_of_lt (hdu a du hdt h0)))
      · cases hc
  · obtain ⟨rest, ha⟩ := DustCoins.top?_spec ht
    obtain ⟨un', rest', ha', rfl⟩ := takeDust_eq_some e
    cases ha.symm.trans ha'
    -- a clean coin is worth at most the top dust coin, and only with `anonymity == 0`
    have hhave : ∀ c ∈ s.have_coins.coins, anonymity = 0 ∧ c.amount ≤ du.amount := by
      intro c hc
      have hne := HaveCoins.isEmpty_eq_false_of_mem hc
      obtain ⟨⟨d, l, un⟩, ht'⟩ :=
        Option.ne_none_iff_exists'.mp (HaveCoins.top?_ne_none hg.shape.1 hne)
      obtain ⟨inner, rest, hd, hl⟩ := HaveCoins.top?_spec ht'
      have hpos := hg.have_pos un (HaveCoins.mem_coins hd hl (List.mem_cons_self _ _))
      have hcu := HaveCoins.top?_max hg.filed.denominated hg.filed.leading ht' hc
      have hle := hha hne d l un ht'
      split_ifs at hle with h0
      · exact ⟨h0, u64_le_iff.mpr (Nat.le_trans hcu hle)⟩
      · have : (0 : Amount).toNat = 0 := rfl
        rw [u64_le_iff] at hle
        rw [u64_lt_iff] at hpos
        omega
    have h0 : anonymity = 0 := by
      cases hh : s.have_coins.isEmpty
      · obtain ⟨⟨d, l, un⟩, ht'⟩ :=
          Option.ne_none_iff_exists'.mp (HaveCoins.top?_ne_none hg.shape.1 hh)
        obtain ⟨inner, rest, hd, hl⟩ := HaveCoins.top?_spec ht'
        exact (hhave un (HaveCoins.mem_coins hd hl (List.mem_cons_self _ _))).1
      · by_contra h0
        exact hgo ⟨hh, .inl h0⟩
    simp only [fillPool, if_pos h0] at step ⊢
    refine ⟨hg.takeDust e, du, step du rfl rfl
      (((stackShrink_pick ha).append_left _).trans List.perm_middle) fun c hc => ?_⟩
    rcases List.mem_append.mp hc with hc | hc
    · exact (hhave c hc).2
    · exact DustCoins.top?_max hg.filed.keyed ht hc

/-- A run of the refill loop on graded maps, with `m_used_total` and the coins it may
draw from adding up below `2^64`, takes its coins largest first. -/
theorem fillLoop_run (T : Amount) (anonymity : Nat) (fuel : Nat) {s : Selection}
    {r : Bool × Selection} (hg : s.Graded)
    (hsum : s.used_total.toNat + ((fillPool anonymity s).map (·.amount.toNat)).sum < 2 ^ 64)
    (h : fillLoop T anonymity fuel s = some r) : ∃ taken, FillRun T anonymity s r.2 taken := by
  induction fuel generalizing s with
  | zero =>
    unfold fillLoop at h
    split_ifs at h <;> cases h
    all_goals exact ⟨[], .nil T anonymity s⟩
  | succ fuel ih =>
    unfold fillLoop at h
    split_ifs at h with hlt hstop
    · cases h
      exact ⟨[], .nil T anonymity s⟩
    · obtain ⟨s₁, h₁, h₂⟩ := Option.bind_eq_some.mp h
      obtain ⟨hg₁, un, hs₁⟩ := fillerPick_greedy hg hstop hlt hsum h₁
      obtain ⟨taken, hr⟩ := ih hg₁ (hs₁.sum_eq.trans_lt hsum) h₂
      exact ⟨un :: taken, hs₁.cons hr⟩
    · cases h
      exact ⟨[], .nil T anonymity s⟩

end Selection

/-! ### Largest first takes the fewest coins -/

/-- At most `A.length` numbers chosen from `A ++ B`, with `A` sorted downwards and above
every number of `B`, sum to at most the sum of `A`. -/
theorem sum_le_of_subperm_sorted {B : List Nat} :
    ∀ {A Q : List Nat}, A.Pairwise (fun a b => b ≤ a) → (∀ a ∈ A, ∀ b ∈ B, b ≤ a) →
      Q.Subperm (A ++ B) → Q.length ≤ A.length → Q.sum ≤ A.sum
  | [], Q, _, _, _, hlen => by simp [List.eq_nil_of_length_eq_zero (Nat.le_zero.mp hlen)]
  | a :: A, Q, hA, hAB, hQ, hlen => by
    rw [List.pairwise_cons] at hA
    have hA' : ∀ a' ∈ A, ∀ b ∈ B, b ≤ a' := fun a' ha' => hAB a' (List.mem_cons_of_mem _ ha')
    by_cases ha : a ∈ Q
    · -- match `a` with a copy of itself in the choice
      have hsub : (Q.erase a).Subperm (A ++ B) := by simpa using hQ.erase a
      have ih := sum_le_of_subperm_sorted hA.2 hA' hsub
        (by rw [List.length_erase_of_mem ha]; simp at hlen; omega)
      rw [(List.perm_cons_erase ha).sum_eq, List.sum_cons, List.sum_cons]
      omega
    · -- every chosen number is at most `a`
      have hsub : Q.Subperm (A ++ B) := by simpa [List.erase_of_not_mem ha] using hQ.erase a
      cases Q with
      | nil => simp
      | cons q Q =>
        have hq : q ≤ a := (List.mem_append.mp (hsub.subset (List.mem_cons_self q Q))).elim
          (hA.1 q) (hAB a (List.mem_cons_self a A) q)
        have ih := sum_le_of_subperm_sorted hA.2 hA'
          ((List.sublist_cons_self q Q).subperm.trans hsub) (by simp at hlen; omega)
        simp only [List.sum_cons]
        omega

namespace Selection

/-- No choice of coins from the pool is worth more than the same number of coins a run took
first. -/
theorem FillRun.sum_le_take {T : Amount} {anonymity : Nat} {s s' : Selection}
    {taken Q : List Output} (hr : FillRun T anonymity s s' taken)
    (hQ : Q.Subperm (fillPool anonymity s)) (hlen : Q.length ≤ taken.length) :
    (Q.map (·.amount.toNat)).sum ≤ ((taken.take Q.length).map (·.amount.toNat)).sum := by
  have hsplit : (fillPool anonymity s).Perm
      (taken.take Q.length ++ (taken.drop Q.length ++ fillPool anonymity s')) := by
    simpa only [← List.append_assoc, List.take_append_drop] using hr.pool
  obtain ⟨l, hl, hsub⟩ := hQ.trans hsplit.subperm
  have hsorted := hr.sorted
  rw [← List.take_append_drop Q.length taken, List.pairwise_append] at hsorted
  refine sum_le_of_subperm_sorted (List.pairwise_map.mpr hsorted.1) ?_
    ⟨l.map _, hl.map _, by simpa only [List.map_append] using hsub.map _⟩ (by simp [hlen])
  simp only [List.mem_map, List.mem_append]
  rintro _ ⟨c, hc, rfl⟩ _ (⟨c', hc', rfl⟩ | ⟨c', hc', rfl⟩)
  · exact hsorted.2.2 c hc c' hc'
  · exact hr.above c (List.mem_of_mem_take hc) c' hc'

/-- The refill loop of phase 5 on graded maps, with `m_used_total` and the coins it may
draw from adding up below `2^64`, returns within its fuel; it takes its coins from those it
may draw from, largest first; when it reaches the target, no choice of fewer of those
coins reaches it; and it reports failure only when all of them together fall short. -/
theorem fillLoop_fewest_coins (T : Amount) (anonymity fuel : Nat) {s : Selection}
    (hg : s.Graded) (hfuel : s.have_coins.coins.length + s.dust_coins.coins.length ≤ fuel)
    (hsum : s.used_total.toNat + ((fillPool anonymity s).map (·.amount.toNat)).sum < 2 ^ 64) :
    ∃ r, fillLoop T anonymity fuel s = some r ∧ ∃ taken,
      r.2.optimization_unspents = s.optimization_unspents ++ taken ∧
      taken.Subperm (fillPool anonymity s) ∧
      taken.Pairwise (fun a b => b.amount ≤ a.amount) ∧
      (r.1 = true → T.toNat ≤ s.used_total.toNat + (taken.map (·.amount.toNat)).sum ∧
        ∀ Q : List Output, Q.Subperm (fillPool anonymity s) →
          T.toNat ≤ s.used_total.toNat + (Q.map (·.amount.toNat)).sum →
            taken.length ≤ Q.length) ∧
      (r.1 = false →
        s.used_total.toNat + ((fillPool anonymity s).map (·.amount.toNat)).sum < T.toNat) := by
  obtain ⟨r, e, -, -, htrue, hfalse⟩ := fillLoop_spec T anonymity fuel hg.shape hg.have_pos hfuel
  obtain ⟨taken, hr⟩ := fillLoop_run T anonymity fuel hg hsum e
  refine ⟨r, e, taken, hr.appends, (List.sublist_append_left _ _).subperm.trans
    hr.pool.symm.subperm, hr.sorted, fun h1 => ⟨hr.total ▸ htrue h1, fun Q hQ hQT => ?_⟩,
    fun h0 => ?_⟩
  · refine Nat.le_of_not_lt fun hlen => ?_
    have hshort := hr.short Q.length hlen
    have hle := hr.sum_le_take hQ hlen.le
    omega
  · obtain ⟨hlt, hh, hd⟩ := hfalse h0
    have hempty : fillPool anonymity r.2 = [] := by
      have hc : r.2.have_coins.coins = [] := StdMap.flatMap_eq_nil hh
      rcases hd with hd | hd
      · simp [fillPool, hc, hd]
      · simp [fillPool, hc, DustCoins.coins, StdMap.flatMap_eq_nil hd]
    have hpool := hr.pool
    rw [hempty, List.append_nil] at hpool
    rw [(hpool.map _).sum_eq, ← hr.total]
    exact hlt

end Selection

/-- Clean coins of 300, 20 and 5 and a dust coin of 13, before any pick. -/
def greedyDemo : Selection :=
  let coins := createHaveCoins demoCurrency 100 0 100
    [demoCoin 0 300 false, demoCoin 1 20 false, demoCoin 2 5 false, demoCoin 3 13 true]
  ⟨coins.1, coins.2.1, [], 0, 0⟩

/-- A target of 320 with `anonymity == 0`: the loop takes 300, then 20. -/
theorem fillLoop_fewest_coins_demo :
    greedyDemo.Graded ∧
    greedyDemo.have_coins.coins.length + greedyDemo.dust_coins.coins.length ≤ 4 ∧
    greedyDemo.used_total.toNat +
      ((Selection.fillPool 0 greedyDemo).map (·.amount.toNat)).sum < 2 ^ 64 ∧
    ∃ r, Selection.fillLoop 320 0 4 greedyDemo = some r ∧ ∃ taken,
      r.2.optimization_unspents = greedyDemo.optimization_unspents ++ taken ∧
      taken.Subperm (Selection.fillPool 0 greedyDemo) ∧
      taken.Pairwise (fun a b => b.amount ≤ a.amount) ∧
      (r.1 = true → (320 : Amount).toNat ≤
          greedyDemo.used_total.toNat + (taken.map (·.amount.toNat)).sum ∧
        ∀ Q : List Output, Q.Subperm (Selection.fillPool 0 greedyDemo) →
          (320 : Amount).toNat ≤ greedyDemo.used_total.toNat + (Q.map (·.amount.toNat)).sum →
            taken.length ≤ Q.length) ∧
      (r.1 = false → greedyDemo.used_total.toNat +
        ((Selection.fillPool 0 greedyDemo).map (·.amount.toNat)).sum < (320 : Amount).toNat) :=
  have hg : greedyDemo.Graded :=
    create_have_coins_graded demoCurrency 100 0 100 _ (by decide) [] 0 0
  ⟨hg, by decide, by decide, Selection.fillLoop_fewest_coins 320 0 4 hg (by decide) (by decide)⟩

end Varcoin
