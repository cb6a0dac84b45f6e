import Varcoin.Selector.Optimize

/-!
# The inner `select_optimal_outputs`

The overload of `select_optimal_outputs` that works on the two coin maps tries to
reach `total_amount` in six phases, each a loop over the pick sites of
`Varcoin.Selector.Coins`:

1. with `anonymity == 0`, the smallest dust coin that covers the shortfall, then dust
   from the largest down, at most `optimization_count` coins (`takeLargeDust`,
   `fillDust`);
2. ten coins at a time from any stack taller than `STACK_OPTIMIZATION_THRESHOLD`
   (`stackLoop`);
3. digit rounding (`optimize_amounts`);
4. the smallest clean coin that covers the shortfall (`findLargeCoin`);
5. if still short, a rollback of all the picks and a refill with the largest coins,
   dust included when `anonymity == 0` (`fillLoop`), which is the only place that
   reports failure;
6. digit rounding again.

Every phase is total on a well-shaped state and moves coins by picks only, from the
dust map only when `anonymity == 0`: `select_optimal_outputs_spec`.
-/

namespace Varcoin

/-- `--have_coins->end()`, `--dit->second.end()` and `back()`: the digit, the leading
digit and the top coin of the last stack; `none` when a map or the stack is empty. -/
def HaveCoins.top? (h : HaveCoins) : Option (Nat × Nat × Output) :=
  h.back?.bind fun (d, inner) => inner.back?.bind fun (l, st) => st.head?.map fun un => (d, l, un)

/-- `--dust_coins->end()` and `back()`. -/
def DustCoins.top? (m : DustCoins) : Option (Nat × Output) :=
  m.back?.bind fun (a, st) => st.head?.map fun un => (a, un)

namespace Selection

/-- The dust part of phase 1: the smallest dust coin not below the shortfall. -/
def takeLargeDust (total_amount : Amount) (s : Selection) : Option Selection :=
  if s.used_total < total_amount then
    match s.dust_coins.lowerBound (total_amount - s.used_total).toNat with
    | none => some s
    | some (a, _) => s.takeDust a
  else some s

/-- The loop of phase 1: dust from the largest, while short, while there is dust and
while the budget lasts; returns the budget left. -/
def fillDust (total_amount : Amount) : Nat → Selection → Option (Selection × Nat)
  | 0, s => some (s, 0)
  | n + 1, s =>
    if s.used_total < total_amount ∧ s.dust_coins.isEmpty = false then
      match s.dust_coins.top? with
      | none => none
      | some (a, _) => (s.takeDust a).bind (fillDust total_amount n)
    else some (s, n + 1)

/-- One step of the search of phase 2 over the stacks of one digit. -/
def stackStep (d : Nat) (acc : Nat × Option (Nat × Nat)) (a : Nat × Stack) :
    Nat × Option (Nat × Nat) :=
  if a.2.length > acc.1 then (a.2.length, some (d, a.1)) else acc

/-- The search of phase 2: the first of the tallest stacks above
`STACK_OPTIMIZATION_THRESHOLD`, as `(digit, leading digit)`. -/
def bestStack (h : HaveCoins) : Option (Nat × Nat) :=
  (h.entries.foldl (fun acc e => e.2.entries.foldl (stackStep e.1) acc)
    (stackOptimizationThreshold, none)).2

/-- `n` pops through `best_stack`. -/
def popN (d l : Nat) : Nat → Selection → Option Selection
  | 0, s => some s
  | n + 1, s => (s.popStack d l).bind (popN d l n)

/-- The loop of phase 2. -/
def stackLoop : Nat → Selection → Option Selection
  | n + 10, s =>
    match bestStack s.have_coins with
    | none => some s
    | some (d, l) => (popN d l 10 s).bind (stackLoop n)
  | _, s => some s

/-- The search of phase 4: the first digit, and in it the first stored leading digit,
whose coin `ait->first * digit_amount` is not below the shortfall. -/
def findLargeCoin (total_amount used_total : Amount) (h : HaveCoins) :
    Nat → Nat → Amount → Option (Nat × Nat)
  | 0, _, _ => none
  | k + 1, digit, digit_amount =>
    match h.find? digit with
    | none => findLargeCoin total_amount used_total h k (digit + 1) (digit_amount * 10)
    | some inner =>
      match inner.entries.find? (fun a => !a.2.isEmpty &&
          decide (UInt64.ofNat a.1 * digit_amount ≥ total_amount - used_total)) with
      | some a => some (digit, a.1)
      | none => findLargeCoin total_amount used_total h k (digit + 1) (digit_amount * 10)

/-- One round of the loop of phase 5: the larger of the top clean coin and, when
`anonymity == 0`, the top dust coin. -/
def fillerPick (anonymity : Nat) (s : Selection) : Option Selection := do
  let ha_amount ← if s.have_coins.isEmpty then some 0
    else s.have_coins.top?.map (·.2.2.amount)
  let du_amount ← if anonymity = 0 ∧ s.dust_coins.isEmpty = false then
      s.dust_coins.top?.map (·.2.amount)
    else some 0
  if ha_amount > du_amount then
    match s.have_coins.top? with
    | none => none
    | some (d, l, _) => s.takeHave d l
  else
    match s.dust_coins.top? with
    | none => none
    | some (a, _) => s.takeDust a

/-- The loop of phase 5, `while (m_used_total < total_amount)`, which returns `false`
when both maps it may draw from are empty.  Each round takes a coin, so the number of
coins in the maps bounds the rounds; `fuel` is that bound. -/
def fillLoop (total_amount : Amount) (anonymity : Nat) (fuel : Nat) (s : Selection) :
    Option (Bool × Selection) :=
  if s.used_total < total_amount then
    if s.have_coins.isEmpty ∧ (anonymity ≠ 0 ∨ s.dust_coins.isEmpty) then some (false, s)
    else match fuel with
      | 0 => none
      | fuel + 1 => (fillerPick anonymity s).bind (fillLoop total_amount anonymity fuel)
  else some (true, s)

/-- Phase 1: with `anonymity == 0`, dust first; returns the budget left. -/
def selectDust (total_amount : Amount) (anonymity optimization_count : Nat) (s : Selection) :
    Option (Selection × Nat) :=
  if anonymity = 0 then (s.takeLargeDust total_amount).bind (fillDust total_amount optimization_count)
  else some (s, optimization_count)

/-- Phase 4: the smallest clean coin that covers the shortfall, if there is one. -/
def takeLargeCoin (max_digit : Nat) (total_amount : Amount) (s : Selection) : Option Selection :=
  match findLargeCoin total_amount s.used_total s.have_coins (max_digit + 1) 0 1 with
  | none => some s
  | some (d, l) => s.takeHave d l

/-- Phases 5 and 6: roll back, refill with the largest coins, and round again. -/
def refill (max_digit : Nat) (total_amount : Amount) (anonymity : Nat) (s : Selection) :
    Option (Bool × Selection) :=
  let s := s.unoptimizeAmounts
  (fillLoop total_amount anonymity (s.have_coins.coins.length + s.dust_coins.coins.length) s).bind
    fun r => if r.1 then (optimizeAmounts max_digit total_amount r.2).map ((true, ·))
      else some (false, r.2)

/-- The overload `select_optimal_outputs(have_coins, dust_coins, max_digit, total_amount,
anonymity, optimization_count)`: whether `total_amount` is reached, and the state. -/
def selectOptimalOutputs (max_digit : Nat) (total_amount : Amount)
    (anonymity optimization_count : Nat) (s : Selection) : Option (Bool × Selection) :=
  (selectDust total_amount anonymity optimization_count s).bind fun p =>
  (stackLoop p.2 p.1).bind fun s =>
  (optimizeAmounts max_digit total_amount s).bind fun s =>
  if s.used_total ≥ total_amount then some (true, s) else
  (takeLargeCoin max_digit total_amount s).bind fun s =>
  if s.used_total ≥ total_amount then some (true, s) else refill max_digit total_amount anonymity s

end Selection

/-! ### The tops of the maps -/

theorem HaveCoins.mem_coins {h : HaveCoins} {d l : Nat} {inner : StdMap Stack} {st : Stack}
    {c : Output} (hd : h.find? d = some inner) (hl : inner.find? l = some st) (hc : c ∈ st) :
    c ∈ h.coins :=
  List.mem_flatMap.mpr ⟨(d, inner), StdMap.find?_eq_some_iff.mp hd,
    List.mem_flatMap.mpr ⟨(l, st), StdMap.find?_eq_some_iff.mp hl, hc⟩⟩

theorem DustCoins.mem_coins {m : DustCoins} {a : Nat} {st : Stack} {c : Output}
    (ha : m.find? a = some st) (hc : c ∈ st) : c ∈ m.coins :=
  List.mem_flatMap.mpr ⟨(a, st), StdMap.find?_eq_some_iff.mp ha, hc⟩

theorem HaveCoins.top?_spec {h : HaveCoins} {d l : Nat} {un : Output}
    (ht : h.top? = some (d, l, un)) :
    ∃ inner rest, h.find? d = some inner ∧ inner.find? l = some (un :: rest) := by
  unfold HaveCoins.top? at ht
  obtain ⟨⟨d', inner⟩, h₁, ht⟩ := Option.bind_eq_some.mp ht
  obtain ⟨⟨l', st⟩, h₂, ht⟩ := Option.bind_eq_some.mp ht
  obtain ⟨un', h₃, ht⟩ := Option.map_eq_some'.mp ht
  cases ht
  obtain _ | ⟨un'', rest⟩ := st
  · cases h₃
  · cases h₃
    exact ⟨inner, rest, StdMap.back?_find? h₁, StdMap.back?_find? h₂⟩

theorem HaveCoins.top?_ne_none {h : HaveCoins} (hw : h.WF) (he : h.isEmpty = false) :
    h.top? ≠ none := by
  obtain ⟨⟨d, inner⟩, h₁⟩ := StdMap.back?_isSome he
  obtain ⟨hne, hst⟩ := hw d inner (StdMap.back?_find? h₁)
  obtain ⟨⟨l, st⟩, h₂⟩ := StdMap.back?_isSome hne
  obtain _ | ⟨un, rest⟩ := st
  · exact absurd rfl (hst l [] (StdMap.back?_find? h₂))
  · simp [HaveCoins.top?, h₁, h₂]

theorem DustCoins.top?_spec {m : DustCoins} {a : Nat} {un : Output}
    (ht : m.top? = some (a, un)) : ∃ rest, m.find? a = some (un :: rest) := by
  unfold DustCoins.top? at ht
  obtain ⟨⟨a', st⟩, h₁, ht⟩ := Option.bind_eq_some.mp ht
  obtain ⟨un', h₂, ht⟩ := Option.map_eq_some'.mp ht
  cases ht
  obtain _ | ⟨un'', rest⟩ := st
  · cases h₂
  · cases h₂
    exact ⟨rest, StdMap.back?_find? h₁⟩

theorem DustCoins.top?_ne_none {m : DustCoins} (hw : StacksNonempty m) (he : m.isEmpty = false) :
    m.top? ≠ none := by
  obtain ⟨⟨a, st⟩, h₁⟩ := StdMap.back?_isSome he
  obtain _ | ⟨un, rest⟩ := st
  · exact absurd rfl (hw a [] (StdMap.back?_find? h₁))
  · simp [DustCoins.top?, h₁]

theorem HaveCoins.isEmpty_of_coins {h : HaveCoins} (hw : h.WF) (hc : h.coins = []) :
    h.isEmpty = true := by
  cases he : h.isEmpty
  · obtain ⟨⟨d, l, un⟩, ht⟩ := Option.ne_none_iff_exists'.mp (HaveCoins.top?_ne_none hw he)
    obtain ⟨inner, rest, hd, hl⟩ := HaveCoins.top?_spec ht
    simpa [hc] using HaveCoins.mem_coins hd hl (List.mem_cons_self un rest)
  · rfl

theorem DustCoins.isEmpty_of_coins {m : DustCoins} (hw : StacksNonempty m) (hc : m.coins = []) :
    m.isEmpty = true := by
  cases he : m.isEmpty
  · obtain ⟨⟨a, un⟩, ht⟩ := Option.ne_none_iff_exists'.mp (DustCoins.top?_ne_none hw he)
    obtain ⟨rest, ha⟩ := DustCoins.top?_spec ht
    simpa [hc] using DustCoins.mem_coins ha (List.mem_cons_self un rest)
  · rfl

/-! ### Moves

The inner selector changes its state only by picks and by the rollback.  Both keep the
coins the selection holds, in the maps and in `m_optimization_unspents`, up to order. -/

namespace Selection

/-- Every coin the selection holds: in the two maps and in `m_optimization_unspents`. -/
def held (s : Selection) : List Output :=
  s.have_coins.coins ++ s.dust_coins.coins ++ s.optimization_unspents

/-- Every coin the selection holds has a positive amount. -/
def Positive (s : Selection) : Prop := ∀ c ∈ s.held, 0 < c.amount

/-- A change the inner selector makes: a pick, or the rollback `unoptimize_amounts`. -/
def Move (anonymity : Nat) (s s' : Selection) : Prop :=
  Pick anonymity s s' ∨ s' = s.unoptimizeAmounts

theorem PickHave.held {s s' : Selection} (h : PickHave s s') : s'.held.Perm s.held := by
  obtain ⟨un, h', hp, rfl⟩ := h
  refine List.perm_iff_count.mpr fun a => ?_
  have := hp.count_eq a
  simp only [Selection.held, push_have_coins, push_dust_coins, push_optimization_unspents,
    List.count_append, List.count_cons, List.count_singleton', List.count_nil] at this ⊢
  omega

theorem PickDust.held {s s' : Selection} (h : PickDust s s') : s'.held.Perm s.held := by
  obtain ⟨un, d', hp, rfl⟩ := h
  refine List.perm_iff_count.mpr fun a => ?_
  have := hp.count_eq a
  simp only [Selection.held, push_have_coins, push_dust_coins, push_optimization_unspents,
    List.count_append, List.count_cons, List.count_singleton', List.count_nil] at this ⊢
  omega

theorem held_unoptimize (s : Selection) : s.unoptimizeAmounts.held.Perm s.held := by
  obtain ⟨h₁, h₂, -, -, -⟩ := foldl_unoptimizeOne s.optimization_unspents s
  have h₃ := List.filter_append_perm (·.dust) s.optimization_unspents
  refine List.perm_iff_count.mpr fun a => ?_
  have e₁ := h₁.count_eq a
  have e₂ := h₂.count_eq a
  have e₃ := h₃.count_eq a
  simp only [Selection.held, unoptimizeAmounts, List.count_append, List.count_nil] at e₁ e₂ e₃ ⊢
  omega

theorem Move.held {anonymity : Nat} {s s' : Selection} (h : Move anonymity s s') :
    s'.held.Perm s.held := by
  rcases h with (h | ⟨-, h⟩) | rfl
  · exact h.held
  · exact h.held
  · exact held_unoptimize s

theorem moves_held {anonymity : Nat} {s s' : Selection}
    (h : Relation.ReflTransGen (Move anonymity) s s') : s'.held.Perm s.held := by
  induction h with
  | refl => exact .refl _
  | tail _ hm ih => exact hm.held.trans ih

/-! ### The phases -/

theorem takeLargeDust_spec (T : Amount) {s : Selection} (hs : s.Shape) :
    ∃ s', s.takeLargeDust T = some s' ∧ Relation.ReflTransGen PickDust s s' ∧ s'.Shape := by
  unfold takeLargeDust
  split_ifs
  · split
    · exact ⟨s, rfl, .refl, hs⟩
    · rename_i a st hlb
      obtain ⟨s', h⟩ := Option.ne_none_iff_exists'.mp
        (takeDust_ne_none hs (StdMap.lowerBound_find? hlb))
      exact ⟨s', h, .single (takeDust_pick h), takeDust_shape hs h⟩
  · exact ⟨s, rfl, .refl, hs⟩

theorem fillDust_spec (T : Amount) : ∀ (n : Nat) {s : Selection}, s.Shape →
    ∃ r, fillDust T n s = some r ∧ Relation.ReflTransGen PickDust s r.1 ∧ r.1.Shape
  | 0, s, hs => ⟨(s, 0), rfl, .refl, hs⟩
  | n + 1, s, hs => by
    unfold fillDust
    split_ifs with hc
    · obtain ⟨⟨a, un⟩, ht⟩ := Option.ne_none_iff_exists'.mp (DustCoins.top?_ne_none hs.2 hc.2)
      obtain ⟨rest, ha⟩ := DustCoins.top?_spec ht
      obtain ⟨s₁, h₁⟩ := Option.ne_none_iff_exists'.mp (takeDust_ne_none hs ha)
      obtain ⟨r, h₂, hp, hr⟩ := fillDust_spec T n (takeDust_shape hs h₁)
      refine ⟨r, ?_, .head (takeDust_pick h₁) hp, hr⟩
      rw [ht]
      simp only [h₁, Option.some_bind, h₂]
    · exact ⟨(s, n + 1), rfl, .refl, hs⟩

theorem bestStack_spec {h : HaveCoins} {d l : Nat} (hb : bestStack h = some (d, l)) :
    ∃ inner st, h.find? d = some inner ∧ inner.find? l = some st ∧
      stackOptimizationThreshold < st.length := by
  let P : Nat × Option (Nat × Nat) → Prop := fun acc => stackOptimizationThreshold ≤ acc.1 ∧
    ∀ p, acc.2 = some p → ∃ inner st, h.find? p.1 = some inner ∧ inner.find? p.2 = some st ∧
      stackOptimizationThreshold < st.length
  have key : P (h.entries.foldl (fun acc e => e.2.entries.foldl (stackStep e.1) acc)
      (stackOptimizationThreshold, none)) := by
    refine List.foldlRecOn (motive := P) _ _ _ ⟨le_rfl, fun p hp => by cases hp⟩
      fun acc hacc e he => ?_
    refine List.foldlRecOn (motive := P) _ _ _ hacc fun acc hacc a ha => ?_
    unfold stackStep
    split_ifs with hgt
    · exact ⟨by omega, fun p hp => by
        cases hp
        exact ⟨e.2, a.2, StdMap.find?_eq_some_iff.mpr he, StdMap.find?_eq_some_iff.mpr ha,
          by omega⟩⟩
    · exact hacc
  exact key.2 (d, l) hb

theorem popN_spec (d l : Nat) : ∀ (n : Nat) {s : Selection} {inner : StdMap Stack} {st : Stack},
    s.Shape → s.have_coins.find? d = some inner → inner.find? l = some st → n < st.length →
    ∃ s', popN d l n s = some s' ∧ Relation.ReflTransGen PickHave s s' ∧ s'.Shape
  | 0, s, _, _, hs, _, _, _ => ⟨s, rfl, .refl, hs⟩
  | n + 1, s, inner, st, hs, hd, hl, hn => by
    obtain _ | ⟨un, rest⟩ := st
    · simp at hn
    have h₁ : s.popStack d l =
        some ({ s with have_coins := s.have_coins.insert d (inner.insert l rest) }.push un) := by
      simp [popStack, hd, hl]
    have hs₁ := popStack_shape hs h₁ fun inner' st' hd' hl' => by
      rw [hd] at hd'
      cases hd'
      rw [hl] at hl'
      cases hl'
      simp at hn ⊢
      omega
    have hd₁ : ({ s with have_coins := s.have_coins.insert d (inner.insert l rest) }.push
        un).have_coins.find? d = some (inner.insert l rest) := by simp
    obtain ⟨s', h₂, hp, hs'⟩ := popN_spec d l n hs₁ hd₁ (by simp : (inner.insert l rest).find? l = some rest)
      (by simp at hn; omega)
    exact ⟨s', by rw [popN, h₁, Option.some_bind, h₂], .head (popStack_pick h₁) hp, hs'⟩

theorem stackLoop_spec (n : Nat) {s : Selection} (hs : s.Shape) :
    ∃ s', stackLoop n s = some s' ∧ Relation.ReflTransGen PickHave s s' ∧ s'.Shape := by
  induction n using Nat.strong_induction_on generalizing s with
  | _ n ih =>
    unfold stackLoop
    split
    · split
      · exact ⟨s, rfl, .refl, hs⟩
      · rename_i m _ d l hb
        obtain ⟨inner, st, hd, hl, hlen⟩ := bestStack_spec hb
        obtain ⟨s₁, h₁, hp₁, hs₁⟩ := popN_spec d l 10 hs hd hl
          (by simp only [stackOptimizationThreshold] at hlen; omega)
        obtain ⟨s₂, h₂, hp₂, hs₂⟩ := ih m (by omega) hs₁
        exact ⟨s₂, by rw [h₁, Option.some_bind, h₂], hp₁.trans hp₂, hs₂⟩
    · exact ⟨s, rfl, .refl, hs⟩

theorem findLargeCoin_spec {T u : Amount} {h : HaveCoins} :
    ∀ {k d : Nat} {da : Amount} {d' l : Nat}, findLargeCoin T u h k d da = some (d', l) →
      ∃ inner st, h.find? d' = some inner ∧ inner.find? l = some st ∧ st ≠ []
  | 0, _, _, _, _, hf => by cases hf
  | k + 1, d, da, d', l, hf => by
    unfold findLargeCoin at hf
    split at hf
    · exact findLargeCoin_spec hf
    · rename_i inner hd
      split at hf
      · rename_i a ha
        cases hf
        have hne := List.find?_some ha
        refine ⟨inner, a.2, hd, StdMap.find?_eq_some_iff.mpr (List.mem_of_find?_eq_some ha), ?_⟩
        simp only [Bool.and_eq_true, Bool.not_eq_true'] at hne
        exact fun h => by simp [h] at hne
      · exact findLargeCoin_spec hf

/-- The filler takes a coin whenever its loop test lets it: a clean coin, or a dust coin
only with `anonymity == 0`.  A clean top coin of amount `0` would send it to an empty dust
map, which is why the amounts must be positive. -/
theorem fillerPick_spec {anonymity : Nat} {s : Selection} (hs : s.Shape)
    (hpos : ∀ c ∈ s.have_coins.coins, 0 < c.amount)
    (hgo : ¬(s.have_coins.isEmpty = true ∧ (anonymity ≠ 0 ∨ s.dust_coins.isEmpty = true))) :
    ∃ s', fillerPick anonymity s = some s' ∧ Pick anonymity s s' ∧ s'.Shape := by
  have haveCase : ∀ d l, (∃ inner st, s.have_coins.find? d = some inner ∧ inner.find? l = some st) →
      ∃ s', s.takeHave d l = some s' ∧ Pick anonymity s s' ∧ s'.Shape := by
    rintro d l ⟨inner, st, hd, hl⟩
    obtain ⟨s', h⟩ := Option.ne_none_iff_exists'.mp (takeHave_ne_none hs hd hl)
    exact ⟨s', h, .inl (takeHave_pick h), takeHave_shape hs h⟩
  have dustCase : ∀ a un rest, anonymity = 0 → s.dust_coins.find? a = some (un :: rest) →
      ∃ s', s.takeDust a = some s' ∧ Pick anonymity s s' ∧ s'.Shape := by
    intro a un rest h0 ha
    obtain ⟨s', h⟩ := Option.ne_none_iff_exists'.mp (takeDust_ne_none hs ha)
    exact ⟨s', h, .inr ⟨h0, takeDust_pick h⟩, takeDust_shape hs h⟩
  cases hh : s.have_coins.isEmpty
  · obtain ⟨⟨d, l, un⟩, ht⟩ := Option.ne_none_iff_exists'.mp (HaveCoins.top?_ne_none hs.1 hh)
    obtain ⟨inner, rest, hd, hl⟩ := HaveCoins.top?_spec ht
    have hun : 0 < un.amount := hpos un (HaveCoins.mem_coins hd hl (List.mem_cons_self _ _))
    by_cases hdu : anonymity = 0 ∧ s.dust_coins.isEmpty = false
    · obtain ⟨⟨a, du⟩, hdt⟩ := Option.ne_none_iff_exists'.mp (DustCoins.top?_ne_none hs.2 hdu.2)
      obtain ⟨drest, ha⟩ := DustCoins.top?_spec hdt
      by_cases hlt : du.amount < un.amount
      · obtain ⟨s', h, hp⟩ := haveCase d l ⟨inner, _, hd, hl⟩
        exact ⟨s', by simp [fillerPick, hh, ht, hdu, hdt, hlt, h], hp⟩
      · obtain ⟨s', h, hp⟩ := dustCase a du drest hdu.1 ha
        exact ⟨s', by simp [fillerPick, hh, ht, hdu, hdt, hlt, h], hp⟩
    · obtain ⟨s', h, hp⟩ := haveCase d l ⟨inner, _, hd, hl⟩
      exact ⟨s', by simp [fillerPick, hh, ht, hdu, hun, h], hp⟩
  · have hdu : anonymity = 0 ∧ s.dust_coins.isEmpty = false := by
      simp only [hh, true_and, not_or, ne_eq, not_not, Bool.not_eq_true] at hgo
      exact hgo
    obtain ⟨⟨a, du⟩, hdt⟩ := Option.ne_none_iff_exists'.mp (DustCoins.top?_ne_none hs.2 hdu.2)
    obtain ⟨drest, ha⟩ := DustCoins.top?_spec hdt
    obtain ⟨s', h, hp⟩ := dustCase a du drest hdu.1 ha
    exact ⟨s', by simp [fillerPick, hh, hdu, hdt, h, u64_not_lt_zero], hp⟩

theorem pick_coins_length {anonymity : Nat} {s s' : Selection} (h : Pick anonymity s s') :
    s'.have_coins.coins.length + s'.dust_coins.coins.length + 1 =
      s.have_coins.coins.length + s.dust_coins.coins.length := by
  rcases h with ⟨un, h', hp, rfl⟩ | ⟨-, un, d', hp, rfl⟩ <;>
  · have := hp.length_eq
    simp at this ⊢
    omega

theorem pick_have_subset {anonymity : Nat} {s s' : Selection} (h : Pick anonymity s s') :
    ∀ c ∈ s'.have_coins.coins, c ∈ s.have_coins.coins := by
  rcases h with ⟨un, h', hp, rfl⟩ | ⟨-, un, d', hp, rfl⟩
  · exact fun c hc => hp.symm.subset (List.mem_cons_of_mem _ hc)
  · exact fun c hc => hc

/-- The refill loop runs out of coins before it runs out of fuel, and it reports failure
only with the total short and every map it may draw from empty. -/
theorem fillLoop_spec (T : Amount) (anonymity : Nat) :
    ∀ (fuel : Nat) {s : Selection}, s.Shape → (∀ c ∈ s.have_coins.coins, 0 < c.amount) →
      s.have_coins.coins.length + s.dust_coins.coins.length ≤ fuel →
      ∃ r, fillLoop T anonymity fuel s = some r ∧
        Relation.ReflTransGen (Pick anonymity) s r.2 ∧ r.2.Shape ∧
        (r.1 = true → T ≤ r.2.used_total) ∧
        (r.1 = false → r.2.used_total < T ∧ r.2.have_coins.isEmpty = true ∧
          (anonymity ≠ 0 ∨ r.2.dust_coins.isEmpty = true)) := by
  intro fuel
  induction fuel with
  | zero =>
    intro s hs hpos hfuel
    have hh := HaveCoins.isEmpty_of_coins hs.1 (List.eq_nil_of_length_eq_zero (by omega))
    have hd := DustCoins.isEmpty_of_coins hs.2 (List.eq_nil_of_length_eq_zero (by omega))
    unfold fillLoop
    split_ifs with hlt hstop
    · exact ⟨(false, s), rfl, .refl, hs, by simp, fun _ => ⟨hlt, hh, .inr hd⟩⟩
    · exact absurd ⟨hh, .inr hd⟩ hstop
    · exact ⟨(true, s), rfl, .refl, hs, fun _ => UInt64.not_lt.mp hlt, by simp⟩
  | succ fuel ih =>
    intro s hs hpos hfuel
    unfold fillLoop
    split_ifs with hlt hstop
    · exact ⟨(false, s), rfl, .refl, hs, by simp, fun _ => ⟨hlt, hstop.1, hstop.2⟩⟩
    · obtain ⟨s₁, h₁, hp₁, hs₁⟩ := fillerPick_spec hs hpos hstop
      have hl := pick_coins_length hp₁
      obtain ⟨r, h₂, hp₂, hr⟩ := ih hs₁ (fun c hc => hpos c (pick_have_subset hp₁ c hc)) (by omega)
      exact ⟨r, by simp only [h₁, Option.some_bind, h₂], .head hp₁ hp₂, hr⟩
    · exact ⟨(true, s), rfl, .refl, hs, fun _ => UInt64.not_lt.mp hlt, by simp⟩

/-! ### The whole inner selector -/

theorem pickHave_moves {anonymity : Nat} {s s' : Selection}
    (h : Relation.ReflTransGen PickHave s s') : Relation.ReflTransGen (Move anonymity) s s' :=
  h.mono fun _ _ h => .inl (.inl h)

theorem pickDust_moves {anonymity : Nat} (h0 : anonymity = 0) {s s' : Selection}
    (h : Relation.ReflTransGen PickDust s s') : Relation.ReflTransGen (Move anonymity) s s' :=
  h.mono fun _ _ h => .inl (.inr ⟨h0, h⟩)

theorem pick_moves {anonymity : Nat} {s s' : Selection}
    (h : Relation.ReflTransGen (Pick anonymity) s s') :
    Relation.ReflTransGen (Move anonymity) s s' :=
  h.mono fun _ _ h => .inl h

theorem selectDust_spec (T : Amount) (anonymity count : Nat) {s : Selection} (hs : s.Shape) :
    ∃ p, selectDust T anonymity count s = some p ∧
      Relation.ReflTransGen (Move anonymity) s p.1 ∧ p.1.Shape := by
  unfold selectDust
  split_ifs with h0
  · obtain ⟨s₁, e₁, m, hs₁⟩ := takeLargeDust_spec T hs
    obtain ⟨p, e₂, m', hp⟩ := fillDust_spec T count hs₁
    exact ⟨p, by rw [e₁, Option.some_bind, e₂], pickDust_moves h0 (m.trans m'), hp⟩
  · exact ⟨(s, count), rfl, .refl, hs⟩

theorem takeLargeCoin_spec (max_digit : Nat) (T : Amount) {s : Selection} (hs : s.Shape) :
    ∃ s', takeLargeCoin max_digit T s = some s' ∧ Relation.ReflTransGen PickHave s s' ∧
      s'.Shape := by
  unfold takeLargeCoin
  split
  · exact ⟨s, rfl, .refl, hs⟩
  · rename_i d l hf
    obtain ⟨inner, st, hd, hl, -⟩ := findLargeCoin_spec hf
    obtain ⟨s', e⟩ := Option.ne_none_iff_exists'.mp (takeHave_ne_none hs hd hl)
    exact ⟨s', e, .single (takeHave_pick e), takeHave_shape hs e⟩

/-! ### The optimization budget

Phases 1 and 2 spend `optimization_count`: the dust fill one unit per coin, the stack
optimization ten units a round, and only the large dust coin of phase 1 comes free. -/

theorem takeDust_count {s s' : Selection} {a : Nat} (h : s.takeDust a = some s') :
    s'.optimization_unspents.length = s.optimization_unspents.length + 1 ∧
      s'.have_coins = s.have_coins := by
  obtain ⟨_, _, -, rfl⟩ := takeDust_eq_some h
  simp

theorem popStack_count {s s' : Selection} {d l : Nat} (h : s.popStack d l = some s') :
    s'.optimization_unspents.length = s.optimization_unspents.length + 1 ∧
      s'.dust_coins = s.dust_coins := by
  obtain ⟨_, _, _, -, -, rfl⟩ := popStack_eq_some h
  simp

theorem takeLargeDust_count {T : Amount} {s s' : Selection} (h : s.takeLargeDust T = some s') :
    s'.optimization_unspents.length ≤ s.optimization_unspents.length + 1 ∧
      s'.have_coins = s.have_coins := by
  unfold takeLargeDust at h
  split_ifs at h
  · split at h
    · cases h; simp
    · obtain ⟨hc, he⟩ := takeDust_count h
      exact ⟨hc.le, he⟩
  · cases h; simp

/-- The dust fill spends one unit of its budget per coin and returns the rest. -/
theorem fillDust_count (T : Amount) : ∀ (n : Nat) {s s' : Selection} {r : Nat},
    fillDust T n s = some (s', r) →
    s'.optimization_unspents.length + r = s.optimization_unspents.length + n ∧
      s'.have_coins = s.have_coins
  | 0, _, _, _, h => by cases h; simp
  | n + 1, s, s', r, h => by
    unfold fillDust at h
    split_ifs at h
    · split at h
      · cases h
      · obtain ⟨s₁, h₁, h₂⟩ := Option.bind_eq_some.mp h
        obtain ⟨c₁, e₁⟩ := takeDust_count h₁
        obtain ⟨c₂, e₂⟩ := fillDust_count T n h₂
        exact ⟨by omega, e₂.trans e₁⟩
    · cases h; simp

theorem popN_count (d l : Nat) : ∀ (n : Nat) {s s' : Selection}, popN d l n s = some s' →
    s'.optimization_unspents.length = s.optimization_unspents.length + n ∧
      s'.dust_coins = s.dust_coins
  | 0, _, _, h => by cases h; simp
  | n + 1, s, s', h => by
    rw [popN] at h
    obtain ⟨s₁, h₁, h₂⟩ := Option.bind_eq_some.mp h
    obtain ⟨c₁, e₁⟩ := popStack_count h₁
    obtain ⟨c₂, e₂⟩ := popN_count d l n h₂
    exact ⟨by omega, e₂.trans e₁⟩

/-- The stack optimization takes ten coins a round, within the budget it is given, and no
dust. -/
theorem stackLoop_count (n : Nat) {s s' : Selection} (h : stackLoop n s = some s') :
    ∃ k, s'.optimization_unspents.length = s.optimization_unspents.length + 10 * k ∧
      10 * k ≤ n ∧ s'.dust_coins = s.dust_coins := by
  induction n using Nat.strong_induction_on generalizing s with
  | _ n ih =>
    unfold stackLoop at h
    split at h
    · split at h
      · cases h; exact ⟨0, rfl, by omega, rfl⟩
      · rename_i m _ d l _
        obtain ⟨s₁, h₁, h₂⟩ := Option.bind_eq_some.mp h
        obtain ⟨c₁, e₁⟩ := popN_count d l 10 h₁
        obtain ⟨k, c₂, hk, e₂⟩ := ih m (by omega) h₂
        exact ⟨k + 1, by omega, by omega, e₂.trans e₁⟩
    · cases h; exact ⟨0, rfl, by omega, rfl⟩

theorem selectDust_count {T : Amount} {anonymity count : Nat} {s s₁ : Selection} {rest : Nat}
    (h : selectDust T anonymity count s = some (s₁, rest)) :
    s₁.optimization_unspents.length + rest ≤
      s.optimization_unspents.length + count + (if anonymity = 0 then 1 else 0) ∧
    s₁.have_coins = s.have_coins ∧ (anonymity ≠ 0 → s₁ = s) := by
  unfold selectDust at h
  split_ifs at h with h0
  · obtain ⟨s', h₁, h₂⟩ := Option.bind_eq_some.mp h
    obtain ⟨c₁, e₁⟩ := takeLargeDust_count h₁
    obtain ⟨c₂, e₂⟩ := fillDust_count T count h₂
    exact ⟨by rw [if_pos h0]; omega, e₂.trans e₁, absurd h0⟩
  · cases h
    exact ⟨by simp, rfl, fun _ => rfl⟩

/-- Phases 1 and 2 of the inner `select_optimal_outputs` keep to the optimization budget.
Phase 1 takes no clean coin, and nothing at all unless `anonymity == 0`; phase 2 takes no
dust, ten coins a round.  Together they add at most `optimization_count` coins to
`m_optimization_unspents`, and one more, the large dust coin, when `anonymity == 0`. -/
theorem optimization_budget {T : Amount} {anonymity optimization_count : Nat}
    {s s₁ s₂ : Selection} {rest : Nat}
    (h₁ : selectDust T anonymity optimization_count s = some (s₁, rest))
    (h₂ : stackLoop rest s₁ = some s₂) :
    s₁.have_coins = s.have_coins ∧ (anonymity ≠ 0 → s₁ = s) ∧
    s₂.dust_coins = s₁.dust_coins ∧
    (∃ k, s₂.optimization_unspents.length = s₁.optimization_unspents.length + 10 * k) ∧
    s₂.optimization_unspents.length ≤
      s.optimization_unspents.length + optimization_count + (if anonymity = 0 then 1 else 0) := by
  obtain ⟨c₁, e₁, ha⟩ := selectDust_count h₁
  obtain ⟨k, c₂, hk, e₂⟩ := stackLoop_count rest h₂
  exact ⟨e₁, ha, e₂, ⟨k, c₂⟩, by omega⟩

/-- Twenty-one clean coins of 1 and dust coins of 13 and 15, before any pick. -/
def budgetDemo : Selection :=
  let coins := createHaveCoins demoCurrency 100 0 100
    ((List.range 21).map (fun i => demoCoin i 1 false) ++ [demoCoin 21 13 true,
      demoCoin 22 15 true])
  ⟨coins.1, coins.2.1, [], 0, 0⟩

/-- With `total_amount = 30`, `anonymity = 0` and a budget of 12, phase 1 takes both dust
coins and phase 2 one round of ten coins of 1. -/
theorem optimization_budget_demo :
    ∃ s₁ rest s₂, selectDust 30 0 12 budgetDemo = some (s₁, rest) ∧
      stackLoop rest s₁ = some s₂ ∧
      s₁.have_coins = budgetDemo.have_coins ∧ (0 ≠ 0 → s₁ = budgetDemo) ∧
      s₂.dust_coins = s₁.dust_coins ∧
      (∃ k, s₂.optimization_unspents.length = s₁.optimization_unspents.length + 10 * k) ∧
      s₂.optimization_unspents.length ≤
        budgetDemo.optimization_unspents.length + 12 + (if 0 = 0 then 1 else 0) :=
  ⟨_, _, _, rfl, rfl, @optimization_budget 30 0 12 budgetDemo _ _ _ rfl rfl⟩

/-! ### The rounding budget

Digit rounding takes at most two clean coins at each position it visits, a pair or a single
coin, so `optimize_amounts` adds at most two inputs per position up to `max_digit`. -/

/-- Picks of clean coins take them out of `have_coins`, in order, and leave the dust. -/
theorem pickHave_taken {s s' : Selection} (h : Relation.ReflTransGen PickHave s s') :
    ∃ p, s'.optimization_unspents = s.optimization_unspents ++ p ∧
      s.have_coins.coins.Perm (p ++ s'.have_coins.coins) ∧ s'.dust_coins = s.dust_coins ∧
      s'.inputs_count = s.inputs_count + p.length := by
  induction h with
  | refl => exact ⟨[], by simp, .refl _, rfl, rfl⟩
  | tail _ hm ih =>
    obtain ⟨p, ho, hp, hd, hi⟩ := ih
    obtain ⟨un, h', hperm, rfl⟩ := hm
    refine ⟨p ++ [un], by simp [ho], ?_, hd, by simp [hi]; omega⟩
    simpa using hp.trans (hperm.append_left p)

theorem takeHave_count {s s' : Selection} {d l : Nat} (h : s.takeHave d l = some s') :
    ∃ un, s'.optimization_unspents = s.optimization_unspents ++ [un] := by
  obtain ⟨_, un, _, -, -, rfl⟩ := takeHave_eq_some h
  exact ⟨un, rfl⟩

theorem optimizeDigit_count {T da : Amount} {d : Nat} {s s' : Selection}
    (h : optimizeDigit T d da s = some s') :
    ∃ picked, s'.optimization_unspents = s.optimization_unspents ++ picked ∧
      picked.length ≤ 2 := by
  unfold optimizeDigit at h
  split at h
  · cases h
    exact ⟨[], by simp, by simp⟩
  · dsimp only at h
    split_ifs at h
    · obtain ⟨s₁, h₁, h₂⟩ := Option.bind_eq_some.mp h
      obtain ⟨u₁, o₁⟩ := takeHave_count h₁
      obtain ⟨u₂, o₂⟩ := takeHave_count h₂
      exact ⟨[u₁, u₂], by simp [o₂, o₁], by simp⟩
    · cases h
      exact ⟨[], by simp, by simp⟩
    · obtain ⟨u, o⟩ := takeHave_count h
      exact ⟨[u], o, by simp⟩
    · cases h
      exact ⟨[], by simp, by simp⟩

theorem optimizeLoop_count {T : Amount} : ∀ {k d : Nat} {da : Amount} {s s' : Selection},
    optimizeLoop T k d da s = some s' →
    ∃ picked, s'.optimization_unspents = s.optimization_unspents ++ picked ∧
      picked.length ≤ 2 * k
  | 0, _, _, _, _, h => by
    cases h
    exact ⟨[], by simp, by simp⟩
  | k + 1, _, _, _, _, h => by
    unfold optimizeLoop at h
    split_ifs at h
    · cases h
      exact ⟨[], by simp, by simp⟩
    · obtain ⟨s₁, h₁, h₂⟩ := Option.bind_eq_some.mp h
      obtain ⟨p₁, o₁, l₁⟩ := optimizeDigit_count h₁
      obtain ⟨p₂, o₂, l₂⟩ := optimizeLoop_count h₂
      exact ⟨p₁ ++ p₂, by rw [o₂, o₁, List.append_assoc], by simp; omega⟩

/-- Digit rounding adds at most two inputs for each position up to `max_digit`, all of
them clean coins taken out of `have_coins`, and leaves the dust alone. -/
theorem optimize_amounts_count (max_digit : Nat) (T : Amount) {s s' : Selection}
    (hs : s.Shape) (h : optimizeAmounts max_digit T s = some s') :
    ∃ picked, s'.optimization_unspents = s.optimization_unspents ++ picked ∧
      picked.length ≤ 2 * (max_digit + 1) ∧
      s'.inputs_count = s.inputs_count + picked.length ∧
      picked.Subperm s.have_coins.coins ∧ s'.dust_coins = s.dust_coins := by
  obtain ⟨picked, ho, hl⟩ := optimizeLoop_count h
  obtain ⟨s'', e, m, -⟩ := optimize_amounts_spec max_digit T hs
  obtain rfl := Option.some_injective _ (e.symm.trans h)
  obtain ⟨p, ho', hp, hd, hi⟩ := pickHave_taken m
  obtain rfl := List.append_cancel_left (ho.symm.trans ho')
  exact ⟨picked, ho, hl, hi, (List.sublist_append_left _ _).subperm.trans hp.symm.subperm, hd⟩

/-- Rounding 32 over clean coins of 1 takes the pair the units digit asks for. -/
theorem optimize_amounts_count_demo :
    budgetDemo.Shape ∧ ∃ s', optimizeAmounts 1 32 budgetDemo = some s' ∧
      ∃ picked, s'.optimization_unspents = budgetDemo.optimization_unspents ++ picked ∧
        picked.length ≤ 2 * (1 + 1) ∧
        s'.inputs_count = budgetDemo.inputs_count + picked.length ∧
        picked.Subperm budgetDemo.have_coins.coins ∧ s'.dust_coins = budgetDemo.dust_coins :=
  have hs : budgetDemo.Shape := create_have_coins_shape _ _ _ _ _
  ⟨hs, _, rfl, optimize_amounts_count 1 32 hs rfl⟩

/-- What the inner selector's answer says about its result: `true` after the target was
reached at some point, with only clean coins taken since (the final digit rounding), and
`false` with the target missed and every map it may draw from empty. -/
def Reported (total_amount : Amount) (anonymity : Nat) (r : Bool × Selection) : Prop :=
  (r.1 = true → ∃ s, total_amount ≤ s.used_total ∧ Relation.ReflTransGen PickHave s r.2) ∧
  (r.1 = false → r.2.used_total < total_amount ∧ r.2.have_coins.isEmpty = true ∧
    (anonymity ≠ 0 ∨ r.2.dust_coins.isEmpty = true))

theorem refill_spec (max_digit : Nat) (T : Amount) (anonymity : Nat) {s : Selection}
    (hs : s.Shape) (hpos : ∀ c ∈ s.held, 0 < c.amount) :
    ∃ r, refill max_digit T anonymity s = some r ∧
      Relation.ReflTransGen (Move anonymity) s r.2 ∧ r.2.Shape ∧ Reported T anonymity r := by
  have hu : Relation.ReflTransGen (Move anonymity) s s.unoptimizeAmounts := .single (.inr rfl)
  have hpos' : ∀ c ∈ s.unoptimizeAmounts.have_coins.coins, 0 < c.amount := fun c hc =>
    hpos c ((held_unoptimize s).subset (by simp [held, hc]))
  obtain ⟨⟨found, r⟩, e, m, hs', htrue, hfalse⟩ :=
    fillLoop_spec T anonymity _ (unoptimize_amounts_shape hs) hpos' le_rfl
  unfold refill
  dsimp only
  rw [e, Option.some_bind]
  cases found
  · exact ⟨(false, r), rfl, hu.trans (pick_moves m), hs', by simp, fun _ => hfalse rfl⟩
  · obtain ⟨r', e', m', hs''⟩ := optimize_amounts_spec max_digit T hs'
    exact ⟨(true, r'), by simp [e'], (hu.trans (pick_moves m)).trans (pickHave_moves m'), hs'',
      fun _ => ⟨r, htrue rfl, m'⟩, by simp⟩

/-- The inner selector always returns, changes the state only by moves, keeps the shape,
and says `true` only with the target reached and `false` only with the target missed and
every map it may draw from empty. -/
theorem select_optimal_outputs_spec (max_digit : Nat) (T : Amount) (anonymity count : Nat)
    {s : Selection} (hs : s.Shape) (hpos : s.Positive) :
    ∃ r, s.selectOptimalOutputs max_digit T anonymity count = some r ∧
      Relation.ReflTransGen (Move anonymity) s r.2 ∧ r.2.Shape ∧ Reported T anonymity r := by
  obtain ⟨⟨s₁, c₁⟩, h₁, m₁, hs₁⟩ := selectDust_spec T anonymity count hs
  obtain ⟨s₂, h₂, m₂, hs₂⟩ := stackLoop_spec c₁ hs₁
  obtain ⟨s₃, h₃, m₃, hs₃⟩ := optimize_amounts_spec max_digit T hs₂
  have m₃' := m₁.trans ((pickHave_moves m₂).trans (pickHave_moves m₃))
  have e₃ : s.selectOptimalOutputs max_digit T anonymity count =
      if s₃.used_total ≥ T then some (true, s₃) else
      (takeLargeCoin max_digit T s₃).bind fun s =>
      if s.used_total ≥ T then some (true, s) else refill max_digit T anonymity s := by
    simp only [selectOptimalOutputs, h₁, h₂, h₃, Option.some_bind]
  rw [e₃]
  by_cases hc₃ : T ≤ s₃.used_total
  · exact ⟨(true, s₃), by simp [hc₃], m₃', hs₃, fun _ => ⟨s₃, hc₃, .refl⟩, by simp⟩
  obtain ⟨s₄, h₄, m₄, hs₄⟩ := takeLargeCoin_spec max_digit T hs₃
  have m₄' := m₃'.trans (pickHave_moves m₄)
  rw [if_neg hc₃, h₄, Option.some_bind]
  by_cases hc₄ : T ≤ s₄.used_total
  · exact ⟨(true, s₄), by simp [hc₄], m₄', hs₄, fun _ => ⟨s₄, hc₄, .refl⟩, by simp⟩
  rw [if_neg hc₄]
  obtain ⟨r, e, m, hr⟩ := refill_spec max_digit T anonymity hs₄
    (fun c hc => hpos c ((moves_held m₄').subset hc))
  exact ⟨r, e, m₄'.trans m, hr⟩

end Selection

end Varcoin
