import Varcoin.Selector.Run

/-!
# The selector over its lifetime

The wallet builds one `UnspentSelector` and may call `reset` and `select_optimal_outputs`
on it any number of times before `add_mixed_inputs` reads `m_used_unspents`.  Two pairs
of records have to agree over that whole lifetime.  `m_ra_amounts` is what the wallet asks
the node for mixins with, and `add_mixed_inputs` looks the amount of each coin of
`m_used_unspents` up in the node's answer.  `m_used_total` and `m_inputs_count` are what
the fee loop prices, and they have to describe the coins picked since the last `reset`.

The inner selector changes a selection by four operations only (`Op`): a pick from a
clean stack, a pick from a dust stack, a pop through `best_stack`, and the rollback
`unoptimize_amounts`.  Every phase, and so every pass of the fee loop, is a run of them,
whatever the coins are (`select_optimal_outputs_ops`, `feeStep_ops`).  Each operation
moves coins between the maps and `m_optimization_unspents` together with their amounts
and their count (`Op.counts`).  So every state that `reset` and returned
`select_optimal_outputs` calls reach from the constructor keeps the records in step
(`reachable_tracked`).  The same runs bound what one call may pick, from any state: the
spendable entries of the whole pool and the picks left from before
(`select_optimal_outputs_draws`).  Since a pass never raises the optimization budget,
"minimal" optimization never reaches the stack phase (`minimal_never_stacks`).
-/

namespace Varcoin

open Relation

namespace Selection

/-- The four changes the inner selector makes to a selection. -/
inductive Op : Selection → Selection → Prop
  | takeHave {s s' : Selection} {d l : Nat} (h : s.takeHave d l = some s') : Op s s'
  | takeDust {s s' : Selection} {a : Nat} (h : s.takeDust a = some s') : Op s s'
  | popStack {s s' : Selection} {d l : Nat} (h : s.popStack d l = some s') : Op s s'
  | unoptimize (s : Selection) : Op s s.unoptimizeAmounts

/-- No operation loses or adds a coin: it moves coins between the maps and
`m_optimization_unspents`. -/
theorem Op.held {s s' : Selection} (h : Op s s') : s'.held.Perm s.held := by
  cases h with
  | takeHave h => exact (takeHave_pick h).held
  | takeDust h => exact (takeDust_pick h).held
  | popStack h => exact (popStack_pick h).held
  | unoptimize => exact held_unoptimize _

theorem ops_held {s s' : Selection} (h : ReflTransGen Op s s') : s'.held.Perm s.held := by
  induction h with
  | refl => exact .refl _
  | tail _ hop ih => exact hop.held.trans ih

/-- One round of the filler takes the top clean coin when it is worth more than the top
dust coin it may take, and the top dust coin otherwise. -/
theorem fillerPick_eq_some {anonymity : Nat} {s s' : Selection}
    (h : fillerPick anonymity s = some s') :
    (∃ d l un, s.have_coins.top? = some (d, l, un) ∧ s.takeHave d l = some s' ∧
      ∀ a du, s.dust_coins.top? = some (a, du) → anonymity = 0 → du.amount < un.amount) ∨
    (∃ a du, s.dust_coins.top? = some (a, du) ∧ s.takeDust a = some s' ∧
      (s.have_coins.isEmpty = false → ∀ d l un, s.have_coins.top? = some (d, l, un) →
        un.amount ≤ if anonymity = 0 then du.amount else 0)) := by
  unfold fillerPick at h
  cases hh : s.have_coins.isEmpty
  · rcases ht : s.have_coins.top? with _ | ⟨d, l, un⟩
    · simp [hh, ht] at h
    rcases hdt : s.dust_coins.top? with _ | ⟨a, du⟩ <;>
      by_cases hdu : anonymity = 0 ∧ s.dust_coins.isEmpty = false <;>
      simp only [hh, ht, hdt, hdu] at h <;> simp at h
    · exact .inl ⟨d, l, un, rfl, h.2, fun _ _ e => by cases e⟩
    · split_ifs at h with hlt
      · exact .inl ⟨d, l, un, rfl, h, fun _ _ e _ => by cases e; exact hlt⟩
      · exact .inr ⟨a, du, rfl, h, fun _ _ _ _ e => by cases e; simpa [hdu.1] using hlt⟩
    · split_ifs at h with hlt
      · refine .inl ⟨d, l, un, rfl, h, fun _ _ _ h0 => absurd ⟨h0, ?_⟩ hdu⟩
        exact StdMap.isEmpty_eq_false_iff.mpr ⟨a, _, (DustCoins.top?_spec hdt).choose_spec⟩
      · refine .inr ⟨a, du, rfl, h, fun _ _ _ _ e => ?_⟩
        cases e
        have : un.amount.toNat = 0 := by simpa [u64_lt_iff] using hlt
        simp [u64_le_iff, this]
  · refine .inr ?_
    rcases hdt : s.dust_coins.top? with _ | ⟨a, du⟩
    · rcases ht : s.have_coins.top? with _ | ⟨d, l, un⟩ <;>
        by_cases hdu : anonymity = 0 ∧ s.dust_coins.isEmpty = false <;> simp [hh, ht, hdt, hdu] at h
    · refine ⟨a, du, rfl, ?_, fun e => absurd e (by simp [hh])⟩
      rcases ht : s.have_coins.top? with _ | ⟨d, l, un⟩ <;>
        by_cases hdu : anonymity = 0 ∧ s.dust_coins.isEmpty = false <;>
        simpa [hh, ht, hdt, hdu, u64_le_iff, u64_lt_iff] using h

/-! ### Every phase is a run of operations -/

section Phases

variable {T : Amount} {s s' : Selection}

theorem takeLargeDust_ops (h : s.takeLargeDust T = some s') : ReflTransGen Op s s' := by
  unfold takeLargeDust at h
  split_ifs at h
  · split at h
    · cases h
      exact .refl
    · exact .single (.takeDust h)
  · cases h
    exact .refl

theorem fillDust_ops : ∀ {n : Nat} {s : Selection} {r : Selection × Nat},
    fillDust T n s = some r → ReflTransGen Op s r.1
  | 0, _, _, h => by cases h; exact .refl
  | n + 1, _, _, h => by
    unfold fillDust at h
    split_ifs at h
    · split at h
      · cases h
      · obtain ⟨s₁, h₁, h₂⟩ := Option.bind_eq_some.mp h
        exact .head (.takeDust h₁) (fillDust_ops h₂)
    · cases h
      exact .refl

theorem selectDust_ops {anonymity count : Nat} {r : Selection × Nat}
    (h : selectDust T anonymity count s = some r) : ReflTransGen Op s r.1 := by
  unfold selectDust at h
  split_ifs at h
  · obtain ⟨s₁, h₁, h₂⟩ := Option.bind_eq_some.mp h
    exact (takeLargeDust_ops h₁).trans (fillDust_ops h₂)
  · cases h
    exact .refl

theorem popN_ops {d l : Nat} : ∀ {n : Nat} {s s' : Selection},
    popN d l n s = some s' → ReflTransGen Op s s'
  | 0, _, _, h => by cases h; exact .refl
  | n + 1, _, _, h => by
    obtain ⟨s₁, h₁, h₂⟩ := Option.bind_eq_some.mp h
    exact .head (.popStack h₁) (popN_ops h₂)

theorem stackLoop_ops {n : Nat} (h : stackLoop n s = some s') : ReflTransGen Op s s' := by
  induction n using Nat.strong_induction_on generalizing s with
  | _ n ih =>
    unfold stackLoop at h
    split at h
    · split at h
      · cases h
        exact .refl
      · obtain ⟨s₁, h₁, h₂⟩ := Option.bind_eq_some.mp h
        exact (popN_ops h₁).trans (ih _ (by omega) h₂)
    · cases h
      exact .refl

theorem optimizeDigit_ops {d : Nat} {da : Amount} (h : optimizeDigit T d da s = some s') :
    ReflTransGen Op s s' := by
  unfold optimizeDigit at h
  split at h
  · cases h
    exact .refl
  · dsimp only at h
    split_ifs at h
    · obtain ⟨s₁, h₁, h₂⟩ := Option.bind_eq_some.mp h
      exact .head (.takeHave h₁) (.single (.takeHave h₂))
    · cases h
      exact .refl
    · exact .single (.takeHave h)
    · cases h
      exact .refl

theorem optimizeLoop_ops : ∀ {k d : Nat} {da : Amount} {s s' : Selection},
    optimizeLoop T k d da s = some s' → ReflTransGen Op s s'
  | 0, _, _, _, _, h => by cases h; exact .refl
  | k + 1, _, _, _, _, h => by
    unfold optimizeLoop at h
    split_ifs at h
    · cases h
      exact .refl
    · obtain ⟨s₁, h₁, h₂⟩ := Option.bind_eq_some.mp h
      exact (optimizeDigit_ops h₁).trans (optimizeLoop_ops h₂)

theorem takeLargeCoin_ops {max_digit : Nat} (h : takeLargeCoin max_digit T s = some s') :
    ReflTransGen Op s s' := by
  unfold takeLargeCoin at h
  split at h
  · cases h
    exact .refl
  · exact .single (.takeHave h)

theorem fillerPick_op {anonymity : Nat} (h : fillerPick anonymity s = some s') : Op s s' := by
  rcases fillerPick_eq_some h with ⟨_, _, _, -, e, -⟩ | ⟨_, _, -, e, -⟩
  · exact .takeHave e
  · exact .takeDust e

theorem fillLoop_ops {anonymity : Nat} : ∀ {fuel : Nat} {s : Selection} {r : Bool × Selection},
    fillLoop T anonymity fuel s = some r → ReflTransGen Op s r.2
  | 0, _, _, h => by
    unfold fillLoop at h
    split_ifs at h <;> cases h <;> exact .refl
  | fuel + 1, _, _, h => by
    unfold fillLoop at h
    split_ifs at h
    · cases h
      exact .refl
    · obtain ⟨s₁, h₁, h₂⟩ := Option.bind_eq_some.mp h
      exact .head (fillerPick_op h₁) (fillLoop_ops h₂)
    · cases h
      exact .refl

theorem refill_ops {max_digit anonymity : Nat} {r : Bool × Selection}
    (h : refill max_digit T anonymity s = some r) : ReflTransGen Op s r.2 := by
  unfold refill at h
  obtain ⟨⟨found, s₅⟩, h₅, h₆⟩ := Option.bind_eq_some.mp h
  have m₅ : ReflTransGen Op s s₅ := .head (.unoptimize s) (fillLoop_ops h₅)
  cases found
  · cases h₆
    exact m₅
  · simp only [if_true, Option.map_eq_some'] at h₆
    obtain ⟨s₆, h₆, rfl⟩ := h₆
    exact m₅.trans (optimizeLoop_ops h₆)

/-- Whatever the inner `select_optimal_outputs` returns, it reached by a run of the four
operations. -/
theorem select_optimal_outputs_ops {max_digit anonymity count : Nat} {r : Bool × Selection}
    (h : s.selectOptimalOutputs max_digit T anonymity count = some r) :
    ReflTransGen Op s r.2 := by
  unfold selectOptimalOutputs at h
  obtain ⟨⟨s₁, c₁⟩, h₁, h⟩ := Option.bind_eq_some.mp h
  obtain ⟨s₂, h₂, h⟩ := Option.bind_eq_some.mp h
  obtain ⟨s₃, h₃, h⟩ := Option.bind_eq_some.mp h
  have m₃ := (selectDust_ops h₁).trans ((stackLoop_ops h₂).trans (optimizeLoop_ops h₃))
  split_ifs at h
  · cases h
    exact m₃
  obtain ⟨s₄, h₄, h⟩ := Option.bind_eq_some.mp h
  have m₄ := m₃.trans (takeLargeCoin_ops h₄)
  split_ifs at h
  · cases h
    exact m₄
  · exact m₄.trans (refill_ops h)

/-- The dust phase spends its budget and never adds to it. -/
theorem fillDust_rest_le : ∀ {n : Nat} {s : Selection} {r : Selection × Nat},
    fillDust T n s = some r → r.2 ≤ n
  | 0, _, _, h => by cases h; exact le_rfl
  | n + 1, _, _, h => by
    unfold fillDust at h
    split_ifs at h
    · split at h
      · cases h
      · obtain ⟨s₁, -, h₂⟩ := Option.bind_eq_some.mp h
        exact (fillDust_rest_le h₂).trans (Nat.le_succ n)
    · cases h
      exact le_rfl

theorem selectDust_rest_le {anonymity count : Nat} {r : Selection × Nat}
    (h : selectDust T anonymity count s = some r) : r.2 ≤ count := by
  unfold selectDust at h
  split_ifs at h
  · obtain ⟨s₁, -, h₂⟩ := Option.bind_eq_some.mp h
    exact fillDust_rest_le h₂
  · cases h
    exact le_rfl

/-- `while (optimization_count >= 10)` does not run on a smaller budget. -/
theorem stackLoop_of_lt {n : Nat} (hn : n < 10) (s : Selection) : stackLoop n s = some s := by
  unfold stackLoop
  split
  · omega
  · rfl

end Phases

/-! ### What the operations count -/

/-- `m_used_total` and `m_inputs_count` are `used_total` and `inputs_count` plus the
amounts and the number of the coins in `m_optimization_unspents`. -/
def Counts (used_total : Amount) (inputs_count : Nat) (s : Selection) : Prop :=
  s.used_total = used_total + (s.optimization_unspents.map (·.amount)).sum ∧
    s.inputs_count = inputs_count + s.optimization_unspents.length

section Counts

variable {u : Amount} {n : Nat} {s s' : Selection}

theorem Counts.push (hc : s.Counts u n) (un : Output) : (s.push un).Counts u n := by
  refine ⟨?_, ?_⟩
  · simp [hc.1, add_assoc]
  · simp [hc.2, Nat.add_assoc]

theorem Counts.unoptimizeAmounts (hc : s.Counts u n) : s.unoptimizeAmounts.Counts u n := by
  obtain ⟨-, -, h₃, h₄, -⟩ := foldl_unoptimizeOne s.optimization_unspents s
  refine ⟨?_, ?_⟩
  · simp [Selection.unoptimizeAmounts, h₃, hc.1]
  · simp [Selection.unoptimizeAmounts, h₄, hc.2]

theorem Op.counts (h : Op s s') (hc : s.Counts u n) : s'.Counts u n := by
  cases h with
  | takeHave h =>
    obtain ⟨_, un, _, -, -, rfl⟩ := takeHave_eq_some h
    exact Counts.push hc un
  | takeDust h =>
    obtain ⟨un, _, -, rfl⟩ := takeDust_eq_some h
    exact Counts.push hc un
  | popStack h =>
    obtain ⟨_, un, _, -, -, rfl⟩ := popStack_eq_some h
    exact Counts.push hc un
  | unoptimize => exact hc.unoptimizeAmounts

theorem ops_counts (h : ReflTransGen Op s s') (hc : s.Counts u n) : s'.Counts u n := by
  induction h with
  | refl => exact hc
  | tail _ hop ih => exact hop.counts ih

end Counts

end Selection

/-! ### The fee loop -/

section FeeLoop

variable (cur : Currency) (max_digits effective_median_size anonymity : Nat)
  (total_amount : Amount) (total_outputs : Nat) (fee_per_byte : Amount)
  (optimization_median : Nat)

/-- A pass of the fee loop is a run of operations, rolled back or not. -/
theorem feeStep_ops {L : FeeLoop} {f : Flow FeeLoop (String × Option Amount × Selection)}
    (h : feeStep cur max_digits effective_median_size anonymity total_amount total_outputs
      fee_per_byte optimization_median L = some f) :
    ReflTransGen Selection.Op L.sel (FeeLoop.after f) := by
  obtain ⟨r, e, ha | ha⟩ := feeStep_after cur max_digits effective_median_size anonymity
    total_amount total_outputs fee_per_byte optimization_median h
  · exact ha ▸ Selection.select_optimal_outputs_ops e
  · exact ha ▸ (Selection.select_optimal_outputs_ops e).tail (.unoptimize r.2)

/-- So is every state the loop goes round to. -/
theorem reach_ops {L₀ L : FeeLoop}
    (h : Flow.Reach (feeStep cur max_digits effective_median_size anonymity total_amount
      total_outputs fee_per_byte optimization_median) L₀ L) :
    ReflTransGen Selection.Op L₀.sel L.sel := by
  induction h with
  | refl => exact .refl
  | tail _ hab ih =>
    exact ih.trans (feeStep_ops cur max_digits effective_median_size anonymity total_amount
      total_outputs fee_per_byte optimization_median hab)

/-- A pass that goes round again never raises the optimization budget: it halves it, or
keeps it when it raises the fee. -/
theorem feeStep_optimizations_le {L L' : FeeLoop}
    (h : feeStep cur max_digits effective_median_size anonymity total_amount total_outputs
      fee_per_byte optimization_median L = some (.next L')) :
    L'.optimizations ≤ L.optimizations := by
  obtain ⟨r, -, h⟩ := Option.bind_eq_some.mp h
  dsimp only at h
  split_ifs at h <;> cases h <;> dsimp only <;> omega

theorem reach_optimizations_le {L₀ L : FeeLoop}
    (h : Flow.Reach (feeStep cur max_digits effective_median_size anonymity total_amount
      total_outputs fee_per_byte optimization_median) L₀ L) :
    L.optimizations ≤ L₀.optimizations := by
  induction h with
  | refl => exact le_rfl
  | tail _ hab ih =>
    exact (feeStep_optimizations_le cur max_digits effective_median_size anonymity
      total_amount total_outputs fee_per_byte optimization_median hab).trans ih

/-- "Minimal" optimization never optimizes a stack of coins: its budget starts at 9 and no
pass raises it, so in every pass of the fee loop the stack phase gives back the selection
the dust phase left. -/
theorem minimal_never_stacks {sel : UnspentSelector} {block_height : Height}
    {block_time : Timestamp} {confirmed_height : Height} {L : FeeLoop}
    (hr : Flow.Reach (feeStep cur max_digits effective_median_size anonymity total_amount
      total_outputs fee_per_byte optimization_median)
      (UnspentSelector.start cur sel block_height block_time confirmed_height "minimal").1 L)
    {p : Selection × Nat}
    (hd : Selection.selectDust (total_amount + L.fee) anonymity L.optimizations L.sel = some p) :
    Selection.stackLoop p.2 p.1 = some p.1 := by
  have h₁ := reach_optimizations_le cur max_digits effective_median_size anonymity
    total_amount total_outputs fee_per_byte optimization_median hr
  have h₂ := Selection.selectDust_rest_le hd
  have h₃ : (UnspentSelector.start cur sel block_height block_time confirmed_height
      "minimal").1.optimizations = 9 := rfl
  exact Selection.stackLoop_of_lt (by omega) _

/-- Twenty-one clean coins of 1: one stack above `STACK_OPTIMIZATION_THRESHOLD`. -/
def stackPool : List Output := (List.range 21).map fun i => demoCoin i 1 false

/-- The stack of twenty-one coins is one the stack phase takes ten coins from; under
"minimal" it takes none. -/
theorem minimal_never_stacks_demo :
    ∃ p, Selection.selectDust (30 + (UnspentSelector.start demoCurrency
        (UnspentSelector.create stackPool) 100 0 100 "minimal").1.fee) 0
        (UnspentSelector.start demoCurrency (UnspentSelector.create stackPool) 100 0 100
          "minimal").1.optimizations
        (UnspentSelector.start demoCurrency (UnspentSelector.create stackPool) 100 0 100
          "minimal").1.sel = some p ∧
      Selection.stackLoop p.2 p.1 = some p.1 :=
  ⟨_, rfl, @minimal_never_stacks demoCurrency 0 100000 0 30 1 1 5000
    (UnspentSelector.create stackPool) 100 0 100 _ .refl _ rfl⟩

end FeeLoop

/-! ### Calls on the selector -/

namespace UnspentSelector

/-- Every answer of `select_optimal_outputs`, from any selector state, commits on `OK` or
leaves picked otherwise coins drawn, with multiplicity, from the spendable entries of the
whole pool together with the picks the selector held uncommitted before the call:
`create_have_coins` rebuilds the maps from all of `m_unspents`, including the coins already
in `m_used_unspents`, and the rollback returns the old picks to them. -/
theorem select_optimal_outputs_draws (cur : Currency) (sel : UnspentSelector)
    (block_height : Height) (block_time : Timestamp) (confirmed_height : Height)
    (effective_median_size anonymity : Nat) (total_amount : Amount) (total_outputs : Nat)
    (fee_per_byte : Amount) (optimization_level : String) (fuel : Nat) :
    Flow.OnDone (fun r => ∃ picked, picked.Subperm
        (sel.unspents.filter (spendable cur block_height block_time confirmed_height) ++
          sel.optimization_unspents) ∧
        (r.1 = "" ∧ r.2.2.used_unspents = sel.used_unspents ++ picked ∧
            r.2.2.optimization_unspents = [] ∨
          r.1 ≠ "" ∧ r.2.2.used_unspents = sel.used_unspents ∧
            r.2.2.optimization_unspents = picked))
      (sel.selectOptimalOutputs cur block_height block_time confirmed_height
        effective_median_size anonymity total_amount total_outputs fee_per_byte
        optimization_level fuel) :=
  onDone_select_optimal_outputs _ _ _ _ _ _ _ _ _ _ _ _ fun _ status _ s hr hf => by
    have hheld := (Selection.ops_held ((reach_ops _ _ _ _ _ _ _ _ hr).trans
      (feeStep_ops _ _ _ _ _ _ _ _ hf))).trans (start_held ..)
    refine ⟨s.optimization_unspents,
      (List.sublist_append_right _ _).subperm.trans hheld.subperm, ?_⟩
    unfold UnspentSelector.finish
    split_ifs with hst
    · exact .inl ⟨hst, rfl, rfl⟩
    · exact .inr ⟨hst, rfl, rfl⟩

/-- The selector's records agree with the coins it picked since the last `reset`:
`m_ra_amounts` lists the amounts of `m_used_unspents`, and `m_used_total` and
`m_inputs_count` are the sum and the number of the committed coins and of the picks not
yet committed. -/
structure Tracked (sel : UnspentSelector) : Prop where
  ra_amounts : sel.ra_amounts = sel.used_unspents.map (·.amount)
  used_total : sel.used_total =
    ((sel.used_unspents ++ sel.optimization_unspents).map (·.amount)).sum
  inputs_count : sel.inputs_count = (sel.used_unspents ++ sel.optimization_unspents).length

/-- A call on the selector that returns: `reset`, or a `select_optimal_outputs` that
answered, whatever its arguments and its answer. -/
inductive Step (cur : Currency) : UnspentSelector → UnspentSelector → Prop
  | reset (sel : UnspentSelector) (unspents : List Output) : Step cur sel (sel.reset unspents)
  | select {sel sel' : UnspentSelector} {block_height : Height} {block_time : Timestamp}
      {confirmed_height : Height} {effective_median_size anonymity : Nat}
      {total_amount : Amount} {total_outputs : Nat} {fee_per_byte : Amount}
      {optimization_level : String} {fuel : Nat} {status : String} {change : Option Amount}
      (h : sel.selectOptimalOutputs cur block_height block_time confirmed_height
        effective_median_size anonymity total_amount total_outputs fee_per_byte
        optimization_level fuel = some (.done (status, change, sel'))) : Step cur sel sel'

section Tracked

variable {cur : Currency} {sel sel' : UnspentSelector}

theorem tracked_create (unspents : List Output) : (create unspents).Tracked := ⟨rfl, rfl, rfl⟩

/-- The fee loop starts from the selector's own records. -/
theorem Tracked.start (ht : sel.Tracked) (block_height : Height) (block_time : Timestamp)
    (confirmed_height : Height) (optimization_level : String) :
    (start cur sel block_height block_time confirmed_height optimization_level).1.sel.Counts
      (sel.used_unspents.map (·.amount)).sum sel.used_unspents.length :=
  ⟨by simp [UnspentSelector.start, ht.used_total], by simp [UnspentSelector.start, ht.inputs_count]⟩

/-- Writing a pass back keeps the records in step, whether it commits the picks or not. -/
theorem Tracked.finish (ht : sel.Tracked) {s : Selection}
    (hc : s.Counts (sel.used_unspents.map (·.amount)).sum sel.used_unspents.length)
    (status : String) : (sel.finish status s).Tracked := by
  unfold UnspentSelector.finish
  split_ifs
  · exact ⟨by simp [combineOptimizedUnspents, ht.ra_amounts],
      by simp [combineOptimizedUnspents, hc.1], by simp [combineOptimizedUnspents, hc.2]⟩
  · exact ⟨ht.ra_amounts, by simp [hc.1], by simp [hc.2]⟩

/-- A `select_optimal_outputs` call that answers keeps the records in step. -/
theorem Tracked.selectOptimalOutputs (ht : sel.Tracked) {block_height : Height}
    {block_time : Timestamp} {confirmed_height : Height} {effective_median_size anonymity : Nat}
    {total_amount : Amount} {total_outputs : Nat} {fee_per_byte : Amount}
    {optimization_level : String} {fuel : Nat} {status : String} {change : Option Amount}
    (h : sel.selectOptimalOutputs cur block_height block_time confirmed_height
      effective_median_size anonymity total_amount total_outputs fee_per_byte
      optimization_level fuel = some (.done (status, change, sel'))) : sel'.Tracked := by
  have hd := onDone_select_optimal_outputs (P := fun r => r.2.2.Tracked) cur sel block_height
    block_time confirmed_height effective_median_size anonymity total_amount total_outputs
    fee_per_byte optimization_level fuel fun _ status _ _ hr hf =>
      ht.finish (Selection.ops_counts ((reach_ops _ _ _ _ _ _ _ _ hr).trans
        (feeStep_ops _ _ _ _ _ _ _ _ hf)) (ht.start ..)) status
  rw [h] at hd
  exact hd

theorem Tracked.step (ht : sel.Tracked) (h : Step cur sel sel') : sel'.Tracked := by
  cases h with
  | reset unspents => exact tracked_create unspents
  | select h => exact ht.selectOptimalOutputs h

/-- Over any sequence of `reset` and `select_optimal_outputs` calls from the constructor,
`m_ra_amounts` lists the amounts of `m_used_unspents` in order, so the mixins the wallet
asks for are the ones `add_mixed_inputs` looks up; and `m_used_total` and
`m_inputs_count` are the sum and the number of the coins committed since the last `reset`
and of the picks left uncommitted. -/
theorem reachable_tracked {unspents : List Output}
    (h : ReflTransGen (Step cur) (create unspents) sel) :
    sel.ra_amounts = sel.used_unspents.map (·.amount) ∧
      sel.used_total = ((sel.used_unspents ++ sel.optimization_unspents).map (·.amount)).sum ∧
      sel.inputs_count = (sel.used_unspents ++ sel.optimization_unspents).length := by
  have ht : sel.Tracked := by
    induction h with
    | refl => exact tracked_create unspents
    | tail _ hs ih => exact ih.step hs
  exact ⟨ht.ra_amounts, ht.used_total, ht.inputs_count⟩

end Tracked

/-- One clean coin of 1000. -/
def sessionPool : List Output := [demoCoin 0 1000 false]

/-- Paying 100 and then 1500 with no `reset` between: the second call files the committed
coin again and commits it a second time, and the records still agree with
`m_used_unspents`. -/
theorem reachable_tracked_demo :
    ∃ ch₁ sel₁ ch₂ sel₂,
      (create sessionPool).selectOptimalOutputs demoCurrency 100 0 100 100000 1 100 0 0 ""
        20 = some (.done ("", ch₁, sel₁)) ∧
      sel₁.selectOptimalOutputs demoCurrency 100 0 100 100000 1 1500 0 0 "" 20 =
        some (.done ("", ch₂, sel₂)) ∧
      sel₂.used_unspents = [demoCoin 0 1000 false, demoCoin 0 1000 false] ∧
      sel₂.ra_amounts = sel₂.used_unspents.map (·.amount) ∧
      sel₂.used_total = ((sel₂.used_unspents ++ sel₂.optimization_unspents).map (·.amount)).sum ∧
      sel₂.inputs_count = (sel₂.used_unspents ++ sel₂.optimization_unspents).length :=
  ⟨_, _, _, _, rfl, rfl, rfl, @reachable_tracked demoCurrency _ sessionPool (.tail
    (.single (@Step.select demoCurrency _ _ 100 0 100 100000 1 100 0 0 "" 20 _ _ rfl))
    (@Step.select demoCurrency _ _ 100 0 100 100000 1 1500 0 0 "" 20 _ _ rfl))⟩

end UnspentSelector

end Varcoin
