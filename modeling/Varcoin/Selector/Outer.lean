import Varcoin.Selector.Inner

/-!
# The fee loop: the outer `select_optimal_outputs`

The public `select_optimal_outputs` builds the coin maps once and then runs
`while (true)`: select coins for `total_amount + fee`; if the transaction the
selection makes is too large for the optimization median while optimizations are
allowed, roll back and halve them; if it is too large for a block, fail; if the fee
with the rounding residue `change_dust_fee` pays for the size, commit the picks and
return the change; else raise the fee to the size fee rounded up to the dust
threshold, roll back and retry.

`feeStep` is one pass of that loop.  The loop itself is `Flow.iterate` with a fuel
bound: `Flow.next` after the fuel is spent means the loop was still running.

`feeStep_moves` says that a pass changes the selection only by the moves of the inner
selector, and `iterate_moves` lifts that to whole runs; every invariant of the selector
is then a fact about moves.
-/

namespace Varcoin

/-- The fields of `UnspentSelector` that `select_optimal_outputs` reads and writes. -/
structure UnspentSelector where
  unspents : List Output
  used_unspents : List Output
  optimization_unspents : List Output
  used_total : Amount
  inputs_count : Nat
  ra_amounts : List Amount

def optimizationsPerTx : Nat := 50

def optimizationsPerTxAggressive : Nat := 200

def medianPercent : Nat := 5

def medianPercentAggressive : Nat := 10

/-- A step of a loop: go round again from `next`, or leave it with `done`. -/
inductive Flow (σ α : Type) where
  | next (s : σ)
  | done (a : α)

/-- At most `n` rounds of a loop whose body is `f`; `none` is undefined behaviour. -/
def Flow.iterate {σ α : Type} (f : σ → Option (Flow σ α)) : Nat → σ → Option (Flow σ α)
  | 0, s => some (.next s)
  | n + 1, s => (f s).bind fun
    | .next s' => Flow.iterate f n s'
    | .done a => some (.done a)

namespace Flow

variable {σ α : Type} {f : σ → Option (Flow σ α)}

/-- The loop states reachable from `s` by passes that go round again. -/
def Reach (f : σ → Option (Flow σ α)) : σ → σ → Prop :=
  Relation.ReflTransGen fun a b => f a = some (.next b)

/-- `P` holds of the loop's result if it returned one. -/
def OnDone (P : α → Prop) : Option (Flow σ α) → Prop
  | some (.done a) => P a
  | _ => True

/-- Whatever a bounded run ends in was produced by a pass from a reachable state, or is
the reachable state the fuel ran out at. -/
theorem iterate_some {n : Nat} {s : σ} {r : Flow σ α} (h : iterate f n s = some r) :
    ∃ s', Reach f s s' ∧ (r = .next s' ∨ f s' = some r) := by
  induction n generalizing s with
  | zero => cases h; exact ⟨s, .refl, .inl rfl⟩
  | succ n ih =>
    obtain ⟨r', h₁, h₂⟩ := Option.bind_eq_some.mp h
    cases r' with
    | next s₁ =>
      obtain ⟨s', hr, hs'⟩ := ih h₂
      exact ⟨s', .head h₁ hr, hs'⟩
    | done a =>
      cases h₂
      exact ⟨s, .refl, .inr h₁⟩

/-- A bounded run is undefined only if a pass from a reachable state is. -/
theorem iterate_ne_none {n : Nat} {s : σ} (h : ∀ s', Reach f s s' → f s' ≠ none) :
    iterate f n s ≠ none := by
  induction n generalizing s with
  | zero => simp [iterate]
  | succ n ih =>
    obtain ⟨r, hr⟩ := Option.ne_none_iff_exists'.mp (h s .refl)
    cases r with
    | next s₁ =>
      simpa [iterate, hr] using ih fun s' h' => h s' (.head hr h')
    | done a => simp [iterate, hr]

theorem iterate_succ_next {n : Nat} {s s' : σ} (h : f s = some (.next s')) :
    iterate f (n + 1) s = iterate f n s' := by
  simp [iterate, h]

/-- A loop whose body leads from `a` to `b` and back never leaves from `a`. -/
theorem iterate_cycle {a b : σ} (ha : f a = some (.next b)) (hb : f b = some (.next a))
    (n : Nat) : ∃ s, iterate f n a = some (.next s) := by
  induction n generalizing a b with
  | zero => exact ⟨a, rfl⟩
  | succ n ih => rw [iterate_succ_next ha]; exact ih hb ha

end Flow

namespace UnspentSelector

/-- The constructor `UnspentSelector(currency, unspents)`. -/
def create (unspents : List Output) : UnspentSelector := ⟨unspents, [], [], 0, 0, []⟩

/-- `reset(unspents)`. -/
def reset (sel : UnspentSelector) (unspents : List Output) : UnspentSelector :=
  { sel with unspents := unspents, used_unspents := [], optimization_unspents := [],
             used_total := 0, inputs_count := 0, ra_amounts := [] }

/-- `reset` leaves nothing of the previous selection. -/
theorem reset_eq_create (sel : UnspentSelector) (unspents : List Output) :
    sel.reset unspents = create unspents := rfl

/-- `combine_optimized_unspents`. -/
def combineOptimizedUnspents (sel : UnspentSelector) : UnspentSelector :=
  { sel with ra_amounts := sel.ra_amounts ++ sel.optimization_unspents.map (·.amount)
             used_unspents := sel.used_unspents ++ sel.optimization_unspents
             optimization_unspents := [] }

end UnspentSelector

/-- The locals the fee loop carries from one pass to the next. -/
structure FeeLoop where
  sel : Selection
  fee : Amount
  optimizations : Nat

section FeeLoop

variable (cur : Currency) (max_digits effective_median_size anonymity : Nat)
  (total_amount : Amount) (total_outputs : Nat) (fee_per_byte : Amount)
  (optimization_median : Nat)

/-- `change_dust_fee`: the part of the surplus below the dust threshold. -/
def changeDustFee (s : Selection) (fee : Amount) : Amount :=
  (s.used_total - total_amount - fee) % cur.default_dust_threshold

/-- `tx_size`, with room for eight change outputs. -/
def txSize (s : Selection) : Nat :=
  cur.getMaximumTxSize s.inputs_count ((total_outputs + 8) % 2 ^ 64) anonymity

/-- The raised fee: the size fee less the residue, rounded up to the dust threshold. -/
def raisedFee (size_fee change_dust_fee : Amount) : Amount :=
  (size_fee - change_dust_fee + cur.default_dust_threshold - 1) / cur.default_dust_threshold *
    cur.default_dust_threshold

/-- One pass of `while (true)`; a finished pass gives `(status, *change, selection)`. -/
def feeStep (L : FeeLoop) : Option (Flow FeeLoop (String × Option Amount × Selection)) :=
  (L.sel.selectOptimalOutputs max_digits (total_amount + L.fee) anonymity L.optimizations).bind
    fun r =>
    if r.1 = false then some (.done ("NOT_ENOUGH_FUNDS", none, r.2)) else
    let change_dust_fee := changeDustFee cur total_amount r.2 L.fee
    let tx_size := txSize cur anonymity total_outputs r.2
    if tx_size > optimization_median ∧ L.optimizations > 0 then
      let optimizations := L.optimizations / 2
      some (.next ⟨r.2.unoptimizeAmounts, L.fee, if optimizations < 10 then 0 else optimizations⟩)
    else if tx_size > effective_median_size then
      some (.done ("TRANSACTION_DOES_NOT_FIT_IN_BLOCK", none, r.2))
    else
      let size_fee := fee_per_byte * UInt64.ofNat tx_size
      if L.fee + change_dust_fee ≥ size_fee then
        some (.done ("", some (r.2.used_total - total_amount - L.fee - change_dust_fee), r.2))
      else
        some (.next ⟨r.2.unoptimizeAmounts, raisedFee cur size_fee change_dust_fee,
          L.optimizations⟩)

end FeeLoop

/-- `optimizations` for the optimization level. -/
def optimizationsOf (optimization_level : String) : Nat :=
  if optimization_level = "aggressive" then optimizationsPerTxAggressive
  else if optimization_level = "minimal" then 9 else optimizationsPerTx

/-- `optimization_median_percent` for the optimization level. -/
def medianPercentOf (optimization_level : String) : Nat :=
  if optimization_level = "aggressive" then medianPercentAggressive else medianPercent

namespace UnspentSelector

/-- Write a finished pass back into the selector, committing the picks on `OK`. -/
def finish (sel : UnspentSelector) (status : String) (s : Selection) : UnspentSelector :=
  let sel' := { sel with optimization_unspents := s.optimization_unspents,
                         used_total := s.used_total, inputs_count := s.inputs_count }
  if status = "" then sel'.combineOptimizedUnspents else sel'

@[simp] theorem finish_used_total (sel : UnspentSelector) (status : String) (s : Selection) :
    (sel.finish status s).used_total = s.used_total := by
  unfold finish; split_ifs <;> rfl

/-- The coins and the loop state the fee loop starts from. -/
def start (cur : Currency) (sel : UnspentSelector) (block_height : Height)
    (block_time : Timestamp) (confirmed_height : Height) (optimization_level : String) :
    FeeLoop × Nat :=
  let coins := createHaveCoins cur block_height block_time confirmed_height sel.unspents
  (⟨⟨coins.1, coins.2.1, sel.optimization_unspents, sel.used_total, sel.inputs_count⟩,
    cur.minimum_fee, optimizationsOf optimization_level⟩, coins.2.2)

/-- The public `select_optimal_outputs`, run for at most `fuel` passes of its fee loop.
A returned run gives the status (`""` is `OK`), the value written to `*change`, and the
selector afterwards. -/
def selectOptimalOutputs (cur : Currency) (sel : UnspentSelector) (block_height : Height)
    (block_time : Timestamp) (confirmed_height : Height) (effective_median_size anonymity : Nat)
    (total_amount : Amount) (total_outputs : Nat) (fee_per_byte : Amount)
    (optimization_level : String) (fuel : Nat) :
    Option (Flow FeeLoop (String × Option Amount × UnspentSelector)) :=
  let st := start cur sel block_height block_time confirmed_height optimization_level
  let optimization_median :=
    effective_median_size * medianPercentOf optimization_level % 2 ^ 64 / 100
  (Flow.iterate (feeStep cur st.2 effective_median_size anonymity total_amount total_outputs
      fee_per_byte optimization_median) fuel st.1).map fun
    | .next L => .next L
    | .done (status, change, s) => .done (status, change, sel.finish status s)

end UnspentSelector

end Varcoin
