import Varcoin.Selector.Cover
import Varcoin.Selector.Session

/-!
# The coin maps file every coin by its value

`create_have_coins` files a clean coin under its decimal position and its leading digit,
and a dust coin under its amount.  The code then reads values off those keys: the refill
loop takes `back()` of the last stack of the last digit as the largest clean coin, and
the search for one large coin reads `ait->first * digit_amount` as the value of a stack.
Both readings are right when the maps are graded (`Selection.Graded`): every clean coin
filed under `[d][l]` is worth `l * 10^d` with `0 < l < 10`, every dust coin sits under its
own amount, and no map or stack is empty.

The picks only take coins out of stacks, so they keep the maps graded.  The rollback
`unoptimize_amounts` files a coin by its own `dust` field, not by `Currency::is_dust`, so
it keeps them graded only when every coin whose field is clear is round
(`Selection.RoundFlags`).  Every pass of the fee loop is a run of those operations
(`Selection.Op`), and each keeps the maps filed (`Op.filed`).  Hence, on a pool whose
clean coins and whose coins not flagged as dust are round, every state of the fee loop
has graded maps (`fresh_reach_graded`).
-/

namespace Varcoin

/-- A coin worth one nonzero decimal digit times a power of ten, read as
`create_have_coins` reads it. -/
def Output.IsRound (c : Output) : Prop :=
  0 < c.amount ∧ c.amount.toNat = (decompose c.amount).2 * 10 ^ (decompose c.amount).1

instance (c : Output) : Decidable c.IsRound := inferInstanceAs (Decidable (_ ∧ _))

/-- Every dust coin sits in the stack of its own amount. -/
def DustCoins.Keyed (m : DustCoins) : Prop :=
  ∀ a st c, m.find? a = some st → c ∈ st → c.amount.toNat = a

/-- Every leading digit of the clean map is a nonzero decimal digit. -/
def HaveCoins.Leading (h : HaveCoins) : Prop :=
  ∀ d inner l st, h.find? d = some inner → inner.find? l = some st → 0 < l ∧ l < 10

/-- Every stack of `h'` lies, coin by coin, in the stack of `h` under the same keys. -/
def HaveCoins.Within (h' h : HaveCoins) : Prop :=
  ∀ d inner' l st', h'.find? d = some inner' → inner'.find? l = some st' →
    ∃ inner st, h.find? d = some inner ∧ inner.find? l = some st ∧ st' ⊆ st

/-- Every stack of `m'` lies, coin by coin, in the stack of `m` under the same amount. -/
def DustCoins.Within (m' m : DustCoins) : Prop :=
  ∀ a st', m'.find? a = some st' → ∃ st, m.find? a = some st ∧ st' ⊆ st

namespace Selection

/-- The maps file every coin by its value: a clean coin worth `l * 10^d` with
`0 < l < 10` under `[d][l]`, a dust coin under its amount. -/
structure Filed (s : Selection) : Prop where
  denominated : s.have_coins.Denominated
  leading : s.have_coins.Leading
  keyed : s.dust_coins.Keyed

/-- Filed maps with no empty map or stack. -/
structure Graded (s : Selection) : Prop where
  shape : s.Shape
  filed : s.Filed

/-- Every coin the selection holds whose `dust` field is clear is round, so the rollback,
which files by that field, files it at its value. -/
def RoundFlags (s : Selection) : Prop := ∀ c ∈ s.held, c.dust = false → c.IsRound

end Selection

/-! ### Filing -/

/-- The loop `while (am > 9)` stops at a decimal digit when it may run a round per unit. -/
theorem digitLoop_lt : ∀ (fuel digit am : Nat), am ≤ fuel → (digitLoop fuel digit am).2 < 10
  | 0, _, _, h => by simp only [digitLoop]; omega
  | fuel + 1, digit, am, h => by
    unfold digitLoop
    split_ifs with h9
    · exact digitLoop_lt fuel _ _ (by omega)
    · simp only; omega

theorem decompose_lt (am : Amount) : (decompose am).2 < 10 := digitLoop_lt _ _ _ le_rfl

theorem Output.IsRound.leading_pos {c : Output} (hc : c.IsRound) : 0 < (decompose c.amount).2 := by
  have hpos := hc.1
  rw [u64_lt_iff, hc.2] at hpos
  exact Nat.pos_of_mul_pos_right hpos

/-- A coin pushed with a nonzero leading digit keeps the leading digits decimal. -/
theorem HaveCoins.Leading.push {h : HaveCoins} (hlead : h.Leading) {un : Output}
    (hun : 0 < (decompose un.amount).2) : (h.push un).Leading := by
  intro d inner l st hd hl
  simp only [HaveCoins.push, StdMap.modify, StdMap.find?_insert] at hd
  split_ifs at hd with h₁
  · subst h₁
    obtain rfl := Option.some.inj hd
    simp only [StdMap.find?_insert] at hl
    split_ifs at hl with h₂
    · exact h₂ ▸ ⟨hun, decompose_lt _⟩
    · cases hd' : h.find? (decompose un.amount).1 <;> simp only [hd', Option.getD] at hl
      · cases hl
      · exact hlead _ _ _ _ hd' hl
  · exact hlead _ _ _ _ hd hl

theorem DustCoins.Keyed.push {m : DustCoins} (hkey : m.Keyed) (un : Output) :
    (m.push un).Keyed := by
  intro a st c ha hc
  simp only [DustCoins.push, StdMap.modify, StdMap.find?_insert] at ha
  split_ifs at ha with h₁
  · subst h₁
    obtain rfl := Option.some.inj ha
    rcases List.mem_cons.mp hc with rfl | hc
    · rfl
    · cases ha' : m.find? un.amount.toNat <;> simp only [ha', Option.getD] at hc
      · cases hc
      · exact hkey _ _ c ha' hc
  · exact hkey _ _ c ha hc

section Fill

variable (cur : Currency) (block_height : Height) (block_time : Timestamp)
  (confirmed_height : Height)

theorem create_have_coins_leading (l : List Output)
    (hround : ∀ c ∈ l, cur.isDust c.amount = false → c.IsRound) :
    (createHaveCoins cur block_height block_time confirmed_height l).1.Leading := by
  induction l with
  | nil => intro d inner l st hd; cases hd
  | cons un l ih =>
    have ih' := ih fun c hc => hround c (List.mem_cons_of_mem _ hc)
    rw [create_have_coins_cons]
    split_ifs with _ hd
    · exact ih'
    · exact ih'.push (hround un (List.mem_cons_self _ _) (by simpa using hd)).leading_pos
    · exact ih'

theorem create_have_coins_keyed (l : List Output) :
    (createHaveCoins cur block_height block_time confirmed_height l).2.1.Keyed := by
  induction l with
  | nil => intro a st c ha; cases ha
  | cons un l ih =>
    rw [create_have_coins_cons]
    split_ifs
    · exact ih.push un
    · exact ih
    · exact ih

/-- `create_have_coins` grades its maps when every clean coin is round. -/
theorem create_have_coins_graded (l : List Output)
    (hround : ∀ c ∈ l, cur.isDust c.amount = false → c.IsRound)
    (optimization_unspents : List Output) (used_total : Amount) (inputs_count : Nat) :
    let r := createHaveCoins cur block_height block_time confirmed_height l
    Selection.Graded ⟨r.1, r.2.1, optimization_unspents, used_total, inputs_count⟩ :=
  ⟨create_have_coins_shape cur block_height block_time confirmed_height l,
    create_have_coins_denominated cur _ _ _ l fun c hc hd => (hround c hc hd).2,
    create_have_coins_leading cur _ _ _ l hround, create_have_coins_keyed cur _ _ _ l⟩

end Fill

/-! ### The picks only take coins out -/

theorem HaveCoins.Within.refl (h : HaveCoins) : h.Within h :=
  fun _ inner _ st hd hl => ⟨inner, st, hd, hl, fun _ => id⟩

theorem DustCoins.Within.refl (m : DustCoins) : m.Within m := fun _ st ha => ⟨st, ha, fun _ => id⟩

namespace Selection

theorem Filed.of_within {s s' : Selection} (hf : s.Filed)
    (hh : s'.have_coins.Within s.have_coins) (hd : s'.dust_coins.Within s.dust_coins) :
    s'.Filed where
  denominated d inner' l st' c hd' hl' hc :=
    let ⟨inner, st, h₁, h₂, hsub⟩ := hh d inner' l st' hd' hl'
    hf.denominated d inner l st c h₁ h₂ (hsub hc)
  leading d inner' l st' hd' hl' :=
    let ⟨inner, st, h₁, h₂, _⟩ := hh d inner' l st' hd' hl'
    hf.leading d inner l st h₁ h₂
  keyed a st' c ha hc :=
    let ⟨st, h₁, hsub⟩ := hd a st' ha
    hf.keyed a st c h₁ (hsub hc)

theorem takeHave_within {s s' : Selection} {d l : Nat} (h : s.takeHave d l = some s') :
    s'.have_coins.Within s.have_coins ∧ s'.dust_coins = s.dust_coins := by
  obtain ⟨inner, un, rest, hd, hl, rfl⟩ := takeHave_eq_some h
  refine ⟨fun d' inner' l' st' hd' hl' => ?_, rfl⟩
  rcases HaveCoins.shrink_find? hd' with ⟨rfl, rfl⟩ | hd'
  · rcases stackShrink_find? hl' with ⟨rfl, rfl⟩ | hl'
    · exact ⟨inner, _, hd, hl, List.subset_cons_self _ _⟩
    · exact ⟨inner, st', hd, hl', fun _ => id⟩
  · exact ⟨inner', st', hd', hl', fun _ => id⟩

theorem popStack_within {s s' : Selection} {d l : Nat} (h : s.popStack d l = some s') :
    s'.have_coins.Within s.have_coins ∧ s'.dust_coins = s.dust_coins := by
  obtain ⟨inner, un, rest, hd, hl, rfl⟩ := popStack_eq_some h
  refine ⟨fun d' inner' l' st' hd' hl' => ?_, rfl⟩
  simp only [push_have_coins, StdMap.find?_insert] at hd'
  split_ifs at hd' with h₁
  · subst h₁
    cases hd'
    simp only [StdMap.find?_insert] at hl'
    split_ifs at hl' with h₂
    · subst h₂
      cases hl'
      exact ⟨inner, _, hd, hl, List.subset_cons_self _ _⟩
    · exact ⟨inner, st', hd, hl', fun _ => id⟩
  · exact ⟨inner', st', hd', hl', fun _ => id⟩

theorem takeDust_within {s s' : Selection} {a : Nat} (h : s.takeDust a = some s') :
    s'.have_coins = s.have_coins ∧ s'.dust_coins.Within s.dust_coins := by
  obtain ⟨un, rest, ha, rfl⟩ := takeDust_eq_some h
  refine ⟨rfl, fun a' st' ha' => ?_⟩
  rcases stackShrink_find? ha' with ⟨rfl, rfl⟩ | ha'
  · exact ⟨_, ha, List.subset_cons_self _ _⟩
  · exact ⟨st', ha', fun _ => id⟩

theorem Filed.takeHave {s s' : Selection} {d l : Nat} (hf : s.Filed)
    (h : s.takeHave d l = some s') : s'.Filed :=
  let ⟨hh, hd⟩ := takeHave_within h
  hf.of_within hh (hd ▸ DustCoins.Within.refl _)

theorem Filed.popStack {s s' : Selection} {d l : Nat} (hf : s.Filed)
    (h : s.popStack d l = some s') : s'.Filed :=
  let ⟨hh, hd⟩ := popStack_within h
  hf.of_within hh (hd ▸ DustCoins.Within.refl _)

theorem Filed.takeDust {s s' : Selection} {a : Nat} (hf : s.Filed)
    (h : s.takeDust a = some s') : s'.Filed :=
  let ⟨hh, hd⟩ := takeDust_within h
  hf.of_within (hh ▸ HaveCoins.Within.refl _) hd

theorem Graded.takeHave {s s' : Selection} {d l : Nat} (hg : s.Graded)
    (h : s.takeHave d l = some s') : s'.Graded :=
  ⟨takeHave_shape hg.shape h, hg.filed.takeHave h⟩

theorem Graded.takeDust {s s' : Selection} {a : Nat} (hg : s.Graded)
    (h : s.takeDust a = some s') : s'.Graded :=
  ⟨takeDust_shape hg.shape h, hg.filed.takeDust h⟩

/-! ### The rollback -/

theorem Filed.unoptimizeOne {t : Selection} (hf : t.Filed) {un : Output}
    (hun : un.dust = false → un.IsRound) : (t.unoptimizeOne un).Filed := by
  unfold Selection.unoptimizeOne
  cases hd : un.dust
  · have hr := hun hd
    exact ⟨hf.denominated.push hr.2, hf.leading.push hr.leading_pos, hf.keyed⟩
  · exact ⟨hf.denominated, hf.leading, hf.keyed.push un⟩

theorem Filed.foldl_unoptimizeOne :
    ∀ (l : List Output) {t : Selection}, t.Filed → (∀ c ∈ l, c.dust = false → c.IsRound) →
      (l.foldl Selection.unoptimizeOne t).Filed
  | [], _, hf, _ => hf
  | un :: l, _, hf, hl => Filed.foldl_unoptimizeOne l
      (hf.unoptimizeOne (hl un (List.mem_cons_self _ _))) fun c hc =>
        hl c (List.mem_cons_of_mem _ hc)

/-- The rollback keeps the maps filed when every coin it returns with a clear `dust`
field is round. -/
theorem Filed.unoptimizeAmounts {s : Selection} (hf : s.Filed)
    (hflags : ∀ c ∈ s.optimization_unspents, c.dust = false → c.IsRound) :
    s.unoptimizeAmounts.Filed :=
  let hf' := Filed.foldl_unoptimizeOne s.optimization_unspents hf hflags
  ⟨hf'.denominated, hf'.leading, hf'.keyed⟩

/-! ### Runs of operations -/

/-- Each operation of the inner selector keeps the maps filed and the coins held, so
their flags stay round. -/
theorem Op.filed {s s' : Selection} (h : Op s s') (hf : s.Filed) (hflags : s.RoundFlags) :
    s'.Filed ∧ s'.RoundFlags := by
  refine ⟨?_, fun c hc => hflags c (h.held.subset hc)⟩
  cases h with
  | takeHave h => exact hf.takeHave h
  | takeDust h => exact hf.takeDust h
  | popStack h => exact hf.popStack h
  | unoptimize => exact hf.unoptimizeAmounts fun c hc => hflags c (by simp [Selection.held, hc])

theorem ops_filed {s s' : Selection} (h : Relation.ReflTransGen Op s s') (hf : s.Filed)
    (hflags : s.RoundFlags) : s'.Filed ∧ s'.RoundFlags := by
  induction h with
  | refl => exact ⟨hf, hflags⟩
  | tail _ hop ih => exact hop.filed ih.1 ih.2

end Selection

/-! ### Whole runs -/

open Selection

namespace UnspentSelector

section FreshRun

variable {cur : Currency} {unspents : List Output} {block_height : Height}
  {block_time : Timestamp} {confirmed_height : Height} {optimization_level : String}
  {anonymity max_digits effective_median_size : Nat} {total_amount : Amount}
  {total_outputs : Nat} {fee_per_byte : Amount} {optimization_median : Nat} {L : FeeLoop}

/-- Every state of a run from a fresh selector, over a pool of positive coins whose clean
coins and whose coins not flagged as dust are round, has graded maps, and so has the
selection each pass leaves. -/
theorem fresh_reach_graded (hpos : ∀ c ∈ unspents, 0 < c.amount)
    (hround : ∀ c ∈ unspents, cur.isDust c.amount = false ∨ c.dust = false → c.IsRound)
    (hr : Flow.Reach (feeStep cur max_digits effective_median_size anonymity total_amount
      total_outputs fee_per_byte optimization_median)
      (start cur (create unspents) block_height block_time confirmed_height
        optimization_level).1 L) :
    L.sel.Graded ∧ ∀ f, feeStep cur max_digits effective_median_size anonymity total_amount
      total_outputs fee_per_byte optimization_median L = some f → (FeeLoop.after f).Graded := by
  -- the loop starts on the maps `create_have_coins` filed, holding entries of the pool
  have h₀ : (start cur (create unspents) block_height block_time confirmed_height
      optimization_level).1.sel.Filed ∧ (start cur (create unspents) block_height block_time
      confirmed_height optimization_level).1.sel.RoundFlags :=
    ⟨(create_have_coins_graded cur block_height block_time confirmed_height unspents
      (fun c hc hd => hround c hc (.inl hd)) [] 0 0).filed, fun c hc hd => by
        have := (start_held cur (create unspents) block_height block_time confirmed_height
          optimization_level).subset hc
        simp only [create, List.append_nil, List.mem_filter] at this
        exact hround c this.1 (.inr hd)⟩
  have hL := ops_filed (reach_ops _ _ _ _ _ _ _ _ hr) h₀.1 h₀.2
  obtain ⟨hs, hp, -⟩ := fresh_reach hpos hr
  refine ⟨⟨hs, hL.1⟩, fun f hf => ⟨?_, (ops_filed (feeStep_ops _ _ _ _ _ _ _ _ hf) hL.1 hL.2).1⟩⟩
  obtain ⟨f', hf', -, hs'⟩ := feeStep_spec cur max_digits effective_median_size anonymity
    total_amount total_outputs fee_per_byte optimization_median hs hp
  obtain rfl := Option.some_injective _ (hf'.symm.trans hf)
  exact hs'

/-- Clean coins of 300 and 20 and a dust coin of 13, for a payment of 300 at one unit per
byte: the first pass raises the fee to 600 and goes round again on graded maps. -/
theorem fresh_reach_graded_demo :
    ∃ L, feeStep demoCurrency 2 100000 0 300 1 1 5000
        (start demoCurrency (create [demoCoin 0 300 false, demoCoin 1 20 false,
          demoCoin 2 13 true]) 100 0 100 "").1 = some (.next L) ∧ L.fee = 600 ∧
      (∀ c ∈ [demoCoin 0 300 false, demoCoin 1 20 false, demoCoin 2 13 true],
        0 < c.amount) ∧
      (∀ c ∈ [demoCoin 0 300 false, demoCoin 1 20 false, demoCoin 2 13 true],
        demoCurrency.isDust c.amount = false ∨ c.dust = false → c.IsRound) ∧
      L.sel.Graded ∧ ∀ f, feeStep demoCurrency 2 100000 0 300 1 1 5000 L = some f →
        (FeeLoop.after f).Graded :=
  ⟨_, rfl, rfl, by decide, by decide,
    @fresh_reach_graded demoCurrency [demoCoin 0 300 false, demoCoin 1 20 false,
      demoCoin 2 13 true] 100 0 100 "" 0 2 100000 300 1 1 5000 _ (by decide) (by decide)
      (.single rfl)⟩

end FreshRun

end UnspentSelector

end Varcoin
