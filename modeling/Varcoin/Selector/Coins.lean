import Varcoin.StdMap
import Varcoin.Types

/-!
# Coin stacks and the pick sites

`UnspentSelector::select_optimal_outputs` sorts the spendable coins into two maps of
stacks, `HaveCoins` (digit ↦ leading digit ↦ stack) for the clean denominations and
`DustCoins` (amount ↦ stack) for the rest, and then moves coins one at a time from the
top of a stack into `m_optimization_unspents`.  Eight places in the code do that move;
all of them run the same three lines (`push`) and all but the stack optimization then
erase the stack if it became empty and the digit map if that became empty (`shrink`).

This module models the maps, the move, and the two functions that put coins back into
the maps (`create_have_coins`, `unoptimize_amounts`), and proves what one move does to
the coins the maps hold: `takeHave_pick` and `takeDust_pick`.
-/

namespace Varcoin

/-- A coin stack, top first: `push_back` is `cons`, `back` is `head`, `pop_back` is
`tail`. -/
abbrev Stack := List Output

/-- `HaveCoins`: digit ↦ leading digit ↦ stack. -/
abbrev HaveCoins := StdMap (StdMap Stack)

/-- `DustCoins`: amount ↦ stack. -/
abbrev DustCoins := StdMap Stack

/-- The loop `while (am > 9) { digit += 1; am /= 10; }`, allowed `fuel` rounds. -/
def digitLoop : Nat → Nat → Nat → Nat × Nat
  | 0, digit, am => (digit, am)
  | fuel + 1, digit, am => if am > 9 then digitLoop fuel (digit + 1) (am / 10) else (digit, am)

/-- The decimal position and the leading digit of an amount, as `create_have_coins` and
`unoptimize_amounts` compute them.  Each round divides by ten, so `am` rounds suffice. -/
def decompose (am : Amount) : Nat × Nat := digitLoop am.toNat 0 am.toNat

/-- A currency to run the model on: the minimum fee and the dust threshold are 10, an
amount is dust unless it is one decimal digit times a power of ten, every coin is
unlocked, a transaction takes 100 bytes, 70 per ring member and 40 per output, and every
address parses to the account with spend key 1 and view key 2. -/
def demoCurrency : Currency where
  current_transaction_version := 1
  minimum_fee := 10
  default_dust_threshold := 10
  isDust am := !(0 < (decompose am).2 && (decompose am).2 * 10 ^ (decompose am).1 == am.toNat)
  isTransactionSpendTimeUnlocked _ _ _ := true
  getMaximumTxSize inputs outputs mixin := 100 + inputs * (mixin + 1) * 70 + outputs * 40
  parseAccountAddressString _ := some ⟨⟨1⟩, ⟨2⟩⟩

/-- A coin of the demo pools: `amount` at global index `i`, confirmed at height 0, with
the given `dust` field. -/
def demoCoin (i : Nat) (amount : Amount) (dust : Bool) : Output where
  amount := amount
  global_index := UInt32.ofNat i
  transaction_public_key := ⟨0⟩
  index_in_transaction := 0
  public_key := ⟨i⟩
  key_image := ⟨i⟩
  height := 0
  unlock_time := 0
  address := ""
  dust := dust

/-- No stack stored in the map is empty. -/
def StacksNonempty (m : StdMap Stack) : Prop := ∀ k st, m.find? k = some st → st ≠ []

/-- Store the stack `rest` under `k`, or erase `k` when `rest` is empty. -/
def stackShrink (m : StdMap Stack) (k : Nat) (rest : Stack) : StdMap Stack :=
  if rest.isEmpty then m.erase k else m.insert k rest

namespace HaveCoins

def coins (h : HaveCoins) : List Output := h.flatMap (·.flatMap id)

/-- `(*have_coins)[digit][am].push_back(un)`. -/
def push (h : HaveCoins) (un : Output) : HaveCoins :=
  h.modify (decompose un.amount).1 StdMap.empty
    (·.modify (decompose un.amount).2 [] (un :: ·))

/-- Store the digit map `inner` under `d`, or erase `d` when `inner` is empty. -/
def shrink (h : HaveCoins) (d : Nat) (inner : StdMap Stack) : HaveCoins :=
  if inner.isEmpty then h.erase d else h.insert d inner

/-- No stored digit map is empty and no stored stack is empty. -/
def WF (h : HaveCoins) : Prop :=
  ∀ d inner, h.find? d = some inner → inner.isEmpty = false ∧ StacksNonempty inner

end HaveCoins

namespace DustCoins

def coins (d : DustCoins) : List Output := d.flatMap id

/-- `(*dust_coins)[un.amount].push_back(un)`. -/
def push (d : DustCoins) (un : Output) : DustCoins := d.modify un.amount.toNat [] (un :: ·)

end DustCoins

/-- The fields of the selector that the pick sites write, with the two coin maps that
the outer `select_optimal_outputs` keeps as locals. -/
structure Selection where
  have_coins : HaveCoins
  dust_coins : DustCoins
  optimization_unspents : List Output
  used_total : Amount
  inputs_count : Nat

namespace Selection

/-- The three lines every pick site runs on the coin it took. -/
def push (s : Selection) (un : Output) : Selection :=
  { s with optimization_unspents := s.optimization_unspents ++ [un]
           used_total := s.used_total + un.amount
           inputs_count := s.inputs_count + 1 }

/-- A pick from `have_coins[d][l]` followed by the erasures.  `none` is undefined
behaviour: the digit map was erased (`dit` is dangling) or the stack is empty or absent
(`operator[]` creates it empty and `back()` reads it). -/
def takeHave (s : Selection) (d l : Nat) : Option Selection :=
  match s.have_coins.find? d with
  | none => none
  | some inner =>
    match inner.find? l with
    | some (un :: rest) => some ({ s with have_coins := s.have_coins.shrink d (stackShrink inner l rest) }.push un)
    | _ => none

/-- A pick from `dust_coins[a]` followed by the erasure of an emptied stack. -/
def takeDust (s : Selection) (a : Nat) : Option Selection :=
  match s.dust_coins.find? a with
  | some (un :: rest) => some ({ s with dust_coins := stackShrink s.dust_coins a rest }.push un)
  | _ => none

/-- A pick through the pointer `best_stack` of the stack optimization, which erases
nothing. -/
def popStack (s : Selection) (d l : Nat) : Option Selection :=
  match s.have_coins.find? d with
  | none => none
  | some inner =>
    match inner.find? l with
    | some (un :: rest) =>
      some ({ s with have_coins := s.have_coins.insert d (inner.insert l rest) }.push un)
    | _ => none

@[simp] theorem push_have_coins (s : Selection) (un : Output) :
    (s.push un).have_coins = s.have_coins := rfl
@[simp] theorem push_dust_coins (s : Selection) (un : Output) :
    (s.push un).dust_coins = s.dust_coins := rfl
@[simp] theorem push_optimization_unspents (s : Selection) (un : Output) :
    (s.push un).optimization_unspents = s.optimization_unspents ++ [un] := rfl
@[simp] theorem push_used_total (s : Selection) (un : Output) :
    (s.push un).used_total = s.used_total + un.amount := rfl
@[simp] theorem push_inputs_count (s : Selection) (un : Output) :
    (s.push un).inputs_count = s.inputs_count + 1 := rfl

end Selection

/-! ### Contents of the maps -/

theorem stackShrink_coins (m : StdMap Stack) (k : Nat) (rest : Stack) :
    ((stackShrink m k rest).flatMap id).Perm (rest ++ (m.erase k).flatMap id) := by
  unfold stackShrink
  split_ifs with hr
  · simp [List.isEmpty_iff.mp hr]
  · exact StdMap.flatMap_insert m k rest id

theorem stackShrink_pick {m : StdMap Stack} {k : Nat} {un : Output} {rest : Stack}
    (h : m.find? k = some (un :: rest)) :
    (m.flatMap id).Perm (un :: (stackShrink m k rest).flatMap id) :=
  (StdMap.flatMap_of_find? h id).trans ((stackShrink_coins m k rest).symm.cons un)

namespace HaveCoins

theorem coins_push (h : HaveCoins) (un : Output) : (h.push un).coins.Perm (un :: h.coins) := by
  let d := (decompose un.amount).1
  let inner := (h.find? d).getD StdMap.empty
  have h₁ := StdMap.flatMap_modify h d StdMap.empty
    (·.modify (decompose un.amount).2 [] (un :: ·)) (·.flatMap id)
  have h₂ := StdMap.flatMap_modify inner (decompose un.amount).2 [] (un :: ·) id
  have h₃ := StdMap.flatMap_getD (m := inner) (f := id) (d := []) rfl (decompose un.amount).2
  have h₄ := StdMap.flatMap_getD (m := h) (f := (·.flatMap id)) (d := StdMap.empty) rfl d
  refine h₁.trans ?_
  refine ((h₂.append_right _).trans ?_).trans (h₄.symm.cons un)
  simpa using (h₃.symm.cons un).append_right _

theorem coins_shrink (h : HaveCoins) (d : Nat) (inner : StdMap Stack) :
    (h.shrink d inner).coins.Perm (inner.flatMap id ++ coins (h.erase d)) := by
  unfold shrink
  split_ifs with he
  · simp [StdMap.flatMap_eq_nil he]
  · exact StdMap.flatMap_insert h d inner _

theorem coins_pick {h : HaveCoins} {d l : Nat} {inner : StdMap Stack} {un : Output}
    {rest : Stack} (hd : h.find? d = some inner) (hl : inner.find? l = some (un :: rest)) :
    h.coins.Perm (un :: (h.shrink d (stackShrink inner l rest)).coins) := by
  refine (StdMap.flatMap_of_find? hd _).trans ?_
  refine ((stackShrink_pick hl).append_right _).trans (List.Perm.cons un ?_)
  exact (coins_shrink h d _).symm

end HaveCoins

theorem DustCoins.coins_push (d : DustCoins) (un : Output) :
    (d.push un).coins.Perm (un :: d.coins) :=
  (StdMap.flatMap_modify d _ [] (un :: ·) id).trans
    ((StdMap.flatMap_getD (m := d) (f := id) (d := []) rfl un.amount.toNat).symm.cons un)

/-! ### Stack shape

`HaveCoins.WF` and `StacksNonempty` say that every stored map and stack is non-empty,
which is what makes `back()` and `--end()` defined at every pick site. -/

theorem stackShrink_nonempty {m : StdMap Stack} (hm : StacksNonempty m) (k : Nat) (rest : Stack) :
    StacksNonempty (stackShrink m k rest) := by
  intro k' st h
  unfold stackShrink at h
  split_ifs at h with hr
  · simp only [StdMap.find?_erase] at h
    split_ifs at h
    exact hm k' st h
  · simp only [StdMap.find?_insert] at h
    split_ifs at h
    · cases h; simpa using hr
    · exact hm k' st h

theorem StacksNonempty.insert {m : StdMap Stack} (hm : StacksNonempty m) {k : Nat} {st : Stack}
    (hst : st ≠ []) : StacksNonempty (m.insert k st) := by
  intro k' st' h
  simp only [StdMap.find?_insert] at h
  split_ifs at h
  · cases h; exact hst
  · exact hm k' st' h

theorem StacksNonempty.push {m : StdMap Stack} (hm : StacksNonempty m) (k : Nat) (un : Output) :
    StacksNonempty (m.modify k [] (un :: ·)) :=
  hm.insert (List.cons_ne_nil _ _)

theorem HaveCoins.WF.shrink {h : HaveCoins} (hw : h.WF) (d : Nat) {inner : StdMap Stack}
    (hi : StacksNonempty inner) : (h.shrink d inner).WF := by
  intro d' inner' h'
  unfold HaveCoins.shrink at h'
  split_ifs at h' with he
  · simp only [StdMap.find?_erase] at h'
    split_ifs at h'
    exact hw d' inner' h'
  · simp only [StdMap.find?_insert] at h'
    split_ifs at h'
    · cases h'; exact ⟨by simpa using he, hi⟩
    · exact hw d' inner' h'

theorem HaveCoins.WF.insert {h : HaveCoins} (hw : h.WF) (d : Nat) {inner : StdMap Stack}
    (hi : StacksNonempty inner) (hne : inner.isEmpty = false) :
    HaveCoins.WF (h.insert d inner) := by
  intro d' inner' h'
  simp only [StdMap.find?_insert] at h'
  split_ifs at h'
  · cases h'; exact ⟨hne, hi⟩
  · exact hw d' inner' h'

theorem HaveCoins.WF.push {h : HaveCoins} (hw : h.WF) (un : Output) : (h.push un).WF := by
  have hi : StacksNonempty ((h.find? (decompose un.amount).1).getD StdMap.empty) := by
    cases hd : h.find? (decompose un.amount).1 with
    | none => intro k st h; simp at h
    | some inner => exact (hw _ _ hd).2
  exact HaveCoins.WF.insert hw _ (hi.push _ un) (StdMap.isEmpty_insert _ _ _)

namespace Selection

/-- The invariant of `HaveCoins.WF` and `StacksNonempty` on both maps. -/
def Shape (s : Selection) : Prop := s.have_coins.WF ∧ StacksNonempty s.dust_coins

/-- One coin moves from `have_coins` into `m_optimization_unspents`. -/
def PickHave (s s' : Selection) : Prop :=
  ∃ un h', s.have_coins.coins.Perm (un :: h'.coins) ∧ s' = { s with have_coins := h' }.push un

/-- One coin moves from `dust_coins` into `m_optimization_unspents`. -/
def PickDust (s s' : Selection) : Prop :=
  ∃ un d', s.dust_coins.coins.Perm (un :: d'.coins) ∧ s' = { s with dust_coins := d' }.push un

/-- A move the selector makes with this `anonymity`: dust coins only when it is zero. -/
def Pick (anonymity : Nat) (s s' : Selection) : Prop :=
  PickHave s s' ∨ anonymity = 0 ∧ PickDust s s'

theorem takeHave_eq_some {s s' : Selection} {d l : Nat} (h : s.takeHave d l = some s') :
    ∃ inner un rest, s.have_coins.find? d = some inner ∧ inner.find? l = some (un :: rest) ∧
      s' = { s with have_coins := s.have_coins.shrink d (stackShrink inner l rest) }.push un := by
  unfold takeHave at h
  split at h
  · cases h
  · rename_i inner hd
    split at h
    · cases h; exact ⟨inner, _, _, hd, ‹_›, rfl⟩
    · cases h

theorem takeHave_pick {s s' : Selection} {d l : Nat} (h : s.takeHave d l = some s') :
    PickHave s s' := by
  obtain ⟨inner, un, rest, hd, hl, rfl⟩ := takeHave_eq_some h
  exact ⟨un, _, HaveCoins.coins_pick hd hl, rfl⟩

theorem takeHave_shape {s s' : Selection} {d l : Nat} (hs : s.Shape)
    (h : s.takeHave d l = some s') : s'.Shape := by
  obtain ⟨inner, un, rest, hd, hl, rfl⟩ := takeHave_eq_some h
  exact ⟨hs.1.shrink d (stackShrink_nonempty (hs.1 d inner hd).2 l rest), hs.2⟩

theorem takeHave_ne_none {s : Selection} {d l : Nat} {inner : StdMap Stack} {st : Stack}
    (hs : s.Shape) (hd : s.have_coins.find? d = some inner) (hl : inner.find? l = some st) :
    s.takeHave d l ≠ none := by
  obtain _ | ⟨un, rest⟩ := st
  · exact absurd rfl ((hs.1 d inner hd).2 l [] hl)
  · simp [takeHave, hd, hl]

theorem takeDust_eq_some {s s' : Selection} {a : Nat} (h : s.takeDust a = some s') :
    ∃ un rest, s.dust_coins.find? a = some (un :: rest) ∧
      s' = { s with dust_coins := stackShrink s.dust_coins a rest }.push un := by
  unfold takeDust at h
  split at h
  · cases h; exact ⟨_, _, ‹_›, rfl⟩
  · cases h

theorem takeDust_pick {s s' : Selection} {a : Nat} (h : s.takeDust a = some s') :
    PickDust s s' := by
  obtain ⟨un, rest, ha, rfl⟩ := takeDust_eq_some h
  exact ⟨un, _, stackShrink_pick ha, rfl⟩

theorem takeDust_shape {s s' : Selection} {a : Nat} (hs : s.Shape)
    (h : s.takeDust a = some s') : s'.Shape := by
  obtain ⟨un, rest, ha, rfl⟩ := takeDust_eq_some h
  exact ⟨hs.1, stackShrink_nonempty hs.2 a rest⟩

theorem takeDust_ne_none {s : Selection} {a : Nat} {st : Stack} (hs : s.Shape)
    (ha : s.dust_coins.find? a = some st) : s.takeDust a ≠ none := by
  obtain _ | ⟨un, rest⟩ := st
  · exact absurd rfl (hs.2 a [] ha)
  · simp [takeDust, ha]

theorem popStack_eq_some {s s' : Selection} {d l : Nat} (h : s.popStack d l = some s') :
    ∃ inner un rest, s.have_coins.find? d = some inner ∧ inner.find? l = some (un :: rest) ∧
      s' = { s with have_coins := s.have_coins.insert d (inner.insert l rest) }.push un := by
  unfold popStack at h
  split at h
  · cases h
  · rename_i inner hd
    split at h
    · cases h; exact ⟨inner, _, _, hd, ‹_›, rfl⟩
    · cases h

theorem popStack_pick {s s' : Selection} {d l : Nat} (h : s.popStack d l = some s') :
    PickHave s s' := by
  obtain ⟨inner, un, rest, hd, hl, rfl⟩ := popStack_eq_some h
  refine ⟨un, _, (StdMap.flatMap_of_find? hd _).trans ?_, rfl⟩
  refine ((StdMap.flatMap_of_find? hl id).append_right _).trans (List.Perm.cons un ?_)
  exact ((StdMap.flatMap_insert inner l rest id).append_right _).symm.trans
    (StdMap.flatMap_insert s.have_coins d (inner.insert l rest) (·.flatMap id)).symm

/-- The stack optimization pops a stack of at least two coins, so the shape survives. -/
theorem popStack_shape {s s' : Selection} {d l : Nat} (hs : s.Shape)
    (h : s.popStack d l = some s') (hlen : ∀ inner st, s.have_coins.find? d = some inner →
      inner.find? l = some st → 2 ≤ st.length) : s'.Shape := by
  obtain ⟨inner, un, rest, hd, hl, rfl⟩ := popStack_eq_some h
  have hr : rest ≠ [] := by
    have := hlen inner _ hd hl
    rintro rfl
    simp at this
  exact ⟨HaveCoins.WF.insert hs.1 d ((hs.1 d inner hd).2.insert hr) (StdMap.isEmpty_insert _ _ _),
    hs.2⟩

end Selection

/-! ### Filling the maps -/

/-- The checks `create_have_coins` makes before it stores a coin: confirmed below
`confirmed_height` and unlocked at the tip. -/
def spendable (cur : Currency) (block_height : Height) (block_time : Timestamp)
    (confirmed_height : Height) (un : Output) : Bool :=
  !(un.height ≥ confirmed_height) &&
    cur.isTransactionSpendTimeUnlocked un.unlock_time block_height block_time

/-- `create_have_coins`: walk the unspents from the back, skip the unconfirmed and the
locked, and store each remaining coin in `have_coins` or, when `Currency::is_dust`
says so, in `dust_coins`; the third component is `*max_digit`. -/
def createHaveCoins (cur : Currency) (block_height : Height) (block_time : Timestamp)
    (confirmed_height : Height) (unspents : List Output) : HaveCoins × DustCoins × Nat :=
  unspents.foldr (fun un acc =>
    if un.height ≥ confirmed_height then acc
    else if !cur.isTransactionSpendTimeUnlocked un.unlock_time block_height block_time then acc
    else if !cur.isDust un.amount then
      (acc.1.push un, acc.2.1, max acc.2.2 (decompose un.amount).1)
    else (acc.1, acc.2.1.push un, acc.2.2)) (StdMap.empty, StdMap.empty, 0)

/-- One round of the loop of `unoptimize_amounts`: take the coin's amount off the
total, count one input less, and push the coin back where its `dust` field says. -/
def Selection.unoptimizeOne (t : Selection) (un : Output) : Selection :=
  let t := { t with used_total := t.used_total - un.amount, inputs_count := t.inputs_count - 1 }
  if !un.dust then { t with have_coins := t.have_coins.push un }
  else { t with dust_coins := t.dust_coins.push un }

/-- `unoptimize_amounts`: return every coin of `m_optimization_unspents` to the maps. -/
def Selection.unoptimizeAmounts (s : Selection) : Selection :=
  { s.optimization_unspents.foldl Selection.unoptimizeOne s with optimization_unspents := [] }

section Fill

variable (cur : Currency) (block_height : Height) (block_time : Timestamp)
  (confirmed_height : Height)

theorem create_have_coins_cons (un : Output) (l : List Output) :
    createHaveCoins cur block_height block_time confirmed_height (un :: l) =
      let acc := createHaveCoins cur block_height block_time confirmed_height l
      if spendable cur block_height block_time confirmed_height un = true then
        if cur.isDust un.amount then (acc.1, acc.2.1.push un, acc.2.2)
        else (acc.1.push un, acc.2.1, max acc.2.2 (decompose un.amount).1)
      else acc := by
  simp only [createHaveCoins, List.foldr_cons, spendable]
  by_cases h₁ : un.height ≥ confirmed_height <;>
    cases cur.isTransactionSpendTimeUnlocked un.unlock_time block_height block_time <;>
    cases cur.isDust un.amount <;> simp [h₁]

/-- The coins `create_have_coins` stores are the spendable ones, split by
`Currency::is_dust`. -/
theorem create_have_coins_coins (l : List Output) :
    let r := createHaveCoins cur block_height block_time confirmed_height l
    r.1.coins.Perm ((l.filter (spendable cur block_height block_time confirmed_height)).filter
        (!cur.isDust ·.amount)) ∧
      r.2.1.coins.Perm ((l.filter (spendable cur block_height block_time confirmed_height)).filter
        (cur.isDust ·.amount)) := by
  induction l with
  | nil => exact ⟨.refl _, .refl _⟩
  | cons un l ih =>
    rw [create_have_coins_cons]
    by_cases hs : spendable cur block_height block_time confirmed_height un = true
    · by_cases hd : cur.isDust un.amount = true
      · simp only [hs, hd, if_true, List.filter_cons_of_pos hs]
        refine ⟨by simpa [hd] using ih.1, ?_⟩
        simpa [hd] using (DustCoins.coins_push _ un).trans (ih.2.cons un)
      · simp only [hs, hd, if_true, if_false, List.filter_cons_of_pos hs]
        refine ⟨?_, by simpa [hd] using ih.2⟩
        simpa [hd] using (HaveCoins.coins_push _ un).trans (ih.1.cons un)
    · simpa [hs] using ih

theorem create_have_coins_shape (l : List Output) :
    let r := createHaveCoins cur block_height block_time confirmed_height l
    r.1.WF ∧ StacksNonempty r.2.1 := by
  induction l with
  | nil => exact ⟨fun d inner h => (nomatch h), fun k st h => (nomatch h)⟩
  | cons un l ih =>
    rw [create_have_coins_cons]
    split_ifs
    · exact ⟨ih.1, ih.2.push _ un⟩
    · exact ⟨ih.1.push un, ih.2⟩
    · exact ih

end Fill

namespace Selection

@[simp] theorem unoptimize_amounts_optimization_unspents (s : Selection) :
    s.unoptimizeAmounts.optimization_unspents = [] := rfl

theorem foldl_unoptimizeOne (l : List Output) (t : Selection) :
    let r := l.foldl unoptimizeOne t
    r.have_coins.coins.Perm (l.filter (!·.dust) ++ t.have_coins.coins) ∧
      r.dust_coins.coins.Perm (l.filter (·.dust) ++ t.dust_coins.coins) ∧
      r.used_total = t.used_total - (l.map (·.amount)).sum ∧
      r.inputs_count = t.inputs_count - l.length ∧
      r.optimization_unspents = t.optimization_unspents := by
  induction l generalizing t with
  | nil => simp
  | cons un l ih =>
    obtain ⟨h1, h2, h3, h4, h5⟩ := ih (unoptimizeOne t un)
    have h0 : (unoptimizeOne t un).optimization_unspents = t.optimization_unspents := by
      unfold unoptimizeOne; split <;> rfl
    simp only [List.foldl_cons]
    refine ⟨h1.trans ?_, h2.trans ?_, ?_, ?_, h5.trans h0⟩
    · cases hd : un.dust
      · simpa [unoptimizeOne, hd] using
          (((HaveCoins.coins_push _ un).append_left _).trans List.perm_middle)
      · simp [unoptimizeOne, hd]
    · cases hd : un.dust
      · simp [unoptimizeOne, hd]
      · simpa [unoptimizeOne, hd] using
          (((DustCoins.coins_push _ un).append_left _).trans List.perm_middle)
    · rw [h3]
      cases hd : un.dust <;> simp [unoptimizeOne, hd, sub_sub]
    · rw [h4]
      cases hd : un.dust <;> simp [unoptimizeOne, hd, Nat.sub_sub, Nat.add_comm]

theorem foldl_unoptimizeOne_shape (l : List Output) {t : Selection} (ht : t.Shape) :
    (l.foldl unoptimizeOne t).Shape := by
  induction l generalizing t with
  | nil => exact ht
  | cons un l ih =>
    refine ih ?_
    cases hd : un.dust
    · simpa [unoptimizeOne, hd, Shape] using ⟨ht.1.push un, ht.2⟩
    · simpa [unoptimizeOne, hd, Shape] using ⟨ht.1, ht.2.push _ un⟩

theorem unoptimize_amounts_shape {s : Selection} (hs : s.Shape) : s.unoptimizeAmounts.Shape :=
  foldl_unoptimizeOne_shape _ hs

end Selection

end Varcoin
