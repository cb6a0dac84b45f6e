import Mathlib.Data.List.Perm.Basic

/-!
# Ordered maps

The selector keeps its coins in `std::map`s: the digit map of `HaveCoins`, the
leading-digit map under each digit, and the amount map of `DustCoins`.  A map is
modelled by its entries in increasing key order, the order `std::map` iterates in,
and the structure carries that order as a field, so a map with a repeated key cannot
be built.

Keys are natural numbers.  The `size_t` keys of `HaveCoins` are small digits, and the
`Amount` keys of `DustCoins` are stored as `Amount.toNat`, which orders them as
`uint64_t` does.

Beside the lookup lemmas, the facts used later are the two permutation lemmas
`flatMap_insert` and `flatMap_of_find?`: the coins stored in a map are those of
one entry together with those of the rest.
-/

namespace Varcoin

/-- A `std::map` from an unsigned key: its entries in strictly increasing key order. -/
structure StdMap (V : Type) where
  entries : List (Nat × V)
  sorted : entries.Pairwise (fun a b => a.1 < b.1)

namespace StdMap

variable {V α : Type}

def empty : StdMap V := ⟨[], .nil⟩

def isEmpty (m : StdMap V) : Bool := m.entries.isEmpty

/-- `find`: the value stored under `k`, if there is one. -/
def find? (m : StdMap V) (k : Nat) : Option V := (m.entries.find? (·.1 == k)).map (·.2)

/-- `erase(k)`. -/
def erase (m : StdMap V) (k : Nat) : StdMap V :=
  ⟨m.entries.filter (·.1 != k), m.sorted.filter _⟩

/-- Insertion at the sorted position, replacing the value of an equal key. -/
def insertList (k : Nat) (v : V) : List (Nat × V) → List (Nat × V)
  | [] => [(k, v)]
  | e :: es =>
    if k < e.1 then (k, v) :: e :: es
    else if k = e.1 then (k, v) :: es
    else e :: insertList k v es

theorem mem_insertList {k : Nat} {v : V} {e : Nat × V} :
    ∀ {l : List (Nat × V)}, e ∈ insertList k v l → e = (k, v) ∨ e ∈ l
  | [], h => by simpa [insertList] using h
  | f :: fs, h => by
    unfold insertList at h
    split_ifs at h
    · exact List.mem_cons.mp h
    · exact (List.mem_cons.mp h).imp_right (List.mem_cons_of_mem _)
    · rcases List.mem_cons.mp h with rfl | h
      · exact .inr (List.mem_cons_self _ _)
      · exact (mem_insertList h).imp_right (List.mem_cons_of_mem _)

theorem insertList_sorted (k : Nat) (v : V) :
    ∀ {l : List (Nat × V)}, l.Pairwise (fun a b => a.1 < b.1) →
      (insertList k v l).Pairwise (fun a b => a.1 < b.1)
  | [], _ => by simp [insertList]
  | f :: fs, h => by
    rw [List.pairwise_cons] at h
    unfold insertList
    split_ifs with h1 h2
    · refine List.Pairwise.cons (fun a ha => ?_) (List.Pairwise.cons h.1 h.2)
      rcases List.mem_cons.mp ha with rfl | ha
      · exact h1
      · exact lt_trans h1 (h.1 a ha)
    · exact List.Pairwise.cons (fun a ha => h2 ▸ h.1 a ha) h.2
    · refine List.Pairwise.cons (fun a ha => ?_) (insertList_sorted k v h.2)
      rcases mem_insertList ha with rfl | ha
      · show f.1 < k
        omega
      · exact h.1 a ha

/-- Assignment `m[k] = v`. -/
def insert (m : StdMap V) (k : Nat) (v : V) : StdMap V :=
  ⟨insertList k v m.entries, insertList_sorted k v m.sorted⟩

/-- `m[k]` followed by an update of the reference it returns: the stored value, or `d`
when `k` is absent, changed by `f`. -/
def modify (m : StdMap V) (k : Nat) (d : V) (f : V → V) : StdMap V :=
  m.insert k (f ((m.find? k).getD d))

/-- `--m.end()`: the entry with the largest key. -/
def back? (m : StdMap V) : Option (Nat × V) := m.entries.getLast?

/-- `lower_bound(k)`: the first entry whose key is not below `k`. -/
def lowerBound (m : StdMap V) (k : Nat) : Option (Nat × V) := m.entries.find? (k ≤ ·.1)

/-- Everything stored in the map, read through `f`, in key order. -/
def flatMap (m : StdMap V) (f : V → List α) : List α := m.entries.flatMap (f ·.2)

/-! ### Lookup -/

theorem find?_eq_some_iff {m : StdMap V} {k : Nat} {v : V} :
    m.find? k = some v ↔ (k, v) ∈ m.entries := by
  obtain ⟨l, hl⟩ := m
  simp only [find?]
  induction l with
  | nil => simp
  | cons e es ih =>
    obtain ⟨k₀, v₀⟩ := e
    rw [List.pairwise_cons] at hl
    by_cases he : k₀ = k
    · subst he
      have hnot : (k₀, v) ∉ es := fun h => lt_irrefl k₀ (hl.1 (k₀, v) h)
      simp [List.find?_cons, hnot, eq_comm]
    · simp [List.find?_cons, he, ih hl.2, Ne.symm he]

theorem perm_of_mem {k : Nat} {v : V} :
    ∀ {l : List (Nat × V)}, l.Pairwise (fun a b => a.1 < b.1) → (k, v) ∈ l →
      l.Perm ((k, v) :: l.filter (·.1 != k))
  | [], _, h => absurd h (List.not_mem_nil _)
  | e :: es, hs, h => by
    rw [List.pairwise_cons] at hs
    rcases List.mem_cons.mp h with rfl | h
    · have : es.filter (·.1 != k) = es :=
        List.filter_eq_self.mpr fun a ha => by simpa using (ne_of_lt (hs.1 a ha)).symm
      simp [this]
    · have hne : e.1 ≠ k := ne_of_lt (hs.1 _ h)
      simp only [List.filter_cons, bne_iff_ne, ne_eq, hne, not_false_eq_true, ite_true]
      exact ((perm_of_mem hs.2 h).cons e).trans (List.Perm.swap _ _ _)

theorem insertList_perm (k : Nat) (v : V) :
    ∀ {l : List (Nat × V)}, l.Pairwise (fun a b => a.1 < b.1) →
      (insertList k v l).Perm ((k, v) :: l.filter (·.1 != k))
  | [], _ => by simp [insertList]
  | e :: es, hs => by
    rw [List.pairwise_cons] at hs
    have hes : ∀ k', k' ≤ e.1 → es.filter (·.1 != k') = es := fun k' hk =>
      List.filter_eq_self.mpr fun a ha => by simpa using (hk.trans_lt (hs.1 a ha)).ne'
    unfold insertList
    split_ifs with h1 h2
    · rw [List.filter_cons_of_pos (by simpa using h1.ne'), hes k h1.le]
    · simp [h2, hes e.1 le_rfl]
    · rw [List.filter_cons_of_pos (by simpa using Ne.symm h2)]
      exact ((insertList_perm k v hs.2).cons e).trans (List.Perm.swap _ _ _)

@[simp] theorem find?_insert (m : StdMap V) (k k' : Nat) (v : V) :
    (m.insert k v).find? k' = if k = k' then some v else m.find? k' := by
  refine Option.ext fun w => ?_
  rw [Option.mem_def, Option.mem_def, find?_eq_some_iff]
  erw [(insertList_perm k v m.sorted).mem_iff]
  by_cases h : k = k'
  · subst h
    have : (k, w) ∉ m.entries.filter (·.1 != k) := by simp
    simp [this, eq_comm]
  · simp [h, Ne.symm h, find?_eq_some_iff]

@[simp] theorem find?_erase (m : StdMap V) (k k' : Nat) :
    (m.erase k).find? k' = if k = k' then none else m.find? k' := by
  refine Option.ext fun w => ?_
  rw [Option.mem_def, Option.mem_def, find?_eq_some_iff]
  by_cases h : k = k'
  · subst h
    simp [erase]
  · simp [erase, h, Ne.symm h, find?_eq_some_iff]

theorem erase_of_find?_none {m : StdMap V} {k : Nat} (h : m.find? k = none) :
    (m.erase k).entries = m.entries :=
  List.filter_eq_self.mpr fun e he => by
    have := List.find?_eq_none.mp (Option.map_eq_none'.mp h) e he
    simpa using this

@[simp] theorem find?_empty (k : Nat) : (empty : StdMap V).find? k = none := rfl

theorem isEmpty_iff {m : StdMap V} : m.isEmpty = true ↔ m.entries = [] := by
  simp [isEmpty]

@[simp] theorem isEmpty_insert (m : StdMap V) (k : Nat) (v : V) :
    (m.insert k v).isEmpty = false := by
  cases h : m.entries with
  | nil => simp [isEmpty, insert, h, insertList]
  | cons e es =>
    simp only [isEmpty, insert, h, insertList]
    split_ifs <;> rfl

theorem isEmpty_eq_false_iff {m : StdMap V} :
    m.isEmpty = false ↔ ∃ k v, m.find? k = some v := by
  simp only [find?_eq_some_iff, isEmpty, List.isEmpty_eq_false_iff_exists_mem]
  exact ⟨fun ⟨e, he⟩ => ⟨e.1, e.2, he⟩, fun ⟨k, v, h⟩ => ⟨_, h⟩⟩

theorem back?_find? {m : StdMap V} {k : Nat} {v : V} (h : m.back? = some (k, v)) :
    m.find? k = some v :=
  find?_eq_some_iff.mpr (List.mem_of_getLast?_eq_some h)

theorem back?_isSome {m : StdMap V} (h : m.isEmpty = false) : ∃ e, m.back? = some e := by
  cases hb : m.back? with
  | none => simp_all [back?, isEmpty]
  | some e => exact ⟨e, rfl⟩

/-- `--end()` holds the largest key. -/
theorem back?_max {m : StdMap V} {k k' : Nat} {v v' : V} (h : m.back? = some (k, v))
    (h' : m.find? k' = some v') : k' ≤ k := by
  have hl := List.dropLast_append_getLast? _ h
  have hs := m.sorted
  have hm := find?_eq_some_iff.mp h'
  rw [← hl] at hs hm
  rcases List.mem_append.mp hm with hm | hm
  · exact (List.pairwise_append.mp hs).2.2 _ hm _ (List.mem_singleton_self _) |>.le
  · cases List.mem_singleton.mp hm
    exact le_rfl

theorem lowerBound_find? {m : StdMap V} {k k' : Nat} {v : V}
    (h : m.lowerBound k = some (k', v)) : m.find? k' = some v :=
  find?_eq_some_iff.mpr (List.mem_of_find?_eq_some h)

/-- `lower_bound(k)` finds the smallest key not below `k`. -/
theorem lowerBound_least {m : StdMap V} {k k' : Nat} {v : V} (h : m.lowerBound k = some (k', v)) :
    k ≤ k' ∧ ∀ k'' v', m.find? k'' = some v' → k ≤ k'' → k' ≤ k'' := by
  obtain ⟨hp, as, bs, he, has⟩ := List.find?_eq_some.mp h
  refine ⟨by simpa using hp, fun k'' v' h' hk => ?_⟩
  have hs := m.sorted
  have hm := find?_eq_some_iff.mp h'
  rw [he] at hs hm
  rcases List.mem_append.mp hm with hm | hm
  · have := has _ hm
    simp only [decide_eq_true_eq, Bool.not_eq_true', decide_eq_false_iff_not] at this
    omega
  · rcases List.mem_cons.mp hm with hm | hm
    · cases hm
      exact le_rfl
    · exact (List.pairwise_cons.mp (List.pairwise_append.mp hs).2.1).1 _ hm |>.le

/-- When `lower_bound(k)` is `end()`, every key is below `k`. -/
theorem lowerBound_none {m : StdMap V} {k k' : Nat} {v : V} (h : m.lowerBound k = none)
    (h' : m.find? k' = some v) : k' < k := by
  simpa using List.find?_eq_none.mp h _ (find?_eq_some_iff.mp h')

/-! ### Contents -/

theorem flatMap_insert (m : StdMap V) (k : Nat) (v : V) (f : V → List α) :
    ((m.insert k v).flatMap f).Perm (f v ++ (m.erase k).flatMap f) := by
  simpa [flatMap, insert, erase] using (insertList_perm k v m.sorted).flatMap_right (f ·.2)

theorem flatMap_of_find? {m : StdMap V} {k : Nat} {v : V} (h : m.find? k = some v)
    (f : V → List α) : (m.flatMap f).Perm (f v ++ (m.erase k).flatMap f) := by
  simpa [flatMap, erase] using
    (perm_of_mem m.sorted (find?_eq_some_iff.mp h)).flatMap_right (f ·.2)

/-- The coins of a map are those under `k`, or none when `k` is absent, with the rest. -/
theorem flatMap_getD {m : StdMap V} {f : V → List α} {d : V} (hd : f d = []) (k : Nat) :
    (m.flatMap f).Perm (f ((m.find? k).getD d) ++ (m.erase k).flatMap f) := by
  cases h : m.find? k with
  | some v => exact flatMap_of_find? h f
  | none => simp [hd, flatMap, erase_of_find?_none h]

theorem flatMap_modify (m : StdMap V) (k : Nat) (d : V) (g : V → V) (f : V → List α) :
    ((m.modify k d g).flatMap f).Perm (f (g ((m.find? k).getD d)) ++ (m.erase k).flatMap f) :=
  flatMap_insert m k _ f

@[simp] theorem flatMap_empty (f : V → List α) : (empty : StdMap V).flatMap f = [] := rfl

theorem flatMap_eq_nil {m : StdMap V} {f : V → List α} (h : m.isEmpty = true) :
    m.flatMap f = [] := by
  simp [flatMap, isEmpty_iff.mp h]

end StdMap

end Varcoin
