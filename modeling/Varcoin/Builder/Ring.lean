import Mathlib.Data.List.Perm.Basic
import Varcoin.Builder.Builder

/-!
# The ring of an input

`add_input` sorts the mixins by global index, inserts the real output at its lower bound
and writes the global indexes as relative offsets.  This file proves what a verifier
relies on: the ring is the mixins and the real output, in non-decreasing order of global
index, the real output sits at `real_output_index`, and the running sums of the offsets
give back the global indexes in ring order (`prefixSums_relative`).

`absolute_output_offsets_to_relative` is a loop writing `off[i] - off[i - 1]` into a copy
of `off`; `absolute_output_offsets_to_relative_eq` says it computes `offsetsFrom 0`, each
index less the one before it, and the decoding is proved on that form.
-/

namespace Varcoin

theorem u32_le_iff {a b : UInt32} : a ≤ b ↔ a.toNat ≤ b.toNat := Iff.rfl

theorem u32_lt_iff {a b : UInt32} : a < b ↔ a.toNat < b.toNat := Iff.rfl

theorem u32_toNat_lt (a : UInt32) : a.toNat < 2 ^ 32 := a.toBitVec.isLt

theorem u32_toNat_sub (a b : UInt32) : (a - b).toNat = (2 ^ 32 - b.toNat + a.toNat) % 2 ^ 32 :=
  BitVec.toNat_sub _ _

/-! ## Relative offsets -/

/-- Each index less the one before it, the first less `prev`. -/
def offsetsFrom (prev : UInt32) : List UInt32 → List UInt32
  | [] => []
  | a :: l => (a - prev) :: offsetsFrom a l

/-- The verifier's decoding of relative offsets: the running sums from `start`, as natural
numbers, so that a sum that would wrap a `uint32_t` shows. -/
def prefixSums (start : Nat) : List UInt32 → List Nat
  | [] => []
  | d :: l => (start + d.toNat) :: prefixSums (start + d.toNat) l

@[simp] theorem length_offsetsFrom (prev : UInt32) (l : List UInt32) :
    (offsetsFrom prev l).length = l.length := by
  induction l generalizing prev <;> simp [offsetsFrom, *]

theorem getElem_offsetsFrom (prev : UInt32) (l : List UInt32) (i : Nat)
    (h : i < (offsetsFrom prev l).length) (hl : i < l.length) :
    (offsetsFrom prev l)[i] = l[i] - if i = 0 then prev else l.getD (i - 1) 0 := by
  induction l generalizing prev i with
  | nil => simp at hl
  | cons a l ih =>
    cases i with
    | zero => rfl
    | succ i =>
      have hl' : i < l.length := by simpa using hl
      simp only [offsetsFrom, List.getElem_cons_succ]
      rw [ih a i (by simpa using hl') hl']
      cases i <;> simp

@[simp] theorem length_foldl_set (g : Nat → UInt32) (r : List Nat) (copy : List UInt32) :
    (r.foldl (fun copy j => copy.set j (g j)) copy).length = copy.length := by
  induction r generalizing copy <;> simp [*]

/-- A loop writing `g j` at every index `j` of `r`, where `g` does not read what the loop
writes, leaves `g i` at the indexes it visits and the old entry elsewhere. -/
theorem getElem_foldl_set (g : Nat → UInt32) (r : List Nat) (copy : List UInt32) (i : Nat)
    (h : i < (r.foldl (fun copy j => copy.set j (g j)) copy).length) (hc : i < copy.length) :
    (r.foldl (fun copy j => copy.set j (g j)) copy)[i] = if i ∈ r then g i else copy[i] := by
  induction r generalizing copy with
  | nil => simp
  | cons j r ih =>
    simp only [List.foldl_cons]
    rw [ih _ (by simpa using h) (by simpa using hc), List.getElem_set]
    simp only [List.mem_cons]
    by_cases hr : i ∈ r
    · simp [hr]
    · by_cases hj : j = i
      · simp [hr, hj]
      · simp [hr, hj, Ne.symm hj]

/-- The copy-and-subtract loop computes `offsetsFrom 0`: it reads the untouched `off`,
never the entries it has already rewritten. -/
theorem absolute_output_offsets_to_relative_eq (off : List UInt32) :
    absoluteOutputOffsetsToRelative off = offsetsFrom 0 off := by
  refine List.ext_getElem (by simp [absoluteOutputOffsetsToRelative]) fun i h₁ h₂ => ?_
  have hi : i < off.length := by simpa using h₂
  unfold absoluteOutputOffsetsToRelative
  rw [getElem_foldl_set _ _ _ _ _ hi, getElem_offsetsFrom _ _ _ _ hi]
  by_cases h0 : i = 0
  · subst h0; simp
  · have hmem : i ∈ List.range' 1 (off.length - 1) := by
      simp only [List.mem_range'_1]; omega
    simp [hmem, h0, List.getElem?_eq_getElem hi]

/-- Decoding the offsets of a non-decreasing run of indexes, all at least `prev`, gives
the indexes back, with no sum wrapping. -/
theorem prefixSums_offsetsFrom {prev : UInt32} {l : List UInt32}
    (h : (prev :: l).Sorted (· ≤ ·)) : prefixSums prev.toNat (offsetsFrom prev l) =
      l.map UInt32.toNat := by
  induction l generalizing prev with
  | nil => rfl
  | cons a l ih =>
    have hpa : prev ≤ a := List.rel_of_sorted_cons h a (List.mem_cons_self a l)
    have hsub : prev.toNat + (a - prev).toNat = a.toNat := by
      rw [UInt32.toNat_sub_of_le _ _ hpa]; rw [u32_le_iff] at hpa; omega
    simp only [offsetsFrom, prefixSums, hsub, List.map_cons, ih h.of_cons]

/-- The relative offsets of a non-decreasing run of indexes decode to the indexes. -/
theorem prefixSums_relative {l : List UInt32} (h : l.Sorted (· ≤ ·)) :
    prefixSums 0 (absoluteOutputOffsetsToRelative l) = l.map UInt32.toNat := by
  rw [absolute_output_offsets_to_relative_eq]
  exact @prefixSums_offsetsFrom 0 l (List.sorted_cons.mpr ⟨fun b _ => by simp [u32_le_iff], h⟩)

@[simp] theorem length_absolute_output_offsets_to_relative (off : List UInt32) :
    (absoluteOutputOffsetsToRelative off).length = off.length := by
  simp [absolute_output_offsets_to_relative_eq]

/-- Decoding modulo `2^32` needs no order: the running sums from any start congruent to
`prev` give back the indexes, since each offset is its index less the one before it in
`uint32_t`. -/
theorem prefixSums_offsetsFrom_mod {prev : UInt32} {start : Nat}
    (h : start % 2 ^ 32 = prev.toNat) (l : List UInt32) :
    (prefixSums start (offsetsFrom prev l)).map (· % 2 ^ 32) = l.map UInt32.toNat := by
  induction l generalizing prev start with
  | nil => rfl
  | cons a l ih =>
    have hsub : (start + (a - prev).toNat) % 2 ^ 32 = a.toNat := by
      have := u32_toNat_lt a
      have := u32_toNat_lt prev
      rw [u32_toNat_sub]
      omega
    simp only [offsetsFrom, prefixSums, List.map_cons, hsub, ih hsub]

/-- Over a non-decreasing run, each offset is the integer difference of its index and
the one before it. -/
theorem offsetsFrom_toInt {prev : UInt32} {l : List UInt32} (h : (prev :: l).Sorted (· ≤ ·)) :
    (offsetsFrom prev l).map (fun d => (d.toNat : Int)) =
      List.zipWith (fun b a => (b.toNat : Int) - a.toNat) l (prev :: l) := by
  induction l generalizing prev with
  | nil => rfl
  | cons a l ih =>
    have hpa : prev ≤ a := List.rel_of_sorted_cons h a (List.mem_cons_self a l)
    have hsub : ((a - prev).toNat : Int) = a.toNat - prev.toNat := by
      rw [UInt32.toNat_sub_of_le _ _ hpa]; rw [u32_le_iff] at hpa; omega
    simp only [offsetsFrom, List.map_cons, hsub, ih h.of_cons, List.zipWith_cons_cons]

/-- Over a non-decreasing run, the offsets are positive exactly when the run increases
strictly. -/
theorem offsetsFrom_pos_iff {prev : UInt32} {l : List UInt32} (h : (prev :: l).Sorted (· ≤ ·)) :
    (∀ d ∈ offsetsFrom prev l, 0 < d) ↔ (prev :: l).Sorted (· < ·) := by
  induction l generalizing prev with
  | nil => simp [offsetsFrom]
  | cons a l ih =>
    have hpa : prev ≤ a := List.rel_of_sorted_cons h a (List.mem_cons_self a l)
    have hpos : 0 < a - prev ↔ prev < a := by
      rw [u32_lt_iff, u32_lt_iff, UInt32.toNat_sub_of_le _ _ hpa,
        show (0 : UInt32).toNat = 0 from rfl]
      rw [u32_le_iff] at hpa; omega
    simp only [offsetsFrom, List.mem_cons, forall_eq_or_imp, hpos, ih h.of_cons]
    constructor
    · rintro ⟨hlt, hs⟩
      refine List.sorted_cons.mpr ⟨fun x hx => ?_, hs⟩
      rcases List.mem_cons.mp hx with rfl | hx
      · exact hlt
      · have := List.rel_of_sorted_cons hs x hx
        rw [u32_lt_iff] at *; omega
    · intro hs
      exact ⟨List.rel_of_sorted_cons hs a (List.mem_cons_self a l), hs.of_cons⟩

/-- A non-decreasing run of indexes increases strictly exactly when it repeats none. -/
theorem sorted_lt_iff_nodup {l : List UInt32} (h : l.Sorted (· ≤ ·)) :
    l.Sorted (· < ·) ↔ l.Nodup := by
  induction l with
  | nil => simp
  | cons a l ih =>
    rw [List.sorted_cons, List.nodup_cons, ih h.of_cons]
    refine and_congr_left fun _ => ⟨fun hlt ha => ?_, fun ha b hb => ?_⟩
    · have := hlt a ha
      rw [u32_lt_iff] at this
      omega
    · have hab := u32_le_iff.mp (List.rel_of_sorted_cons h b hb)
      have hne : a.toNat ≠ b.toNat := fun e =>
        ha (UInt32.eq_of_toBitVec_eq (BitVec.eq_of_toNat_eq e) ▸ hb)
      exact u32_lt_iff.mpr (by omega)

/-- Over a non-decreasing run, the offsets after the first are positive exactly when the
run increases strictly. -/
theorem relative_tail_pos_iff {off : List UInt32} (hs : off.Sorted (· ≤ ·)) :
    (∀ d ∈ (absoluteOutputOffsetsToRelative off).tail, 0 < d) ↔ off.Sorted (· < ·) := by
  rw [absolute_output_offsets_to_relative_eq]
  cases off with
  | nil => simp [offsetsFrom]
  | cons a l => exact offsetsFrom_pos_iff hs

/-- The offsets round trip.  The offsets have one entry per index, and their running sums
modulo `2^32` give the indexes back whatever their order.  Over a non-decreasing run each
offset after the first is the integer difference of its index and the one before it, the
running sums give the indexes back exactly, and the offsets after the first are positive
exactly when the run increases strictly. -/
theorem absolute_output_offsets_to_relative_round_trip (off : List UInt32) :
    (absoluteOutputOffsetsToRelative off).length = off.length ∧
    (prefixSums 0 (absoluteOutputOffsetsToRelative off)).map (· % 2 ^ 32) =
      off.map UInt32.toNat ∧
    (off.Sorted (· ≤ ·) →
      (absoluteOutputOffsetsToRelative off).tail.map (fun d => (d.toNat : Int)) =
        List.zipWith (fun b a => (b.toNat : Int) - a.toNat) off.tail off ∧
      prefixSums 0 (absoluteOutputOffsetsToRelative off) = off.map UInt32.toNat ∧
      ((∀ d ∈ (absoluteOutputOffsetsToRelative off).tail, 0 < d) ↔
        off.Sorted (· < ·))) := by
  refine ⟨by simp, ?_, fun hs => ⟨?_, prefixSums_relative hs, relative_tail_pos_iff hs⟩⟩ <;>
    rw [absolute_output_offsets_to_relative_eq]
  · exact @prefixSums_offsetsFrom_mod 0 0 rfl off
  · cases off with
    | nil => rfl
    | cons a l => exact offsetsFrom_toInt hs

theorem absolute_output_offsets_to_relative_round_trip_sorted :
    [(3 : UInt32), 5, 5, 9].Sorted (· ≤ ·) ∧
    ((absoluteOutputOffsetsToRelative [3, 5, 5, 9]).tail.map (fun d => (d.toNat : Int)) =
        List.zipWith (fun (b a : UInt32) => (b.toNat : Int) - a.toNat) [5, 5, 9]
          [3, 5, 5, 9] ∧
      prefixSums 0 (absoluteOutputOffsetsToRelative [3, 5, 5, 9]) =
        [(3 : UInt32), 5, 5, 9].map UInt32.toNat ∧
      ((∀ d ∈ (absoluteOutputOffsetsToRelative [3, 5, 5, 9]).tail, 0 < d) ↔
        [(3 : UInt32), 5, 5, 9].Sorted (· < ·))) :=
  ⟨by decide, (absolute_output_offsets_to_relative_round_trip [3, 5, 5, 9]).2.2 (by decide)⟩

/-- Without the order, positive offsets do not mean increasing indexes: `[1, 0]` gives
`[1, 2^32 - 1]`. -/
theorem absolute_output_offsets_to_relative_positive_unsorted :
    (∀ d ∈ (absoluteOutputOffsetsToRelative [1, 0]).tail, 0 < d) ∧
      ¬ [(1 : UInt32), 0].Sorted (· < ·) := by decide

/-! ## Insertion at the lower bound -/

theorem leGlobalIndex_iff {a b : Output} :
    LeGlobalIndex a b ↔ a.global_index.toNat ≤ b.global_index.toNat := Iff.rfl

instance : IsTotal Output LeGlobalIndex :=
  ⟨fun a b => Nat.le_total a.global_index.toNat b.global_index.toNat⟩

instance : IsTrans Output LeGlobalIndex :=
  ⟨fun _ _ _ => Nat.le_trans⟩

/-- Insertion sort meets the contract of `std::sort`. -/
def insertionSorter : Sorter :=
  ⟨List.insertionSort LeGlobalIndex, List.perm_insertionSort _, List.sorted_insertionSort _⟩

theorem lower_bound_le (outputs : List Output) (real_output : Output) :
    lowerBound outputs real_output ≤ outputs.length := List.findIdx_le_length _

theorem insertIdx_perm {α : Type} (x : α) {l : List α} {n : Nat} (h : n ≤ l.length) :
    (l.insertIdx n x).Perm (x :: l) := by
  induction l generalizing n with
  | nil => rw [Nat.le_zero.mp h]; rfl
  | cons y l ih =>
    cases n with
    | zero => rfl
    | succ n =>
      rw [List.insertIdx_succ_cons]
      exact ((ih (by simpa using h)).cons y).trans (List.Perm.swap x y l)

/-- Inserting an output at its lower bound keeps a list sorted by global index: every
output before it is less, and the first one after it is not. -/
theorem sorted_insertIdx_lower_bound (x : Output) {l : List Output}
    (hl : l.Sorted LeGlobalIndex) : (l.insertIdx (lowerBound l x) x).Sorted LeGlobalIndex := by
  induction l with
  | nil => exact List.sorted_singleton x
  | cons y l ih =>
    have hy := List.rel_of_sorted_cons hl
    unfold lowerBound
    rw [List.findIdx_cons]
    by_cases hxy : y.global_index < x.global_index
    · rw [show (!decide (y.global_index < x.global_index)) = false by simp [hxy], cond_false,
        List.insertIdx_succ_cons]
      refine List.sorted_cons.mpr ⟨fun z hz => ?_, ih hl.of_cons⟩
      rcases List.mem_cons.mp ((insertIdx_perm x (lower_bound_le l x)).subset hz) with rfl | hz
      · rw [u32_lt_iff] at hxy; exact leGlobalIndex_iff.mpr (by omega)
      · exact hy z hz
    · rw [show (!decide (y.global_index < x.global_index)) = true by simp [hxy], cond_true,
        List.insertIdx_zero]
      have hxy' : LeGlobalIndex x y := by
        rw [u32_lt_iff] at hxy; exact leGlobalIndex_iff.mpr (by omega)
      refine List.sorted_cons.mpr ⟨fun z hz => ?_, hl⟩
      rcases List.mem_cons.mp hz with rfl | hz
      · exact hxy'
      · have := hy z hz; rw [leGlobalIndex_iff] at hxy' this ⊢; omega

/-! ## The `InputDesc` of an `add_input` call -/

/-- What `add_input(sender_keys, real_output, mix_outputs)` guarantees of the `InputDesc`
it stores: its ring and the one-time keys that sign for the real output. -/
structure InputDesc.Spends (cr : Crypto) (d : InputDesc) (sender_keys : AccountKeys)
    (real_output : Output) (mix_outputs : List Output) : Prop where
  perm : d.outputs.Perm (mix_outputs ++ [real_output])
  sorted : d.outputs.Sorted LeGlobalIndex
  real : d.outputs[d.real_output_index]? = some real_output
  input : d.input = ⟨real_output.amount,
    absoluteOutputOffsetsToRelative (d.outputs.map (·.global_index)), real_output.key_image⟩
  keys : generateKeyImageHelper cr sender_keys real_output.transaction_public_key
    real_output.index_in_transaction.toNat = some (d.eph_keys, real_output.key_image)
  amounts : ∀ o ∈ d.outputs, o.amount = real_output.amount

/-- The ring's offsets decode to its global indexes, in ring order. -/
theorem InputDesc.Spends.prefixSums {cr : Crypto} {d : InputDesc} {k : AccountKeys}
    {r : Output} {m : List Output} (h : d.Spends cr k r m) :
    Varcoin.prefixSums 0 d.input.output_indexes = d.outputs.map (·.global_index.toNat) := by
  rw [h.input, prefixSums_relative (List.pairwise_map.mpr h.sorted), List.map_map]; rfl

namespace TransactionBuilder

variable {cr : Crypto} {sorter : Sorter}

theorem inputDesc_spends {k : AccountKeys} {r : Output} {m : List Output} {d : InputDesc}
    (h : inputDesc cr sorter k r m = .ok d) : d.Spends cr k r m := by
  unfold inputDesc at h
  split at h
  · cases h
  · rename_i eph ki hk
    split at h
    · cases h
    simp only at h
    split at h
    · cases h
    rename_i hki hamt
    obtain rfl : ki = r.key_image := not_not.mp hki
    cases h
    have hsorted := sorter.sorted m
    have hle := lower_bound_le (sorter.sort m) r
    refine ⟨?_, sorted_insertIdx_lower_bound r hsorted, ?_, rfl, ?_, ?_⟩
    · exact (insertIdx_perm r hle).trans
        (((sorter.perm m).cons r).trans (List.perm_append_singleton r m).symm)
    · show ((sorter.sort m).insertIdx _ r)[lowerBound (sorter.sort m) r]? = some r
      rw [List.getElem?_eq_getElem (by rw [List.length_insertIdx _ _ hle]; omega),
        List.getElem_insertIdx_self _ _ _ hle]
    · exact hk
    · simpa using hamt

/-- Building the `InputDesc` fails only with the three `std::runtime_error`s of
`add_input`. -/
theorem inputDesc_error {k : AccountKeys} {r : Output} {m : List Output} {e : String}
    (h : inputDesc cr sorter k r m = .error e) :
    e = "generating keyimage failed" ∨ e = "generated keyimage does not match input" ∨
      e = "Mixin outputs with different amounts is not allowed" := by
  unfold inputDesc at h
  split at h
  · cases h; exact .inl rfl
  · dsimp only at h
    split_ifs at h <;> cases h
    · exact .inr (.inl rfl)
    · exact .inr (.inr rfl)

/-- An `add_input` that returns appends the `InputDesc` that `inputDesc` builds. -/
theorem add_input_ok {b b' : TransactionBuilder} {k : AccountKeys} {r : Output}
    {m : List Output} {n : Nat} (h : b.addInput cr sorter k r m = .ok n b') :
    ∃ d, inputDesc cr sorter k r m = .ok d ∧ b'.input_descs = b.input_descs ++ [d] := by
  unfold addInput at h
  split at h
  · cases h
  · rename_i d hd
    cases h
    exact ⟨d, hd, rfl⟩

/-- An `add_input` that returns changes the builder only by appending to its input
descriptions and raising `m_inputs_amount` by the real output's amount. -/
theorem add_input_ok_frame {b b' : TransactionBuilder} {k : AccountKeys} {r : Output}
    {m : List Output} {n : Nat} (h : b.addInput cr sorter k r m = .ok n b') :
    b' = { b with input_descs := b'.input_descs, inputs_amount := b.inputs_amount + r.amount } := by
  unfold addInput at h
  split at h
  · cases h
  · cases h; rfl

/-- `add_input` throws only the three `std::runtime_error`s of `inputDesc`. -/
theorem add_input_error_message {b b' : TransactionBuilder} {k : AccountKeys} {r : Output}
    {m : List Output} {e : String} (h : b.addInput cr sorter k r m = .error e b') :
    e = "generating keyimage failed" ∨ e = "generated keyimage does not match input" ∨
      e = "Mixin outputs with different amounts is not allowed" := by
  unfold addInput at h
  split at h
  · cases h; exact inputDesc_error ‹_›
  · cases h

/-- An `add_input` that throws has still raised `m_inputs_amount` by the real output's
amount, and changed nothing else. -/
theorem add_input_error {b b' : TransactionBuilder} {k : AccountKeys} {r : Output}
    {m : List Output} {e : String} (h : b.addInput cr sorter k r m = .error e b') :
    b' = { b with inputs_amount := b.inputs_amount + r.amount } := by
  unfold addInput at h
  split at h
  · cases h; rfl
  · cases h

end TransactionBuilder

end Varcoin
