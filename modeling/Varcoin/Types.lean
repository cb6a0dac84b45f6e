import Mathlib.Algebra.Order.Ring.Nat
import Mathlib.Data.UInt

/-!
# Data model

The records of `TransactionBuilder.cpp` and the external parameters it reads.

Machine integers keep the code's widths: `Amount` and `UnlockMoment` are `UInt64`,
`Height`, `Timestamp` and global indexes are `UInt32`, so every `+`, `-` and `*` on them
wraps as it does in C++.  Counts and sizes that the code keeps in `size_t` and never lets
wrap (`m_inputs_count`, digits, optimization budgets) are natural numbers.

Cryptographic values are opaque: each is a number standing for its 32 bytes, and every
primitive that computes one (`Crypto` in `Varcoin.Builder.Builder`) is a parameter.  The
same holds for the currency's rules and constants, which live outside this file: they
are the fields of `Currency`.
-/

namespace Varcoin

/-- `Amount`: `uint64_t`. -/
abbrev Amount := UInt64
abbrev Height := UInt32
abbrev Timestamp := UInt32
abbrev UnlockMoment := UInt64

structure Hash where
  data : Nat
  deriving DecidableEq, Repr, Inhabited

structure PublicKey where
  data : Nat
  deriving DecidableEq, Repr, Inhabited

structure SecretKey where
  data : Nat
  deriving DecidableEq, Repr, Inhabited

structure KeyImage where
  data : Nat
  deriving DecidableEq, Repr, Inhabited

structure KeyDerivation where
  data : Nat
  deriving DecidableEq, Repr, Inhabited

structure Signature where
  data : Nat
  deriving DecidableEq, Repr, Inhabited

structure KeyPair where
  public_key : PublicKey
  secret_key : SecretKey
  deriving DecidableEq, Repr, Inhabited

structure AccountPublicAddress where
  spend_public_key : PublicKey
  view_public_key : PublicKey
  deriving DecidableEq, Repr, Inhabited

structure AccountKeys where
  address : AccountPublicAddress
  spend_secret_key : SecretKey
  view_secret_key : SecretKey
  deriving DecidableEq, Repr, Inhabited

/-- `api::Output`: one on-chain output as the wallet and the node describe it. -/
structure Output where
  amount : Amount
  global_index : UInt32
  transaction_public_key : PublicKey
  index_in_transaction : UInt32
  public_key : PublicKey
  key_image : KeyImage
  height : Height
  unlock_time : UnlockMoment
  address : String
  dust : Bool
  deriving DecidableEq, Repr, Inhabited

/-- The currency's rules and constants that the selector and the builder read.
`get_maximum_tx_size` is the consensus size bound of a transaction with the given
numbers of inputs, outputs and mixins. -/
structure Currency where
  current_transaction_version : UInt8
  minimum_fee : Amount
  default_dust_threshold : Amount
  isDust : Amount → Bool
  isTransactionSpendTimeUnlocked : UnlockMoment → Height → Timestamp → Bool
  getMaximumTxSize : Nat → Nat → Nat → Nat
  parseAccountAddressString : String → Option AccountPublicAddress

/-! ### `uint64_t` arithmetic read through `toNat` -/

theorem u64_lt_iff {a b : UInt64} : a < b ↔ a.toNat < b.toNat := Iff.rfl

theorem u64_le_iff {a b : UInt64} : a ≤ b ↔ a.toNat ≤ b.toNat := Iff.rfl

theorem u64_toNat_lt (a : UInt64) : a.toNat < 2 ^ 64 := a.toBitVec.isLt

theorem u64_toNat_add (a b : UInt64) : (a + b).toNat = (a.toNat + b.toNat) % 2 ^ 64 :=
  BitVec.toNat_add _ _

theorem u64_toNat_sub (a b : UInt64) : (a - b).toNat = (2 ^ 64 - b.toNat + a.toNat) % 2 ^ 64 :=
  BitVec.toNat_sub _ _

theorem u64_toNat_mul (a b : UInt64) : (a * b).toNat = a.toNat * b.toNat % 2 ^ 64 :=
  BitVec.toNat_mul _ _

theorem u64_toNat_ofNat (n : Nat) : (UInt64.ofNat n).toNat = n % 2 ^ 64 :=
  BitVec.toNat_ofNat _ _

theorem u64_not_lt_zero (a : UInt64) : ¬a < 0 := by simp [u64_lt_iff]

theorem u64_eq_of_toNat_eq {a b : UInt64} (h : a.toNat = b.toNat) : a = b :=
  UInt64.eq_of_toBitVec_eq (BitVec.eq_of_toNat_eq h)

end Varcoin
