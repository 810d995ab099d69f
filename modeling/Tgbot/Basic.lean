import Mathlib.Algebra.Order.Ring.Nat
import Mathlib.Algebra.Order.Ring.Int
import Mathlib.Data.List.Basic
import Mathlib.Data.Set.Operations
import Mathlib.Order.Interval.Set.Defs

/-!
# C scalars and byte strings

The daemon is written in C: sender and chat identifiers are `int64_t`, every text is a
NUL-terminated byte string, and the command parser and the webhook compare bytes
case-insensitively with `strncasecmp`. This module fixes the Lean counterparts that every
other module shares.

## Main definitions

* `Int64`: a C `int64_t`, an integer in `[-2^63, 2^63)`
* `bytes s`: the UTF-8 bytes of a string literal of the source
* `strlen t`, `cstr t`: the C string stored from the start of the bytes `t`
* `strncasecmpEq a b n`: `strncasecmp (a, b, n) == 0` in the C locale
-/

namespace Tgbot

/-- A C `int64_t`. -/
abbrev Int64 := ↥(Set.Ico (-2 ^ 63 : Int) (2 ^ 63))

namespace Int64

/-- The C conversion of an integer to `int64_t`: two's complement modulo `2^64`. -/
def ofInt (x : Int) : Int64 :=
  ⟨(x + 2 ^ 63) % 2 ^ 64 - 2 ^ 63, by simp only [Set.mem_Ico]; omega⟩

instance : Zero Int64 := ⟨ofInt 0⟩

/-- `(uint64_t)x`. -/
def toUInt64 (x : Int64) : UInt64 := UInt64.ofNat (x.val % 2 ^ 64).toNat

end Int64

/-- The bytes of a string literal of the source, as the compiler lays them out (UTF-8). -/
def bytes (s : String) : List UInt8 := s.data.flatMap String.utf8EncodeChar

/-- The C string stored from the start of `t`: the bytes before the first NUL. -/
def cstr (t : List UInt8) : List UInt8 := t.takeWhile (· ≠ 0)

/-- `strlen`. -/
def strlen (t : List UInt8) : Nat := (cstr t).length

/-- `tolower` in the C locale: only ASCII capitals change. -/
def toLower (c : UInt8) : UInt8 := if 65 ≤ c ∧ c ≤ 90 then c + 32 else c

/-- `strncasecmp (a, b, n) == 0` on the C strings `a` and `b` (given without their
terminator): the first `n` bytes agree up to case, where a string that ends compares as its
terminator. -/
def strncasecmpEq : List UInt8 → List UInt8 → Nat → Bool
  | _, _, 0 => true
  | [], [], _ + 1 => true
  | a :: as, b :: bs, n + 1 => toLower a == toLower b && strncasecmpEq as bs n
  | _, _, _ + 1 => false

/-- Bytes are equal exactly when their bit vectors are: the form `bv_omega` decides. -/
theorem uint8_eq_iff_toBitVec (x y : UInt8) : x = y ↔ x.toBitVec = y.toBitVec :=
  ⟨UInt8.toBitVec_eq_of_eq, UInt8.eq_of_toBitVec_eq⟩

theorem bytes_append (s t : String) : bytes (s ++ t) = bytes s ++ bytes t := by
  simp [bytes, List.flatMap_append]

@[simp] theorem cstr_nil : cstr [] = [] := rfl

theorem cstr_eq_self {t : List UInt8} (h : 0 ∉ t) : cstr t = t :=
  List.takeWhile_eq_self_iff.2 fun x hx => by
    simp only [ne_eq, decide_eq_true_eq]
    rintro rfl
    exact h hx

theorem strlen_eq_length {t : List UInt8} (h : 0 ∉ t) : strlen t = t.length := by
  rw [strlen, cstr_eq_self h]

theorem zero_not_mem_cstr (t : List UInt8) : 0 ∉ cstr t := fun h => by
  simpa using List.mem_takeWhile_imp h

theorem zero_not_mem_take_cstr (t : List UInt8) (n : Nat) : 0 ∉ (cstr t).take n :=
  fun h => zero_not_mem_cstr t (List.mem_of_mem_take h)

/-- The byte at index `strlen t` is the terminator: a NUL, or past the end. -/
theorem getD_strlen : ∀ t : List UInt8, t.getD (strlen t) 0 = 0
  | [] => rfl
  | c :: cs => by
    by_cases hc : c = 0
    · simp [strlen, cstr, List.takeWhile_cons, hc]
    · simpa [strlen, cstr, List.takeWhile_cons, hc] using getD_strlen cs

/-- Before the terminator, `t` and its C string agree. -/
theorem getD_of_lt_strlen : ∀ (t : List UInt8) (i : Nat) (h : i < strlen t),
    t.getD i 0 = (cstr t)[i]
  | [], _, h => absurd h (by simp [strlen])
  | c :: cs, i, h => by
    by_cases hc : c = 0
    · simp [strlen, cstr, List.takeWhile_cons, hc] at h
    · cases i with
      | zero => simp [cstr, List.takeWhile_cons, hc]
      | succ i =>
        have h' : i < strlen cs := by simpa [strlen, cstr, List.takeWhile_cons, hc] using h
        simpa [cstr, List.takeWhile_cons, hc] using getD_of_lt_strlen cs i h'

/-- `strncasecmp (a, b, n) == 0` compares the first `n` bytes up to case. -/
theorem strncasecmpEq_iff : ∀ (a b : List UInt8) (n : Nat),
    strncasecmpEq a b n = true ↔ (a.take n).map toLower = (b.take n).map toLower
  | _, _, 0 => by simp [strncasecmpEq]
  | [], [], _ + 1 => by simp [strncasecmpEq]
  | a :: as, b :: bs, n + 1 => by simp [strncasecmpEq, strncasecmpEq_iff as bs n]
  | [], _ :: _, _ + 1 => by simp [strncasecmpEq]
  | _ :: _, [], _ + 1 => by simp [strncasecmpEq]

end Tgbot
