import Mathlib.Data.Nat.Bitwise
import Mathlib.Data.Nat.Size
import Tgbot.Basic

/-!
# Per-user rings

`queue.c` keeps one FIFO ring per sender: `cap` slots, a read position `head`, a write
position `tail` and a `count`; indices advance by masking with `cap_mask = cap - 1`, which is
reduction modulo `cap` because `round_up_pow2` makes `cap` a power of two. This module models
one ring and the two ring operations that `queue_push` and `ring_pop_any` perform on it, and
proves that they act on the ring's FIFO view as an append and a removal of the head.

## Main definitions

* `Slot`, `UserRing`: the C structs, without the hash-chain link (a chain is a list)
* `roundUpPow2`: `round_up_pow2` on a C `int`
* `UserRing.contents`: the FIFO view, `count` slots read from `head`
* `UserRing.push`, `UserRing.pop`: the ring halves of `queue_push` and `ring_pop_any`
* `UserRing.Inv`: the ring invariant

## Main results

* `roundUpPow2_spec`: `round_up_pow2` returns the least power of two at least `max v 4`,
  as a C `int`
* `UserRing.contents_push`, `UserRing.contents_pop`: push appends, pop removes the head
* `UserRing.Inv.push`, `UserRing.Inv.pop`: both keep the ring invariant
-/

namespace Tgbot

/-- `Slot`: one queued message. Its `ingress_sec` clock reading is left out: only the
worker's pacing sleep reads it. -/
structure Slot where
  chatId : Int64
  text : List UInt8
deriving DecidableEq

instance : Inhabited Slot := ⟨⟨0, []⟩⟩

/-! ## `round_up_pow2` -/

/-- The five `v |= v >> k` steps of `round_up_pow2`. On the non-negative values it sees
they act on a C `int` as on a natural number. -/
def smear (v : Nat) : Nat :=
  let v := v ||| v >>> 1
  let v := v ||| v >>> 2
  let v := v ||| v >>> 4
  let v := v ||| v >>> 8
  v ||| v >>> 16

/-- The 32-bit two's complement `int` with the bits `n`. -/
def toInt32 (n : Nat) : Int := if n < 2 ^ 31 then n else n - 2 ^ 32

/-- `round_up_pow2` on a C `int`: clamp to 4, smear `v - 1` and add one. For `v > 2^30` the
final `v++` leaves the `int` range and wraps to `INT_MIN`. -/
def roundUpPow2 (v : Int) : Int :=
  let v := if v < 4 then 4 else v
  toInt32 (smear (v - 1).toNat + 1)

/-- `p` is the least power of two that is at least `n`. -/
def IsLeastPow2Ge (n p : Nat) : Prop :=
  (∃ k, p = 2 ^ k) ∧ n ≤ p ∧ ∀ k, n ≤ 2 ^ k → p ≤ 2 ^ k

private theorem testBit_lor_shiftRight {x y : Nat} (m : Nat)
    (hy : ∀ i, y.testBit i = true ↔ ∃ d < m, x.testBit (i + d) = true) (i : Nat) :
    (y ||| y >>> m).testBit i = true ↔ ∃ d < 2 * m, x.testBit (i + d) = true := by
  simp only [Nat.testBit_lor, Nat.testBit_shiftRight, Bool.or_eq_true, hy]
  constructor
  · rintro (⟨d, hd, h⟩ | ⟨d, hd, h⟩)
    · exact ⟨d, by omega, h⟩
    · exact ⟨m + d, by omega, by rwa [show i + (m + d) = m + i + d by omega]⟩
  · rintro ⟨d, hd, h⟩
    by_cases hdm : d < m
    · exact .inl ⟨d, hdm, h⟩
    · exact .inr ⟨d - m, by omega, by rwa [show m + i + (d - m) = i + d by omega]⟩

/-- Bit `i` of the smeared value is set iff one of the 32 bits from `i` up is set in `x`. -/
theorem testBit_smear (x i : Nat) :
    (smear x).testBit i = true ↔ ∃ d < 32, x.testBit (i + d) = true := by
  have h1 : ∀ i, x.testBit i = true ↔ ∃ d < 1, x.testBit (i + d) = true := fun i => by simp
  exact testBit_lor_shiftRight 16 (testBit_lor_shiftRight 8 (testBit_lor_shiftRight 4
    (testBit_lor_shiftRight 2 (testBit_lor_shiftRight 1 h1)))) i

theorem exists_testBit_iff_lt_size {x : Nat} (hx : x < 2 ^ 32) (i : Nat) :
    (∃ d < 32, x.testBit (i + d) = true) ↔ i < x.size := by
  constructor
  · rintro ⟨d, -, h⟩
    exact lt_of_le_of_lt (Nat.le_add_right i d) (Nat.lt_size.2 (Nat.testBit_implies_ge h))
  · intro h
    obtain ⟨j, hij, hj⟩ := Nat.ge_two_pow_implies_high_bit_true (Nat.lt_size.1 h)
    have hj32 : j < 32 := by
      by_contra hge
      have : x < 2 ^ j := lt_of_lt_of_le hx (Nat.pow_le_pow_right (by decide) (by omega))
      simp [Nat.testBit_lt_two_pow this] at hj
    exact ⟨j - i, by omega, by rwa [Nat.add_sub_cancel' hij]⟩

/-- On 32-bit values the smear fills every bit below the top one. -/
theorem smear_eq {x : Nat} (hx : x < 2 ^ 32) : smear x = 2 ^ x.size - 1 :=
  Nat.eq_of_testBit_eq fun i => by
    rw [Nat.testBit_two_pow_sub_one, Bool.eq_iff_iff, testBit_smear,
      exists_testBit_iff_lt_size hx, decide_eq_true_iff]

theorem isLeastPow2Ge_two_pow_size {n : Nat} (hn : 0 < n) :
    IsLeastPow2Ge n (2 ^ (n - 1).size) := by
  refine ⟨⟨_, rfl⟩, ?_, fun k hk => Nat.pow_le_pow_right (by decide) ?_⟩
  · have := Nat.lt_size_self (n - 1)
    omega
  · exact Nat.size_le.2 (by omega)

/-- **`round_up_pow2`** returns, as a C `int`, the least power of two that is at least
`max v 4`. -/
theorem roundUpPow2_spec {v : Int} (hv : v < 2 ^ 31) :
    ∃ p, IsLeastPow2Ge (max v 4).toNat p ∧ roundUpPow2 v = toInt32 p := by
  have hw : (max v 4).toNat - 1 < 2 ^ 32 := by omega
  refine ⟨_, isLeastPow2Ge_two_pow_size (by omega), ?_⟩
  have hsub : ((if v < 4 then 4 else v) - 1).toNat = (max v 4).toNat - 1 := by
    split <;> omega
  have hpos : 0 < 2 ^ ((max v 4).toNat - 1).size := Nat.pos_pow_of_pos _ (by decide)
  simp only [roundUpPow2, hsub, smear_eq hw]
  congr 1
  omega

/-- A positive `round_up_pow2` is a power of two. -/
theorem roundUpPow2_pow_two {v : Int} (hv : v < 2 ^ 31) (hpos : 0 < roundUpPow2 v) :
    ∃ k, (roundUpPow2 v).toNat = 2 ^ k := by
  obtain ⟨p, ⟨⟨k, rfl⟩, -, hle⟩, hp⟩ := roundUpPow2_spec hv
  have h31 : 2 ^ k ≤ 2 ^ 31 := hle 31 (by omega)
  refine ⟨k, ?_⟩
  rw [hp, toInt32] at hpos ⊢
  by_cases h : 2 ^ k < 2 ^ 31
  · rw [if_pos h]
    omega
  · rw [if_neg h] at hpos
    omega

/-! ## One ring -/

/-- `struct UserRing`, without its `next` link: a hash chain is a list of rings. -/
structure UserRing where
  userId : Int64
  slots : Nat → Slot
  head : Nat
  tail : Nat
  count : Nat
  cap : Nat
  capMask : Nat

namespace UserRing

/-- The ring `ring_get_or_create` allocates for `userId`: zeroed by `calloc`, with `cap` and
`cap_mask` set. -/
def create (userId : Int64) (cap : Nat) : UserRing :=
  { userId := userId, slots := fun _ => default, head := 0, tail := 0, count := 0, cap := cap,
    capMask := cap - 1 }

/-- **The FIFO view** of a ring: `count` slots read from `head`. -/
def contents (r : UserRing) : List Slot :=
  (List.range r.count).map fun i => r.slots ((r.head + i) % r.cap)

/-- The ring half of `queue_push`: refused when full (drop newest), else the slot is written
at `tail`. -/
def push (r : UserRing) (s : Slot) : Option UserRing :=
  if r.count ≥ r.cap then none
  else some { r with slots := Function.update r.slots r.tail s,
                     tail := (r.tail + 1) &&& r.capMask, count := r.count + 1 }

/-- The ring half of `ring_pop_any`: the slot at `head`, and the ring after `head` advances
and `count` drops. -/
def pop (r : UserRing) : Slot × UserRing :=
  (r.slots r.head, { r with head := (r.head + 1) &&& r.capMask, count := r.count - 1 })

/-- The ring invariant: a power-of-two capacity with its mask, and `tail` `count` slots after
`head`. -/
structure Inv (r : UserRing) : Prop where
  cap_pow : ∃ k, r.cap = 2 ^ k
  capMask_eq : r.capMask = r.cap - 1
  count_le : r.count ≤ r.cap
  head_lt : r.head < r.cap
  tail_eq : r.tail = (r.head + r.count) % r.cap

@[simp] theorem userId_create (u : Int64) (cap : Nat) : (create u cap).userId = u := rfl
@[simp] theorem count_create (u : Int64) (cap : Nat) : (create u cap).count = 0 := rfl
@[simp] theorem cap_create (u : Int64) (cap : Nat) : (create u cap).cap = cap := rfl
@[simp] theorem userId_pop (r : UserRing) : r.pop.2.userId = r.userId := rfl
@[simp] theorem cap_pop (r : UserRing) : r.pop.2.cap = r.cap := rfl
@[simp] theorem count_pop (r : UserRing) : r.pop.2.count = r.count - 1 := rfl

@[simp] theorem length_contents (r : UserRing) : r.contents.length = r.count := by
  simp [contents]

@[simp] theorem contents_create (u : Int64) (cap : Nat) : (create u cap).contents = [] := rfl

theorem push_eq_none_iff (r : UserRing) (s : Slot) : r.push s = none ↔ r.cap ≤ r.count := by
  unfold push
  split <;> simp_all

theorem push_eq_some {r r' : UserRing} {s : Slot} (h : r.push s = some r') :
    r.count < r.cap ∧
      r' = { r with slots := Function.update r.slots r.tail s,
                    tail := (r.tail + 1) &&& r.capMask, count := r.count + 1 } := by
  unfold push at h
  split at h
  · cases h
  · exact ⟨by omega, (Option.some.inj h).symm⟩

theorem userId_of_push {r r' : UserRing} {s : Slot} (h : r.push s = some r') :
    r'.userId = r.userId := by
  obtain ⟨-, rfl⟩ := push_eq_some h
  rfl

theorem cap_of_push {r r' : UserRing} {s : Slot} (h : r.push s = some r') : r'.cap = r.cap := by
  obtain ⟨-, rfl⟩ := push_eq_some h
  rfl

theorem count_of_push {r r' : UserRing} {s : Slot} (h : r.push s = some r') :
    r'.count = r.count + 1 := by
  obtain ⟨-, rfl⟩ := push_eq_some h
  rfl

theorem Inv.cap_pos {r : UserRing} (h : r.Inv) : 0 < r.cap := by
  obtain ⟨k, hk⟩ := h.cap_pow
  exact hk ▸ Nat.pos_pow_of_pos k (by decide)

/-- Masking with `cap_mask` is reduction modulo `cap`. -/
theorem Inv.and_capMask {r : UserRing} (h : r.Inv) (x : Nat) : x &&& r.capMask = x % r.cap := by
  obtain ⟨k, hk⟩ := h.cap_pow
  rw [h.capMask_eq, hk, Nat.and_pow_two_sub_one_eq_mod]

theorem Inv.create {cap : Nat} (hcap : ∃ k, cap = 2 ^ k) (u : Int64) : (create u cap).Inv where
  cap_pow := hcap
  capMask_eq := rfl
  count_le := Nat.zero_le _
  head_lt := by obtain ⟨k, rfl⟩ := hcap; exact Nat.pos_pow_of_pos k (by decide)
  tail_eq := by simp [UserRing.create]

private theorem mod_ne_of_lt {h i j n : Nat} (hij : i < j) (hj : j < n) :
    (h + i) % n ≠ (h + j) % n := fun heq => by
  have := Nat.sub_mod_eq_zero_of_mod_eq heq.symm
  rw [show h + j - (h + i) = j - i by omega, Nat.mod_eq_of_lt (by omega)] at this
  omega

theorem Inv.push {r r' : UserRing} {s : Slot} (h : r.Inv) (hp : r.push s = some r') :
    r'.Inv := by
  obtain ⟨hlt, rfl⟩ := push_eq_some hp
  refine ⟨h.cap_pow, h.capMask_eq, hlt, h.head_lt, ?_⟩
  simp only [h.and_capMask, h.tail_eq, Nat.mod_add_mod, Nat.add_assoc]

/-- Push appends its slot to the FIFO view. -/
theorem contents_push {r r' : UserRing} {s : Slot} (h : r.Inv) (hp : r.push s = some r') :
    r'.contents = r.contents ++ [s] := by
  obtain ⟨hlt, rfl⟩ := push_eq_some hp
  simp only [contents, List.range_succ, List.map_append, List.map_singleton]
  congr 1
  · refine List.map_congr_left fun i hi => Function.update_noteq ?_ _ _
    rw [h.tail_eq]
    exact mod_ne_of_lt (List.mem_range.1 hi) hlt
  · rw [← h.tail_eq, Function.update_same]

theorem Inv.pop {r : UserRing} (h : r.Inv) (hc : 0 < r.count) : r.pop.2.Inv where
  cap_pow := h.cap_pow
  capMask_eq := h.capMask_eq
  count_le := by simp only [count_pop, cap_pop]; have := h.count_le; omega
  head_lt := by simp only [UserRing.pop, h.and_capMask]; exact Nat.mod_lt _ h.cap_pos
  tail_eq := by
    simp only [UserRing.pop, h.and_capMask, Nat.mod_add_mod, h.tail_eq]
    congr 1
    omega

/-- Pop removes the head of the FIFO view and returns it. -/
theorem contents_pop {r : UserRing} (h : r.Inv) (hc : 0 < r.count) :
    r.contents = r.pop.1 :: r.pop.2.contents := by
  obtain ⟨n, hn⟩ := Nat.exists_eq_add_of_lt hc
  simp only [contents, UserRing.pop, hn, Nat.zero_add, List.range_succ_eq_map, List.map_cons,
    List.map_map, Nat.add_zero, Nat.mod_eq_of_lt h.head_lt, h.and_capMask, Nat.add_sub_cancel]
  congr 1
  refine List.map_congr_left fun i _ => ?_
  simp only [Function.comp, Nat.mod_add_mod]
  congr 2
  omega

end UserRing

end Tgbot
