import Tgbot.Basic

/-!
# The circular log file and its overwrite marker

`logger.c` keeps its log in one file of at most `max_bytes` bytes. Once the file is full it
writes from the top again, and after each line it writes the 20-byte marker
`---^-OVERWRITE-^---\n` where the next line will go, so that a reader, or `log_init` after a
restart, can tell the newest line from the oldest.

This module models the file as its bytes and a write as `fseek` then `fwrite`, and proves how a
write changes the places the marker occurs at.

## Main definitions

* `marker`, `blanks`: `MARKER`, and what `log_write` writes over a stale one
* `writeAt`: the file after writing bytes at an offset
* `markerAt file p`: the marker starts at offset `p`

## Main results

* `getD_writeAt`: a write changes exactly the bytes it covers
* `markerAt_writeAt`: the markers after writing a block, from those before and those inside
  the block
* `markerAt_append_marker`: a line followed by the marker holds it once, at its end
-/

namespace Tgbot

/-- `MARKER_LEN`. -/
def markerLen : Nat := 20

/-- `MARKER`. -/
def marker : List UInt8 := bytes "---^-OVERWRITE-^---\n"

/-- What `log_write` writes over a stale marker: `MARKER_LEN - 1` spaces and a newline. -/
def blanks : List UInt8 := List.replicate (markerLen - 1) 32 ++ [10]

/-- The file after `fseek (fp, pos, SEEK_SET)` and `fwrite (data)`; bytes skipped past the end
read as zeros. -/
def writeAt (file : List UInt8) (pos : Nat) (data : List UInt8) : List UInt8 :=
  file.take pos ++ List.replicate (pos - file.length) 0 ++ data ++ file.drop (pos + data.length)

/-- The marker starts at offset `p` of `file`. -/
def markerAt (file : List UInt8) (p : Nat) : Prop :=
  ∀ k < markerLen, file.getD (p + k) 0 = marker.getD k 0

instance (file : List UInt8) (p : Nat) : Decidable (markerAt file p) :=
  inferInstanceAs (Decidable (∀ k < markerLen, _))

/-- The marker occurs nowhere in `file`. -/
def NoMarker (file : List UInt8) : Prop := ∀ p, ¬ markerAt file p

/-! ## The marker's bytes -/

theorem length_marker : marker.length = markerLen := by decide

/-- The marker holds no NUL, space or `[`, and its one newline ends it. -/
theorem marker_bytes : ∀ k < markerLen, marker.getD k 0 ≠ 0 ∧ marker.getD k 0 ≠ 32 ∧
    marker.getD k 0 ≠ 91 ∧ (marker.getD k 0 = 10 ↔ k = markerLen - 1) := by
  decide

theorem add_markerLen_le_of_markerAt {file : List UInt8} {p : Nat} (h : markerAt file p) :
    p + markerLen ≤ file.length := by
  by_contra hlt
  have := h (markerLen - 1) (by decide)
  rw [List.getD_eq_getElem?_getD, List.getElem?_eq_none (by unfold markerLen at hlt ⊢; omega),
    Option.getD_none] at this
  exact (marker_bytes (markerLen - 1) (by decide)).1 this.symm

theorem noMarker_blanks : NoMarker blanks := fun p h => by
  have hp := add_markerLen_le_of_markerAt h
  obtain rfl : p = 0 := by simp [blanks, markerLen] at hp; omega
  revert h
  decide

theorem noMarker_take {file : List UInt8} (h : NoMarker file) (n : Nat) :
    NoMarker (file.take n) := fun p hp => h p fun k hk => by
  have hlen := add_markerLen_le_of_markerAt hp
  rw [← hp k hk, List.getD_eq_getElem?_getD, List.getD_eq_getElem?_getD, List.getElem?_take,
    if_pos (by simp at hlen; omega)]

/-! ## Writes -/

section Write

variable {file : List UInt8} (data : List UInt8) {pos : Nat}

theorem writeAt_eq (h : pos ≤ file.length) :
    writeAt file pos data = file.take pos ++ data ++ file.drop (pos + data.length) := by
  simp [writeAt, Nat.sub_eq_zero_of_le h]

theorem length_writeAt : (writeAt file pos data).length = max file.length (pos + data.length) := by
  simp only [writeAt, List.length_append, List.length_take, List.length_replicate, List.length_drop]
  omega

/-- **A write changes exactly the bytes it covers.** -/
theorem getD_writeAt (h : pos ≤ file.length) (i : Nat) :
    (writeAt file pos data).getD i 0 =
      if i < pos then file.getD i 0
      else if i < pos + data.length then data.getD (i - pos) 0 else file.getD i 0 := by
  rw [writeAt_eq data h]
  simp only [List.getD_eq_getElem?_getD, List.getElem?_append, List.length_append,
    List.length_take, List.getElem?_take, List.getElem?_drop]
  split_ifs <;> first | omega | (congr 2; omega) | skip
  all_goals simp_all [List.getElem?_eq_none]

end Write

/-! ## Where the marker is after a write -/

section Block

variable {file data : List UInt8} {pos p : Nat}

/-- **The markers after writing a block** at `pos`: those of the old file clear of the block,
and those inside the block. No marker can straddle an edge of the block when its first byte
is not a marker byte (or it starts the file), and its last byte is a newline (or nothing
follows it). -/
theorem markerAt_writeAt (h : pos ≤ file.length) (hdata : data ≠ [])
    (hleft : pos = 0 ∨ ∀ k < markerLen, marker.getD k 0 ≠ data.getD 0 0)
    (hright : data.getLast? = some 10 ∨ file.length ≤ pos + data.length) :
    markerAt (writeAt file pos data) p ↔
      (p + markerLen ≤ pos ∧ markerAt file p) ∨ (pos + data.length ≤ p ∧ markerAt file p) ∨
        (pos ≤ p ∧ markerAt data (p - pos)) := by
  have hML : markerLen = 20 := rfl
  have hlen : 0 < data.length := List.length_pos.2 hdata
  have hget := getD_writeAt data h
  constructor
  · intro hm
    by_cases c₁ : p + markerLen ≤ pos
    · exact .inl ⟨c₁, fun k hk => by rw [← hm k hk, hget, if_pos (by omega)]⟩
    by_cases c₂ : pos + data.length ≤ p
    · exact .inr (.inl ⟨c₂, fun k hk => by rw [← hm k hk, hget, if_neg (by omega),
        if_neg (by omega)]⟩)
    by_cases c₃ : pos ≤ p ∧ p + markerLen ≤ pos + data.length
    · refine .inr (.inr ⟨c₃.1, fun k hk => ?_⟩)
      rw [← hm k hk, hget, if_neg (by omega), if_pos (by omega)]
      congr 1
      omega
    exfalso
    by_cases c₄ : p < pos
    · -- the block's first byte would be a marker byte
      have := hm (pos - p) (by omega)
      rw [hget, if_neg (by omega), if_pos (by omega), show p + (pos - p) - pos = 0 by omega]
        at this
      rcases hleft with h0 | hleft
      · omega
      · exact hleft _ (by omega) this.symm
    · -- the block's end would fall inside the marker
      rcases hright with hnl | hend
      · have := hm (pos + data.length - 1 - p) (by omega)
        rw [hget, if_neg (by omega), if_pos (by omega),
          show p + (pos + data.length - 1 - p) - pos = data.length - 1 by omega,
          List.getD_eq_getElem?_getD, ← List.getLast?_eq_getElem?, hnl] at this
        have := ((marker_bytes _ (by omega)).2.2.2.1 this.symm)
        omega
      · have := hm (pos + data.length - p) (by omega)
        rw [hget, if_neg (by omega), if_neg (by omega), List.getD_eq_getElem?_getD,
          List.getElem?_eq_none (by omega)] at this
        exact (marker_bytes _ (by omega)).1 this.symm
  · rintro (⟨c, hm⟩ | ⟨c, hm⟩ | ⟨c, hm⟩) k hk
    · rw [hget, if_pos (by omega), hm k hk]
    · rw [hget, if_neg (by omega), if_neg (by omega), hm k hk]
    · have := add_markerLen_le_of_markerAt hm
      rw [hget, if_neg (by omega), if_pos (by omega), ← hm k hk]
      congr 1
      omega

/-- A line with no marker, followed by the marker, holds the marker once: at its end. -/
theorem markerAt_append_marker {line : List UInt8} (hline : NoMarker line) (q : Nat) :
    markerAt (line ++ marker) q ↔ q = line.length := by
  have hML : markerLen = 20 := rfl
  have hget : ∀ i, (line ++ marker).getD i 0 =
      if i < line.length then line.getD i 0 else marker.getD (i - line.length) 0 := fun i => by
    simp only [List.getD_eq_getElem?_getD, List.getElem?_append]
    split_ifs <;> rfl
  constructor
  · intro hm
    have hlen := add_markerLen_le_of_markerAt hm
    simp only [List.length_append, length_marker] at hlen
    by_contra hq
    rcases Nat.lt_or_gt_of_ne hq with hq | hq
    · by_cases hin : q + markerLen ≤ line.length
      · exact hline q fun k hk => by rw [← hm k hk, hget, if_pos (by omega)]
      · -- the occurrence would end inside the marker, before its newline
        have := hm (markerLen - 1) (by decide)
        rw [hget, if_neg (by omega), ((marker_bytes _ (by decide)).2.2.2).2 rfl] at this
        have := ((marker_bytes _ (by omega)).2.2.2.1 this)
        omega
    · omega
  · rintro rfl k hk
    rw [hget, if_neg (by omega), Nat.add_sub_cancel_left]

end Block

end Tgbot
