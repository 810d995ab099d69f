import Mathlib.Data.List.GetD
import Tgbot.Log.File

/-!
# The line `log_write` builds

`log_write` formats a line on the stack: the timestamp of `fmt_timestamp`, the level's tag
padded to five columns, then the message, cut to fit `LINE_BUF_MAX` and ended by a newline.
The message is whatever `vsnprintf` produces, user text included.

## Main definitions

* `LogLevel`, `Tm`: the level of a call and the broken-down time `gmtime_r` gives
* `fmtTimestamp`, `logPrefix`, `logLine`

## Main results

* `length_logLine_le`: a line has at most `LINE_BUF_MAX - 1` bytes
* `noMarker_logLine`: a line holds the marker only if its message holds the marker's text
-/

namespace Tgbot

/-- `LogLevel`. -/
inductive LogLevel
  | debug
  | info
  | warn
  | error
deriving DecidableEq

/-- The value of a `LogLevel` in C. -/
def LogLevel.toNat : LogLevel → Nat
  | .debug => 0
  | .info => 1
  | .warn => 2
  | .error => 3

/-- `g_level_tags`. -/
def levelTag : LogLevel → List UInt8
  | .debug => bytes "DEBUG"
  | .info => bytes "INFO"
  | .warn => bytes "WARN"
  | .error => bytes "ERROR"

/-- The fields of the `struct tm` that `fmt_timestamp` reads: the year (`tm_year + 1900`),
and `tm_mon`, `tm_mday`, `tm_hour`, `tm_min` and `tm_sec`. -/
structure Tm where
  year : Int
  mon : Nat
  mday : Nat
  hour : Nat
  min : Nat
  sec : Nat

/-- `%0wd` of a number below `10 ^ w`: its `w` last decimal digits. -/
def decimalPad (w n : Nat) : List UInt8 :=
  (List.range w).reverse.map fun i => UInt8.ofNat (48 + n / 10 ^ i % 10)

/-- **`fmt_timestamp`**: `[YYYY-MM-DD HH:MM:SS] `, the year clamped to four digits. -/
def fmtTimestamp (tm : Tm) : List UInt8 :=
  let year := max 0 (min tm.year 9999)
  bytes "[" ++ decimalPad 4 year.toNat ++ bytes "-" ++ decimalPad 2 ((tm.mon + 1) % 100) ++
    bytes "-" ++ decimalPad 2 (tm.mday % 100) ++ bytes " " ++ decimalPad 2 (tm.hour % 100) ++
    bytes ":" ++ decimalPad 2 (tm.min % 100) ++ bytes ":" ++ decimalPad 2 (tm.sec % 100) ++
    bytes "] "

/-- The line's first `prefix_len` bytes: `"%s[%-5s] "` of the timestamp and the tag. -/
def logPrefix (tm : Tm) (level : LogLevel) : List UInt8 :=
  fmtTimestamp tm ++ bytes "[" ++ levelTag level ++
    List.replicate (5 - (levelTag level).length) 32 ++ bytes "] "

/-- `LINE_BUF_MAX`. -/
def lineBufMax : Nat := 4096

/-- **The line `log_write` builds** for the message `msg`: `prefix_len + msg_len` bytes, cut
to `LINE_BUF_MAX - 2`, then a newline unless the last byte is one. -/
def logLine (tm : Tm) (level : LogLevel) (msg : List UInt8) : List UInt8 :=
  let pre := logPrefix tm level
  let total := pre.length + msg.length
  let total := if total ≥ lineBufMax - 1 then lineBufMax - 2 else total
  let body := (pre ++ msg).take total
  if total = 0 ∨ body.getLast? ≠ some 10 then body ++ [10] else body

/-! ## The prefix -/

theorem length_decimalPad (w n : Nat) : (decimalPad w n).length = w := by
  simp [decimalPad]

theorem length_fmtTimestamp (tm : Tm) : (fmtTimestamp tm).length = 22 := by
  simp only [fmtTimestamp, List.length_append, length_decimalPad]
  rfl

theorem length_logPrefix (tm : Tm) (level : LogLevel) : (logPrefix tm level).length = 30 := by
  cases level <;> simp only [logPrefix, List.length_append, length_fmtTimestamp] <;> rfl

/-- The prefix holds no `^` and no newline. -/
theorem caret_newline_not_mem_logPrefix (tm : Tm) (level : LogLevel) :
    (94 : UInt8) ∉ logPrefix tm level ∧ (10 : UInt8) ∉ logPrefix tm level := by
  have digit : ∀ w n, (94 : UInt8) ∉ decimalPad w n ∧ (10 : UInt8) ∉ decimalPad w n := by
    have key : ∀ d : Fin 10, UInt8.ofNat (48 + d.val) ≠ 94 ∧ UInt8.ofNat (48 + d.val) ≠ 10 := by
      decide
    refine fun w n => ⟨fun hb => ?_, fun hb => ?_⟩ <;> obtain ⟨i, -, hi⟩ := List.mem_map.1 hb
    exacts [(key ⟨_, Nat.mod_lt _ (by decide)⟩).1 hi, (key ⟨_, Nat.mod_lt _ (by decide)⟩).2 hi]
  -- the level's tag and the spaces that pad it
  have tag : (94 : UInt8) ∉ levelTag level ∧ (10 : UInt8) ∉ levelTag level := by
    cases level <;> decide
  simp only [logPrefix, fmtTimestamp, List.mem_append, digit, tag, List.mem_replicate,
    show (94 : UInt8) ≠ 32 by decide, show (10 : UInt8) ≠ 32 by decide, and_false, or_false]
  decide

/-- The prefix ends with a space. -/
theorem getD_logPrefix_last (tm : Tm) (level : LogLevel) : (logPrefix tm level).getD 29 0 = 32 := by
  have h := List.getLast?_eq_getElem? (logPrefix tm level)
  rw [length_logPrefix] at h
  rw [List.getD_eq_getElem?_getD, show 29 = 30 - 1 from rfl, ← h, logPrefix, List.getLast?_append]
  rfl

/-- The prefix starts with `[`. -/
theorem getD_logPrefix_zero (tm : Tm) (level : LogLevel) : (logPrefix tm level).getD 0 0 = 91 := by
  simp only [logPrefix, fmtTimestamp, List.append_assoc, List.getD_eq_getElem?_getD,
    List.getElem?_append_left (show 0 < (bytes "[").length by decide)]
  rfl

/-- A string with no NUL that can be read, byte by byte, at offset `j` of `l` occurs in `l`. -/
theorem isInfix_of_getD {l t : List UInt8} {j : Nat} (hz : 0 ∉ t)
    (h : ∀ k < t.length, l.getD (j + k) 0 = t.getD k 0) : t <:+: l := by
  have hlt : ∀ k < t.length, j + k < l.length := fun k hk => by
    by_contra hc
    have := h k hk
    rw [List.getD_eq_getElem?_getD, List.getElem?_eq_none (by omega), List.getD_eq_getElem _ _ hk,
      Option.getD_none] at this
    exact hz (by rw [this]; exact List.getElem_mem hk)
  have hn : t.length ≤ l.length - j := by
    rcases Nat.eq_zero_or_pos t.length with h0 | hpos
    · omega
    · have := hlt _ (Nat.sub_lt hpos Nat.one_pos)
      omega
  have heq : (l.drop j).take t.length = t := List.ext_getElem (by simpa using hn) fun k h₁ h₂ => by
    have := h k h₂
    rw [List.getD_eq_getElem _ _ (hlt k h₂), List.getD_eq_getElem _ _ h₂] at this
    simpa using this
  exact heq ▸ (List.take_prefix _ _).isInfix.trans (List.drop_suffix _ _).isInfix

/-! ## The line -/

section Line

variable (tm : Tm) (level : LogLevel) (msg : List UInt8)

theorem logLine_eq :
    ∃ total, 30 ≤ total ∧ total ≤ lineBufMax - 2 ∧ total ≤ 30 + msg.length ∧
      ((logLine tm level msg = (logPrefix tm level ++ msg).take total ++ [10]) ∨
        logLine tm level msg = (logPrefix tm level ++ msg).take total) := by
  have h := length_logPrefix tm level
  refine ⟨if (logPrefix tm level).length + msg.length ≥ lineBufMax - 1 then lineBufMax - 2
    else (logPrefix tm level).length + msg.length, ?_, ?_, ?_, ite_eq_or_eq _ _ _⟩ <;>
  · unfold lineBufMax at *
    split_ifs <;> omega

theorem logLine_prefix :
    ∃ total, 30 ≤ total ∧ total ≤ lineBufMax - 2 ∧ total ≤ 30 + msg.length ∧
      logLine tm level msg <+: (logPrefix tm level ++ msg).take total ++ [10] := by
  obtain ⟨total, h₁, h₂, h₃, he | he⟩ := logLine_eq tm level msg <;> rw [he]
  exacts [⟨total, h₁, h₂, h₃, List.prefix_refl _⟩, ⟨total, h₁, h₂, h₃, List.prefix_append _ _⟩]

theorem length_logLine_le : (logLine tm level msg).length ≤ lineBufMax - 1 := by
  obtain ⟨total, -, ht, -, hp⟩ := logLine_prefix tm level msg
  have := hp.length_le
  simp only [List.length_append, List.length_take, List.length_singleton] at this
  unfold lineBufMax at *
  omega

theorem getD_logLine_zero : (logLine tm level msg).getD 0 0 = 91 := by
  have hp := length_logPrefix tm level
  obtain ⟨total, h30, -, hmax, he⟩ := logLine_eq tm level msg
  have hbody : ((logPrefix tm level ++ msg).take total).getD 0 0 = 91 := by
    rw [List.getD_eq_getElem?_getD, List.getElem?_take, if_pos (by omega),
      ← List.getD_eq_getElem?_getD, List.getD_append _ _ _ _ (by omega), getD_logPrefix_zero]
  rcases he with he | he <;> rw [he]
  · rw [List.getD_append _ _ _ _ (by simp only [List.length_take, List.length_append, hp]; omega),
      hbody]
  · exact hbody

theorem markerAt_of_prefix {l l' : List UInt8} {p : Nat} (h : l <+: l') (hm : markerAt l p) :
    markerAt l' p := fun k hk => by
  obtain ⟨t, rfl⟩ := h
  have := add_markerLen_le_of_markerAt hm
  rw [← hm k hk, List.getD_append _ _ _ _ (by omega)]

/-- **A line holds the marker only if its message holds the marker's text**: the prefix holds
no `^` and ends with a space, so a marker would have its first 19 bytes in the message. -/
theorem noMarker_logLine (hmsg : ¬ bytes "---^-OVERWRITE-^---" <:+: msg) :
    NoMarker (logLine tm level msg) := fun q hq => by
  have hML : markerLen = 20 := rfl
  have hp := length_logPrefix tm level
  obtain ⟨total, h30, -, hmax, hpre⟩ := logLine_prefix tm level msg
  have hq' := markerAt_of_prefix hpre hq
  have hlen := add_markerLen_le_of_markerAt hq'
  simp only [List.length_append, List.length_take, hp, List.length_singleton] at hlen
  -- every byte of the occurrence but its newline is a byte of the prefix or of the message
  have hget : ∀ k < markerLen - 1, (logPrefix tm level ++ msg).getD (q + k) 0 = marker.getD k 0 :=
    fun k hk => by
      rw [← hq' k (by omega),
        List.getD_append ((logPrefix tm level ++ msg).take total) [10] 0 (q + k)
          (by simp only [List.length_take, List.length_append, hp]; omega),
        List.getD_eq_getElem?_getD, List.getD_eq_getElem?_getD, List.getElem?_take,
        if_pos (by omega)]
  by_cases hq30 : q < 30
  · by_cases hcover : 29 < q + (markerLen - 1)
    · -- the prefix's closing space would be a marker byte
      have := hget (29 - q) (by omega)
      rw [show q + (29 - q) = 29 by omega, List.getD_append _ _ _ _ (by omega),
        getD_logPrefix_last] at this
      exact (marker_bytes _ (by omega)).2.1 this.symm
    · -- the marker's `^` would be a byte of the prefix
      have := hget 3 (by decide)
      rw [List.getD_append _ _ _ _ (by omega), List.getD_eq_getElem _ _ (by omega),
        show marker.getD 3 0 = 94 from rfl] at this
      exact (caret_newline_not_mem_logPrefix tm level).1 (this ▸ List.getElem_mem _)
  · have htext : ∀ k < markerLen - 1, marker.getD k 0 = (bytes "---^-OVERWRITE-^---").getD k 0 := by
      decide
    refine hmsg (isInfix_of_getD (j := q - 30) (by decide) fun k hk => ?_)
    have hk' : k < markerLen - 1 := by simpa [hML] using hk
    rw [← htext k hk', ← hget k hk', List.getD_append_right _ _ _ _ (by omega), hp,
      show q + k - 30 = q - 30 + k by omega]

end Line

end Tgbot
