import Tgbot.Log.Reader

/-!
# Following the log

`log_follow` prints what is written to the log as it is written. It remembers the size of the
file, `last_pos`, from the end it started at, and at each modify notification compares it with
the size now: a smaller file puts `last_pos` back to 0, and a larger one has its bytes from
`last_pos` to its end printed, after which `last_pos` is the new size.

The writer appends until the file first fills. From then on it writes each line at the top,
over the oldest lines, and the file grows only when a line and its marker pass its old end: the
size `log_follow` compares does not change while lines are written in place, and those lines
are never printed.

The `inotify` descriptors, the blocking `pselect` with its signal mask, and the chunked
`fread` are left out: at each wake the file is given as its bytes, read whole.

## Main definitions

* `followWake`: one wake, the bytes it prints and `last_pos` after it
* `followWrites`, `logFollow`: the follower woken after each `log_write` of a run

## Main results

* `followWrites_appending`: while the log has not wrapped, the follower prints exactly the
  lines written
* `log_follow_prints_marker_not_lines`: after a wrap it prints the marker and none of the lines
-/

namespace Tgbot

/-- **One wake of `log_follow`**, with `last_pos` and the file as it is now: the bytes it
prints, and `last_pos` after. -/
def followWake (lastPos : Nat) (file : List UInt8) : List UInt8 × Nat :=
  let curPos := file.length
  let lastPos := if curPos < lastPos then 0 else lastPos
  if curPos > lastPos then ((file.drop lastPos).take (curPos - lastPos), curPos)
  else ([], lastPos)

/-- The follower at `lastPos`, woken after each of the `log_write` calls `writes` made from
`s`: the bytes it prints. -/
def followWrites (s : LogState) (lastPos : Nat) :
    List (LogLevel × Tm × List UInt8) → List UInt8
  | [] => []
  | (level, tm, msg) :: writes =>
    let s := logWrite s level tm msg
    let wake := followWake lastPos s.file
    wake.1 ++ followWrites s wake.2 writes

/-- **`log_follow`** started on the log in state `s`, at the end of the file, and woken after
each of the `log_write` calls `writes`: what it prints. -/
def logFollow (s : LogState) (writes : List (LogLevel × Tm × List UInt8)) : List UInt8 :=
  followWrites s s.file.length writes

/-! ## Before the log wraps -/

/-- A wake after bytes were appended prints them, and remembers the new end. -/
theorem followWake_append (file d : List UInt8) :
    followWake file.length (file ++ d) = (d, (file ++ d).length) := by
  have hlt : ¬ (file ++ d).length < file.length := by simp
  simp only [followWake, if_neg hlt]
  rcases Nat.eq_zero_or_pos d.length with h0 | hpos
  · rw [List.length_eq_zero.1 h0, List.append_nil, if_neg (lt_irrefl _)]
  · rw [if_pos (by simp only [List.length_append]; omega), List.drop_left, List.length_append,
      Nat.add_sub_cancel_left, List.take_length]

section Appending

variable {lines : List (List UInt8)} {s : LogState}

/-- **While the log has not wrapped, the follower prints exactly the lines written**, in order:
each `log_write` appends its line, and the wake after it prints the bytes appended. -/
theorem followWrites_appending {writes : List (LogLevel × Tm × List UInt8)}
    (hmsg : ∀ w ∈ writes, 10 ∉ w.2.2 ∧ ¬ bytes "---^-OVERWRITE-^---" <:+: w.2.2) :
    ∀ {lines s}, Appending lines s →
      (lines ++ loggedLines s.minLevel writes).flatten.length + markerLen ≤ s.maxBytes →
      followWrites s s.file.length writes = (loggedLines s.minLevel writes).flatten := by
  induction writes with
  | nil => exact fun _ _ => rfl
  | cons w writes ih =>
    intro lines s h hfit
    obtain ⟨level, tm, msg⟩ := w
    rw [loggedLines_cons, ← List.append_assoc] at hfit
    have hw := h.logWrite level tm (hmsg _ (.head _)) (by
      simp only [List.flatten_append, List.length_append] at hfit ⊢
      omega)
    -- the write appends the line it logs, if any
    have hfile : (logWrite s level tm msg).file =
        s.file ++ (loggedLines s.minLevel [(level, tm, msg)]).flatten := by
      rw [hw.file_eq, h.file_eq, List.flatten_append]
    simp only [followWrites, hfile, followWake_append]
    rw [← hfile, loggedLines_cons _ (level, tm, msg) writes, List.flatten_append,
      ih (fun w' hw' => hmsg w' (.tail _ hw')) hw (by simpa using hfit), minLevel_logWrite]

end Appending

/-- **Until the log wraps, `log_follow` prints the lines written after it started**, whole and
in order: a log opened with a cap of at least `MIN_FILE_CAP` on an empty file, the follower
started after the calls `before`, and woken after each of the calls `after`, whose messages
hold no newline and not the marker's text, and whose lines, with room for the marker after
them, fit under the cap. -/
theorem logFollow_before_wrap {cap : Nat} (hcap : minFileCap ≤ cap)
    (before after : List (LogLevel × Tm × List UInt8))
    (hmsg : ∀ w ∈ before ++ after, 10 ∉ w.2.2 ∧ ¬ bytes "---^-OVERWRITE-^---" <:+: w.2.2)
    (hfit : (loggedLines .info (before ++ after)).flatten.length + markerLen ≤ cap) :
    logFollow (logRun (LogState.start [])
        (.init cap true :: before.map fun w => .write w.1 w.2.1 w.2.2)) after =
      (loggedLines .info after).flatten := by
  rw [loggedLines_append, List.flatten_append, List.length_append] at hfit
  have h := (Appending.start cap).logRun_writes (fun w hw => hmsg w (List.mem_append_left _ hw))
    (by simpa using (by omega : (loggedLines .info before).flatten.length + markerLen ≤ cap))
  rw [List.nil_append] at h
  rw [logRun_cons, logStep, logInit_start_open hcap, logFollow]
  simpa using followWrites_appending (fun w hw => hmsg w (List.mem_append_right _ hw)) h
    (by simpa using hfit)

/-- The follower started after one call, and woken after two more, the first below the
minimum level. -/
theorem logFollow_before_wrap_three_calls :
    minFileCap ≤ 256 ∧
      (∀ w ∈ [(LogLevel.info, (⟨2026, 0, 1, 0, 0, 0⟩ : Tm), bytes "a")] ++
          [(LogLevel.debug, (⟨2026, 0, 1, 0, 0, 1⟩ : Tm), bytes "b"),
            (LogLevel.warn, (⟨2026, 0, 1, 0, 0, 2⟩ : Tm), bytes "c")],
        10 ∉ w.2.2 ∧ ¬ bytes "---^-OVERWRITE-^---" <:+: w.2.2) ∧
      (loggedLines .info ([(LogLevel.info, (⟨2026, 0, 1, 0, 0, 0⟩ : Tm), bytes "a")] ++
          [(LogLevel.debug, (⟨2026, 0, 1, 0, 0, 1⟩ : Tm), bytes "b"),
            (LogLevel.warn, (⟨2026, 0, 1, 0, 0, 2⟩ : Tm), bytes "c")])).flatten.length +
        markerLen ≤ 256 ∧
      logFollow (logRun (LogState.start [])
          (.init 256 true :: [(LogLevel.info, (⟨2026, 0, 1, 0, 0, 0⟩ : Tm), bytes "a")].map
            fun w => .write w.1 w.2.1 w.2.2))
          [(LogLevel.debug, (⟨2026, 0, 1, 0, 0, 1⟩ : Tm), bytes "b"),
            (LogLevel.warn, (⟨2026, 0, 1, 0, 0, 2⟩ : Tm), bytes "c")] =
        (loggedLines .info [(LogLevel.debug, (⟨2026, 0, 1, 0, 0, 1⟩ : Tm), bytes "b"),
          (LogLevel.warn, (⟨2026, 0, 1, 0, 0, 2⟩ : Tm), bytes "c")]).flatten :=
  have hmsg : ∀ w ∈ [(LogLevel.info, (⟨2026, 0, 1, 0, 0, 0⟩ : Tm), bytes "a")] ++
      [(LogLevel.debug, (⟨2026, 0, 1, 0, 0, 1⟩ : Tm), bytes "b"),
        (LogLevel.warn, (⟨2026, 0, 1, 0, 0, 2⟩ : Tm), bytes "c")],
      10 ∉ w.2.2 ∧ ¬ bytes "---^-OVERWRITE-^---" <:+: w.2.2 := by decide
  ⟨by decide, hmsg, by decide, logFollow_before_wrap (by decide) _ _ hmsg (by decide)⟩

/-! ## After the log wraps -/

theorem loggedLines_replicate {minLevel level : LogLevel} (h : minLevel.toNat ≤ level.toNat)
    (tm : Tm) (msg : List UInt8) (n : Nat) :
    loggedLines minLevel (List.replicate n (level, tm, msg)) =
      List.replicate n (logLine tm level msg) := by
  induction n with
  | zero => rfl
  | succ n ih => rw [List.replicate_succ, loggedLines, if_neg (Nat.not_lt.2 h), ih,
      List.replicate_succ]

set_option maxRecDepth 4000 in
/-- **After a wrap, `log_follow` prints the marker and none of the lines.** Seven lines
`[2026-01-01 00:00:00] [INFO ] hi` fill 231 bytes of a 256-byte log, and the follower starts
at its end. The next line does not fit: it goes to the top, its marker after it, and the file
keeps its size, so the wake prints nothing. The five after it are written in place too. The
seventh ends at byte 231 and its marker runs to byte 251: the file grows by the marker, and
that is all the follower prints of the seven lines written after it started. -/
theorem log_follow_prints_marker_not_lines :
    let tm : Tm := ⟨2026, 0, 1, 0, 0, 0⟩
    let s := logRun (LogState.start [])
      (.init 256 true :: List.replicate 7 (.write .info tm (bytes "hi")))
    logFollow s (List.replicate 7 (.info, tm, bytes "hi")) = marker ∧
      loggedLines .info (List.replicate 7 (.info, tm, bytes "hi")) =
        List.replicate 7 (logLine tm .info (bytes "hi")) :=
  ⟨by decide, loggedLines_replicate le_rfl _ _ 7⟩

end Tgbot
