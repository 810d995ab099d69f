import Mathlib.Data.List.Infix
import Tgbot.Log.Writer

/-!
# One marker, at the cursor

Once the file has wrapped, `log_write` writes the marker right after the newest line, and
before it wraps again it blanks the stale marker "so only one exists". This module proves
that, from an empty file, every `log_write` leaves the marker exactly once in the file, at
`g_write_pos`, while overwriting, and nowhere before the first wrap, as long as no message
holds the marker's text. The writer escapes nothing, and `handle_update` logs what senders
type: a message ending in that text, written after a wrap, leaves a second marker in the
file, before the cursor.

## Main definitions

* `MarkersAt file pos ovw`: the markers of `file` agree with the cursor and the flag
* `MarkerInv`: `MarkersAt` for the statics, within the cap

## Main results

* `markersAt_logWritePlan`: one `log_write` keeps the markers in agreement with the cursor
* `log_marker_unique`: from an empty file, over every sequence of `log_write` calls whose
  messages do not hold the marker's text, exactly one marker while overwriting, at the cursor,
  and none otherwise
* `log_write_leaves_two_markers`: after a wrap, a message ending in the marker's text leaves
  two markers in the file
-/

namespace Tgbot

/-! ## The blocks `log_write` writes -/

section Blocks

variable {file : List UInt8} {pos : Nat}

theorem noMarker_nil : NoMarker [] := fun _ h => by
  have := add_markerLen_le_of_markerAt h
  simp [markerLen] at this

/-- Writing two blocks back to back is writing them as one. -/
theorem writeAt_append (h : pos ≤ file.length) (d e : List UInt8) :
    writeAt (writeAt file pos d) (pos + d.length) e = writeAt file pos (d ++ e) := by
  have hl : pos + d.length ≤ (writeAt file pos d).length := by rw [length_writeAt]; omega
  have h1 : (file.take pos).length = pos := by simp; omega
  rw [writeAt_eq _ hl, writeAt_eq _ h, writeAt_eq _ h]
  simp only [List.take_append_eq_append_take, List.drop_append_eq_append_drop, h1,
    List.length_append, List.append_assoc]
  rw [show pos + d.length + e.length - pos - d.length = e.length by omega,
    show pos + d.length - pos - d.length = 0 by omega,
    show pos + d.length + e.length - pos = d.length + e.length by omega,
    show pos + d.length - pos = d.length by omega,
    List.take_of_length_le (show (file.take pos).length ≤ pos + d.length by omega),
    List.drop_eq_nil_of_le (show (file.take pos).length ≤ pos + d.length + e.length by omega),
    List.drop_eq_nil_of_le (show d.length ≤ d.length + e.length by omega), List.drop_drop]
  simp [Nat.add_assoc, Nat.add_comm e.length]

/-- **A line and the marker after it**, written where the file's only marker was (or over a
file with none), leave one marker: right after the line. -/
theorem markerAt_writeAt_line {d : List UInt8} (h : pos ≤ file.length) (hd : NoMarker d)
    (hd0 : d.getD 0 0 = 91) (hfile : ∀ p, markerAt file p → p = pos) (q : Nat) :
    markerAt (writeAt file pos (d ++ marker)) q ↔ q = pos + d.length := by
  have hML : markerLen = 20 := rfl
  have hne : d ≠ [] := by rintro rfl; exact absurd hd0 (by decide)
  have h0 : (d ++ marker).getD 0 0 = 91 := by
    rw [List.getD_append _ _ _ _ (List.length_pos.2 hne), hd0]
  have hlast : (d ++ marker).getLast? = some 10 := by rw [List.getLast?_append]; rfl
  rw [markerAt_writeAt h (by simp [hne]) (.inr fun k hk => h0 ▸ (marker_bytes k hk).2.2.1)
    (.inl hlast)]
  constructor
  · rintro (⟨hq, hm⟩ | ⟨hq, hm⟩ | ⟨hq, hm⟩)
    · have := hfile q hm
      omega
    · have := hfile q hm
      simp only [List.length_append, length_marker] at hq
      omega
    · have := (markerAt_append_marker hd _).1 hm
      omega
  · rintro rfl
    exact .inr (.inr ⟨by omega, (markerAt_append_marker hd _).2 (by omega)⟩)

/-- A line appended to a file with no marker leaves none. -/
theorem noMarker_writeAt_end {d : List UInt8} (hfile : NoMarker file) (hd : NoMarker d)
    (hd0 : d.getD 0 0 = 91) : NoMarker (writeAt file file.length d) := fun q hq => by
  have hne : d ≠ [] := by rintro rfl; exact absurd hd0 (by decide)
  rw [markerAt_writeAt le_rfl hne (.inr fun k hk => hd0 ▸ (marker_bytes k hk).2.2.1)
    (.inr (by omega))] at hq
  rcases hq with ⟨-, hm⟩ | ⟨-, hm⟩ | ⟨-, hm⟩
  exacts [hfile q hm, hfile q hm, hd _ hm]

/-- Blanks written over the file's only marker leave none. -/
theorem noMarker_writeAt_blanks (h : pos + markerLen ≤ file.length)
    (hfile : ∀ p, markerAt file p → p = pos) : NoMarker (writeAt file pos blanks) := fun q hq => by
  have hML : markerLen = 20 := rfl
  rw [markerAt_writeAt (by omega) (show blanks ≠ [] by decide)
    (.inr fun k hk => (marker_bytes k hk).2.1) (.inl rfl)] at hq
  rcases hq with ⟨hq, hm⟩ | ⟨hq, hm⟩ | ⟨-, hm⟩
  · have := hfile q hm
    omega
  · have := hfile q hm
    simp only [blanks, List.length_append, List.length_replicate, List.length_singleton] at hq
    omega
  · exact noMarker_blanks _ hm

end Blocks

/-! ## One `log_write` -/

/-- The markers of `file` agree with the cursor `pos` and the flag `ovw`: while overwriting,
one marker, at `pos`; otherwise none, and `pos` at the end of the file. -/
def MarkersAt (file : List UInt8) (pos : Nat) (ovw : Bool) : Prop :=
  (ovw = true → pos + markerLen ≤ file.length ∧ ∀ p, markerAt file p ↔ p = pos) ∧
    (ovw = false → pos = file.length ∧ NoMarker file)

section Plan

variable {file line : List UInt8} {maxBytes pos : Nat} {ovw : Bool}

/-- **One `log_write` keeps the markers in agreement with the cursor**, for a line that holds
no marker and starts with `[`. -/
theorem markersAt_logWritePlan (hm : MarkersAt file pos ovw) (hcap : file.length ≤ maxBytes)
    (hL : logLineLen maxBytes line ≠ 0) (hline : NoMarker line) (h0 : line.getD 0 0 = 91) :
    let plan := logWritePlan maxBytes pos ovw line
    MarkersAt (plan.writes.foldl FileWrite.apply file) plan.writePos plan.overwriting := by
  have hdl : (line.take (logLineLen maxBytes line)).length = logLineLen maxBytes line := by
    simp only [List.length_take]
    exact min_eq_left (min_le_left _ _)
  have hd := noMarker_take hline (logLineLen maxBytes line)
  have hd0 : (line.take (logLineLen maxBytes line)).getD 0 0 = 91 := by
    rw [List.getD_eq_getElem?_getD, List.getElem?_take, if_pos (Nat.pos_of_ne_zero hL),
      ← List.getD_eq_getElem?_getD, h0]
  -- the line and the marker, over a file whose markers are all where the line goes
  have hblock : ∀ {f : List UInt8} {p : Nat}, p ≤ f.length → (∀ q, markerAt f q → q = p) →
      MarkersAt (writeAt (writeAt f p (line.take (logLineLen maxBytes line)))
        (p + logLineLen maxBytes line) marker) (p + logLineLen maxBytes line) true :=
    fun hp hf => by
      have happ := writeAt_append hp (line.take (logLineLen maxBytes line)) marker
      rw [hdl] at happ
      rw [happ]
      have key := markerAt_writeAt_line hp hd hd0 hf
      rw [hdl] at key
      exact ⟨fun _ => ⟨add_markerLen_le_of_markerAt ((key _).2 rfl), key⟩, (fun h => by cases h)⟩
  by_cases hw : pos + (logLineLen maxBytes line + if ovw then markerLen else 0) ≤ maxBytes
  · rw [logWritePlan_of_le hL hw]
    cases ovw
    · -- appending to a file that has not wrapped
      obtain ⟨rfl, hno⟩ := hm.2 rfl
      refine ⟨(fun h => by cases h), fun _ => ⟨?_, noMarker_writeAt_end hno hd hd0⟩⟩
      simp only [List.foldl, FileWrite.apply, length_writeAt, hdl]
      omega
    · obtain ⟨hp, hf⟩ := hm.1 rfl
      exact hblock (by omega) fun q hq => (hf q).1 hq
  · rw [logWritePlan_of_gt hL (by omega)]
    cases ovw
    · -- the first wrap
      obtain ⟨rfl, hno⟩ := hm.2 rfl
      simpa using hblock (Nat.zero_le _) fun q hq => absurd hq (hno q)
    · -- a later wrap blanks the stale marker first
      obtain ⟨hp, hf⟩ := hm.1 rfl
      rw [if_pos ⟨rfl, by omega⟩]
      have hno := noMarker_writeAt_blanks hp fun q hq => (hf q).1 hq
      simpa using hblock (Nat.zero_le _) fun q hq => absurd hq (hno q)

end Plan

/-! ## Runs from an empty file -/

/-- The invariant of a run from an empty file: within the cap, with the markers in agreement
with the cursor. -/
structure MarkerInv (cap : Nat) (s : LogState) : Prop where
  bounds : LogBounds cap s
  markers : MarkersAt s.file s.writePos s.overwriting

section Run

variable {cap : Nat}

theorem MarkerInv.logInit_start (hcap : minFileCap ≤ cap) (ok : Bool) :
    MarkerInv cap (logInit (LogState.start []) cap ok).2 := by
  have hb : LogBounds cap (LogState.start []) :=
    ⟨Nat.zero_le _, (fun h => by cases h), Nat.zero_le _⟩
  refine ⟨hb.logInit hcap ok fun _ => rfl, ?_⟩
  unfold logInit
  rw [if_neg (Nat.not_lt.2 hcap)]
  cases ok <;> simp [MarkersAt, LogState.start, initCursor, noMarker_nil]

/-- **Every `log_write` keeps the invariant**, when its message does not hold the marker's
text. -/
theorem MarkerInv.logWrite {s : LogState} (h : MarkerInv cap s) (hcap : minFileCap ≤ cap)
    (level : LogLevel) (tm : Tm) (msg : List UInt8)
    (hmsg : ¬ bytes "---^-OVERWRITE-^---" <:+: msg) :
    MarkerInv cap (Tgbot.logWrite s level tm msg) := by
  refine ⟨h.bounds.logWrite hcap level tm msg, ?_⟩
  unfold Tgbot.logWrite
  split_ifs with hskip
  · exact h.markers
  · have hmax := h.bounds.2 (by simp_all)
    have hline : logLine tm level msg ≠ [] := fun he => by
      simpa [he] using getD_logLine_zero tm level msg
    exact markersAt_logWritePlan h.markers (hmax ▸ h.bounds.1)
      (logLineLen_ne_zero hline (by rw [hmax]; exact lt_of_lt_of_le (by decide) hcap))
      (noMarker_logLine tm level msg hmsg) (getD_logLine_zero tm level msg)

theorem MarkerInv.logRun_writes (hcap : minFileCap ≤ cap)
    {writes : List (LogLevel × Tm × List UInt8)}
    (hmsg : ∀ w ∈ writes, ¬ bytes "---^-OVERWRITE-^---" <:+: w.2.2) :
    ∀ {s : LogState}, MarkerInv cap s →
      MarkerInv cap (logRun s (writes.map fun w => .write w.1 w.2.1 w.2.2)) := by
  induction writes with
  | nil => exact fun h => h
  | cons w writes ih =>
    exact fun h => ih (fun w' hw => hmsg w' (.tail _ hw))
      (h.logWrite hcap w.1 w.2.1 w.2.2 (hmsg w (.head _)))

end Run

/-- **One marker, at the cursor.** From an empty file, after `log_init` with a cap of at least
`MIN_FILE_CAP` and any sequence of `log_write` calls whose messages do not hold the marker's
text, the file holds the marker exactly once, at `g_write_pos`, while `g_overwriting` is set,
and nowhere while it is not. -/
theorem log_marker_unique {cap : Nat} (hcap : minFileCap ≤ cap) (ok : Bool)
    (writes : List (LogLevel × Tm × List UInt8))
    (hmsg : ∀ w ∈ writes, ¬ bytes "---^-OVERWRITE-^---" <:+: w.2.2) :
    let s := logRun (LogState.start [])
      (.init cap ok :: writes.map fun w => .write w.1 w.2.1 w.2.2)
    (s.overwriting = true → ∀ p, markerAt s.file p ↔ p = s.writePos) ∧
      (s.overwriting = false → NoMarker s.file) :=
  have h := MarkerInv.logRun_writes hcap hmsg (MarkerInv.logInit_start hcap ok)
  ⟨fun hs => (h.markers.1 hs).2, fun hs => (h.markers.2 hs).2⟩

theorem log_marker_unique_nine_lines :
    minFileCap ≤ 256 ∧
      (∀ w ∈ List.replicate 9 (LogLevel.info, (⟨2026, 0, 1, 0, 0, 0⟩ : Tm), bytes "hi"),
        ¬ bytes "---^-OVERWRITE-^---" <:+: w.2.2) ∧
      let s := logRun (LogState.start [])
        (.init 256 true :: (List.replicate 9 (LogLevel.info, (⟨2026, 0, 1, 0, 0, 0⟩ : Tm),
          bytes "hi")).map fun w => .write w.1 w.2.1 w.2.2)
      (s.overwriting = true → ∀ p, markerAt s.file p ↔ p = s.writePos) ∧
        (s.overwriting = false → NoMarker s.file) :=
  have hmsg : ∀ w ∈ List.replicate 9 (LogLevel.info, (⟨2026, 0, 1, 0, 0, 0⟩ : Tm), bytes "hi"),
      ¬ bytes "---^-OVERWRITE-^---" <:+: w.2.2 := by decide
  ⟨by decide, hmsg, log_marker_unique (by decide) true _ hmsg⟩

set_option maxRecDepth 4000 in
/-- **A message can plant a second marker.** Eight lines of 33 bytes fill a 256-byte file and
the eighth wraps to the top, leaving the marker at 33; a ninth line whose message is the
marker's text puts that text at 63, and `log_write` writes its own marker after the line, at
83. -/
theorem log_write_leaves_two_markers :
    let tm : Tm := ⟨2026, 0, 1, 0, 0, 0⟩
    let s := logRun (LogState.start [])
      (.init 256 true :: List.replicate 8 (.write .info tm (bytes "hi")) ++
        [.write .info tm (bytes "---^-OVERWRITE-^---")])
    s.overwriting = true ∧ s.writePos = 83 ∧ markerAt s.file 63 ∧ markerAt s.file 83 := by
  decide

end Tgbot
