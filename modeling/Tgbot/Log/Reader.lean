import Tgbot.Log.Marker

/-!
# Reading the last lines back

`log_read_last_n` prints the last `n` lines of the log. It reads the whole file, looks for the
overwrite marker with the scan of `find_marker`, and puts the bytes after the marker before
the bytes ahead of it, so that the oldest line should come first. It then records where the
lines of that logical buffer start, skipping a NUL where a line would start, and prints the
last `n` of them, each up to and including its newline.

## Main definitions

* `logicalOrder`: the logical buffer
* `lineStarts`: the lines the collecting loop records, each as the bytes from its start on
* `printedLine`: the bytes printed for a recorded line
* `logReadLastN`, `logReadLastNAt`: the return value and what is printed to `stdout`
* `IsLine`: a whole line, ended by its one newline
* `loggedLines`, `Appending`: the lines `log_write` calls append, and the log before it wraps

## Main results

* `map_printedLine_lineStarts`: a buffer of whole lines is read back line by line
* `Appending.logRun_writes`: until the file fills, every `log_write` appends its line
* `logReadLastN_before_wrap`: until the log wraps, `log_read_last_n` prints the last `n` lines
  written, whole and in order
* `log_read_prints_cut_line`: after a wrap it prints the rest of a line the marker cut
-/

namespace Tgbot

/-- The logical buffer of `log_read_last_n`: the bytes after the marker, then those before it,
when the scan, the same as `find_marker`'s, meets a marker; else the file as it is. -/
def logicalOrder (file : List UInt8) : List UInt8 :=
  match findMarker file with
  | some off => file.drop (off + markerLen) ++ file.take off
  | none => file

/-- The loop of `log_read_last_n` that records where lines start, on the logical buffer from
`lp` on, each start as the bytes from it to the end. `atStart` is whether a line would start
here: a NUL there is skipped, and any other byte starts a line that runs to its newline; a line
with no newline is the last one. -/
def lineStarts : Bool → List UInt8 → List (List UInt8)
  | _, [] => []
  | true, c :: rest =>
    if c = 0 then lineStarts true rest else (c :: rest) :: lineStarts (c == 10) rest
  | false, c :: rest => lineStarts (c == 10) rest

/-- The bytes printed for a line that starts at `line`: up to and including its newline, or
`strlen` bytes when it has none, the buffer ending with a NUL. -/
def printedLine (line : List UInt8) : List UInt8 :=
  if 10 ∈ line then line.takeWhile (· ≠ 10) ++ [10] else cstr line

/-- **`log_read_last_n`**: its return value and what it prints to `stdout`, for a file that
`fopen` opens and `fread` reads whole. -/
def logReadLastN (file : List UInt8) (n : Int) : Int × List UInt8 :=
  if n ≤ 0 then (-1, [])
  else if file.length = 0 then (-1, [])
  else
    let lines := lineStarts true (logicalOrder file)
    (0, ((lines.drop (lines.length - n.toNat)).map printedLine).flatten)

/-- `log_read_last_n (path, n)` for a path that is not `NULL`, `files` giving the bytes of the
file at a path, `none` when `fopen` fails: -1 when `n` is not positive or the file cannot be
opened, else as `logReadLastN` reads the file. -/
def logReadLastNAt (files : List UInt8 → Option (List UInt8)) (path : List UInt8) (n : Int) :
    Int × List UInt8 :=
  if n ≤ 0 then (-1, [])
  else
    match files path with
    | none => (-1, [])
    | some file => logReadLastN file n

/-! ## A buffer of whole lines -/

/-- A whole line as `log_write` ends it: it does not start with a NUL, and its one newline ends
it. -/
def IsLine (l : List UInt8) : Prop := l.head? ≠ some 0 ∧ 10 ∉ l.dropLast ∧ l.getLast? = some 10

instance (l : List UInt8) : Decidable (IsLine l) := inferInstanceAs (Decidable (_ ∧ _ ∧ _))

theorem IsLine.eq_append {l : List UInt8} (h : IsLine l) :
    ∃ body, l = body ++ [10] ∧ 10 ∉ body ∧ body.head? ≠ some 0 := by
  obtain ⟨h0, h10, hl⟩ := h
  obtain ⟨body, rfl⟩ := List.getLast?_eq_some_iff.1 hl
  rw [List.dropLast_concat] at h10
  refine ⟨body, rfl, h10, fun hb => h0 ?_⟩
  rw [List.head?_append, hb]
  rfl

/-- The loop past the rest of a line: the next line starts after its newline. -/
theorem lineStarts_false_append {body : List UInt8} (h : 10 ∉ body) (rest : List UInt8) :
    lineStarts false (body ++ 10 :: rest) = lineStarts true rest := by
  induction body with
  | nil => rfl
  | cons c cs ih =>
    rw [List.mem_cons, not_or] at h
    simp only [List.cons_append, lineStarts, beq_false_of_ne (Ne.symm h.1), List.append_eq, ih h.2]

/-- A whole line at a line start is recorded, and the next line starts after it. -/
theorem lineStarts_line {l : List UInt8} (hl : IsLine l) (rest : List UInt8) :
    lineStarts true (l ++ rest) = (l ++ rest) :: lineStarts true rest := by
  obtain ⟨body, rfl, h10, h0⟩ := hl.eq_append
  cases body with
  | nil => rfl
  | cons c cs =>
    have hc0 : c ≠ 0 := fun h => h0 (by rw [h]; rfl)
    have hc10 : c ≠ 10 := fun h => h10 (h ▸ List.mem_cons_self _ _)
    simp only [List.cons_append, List.append_assoc, List.singleton_append]
    simp only [lineStarts, if_neg hc0, beq_false_of_ne hc10, List.append_eq, List.nil_append,
      lineStarts_false_append (fun h => h10 (List.mem_cons_of_mem _ h))]

/-- A whole line is printed up to and including its newline, whatever follows it. -/
theorem printedLine_line {l : List UInt8} (hl : IsLine l) (rest : List UInt8) :
    printedLine (l ++ rest) = l := by
  obtain ⟨body, rfl, h10, -⟩ := hl.eq_append
  have hpos : ∀ x ∈ body, decide (x ≠ 10) = true := fun x hx =>
    decide_eq_true fun h => h10 (h ▸ hx)
  have htw : (body ++ [10] ++ rest).takeWhile (· ≠ 10) = body := by
    rw [List.append_assoc, List.takeWhile_append_of_pos hpos]
    simp
  rw [printedLine, if_pos (by simp), htw]

/-- **A buffer of whole lines is read back line by line**: the lines the loop records, printed,
are the lines. -/
theorem map_printedLine_lineStarts {ls : List (List UInt8)} (h : ∀ l ∈ ls, IsLine l) :
    (lineStarts true ls.flatten).map printedLine = ls := by
  induction ls with
  | nil => rfl
  | cons l ls ih =>
    rw [List.forall_mem_cons] at h
    rw [List.flatten_cons, lineStarts_line h.1, List.map_cons, printedLine_line h.1, ih h.2]

/-- **`log_read_last_n` of a file of whole lines and no marker prints the last `n` lines**, in
order; it fails on an empty file. -/
theorem logReadLastN_lines {ls : List (List UInt8)} (h : ∀ l ∈ ls, IsLine l)
    (hm : findMarker ls.flatten = none) {n : Int} (hn : 0 < n) :
    logReadLastN ls.flatten n =
      if ls = [] then (-1, []) else (0, (ls.drop (ls.length - n.toNat)).flatten) := by
  have hlen : (lineStarts true ls.flatten).length = ls.length := by
    rw [← List.length_map _ printedLine, map_printedLine_lineStarts h]
  -- a line is never empty, so the file is empty exactly when there is no line
  have hempty : ls.flatten.length = 0 ↔ ls = [] := by
    refine ⟨fun h0 => ?_, fun h0 => by rw [h0]; rfl⟩
    cases ls with
    | nil => rfl
    | cons l ls =>
      obtain ⟨body, rfl, -⟩ := (h l (List.mem_cons_self _ _)).eq_append
      simp at h0
  rw [logReadLastN, logicalOrder, hm, if_neg (not_le.2 hn)]
  simp only [hempty]
  split_ifs
  · rfl
  · rw [hlen, List.map_drop, map_printedLine_lineStarts h]

/-! ## The log before it wraps -/

/-- A line whose message holds no newline is whole: `log_write` ends it with its one
newline. -/
theorem isLine_logLine (tm : Tm) (level : LogLevel) {msg : List UInt8} (hmsg : 10 ∉ msg) :
    IsLine (logLine tm level msg) := by
  have h0 : (logLine tm level msg).head? ≠ some 0 := fun h => by
    have := getD_logLine_zero tm level msg
    rw [List.getD_eq_getElem?_getD, ← List.head?_eq_getElem?, h] at this
    exact absurd this (by decide)
  have hbody : ∀ total, 10 ∉ (logPrefix tm level ++ msg).take total := fun _ hb =>
    (List.mem_append.1 (List.mem_of_mem_take hb)).elim
      (caret_newline_not_mem_logPrefix tm level).2 hmsg
  refine ⟨h0, ?_⟩
  unfold logLine
  rw [if_pos (.inr fun h => hbody _ (List.mem_of_getLast?_eq_some h)), List.dropLast_concat]
  exact ⟨hbody _, List.getLast?_concat _⟩

/-- The lines that `log_write` calls put in an open log at minimum level `minLevel`: those of
the calls at or above it, in order. -/
def loggedLines (minLevel : LogLevel) : List (LogLevel × Tm × List UInt8) → List (List UInt8)
  | [] => []
  | (level, tm, msg) :: writes =>
    if level.toNat < minLevel.toNat then loggedLines minLevel writes
    else logLine tm level msg :: loggedLines minLevel writes

/-- The log while it has not wrapped. -/
structure Appending (lines : List (List UInt8)) (s : LogState) : Prop where
  /-- `log_init` opened the file. -/
  fpOpen : s.fpOpen = true
  /-- No write has wrapped. -/
  not_overwriting : s.overwriting = false
  /-- The cursor is at the end of the file. -/
  writePos_eq : s.writePos = s.file.length
  /-- The file is the lines written, in order, -/
  file_eq : s.file = lines.flatten
  /-- each of them whole, -/
  isLine : ∀ l ∈ lines, IsLine l
  /-- and it holds no marker. -/
  noMarker : NoMarker s.file

/-- A call's line, when it is at or above the minimum level, then the lines of the calls
after it. -/
theorem loggedLines_cons (minLevel : LogLevel) (w : LogLevel × Tm × List UInt8)
    (writes : List (LogLevel × Tm × List UInt8)) :
    loggedLines minLevel (w :: writes) =
      loggedLines minLevel [w] ++ loggedLines minLevel writes := by
  obtain ⟨level, tm, msg⟩ := w
  simp only [loggedLines]
  split_ifs <;> rfl

theorem loggedLines_append (minLevel : LogLevel) (writes writes' : List (LogLevel × Tm × List UInt8)) :
    loggedLines minLevel (writes ++ writes') =
      loggedLines minLevel writes ++ loggedLines minLevel writes' := by
  induction writes with
  | nil => rfl
  | cons w writes ih =>
    rw [List.cons_append, loggedLines_cons, ih, loggedLines_cons _ w writes, List.append_assoc]

@[simp] theorem minLevel_logWrite (s : LogState) (level : LogLevel) (tm : Tm) (msg : List UInt8) :
    (logWrite s level tm msg).minLevel = s.minLevel := by
  unfold logWrite
  split_ifs <;> rfl

@[simp] theorem maxBytes_logWrite (s : LogState) (level : LogLevel) (tm : Tm) (msg : List UInt8) :
    (logWrite s level tm msg).maxBytes = s.maxBytes := by
  unfold logWrite
  split_ifs <;> rfl

@[simp] theorem minLevel_logRun_writes (s : LogState) (writes : List (LogLevel × Tm × List UInt8)) :
    (logRun s (writes.map fun w => .write w.1 w.2.1 w.2.2)).minLevel = s.minLevel := by
  induction writes generalizing s with
  | nil => rfl
  | cons w writes ih => rw [List.map_cons, logRun_cons, logStep, ih, minLevel_logWrite]

@[simp] theorem maxBytes_logRun_writes (s : LogState) (writes : List (LogLevel × Tm × List UInt8)) :
    (logRun s (writes.map fun w => .write w.1 w.2.1 w.2.2)).maxBytes = s.maxBytes := by
  induction writes generalizing s with
  | nil => rfl
  | cons w writes ih => rw [List.map_cons, logRun_cons, logStep, ih, maxBytes_logWrite]

/-- `log_init` with a cap of at least `MIN_FILE_CAP` opens an empty file at its top. -/
theorem logInit_start_open {cap : Nat} (hcap : minFileCap ≤ cap) :
    (logInit (LogState.start []) cap true).2 = ⟨[], true, cap, 0, false, .info⟩ := by
  rw [logInit, if_neg (Nat.not_lt.2 hcap)]
  rfl

section Appending

variable {lines : List (List UInt8)} {s : LogState}

theorem Appending.start (cap : Nat) : Appending [] ⟨[], true, cap, 0, false, .info⟩ :=
  ⟨rfl, rfl, rfl, rfl, fun _ h => (nomatch h), noMarker_nil⟩

/-- **A `log_write` whose line fits before the cap, with room for the marker after it, appends
the line**, or writes nothing below the minimum level. -/
theorem Appending.logWrite (h : Appending lines s) (level : LogLevel) (tm : Tm) {msg : List UInt8}
    (hmsg : 10 ∉ msg ∧ ¬ bytes "---^-OVERWRITE-^---" <:+: msg)
    (hfit : (lines ++ loggedLines s.minLevel [(level, tm, msg)]).flatten.length + markerLen ≤
      s.maxBytes) :
    Appending (lines ++ loggedLines s.minLevel [(level, tm, msg)])
      (Tgbot.logWrite s level tm msg) := by
  unfold Tgbot.logWrite loggedLines loggedLines at *
  by_cases hlv : level.toNat < s.minLevel.toNat
  · simpa [hlv] using h
  · simp only [hlv, if_false, List.flatten_append, List.flatten_singleton, List.length_append,
      ← h.file_eq] at hfit
    have hline : logLine tm level msg ≠ [] := fun he => by
      simpa [he] using getD_logLine_zero tm level msg
    have hL : logLineLen s.maxBytes (logLine tm level msg) = (logLine tm level msg).length := by
      unfold logLineLen
      omega
    -- the line fits whole at the end of the file, and no marker follows it
    have hplan : logWritePlan s.maxBytes s.writePos false (logLine tm level msg) =
        ⟨[⟨s.file.length, logLine tm level msg⟩], s.file.length + (logLine tm level msg).length,
          false⟩ := by
      rw [logWritePlan_of_le (hL ▸ List.length_pos.2 hline).ne' (by
        simp only [hL, h.writePos_eq, Bool.false_eq_true, ↓reduceIte]; omega),
        hL, List.take_length, h.writePos_eq]
      rfl
    have hend : writeAt s.file s.file.length (logLine tm level msg) =
        s.file ++ logLine tm level msg := by
      rw [writeAt_eq _ le_rfl, List.take_length, List.drop_eq_nil_of_le (by simp),
        List.append_nil]
    simp only [hlv, h.fpOpen, decide_False, Bool.not_true, Bool.or_self, Bool.false_eq_true,
      ↓reduceIte, h.not_overwriting, hplan, List.foldl_cons, List.foldl_nil, FileWrite.apply]
    refine ⟨rfl, rfl, by rw [hend, List.length_append], ?_, fun l hl => ?_, ?_⟩
    · rw [hend, h.file_eq, List.flatten_append, List.flatten_singleton]
    · rcases List.mem_append.1 hl with hl | hl
      · exact h.isLine l hl
      · exact List.mem_singleton.1 hl ▸ isLine_logLine tm level hmsg.1
    · exact noMarker_writeAt_end h.noMarker (noMarker_logLine tm level msg hmsg.2)
        (getD_logLine_zero tm level msg)

/-- **A run of `log_write` calls that never fills the file appends their lines**, each whole. -/
theorem Appending.logRun_writes {writes : List (LogLevel × Tm × List UInt8)}
    (hmsg : ∀ w ∈ writes, 10 ∉ w.2.2 ∧ ¬ bytes "---^-OVERWRITE-^---" <:+: w.2.2) :
    ∀ {lines s}, Appending lines s →
      (lines ++ loggedLines s.minLevel writes).flatten.length + markerLen ≤ s.maxBytes →
      Appending (lines ++ loggedLines s.minLevel writes)
        (logRun s (writes.map fun w => .write w.1 w.2.1 w.2.2)) := by
  induction writes with
  | nil => exact fun h _ => by simpa [loggedLines] using h
  | cons w writes ih =>
    intro lines s h hfit
    obtain ⟨level, tm, msg⟩ := w
    rw [loggedLines_cons, ← List.append_assoc] at hfit ⊢
    have hw := h.logWrite level tm (hmsg _ (.head _)) (by
      simp only [List.flatten_append, List.length_append] at hfit ⊢
      omega)
    simpa using ih (fun w' hw' => hmsg w' (.tail _ hw')) hw (by simpa using hfit)

end Appending

/-- **Until the log wraps, `log_read_last_n` prints the last `n` lines written**, whole and in
the order they were written: a log opened with a cap of at least `MIN_FILE_CAP` on an empty
file, then `log_write` calls whose messages hold no newline and not the marker's text, and whose
lines, with room for the marker after them, fit under the cap. -/
theorem logReadLastN_before_wrap {cap : Nat} (hcap : minFileCap ≤ cap)
    (writes : List (LogLevel × Tm × List UInt8))
    (hmsg : ∀ w ∈ writes, 10 ∉ w.2.2 ∧ ¬ bytes "---^-OVERWRITE-^---" <:+: w.2.2)
    (hfit : (loggedLines .info writes).flatten.length + markerLen ≤ cap) {n : Int} (hn : 0 < n) :
    logReadLastN (logRun (LogState.start [])
        (.init cap true :: writes.map fun w => .write w.1 w.2.1 w.2.2)).file n =
      if loggedLines .info writes = [] then (-1, [])
      else (0, ((loggedLines .info writes).drop
        ((loggedLines .info writes).length - n.toNat)).flatten) := by
  have h := (Appending.start cap).logRun_writes hmsg (by simpa using hfit)
  rw [List.nil_append] at h
  rw [logRun_cons, logStep, logInit_start_open hcap, h.file_eq]
  exact logReadLastN_lines h.isLine (findMarker_eq_none (h.file_eq ▸ h.noMarker)) hn

/-- Three calls, the second below the minimum level, and the last two lines asked for. -/
theorem logReadLastN_three_calls :
    minFileCap ≤ 256 ∧
      (∀ w ∈ [(LogLevel.info, (⟨2026, 0, 1, 0, 0, 0⟩ : Tm), bytes "a"),
          (LogLevel.debug, (⟨2026, 0, 1, 0, 0, 1⟩ : Tm), bytes "b"),
          (LogLevel.warn, (⟨2026, 0, 1, 0, 0, 2⟩ : Tm), bytes "c")],
        10 ∉ w.2.2 ∧ ¬ bytes "---^-OVERWRITE-^---" <:+: w.2.2) ∧
      (loggedLines .info [(LogLevel.info, (⟨2026, 0, 1, 0, 0, 0⟩ : Tm), bytes "a"),
          (LogLevel.debug, (⟨2026, 0, 1, 0, 0, 1⟩ : Tm), bytes "b"),
          (LogLevel.warn, (⟨2026, 0, 1, 0, 0, 2⟩ : Tm), bytes "c")]).flatten.length +
        markerLen ≤ 256 ∧
      (0 : Int) < 2 ∧
      logReadLastN (logRun (LogState.start [])
          (.init 256 true :: [(LogLevel.info, (⟨2026, 0, 1, 0, 0, 0⟩ : Tm), bytes "a"),
            (LogLevel.debug, (⟨2026, 0, 1, 0, 0, 1⟩ : Tm), bytes "b"),
            (LogLevel.warn, (⟨2026, 0, 1, 0, 0, 2⟩ : Tm), bytes "c")].map
            fun w => .write w.1 w.2.1 w.2.2)).file 2 =
        (0, logLine ⟨2026, 0, 1, 0, 0, 0⟩ .info (bytes "a") ++
          logLine ⟨2026, 0, 1, 0, 0, 2⟩ .warn (bytes "c")) :=
  have hmsg : ∀ w ∈ [(LogLevel.info, (⟨2026, 0, 1, 0, 0, 0⟩ : Tm), bytes "a"),
      (LogLevel.debug, (⟨2026, 0, 1, 0, 0, 1⟩ : Tm), bytes "b"),
      (LogLevel.warn, (⟨2026, 0, 1, 0, 0, 2⟩ : Tm), bytes "c")],
      10 ∉ w.2.2 ∧ ¬ bytes "---^-OVERWRITE-^---" <:+: w.2.2 := by decide
  ⟨by decide, hmsg, by decide, by decide,
    (logReadLastN_before_wrap (by decide) _ hmsg (by decide) (by decide)).trans (by decide)⟩

set_option maxRecDepth 4000 in
/-- **`log_read_last_n` prints what is left of a line the marker cut.** Eight lines
`[2026-01-01 00:00:00] [INFO ] hi` fill a 256-byte file past its cap: the eighth goes to the
top, and its marker covers the first twenty bytes of the second. Asked for ten lines, the
reader prints the last thirteen bytes of the second line first, then the third to the
eighth. -/
theorem log_read_prints_cut_line :
    let tm : Tm := ⟨2026, 0, 1, 0, 0, 0⟩
    let s := logRun (LogState.start [])
      (.init 256 true :: List.replicate 8 (.write .info tm (bytes "hi")))
    logReadLastN s.file 10 =
      (0, bytes "] [INFO ] hi\n" ++ (List.replicate 6 (logLine tm .info (bytes "hi"))).flatten) := by
  decide

end Tgbot
