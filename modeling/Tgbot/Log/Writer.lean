import Tgbot.Log.Line

/-!
# The log writer

The state `logger.c` keeps in its statics, and the calls that change it: `log_init` opens the
file and recovers where to write from the marker `find_marker` finds, `log_write` writes a
line where the cursor is (wrapping to the top when the line and the marker would pass the
cap), `log_close` closes the file.

`fseek`, `fread`, `fwrite` and `malloc` are taken to succeed; `fopen` is a parameter of
`log_init`.

## Main definitions

* `LogState`, `LogState.start`: the statics, and their values before the first call
* `findMarker`, `logInit`, `logWritePlan`, `logWrite`, `logClose`
* `LogOp`, `logStep`, `logRun`: one call, and a sequence of them

## Main results

* `LogBounds.logStep`: every call keeps the cursor, the marker and the file within the cap
* `log_write_bounds`: from any file within the cap, over every sequence of calls with one
  cap, no `fwrite` reaches past the cap and a line takes at most `min 4095 (cap - 20)` bytes
-/

namespace Tgbot

/-- `MIN_FILE_CAP`. -/
def minFileCap : Nat := 256

/-- The statics of `logger.c` that the calls read, and the log file's bytes. -/
structure LogState where
  /-- The bytes of the file at the log's path. -/
  file : List UInt8
  /-- `g_fp != NULL`. -/
  fpOpen : Bool
  /-- `g_max_bytes`. -/
  maxBytes : Nat
  /-- `g_write_pos`. -/
  writePos : Nat
  /-- `g_overwriting`. -/
  overwriting : Bool
  /-- `g_min_level`. -/
  minLevel : LogLevel

/-- The statics before the first call, with `file` on disk. -/
def LogState.start (file : List UInt8) : LogState :=
  ⟨file, false, 0, 0, false, .info⟩

/-! ## `find_marker` -/

/-- The scan of `find_marker` from `p`: the marker at `p`, or else on from the byte after the
next newline before `got`. `end_` is `got - MARKER_LEN`; each round moves `p` forward, so
`got + 1` rounds are enough. -/
def findMarkerLoop (buf : List UInt8) (end_ : Nat) : Nat → Nat → Option Nat
  | 0, _ => none
  | fuel + 1, p =>
    if p ≤ end_ then
      if (buf.drop p).take markerLen = marker then some p
      else
        match ((buf.drop p).take (end_ - p + markerLen)).findIdx? (· = 10) with
        | none => none
        | some i => findMarkerLoop buf end_ fuel (p + i + 1)
    else none

/-- **`find_marker`**: the offset of the marker, if the scan meets one. -/
def findMarker (file : List UInt8) : Option Nat :=
  if file.length < markerLen then none
  else findMarkerLoop file (file.length - markerLen) (file.length + 1) 0

/-! ## The calls -/

/-- Where `log_init` puts the cursor in the file it opened, and whether it overwrites: at the
marker, at the top of a full file, or at the end of the file. -/
def initCursor (file : List UInt8) (maxBytes : Nat) : Nat × Bool :=
  if file.length > 0 then
    match findMarker file with
    | some off => (off, true)
    | none => if file.length ≥ maxBytes then (0, true) else (file.length, false)
  else (0, false)

/-- **`log_init`**, its return value and the statics after it: a cap below `MIN_FILE_CAP` is
refused, and a failed `fopen` leaves the log closed. -/
def logInit (s : LogState) (maxBytes : Nat) (openOk : Bool) : Int × LogState :=
  if maxBytes < minFileCap then (-1, s)
  else if !openOk then (-1, { s with fpOpen := false })
  else
    let c := initCursor s.file maxBytes
    (0, { s with fpOpen := true, maxBytes := maxBytes, writePos := c.1, overwriting := c.2 })

/-- **`log_close`**. -/
def logClose (s : LogState) : LogState := { s with fpOpen := false }

/-- One `fseek` to `pos` then `fwrite` of `data`. -/
structure FileWrite where
  pos : Nat
  data : List UInt8

/-- The file after a `FileWrite`. -/
def FileWrite.apply (file : List UInt8) (w : FileWrite) : List UInt8 := writeAt file w.pos w.data

/-- What one `log_write` of a line does to the file and the cursor. -/
structure WritePlan where
  writes : List FileWrite
  writePos : Nat
  overwriting : Bool

/-- `line_len`: the line cut to `usable = g_max_bytes - MARKER_LEN`. -/
def logLineLen (maxBytes : Nat) (line : List UInt8) : Nat := min line.length (maxBytes - markerLen)

/-- **The writes of `log_write`** for a formatted line, in order: blanks over the stale marker
when the line and the marker would pass the cap, then `raw_write` of the line's first
`line_len` bytes (at the top after a wrap), then `write_marker` when overwriting. -/
def logWritePlan (maxBytes writePos : Nat) (overwriting : Bool) (line : List UInt8) : WritePlan :=
  let lineLen := logLineLen maxBytes line
  let spaceNeeded := lineLen + if overwriting then markerLen else 0
  let wrap := decide (writePos + spaceNeeded > maxBytes)
  let blank : List FileWrite :=
    if wrap && overwriting && decide (writePos + markerLen ≤ maxBytes) then [⟨writePos, blanks⟩]
    else []
  let pos := if wrap then 0 else writePos
  let ovw := wrap || overwriting
  let raw : List FileWrite := if lineLen = 0 then [] else [⟨pos, line.take lineLen⟩]
  let mark : List FileWrite := if ovw then [⟨pos + lineLen, marker⟩] else []
  ⟨blank ++ raw ++ mark, pos + lineLen, ovw⟩

/-- **`log_write`**: below the minimum level, or with the log closed, nothing is written. -/
def logWrite (s : LogState) (level : LogLevel) (tm : Tm) (msg : List UInt8) : LogState :=
  if level.toNat < s.minLevel.toNat || !s.fpOpen then s
  else
    let plan := logWritePlan s.maxBytes s.writePos s.overwriting (logLine tm level msg)
    { s with file := plan.writes.foldl FileWrite.apply s.file, writePos := plan.writePos,
             overwriting := plan.overwriting }

/-- A call into `logger.c`. -/
inductive LogOp
  | init (maxBytes : Nat) (openOk : Bool)
  | write (level : LogLevel) (tm : Tm) (msg : List UInt8)
  | close
  | setLevel (level : LogLevel)

/-- The statics after one call. -/
def logStep (s : LogState) : LogOp → LogState
  | .init maxBytes openOk => (logInit s maxBytes openOk).2
  | .write level tm msg => logWrite s level tm msg
  | .close => logClose s
  | .setLevel level => { s with minLevel := level }

/-- The statics after a sequence of calls. -/
def logRun (s : LogState) (ops : List LogOp) : LogState := ops.foldl logStep s

@[simp] theorem logRun_nil (s : LogState) : logRun s [] = s := rfl

@[simp] theorem logRun_cons (s : LogState) (op : LogOp) (ops : List LogOp) :
    logRun s (op :: ops) = logRun (logStep s op) ops := rfl

end Tgbot

namespace Tgbot

/-! ## What `find_marker` returns -/

theorem findMarkerLoop_sound {buf : List UInt8} {end_ : Nat} :
    ∀ {fuel p off}, findMarkerLoop buf end_ fuel p = some off →
      off ≤ end_ ∧ (buf.drop off).take markerLen = marker
  | 0, _, _, h => nomatch h
  | fuel + 1, p, off, h => by
    simp only [findMarkerLoop] at h
    split_ifs at h with hp hm
    · cases h
      exact ⟨hp, hm⟩
    · split at h
      · cases h
      · exact findMarkerLoop_sound h

/-- **`find_marker` is sound**: it returns only offsets the whole marker starts at. -/
theorem findMarker_sound {file : List UInt8} {off : Nat} (h : findMarker file = some off) :
    off + markerLen ≤ file.length ∧ markerAt file off := by
  unfold findMarker at h
  split_ifs at h with hlen
  obtain ⟨hoff, hm⟩ := findMarkerLoop_sound h
  refine ⟨by omega, fun k hk => ?_⟩
  rw [← hm, List.getD_eq_getElem?_getD, List.getD_eq_getElem?_getD, List.getElem?_take,
    if_pos hk, List.getElem?_drop]

/-- A file with no marker has none for `find_marker` to find. -/
theorem findMarker_eq_none {file : List UInt8} (h : NoMarker file) : findMarker file = none :=
  Option.eq_none_iff_forall_not_mem.2 fun _ hoff => h _ (findMarker_sound hoff).2

/-! ## The plan of a write -/

section Plan

variable {maxBytes writePos : Nat} {ovw : Bool} {line : List UInt8}

/-- A line that fits before the cap goes at the cursor, the marker after it. -/
theorem logWritePlan_of_le (hL : logLineLen maxBytes line ≠ 0)
    (h : writePos + (logLineLen maxBytes line + if ovw then markerLen else 0) ≤ maxBytes) :
    logWritePlan maxBytes writePos ovw line =
      ⟨⟨writePos, line.take (logLineLen maxBytes line)⟩ ::
        (if ovw then [⟨writePos + logLineLen maxBytes line, marker⟩] else []),
       writePos + logLineLen maxBytes line, ovw⟩ := by
  simp [logWritePlan, hL, Nat.not_lt.2 h]

/-- A line that does not fit wraps: blanks over the stale marker, then the line and the marker
at the top. -/
theorem logWritePlan_of_gt (hL : logLineLen maxBytes line ≠ 0)
    (h : maxBytes < writePos + (logLineLen maxBytes line + if ovw then markerLen else 0)) :
    logWritePlan maxBytes writePos ovw line =
      ⟨(if ovw ∧ writePos + markerLen ≤ maxBytes then [⟨writePos, blanks⟩] else []) ++
        [⟨0, line.take (logLineLen maxBytes line)⟩, ⟨logLineLen maxBytes line, marker⟩],
       logLineLen maxBytes line, true⟩ := by
  simp [logWritePlan, hL, h]

theorem logLineLen_ne_zero (hline : line ≠ []) (hcap : markerLen < maxBytes) :
    logLineLen maxBytes line ≠ 0 := by
  have := List.length_pos.2 hline
  unfold logLineLen
  omega

/-- **The writes of one `log_write` stay below the cap**, and so do the cursor and the marker
after them; each write is the blanks, the marker, or the line cut to `line_len`. -/
theorem logWritePlan_bounds (hline : line ≠ []) (hcap : markerLen < maxBytes)
    (h : writePos + (if ovw then markerLen else 0) ≤ maxBytes) :
    let plan := logWritePlan maxBytes writePos ovw line
    plan.writePos + (if plan.overwriting then markerLen else 0) ≤ maxBytes ∧
      ∀ w ∈ plan.writes, w.pos + w.data.length ≤ maxBytes ∧
        (w.data = blanks ∨ w.data = marker ∨
          (w.data <+: line ∧ w.data.length ≤ logLineLen maxBytes line)) := by
  have hL := logLineLen_ne_zero hline hcap
  have hle : logLineLen maxBytes line ≤ maxBytes - markerLen := min_le_right _ _
  have hraw : (line.take (logLineLen maxBytes line)).length ≤ logLineLen maxBytes line := by simp
  have hb : blanks.length = markerLen := rfl
  have hm := length_marker
  by_cases hw : writePos + (logLineLen maxBytes line + if ovw then markerLen else 0) ≤ maxBytes
  · rw [logWritePlan_of_le hL hw]
    refine ⟨by cases ovw <;> simp at hw ⊢ <;> omega, ?_⟩
    intro w hw'
    rcases List.mem_cons.1 hw' with rfl | hw'
    · exact ⟨by simp only; omega, .inr (.inr ⟨List.take_prefix _ _, hraw⟩)⟩
    · cases ovw <;> simp only [if_true, Bool.false_eq_true, if_false, List.mem_singleton] at hw hw'
      · cases hw'
      · subst hw'
        exact ⟨by simp only; omega, .inr (.inl rfl)⟩
  · rw [logWritePlan_of_gt hL (by omega)]
    refine ⟨by simp only [if_true]; omega, ?_⟩
    intro w hw'
    simp only [List.mem_append, List.mem_cons, List.mem_singleton, List.not_mem_nil,
      or_false] at hw'
    rcases hw' with hw' | rfl | rfl
    · split_ifs at hw' with hb'
      · obtain rfl := List.mem_singleton.1 hw'
        exact ⟨by simp only; omega, .inl rfl⟩
      · cases hw'
    · exact ⟨by simp only; omega, .inr (.inr ⟨List.take_prefix _ _, hraw⟩)⟩
    · exact ⟨by simp only; omega, .inr (.inl rfl)⟩
end Plan

/-! ## Bounds -/

/-- The cap a run keeps to: the file, the cursor and the marker after it lie below it. -/
structure LogBounds (cap : Nat) (s : LogState) : Prop where
  length_le : s.file.length ≤ cap
  maxBytes_eq : s.fpOpen = true → s.maxBytes = cap
  writePos_le : s.writePos + (if s.overwriting then markerLen else 0) ≤ cap

theorem length_foldl_apply_le {cap : Nat} :
    ∀ (ws : List FileWrite) (file : List UInt8), file.length ≤ cap →
      (∀ w ∈ ws, w.pos + w.data.length ≤ cap) → (ws.foldl FileWrite.apply file).length ≤ cap
  | [], _, h, _ => h
  | w :: ws, file, h, hws => by
    refine length_foldl_apply_le ws _ ?_ fun w' hw' => hws w' (.tail _ hw')
    have := hws w (.head _)
    rw [FileWrite.apply, length_writeAt]
    omega

theorem initCursor_bound {file : List UInt8} {maxBytes : Nat} (hfile : file.length ≤ maxBytes)
    (hcap : markerLen ≤ maxBytes) :
    (initCursor file maxBytes).1 + (if (initCursor file maxBytes).2 then markerLen else 0) ≤
      maxBytes := by
  unfold initCursor
  split
  · cases hf : findMarker file with
    | some off => simpa using (findMarker_sound hf).1.trans hfile
    | none => by_cases hc : maxBytes ≤ file.length <;> simp [hc] <;> omega
  · simp

section Step

variable {cap : Nat} {s : LogState}

theorem LogBounds.logInit (h : LogBounds cap s) (hcap : minFileCap ≤ cap) {m : Nat} (ok : Bool)
    (hm : minFileCap ≤ m → m = cap) : LogBounds cap (logInit s m ok).2 := by
  unfold Tgbot.logInit
  split_ifs with h₁ h₂
  · exact h
  · exact ⟨h.1, (fun h' => by cases h'), h.3⟩
  · obtain rfl := hm (Nat.not_lt.1 h₁)
    exact ⟨h.1, fun _ => rfl, initCursor_bound h.1 (le_trans (by decide) hcap)⟩

/-- The next `log_write` of a state within the cap writes within the cap. -/
theorem LogBounds.logWritePlan (h : LogBounds cap s) (hcap : minFileCap ≤ cap)
    (hopen : s.fpOpen = true) (tm : Tm) (level : LogLevel) (msg : List UInt8) :
    let plan := logWritePlan s.maxBytes s.writePos s.overwriting (logLine tm level msg)
    plan.writePos + (if plan.overwriting then markerLen else 0) ≤ cap ∧
      ∀ w ∈ plan.writes, w.pos + w.data.length ≤ cap ∧
        (w.data = blanks ∨ w.data = marker ∨
          (w.data <+: logLine tm level msg ∧
            w.data.length ≤ logLineLen s.maxBytes (logLine tm level msg))) := by
  have hmax := h.2 hopen
  have hline : logLine tm level msg ≠ [] := fun he => by
    simpa [he] using getD_logLine_zero tm level msg
  have hlt : markerLen < s.maxBytes := by rw [hmax]; exact lt_of_lt_of_le (by decide) hcap
  have h3 : s.writePos + (if s.overwriting then markerLen else 0) ≤ s.maxBytes := by
    rw [hmax]; exact h.3
  have := logWritePlan_bounds hline hlt h3
  rw [hmax] at this ⊢
  exact this

theorem LogBounds.logWrite (h : LogBounds cap s) (hcap : minFileCap ≤ cap) (level : LogLevel)
    (tm : Tm) (msg : List UInt8) : LogBounds cap (Tgbot.logWrite s level tm msg) := by
  unfold Tgbot.logWrite
  split_ifs with hskip
  · exact h
  · have hopen : s.fpOpen = true := by simp_all
    obtain ⟨hpos, hws⟩ := h.logWritePlan hcap hopen tm level msg
    exact ⟨length_foldl_apply_le _ _ h.1 fun w hw => (hws w hw).1, fun _ => h.2 hopen, hpos⟩

theorem LogBounds.logStep (h : LogBounds cap s) (hcap : minFileCap ≤ cap) {op : LogOp}
    (hop : ∀ m ok, op = .init m ok → m = cap) : LogBounds cap (logStep s op) := by
  cases op with
  | init m ok => exact h.logInit hcap ok fun _ => hop m ok rfl
  | write level tm msg => exact h.logWrite hcap level tm msg
  | close => exact ⟨h.1, (fun h' => by cases h'), h.3⟩
  | setLevel level => exact ⟨h.1, h.2, h.3⟩

theorem LogBounds.logRun (hcap : minFileCap ≤ cap) {ops : List LogOp} :
    ∀ {s : LogState}, LogBounds cap s → (∀ m ok, LogOp.init m ok ∈ ops → m = cap) →
      LogBounds cap (Tgbot.logRun s ops) := by
  induction ops with
  | nil => exact fun h _ => h
  | cons op ops ih =>
    exact fun h hops => ih (h.logStep hcap fun m ok he => hops m ok (he ▸ .head _))
      fun m ok hm => hops m ok (.tail _ hm)

end Step

/-- **The log stays within its cap.** From any file of at most `cap` bytes, over every sequence
of calls whose `log_init`s all ask for `cap`: the file stays within `cap`, the cursor and the
marker after it stay within `cap`, and every `fwrite` the next `log_write` makes ends within
`cap`; each is the blanks, the marker, or a prefix of the line of at most
`min 4095 (cap - 20)` bytes. -/
theorem log_write_bounds {cap : Nat} (hcap : minFileCap ≤ cap) {file : List UInt8}
    (hfile : file.length ≤ cap) {ops : List LogOp} (hops : ∀ m ok, LogOp.init m ok ∈ ops → m = cap) :
    let s := logRun (LogState.start file) ops
    s.file.length ≤ cap ∧ s.writePos + (if s.overwriting then markerLen else 0) ≤ cap ∧
      ∀ level tm msg, s.fpOpen = true →
        ∀ w ∈ (logWritePlan s.maxBytes s.writePos s.overwriting (logLine tm level msg)).writes,
          w.pos + w.data.length ≤ cap ∧ (w.data = blanks ∨ w.data = marker ∨
            (w.data <+: logLine tm level msg ∧
              w.data.length ≤ min (lineBufMax - 1) (cap - markerLen))) := by
  intro s
  have h : LogBounds cap s :=
    LogBounds.logRun hcap ⟨hfile, (fun h => by cases h), Nat.zero_le _⟩ hops
  refine ⟨h.1, h.3, fun level tm msg hopen w hw => ?_⟩
  obtain ⟨hw₁, hw₂⟩ := (h.logWritePlan hcap hopen tm level msg).2 w hw
  refine ⟨hw₁, hw₂.imp_right (Or.imp_right fun hd => ⟨hd.1, ?_⟩)⟩
  have := length_logLine_le tm level msg
  have := h.2 hopen
  have : logLineLen s.maxBytes (logLine tm level msg) ≤ min (lineBufMax - 1) (cap - markerLen) := by
    unfold logLineLen
    omega
  omega

/-- Eight lines of 33 bytes at a cap of 256: the eighth wraps to the top. -/
theorem log_write_bounds_eight_lines :
    let ops := LogOp.init 256 true ::
      List.replicate 8 (LogOp.write .info ⟨2026, 0, 1, 0, 0, 0⟩ (bytes "hi"))
    minFileCap ≤ 256 ∧ ([] : List UInt8).length ≤ 256 ∧
      (∀ m ok, LogOp.init m ok ∈ ops → m = 256) ∧
      let s := logRun (LogState.start []) ops
      s.file.length ≤ 256 ∧ s.writePos + (if s.overwriting then markerLen else 0) ≤ 256 ∧
        ∀ level tm msg, s.fpOpen = true →
          ∀ w ∈ (logWritePlan s.maxBytes s.writePos s.overwriting (logLine tm level msg)).writes,
            w.pos + w.data.length ≤ 256 ∧ (w.data = blanks ∨ w.data = marker ∨
              (w.data <+: logLine tm level msg ∧
                w.data.length ≤ min (lineBufMax - 1) (256 - markerLen))) :=
  have hops : ∀ m ok, LogOp.init m ok ∈ LogOp.init 256 true ::
      List.replicate 8 (LogOp.write .info ⟨2026, 0, 1, 0, 0, 0⟩ (bytes "hi")) → m = 256 :=
    fun m ok h => by
      simp only [List.mem_cons, List.mem_replicate, LogOp.init.injEq] at h
      rcases h with h | ⟨-, h⟩
      exacts [h.1, LogOp.noConfusion h]
  ⟨by decide, by decide, hops, log_write_bounds (by decide) (by decide) hops⟩

/-! ## Reopening

`find_marker` looks for the marker only at the top of the file and after a newline. A line
longer than `max_bytes - MARKER_LEN` is cut before its newline, and the marker written after
it then goes unseen: `log_init` takes the full file for one with no marker and starts at the
top, leaving the old marker in place. -/

set_option maxRecDepth 4000 in
theorem logInit_misses_marker_after_cut_line :
    let tm : Tm := ⟨2026, 0, 1, 0, 0, 0⟩
    let s := logRun (LogState.start [])
      [.init 256 true, .write .info tm (bytes "hi"), .write .info tm (List.replicate 270 120)]
    s.overwriting = true ∧ s.writePos = 236 ∧ markerAt s.file 236 ∧ findMarker s.file = none ∧
      (logRun s [.close, .init 256 true]).writePos = 0 ∧
      (logRun s [.close, .init 256 true, .write .info tm (bytes "hi")]).file ≠
        (logRun s [.write .info tm (bytes "hi")]).file := by
  decide

end Tgbot
