import Tgbot.Whitelist

/-!
# Slash commands

`cmd_dispatch` takes a text that starts with `/`, cuts out the command name (dropping an
`@botname` suffix addressed to this bot) with `parse_command`, finds the name in the sorted
`cmd_table` by binary search and runs its handler. A handler answers with `queue_push` calls;
`allow` and `revoke` also change the access list, for the configured admin only.

## Main definitions

* `Push`: one `queue_push` call
* `CmdCtx`: what the handlers read
* `parseCommand`, `cmdLookup`, `cmdAllow`, `cmdRevoke`, `cmdStatus`, `cmdDispatch`

## Main results

* `cmdDispatch_of_not_admin`: for any sender but the admin, a command leaves the access list
  as it is and answers the sender with the greeting, the help text or the refusal
* `cmdDispatch_text_ne`: no command answers with the text that invoked it
-/

namespace Tgbot

/-- One `queue_push (user_id, chat_id, text)` call. -/
structure Push where
  userId : Int64
  chatId : Int64
  text : List UInt8
deriving DecidableEq

/-- `CmdCtx`, with the fields of the configuration the handlers read, and what the monotonic
clock and `queue_depth` give when `/status` runs. -/
structure CmdCtx where
  /-- `cfg->admin_user_id`. -/
  adminUserId : Int64
  senderId : Int64
  chatId : Int64
  /-- `bot_username`, `NULL` when unknown. -/
  botUsername : Option (List UInt8)
  /-- `(int) (monotonic_sec () - boot_time)`. -/
  uptime : Nat
  workerCount : Int
  /-- What `queue_depth ()` returns during `/status`. -/
  queueDepth : Nat

/-- A reply to the sender, in the chat the command came from. -/
def CmdCtx.reply (ctx : CmdCtx) (text : List UInt8) : Push := ⟨ctx.senderId, ctx.chatId, text⟩

/-- The test the admin commands pass: `admin_user_id != 0 && sender_id == admin_user_id`. -/
def CmdCtx.isAdmin (ctx : CmdCtx) : Bool := ctx.adminUserId.val ≠ 0 && ctx.senderId = ctx.adminUserId

/-! ## Parsing -/

/-- **`parse_command`** with a 64-byte name buffer: the name after the `/` and the arguments
after the spaces that follow it. `none` for an empty or too long name, and for a suffix
`@name` that is not this bot's name up to case. -/
def parseCommand (text : List UInt8) (botUsername : Option (List UInt8)) :
    Option (List UInt8 × List UInt8) :=
  match cstr text with
  | 47 :: p =>
    let name := p.takeWhile fun c => c ≠ 32 ∧ c ≠ 64
    let rest := p.drop name.length
    if name.length = 0 ∨ name.length ≥ 64 then none
    else
      let afterName : Option (List UInt8) :=
        match rest with
        | 64 :: atStart =>
          let suffix := atStart.takeWhile (· ≠ 32)
          match botUsername with
          | some u =>
            if suffix.length = strlen u ∧ strncasecmpEq atStart (cstr u) (strlen u) then
              some (atStart.drop suffix.length)
            else none
          | none => some (atStart.drop suffix.length)
        | _ => some rest
      afterName.map fun r => (name, r.dropWhile (· = 32))
  | _ => none

/-- `strcmp` of two C strings given without their terminators: the order of the first bytes
that differ, a string that ends comparing as its terminator. -/
def strcmp : List UInt8 → List UInt8 → Ordering
  | [], [] => .eq
  | [], _ :: _ => .lt
  | _ :: _, [] => .gt
  | a :: as, b :: bs => if a < b then .lt else if b < a then .gt else strcmp as bs

/-- The commands of `cmd_table`. -/
inductive Cmd
  | allow
  | help
  | revoke
  | start
  | status
deriving DecidableEq

/-- The names of `cmd_table`. -/
def Cmd.name : Cmd → List UInt8
  | .allow => bytes "allow"
  | .help => bytes "help"
  | .revoke => bytes "revoke"
  | .start => bytes "start"
  | .status => bytes "status"

/-- `cmd_table`, sorted by name. -/
def cmdTable : List Cmd := [.allow, .help, .revoke, .start, .status]

/-- The loop of `cmd_lookup` on `[lo, hi]`; every round shrinks it, so `cmd_table_len`
rounds are enough. -/
def cmdLookupLoop (name : List UInt8) : Nat → Int → Int → Option Cmd
  | 0, _, _ => none
  | fuel + 1, lo, hi =>
    if lo ≤ hi then
      let mid := lo + (hi - lo) / 2
      match cmdTable[mid.toNat]? with
      | none => none
      | some e =>
        match strcmp name e.name with
        | .lt => cmdLookupLoop name fuel lo (mid - 1)
        | .gt => cmdLookupLoop name fuel (mid + 1) hi
        | .eq => some e
    else none

/-- **`cmd_lookup`**: binary search of `cmd_table`. -/
def cmdLookup (name : List UInt8) : Option Cmd :=
  cmdLookupLoop name cmdTable.length 0 (cmdTable.length - 1)

/-- An `int64_t` from an integer in its range. -/
def Int64.ofInt? (v : Int) : Option Int64 :=
  if h : -2 ^ 63 ≤ v ∧ v < 2 ^ 63 then some ⟨v, h⟩ else none

/-- `strtoll (args, &endptr, 10)` as the admin commands check it: the value when white space,
an optional sign and at least one digit make up the whole string and the value fits
`int64_t`; `none` when `endptr == args`, `*endptr != '\0'` or `errno == ERANGE`. -/
def strtollArg (args : List UInt8) : Option Int64 :=
  let s := (cstr args).dropWhile isSpace
  let (neg, s) :=
    if s.head? = some 45 then (true, s.tail)
    else if s.head? = some 43 then (false, s.tail) else (false, s)
  let ds := s.takeWhile isDigit
  if ds = [] ∨ ds.length ≠ s.length then none
  else Int64.ofInt? (if neg then -(digitsValue ds : Int) else digitsValue ds)

/-! ## The handlers -/

/-- The reply of `cmd_start`. -/
def startText : List UInt8 := bytes "Hello! I\x27m tgbot. Use /help to see available commands."

/-- The reply of `cmd_help`. -/
def helpText : List UInt8 :=
  bytes ("/start  - show greeting\n/help   - this message\n/status - (admin) operational status\n" ++
    "/allow <user_id>  - (admin) add user to whitelist\n" ++
    "/revoke <user_id> - (admin) remove user from whitelist")

/-- The refusal of the admin commands. -/
def deniedText : List UInt8 := bytes "permission denied: admin only."

/-- The reply of the admin commands to an id they reject. -/
def invalidIdText : List UInt8 := bytes "Invalid user ID."

/-- What `cmd_allow` queues for the user it added. -/
def welcomeText : List UInt8 := bytes "You have been granted access to this bot."

/-- `cmd_start`. -/
def cmdStart (ctx : CmdCtx) : List Push := [ctx.reply startText]

/-- `cmd_help`. -/
def cmdHelp (ctx : CmdCtx) : List Push := [ctx.reply helpText]

/-- **What `cmd_allow` and `cmd_revoke` share**: the refusal to anyone but the admin, the
usage notice without an argument, and the check of the id; `k` runs on a valid one. -/
def adminTargetCmd (ctx : CmdCtx) (usage : List UInt8) (args : List UInt8) (wl : List Int64)
    (k : Int64 → List Int64 × List Push) : List Int64 × List Push :=
  if !ctx.isAdmin then (wl, [ctx.reply deniedText])
  else if cstr args = [] then (wl, [ctx.reply usage])
  else
    match strtollArg args with
    | some target => if target.val = 0 then (wl, [ctx.reply invalidIdText]) else k target
    | none => (wl, [ctx.reply invalidIdText])

/-- **`cmd_allow`**: `whitelist_add`, then a reply by its code, and on success the welcome
queued for the new user in their own chat. -/
def cmdAllow (ctx : CmdCtx) (saved : Bool) (wl : List Int64) (args : List UInt8) :
    List Int64 × List Push :=
  adminTargetCmd ctx (bytes "Usage: /allow <user_id>") args wl fun target =>
    let (rc, wl') := whitelistAdd wl target saved
    if rc = 1 then (wl', [ctx.reply (bytes "User already whitelisted.")])
    else if rc = 0 then
      (wl', [ctx.reply (bytes ("User " ++ toString target.val ++ " added to whitelist.")),
        ⟨target, target, welcomeText⟩])
    else (wl', [ctx.reply (bytes "Failed to add user (whitelist full?).")])

/-- **`cmd_revoke`**: `whitelist_remove`, then a reply by its code. -/
def cmdRevoke (ctx : CmdCtx) (saved : Bool) (wl : List Int64) (args : List UInt8) :
    List Int64 × List Push :=
  adminTargetCmd ctx (bytes "Usage: /revoke <user_id>") args wl fun target =>
    let (rc, wl') := whitelistRemove wl target saved
    if rc = 1 then (wl', [ctx.reply (bytes "User was not whitelisted.")])
    else if rc = 0 then
      (wl', [ctx.reply (bytes ("User " ++ toString target.val ++ " removed from whitelist."))])
    else (wl', [ctx.reply (bytes "Failed to remove user.")])

/-- The report of `cmd_status`, cut to its 256-byte buffer. -/
def statusText (ctx : CmdCtx) (wlCount : Nat) : List UInt8 :=
  (bytes ("uptime: " ++ toString (ctx.uptime / 3600) ++ "h " ++
    toString (ctx.uptime % 3600 / 60) ++ "m " ++ toString (ctx.uptime % 60) ++ "s\nqueue: " ++
    toString ctx.queueDepth ++ " pending\nwhitelist: " ++ toString wlCount ++
    " user(s)\nworkers: " ++ toString ctx.workerCount)).take 255

/-- **`cmd_status`**. -/
def cmdStatus (ctx : CmdCtx) (wl : List Int64) : List Push :=
  if !ctx.isAdmin then [ctx.reply deniedText] else [ctx.reply (statusText ctx wl.length)]

/-- The handler of a table entry, on the arguments `parse_command` left; `saved` is whether
the access list's `whitelist_save` succeeds. -/
def runCmd (ctx : CmdCtx) (saved : Bool) (wl : List Int64) : Cmd → List UInt8 →
    List Int64 × List Push
  | .allow, args => cmdAllow ctx saved wl args
  | .help, _ => (wl, cmdHelp ctx)
  | .revoke, args => cmdRevoke ctx saved wl args
  | .start, _ => (wl, cmdStart ctx)
  | .status, _ => (wl, cmdStatus ctx wl)

/-- **`cmd_dispatch`**: `none` when it returns 0 (no command of the table), else the access
list and the pushes its handler leaves (it returns 1). -/
def cmdDispatch (ctx : CmdCtx) (saved : Bool) (wl : List Int64) (text : List UInt8) :
    Option (List Int64 × List Push) := do
  let (name, args) ← parseCommand text ctx.botUsername
  let cmd ← cmdLookup name
  some (runCmd ctx saved wl cmd args)

/-! ## Parsing and lookup -/

theorem head?_of_cstr_eq_cons {t p : List UInt8} {a : UInt8} (h : cstr t = a :: p) :
    t.head? = some a := by
  cases t with
  | nil => cases h
  | cons b bs =>
    simp only [cstr, List.takeWhile_cons] at h
    split at h
    · exact congrArg some (List.cons.inj h).1
    · cases h

/-- `parse_command` returns the bytes after the `/` up to a space or `@` as the name. -/
theorem parseCommand_eq_some {text : List UInt8} {u : Option (List UInt8)}
    {name args : List UInt8} (h : parseCommand text u = some (name, args)) :
    ∃ p, cstr text = 47 :: p ∧ name = p.takeWhile fun c => c ≠ 32 ∧ c ≠ 64 := by
  unfold parseCommand at h
  split at h
  · next p hp =>
    refine ⟨p, hp, ?_⟩
    dsimp only at h
    split_ifs at h
    obtain ⟨r, -, hr⟩ := Option.map_eq_some'.1 h
    exact (Prod.mk.inj hr).1.symm
  · cases h

theorem strcmp_eq_eq : ∀ {a b : List UInt8}, strcmp a b = .eq → a = b
  | [], [], _ => rfl
  | [], _ :: _, h => nomatch h
  | _ :: _, [], h => nomatch h
  | a :: as, b :: bs, h => by
    simp only [strcmp] at h
    split_ifs at h with h₁ h₂
    have hab : a.toNat = b.toNat := Nat.le_antisymm (Nat.not_lt.1 h₂) (Nat.not_lt.1 h₁)
    exact congrArg₂ _ (UInt8.toNat.inj hab) (strcmp_eq_eq h)

theorem cmdLookupLoop_name {name : List UInt8} :
    ∀ {fuel lo hi cmd}, cmdLookupLoop name fuel lo hi = some cmd → name = cmd.name
  | 0, _, _, _, h => nomatch h
  | fuel + 1, lo, hi, cmd, h => by
    simp only [cmdLookupLoop] at h
    split_ifs at h
    split at h
    · cases h
    · split at h
      · exact cmdLookupLoop_name h
      · exact cmdLookupLoop_name h
      · next e _ heq =>
        cases h
        exact strcmp_eq_eq heq

/-- **`cmd_lookup` finds exactly the names of the table.** -/
theorem cmdLookup_eq_some_iff (name : List UInt8) (cmd : Cmd) :
    cmdLookup name = some cmd ↔ name = cmd.name := by
  refine ⟨cmdLookupLoop_name, ?_⟩
  rintro rfl
  cases cmd <;> decide

/-! ## The texts `cmd_dispatch` accepts

`DispatchForm` reads the acceptance rule off the text, as the interface states it: a `/`, a
name of the table that the next space, `@` or the end stops, an `@` suffix that is this bot's
name up to case (any suffix when the name is unknown), and the arguments after the spaces that
follow. `cmd_dispatch_accepts` proves that `parse_command` and the binary search of
`cmd_lookup` accept exactly these texts. -/

/-- **A text `cmd_dispatch` accepts for the command `cmd`, with arguments `args`**: the C
string is `/`, the name, and a rest that starts with a space, `@` or nothing; an `@` starts a
suffix that the next space or the end stops and that matches `botUsername` up to case when it
is known; the arguments are what follows, without its leading spaces. -/
def DispatchForm (text : List UInt8) (botUsername : Option (List UInt8)) (cmd : Cmd)
    (args : List UInt8) : Prop :=
  ∃ rest after, cstr text = 47 :: (cmd.name ++ rest) ∧
    (rest = [] ∨ rest.head? = some 32 ∨ rest.head? = some 64) ∧
    (rest.head? = some 64 → ∃ suffix, rest = 64 :: (suffix ++ after) ∧ 32 ∉ suffix ∧
      (after = [] ∨ after.head? = some 32) ∧
      ∀ u, botUsername = some u → suffix.map toLower = (cstr u).map toLower) ∧
    (rest.head? ≠ some 64 → after = rest) ∧
    args = after.dropWhile (· = 32)

section Split

variable {α : Type} (p : α → Bool)

theorem drop_length_takeWhile (l : List α) : l.drop (l.takeWhile p).length = l.dropWhile p :=
  (congrArg (List.drop _) (List.takeWhile_append_dropWhile p l)).symm.trans (List.drop_left _ _)

theorem head?_dropWhile_eq_some {l : List α} {x : α} (h : (l.dropWhile p).head? = some x) :
    p x = false := by
  have := List.head?_dropWhile_not p l
  rw [h] at this
  simpa using this

variable {p}

theorem takeWhile_append_of_stop {a b : List α} (ha : ∀ x ∈ a, p x = true)
    (hb : ∀ x, b.head? = some x → p x = false) : (a ++ b).takeWhile p = a := by
  rw [List.takeWhile_append_of_pos ha]
  cases b with
  | nil => simp
  | cons x b => simp [List.takeWhile_cons, hb x rfl]

/-- `takeWhile` and `dropWhile` split a list where `p` first fails. -/
theorem takeWhile_dropWhile_eq_iff {l a b : List α} :
    (l.takeWhile p = a ∧ l.dropWhile p = b) ↔
      l = a ++ b ∧ (∀ x ∈ a, p x = true) ∧ ∀ x, b.head? = some x → p x = false := by
  constructor
  · rintro ⟨rfl, rfl⟩
    exact ⟨(List.takeWhile_append_dropWhile p l).symm, fun _ => List.mem_takeWhile_imp,
      fun _ => head?_dropWhile_eq_some p⟩
  · rintro ⟨rfl, ha, hb⟩
    have htw := takeWhile_append_of_stop ha hb
    have hsplit := List.takeWhile_append_dropWhile p (a ++ b)
    rw [htw] at hsplit
    exact ⟨htw, List.append_cancel_left hsplit⟩

end Split

/-- Where `parse_command`'s name stops: at a space, an `@` or the end. -/
theorem name_stop_iff (rest : List UInt8) :
    (∀ x, rest.head? = some x → decide (x ≠ 32 ∧ x ≠ 64) = false) ↔
      rest = [] ∨ rest.head? = some 32 ∨ rest.head? = some 64 := by
  cases rest <;> simp [or_iff_not_imp_left]

/-- Where the `@` suffix stops: at a space or the end. -/
theorem space_stop_iff (rest : List UInt8) :
    (∀ x, rest.head? = some x → decide (x ≠ 32) = false) ↔ rest = [] ∨ rest.head? = some 32 := by
  cases rest <;> simp

/-- The suffix test of `parse_command`: its length and `strncasecmp` on the suffix's bytes
decide whether it is the bot's name up to case. -/
theorem suffix_test_iff (suffix after u : List UInt8) :
    (suffix.length = strlen u ∧ strncasecmpEq (suffix ++ after) (cstr u) (strlen u) = true) ↔
      suffix.map toLower = (cstr u).map toLower := by
  rw [strncasecmpEq_iff]
  constructor
  · rintro ⟨hlen, h⟩
    rwa [← hlen, List.take_left, List.take_of_length_le (le_of_eq hlen.symm)] at h
  · intro h
    have hlen : suffix.length = strlen u := by
      simpa only [List.length_map] using congrArg List.length h
    refine ⟨hlen, ?_⟩
    rw [← hlen, List.take_left, List.take_of_length_le (le_of_eq hlen.symm), h]

/-- **`parse_command` accepts exactly the texts of the form**, for a name with no space or
`@` and of fewer than 64 bytes. -/
theorem parseCommand_eq_some_iff (text : List UInt8) (u : Option (List UInt8))
    {name : List UInt8} (hname : name ≠ [] ∧ name.length < 64 ∧ ∀ c ∈ name, c ≠ 32 ∧ c ≠ 64)
    (args : List UInt8) :
    parseCommand text u = some (name, args) ↔
      ∃ rest after, cstr text = 47 :: (name ++ rest) ∧
        (rest = [] ∨ rest.head? = some 32 ∨ rest.head? = some 64) ∧
        (rest.head? = some 64 → ∃ suffix, rest = 64 :: (suffix ++ after) ∧ 32 ∉ suffix ∧
          (after = [] ∨ after.head? = some 32) ∧
          ∀ v, u = some v → suffix.map toLower = (cstr v).map toLower) ∧
        (rest.head? ≠ some 64 → after = rest) ∧
        args = after.dropWhile (· = 32) := by
  constructor
  · intro h
    unfold parseCommand at h
    split at h
    case h_2 => cases h
    next p hp =>
    dsimp only at h
    split_ifs at h
    obtain ⟨after, hafter, hr⟩ := Option.map_eq_some'.1 h
    obtain ⟨rfl, rfl⟩ := Prod.mk.inj hr
    -- the name runs to a space, an `@` or the end
    obtain ⟨hsplit, -, hstop⟩ :=
      takeWhile_dropWhile_eq_iff.1 ⟨rfl, (drop_length_takeWhile _ p).symm⟩
    generalize p.drop _ = rest at hafter hsplit hstop
    refine ⟨rest, after, by rw [hp, ← hsplit], (name_stop_iff rest).1 hstop, fun h64 => ?_,
      fun h64 => ?_, rfl⟩
    · -- the suffix runs to a space or the end
      obtain ⟨atStart, rfl⟩ := List.head?_eq_some_iff.1 h64
      split at hafter
      · next atStart' heq =>
        obtain rfl : atStart = atStart' := (List.cons.inj heq).2
        set suffix := atStart.takeWhile fun x => decide (x ≠ 32)
        obtain ⟨hdrop, hv⟩ : atStart.drop suffix.length = after ∧ ∀ v, u = some v →
            suffix.length = strlen v ∧ strncasecmpEq atStart (cstr v) (strlen v) = true := by
          cases u with
          | none => exact ⟨Option.some.inj hafter, nofun⟩
          | some v =>
            dsimp only at hafter
            split_ifs at hafter with hv
            exact ⟨Option.some.inj hafter, fun _ h => Option.some.inj h ▸ hv⟩
        rw [drop_length_takeWhile] at hdrop
        obtain ⟨hsplit', h32, hstop'⟩ := takeWhile_dropWhile_eq_iff.1 ⟨rfl, hdrop⟩
        rw [hsplit'] at hv
        exact ⟨suffix, by rw [← hsplit'], fun h => by simpa using h32 _ h,
          (space_stop_iff after).1 hstop', fun v hu => (suffix_test_iff _ _ v).1 (hv v hu)⟩
      · next hne => exact absurd rfl (hne atStart)
    · -- no suffix
      split at hafter
      · exact absurd rfl h64
      · exact (Option.some.inj hafter).symm
  · rintro ⟨rest, after, hcs, hstop, hsuf, hno, rfl⟩
    obtain ⟨hne, hlt, hnm⟩ := hname
    obtain ⟨htw, -⟩ := takeWhile_dropWhile_eq_iff.2
      ⟨rfl, fun c hc => by simpa using hnm c hc, (name_stop_iff rest).2 hstop⟩
    have hlen : ¬(name.length = 0 ∨ name.length ≥ 64) := by
      simpa [List.length_eq_zero, hne] using hlt
    unfold parseCommand
    split
    case h_2 hn => exact absurd hcs (hn _)
    next p hp =>
    obtain rfl : name ++ rest = p := (List.cons.inj (hcs.symm.trans hp)).2
    dsimp only
    rw [htw, List.drop_left, if_neg hlen]
    split
    · next atStart =>
      obtain ⟨suffix, hrest, h32, hstop', hsv⟩ := hsuf rfl
      obtain rfl : atStart = suffix ++ after := (List.cons.inj hrest).2
      obtain ⟨hsw, -⟩ := takeWhile_dropWhile_eq_iff.2 ⟨rfl,
        fun c hc => by simpa using fun (h : c = 32) => h32 (h ▸ hc),
        (space_stop_iff after).2 hstop'⟩
      cases u with
      | none => simp only [hsw, List.drop_left, Option.map_some']
      | some v =>
        dsimp only
        rw [hsw, if_pos ((suffix_test_iff suffix after v).2 (hsv v rfl)), List.drop_left]
        rfl
    · next hn =>
      rw [hno fun h64 => by obtain ⟨r, rfl⟩ := List.head?_eq_some_iff.1 h64; exact hn r rfl]
      rfl

theorem cmdDispatch_eq_some {ctx : CmdCtx} {saved : Bool} {wl : List Int64} {text : List UInt8}
    {r : List Int64 × List Push} (h : cmdDispatch ctx saved wl text = some r) :
    ∃ name args cmd, parseCommand text ctx.botUsername = some (name, args) ∧
      cmdLookup name = some cmd ∧ r = runCmd ctx saved wl cmd args := by
  unfold cmdDispatch at h
  cases hp : parseCommand text ctx.botUsername with
  | none => simp [hp] at h
  | some na =>
    cases hl : cmdLookup na.1 with
    | none => simp [hp, hl] at h
    | some cmd =>
      simp only [hp, hl, Option.bind_eq_bind, Option.some_bind, Option.some.injEq] at h
      exact ⟨na.1, na.2, cmd, rfl, hl, h.symm⟩

/-- **A command addressed to another bot is not parsed**: `parse_command` returns `NULL` for a
text `/name@suffix` whose suffix, up to a space or the end, is not the bot's name up to case. -/
theorem parseCommand_other_bot {text name suffix after u : List UInt8}
    (htext : cstr text = 47 :: (name ++ 64 :: (suffix ++ after)))
    (hname : ∀ c ∈ name, c ≠ 32 ∧ c ≠ 64) (hsuffix : 32 ∉ suffix)
    (hafter : after = [] ∨ after.head? = some 32)
    (hdiff : suffix.map toLower ≠ (cstr u).map toLower) :
    parseCommand text (some u) = none := by
  -- the name stops at the `@`, and the suffix at the space after it or at the end
  have hn := (takeWhile_dropWhile_eq_iff (p := fun c => decide (c ≠ 32 ∧ c ≠ 64))
    (l := name ++ 64 :: (suffix ++ after))).2 ⟨rfl, fun x hx => by simpa using hname x hx,
      fun x hx => by cases Option.some.inj hx; decide⟩
  have hs := (takeWhile_dropWhile_eq_iff (p := fun c => decide (c ≠ 32))
    (l := suffix ++ after)).2 ⟨rfl, fun x hx => by simpa using fun h : x = 32 => hsuffix (h ▸ hx),
      fun x hx => (space_stop_iff after).2 hafter x hx⟩
  unfold parseCommand
  rw [htext]
  simp only [hn.1, List.drop_left]
  by_cases hlen : name.length = 0 ∨ name.length ≥ 64
  · rw [if_pos hlen]
  · rw [if_neg hlen]
    simp only [hs.1, suffix_test_iff, hdiff, if_false, Option.map_none']

theorem Cmd.name_wf (c : Cmd) :
    c.name ≠ [] ∧ c.name.length < 64 ∧ ∀ x ∈ c.name, x ≠ 32 ∧ x ≠ 64 := by
  cases c <;> decide

/-- `cmd_dispatch` runs the handler of a text exactly when the text has the form. -/
theorem cmdDispatch_eq_some_iff (ctx : CmdCtx) (saved : Bool) (wl : List Int64)
    (text : List UInt8) (r : List Int64 × List Push) :
    cmdDispatch ctx saved wl text = some r ↔
      ∃ cmd args, DispatchForm text ctx.botUsername cmd args ∧
        r = runCmd ctx saved wl cmd args := by
  constructor
  · intro h
    obtain ⟨name, args, cmd, hp, hl, rfl⟩ := cmdDispatch_eq_some h
    obtain rfl := (cmdLookup_eq_some_iff _ _).1 hl
    exact ⟨cmd, args, (parseCommand_eq_some_iff _ _ cmd.name_wf args).1 hp, rfl⟩
  · rintro ⟨cmd, args, hf, rfl⟩
    have hp := (parseCommand_eq_some_iff _ _ cmd.name_wf args).2 hf
    simp only [cmdDispatch, hp, (cmdLookup_eq_some_iff _ _).2 rfl, Option.bind_eq_bind,
      Option.some_bind]

/-- The binary search finds what a linear search of the table finds. -/
theorem cmdLookup_eq_find? (name : List UInt8) :
    cmdLookup name = cmdTable.find? fun c => c.name = name := by
  refine Option.ext fun cmd => (cmdLookup_eq_some_iff name cmd).trans ⟨?_, fun h => ?_⟩
  · rintro rfl
    cases cmd <;> decide
  · simpa [eq_comm] using List.find?_some h

/-- **`cmd_dispatch` handles exactly the texts of `DispatchForm`**, with the handler of the
command they name on their arguments, and `cmd_lookup` agrees with a linear search of
`cmd_table`. -/
theorem cmd_dispatch_accepts (ctx : CmdCtx) (saved : Bool) (wl : List Int64) (text : List UInt8)
    (r : List Int64 × List Push) :
    (cmdDispatch ctx saved wl text = some r ↔
      ∃ cmd args, DispatchForm text ctx.botUsername cmd args ∧
        r = runCmd ctx saved wl cmd args) ∧
      ∀ name, cmdLookup name = cmdTable.find? fun c => c.name = name :=
  ⟨cmdDispatch_eq_some_iff ctx saved wl text r, cmdLookup_eq_find?⟩

/-! ## What a command queues -/

theorem head?_append_of_head? {l l' : List UInt8} {a : UInt8} (h : l.head? = some a) :
    (l ++ l').head? = some a := by
  cases l <;> simp_all

section Handlers

variable {ctx : CmdCtx} {saved : Bool} {wl : List Int64} {args usage : List UInt8}
  {k : Int64 → List Int64 × List Push}

theorem adminTargetCmd_of_not_admin (h : ctx.isAdmin = false) :
    adminTargetCmd ctx usage args wl k = (wl, [ctx.reply deniedText]) := by
  simp [adminTargetCmd, h]

/-- `adminTargetCmd` leaves the list as it is, or, for the admin, what `k` leaves on a
non-zero id that `strtollArg` read. -/
theorem adminTargetCmd_fst {f : Int64 → List Int64} (hk : ∀ n, (k n).1 = f n) :
    (adminTargetCmd ctx usage args wl k).1 = wl ∨
      ctx.isAdmin = true ∧ ∃ n, strtollArg args = some n ∧ n.val ≠ 0 ∧
        (adminTargetCmd ctx usage args wl k).1 = f n := by
  unfold adminTargetCmd
  split_ifs with hadmin
  · exact .inl rfl
  · exact .inl rfl
  · split
    · next n hn =>
      split_ifs with h0
      · exact .inl rfl
      · exact .inr ⟨by simpa using hadmin, n, hn, h0, hk n⟩
    · exact .inl rfl

/-- Every push of `adminTargetCmd` is one of its own three replies or a push of `k`. -/
theorem adminTargetCmd_pushes {P : Push → Prop}
    (hreply : P (ctx.reply deniedText) ∧ P (ctx.reply usage) ∧ P (ctx.reply invalidIdText))
    (hk : ∀ target, ∀ p ∈ (k target).2, P p) :
    ∀ p ∈ (adminTargetCmd ctx usage args wl k).2, P p := by
  unfold adminTargetCmd
  split_ifs
  · simpa using hreply.1
  · simpa using hreply.2.1
  · split
    · split_ifs
      · simpa using hreply.2.2
      · exact hk _
    · simpa using hreply.2.2

/-- What `cmd_allow` queues besides its replies to the sender: the welcome, for the user it
added and in that user's own chat. -/
theorem cmdAllow_pushes : ∀ p ∈ (cmdAllow ctx saved wl args).2,
    (p.userId = ctx.senderId ∧ p.chatId = ctx.chatId ∧ p.text.head? ≠ some 47) ∨
      (p.userId = p.chatId ∧ p.text = welcomeText) := by
  refine adminTargetCmd_pushes ⟨.inl ⟨rfl, rfl, (by decide : deniedText.head? ≠ some 47)⟩,
    .inl ⟨rfl, rfl, (by decide : (bytes "Usage: /allow <user_id>").head? ≠ some 47)⟩,
    .inl ⟨rfl, rfl, (by decide : invalidIdText.head? ≠ some 47)⟩⟩ fun target p hp => ?_
  obtain ⟨rc, wl'⟩ := whitelistAdd wl target saved
  dsimp only at hp
  split_ifs at hp <;>
    simp only [List.mem_cons, List.mem_singleton, List.not_mem_nil, or_false] at hp
  · exact .inl ⟨by rw [hp]; rfl, by rw [hp]; rfl,
      by rw [hp]; exact (by decide : (bytes "User already whitelisted.").head? ≠ some 47)⟩
  · rcases hp with rfl | rfl
    · refine .inl ⟨rfl, rfl, ?_⟩
      simp only [CmdCtx.reply, bytes_append]
      rw [List.append_assoc, head?_append_of_head? (show (bytes "User ").head? = some 85 by decide)]
      decide
    · exact .inr ⟨rfl, rfl⟩
  · exact .inl ⟨by rw [hp]; rfl, by rw [hp]; rfl, by
      rw [hp]; exact (by decide : (bytes "Failed to add user (whitelist full?).").head? ≠ some 47)⟩

/-- Every push of `cmd_revoke` is a reply to the sender. -/
theorem cmdRevoke_pushes : ∀ p ∈ (cmdRevoke ctx saved wl args).2,
    p.userId = ctx.senderId ∧ p.chatId = ctx.chatId ∧ p.text.head? ≠ some 47 := by
  refine adminTargetCmd_pushes ⟨⟨rfl, rfl, (by decide : deniedText.head? ≠ some 47)⟩,
    ⟨rfl, rfl, (by decide : (bytes "Usage: /revoke <user_id>").head? ≠ some 47)⟩,
    ⟨rfl, rfl, (by decide : invalidIdText.head? ≠ some 47)⟩⟩ fun target p hp => ?_
  obtain ⟨rc, wl'⟩ := whitelistRemove wl target saved
  dsimp only at hp
  split_ifs at hp <;> simp only [List.mem_singleton] at hp <;> subst hp <;>
    refine ⟨rfl, rfl, ?_⟩
  · exact (by decide : (bytes "User was not whitelisted.").head? ≠ some 47)
  · simp only [CmdCtx.reply, bytes_append]
    rw [List.append_assoc, head?_append_of_head? (show (bytes "User ").head? = some 85 by decide)]
    decide
  · exact (by decide : (bytes "Failed to remove user.").head? ≠ some 47)

/-- Every push of `cmd_status` is a reply to the sender. -/
theorem cmdStatus_pushes : ∀ p ∈ cmdStatus ctx wl,
    p.userId = ctx.senderId ∧ p.chatId = ctx.chatId ∧ p.text.head? ≠ some 47 := by
  unfold cmdStatus
  split_ifs <;> simp only [List.mem_singleton] <;> rintro p rfl <;> refine ⟨rfl, rfl, ?_⟩
  · exact (by decide : deniedText.head? ≠ some 47)
  · simp only [CmdCtx.reply, statusText, bytes_append, List.append_assoc]
    rw [List.head?_take, if_neg (by decide),
      head?_append_of_head? (show (bytes "uptime: ").head? = some 117 by decide)]
    decide

end Handlers

/-- **For any sender but the admin, a command leaves the access list as it is** and answers
the sender with the greeting, the help text or the refusal. -/
theorem cmdDispatch_of_not_admin {ctx : CmdCtx} {saved : Bool} {wl wl' : List Int64}
    {text : List UInt8} {ps : List Push} (h : ctx.isAdmin = false)
    (hd : cmdDispatch ctx saved wl text = some (wl', ps)) :
    wl' = wl ∧ ∀ p ∈ ps, p = ctx.reply startText ∨ p = ctx.reply helpText ∨
      p = ctx.reply deniedText := by
  obtain ⟨name, args, cmd, -, -, hr⟩ := cmdDispatch_eq_some hd
  cases cmd <;>
    simp only [runCmd, cmdAllow, cmdRevoke, cmdStatus, cmdStart, cmdHelp, h,
      adminTargetCmd_of_not_admin h, Bool.not_false, if_true, Prod.mk.injEq] at hr <;>
    obtain ⟨rfl, rfl⟩ := hr <;> simp

/-- **No command answers with the text that invoked it**: every reply but the help text starts
with something else than `/`, and the help text invokes `/start`. -/
theorem cmdDispatch_text_ne {ctx : CmdCtx} {saved : Bool} {wl wl' : List Int64}
    {text : List UInt8} {ps : List Push} (hd : cmdDispatch ctx saved wl text = some (wl', ps)) :
    ∀ p ∈ ps, p.text ≠ text := by
  obtain ⟨name, args, cmd, hparse, hlook, hr⟩ := cmdDispatch_eq_some hd
  obtain ⟨q, hq, hname⟩ := parseCommand_eq_some hparse
  have h47 := head?_of_cstr_eq_cons hq
  intro p hp heq
  rw [← heq] at h47
  cases cmd with
  | allow =>
    rcases cmdAllow_pushes p (by rw [(Prod.mk.inj hr).2] at hp; exact hp) with
      ⟨-, -, hne⟩ | ⟨-, hw⟩
    · exact hne h47
    · rw [hw] at h47
      exact absurd h47 (by decide)
  | help =>
    -- the help text invokes `/start`
    simp only [runCmd, cmdHelp, Prod.mk.injEq] at hr
    rw [hr.2, List.mem_singleton] at hp
    subst hp
    have htext : text = helpText := heq.symm
    subst htext
    have hq' : q = (cstr helpText).tail := by rw [hq]; rfl
    rw [(cmdLookup_eq_some_iff _ _).1 hlook, hq'] at hname
    exact absurd hname (by decide)
  | revoke =>
    exact (cmdRevoke_pushes p (by rw [(Prod.mk.inj hr).2] at hp; exact hp)).2.2 h47
  | start =>
    simp only [runCmd, cmdStart, Prod.mk.injEq, List.mem_singleton] at hr
    rw [hr.2, List.mem_singleton] at hp
    rw [hp] at h47
    exact (by decide : ¬ startText.head? = some 47) h47
  | status =>
    exact (cmdStatus_pushes p (by rw [(Prod.mk.inj hr).2] at hp; exact hp)).2.2 h47

/-! ## Who changes the access list -/

/-- **A whole decimal numeral of value `n`**, as an admin command's argument must be: white
space, an optional sign and at least one digit, with nothing after them. -/
def NumericArg (args : List UInt8) (n : Int64) : Prop :=
  ∃ ws sign ds, args = ws ++ sign ++ ds ∧ (∀ c ∈ ws, isSpace c = true) ∧
    (sign = [] ∨ sign = [43] ∨ sign = [45]) ∧ ds ≠ [] ∧ (∀ c ∈ ds, isDigit c = true) ∧
    n.val = if sign = [45] then -(digitsValue ds : Int) else digitsValue ds

theorem Int64.ofInt?_eq_some {v : Int} {n : Int64} (h : Int64.ofInt? v = some n) : n.val = v := by
  unfold Int64.ofInt? at h
  split at h
  · cases h
    rfl
  · cases h

/-- The digits `strtollArg` reads after the sign are the whole rest of the string. -/
theorem strtollArg_digits (t : List UInt8) (neg : Bool) {n : Int64}
    (h : (if t.takeWhile isDigit = [] ∨ (t.takeWhile isDigit).length ≠ t.length then none
      else Int64.ofInt? (if neg then -(digitsValue (t.takeWhile isDigit) : Int)
        else digitsValue (t.takeWhile isDigit))) = some n) :
    t ≠ [] ∧ (∀ c ∈ t, isDigit c = true) ∧
      n.val = if neg then -(digitsValue t : Int) else digitsValue t := by
  split at h
  · cases h
  · next hc =>
    rw [not_or, not_not] at hc
    have ht : t.takeWhile isDigit = t := (List.takeWhile_prefix _).eq_of_length hc.2
    rw [ht] at hc h
    exact ⟨hc.1, fun c hc' => List.takeWhile_eq_self_iff.1 ht c hc', Int64.ofInt?_eq_some h⟩

/-- **What `strtollArg` accepts is a whole numeral** of the value it returns. -/
theorem numericArg_of_strtollArg {args : List UInt8} {n : Int64} (h : strtollArg args = some n) :
    NumericArg (cstr args) n := by
  have hws := (List.takeWhile_append_dropWhile isSpace (cstr args)).symm
  have hsp : ∀ c ∈ (cstr args).takeWhile isSpace, isSpace c = true :=
    fun c hc => List.mem_takeWhile_imp hc
  unfold strtollArg at h
  generalize (cstr args).dropWhile isSpace = s at h hws
  dsimp only at h
  rcases s with _ | ⟨c, t⟩
  · simp at h
  by_cases h45 : (c :: t).head? = some 45
  · obtain rfl : c = 45 := by simpa using h45
    rw [if_pos h45] at h
    obtain ⟨hne, hd, hv⟩ := strtollArg_digits t true h
    exact ⟨_, [45], t, hws.trans (by simp), hsp, .inr (.inr rfl), hne, hd, hv⟩
  rw [if_neg h45] at h
  by_cases h43 : (c :: t).head? = some 43
  · obtain rfl : c = 43 := by simpa using h43
    rw [if_pos h43] at h
    obtain ⟨hne, hd, hv⟩ := strtollArg_digits t false h
    exact ⟨_, [43], t, hws.trans (by simp), hsp, .inr (.inl rfl), hne, hd, hv⟩
  rw [if_neg h43] at h
  obtain ⟨hne, hd, hv⟩ := strtollArg_digits (c :: t) false h
  exact ⟨_, [], c :: t, hws.trans (by simp), hsp, .inl rfl, hne, hd, hv⟩

/-- The arguments of a text `cmd_dispatch` accepts hold no `NUL`. -/
theorem DispatchForm.zero_not_mem {text : List UInt8} {u : Option (List UInt8)} {cmd : Cmd}
    {args : List UInt8} (h : DispatchForm text u cmd args) : 0 ∉ args := by
  obtain ⟨rest, after, hcs, -, hsuf, hno, rfl⟩ := h
  have hrest : 0 ∉ rest := fun h0 => zero_not_mem_cstr text (by rw [hcs]; simp [h0])
  have hafter : 0 ∉ after := by
    by_cases h64 : rest.head? = some 64
    · obtain ⟨suffix, rfl, -⟩ := hsuf h64
      exact fun h0 => hrest (by simp [h0])
    · rwa [hno h64]
  exact fun h0 => hafter ((List.dropWhile_suffix _).subset h0)

/-- Only `/allow` and `/revoke` change the list, for the admin and through a numeral. -/
theorem runCmd_fst (ctx : CmdCtx) (saved : Bool) (wl : List Int64) (cmd : Cmd)
    (args : List UInt8) :
    (runCmd ctx saved wl cmd args).1 = wl ∨ ctx.isAdmin = true ∧ ∃ n, NumericArg (cstr args) n ∧
      n.val ≠ 0 ∧
        (cmd = .allow ∧ (runCmd ctx saved wl cmd args).1 = (whitelistAdd wl n saved).2 ∨
          cmd = .revoke ∧ (runCmd ctx saved wl cmd args).1 = (whitelistRemove wl n saved).2) := by
  cases cmd with
  | allow =>
    refine (adminTargetCmd_fst fun n => ?_).imp_right
      fun ⟨hadmin, n, hn, h0, h⟩ => ⟨hadmin, n, numericArg_of_strtollArg hn, h0, .inl ⟨rfl, h⟩⟩
    dsimp only
    obtain ⟨rc, wl'⟩ := whitelistAdd wl n saved
    dsimp only
    split_ifs <;> rfl
  | revoke =>
    refine (adminTargetCmd_fst fun n => ?_).imp_right
      fun ⟨hadmin, n, hn, h0, h⟩ => ⟨hadmin, n, numericArg_of_strtollArg hn, h0, .inr ⟨rfl, h⟩⟩
    dsimp only
    obtain ⟨rc, wl'⟩ := whitelistRemove wl n saved
    dsimp only
    split_ifs <;> rfl
  | help | start | status => exact .inl rfl

/-- **Only the admin changes the access list**, by `/allow` or `/revoke` with a whole non-zero
numeral as argument, through one `whitelist_add` or `whitelist_remove` of its value; every
other text and context leaves the list as it is. -/
theorem cmd_dispatch_list_change (ctx : CmdCtx) (saved : Bool) (wl : List Int64)
    (text : List UInt8) :
    ((cmdDispatch ctx saved wl text).map Prod.fst).getD wl = wl ∨
      ctx.senderId = ctx.adminUserId ∧ ctx.adminUserId.val ≠ 0 ∧
        ∃ args n, NumericArg args n ∧ n.val ≠ 0 ∧
          (DispatchForm text ctx.botUsername .allow args ∧
              ((cmdDispatch ctx saved wl text).map Prod.fst).getD wl = (whitelistAdd wl n saved).2 ∨
            DispatchForm text ctx.botUsername .revoke args ∧
              ((cmdDispatch ctx saved wl text).map Prod.fst).getD wl =
                (whitelistRemove wl n saved).2) := by
  rcases hd : cmdDispatch ctx saved wl text with _ | r
  · exact .inl rfl
  obtain ⟨cmd, args, hf, rfl⟩ := (cmdDispatch_eq_some_iff ctx saved wl text _).1 hd
  rw [← cstr_eq_self hf.zero_not_mem] at hf
  rcases runCmd_fst ctx saved wl cmd args with h | ⟨hadmin, n, hn, h0, hcmd⟩
  · exact .inl h
  · simp only [CmdCtx.isAdmin, Bool.and_eq_true, decide_eq_true_eq] at hadmin
    refine .inr ⟨hadmin.2, hadmin.1, cstr args, n, hn, h0, ?_⟩
    rcases hcmd with ⟨rfl, h⟩ | ⟨rfl, h⟩
    exacts [.inl ⟨hf, h⟩, .inr ⟨hf, h⟩]

/-! ## A save that fails -/

/-- **`whitelist_add` and `whitelist_remove` return -1 after changing the list** when
`whitelist_save` fails: the admin adds 888 to an empty list, and is told the add failed while
888 is on the in-memory list and is served; removing it again, the admin is told the removal
failed while 888 is gone. The file keeps what it had before each call. -/
theorem whitelist_failed_save_changes_list :
    let ctx : CmdCtx := ⟨Int64.ofInt 42, Int64.ofInt 42, Int64.ofInt 42, none, 0, 1, 0⟩
    whitelistAdd [] (Int64.ofInt 888) false = (-1, [Int64.ofInt 888]) ∧
      cmdAllow ctx false [] (bytes "888") =
        ([Int64.ofInt 888], [ctx.reply (bytes "Failed to add user (whitelist full?).")]) ∧
      whitelistContains [Int64.ofInt 888] (Int64.ofInt 888) = true ∧
      whitelistRemove [Int64.ofInt 888] (Int64.ofInt 888) false = (-1, []) ∧
      cmdRevoke ctx false [Int64.ofInt 888] (bytes "888") =
        ([], [ctx.reply (bytes "Failed to remove user.")]) := by
  decide

end Tgbot
