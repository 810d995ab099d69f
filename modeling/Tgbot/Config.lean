import Tgbot.Bot.Commands

/-!
# The configuration

`config_load` (`cfg.c`) fills a `Config` in layers: the defaults of `config.h`, then the
`name = value` lines of the INI file, which `ini_parse` hands to `ini_handler_cb` one at a
time, then the token and the webhook secret from the environment. It requires a token, and
clamps four counts at the end.

`ini_parse` is inih's. The file is given here as what it hands the handler: a
`(section, name, value)` for each line it reads as a pair, and an error for each line it
cannot read, in file order. Its return value is only tested for sign. `ini_handler_cb`
recognises a key by its section and name (`cfgKeyOf`, the `MATCH` chain) and then runs that
key's branch (`CfgKey.set`). The three LLM strings (`llm_endpoint`, `llm_model`,
`llm_system_prompt`), which `config_set_defaults` and `ini_handler_cb` set, are left out: no
modelled function reads them. `llm_init` takes the endpoint and the model, and `llm_chat` puts
the system prompt in the request body, which `Tgbot.Llm.Chat` leaves out. Their keys are still
recognised.

## Main definitions

* `Config`, `configSetDefaults`
* `parseInt`: `parse_int`, as the value it leaves in `*out`
* `CfgKey`, `cfgKeyOf`, `CfgKey.set`, `iniHandlerCb`
* `IniLine`, `iniParse`: `ini_parse` and the handler calls it makes
* `ConfigEnv`, `configOverlayEnv`, `configLoad`

## Main results

* `config_load_in_range`: for every file and environment, the config `config_load` leaves
  has every integer key within its bounds, and the clamps at its end never change it
* `config_load_accepts`: `config_load` returns 0 exactly when every line of the file is a
  known key or no pair at all and a token is set; the token and the secret come from the
  environment first, then from the file's last line for them
-/

namespace Tgbot

/-- The fields of `Config` that `config_load` sets, but for the three LLM strings. -/
structure Config where
  token : List UInt8
  replyDelay : Int
  pollTimeout : Int
  pollLimit : Int
  whitelistPath : List UInt8
  webhookEnabled : Bool
  webhookPort : Int
  webhookSecret : List UInt8
  webhookThreads : Int
  webhookPoolSize : Int
  homeGroupId : Int64
  adminUserId : Int64
  workerCount : Int
  userRingSize : Int
  logPath : List UInt8
  logMaxSizeMb : Int
  llmMaxTokens : Int
  deriving DecidableEq

/-- `snprintf (field, 256, "%s", value)`: the C string `value`, cut to 255 bytes. -/
def strField (value : List UInt8) : List UInt8 := (cstr value).take 255

/-- **`config_set_defaults`**, with the `CFG_DEFAULT_*` and `LOG_DEFAULT_*` values of
`config.h`. -/
def configSetDefaults : Config where
  token := []
  replyDelay := 3
  pollTimeout := 30
  pollLimit := 100
  whitelistPath := bytes "whitelist.txt"
  webhookEnabled := false
  webhookPort := 8443
  webhookSecret := []
  webhookThreads := 4
  webhookPoolSize := 8
  homeGroupId := 0
  adminUserId := 0
  workerCount := 1
  userRingSize := 30
  logPath := bytes "/var/log/tgbot/tgbot.log"
  logMaxSizeMb := 10
  llmMaxTokens := 512

/-- The clamp of `parse_int` and of the end of `config_load`: up to `lo`, then down to `hi`. -/
def clampInt (lo hi v : Int) : Int :=
  let v := if v < lo then lo else v
  if v > hi then hi else v

/-- **`parse_int (value, lo, hi, &out)`**, as the value it leaves in `out`. `long` is 64 bits,
so `strtol` is `strtoll`, with the checks the admin commands make (`strtollArg`): a value it
accepts is clamped to `[lo, hi]`, and on an error `out` keeps `old`. No caller reads its
return value. -/
def parseInt (value : List UInt8) (lo hi old : Int) : Int :=
  match strtollArg value with
  | some v => clampInt lo hi v.val
  | none => old

/-- `strtoll (value, NULL, 10)`: the numeral `sscanf` reads, saturated, and 0 when there is
none. -/
def strtoll (value : List UInt8) : Int64 := (sscanfInt64 value).getD 0

/-! ## `ini_handler_cb` -/

/-- The keys `ini_handler_cb` knows, in the order of its `MATCH` chain. -/
inductive CfgKey
  | token | replyDelay | pollTimeout | pollLimit | whitelistPath
  | webhookEnabled | webhookPort | webhookSecret | webhookThreads | webhookPoolSize
  | homeGroupId | adminUserId | workerCount | userRingSize | logPath | logMaxSizeMb
  | llmEndpoint | llmModel | llmMaxTokens | llmSystemPrompt
  deriving DecidableEq, Repr

/-- The section and the name `MATCH` compares a key's line with. -/
def CfgKey.ini : CfgKey → String × String
  | .token => ("bot", "token")
  | .replyDelay => ("bot", "reply_delay")
  | .pollTimeout => ("bot", "poll_timeout")
  | .pollLimit => ("bot", "poll_limit")
  | .whitelistPath => ("bot", "whitelist_path")
  | .webhookEnabled => ("webhook", "enabled")
  | .webhookPort => ("webhook", "port")
  | .webhookSecret => ("webhook", "secret")
  | .webhookThreads => ("webhook", "threads")
  | .webhookPoolSize => ("webhook", "pool_size")
  | .homeGroupId => ("group", "home_group_id")
  | .adminUserId => ("admin", "admin_user_id")
  | .workerCount => ("workers", "count")
  | .userRingSize => ("workers", "ring_size")
  | .logPath => ("log", "path")
  | .logMaxSizeMb => ("log", "max_size_mb")
  | .llmEndpoint => ("llm", "endpoint")
  | .llmModel => ("llm", "model")
  | .llmMaxTokens => ("llm", "max_tokens")
  | .llmSystemPrompt => ("llm", "system_prompt")

/-- The keys in the order of the `MATCH` chain. -/
def cfgKeys : List CfgKey :=
  [.token, .replyDelay, .pollTimeout, .pollLimit, .whitelistPath, .webhookEnabled, .webhookPort,
    .webhookSecret, .webhookThreads, .webhookPoolSize, .homeGroupId, .adminUserId, .workerCount,
    .userRingSize, .logPath, .logMaxSizeMb, .llmEndpoint, .llmModel, .llmMaxTokens,
    .llmSystemPrompt]

/-- The `MATCH` chain: the first key whose section and name `strcmp` finds equal to the
line's. -/
def cfgKeyOf (sec name : List UInt8) : Option CfgKey :=
  cfgKeys.find? fun k => cstr sec == bytes k.ini.1 && cstr name == bytes k.ini.2

/-- **The branch of `ini_handler_cb` for a key**: strings are copied with `snprintf`, counts
go through `parse_int` with the key's bounds, the two ids through `strtoll`. The LLM strings
go to fields not modelled. -/
def CfgKey.set : CfgKey → List UInt8 → Config → Config
  | .token, v, cfg => { cfg with token := strField v }
  | .replyDelay, v, cfg => { cfg with replyDelay := parseInt v 0 300 cfg.replyDelay }
  | .pollTimeout, v, cfg => { cfg with pollTimeout := parseInt v 1 120 cfg.pollTimeout }
  | .pollLimit, v, cfg => { cfg with pollLimit := parseInt v 1 100 cfg.pollLimit }
  | .whitelistPath, v, cfg => { cfg with whitelistPath := strField v }
  | .webhookEnabled, v, cfg =>
    { cfg with webhookEnabled := (cstr v == bytes "true" || cstr v == bytes "1" || cstr v == bytes "yes") }
  | .webhookPort, v, cfg => { cfg with webhookPort := parseInt v 1 65535 cfg.webhookPort }
  | .webhookSecret, v, cfg => { cfg with webhookSecret := strField v }
  | .webhookThreads, v, cfg => { cfg with webhookThreads := parseInt v 1 32 cfg.webhookThreads }
  | .webhookPoolSize, v, cfg =>
    { cfg with webhookPoolSize := parseInt v 1 64 cfg.webhookPoolSize }
  | .homeGroupId, v, cfg => { cfg with homeGroupId := strtoll v }
  | .adminUserId, v, cfg => { cfg with adminUserId := strtoll v }
  | .workerCount, v, cfg => { cfg with workerCount := parseInt v 1 16 cfg.workerCount }
  | .userRingSize, v, cfg => { cfg with userRingSize := parseInt v 4 256 cfg.userRingSize }
  | .logPath, v, cfg => { cfg with logPath := strField v }
  | .logMaxSizeMb, v, cfg => { cfg with logMaxSizeMb := parseInt v 1 1024 cfg.logMaxSizeMb }
  | .llmEndpoint, _, cfg => cfg
  | .llmModel, _, cfg => cfg
  | .llmMaxTokens, v, cfg => { cfg with llmMaxTokens := parseInt v 32 4096 cfg.llmMaxTokens }
  | .llmSystemPrompt, _, cfg => cfg

/-- **`ini_handler_cb`**: the config after a line, or `none` for an unknown key, where it
returns 0 and leaves the config as it was. -/
def iniHandlerCb (cfg : Config) (sec name value : List UInt8) : Option Config :=
  (cfgKeyOf sec name).map fun k => k.set value cfg

/-! ## `ini_parse` -/

/-- A line of the INI file as `ini_parse` reads it: a `name = value` pair in a section, which
it hands the handler; a line it cannot read, an error it reports without a call; or a line
that makes no call, blank, a comment or a section header. -/
inductive IniLine
  | pair (sec name value : List UInt8)
  | bad
  | other

/-- One line of `ini_parse`: whether it went without error, and the config after it. -/
def iniLine (cfg : Config) : IniLine → Bool × Config
  | .pair s n v =>
    match iniHandlerCb cfg s n v with
    | some cfg' => (true, cfg')
    | none => (false, cfg)
  | .bad => (false, cfg)
  | .other => (true, cfg)

/-- `ini_parse` over the lines from number `lineno` on: 0, or the number of the first line
in error, and the config the calls leave. As inih does by default, it goes on after an
error. -/
def iniParseLines (cfg : Config) : List IniLine → Nat → Nat × Config
  | [], _ => (0, cfg)
  | line :: lines, lineno =>
    let r := iniParseLines (iniLine cfg line).2 lines (lineno + 1)
    (if (iniLine cfg line).1 then r.1 else lineno, r.2)

/-- **`ini_parse (path, ini_handler_cb, cfg)`**: -1 when the file cannot be opened (`ini`
is `none`), else the lines from number 1. -/
def iniParse (cfg : Config) : Option (List IniLine) → Int × Config
  | none => (-1, cfg)
  | some lines => ((iniParseLines cfg lines 1).1, (iniParseLines cfg lines 1).2)

/-! ## `config_load` -/

/-- What `getenv` returns for the variables `config_overlay_env` reads, `none` when unset. -/
structure ConfigEnv where
  telegramBotToken : Option (List UInt8)
  tToken : Option (List UInt8)
  webhookSecret : Option (List UInt8)
  tSecret : Option (List UInt8)

/-- One override of `config_overlay_env`: a variable that is set and not empty replaces the
field. -/
def overlayVar (var : Option (List UInt8)) (field : List UInt8) : List UInt8 :=
  match var with
  | some v => if cstr v ≠ [] then strField v else field
  | none => field

/-- **`config_overlay_env`**: `TELEGRAM_BOT_TOKEN` and then `T_TOKEN` over the token,
`WEBHOOK_SECRET` and then `T_SECRET` over the secret. -/
def configOverlayEnv (env : ConfigEnv) (cfg : Config) : Config :=
  { cfg with
    token := overlayVar env.tToken (overlayVar env.telegramBotToken cfg.token)
    webhookSecret := overlayVar env.tSecret (overlayVar env.webhookSecret cfg.webhookSecret) }

/-- **`config_load (cfg, ini_path)`**, for a path that is not `NULL`: its return code and the
config it leaves. A file that cannot be opened leaves the defaults; a line in error fails the
load; so does a missing token. The counts are clamped last. -/
def configLoad (ini : Option (List IniLine)) (env : ConfigEnv) : Int × Config :=
  let r := iniParse configSetDefaults ini
  if r.1 > 0 then (-1, r.2)
  else
    let cfg := configOverlayEnv env r.2
    if cfg.token = [] then (-1, cfg)
    else (0, { cfg with
      workerCount := clampInt 1 16 cfg.workerCount
      userRingSize := clampInt 4 256 cfg.userRingSize
      webhookThreads := clampInt 1 32 cfg.webhookThreads
      webhookPoolSize := clampInt 1 64 cfg.webhookPoolSize })

/-! ## The bounds of the counts -/

/-- **The bounds of the integer keys**: each field lies within those `parse_int` clamps its
key's value to. -/
structure Config.InRange (cfg : Config) : Prop where
  replyDelay : 0 ≤ cfg.replyDelay ∧ cfg.replyDelay ≤ 300
  pollTimeout : 1 ≤ cfg.pollTimeout ∧ cfg.pollTimeout ≤ 120
  pollLimit : 1 ≤ cfg.pollLimit ∧ cfg.pollLimit ≤ 100
  webhookPort : 1 ≤ cfg.webhookPort ∧ cfg.webhookPort ≤ 65535
  webhookThreads : 1 ≤ cfg.webhookThreads ∧ cfg.webhookThreads ≤ 32
  webhookPoolSize : 1 ≤ cfg.webhookPoolSize ∧ cfg.webhookPoolSize ≤ 64
  workerCount : 1 ≤ cfg.workerCount ∧ cfg.workerCount ≤ 16
  userRingSize : 4 ≤ cfg.userRingSize ∧ cfg.userRingSize ≤ 256
  logMaxSizeMb : 1 ≤ cfg.logMaxSizeMb ∧ cfg.logMaxSizeMb ≤ 1024
  llmMaxTokens : 32 ≤ cfg.llmMaxTokens ∧ cfg.llmMaxTokens ≤ 4096

theorem clampInt_mem {lo hi : Int} (h : lo ≤ hi) (v : Int) :
    lo ≤ clampInt lo hi v ∧ clampInt lo hi v ≤ hi := by
  simp only [clampInt]
  split_ifs <;> omega

theorem clampInt_of_mem {lo hi v : Int} (h : lo ≤ v ∧ v ≤ hi) : clampInt lo hi v = v := by
  simp only [clampInt]
  split_ifs <;> omega

/-- `parse_int` keeps a field within its bounds, whatever the value it reads. -/
theorem parseInt_mem {lo hi old : Int} (hlh : lo ≤ hi) (h : lo ≤ old ∧ old ≤ hi)
    (value : List UInt8) : lo ≤ parseInt value lo hi old ∧ parseInt value lo hi old ≤ hi := by
  unfold parseInt
  split
  · exact clampInt_mem hlh _
  · exact h

/-- Every default passes its own key's check. -/
theorem configSetDefaults_inRange : configSetDefaults.InRange := by
  constructor <;> decide

/-- Every branch of `ini_handler_cb` keeps the bounds. -/
theorem Config.InRange.set {cfg : Config} (h : cfg.InRange) (v : List UInt8) (k : CfgKey) :
    (k.set v cfg).InRange := by
  cases k <;> dsimp only [CfgKey.set]
  case replyDelay => exact { h with replyDelay := parseInt_mem (by decide) h.replyDelay v }
  case pollTimeout => exact { h with pollTimeout := parseInt_mem (by decide) h.pollTimeout v }
  case pollLimit => exact { h with pollLimit := parseInt_mem (by decide) h.pollLimit v }
  case webhookPort => exact { h with webhookPort := parseInt_mem (by decide) h.webhookPort v }
  case webhookThreads =>
    exact { h with webhookThreads := parseInt_mem (by decide) h.webhookThreads v }
  case webhookPoolSize =>
    exact { h with webhookPoolSize := parseInt_mem (by decide) h.webhookPoolSize v }
  case workerCount => exact { h with workerCount := parseInt_mem (by decide) h.workerCount v }
  case userRingSize => exact { h with userRingSize := parseInt_mem (by decide) h.userRingSize v }
  case logMaxSizeMb => exact { h with logMaxSizeMb := parseInt_mem (by decide) h.logMaxSizeMb v }
  case llmMaxTokens => exact { h with llmMaxTokens := parseInt_mem (by decide) h.llmMaxTokens v }
  -- the other keys set no count
  all_goals exact { h with }

theorem Config.InRange.iniLine {cfg : Config} (h : cfg.InRange) :
    ∀ line : IniLine, (iniLine cfg line).2.InRange
  | .pair s n v => by
    simp only [Tgbot.iniLine, iniHandlerCb]
    cases cfgKeyOf s n with
    | none => exact h
    | some k => exact h.set v k
  | .bad => h
  | .other => h

/-- Along the lines of a file, the handler keeps the bounds. -/
theorem Config.InRange.iniParseLines {cfg : Config} (h : cfg.InRange) :
    ∀ (lines : List IniLine) (lineno : Nat), (Tgbot.iniParseLines cfg lines lineno).2.InRange
  | [], _ => h
  | line :: lines, lineno => (h.iniLine line).iniParseLines lines (lineno + 1)

theorem Config.InRange.configOverlayEnv {cfg : Config} (h : cfg.InRange) (env : ConfigEnv) :
    (Tgbot.configOverlayEnv env cfg).InRange :=
  { h with }

theorem inRange_iniParse (ini : Option (List IniLine)) :
    (iniParse configSetDefaults ini).2.InRange := by
  cases ini with
  | none => exact configSetDefaults_inRange
  | some lines => exact configSetDefaults_inRange.iniParseLines lines 1

/-- **`config_load` without its clamps**: what it returns is the file's values over the
defaults, with the environment's token and secret, the clamps at its end changing nothing. -/
theorem configLoad_eq (ini : Option (List IniLine)) (env : ConfigEnv) :
    configLoad ini env =
      if (iniParse configSetDefaults ini).1 > 0 then (-1, (iniParse configSetDefaults ini).2)
      else if (configOverlayEnv env (iniParse configSetDefaults ini).2).token = [] then
        (-1, configOverlayEnv env (iniParse configSetDefaults ini).2)
      else (0, configOverlayEnv env (iniParse configSetDefaults ini).2) := by
  have h := (inRange_iniParse ini).configOverlayEnv env
  simp only [configLoad, clampInt_of_mem h.workerCount, clampInt_of_mem h.userRingSize,
    clampInt_of_mem h.webhookThreads, clampInt_of_mem h.webhookPoolSize]

/-! ## What the file and the environment decide -/

/-- Whether `ini_parse` reports no error for a line: a pair with a known key, or a line that
makes no call. A pair whose value `parse_int` rejects is not an error. -/
def IniLine.accepted : IniLine → Bool
  | .pair s n _ => (cfgKeyOf s n).isSome
  | .bad => false
  | .other => true

/-- The value of the file's last pair line for key `k`. -/
def lastValue (k : CfgKey) : List IniLine → Option (List UInt8)
  | [] => none
  | .pair s n v :: lines => (lastValue k lines).or (if cfgKeyOf s n = some k then some v else none)
  | _ :: lines => lastValue k lines

theorem iniLine_fst (cfg : Config) : ∀ line : IniLine, (iniLine cfg line).1 = line.accepted
  | .pair s n v => by
    simp only [iniLine, iniHandlerCb, IniLine.accepted]
    cases cfgKeyOf s n <;> rfl
  | .bad => rfl
  | .other => rfl

/-- `ini_parse` returns 0 exactly when every line is accepted. -/
theorem iniParseLines_fst_eq_zero :
    ∀ (cfg : Config) (lines : List IniLine) {lineno : Nat}, 0 < lineno →
      ((iniParseLines cfg lines lineno).1 = 0 ↔ ∀ l ∈ lines, l.accepted = true)
  | _, [], _, _ => by simp [iniParseLines]
  | cfg, line :: lines, lineno, h => by
    rw [iniParseLines, iniLine_fst, List.forall_mem_cons,
      ← iniParseLines_fst_eq_zero (iniLine cfg line).2 lines (Nat.succ_pos lineno)]
    cases line.accepted <;> simp [Nat.pos_iff_ne_zero.1 h]

section StringKey

variable (field : Config → List UInt8) (k : CfgKey)
  (hset : ∀ (k' : CfgKey) v cfg, field (k'.set v cfg) = if k' = k then strField v else field cfg)
include hset

/-- A string key ends with the value of the file's last line for it, cut by `snprintf`. -/
theorem field_iniParseLines :
    ∀ (cfg : Config) (lines : List IniLine) (lineno : Nat),
      field (iniParseLines cfg lines lineno).2 = ((lastValue k lines).map strField).getD (field cfg)
  | _, [], _ => rfl
  | cfg, line :: lines, lineno => by
    rw [iniParseLines, field_iniParseLines _ lines]
    cases line with
    | pair s n v =>
      simp only [iniLine, iniHandlerCb, lastValue]
      cases lastValue k lines with
      | some w => rfl
      | none =>
        cases hk : cfgKeyOf s n with
        | none => rfl
        | some k' => by_cases hkk : k' = k <;> simp [hset, hkk]
    | bad => rfl
    | other => rfl

end StringKey

theorem token_set : ∀ (k : CfgKey) (v : List UInt8) (cfg : Config),
    (k.set v cfg).token = if k = .token then strField v else cfg.token := by
  intro k; cases k <;> intros <;> rfl

theorem webhookSecret_set : ∀ (k : CfgKey) (v : List UInt8) (cfg : Config),
    (k.set v cfg).webhookSecret = if k = .webhookSecret then strField v else cfg.webhookSecret := by
  intro k; cases k <;> intros <;> rfl

/-- The token `ini_parse` leaves: the value of the file's last `[bot] token` line, cut to 255
bytes, or the default, empty. -/
theorem iniParse_token (ini : Option (List IniLine)) :
    (iniParse configSetDefaults ini).2.token = ((ini.bind (lastValue .token)).map strField).getD [] := by
  cases ini with
  | none => rfl
  | some lines => exact field_iniParseLines _ _ token_set _ _ _

/-- The secret `ini_parse` leaves: the value of the file's last `[webhook] secret` line, cut to
255 bytes, or the default, empty. -/
theorem iniParse_webhookSecret (ini : Option (List IniLine)) :
    (iniParse configSetDefaults ini).2.webhookSecret =
      ((ini.bind (lastValue .webhookSecret)).map strField).getD [] := by
  cases ini with
  | none => rfl
  | some lines => exact field_iniParseLines _ _ webhookSecret_set _ _ _

/-! ## What `config_load` returns -/

theorem inRange_configLoad (ini : Option (List IniLine)) (env : ConfigEnv) :
    (configLoad ini env).2.InRange := by
  have h := inRange_iniParse ini
  rw [configLoad_eq]
  split_ifs
  · exact h
  · exact h.configOverlayEnv env
  · exact h.configOverlayEnv env

/-- **The counts `config_load` leaves are within their bounds, and its clamps change
nothing**: for every INI file and environment, each integer key of the config lies within
the bounds `parse_int` clamps its values to (the defaults included), and the config is the
file's values over the defaults, with the environment's token and secret when the file has
no line in error: the four clamps at the end of `config_load` never change a field. -/
theorem config_load_in_range (ini : Option (List IniLine)) (env : ConfigEnv) :
    (configLoad ini env).2.InRange ∧
      (configLoad ini env).2 = if (iniParse configSetDefaults ini).1 > 0 then
        (iniParse configSetDefaults ini).2
      else configOverlayEnv env (iniParse configSetDefaults ini).2 := by
  refine ⟨inRange_configLoad ini env, ?_⟩
  rw [configLoad_eq]
  split_ifs <;> rfl

/-- **When `config_load` succeeds, and where its token and secret come from**: for every INI
file and environment, it returns 0 exactly when the file cannot be opened or each of its lines
is a pair with a known key or makes no call, and a token is set. The token is then `T_TOKEN`
when set and not empty, else `TELEGRAM_BOT_TOKEN` likewise, else the value of the file's last
`[bot] token` line; the secret is `T_SECRET`, else `WEBHOOK_SECRET`, else the file's last
`[webhook] secret`; each cut to 255 bytes. -/
theorem config_load_accepts (ini : Option (List IniLine)) (env : ConfigEnv) :
    let iniToken := ((ini.bind (lastValue .token)).map strField).getD []
    let iniSecret := ((ini.bind (lastValue .webhookSecret)).map strField).getD []
    let token := overlayVar env.tToken (overlayVar env.telegramBotToken iniToken)
    ((configLoad ini env).1 = 0 ↔
        (∀ lines, ini = some lines → ∀ l ∈ lines, l.accepted = true) ∧ token ≠ []) ∧
      ((configLoad ini env).1 = 0 → (configLoad ini env).2.token = token ∧
        (configLoad ini env).2.webhookSecret =
          overlayVar env.tSecret (overlayVar env.webhookSecret iniSecret)) := by
  intro iniToken iniSecret token
  have herr : (iniParse configSetDefaults ini).1 > 0 ↔
      ¬ ∀ lines, ini = some lines → ∀ l ∈ lines, l.accepted = true := by
    cases ini with
    | none => simp [iniParse]
    | some lines =>
      simp only [iniParse, Option.some.injEq, forall_eq', ← iniParseLines_fst_eq_zero
        configSetDefaults lines Nat.one_pos]
      omega
  rw [configLoad_eq]
  have htok : (configOverlayEnv env (iniParse configSetDefaults ini).2).token = token := by
    simp only [configOverlayEnv, iniParse_token, token, iniToken]
  split_ifs with h1 h2
  · exact ⟨iff_of_false (by simp) fun h => herr.1 h1 h.1, fun h => absurd h (by simp)⟩
  · exact ⟨iff_of_false (by simp) fun h => h.2 (htok ▸ h2), fun h => absurd h (by simp)⟩
  · refine ⟨iff_of_true rfl ⟨not_not.1 (mt herr.2 h1), htok ▸ h2⟩, fun _ => ⟨htok, ?_⟩⟩
    simp only [configOverlayEnv, iniParse_webhookSecret, iniSecret]

/-- `config_load` fails when no token is set, neither in the environment nor by the file. -/
theorem configLoad_of_token_eq_nil {ini : Option (List IniLine)} {env : ConfigEnv}
    (h : overlayVar env.tToken (overlayVar env.telegramBotToken
      (((ini.bind (lastValue .token)).map strField).getD [])) = []) :
    (configLoad ini env).1 = -1 := by
  have htok : (configOverlayEnv env (iniParse configSetDefaults ini).2).token = [] := by
    simp only [configOverlayEnv, iniParse_token, h]
  rw [configLoad_eq]
  simp only [htok, if_true]
  split_ifs <;> rfl

end Tgbot
