import Tgbot.Config
import Tgbot.Log.Reader
import Tgbot.Queue.Ring

/-!
# The command line

`main` first hands its arguments to `cli_dispatch`. With no subcommand, or with `run`, it
returns 1 and `main` goes on to start the daemon. `start`, `stop`, `restart` and `status` run
`systemctl` on the service and exit with its code, `help` prints the usage, and `logs` reads
the log. An unknown subcommand prints the usage and exits with 1.

`tgbot logs` reads `-n N` and `-f`, loads the configuration from `tgbot.ini`, or from
`/etc/tgbot/tgbot.ini` when that fails, to find the log's path, prints the last `N` lines of
the log, and with `-f` then follows it.

What `fork`, `execvp` and `waitpid` do is the exit code `run_cmd` returns, a parameter, as is
what `log_follow` returns and prints while it runs (`Tgbot.Log.Follow` models it against the
writer). The messages to `stderr` and what the child processes print are left out.

## Main definitions

* `atoi`, `cmdLogsArgs`, `cmdLogs`: `tgbot logs`
* `CliSystem`: what the command line reads from the system
* `cliDispatch`: `cli_dispatch`

## Main results

* `cmd_logs_needs_token`: `tgbot logs` asks for at least one line, and fails without reading
  the log whenever no bot token is set, whatever the files give as the log's path
-/

namespace Tgbot

/-- `SERVICE_NAME`. -/
def serviceName : List UInt8 := bytes "tgbot-service.service"

/-- What `print_usage` prints. -/
def usageText : List UInt8 :=
  bytes "Usage: tgbot [command] [options]\n\nCommands:\n" ++
  bytes "  run              Run the bot daemon (default if no command given)\n" ++
  bytes "  start            Start the systemd service\n" ++
  bytes "  stop             Stop the systemd service\n" ++
  bytes "  stop -f          Force-stop the service (SIGKILL)\n" ++
  bytes "  restart          Restart the systemd service\n" ++
  bytes "  status           Show service status\n" ++
  bytes "  logs [-n N] [-f] Show log output (last N lines, or follow)\n" ++
  bytes "  help, --help     Show this help message\n"

/-- `atoi`, as glibc computes it: `(int) strtol (s, NULL, 10)`, the `long` cut to an `int`. -/
def atoi (s : List UInt8) : Int := toInt32 ((strtoll s).val % 2 ^ 32).toNat

/-- The option loop of `cmd_logs`, from the count `n` and `follow`: a `-n` with an argument
after it takes that argument as the count, 20 when it is not positive, and `-f` sets
`follow`; anything else is skipped. -/
def cmdLogsArgs : Int → Bool → List (List UInt8) → Int × Bool
  | n, follow, [] => (n, follow)
  | n, follow, [a] => (n, follow || cstr a == bytes "-f")
  | n, follow, a :: b :: rest =>
    if cstr a = bytes "-n" then
      let v := atoi b
      cmdLogsArgs (if v ≤ 0 then 20 else v) follow rest
    else cmdLogsArgs n (follow || cstr a == bytes "-f") (b :: rest)

/-- What the command line reads from the system: the exit code `run_cmd` returns for an
argument vector, the lines of the INI file at a path (`none` when it cannot be opened), the
environment, the bytes of the file at a path (`none` when it cannot be opened), and what
`log_follow` returns and prints for a path. -/
structure CliSystem where
  runCmd : List (List UInt8) → Int
  ini : List UInt8 → Option (List IniLine)
  env : ConfigEnv
  files : List UInt8 → Option (List UInt8)
  follow : List UInt8 → Int × List UInt8

/-- **`cmd_logs`** with the arguments after `logs`: its return value and what it prints to
`stdout`. -/
def cmdLogs (sys : CliSystem) (args : List (List UInt8)) : Int × List UInt8 :=
  let opts := cmdLogsArgs 20 false args
  let cfg := configLoad (sys.ini (bytes "tgbot.ini")) sys.env
  let cfg := if cfg.1 ≠ 0 then configLoad (sys.ini (bytes "/etc/tgbot/tgbot.ini")) sys.env else cfg
  if cfg.1 ≠ 0 then (1, [])
  else if opts.2 then
    let shown := logReadLastNAt sys.files cfg.2.logPath opts.1
    let followed := sys.follow cfg.2.logPath
    (followed.1, shown.2 ++ followed.2)
  else logReadLastNAt sys.files cfg.2.logPath opts.1

/-- The `systemctl` command of a subcommand. -/
def systemctl (action : List (List UInt8)) : List (List UInt8) :=
  bytes "systemctl" :: action ++ [serviceName]

/-- **`cli_dispatch`** on `argv`: `none` when it returns 1 and `main` starts the daemon, else
the exit code it leaves and what it prints to `stdout`. -/
def cliDispatch (sys : CliSystem) : List (List UInt8) → Option (Int × List UInt8)
  | _ :: cmd :: rest =>
    let cmd := cstr cmd
    if cmd = bytes "run" then none
    else if cmd = bytes "help" ∨ cmd = bytes "--help" ∨ cmd = bytes "-h" then some (0, usageText)
    else if cmd = bytes "start" then some (sys.runCmd (systemctl [bytes "start"]), [])
    else if cmd = bytes "stop" then
      some (sys.runCmd (if rest.head?.map cstr = some (bytes "-f") then
          systemctl [bytes "kill", bytes "--signal=SIGKILL"]
        else systemctl [bytes "stop"]), [])
    else if cmd = bytes "restart" then some (sys.runCmd (systemctl [bytes "restart"]), [])
    else if cmd = bytes "status" then some (sys.runCmd (systemctl [bytes "status"]), [])
    else if cmd = bytes "logs" then some (cmdLogs sys rest)
    else some (1, usageText)
  | _ => none

/-! ## `tgbot logs` -/

/-- The option loop keeps a positive count positive: each `-n` sets a positive value or 20. -/
theorem cmdLogsArgs_pos : ∀ (n : Int) (follow : Bool) (args : List (List UInt8)), 1 ≤ n →
    1 ≤ (cmdLogsArgs n follow args).1
  | _, _, [], h => h
  | _, _, [_], h => h
  | n, follow, a :: b :: rest, h => by
    rw [cmdLogsArgs]
    split_ifs with hn
    · exact cmdLogsArgs_pos _ _ rest (by split_ifs <;> omega)
    · exact cmdLogsArgs_pos n _ (b :: rest) h

/-- **`tgbot logs` asks for at least one line, and needs a bot token**: for every argument
list, the count `cmd_logs` hands to `log_read_last_n` is at least 1. For every system in
which no token is set, neither by `T_TOKEN` or `TELEGRAM_BOT_TOKEN` nor by a `[bot] token` line
of either INI file, it returns 1 and prints nothing, whatever the files give as the log's
path: both loads of the configuration fail. -/
theorem cmd_logs_needs_token (sys : CliSystem) (args : List (List UInt8)) :
    1 ≤ (cmdLogsArgs 20 false args).1 ∧
      ((∀ path, overlayVar sys.env.tToken (overlayVar sys.env.telegramBotToken
          ((((sys.ini path).bind (lastValue .token)).map strField).getD [])) = []) →
        cmdLogs sys args = (1, [])) := by
  refine ⟨cmdLogsArgs_pos 20 false args (by decide), fun htok => ?_⟩
  have h₁ := configLoad_of_token_eq_nil (htok (bytes "tgbot.ini"))
  have h₂ := configLoad_of_token_eq_nil (htok (bytes "/etc/tgbot/tgbot.ini"))
  simp only [cmdLogs, h₁, h₂, ne_eq, show (-1 : Int) ≠ 0 by decide, not_false_eq_true, if_true]

end Tgbot
