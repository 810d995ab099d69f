import Tgbot.Bot.Commands

/-!
# Updates

`handle_update` reads one update of the Telegram API, as cJSON parsed it: it drops updates
from groups other than the configured home group, runs slash commands through `cmd_dispatch`
(answering unknown ones with a fixed notice), and queues any other text for the workers when
the sender is on the access list.

Its `log_info` and `log_warn` calls are left out; the log writer is modelled in
`Tgbot.Log.Writer`.

## Main definitions

* `Json`, `getObjectItem`: cJSON values and `cJSON_GetObjectItemCaseSensitive`
* `BotConfig`, `UpdateEnv`: what `handle_update` reads besides the update
* `handleUpdate`

## Main results

* `handleUpdate_cases`: the four things an update can do
* `handle_update_gate`: only the sender's own non-command text, from a sender on the access
  list, is queued as it is; updates from other groups queue nothing; a sender that is neither
  on the list nor the admin gets only fixed replies
* `handle_update_answers_other_bot`: a command addressed to another bot is answered with the
  notice for an unknown command
-/

namespace Tgbot

/-- A cJSON value. A number is given by the `int64_t` its `valuedouble` converts to, the only
way the bot reads numbers. -/
inductive Json
  | null
  | bool (b : Bool)
  | number (n : Int64)
  | string (s : List UInt8)
  | array (items : List Json)
  | object (fields : List (List UInt8 × Json))

/-- `cJSON_GetObjectItemCaseSensitive`: the first member of an object with the key, and `NULL`
for anything but an object, `NULL` included. -/
def getObjectItem : Option Json → List UInt8 → Option Json
  | some (.object fields), key => (fields.find? (·.1 = key)).map (·.2)
  | _, _ => none

/-- `cJSON_IsNumber (item)`, and then `(int64_t) item->valuedouble`. -/
def jsonInt64 : Option Json → Option Int64
  | some (.number n) => some n
  | _ => none

/-- `cJSON_IsString (item)`, and then `item->valuestring` as a C string. -/
def jsonString : Option Json → Option (List UInt8)
  | some (.string s) => some (cstr s)
  | _ => none

/-- The fields of `g_cfg` that `handle_update` reads. -/
structure BotConfig where
  /-- `home_group_id`, 0 when unset. -/
  homeGroupId : Int64
  /-- `admin_user_id`, 0 for no admin. -/
  adminUserId : Int64
  workerCount : Int

/-- What the rest of the process gives `handle_update`: `g_bot_username`, and the uptime and
queue depth a `/status` reads. -/
structure UpdateEnv where
  botUsername : List UInt8
  uptime : Nat
  queueDepth : Nat

/-! ## The fields `handle_update` reads -/

/-- A member of the update's `message`. -/
def messageItem (update : Json) (key : List UInt8) : Option Json :=
  getObjectItem (getObjectItem (some update) (bytes "message")) key

/-- `message.chat.id`. -/
def updateChatId (update : Json) : Option Int64 :=
  jsonInt64 (getObjectItem (messageItem update (bytes "chat")) (bytes "id"))

/-- `message.chat.type`, `"private"` when it is not a string. -/
def updateChatType (update : Json) : List UInt8 :=
  (jsonString (getObjectItem (messageItem update (bytes "chat")) (bytes "type"))).getD
    (bytes "private")

/-- `message.from.id`. -/
def updateFromId (update : Json) : Option Int64 :=
  jsonInt64 (getObjectItem (messageItem update (bytes "from")) (bytes "id"))

/-- `message.text`, `""` when it is not a string. -/
def updateText (update : Json) : List UInt8 :=
  (jsonString (messageItem update (bytes "text"))).getD []

/-- The chat types the home-group gate drops: those starting with `g` or `s`. -/
def isGroupType (type : List UInt8) : Bool := type.head? = some 103 || type.head? = some 115

/-- The group gate: a configured home group, a group chat, and another chat than it. -/
def BotConfig.dropsChat (cfg : BotConfig) (type : List UInt8) (chatId : Int64) : Prop :=
  cfg.homeGroupId.val ≠ 0 ∧ isGroupType type = true ∧ chatId ≠ cfg.homeGroupId

instance (cfg : BotConfig) (type : List UInt8) (chatId : Int64) :
    Decidable (cfg.dropsChat type chatId) :=
  inferInstanceAs (Decidable (_ ∧ _ ∧ _))

/-- The context `handle_update` gives `cmd_dispatch`. -/
def BotConfig.cmdCtx (cfg : BotConfig) (env : UpdateEnv) (fromId chatId : Int64) : CmdCtx :=
  ⟨cfg.adminUserId, fromId, chatId, some env.botUsername, env.uptime, cfg.workerCount,
    env.queueDepth⟩

/-- The notice for a slash command `cmd_dispatch` does not handle. -/
def unknownText : List UInt8 := bytes "Unknown command. Try /help"

/-- What `handle_update` returns and leaves: its return value, the access list, and the
`queue_push` calls it made, in order. -/
structure UpdateResult where
  ret : Int
  wl : List Int64
  pushes : List Push

/-- **`handle_update`**; `saved` is whether a `whitelist_save` a command makes succeeds. Its
early returns on a missing `message` or `chat` are those of the reads that follow them, which
find nothing either. -/
def handleUpdate (cfg : BotConfig) (env : UpdateEnv) (saved : Bool) (wl : List Int64)
    (update : Json) : UpdateResult :=
  match jsonInt64 (getObjectItem (some update) (bytes "update_id")) with
  | none => ⟨-1, wl, []⟩
  | some updateId =>
    match updateChatId update with
    | none => ⟨updateId.val, wl, []⟩
    | some chatId =>
      if cfg.dropsChat (updateChatType update) chatId then ⟨updateId.val, wl, []⟩
      else
        match updateFromId update with
        | none => ⟨updateId.val, wl, []⟩
        | some fromId =>
          let text := updateText update
          if text.head? = some 47 then
            match cmdDispatch (cfg.cmdCtx env fromId chatId) saved wl text with
            | some (wl', pushes) => ⟨updateId.val, wl', pushes⟩
            | none => ⟨updateId.val, wl, [⟨fromId, chatId, unknownText⟩]⟩
          else if whitelistContains wl fromId then ⟨updateId.val, wl, [⟨fromId, chatId, text⟩]⟩
          else ⟨updateId.val, wl, []⟩

/-! ## What an update can do -/

section Cases

variable (cfg : BotConfig) (env : UpdateEnv) (saved : Bool) (wl : List Int64) (update : Json)

/-- **The four things an update can do**: nothing; a command, with what `cmd_dispatch` does;
the notice for an unknown command; or its text queued for a sender on the access list. The
last three need a chat and a sender the group gate lets through. -/
theorem handleUpdate_cases :
    let r := handleUpdate cfg env saved wl update
    (r.pushes = [] ∧ r.wl = wl) ∨
      ∃ chatId fromId, updateChatId update = some chatId ∧ updateFromId update = some fromId ∧
        ¬ cfg.dropsChat (updateChatType update) chatId ∧
        (((updateText update).head? = some 47 ∧
          (cmdDispatch (cfg.cmdCtx env fromId chatId) saved wl (updateText update) =
              some (r.wl, r.pushes) ∨
            cmdDispatch (cfg.cmdCtx env fromId chatId) saved wl (updateText update) = none ∧
              r.pushes = [⟨fromId, chatId, unknownText⟩] ∧ r.wl = wl)) ∨
        ((updateText update).head? ≠ some 47 ∧ whitelistContains wl fromId = true ∧
          r.pushes = [⟨fromId, chatId, updateText update⟩] ∧ r.wl = wl)) := by
  unfold handleUpdate
  split
  · exact .inl ⟨rfl, rfl⟩
  split
  · exact .inl ⟨rfl, rfl⟩
  next chatId hc =>
  split_ifs with hg
  · exact .inl ⟨rfl, rfl⟩
  split
  · exact .inl ⟨rfl, rfl⟩
  next fromId hf =>
  dsimp only
  split_ifs with ht hw
  · split
    · next wl' ps hd => exact .inr ⟨chatId, fromId, hc, hf, hg, .inl ⟨ht, .inl hd⟩⟩
    · next hd => exact .inr ⟨chatId, fromId, hc, hf, hg, .inl ⟨ht, .inr ⟨hd, rfl, rfl⟩⟩⟩
  · exact .inr ⟨chatId, fromId, hc, hf, hg, .inr ⟨ht, hw, rfl, rfl⟩⟩
  · exact .inl ⟨rfl, rfl⟩

end Cases

/-- **The access-list gate of `handle_update`.** For every update, configuration and access
list: a queued push carries the update's text only as the call
`queue_push (from_id, chat_id, text)` for a text not starting with `/`, from a sender on the
list; an update from a group chat other than a configured home group queues nothing and leaves
the list as it is; and a sender that is neither on the list nor the admin leaves the list as it
is and is answered, under its own id, only with the greeting, the help text, the refusal or
the notice for an unknown command. -/
theorem handle_update_gate (cfg : BotConfig) (env : UpdateEnv) (saved : Bool) (wl : List Int64)
    (update : Json) :
    let r := handleUpdate cfg env saved wl update
    (∀ p ∈ r.pushes, p.text = updateText update →
      (updateText update).head? ≠ some 47 ∧ whitelistContains wl p.userId = true ∧
        updateFromId update = some p.userId ∧ updateChatId update = some p.chatId) ∧
    (∀ chatId, updateChatId update = some chatId →
      cfg.dropsChat (updateChatType update) chatId → r.pushes = [] ∧ r.wl = wl) ∧
    (∀ fromId, updateFromId update = some fromId → whitelistContains wl fromId = false →
      ¬ (cfg.adminUserId.val ≠ 0 ∧ fromId = cfg.adminUserId) →
      r.wl = wl ∧ ∀ p ∈ r.pushes, p.userId = fromId ∧ updateChatId update = some p.chatId ∧
        p.text ∈ [startText, helpText, deniedText, unknownText]) := by
  intro r
  rcases handleUpdate_cases cfg env saved wl update with
    ⟨hp, hw⟩ | ⟨chatId, fromId, hc, hf, hg, hcase⟩
  · simp [r, hp, hw]
  refine ⟨?_, fun c hc' hg' => absurd (Option.some.inj (hc.symm.trans hc') ▸ hg') hg, ?_⟩
  · -- only the forwarded text is the update's text
    intro p hp ht
    rcases hcase with ⟨h47, hd | ⟨-, hps, -⟩⟩ | ⟨h47, hw, hps, -⟩
    · exact absurd ht (cmdDispatch_text_ne hd p hp)
    · rw [hps, List.mem_singleton] at hp
      rw [hp] at ht
      rw [← ht] at h47
      exact absurd h47 (by decide : ¬ unknownText.head? = some 47)
    · rw [hps, List.mem_singleton] at hp
      subst hp
      exact ⟨h47, hw, hf, hc⟩
  · -- a sender neither on the list nor the admin
    intro f hf' hw hadmin
    obtain rfl := Option.some.inj (hf.symm.trans hf')
    have hnot : (cfg.cmdCtx env fromId chatId).isAdmin = false := by
      simpa [CmdCtx.isAdmin, BotConfig.cmdCtx] using hadmin
    rcases hcase with ⟨-, hd | ⟨-, hps, hwl⟩⟩ | ⟨-, hw', -⟩
    · obtain ⟨hwl, hps⟩ := cmdDispatch_of_not_admin hnot hd
      refine ⟨hwl, fun p hp => ?_⟩
      rcases hps p hp with rfl | rfl | rfl <;> exact ⟨rfl, hc, by simp [CmdCtx.reply]⟩
    · rw [hps]
      exact ⟨hwl, by simp [hc]⟩
    · exact absurd hw' (by simp [hw])

/-! ## Commands addressed to another bot -/

/-- `cmd_dispatch` handles no command addressed to another bot. -/
theorem cmdDispatch_other_bot (cfg : BotConfig) (env : UpdateEnv) (saved : Bool)
    (wl : List Int64) (fromId chatId : Int64) {text name suffix after : List UInt8}
    (htext : cstr text = 47 :: (name ++ 64 :: (suffix ++ after)))
    (hname : ∀ c ∈ name, c ≠ 32 ∧ c ≠ 64) (hsuffix : 32 ∉ suffix)
    (hafter : after = [] ∨ after.head? = some 32)
    (hdiff : suffix.map toLower ≠ (cstr env.botUsername).map toLower) :
    cmdDispatch (cfg.cmdCtx env fromId chatId) saved wl text = none := by
  simp only [cmdDispatch, BotConfig.cmdCtx,
    parseCommand_other_bot htext hname hsuffix hafter hdiff, Option.bind_eq_bind, Option.none_bind]

/-- **A command addressed to another bot is answered as an unknown command.** For every update
whose text is `/name@suffix`, the suffix running to a space or the end and not the bot's
username up to case, `handle_update` leaves the access list as it is and queues nothing but the
notice for an unknown command, to the sender; and it does queue that notice whenever the update
has an id, a chat and a sender and the group gate lets it through. -/
theorem handle_update_answers_other_bot (cfg : BotConfig) (env : UpdateEnv) (saved : Bool)
    (wl : List Int64) (update : Json) {name suffix after : List UInt8}
    (htext : updateText update = 47 :: (name ++ 64 :: (suffix ++ after)))
    (hname : ∀ c ∈ name, c ≠ 32 ∧ c ≠ 64) (hsuffix : 32 ∉ suffix)
    (hafter : after = [] ∨ after.head? = some 32)
    (hdiff : suffix.map toLower ≠ (cstr env.botUsername).map toLower) :
    let r := handleUpdate cfg env saved wl update
    r.wl = wl ∧
      (r.pushes = [] ∨ ∃ chatId fromId, updateChatId update = some chatId ∧
        updateFromId update = some fromId ∧ r.pushes = [⟨fromId, chatId, unknownText⟩]) ∧
      ∀ updateId chatId fromId,
        jsonInt64 (getObjectItem (some update) (bytes "update_id")) = some updateId →
        updateChatId update = some chatId → updateFromId update = some fromId →
        ¬ cfg.dropsChat (updateChatType update) chatId →
        r.pushes = [⟨fromId, chatId, unknownText⟩] := by
  -- the text is a C string, so it is its own `cstr`
  have hcstr : cstr (updateText update) = updateText update := by
    unfold updateText jsonString
    split
    · exact cstr_eq_self (zero_not_mem_cstr _)
    · rfl
  have h47 : (updateText update).head? = some 47 := by rw [htext]; rfl
  have hnone := fun fromId chatId => cmdDispatch_other_bot cfg env saved wl fromId chatId
    (hcstr.trans htext) hname hsuffix hafter hdiff
  intro r
  refine and_assoc.1 ⟨?_, fun updateId chatId fromId hid hc hf hg => ?_⟩
  · rcases handleUpdate_cases cfg env saved wl update with
      ⟨hp, hw⟩ | ⟨chatId, fromId, hc, hf, -, ⟨-, hd | ⟨-, hp, hw⟩⟩ | ⟨hn47, -⟩⟩
    · exact ⟨hw, .inl hp⟩
    · exact absurd hd (by rw [hnone]; exact Option.noConfusion)
    · exact ⟨hw, .inr ⟨chatId, fromId, hc, hf, hp⟩⟩
    · exact absurd h47 hn47
  · simp only [r, handleUpdate, hid, hc, if_neg hg, hf, h47, if_true, hnone]

/-- `/help@otherbot` in a group, to a bot named `tgbot` with no home group. -/
theorem handle_update_answers_help_at_otherbot :
    let update : Json := .object [(bytes "update_id", .number (Int64.ofInt 1)),
      (bytes "message", .object [
        (bytes "chat", .object [(bytes "id", .number (Int64.ofInt 5)),
          (bytes "type", .string (bytes "group"))]),
        (bytes "from", .object [(bytes "id", .number (Int64.ofInt 7))]),
        (bytes "text", .string (bytes "/help@otherbot"))])]
    updateText update = 47 :: (bytes "help" ++ 64 :: (bytes "otherbot" ++ [])) ∧
      (∀ c ∈ bytes "help", c ≠ 32 ∧ c ≠ 64) ∧ 32 ∉ bytes "otherbot" ∧
      ([] = ([] : List UInt8) ∨ ([] : List UInt8).head? = some 32) ∧
      (bytes "otherbot").map toLower ≠ (cstr (bytes "tgbot")).map toLower ∧
      let r := handleUpdate ⟨Int64.ofInt 0, Int64.ofInt 0, 1⟩ ⟨bytes "tgbot", 0, 0⟩ true [] update
      r.wl = [] ∧
        (r.pushes = [] ∨ ∃ chatId fromId, updateChatId update = some chatId ∧
          updateFromId update = some fromId ∧ r.pushes = [⟨fromId, chatId, unknownText⟩]) ∧
        ∀ updateId chatId fromId,
          jsonInt64 (getObjectItem (some update) (bytes "update_id")) = some updateId →
          updateChatId update = some chatId → updateFromId update = some fromId →
          ¬ (⟨Int64.ofInt 0, Int64.ofInt 0, 1⟩ : BotConfig).dropsChat (updateChatType update)
            chatId →
          r.pushes = [⟨fromId, chatId, unknownText⟩] :=
  have htext : updateText (.object [(bytes "update_id", .number (Int64.ofInt 1)),
      (bytes "message", .object [
        (bytes "chat", .object [(bytes "id", .number (Int64.ofInt 5)),
          (bytes "type", .string (bytes "group"))]),
        (bytes "from", .object [(bytes "id", .number (Int64.ofInt 7))]),
        (bytes "text", .string (bytes "/help@otherbot"))])]) =
      47 :: (bytes "help" ++ 64 :: (bytes "otherbot" ++ [])) := by decide
  ⟨htext, by decide, by decide, .inl rfl, by decide,
    handle_update_answers_other_bot ⟨Int64.ofInt 0, Int64.ofInt 0, 1⟩ ⟨bytes "tgbot", 0, 0⟩ true
      [] _ htext (by decide) (by decide) (.inl rfl) (by decide)⟩

end Tgbot
