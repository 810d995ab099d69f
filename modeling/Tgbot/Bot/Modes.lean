import Tgbot.Bot.Main
import Tgbot.Bot.Api
import Tgbot.Webhook

/-!
# Poll mode and webhook mode

After startup `main` runs in one of two modes.

In poll mode it calls `bot_get_updates` with its offset, `poll_timeout` and `poll_limit`. When
the call returns `NULL` it sleeps and calls again with the same offset. Otherwise it hands each
item of the reply's `result` to `handle_update`, in order, moving the offset past each, and
only then calls again. Meanwhile the workers pop messages from the queue. `PollState` adds to
the bot's state the items of the last reply still to be handled. A step is a call of the main
thread or a worker's pop, and each step that changes the bot's state makes one `botStep`, so a
run of the poll loop is a run of the bot over the events it made. The sleep after a failed
call, `g_running` and the exit from the loop are left out.

In webhook mode `on_request` hands the update of each request that passes its checks to
`webhook_on_update`, which calls `handle_update` on it and drops its return value.
`webhookOnRequest` is one request, taken whole. MHD's threads may run the calls of two
requests at once; each call on the access list and on the queue is atomic under its lock, and
what is proved here of a request depends only on its own checks.

## Main definitions

* `arrayItems`: the items `cJSON_ArrayForEach` visits
* `replyUpdates`: the updates of a `getUpdates` reply
* `PollLoop`: what the loop reads besides its state
* `PollState`, `PollEvent`, `pollStep`, `pollRun`: the poll loop, with the workers' pops
* `HookState`, `webhookOnRequest`: a request in webhook mode

## Main results

* `pollRun_bot`: the bot's state after a run of the poll loop is that of `botRun` over the
  events the run made
* `poll_loop_stalls_on_large_reply`: while every reply to `getUpdates` is at least
  `RESPONSE_BUF_MAX` bytes, the loop handles no update and its offset stays where it is
* `webhook_request_authenticated`: in webhook mode only a request that passes every check of
  `on_request` changes the bot's state, and only one from the admin changes the access list
-/

namespace Tgbot

/-- The items `cJSON_ArrayForEach` visits: the children of an array or of an object, in order,
and none for anything else, `NULL` included. -/
def arrayItems : Option Json → List Json
  | some (.array items) => items
  | some (.object fields) => fields.map Prod.snd
  | _ => []

/-- The updates of a `getUpdates` reply: the items of its `result`, none when the call
failed. -/
def replyUpdates (root : Option Json) : List Json :=
  arrayItems (getObjectItem root (bytes "result"))

/-- What the poll loop reads besides its state: the parser, the handle of `bot_init`, the
fields of `g_cfg` that `handle_update` reads, the username `getMe` gave, and `poll_timeout`
and `poll_limit`. -/
structure PollLoop where
  cJSONParse : List UInt8 → Option Json
  handle : BotHandle
  cfg : BotConfig
  username : List UInt8
  timeout : Int
  limit : Int

/-- The state of the bot in poll mode, with the items of the last reply that the loop has yet
to hand to `handle_update`. -/
structure PollState where
  bot : BotState
  batch : List Json

/-- A step in poll mode: the main thread's `bot_get_updates`, with the transfer of its reply;
its `handle_update` of the next item of the reply, `saved` and `uptime` as in
`BotEvent.update`; or a worker's `queue_pop`. -/
inductive PollEvent
  | getUpdates (t : Transfer)
  | update (saved : Bool) (uptime : Nat)
  | pop

/-- **One step in poll mode**: the state after it, and the events of the bot it made. The main
thread calls `bot_get_updates` with its offset only once the last reply's items are handled,
and hands them to `handle_update` one at a time. -/
def pollStep (L : PollLoop) (s : PollState) : PollEvent → PollState × List BotEvent
  | .getUpdates t =>
    match s.batch with
    | [] =>
      (⟨s.bot, replyUpdates (botGetUpdates L.cJSONParse L.handle s.bot.offset L.timeout L.limit t)⟩,
        [])
    | _ :: _ => (s, [])
  | .update saved uptime =>
    match s.batch with
    | [] => (s, [])
    | u :: rest =>
      (⟨(botStep L.cfg L.username s.bot (.update u saved uptime)).1, rest⟩, [.update u saved uptime])
  | .pop => (⟨(botStep L.cfg L.username s.bot .pop).1, s.batch⟩, [.pop])

/-- **A run in poll mode**: the state after the steps, and the events of the bot they made. -/
def pollRun (L : PollLoop) : PollState → List PollEvent → PollState × List BotEvent
  | s, [] => (s, [])
  | s, e :: es =>
    let r := pollStep L s e
    let rest := pollRun L r.1 es
    (rest.1, r.2 ++ rest.2)

/-! ## Runs of the bot -/

/-- A step in poll mode moves the bot's state by `botRun` over the events it made. -/
theorem pollStep_bot (L : PollLoop) (s : PollState) (e : PollEvent) :
    (pollStep L s e).1.bot = (botRun L.cfg L.username s.bot (pollStep L s e).2).1 := by
  cases e with
  | getUpdates t | update saved uptime => simp only [pollStep]; split <;> rfl
  | pop => rfl

/-- **A run in poll mode is a run of the bot**: the bot's state after it is that of `botRun`
over the events it made. -/
theorem pollRun_bot (L : PollLoop) :
    ∀ (s : PollState) (es : List PollEvent),
      (pollRun L s es).1.bot = (botRun L.cfg L.username s.bot (pollRun L s es).2).1
  | _, [] => rfl
  | s, e :: es => by
    simp only [pollRun]
    rw [botRun_append, ← pollStep_bot, pollRun_bot L _ es]

/-- Pops change neither the access list nor the offset. -/
theorem botRun_pops (cfg : BotConfig) (username : List UInt8) :
    ∀ (s : BotState) (es : List BotEvent), (∀ e ∈ es, e = .pop) →
      (botRun cfg username s es).1.wl = s.wl ∧ (botRun cfg username s es).1.offset = s.offset
  | _, [], _ => ⟨rfl, rfl⟩
  | s, e :: es, h => by
    obtain rfl := h e (List.mem_cons_self _ _)
    have hpop : (botStep cfg username s .pop).1.wl = s.wl ∧
        (botStep cfg username s .pop).1.offset = s.offset := by
      simp only [botStep]; split <;> exact ⟨rfl, rfl⟩
    obtain ⟨hwl, hoff⟩ := botRun_pops cfg username _ es fun e he => h e (List.mem_cons_of_mem _ he)
    exact ⟨hwl.trans hpop.1, hoff.trans hpop.2⟩

/-! ## Replies too large for the buffer -/

/-- A transfer whose body is at least `RESPONSE_BUF_MAX` bytes fails in `write_cb`, however it
is split. -/
theorem curlPerform_large {spec : ApiRequestSpec} {t : Transfer}
    (hs : ∀ c ∈ t.chunks, c.1.length < 2 ^ 63)
    (hbig : responseBufMax ≤ (t.chunks.flatMap Prod.fst).length) :
    (curlPerform spec t).1 = false := by
  obtain ⟨hinv, hdata⟩ := writeChunks_sound (show responseBufMax ≤ 2 ^ 62 by decide) t.chunks
    (Buffer.Inv.empty (by decide)) hs
  simp only [curlPerform, writeCb, Bool.and_eq_false_iff]
  refine .inr (Bool.eq_false_iff.2 fun hw => ?_)
  have hlt := hinv.len_lt
  rw [← hinv.length_data, hdata hw] at hlt
  simp only [Buffer.empty, List.nil_append] at hlt
  omega

/-- `bot_get_updates` returns `NULL` for a reply of at least `RESPONSE_BUF_MAX` bytes. -/
theorem botGetUpdates_large (cJSONParse : List UInt8 → Option Json) (bot : BotHandle)
    (offset : Int64) (timeout limit : Int) {t : Transfer}
    (hs : ∀ c ∈ t.chunks, c.1.length < 2 ^ 63)
    (hbig : responseBufMax ≤ (t.chunks.flatMap Prod.fst).length) :
    botGetUpdates cJSONParse bot offset timeout limit t = none := by
  unfold botGetUpdates
  split
  · rfl
  · simp only [apiPerformJson, curlPerform_large hs hbig, if_true]

/-- One step from a state with no items left, when a `getUpdates` reply is too large: no items
come, and the only event of the bot is a pop. -/
theorem pollStep_large (L : PollLoop) {s : PollState} (hs : s.batch = []) (e : PollEvent)
    (hbig : ∀ t, e = .getUpdates t →
      (∀ c ∈ t.chunks, c.1.length < 2 ^ 63) ∧ responseBufMax ≤ (t.chunks.flatMap Prod.fst).length) :
    (pollStep L s e).1.batch = [] ∧ ∀ e' ∈ (pollStep L s e).2, e' = .pop := by
  cases e with
  | getUpdates t =>
    obtain ⟨hsz, hlen⟩ := hbig t rfl
    simp only [pollStep, hs, botGetUpdates_large _ _ _ _ _ hsz hlen]
    exact ⟨rfl, fun _ h => absurd h (List.not_mem_nil _)⟩
  | update saved uptime => simp [pollStep, hs]
  | pop => exact ⟨hs, fun _ h => List.mem_singleton.1 h⟩

/-- The run of such steps: the items stay handled, and the run makes only pops. -/
theorem pollRun_large (L : PollLoop) :
    ∀ (s : PollState) (es : List PollEvent), s.batch = [] →
      (∀ t, PollEvent.getUpdates t ∈ es →
        (∀ c ∈ t.chunks, c.1.length < 2 ^ 63) ∧ responseBufMax ≤ (t.chunks.flatMap Prod.fst).length) →
      (pollRun L s es).1.batch = [] ∧ ∀ e ∈ (pollRun L s es).2, e = .pop
  | s, [], hs, _ => ⟨hs, nofun⟩
  | s, e :: es, hs, hbig => by
    obtain ⟨hb, hp⟩ := pollStep_large L hs e fun t he => hbig t (he ▸ List.mem_cons_self _ _)
    obtain ⟨hb', hp'⟩ := pollRun_large L _ es hb fun t ht => hbig t (List.mem_cons_of_mem _ ht)
    refine ⟨hb', fun e' he' => ?_⟩
    rcases List.mem_append.1 he' with h | h
    · exact hp e' h
    · exact hp' e' h

/-- **While every reply is too large for the buffer, the poll loop makes no progress**: from a
state whose last reply is handled, along every run in which each reply to `getUpdates` has at
least `RESPONSE_BUF_MAX` bytes, split into chunks in any way, every call of `bot_get_updates`
returns `NULL`. So no update is handed to `handle_update`, the access list stays as it is, and
every later call asks again from the same offset; the workers only pop. -/
theorem poll_loop_stalls_on_large_reply (L : PollLoop) (s : PollState) (hs : s.batch = [])
    (events : List PollEvent)
    (hbig : ∀ t, PollEvent.getUpdates t ∈ events →
      (∀ c ∈ t.chunks, c.1.length < 2 ^ 63) ∧ responseBufMax ≤ (t.chunks.flatMap Prod.fst).length) :
    let r := pollRun L s events
    r.1.batch = [] ∧ (∀ e ∈ r.2, e = .pop) ∧ r.1.bot.wl = s.bot.wl ∧
      r.1.bot.offset = s.bot.offset := by
  intro r
  obtain ⟨hb, hp⟩ := pollRun_large L s events hs hbig
  obtain ⟨hwl, hoff⟩ := botRun_pops L.cfg L.username s.bot _ hp
  rw [← pollRun_bot] at hwl hoff
  exact ⟨hb, hp, hwl, hoff⟩

/-- From startup, a reply of `RESPONSE_BUF_MAX` bytes in one chunk, then an update event and a
pop. -/
theorem poll_loop_stalls_one_reply :
    let L : PollLoop := ⟨fun _ => none, ⟨bytes "1:a", apiBase ++ bytes "1:a/", 32⟩, ⟨0, 0, 1⟩,
      bytes "tgbot", 30, 100⟩
    let s : PollState := ⟨botStart (.contents []) 8, []⟩
    let events := [PollEvent.getUpdates ⟨true, 200, [], [(List.replicate responseBufMax 32, true)]⟩,
      .update true 0, .pop]
    s.batch = [] ∧
      (∀ t, PollEvent.getUpdates t ∈ events →
        (∀ c ∈ t.chunks, c.1.length < 2 ^ 63) ∧
          responseBufMax ≤ (t.chunks.flatMap Prod.fst).length) ∧
      let r := pollRun L s events
      r.1.batch = [] ∧ (∀ e ∈ r.2, e = .pop) ∧ r.1.bot.wl = s.bot.wl ∧
        r.1.bot.offset = s.bot.offset := by
  intro L s events
  have hbig : ∀ t, PollEvent.getUpdates t ∈ events →
      (∀ c ∈ t.chunks, c.1.length < 2 ^ 63) ∧
        responseBufMax ≤ (t.chunks.flatMap Prod.fst).length := by
    intro t ht
    simp only [events, List.mem_cons, PollEvent.getUpdates.injEq, List.mem_singleton,
      List.not_mem_nil, or_false, reduceCtorEq] at ht
    subst ht
    simp only [List.mem_singleton, forall_eq, List.length_replicate, List.flatMap_cons,
      List.flatMap_nil, List.append_nil, le_refl, and_true]
    decide
  exact ⟨rfl, hbig, poll_loop_stalls_on_large_reply L s rfl events hbig⟩

/-! ## Webhook mode -/

/-- The state of the bot in webhook mode: the access list and the queue. -/
structure HookState where
  wl : List Int64
  queue : Queue

/-- **One request in webhook mode**, taken whole: `on_request` with the buffer `pb_acquire`
gave, the upload calls and the final call; when it hands an update to `update_cb`,
`webhook_on_update` calls `handle_update` on it, with `saved` and `uptime` as in
`BotEvent.update`, and drops its return value. -/
def webhookOnRequest (hook : WebhookConfig) (cJSONParse : List UInt8 → Option Json)
    (cfg : BotConfig) (username : List UInt8) (s : HookState) (req : WebhookRequest)
    (pb : PostBody) (chunks : List (List UInt8 × Bool)) (saved : Bool) (uptime : Nat) :
    HookState :=
  match (webhookRequest hook cJSONParse req pb chunks).2 with
  | none => s
  | some update =>
    let r := handleUpdate cfg ⟨username, uptime, queueDepth s.queue⟩ saved s.wl update
    ⟨r.wl, (pushCalls s.queue r.pushes).2.2⟩

/-- The end of the final call hands on an update only with 200, when `update_cb` is set, and
the update is the parse of the buffer. -/
theorem onRequestBody_eq_some {α : Type} {hook : WebhookConfig}
    {cJSONParse : List UInt8 → Option α} {pb : PostBody} {u : α}
    (h : (onRequestBody hook cJSONParse pb).2 = some u) :
    (onRequestBody hook cJSONParse pb).1 = 200 ∧ hook.hasUpdateCb = true ∧
      cJSONParse (cstr pb.data) = some u := by
  unfold onRequestBody at h ⊢
  by_cases h413 : pb.len > responseBufMax
  · simp [h413] at h
  by_cases hbody : 0 < pb.cap ∧ 0 < pb.len
  · rw [if_neg h413, if_pos hbody] at h ⊢
    cases hp : cJSONParse (cstr pb.data) with
    | none => simp [hp] at h
    | some root =>
      cases hcb : hook.hasUpdateCb
      · simp [hp, hcb] at h
      · simpa [hp, hcb] using h
  · simp [h413, hbody] at h

/-- **What a request that hands on an update passed**: the final call of `on_request` answers
200 to a `POST` to `/webhook` whose secret header, when a secret is set, is the secret as a C
string, and whose content type starts with `application/json` up to case; `update_cb` is
set, and the update is the parse of the buffer. -/
theorem onRequestFinal_eq_some {α : Type} {hook : WebhookConfig}
    {cJSONParse : List UInt8 → Option α} {req : WebhookRequest} {pb : PostBody} {u : α}
    (h : (onRequestFinal hook cJSONParse req pb).2 = some u) :
    (onRequestFinal hook cJSONParse req pb).1 = 200 ∧ req.method = bytes "POST" ∧
      req.url = bytes "/webhook" ∧
      (cstr hook.secret ≠ [] → ∃ hdr, req.secretHeader = some hdr ∧ cstr hdr = cstr hook.secret) ∧
      (∃ ct, req.contentType = some ct ∧
        strncasecmpEq (cstr ct) (bytes "application/json") 16 = true) ∧
      hook.hasUpdateCb = true ∧ cJSONParse (cstr pb.data) = some u := by
  unfold onRequestFinal at h ⊢
  split_ifs at h ⊢ with h404 h403 h415
  obtain ⟨hpost, hurl⟩ := not_or.1 h404
  -- the secret header, when a secret is set
  have hsecret : cstr hook.secret ≠ [] →
      ∃ hdr, req.secretHeader = some hdr ∧ cstr hdr = cstr hook.secret := fun hs => by
    cases hh : req.secretHeader with
    | none => exact absurd ⟨hs, by simp [hh]⟩ h403
    | some hdr =>
      refine ⟨hdr, rfl, (ctStrcmp_eq_zero_iff _ _).1 (not_not.1 fun hne => h403 ⟨hs, ?_⟩)⟩
      simp [hh, hne]
  have hct : ∃ ct, req.contentType = some ct ∧
      strncasecmpEq (cstr ct) (bytes "application/json") 16 = true := by
    cases hc : req.contentType with
    | none => exact absurd (by simp [hc]) h415
    | some ct => exact ⟨ct, rfl, by simpa [hc] using h415⟩
  obtain ⟨h200, hcb, hp⟩ := onRequestBody_eq_some h
  exact ⟨h200, not_not.1 hpost, not_not.1 hurl, hsecret, hct, hcb, hp⟩

/-- An update that changes the access list comes from `admin_user_id`, which is not 0: only
`/allow` and `/revoke` change it, and only for the admin. -/
theorem handleUpdate_wl_ne (cfg : BotConfig) (env : UpdateEnv) (saved : Bool) (wl : List Int64)
    (update : Json) (h : (handleUpdate cfg env saved wl update).wl ≠ wl) :
    updateFromId update = some cfg.adminUserId ∧ cfg.adminUserId.val ≠ 0 := by
  rcases handleUpdate_cases cfg env saved wl update with
    ⟨-, hw⟩ | ⟨chatId, fromId, -, hfrom, -, ⟨-, hd | ⟨-, -, hw⟩⟩ | ⟨-, -, -, hw⟩⟩
  · exact absurd hw h
  · cases hadm : (cfg.cmdCtx env fromId chatId).isAdmin
    · exact absurd (cmdDispatch_of_not_admin hadm hd).1 h
    · simp only [CmdCtx.isAdmin, BotConfig.cmdCtx, Bool.and_eq_true, decide_eq_true_eq] at hadm
      exact ⟨hfrom.trans (congrArg some hadm.2), hadm.1⟩
  · exact absurd hw h
  · exact absurd hw h

/-- **In webhook mode only a request that passes every check changes the bot's state, and
only the admin's changes the access list**: for every state and every request, split into
upload chunks in any way, a request that changes the access list or the queue was answered
200, was a `POST` to `/webhook` whose secret header is the configured secret as a C string
when one is set, and had a JSON content type; one that changes the access list carried an
update from `admin_user_id`, which is not 0. -/
theorem webhook_request_authenticated (hook : WebhookConfig)
    (cJSONParse : List UInt8 → Option Json) (cfg : BotConfig) (username : List UInt8)
    (s : HookState) (req : WebhookRequest) (pb : PostBody) (chunks : List (List UInt8 × Bool))
    (saved : Bool) (uptime : Nat) :
    let r := webhookRequest hook cJSONParse req pb chunks
    let s' := webhookOnRequest hook cJSONParse cfg username s req pb chunks saved uptime
    (s' ≠ s → r.1 = 200 ∧ req.method = bytes "POST" ∧ req.url = bytes "/webhook" ∧
      (cstr hook.secret ≠ [] → ∃ hdr, req.secretHeader = some hdr ∧ cstr hdr = cstr hook.secret) ∧
      ∃ ct, req.contentType = some ct ∧
        strncasecmpEq (cstr ct) (bytes "application/json") 16 = true) ∧
    (s'.wl ≠ s.wl → ∃ u, r.2 = some u ∧ updateFromId u = some cfg.adminUserId ∧
      cfg.adminUserId.val ≠ 0) := by
  dsimp only
  cases hr : (webhookRequest hook cJSONParse req pb chunks).2 with
  | none =>
    have hs : webhookOnRequest hook cJSONParse cfg username s req pb chunks saved uptime = s := by
      simp only [webhookOnRequest, hr]
    exact ⟨fun hne => absurd hs hne, fun hne => absurd (congrArg HookState.wl hs) hne⟩
  | some u =>
    obtain ⟨h200, hpost, hurl, hsecret, hct, -⟩ := onRequestFinal_eq_some hr
    refine ⟨fun _ => ⟨h200, hpost, hurl, hsecret, hct⟩, fun hne => ⟨u, rfl, ?_⟩⟩
    simp only [webhookOnRequest, hr] at hne
    exact handleUpdate_wl_ne cfg _ saved s.wl u hne

end Tgbot
