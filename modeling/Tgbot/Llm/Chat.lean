import Tgbot.Bot.Api
import Tgbot.Bot.Worker
import Tgbot.Llm.Strip

/-!
# Asking the completion server

`llm_chat` posts a message to the completion server, collects the reply with `llm_write_cb`,
and leaves in `out_buf` the text of `choices[0].message.content`, cut to the buffer by
`snprintf` and stripped of its reasoning by `llm_strip_think_tags`. When anything fails it
leaves a bracketed error text instead and returns -1. A worker sends what `llm_chat` leaves
when it returns 0, and an echo of the message otherwise.

The request body cJSON prints and the allocation failures before the request are left out.
The reply is a `Transfer` of `Tgbot.Bot.Api`, of which `llm_chat` reads whether it completes
and the chunks of its body; cJSON's parser is a parameter.

## Main definitions

* `getFirstItem`, `replyContent`: `choices[0].message.content`
* `llmChat`: `llm_chat` from the request on
* `chatReply`: what it answers, over whole bodies
* `llmReply`: what a worker takes from it

## Main results

* `llm_chat_reply`: over every split of the body into chunks, `llm_chat` answers as
  `chatReply` says or leaves an error text, always a C string that fits in `out_buf`
* `worker_sends_fitting_texts`: every text a worker sends is a non-empty C string shorter
  than 4096 bytes
-/

namespace Tgbot

/-- `cJSON_GetArrayItem (item, 0)`: the first child of an array or an object. -/
def getFirstItem : Option Json → Option Json
  | some (.array (x :: _)) => some x
  | some (.object ((_, x) :: _)) => some x
  | _ => none

/-- The text `llm_chat` reads from a parsed reply, `choices[0].message.content`, when it is a
string. -/
def replyContent (json : Json) : Option (List UInt8) :=
  jsonString (getObjectItem (getObjectItem (getFirstItem (getObjectItem (some json)
    (bytes "choices"))) (bytes "message")) (bytes "content"))

/-- A failing `llm_chat`: -1, and the error text `snprintf` leaves in `out_buf`. -/
def llmFail (outCap : Nat) (msg : List UInt8) : Int × Option (List UInt8) :=
  (-1, some (snprintfText outCap msg).1)

/-- **`llm_chat`** from the request on, for a handle and a message that are not `NULL`: its
return code and the C string it leaves in `out_buf`, `none` when it leaves it untouched. -/
def llmChat (cJSONParse : List UInt8 → Option Json) (outCap : Nat) (t : Transfer) :
    Int × Option (List UInt8) :=
  if outCap = 0 then (-1, none)
  else
    let w := writeChunks llmWriteCb Buffer.empty t.chunks
    if (t.completes && w.1) = false then llmFail outCap (bytes "[llm error: request failed]")
    else if w.2.cap = 0 then llmFail outCap (bytes "[llm error: empty response]")
    else match cJSONParse (cstr w.2.data) with
      | none => llmFail outCap (bytes "[llm error: bad response]")
      | some json =>
        match replyContent json with
        | none => llmFail outCap (bytes "[llm error: no content]")
        | some [] => llmFail outCap (bytes "[llm error: no content]")
        | some content =>
          let stripped := llmStripThinkTags (snprintfText outCap content).1
          if stripped.2 = 0 then
            llmFail outCap (bytes "[llm error: empty after stripping think tags]")
          else (0, some stripped.1)

/-- The error texts `llm_chat` leaves after the request. -/
def llmErrors : List (List UInt8) :=
  [bytes "[llm error: request failed]", bytes "[llm error: empty response]",
    bytes "[llm error: bad response]", bytes "[llm error: no content]",
    bytes "[llm error: empty after stripping think tags]"]

/-- **What `llm_chat` answers**, over whole bodies: the content of the reply, cut to the
buffer and stripped, when the transfer completes with a body under `LLM_RESPONSE_MAX` that
parses to a reply whose content stripping leaves non-empty. -/
def chatReply (cJSONParse : List UInt8 → Option Json) (outCap : Nat) (t : Transfer) :
    Option (List UInt8) :=
  if t.completes = true ∧ (t.chunks.flatMap Prod.fst).length < llmResponseMax then
    (cJSONParse (cstr (t.chunks.flatMap Prod.fst))).bind fun json =>
      (replyContent json).bind fun content =>
        let out := (llmStripThinkTags (content.take (outCap - 1))).1
        if out = [] then none else some out
  else none

/-- The reply a worker sends for `llm_chat (llm, prompt, msg.text, reply, 4096, ...)`: what it
leaves when it returns 0. -/
def llmReply (cJSONParse : List UInt8 → Option Json) (t : Transfer) : Option (List UInt8) :=
  match llmChat cJSONParse 4096 t with
  | (0, some reply) => some reply
  | _ => none

/-! ## What stripping keeps -/

/-- A scan whose skips land on suffixes keeps a sublist of its text. -/
theorem stripWith_sublist {round : List UInt8 → StripAction}
    (hskip : ∀ t rest, round t = .skip rest → rest <:+ t) :
    ∀ (fuel : Nat) (s : List UInt8), List.Sublist (stripWith round fuel s) s
  | 0, _ => List.nil_sublist _
  | _ + 1, [] => List.nil_sublist _
  | fuel + 1, c :: cs => by
    simp only [stripWith]
    split
    · next rest hr => exact (stripWith_sublist hskip fuel rest).trans (hskip _ _ hr).sublist
    · exact List.nil_sublist _
    · exact (stripWith_sublist hskip fuel cs).cons₂ c

/-- `llm_strip_think_tags` keeps a sublist of the C string, its length the one it returns. -/
theorem llmStripThinkTags_sublist (text : List UInt8) :
    List.Sublist (llmStripThinkTags text).1 (cstr text) ∧
      (llmStripThinkTags text).2 = (llmStripThinkTags text).1.length := by
  refine ⟨?_, rfl⟩
  simp only [llmStripThinkTags, trimSpaces]
  exact (List.rdropWhile_prefix _ _).sublist.trans ((List.dropWhile_suffix _).sublist.trans
    (stripWith_sublist (fun _ _ hr => (stripRound_skip hr).1) _ _))

/-! ## What `llm_chat` leaves -/

theorem zero_not_mem_llmErrors : ∀ msg ∈ llmErrors, 0 ∉ msg := by decide

section Chat

variable (cJSONParse : List UInt8 → Option Json) {outCap : Nat} (t : Transfer)

/-- A failure leaves its error text, cut to the buffer. -/
theorem llmFail_out (hcap : 0 < outCap) {msg : List UInt8} (hm : msg ∈ llmErrors) :
    ∃ out, (llmFail outCap msg).2 = some out ∧ out.length < outCap ∧ 0 ∉ out ∧
      ((llmFail outCap msg).1 = 0 ∧ out ≠ [] ∨
        (llmFail outCap msg).1 = -1 ∧ ∃ msg ∈ llmErrors, out = msg.take (outCap - 1)) :=
  ⟨_, rfl, by simp only [snprintfText, List.length_take]; omega,
    fun h => zero_not_mem_llmErrors msg hm (List.mem_of_mem_take h), .inr ⟨rfl, msg, hm, rfl⟩⟩

/-- **What `llm_chat` leaves, whatever the reply**: with a buffer, either 0 and the stripped
content, a non-empty C string, or -1 and an error text cut to the buffer; either way a C
string shorter than `out_cap`. -/
theorem llmChat_out (hcap : 0 < outCap) :
    ∃ out, (llmChat cJSONParse outCap t).2 = some out ∧ out.length < outCap ∧ 0 ∉ out ∧
      ((llmChat cJSONParse outCap t).1 = 0 ∧ out ≠ [] ∨
        (llmChat cJSONParse outCap t).1 = -1 ∧ ∃ msg ∈ llmErrors, out = msg.take (outCap - 1)) := by
  unfold llmChat
  rw [if_neg (by omega)]
  dsimp only
  split_ifs
  · exact llmFail_out hcap (by decide)
  · exact llmFail_out hcap (by decide)
  split
  · exact llmFail_out hcap (by decide)
  split
  · exact llmFail_out hcap (by decide)
  · exact llmFail_out hcap (by decide)
  · next content _ _ =>
    split_ifs with h0
    · exact llmFail_out hcap (by decide)
    · obtain ⟨hsub, hlen⟩ := llmStripThinkTags_sublist (snprintfText outCap content).1
      refine ⟨_, rfl, ?_, fun h => zero_not_mem_cstr _ (hsub.subset h), .inl ⟨rfl, ?_⟩⟩
      · have hc : (cstr (snprintfText outCap content).1).length ≤
            (snprintfText outCap content).1.length := (List.takeWhile_sublist _).length_le
        have := hsub.length_le
        simp only [snprintfText, List.length_take] at hc this ⊢
        omega
      · intro h
        rw [hlen, h] at h0
        exact h0 rfl

/-- The answer `llm_chat` reads from the buffer its write callback leaves. -/
theorem llmChat_eq_ok (hcap : 0 < outCap) (out : List UInt8) :
    llmChat cJSONParse outCap t = (0, some out) ↔
      t.completes = true ∧ (writeChunks llmWriteCb Buffer.empty t.chunks).1 = true ∧
      (writeChunks llmWriteCb Buffer.empty t.chunks).2.cap ≠ 0 ∧
      ((cJSONParse (cstr (writeChunks llmWriteCb Buffer.empty t.chunks).2.data)).bind fun json =>
        (replyContent json).bind fun content =>
          let o := (llmStripThinkTags (content.take (outCap - 1))).1
          if o = [] then none else some o) = some out := by
  have hfail : ∀ msg, llmFail outCap msg ≠ (0, some out) := fun msg h => by
    simp [llmFail] at h
  unfold llmChat
  rw [if_neg (by omega)]
  dsimp only
  split_ifs with h₁ h₂
  · refine iff_of_false (hfail _) fun ⟨hc, hw, _⟩ => ?_
    simp [hc, hw] at h₁
  · exact iff_of_false (hfail _) fun ⟨_, _, hc, _⟩ => hc h₂
  simp only [Bool.not_eq_false, Bool.and_eq_true] at h₁
  simp only [h₁, h₂, true_and, ne_eq, not_false_eq_true]
  split
  · next hj => simp only [hj, Option.none_bind]; exact iff_of_false (hfail _) (by simp)
  · next json hj =>
    simp only [hj, Option.some_bind]
    split
    · next hc => simp only [hc, Option.none_bind]; exact iff_of_false (hfail _) (by simp)
    · next hc =>
      have : (llmStripThinkTags (([] : List UInt8).take (outCap - 1))).1 = [] := by
        rw [List.take_nil]; decide
      simp only [hc, Option.some_bind, this, if_true]
      exact iff_of_false (hfail _) (by simp)
    · next content hne hc =>
      obtain ⟨-, hlen⟩ := llmStripThinkTags_sublist (snprintfText outCap content).1
      simp only [snprintfText] at hlen
      simp only [hc, Option.some_bind, snprintfText, hlen, List.length_eq_zero]
      split_ifs with h0
      · exact iff_of_false (hfail _) (by simp)
      · simp

/-- `chatReply` answers from the whole body: the transfer completes, the body fits under
`LLM_RESPONSE_MAX`, and the content of its reply, stripped, is not empty. -/
theorem chatReply_eq_some_iff (o : List UInt8) :
    chatReply cJSONParse outCap t = some o ↔ t.completes = true ∧
      (t.chunks.flatMap Prod.fst).length < llmResponseMax ∧
      ((cJSONParse (cstr (t.chunks.flatMap Prod.fst))).bind fun json =>
        (replyContent json).bind fun content =>
          let o := (llmStripThinkTags (content.take (outCap - 1))).1
          if o = [] then none else some o) = some o := by
  unfold chatReply
  split_ifs with hb
  · simp only [hb, true_and]
  · simp only [Option.some_ne_none, false_iff, not_and]
    exact fun hc hl _ => hb ⟨hc, hl⟩

variable (hs : ∀ c ∈ t.chunks, c.1.length < 2 ^ 63)
include hs

/-- A call that returns 0 leaves what `chatReply` says over the whole body. -/
theorem llmChat_eq_chatReply (hcap : 0 < outCap) (h0 : (llmChat cJSONParse outCap t).1 = 0) :
    (llmChat cJSONParse outCap t).2 = chatReply cJSONParse outCap t := by
  obtain ⟨out, hout, -⟩ := llmChat_out cJSONParse t hcap
  obtain ⟨hinv, hdata⟩ := writeChunks_sound (show llmResponseMax ≤ 2 ^ 62 by decide) t.chunks
    (Buffer.Inv.empty (by decide)) hs
  obtain ⟨hc, hw, -, hans⟩ := (llmChat_eq_ok cJSONParse t hcap out).1 (Prod.ext h0 hout)
  have hd : (writeChunks llmWriteCb Buffer.empty t.chunks).2.data = t.chunks.flatMap Prod.fst :=
    (hdata hw).trans (List.nil_append _)
  rw [hout, eq_comm, chatReply_eq_some_iff, ← hd]
  refine ⟨hc, ?_, hans⟩
  show (writeChunks (appendCb llmResponseMax) Buffer.empty t.chunks).2.data.length < llmResponseMax
  rw [hinv.length_data]
  exact hinv.len_lt

/-- With every allocation succeeding, a reply `chatReply` answers makes `llm_chat` return 0
with it: the body was received whole, in an allocated buffer. -/
theorem llmChat_of_chatReply (hparse : cJSONParse [] = none) (hcap : 0 < outCap)
    (hall : ∀ c ∈ t.chunks, c.2 = true) {o : List UInt8} (ho : chatReply cJSONParse outCap t = some o) :
    llmChat cJSONParse outCap t = (0, some o) := by
  obtain ⟨hc, hb, hans⟩ := (chatReply_eq_some_iff cJSONParse t o).1 ho
  obtain ⟨-, hdata⟩ := writeChunks_sound (show llmResponseMax ≤ 2 ^ 62 by decide) t.chunks
    (Buffer.Inv.empty (by decide)) hs
  obtain ⟨hiff, hcap'⟩ := writeChunks_complete (show llmResponseMax ≤ 2 ^ 62 by decide) t.chunks
    (Buffer.Inv.empty (by decide)) hs hall
  have hb' : Buffer.empty.len + (t.chunks.flatMap Prod.fst).length < llmResponseMax := by
    simpa [Buffer.empty] using hb
  have hw : (writeChunks llmWriteCb Buffer.empty t.chunks).1 = true := hiff.2 hb'
  have hne : t.chunks ≠ [] := fun hnil => by simp [hnil, hparse] at hans
  have hd : (writeChunks llmWriteCb Buffer.empty t.chunks).2.data = t.chunks.flatMap Prod.fst :=
    (hdata hw).trans (List.nil_append _)
  exact (llmChat_eq_ok cJSONParse t hcap o).2
    ⟨hc, hw, Nat.pos_iff_ne_zero.1 (hcap' (.inl hne) hb'), by rw [hd]; exact hans⟩

end Chat

/-- **What `llm_chat` answers** for every parser that parses no empty text, every `out_cap`
above 0, and every reply whose body comes in chunks shorter than `2 ^ 63` bytes, split in any
way, `llm_chat` either returns 0 and leaves what `chatReply` says over the whole body, or
returns -1 and leaves one of its error texts cut to the buffer; it returns 0 exactly when
`chatReply` answers, when every allocation succeeds. What it leaves is always a C string
shorter than `out_cap`, and not empty when it returns 0. -/
theorem llm_chat_reply (cJSONParse : List UInt8 → Option Json) (hparse : cJSONParse [] = none)
    {outCap : Nat} (hcap : 0 < outCap) (t : Transfer) (hs : ∀ c ∈ t.chunks, c.1.length < 2 ^ 63) :
    let r := llmChat cJSONParse outCap t
    (r.1 = 0 ∧ r.2 = chatReply cJSONParse outCap t ∨
        r.1 = -1 ∧ ∃ msg ∈ llmErrors, r.2 = some (msg.take (outCap - 1))) ∧
      ((∀ c ∈ t.chunks, c.2 = true) → (r.1 = 0 ↔ (chatReply cJSONParse outCap t).isSome)) ∧
      ∀ out, r.2 = some out → out.length < outCap ∧ 0 ∉ out ∧ (r.1 = 0 → out ≠ []) := by
  dsimp only
  obtain ⟨out, hout, hlen, hz, hcases⟩ := llmChat_out cJSONParse t hcap
  have hok := llmChat_eq_chatReply cJSONParse t hs hcap
  refine ⟨?_, fun hall => ⟨fun h0 => by rw [← hok h0, hout]; rfl, fun hsome => ?_⟩,
    fun o ho => ?_⟩
  · rcases hcases with ⟨h0, -⟩ | ⟨h1, msg, hm, rfl⟩
    · exact .inl ⟨h0, hok h0⟩
    · exact .inr ⟨h1, msg, hm, hout⟩
  · obtain ⟨o, ho⟩ := Option.isSome_iff_exists.1 hsome
    rw [llmChat_of_chatReply cJSONParse t hs hparse hcap hall ho]
  · cases hout.symm.trans ho
    rcases hcases with ⟨h0, hne⟩ | ⟨h1, -⟩
    · exact ⟨hlen, hz, fun _ => hne⟩
    · exact ⟨hlen, hz, fun h => absurd (h1.symm.trans h) (by decide)⟩

/-- A reply with the content `hi`, in one chunk, into a buffer of 4096 bytes. -/
theorem llm_chat_reply_hi :
    let cJSONParse : List UInt8 → Option Json := fun body => if body = [] then none else
      some (.object [(bytes "choices", .array [.object [(bytes "message",
        .object [(bytes "content", .string (bytes "hi"))])]])])
    let t : Transfer := ⟨true, 200, [], [(bytes "x", true)]⟩
    let r := llmChat cJSONParse 4096 t
    cJSONParse [] = none ∧ 0 < 4096 ∧ (∀ c ∈ t.chunks, c.1.length < 2 ^ 63) ∧
      (r.1 = 0 ∧ r.2 = chatReply cJSONParse 4096 t ∨
          r.1 = -1 ∧ ∃ msg ∈ llmErrors, r.2 = some (msg.take (4096 - 1))) ∧
        ((∀ c ∈ t.chunks, c.2 = true) → (r.1 = 0 ↔ (chatReply cJSONParse 4096 t).isSome)) ∧
        ∀ out, r.2 = some out → out.length < 4096 ∧ 0 ∉ out ∧ (r.1 = 0 → out ≠ []) := by
  intro cJSONParse t r
  have hparse : cJSONParse [] = none := if_pos rfl
  have hs : ∀ c ∈ t.chunks, c.1.length < 2 ^ 63 := fun c hc => by
    rw [List.mem_singleton.1 hc]; decide
  exact ⟨hparse, by decide, hs, llm_chat_reply cJSONParse hparse (by decide) t hs⟩

/-! ## What the workers send -/

/-- A text Telegram takes as a message: a non-empty C string shorter than 4096 bytes. -/
def FitsMessage (text : List UInt8) : Prop := text ≠ [] ∧ text.length < 4096 ∧ 0 ∉ text

/-- What a worker takes from `llm_chat` fits a message. -/
theorem llmReply_fits (cJSONParse : List UInt8 → Option Json) {t : Transfer} {reply : List UInt8}
    (h : llmReply cJSONParse t = some reply) : FitsMessage reply := by
  obtain ⟨out, hout, hlen, hz, hcases⟩ := llmChat_out cJSONParse t (show 0 < 4096 by decide)
  unfold llmReply at h
  split at h
  · next r he =>
    cases h
    rw [he] at hout hcases
    cases hout
    rcases hcases with ⟨-, hne⟩ | ⟨h1, -⟩
    · exact ⟨hne, hlen, hz⟩
    · simp at h1
  · cases h

theorem thinkingText_fits : FitsMessage thinkingText := ⟨by decide, by decide, by decide⟩

/-- The echo fits a message. -/
theorem echoText_fits (text : List UInt8) : FitsMessage (echoText text) := by
  have hz : 0 ∉ bytes "Hello! You said: " ++ cstr text := by
    simp only [List.mem_append, not_or]
    exact ⟨by decide, zero_not_mem_cstr text⟩
  refine ⟨?_, ?_, fun h => hz (List.mem_of_mem_take h)⟩
  · simp only [echoText, ne_eq, List.take_eq_nil_iff, List.append_eq_nil, not_or]
    exact ⟨by decide, fun h => absurd h.1 (by decide)⟩
  · have := List.length_take_le 1099 (bytes "Hello! You said: " ++ cstr text)
    simp only [echoText]
    omega

/-- Each `bot_send_message` text of one round fits a message, when the completion's replies
do. -/
theorem workerReply_fits (llmReady : Bool) {llmChat : List UInt8 → Option (List UInt8)}
    (hllm : ∀ p r, llmChat p = some r → FitsMessage r) (msg : QueueMsg) :
    ∀ send ∈ workerReply llmReady llmChat msg, FitsMessage send.2 := by
  intro send hs
  simp only [workerReply, List.mem_append, List.mem_singleton] at hs
  rcases hs with hs | rfl
  · split at hs
    · rw [List.mem_singleton.1 hs]; exact thinkingText_fits
    · exact absurd hs (List.not_mem_nil _)
  · dsimp only
    split
    · next r hr =>
      split at hr
      · exact hllm _ _ hr
      · cases hr
    · exact echoText_fits msg.text

/-- **Every text a worker sends fits a Telegram message**: for every queue, every completion
server and every run of `worker_main`'s loop, with or without a completion client, each text
handed to `bot_send_message` is a non-empty C string shorter than 4096 bytes: the
acknowledgment, the reply `llm_chat` leaves in the 4096-byte buffer when it returns 0, or the
echo. -/
theorem worker_sends_fitting_texts (llmReady : Bool) (cJSONParse : List UInt8 → Option Json)
    (server : List UInt8 → Transfer) :
    ∀ (fuel : Nat) (q : Queue),
      ∀ send ∈ workerLoop llmReady (fun prompt => llmReply cJSONParse (server prompt)) fuel q,
        send.2 ≠ [] ∧ send.2.length < 4096 ∧ 0 ∉ send.2
  | 0, _ => fun _ h => absurd h (List.not_mem_nil _)
  | fuel + 1, q => fun send hs => by
    simp only [workerLoop] at hs
    split at hs
    · rcases List.mem_append.1 hs with hs | hs
      · exact workerReply_fits llmReady (fun _ _ h => llmReply_fits cJSONParse h) _ send hs
      · exact worker_sends_fitting_texts llmReady cJSONParse server fuel _ send hs
    · exact absurd hs (List.not_mem_nil _)

/-- A worker with a completion client, one round after `queue_push (42, 7, "hi")` on
`queue_init (8)`: it sends the acknowledgment to chat 7 first. -/
theorem worker_sends_acknowledgment_after_push :
    let q := (queuePush (queueInit 8) (Int64.ofInt 42) (Int64.ofInt 7) (bytes "hi") true).2
    let cJSONParse : List UInt8 → Option Json := fun _ => none
    let server : List UInt8 → Transfer := fun _ => ⟨false, 0, [], []⟩
    let send := (Int64.ofInt 7, thinkingText)
    send ∈ workerLoop true (fun prompt => llmReply cJSONParse (server prompt)) 1 q ∧
      send.2 ≠ [] ∧ send.2.length < 4096 ∧ 0 ∉ send.2 := by
  intro q cJSONParse server send
  have hpop : (queuePop q).map Prod.fst = some (some ⟨Int64.ofInt 42, Int64.ofInt 7, bytes "hi"⟩) := by
    decide
  -- the round on any queue that pops that message
  have hround : ∀ q q' : Queue,
      queuePop q = some (some ⟨Int64.ofInt 42, Int64.ofInt 7, bytes "hi"⟩, q') →
      send ∈ workerLoop true (fun prompt => llmReply cJSONParse (server prompt)) 1 q :=
    fun q q' h => by
      simp only [workerLoop, h, workerReply, if_true, ↓reduceIte]
      exact List.mem_append_left _ (List.mem_append_left _ (List.mem_singleton_self _))
  obtain ⟨⟨m, q'⟩, hq, hm⟩ := Option.map_eq_some'.1 hpop
  obtain rfl : m = some ⟨Int64.ofInt 42, Int64.ofInt 7, bytes "hi"⟩ := hm
  have hmem := hround q q' hq
  exact ⟨hmem, worker_sends_fitting_texts true cJSONParse server 1 q send hmem⟩

end Tgbot
