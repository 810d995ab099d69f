import Tgbot.Bot.Worker
import Tgbot.Config
import Tgbot.Queue.Delivery

/-!
# The running bot

After startup `main` holds the access list `whitelist_load` read, the queue of
`queue_init (ring_size)`, and in poll mode the offset of the next `getUpdates`, first 0. Its
poll loop hands each update of a batch to `handle_update`. When the returned id is
non-negative and at least the offset, the offset moves past it. Meanwhile the workers pop
messages from the queue. `handle_update` runs on the main thread alone, and each queue call is
atomic under the queue's mutex. So a run of the bot is a sequence of steps, each an update
handled or a message popped, and the queue calls of a run are a run of the queue.

The `getUpdates` request, the retry after a failed one, and the grouping of updates into
batches are left out. The loop treats the updates of all its batches one after another.

## Main definitions

* `nextOffset`: the offset after an update
* `BotState`, `BotEvent`, `botStep`, `botRun`: the bot in poll mode
* `BotInv`: what holds in every state it reaches

## Main results

* `bot_run_invariant`: along every run from startup, the access list stays sorted within
  `WHITELIST_MAX`, the queue keeps its invariant, and the offset never decreases and lies
  past every update handled
-/

namespace Tgbot

/-- The offset after `handle_update` returned `uid`: `uid + 1` when `uid` is non-negative and
at least the offset. -/
def nextOffset (offset : Int64) (uid : Int) : Int64 :=
  if uid ≥ 0 ∧ uid ≥ offset.val then Int64.ofInt (uid + 1) else offset

/-- The `queue_push` calls of an update, one after another: the calls, what they return, and
the queue they leave. -/
def pushCalls (q : Queue) : List Push → List QueueOp × List QueueRet × Queue
  | [] => ([], [], q)
  | p :: ps =>
    let r := queuePush q p.userId p.chatId p.text true
    let rest := pushCalls r.2 ps
    (.push p.userId p.chatId p.text true :: rest.1, .code r.1 :: rest.2.1, rest.2.2)

/-- The state of the bot in poll mode: the access list, the queue, and the offset of the next
`getUpdates`. -/
structure BotState where
  wl : List Int64
  queue : Queue
  offset : Int64

/-- The state after startup, from the access-list file and the ring size. -/
def botStart (file : AccessFile) (ringSize : Int) : BotState :=
  ⟨(whitelistLoad file).2, queueInit ringSize, 0⟩

/-- A step of the bot: the main thread handles an update, `saved` being whether a
`whitelist_save` it makes succeeds and `uptime` what a `/status` reads; or a worker's
`queue_pop` returns. -/
inductive BotEvent
  | update (update : Json) (saved : Bool) (uptime : Nat)
  | pop

/-- **One step of the bot**: the state after it, and the queue calls it made with their
results. A `/status` reads the depth of the queue as it is. A pop that would block, or that
reports the end, changes nothing. -/
def botStep (cfg : BotConfig) (username : List UInt8) (s : BotState) :
    BotEvent → BotState × List QueueOp × List QueueRet
  | .update u saved uptime =>
    let r := handleUpdate cfg ⟨username, uptime, queueDepth s.queue⟩ saved s.wl u
    let calls := pushCalls s.queue r.pushes
    (⟨r.wl, calls.2.2, nextOffset s.offset r.ret⟩, calls.1, calls.2.1)
  | .pop =>
    match queuePop s.queue with
    | some (some msg, q') => (⟨s.wl, q', s.offset⟩, [.pop], [.popped msg])
    | _ => (s, [], [])

/-- **A run of the bot**: the state after the steps, and the queue calls they made. -/
def botRun (cfg : BotConfig) (username : List UInt8) :
    BotState → List BotEvent → BotState × List QueueOp × List QueueRet
  | s, [] => (s, [], [])
  | s, e :: es =>
    let r := botStep cfg username s e
    let rest := botRun cfg username r.1 es
    (rest.1, r.2.1 ++ rest.2.1, r.2.2 ++ rest.2.2)

/-- The `update_id`s of the updates a run handled that have one. -/
def handledIds : List BotEvent → List Int64
  | .update u _ _ :: es =>
    (jsonInt64 (getObjectItem (some u) (bytes "update_id"))).toList ++ handledIds es
  | .pop :: es => handledIds es
  | [] => []

/-! ## The queue calls of a run -/

theorem QueueRun.append {q q₁ q' : Queue} {ops ops' : List QueueOp} {rets rets' : List QueueRet}
    (h : QueueRun q ops rets q₁) (h' : QueueRun q₁ ops' rets' q') :
    QueueRun q (ops ++ ops') (rets ++ rets') q' := by
  induction h with
  | nil => exact h'
  | cons hs _ ih => exact .cons hs (ih h')

theorem QueueRun.inv {q q' : Queue} {ops : List QueueOp} {rets : List QueueRet} (h : q.Inv)
    (hrun : QueueRun q ops rets q') : q'.Inv := by
  induction hrun with
  | nil => exact h
  | cons hs _ ih => exact ih (h.step hs)

theorem pushCalls_run : ∀ (q : Queue) (ps : List Push),
    QueueRun q (pushCalls q ps).1 (pushCalls q ps).2.1 (pushCalls q ps).2.2
  | q, [] => .nil q
  | _, _ :: ps => .cons rfl (pushCalls_run _ ps)

theorem botStep_run (cfg : BotConfig) (username : List UInt8) (s : BotState) :
    ∀ e : BotEvent, QueueRun s.queue (botStep cfg username s e).2.1 (botStep cfg username s e).2.2
      (botStep cfg username s e).1.queue
  | .update _ _ _ => pushCalls_run _ _
  | .pop => by
    rcases hp : queuePop s.queue with _ | ⟨_ | msg, q'⟩ <;> simp only [botStep, hp]
    · exact .nil _
    · exact .nil _
    · exact .cons (by simp [queueStep, hp]) (.nil _)

/-- **The queue calls of a run of the bot are a run of the queue.** -/
theorem botRun_run (cfg : BotConfig) (username : List UInt8) :
    ∀ (s : BotState) (es : List BotEvent), QueueRun s.queue (botRun cfg username s es).2.1
      (botRun cfg username s es).2.2 (botRun cfg username s es).1.queue
  | _, [] => .nil _
  | s, e :: es => (botStep_run cfg username s e).append (botRun_run cfg username _ es)

theorem botRun_append (cfg : BotConfig) (username : List UInt8) :
    ∀ (s : BotState) (es es' : List BotEvent),
      (botRun cfg username s (es ++ es')).1 =
        (botRun cfg username (botRun cfg username s es).1 es').1
  | _, [], _ => rfl
  | _, _ :: es, es' => botRun_append cfg username _ es es'

theorem handledIds_append : ∀ es es' : List BotEvent,
    handledIds (es ++ es') = handledIds es ++ handledIds es'
  | [], _ => rfl
  | .update u _ _ :: es, es' => by
    simp only [List.cons_append, handledIds, List.append_eq, handledIds_append es es',
      List.append_assoc]
  | .pop :: es, es' => handledIds_append es es'

/-! ## The access list -/

/-- `handle_update` leaves the access list as it is, or makes one `whitelist_add` or
`whitelist_remove` on it. -/
theorem handleUpdate_wl (cfg : BotConfig) (env : UpdateEnv) (saved : Bool) (wl : List Int64)
    (update : Json) :
    (handleUpdate cfg env saved wl update).wl = wl ∨
      ∃ op, (handleUpdate cfg env saved wl update).wl = (whitelistStep wl op).2 := by
  rcases handleUpdate_cases cfg env saved wl update with
    ⟨-, hw⟩ | ⟨chatId, fromId, -, -, -, ⟨-, hd | ⟨-, -, hw⟩⟩ | ⟨-, -, -, hw⟩⟩
  · exact .inl hw
  · obtain ⟨cmd, args, -, hr⟩ := (cmdDispatch_eq_some_iff _ _ _ _ _).1 hd
    have hw := congrArg Prod.fst hr
    rcases runCmd_fst (cfg.cmdCtx env fromId chatId) saved wl cmd args with
      h | ⟨-, n, -, -, ⟨-, h⟩ | ⟨-, h⟩⟩
    · exact .inl (hw.trans h)
    · exact .inr ⟨.add n saved, hw.trans h⟩
    · exact .inr ⟨.remove n saved, hw.trans h⟩
  · exact .inl hw
  · exact .inl hw

/-! ## The offset -/

theorem val_ofInt_of_mem {x : Int} (h0 : -2 ^ 63 ≤ x) (h1 : x < 2 ^ 63) :
    (Int64.ofInt x).val = x := by
  simp only [Int64.ofInt]
  omega

theorem handleUpdate_ret (cfg : BotConfig) (env : UpdateEnv) (saved : Bool) (wl : List Int64)
    (update : Json) :
    (handleUpdate cfg env saved wl update).ret =
      ((jsonInt64 (getObjectItem (some update) (bytes "update_id"))).map (·.val)).getD (-1) := by
  unfold handleUpdate
  split
  · next h => rw [h]; rfl
  · next id h =>
    rw [h]
    -- every other branch returns the update's id
    repeat' split
    all_goals (try dsimp only); (try split_ifs); (try split); all_goals rfl

/-- The offset after an id below `INT64_MAX`: past the id when it is non-negative, and never
before the offset. -/
theorem nextOffset_val {offset : Int64} {uid : Int} (h : uid < 2 ^ 63 - 1) :
    (nextOffset offset uid).val = if uid ≥ 0 ∧ uid ≥ offset.val then uid + 1 else offset.val := by
  unfold nextOffset
  split_ifs with hu
  · exact val_ofInt_of_mem (by omega) (by omega)
  · rfl

/-! ## The invariant -/

/-- **What holds in every state of the bot**, after handling the updates whose ids are
`handled`: the access list sorted within `WHITELIST_MAX`, the queue's invariant, and an offset
past every non-negative id handled. -/
structure BotInv (handled : List Int64) (s : BotState) : Prop where
  wl : WhitelistInv s.wl
  queue : s.queue.Inv
  offset_nonneg : 0 ≤ s.offset.val
  confirmed : ∀ id ∈ handled, 0 ≤ id.val → id.val < s.offset.val

theorem BotInv.start (file : AccessFile) {ringSize : Int} (hr : ringSize < 2 ^ 31) :
    BotInv [] (botStart file ringSize) where
  wl := WhitelistInv.load file
  queue := Queue.Inv.queueInit hr
  offset_nonneg := show (0 : Int) ≤ (0 : Int64).val by decide
  confirmed := fun _ h => absurd h (List.not_mem_nil _)

section Step

variable (cfg : BotConfig) (username : List UInt8) {handled : List Int64} {s : BotState}

/-- **One step keeps the invariant**, for an update whose id is below `INT64_MAX`; the offset
does not decrease. -/
theorem BotInv.botStep (h : BotInv handled s) (e : BotEvent)
    (hlt : ∀ id ∈ handledIds [e], id.val < 2 ^ 63 - 1) :
    BotInv (handled ++ handledIds [e]) (botStep cfg username s e).1 ∧
      s.offset.val ≤ (botStep cfg username s e).1.offset.val := by
  have hq := QueueRun.inv h.queue (botStep_run cfg username s e)
  cases e with
  | pop =>
    simp only [handledIds, List.append_nil]
    rcases hp : queuePop s.queue with _ | ⟨_ | msg, q'⟩ <;> simp only [Tgbot.botStep, hp] at hq ⊢
    · exact ⟨h, le_refl _⟩
    · exact ⟨h, le_refl _⟩
    · exact ⟨⟨h.wl, hq, h.offset_nonneg, h.confirmed⟩, le_refl _⟩
  | update u saved uptime =>
    -- the id handle_update returns is the update's, and -1 when it has none
    have hret := handleUpdate_ret cfg ⟨username, uptime, queueDepth s.queue⟩ saved s.wl u
    have hwl : WhitelistInv (handleUpdate cfg ⟨username, uptime, queueDepth s.queue⟩ saved
        s.wl u).wl := by
      rcases handleUpdate_wl cfg ⟨username, uptime, queueDepth s.queue⟩ saved s.wl u with
        hw | ⟨op, hw⟩
      · rw [hw]; exact h.wl
      · rw [hw]; exact h.wl.step op
    simp only [handledIds, List.append_nil] at hlt ⊢
    cases hid : jsonInt64 (getObjectItem (some u) (bytes "update_id")) with
    | none =>
      simp only [hid, Option.map_none', Option.getD_none] at hret
      simp only [Option.toList_none, List.append_nil, Tgbot.botStep, hret, nextOffset]
      simp only [show ¬ ((-1 : Int) ≥ 0 ∧ _) from fun h => absurd h.1 (by decide), if_false]
      exact ⟨⟨hwl, hq, h.offset_nonneg, h.confirmed⟩, le_refl _⟩
    | some id =>
      simp only [hid, Option.map_some', Option.getD_some] at hret
      simp only [hid, Option.toList_some, List.mem_singleton, forall_eq] at hlt
      have hoff : (Tgbot.botStep cfg username s (.update u saved uptime)).1.offset.val =
          if id.val ≥ 0 ∧ id.val ≥ s.offset.val then id.val + 1 else s.offset.val := by
        rw [← nextOffset_val hlt, ← hret]
        rfl
      have h0 := h.offset_nonneg
      simp only [Option.toList_some]
      refine ⟨⟨hwl, hq, ?_, fun i hi hi0 => ?_⟩, ?_⟩ <;> rw [hoff]
      · split_ifs <;> omega
      · rcases List.mem_append.1 hi with hi | hi
        · have := h.confirmed i hi hi0
          split_ifs <;> omega
        · obtain rfl := List.mem_singleton.1 hi
          split_ifs <;> omega
      · split_ifs <;> omega

/-- **A run keeps the invariant**, when the ids of its updates are below `INT64_MAX`; the
offset does not decrease. -/
theorem BotInv.botRun :
    ∀ {handled : List Int64} {s : BotState}, BotInv handled s → ∀ es : List BotEvent,
      (∀ id ∈ handledIds es, id.val < 2 ^ 63 - 1) →
      BotInv (handled ++ handledIds es) (botRun cfg username s es).1 ∧
        s.offset.val ≤ (botRun cfg username s es).1.offset.val
  | _, _, h, [], _ => ⟨by simpa [handledIds] using h, le_refl _⟩
  | handled, s, h, e :: es, hlt => by
    have hsplit : handledIds (e :: es) = handledIds [e] ++ handledIds es :=
      handledIds_append [e] es
    rw [hsplit] at hlt ⊢
    obtain ⟨h₁, hle₁⟩ := h.botStep cfg username e
      fun id hid => hlt id (List.mem_append_left _ hid)
    obtain ⟨h₂, hle₂⟩ := h₁.botRun es fun id hid => hlt id (List.mem_append_right _ hid)
    rw [← List.append_assoc]
    exact ⟨h₂, hle₁.trans hle₂⟩

end Step

/-- **The invariant of the running bot**: for every access-list file, every C `int` ring size
and every run of the bot in poll mode from startup, whose updates have ids below `INT64_MAX`,
the access list stays sorted within `WHITELIST_MAX`, the queue keeps its invariant, the offset
never decreases, and every update handled with a non-negative id lies before the offset, so
the next `getUpdates` confirms it. -/
theorem bot_run_invariant (cfg : BotConfig) (username : List UInt8) (file : AccessFile)
    {ringSize : Int} (hr : ringSize < 2 ^ 31) (events : List BotEvent)
    (hids : ∀ id ∈ handledIds events, id.val < 2 ^ 63 - 1) :
    let s := (botRun cfg username (botStart file ringSize) events).1
    WhitelistInv s.wl ∧ s.queue.Inv ∧
      (∀ es es', events = es ++ es' →
        (botRun cfg username (botStart file ringSize) es).1.offset.val ≤ s.offset.val) ∧
      ∀ id ∈ handledIds events, 0 ≤ id.val → id.val < s.offset.val := by
  intro s
  obtain ⟨h, -⟩ := (BotInv.start file hr).botRun cfg username events hids
  refine ⟨h.wl, h.queue, fun es es' he => ?_, h.confirmed⟩
  subst he
  rw [handledIds_append] at hids
  obtain ⟨h₁, -⟩ := (BotInv.start file hr).botRun cfg username es
    fun id hid => hids id (List.mem_append_left _ hid)
  have := (h₁.botRun cfg username es'
    fun id hid => hids id (List.mem_append_right _ hid)).2
  rwa [← botRun_append] at this

/-! ## Startup -/

/-- **What `main` starts from the configuration**: for every INI file and environment, the
config `config_load` leaves gives `log_init` a cap of at least 1 MiB, so at least the 256 bytes
the results on the log ask for, and starts between 1 and 16 workers. The queue of
`queue_init (user_ring_size)` has rings of the least power of two at least `user_ring_size`,
between 4 and 256 entries, and every run of it is a run of the map of FIFO lists with rings of
that size. -/
theorem startup_from_config (ini : Option (List IniLine)) (env : ConfigEnv) :
    let cfg := (configLoad ini env).2
    256 ≤ cfg.logMaxSizeMb * 1024 * 1024 ∧ 1 ≤ cfg.workerCount ∧ cfg.workerCount ≤ 16 ∧
      ∃ cap, IsLeastPow2Ge cfg.userRingSize.toNat cap ∧ 4 ≤ cap ∧ cap ≤ 256 ∧
        ∀ ops rets q, QueueRun (queueInit cfg.userRingSize) ops rets q →
          AbsRun cap AbsQueue.init ops rets (absQueue q) := by
  have h := inRange_configLoad ini env
  obtain ⟨hr4, hr256⟩ := h.userRingSize
  obtain ⟨cap, hcap, -⟩ := roundUpPow2_spec
    (show (configLoad ini env).2.userRingSize < 2 ^ 31 by omega)
  rw [max_eq_left hr4] at hcap
  have hcap' : IsLeastPow2Ge (max (if 0 < (configLoad ini env).2.userRingSize then
      (configLoad ini env).2.userRingSize else 30) 4).toNat cap := by
    rwa [if_pos (by omega), max_eq_left hr4]
  refine ⟨by have := h.logMaxSizeMb; omega, h.workerCount.1, h.workerCount.2, cap, hcap,
    by have := hcap.2.1; omega, hcap.2.2 8 (by omega), fun ops rets q hrun => ?_⟩
  have habs := queueRun_refines (Queue.Inv.queueInit (by omega)) hrun
  rwa [absQueue_queueInit, cap_queueInit hr256 hcap'] at habs

/-- A private message, handled and then popped, from an access-list file with its sender and
`queue_init (8)`. -/
theorem bot_run_invariant_message_then_pop :
    let events := [BotEvent.update (.object [(bytes "update_id", .number (Int64.ofInt 5)),
      (bytes "message", .object [
        (bytes "chat", .object [(bytes "id", .number (Int64.ofInt 7)),
          (bytes "type", .string (bytes "private"))]),
        (bytes "from", .object [(bytes "id", .number (Int64.ofInt 7))]),
        (bytes "text", .string (bytes "hi"))])]) true 0, .pop]
    let s := (botRun ⟨0, 0, 1⟩ (bytes "tgbot") (botStart (.contents (bytes "7\n")) 8) events).1
    (8 : Int) < 2 ^ 31 ∧ (∀ id ∈ handledIds events, id.val < 2 ^ 63 - 1) ∧
      WhitelistInv s.wl ∧ s.queue.Inv ∧
      (∀ es es', events = es ++ es' →
        (botRun ⟨0, 0, 1⟩ (bytes "tgbot") (botStart (.contents (bytes "7\n")) 8) es).1.offset.val ≤
          s.offset.val) ∧
      ∀ id ∈ handledIds events, 0 ≤ id.val → id.val < s.offset.val := by
  intro events s
  have hids : ∀ id ∈ handledIds events, id.val < 2 ^ 63 - 1 := by
    rw [show handledIds events = [Int64.ofInt 5] by decide]
    simp only [List.mem_singleton, forall_eq]
    norm_num [Int64.ofInt]
  exact ⟨by norm_num, hids, bot_run_invariant _ _ _ (by norm_num) events hids⟩

end Tgbot
