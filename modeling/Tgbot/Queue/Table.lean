import Mathlib.Algebra.BigOperators.Group.Finset
import Tgbot.Queue.Ring

/-!
# The user-keyed message queue

`queue.c` keeps a single global queue: 64 buckets, each the head of a hash chain of
`UserRing`s, a `total_pending` counter, the ring depth fixed by `queue_init`, a shutdown flag
and the round-robin cursor `rr_bucket`. Every call takes the queue mutex for its whole body,
so a run of the queue under any interleaving of producers and consumers is a sequence of the
calls' atomic steps; `queueStep` is that step, and `queue_pop` blocking on the condition
variable is a step that is not enabled.

## Main definitions

* `Queue`: the global queue state (the mutex and condition variable are left out)
* `hashUser`: the MurmurHash3 finaliser that picks a sender's bucket
* `ringGetOrCreate`, `ringPopAny`: the two helpers of `queue.c`
* `queuePush`, `queuePop`, `queueShutdown`, `queueDepth`, `queueRingCount`
* `queueStep`, `Queue.Reachable`: one call as an atomic step, and the states runs reach
-/

namespace Tgbot

/-- `QUEUE_BUCKETS`. -/
def queueBuckets : Nat := 64

/-- `QUEUE_BUCKET_MASK`. -/
def queueBucketMask : Nat := queueBuckets - 1

theorem and_queueBucketMask (x : Nat) : x &&& queueBucketMask = x % queueBuckets :=
  Nat.and_pow_two_sub_one_eq_mod x 6

/-- `x & QUEUE_BUCKET_MASK`, as a bucket index. -/
def bucketOf (x : Nat) : Fin queueBuckets :=
  ⟨x &&& queueBucketMask, by rw [and_queueBucketMask]; exact Nat.mod_lt _ (by decide)⟩

@[simp] theorem val_bucketOf (x : Nat) : (bucketOf x).val = x % queueBuckets :=
  and_queueBucketMask x

/-- `hash_user`: the MurmurHash3 `fmix64` finaliser on `(uint64_t)user_id`, masked to a
bucket. -/
def hashUser (userId : Int64) : Fin queueBuckets :=
  let h := userId.toUInt64
  let h := h ^^^ (h >>> 33)
  let h := h * 0xff51afd7ed558ccd
  let h := h ^^^ (h >>> 33)
  let h := h * 0xc4ceb9fe1a85ec53
  let h := h ^^^ (h >>> 33)
  bucketOf h.toNat

/-- `sizeof(Slot::text)` and `sizeof(QueueMsg::text)`. -/
def textBuf : Nat := 1024

/-- The bytes `queue_push` copies into a slot (and `queue_pop` out of it): `strlen(text)`
bytes, cut to `sizeof(text) - 1`. -/
def slotText (text : List UInt8) : List UInt8 :=
  let tlen := strlen text
  let tlen := if tlen ≥ textBuf then textBuf - 1 else tlen
  text.take tlen

/-- The global queue state `g_queue`. -/
structure Queue where
  buckets : Fin queueBuckets → List UserRing
  totalPending : Nat
  ringSize : Int
  shutdown : Bool
  rrBucket : Fin queueBuckets

/-- `QueueMsg`: what a successful `queue_pop` fills in (its `ingress_sec` left out, as in
`Slot`). -/
structure QueueMsg where
  userId : Int64
  chatId : Int64
  text : List UInt8
deriving DecidableEq

/-- `queue_init`: an empty table, the ring depth defaulting to 30. -/
def queueInit (ringSize : Int) : Queue where
  buckets := fun _ => []
  totalPending := 0
  ringSize := if ringSize > 0 then ringSize else 30
  shutdown := false
  rrBucket := ⟨0, by decide⟩

/-! ## `queue_push` -/

/-- `ring_get_or_create` on the chain of the sender's bucket: the chain itself when a ring of
`userId` is linked in it, else the chain with a new ring linked at its head. It fails when
`calloc` does (`allocOk = false`), and always for a capacity that overflowed to a negative
`int`, whose `size_t` conversion no allocation can satisfy. -/
def ringGetOrCreate (ringSize : Int) (chain : List UserRing) (userId : Int64) (allocOk : Bool) :
    Option (List UserRing) :=
  if chain.any (·.userId == userId) then some chain
  else if allocOk ∧ 0 < roundUpPow2 ringSize then
    some (UserRing.create userId (roundUpPow2 ringSize).toNat :: chain)
  else none

/-- The write half of `queue_push` on a chain: the first ring of `userId` takes the slot,
and refuses it when full. -/
def chainPush : List UserRing → Int64 → Slot → Option (List UserRing)
  | [], _, _ => none
  | r :: rs, u, s =>
    if r.userId = u then (r.push s).map (· :: rs) else (chainPush rs u s).map (r :: ·)

/-- **`queue_push`**: its return code and the queue after. A chain that `ring_get_or_create`
extended stays extended even when the push is then refused. -/
def queuePush (q : Queue) (userId chatId : Int64) (text : List UInt8) (allocOk : Bool) :
    Int × Queue :=
  let b := hashUser userId
  match ringGetOrCreate q.ringSize (q.buckets b) userId allocOk with
  | none => (-1, q)
  | some chain =>
    let q := { q with buckets := Function.update q.buckets b chain }
    match chainPush chain userId ⟨chatId, slotText text⟩ with
    | none => (-1, q)
    | some chain' =>
      (0, { q with buckets := Function.update q.buckets b chain',
                   totalPending := q.totalPending + 1 })

section PushFrame

variable (q : Queue) (u c : Int64) (t : List UInt8) (a : Bool)

@[simp] theorem shutdown_queuePush : (queuePush q u c t a).2.shutdown = q.shutdown := by
  unfold queuePush
  dsimp only
  split
  · rfl
  · split <;> rfl

@[simp] theorem ringSize_queuePush : (queuePush q u c t a).2.ringSize = q.ringSize := by
  unfold queuePush
  dsimp only
  split
  · rfl
  · split <;> rfl

/-- `queue_push` never moves the round-robin cursor. -/
@[simp] theorem rrBucket_queuePush : (queuePush q u c t a).2.rrBucket = q.rrBucket := by
  unfold queuePush
  dsimp only
  split
  · rfl
  · split <;> rfl

end PushFrame

/-! ## `queue_pop` -/

/-- The chain walk of `ring_pop_any` in one bucket: the first ring with `count > 0` gives up
its head slot, and is unlinked (and freed) when that empties it. -/
def chainPop : List UserRing → Option (Slot × Int64 × List UserRing)
  | [] => none
  | r :: rs =>
    if 0 < r.count then
      some (r.pop.1, r.userId, if r.pop.2.count = 0 then rs else r.pop.2 :: rs)
    else (chainPop rs).map fun (s, u, rs') => (s, u, r :: rs')

/-- **`ring_pop_any`**: buckets are walked from `rr_bucket` on, modulo 64; the first chain
that yields a slot is served, and the cursor moves to the bucket after it. -/
def ringPopAny (q : Queue) : Option (Slot × Int64 × Queue) :=
  (List.range queueBuckets).findSome? fun i =>
    let idx := bucketOf (q.rrBucket + i)
    (chainPop (q.buckets idx)).map fun (s, u, chain) =>
      (s, u, { q with buckets := Function.update q.buckets idx chain,
                      totalPending := q.totalPending - 1,
                      rrBucket := bucketOf (idx + 1) })

/-- **`queue_pop`**: `none` while the call blocks (nothing pending and no shutdown); else
`some (out, q')` with `out = some msg` when it returns 0 having filled in `msg`, and
`out = none` when it returns -1. -/
def queuePop (q : Queue) : Option (Option QueueMsg × Queue) :=
  if q.totalPending = 0 ∧ q.shutdown = false then none
  else if q.shutdown = true ∧ q.totalPending = 0 then some (none, q)
  else match ringPopAny q with
    | none => some (none, q)
    | some (s, u, q') => some (some ⟨u, s.chatId, slotText s.text⟩, q')

/-! ## The other calls -/

/-- `queue_shutdown`. -/
def queueShutdown (q : Queue) : Queue := { q with shutdown := true }

/-- `queue_depth`. -/
def queueDepth (q : Queue) : Nat := q.totalPending

/-- `queue_ring_count`: the rings linked in all chains. -/
def queueRingCount (q : Queue) : Nat := ∑ b, (q.buckets b).length

/-- `queue_destroy`: every ring freed, the table emptied. -/
def queueDestroy (q : Queue) : Queue := { q with buckets := fun _ => [], totalPending := 0 }

/-! ## Runs -/

/-- A call on the queue; `allocOk` is whether `calloc` succeeds if `queue_push` needs a
ring. -/
inductive QueueOp
  | push (userId chatId : Int64) (text : List UInt8) (allocOk : Bool)
  | pop
  | shutdown
  | depth
  | ringCount

/-- What a call returns. -/
inductive QueueRet
  | code (rc : Int)
  | popped (msg : QueueMsg)
  | ended
  | done
  | value (n : Nat)
deriving DecidableEq

/-- **One call, atomic under the queue mutex**; `none` when it cannot complete (a blocked
`queue_pop`). -/
def queueStep (q : Queue) : QueueOp → Option (QueueRet × Queue)
  | .push u c t a => some (.code (queuePush q u c t a).1, (queuePush q u c t a).2)
  | .pop => (queuePop q).map fun (out, q') => (out.elim .ended .popped, q')
  | .shutdown => some (.done, queueShutdown q)
  | .depth => some (.value (queueDepth q), q)
  | .ringCount => some (.value (queueRingCount q), q)

/-- The queue states a run reaches from `queue_init (ring_size)`, for a C `int` ring size. -/
inductive Queue.Reachable : Queue → Prop
  | init (ringSize : Int) (h : ringSize < 2 ^ 31) : Reachable (queueInit ringSize)
  | step {q q' : Queue} {op : QueueOp} {ret : QueueRet} :
      Queue.Reachable q → queueStep q op = some (ret, q') → Queue.Reachable q'

/-- A run: the calls `ops` complete one after another with the results `rets`. -/
inductive QueueRun : Queue → List QueueOp → List QueueRet → Queue → Prop
  | nil (q : Queue) : QueueRun q [] [] q
  | cons {q q₁ q' : Queue} {op : QueueOp} {ret : QueueRet} {ops : List QueueOp} {rets : List QueueRet} :
      queueStep q op = some (ret, q₁) → QueueRun q₁ ops rets q' →
      QueueRun q (op :: ops) (ret :: rets) q'

end Tgbot
