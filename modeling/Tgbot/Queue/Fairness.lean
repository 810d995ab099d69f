import Mathlib.Tactic.IntervalCases
import Tgbot.Queue.Invariant

/-!
# Round-robin fairness of `queue_pop`

`ring_pop_any` walks the 64 buckets from the cursor `rr_bucket`, serves the first non-empty one
and moves the cursor just past it; `queue_push` never moves the cursor. So after a pop of
bucket `b` the cursor has to sweep the whole table before it reaches `b` again, and every
bucket that stays non-empty lies on the way.

Runs are given as executions: states `s 0, s 1, …`, with call `k` taking `s k` to
`s (k + 1)`. Every call is atomic under the queue mutex, so this covers every interleaving of
producers and consumers.

## Main definitions

* `QueueRet.servedBucket`: the hash bucket of the sender a successful `queue_pop` returns

## Main results

* `queueStep_served`: a pop serves the first non-empty bucket at or after the cursor, and
  moves the cursor just past it
* `rrBucket_queueStep`: any other call leaves the cursor where it was
* `queue_pop_round_robin`: between two pops of one bucket, every other bucket that is
  non-empty at each pop in between is served
-/

namespace Tgbot

/-- The bucket a call served: the hash bucket of the sender a successful `queue_pop`
returns. -/
def QueueRet.servedBucket : QueueRet → Option (Fin queueBuckets)
  | .popped m => some (hashUser m.userId)
  | _ => none

@[simp] theorem servedBucket_popped (m : QueueMsg) :
    (QueueRet.popped m).servedBucket = some (hashUser m.userId) := rfl

/-! ## Distances from the cursor -/

theorem offset_injective (p : Fin queueBuckets) : Function.Injective (offset p) :=
  fun b b' h => by rw [← bucketOf_add_offset p b, h, bucketOf_add_offset]

/-- Moving the cursor just past `s` brings every bucket the walk reaches after `s` one step
nearer. -/
theorem offset_bucketOf_succ {p s x : Fin queueBuckets} (h : offset p s < offset p x) :
    offset (bucketOf (s + 1)) x = offset p x - offset p s - 1 := by
  simp only [offset, val_bucketOf, queueBuckets_eq] at h ⊢
  omega

/-- Just past `b`, the walk reaches every other bucket before `b`. -/
theorem offset_bucketOf_succ_lt {b c : Fin queueBuckets} (h : c ≠ b) :
    offset (bucketOf (b + 1)) c < offset (bucketOf (b + 1)) b := by
  have := Fin.val_ne_of_ne h
  simp only [offset, val_bucketOf, queueBuckets_eq]
  omega

/-! ## One call -/

section Step

variable {q q' : Queue} {op : QueueOp} {r : QueueRet} (h : q.Inv)
include h

/-- A call that serves no bucket leaves the cursor where it was. -/
theorem rrBucket_queueStep (hs : queueStep q op = some (r, q')) (hr : r.servedBucket = none) :
    q'.rrBucket = q.rrBucket := by
  cases op with
  | push u c t a =>
    obtain ⟨-, rfl⟩ := Prod.mk.inj (Option.some.inj hs)
    exact rrBucket_queuePush q u c t a
  | pop =>
    obtain ⟨⟨out, q₁⟩, hp, he⟩ := Option.map_eq_some'.1 hs
    obtain ⟨rfl, rfl⟩ := Prod.mk.inj he
    cases out with
    | none => rw [(queuePop_eq_ended h hp).1]
    | some m => cases hr
  | shutdown | depth | ringCount => obtain ⟨-, rfl⟩ := Prod.mk.inj (Option.some.inj hs); rfl

/-- **A pop serves the first non-empty bucket at or after the cursor**, and moves the cursor
just past it. -/
theorem queueStep_served {b : Fin queueBuckets} (hs : queueStep q op = some (r, q'))
    (hr : r.servedBucket = some b) :
    (∀ c, q.buckets c ≠ [] → offset q.rrBucket b ≤ offset q.rrBucket c) ∧
      q'.rrBucket = bucketOf (b + 1) := by
  cases op with
  | pop =>
    obtain ⟨⟨out, q₁⟩, hp, he⟩ := Option.map_eq_some'.1 hs
    obtain ⟨rfl, rfl⟩ := Prod.mk.inj he
    cases out with
    | none => cases hr
    | some m =>
      obtain ⟨_, hra, -⟩ := queuePop_eq_popped hp
      obtain ⟨i, hi, hj, r₀, rs, hb, -, hu, rfl⟩ := ringPopAny_eq_some h hra
      have hb' : b = bucketOf (q.rrBucket + i) := by
        rw [← Option.some.inj hr, hu]
        exact ((h.chain _).linked r₀ (hb ▸ List.mem_cons_self _ _)).hash_eq
      subst hb'
      refine ⟨fun c hc => ?_, rfl⟩
      rw [offset_bucketOf_add _ hi]
      by_contra hlt
      exact hc (by simpa using hj _ (not_le.1 hlt))
  | push | shutdown | depth | ringCount =>
    obtain ⟨rfl, -⟩ := Prod.mk.inj (Option.some.inj hs)
    cases hr

end Step

/-! ## Runs -/

section Run

variable {s : Nat → Queue} {ops : Nat → QueueOp} {rets : Nat → QueueRet} {n : Nat}

theorem reachable_of_run (h0 : (s 0).Reachable)
    (hrun : ∀ k < n, queueStep (s k) (ops k) = some (rets k, s (k + 1))) :
    ∀ k ≤ n, (s k).Reachable
  | 0, _ => h0
  | k + 1, hk => (reachable_of_run h0 hrun k (by omega)).step (hrun k (by omega))

/-- **Round-robin fairness.** If pops `i < j` both serve bucket `b`, every other bucket that is
non-empty before each successful pop `i + 1, …, j` is served by a pop strictly between them. -/
theorem queue_pop_round_robin (h0 : (s 0).Reachable)
    (hrun : ∀ k < n, queueStep (s k) (ops k) = some (rets k, s (k + 1)))
    {i j : Nat} {b c : Fin queueBuckets} (hij : i < j) (hjn : j < n)
    (hi : (rets i).servedBucket = some b) (hj : (rets j).servedBucket = some b) (hcb : c ≠ b)
    (hne : ∀ k, i < k → k ≤ j → (rets k).servedBucket.isSome → (s k).buckets c ≠ []) :
    ∃ k, i < k ∧ k < j ∧ (rets k).servedBucket = some c := by
  have inv : ∀ k ≤ n, (s k).Inv := fun k hk => (reachable_of_run h0 hrun k hk).inv
  by_contra hno
  push_neg at hno
  -- until a pop serves `c`, the cursor meets `c` before `b`
  have sweep : ∀ k, i + 1 ≤ k → k ≤ j →
      offset (s k).rrBucket c < offset (s k).rrBucket b := by
    intro k hk
    induction k, hk using Nat.le_induction with
    | base =>
      intro _
      rw [(queueStep_served (inv i (by omega)) (hrun i (by omega)) hi).2]
      exact offset_bucketOf_succ_lt hcb
    | succ k hk ih =>
      intro hkj
      have hs := hrun k (by omega)
      cases hr : (rets k).servedBucket with
      | none =>
        rw [rrBucket_queueStep (inv k (by omega)) hs hr]
        exact ih (by omega)
      | some x =>
        obtain ⟨hfirst, hcur⟩ := queueStep_served (inv k (by omega)) hs hr
        have hxc : offset (s k).rrBucket x < offset (s k).rrBucket c :=
          lt_of_le_of_ne (hfirst c (hne k (by omega) (by omega) (by simp [hr])))
            fun he => hno k (by omega) (by omega) (by rw [hr, offset_injective _ he])
        have hcb' := ih (by omega)
        rw [hcur, offset_bucketOf_succ hxc, offset_bucketOf_succ (hxc.trans hcb')]
        omega
  have hfirst := (queueStep_served (inv j (by omega)) (hrun j hjn) hj).1 c
    (hne j hij le_rfl (by simp [hj]))
  have := sweep j hij le_rfl
  omega

end Run

/-! ## A run -/

/-- The state a call leaves, or `q` itself when the call blocks. -/
def queueNext (q : Queue) (op : QueueOp) : Queue := ((queueStep q op).map Prod.snd).getD q

/-- The states of the calls `ops` made one after another from `q`: call `k` starts from
`runStates q ops k`. -/
def runStates (q : Queue) (ops : Nat → QueueOp) : Nat → Queue
  | 0 => q
  | k + 1 => queueNext (runStates q ops k) (ops k)

/-- What call `k` of `ops` returns. -/
def runRets (q : Queue) (ops : Nat → QueueOp) (k : Nat) : QueueRet :=
  ((queueStep (runStates q ops k) (ops k)).map Prod.fst).getD .done

theorem queueStep_runStates {q : Queue} {ops : Nat → QueueOp} {k : Nat}
    (hk : (queueStep (runStates q ops k) (ops k)).isSome) :
    queueStep (runStates q ops k) (ops k) = some (runRets q ops k, runStates q ops (k + 1)) := by
  obtain ⟨⟨r, q'⟩, he⟩ := Option.isSome_iff_exists.1 hk
  simp [runRets, runStates, queueNext, he]

/-- Senders 2 and 1, hashed to buckets 39 and 44, push two messages each; then three pops. -/
def roundRobinOps (k : Nat) : QueueOp :=
  [.push (Int64.ofInt 2) (Int64.ofInt 2) (bytes "a") true,
   .push (Int64.ofInt 2) (Int64.ofInt 2) (bytes "b") true,
   .push (Int64.ofInt 1) (Int64.ofInt 1) (bytes "c") true,
   .push (Int64.ofInt 1) (Int64.ofInt 1) (bytes "d") true,
   .pop, .pop, .pop].getD k .depth

set_option maxRecDepth 4000 in
/-- Sender 2's bucket is served by pops 4 and 6, and sender 1's, non-empty at both later pops,
by pop 5. -/
theorem queue_pop_round_robin_two_senders :
    (runStates (queueInit 30) roundRobinOps 0).Reachable ∧
    (∀ k < 7, queueStep (runStates (queueInit 30) roundRobinOps k) (roundRobinOps k) =
      some (runRets (queueInit 30) roundRobinOps k,
        runStates (queueInit 30) roundRobinOps (k + 1))) ∧
    4 < 6 ∧ 6 < 7 ∧
    (runRets (queueInit 30) roundRobinOps 4).servedBucket = some (hashUser (Int64.ofInt 2)) ∧
    (runRets (queueInit 30) roundRobinOps 6).servedBucket = some (hashUser (Int64.ofInt 2)) ∧
    hashUser (Int64.ofInt 1) ≠ hashUser (Int64.ofInt 2) ∧
    (∀ k, 4 < k → k ≤ 6 → (runRets (queueInit 30) roundRobinOps k).servedBucket.isSome →
      (runStates (queueInit 30) roundRobinOps k).buckets (hashUser (Int64.ofInt 1)) ≠ []) ∧
    ∃ k, 4 < k ∧ k < 6 ∧
      (runRets (queueInit 30) roundRobinOps k).servedBucket = some (hashUser (Int64.ofInt 1)) := by
  have h0 : (runStates (queueInit 30) roundRobinOps 0).Reachable := .init 30 (by decide)
  have hrun : ∀ k < 7, queueStep (runStates (queueInit 30) roundRobinOps k) (roundRobinOps k) =
      some (runRets (queueInit 30) roundRobinOps k,
        runStates (queueInit 30) roundRobinOps (k + 1)) := fun k hk =>
    queueStep_runStates (by interval_cases k <;> decide)
  have h4 : (runRets (queueInit 30) roundRobinOps 4).servedBucket =
      some (hashUser (Int64.ofInt 2)) := by decide
  have h6 : (runRets (queueInit 30) roundRobinOps 6).servedBucket =
      some (hashUser (Int64.ofInt 2)) := by decide
  have hcb : hashUser (Int64.ofInt 1) ≠ hashUser (Int64.ofInt 2) := by decide
  have hne : ∀ k, 4 < k → k ≤ 6 → (runRets (queueInit 30) roundRobinOps k).servedBucket.isSome →
      (runStates (queueInit 30) roundRobinOps k).buckets (hashUser (Int64.ofInt 1)) ≠ [] :=
    fun k hk hk' _ => List.ne_nil_of_length_pos (by interval_cases k <;> decide)
  exact ⟨h0, hrun, by decide, by decide, h4, h6, hcb, hne,
    queue_pop_round_robin h0 hrun (by decide) (by decide) h4 h6 hcb hne⟩

end Tgbot
