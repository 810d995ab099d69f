import Tgbot.Queue.Refinement

/-!
# What the queue delivers

Each message `queue_push` accepts is handed to exactly one `queue_pop`, in the order its
sender's messages were accepted, and no other message is ever handed out. Per sender: the
entries a run's pops return, followed by those still pending, are the entries of the pushes it
accepted. This is stated first for the abstract queue of `Tgbot.Queue.Refinement`, one step at
a time, and then for every run of the code from `queue_init`, through the refinement.

## Main definitions

* `QueueOp.accepted u op ret`: the entry a call adds to sender `u`'s list
* `QueueRet.poppedFor u ret`: the entry a call hands a worker from `u`'s list
* `acceptedFor`, `poppedFor`: the same over a run

## Main results

* `AbsRun.pending_append_accepted`: the abstract queue loses and duplicates nothing
* `queue_delivers_accepted_pushes`: nor does the code, from `queue_init`
* `queue_drains_after_shutdown`: after `queue_shutdown` no pop blocks, the pending messages
  are handed out, and then every pop reports the end
-/

namespace Tgbot

/-- The entry a call adds to sender `u`'s list: that of a push for `u` it accepted. -/
def QueueOp.accepted (u : Int64) : QueueOp → QueueRet → List Entry
  | .push u' c t _, .code 0 => if u' = u then [(c, keptText t)] else []
  | _, _ => []

/-- The entry a call hands a worker from sender `u`'s list. -/
def QueueRet.poppedFor (u : Int64) : QueueRet → List Entry
  | .popped m => if m.userId = u then [(m.chatId, m.text)] else []
  | _ => []

/-- The entries of the pushes a run accepted for sender `u`, in order. -/
def acceptedFor (u : Int64) : List QueueOp → List QueueRet → List Entry
  | op :: ops, ret :: rets => op.accepted u ret ++ acceptedFor u ops rets
  | _, _ => []

/-- The entries a run's pops handed out from sender `u`'s list, in order. -/
def poppedFor (u : Int64) (rets : List QueueRet) : List Entry := rets.flatMap (·.poppedFor u)

/-! ## The abstract queue -/

section Abstract

variable {cap : Nat} {A A' : AbsQueue} {op : QueueOp} {ret : QueueRet}

/-- **One step loses and duplicates nothing**: a sender's list before it, with the entry the
step accepted for the sender, is the entry it handed out, then the list after it. -/
theorem AbsStep.pending_append_accepted (h : AbsStep cap A op ret A') (u : Int64) :
    A.pending u ++ op.accepted u ret = ret.poppedFor u ++ A'.pending u := by
  cases h with
  | @push_ok u' c t =>
    by_cases hu : u' = u
    · subst hu; simp [QueueOp.accepted, QueueRet.poppedFor]
    · simp [QueueOp.accepted, QueueRet.poppedFor, hu, Function.update_noteq (Ne.symm hu)]
  | push_fail => simp [QueueOp.accepted, QueueRet.poppedFor]
  | @pop u' c t rest hp =>
    by_cases hu : u' = u
    · subst hu; simp [QueueOp.accepted, QueueRet.poppedFor, hp]
    · simp [QueueOp.accepted, QueueRet.poppedFor, hu, Function.update_noteq (Ne.symm hu)]
  | pop_ended | shutdown | depth | ringCount => simp [QueueOp.accepted, QueueRet.poppedFor]

/-- **A run loses and duplicates nothing**: a sender's list before it, with the entries the
run accepted for the sender, are the entries it handed out, then the list after it. -/
theorem AbsRun.pending_append_accepted {ops : List QueueOp} {rets : List QueueRet}
    (h : AbsRun cap A ops rets A') (u : Int64) :
    A.pending u ++ acceptedFor u ops rets = poppedFor u rets ++ A'.pending u := by
  induction h with
  | nil => simp [acceptedFor, poppedFor]
  | cons hs _ ih =>
    rw [acceptedFor, ← List.append_assoc, hs.pending_append_accepted u, List.append_assoc, ih]
    simp only [poppedFor, List.flatMap_cons, List.append_assoc]

end Abstract

/-! ## The code -/

theorem absQueue_queueInit (ringSize : Int) : absQueue (queueInit ringSize) = AbsQueue.init :=
  absQueue_eq (fun u => by
    simp [pending_absQueue, pendingOf, chainContents, queueInit, AbsQueue.init]) rfl

/-- **The queue hands out each accepted message exactly once, in order**: for every C `int`
ring size and every run of `queue_push`, `queue_pop`, `queue_shutdown`, `queue_depth` and
`queue_ring_count` calls from `queue_init`, each sender's messages the pops returned, followed
by those still in its ring, are the messages of the pushes for that sender that returned 0,
in the order they were pushed, each text cut as `queue_push` keeps it. -/
theorem queue_delivers_accepted_pushes {ringSize : Int} (hr : ringSize < 2 ^ 31)
    {ops : List QueueOp} {rets : List QueueRet} {q : Queue}
    (hrun : QueueRun (queueInit ringSize) ops rets q) (u : Int64) :
    acceptedFor u ops rets =
      poppedFor u rets ++ (pendingOf q u).map fun s => (s.chatId, slotText s.text) := by
  have habs := queueRun_refines (Queue.Inv.queueInit hr) hrun
  rw [absQueue_queueInit] at habs
  simpa [AbsQueue.init, pending_absQueue] using habs.pending_append_accepted u

/-- A message pushed and then popped, from `queue_init (8)`: handed out once, none left. -/
theorem queue_delivers_push_then_pop :
    let q₁ := (queuePush (queueInit 8) (Int64.ofInt 42) (Int64.ofInt 7) (bytes "hi") true).2
    let q₂ := ((queuePop q₁).map Prod.snd).getD q₁
    (8 : Int) < 2 ^ 31 ∧
      QueueRun (queueInit 8) [.push (Int64.ofInt 42) (Int64.ofInt 7) (bytes "hi") true, .pop]
        [.code 0, .popped ⟨Int64.ofInt 42, Int64.ofInt 7, bytes "hi"⟩] q₂ ∧
      acceptedFor (Int64.ofInt 42) [.push (Int64.ofInt 42) (Int64.ofInt 7) (bytes "hi") true, .pop]
          [.code 0, .popped ⟨Int64.ofInt 42, Int64.ofInt 7, bytes "hi"⟩] =
        poppedFor (Int64.ofInt 42) [.code 0, .popped ⟨Int64.ofInt 42, Int64.ofInt 7, bytes "hi"⟩] ++
          (pendingOf q₂ (Int64.ofInt 42)).map fun s => (s.chatId, slotText s.text) := by
  intro q₁ q₂
  have h₁ : queueStep (queueInit 8) (.push (Int64.ofInt 42) (Int64.ofInt 7) (bytes "hi") true) =
      some (.code 0, q₁) := by
    rw [queueStep, show (queuePush (queueInit 8) (Int64.ofInt 42) (Int64.ofInt 7) (bytes "hi")
      true).1 = 0 by decide]
  have hpop : (queuePop q₁).map Prod.fst =
      some (some ⟨Int64.ofInt 42, Int64.ofInt 7, bytes "hi"⟩) := by decide
  have h₂ : queueStep q₁ .pop = some (.popped ⟨Int64.ofInt 42, Int64.ofInt 7, bytes "hi"⟩, q₂) := by
    cases h : queuePop q₁ with
    | none => simp [h] at hpop
    | some r =>
      simp only [h, Option.map_some', Option.some.injEq] at hpop
      simp [queueStep, h, hpop, q₂]
  have hrun := QueueRun.cons h₁ (.cons h₂ (.nil _))
  exact ⟨by decide, hrun, queue_delivers_accepted_pushes (by decide) hrun _⟩

/-! ## Shutdown -/

/-- **A pop after `queue_shutdown` never blocks**: while a message is pending it hands one out,
leaving one fewer, and once none is it reports the end and changes nothing. -/
theorem queueStep_pop_of_shutdown {q : Queue} (h : q.Inv) (hs : q.shutdown = true) :
    ∃ ret q', queueStep q .pop = some (ret, q') ∧ q'.Inv ∧ q'.shutdown = true ∧
      (q.totalPending = 0 ∧ ret = .ended ∧ q' = q ∨
        0 < q.totalPending ∧ (∃ m, ret = .popped m) ∧ q'.totalPending = q.totalPending - 1) := by
  by_cases h0 : q.totalPending = 0
  · exact ⟨.ended, q, by simp [queueStep, queuePop, h0, hs], h, hs, .inl ⟨h0, rfl, rfl⟩⟩
  obtain ⟨⟨s, u, q'⟩, hp⟩ := Option.isSome_iff_exists.1 (ringPopAny_isSome h (Nat.pos_of_ne_zero h0))
  obtain ⟨i, -, -, r, rs, -, -, -, hq'⟩ := ringPopAny_eq_some h hp
  refine ⟨.popped ⟨u, s.chatId, slotText s.text⟩, q', ?_, h.ringPopAny hp, by rw [hq']; exact hs,
    .inr ⟨Nat.pos_of_ne_zero h0, ⟨_, rfl⟩, by rw [hq']⟩⟩
  simp [queueStep, queuePop, h0, hs, hp]

/-- A run of pops after `queue_shutdown`, from any state with the invariant: it exists, as no
pop blocks; its first `total_pending` pops hand out messages and the rest report the end. -/
theorem queueRun_pops_of_shutdown : ∀ (n : Nat) {q : Queue}, q.Inv → q.shutdown = true →
    ∃ rets q', QueueRun q (List.replicate n .pop) rets q' ∧
      (∀ ret ∈ rets.take q.totalPending, ∃ m, ret = .popped m) ∧
      (∀ ret ∈ rets.drop q.totalPending, ret = .ended) ∧ q'.totalPending = q.totalPending - n
  | 0, q, _, _ => ⟨[], q, .nil q, fun _ h => absurd h (by simp), fun _ h => absurd h (by simp), rfl⟩
  | n + 1, q, h, hs => by
    obtain ⟨ret, q₁, hstep, h₁, hs₁, hcase⟩ := queueStep_pop_of_shutdown h hs
    obtain ⟨rets, q', hrun, hpop, hend, htot⟩ := queueRun_pops_of_shutdown n h₁ hs₁
    refine ⟨ret :: rets, q', .cons hstep hrun, ?_⟩
    rcases hcase with ⟨h0, rfl, rfl⟩ | ⟨hpos, hm, hdec⟩
    · rw [h0] at hpop hend htot ⊢
      refine ⟨fun _ h => absurd h (by simp), fun r hr => ?_, by omega⟩
      rcases List.mem_cons.1 (by simpa using hr) with rfl | hr
      · rfl
      · exact hend r (by simpa using hr)
    · obtain ⟨k, hk⟩ : ∃ k, q.totalPending = k + 1 := ⟨_, (Nat.succ_pred_eq_of_pos hpos).symm⟩
      rw [hk, Nat.add_sub_cancel] at hdec
      rw [hdec] at hpop hend htot
      rw [hk, List.take_succ_cons, List.drop_succ_cons]
      refine ⟨fun r hr => ?_, hend, by omega⟩
      rcases List.mem_cons.1 hr with rfl | hr
      · exact hm
      · exact hpop r hr

/-- Pops accept no push. -/
theorem acceptedFor_pops (u : Int64) : ∀ (n : Nat) (rets : List QueueRet),
    acceptedFor u (List.replicate n .pop) rets = []
  | 0, _ => by simp [acceptedFor]
  | _ + 1, [] => rfl
  | n + 1, _ :: rets => by
    simp only [List.replicate_succ, acceptedFor, QueueOp.accepted, List.nil_append]
    exact acceptedFor_pops u n rets

/-- **The workers drain the queue after `queue_shutdown`, losing nothing**: from every state a
run from `queue_init` reaches, after `queue_shutdown`, any number `n` of pops, by any workers in
any order, never blocks. The first `queue_depth` of them hand out messages and every later one
reports the end, so each worker's loop exits; `queue_depth` falls by one a pop, to 0. Per
sender, the messages handed out, followed by those still pending, are the messages that were
pending, in order. -/
theorem queue_drains_after_shutdown {q : Queue} (hq : q.Reachable) (n : Nat) :
    ∃ rets q', QueueRun (queueShutdown q) (List.replicate n .pop) rets q' ∧
      (∀ ret ∈ rets.take (queueDepth q), ∃ m, ret = .popped m) ∧
      (∀ ret ∈ rets.drop (queueDepth q), ret = .ended) ∧
      queueDepth q' = queueDepth q - n ∧
      ∀ u, poppedFor u rets ++ (absQueue q').pending u = (absQueue q).pending u := by
  have h : (queueShutdown q).Inv :=
    hq.inv.step (show queueStep q .shutdown = some (.done, queueShutdown q) from rfl)
  obtain ⟨rets, q', hrun, hpop, hend, htot⟩ := queueRun_pops_of_shutdown n h rfl
  refine ⟨rets, q', hrun, hpop, hend, htot, fun u => ?_⟩
  have habs := (queueRun_refines h hrun).pending_append_accepted u
  rw [acceptedFor_pops, List.append_nil] at habs
  exact habs.symm

/-- A message pushed on `queue_init (8)`, then shutdown and two pops: the message, then the
end. -/
theorem queue_drains_push_then_shutdown :
    let q := (queuePush (queueInit 8) (Int64.ofInt 42) (Int64.ofInt 7) (bytes "hi") true).2
    q.Reachable ∧
      ∃ rets q', QueueRun (queueShutdown q) (List.replicate 2 .pop) rets q' ∧
        (∀ ret ∈ rets.take (queueDepth q), ∃ m, ret = .popped m) ∧
        (∀ ret ∈ rets.drop (queueDepth q), ret = .ended) ∧
        queueDepth q' = queueDepth q - 2 ∧
        ∀ u, poppedFor u rets ++ (absQueue q').pending u = (absQueue q).pending u := by
  intro q
  have hq : q.Reachable := .step (.init 8 (by decide))
    (show queueStep (queueInit 8) (.push (Int64.ofInt 42) (Int64.ofInt 7) (bytes "hi") true) =
      some (_, q) from rfl)
  exact ⟨hq, queue_drains_after_shutdown hq 2⟩

end Tgbot
