import Mathlib.Data.Int.Interval
import Tgbot.Queue.Invariant

/-!
# The queue refines a map of FIFO lists

Abstractly the queue is a map from each sender to the list of its pending `(chat_id, text)`
entries, oldest first: `queue_push` appends to the sender's list when it has room (and, for a
sender with nothing pending, when its ring can be allocated), a successful `queue_pop`
removes the head of some sender's list, `queue_pop` returns -1 only after `queue_shutdown`
with every list empty, `queue_depth` is the total length and `queue_ring_count` the number of
senders with something pending. This module states that machine (`AbsStep`) and proves that
every run of the code, from `queue_init`, is a run of it with the same results.

## Main definitions

* `AbsQueue`, `AbsStep`, `AbsRun`: the abstract queue and its runs
* `absQueue`: the abstraction function, from the rings to the lists of entries

## Main results

* `queueStep_refines`: one call of the code is one step of the abstract queue
* `queueRun_refines`: so is every run
* `queue_refines_fifo_map`: the runs from `queue_init (ring_size)`, for `ring_size ≤ 256`,
  with the capacity the least power of two at least `max ring_size 4`
-/

namespace Tgbot

/-! ## The abstract queue -/

/-- An entry of the abstract queue: a chat id and the text kept for it. -/
abbrev Entry := Int64 × List UInt8

/-- **The abstract queue**: each sender's pending entries, oldest first, and whether
`queue_shutdown` was called. -/
structure AbsQueue where
  pending : Int64 → List Entry
  shutdown : Bool

/-- The abstract queue after `queue_init`. -/
def AbsQueue.init : AbsQueue := ⟨fun _ => [], false⟩

/-- The text a push keeps: the first `min (strlen t) 1023` bytes of `t`. -/
def keptText (t : List UInt8) : List UInt8 := t.take (min (strlen t) 1023)

/-- **One call on the abstract queue** whose rings hold `cap` entries. -/
inductive AbsStep (cap : Nat) : AbsQueue → QueueOp → QueueRet → AbsQueue → Prop
  | push_ok {A : AbsQueue} {u c : Int64} {t : List UInt8} {a : Bool}
      (hlen : (A.pending u).length < cap) (halloc : A.pending u ≠ [] ∨ a = true) :
      AbsStep cap A (.push u c t a) (.code 0)
        { A with pending := Function.update A.pending u (A.pending u ++ [(c, keptText t)]) }
  | push_fail {A : AbsQueue} {u c : Int64} {t : List UInt8} {a : Bool}
      (h : ¬ ((A.pending u).length < cap ∧ (A.pending u ≠ [] ∨ a = true))) :
      AbsStep cap A (.push u c t a) (.code (-1)) A
  | pop {A : AbsQueue} {u c : Int64} {t : List UInt8} {rest : List Entry}
      (h : A.pending u = (c, t) :: rest) :
      AbsStep cap A .pop (.popped ⟨u, c, t⟩) { A with pending := Function.update A.pending u rest }
  | pop_ended {A : AbsQueue} (hs : A.shutdown = true) (he : ∀ u, A.pending u = []) :
      AbsStep cap A .pop .ended A
  | shutdown {A : AbsQueue} : AbsStep cap A .shutdown .done { A with shutdown := true }
  | depth {A : AbsQueue} : AbsStep cap A .depth (.value (∑ u, (A.pending u).length)) A
  | ringCount {A : AbsQueue} :
      AbsStep cap A .ringCount (.value (Finset.univ.filter fun u => A.pending u ≠ []).card) A

/-- Runs of the abstract queue. -/
inductive AbsRun (cap : Nat) : AbsQueue → List QueueOp → List QueueRet → AbsQueue → Prop
  | nil (A : AbsQueue) : AbsRun cap A [] [] A
  | cons {A A₁ A' : AbsQueue} {op : QueueOp} {ret : QueueRet} {ops : List QueueOp}
      {rets : List QueueRet} :
      AbsStep cap A op ret A₁ → AbsRun cap A₁ ops rets A' → AbsRun cap A (op :: ops) (ret :: rets) A'

/-- **The abstraction function**: each sender's pending slots, as entries. -/
def absQueue (q : Queue) : AbsQueue :=
  ⟨fun u => (pendingOf q u).map fun s => (s.chatId, slotText s.text), q.shutdown⟩

/-! ## Texts -/

theorem slotText_eq_keptText (t : List UInt8) : slotText t = keptText t := by
  simp only [slotText, keptText, textBuf]
  congr 1
  split <;> omega

theorem take_eq_take_cstr {t : List UInt8} {k : Nat} (hk : k ≤ strlen t) :
    t.take k = (cstr t).take k := by
  conv_lhs => rw [← List.takeWhile_append_dropWhile (fun x => decide (x ≠ 0)) t]
  exact List.take_append_of_le_length hk

/-- The text a slot keeps is a C string of at most 1023 bytes, so copying it out again with
`slotText` gives it back. -/
@[simp] theorem slotText_slotText (t : List UInt8) : slotText (slotText t) = slotText t := by
  have hk : min (strlen t) 1023 ≤ strlen t := Nat.min_le_left _ _
  have hnz : 0 ∉ keptText t := by
    rw [keptText, take_eq_take_cstr hk]
    exact zero_not_mem_take_cstr t _
  rw [slotText_eq_keptText, slotText_eq_keptText, keptText, strlen_eq_length hnz]
  exact List.take_of_length_le (by simp [keptText])

@[simp] theorem keptText_keptText (t : List UInt8) : keptText (keptText t) = keptText t := by
  rw [← slotText_eq_keptText, ← slotText_eq_keptText, slotText_slotText]

/-! ## Counting over senders -/

/-- Summing a per-ring quantity over the senders of a chain without duplicates. -/
theorem sum_chainFind {chain : List UserRing} (hnd : (chain.map UserRing.userId).Nodup)
    (S : Finset Int64) (hS : ∀ r ∈ chain, r.userId ∈ S) (g : UserRing → Nat) :
    ∑ u ∈ S, ((chainFind chain u).map g).getD 0 = (chain.map g).sum := by
  induction chain with
  | nil => simp
  | cons r rs ih =>
    have hnd' := List.nodup_cons.1 hnd
    have hpt : ∀ u, ((chainFind (r :: rs) u).map g).getD 0 =
        (if r.userId = u then g r else 0) + ((chainFind rs u).map g).getD 0 := fun u => by
      by_cases hu : r.userId = u
      · subst hu; simp [chainFind_cons, chainFind_eq_none_iff.2 hnd'.1]
      · simp [chainFind_cons, hu]
    simp only [Finset.sum_congr rfl fun u _ => hpt u, Finset.sum_add_distrib, Finset.sum_ite_eq,
      if_pos (hS r (List.mem_cons_self _ _)), List.map_cons, List.sum_cons,
      ih hnd'.2 fun r' hr' => hS r' (List.mem_cons_of_mem _ hr')]

/-- A per-ring quantity summed over every sender is its sum over the linked rings. -/
theorem Queue.Inv.sum_chainFind {q : Queue} (h : q.Inv) (g : UserRing → Nat) :
    ∑ u, ((chainFind (q.buckets (hashUser u)) u).map g).getD 0 =
      ∑ b, ((q.buckets b).map g).sum := by
  rw [← Finset.sum_fiberwise Finset.univ hashUser]
  refine Finset.sum_congr rfl fun b _ => ?_
  rw [Finset.sum_congr rfl fun u hu => by rw [(Finset.mem_filter.1 hu).2]]
  exact Tgbot.sum_chainFind (h.chain b).nodup _
    (fun r hr => Finset.mem_filter.2 ⟨Finset.mem_univ _, ((h.chain b).linked r hr).hash_eq⟩) g

theorem length_pendingOf (q : Queue) (u : Int64) :
    (pendingOf q u).length =
      ((chainFind (q.buckets (hashUser u)) u).map UserRing.count).getD 0 := by
  cases hf : chainFind (q.buckets (hashUser u)) u <;> simp [pendingOf, chainContents, hf]

/-- `total_pending` is the number of pending slots over all senders. -/
theorem Queue.Inv.totalPending_eq {q : Queue} (h : q.Inv) :
    q.totalPending = ∑ u, (pendingOf q u).length := by
  simp only [length_pendingOf, h.sum_chainFind, h.total_eq]

/-- `queue_ring_count` is the number of senders with a pending slot. -/
theorem Queue.Inv.ringCount_eq {q : Queue} (h : q.Inv) :
    queueRingCount q = (Finset.univ.filter fun u => pendingOf q u ≠ []).card := by
  have hpt : ∀ u, (if pendingOf q u ≠ [] then 1 else 0) =
      ((chainFind (q.buckets (hashUser u)) u).map fun _ => 1).getD 0 := fun u => by
    have := (h.chain (hashUser u)).isSome_chainFind_iff u
    cases hf : chainFind (q.buckets (hashUser u)) u <;> simp_all [pendingOf]
  rw [Finset.card_filter, Finset.sum_congr rfl fun u _ => hpt u, h.sum_chainFind, queueRingCount]
  simp

/-! ## Refinement -/

theorem ringSize_queuePop {q q' : Queue} {out : Option QueueMsg} (h : q.Inv)
    (hp : queuePop q = some (out, q')) : q'.ringSize = q.ringSize ∧ q'.shutdown = q.shutdown := by
  cases out with
  | none => rw [(queuePop_eq_ended h hp).1]; exact ⟨rfl, rfl⟩
  | some m =>
    obtain ⟨s, hs, -⟩ := queuePop_eq_popped hp
    obtain ⟨i, -, -, r, rs, -, -, -, rfl⟩ := ringPopAny_eq_some h hs
    exact ⟨rfl, rfl⟩

theorem ringSize_queueStep {q q' : Queue} (h : q.Inv) {op : QueueOp} {ret : QueueRet}
    (hs : queueStep q op = some (ret, q')) : q'.ringSize = q.ringSize := by
  cases op with
  | pop =>
    obtain ⟨⟨out, q₁⟩, hp, heq⟩ := Option.map_eq_some'.1 hs
    obtain ⟨-, rfl⟩ := Prod.mk.inj heq
    exact (ringSize_queuePop h hp).1
  | push | shutdown | depth | ringCount =>
    obtain ⟨-, rfl⟩ := Prod.mk.inj (Option.some.inj hs)
    simp [queueShutdown]

theorem absQueue_eq {q : Queue} {A : AbsQueue} (hp : ∀ u, (absQueue q).pending u = A.pending u)
    (hs : q.shutdown = A.shutdown) : absQueue q = A := by
  cases A
  simp only [absQueue, AbsQueue.mk.injEq] at hp hs ⊢
  exact ⟨funext hp, hs⟩

theorem pending_absQueue (q : Queue) (u : Int64) :
    (absQueue q).pending u = (pendingOf q u).map fun s => (s.chatId, slotText s.text) := rfl

/-- **One call of the code is one step of the abstract queue**, from any state that has the
invariant. -/
theorem queueStep_refines {q q' : Queue} (h : q.Inv) {op : QueueOp} {ret : QueueRet}
    (hs : queueStep q op = some (ret, q')) :
    AbsStep (roundUpPow2 q.ringSize).toNat (absQueue q) op ret (absQueue q') := by
  cases op with
  | push u c t a =>
    obtain ⟨rfl, rfl⟩ := Prod.mk.inj (Option.some.inj hs)
    have hp := pendingOf_push h u c t a
    split_ifs at hp with hok
    · obtain ⟨hrc, hv⟩ := hp
      have heq : absQueue (queuePush q u c t a).2 =
          ⟨Function.update (absQueue q).pending u ((absQueue q).pending u ++ [(c, keptText t)]),
            q.shutdown⟩ :=
        absQueue_eq (fun v => by
          by_cases hvu : v = u
          · subst hvu; simp [pending_absQueue, hv, slotText_eq_keptText]
          · simp [pending_absQueue, hv, hvu]) (by simp [absQueue])
      rw [hrc, heq]
      exact .push_ok (by simpa [pending_absQueue] using hok.1)
        (by simpa [pending_absQueue] using hok.2)
    · rw [hp]
      exact .push_fail (by simpa [pending_absQueue] using hok)
  | pop =>
    obtain ⟨⟨out, q₁⟩, hp, heq⟩ := Option.map_eq_some'.1 hs
    obtain ⟨rfl, rfl⟩ := Prod.mk.inj heq
    cases out with
    | none =>
      obtain ⟨rfl, hsd, hz⟩ := queuePop_eq_ended h hp
      refine .pop_ended hsd fun u => ?_
      have hsum := h.totalPending_eq
      rw [hz, eq_comm, Finset.sum_eq_zero_iff] at hsum
      simp [pending_absQueue, List.length_eq_zero.1 (hsum u (Finset.mem_univ u))]
    | some m =>
      obtain ⟨s, rest, hm, hc, ht, hv⟩ := pendingOf_pop h hp
      have heq : absQueue q₁ = ⟨Function.update (absQueue q).pending m.userId
          (rest.map fun s => (s.chatId, slotText s.text)), q.shutdown⟩ :=
        absQueue_eq (fun v => by
          by_cases hvu : v = m.userId
          · subst hvu; simp [pending_absQueue, hv]
          · simp [pending_absQueue, hv, hvu]) (ringSize_queuePop h hp).2
      rw [heq]
      obtain ⟨u, c, t⟩ := m
      simp only at hc ht
      subst hc ht
      exact .pop (by simp [pending_absQueue, hm])
  | shutdown =>
    obtain ⟨rfl, rfl⟩ := Prod.mk.inj (Option.some.inj hs)
    have : absQueue (queueShutdown q) = { absQueue q with shutdown := true } :=
      absQueue_eq (fun _ => rfl) rfl
    rw [this]
    exact .shutdown
  | depth =>
    obtain ⟨rfl, rfl⟩ := Prod.mk.inj (Option.some.inj hs)
    have : queueDepth q = ∑ u, ((absQueue q).pending u).length := by
      simp [queueDepth, pending_absQueue, h.totalPending_eq]
    rw [this]
    exact .depth
  | ringCount =>
    obtain ⟨rfl, rfl⟩ := Prod.mk.inj (Option.some.inj hs)
    have : queueRingCount q = (Finset.univ.filter fun u => (absQueue q).pending u ≠ []).card := by
      simp [pending_absQueue, h.ringCount_eq]
    rw [this]
    exact .ringCount

/-- **Every run of the code is a run of the abstract queue** with the same results. -/
theorem queueRun_refines {q q' : Queue} (h : q.Inv) {ops : List QueueOp} {rets : List QueueRet}
    (hr : QueueRun q ops rets q') :
    AbsRun (roundUpPow2 q.ringSize).toNat (absQueue q) ops rets (absQueue q') := by
  induction hr with
  | nil q => exact .nil _
  | cons hs _ ih =>
    exact .cons (queueStep_refines h hs) (ringSize_queueStep h hs ▸ ih (h.step hs))

theorem IsLeastPow2Ge.unique {n p p' : Nat} (h : IsLeastPow2Ge n p) (h' : IsLeastPow2Ge n p') :
    p = p' := by
  obtain ⟨⟨k, rfl⟩, hn, hle⟩ := h
  obtain ⟨⟨k', rfl⟩, hn', hle'⟩ := h'
  exact le_antisymm (hle k' hn') (hle' k hn)

/-- The ring capacity of a queue initialised with `ring_size ≤ 256`: the least power of two at
least `max r 4`, where `r` is `ring_size`, or 30 when `ring_size ≤ 0`. -/
theorem cap_queueInit {ringSize : Int} (hr : ringSize ≤ 256) {cap : Nat}
    (hcap : IsLeastPow2Ge (max (if 0 < ringSize then ringSize else 30) 4).toNat cap) :
    (roundUpPow2 (queueInit ringSize).ringSize).toNat = cap := by
  have hv : (queueInit ringSize).ringSize = if 0 < ringSize then ringSize else 30 := rfl
  obtain ⟨p, hp, heq⟩ := roundUpPow2_spec (v := (queueInit ringSize).ringSize)
    (by rw [hv]; split <;> omega)
  rw [hv] at hp heq
  have hpc := hp.unique hcap
  subst hpc
  have hle : p ≤ 2 ^ 9 := hp.2.2 9 (by split <;> omega)
  rw [hv, heq, toInt32, if_pos (by omega)]
  simp

/-- **The queue refines a map of FIFO lists.** Every run of `queue_push`, `queue_pop`,
`queue_shutdown`, `queue_depth` and `queue_ring_count` calls from `queue_init (ring_size)`,
with `ring_size ≤ 256`, is a run of the abstract queue with the same results, whose rings hold
the least power of two at least `max r 4` entries (`r` being `ring_size`, or 30 when
`ring_size ≤ 0`). -/
theorem queue_refines_fifo_map {ringSize : Int} (hr : ringSize ≤ 256) {cap : Nat}
    (hcap : IsLeastPow2Ge (max (if 0 < ringSize then ringSize else 30) 4).toNat cap)
    {ops : List QueueOp} {rets : List QueueRet} {q : Queue}
    (hrun : QueueRun (queueInit ringSize) ops rets q) :
    AbsRun cap AbsQueue.init ops rets (absQueue q) := by
  have h := Queue.Inv.queueInit (r := ringSize) (by omega)
  have hA : absQueue (queueInit ringSize) = AbsQueue.init :=
    absQueue_eq (fun u => by simp [pending_absQueue, pendingOf, chainContents, queueInit,
      AbsQueue.init]) rfl
  rw [← cap_queueInit hr hcap, ← hA]
  exact queueRun_refines h hrun

/-- A sender's first message, `queue_depth`, a pop, `queue_shutdown` and a pop that reports
the end, from `queue_init (8)`. -/
theorem queue_refines_fifo_map_push_pop_shutdown :
    let q₁ := (queuePush (queueInit 8) (Int64.ofInt 42) (Int64.ofInt 7) (bytes "hi") true).2
    let q₂ := ((queuePop q₁).map Prod.snd).getD q₁
    let ops : List QueueOp := [.push (Int64.ofInt 42) (Int64.ofInt 7) (bytes "hi") true, .depth,
      .pop, .shutdown, .pop]
    let rets : List QueueRet := [.code 0, .value 1,
      .popped ⟨Int64.ofInt 42, Int64.ofInt 7, bytes "hi"⟩, .done, .ended]
    (8 : Int) ≤ 256 ∧ IsLeastPow2Ge (max (if 0 < (8 : Int) then (8 : Int) else 30) 4).toNat 8 ∧
    QueueRun (queueInit 8) ops rets (queueShutdown q₂) ∧
    AbsRun 8 AbsQueue.init ops rets (absQueue (queueShutdown q₂)) := by
  intro q₁ q₂ ops rets
  have hcap : IsLeastPow2Ge (max (if 0 < (8 : Int) then (8 : Int) else 30) 4).toNat 8 :=
    ⟨⟨3, rfl⟩, by decide, fun _ hk => by simpa using hk⟩
  have h₁ : queueStep (queueInit 8) (.push (Int64.ofInt 42) (Int64.ofInt 7) (bytes "hi") true) =
      some (.code 0, q₁) := by
    rw [queueStep, show (queuePush (queueInit 8) (Int64.ofInt 42) (Int64.ofInt 7) (bytes "hi")
      true).1 = 0 by decide]
  have h₂ : queueStep q₁ .depth = some (.value 1, q₁) := by
    rw [queueStep, show queueDepth q₁ = 1 by decide]
  have hpop : (queuePop q₁).map (fun p => (p.1, p.2.totalPending)) =
      some (some ⟨Int64.ofInt 42, Int64.ofInt 7, bytes "hi"⟩, 0) := by decide
  obtain ⟨r, hr, hr'⟩ := Option.map_eq_some'.1 hpop
  obtain ⟨hr₁, hr₂⟩ := Prod.mk.inj hr'
  have hq₂ : q₂ = r.2 := by simp [q₂, hr]
  have h₃ : queueStep q₁ .pop = some (.popped ⟨Int64.ofInt 42, Int64.ofInt 7, bytes "hi"⟩, q₂) := by
    simp [queueStep, hr, hr₁, hq₂]
  have h₅ : queueStep (queueShutdown q₂) .pop = some (.ended, queueShutdown q₂) := by
    simp [queueStep, queuePop, queueShutdown, hq₂, hr₂]
  have hrun : QueueRun (queueInit 8) ops rets (queueShutdown q₂) :=
    .cons h₁ (.cons h₂ (.cons h₃ (.cons rfl (.cons h₅ (.nil _)))))
  exact ⟨by decide, hcap, hrun, queue_refines_fifo_map (by decide) hcap hrun⟩

end Tgbot
