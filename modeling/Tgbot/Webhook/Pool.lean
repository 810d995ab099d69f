import Mathlib.Data.List.Nodup
import Tgbot.Webhook

/-!
# The webhook's buffer pool

`on_request` takes a `PostBody` from `pb_acquire` in the first call of a request and gives it
back with `pb_release` in the final call. `pb_acquire` pops an index off `free_stack`, or
falls back to a buffer from `calloc` when the stack is empty; `pb_release` pushes the index of
a pool slot back, and frees a heap buffer.

libmicrohttpd runs the requests of many connections at once, and every pool operation holds
the pool's mutex, so a run is a sequence of calls of different requests, in any interleaving.
A client can also go away in the middle of a request. libmicrohttpd then calls no handler of
this code for it again: `webhook_start` registers no request-completed callback, so the buffer
the request holds is never given back.

The buffer's contents are modelled in `Tgbot.Webhook`; here only who holds which buffer
matters. Events out of a request's order (an upload before the first call, a call after the
request ended) change nothing: libmicrohttpd makes none.

## Main definitions

* `pbPoolInit`, `pbAcquire`, `pbRelease`: the pool
* `PoolEvent`, `poolStep`, `poolRun`: the calls of `on_request` and the disconnects, in any
  interleaving
* `PoolInv`: what every run keeps

## Main results

* `PoolInv.poolRun`: over every interleaving, the free stack holds distinct indices of the
  pool, a slot is off it exactly when a request's `*req_cls` holds it, and no slot is held
  twice
* `poolRun_no_disconnect`: when no client disconnects, a slot off the stack is held by a
  request still in progress, and no finished request holds a buffer
* `pool_slot_lost_on_disconnect`: one disconnect loses a pool slot, and another a heap buffer,
  for every run that follows
-/

namespace Tgbot

/-- `PB_POOL_MAX`. -/
def pbPoolMax : Nat := 64

/-- A buffer `pb_acquire` hands out: the slot `g_pb_pool.pool[i]`, or the buffer `calloc`
gave request `r`. -/
inductive PbBuf
  | slot (i : Nat)
  | heap (r : Nat)
deriving DecidableEq

/-- `g_pb_pool`: `free_stack[0..free_top)`, top first, and `pool_size`. -/
structure PbPool where
  freeStack : List Nat
  poolSize : Nat

/-- **`pb_pool_init`**: the size clamped to `PB_POOL_MAX`, a size below 1 taken as 8, and
every slot free, `free_stack[i] = i`. -/
def pbPoolInit (poolSize : Int) : PbPool :=
  let n := if poolSize < 1 then 8 else min poolSize.toNat pbPoolMax
  ⟨(List.range n).reverse, n⟩

/-- **`pb_acquire`** for request `r`: the slot on top of the free stack; with the stack empty,
a heap buffer when `calloc` succeeds (`callocOk`), else `NULL`. -/
def pbAcquire (p : PbPool) (r : Nat) (callocOk : Bool) : Option PbBuf × PbPool :=
  match p.freeStack with
  | i :: rest => (some (.slot i), { p with freeStack := rest })
  | [] => (if callocOk then some (.heap r) else none, p)

/-- **`pb_release`**: a buffer among the pool's first `pool_size` slots goes back on the
stack; any other is freed. -/
def pbRelease (p : PbPool) : PbBuf → PbPool
  | .slot i => if i < p.poolSize then { p with freeStack := i :: p.freeStack } else p
  | .heap _ => p

/-- The pool, and what libmicrohttpd keeps for each request: its `*req_cls`, and whether it
will call `on_request` for it again. -/
structure PoolState where
  pool : PbPool
  reqCls : Nat → Option PbBuf
  ended : Nat → Bool

/-- The state `webhook_start` leaves: no request yet. -/
def PoolState.init (poolSize : Int) : PoolState :=
  ⟨pbPoolInit poolSize, fun _ => none, fun _ => false⟩

/-- What happens to a request. -/
inductive PoolEvent
  /-- The first call of `on_request`, `*req_cls == NULL`; `callocOk` is whether a heap
  fallback's `calloc` succeeds. -/
  | first (r : Nat) (callocOk : Bool)
  /-- An upload call. -/
  | upload (r : Nat)
  /-- The final call. -/
  | final (r : Nat)
  /-- The client goes away: no handler of this code runs for the request again. -/
  | disconnect (r : Nat)

/-- **One event.** A first call stores the buffer `pb_acquire` gives in `*req_cls`, or ends
the request with `MHD_NO` on `NULL`; the final call releases it and clears `*req_cls`; a
disconnect only ends the request. -/
def poolStep (s : PoolState) : PoolEvent → PoolState
  | .first r ok =>
    if s.ended r || (s.reqCls r).isSome then s
    else
      match pbAcquire s.pool r ok with
      | (some b, p) => { s with pool := p, reqCls := Function.update s.reqCls r (some b) }
      | (none, p) => { s with pool := p, ended := Function.update s.ended r true }
  | .upload _ => s
  | .final r =>
    if s.ended r then s
    else
      match s.reqCls r with
      | some b =>
        ⟨pbRelease s.pool b, Function.update s.reqCls r none, Function.update s.ended r true⟩
      | none => s
  | .disconnect r => { s with ended := Function.update s.ended r true }

/-- The state after the events `evs`, in their order. -/
def poolRun (s : PoolState) (evs : List PoolEvent) : PoolState := evs.foldl poolStep s

@[simp] theorem poolRun_nil (s : PoolState) : poolRun s [] = s := rfl

@[simp] theorem poolRun_cons (s : PoolState) (e : PoolEvent) (evs : List PoolEvent) :
    poolRun s (e :: evs) = poolRun (poolStep s e) evs := rfl

theorem poolRun_append (s : PoolState) (evs evs' : List PoolEvent) :
    poolRun s (evs ++ evs') = poolRun (poolRun s evs) evs' :=
  List.foldl_append _ _ _ _

/-- A request in progress: it holds a buffer, and libmicrohttpd will call `on_request` for it
again. -/
def PoolState.InProgress (s : PoolState) (r : Nat) : Prop :=
  (s.reqCls r).isSome ∧ s.ended r = false

/-! ## What every interleaving keeps -/

/-- **The pool invariant**: the free stack holds distinct indices of the pool, a slot is off
it exactly when some request's `*req_cls` holds it, and no two requests hold one slot. -/
structure PoolInv (s : PoolState) : Prop where
  nodup : s.pool.freeStack.Nodup
  lt_size : ∀ i ∈ s.pool.freeStack, i < s.pool.poolSize
  held_lt : ∀ r i, s.reqCls r = some (.slot i) → i < s.pool.poolSize
  not_mem_iff : ∀ i < s.pool.poolSize, i ∉ s.pool.freeStack ↔ ∃ r, s.reqCls r = some (.slot i)
  unique : ∀ r r' i, s.reqCls r = some (.slot i) → s.reqCls r' = some (.slot i) → r = r'

theorem PoolInv.init (poolSize : Int) : PoolInv (PoolState.init poolSize) where
  nodup := List.nodup_reverse.2 (List.nodup_range _)
  lt_size _ hi := List.mem_range.1 (List.mem_reverse.1 hi)
  held_lt _ _ h := nomatch h
  not_mem_iff _ hi := iff_of_false (fun h => h (List.mem_reverse.2 (List.mem_range.2 hi)))
    fun ⟨_, h⟩ => nomatch h
  unique _ _ _ h := nomatch h

section Step

variable {s : PoolState}

theorem eq_some_of_update_none {f : Nat → Option PbBuf} {r r' : Nat} {b : PbBuf}
    (h : Function.update f r none r' = some b) : r' ≠ r ∧ f r' = some b := by
  by_cases e : r' = r
  · subst e; simp at h
  · exact ⟨e, by rwa [Function.update_noteq e] at h⟩

/-- A slot on the free stack is held by no request. -/
theorem PoolInv.not_held (h : PoolInv s) {i : Nat} (hi : i ∈ s.pool.freeStack) (r : Nat) :
    s.reqCls r ≠ some (.slot i) := fun hr =>
  (h.not_mem_iff i (h.lt_size i hi)).2 ⟨r, hr⟩ hi

/-- `pb_acquire` popping slot `i` for request `r`, which holds nothing. -/
theorem PoolInv.pop {i : Nat} {rest : List Nat} {r : Nat} (h : PoolInv s)
    (hs : s.pool.freeStack = i :: rest) (hr : s.reqCls r = none) :
    PoolInv ⟨{ s.pool with freeStack := rest }, Function.update s.reqCls r (some (.slot i)),
      s.ended⟩ := by
  have hi : i ∈ s.pool.freeStack := hs ▸ List.mem_cons_self _ _
  have hnd := hs ▸ h.nodup
  have hfree := h.not_held hi
  refine ⟨(List.nodup_cons.1 hnd).2, fun j hj => h.lt_size j (hs ▸ List.mem_cons_of_mem _ hj),
    fun r' j hj => ?_, fun j hj => ?_, fun r₁ r₂ j h₁ h₂ => ?_⟩
  · dsimp only at hj ⊢
    by_cases hr' : r' = r
    · subst hr'
      rw [Function.update_same, Option.some.injEq, PbBuf.slot.injEq] at hj
      exact hj ▸ h.lt_size i hi
    · exact h.held_lt r' j (by rwa [Function.update_noteq hr'] at hj)
  · dsimp only at hj ⊢
    by_cases hji : j = i
    · subst hji
      exact iff_of_true (List.nodup_cons.1 hnd).1 ⟨r, Function.update_same _ _ _⟩
    · have := h.not_mem_iff j hj
      rw [hs, List.mem_cons, not_or, and_iff_right hji] at this
      rw [this]
      refine exists_congr fun r' => ?_
      by_cases hr' : r' = r
      · subst hr'
        simp [hr, Ne.symm hji]
      · rw [Function.update_noteq hr']
  · dsimp only at h₁ h₂
    by_cases e₁ : r₁ = r <;> by_cases e₂ : r₂ = r
    · rw [e₁, e₂]
    · subst e₁
      rw [Function.update_same, Option.some.injEq, PbBuf.slot.injEq] at h₁
      rw [Function.update_noteq e₂, ← h₁] at h₂
      exact absurd h₂ (hfree r₂)
    · subst e₂
      rw [Function.update_same, Option.some.injEq, PbBuf.slot.injEq] at h₂
      rw [Function.update_noteq e₁, ← h₂] at h₁
      exact absurd h₁ (hfree r₁)
    · exact h.unique r₁ r₂ j (by rwa [Function.update_noteq e₁] at h₁)
        (by rwa [Function.update_noteq e₂] at h₂)

/-- Changing what one request holds, from no slot to no slot, with the pool as it was, keeps
the invariant. -/
theorem PoolInv.of_not_slot {s' : PoolState} (h : PoolInv s) (r : Nat)
    (hpool : s'.pool = s.pool) (hnew : ∀ i, s'.reqCls r ≠ some (.slot i))
    (hold : ∀ i, s.reqCls r ≠ some (.slot i))
    (hother : ∀ r', r' ≠ r → s'.reqCls r' = s.reqCls r') : PoolInv s' := by
  have key : ∀ r' i, s'.reqCls r' = some (.slot i) ↔ s.reqCls r' = some (.slot i) := by
    intro r' i
    by_cases hr' : r' = r
    · subst hr'
      exact iff_of_false (hnew i) (hold i)
    · rw [hother r' hr']
  refine ⟨hpool ▸ h.nodup, hpool ▸ h.lt_size,
    fun r' i hi => hpool ▸ h.held_lt r' i ((key r' i).1 hi), fun i hi => ?_,
    fun r₁ r₂ i h₁ h₂ => h.unique r₁ r₂ i ((key r₁ i).1 h₁) ((key r₂ i).1 h₂)⟩
  rw [hpool] at hi ⊢
  simp only [key]
  exact h.not_mem_iff i hi

/-- `pb_release` of the slot `i` request `r` holds, and `*req_cls` cleared. -/
theorem PoolInv.push {i r : Nat} (h : PoolInv s) (hr : s.reqCls r = some (.slot i)) :
    PoolInv ⟨pbRelease s.pool (.slot i), Function.update s.reqCls r none,
      Function.update s.ended r true⟩ := by
  have hlt := h.held_lt r i hr
  have hi : i ∉ s.pool.freeStack := (h.not_mem_iff i hlt).2 ⟨r, hr⟩
  simp only [pbRelease, if_pos hlt]
  refine ⟨List.nodup_cons.2 ⟨hi, h.nodup⟩, fun j hj => ?_, fun r' j hj => ?_, fun j hj => ?_,
    fun r₁ r₂ j h₁ h₂ => ?_⟩
  · rcases List.mem_cons.1 hj with rfl | hj
    exacts [hlt, h.lt_size j hj]
  · exact h.held_lt r' j (eq_some_of_update_none hj).2
  · dsimp only at hj ⊢
    rw [List.mem_cons, not_or]
    by_cases hji : j = i
    · subst hji
      refine iff_of_false (fun hn => hn.1 rfl) fun ⟨r', hr'⟩ => ?_
      have ⟨e, h'⟩ := eq_some_of_update_none hr'
      exact e (h.unique r' r j h' hr)
    · rw [and_iff_right hji, h.not_mem_iff j hj]
      refine exists_congr fun r' => ?_
      by_cases e : r' = r
      · subst e
        simp [hr, Ne.symm hji]
      · rw [Function.update_noteq e]
  · exact h.unique r₁ r₂ j (eq_some_of_update_none h₁).2 (eq_some_of_update_none h₂).2

/-- **Every event keeps the pool invariant.** -/
theorem PoolInv.poolStep (h : PoolInv s) (e : PoolEvent) : PoolInv (poolStep s e) := by
  cases e with
  | first r ok =>
    dsimp only [Tgbot.poolStep]
    split_ifs with hb
    · exact h
    simp only [Bool.or_eq_true, not_or, Bool.not_eq_true, Option.not_isSome,
      Option.isNone_iff_eq_none] at hb
    have hold : ∀ i, s.reqCls r ≠ some (.slot i) := by simp [hb.2]
    cases hs : s.pool.freeStack with
    | cons i rest =>
      simp only [pbAcquire, hs]
      exact h.pop hs hb.2
    | nil =>
      cases ok
      · simp only [pbAcquire, hs, Bool.false_eq_true, if_false]
        exact h.of_not_slot r rfl hold hold fun _ _ => rfl
      · simp only [pbAcquire, hs, if_true]
        exact h.of_not_slot r rfl (by simp) hold fun r' e => by simp [Function.update_apply, e]
  | upload r => exact h
  | final r =>
    dsimp only [Tgbot.poolStep]
    split_ifs
    · exact h
    split
    · next b hr =>
      cases b with
      | slot i => exact h.push hr
      | heap r₀ =>
        exact h.of_not_slot r rfl (by simp) (by simp [hr]) fun r' e => by
          simp [Function.update_apply, e]
    · exact h
  | disconnect r => exact ⟨h.nodup, h.lt_size, h.held_lt, h.not_mem_iff, h.unique⟩

theorem PoolInv.poolRun (h : PoolInv s) (evs : List PoolEvent) : PoolInv (poolRun s evs) := by
  induction evs generalizing s with
  | nil => exact h
  | cons e evs ih => exact ih (h.poolStep e)

end Step

/-- **Over every interleaving** of the requests' calls and disconnects, from `webhook_start`:
`free_stack[0..free_top)` holds distinct indices in `[0, pool_size)`, a slot is off it exactly
when some request's `*req_cls` holds it, and no slot is held by two requests. -/
theorem poolRun_inv (poolSize : Int) (evs : List PoolEvent) :
    PoolInv (poolRun (PoolState.init poolSize) evs) :=
  (PoolInv.init poolSize).poolRun evs

theorem poolSize_pbAcquire (p : PbPool) (r : Nat) (ok : Bool) :
    (pbAcquire p r ok).2.poolSize = p.poolSize := by
  unfold pbAcquire
  split <;> rfl

theorem poolSize_pbRelease (p : PbPool) (b : PbBuf) : (pbRelease p b).poolSize = p.poolSize := by
  cases b with
  | slot i => by_cases h : i < p.poolSize <;> simp [pbRelease, h]
  | heap r => rfl

theorem poolSize_poolStep (s : PoolState) (e : PoolEvent) :
    (poolStep s e).pool.poolSize = s.pool.poolSize := by
  cases e with
  | first r ok =>
    have hp := poolSize_pbAcquire s.pool r ok
    dsimp only [poolStep]
    split_ifs
    · rfl
    · revert hp
      cases pbAcquire s.pool r ok with
      | mk ob p => cases ob <;> exact id
  | final r =>
    dsimp only [poolStep]
    split_ifs
    · rfl
    · split
      · exact poolSize_pbRelease _ _
      · rfl
  | upload r | disconnect r => rfl

theorem poolSize_poolRun (s : PoolState) (evs : List PoolEvent) :
    (poolRun s evs).pool.poolSize = s.pool.poolSize := by
  induction evs generalizing s with
  | nil => rfl
  | cons e evs ih => exact (ih _).trans (poolSize_poolStep s e)

/-! ## Requests that end -/

/-- A request that has ended keeps what its `*req_cls` holds: no event touches it again. -/
theorem poolStep_of_ended {s : PoolState} {r : Nat} (hr : s.ended r = true) (e : PoolEvent) :
    (poolStep s e).reqCls r = s.reqCls r ∧ (poolStep s e).ended r = true := by
  cases e with
  | first r' ok =>
    dsimp only [poolStep]
    by_cases e : r' = r
    · subst e; simp [hr]
    · split_ifs
      · exact ⟨rfl, hr⟩
      · split <;> simp [Function.update_apply, Ne.symm e, hr]
  | final r' =>
    dsimp only [poolStep]
    by_cases e : r' = r
    · subst e; simp [hr]
    · split_ifs
      · exact ⟨rfl, hr⟩
      · split <;> simp [Function.update_apply, Ne.symm e, hr]
  | upload r' => exact ⟨rfl, hr⟩
  | disconnect r' => exact ⟨rfl, by simp [poolStep, Function.update_apply, hr]⟩

theorem poolRun_of_ended {s : PoolState} {r : Nat} (hr : s.ended r = true) (evs : List PoolEvent) :
    (poolRun s evs).reqCls r = s.reqCls r ∧ (poolRun s evs).ended r = true := by
  induction evs generalizing s with
  | nil => exact ⟨rfl, hr⟩
  | cons e evs ih =>
    obtain ⟨h₁, h₂⟩ := poolStep_of_ended hr e
    obtain ⟨h₃, h₄⟩ := ih h₂
    exact ⟨h₃.trans h₁, h₄⟩

/-- Without disconnects, a request that has ended holds no buffer: its final call released it,
or its first call got none. -/
def NoAbandoned (s : PoolState) : Prop := ∀ r, s.ended r = true → s.reqCls r = none

theorem NoAbandoned.poolStep {s : PoolState} (h : NoAbandoned s) {e : PoolEvent}
    (he : ∀ r, e ≠ .disconnect r) : NoAbandoned (poolStep s e) := by
  intro r hr
  cases e with
  | first r' ok =>
    revert hr
    dsimp only [Tgbot.poolStep]
    split_ifs with hb
    · exact h r
    · split <;> intro hr
      · by_cases e : r = r'
        · subst e
          simp only [Bool.or_eq_true, not_or, Bool.not_eq_true] at hb
          simp [hb.1] at hr
        · simpa [Function.update_apply, e] using h r hr
      · by_cases e : r = r'
        · subst e
          simp only [Bool.or_eq_true, not_or, Bool.not_eq_true, Option.not_isSome,
            Option.isNone_iff_eq_none] at hb
          exact hb.2
        · exact h r (by simpa [Function.update_apply, e] using hr)
  | final r' =>
    revert hr
    dsimp only [Tgbot.poolStep]
    split_ifs
    · exact h r
    · split <;> intro hr
      · by_cases e : r = r'
        · subst e; simp
        · simpa [Function.update_apply, e] using h r (by simpa [Function.update_apply, e] using hr)
      · exact h r hr
  | upload r' => exact h r hr
  | disconnect r' => exact absurd rfl (he r')

theorem NoAbandoned.poolRun {s : PoolState} (h : NoAbandoned s) (evs : List PoolEvent)
    (hno : ∀ r, PoolEvent.disconnect r ∉ evs) : NoAbandoned (poolRun s evs) := by
  induction evs generalizing s with
  | nil => exact h
  | cons e evs ih =>
    exact ih (h.poolStep fun r he => hno r (he ▸ List.mem_cons_self _ _))
      fun r hr => hno r (List.mem_cons_of_mem _ hr)

/-- **When no client disconnects**, every run keeps what the pool promises: the free stack
holds distinct indices of the pool, a slot is off it exactly when a request still in progress
holds it, no slot is held twice, and a request that has ended holds no buffer, so every heap
buffer has been freed. -/
theorem poolRun_no_disconnect (poolSize : Int) (evs : List PoolEvent)
    (hno : ∀ r, PoolEvent.disconnect r ∉ evs) :
    let s := poolRun (PoolState.init poolSize) evs
    s.pool.freeStack.Nodup ∧ (∀ i ∈ s.pool.freeStack, i < s.pool.poolSize) ∧
      (∀ i < s.pool.poolSize,
        i ∉ s.pool.freeStack ↔ ∃ r, s.InProgress r ∧ s.reqCls r = some (.slot i)) ∧
      (∀ r r' i, s.reqCls r = some (.slot i) → s.reqCls r' = some (.slot i) → r = r') ∧
      ∀ r, s.ended r = true → s.reqCls r = none := by
  intro s
  have h := poolRun_inv poolSize evs
  have hab : NoAbandoned s := NoAbandoned.poolRun (fun _ _ => rfl) evs hno
  refine ⟨h.nodup, h.lt_size, fun i hi => ?_, h.unique, hab⟩
  rw [h.not_mem_iff i hi]
  refine exists_congr fun r => ⟨fun hr => ⟨⟨Option.isSome_iff_exists.2 ⟨_, hr⟩, ?_⟩, hr⟩,
    fun hr => hr.2⟩
  cases he : s.ended r
  · rfl
  · exact Option.noConfusion ((hab r he).symm.trans hr)

theorem poolRun_no_disconnect_two_requests :
    let evs : List PoolEvent := [.first 0 true, .first 1 true, .upload 0, .final 0, .final 1]
    (∀ r, PoolEvent.disconnect r ∉ evs) ∧
      let s := poolRun (PoolState.init 1) evs
      s.pool.freeStack.Nodup ∧ (∀ i ∈ s.pool.freeStack, i < s.pool.poolSize) ∧
        (∀ i < s.pool.poolSize,
          i ∉ s.pool.freeStack ↔ ∃ r, s.InProgress r ∧ s.reqCls r = some (.slot i)) ∧
        (∀ r r' i, s.reqCls r = some (.slot i) → s.reqCls r' = some (.slot i) → r = r') ∧
        ∀ r, s.ended r = true → s.reqCls r = none :=
  have hno : ∀ r, PoolEvent.disconnect r ∉
      [.first 0 true, .first 1 true, .upload 0, .final 0, .final 1] := fun r h => by
    simp at h
  ⟨hno, poolRun_no_disconnect 1 _ hno⟩

/-! ## A disconnect -/

/-- **A client going away loses its buffer for good.** With one pool slot, request 0 takes
it and its client disconnects; request 1 gets a heap buffer and its client disconnects. After
that, whatever happens, slot 0 is off the free stack while no request in progress holds it, and
request 1's heap buffer is never freed. -/
theorem pool_slot_lost_on_disconnect (evs : List PoolEvent) :
    let s := poolRun (PoolState.init 1)
      ([.first 0 true, .disconnect 0, .first 1 true, .disconnect 1] ++ evs)
    s.pool.poolSize = 1 ∧ 0 ∉ s.pool.freeStack ∧
      (∀ r, s.reqCls r = some (.slot 0) → ¬ s.InProgress r) ∧
      s.reqCls 1 = some (.heap 1) ∧ s.ended 1 = true := by
  intro s
  set s₀ := poolRun (PoolState.init 1) [.first 0 true, .disconnect 0, .first 1 true, .disconnect 1]
  have hs : s = poolRun s₀ evs := poolRun_append _ _ _
  have h : PoolInv s := poolRun_inv 1 _
  obtain ⟨h0, e0⟩ := poolRun_of_ended (s := s₀) (r := 0) (by decide) evs
  obtain ⟨h1, e1⟩ := poolRun_of_ended (s := s₀) (r := 1) (by decide) evs
  rw [← hs] at h0 e0 h1 e1
  have hs0 : s.reqCls 0 = some (.slot 0) := h0.trans (by decide)
  refine ⟨hs ▸ (poolSize_poolRun s₀ evs).trans (by decide), fun hm => (h.not_held hm 0) hs0,
    fun r hr hp => ?_, h1.trans (by decide), e1⟩
  obtain rfl := h.unique r 0 0 hr hs0
  exact absurd e0 (by simp [hp.2])

end Tgbot
