import Mathlib.Algebra.Order.BigOperators.Group.Finset
import Tgbot.Queue.Table

/-!
# The queue invariant

In every state a run of the queue reaches, every ring linked in bucket `b` hashes to `b`, is
well formed (`UserRing.Inv`), has the capacity `round_up_pow2 (ring_size)` and holds at least
one message; no two rings of a chain share a sender; and `total_pending` is the sum of the
counts. This module proves that, one lemma per call (`queuePush_spec`, `queuePop_eq_popped`),
and derives the consequences that `queue_pop` relies on: a positive `total_pending` means
`ring_pop_any` finds a message, so its "spurious wakeup" exit is dead code.

## Main definitions

* `chainFind`, `chainContents`: the ring and the pending slots of a sender in a chain
* `LinkedRing`, `ChainInv`, `Queue.Inv`: the invariant

## Main results

* `queuePush_spec`, `ringPopAny_eq_some`, `queuePop_eq_ended`, `queuePop_eq_popped`: what
  each call does, under the invariant
* `queuePop_eq_none_iff`: `queue_pop` waits exactly while nothing is pending before
  `queue_shutdown`
* `Queue.Reachable.inv`: the invariant holds in every reachable state
* `queue_invariant`: the invariant spelt out, with what `queue_pop` relies on
-/

namespace Tgbot

/-! ## Chains -/

/-- The ring of `u` in a chain: the first one the chain walk meets. -/
def chainFind (chain : List UserRing) (u : Int64) : Option UserRing :=
  chain.find? fun r => r.userId = u

/-- The slots pending for `u` in a chain, oldest first. -/
def chainContents (chain : List UserRing) (u : Int64) : List Slot :=
  ((chainFind chain u).map UserRing.contents).getD []

@[simp] theorem chainFind_nil (u : Int64) : chainFind [] u = none := rfl

theorem chainFind_cons (r : UserRing) (rs : List UserRing) (u : Int64) :
    chainFind (r :: rs) u = if r.userId = u then some r else chainFind rs u := by
  by_cases h : r.userId = u <;> simp [chainFind, List.find?_cons, h]

theorem chainContents_cons (r : UserRing) (rs : List UserRing) (u : Int64) :
    chainContents (r :: rs) u = if r.userId = u then r.contents else chainContents rs u := by
  rw [chainContents, chainFind_cons]
  split <;> rfl

theorem chainFind_eq_none_iff {chain : List UserRing} {u : Int64} :
    chainFind chain u = none ↔ u ∉ chain.map UserRing.userId := by
  simp [chainFind]

theorem chainFind_mem {chain : List UserRing} {u : Int64} {r : UserRing}
    (h : chainFind chain u = some r) : r ∈ chain ∧ r.userId = u :=
  ⟨List.mem_of_find?_eq_some h, by simpa using List.find?_some h⟩

theorem chainPush_userIds {chain chain' : List UserRing} {u : Int64} {s : Slot}
    (h : chainPush chain u s = some chain') :
    chain'.map UserRing.userId = chain.map UserRing.userId := by
  induction chain generalizing chain' with
  | nil => cases h
  | cons r rs ih =>
    simp only [chainPush] at h
    split at h
    · obtain ⟨r', hr', rfl⟩ := Option.map_eq_some'.1 h
      simp [UserRing.userId_of_push hr']
    · obtain ⟨rs', hrs', rfl⟩ := Option.map_eq_some'.1 h
      simp [ih hrs']

theorem chainPush_counts {chain chain' : List UserRing} {u : Int64} {s : Slot}
    (h : chainPush chain u s = some chain') :
    (chain'.map UserRing.count).sum = (chain.map UserRing.count).sum + 1 := by
  induction chain generalizing chain' with
  | nil => cases h
  | cons r rs ih =>
    simp only [chainPush] at h
    split at h
    · obtain ⟨r', hr', rfl⟩ := Option.map_eq_some'.1 h
      simp only [List.map_cons, List.sum_cons, UserRing.count_of_push hr']
      omega
    · obtain ⟨rs', hrs', rfl⟩ := Option.map_eq_some'.1 h
      simp only [List.map_cons, List.sum_cons, ih hrs']
      omega

theorem mem_chainPush {chain chain' : List UserRing} {u : Int64} {s : Slot}
    (h : chainPush chain u s = some chain') {r' : UserRing} (hr' : r' ∈ chain') :
    r' ∈ chain ∨ ∃ r ∈ chain, r.push s = some r' := by
  induction chain generalizing chain' with
  | nil => cases h
  | cons r rs ih =>
    simp only [chainPush] at h
    split at h
    · obtain ⟨r₁, hr₁, rfl⟩ := Option.map_eq_some'.1 h
      rcases List.mem_cons.1 hr' with rfl | hmem
      · exact .inr ⟨r, List.mem_cons_self _ _, hr₁⟩
      · exact .inl (List.mem_cons_of_mem _ hmem)
    · obtain ⟨rs', hrs', rfl⟩ := Option.map_eq_some'.1 h
      rcases List.mem_cons.1 hr' with rfl | hmem
      · exact .inl (List.mem_cons_self _ _)
      · rcases ih hrs' hmem with h' | ⟨r₀, hr₀, hp⟩
        · exact .inl (List.mem_cons_of_mem _ h')
        · exact .inr ⟨r₀, List.mem_cons_of_mem _ hr₀, hp⟩

theorem chainFind_chainPush {chain chain' : List UserRing} {u : Int64} {s : Slot}
    (h : chainPush chain u s = some chain') (v : Int64) :
    chainFind chain' v =
      if v = u then (chainFind chain u).bind (·.push s) else chainFind chain v := by
  induction chain generalizing chain' with
  | nil => cases h
  | cons r rs ih =>
    simp only [chainPush] at h
    split at h
    · rename_i hru
      obtain ⟨r₁, hr₁, rfl⟩ := Option.map_eq_some'.1 h
      have h₁ := UserRing.userId_of_push hr₁
      by_cases hvu : v = u
      · subst hvu
        simp [chainFind_cons, hru, h₁, hr₁]
      · simp [chainFind_cons, hru, h₁, hvu, Ne.symm hvu]
    · rename_i hru
      obtain ⟨rs', hrs', rfl⟩ := Option.map_eq_some'.1 h
      by_cases hvu : v = u
      · subst hvu
        simp [chainFind_cons, hru, ih hrs']
      · simp [chainFind_cons, ih hrs', hvu]

theorem chainPush_eq_none_iff (chain : List UserRing) (u : Int64) (s : Slot) :
    chainPush chain u s = none ↔ ∀ r, chainFind chain u = some r → r.cap ≤ r.count := by
  induction chain with
  | nil => simp [chainPush]
  | cons r rs ih =>
    by_cases hru : r.userId = u
    · simp [chainPush, chainFind_cons, hru, UserRing.push_eq_none_iff]
    · simp [chainPush, chainFind_cons, hru, ih]

theorem ringGetOrCreate_of_find {ringSize : Int} {chain : List UserRing} {u : Int64}
    {r : UserRing} (h : chainFind chain u = some r) (a : Bool) :
    ringGetOrCreate ringSize chain u a = some chain := by
  have ⟨hr, hru⟩ := chainFind_mem h
  rw [ringGetOrCreate, if_pos (List.any_eq_true.2 ⟨r, hr, by simp [hru]⟩)]

theorem ringGetOrCreate_of_find_none {ringSize : Int} {chain : List UserRing} {u : Int64}
    (h : chainFind chain u = none) (a : Bool) :
    ringGetOrCreate ringSize chain u a =
      if a = true ∧ 0 < roundUpPow2 ringSize then
        some (UserRing.create u (roundUpPow2 ringSize).toNat :: chain)
      else none := by
  have hany : chain.any (·.userId == u) = false := by
    simpa [chainFind] using h
  simp only [ringGetOrCreate, hany]
  rfl

/-! ## The invariant -/

/-- A ring as it is linked in bucket `b` of a queue of ring depth `ringSize`. -/
structure LinkedRing (ringSize : Int) (b : Fin queueBuckets) (r : UserRing) : Prop where
  inv : r.Inv
  cap_eq : (r.cap : Int) = roundUpPow2 ringSize
  count_pos : 0 < r.count
  hash_eq : hashUser r.userId = b

/-- A well-formed hash chain of bucket `b`. -/
structure ChainInv (ringSize : Int) (b : Fin queueBuckets) (chain : List UserRing) : Prop where
  linked : ∀ r ∈ chain, LinkedRing ringSize b r
  nodup : (chain.map UserRing.userId).Nodup

/-- **The queue invariant.** -/
structure Queue.Inv (q : Queue) : Prop where
  chain : ∀ b, ChainInv q.ringSize b (q.buckets b)
  total_eq : q.totalPending = ∑ b, ((q.buckets b).map UserRing.count).sum
  ringSize_pos : 0 < q.ringSize
  ringSize_lt : q.ringSize < 2 ^ 31

theorem LinkedRing.contents_ne_nil {ringSize : Int} {b : Fin queueBuckets} {r : UserRing}
    (h : LinkedRing ringSize b r) : r.contents ≠ [] := by
  rw [← List.length_pos, UserRing.length_contents]
  exact h.count_pos

theorem ChainInv.nil (ringSize : Int) (b : Fin queueBuckets) : ChainInv ringSize b [] :=
  ⟨by simp, List.nodup_nil⟩

theorem LinkedRing.push {ringSize : Int} {b : Fin queueBuckets} {r r' : UserRing} {s : Slot}
    (h : LinkedRing ringSize b r) (hp : r.push s = some r') : LinkedRing ringSize b r' where
  inv := h.inv.push hp
  cap_eq := UserRing.cap_of_push hp ▸ h.cap_eq
  count_pos := by rw [UserRing.count_of_push hp]; omega
  hash_eq := UserRing.userId_of_push hp ▸ h.hash_eq

/-- A push into a well-formed chain keeps it well formed. -/
theorem ChainInv.push {ringSize : Int} {b : Fin queueBuckets} {chain chain' : List UserRing}
    {u : Int64} {s : Slot} (h : ChainInv ringSize b chain)
    (hp : chainPush chain u s = some chain') :
    ChainInv ringSize b chain' where
  linked r' hr' := by
    rcases mem_chainPush hp hr' with hr | ⟨r, hr, hpr⟩
    · exact h.linked r' hr
    · exact (h.linked r hr).push hpr
  nodup := chainPush_userIds hp ▸ h.nodup

/-- Linking a well-formed ring of a sender with no ring in the chain keeps it well formed. -/
theorem ChainInv.cons {ringSize : Int} {b : Fin queueBuckets} {chain : List UserRing}
    {r : UserRing} (h : ChainInv ringSize b chain) (hl : LinkedRing ringSize b r)
    (hf : chainFind chain r.userId = none) : ChainInv ringSize b (r :: chain) where
  linked r' hr' := (List.mem_cons.1 hr').elim (· ▸ hl) (h.linked r')
  nodup := List.nodup_cons.2 ⟨chainFind_eq_none_iff.1 hf, h.nodup⟩

/-- A push appends its slot to the sender's slots and leaves the other senders' slots. -/
theorem chainContents_chainPush {chain chain' : List UserRing} {u : Int64} {s : Slot}
    (hc : ∀ r ∈ chain, r.Inv) (hp : chainPush chain u s = some chain') (v : Int64) :
    chainContents chain' v =
      if v = u then chainContents chain u ++ [s] else chainContents chain v := by
  rw [chainContents, chainFind_chainPush hp]
  split
  · obtain ⟨r, hr, hlt⟩ : ∃ r, chainFind chain u = some r ∧ ¬ r.cap ≤ r.count := by
      by_contra hne
      push_neg at hne
      exact absurd hp (by rw [(chainPush_eq_none_iff _ _ _).2 hne]; simp)
    obtain ⟨r', hr'⟩ := Option.ne_none_iff_exists'.1
      (mt (UserRing.push_eq_none_iff r s).1 hlt)
    rw [chainContents, hr, Option.some_bind, hr', Option.map_some', Option.getD_some,
      Option.map_some', Option.getD_some,
      UserRing.contents_push (hc r (chainFind_mem hr).1) hr']
  · rfl

/-! ## `queue_push` -/

/-- The result of a `queue_push` that found the sender's ring in its chain. -/
theorem queuePush_of_find {q : Queue} {u : Int64} {r : UserRing}
    (hr : chainFind (q.buckets (hashUser u)) u = some r) (c : Int64) (t : List UInt8) (a : Bool) :
    queuePush q u c t a =
      match chainPush (q.buckets (hashUser u)) u ⟨c, slotText t⟩ with
      | none => (-1, q)
      | some chain' =>
        (0, { q with buckets := Function.update q.buckets (hashUser u) chain',
                     totalPending := q.totalPending + 1 }) := by
  simp only [queuePush, ringGetOrCreate_of_find hr]
  cases chainPush (q.buckets (hashUser u)) u ⟨c, slotText t⟩ <;> simp

/-- The result of a `queue_push` for a sender with no ring: a new ring holding the slot is
linked at the head of the chain, unless the allocation fails. -/
theorem queuePush_of_find_none {q : Queue} {u : Int64}
    (hr : chainFind (q.buckets (hashUser u)) u = none) (c : Int64) (t : List UInt8) (a : Bool) :
    (a = true ∧ 0 < roundUpPow2 q.ringSize →
      ∃ r₁, (UserRing.create u (roundUpPow2 q.ringSize).toNat).push ⟨c, slotText t⟩ = some r₁ ∧
        queuePush q u c t a =
          (0, { q with buckets := Function.update q.buckets (hashUser u) (r₁ :: q.buckets (hashUser u)),
                       totalPending := q.totalPending + 1 })) ∧
    (¬ (a = true ∧ 0 < roundUpPow2 q.ringSize) → queuePush q u c t a = (-1, q)) := by
  refine ⟨fun hac => ?_, fun hac => ?_⟩
  · obtain ⟨r₁, hr₁⟩ : ∃ r₁, (UserRing.create u (roundUpPow2 q.ringSize).toNat).push
        ⟨c, slotText t⟩ = some r₁ :=
      Option.ne_none_iff_exists'.1 (mt (UserRing.push_eq_none_iff _ _).1
        (by simp only [UserRing.count_create, UserRing.cap_create, not_le]; omega))
    refine ⟨r₁, hr₁, ?_⟩
    simp only [queuePush, ringGetOrCreate_of_find_none hr, if_pos hac, chainPush,
      UserRing.userId_create, if_true, hr₁, Option.map_some', Function.update_idem]
  · simp only [queuePush, ringGetOrCreate_of_find_none hr, if_neg hac]

section Push

variable {q : Queue} (h : q.Inv) (u c : Int64) (t : List UInt8) (a : Bool)
include h

/-- **What `queue_push` does**, under the invariant. It succeeds exactly when the sender has
fewer than `cap` pending slots and, if it has none, its ring can be allocated; it then
replaces the sender's chain by a well-formed chain holding one more slot, appended to the
sender's slots. Otherwise it returns -1 and leaves the queue as it was. -/
theorem queuePush_spec :
    if (chainContents (q.buckets (hashUser u)) u).length < (roundUpPow2 q.ringSize).toNat ∧
        (chainContents (q.buckets (hashUser u)) u ≠ [] ∨ a = true) then
      ∃ chain', ChainInv q.ringSize (hashUser u) chain' ∧
        (chain'.map UserRing.count).sum =
          ((q.buckets (hashUser u)).map UserRing.count).sum + 1 ∧
        (∀ v, chainContents chain' v =
          if v = u then chainContents (q.buckets (hashUser u)) u ++ [⟨c, slotText t⟩]
          else chainContents (q.buckets (hashUser u)) v) ∧
        queuePush q u c t a =
          (0, { q with buckets := Function.update q.buckets (hashUser u) chain',
                       totalPending := q.totalPending + 1 })
    else queuePush q u c t a = (-1, q) := by
  have hc := h.chain (hashUser u)
  cases hf : chainFind (q.buckets (hashUser u)) u with
  | some r =>
    have ⟨hr, _⟩ := chainFind_mem hf
    have hl := hc.linked r hr
    have hcap : r.cap = (roundUpPow2 q.ringSize).toNat := by have := hl.cap_eq; omega
    have hcont : chainContents (q.buckets (hashUser u)) u = r.contents := by
      simp [chainContents, hf]
    rw [queuePush_of_find hf]
    cases hp : chainPush (q.buckets (hashUser u)) u ⟨c, slotText t⟩ with
    | none =>
      have := (chainPush_eq_none_iff _ _ _).1 hp r hf
      rw [if_neg (by rw [hcont, UserRing.length_contents]; omega)]
    | some chain' =>
      have hlt : r.count < r.cap := Nat.lt_of_not_le fun hle => by
        rw [(chainPush_eq_none_iff _ _ _).2 fun r' hr' => Option.some.inj (hf.symm.trans hr') ▸ hle]
          at hp
        cases hp
      rw [if_pos ⟨by rw [hcont, UserRing.length_contents]; omega,
        .inl (hcont ▸ hl.contents_ne_nil)⟩]
      exact ⟨chain', hc.push hp, chainPush_counts hp,
        chainContents_chainPush (fun r hr => (hc.linked r hr).inv) hp, rfl⟩
  | none =>
    have hcont : chainContents (q.buckets (hashUser u)) u = [] := by simp [chainContents, hf]
    obtain ⟨hpos, hneg⟩ := queuePush_of_find_none hf c t a
    by_cases hac : a = true ∧ 0 < roundUpPow2 q.ringSize
    · obtain ⟨r₁, hr₁, heq⟩ := hpos hac
      rw [if_pos ⟨by rw [hcont]; simp; omega, .inr hac.1⟩]
      have hinv₀ := UserRing.Inv.create (roundUpPow2_pow_two h.ringSize_lt hac.2) u
      have hu : r₁.userId = u := by rw [UserRing.userId_of_push hr₁, UserRing.userId_create]
      have hl₁ : LinkedRing q.ringSize (hashUser u) r₁ :=
        { inv := hinv₀.push hr₁
          cap_eq := by rw [UserRing.cap_of_push hr₁, UserRing.cap_create]; omega
          count_pos := by rw [UserRing.count_of_push hr₁]; omega
          hash_eq := by rw [hu] }
      refine ⟨r₁ :: q.buckets (hashUser u), hc.cons hl₁ (by rwa [hu]), ?_, fun v => ?_, heq⟩
      · simp [UserRing.count_of_push hr₁, Nat.add_comm]
      · rw [chainContents_cons, hu, UserRing.contents_push hinv₀ hr₁, UserRing.contents_create]
        by_cases hvu : v = u
        · simp [hvu, hcont]
        · simp [hvu, Ne.symm hvu]
    · rw [if_neg fun ⟨h₁, h₂⟩ => hac ⟨by simpa [hcont] using h₂, by simp [hcont] at h₁; omega⟩,
        hneg hac]

end Push

/-! ## Updating one bucket -/

private theorem sum_update_add (B : Fin queueBuckets → List UserRing) (b : Fin queueBuckets)
    (chain : List UserRing) (f : List UserRing → Nat) :
    ∑ i, f (Function.update B b chain i) + f (B b) = ∑ i, f (B i) + f chain := by
  have hfun : (fun i => f (Function.update B b chain i)) =
      Function.update (fun i => f (B i)) b (f chain) := by
    funext i
    by_cases hi : i = b <;> simp [Function.update_apply, hi]
  rw [hfun, Finset.sum_update_of_mem (Finset.mem_univ b),
    Finset.sum_eq_add_sum_diff_singleton (Finset.mem_univ b) (fun i => f (B i))]
  omega

/-- Replacing one chain by a well-formed one, with `total_pending` moved by the change in
that chain's counts, keeps the invariant. -/
theorem Queue.Inv.of_update {q q' : Queue} (h : q.Inv) {b : Fin queueBuckets}
    {chain : List UserRing} (hc : ChainInv q.ringSize b chain)
    (hB : q'.buckets = Function.update q.buckets b chain) (hR : q'.ringSize = q.ringSize)
    (hn : q'.totalPending + ((q.buckets b).map UserRing.count).sum =
      q.totalPending + (chain.map UserRing.count).sum) : q'.Inv where
  chain i := by
    rw [hB, hR]
    by_cases hi : i = b
    · subst hi
      simpa using hc
    · simpa [hi] using h.chain i
  total_eq := by
    have := sum_update_add q.buckets b chain fun c => (c.map UserRing.count).sum
    rw [hB]
    rw [h.total_eq] at hn
    omega
  ringSize_pos := hR ▸ h.ringSize_pos
  ringSize_lt := hR ▸ h.ringSize_lt

theorem Queue.Inv.push {q : Queue} (h : q.Inv) (u c : Int64) (t : List UInt8) (a : Bool) :
    (queuePush q u c t a).2.Inv := by
  have hs := queuePush_spec h u c t a
  split_ifs at hs
  · obtain ⟨chain', hc, hsum, -, heq⟩ := hs
    rw [heq]
    exact h.of_update hc rfl rfl (by simp only [hsum]; omega)
  · rw [hs]
    exact h

/-! ## `ring_pop_any` and `queue_pop` -/

@[simp] theorem queueBuckets_eq : queueBuckets = 64 := rfl

/-- The offset from the cursor `p` at which the walk of `ring_pop_any` reaches bucket `b`. -/
def offset (p b : Fin queueBuckets) : Nat := (b.val + queueBuckets - p.val) % queueBuckets

theorem offset_lt (p b : Fin queueBuckets) : offset p b < queueBuckets :=
  Nat.mod_lt _ (by decide)

@[simp] theorem bucketOf_add_offset (p b : Fin queueBuckets) : bucketOf (p + offset p b) = b :=
  Fin.ext <| by simp only [val_bucketOf, offset, queueBuckets_eq]; omega

theorem offset_bucketOf_add (p : Fin queueBuckets) {i : Nat} (hi : i < queueBuckets) :
    offset p (bucketOf (p + i)) = i := by
  simp only [offset, val_bucketOf, queueBuckets_eq] at hi ⊢
  omega

private theorem findSome?_range_eq_some {α : Type} {f : Nat → Option α} {n : Nat} {y : α}
    (h : (List.range n).findSome? f = some y) :
    ∃ i < n, f i = some y ∧ ∀ j < i, f j = none := by
  induction n with
  | zero => simp at h
  | succ n ih =>
    rw [List.range_succ, List.findSome?_append] at h
    cases hn : (List.range n).findSome? f with
    | some y' =>
      rw [hn] at h
      obtain rfl : y' = y := Option.some.inj h
      obtain ⟨i, hi, hfi, hj⟩ := ih hn
      exact ⟨i, by omega, hfi, hj⟩
    | none =>
      rw [hn, Option.none_or] at h
      refine ⟨n, by omega, ?_, fun j hj => ?_⟩
      · cases hfn : f n <;> simp_all [List.findSome?_cons]
      · exact List.findSome?_eq_none_iff.1 hn j (List.mem_range.2 hj)

/-- Under the invariant every linked ring holds a message, so the chain walk of
`ring_pop_any` serves the head ring of any non-empty chain. -/
theorem chainPop_cons {ringSize : Int} {b : Fin queueBuckets} {r : UserRing}
    {rs : List UserRing} (hc : ChainInv ringSize b (r :: rs)) :
    chainPop (r :: rs) =
      some (r.pop.1, r.userId, if r.pop.2.count = 0 then rs else r.pop.2 :: rs) := by
  rw [chainPop, if_pos (hc.linked r (List.mem_cons_self _ _)).count_pos]

/-- The chain left when its head ring gives up a slot is well formed, holds one slot fewer,
and the served sender lost its oldest slot. -/
theorem ChainInv.pop {ringSize : Int} {b : Fin queueBuckets} {r : UserRing}
    {rs : List UserRing} (hc : ChainInv ringSize b (r :: rs)) :
    ChainInv ringSize b (if r.pop.2.count = 0 then rs else r.pop.2 :: rs) ∧
      ((if r.pop.2.count = 0 then rs else r.pop.2 :: rs).map UserRing.count).sum + 1 =
        ((r :: rs).map UserRing.count).sum ∧
      ∀ v, chainContents (if r.pop.2.count = 0 then rs else r.pop.2 :: rs) v =
        if v = r.userId then (chainContents (r :: rs) v).tail else chainContents (r :: rs) v := by
  have hl := hc.linked r (List.mem_cons_self _ _)
  have hpos := hl.count_pos
  have hnd := List.nodup_cons.1 hc.nodup
  have hrs : ChainInv ringSize b rs :=
    ⟨fun r' hr' => hc.linked r' (List.mem_cons_of_mem _ hr'), hnd.2⟩
  have hpop := UserRing.contents_pop hl.inv hl.count_pos
  have hnone : chainContents rs r.userId = [] := by
    simp [chainContents, chainFind_eq_none_iff.2 hnd.1]
  split_ifs with h0
  · refine ⟨hrs, by simp at h0 ⊢; omega, fun v => ?_⟩
    have : r.pop.2.contents = [] := by
      rw [← List.length_eq_zero, UserRing.length_contents, h0]
    by_cases hv : v = r.userId
    · subst hv; simp [chainContents_cons, hpop, this, hnone]
    · simp [chainContents_cons, Ne.symm hv, hv]
  · refine ⟨⟨?_, by simpa using hc.nodup⟩, by simp at h0 ⊢; omega, fun v => ?_⟩
    · intro r' hr'
      rcases List.mem_cons.1 hr' with rfl | hr'
      · exact ⟨hl.inv.pop hl.count_pos, hl.cap_eq, Nat.pos_of_ne_zero h0, hl.hash_eq⟩
      · exact hrs.linked r' hr'
    · by_cases hv : v = r.userId
      · subst hv; simp [chainContents_cons, hpop]
      · simp [chainContents_cons, Ne.symm hv, hv]

theorem chainPop_eq_none_iff {ringSize : Int} {b : Fin queueBuckets} {chain : List UserRing}
    (hc : ChainInv ringSize b chain) : chainPop chain = none ↔ chain = [] := by
  cases chain with
  | nil => simp [chainPop]
  | cons r rs => simp [chainPop_cons hc]

private theorem totalPending_pos_of {q : Queue} (h₁ : ¬(q.totalPending = 0 ∧ q.shutdown = false))
    (h₂ : ¬(q.shutdown = true ∧ q.totalPending = 0)) : 0 < q.totalPending := by
  cases hs : q.shutdown <;> simp [hs] at h₁ h₂ <;> omega

section Pop

variable {q : Queue} (h : q.Inv)
include h

theorem ringPopAny_eq_none_iff : ringPopAny q = none ↔ ∀ b, q.buckets b = [] := by
  rw [ringPopAny, List.findSome?_eq_none_iff]
  constructor
  · intro hall b
    have := hall (offset q.rrBucket b) (List.mem_range.2 (offset_lt _ _))
    simpa [chainPop_eq_none_iff (h.chain b)] using this
  · intro hall i _
    simp [hall, chainPop]

/-- **What `ring_pop_any` does**, under the invariant: it serves the head ring of the first
non-empty bucket at or after the cursor, removes that ring's oldest slot (unlinking the ring
when it empties) and moves the cursor to the next bucket. -/
theorem ringPopAny_eq_some {q' : Queue} {s : Slot} {u : Int64}
    (hp : ringPopAny q = some (s, u, q')) :
    ∃ i < queueBuckets, (∀ j < i, q.buckets (bucketOf (q.rrBucket + j)) = []) ∧
      ∃ r rs, q.buckets (bucketOf (q.rrBucket + i)) = r :: rs ∧ s = r.pop.1 ∧ u = r.userId ∧
        q' = { q with buckets := Function.update q.buckets (bucketOf (q.rrBucket + i))
                        (if r.pop.2.count = 0 then rs else r.pop.2 :: rs),
                      totalPending := q.totalPending - 1,
                      rrBucket := bucketOf (bucketOf (q.rrBucket + i) + 1) } := by
  obtain ⟨i, hi, hfi, hj⟩ := findSome?_range_eq_some hp
  refine ⟨i, hi, fun j hj' => ?_, ?_⟩
  · simpa [chainPop_eq_none_iff (h.chain _)] using hj j hj'
  · obtain ⟨⟨s', u', chain⟩, hcp, heq⟩ := Option.map_eq_some'.1 hfi
    cases hb : q.buckets (bucketOf (q.rrBucket + i)) with
    | nil => rw [hb] at hcp; cases hcp
    | cons r rs =>
      rw [hb, chainPop_cons (hb ▸ h.chain _)] at hcp
      simp only [Option.some.injEq, Prod.mk.injEq] at hcp heq
      obtain ⟨rfl, rfl, rfl⟩ := hcp
      obtain ⟨rfl, rfl, rfl⟩ := heq
      exact ⟨r, rs, rfl, rfl, rfl, rfl⟩

theorem exists_ne_nil_of_totalPending_pos (hpos : 0 < q.totalPending) :
    ∃ b, q.buckets b ≠ [] := by
  by_contra hall
  push_neg at hall
  simp [h.total_eq, hall] at hpos

/-- With messages pending, `ring_pop_any` finds one. -/
theorem ringPopAny_isSome (hpos : 0 < q.totalPending) : (ringPopAny q).isSome := by
  obtain ⟨b, hb⟩ := exists_ne_nil_of_totalPending_pos h hpos
  rw [Option.isSome_iff_ne_none]
  exact fun hn => hb ((ringPopAny_eq_none_iff h).1 hn b)

/-- `queue_pop` returns -1 only after `queue_shutdown`, with nothing pending: the "spurious
wakeup" exit is never taken. -/
theorem queuePop_eq_ended {q' : Queue} (hp : queuePop q = some (none, q')) :
    q' = q ∧ q.shutdown = true ∧ q.totalPending = 0 := by
  unfold queuePop at hp
  by_cases h₁ : q.totalPending = 0 ∧ q.shutdown = false
  · rw [if_pos h₁] at hp; cases hp
  by_cases h₂ : q.shutdown = true ∧ q.totalPending = 0
  · rw [if_neg h₁, if_pos h₂] at hp
    exact ⟨(Prod.mk.inj (Option.some.inj hp)).2.symm, h₂⟩
  · rw [if_neg h₁, if_neg h₂] at hp
    obtain ⟨⟨s, u, q₁⟩, hx⟩ :=
      Option.isSome_iff_exists.1 (ringPopAny_isSome h (totalPending_pos_of h₁ h₂))
    rw [hx] at hp
    cases hp

omit h in
/-- A `queue_pop` that returns 0 has served `ring_pop_any`'s slot. -/
theorem queuePop_eq_popped {m : QueueMsg} {q' : Queue} (hp : queuePop q = some (some m, q')) :
    ∃ s, ringPopAny q = some (s, m.userId, q') ∧ m.chatId = s.chatId ∧
      m.text = slotText s.text := by
  unfold queuePop at hp
  by_cases h₁ : q.totalPending = 0 ∧ q.shutdown = false
  · rw [if_pos h₁] at hp; cases hp
  by_cases h₂ : q.shutdown = true ∧ q.totalPending = 0
  · rw [if_neg h₁, if_pos h₂] at hp; cases hp
  rw [if_neg h₁, if_neg h₂] at hp
  cases hx : ringPopAny q with
  | none => rw [hx] at hp; cases hp
  | some x =>
    obtain ⟨s, u, q₁⟩ := x
    rw [hx] at hp
    simp only [Option.some.injEq, Prod.mk.injEq] at hp
    obtain ⟨rfl, rfl⟩ := hp
    exact ⟨s, rfl, rfl, rfl⟩

theorem Queue.Inv.ringPopAny {q' : Queue} {s : Slot} {u : Int64}
    (hp : ringPopAny q = some (s, u, q')) : q'.Inv := by
  obtain ⟨i, -, -, r, rs, hb, -, -, rfl⟩ := ringPopAny_eq_some h hp
  have hc := hb ▸ h.chain (bucketOf (q.rrBucket + i))
  have hle : ((q.buckets (bucketOf (q.rrBucket + i))).map UserRing.count).sum ≤
      q.totalPending :=
    h.total_eq ▸ Finset.single_le_sum (f := fun b => ((q.buckets b).map UserRing.count).sum)
      (fun _ _ => Nat.zero_le _) (Finset.mem_univ _)
  obtain ⟨hc', hsum, -⟩ := hc.pop
  exact h.of_update hc' rfl rfl (by dsimp only; rw [hb] at hle ⊢; omega)

theorem Queue.Inv.pop {out : Option QueueMsg} {q' : Queue} (hp : queuePop q = some (out, q')) :
    q'.Inv := by
  cases out with
  | none => exact (queuePop_eq_ended h hp).1 ▸ h
  | some m =>
    obtain ⟨s, hs, -⟩ := queuePop_eq_popped hp
    exact h.ringPopAny hs

end Pop

/-- Every call keeps the invariant. -/
theorem Queue.Inv.step {q q' : Queue} (h : q.Inv) {op : QueueOp} {ret : QueueRet}
    (hs : queueStep q op = some (ret, q')) : q'.Inv := by
  cases op with
  | push u c t a =>
    obtain ⟨-, rfl⟩ := Prod.mk.inj (Option.some.inj hs)
    exact h.push u c t a
  | pop =>
    obtain ⟨⟨out, q₁⟩, hp, heq⟩ := Option.map_eq_some'.1 hs
    obtain ⟨-, rfl⟩ := Prod.mk.inj heq
    exact h.pop hp
  | shutdown =>
    obtain ⟨-, rfl⟩ := Prod.mk.inj (Option.some.inj hs)
    exact ⟨h.chain, h.total_eq, h.ringSize_pos, h.ringSize_lt⟩
  | depth | ringCount =>
    obtain ⟨-, rfl⟩ := Prod.mk.inj (Option.some.inj hs)
    exact h

theorem Queue.Inv.queueInit {r : Int} (hr : r < 2 ^ 31) : (queueInit r).Inv := by
  refine ⟨fun b => ChainInv.nil _ b, by simp [Tgbot.queueInit], ?_, ?_⟩ <;>
    simp only [Tgbot.queueInit] <;> split <;> omega

/-- **The invariant holds in every reachable state.** -/
theorem Queue.Reachable.inv {q : Queue} (hq : q.Reachable) : q.Inv := by
  induction hq with
  | init r hr => exact Queue.Inv.queueInit hr
  | step _ hs ih => exact ih.step hs

/-! ## The slots pending for one sender -/

/-- The slots pending for sender `u`: those of its ring, in the chain of its bucket. -/
def pendingOf (q : Queue) (u : Int64) : List Slot := chainContents (q.buckets (hashUser u)) u

theorem ChainInv.isSome_chainFind_iff {ringSize : Int} {b : Fin queueBuckets}
    {chain : List UserRing} (hc : ChainInv ringSize b chain) (v : Int64) :
    (chainFind chain v).isSome ↔ chainContents chain v ≠ [] := by
  cases hf : chainFind chain v with
  | none => simp [chainContents, hf]
  | some r => simp [chainContents, hf, (hc.linked r (chainFind_mem hf).1).contents_ne_nil]

theorem pendingOf_of_buckets_eq {q q' : Queue} {b : Fin queueBuckets} {chain : List UserRing}
    (hB : q'.buckets = Function.update q.buckets b chain) (v : Int64) :
    pendingOf q' v = if hashUser v = b then chainContents chain v else pendingOf q v := by
  by_cases hv : hashUser v = b
  · simp [pendingOf, hB, hv]
  · simp [pendingOf, hB, hv]

/-- A successful `queue_pop` delivers the oldest slot of the sender it serves and removes
exactly that slot. -/
theorem pendingOf_pop {q q' : Queue} {m : QueueMsg} (h : q.Inv)
    (hp : queuePop q = some (some m, q')) :
    ∃ s rest, pendingOf q m.userId = s :: rest ∧ m.chatId = s.chatId ∧
      m.text = slotText s.text ∧ ∀ v, pendingOf q' v = if v = m.userId then rest else pendingOf q v := by
  obtain ⟨s, hs, hc, ht⟩ := queuePop_eq_popped hp
  obtain ⟨i, -, -, r, rs, hb, rfl, hu, rfl⟩ := ringPopAny_eq_some h hs
  have hci := hb ▸ h.chain (bucketOf (q.rrBucket + i))
  have hl := hci.linked r (List.mem_cons_self _ _)
  obtain ⟨-, -, hcont⟩ := hci.pop
  have hhash : hashUser m.userId = bucketOf (q.rrBucket + i) := hu ▸ hl.hash_eq
  refine ⟨r.pop.1, r.pop.2.contents, ?_, hc, ht, fun v => ?_⟩
  · rw [pendingOf, hhash, hb, chainContents_cons, if_pos hu.symm,
      UserRing.contents_pop hl.inv hl.count_pos]
  · rw [pendingOf_of_buckets_eq rfl v, hcont v, hu]
    by_cases hv : v = r.userId
    · subst hv
      simp [hl.hash_eq, chainContents_cons, UserRing.contents_pop hl.inv hl.count_pos]
    · rw [if_neg hv, if_neg hv]
      by_cases hvb : hashUser v = bucketOf (q.rrBucket + i)
      · rw [if_pos hvb, pendingOf, hvb, hb]
      · rw [if_neg hvb]

/-- **What `queue_push` does to the pending slots**, under the invariant: when the sender
has fewer than `cap` slots pending and, having none, its ring can be allocated, it returns 0
and appends the new slot to the sender's slots; otherwise it returns -1 and changes
nothing. -/
theorem pendingOf_push {q : Queue} (h : q.Inv) (u c : Int64) (t : List UInt8) (a : Bool) :
    if (pendingOf q u).length < (roundUpPow2 q.ringSize).toNat ∧
        (pendingOf q u ≠ [] ∨ a = true) then
      (queuePush q u c t a).1 = 0 ∧ ∀ v, pendingOf (queuePush q u c t a).2 v =
        if v = u then pendingOf q u ++ [⟨c, slotText t⟩] else pendingOf q v
    else queuePush q u c t a = (-1, q) := by
  have hs := queuePush_spec h u c t a
  rw [show pendingOf q u = chainContents (q.buckets (hashUser u)) u from rfl]
  split_ifs at hs ⊢ with hok
  · obtain ⟨chain', -, -, hcont, heq⟩ := hs
    refine ⟨by rw [heq], fun v => ?_⟩
    rw [heq, pendingOf_of_buckets_eq rfl v, hcont v]
    by_cases hv : v = u
    · simp [hv, pendingOf]
    · by_cases hvb : hashUser v = hashUser u <;> simp [hv, hvb, pendingOf]
  · exact hs

/-- **The queue invariant, and what `queue_pop` gets from it.** In every reachable state each
linked ring sits in the bucket of its sender's hash, holds between 1 and `cap` messages for a
power-of-two `cap`, with `head` and `tail` in range and `tail = (head + count) mod cap`; the
senders of each chain are distinct, so no ring is linked twice and no two linked rings belong
to one sender; `total_pending` is the sum of the counts; and the
cursor is a bucket. Hence `ring_pop_any` finds a message whenever `total_pending > 0`, the
"spurious wakeup" exit of `queue_pop` is never taken, and a pop unlinks the served ring exactly
when its count drops to zero. -/
theorem queue_invariant {q : Queue} (hq : q.Reachable) :
    (∀ b, ∀ r ∈ q.buckets b, hashUser r.userId = b ∧ 1 ≤ r.count ∧ r.count ≤ r.cap ∧
      (∃ k, r.cap = 2 ^ k) ∧ r.head < r.cap ∧ r.tail < r.cap ∧
      r.tail = (r.head + r.count) % r.cap) ∧
    (∀ b, ((q.buckets b).map UserRing.userId).Nodup) ∧
    (∀ b b', ∀ r ∈ q.buckets b, ∀ r' ∈ q.buckets b', r.userId = r'.userId → b = b' ∧ r = r') ∧
    q.totalPending = ∑ b, ((q.buckets b).map UserRing.count).sum ∧
    q.rrBucket.val < queueBuckets ∧
    (0 < q.totalPending → (ringPopAny q).isSome) ∧
    (∀ q', queuePop q = some (none, q') → q.shutdown = true ∧ q.totalPending = 0) ∧
    (∀ m q', queuePop q = some (some m, q') → ∀ v,
      (chainFind (q'.buckets (hashUser v)) v).isSome ↔
        if v = m.userId then 1 < (pendingOf q v).length
        else (chainFind (q.buckets (hashUser v)) v).isSome) := by
  have h := hq.inv
  refine ⟨fun b r hr => ?_, fun b => (h.chain b).nodup, fun b b' r hr r' hr' hid => ?_, h.total_eq,
    q.rrBucket.isLt,
    ringPopAny_isSome h, fun q' hp => (queuePop_eq_ended h hp).2, fun m q' hp v => ?_⟩
  · have hl := (h.chain b).linked r hr
    exact ⟨hl.hash_eq, hl.count_pos, hl.inv.count_le, hl.inv.cap_pow, hl.inv.head_lt,
      hl.inv.tail_eq ▸ Nat.mod_lt _ hl.inv.cap_pos, hl.inv.tail_eq⟩
  · have hb : b = b' := by
      rw [← ((h.chain b).linked r hr).hash_eq, ← ((h.chain b').linked r' hr').hash_eq, hid]
    subst hb
    exact ⟨rfl, List.inj_on_of_nodup_map (h.chain b).nodup hr hr' hid⟩
  · have h' := h.pop hp
    obtain ⟨s, rest, hm, -, -, hrest⟩ := pendingOf_pop h hp
    rw [(h'.chain _).isSome_chainFind_iff, (h.chain _).isSome_chainFind_iff]
    change pendingOf q' v ≠ [] ↔ if v = m.userId then 1 < (pendingOf q v).length
      else pendingOf q v ≠ []
    rw [hrest v]
    by_cases hv : v = m.userId
    · subst hv; simp [hm, List.length_pos]
    · simp [hv]

/-- The invariant after `queue_push (42, 7, "hi")` on `queue_init (30)`, one ring linked. -/
theorem queue_invariant_after_push :
    let q := (queuePush (queueInit 30) (Int64.ofInt 42) (Int64.ofInt 7) (bytes "hi") true).2
    q.Reachable ∧
    (∀ b, ∀ r ∈ q.buckets b, hashUser r.userId = b ∧ 1 ≤ r.count ∧
      r.count ≤ r.cap ∧ (∃ k, r.cap = 2 ^ k) ∧ r.head < r.cap ∧ r.tail < r.cap ∧
      r.tail = (r.head + r.count) % r.cap) ∧
    (∀ b, ((q.buckets b).map UserRing.userId).Nodup) ∧
    (∀ b b', ∀ r ∈ q.buckets b, ∀ r' ∈ q.buckets b', r.userId = r'.userId → b = b' ∧ r = r') ∧
    q.totalPending = ∑ b, ((q.buckets b).map UserRing.count).sum ∧
    q.rrBucket.val < queueBuckets ∧
    (0 < q.totalPending → (ringPopAny q).isSome) ∧
    (∀ q', queuePop q = some (none, q') → q.shutdown = true ∧ q.totalPending = 0) ∧
    (∀ m q', queuePop q = some (some m, q') → ∀ v,
      (chainFind (q'.buckets (hashUser v)) v).isSome ↔
        if v = m.userId then 1 < (pendingOf q v).length
        else (chainFind (q.buckets (hashUser v)) v).isSome) := by
  intro q
  have hq : q.Reachable := .step (.init 30 (by decide))
    (show queueStep (queueInit 30) (.push (Int64.ofInt 42) (Int64.ofInt 7) (bytes "hi") true) =
      some (_, q) from rfl)
  exact ⟨hq, queue_invariant hq⟩

end Tgbot
