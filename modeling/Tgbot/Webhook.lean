import Mathlib.Data.Nat.Bitwise
import Tgbot.Basic

/-!
# The webhook request handler

libmicrohttpd calls `on_request` several times for one request: a first call, in which it
takes a `PostBody` from `pb_acquire`; one upload call per chunk of the body, which appends
the chunk to the buffer or marks the body oversized; and a final call, which checks the
method, the URL and the headers, queues the status and hands the parsed body to
`update_cb`.

The server, the connection and the pool's mutex are left out. `cJSON_Parse` is not part of
the source: it is a parameter, applied to the C string the buffer holds.

## Main definitions

* `ctStrcmp`: the constant-time comparison of the secret
* `ctStrcmpLoop`, `ctStrcmpRun`: its loop, with the iterations it runs and the bytes it reads
* `PostBody`, `onUpload`, `onRequestFinal`: the buffer and the two kinds of call
* `webhookRequest`: one request, from its first call to its final one
* `webhookSpec`: the verdict the interface promises, as a function of the whole body

## Main results

* `ct_strcmp_reads_to_terminators`: `ct_strcmp` is 0 exactly on equal C strings, and its loop
  runs once per position up to the longer terminator, reading each string up to its own
* `onUploads_of_lt`, `onUploads_of_ge`: what the upload calls leave, for every chunking
* `webhookRequest_eq_spec`: the handler gives the promised verdict for every body whose
  length is not exactly `RESPONSE_BUF_MAX`
-/

namespace Tgbot

/-- `RESPONSE_BUF_MAX` (`config.h`). -/
def responseBufMax : Nat := 512 * 1024

/-! ## `ct_strcmp` -/

/-- **`ct_strcmp`**: 0 when the C strings `a` and `b` are equal. The lengths' exclusive or,
cut to an `unsigned char`, starts the result, and every position up to the longer
terminator is compared; the result never leaves `[0, 256)`, so it is computed on `Nat`. -/
def ctStrcmp (a b : List UInt8) : Int :=
  let alen := strlen a
  let blen := strlen b
  let maxlen := max alen blen
  let result := (alen ^^^ blen) % 256
  let result := (List.range (maxlen + 1)).foldl (fun r i =>
    let ca := if i < alen + 1 then (a.getD i 0).toNat else 0
    let cb := if i < blen + 1 then (b.getD i 0).toNat else 0
    r ||| (ca ^^^ cb)) result
  if result ≠ 0 then 1 else 0

/-- What the loop of `ct_strcmp` does: the `result` it leaves, the iterations it runs, and the
indices of `a` and of `b` it reads, in order. -/
structure CtLoopRun where
  result : Nat
  iterations : Nat
  readsA : List Nat
  readsB : List Nat

/-- **The loop of `ct_strcmp`**, `for (; i <= maxlen; i++)` from `i` with `result` so far: it
reads `a[i]` only when `i < alen + 1`, and `b[i]` only when `i < blen + 1`. `fuel` bounds the
iterations. -/
def ctStrcmpLoop (a b : List UInt8) (alen blen maxlen : Nat) : Nat → Nat → Nat → CtLoopRun
  | 0, _, result => ⟨result, 0, [], []⟩
  | fuel + 1, i, result =>
    if i ≤ maxlen then
      let ca := if i < alen + 1 then (a.getD i 0).toNat else 0
      let cb := if i < blen + 1 then (b.getD i 0).toNat else 0
      let run := ctStrcmpLoop a b alen blen maxlen fuel (i + 1) (result ||| (ca ^^^ cb))
      ⟨run.result, run.iterations + 1, (if i < alen + 1 then [i] else []) ++ run.readsA,
        (if i < blen + 1 then [i] else []) ++ run.readsB⟩
    else ⟨result, 0, [], []⟩

/-- The loop as `ct_strcmp` starts it, at `i = 0` after the lengths' exclusive or, with at most
`fuel` iterations. -/
def ctStrcmpRun (a b : List UInt8) (fuel : Nat) : CtLoopRun :=
  ctStrcmpLoop a b (strlen a) (strlen b) (max (strlen a) (strlen b)) fuel 0
    ((strlen a ^^^ strlen b) % 256)

/-! ## `on_request` -/

/-- A `PostBody`: the bytes written to `data`, the length `len` and the capacity `cap`. -/
structure PostBody where
  data : List UInt8
  len : Nat
  cap : Nat

/-- The request as `on_request` reads it: the method, the URL and the two headers it looks
up, as C strings. -/
structure WebhookRequest where
  method : List UInt8
  url : List UInt8
  secretHeader : Option (List UInt8)
  contentType : Option (List UInt8)

/-- What `webhook_start` and `webhook_set_update_cb` leave in `g_webhook`: the secret, and
whether an update callback is set. -/
structure WebhookConfig where
  secret : List UInt8
  hasUpdateCb : Bool

/-- The doubling loop of `on_request`'s buffer growth, from capacity `c` until it holds
`need` bytes; the fuel bounds the doublings. -/
def growCap (need : Nat) : Nat → Nat → Nat
  | 0, c => c
  | fuel + 1, c => if c < need then growCap need fuel (2 * c) else c

/-- **An upload call of `on_request`** with the chunk `upload`; `reallocOk` is whether
`realloc` succeeds if the buffer has to grow. A body that would not fit with its terminator
is marked oversized; a chunk `realloc` fails for is dropped. -/
def onUpload (pb : PostBody) (upload : List UInt8) (reallocOk : Bool) : PostBody :=
  let need := pb.len + upload.length + 1
  if need > responseBufMax then { pb with len := responseBufMax + 1 }
  else if need > pb.cap then
    if reallocOk then
      ⟨pb.data.take pb.len ++ upload, pb.len + upload.length,
        growCap need need (if pb.cap = 0 then 4096 else pb.cap * 2)⟩
    else pb
  else ⟨pb.data.take pb.len ++ upload, pb.len + upload.length, pb.cap⟩

/-- The end of the final call, for a request that passed the checks: 413 on a body marked
oversized, else 200, the tree `cJSON_Parse` builds from a non-empty buffer handed to
`update_cb` when one is set. The buffer holds data exactly when `cap > 0`. -/
def onRequestBody {α : Type} (cfg : WebhookConfig) (cJSONParse : List UInt8 → Option α)
    (pb : PostBody) : Nat × Option α :=
  if pb.len > responseBufMax then (413, none)
  else if 0 < pb.cap ∧ 0 < pb.len then
    match cJSONParse (cstr pb.data) with
    | some root => (200, if cfg.hasUpdateCb then some root else none)
    | none => (200, none)
  else (200, none)

/-- **The final call of `on_request`**: the status it queues, and the tree `update_cb` is
called on, if it is called. -/
def onRequestFinal {α : Type} (cfg : WebhookConfig) (cJSONParse : List UInt8 → Option α)
    (req : WebhookRequest) (pb : PostBody) : Nat × Option α :=
  if req.method ≠ bytes "POST" ∨ req.url ≠ bytes "/webhook" then (404, none)
  else if cstr cfg.secret ≠ [] ∧ req.secretHeader.elim true (ctStrcmp · cfg.secret ≠ 0) then
    (403, none)
  else if req.contentType.elim true
      (fun ct => !strncasecmpEq (cstr ct) (bytes "application/json") 16) then (415, none)
  else onRequestBody cfg cJSONParse pb

/-- The upload calls of a request, each chunk with whether its `realloc` succeeds. -/
def onUploads (pb : PostBody) (chunks : List (List UInt8 × Bool)) : PostBody :=
  chunks.foldl (fun pb c => onUpload pb c.1 c.2) pb

/-- **One request**: `pb` is the buffer the first call took from `pb_acquire` (its `len`
reset to 0), then come the upload calls and the final call. -/
def webhookRequest {α : Type} (cfg : WebhookConfig) (cJSONParse : List UInt8 → Option α)
    (req : WebhookRequest) (pb : PostBody) (chunks : List (List UInt8 × Bool)) :
    Nat × Option α :=
  onRequestFinal cfg cJSONParse req (onUploads pb chunks)

/-- The verdict the interface promises on the body of a request that passed the checks: 413
over 512 KiB, else 200, the update handed on when the body is non-empty and parses. -/
def webhookSpecBody {α : Type} (cfg : WebhookConfig) (cJSONParse : List UInt8 → Option α)
    (body : List UInt8) : Nat × Option α :=
  if body.length > responseBufMax then (413, none)
  else if body ≠ [] then
    match cJSONParse (cstr body) with
    | some root => (200, if cfg.hasUpdateCb then some root else none)
    | none => (200, none)
  else (200, none)

/-- The verdict the webhook's interface promises on a request whose body is `body`: 404 off
`POST /webhook`; 403 when a secret is set and the header is missing or differs; 415 unless
the content type's first 16 bytes are `application/json` up to case; then as
`webhookSpecBody`. -/
def webhookSpec {α : Type} (cfg : WebhookConfig) (cJSONParse : List UInt8 → Option α)
    (req : WebhookRequest) (body : List UInt8) : Nat × Option α :=
  if req.method ≠ bytes "POST" ∨ req.url ≠ bytes "/webhook" then (404, none)
  else if cstr cfg.secret ≠ [] ∧ req.secretHeader.elim true (cstr · ≠ cstr cfg.secret) then
    (403, none)
  else if req.contentType.elim true
      (fun ct => ((cstr ct).take 16).map toLower ≠ bytes "application/json") then (415, none)
  else webhookSpecBody cfg cJSONParse body

/-! ## `ct_strcmp` compares C strings -/

theorem lor_eq_zero_iff {a b : Nat} : a ||| b = 0 ↔ a = 0 ∧ b = 0 := by
  refine ⟨fun h => ⟨Nat.eq_of_testBit_eq fun i => ?_, Nat.eq_of_testBit_eq fun i => ?_⟩,
    fun ⟨ha, hb⟩ => by rw [ha, hb]; rfl⟩ <;>
  · have := congrArg (Nat.testBit · i) h
    simp only [Nat.testBit_or, Nat.zero_testBit, Bool.or_eq_false_iff] at this
    simp [this]

theorem foldl_lor_eq_zero_iff (f : Nat → Nat) : ∀ (l : List Nat) (r : Nat),
    l.foldl (fun r i => r ||| f i) r = 0 ↔ r = 0 ∧ ∀ i ∈ l, f i = 0
  | [], r => by simp
  | i :: l, r => by
    simp only [List.foldl_cons, foldl_lor_eq_zero_iff f l, lor_eq_zero_iff, List.mem_cons,
      forall_eq_or_imp, and_assoc]

/-- **`ct_strcmp` returns 0 exactly on equal C strings.** -/
theorem ctStrcmp_eq_zero_iff (a b : List UInt8) : ctStrcmp a b = 0 ↔ cstr a = cstr b := by
  have key : ctStrcmp a b = 0 ↔ (strlen a ^^^ strlen b) % 256 = 0 ∧
      ∀ i ∈ List.range (max (strlen a) (strlen b) + 1),
        (if i < strlen a + 1 then (a.getD i 0).toNat else 0) ^^^
          (if i < strlen b + 1 then (b.getD i 0).toNat else 0) = 0 := by
    simp only [ctStrcmp]
    rw [← foldl_lor_eq_zero_iff]
    split_ifs with hR
    · exact ⟨fun h => absurd h one_ne_zero, fun h => absurd h hR⟩
    · exact ⟨fun _ => not_not.1 hR, fun _ => rfl⟩
  -- the bytes the loop compares at `i`: the string's, then its terminator
  have byte : ∀ (t : List UInt8) (i : Nat), i ≤ strlen t →
      t.getD i 0 = if h : i < strlen t then (cstr t)[i] else 0 := fun t i hi => by
    split_ifs with h
    · exact getD_of_lt_strlen t i h
    · rw [show i = strlen t by omega, getD_strlen]
  rw [key]
  constructor
  · rintro ⟨-, h⟩
    have hi : ∀ i, i ≤ strlen a → i ≤ strlen b → a.getD i 0 = b.getD i 0 := fun i ha hb =>
      UInt8.toNat.inj (Nat.xor_eq_zero.1 (by
        simpa [Nat.lt_succ_of_le ha, Nat.lt_succ_of_le hb] using
          h i (List.mem_range.2 (by omega))))
    have hlen : strlen a = strlen b := by
      by_contra hne
      rcases Nat.lt_or_gt_of_ne hne with hlt | hlt
      · have := hi _ le_rfl hlt.le
        rw [getD_strlen, getD_of_lt_strlen b _ hlt] at this
        exact zero_not_mem_cstr b (this ▸ List.getElem_mem _)
      · have := hi _ hlt.le le_rfl
        rw [getD_strlen, getD_of_lt_strlen a _ hlt] at this
        exact zero_not_mem_cstr a (this.symm ▸ List.getElem_mem _)
    refine List.ext_getElem hlen fun i h1 h2 => ?_
    have := hi i (Nat.le_of_lt h1) (Nat.le_of_lt (hlen ▸ h1))
    rwa [getD_of_lt_strlen a i h1, getD_of_lt_strlen b i (hlen ▸ h1)] at this
  · intro heq
    have hlen : strlen a = strlen b := by rw [strlen, strlen, heq]
    refine ⟨by rw [hlen, Nat.xor_self], fun i hi => Nat.xor_eq_zero.2 ?_⟩
    rw [List.mem_range, hlen, max_self] at hi
    rw [if_pos (by omega), if_pos (by omega), byte a i (by omega), byte b i (by omega)]
    by_cases h : i < strlen b
    · rw [dif_pos (hlen ▸ h), dif_pos h, List.getElem_of_eq heq]
    · rw [dif_neg (hlen ▸ h), dif_neg h]

/-! ## The loop of `ct_strcmp` -/

/-- The index the loop reads at `i`, before the reads from `i + 1` on to `n`. -/
theorem ite_append_range' (i n : Nat) :
    (if i < n then [i] else []) ++ List.range' (i + 1) (n - (i + 1)) = List.range' i (n - i) := by
  split_ifs with h
  · rw [show n - i = n - (i + 1) + 1 by omega, List.range'_succ]
    rfl
  · rw [show n - (i + 1) = 0 by omega, show n - i = 0 by omega]
    rfl

section Loop

variable (a b : List UInt8) {alen blen maxlen : Nat}

/-- **What the loop does from `i`**, given fuel enough to reach `maxlen`: it ors in the bytes
of the positions `i..maxlen`, runs once for each, and reads `a` and `b` at the positions up to
their terminators. -/
theorem ctStrcmpLoop_eq (ha : alen ≤ maxlen) (hb : blen ≤ maxlen) :
    ∀ fuel i r, maxlen + 1 ≤ i + fuel →
      ctStrcmpLoop a b alen blen maxlen fuel i r =
        ⟨(List.range' i (maxlen + 1 - i)).foldl (fun r j =>
            r ||| ((if j < alen + 1 then (a.getD j 0).toNat else 0) ^^^
              (if j < blen + 1 then (b.getD j 0).toNat else 0))) r,
          maxlen + 1 - i, List.range' i (alen + 1 - i), List.range' i (blen + 1 - i)⟩
  | 0, i, r, h => by
    simp only [ctStrcmpLoop, show maxlen + 1 - i = 0 by omega, show alen + 1 - i = 0 by omega,
      show blen + 1 - i = 0 by omega, List.range'_zero, List.foldl_nil]
  | fuel + 1, i, r, h => by
    by_cases hi : i ≤ maxlen
    · have ih := fun r => ctStrcmpLoop_eq ha hb fuel (i + 1) r (by omega)
      simp only [ctStrcmpLoop, if_pos hi, ih, ite_append_range']
      rw [show maxlen + 1 - i = maxlen + 1 - (i + 1) + 1 by omega, List.range'_succ,
        List.foldl_cons]
    · simp only [ctStrcmpLoop, if_neg hi, show maxlen + 1 - i = 0 by omega,
        show alen + 1 - i = 0 by omega, show blen + 1 - i = 0 by omega, List.range'_zero,
        List.foldl_nil]

end Loop

theorem ctStrcmpRun_eq (a b : List UInt8) {fuel : Nat}
    (hfuel : max (strlen a) (strlen b) + 1 ≤ fuel) :
    ctStrcmpRun a b fuel =
      ⟨(List.range (max (strlen a) (strlen b) + 1)).foldl (fun r j =>
          r ||| ((if j < strlen a + 1 then (a.getD j 0).toNat else 0) ^^^
            (if j < strlen b + 1 then (b.getD j 0).toNat else 0))) ((strlen a ^^^ strlen b) % 256),
        max (strlen a) (strlen b) + 1, List.range (strlen a + 1), List.range (strlen b + 1)⟩ := by
  rw [ctStrcmpRun, ctStrcmpLoop_eq a b (le_max_left _ _) (le_max_right _ _) fuel 0 _ (by omega)]
  simp only [Nat.sub_zero, List.range_eq_range']

/-- **`ct_strcmp` returns 0 exactly on equal C strings, and its loop runs once per position up
to the longer terminator, reading each string up to its own terminator and no further**: for
every fuel that lets the loop end, it runs `max (strlen a, strlen b) + 1` times, reads `a` at
`0..strlen a` and `b` at `0..strlen b`, each once and in order, and leaves the result
`ct_strcmp` returns. -/
theorem ct_strcmp_reads_to_terminators (a b : List UInt8) :
    (ctStrcmp a b = 0 ↔ cstr a = cstr b) ∧
      ∀ fuel, max (strlen a) (strlen b) + 1 ≤ fuel →
        (ctStrcmpRun a b fuel).iterations = max (strlen a) (strlen b) + 1 ∧
        (ctStrcmpRun a b fuel).readsA = List.range (strlen a + 1) ∧
        (ctStrcmpRun a b fuel).readsB = List.range (strlen b + 1) ∧
        ctStrcmp a b = if (ctStrcmpRun a b fuel).result ≠ 0 then 1 else 0 :=
  ⟨ctStrcmp_eq_zero_iff a b, fun _ hfuel => by
    rw [ctStrcmpRun_eq a b hfuel]
    exact ⟨rfl, rfl, rfl, rfl⟩⟩

/-- A secret and a header one byte longer, whose lengths differ: four iterations. -/
theorem ct_strcmp_reads_secret_and_longer :
    max (strlen (bytes "abc")) (strlen (bytes "abcd")) + 1 ≤ 5 ∧
      (ctStrcmpRun (bytes "abc") (bytes "abcd") 5).iterations =
          max (strlen (bytes "abc")) (strlen (bytes "abcd")) + 1 ∧
        (ctStrcmpRun (bytes "abc") (bytes "abcd") 5).readsA = List.range (strlen (bytes "abc") + 1) ∧
        (ctStrcmpRun (bytes "abc") (bytes "abcd") 5).readsB =
          List.range (strlen (bytes "abcd") + 1) ∧
        ctStrcmp (bytes "abc") (bytes "abcd") =
          if (ctStrcmpRun (bytes "abc") (bytes "abcd") 5).result ≠ 0 then 1 else 0 :=
  ⟨by decide, ((ct_strcmp_reads_to_terminators (bytes "abc") (bytes "abcd")).2 5 (by decide))⟩

/-! ## Accumulating the body -/

theorem le_growCap (need : Nat) : ∀ fuel c, 0 < c → need ≤ c + fuel → need ≤ growCap need fuel c
  | 0, c, _, h => by simpa [growCap] using h
  | fuel + 1, c, hc, h => by
    rw [growCap]
    split_ifs with hlt
    · exact le_growCap need fuel (2 * c) (by omega) (by omega)
    · omega

/-- With `realloc` succeeding, an upload call either marks the body oversized or appends the
chunk, leaving room for the terminator. -/
theorem onUpload_eq (pb : PostBody) (upload : List UInt8) :
    (responseBufMax < pb.len + upload.length + 1 ∧
        onUpload pb upload true = { pb with len := responseBufMax + 1 }) ∨
      (pb.len + upload.length + 1 ≤ responseBufMax ∧ ∃ cap, pb.len + upload.length < cap ∧
        onUpload pb upload true = ⟨pb.data.take pb.len ++ upload, pb.len + upload.length, cap⟩) := by
  unfold onUpload
  by_cases h₁ : pb.len + upload.length + 1 > responseBufMax
  · exact .inl ⟨h₁, by rw [if_pos h₁]⟩
  refine .inr ⟨by omega, ?_⟩
  rw [if_neg h₁]
  by_cases h₂ : pb.len + upload.length + 1 > pb.cap
  · refine ⟨_, ?_, by rw [if_pos h₂, if_pos rfl]⟩
    have := le_growCap (pb.len + upload.length + 1) (pb.len + upload.length + 1)
      (if pb.cap = 0 then 4096 else pb.cap * 2) (by split_ifs <;> omega) (by omega)
    omega
  · exact ⟨pb.cap, by omega, by rw [if_neg h₂]⟩

theorem len_onUpload (pb : PostBody) (upload : List UInt8) :
    (onUpload pb upload true).len = if responseBufMax < pb.len + upload.length + 1 then
      responseBufMax + 1 else pb.len + upload.length := by
  rcases onUpload_eq pb upload with ⟨h, he⟩ | ⟨h, cap, -, he⟩
  · rw [he, if_pos h]
  · rw [he, if_neg (by omega)]

section Uploads

variable {chunks : List (List UInt8 × Bool)}

/-- Once a body is marked oversized, or reaches `RESPONSE_BUF_MAX` bytes with the chunks
still to come, the upload calls leave it marked. -/
theorem onUploads_of_ge (hok : ∀ c ∈ chunks, c.2 = true) :
    ∀ pb : PostBody, pb.len ≠ responseBufMax →
      responseBufMax ≤ pb.len + (chunks.flatMap Prod.fst).length →
      responseBufMax < (onUploads pb chunks).len := by
  induction chunks with
  | nil => intro pb h₁ h₂; simp only [List.flatMap_nil, List.length_nil] at h₂; exact
      lt_of_le_of_ne (by simpa using h₂) (Ne.symm h₁)
  | cons c cs ih =>
    intro pb h₁ h₂
    obtain ⟨⟨upload, ok⟩, rfl⟩ : ∃ x, c = x := ⟨c, rfl⟩
    obtain rfl : ok = true := hok _ (List.mem_cons_self _ _)
    simp only [List.flatMap_cons, List.length_append] at h₂
    have hlen := len_onUpload pb upload
    refine ih (fun c hc => hok c (List.mem_cons_of_mem _ hc)) (onUpload pb upload true) ?_ ?_ <;>
      split_ifs at hlen <;> omega

/-- A body that stays under `RESPONSE_BUF_MAX` is appended whole, with room for its
terminator. -/
theorem onUploads_of_lt (hok : ∀ c ∈ chunks, c.2 = true) :
    ∀ pb : PostBody, pb.data.length = pb.len → pb.len < pb.cap →
      pb.len + (chunks.flatMap Prod.fst).length < responseBufMax →
      ∃ cap, pb.len + (chunks.flatMap Prod.fst).length < cap ∧
        onUploads pb chunks = ⟨pb.data ++ chunks.flatMap Prod.fst,
          pb.len + (chunks.flatMap Prod.fst).length, cap⟩ := by
  induction chunks with
  | nil => intro pb _ hcap _; exact ⟨pb.cap, by simpa using hcap, by simp [onUploads]⟩
  | cons c cs ih =>
    intro pb hdata _ hB
    obtain ⟨⟨upload, ok⟩, rfl⟩ : ∃ x, c = x := ⟨c, rfl⟩
    obtain rfl : ok = true := hok _ (List.mem_cons_self _ _)
    simp only [List.flatMap_cons, List.length_append] at hB ⊢
    rcases onUpload_eq pb upload with ⟨h, -⟩ | ⟨-, cap₁, hcap₁, he⟩
    · omega
    obtain ⟨cap, hcap, hrest⟩ := ih (fun c hc => hok c (List.mem_cons_of_mem _ hc))
      ⟨pb.data.take pb.len ++ upload, pb.len + upload.length, cap₁⟩
      (by simp [hdata]) hcap₁ (by simp only; omega)
    refine ⟨cap, by simp only at hcap; omega, ?_⟩
    rw [onUploads, List.foldl_cons, he]
    simpa [List.take_of_length_le hdata.le, Nat.add_assoc] using hrest

end Uploads

/-- From a buffer reset by `pb_acquire`, a body under `RESPONSE_BUF_MAX` is the buffer's
whole content, and a non-empty one has been allocated. -/
theorem onUploads_of_len_zero {pb : PostBody} {chunks : List (List UInt8 × Bool)}
    (h0 : pb.len = 0) (hok : ∀ c ∈ chunks, c.2 = true)
    (hB : (chunks.flatMap Prod.fst).length < responseBufMax) :
    (onUploads pb chunks).len = (chunks.flatMap Prod.fst).length ∧
      (chunks.flatMap Prod.fst ≠ [] →
        (onUploads pb chunks).data = chunks.flatMap Prod.fst ∧ 0 < (onUploads pb chunks).cap) := by
  cases chunks with
  | nil => simp [onUploads, h0]
  | cons c cs =>
    obtain ⟨⟨upload, ok⟩, rfl⟩ : ∃ x, c = x := ⟨c, rfl⟩
    obtain rfl : ok = true := hok _ (List.mem_cons_self _ _)
    simp only [List.flatMap_cons, List.length_append] at hB ⊢
    rcases onUpload_eq pb upload with ⟨h, -⟩ | ⟨-, cap₁, hcap₁, he⟩
    · omega
    rw [h0] at hcap₁ he
    obtain ⟨cap, hcap, hrest⟩ := onUploads_of_lt (fun c hc => hok c (List.mem_cons_of_mem _ hc))
      ⟨[] ++ upload, 0 + upload.length, cap₁⟩ (by simp) hcap₁ (by simp only; omega)
    have hu : onUploads pb ((upload, true) :: cs) = onUploads (onUpload pb upload true) cs := rfl
    rw [hu, he, List.take_zero, hrest]
    simp only [List.nil_append, Nat.zero_add] at hcap
    exact ⟨by simp, fun _ => ⟨by simp, by simp only; omega⟩⟩

theorem onRequestBody_onUploads {α : Type} (cfg : WebhookConfig)
    (cJSONParse : List UInt8 → Option α) {pb : PostBody} {chunks : List (List UInt8 × Bool)}
    (h0 : pb.len = 0) (hok : ∀ c ∈ chunks, c.2 = true)
    (hlen : (chunks.flatMap Prod.fst).length ≠ responseBufMax) :
    onRequestBody cfg cJSONParse (onUploads pb chunks) =
      webhookSpecBody cfg cJSONParse (chunks.flatMap Prod.fst) := by
  unfold onRequestBody webhookSpecBody
  by_cases hB : (chunks.flatMap Prod.fst).length < responseBufMax
  · obtain ⟨hl, hd⟩ := onUploads_of_len_zero h0 hok hB
    have hgt : ¬(chunks.flatMap Prod.fst).length > responseBufMax := by omega
    rw [hl, if_neg hgt, if_neg hgt]
    by_cases hne : chunks.flatMap Prod.fst = []
    · rw [hne]; simp
    · obtain ⟨hdata, hcap⟩ := hd hne
      rw [if_pos ⟨hcap, List.length_pos.2 hne⟩, if_pos hne, hdata]
  · rw [if_pos (onUploads_of_ge hok pb (by rw [h0]; decide) (by omega)),
      if_pos (show (chunks.flatMap Prod.fst).length > responseBufMax by omega)]

/-- **The verdict of `on_request`**: for every split of the body into chunks, with every
allocation succeeding, the handler queues the status and calls `update_cb` as the interface
promises, except on a body of exactly `RESPONSE_BUF_MAX` bytes. -/
theorem webhookRequest_eq_spec {α : Type} (cfg : WebhookConfig)
    (cJSONParse : List UInt8 → Option α) (req : WebhookRequest) {pb : PostBody}
    {chunks : List (List UInt8 × Bool)} (h0 : pb.len = 0) (hok : ∀ c ∈ chunks, c.2 = true)
    (hlen : (chunks.flatMap Prod.fst).length ≠ responseBufMax) :
    webhookRequest cfg cJSONParse req pb chunks =
      webhookSpec cfg cJSONParse req (chunks.flatMap Prod.fst) := by
  have hsec : ∀ h, ctStrcmp h cfg.secret ≠ 0 ↔ cstr h ≠ cstr cfg.secret :=
    fun h => (ctStrcmp_eq_zero_iff h cfg.secret).not
  have hct : ∀ ct, (!strncasecmpEq (cstr ct) (bytes "application/json") 16) =
      decide (((cstr ct).take 16).map toLower ≠ bytes "application/json") := fun ct => by
    have hlow : ((bytes "application/json").take 16).map toLower = bytes "application/json" := by
      decide
    have key := strncasecmpEq_iff (cstr ct) (bytes "application/json") 16
    rw [hlow] at key
    rw [Bool.eq_iff_iff, decide_eq_true_iff, ne_eq, ← key]
    simp
  unfold webhookRequest onRequestFinal webhookSpec
  simp only [hsec, hct, onRequestBody_onUploads cfg cJSONParse h0 hok hlen]

theorem webhookRequest_eq_spec_two_chunks :
    (⟨[], 0, 0⟩ : PostBody).len = 0 ∧ (∀ c ∈ [(bytes "{}", true), (bytes " ", true)], c.2 = true) ∧
      ([(bytes "{}", true), (bytes " ", true)].flatMap Prod.fst).length ≠ responseBufMax ∧
      webhookRequest ⟨[], true⟩ (fun _ => some ())
          ⟨bytes "POST", bytes "/webhook", none, some (bytes "application/json")⟩ ⟨[], 0, 0⟩
          [(bytes "{}", true), (bytes " ", true)] =
        webhookSpec ⟨[], true⟩ (fun _ => some ())
          ⟨bytes "POST", bytes "/webhook", none, some (bytes "application/json")⟩
          ([(bytes "{}", true), (bytes " ", true)].flatMap Prod.fst) :=
  have hok : ∀ c ∈ [(bytes "{}", true), (bytes " ", true)], c.2 = true := by decide
  have hlen : ([(bytes "{}", true), (bytes " ", true)].flatMap Prod.fst).length ≠
      responseBufMax := by decide
  ⟨rfl, hok, hlen, webhookRequest_eq_spec _ _ _ rfl hok hlen⟩

/-- A JSON body of exactly `RESPONSE_BUF_MAX` bytes, `{}` and spaces, posted in one chunk
with no secret configured: the handler answers 413 and drops it, where the interface promises
200 and the update, the body not being over 512 KiB. -/
theorem webhookRequest_at_limit :
    webhookRequest ⟨[], true⟩ (fun _ => some ())
        ⟨bytes "POST", bytes "/webhook", none, some (bytes "application/json")⟩ ⟨[], 0, 0⟩
        [(bytes "{}" ++ List.replicate (responseBufMax - 2) 32, true)] = (413, none) ∧
      webhookSpec ⟨[], true⟩ (fun _ => some ())
        ⟨bytes "POST", bytes "/webhook", none, some (bytes "application/json")⟩
        (bytes "{}" ++ List.replicate (responseBufMax - 2) 32) = (200, some ()) := by
  have hlen : (bytes "{}" ++ List.replicate (responseBufMax - 2) 32).length = responseBufMax := by
    rw [List.length_append, List.length_replicate, show (bytes "{}").length = 2 by decide]
    unfold responseBufMax
    omega
  have hB : ([(bytes "{}" ++ List.replicate (responseBufMax - 2) 32, true)].flatMap
      Prod.fst).length = responseBufMax := by
    rw [List.flatMap_cons, List.flatMap_nil, List.append_nil, hlen]
  constructor
  · simp only [webhookRequest, onRequestFinal]
    rw [if_neg (by decide), if_neg (by decide), if_neg (by decide), onRequestBody,
      if_pos (onUploads_of_ge (by simp) _ (by decide) (by rw [hB]; exact Nat.le_add_left _ _))]
  · simp only [webhookSpec, webhookSpecBody]
    rw [if_neg (by decide), if_neg (by decide), if_neg (by decide), hlen, if_neg (lt_irrefl _),
      if_pos (List.ne_nil_of_length_pos (by rw [hlen]; decide))]
    rfl

/-! ## A chunk `realloc` fails for -/

/-- **A body with a dropped chunk is still dispatched.** The first chunk `{}` gets a 4096-byte
buffer; `realloc` fails for the next one, of 4094 spaces, which is dropped. The final call
parses what is left, the first chunk alone, and hands the tree to `update_cb`, whatever
`cJSON_Parse` makes of it. -/
theorem webhookRequest_after_failed_realloc {α : Type} (cJSONParse : List UInt8 → Option α) :
    (onUploads ⟨[], 0, 0⟩ [(bytes "{}", true), (List.replicate 4094 32, false)]).data =
        bytes "{}" ∧
      webhookRequest ⟨[], true⟩ cJSONParse
          ⟨bytes "POST", bytes "/webhook", none, some (bytes "application/json")⟩ ⟨[], 0, 0⟩
          [(bytes "{}", true), (List.replicate 4094 32, false)] =
        (200, cJSONParse (bytes "{}")) := by
  have h₁ : onUpload ⟨[], 0, 0⟩ (bytes "{}") true = ⟨bytes "{}", 2, 4096⟩ := rfl
  have h₂ : onUpload ⟨bytes "{}", 2, 4096⟩ (List.replicate 4094 32) false =
      ⟨bytes "{}", 2, 4096⟩ := by
    have hlen : (List.replicate 4094 (32 : UInt8)).length = 4094 := List.length_replicate _ _
    dsimp only [onUpload]
    rw [hlen, if_neg (by decide), if_pos (by decide), if_neg (by decide)]
  have hu : onUploads ⟨[], 0, 0⟩ [(bytes "{}", true), (List.replicate 4094 32, false)] =
      ⟨bytes "{}", 2, 4096⟩ := by
    rw [onUploads, List.foldl_cons, List.foldl_cons, List.foldl_nil, h₁, h₂]
  refine ⟨by rw [hu], ?_⟩
  simp only [webhookRequest, onRequestFinal, hu]
  rw [if_neg (by decide), if_neg (by decide), if_neg (by decide), onRequestBody,
    if_neg (by decide), if_pos (by decide), show cstr (bytes "{}") = bytes "{}" from rfl]
  cases cJSONParse (bytes "{}") <;> rfl

end Tgbot
