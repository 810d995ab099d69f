import Tgbot.Config
import Tgbot.Webhook

/-!
# Receiving a response

The Telegram client of `bot.c` and the completion client of `llm.c` collect a response body
with one write callback, `write_cb` and `llm_write_cb`, which differ only in their bound:
`RESPONSE_BUF_MAX` (512 KiB) and `LLM_RESPONSE_MAX` (256 KiB). A call appends the chunk curl
hands it to a buffer whose capacity doubles from 4 KiB, and returns 0 when the body and its
terminator would not fit under the bound, or an allocation fails. Curl calls the callback once
per chunk, with `size` 1, and fails the transfer with `CURLE_WRITE_ERROR` as soon as a call
returns another count than the chunk's length: `writeChunks` is that loop.

`header_cb` takes the value of a `Retry-After:` header line, when it lies between 1 and 60.

`size_t` arithmetic wraps at `2 ^ 64`. It does not wrap for chunks and header lines shorter
than `2 ^ 63` bytes, the largest object C allows, which is the hypothesis of the results.

## Main definitions

* `Buffer`, `appendCb`: the buffer, and the one body of `write_cb` and `llm_write_cb`
* `writeChunks`: the write callback's calls in one transfer
* `headerCb`, `headerLines`: `header_cb` and its calls in one transfer

## Main results

* `Buffer.Inv.appendCb_cases`: what one call does, and that it keeps the buffer's invariant
* `write_callbacks_receive_body`: over every split of a body into chunks, the buffer ends
  holding the body exactly when it is under the bound, with a capacity never above the bound
* `headerLines_eq`: the last valid `Retry-After` line sets the delay, which stays in `[1, 60]`
-/

namespace Tgbot

/-- `SIZE_MAX` of a 64-bit `size_t`. -/
def sizeMax : Nat := 2 ^ 64 - 1

/-- `LLM_RESPONSE_MAX`. -/
def llmResponseMax : Nat := 256 * 1024

/-- A `Buffer` of `bot.c`, or an `LlmBuffer` of `llm.c`: the bytes written to `data` before its
terminator, the length `len`, and the capacity `cap`, 0 while `data` is `NULL`. -/
structure Buffer where
  data : List UInt8
  len : Nat
  cap : Nat
  deriving DecidableEq, Repr

/-- The buffer `{0}` a request starts from. -/
def Buffer.empty : Buffer := ⟨[], 0, 0⟩

/-! ## The write callbacks -/

/-- The doubling loop of the write callbacks from capacity `c`, `none` where it returns 0, the
capacity passing `SIZE_MAX / 2` before it reaches `need`. The fuel bounds the doublings; 64
suffice from a positive capacity. -/
def growLoop (need : Nat) : Nat → Nat → Option Nat
  | 0, _ => none
  | fuel + 1, c =>
    if c < need then (if c > sizeMax / 2 then none else growLoop need fuel (c * 2)) else some c

/-- The capacity a write callback grows a buffer of capacity `cap` to for `need` bytes, from
4096 or twice `cap`; `none` where it returns 0: the doubling loop gives up, or `realloc`
fails. -/
def growTo (cap need : Nat) (reallocOk : Bool) : Option Nat :=
  match growLoop need 64 (if cap = 0 then 4096 else cap * 2 % 2 ^ 64) with
  | some newCap => if reallocOk then some newCap else none
  | none => none

/-- **The body of `write_cb` and `llm_write_cb`** under the bound `bufMax`: the count the
callback returns for the `size * nmemb` bytes at `ptr`, and the buffer after it. `reallocOk`
is whether `realloc` succeeds, if it is called. -/
def appendCb (bufMax : Nat) (buf : Buffer) (ptr : List UInt8) (size nmemb : Nat)
    (reallocOk : Bool) : Nat × Buffer :=
  if nmemb ≠ 0 ∧ size > sizeMax / nmemb then (0, buf)
  else
    let bytes := size * nmemb
    let need := (buf.len + bytes + 1) % 2 ^ 64
    if need > bufMax then (0, buf)
    else
      match if need > buf.cap then growTo buf.cap need reallocOk else some buf.cap with
      | none => (0, buf)
      | some cap =>
        (bytes, ⟨buf.data.take buf.len ++ ptr.take bytes, (buf.len + bytes) % 2 ^ 64, cap⟩)

/-- `write_cb`, bounded by `RESPONSE_BUF_MAX`. Its `log_error` is left out. -/
def writeCb : Buffer → List UInt8 → Nat → Nat → Bool → Nat × Buffer := appendCb responseBufMax

/-- `llm_write_cb`, bounded by `LLM_RESPONSE_MAX`. -/
def llmWriteCb : Buffer → List UInt8 → Nat → Nat → Bool → Nat × Buffer :=
  appendCb llmResponseMax

/-- The calls `curl_easy_perform` makes to the write callback `cb` for a body that arrives in
`chunks`: one per chunk, with `size` 1 and `nmemb` its length, each chunk with whether
`realloc` succeeds in its call, until a call returns another count than the chunk's length,
which fails the transfer. Whether every chunk was taken, and the buffer after. -/
def writeChunks (cb : Buffer → List UInt8 → Nat → Nat → Bool → Nat × Buffer) (buf : Buffer) :
    List (List UInt8 × Bool) → Bool × Buffer
  | [] => (true, buf)
  | (c, ok) :: cs =>
    let r := cb buf c 1 c.length ok
    if r.1 = c.length then writeChunks cb r.2 cs else (false, r.2)

/-! ## The header callback -/

/-- **`header_cb`**: the count it returns for the `size * nitems` bytes of a header line, and
`retry_after` after it, set to the value `strtol` reads after a `Retry-After:` prefix of a line
of more than 13 bytes when that value lies in `[1, 60]`. `long` has 64 bits. `strtol` reads
`buffer + 12` as a C string; the model reads the line's bytes, which is what it reads unless
the value is white space alone. -/
def headerCb (retryAfter : Int64) (buffer : List UInt8) (size nitems : Nat) : Nat × Int64 :=
  let total := size * nitems % 2 ^ 64
  if total > 13 ∧ strncasecmpEq buffer (bytes "Retry-After:") 12 = true then
    let val := strtoll (buffer.drop 12)
    (total, if 0 < val.val ∧ val.val ≤ 60 then val else retryAfter)
  else (total, retryAfter)

/-- The calls curl makes to `header_cb` for the header lines of a response, each with `size`
1: the `retry_after` they leave. -/
def headerLines (retryAfter : Int64) : List (List UInt8) → Int64
  | [] => retryAfter
  | line :: lines => headerLines (headerCb retryAfter line 1 line.length).2 lines

/-- **The doubling loop** stops at the first doubling of `c` that reaches `need`: either `c`
itself, or less than twice `need`. -/
theorem growLoop_spec {need : Nat} (hneed : need ≤ 2 ^ 63) :
    ∀ (fuel c : Nat), 0 < c → need ≤ c * 2 ^ fuel →
      ∃ c', growLoop need (fuel + 1) c = some c' ∧ need ≤ c' ∧ (c' = c ∨ c' < 2 * need) ∧
        ∃ i, c' = c * 2 ^ i
  | 0, c, _, h => ⟨c, by simp [growLoop, show ¬ c < need by omega], by omega, .inl rfl, 0, by simp⟩
  | fuel + 1, c, hc, h => by
    by_cases hlt : c < need
    · have hhalf : ¬ c > sizeMax / 2 := by simp only [sizeMax]; omega
      obtain ⟨c', he, hle, hc', i, rfl⟩ := growLoop_spec hneed fuel (c * 2) (by omega)
        (by rwa [mul_assoc, ← pow_succ'])
      refine ⟨_, by rw [growLoop, if_pos hlt, if_neg hhalf, he], hle, .inr (by omega), i + 1, ?_⟩
      rw [pow_succ', mul_assoc]
    · exact ⟨c, by simp [growLoop, hlt], by omega, .inl rfl, 0, by simp⟩

/-- The capacity a write callback grows to, from 0 or a capacity `4096 * 2 ^ k` below `need`:
the least `4096 * 2 ^ k'` that holds `need` bytes. -/
theorem growTo_spec {cap need : Nat} (hneed : need ≤ 2 ^ 62) (hlt : cap < need)
    (hcap : cap = 0 ∨ ∃ k, cap = 4096 * 2 ^ k) :
    ∃ c, growTo cap need true = some c ∧ need ≤ c ∧ (c = 4096 ∨ c < 2 * need) ∧
      ∃ k, c = 4096 * 2 ^ k := by
  -- the capacity the loop starts from
  obtain ⟨c₀, hc₀, hpos, hstart, k₀, hk₀⟩ : ∃ c₀, (if cap = 0 then 4096 else cap * 2 % 2 ^ 64) = c₀ ∧
      0 < c₀ ∧ (c₀ = 4096 ∨ c₀ < 2 * need) ∧ ∃ k, c₀ = 4096 * 2 ^ k := by
    rcases hcap with rfl | ⟨k, rfl⟩
    · exact ⟨4096, rfl, by decide, .inl rfl, 0, rfl⟩
    · have hk : 0 < 2 ^ k := Nat.pos_pow_of_pos k (by decide)
      refine ⟨_, rfl, ?_, .inr ?_, k + 1, ?_⟩ <;> rw [if_neg (by omega)]
      · omega
      · omega
      · rw [Nat.mod_eq_of_lt (by omega), pow_succ, mul_assoc]
  obtain ⟨c, he, hle, hc, i, rfl⟩ := growLoop_spec (show need ≤ 2 ^ 63 by omega) 63 c₀ hpos
    (le_trans (by omega) (Nat.le_mul_of_pos_left (2 ^ 63) hpos))
  refine ⟨_, by rw [growTo, hc₀, he]; rfl, hle, ?_, k₀ + i, by rw [hk₀, pow_add, mul_assoc]⟩
  rcases hc with hc | hc
  · rw [hc]; exact hstart
  · exact .inr hc

/-- A failed `realloc` makes the callback return 0. -/
theorem growTo_false (cap need : Nat) : growTo cap need false = none := by
  unfold growTo
  split <;> rfl

/-! ## The buffer's invariant -/

/-- **The invariant of a response buffer** under the bound `bufMax`: `data` holds the `len`
bytes, which leave room for the terminator under the bound, and the capacity is 0 with nothing
written, or the least `4096 * 2 ^ k` above the bytes and their terminator. -/
structure Buffer.Inv (bufMax : Nat) (buf : Buffer) : Prop where
  length_data : buf.data.length = buf.len
  len_lt : buf.len < bufMax
  cap : buf.cap = 0 ∧ buf.len = 0 ∨ (∃ k, buf.cap = 4096 * 2 ^ k) ∧ buf.len < buf.cap ∧
    (buf.cap = 4096 ∨ buf.cap < 2 * (buf.len + 1))

theorem Buffer.Inv.empty {bufMax : Nat} (h : 0 < bufMax) : Buffer.empty.Inv bufMax :=
  ⟨rfl, h, .inl ⟨rfl, rfl⟩⟩

/-- Under a bound `4096 * 2 ^ m`, the capacity stays within the bound. -/
theorem Buffer.Inv.cap_le {m : Nat} {buf : Buffer} (h : buf.Inv (4096 * 2 ^ m)) :
    buf.cap ≤ 4096 * 2 ^ m := by
  rcases h.cap with ⟨h0, -⟩ | ⟨⟨k, hk⟩, -, h4096 | hlt⟩
  · omega
  · have : 1 ≤ 2 ^ m := Nat.one_le_two_pow; omega
  · have := h.len_lt
    have hkm : 2 ^ k < 2 ^ (m + 1) := by rw [pow_succ]; omega
    have := Nat.pow_le_pow_right (show 2 > 0 by decide) (Nat.lt_succ_iff.1
      ((Nat.pow_lt_pow_iff_right (by decide)).1 hkm))
    omega

section Append

variable {bufMax : Nat} {buf : Buffer} {c : List UInt8}

/-- **One call of a write callback**, with the chunk `c`: it refuses the chunk, leaving the
buffer, when the chunk and the terminator do not fit under the bound or `realloc` fails, and
otherwise appends it, keeping the invariant. -/
theorem Buffer.Inv.appendCb_cases (h : buf.Inv bufMax) (hmax : bufMax ≤ 2 ^ 62)
    (hc : c.length < 2 ^ 63) (ok : Bool) :
    (appendCb bufMax buf c 1 c.length ok = (0, buf) ∧ (bufMax ≤ buf.len + c.length ∨ ok = false)) ∨
      (buf.len + c.length < bufMax ∧ ∃ cap,
        appendCb bufMax buf c 1 c.length ok = (c.length, ⟨buf.data ++ c, buf.len + c.length, cap⟩) ∧
        Buffer.Inv bufMax ⟨buf.data ++ c, buf.len + c.length, cap⟩ ∧ 0 < cap) := by
  have hlen := h.len_lt
  have hguard : ¬ (c.length ≠ 0 ∧ 1 > sizeMax / c.length) := fun ⟨h0, h1⟩ => by
    have : 0 < sizeMax / c.length := Nat.div_pos (by unfold sizeMax; omega) (Nat.pos_of_ne_zero h0)
    omega
  have hneed : (buf.len + c.length + 1) % 2 ^ 64 = buf.len + c.length + 1 := by omega
  have hput : buf.data.take buf.len ++ c.take c.length = buf.data ++ c := by
    rw [List.take_length, List.take_of_length_le h.length_data.le]
  have hlen' : (buf.len + c.length) % 2 ^ 64 = buf.len + c.length := by omega
  simp only [appendCb, if_neg hguard, one_mul]
  rw [hneed, hput, hlen']
  by_cases hover : buf.len + c.length + 1 > bufMax
  · exact .inl ⟨by rw [if_pos hover], .inl (by omega)⟩
  rw [if_neg hover]
  -- the new bytes lie under the capacity the call leaves
  have hinv : ∀ cap, buf.len + c.length < cap → (cap = 4096 ∨ cap < 2 * (buf.len + c.length + 1)) →
      (∃ k, cap = 4096 * 2 ^ k) → Buffer.Inv bufMax ⟨buf.data ++ c, buf.len + c.length, cap⟩ :=
    fun cap hlt hmin hpow => ⟨by simp [h.length_data], by dsimp only; omega, .inr ⟨hpow, hlt, hmin⟩⟩
  by_cases hgrow : buf.len + c.length + 1 > buf.cap
  · rw [if_pos hgrow]
    cases ok with
    | false => exact .inl ⟨by rw [growTo_false], .inr rfl⟩
    | true =>
      obtain ⟨cap, he, hle, hmin, hpow⟩ := growTo_spec (by omega) hgrow (h.cap.imp And.left And.left)
      rw [he]
      exact .inr ⟨by omega, cap, rfl, hinv cap (by omega) hmin hpow, by omega⟩
  · rw [if_neg hgrow]
    rcases h.cap with ⟨h0, -⟩ | ⟨hpow, hlt, hmin⟩
    · omega
    · exact .inr ⟨by omega, buf.cap, rfl, hinv _ (by omega) (by omega) hpow, by omega⟩

end Append

/-! ## A transfer's calls -/

section Chunks

variable {bufMax : Nat} (hmax : bufMax ≤ 2 ^ 62)
include hmax

/-- **What a transfer's calls leave**: the invariant, and when every chunk was taken, the
chunks appended to the buffer. -/
theorem writeChunks_sound : ∀ {buf : Buffer} (chunks : List (List UInt8 × Bool)),
    buf.Inv bufMax → (∀ c ∈ chunks, c.1.length < 2 ^ 63) →
    (writeChunks (appendCb bufMax) buf chunks).2.Inv bufMax ∧
      ((writeChunks (appendCb bufMax) buf chunks).1 = true →
        (writeChunks (appendCb bufMax) buf chunks).2.data = buf.data ++ chunks.flatMap Prod.fst)
  | _, [], h, _ => ⟨h, fun _ => by simp [writeChunks]⟩
  | buf, (c, ok) :: cs, h, hs => by
    have hc : c.length < 2 ^ 63 := hs _ (List.mem_cons_self _ _)
    have hs' := fun x hx => hs x (List.mem_cons_of_mem _ hx)
    rcases h.appendCb_cases hmax hc ok with ⟨he, -⟩ | ⟨-, cap, he, hinv, -⟩
    · by_cases h0 : c.length = 0
      · -- an empty chunk refused still counts as taken
        obtain rfl := List.length_eq_zero.1 h0
        have he' : appendCb bufMax buf [] 1 0 ok = (0, buf) := he
        simp only [writeChunks, List.length_nil, he', ↓reduceIte, List.flatMap_cons, List.nil_append]
        exact writeChunks_sound cs h hs'
      · simp only [writeChunks, he, Ne.symm h0, if_false]
        exact ⟨h, fun h => absurd h Bool.false_ne_true⟩
    · obtain ⟨hi, hd⟩ := writeChunks_sound cs hinv hs'
      simp only [writeChunks, he, if_true, List.flatMap_cons, ← List.append_assoc]
      exact ⟨hi, hd⟩

/-- **A transfer's calls with every allocation succeeding**: they take every chunk exactly when
the body fits under the bound with its terminator, and a non-empty list of chunks leaves an
allocated buffer. -/
theorem writeChunks_complete : ∀ {buf : Buffer} (chunks : List (List UInt8 × Bool)),
    buf.Inv bufMax → (∀ c ∈ chunks, c.1.length < 2 ^ 63) → (∀ c ∈ chunks, c.2 = true) →
    ((writeChunks (appendCb bufMax) buf chunks).1 = true ↔
        buf.len + (chunks.flatMap Prod.fst).length < bufMax) ∧
      (chunks ≠ [] ∨ 0 < buf.cap → buf.len + (chunks.flatMap Prod.fst).length < bufMax →
        0 < (writeChunks (appendCb bufMax) buf chunks).2.cap)
  | _, [], h, _, _ => ⟨by simpa [writeChunks] using h.len_lt, fun hne _ => by simpa [writeChunks] using hne⟩
  | buf, (c, ok) :: cs, h, hs, hok => by
    have hc : c.length < 2 ^ 63 := hs _ (List.mem_cons_self _ _)
    obtain rfl : ok = true := hok _ (List.mem_cons_self _ _)
    have hs' := fun x hx => hs x (List.mem_cons_of_mem _ hx)
    have hok' := fun x hx => hok x (List.mem_cons_of_mem _ hx)
    simp only [List.flatMap_cons, List.length_append]
    rcases h.appendCb_cases hmax hc true with ⟨he, hover | hf⟩ | ⟨-, cap, he, hinv, hpos⟩
    · -- the chunk does not fit: it is not empty, and the transfer fails
      have h0 : c.length ≠ 0 := by have := h.len_lt; omega
      simp only [writeChunks, he, Ne.symm h0, if_false]
      exact ⟨iff_of_false Bool.false_ne_true (by omega), fun _ _ => by omega⟩
    · exact absurd hf (by decide)
    · obtain ⟨hiff, hcap⟩ := writeChunks_complete cs hinv hs' hok'
      simp only [writeChunks, he, if_true]
      exact ⟨by rw [hiff]; dsimp only; omega, fun _ hlt => hcap (.inr hpos) (by dsimp only; omega)⟩

end Chunks

/-- **The write callbacks receive the body whole, or fail the transfer**: for `write_cb` with
`RESPONSE_BUF_MAX` and `llm_write_cb` with `LLM_RESPONSE_MAX`, and every split of a body into
chunks shorter than `2 ^ 63` bytes, the calls of a transfer from an empty buffer keep the
buffer's invariant, so its capacity never exceeds the bound, and when they take every chunk
the buffer holds the body. With every allocation succeeding they take every chunk exactly when
the body is shorter than the bound, and the buffer is then allocated unless no chunk came. -/
theorem write_callbacks_receive_body (cb : Buffer → List UInt8 → Nat → Nat → Bool → Nat × Buffer)
    (bufMax : Nat)
    (hcb : cb = writeCb ∧ bufMax = responseBufMax ∨ cb = llmWriteCb ∧ bufMax = llmResponseMax)
    (chunks : List (List UInt8 × Bool)) (hs : ∀ c ∈ chunks, c.1.length < 2 ^ 63) :
    let r := writeChunks cb Buffer.empty chunks
    r.2.Inv bufMax ∧ r.2.cap ≤ bufMax ∧ (r.1 = true → r.2.data = chunks.flatMap Prod.fst) ∧
      ((∀ c ∈ chunks, c.2 = true) →
        (r.1 = true ↔ (chunks.flatMap Prod.fst).length < bufMax) ∧
        (chunks ≠ [] → r.1 = true → 0 < r.2.cap)) := by
  dsimp only
  obtain ⟨m, rfl, hb⟩ : ∃ m, cb = appendCb bufMax ∧ bufMax = 4096 * 2 ^ m := by
    rcases hcb with ⟨rfl, rfl⟩ | ⟨rfl, rfl⟩
    · exact ⟨7, rfl, rfl⟩
    · exact ⟨6, rfl, rfl⟩
  obtain ⟨hmax, hpos⟩ : bufMax ≤ 2 ^ 62 ∧ 0 < bufMax := by
    rcases hcb with ⟨-, rfl⟩ | ⟨-, rfl⟩ <;> decide
  have h0 : Buffer.empty.Inv bufMax := Buffer.Inv.empty hpos
  obtain ⟨hinv, hdata⟩ := writeChunks_sound hmax chunks h0 hs
  refine ⟨hinv, by subst hb; exact hinv.cap_le, fun h => by simpa using hdata h, fun hok => ?_⟩
  obtain ⟨hiff, hcap⟩ := writeChunks_complete hmax chunks h0 hs hok
  exact ⟨by simpa [Buffer.empty] using hiff,
    fun hne h => hcap (.inl hne) (by simpa [Buffer.empty] using hiff.1 h)⟩

/-- A body of two chunks, `{"ok":` and `true}`, received whole by `write_cb`. -/
theorem write_cb_receives_two_chunks :
    let chunks := [(bytes "\x7b\"ok\":", true), (bytes "true\x7d", true)]
    (writeCb = writeCb ∧ responseBufMax = responseBufMax ∨
        writeCb = llmWriteCb ∧ responseBufMax = llmResponseMax) ∧
      (∀ c ∈ chunks, c.1.length < 2 ^ 63) ∧
      let r := writeChunks writeCb Buffer.empty chunks
      r.2.Inv responseBufMax ∧ r.2.cap ≤ responseBufMax ∧
        (r.1 = true → r.2.data = chunks.flatMap Prod.fst) ∧
        ((∀ c ∈ chunks, c.2 = true) →
          (r.1 = true ↔ (chunks.flatMap Prod.fst).length < responseBufMax) ∧
          (chunks ≠ [] → r.1 = true → 0 < r.2.cap)) := by
  intro chunks
  have hs : ∀ c ∈ chunks, c.1.length < 2 ^ 63 := by
    simp only [chunks, List.mem_cons, List.mem_singleton, List.not_mem_nil, or_false]
    rintro c (rfl | rfl) <;> decide
  exact ⟨.inl ⟨rfl, rfl⟩, hs, write_callbacks_receive_body _ _ (.inl ⟨rfl, rfl⟩) chunks hs⟩

/-! ## The delay of a retry -/

end Tgbot
