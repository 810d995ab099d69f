import Mathlib.Data.List.DropRight
import Mathlib.Data.List.Infix
import Tgbot.Basic

/-!
# Stripping the reasoning of the model

`llm_strip_think_tags` removes from a reply the `<think>` blocks that reasoning models write
before their answer. It works in place, with a read pointer `src` and a write pointer `dst`
that never passes it, so each round of its loop is a function of the bytes from `src` on: it
skips a tag or a block, drops the rest of the text after an opening tag with no close, or
copies one byte. Then it trims white space at both ends and returns the length.

The interface states the removal tag by tag: `<think/>` and `<think />` are deleted, and
`<think>` with everything up to and including the first `</think>` after it, all up to case.
`thinkRound` reads one round off those words, for a list of self-closing tags. The code's
round is `thinkRound` with a third self-closing tag, `<think/ />`: after a `/` that no `>`
follows, `after_tag` stays one byte on, and the test for ` />` runs from there.

## Main definitions

* `stripRound`, `stripWith`, `llmStripThinkTags`: the code
* `startsWithCI`, `dropThrough`, `thinkRound`, `thinkR`: the removal as the interface
  states it

## Main results

* `stripRound_eq_thinkRound`: the code's round is the interface's, with `<think/ />` as a
  third self-closing tag
* `stripWith_eq_of_length_le`: `strlen` rounds finish the loop
* `llmStripThinkTags_eq_of_no_slip`: on a text with no `<think/ />`, the code leaves what
  the interface states
-/

namespace Tgbot

/-! ## The code -/

/-- What a round of the loop of `llm_strip_think_tags` does with the bytes from `src`. -/
inductive StripAction
  /-- `src` moves on to `rest`, and nothing is written. -/
  | skip (rest : List UInt8)
  /-- An opening tag with no close: `src = end`. -/
  | stripRest
  /-- `*dst++ = *src++`. -/
  | copy
deriving DecidableEq

/-- The search for `</think>` from `close`: the bytes after the first one, or `none` when the
search reaches the end. -/
def findThinkClose : List UInt8 → Option (List UInt8)
  | [] => none
  | c :: cs =>
    if c = 60 ∧ 8 ≤ (c :: cs).length ∧ strncasecmpEq (c :: cs) (bytes "</think>") 8 then
      some ((c :: cs).drop 8)
    else findThinkClose cs

/-- One round of the loop of `llm_strip_think_tags`, on the bytes `s` from `src` to the end. -/
def stripRound (s : List UInt8) : StripAction :=
  if s.head? = some 60 ∧ 7 ≤ s.length ∧ strncasecmpEq s (bytes "<think") 6 then
    let afterTag := s.drop 6
    if afterTag.take 2 = [47, 62] then .skip (afterTag.drop 2)
    else
      -- `after_tag++` past a `/` is not undone when no `>` follows it
      let afterTag := if afterTag.head? = some 47 then afterTag.tail else afterTag
      if afterTag.take 3 = [32, 47, 62] then .skip (afterTag.drop 3)
      else if afterTag.head? = some 62 then
        match findThinkClose afterTag.tail with
        | some rest => .skip rest
        | none => .stripRest
      else .copy
  else .copy

/-- The scan of a text round by round, keeping the bytes that `round` copies; `fuel` bounds
the rounds. -/
def stripWith (round : List UInt8 → StripAction) : Nat → List UInt8 → List UInt8
  | 0, _ => []
  | _ + 1, [] => []
  | fuel + 1, c :: cs =>
    match round (c :: cs) with
    | .skip rest => stripWith round fuel rest
    | .stripRest => []
    | .copy => c :: stripWith round fuel cs

/-- The bytes `llm_strip_think_tags` trims: space, tab, newline and carriage return. -/
def isTrimSpace (c : UInt8) : Bool := c == 32 || c == 9 || c == 10 || c == 13

/-- The trimming at both ends of `llm_strip_think_tags`. -/
def trimSpaces (t : List UInt8) : List UInt8 := (t.dropWhile isTrimSpace).rdropWhile isTrimSpace

/-- **`llm_strip_think_tags`**: the C string it leaves in the buffer and the length it returns.
Every round consumes a byte, so `strlen` rounds finish the loop. -/
def llmStripThinkTags (text : List UInt8) : List UInt8 × Nat :=
  let out := trimSpaces (stripWith stripRound (strlen text) (cstr text))
  (out, out.length)

/-! ## The removal the interface states -/

/-- Whether `s` starts with `tag` up to case. -/
def startsWithCI : List UInt8 → List UInt8 → Bool
  | [], _ => true
  | _ :: _, [] => false
  | b :: tag, x :: s => toLower x == toLower b && startsWithCI tag s

/-- What follows the first occurrence of `tag` in `s` up to case, or `none`. -/
def dropThrough (tag : List UInt8) : List UInt8 → Option (List UInt8)
  | [] => none
  | c :: cs =>
    if startsWithCI tag (c :: cs) then some ((c :: cs).drop tag.length) else dropThrough tag cs

/-- **A round of the removal as the interface states it**, at the position `s` of the scan:
a tag of `selfClosing` is deleted; `<think>` is deleted with everything up to and including
the first `</think>` after it, or with the whole remainder when none follows; any other byte
is kept. Tags match up to case. -/
def thinkRound (selfClosing : List (List UInt8)) (s : List UInt8) : StripAction :=
  match selfClosing.find? fun tag => startsWithCI tag s with
  | some tag => .skip (s.drop tag.length)
  | none =>
    if startsWithCI (bytes "<think>") s then
      match dropThrough (bytes "</think>") (s.drop 7) with
      | some rest => .skip rest
      | none => .stripRest
    else .copy

/-- The self-closing tags of the interface. -/
def thinkSelfClosing : List (List UInt8) := [bytes "<think/>", bytes "<think />"]

/-- **`R s`**: the removal the interface states, scanning `s` from left to right. -/
def thinkR (s : List UInt8) : List UInt8 := stripWith (thinkRound thinkSelfClosing) s.length s

/-! ## Matching up to case -/

@[simp] theorem startsWithCI_nil (s : List UInt8) : startsWithCI [] s = true := by
  cases s <;> rfl

@[simp] theorem startsWithCI_cons_nil (b : UInt8) (tag : List UInt8) :
    startsWithCI (b :: tag) [] = false := rfl

@[simp] theorem startsWithCI_cons_cons (b x : UInt8) (tag s : List UInt8) :
    startsWithCI (b :: tag) (x :: s) = (toLower x == toLower b && startsWithCI tag s) := rfl

theorem startsWithCI_append : ∀ (p q s : List UInt8),
    startsWithCI (p ++ q) s = (startsWithCI p s && startsWithCI q (s.drop p.length))
  | [], _, _ => by simp
  | _ :: _, _, [] => rfl
  | _ :: p, q, _ :: s => by simp [startsWithCI_append p q s, Bool.and_assoc]

theorem length_le_of_startsWithCI :
    ∀ {tag s : List UInt8}, startsWithCI tag s = true → tag.length ≤ s.length
  | [], _, _ => Nat.zero_le _
  | _ :: _, [], h => nomatch h
  | _ :: _, _ :: _, h => by
    simp only [startsWithCI_cons_cons, Bool.and_eq_true] at h
    simpa using length_le_of_startsWithCI h.2

/-- `strncasecmp` against the first `n` bytes of a literal at least that long. -/
theorem strncasecmpEq_eq_startsWithCI : ∀ (s lit : List UInt8) (n : Nat), n ≤ lit.length →
    strncasecmpEq s lit n = startsWithCI (lit.take n) s
  | _, _, 0, _ => by simp [strncasecmpEq]
  | [], [], _ + 1, h => absurd h (by simp)
  | _ :: _, [], _ + 1, h => absurd h (by simp)
  | [], _ :: _, _ + 1, _ => rfl
  | _ :: s, _ :: lit, n + 1, h => by
    simp [strncasecmpEq, strncasecmpEq_eq_startsWithCI s lit n (by simpa using h)]

/-- The bytes of the tags besides the letters of `think`: `tolower` gives their own case of
them from themselves only. -/
theorem toLower_eq_punct_iff (x : UInt8) {b : UInt8} (hb : b ∈ [32, 47, 60, 62]) :
    toLower x = toLower b ↔ x = b := by
  have hb' : toLower b = b ∧ b.toBitVec.toNat < 65 := by
    simp only [List.mem_cons, List.not_mem_nil, or_false] at hb
    rcases hb with rfl | rfl | rfl | rfl <;> decide
  rw [hb'.1, toLower]
  -- a capital lowers past every byte below `A`
  split_ifs with h
  · simp only [uint8_eq_iff_toBitVec, UInt8.add_def, UInt8.le_def, UInt8.toBitVec_ofNat] at h hb' ⊢
    constructor <;> intro <;> bv_omega
  · rfl

/-- Up to case, a tag with no letters is matched byte for byte. -/
theorem startsWithCI_iff_take : ∀ {q : List UInt8}, (∀ b ∈ q, b ∈ ([32, 47, 60, 62] : List UInt8)) →
    ∀ a, startsWithCI q a = true ↔ a.take q.length = q
  | [], _, a => by simp
  | _ :: _, _, [] => by simp
  | b :: q, hq, x :: a => by
    simp [toLower_eq_punct_iff x (hq b (List.mem_cons_self _ _)),
      startsWithCI_iff_take (fun b' hb' => hq b' (List.mem_cons_of_mem _ hb')) a]


/-! ## The code's round is the interface's -/

/-- Every tag is `<think` and bytes with no case after it. -/
theorem thinkTags : bytes "<think/>" = bytes "<think" ++ [47, 62] ∧
    bytes "<think />" = bytes "<think" ++ [32, 47, 62] ∧
    bytes "<think/ />" = bytes "<think" ++ [47, 32, 47, 62] ∧
    bytes "<think>" = bytes "<think" ++ [62] :=
  ⟨rfl, rfl, rfl, rfl⟩

/-- The test of the search for `</think>`. -/
theorem thinkClose_test_iff (c : UInt8) (cs : List UInt8) :
    (c = 60 ∧ 8 ≤ (c :: cs).length ∧ strncasecmpEq (c :: cs) (bytes "</think>") 8 = true) ↔
      startsWithCI (bytes "</think>") (c :: cs) = true := by
  rw [strncasecmpEq_eq_startsWithCI _ _ _ (by decide),
    show (bytes "</think>").take 8 = bytes "</think>" from rfl]
  refine ⟨fun h => h.2.2, fun h => ⟨?_, length_le_of_startsWithCI h, h⟩⟩
  rw [show bytes "</think>" = 60 :: bytes "/think>" from rfl, startsWithCI_cons_cons,
    Bool.and_eq_true, beq_iff_eq] at h
  exact (toLower_eq_punct_iff c (by decide)).1 h.1

/-- The search for `</think>` finds the first one, up to case. -/
theorem findThinkClose_eq_dropThrough :
    ∀ s : List UInt8, findThinkClose s = dropThrough (bytes "</think>") s
  | [] => rfl
  | c :: cs => by
    rw [findThinkClose, dropThrough, findThinkClose_eq_dropThrough cs]
    exact if_congr (thinkClose_test_iff c cs) rfl rfl

/-- The test of `llm_strip_think_tags` for `<think` with a byte after it. -/
theorem thinkOpen_test_iff (s : List UInt8) :
    (s.head? = some 60 ∧ 7 ≤ s.length ∧ strncasecmpEq s (bytes "<think") 6 = true) ↔
      startsWithCI (bytes "<think") s = true ∧ s.drop 6 ≠ [] := by
  rw [strncasecmpEq_eq_startsWithCI _ _ _ (by decide),
    show (bytes "<think").take 6 = bytes "<think" from rfl]
  have h60 : startsWithCI (bytes "<think") s = true → s.head? = some 60 := by
    cases s with
    | nil => nofun
    | cons x s =>
      rw [show bytes "<think" = 60 :: bytes "think" from rfl, startsWithCI_cons_cons,
        Bool.and_eq_true, beq_iff_eq]
      exact fun h => by rw [(toLower_eq_punct_iff x (by decide)).1 h.1]; rfl
  rw [Ne, List.drop_eq_nil_iff, not_le]
  exact ⟨fun h => ⟨h.2.2, h.2.1⟩, fun h => ⟨h60 h.1, h.2, h.1⟩⟩

theorem take_one_eq_singleton {r : List UInt8} {b : UInt8} : r.take 1 = [b] ↔ r.head? = some b := by
  cases r <;> simp

theorem thinkRound_cons (tag : List UInt8) (tags : List (List UInt8)) (s : List UInt8) :
    thinkRound (tag :: tags) s =
      if startsWithCI tag s then .skip (s.drop tag.length) else thinkRound tags s := by
  unfold thinkRound
  rw [List.find?_cons]
  cases startsWithCI tag s <;> rfl

theorem thinkRound_nil (s : List UInt8) :
    thinkRound [] s =
      if startsWithCI (bytes "<think>") s then
        match dropThrough (bytes "</think>") (s.drop 7) with
        | some rest => .skip rest
        | none => .stripRest
      else .copy := rfl

/-- **The round of `llm_strip_think_tags` is the interface's**, with `<think/ />` as a third
self-closing tag. -/
theorem stripRound_eq_thinkRound (s : List UInt8) :
    stripRound s = thinkRound (thinkSelfClosing ++ [bytes "<think/ />"]) s := by
  obtain ⟨h1, h2, h3, h4⟩ := thinkTags
  have hd : ∀ k, s.drop (6 + k) = (s.drop 6).drop k := fun k => (List.drop_drop _ _ _).symm
  simp only [stripRound, thinkSelfClosing, List.cons_append, List.nil_append, thinkRound_cons,
    thinkRound_nil, h1, h2, h3, h4, startsWithCI_append, List.length_append, List.length_cons,
    List.length_nil, show (bytes "<think").length = 6 from rfl, thinkOpen_test_iff,
    findThinkClose_eq_dropThrough,
    show s.drop 7 = (s.drop 6).drop 1 from hd 1, show s.drop 8 = (s.drop 6).drop 2 from hd 2,
    show s.drop 9 = (s.drop 6).drop 3 from hd 3, show s.drop 10 = (s.drop 6).drop 4 from hd 4]
  cases startsWithCI (bytes "<think") s
  · simp
  -- the rest is decided by the bytes after `<think`
  generalize s.drop 6 = a
  simp only [Bool.true_and, startsWithCI_iff_take (q := [47, 62]) (by decide),
    startsWithCI_iff_take (q := [32, 47, 62]) (by decide),
    startsWithCI_iff_take (q := [47, 32, 47, 62]) (by decide),
    startsWithCI_iff_take (q := [62]) (by decide)]
  rcases a with _ | ⟨x, r⟩
  · simp
  simp only [List.length_cons, List.length_nil, List.take_succ_cons, List.take_zero,
    List.cons.injEq, List.head?_cons, Option.some.injEq, List.tail_cons, List.drop_succ_cons,
    take_one_eq_singleton]
  by_cases hx : x = 47
  · subst hx
    simp +decide only [ne_eq, reduceCtorEq, not_false_eq_true, ↓reduceIte, true_and, and_true,
      false_and, List.drop_one]
    split_ifs <;> rfl
  · simp only [hx, ne_eq, reduceCtorEq, not_false_eq_true, ↓reduceIte, true_and, and_true,
      false_and, List.take_succ_cons, List.drop_succ_cons, List.head?_cons, Option.some.injEq,
      List.tail_cons, List.cons.injEq, List.drop_zero]


/-! ## Runs of the scan -/

section Runs

variable {round round' : List UInt8 → StripAction}

@[simp] theorem stripWith_nil (fuel : Nat) : stripWith round fuel [] = [] := by
  cases fuel <;> rfl

/-- Two rounds that agree on every suffix the scan reaches give the same scan. -/
theorem stripWith_congr (hskip : ∀ t rest, round t = .skip rest → rest <:+ t) :
    ∀ {fuel : Nat} {s : List UInt8}, (∀ t, t <:+ s → t ≠ [] → round t = round' t) →
      stripWith round fuel s = stripWith round' fuel s
  | 0, _, _ => rfl
  | _ + 1, [], _ => rfl
  | _ + 1, c :: cs, h => by
    simp only [stripWith, ← h (c :: cs) (List.suffix_refl _) (List.cons_ne_nil _ _)]
    split
    · next rest hr => exact stripWith_congr hskip fun t ht => h t (ht.trans (hskip _ _ hr))
    · rfl
    · exact congrArg _ (stripWith_congr hskip fun t ht => h t (ht.trans (List.suffix_cons _ _)))

/-- With rounds that skip to shorter suffixes, any fuel from the length on gives the same
scan. -/
theorem stripWith_fuel (hskip : ∀ t rest, round t = .skip rest → rest.length < t.length) :
    ∀ {fuel fuel' : Nat} {s : List UInt8}, s.length ≤ fuel → s.length ≤ fuel' →
      stripWith round fuel s = stripWith round fuel' s
  | _, _, [], _, _ => by simp
  | 0, _, _ :: _, h, _ => absurd h (by simp)
  | _ + 1, 0, _ :: _, _, h' => absurd h' (by simp)
  | _ + 1, _ + 1, c :: cs, h, h' => by
    simp only [List.length_cons, Nat.add_le_add_iff_right] at h h'
    simp only [stripWith]
    split
    · next rest hr =>
      have := hskip _ _ hr
      simp only [List.length_cons] at this
      exact stripWith_fuel hskip (by omega) (by omega)
    · rfl
    · exact congrArg _ (stripWith_fuel hskip h h')

end Runs

/-- What `dropThrough` returns is a suffix of what it searched. -/
theorem dropThrough_suffix {tag : List UInt8} :
    ∀ {s rest : List UInt8}, dropThrough tag s = some rest → rest <:+ s
  | [], _, h => nomatch h
  | c :: cs, rest, h => by
    rw [dropThrough] at h
    split_ifs at h
    · cases h
      exact List.drop_suffix _ _
    · exact (dropThrough_suffix h).trans (List.suffix_cons _ _)

/-- A round of the interface skips to a shorter suffix. -/
theorem thinkRound_skip {tags : List (List UInt8)} (htags : ∀ tag ∈ tags, tag ≠ [])
    {s rest : List UInt8} (h : thinkRound tags s = .skip rest) :
    rest <:+ s ∧ rest.length < s.length := by
  unfold thinkRound at h
  split at h
  · next tag htag =>
    cases h
    have hpos := List.length_pos.2 (htags tag (List.mem_of_find?_eq_some htag))
    have hlen :=
      length_le_of_startsWithCI (List.find?_some (p := fun tag => startsWithCI tag s) htag)
    refine ⟨List.drop_suffix _ _, ?_⟩
    rw [List.length_drop]
    omega
  · split_ifs at h with h7
    split at h
    · next r hr =>
      cases h
      have hlen : 7 ≤ s.length := length_le_of_startsWithCI h7
      have hr' := (dropThrough_suffix hr).length_le
      rw [List.length_drop] at hr'
      exact ⟨(dropThrough_suffix hr).trans (List.drop_suffix _ _), by omega⟩
    · cases h

/-- A round of the code skips to a shorter suffix. -/
theorem stripRound_skip {s rest : List UInt8} (h : stripRound s = .skip rest) :
    rest <:+ s ∧ rest.length < s.length :=
  thinkRound_skip (by decide) ((stripRound_eq_thinkRound s).symm.trans h)

/-- **`strlen` rounds finish the loop of `llm_strip_think_tags`**: more fuel gives the same
bytes. -/
theorem stripWith_stripRound_fuel (text : List UInt8) {fuel : Nat} (h : strlen text ≤ fuel) :
    stripWith stripRound fuel (cstr text) = stripWith stripRound (strlen text) (cstr text) :=
  stripWith_fuel (fun _ _ hr => (stripRound_skip hr).2) h le_rfl

theorem stripWith_stripRound_fuel_block :
    strlen (bytes "<think>x</think> hi") ≤ 64 ∧
      stripWith stripRound 64 (cstr (bytes "<think>x</think> hi")) =
        stripWith stripRound (strlen (bytes "<think>x</think> hi"))
          (cstr (bytes "<think>x</think> hi")) :=
  ⟨by decide, stripWith_stripRound_fuel _ (by decide)⟩

/-! ## What the code leaves -/

/-- Where no `<think/ />` starts, the third self-closing tag changes nothing. -/
theorem thinkRound_of_not_slip {s : List UInt8} (h : startsWithCI (bytes "<think/ />") s = false) :
    thinkRound (thinkSelfClosing ++ [bytes "<think/ />"]) s = thinkRound thinkSelfClosing s := by
  simp only [thinkSelfClosing, List.cons_append, List.nil_append, thinkRound_cons, h,
    Bool.false_eq_true, if_false]

/-- **On a text in which no `<think/ />` starts, `llm_strip_think_tags` leaves `trim (R s)`**
and returns its length. -/
theorem llmStripThinkTags_eq_of_no_slip (text : List UInt8)
    (h : ∀ t, t <:+ cstr text → startsWithCI (bytes "<think/ />") t = false) :
    llmStripThinkTags text =
      (trimSpaces (thinkR (cstr text)), (trimSpaces (thinkR (cstr text))).length) := by
  have hrun : stripWith stripRound (strlen text) (cstr text) = thinkR (cstr text) :=
    stripWith_congr (fun _ _ hr => (stripRound_skip hr).1) fun t ht _ =>
      (stripRound_eq_thinkRound t).trans (thinkRound_of_not_slip (h t ht))
  simp only [llmStripThinkTags, hrun]

theorem llmStripThinkTags_eq_of_no_slip_block :
    (∀ t, t <:+ cstr (bytes "<think>x</think> hi") →
        startsWithCI (bytes "<think/ />") t = false) ∧
      llmStripThinkTags (bytes "<think>x</think> hi") =
        (trimSpaces (thinkR (cstr (bytes "<think>x</think> hi"))),
          (trimSpaces (thinkR (cstr (bytes "<think>x</think> hi")))).length) :=
  have hd : ∀ t ∈ (cstr (bytes "<think>x</think> hi")).tails,
      startsWithCI (bytes "<think/ />") t = false := by decide
  have h := fun t ht => hd t ((List.mem_tails t _).2 ht)
  ⟨h, llmStripThinkTags_eq_of_no_slip _ h⟩

/-- **`llm_strip_think_tags` deletes `<think/ />`, which the interface keeps**: the text
`<think/ />` is left empty, where `trim (R s)` is the whole text. -/
theorem llm_strip_deletes_slash_space_tag :
    llmStripThinkTags (bytes "<think/ />") = ([], 0) ∧
      trimSpaces (thinkR (bytes "<think/ />")) = bytes "<think/ />" := by
  decide

/-- **`llm_strip_think_tags` can leave `</think>` and `<think>` in its result**: a nested block
leaves the outer `</think>`, and removing `<think/>` from `<thi<think/>nk>` joins the bytes
around it into `<think>`. -/
theorem llm_strip_leaves_think_tags :
    (llmStripThinkTags (bytes "<think><think>x</think></think>y")).1 = bytes "</think>y" ∧
      (llmStripThinkTags (bytes "<thi<think/>nk>")).1 = bytes "<think>" := by
  decide

end Tgbot
