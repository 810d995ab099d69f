import Mathlib.Data.List.GetD
import Mathlib.Data.List.Sort
import Mathlib.Data.Nat.Digits
import Tgbot.Basic

/-!
# The access list

`whitelist.c` keeps the senders the bot serves in `ids[0..count)`, sorted so that
`whitelist_contains` can search it by bisection, and writes the list back to its file after
each change. `read_ids` fills it from the file a line at a time with `fgets` and `sscanf`,
and sorts it once at the end.

The list is the state; the read-write lock, the path and the file's permissions are left
out. Whether `whitelist_save` succeeds depends on the file system, so each mutation takes
its outcome as an argument.

## Main definitions

* `sscanfInt64`, `fgetsLines`: the C library calls `read_ids` is built from
* `whitelistLoad`, `bsearchIdx`, `whitelistContains`, `whitelistAdd`, `whitelistRemove`
* `WhitelistOp`, `whitelistRun`: runs of `whitelist_add` and `whitelist_remove`

## Main results

* `bsearchIdx_spec`: on a sorted list, `bsearch_idx` finds an occurrence of the id or the
  place it belongs
* `WhitelistInv.step`: the calls keep the list sorted and within `WHITELIST_MAX`
* `whitelist_run_sorted`: what every run from `whitelist_load` keeps
-/

namespace Tgbot

/-- `WHITELIST_MAX` (`config.h`). -/
def whitelistMax : Nat := 256

/-! ## Reading the file -/

/-- `isspace` in the C locale. -/
def isSpace (c : UInt8) : Bool := c == 32 || (9 ≤ c && c ≤ 13)

/-- `isdigit`. -/
def isDigit (c : UInt8) : Bool := 48 ≤ c && c ≤ 57

/-- The value of a run of decimal digits. -/
def digitsValue (ds : List UInt8) : Nat := ds.foldl (fun n d => 10 * n + (d.toNat - 48)) 0

/-- An integer clamped to the `int64_t` range, as glibc's `strtoll` returns it. -/
def Int64.saturate (v : Int) : Int64 :=
  ⟨max (-2 ^ 63) (min v (2 ^ 63 - 1)), by simp only [Set.mem_Ico]; omega⟩

/-- `sscanf (line, "%" SCNd64, &id)`, `some id` when it returns 1: white space is skipped,
then an optional sign and at least one decimal digit are read. C leaves an out-of-range
numeral undefined; glibc saturates it, as `strtoll` does. -/
def sscanfInt64 (line : List UInt8) : Option Int64 :=
  let s := (cstr line).dropWhile isSpace
  let (neg, s) :=
    if s.head? = some 45 then (true, s.tail)
    else if s.head? = some 43 then (false, s.tail) else (false, s)
  let ds := s.takeWhile isDigit
  if ds = [] then none
  else some (Int64.saturate (if neg then -(digitsValue ds : Int) else digitsValue ds))

/-- The pieces successive calls `fgets (line, 64, fp)` return from the file's bytes, `cur`
being the piece read so far: a piece ends after a newline, after 63 bytes, or at the end of
the file. -/
def fgetsLines (cur : List UInt8) : List UInt8 → List (List UInt8)
  | [] => if cur = [] then [] else [cur]
  | c :: cs =>
    if c = 10 ∨ cur.length + 1 = 63 then (cur ++ [c]) :: fgetsLines [] cs
    else fgetsLines (cur ++ [c]) cs

/-- The loop of `read_ids`: each piece that `sscanf` reads an id from appends it, until
`WHITELIST_MAX` ids are stored. -/
def readLines : List (List UInt8) → List Int64 → List Int64
  | [], ids => ids
  | line :: lines, ids =>
    if ids.length ≥ whitelistMax then ids
    else readLines lines (match sscanfInt64 line with
      | some id => ids ++ [id]
      | none => ids)

/-- What `fopen (path, "r")` gives `read_ids`. -/
inductive AccessFile
  | contents (bytes : List UInt8)
  | missing
  | unreadable

/-- **`whitelist_load`**: its return code and `ids[0..count)`. A missing file is created
empty; the ids read are sorted by `qsort` with `cmp_i64`, whose result, as a list of
values, is the one sorted permutation. -/
def whitelistLoad : AccessFile → Int × List Int64
  | .contents bytes =>
    let ids := readLines (fgetsLines [] bytes) []
    (0, if ids.length > 1 then ids.insertionSort (· ≤ ·) else ids)
  | .missing => (0, [])
  | .unreadable => (-1, [])

/-- The file `whitelist_save` writes: one `PRId64` line per id. -/
def whitelistSave (ids : List Int64) : List UInt8 :=
  ids.flatMap fun x => bytes (toString x.val) ++ [10]

/-! ## Bisection -/

/-- The loop of `bsearch_idx` over the window `[lo, hi)`; the fuel bounds its iterations. -/
def bsearchLoop (ids : List Int64) (userId : Int64) : Nat → Nat → Nat → Bool × Nat
  | 0, lo, _ => (false, lo)
  | fuel + 1, lo, hi =>
    if lo < hi then
      let mid := lo + (hi - lo) / 2
      if ids.getD mid 0 < userId then bsearchLoop ids userId fuel (mid + 1) hi
      else if ids.getD mid 0 > userId then bsearchLoop ids userId fuel lo mid
      else (true, mid)
    else (false, lo)

/-- **`bsearch_idx`**: whether `userId` was found, and where, or else where it belongs. Each
iteration narrows the window, so `count` iterations are enough. -/
def bsearchIdx (ids : List Int64) (userId : Int64) : Bool × Nat :=
  bsearchLoop ids userId ids.length 0 ids.length

/-- `whitelist_contains`. -/
def whitelistContains (ids : List Int64) (userId : Int64) : Bool := (bsearchIdx ids userId).1

/-! ## Mutations -/

/-- **`whitelist_add`**: 1 when present, -1 when full; else `userId` is shifted in at the
place `bsearch_idx` gave and the code is that of `whitelist_save` (`saved`). -/
def whitelistAdd (ids : List Int64) (userId : Int64) (saved : Bool) : Int × List Int64 :=
  let (found, pos) := bsearchIdx ids userId
  if found then (1, ids)
  else if ids.length ≥ whitelistMax then (-1, ids)
  else (if saved then 0 else -1, ids.take pos ++ userId :: ids.drop pos)

/-- **`whitelist_remove`**: 1 when absent; else the entry `bsearch_idx` found is shifted out
and the code is that of `whitelist_save` (`saved`). -/
def whitelistRemove (ids : List Int64) (userId : Int64) (saved : Bool) : Int × List Int64 :=
  let (found, idx) := bsearchIdx ids userId
  if !found then (1, ids)
  else (if saved then 0 else -1, ids.take idx ++ ids.drop (idx + 1))

/-- A mutation of the list, with whether its `whitelist_save` succeeds. -/
inductive WhitelistOp
  | add (userId : Int64) (saved : Bool)
  | remove (userId : Int64) (saved : Bool)

/-- One mutation, under the write lock. -/
def whitelistStep (ids : List Int64) : WhitelistOp → Int × List Int64
  | .add u s => whitelistAdd ids u s
  | .remove u s => whitelistRemove ids u s

section Bisection

variable {ids : List Int64} {u : Int64}

theorem getElem_le_getElem (hs : ids.Sorted (· ≤ ·)) {k m : Nat} (hkm : k ≤ m)
    (hm : m < ids.length) : ids[k] ≤ ids[m] := by
  rcases Nat.lt_or_eq_of_le hkm with hlt | rfl
  · exact List.pairwise_iff_getElem.1 hs k m _ hm hlt
  · exact le_rfl

/-- What `bsearch_idx` returns on a sorted list: an index holding `u`, or else the index where
`u` belongs, everything before it smaller and everything from it on larger. -/
structure BsearchSpec (ids : List Int64) (u : Int64) (r : Bool × Nat) : Prop where
  found : r.1 = true → ∃ h : r.2 < ids.length, ids[r.2] = u
  le_length : r.2 ≤ ids.length
  lt_of_lt : r.1 = false → ∀ k (h : k < ids.length), k < r.2 → ids[k] < u
  gt_of_ge : r.1 = false → ∀ k (h : k < ids.length), r.2 ≤ k → u < ids[k]

theorem bsearchLoop_spec (hs : ids.Sorted (· ≤ ·)) :
    ∀ fuel lo hi, lo ≤ hi → hi ≤ ids.length → hi - lo ≤ fuel →
      (∀ k (h : k < ids.length), k < lo → ids[k] < u) →
      (∀ k (h : k < ids.length), hi ≤ k → u < ids[k]) →
      BsearchSpec ids u (bsearchLoop ids u fuel lo hi)
  | 0, lo, hi, hlh, hhi, hf, hlo, hup =>
    ⟨nofun, by simp only [bsearchLoop]; omega, fun _ => hlo,
      fun _ k h hk => hup k h (by simp only [bsearchLoop] at hk; omega)⟩
  | fuel + 1, lo, hi, hlh, hhi, hf, hlo, hup => by
    simp only [bsearchLoop]
    by_cases hlt : lo < hi
    · have hmid : lo + (hi - lo) / 2 < ids.length := by omega
      rw [if_pos hlt, List.getD_eq_getElem _ _ hmid]
      by_cases hless : ids[lo + (hi - lo) / 2] < u
      · rw [if_pos hless]
        refine bsearchLoop_spec hs fuel _ hi (by omega) hhi (by omega) (fun k h hk => ?_) hup
        exact lt_of_le_of_lt (getElem_le_getElem hs (by omega) hmid) hless
      rw [if_neg hless]
      by_cases hmore : ids[lo + (hi - lo) / 2] > u
      · rw [if_pos hmore]
        refine bsearchLoop_spec hs fuel lo _ (by omega) (by omega) (by omega) hlo fun k h hk => ?_
        exact lt_of_lt_of_le hmore (getElem_le_getElem hs hk h)
      · rw [if_neg hmore]
        exact ⟨fun _ => ⟨hmid, le_antisymm (not_lt.1 hmore) (not_lt.1 hless)⟩, hmid.le, nofun,
          nofun⟩
    · rw [if_neg hlt]
      exact ⟨nofun, by omega, fun _ => hlo, fun _ k h hk => hup k h (by omega)⟩

theorem bsearchIdx_spec (hs : ids.Sorted (· ≤ ·)) : BsearchSpec ids u (bsearchIdx ids u) :=
  bsearchLoop_spec hs _ _ _ (Nat.zero_le _) le_rfl (by omega) (fun _ _ hk => absurd hk (by omega))
    fun _ h hk => absurd h (by omega)

theorem BsearchSpec.take_lt {r : Bool × Nat} (spec : BsearchSpec ids u r) (hf : r.1 = false) :
    ∀ x ∈ ids.take r.2, x < u := by
  intro x hx
  obtain ⟨k, hk, rfl⟩ := List.mem_iff_getElem.1 hx
  rw [List.getElem_take]
  exact spec.lt_of_lt hf k _ (by simp at hk; omega)

theorem BsearchSpec.drop_gt {r : Bool × Nat} (spec : BsearchSpec ids u r) (hf : r.1 = false) :
    ∀ x ∈ ids.drop r.2, u < x := by
  intro x hx
  obtain ⟨k, hk, rfl⟩ := List.mem_iff_getElem.1 hx
  rw [List.getElem_drop]
  exact spec.gt_of_ge hf _ _ (by omega)

/-- On a sorted list, **`bsearch_idx` finds `u` exactly when it occurs**. -/
theorem bsearchIdx_fst_iff (hs : ids.Sorted (· ≤ ·)) : (bsearchIdx ids u).1 = true ↔ u ∈ ids := by
  have spec := bsearchIdx_spec hs (u := u)
  refine ⟨fun hf => ?_, fun hm => ?_⟩
  · obtain ⟨h, he⟩ := spec.found hf
    exact he ▸ List.getElem_mem h
  · by_contra hf
    rw [Bool.not_eq_true] at hf
    obtain ⟨k, h, rfl⟩ := List.mem_iff_getElem.1 hm
    by_cases hk : k < (bsearchIdx ids ids[k]).2
    · exact lt_irrefl _ (spec.lt_of_lt hf k h hk)
    · exact lt_irrefl _ (spec.gt_of_ge hf k h (by omega))

theorem whitelistContains_iff (hs : ids.Sorted (· ≤ ·)) :
    whitelistContains ids u = true ↔ u ∈ ids :=
  bsearchIdx_fst_iff hs

end Bisection

/-! ## The invariant -/

/-- What the code keeps of `ids[0..count)`: sorted, and at most `WHITELIST_MAX` long. -/
structure WhitelistInv (ids : List Int64) : Prop where
  sorted : ids.Sorted (· ≤ ·)
  length_le : ids.length ≤ whitelistMax

section Mutations

variable {ids : List Int64} {u : Int64}

theorem sorted_insert_of_not_found (hs : ids.Sorted (· ≤ ·)) (hf : (bsearchIdx ids u).1 = false) :
    (ids.take (bsearchIdx ids u).2 ++ u :: ids.drop (bsearchIdx ids u).2).Sorted (· ≤ ·) := by
  have spec := bsearchIdx_spec hs (u := u)
  have hs' := List.take_append_drop (bsearchIdx ids u).2 ids ▸ hs
  refine List.pairwise_append.2 ⟨hs.sublist (List.take_sublist _ _),
    List.sorted_cons.2 ⟨fun b hb => (spec.drop_gt hf b hb).le, hs.sublist (List.drop_sublist _ _)⟩,
    fun a ha b hb => ?_⟩
  rcases List.mem_cons.1 hb with rfl | hb
  · exact (spec.take_lt hf a ha).le
  · exact (List.pairwise_append.1 hs').2.2 a ha b hb

theorem sorted_take_append_drop_succ (hs : ids.Sorted (· ≤ ·)) (i : Nat) :
    (ids.take i ++ ids.drop (i + 1)).Sorted (· ≤ ·) :=
  hs.sublist (List.eraseIdx_eq_take_drop_succ ids i ▸ List.eraseIdx_sublist ids i)

/-- `whitelist_add` either changes nothing or shifts in an id that was absent. -/
theorem whitelistAdd_eq (saved : Bool) (hs : ids.Sorted (· ≤ ·)) :
    (whitelistAdd ids u saved).2 = ids ∨
      (u ∉ ids ∧ ids.length < whitelistMax ∧ (whitelistAdd ids u saved).2 =
        ids.take (bsearchIdx ids u).2 ++ u :: ids.drop (bsearchIdx ids u).2) := by
  have hmem := bsearchIdx_fst_iff hs (u := u)
  rcases hb : bsearchIdx ids u with ⟨_ | _, pos⟩
  · rw [hb] at hmem
    by_cases hfull : ids.length ≥ whitelistMax
    · simp [whitelistAdd, hb, hfull]
    · exact .inr ⟨by simpa using hmem, by omega, by simp [whitelistAdd, hb, hfull]⟩
  · simp [whitelistAdd, hb]

/-- `whitelist_remove` either changes nothing or shifts out an entry holding the id. -/
theorem whitelistRemove_eq (saved : Bool) (hs : ids.Sorted (· ≤ ·)) :
    ((whitelistRemove ids u saved).1 = 1 ∧ (whitelistRemove ids u saved).2 = ids) ∨
      (∃ h : (bsearchIdx ids u).2 < ids.length, ids[(bsearchIdx ids u).2] = u ∧
        (whitelistRemove ids u saved).1 = (if saved then 0 else -1) ∧
        (whitelistRemove ids u saved).2 =
          ids.take (bsearchIdx ids u).2 ++ ids.drop ((bsearchIdx ids u).2 + 1)) := by
  have found := (bsearchIdx_spec hs (u := u)).found
  rcases hb : bsearchIdx ids u with ⟨_ | _, idx⟩
  · simp [whitelistRemove, hb]
  · rw [hb] at found
    obtain ⟨h, he⟩ := found rfl
    exact .inr ⟨h, he, by simp [whitelistRemove, hb], by simp [whitelistRemove, hb]⟩

/-- `whitelist_add` of an id present: 1, nothing changed. -/
theorem whitelistAdd_of_mem (saved : Bool) (hs : ids.Sorted (· ≤ ·)) (hu : u ∈ ids) :
    whitelistAdd ids u saved = (1, ids) := by
  have hb := (bsearchIdx_fst_iff hs).2 hu
  rcases hb' : bsearchIdx ids u with ⟨_ | _, pos⟩
  · rw [hb'] at hb; cases hb
  · simp [whitelistAdd, hb']

/-- `whitelist_add` of an absent id to a full list: -1, nothing changed. -/
theorem whitelistAdd_of_full (saved : Bool) (hs : ids.Sorted (· ≤ ·)) (hu : u ∉ ids)
    (hfull : whitelistMax ≤ ids.length) : whitelistAdd ids u saved = (-1, ids) := by
  have hb : (bsearchIdx ids u).1 = false := by
    rw [← Bool.not_eq_true, bsearchIdx_fst_iff hs]; exact hu
  rcases hb' : bsearchIdx ids u with ⟨_ | _, pos⟩
  · simp [whitelistAdd, hb', hfull]
  · rw [hb'] at hb; cases hb

/-- `whitelist_add` of an absent id to a list with room: the id shifted in where
`bsearch_idx` puts it, and the code of `whitelist_save`. -/
theorem whitelistAdd_of_not_mem (saved : Bool) (hs : ids.Sorted (· ≤ ·)) (hu : u ∉ ids)
    (hlt : ids.length < whitelistMax) :
    whitelistAdd ids u saved = (if saved then 0 else -1,
      ids.take (bsearchIdx ids u).2 ++ u :: ids.drop (bsearchIdx ids u).2) := by
  have hb : (bsearchIdx ids u).1 = false := by
    rw [← Bool.not_eq_true, bsearchIdx_fst_iff hs]; exact hu
  rcases hb' : bsearchIdx ids u with ⟨_ | _, pos⟩
  · simp [whitelistAdd, hb', Nat.not_le.2 hlt]
  · rw [hb'] at hb; cases hb

/-- `whitelist_remove` of an absent id: 1, nothing changed. -/
theorem whitelistRemove_of_not_mem (saved : Bool) (hs : ids.Sorted (· ≤ ·)) (hu : u ∉ ids) :
    whitelistRemove ids u saved = (1, ids) := by
  rcases whitelistRemove_eq (u := u) saved hs with h | ⟨hi, he, -⟩
  · exact Prod.ext h.1 h.2
  · exact absurd (he ▸ List.getElem_mem hi) hu

/-- An insertion is a permutation of the id put in front of the list. -/
theorem perm_whitelistAdd_of_not_mem (saved : Bool) (hs : ids.Sorted (· ≤ ·)) (hu : u ∉ ids)
    (hlt : ids.length < whitelistMax) :
    List.Perm (whitelistAdd ids u saved).2 (u :: ids) := by
  rw [whitelistAdd_of_not_mem saved hs hu hlt]
  simpa only [List.take_append_drop] using
    @List.perm_middle _ u (ids.take (bsearchIdx ids u).2) (ids.drop (bsearchIdx ids u).2)

/-- On a list without repeats, `whitelist_remove` of a present id erases it, with the code of
`whitelist_save`. -/
theorem whitelistRemove_of_mem (saved : Bool) (hs : ids.Sorted (· ≤ ·)) (hnd : ids.Nodup)
    (hu : u ∈ ids) : whitelistRemove ids u saved = (if saved then 0 else -1, ids.erase u) := by
  have hb := (bsearchIdx_fst_iff hs).2 hu
  obtain ⟨hi, he⟩ := (bsearchIdx_spec hs).found hb
  have herase : ids.erase u =
      ids.take (bsearchIdx ids u).2 ++ ids.drop ((bsearchIdx ids u).2 + 1) := by
    rw [← List.eraseIdx_eq_take_drop_succ, ← hnd.erase_getElem _ hi, he]
  rw [herase]
  rcases hb' : bsearchIdx ids u with ⟨_ | _, idx⟩
  · rw [hb'] at hb; cases hb
  · simp [whitelistRemove, hb']

theorem WhitelistInv.step (h : WhitelistInv ids) (op : WhitelistOp) :
    WhitelistInv (whitelistStep ids op).2 := by
  cases op with
  | add u saved =>
    rcases whitelistAdd_eq (u := u) saved h.sorted with he | ⟨hu, hlen, he⟩
    · rwa [whitelistStep, he]
    · refine ⟨he ▸ sorted_insert_of_not_found h.sorted ?_, ?_⟩
      · rw [← Bool.not_eq_true, bsearchIdx_fst_iff h.sorted]; exact hu
      · rw [whitelistStep, he]
        simp only [List.length_append, List.length_take, List.length_cons, List.length_drop]
        have := (bsearchIdx_spec h.sorted (u := u)).le_length
        omega
  | remove u saved =>
    rcases whitelistRemove_eq (u := u) saved h.sorted with ⟨-, he⟩ | ⟨hi, -, -, he⟩
    · rwa [whitelistStep, he]
    · refine ⟨he ▸ sorted_take_append_drop_succ h.sorted _, ?_⟩
      rw [whitelistStep, he]
      simp only [List.length_append, List.length_take, List.length_drop]
      have := h.length_le
      omega

end Mutations

/-! ## Runs from `whitelist_load` -/

theorem length_readLines_le :
    ∀ (lines : List (List UInt8)) (ids : List Int64), ids.length ≤ whitelistMax →
      (readLines lines ids).length ≤ whitelistMax
  | [], _, h => h
  | line :: lines, ids, h => by
    rw [readLines]
    split_ifs with hfull
    · exact h
    · apply length_readLines_le
      split
      · simp only [List.length_append, List.length_singleton]; omega
      · exact h

theorem sorted_of_length_le_one : ∀ {ids : List Int64}, ids.length ≤ 1 → ids.Sorted (· ≤ ·)
  | [], _ => List.sorted_nil
  | [a], _ => List.sorted_singleton a
  | _ :: _ :: _, h => absurd h (by simp)

theorem WhitelistInv.load (file : AccessFile) : WhitelistInv (whitelistLoad file).2 := by
  cases file with
  | contents bytes =>
    have hlen := length_readLines_le (fgetsLines [] bytes) [] (Nat.zero_le _)
    simp only [whitelistLoad]
    split_ifs with h
    · exact ⟨List.sorted_insertionSort (fun a b : Int64 => a ≤ b) _,
        by rwa [(List.perm_insertionSort _ _).length_eq]⟩
    · exact ⟨sorted_of_length_le_one (by omega), hlen⟩
  | missing | unreadable => exact ⟨List.sorted_nil, Nat.zero_le _⟩

/-- **A line longer than the `fgets` buffer is read as two.** The file's one line is `1`, 62
spaces and `2`. `fgets` returns its first 63 bytes, from which `sscanf` reads 1, and then
`2` and the newline, from which it reads 2: the line, whose numeral is 1, gives two ids, and 2
begins no line. -/
theorem whitelist_load_splits_long_line :
    whitelistLoad (.contents (bytes "1" ++ List.replicate 62 32 ++ bytes "2\n")) =
        (0, [Int64.ofInt 1, Int64.ofInt 2]) ∧
      10 ∉ (bytes "1" ++ List.replicate 62 32 ++ bytes "2\n").dropLast ∧
      sscanfInt64 (bytes "1" ++ List.replicate 62 32 ++ bytes "2\n") = some (Int64.ofInt 1) := by
  decide

/-- The byte of a decimal digit. -/
theorem digitChar_bytes : ∀ d < 10,
    String.utf8EncodeChar (Nat.digitChar d) = [UInt8.ofNat (48 + d)] ∧
    isDigit (UInt8.ofNat (48 + d)) = true ∧ (UInt8.ofNat (48 + d)).toNat - 48 = d := by
  decide

theorem digitsValue_append_singleton (ds : List UInt8) (c : UInt8) :
    digitsValue (ds ++ [c]) = 10 * digitsValue ds + (c.toNat - 48) := by
  simp [digitsValue, List.foldl_append]

/-- The bytes `Nat.toDigitsCore` gives, with enough fuel: the decimal digits of `n`, then those
of the digits already produced. -/
theorem toDigitsCore_bytes : ∀ (fuel n : Nat) (acc : List Char), n < fuel →
    ∃ D : List UInt8, (Nat.toDigitsCore 10 fuel n acc).flatMap String.utf8EncodeChar =
        D ++ acc.flatMap String.utf8EncodeChar ∧ D ≠ [] ∧ (∀ c ∈ D, isDigit c = true) ∧
      digitsValue D = n ∧ D.length + acc.length = (Nat.toDigitsCore 10 fuel n acc).length
  | 0, _, _, h => absurd h (Nat.not_lt_zero _)
  | fuel + 1, n, acc, h => by
    obtain ⟨hd, hdig, hval⟩ := digitChar_bytes (n % 10) (Nat.mod_lt _ (by decide))
    simp only [Nat.toDigitsCore]
    split_ifs with h0
    · refine ⟨[UInt8.ofNat (48 + n % 10)], by simp [hd], List.cons_ne_nil _ _, by simpa using hdig,
        ?_, by simp [Nat.add_comm]⟩
      simp only [digitsValue, List.foldl_cons, List.foldl_nil, hval]
      omega
    · obtain ⟨D, hD, hne, hall, hv, hlen⟩ :=
        toDigitsCore_bytes fuel (n / 10) (Nat.digitChar (n % 10) :: acc) (by omega)
      refine ⟨D ++ [UInt8.ofNat (48 + n % 10)], by rw [hD]; simp [hd], by simp, fun c hc => ?_,
        ?_, by
          rw [← hlen]
          simp only [List.length_append, List.length_cons, List.length_nil]
          omega⟩
      · rcases List.mem_append.1 hc with hc | hc
        · exact hall c hc
        · rw [List.mem_singleton.1 hc]; exact hdig
      · rw [digitsValue_append_singleton, hv, hval]
        omega

/-- The bytes of `toString n`: at least one decimal digit, reading back as `n`. -/
theorem bytes_toString_nat (n : Nat) :
    ∃ D, bytes (toString n) = D ∧ D ≠ [] ∧ (∀ c ∈ D, isDigit c = true) ∧ digitsValue D = n ∧
      D.length = (toString n).length := by
  obtain ⟨D, hD, hne, hall, hv, hlen⟩ := toDigitsCore_bytes (n + 1) n [] (Nat.lt_succ_self n)
  exact ⟨D, by simpa using hD, hne, hall, hv, by simpa using hlen⟩

/-- The bytes a decimal digit is not. -/
theorem digit_byte {c : UInt8} (h : isDigit c = true) :
    c ≠ 0 ∧ c ≠ 10 ∧ c ≠ 43 ∧ c ≠ 45 ∧ isSpace c = false := by
  simp only [isDigit, isSpace, Bool.and_eq_true, decide_eq_true_eq, Bool.or_eq_false_iff,
    Bool.and_eq_false_iff, beq_eq_false_iff_ne, decide_eq_false_iff_not, ne_eq,
    uint8_eq_iff_toBitVec, UInt8.le_def, UInt8.toBitVec_ofNat] at h ⊢
  bv_omega

theorem saturate_val (v : Int64) : Int64.saturate v.val = v := by
  have := v.2
  simp only [Set.mem_Ico] at this
  exact Subtype.ext (by simp only [Int64.saturate]; omega)

theorem length_toString_nat_le {n : Nat} (h : n ≤ 2 ^ 63) : (toString n).length ≤ 19 :=
  Nat.repr_length n 19 (by decide) (by omega)

/-- `toString` of an integer: an optional `-`, then the decimal digits of its magnitude. -/
theorem bytes_toString_int : ∀ x : Int, ∃ sign D, bytes (toString x) = sign ++ D ∧
    (sign = [] ∨ sign = [45]) ∧ D ≠ [] ∧ (∀ c ∈ D, isDigit c = true) ∧
      x = (if sign = [45] then -(digitsValue D : Int) else digitsValue D) ∧
      D.length = (toString x.natAbs).length
  | .ofNat m => by
    obtain ⟨D, hD, hne, hall, hdv, hlen⟩ := bytes_toString_nat m
    exact ⟨[], D, hD, .inl rfl, hne, hall, by simp [hdv], hlen⟩
  | .negSucc m => by
    obtain ⟨D, hD, hne, hall, hdv, hlen⟩ := bytes_toString_nat (m + 1)
    refine ⟨[45], D, ?_, .inr rfl, hne, hall, by simp [hdv, Int.negSucc_eq], hlen⟩
    rw [show toString (Int.negSucc m) = "-" ++ toString (m + 1) from rfl, bytes_append, hD]
    rfl

/-- `sscanf` reads an optional `-` and decimal digits before a newline as their value. -/
theorem sscanfInt64_digits {sign D : List UInt8} (hsign : sign = [] ∨ sign = [45])
    (hne : D ≠ []) (hall : ∀ c ∈ D, isDigit c = true) :
    sscanfInt64 (sign ++ (D ++ [10])) =
      some (Int64.saturate (if sign = [45] then -(digitsValue D : Int) else digitsValue D)) := by
  obtain ⟨c, cs, rfl⟩ := List.exists_cons_of_ne_nil hne
  obtain ⟨-, -, h43, h45, hsp⟩ := digit_byte (hall c (List.mem_cons_self _ _))
  -- the digits stop at the newline, which is no digit
  have htw : (c :: (cs ++ [10])).takeWhile isDigit = c :: cs := by
    rw [← List.cons_append, List.takeWhile_append_of_pos hall]
    simp [isDigit]
  -- no NUL cuts the line short
  have hz : 0 ∉ sign ++ (c :: cs ++ [10]) := by
    simp only [List.mem_append, List.mem_singleton, not_or]
    exact ⟨by rcases hsign with rfl | rfl <;> decide, fun h => (digit_byte (hall 0 h)).1 rfl,
      by decide⟩
  rw [sscanfInt64, cstr_eq_self hz]
  rcases hsign with rfl | rfl
  · simp [hsp, h45, h43, htw]
  · simp [isSpace, htw]

/-- **The line `whitelist_save` writes for an id**: at most 20 bytes before its newline, none
a newline, and `sscanf` reads the id back from it. -/
theorem sscanfInt64_saveLine (v : Int64) :
    (bytes (toString v.val)).length ≤ 20 ∧ 10 ∉ bytes (toString v.val) ∧
      sscanfInt64 (bytes (toString v.val) ++ [10]) = some v := by
  have hv := v.2
  simp only [Set.mem_Ico] at hv
  obtain ⟨sign, D, hb, hsign, hne, hall, hval, hlen⟩ := bytes_toString_int v.val
  have hD : D.length ≤ 19 := hlen ▸ length_toString_nat_le (by omega)
  rw [hb]
  refine ⟨?_, fun h => ?_, ?_⟩
  · rcases hsign with rfl | rfl <;> simp only [List.length_append, List.length_nil,
      List.length_singleton] <;> omega
  · rcases List.mem_append.1 h with h | h
    · rcases hsign with rfl | rfl <;> simp at h
    · exact (digit_byte (hall 10 h)).2.1 rfl
  · rw [List.append_assoc, sscanfInt64_digits hsign hne hall, ← hval, saturate_val]

/-- `fgets` returns a line of fewer than 63 bytes whole, newline included. -/
theorem fgetsLines_line (rest : List UInt8) :
    ∀ (D cur : List UInt8), 10 ∉ D → cur.length + D.length ≤ 62 →
      fgetsLines cur (D ++ 10 :: rest) = (cur ++ D ++ [10]) :: fgetsLines [] rest
  | [], cur, _, _ => by simp [fgetsLines]
  | c :: D, cur, hD, hlen => by
    have hc : c ≠ 10 := fun h => hD (h ▸ List.mem_cons_self _ _)
    simp only [List.length_cons] at hlen
    rw [List.cons_append, fgetsLines, if_neg (by rintro (h | h); exacts [hc h, by omega]),
      fgetsLines_line rest D (cur ++ [c]) (fun h => hD (List.mem_cons_of_mem _ h))
        (by simp only [List.length_append, List.length_singleton]; omega)]
    simp

/-- `fgets` returns each line shorter than its buffer whole, newline included. -/
theorem fgetsLines_lines : ∀ lines : List (List UInt8), (∀ l ∈ lines, 10 ∉ l ∧ l.length ≤ 62) →
    fgetsLines [] (lines.flatMap (· ++ [10])) = lines.map (· ++ [10])
  | [], _ => rfl
  | l :: lines, h => by
    obtain ⟨hnl, hlen⟩ := h l (List.mem_cons_self _ _)
    rw [List.flatMap_cons, List.append_assoc, List.singleton_append,
      fgetsLines_line _ _ [] hnl (by simpa using hlen),
      fgetsLines_lines lines fun l' hl' => h l' (List.mem_cons_of_mem _ hl'), List.nil_append,
      List.map_cons]

/-- **The loop of `read_ids`**: it appends the ids `sscanf` reads from the pieces, in order,
until `WHITELIST_MAX` are stored. -/
theorem readLines_eq : ∀ (lines : List (List UInt8)) (acc : List Int64),
    readLines lines acc =
      if whitelistMax ≤ acc.length then acc
      else acc ++ (lines.filterMap sscanfInt64).take (whitelistMax - acc.length)
  | [], acc => by split_ifs <;> simp [readLines]
  | line :: lines, acc => by
    rw [readLines]
    split_ifs with hfull
    · rfl
    · rw [List.filterMap_cons]
      cases hs : sscanfInt64 line with
      | none => rw [readLines_eq lines acc, if_neg hfull]
      | some id =>
        rw [readLines_eq lines (acc ++ [id]), List.length_append, List.length_singleton,
          show whitelistMax - acc.length = whitelistMax - (acc.length + 1) + 1 by omega,
          List.take_succ_cons]
        split_ifs with hfull'
        · rw [show whitelistMax - (acc.length + 1) = 0 by omega, List.take_zero]
        · simp

/-- `fgets` returns each line `whitelist_save` wrote whole. -/
theorem fgetsLines_whitelistSave (ids : List Int64) :
    fgetsLines [] (whitelistSave ids) = ids.map fun x => bytes (toString x.val) ++ [10] := by
  have := fgetsLines_lines (ids.map fun x => bytes (toString x.val)) fun l hl => by
    obtain ⟨x, -, rfl⟩ := List.mem_map.1 hl
    obtain ⟨hlen, hnl, -⟩ := sscanfInt64_saveLine x
    exact ⟨hnl, by omega⟩
  rwa [List.flatMap_map, List.map_map] at this

/-- `read_ids` keeps the id of every line `whitelist_save` wrote, when they fit. -/
theorem readLines_saveLines (ids acc : List Int64) (h : acc.length + ids.length ≤ whitelistMax) :
    readLines (ids.map fun x => bytes (toString x.val) ++ [10]) acc = acc ++ ids := by
  have hread : (ids.map fun x => bytes (toString x.val) ++ [10]).filterMap sscanfInt64 = ids := by
    rw [List.filterMap_map, show sscanfInt64 ∘ (fun x : Int64 => bytes (toString x.val) ++ [10]) =
      some from funext fun x => by rw [Function.comp_apply]; exact (sscanfInt64_saveLine x).2.2,
      List.filterMap_some]
  rw [readLines_eq, hread]
  split_ifs
  · rw [List.length_eq_zero.1 (by omega : ids.length = 0), List.append_nil]
  · rw [List.take_of_length_le (by omega)]

/-- **`whitelist_load` reads back what `whitelist_save` wrote**, for every strictly ascending
list of at most `WHITELIST_MAX` ids, `INT64_MIN` and `INT64_MAX` included: it returns 0 with
the same ids, in the same order. -/
theorem whitelist_save_load (ids : List Int64) (hs : ids.Sorted (· < ·))
    (hlen : ids.length ≤ whitelistMax) : whitelistLoad (.contents (whitelistSave ids)) = (0, ids) := by
  simp only [whitelistLoad, fgetsLines_whitelistSave,
    readLines_saveLines ids [] (by simpa using hlen), List.nil_append]
  split_ifs
  · rw [List.Sorted.insertionSort_eq (hs.imp le_of_lt)]
  · rfl

/-- `INT64_MIN`, 0 and `INT64_MAX`, saved and loaded again. -/
theorem whitelist_save_load_extremes :
    [Int64.ofInt (-2 ^ 63), Int64.ofInt 0, Int64.ofInt (2 ^ 63 - 1)].Sorted (· < ·) ∧
      [Int64.ofInt (-2 ^ 63), Int64.ofInt 0, Int64.ofInt (2 ^ 63 - 1)].length ≤ whitelistMax ∧
      whitelistLoad (.contents (whitelistSave
          [Int64.ofInt (-2 ^ 63), Int64.ofInt 0, Int64.ofInt (2 ^ 63 - 1)])) =
        (0, [Int64.ofInt (-2 ^ 63), Int64.ofInt 0, Int64.ofInt (2 ^ 63 - 1)]) :=
  ⟨by decide, by decide, whitelist_save_load _ (by decide) (by decide)⟩

/-! ## Files of short lines -/

/-- **A file of lines shorter than the `fgets` buffer is read a line at a time**: for every file
whose lines each end with a newline, hold no other, and have at most 62 bytes before it,
`whitelist_load` returns 0 and stores, sorted, the id `sscanf` reads from each line that has
one, one per line, up to `WHITELIST_MAX` of them. -/
theorem whitelistLoad_short_lines (lines : List (List UInt8))
    (h : ∀ l ∈ lines, 10 ∉ l ∧ l.length ≤ 62) :
    whitelistLoad (.contents (lines.flatMap (· ++ [10]))) =
      (0, (((lines.map (· ++ [10])).filterMap sscanfInt64).take whitelistMax).insertionSort
        (· ≤ ·)) := by
  have h0 : ¬ whitelistMax ≤ 0 := by decide
  simp only [whitelistLoad, fgetsLines_lines lines h, readLines_eq, List.length_nil, h0,
    ↓reduceIte, Nat.sub_zero, List.nil_append]
  split_ifs with h2
  · rfl
  · rw [List.Sorted.insertionSort_eq (sorted_of_length_le_one (Nat.not_lt.1 h2))]

/-- Three lines, the second with no id: the two ids, sorted. -/
theorem whitelistLoad_three_short_lines :
    (∀ l ∈ [bytes "100", bytes "x", bytes "  -5"], 10 ∉ l ∧ l.length ≤ 62) ∧
      whitelistLoad (.contents ([bytes "100", bytes "x", bytes "  -5"].flatMap (· ++ [10]))) =
        (0, [Int64.ofInt (-5), Int64.ofInt 100]) :=
  have h : ∀ l ∈ [bytes "100", bytes "x", bytes "  -5"], 10 ∉ l ∧ l.length ≤ 62 := by decide
  ⟨h, (whitelistLoad_short_lines _ h).trans (by decide)⟩

/-! ## The calls on a strictly ascending list -/

/-- **`whitelist_contains`, `whitelist_add` and `whitelist_remove` on a strictly ascending
list** (of any length; the code's have at most `WHITELIST_MAX`): the search finds exactly
the ids present; an add answers 1 for an id present and -1 for an absent one when the list
is full, changing nothing, and otherwise leaves the list strictly ascending with the id
added; a remove answers 1 for an absent id, changing nothing, and otherwise leaves it
strictly ascending with the id taken out. A strictly ascending list is fixed by its
members, so these say what the list is. -/
theorem whitelist_ops_on_ascending {ids : List Int64} (hs : ids.Sorted (· < ·)) (x : Int64)
    (saved : Bool) :
    (whitelistContains ids x = true ↔ x ∈ ids) ∧
      (x ∈ ids → whitelistAdd ids x saved = (1, ids)) ∧
      (x ∉ ids → ids.length = whitelistMax → whitelistAdd ids x saved = (-1, ids)) ∧
      (x ∉ ids → ids.length < whitelistMax →
        (whitelistAdd ids x saved).2.Sorted (· < ·) ∧
          ∀ y, y ∈ (whitelistAdd ids x saved).2 ↔ y = x ∨ y ∈ ids) ∧
      (x ∉ ids → whitelistRemove ids x saved = (1, ids)) ∧
      (x ∈ ids → (whitelistRemove ids x saved).2.Sorted (· < ·) ∧
        ∀ y, y ∈ (whitelistRemove ids x saved).2 ↔ y ∈ ids ∧ y ≠ x) := by
  have hle : ids.Sorted (· ≤ ·) := hs.imp le_of_lt
  have hnd : ids.Nodup := hs.nodup
  refine ⟨whitelistContains_iff hle, whitelistAdd_of_mem saved hle,
    fun hx hfull => whitelistAdd_of_full saved hle hx hfull.ge, fun hx hlt => ?_,
    whitelistRemove_of_not_mem saved hle, fun hx => ?_⟩
  · have hp := perm_whitelistAdd_of_not_mem saved hle hx hlt
    have hsorted : (whitelistAdd ids x saved).2.Sorted (· ≤ ·) := by
      rw [whitelistAdd_of_not_mem saved hle hx hlt]
      exact sorted_insert_of_not_found hle
        (by rw [← Bool.not_eq_true, bsearchIdx_fst_iff hle]; exact hx)
    exact ⟨hsorted.lt_of_le (hp.nodup_iff.2 (List.nodup_cons.2 ⟨hx, hnd⟩)),
      fun y => by rw [hp.mem_iff, List.mem_cons]⟩
  · rw [whitelistRemove_of_mem saved hle hnd hx]
    exact ⟨hs.sublist (List.erase_sublist _ _), fun y => by rw [hnd.mem_erase_iff, and_comm]⟩

/-- The ids -5 and 7, and 3 added between them. -/
theorem whitelist_ops_on_two_ids :
    [Int64.ofInt (-5), Int64.ofInt 7].Sorted (· < ·) ∧
      (whitelistAdd [Int64.ofInt (-5), Int64.ofInt 7] (Int64.ofInt 3) true).2.Sorted (· < ·) :=
  ⟨by decide, ((whitelist_ops_on_ascending (by decide) (Int64.ofInt 3) true).2.2.2.1 (by decide)
    (by decide)).1⟩

end Tgbot
