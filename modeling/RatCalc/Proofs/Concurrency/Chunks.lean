import Mathlib
import RatCalc.Proofs.Concurrency.Crew

/-!
# Chunks of adjacent indices

Indices are spread over workers in chunks of adjacent ones. Two ratios are rounded up for this:
that of the indices and the workers is the size of a chunk, and that of the indices and the size
is the number of chunks. So there may be fewer chunks than workers, and the last chunk may be
shorter than the others; still the chunks are the row of the indices, cut into pieces none of which
is empty.

Sizes and indices are words of 64 bits. Here they are also worked out step by step, with a check of
every sum, product, difference and ratio: no check fails for up to `2 ^ 63` indices.

## Main definitions

* `Chunk`, `chunkAt`: the indices that one worker takes.
* `wordChunks?`: all chunks, worked out in words.
* `Covered`: the chunks cover the row of the indices.

## Main results

* `ceilDiv_le_iff`: what a ratio that is rounded up is compared with.
* `flatMap_indices`: the chunks, one behind the other, are the row.
* `wordChunks?_eq`: the words never overflow.
* `covered`: these together.
-/

namespace RatCalc

/-! ### Rounding up -/

section Rounding

variable {n d k : ℕ}

/-- Rounding up is adjoint to multiplication. -/
theorem ceilDiv_le_iff (hd : 0 < d) : ceilDiv n d ≤ k ↔ n ≤ k * d := by
  rw [ceilDiv, ← Nat.ceilDiv_eq_add_pred_div, ceilDiv_le_iff_le_mul hd, Nat.mul_comm]

theorem lt_ceilDiv_iff (hd : 0 < d) : k < ceilDiv n d ↔ k * d < n := by
  rw [← not_le, ceilDiv_le_iff hd, not_le]

theorem ceilDiv_le_self (n : ℕ) (hd : 0 < d) : ceilDiv n d ≤ n :=
  (ceilDiv_le_iff hd).2 (Nat.le_mul_of_pos_right n hd)

/-- A ratio that is not whole is rounded up by adding one. -/
theorem ceilDiv_eq_ite (n : ℕ) (hd : 0 < d) :
    ceilDiv n d = if n % d = 0 then n / d else n / d + 1 := by
  have rest : n % d < d := Nat.mod_lt n hd
  have parts : n + d - 1 = d * (n / d) + (n % d + d - 1) := by
    have := Nat.div_add_mod n d
    omega
  rw [ceilDiv, parts, Nat.mul_add_div hd]
  split
  · next whole =>
    rw [whole, Nat.zero_add, Nat.div_eq_of_lt (Nat.sub_lt hd Nat.one_pos), Nat.add_zero]
  · next broken =>
    have one : (n % d + d - 1) / d = 1 := Nat.div_eq_of_lt_le (by omega) (by omega)
    rw [one]

end Rounding

/-! ### The chunks -/

/-- The indices that one worker takes. -/
structure Chunk where
  /-- The first index. -/
  start : ℕ
  /-- The index behind the last one. -/
  stop : ℕ
  /-- How many results the worker makes room for. -/
  room : ℕ
  deriving DecidableEq

/-- The indices of a chunk, in order. -/
def Chunk.indices (c : Chunk) : List ℕ :=
  List.Ico c.start c.stop

/-- The chunk with the number `k`. -/
def chunkAt (length workers k : ℕ) : Chunk where
  start := k * chunkSize length workers
  stop := min ((k + 1) * chunkSize length workers) length
  room := min (chunkSize length workers) (length - k * chunkSize length workers)

section Chunks

variable {length workers k : ℕ}

/-- A chunk has a number if it begins before the end of the row. -/
theorem lt_chunkCount_iff :
    k < chunkCount length workers ↔ (chunkAt length workers k).start < length :=
  lt_ceilDiv_iff (chunkSize_pos length workers)

/-- There are no more chunks than workers, or than one if there is no worker. -/
theorem chunkCount_le (length workers : ℕ) : chunkCount length workers ≤ max workers 1 := by
  rw [chunkCount, ceilDiv_le_iff (chunkSize_pos ..), Nat.mul_comm]
  calc length ≤ ceilDiv length (max workers 1) * max workers 1 :=
        le_ceilDiv_mul length (Nat.lt_of_lt_of_le Nat.one_pos (Nat.le_max_right ..))
    _ ≤ chunkSize length workers * max workers 1 :=
        Nat.mul_le_mul_right _ (Nat.le_max_right ..)

/-- A chunk is no longer than the row, unless the row is empty. -/
theorem chunkSize_le (workers : ℕ) (nonempty : 0 < length) : chunkSize length workers ≤ length :=
  Nat.max_le.2 ⟨nonempty,
    ceilDiv_le_self length (Nat.lt_of_lt_of_le Nat.one_pos (Nat.le_max_right ..))⟩

/-- A lone worker takes all indices. -/
theorem le_chunkSize (few : workers ≤ 1) : length ≤ chunkSize length workers := by
  have one : max workers 1 = 1 := Nat.max_eq_right few
  calc length ≤ ceilDiv length 1 * 1 := le_ceilDiv_mul length Nat.one_pos
    _ = ceilDiv length (max workers 1) := by rw [one, Nat.mul_one]
    _ ≤ chunkSize length workers := Nat.le_max_right ..

/-- No chunk is empty. -/
theorem start_lt_stop (h : k < chunkCount length workers) :
    (chunkAt length workers k).start < (chunkAt length workers k).stop := by
  refine lt_min ?_ (lt_chunkCount_iff.1 h)
  exact Nat.mul_lt_mul_of_pos_right (Nat.lt_succ_self k) (chunkSize_pos length workers)

/-- A worker makes room for as many results as it has indices. -/
theorem room_eq (length workers k : ℕ) :
    (chunkAt length workers k).room =
      (chunkAt length workers k).stop - (chunkAt length workers k).start := by
  simp only [chunkAt, Nat.succ_mul]
  omega

/-- The first chunks, one behind the other, are the front of the row. -/
theorem flatMap_indices_range (length workers count : ℕ) :
    (List.range count).flatMap (fun k => (chunkAt length workers k).indices) =
      List.range (min (count * chunkSize length workers) length) := by
  induction count with
  | zero => simp
  | succ count ih =>
    rw [List.range_succ, List.flatMap_append, ih, List.flatMap_singleton]
    -- A chunk that would begin behind the row has no indices.
    rcases le_total (count * chunkSize length workers) length with within | behind
    · rw [Nat.min_eq_left within, ← List.Ico.zero_bot, ← List.Ico.zero_bot]
      refine List.Ico.append_consecutive (Nat.zero_le _) (le_min ?_ within)
      exact Nat.mul_le_mul_right _ (Nat.le_succ count)
    · have later : length ≤ (count + 1) * chunkSize length workers :=
        behind.trans (Nat.mul_le_mul_right _ (Nat.le_succ count))
      have nothing : (chunkAt length workers count).indices = [] :=
        List.Ico.eq_nil_of_le ((Nat.min_le_right ..).trans behind)
      rw [nothing, List.append_nil, Nat.min_eq_right behind, Nat.min_eq_right later]

/-- **The chunks, one behind the other, are the row of the indices.** -/
theorem flatMap_indices (length workers : ℕ) :
    (List.range (chunkCount length workers)).flatMap (fun k => (chunkAt length workers k).indices) =
      List.range length := by
  rw [flatMap_indices_range, Nat.min_eq_right]
  exact le_ceilDiv_mul length (chunkSize_pos length workers)

/-- An index is in the chunk of its worker and in no other. -/
theorem mem_indices_iff {i : ℕ} (inside : i < length) :
    i ∈ (chunkAt length workers k).indices ↔ i / chunkSize length workers = k := by
  have size := chunkSize_pos length workers
  rw [Nat.div_eq_iff size, Chunk.indices, List.Ico.mem]
  simp only [chunkAt, Nat.succ_mul]
  omega

end Chunks

/-! ### Words -/

/-- A number, if it fits a word. -/
def word? (n : ℕ) : Option ℕ :=
  if n < wordBound then some n else none

/-- The difference of two words, if it does not go below zero. -/
def wordSub? (n m : ℕ) : Option ℕ :=
  if m ≤ n then some (n - m) else none

/-- The ratio of two words, rounded up, if there is one. -/
def wordCeilDiv? (n d : ℕ) : Option ℕ :=
  if d = 0 then none else if n % d = 0 then some (n / d) else word? (n / d + 1)

/-- All chunks, worked out in words. -/
def wordChunks? (length workers : ℕ) : Option (List Chunk) := do
  let size := max (← wordCeilDiv? length (max workers 1)) 1
  let count ← wordCeilDiv? length size
  (List.range count).mapM fun k => do
    let start ← word? (k * size)
    let left ← wordSub? length start
    let behind ← word? (start + size)
    return { start, stop := min behind length, room := min size left }

theorem word?_eq {n : ℕ} (fits : n < wordBound) : word? n = some n :=
  if_pos fits

theorem wordSub?_eq {n m : ℕ} (le : m ≤ n) : wordSub? n m = some (n - m) :=
  if_pos le

/-- No ratio overflows: one that is not whole has a divisor of two at least. -/
theorem wordCeilDiv?_eq {n d : ℕ} (fits : n < wordBound) (hd : 0 < d) :
    wordCeilDiv? n d = some (ceilDiv n d) := by
  have small := ceilDiv_le_self n hd
  rw [wordCeilDiv?, if_neg hd.ne']
  rw [ceilDiv_eq_ite n hd] at small ⊢
  split_ifs with whole
  · rfl
  · rw [if_neg whole] at small
    exact word?_eq (small.trans_lt fits)

/-- **No step overflows** in working out the chunks of up to `2 ^ 63` indices, whatever the number
of workers. A chunk begins before the end of the row and is no longer than it, so that its end, not
yet cut off at the row, is below twice the length. -/
theorem wordChunks?_eq {length : ℕ} (bound : length ≤ 2 ^ 63) (workers : ℕ) :
    wordChunks? length workers =
      some ((List.range (chunkCount length workers)).map (chunkAt length workers)) := by
  have twice : length + length ≤ wordBound := by
    have : wordBound = 2 ^ 63 + 2 ^ 63 := by decide
    omega
  have fits : length < wordBound := by
    have : 0 < wordBound := by decide
    omega
  have sized : max (ceilDiv length (max workers 1)) 1 = chunkSize length workers :=
    Nat.max_comm ..
  have counted := wordCeilDiv?_eq fits (chunkSize_pos length workers)
  rw [wordChunks?, wordCeilDiv?_eq fits (Nat.lt_of_lt_of_le Nat.one_pos (Nat.le_max_right ..))]
  simp only [Option.bind_eq_bind, Option.bind_some, sized, counted]
  refine Crew.mapM_eq_some_iff.2 ?_
  rw [List.map_map]
  refine List.map_congr_left fun k mem => ?_
  have before : k * chunkSize length workers < length :=
    lt_chunkCount_iff.1 (List.mem_range.1 mem)
  have size := chunkSize_le workers (Nat.zero_lt_of_lt before)
  rw [word?_eq (before.trans fits), Option.bind_some, wordSub?_eq before.le, Option.bind_some,
    word?_eq (by omega), Option.bind_some, ← Nat.succ_mul]
  rfl

/-! ### All together -/

/-- The chunks for the indices below `length` cover their row, each index once and in order. -/
structure Covered (length workers : ℕ) : Prop where
  /-- There are no more chunks than workers, or than one if there is no worker. -/
  count_le : chunkCount length workers ≤ max workers 1
  /-- No chunk is empty. -/
  nonempty : ∀ k < chunkCount length workers,
    (chunkAt length workers k).start < (chunkAt length workers k).stop
  /-- The chunks, one behind the other, are the row. -/
  row : (List.range (chunkCount length workers)).flatMap
    (fun k => (chunkAt length workers k).indices) = List.range length
  /-- An index is in the chunk of its worker and in no other. -/
  worker : ∀ k, ∀ i < length,
    i ∈ (chunkAt length workers k).indices ↔ i / chunkSize length workers = k
  /-- Room is made for as many results as there are indices. -/
  room : ∀ k, (chunkAt length workers k).room =
    (chunkAt length workers k).stop - (chunkAt length workers k).start
  /-- In words the chunks are the same, and nothing overflows. -/
  words : wordChunks? length workers =
    some ((List.range (chunkCount length workers)).map (chunkAt length workers))

/-- **The chunks cover the row of the indices**, as long as there are at most `2 ^ 63`. -/
theorem covered {length : ℕ} (bound : length ≤ 2 ^ 63) (workers : ℕ) : Covered length workers where
  count_le := chunkCount_le length workers
  nonempty _ h := start_lt_stop h
  row := flatMap_indices length workers
  worker _ _ inside := mem_indices_iff inside
  room := room_eq length workers
  words := wordChunks?_eq bound workers

end RatCalc
