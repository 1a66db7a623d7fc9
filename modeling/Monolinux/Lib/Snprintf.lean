import Monolinux.Lib.Bytes

/-!
# `snprintf` into a buffer that is filled step by step

`snprintf(&buf[p], size, ...)` stores as much of a text as fits into `size` bytes with the
NUL behind it, and returns the length of the whole text.  `p` and `size` are what the
caller computed; a store behind the end of the buffer has no result.

A text is `HeldBy` a buffer as far as it fits.  If what was written so far is held, and
`p` and the remaining size are its length and the rest of the buffer, then with the text
behind it it is held as well (`snprintf_holds`).  This needs `p` not to be behind the end.
-/

namespace Monolinux

/-- The length, or -1 if it is more than an `int`. -/
def snprintfResult (text : List UInt8) : ℤ := if text.length ≤ 2147483647 then text.length else -1

/-- What is stored in `size` bytes. -/
def cutToSize (size : ℕ) (text : List UInt8) : List UInt8 := if size = 0 then [] else text.take (size - 1) ++ [0]

def snprintf (buf : List UInt8) (p size : ℕ) (text : List UInt8) : Option (ℤ × List UInt8) :=
  if p + (cutToSize size text).length ≤ buf.length then some (snprintfResult text, store buf p (cutToSize size text))
  else none

/-- The buffer holds the text, or as much of it as fits in front of a NUL. -/
def HeldBy (text buf : List UInt8) : Prop := buf.take (min text.length (buf.length - 1)) = text.take (buf.length - 1)

section
variable {front text buf : List UInt8}

/-- A text that fits is in front. -/
theorem HeldBy.exists_rest (h : HeldBy text buf) (hlt : text.length < buf.length) : ∃ rest, buf = text ++ rest := by
  refine ⟨buf.drop text.length, ?_⟩
  have htake : buf.take text.length = text := by
    have hheld : buf.take (min text.length (buf.length - 1)) = text.take (buf.length - 1) := h
    have hall : text.take (buf.length - 1) = text := List.take_of_length_le (by omega)
    rwa [Nat.min_eq_left (by omega), hall] at hheld
  conv_lhs => rw [← List.take_append_drop text.length buf, htake]

theorem heldBy_append {rest : List UInt8} (h : rest ≠ []) : HeldBy text (text ++ rest) := by
  have hpos := List.length_pos_iff.mpr h
  unfold HeldBy
  rw [List.length_append, Nat.min_eq_left (by omega), List.take_left, List.take_of_length_le (by omega)]

/-- A shorter text is held too. -/
theorem HeldBy.take (h : HeldBy text buf) {n : ℕ} (hn : n ≤ text.length) : HeldBy (text.take n) buf := by
  have hheld : buf.take (min text.length (buf.length - 1)) = text.take (buf.length - 1) := h
  have hshort := congrArg (List.take n) hheld
  unfold HeldBy
  rw [List.take_take, List.take_take] at hshort
  rw [List.length_take, List.take_take, Nat.min_comm (buf.length - 1) n, ← hshort]
  congr 1
  omega

theorem length_snprintf {p size : ℕ} {res : ℤ} {buf' : List UInt8} (h : snprintf buf p size text = some (res, buf')) :
    buf'.length = buf.length := by
  unfold snprintf at h
  split at h
  · obtain ⟨-, rfl⟩ := Prod.mk.inj (Option.some.inj h)
    exact length_store _ _ _
  · cases h

/-- Behind the end of the buffer there is no room for the NUL. -/
theorem snprintf_behind {p size : ℕ} (hp : buf.length ≤ p) (hsize : 0 < size) (text : List UInt8) :
    snprintf buf p size text = none := by
  have hcut : (cutToSize size text).length = (text.take (size - 1)).length + 1 := by
    unfold cutToSize
    rw [if_neg (by omega), List.length_append, List.length_singleton]
  unfold snprintf
  rw [if_neg (by omega)]

/-- **One more text** behind what is held. -/
theorem snprintf_holds (h : HeldBy front buf) (hle : front.length ≤ buf.length) (hpos : 0 < buf.length)
    (text : List UInt8) : ∃ buf', snprintf buf front.length (buf.length - front.length) text =
      some (snprintfResult text, buf') ∧ HeldBy (front ++ text) buf' := by
  rcases Nat.lt_or_eq_of_le hle with hlt | heq
  · obtain ⟨rest, rfl⟩ := h.exists_rest hlt
    rw [List.length_append] at hlt
    have hsize : (front ++ rest).length - front.length = rest.length := by
      rw [List.length_append, Nat.add_sub_cancel_left]
    have hcut : cutToSize rest.length text = text.take (rest.length - 1) ++ [0] := if_neg (by omega)
    have hroom : (text.take (rest.length - 1) ++ [0]).length ≤ rest.length := by
      rw [List.length_append, List.length_take, List.length_singleton]
      omega
    have hstore : store (front ++ rest) front.length (text.take (rest.length - 1) ++ [0]) =
        front ++ (text.take (rest.length - 1) ++ 0 :: rest.drop (text.take (rest.length - 1) ++ [0]).length) := by
      have happend := store_append front rest 0 (text.take (rest.length - 1) ++ [0])
      rw [Nat.add_zero, store_zero hroom, List.append_assoc] at happend
      exact happend
    refine ⟨front ++ (text.take (rest.length - 1) ++ 0 :: rest.drop (text.take (rest.length - 1) ++ [0]).length), ?_, ?_⟩
    · unfold snprintf
      have hbuf : (front ++ rest).length = front.length + rest.length := List.length_append
      rw [hsize, hcut, hstore, if_pos (by omega)]
    · have hlen : (front ++ (text.take (rest.length - 1) ++
          0 :: rest.drop (text.take (rest.length - 1) ++ [0]).length)).length = front.length + rest.length := by
        simp only [List.length_append, List.length_cons, List.length_drop, List.length_take, List.length_nil]
        omega
      have hend : front.length + rest.length - 1 = front.length + (rest.length - 1) := by omega
      have hmin : min (front.length + text.length) (front.length + (rest.length - 1)) =
          front.length + (text.take (rest.length - 1)).length := by
        rw [List.length_take]
        omega
      unfold HeldBy
      rw [hlen, List.length_append, hend, hmin, List.take_length_add_append, List.take_length_add_append, List.take_left]
  · -- nothing is left of the buffer
    refine ⟨buf, ?_, ?_⟩
    · unfold snprintf
      simp [heq, cutToSize, store]
    · have hheld : buf.take (min front.length (buf.length - 1)) = front.take (buf.length - 1) := h
      unfold HeldBy
      rw [List.length_append, List.take_append_of_le_length (by omega), ← hheld]
      congr 1
      omega

end

end Monolinux
