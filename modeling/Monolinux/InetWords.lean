import Monolinux.Inet
import Monolinux.Lib.OnesComplement

/-!
# The Internet checksum as a sum of words

`rfc1071` is what the checksum of RFC 1071 says: the one's complement of the one's
complement sum of the big-endian words.  The code adds up in 32 bits and folds the
carries at the end.

  the code's checksum is that of the sum modulo 2^32  (`mlInetChecksum_eq`)
  when this is RFC 1071's                             (`checksum_of_pieces`)
  a stored checksum verifies, damage shows            (`stored_checksum_verifies`)
-/

namespace Monolinux

/-! ## Words of a buffer -/

/-- The big-endian words; an odd last byte is padded with zero. -/
def words16 : List UInt8 → List UInt16
  | b0 :: b1 :: buf => word16 b0 b1 :: words16 buf
  | [b] => [word16 b 0]
  | [] => []

def wordSum (buf : List UInt8) : ℕ := ((words16 buf).map UInt16.toNat).sum

def rfc1071 (buf : List UInt8) : UInt16 := ~~~ UInt16.ofNat (onesSum 65535 ((words16 buf).map UInt16.toNat))

theorem wordSum_cons (b0 b1 : UInt8) (buf : List UInt8) :
    wordSum (b0 :: b1 :: buf) = (word16 b0 b1).toNat + wordSum buf := by
  unfold wordSum
  rw [words16, List.map_cons, List.sum_cons]

theorem words16_append {front : List UInt8} (buf : List UInt8) (h : Even front.length) :
    words16 (front ++ buf) = words16 front ++ words16 buf := by
  induction front using words16.induct with
  | case1 b0 b1 front ih =>
    have heven : Even front.length := by
      rw [List.length_cons, List.length_cons, Nat.even_iff] at h
      rw [Nat.even_iff]
      omega
    rw [List.cons_append, List.cons_append, words16, words16, ih heven, List.cons_append]
  | case2 b => exact absurd h (by simp)
  | case3 => rfl

theorem wordSum_append {front : List UInt8} (buf : List UInt8) (h : Even front.length) :
    wordSum (front ++ buf) = wordSum front + wordSum buf := by
  unfold wordSum
  rw [words16_append buf h, List.map_append, List.sum_append]

theorem wordSum_le (buf : List UInt8) : wordSum buf ≤ 65535 * ((buf.length + 1) / 2) := by
  induction buf using words16.induct with
  | case1 b0 b1 buf ih =>
    have h := (word16 b0 b1).toNat_lt
    rw [wordSum_cons, List.length_cons, List.length_cons]
    omega
  | case2 b =>
    have h := (word16 b 0).toNat_lt
    show (word16 b 0).toNat + 0 ≤ _
    rw [List.length_singleton]
    omega
  | case3 => exact Nat.zero_le _

theorem rfc1071_eq (buf : List UInt8) : (rfc1071 buf).toNat = 65535 - onesRep 65535 (wordSum buf) := by
  have hwords : ∀ w ∈ (words16 buf).map UInt16.toNat, w ≤ 65535 := by
    intro w hw
    obtain ⟨v, _, rfl⟩ := List.mem_map.mp hw
    exact Nat.le_of_lt_succ v.toNat_lt
  have hle := onesRep_le (m := 65535) (by decide) (wordSum buf)
  unfold rfc1071
  rw [onesSum_eq (by decide) hwords, UInt16.toNat_not, UInt16.toNat_ofNat_of_lt' (by
    show _ < 65536
    exact Nat.lt_succ_of_le hle)]
  show 65536 - 1 - _ = _
  rfl

/-! ## The accumulator -/

theorem low_half (x : UInt32) : (x &&& 0xffff).toNat = x.toNat % 65536 := by
  rw [UInt32.toNat_and]
  exact Nat.and_two_pow_sub_one_eq_mod x.toNat 16

theorem toNat_fold (x : UInt32) : (x >>> 16 + (x &&& 0xffff)).toNat = endAround 65535 x.toNat := by
  have hx := x.toNat_lt
  have hshift : (x >>> 16).toNat = x.toNat / 65536 := by
    rw [UInt32.toNat_shiftRight]
    exact Nat.shiftRight_eq_div_pow x.toNat 16
  rw [UInt32.toNat_add, hshift, low_half]
  unfold endAround
  omega

/-- Nothing to fold is left when the high half is `0`. -/
theorem lt_of_high_half {x : UInt32} (h : x &&& 0xffff0000 = 0) : x.toNat < 65536 := by
  have hx : x = x &&& 0xffff := by
    calc x = x &&& (0xffff0000 ||| 0xffff) := by
          rw [show (0xffff0000 ||| 0xffff : UInt32) = -1 from rfl, UInt32.and_neg_one]
      _ = x &&& 0xffff0000 ||| x &&& 0xffff := UInt32.toBitVec_inj.mp BitVec.and_or_distrib_left
      _ = x &&& 0xffff := by rw [h, UInt32.zero_or]
  rw [hx, low_half]
  exact Nat.mod_lt _ (by decide)

theorem toNat_mlInetChecksumEnd (acc : UInt32) :
    (mlInetChecksumEnd acc).toNat = 65535 - onesRep 65535 acc.toNat := by
  have hacc := acc.toNat_lt
  -- the second fold changes nothing where the code leaves it out
  have htwo : (if (acc >>> 16 + (acc &&& 0xffff)) &&& 0xffff0000 ≠ 0 then
      (acc >>> 16 + (acc &&& 0xffff)) >>> 16 + ((acc >>> 16 + (acc &&& 0xffff)) &&& 0xffff)
      else acc >>> 16 + (acc &&& 0xffff)).toNat = onesRep 65535 acc.toNat := by
    rw [← endAround_endAround (m := 65535) hacc]
    split
    next h => rw [toNat_fold, toNat_fold]
    next h =>
      have hlt := lt_of_high_half (not_not.mp h)
      rw [toNat_fold] at hlt ⊢
      exact ((endAround_of_lt (by omega)).trans (onesRep_of_le (by omega))).symm
  have hle := onesRep_le (m := 65535) (by decide) acc.toNat
  unfold mlInetChecksumEnd
  rw [UInt32.toNat_toUInt16, UInt32.toNat_not, htwo]
  show (4294967296 - 1 - _) % 65536 = _
  omega

/-- The byte behind an odd end is masked out. -/
theorem word16_behind (b behind : UInt8) : word16 b behind &&& 0xff00 = word16 b 0 := by
  have hbyte (c : UInt8) : c.toUInt16 &&& 0xff = c.toUInt16 := by
    apply UInt16.toNat_inj.mp
    rw [UInt16.toNat_and, UInt8.toNat_toUInt16]
    exact (Nat.and_two_pow_sub_one_eq_mod c.toNat 8).trans (Nat.mod_eq_of_lt c.toNat_lt)
  have hlow : behind.toUInt16 &&& 0xff00 = 0 := by
    rw [← hbyte behind, UInt16.and_assoc]
    exact UInt16.and_zero
  have hhigh : b.toUInt16 <<< 8 &&& (0xff00 : UInt16) = b.toUInt16 <<< 8 := by
    have h : (b.toUInt16 &&& 0xff) <<< 8 = b.toUInt16 <<< 8 &&& (0xff : UInt16) <<< 8 := UInt16.shiftLeft_and
    rw [hbyte] at h
    exact h.symm
  unfold word16
  calc (b.toUInt16 <<< 8 ||| behind.toUInt16) &&& (0xff00 : UInt16)
      = b.toUInt16 <<< 8 &&& (0xff00 : UInt16) ||| behind.toUInt16 &&& (0xff00 : UInt16) := UInt16.toBitVec_inj.mp BitVec.and_or_distrib_right
    _ = b.toUInt16 <<< 8 ||| (0 : UInt8).toUInt16 := by rw [hlow, hhigh]; rfl

/-- The accumulator is the sum modulo 2^32. -/
theorem toNat_mlInetChecksumAcc (acc : UInt32) (buf : List UInt8) (behind : UInt8) :
    (mlInetChecksumAcc acc buf behind).toNat = (acc.toNat + wordSum buf) % 2 ^ 32 := by
  induction buf using words16.induct generalizing acc with
  | case1 b0 b1 buf ih =>
    rw [mlInetChecksumAcc, ih, UInt32.toNat_add, UInt16.toNat_toUInt32, wordSum_cons, Nat.mod_add_mod, Nat.add_assoc]
  | case2 b =>
    rw [mlInetChecksumAcc, word16_behind, UInt32.toNat_add, UInt16.toNat_toUInt32]
    rfl
  | case3 =>
    have h := acc.toNat_lt
    rw [mlInetChecksumAcc]
    show _ = (acc.toNat + 0) % 2 ^ 32
    omega

theorem mlInetChecksum_eq (buf : List UInt8) (behind : UInt8) :
    (mlInetChecksum buf behind).toNat = 65535 - onesRep 65535 (wordSum buf % 2 ^ 32) := by
  unfold mlInetChecksum
  rw [toNat_mlInetChecksumEnd, toNat_mlInetChecksumAcc]
  show _ - onesRep 65535 ((0 + _) % _) = _
  rw [Nat.zero_add]

/-! ## In pieces -/

/-- `ml_inet_checksum_begin`, then `ml_inet_checksum_acc` on each chunk, which comes with
the byte behind it. -/
def accumulate (chunks : List (List UInt8 × UInt8)) : UInt32 :=
  chunks.foldl (fun acc chunk => mlInetChecksumAcc acc chunk.1 chunk.2) mlInetChecksumBegin

/-- The buffer that is cut into the chunks. -/
def joined (chunks : List (List UInt8 × UInt8)) : List UInt8 := (chunks.map Prod.fst).flatten

theorem toNat_accumulate {chunks : List (List UInt8 × UInt8)} (h : ∀ chunk ∈ chunks.dropLast, Even chunk.1.length) :
    (accumulate chunks).toNat = wordSum (joined chunks) % 2 ^ 32 := by
  have hrun : ∀ (chunks : List (List UInt8 × UInt8)) (acc : UInt32),
      (∀ chunk ∈ chunks.dropLast, Even chunk.1.length) →
      (chunks.foldl (fun acc chunk => mlInetChecksumAcc acc chunk.1 chunk.2) acc).toNat =
        (acc.toNat + wordSum (joined chunks)) % 2 ^ 32 := by
    intro chunks
    induction chunks with
    | nil =>
      intro acc _
      have := acc.toNat_lt
      show acc.toNat = (acc.toNat + 0) % 2 ^ 32
      omega
    | cons chunk chunks ih =>
      intro acc h
      have hjoined : wordSum (joined (chunk :: chunks)) = wordSum chunk.1 + wordSum (joined chunks) := by
        unfold joined
        rw [List.map_cons, List.flatten_cons]
        cases chunks with
        | nil =>
          rw [List.map_nil, List.flatten_nil, List.append_nil]
          rfl
        | cons next chunks => exact wordSum_append _ (h chunk List.mem_cons_self)
      have hrest : ∀ c ∈ chunks.dropLast, Even c.1.length := by
        intro c hc
        cases chunks with
        | nil => exact absurd hc List.not_mem_nil
        | cons next chunks => exact h c (List.mem_cons_of_mem _ hc)
      rw [List.foldl_cons, ih _ hrest, toNat_mlInetChecksumAcc, hjoined, Nat.mod_add_mod, Nat.add_assoc]
  have h0 := hrun chunks mlInetChecksumBegin h
  rwa [show mlInetChecksumBegin.toNat = 0 from rfl, Nat.zero_add] at h0

/-- The pieces give the checksum of the whole, whatever lies behind it. -/
theorem pieces_eq_whole {chunks : List (List UInt8 × UInt8)} (h : ∀ chunk ∈ chunks.dropLast, Even chunk.1.length)
    (behind : UInt8) : mlInetChecksumEnd (accumulate chunks) = mlInetChecksum (joined chunks) behind := by
  apply UInt16.toNat_inj.mp
  rw [toNat_mlInetChecksumEnd, toNat_accumulate h, mlInetChecksum_eq]

/-- With the sum at 2^32 or above the carries out of the accumulator are lost. -/
theorem checksum_eq_rfc1071_iff (buf : List UInt8) (behind : UInt8) :
    mlInetChecksum buf behind = rfc1071 buf ↔
      65535 ∣ wordSum buf / 2 ^ 32 ∧ (wordSum buf % 2 ^ 32 = 0 → wordSum buf = 0) := by
  have hcode := onesRep_le (m := 65535) (by decide) (wordSum buf % 2 ^ 32)
  have hsum := onesRep_le (m := 65535) (by decide) (wordSum buf)
  have hrep : mlInetChecksum buf behind = rfc1071 buf ↔
      onesRep 65535 (wordSum buf % 2 ^ 32) = onesRep 65535 (wordSum buf) := by
    rw [← UInt16.toNat_inj, mlInetChecksum_eq, rfc1071_eq]
    omega
  rw [hrep, onesRep_eq_iff]
  -- a lost carry is worth 2^32, and 2^32 is 1 modulo 65535
  have hmod : wordSum buf % 2 ^ 32 ≡ wordSum buf [MOD 65535] ↔ 65535 ∣ wordSum buf / 2 ^ 32 := by
    unfold Nat.ModEq
    omega
  rw [hmod]
  have hzero : wordSum buf = 0 → wordSum buf % 2 ^ 32 = 0 := fun h => by rw [h, Nat.zero_mod]
  tauto

/-- **The checksum of pieces is the checksum of the whole.  It is that of RFC 1071 with no
carry lost exactly for a sum of the words below 2^32; above, it is right only where
the carries that are lost add up to a multiple of 65535.** -/
theorem checksum_of_pieces (chunks : List (List UInt8 × UInt8))
    (h : ∀ chunk ∈ chunks.dropLast, Even chunk.1.length) :
    (∀ behind, mlInetChecksumEnd (accumulate chunks) = mlInetChecksum (joined chunks) behind) ∧
    (mlInetChecksumEnd (accumulate chunks) = rfc1071 (joined chunks) ∧
        (accumulate chunks).toNat = wordSum (joined chunks) ↔
      wordSum (joined chunks) < 2 ^ 32) ∧
    (mlInetChecksumEnd (accumulate chunks) = rfc1071 (joined chunks) ↔
      65535 ∣ wordSum (joined chunks) / 2 ^ 32 ∧
        (wordSum (joined chunks) % 2 ^ 32 = 0 → wordSum (joined chunks) = 0)) := by
  have hvalue := checksum_eq_rfc1071_iff (joined chunks) 0
  rw [← pieces_eq_whole h] at hvalue
  refine ⟨pieces_eq_whole h, ?_, hvalue⟩
  rw [hvalue, toNat_accumulate h]
  constructor
  · rintro ⟨_, hsum⟩
    omega
  · intro hlt
    rw [Nat.div_eq_of_lt hlt, Nat.mod_eq_of_lt hlt]
    exact ⟨⟨dvd_zero _, id⟩, rfl⟩

/-- An odd end: the byte behind it has no part in the sum. -/
theorem checksum_of_pieces_odd :
    mlInetChecksumEnd (accumulate [([0x45, 0x00], 0), ([0x11], 7)]) = mlInetChecksum [0x45, 0x00, 0x11] 9 := by
  have h : ∀ chunk ∈ [(([0x45, 0x00], 0) : List UInt8 × UInt8), ([0x11], 7)].dropLast, Even chunk.1.length := by
    intro chunk hchunk
    rw [List.mem_singleton.mp hchunk]
    exact ⟨1, rfl⟩
  exact (checksum_of_pieces _ h).1 9

theorem wordSum_replicate (n : ℕ) (b : UInt8) :
    wordSum (List.replicate (2 * n) b) = n * (word16 b b).toNat := by
  induction n with
  | zero => rw [Nat.zero_mul]; rfl
  | succ n ih =>
    rw [show 2 * (n + 1) = 2 * n + 1 + 1 by omega, List.replicate_succ, List.replicate_succ, wordSum_cons, ih]
    ring

/-- 65538 words `0xffff` are too many: the carry that is lost makes `0` a `1`. -/
theorem checksum_carry_lost :
    mlInetChecksumEnd (accumulate [(List.replicate 131076 0xff, 0)]) = 1 ∧
    rfc1071 (joined [(List.replicate 131076 0xff, 0)]) = 0 := by
  have hsum : wordSum (List.replicate 131076 0xff) = 65538 * 65535 := wordSum_replicate 65538 0xff
  have hjoined : joined [(List.replicate 131076 0xff, 0)] = List.replicate 131076 0xff := List.append_nil _
  constructor
  · apply UInt16.toNat_inj.mp
    rw [toNat_mlInetChecksumEnd, toNat_accumulate (by intro chunk hchunk; exact absurd hchunk List.not_mem_nil), hjoined, hsum]
    rfl
  · apply UInt16.toNat_inj.mp
    rw [rfc1071_eq, hjoined, hsum]
    rfl

/-! ## Stored in the buffer -/

theorem words16_store {buf : List UInt8} {i : ℕ} (b0 b1 : UInt8) (h : 2 * i + 2 ≤ buf.length) :
    words16 (store buf (2 * i) [b0, b1]) = (words16 buf).set i (word16 b0 b1) := by
  induction buf using words16.induct generalizing i with
  | case1 c0 c1 buf ih =>
    cases i with
    | zero => rfl
    | succ i =>
      have hstore : store (c0 :: c1 :: buf) (2 * (i + 1)) [b0, b1] = c0 :: c1 :: store buf (2 * i) [b0, b1] := rfl
      rw [List.length_cons, List.length_cons] at h
      rw [hstore, words16, ih (by omega), words16, List.set_cons_succ]
  | case2 b =>
    rw [List.length_singleton] at h
    omega
  | case3 =>
    rw [List.length_nil] at h
    omega

theorem sum_set {l : List ℕ} {i v w : ℕ} (h : l[i]? = some v) : (l.set i w).sum + v = l.sum + w := by
  induction l generalizing i with
  | nil => cases h
  | cons a l ih =>
    cases i with
    | zero =>
      cases h
      rw [List.set_cons_zero, List.sum_cons, List.sum_cons]
      omega
    | succ i =>
      rw [List.getElem?_cons_succ] at h
      have := ih h
      rw [List.set_cons_succ, List.sum_cons, List.sum_cons]
      omega

/-- The sum when the word `old` is overwritten. -/
theorem wordSum_store {buf : List UInt8} {i : ℕ} {old : UInt16} (b0 b1 : UInt8) (h : 2 * i + 2 ≤ buf.length)
    (hold : (words16 buf)[i]? = some old) :
    wordSum (store buf (2 * i) [b0, b1]) + old.toNat = wordSum buf + (word16 b0 b1).toNat := by
  unfold wordSum
  rw [words16_store b0 b1 h, List.map_set]
  exact sum_set (by rw [List.getElem?_map, hold, Option.map_some])

/-- A sum that fits into the accumulator: the checksum is `0` just for the zero with all bits set. -/
theorem checksum_eq_zero_iff {buf : List UInt8} (behind : UInt8) (h : buf.length ≤ 65534) :
    mlInetChecksum buf behind = 0 ↔ wordSum buf ≠ 0 ∧ 65535 ∣ wordSum buf := by
  have hle := wordSum_le buf
  have hrep := onesRep_le (m := 65535) (by decide) (wordSum buf)
  rw [← onesRep_eq_top_iff (by decide), ← UInt16.toNat_inj, mlInetChecksum_eq, Nat.mod_eq_of_lt (by omega)]
  show 65535 - _ = 0 ↔ _
  omega

/-- As `pack_ip_header` fills in the word `i`: zeros, and then the checksum, high byte first. -/
def storeChecksum (buf : List UInt8) (i : ℕ) (behind : UInt8) : List UInt8 :=
  let zeroed := store buf (2 * i) [0, 0]
  let checksum := mlInetChecksum zeroed behind
  store zeroed (2 * i) [(checksum >>> 8).toUInt8, checksum.toUInt8]

theorem length_storeChecksum (buf : List UInt8) (i : ℕ) (behind : UInt8) :
    (storeChecksum buf i behind).length = buf.length := by
  unfold storeChecksum
  rw [length_store, length_store]

theorem length_words16 {buf : List UInt8} (h : Even buf.length) : (words16 buf).length = buf.length / 2 := by
  induction buf using words16.induct with
  | case1 b0 b1 buf ih =>
    rw [List.length_cons, List.length_cons, Nat.even_iff] at h
    rw [words16, List.length_cons, ih (by rw [Nat.even_iff]; omega), List.length_cons, List.length_cons]
    omega
  | case2 b => exact absurd h (by simp)
  | case3 => rfl

/-- The sum with the checksum stored is a multiple of 65535 and not `0`. -/
theorem wordSum_storeChecksum {buf : List UInt8} {i : ℕ} (behind : UInt8) (heven : Even buf.length)
    (hlen : buf.length ≤ 65534) (hi : 2 * i + 2 ≤ buf.length) :
    wordSum (storeChecksum buf i behind) ≠ 0 ∧ 65535 ∣ wordSum (storeChecksum buf i behind) := by
  have hzeroed : (store buf (2 * i) [0, 0]).length = buf.length := length_store _ _ _
  have hold : (words16 (store buf (2 * i) [0, 0]))[i]? = some 0 := by
    rw [words16_store 0 0 hi, List.getElem?_set_self (by rw [length_words16 heven]; omega)]
    rfl
  have hsum := wordSum_store (mlInetChecksum (store buf (2 * i) [0, 0]) behind >>> 8).toUInt8
    (mlInetChecksum (store buf (2 * i) [0, 0]) behind).toUInt8 (by rwa [hzeroed]) hold
  have hle := wordSum_le (store buf (2 * i) [0, 0])
  rw [word16_bytes, mlInetChecksum_eq, Nat.mod_eq_of_lt (by omega), UInt16.toNat_zero, Nat.add_zero] at hsum
  have hrep := onesRep_le (m := 65535) (by decide) (wordSum (store buf (2 * i) [0, 0]))
  have hmod : _ % 65535 = _ % 65535 := onesRep_modEq (m := 65535) (wordSum (store buf (2 * i) [0, 0]))
  have hzero := onesRep_eq_zero_iff (m := 65535) (x := wordSum (store buf (2 * i) [0, 0]))
  unfold storeChecksum
  rw [hsum]
  constructor
  · omega
  · omega

/-- **A stored checksum verifies, and a single word that is damaged shows,** except where one
zero takes the place of the other. -/
theorem stored_checksum_verifies (buf : List UInt8) (i : ℕ) (behind : UInt8) (heven : Even buf.length)
    (hlen : buf.length ≤ 65534) (hi : 2 * i + 2 ≤ buf.length) :
    mlInetChecksum (storeChecksum buf i behind) behind = 0 ∧
    ∀ (j : ℕ) (old : UInt16) (b0 b1 : UInt8), (words16 (storeChecksum buf i behind))[j]? = some old →
      word16 b0 b1 ≠ old → ¬ (old = 0 ∧ word16 b0 b1 = 0xffff) → ¬ (old = 0xffff ∧ word16 b0 b1 = 0) →
      mlInetChecksum (store (storeChecksum buf i behind) (2 * j) [b0, b1]) behind ≠ 0 := by
  obtain ⟨hpos, hdvd⟩ := wordSum_storeChecksum behind heven hlen hi
  have hlength := length_storeChecksum buf i behind
  refine ⟨(checksum_eq_zero_iff behind (by omega)).mpr ⟨hpos, hdvd⟩, ?_⟩
  intro j old b0 b1 hold hne hup hdown hzero
  have hj : 2 * j + 2 ≤ (storeChecksum buf i behind).length := by
    have hlt := (List.getElem?_eq_some_iff.mp hold).1
    rw [length_words16 (by rwa [hlength])] at hlt
    omega
  obtain ⟨_, hdvd'⟩ := (checksum_eq_zero_iff behind (by rw [length_store]; omega)).mp hzero
  have hsum := wordSum_store b0 b1 hj hold
  have holdLt := old.toNat_lt
  have hnewLt := (word16 b0 b1).toNat_lt
  have hne' : (word16 b0 b1).toNat ≠ old.toNat := fun h => hne (UInt16.toNat_inj.mp h)
  have hup' : ¬ (old.toNat = 0 ∧ (word16 b0 b1).toNat = 65535) :=
    fun h => hup ⟨UInt16.toNat_inj.mp h.1, UInt16.toNat_inj.mp h.2⟩
  have hdown' : ¬ (old.toNat = 65535 ∧ (word16 b0 b1).toNat = 0) :=
    fun h => hdown ⟨UInt16.toNat_inj.mp h.1, UInt16.toNat_inj.mp h.2⟩
  -- the two words differ by a multiple of 65535
  omega

/-- The start of a header, with its checksum behind it; then a length that changed. -/
theorem stored_checksum_verifies_header :
    mlInetChecksum (storeChecksum [0x45, 0x00, 0x02, 0x5c, 0xab, 0xcd] 2 0) 0 = 0 ∧
    mlInetChecksum (store (storeChecksum [0x45, 0x00, 0x02, 0x5c, 0xab, 0xcd] 2 0) 2 [0x02, 0x5d]) 0 ≠ 0 := by
  obtain ⟨hzero, hdamage⟩ := stored_checksum_verifies [0x45, 0x00, 0x02, 0x5c, 0xab, 0xcd] 2 0 ⟨3, rfl⟩
    (by decide) (by decide)
  exact ⟨hzero, hdamage 1 0x025c 0x02 0x5d (by decide) (by decide) (by decide) (by decide)⟩

end Monolinux
