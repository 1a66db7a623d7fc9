import Monolinux.Lib.Bytes
import Monolinux.Lib.Hexdump

/-!
# `ml_hexdump_file`

The file is read in chunks of 256 bytes, and each chunk is dumped by itself.  A chunk that
is not full is the last one: the size that was asked for is used up, or the file has ended.

  one chunk                        (`hexdump_eq`)
  the chunks from one on           (`hexdumpChunks_eq`)
  the file                         (`hexdump_file`)
-/

namespace Monolinux

/-- A file that is open for reading; an offset into a file is a `long`. -/
structure InFile where
  contents : List UInt8
  pos : ℕ
  length_lt : contents.length < 2 ^ 63

namespace InFile

/-- `fseek(file_p, offset, SEEK_SET)`; the offset is converted to `long`, and a negative one is refused. -/
def fseek (f : InFile) (offset : UInt64) : Option InFile :=
  if offset.toNat < 2 ^ 63 then some { f with pos := offset.toNat } else none

/-- `fread` returns short only at the end of the file. -/
def fread (f : InFile) (n : ℕ) : List UInt8 × InFile :=
  let data := (f.contents.drop f.pos).take n
  (data, { f with pos := f.pos + data.length })

end InFile

/-! ## The code -/

/-- The characters of `size` bytes from `buf[p]` on; `size` is at most 16. -/
def printAscii (buf : List UInt8) (p size : ℕ) : Option (List UInt8) :=
  if p + size ≤ buf.length then
    some ((List.replicate (16 - size) [0x20, 0x20, 0x20]).flatten ++ [0x27] ++
      ((buf.drop p).take size).map (fun b => if Terminal.isPrintable b then b else 0x2e) ++ [0x27])
  else none

/-- The loop of `hexdump` with `size` bytes to go, and what follows it. -/
def hexdumpLoop (buf : List UInt8) (offset : UInt32) (pos : ℕ) : ℕ → Option (List UInt8)
  | 0 => if pos % 16 ≠ 0 then (printAscii buf (pos - pos % 16) (pos % 16)).map (· ++ [0x0a]) else some []
  | size + 1 =>
    buf[pos]?.bind fun b =>
      let address := if pos % 16 = 0 then hexDigits 8 (offset + UInt32.ofNat pos).toNat ++ [0x3a, 0x20] else []
      let byte := hexDigits 2 b.toNat ++ [0x20]
      let ascii := if pos % 16 = 15 then (printAscii buf (pos - 15) 16).map (· ++ [0x0a]) else some []
      ascii.bind fun ascii => (hexdumpLoop buf offset (pos + 1) size).map (address ++ byte ++ ascii ++ ·)

def hexdump (buf : List UInt8) (size : ℕ) (offset : UInt32) : Option (List UInt8) := hexdumpLoop buf offset 0 size

/-- The loop of `ml_hexdump_file`.  `size` holds the bits of the `ssize_t`. -/
def hexdumpChunks : ℕ → InFile → List UInt8 → UInt64 → UInt64 → Option (List UInt8)
  | 0, _, _, _, _ => none
  | fuel + 1, f, buf, offset, size =>
    let chunkSize := if size = -1 then 256 else if size < 256 then size.toNat else 256
    let (data, f) := f.fread chunkSize
    let buf := data ++ buf.drop data.length
    (hexdump buf data.length offset.toUInt32).bind fun out =>
      if data.length < 256 then some out
      else (hexdumpChunks fuel f buf (offset + UInt64.ofNat data.length) (size - UInt64.ofNat data.length)).map (out ++ ·)

/-- The result and what is printed; `buf` is the array on the stack. -/
def mlHexdumpFile (fuel : ℕ) (f : InFile) (buf : List UInt8) (offset size : UInt64) : Option (ℤ × List UInt8) :=
  match f.fseek offset with
  | none => some (-1000, [])
  | some f => (hexdumpChunks fuel f buf offset size).map fun out => (0, out)

/-! ## One chunk -/

section
variable {buf : List UInt8} {offset : UInt32} {pos : ℕ}

theorem printAscii_eq {p size : ℕ} (h : p + size ≤ buf.length) :
    printAscii buf p size = some (List.replicate (3 * (16 - size)) 0x20 ++ [0x27] ++
      ((buf.drop p).take size).map asciiChar ++ [0x27]) := by
  have hblank : ∀ n, (List.replicate n [(0x20 : UInt8), 0x20, 0x20]).flatten = List.replicate (3 * n) 0x20 := by
    intro n
    induction n with
    | zero => rfl
    | succ n ih =>
      rw [List.replicate_succ, List.flatten_cons, ih, show 3 * (n + 1) = 3 + 3 * n by omega, List.replicate_add]
      rfl
  unfold printAscii
  rw [if_pos h, hblank]
  rfl

/-- The first byte of a line. -/
theorem hexdumpLoop_first (h0 : pos % 16 = 0) (hlt : pos < buf.length) (size : ℕ) :
    hexdumpLoop buf offset pos (size + 1) = (hexdumpLoop buf offset (pos + 1) size).map
      (hexDigits 8 (offset + UInt32.ofNat pos).toNat ++ [0x3a, 0x20] ++ byteColumn buf[pos] ++ ·) := by
  have h15 : pos % 16 ≠ 15 := by omega
  rw [hexdumpLoop, List.getElem?_eq_getElem hlt, Option.bind_some, if_neg h15, Option.bind_some, if_pos h0,
    List.append_nil]
  rfl

/-- Bytes within a line. -/
theorem hexdumpLoop_middle {k : ℕ} (h0 : pos % 16 ≠ 0) (h15 : pos % 16 + k ≤ 15) (hle : pos + k ≤ buf.length) (size : ℕ) :
    hexdumpLoop buf offset pos (k + size) = (hexdumpLoop buf offset (pos + k) size).map
      (((buf.drop pos).take k).flatMap byteColumn ++ ·) := by
  induction k generalizing pos with
  | zero =>
    rw [Nat.zero_add, Nat.add_zero, List.take_zero, List.flatMap_nil]
    exact Option.map_id'.symm
  | succ k ih =>
    have hlt : pos < buf.length := by omega
    have hne : pos % 16 ≠ 15 := by omega
    rw [show k + 1 + size = k + size + 1 by omega, hexdumpLoop, List.getElem?_eq_getElem hlt, Option.bind_some,
      if_neg hne, Option.bind_some, if_neg h0, ih (by omega) (by omega) (by omega), List.append_nil, List.nil_append,
      Option.map_map, List.drop_eq_getElem_cons hlt, List.take_succ_cons, List.flatMap_cons,
      show pos + 1 + k = pos + (k + 1) by omega]
    refine congrArg (fun g => Option.map g _) (funext fun out => ?_)
    exact (List.append_assoc _ _ _).symm

/-- The last byte of a full line. -/
theorem hexdumpLoop_last (h15 : pos % 16 = 15) (hlt : pos < buf.length) (size : ℕ) :
    hexdumpLoop buf offset pos (size + 1) = (hexdumpLoop buf offset (pos + 1) size).map
      (byteColumn buf[pos] ++ ([0x27] ++ ((buf.drop (pos - 15)).take 16).map asciiChar ++ [0x27] ++ [0x0a]) ++ ·) := by
  have h0 : pos % 16 ≠ 0 := by omega
  rw [hexdumpLoop, List.getElem?_eq_getElem hlt, Option.bind_some, if_pos h15, printAscii_eq (by omega), Option.map_some,
    Option.bind_some, if_neg h0]
  rfl

/-- A full line. -/
theorem hexdumpLoop_line {address : ℕ} (h0 : pos % 16 = 0) (hle : pos + 16 ≤ buf.length)
    (ha : (offset + UInt32.ofNat pos).toNat = address % 2 ^ 32) (size : ℕ) :
    hexdumpLoop buf offset pos (size + 16) = (hexdumpLoop buf offset (pos + 16) size).map
      (hexLine address ((buf.drop pos).take 16) ++ ·) := by
  have hrow : (buf.drop pos).take 16 = buf[pos] :: ((buf.drop (pos + 1)).take 14 ++ [buf[pos + 15]]) := by
    rw [List.drop_eq_getElem_cons (by omega), List.take_succ_cons, List.take_add_one, List.getElem?_drop,
      List.getElem?_eq_getElem (by omega)]
    rfl
  have hlast := @hexdumpLoop_last buf offset (pos + 15) (by omega) (by omega) size
  rw [Nat.add_sub_cancel] at hlast
  rw [hexdumpLoop_first h0 (by omega) (size + 15), show size + 15 = 14 + (size + 1) by omega,
    hexdumpLoop_middle (k := 14) (by omega) (by omega) (by omega), show pos + 1 + 14 = pos + 15 by omega, hlast,
    Option.map_map, Option.map_map, ha, show pos + 15 + 1 = pos + 16 by omega]
  refine congrArg (fun g => Option.map g _) (funext fun out => ?_)
  have hlen : ((buf.drop pos).take 16).length = 16 := by
    rw [List.length_take, List.length_drop]
    omega
  unfold hexLine
  rw [hlen]
  conv_rhs => rw [hrow, List.flatMap_cons, List.flatMap_append, List.flatMap_singleton, ← hrow]
  simp only [Function.comp_apply, List.append_assoc, Nat.sub_self, Nat.mul_zero, List.replicate_zero, List.nil_append,
    List.cons_append]

/-- The last line, if it is not full. -/
theorem hexdumpLoop_short {address size : ℕ} (h0 : pos % 16 = 0) (hpos : 0 < size) (hlt : size < 16)
    (hle : pos + size ≤ buf.length) (ha : (offset + UInt32.ofNat pos).toNat = address % 2 ^ 32) :
    hexdumpLoop buf offset pos size = some (hexLine address ((buf.drop pos).take size)) := by
  obtain ⟨k, rfl⟩ : ∃ k, size = k + 1 := ⟨size - 1, by omega⟩
  have hrow : (buf.drop pos).take (k + 1) = buf[pos] :: (buf.drop (pos + 1)).take k := by
    rw [List.drop_eq_getElem_cons (by omega), List.take_succ_cons]
  have hmod : (pos + 1 + k) % 16 = k + 1 := by omega
  have hlen : ((buf.drop pos).take (k + 1)).length = k + 1 := by
    rw [List.length_take, List.length_drop]
    omega
  rw [hexdumpLoop_first h0 (by omega) k]
  have hmiddle : hexdumpLoop buf offset (pos + 1) k = some (((buf.drop (pos + 1)).take k).flatMap byteColumn ++
      (List.replicate (3 * (16 - (k + 1))) 0x20 ++ [0x27] ++ ((buf.drop pos).take (k + 1)).map asciiChar ++ [0x27] ++ [0x0a])) := by
    have hend : hexdumpLoop buf offset (pos + 1 + k) 0 =
        some (List.replicate (3 * (16 - (k + 1))) 0x20 ++ [0x27] ++ ((buf.drop pos).take (k + 1)).map asciiChar ++ [0x27] ++ [0x0a]) := by
      rw [hexdumpLoop, hmod, if_pos (Nat.succ_ne_zero k), show pos + 1 + k - (k + 1) = pos by omega, printAscii_eq hle]
      rfl
    have hrun : hexdumpLoop buf offset (pos + 1) k = (hexdumpLoop buf offset (pos + 1 + k) 0).map
        (((buf.drop (pos + 1)).take k).flatMap byteColumn ++ ·) :=
      hexdumpLoop_middle (by omega) (by omega) (by omega) 0
    rw [hrun, hend]
    rfl
  rw [hmiddle, Option.map_some, ha]
  unfold hexLine
  rw [hlen]
  conv_rhs => rw [hrow, List.flatMap_cons, ← hrow]
  simp only [List.append_assoc, List.cons_append, List.nil_append]

theorem address_add {address : ℕ} (h : offset.toNat = address % 2 ^ 32) (pos : ℕ) :
    (offset + UInt32.ofNat pos).toNat = (address + pos) % 2 ^ 32 := by
  rw [UInt32.toNat_add, h, UInt32.toNat_ofNat']
  omega

/-- From a line on. -/
theorem hexdumpLoop_eq {address : ℕ} (h : offset.toNat = address % 2 ^ 32) {size : ℕ} (h0 : pos % 16 = 0)
    (hle : pos + size ≤ buf.length) :
    hexdumpLoop buf offset pos size = some (hexLines (address + pos) ((buf.drop pos).take size)) := by
  induction size using Nat.strongRecOn generalizing pos with
  | ind size ih =>
    have hlen : ((buf.drop pos).take size).length = size := by
      rw [List.length_take, List.length_drop]
      omega
    by_cases hzero : size = 0
    · rw [hzero, hexdumpLoop, if_neg (by omega), List.take_zero]
      rfl
    · have hne : (buf.drop pos).take size ≠ [] := by
        intro hnil
        rw [hnil] at hlen
        exact hzero hlen.symm
      by_cases hlt : size < 16
      · have htake : ((buf.drop pos).take size).take 16 = (buf.drop pos).take size := List.take_of_length_le (by omega)
        have hdrop : ((buf.drop pos).take size).drop 16 = [] := List.drop_of_length_le (by omega)
        rw [hexdumpLoop_short h0 (by omega) hlt hle (address_add h pos), hexLines_cons _ hne, htake, hdrop]
        exact congrArg some (List.append_nil _).symm
      · obtain ⟨rest, rfl⟩ : ∃ rest, size = rest + 16 := ⟨size - 16, by omega⟩
        have htake : ((buf.drop pos).take (rest + 16)).take 16 = (buf.drop pos).take 16 := by
          rw [List.take_take, Nat.min_eq_left (by omega)]
        have hdrop : ((buf.drop pos).take (rest + 16)).drop 16 = (buf.drop (pos + 16)).take rest := by
          rw [List.drop_take, List.drop_drop, Nat.add_sub_cancel]
        rw [hexdumpLoop_line h0 (by omega) (address_add h pos), ih rest (by omega) (by omega) (by omega), Option.map_some,
          hexLines_cons _ hne, htake, hdrop, Nat.add_assoc]

/-- **The hexdump of a buffer**, whatever lies behind its `size` bytes. -/
theorem hexdump_eq {address size : ℕ} (h : offset.toNat = address % 2 ^ 32) (hle : size ≤ buf.length) :
    hexdump buf size offset = some (hexLines address (buf.take size)) :=
  hexdumpLoop_eq h rfl (by omega)

end

/-! ## The chunks -/

/-- A marker of -1, and a size below zero, are large as `size_t`. -/
theorem chunkSize_eq (size : UInt64) :
    (if size = -1 then 256 else if size < 256 then size.toNat else 256) = min size.toNat 256 := by
  split
  next h =>
    subst h
    rfl
  next h =>
    split
    next hlt =>
      have := UInt64.lt_iff_toNat_lt.mp hlt
      exact (Nat.min_eq_left (Nat.le_of_lt this)).symm
    next hge =>
      have := UInt64.le_iff_toNat_le.mp (UInt64.not_lt.mp hge)
      exact (Nat.min_eq_right this).symm

/-- The rest of the file, and at most `size` bytes of it, in chunks. -/
theorem hexdumpChunks_eq {fuel : ℕ} {f : InFile} {buf : List UInt8} {offset size : UInt64} (hbuf : buf.length = 256)
    (hoffset : offset.toNat = f.pos) (hfuel : f.contents.length - f.pos < 256 * fuel) :
    hexdumpChunks fuel f buf offset size = some (hexLines f.pos ((f.contents.drop f.pos).take size.toNat)) := by
  have hlong := f.length_lt
  induction fuel generalizing f buf offset size with
  | zero => omega
  | succ fuel ih =>
    generalize hdata : (f.contents.drop f.pos).take (min size.toNat 256) = data
    have hlen : data.length = min (min size.toNat 256) (f.contents.length - f.pos) := by
      rw [← hdata, List.length_take, List.length_drop]
    have hbuf' : (data ++ buf.drop data.length).length = 256 := by
      rw [List.length_append, List.length_drop, hbuf]
      omega
    have haddress : offset.toUInt32.toNat = f.pos % 2 ^ 32 := by rw [UInt64.toNat_toUInt32, hoffset]
    have hdump : hexdump (data ++ buf.drop data.length) data.length offset.toUInt32 = some (hexLines f.pos data) := by
      rw [hexdump_eq haddress (by omega), List.take_left]
    have hread : f.fread (min size.toNat 256) = (data, { f with pos := f.pos + data.length }) := by
      unfold InFile.fread
      rw [hdata]
    unfold hexdumpChunks
    rw [chunkSize_eq]
    dsimp only
    rw [hread]
    dsimp only
    rw [hdump, Option.bind_some]
    by_cases hlt : data.length < 256
    · -- the last chunk
      have hall : (f.contents.drop f.pos).take size.toNat = data := by
        rw [← hdata]
        by_cases hs : size.toNat ≤ 256
        · rw [Nat.min_eq_left hs]
        · rw [List.take_of_length_le (by rw [List.length_drop]; omega),
            List.take_of_length_le (by rw [List.length_drop]; omega)]
      rw [if_pos hlt, hall]
    · have hfull : data.length = 256 := by omega
      have hnext : (offset + UInt64.ofNat data.length).toNat = f.pos + data.length := by
        rw [UInt64.toNat_add, hfull, hoffset]
        exact Nat.mod_eq_of_lt (by show f.pos + 256 < _; omega)
      have hsize : (size - UInt64.ofNat data.length).toNat = size.toNat - 256 := by
        rw [hfull]
        exact UInt64.toNat_sub_of_le _ _ (UInt64.le_iff_toNat_le.mpr (by show 256 ≤ _; omega))
      have hsplit : (f.contents.drop f.pos).take size.toNat =
          data ++ (f.contents.drop (f.pos + 256)).take (size.toNat - 256) := by
        rw [← hdata, Nat.min_eq_right (by omega), ← List.drop_drop, ← List.take_add, Nat.add_sub_cancel' (by omega)]
      have hrest := @ih { f with pos := f.pos + data.length } _ _ (size - UInt64.ofNat data.length) hbuf' hnext
        (by show f.contents.length - (f.pos + data.length) < _; omega) hlong
      rw [if_neg hlt, hrest, Option.map_some, hsplit, hexLines_append _ _ (by rw [hfull]; decide), hsize, hfull]

/-- The bytes from `offset` to `min(offset + size, length)`; `-1` stands for all. -/
def slice (contents : List UInt8) (offset : ℕ) (size : ℤ) : List UInt8 :=
  if size = -1 then contents.drop offset else (contents.drop offset).take size.toNat

/-- **The chunked hexdump of a file is the plain hexdump of the slice**, from which the bytes can be recovered. -/
theorem hexdump_file (f : InFile) (buf : List UInt8) (offset : UInt64) (size : ℤ) (fuel : ℕ) (hbuf : buf.length = 256)
    (hsize : -1 ≤ size) (hssize : size < 2 ^ 63) (hfuel : f.contents.length < 256 * fuel) :
    mlHexdumpFile fuel f buf offset (UInt64.ofInt size) = some
      (if offset.toNat < 2 ^ 63 then 0 else -1000, hexLines offset.toNat (slice f.contents offset.toNat size)) ∧
    recover (hexLines offset.toNat (slice f.contents offset.toNat size)) = slice f.contents offset.toNat size := by
  refine ⟨?_, recover_hexLines _ _⟩
  unfold mlHexdumpFile InFile.fseek
  by_cases hseek : offset.toNat < 2 ^ 63
  · have hslice : (f.contents.drop offset.toNat).take (UInt64.ofInt size).toNat = slice f.contents offset.toNat size := by
      unfold slice
      split
      next h =>
        subst h
        have := f.length_lt
        exact List.take_of_length_le (by rw [List.length_drop]; show _ ≤ 2 ^ 64 - 1; omega)
      next h =>
        have hnat : (UInt64.ofInt size).toNat = size.toNat := by
          show (UInt64.ofNat (size % 2 ^ 64).toNat).toNat = _
          rw [UInt64.toNat_ofNat']
          omega
        rw [hnat]
    have hchunks := @hexdumpChunks_eq fuel { f with pos := offset.toNat } buf offset (UInt64.ofInt size) hbuf rfl
      (by show f.contents.length - offset.toNat < _; omega)
    rw [if_pos hseek, if_pos hseek]
    show (hexdumpChunks _ _ _ _ _).map _ = _
    rw [hchunks, hslice]
    rfl
  · -- such an offset lies behind every file
    have hempty : slice f.contents offset.toNat size = [] := by
      have := f.length_lt
      unfold slice
      rw [List.drop_of_length_le (by omega), List.take_nil, ite_self]
    rw [if_neg hseek, if_neg hseek, hempty]
    rfl

/-- A file of 600 bytes. -/
def sixHundred : List UInt8 := (List.range 600).map UInt8.ofNat

theorem length_sixHundred : sixHundred.length = 600 := by
  unfold sixHundred
  rw [List.length_map, List.length_range]

theorem sixHundred_lt : sixHundred.length < 2 ^ 63 := by
  rw [length_sixHundred]
  decide

/-- From the offset 1 to the end: two full chunks, and one that is not. -/
theorem hexdump_file_1_m1 :
    mlHexdumpFile 3 ⟨sixHundred, 0, sixHundred_lt⟩ (List.replicate 256 0xaa) 1 (UInt64.ofInt (-1)) =
        some (0, hexLines 1 (sixHundred.drop 1)) ∧
      recover (hexLines 1 (sixHundred.drop 1)) = sixHundred.drop 1 := by
  have hfuel : (⟨sixHundred, 0, sixHundred_lt⟩ : InFile).contents.length < 256 * 3 := by
    dsimp only
    rw [length_sixHundred]
    decide
  have hslice : slice sixHundred 1 (-1) = sixHundred.drop 1 := if_pos rfl
  have hdump := hexdump_file ⟨sixHundred, 0, sixHundred_lt⟩ (List.replicate 256 0xaa) 1 (-1) 3 List.length_replicate
    (by decide) (by decide) hfuel
  dsimp only at hdump
  rwa [show (1 : UInt64).toNat = 1 from rfl, if_pos (by decide), hslice] at hdump

end Monolinux
