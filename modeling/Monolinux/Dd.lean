import Monolinux.Lib.Linux
import Monolinux.Errors

/-!
# `ml_dd`

A file is copied in chunks into another one: of `totalSize` bytes, `chunkSize` at a time
and what is left in the end.  Of a run stay the calls of `read()` and `write()` with what
they returned, the open files, and how often the buffer was allocated and freed.

Nothing checks that the chunk size is not zero.  Then each chunk is copied with success,
and nothing gets less: the loop only ends by a call that fails (`ddLoop_zero`).  With
any other chunk size it ends, and the copy is what was asked for (`ddLoop_spec`); so
`mlDd_iff` says when `ml_dd` is as it should be.
-/

namespace Monolinux

inductive DdFile
  | infile
  | outfile
  deriving DecidableEq

/-- How the calls go.  `reads k` and `writes k` are those of the chunk `k`: the bytes that there are to
read, and the number of bytes that there is room to write; no call takes more than it is asked to. -/
structure DdEnv where
  openIn : Except ℕ+ ℕ
  openOut : Except ℕ+ ℕ
  malloc : Except ℕ+ Unit
  reads : ℕ → Except ℕ+ (List UInt8)
  writes : ℕ → Except ℕ+ ℕ

/-- A call with what it returned. -/
inductive DdCall
  | read (count : ℕ) (data : Except ℕ+ (List UInt8))
  | write (data : List UInt8) (count : Except ℕ+ ℕ)

structure DdWorld where
  files : Descriptors DdFile
  calls : List DdCall
  mallocs : ℕ
  frees : ℕ

namespace DdWorld

variable (w : DdWorld)

def call (c : DdCall) : DdWorld := { w with calls := w.calls ++ [c] }

def close (fd : ℕ) : DdWorld := { w with files := w.files.close fd }

def free : DdWorld := { w with frees := w.frees + 1 }

end DdWorld

/-! ## The code -/

/-- `dd_copy_chunk()` for the chunk `k`. -/
def ddCopyChunk (env : DdEnv) (w : DdWorld) (k chunkSize : ℕ) : ℤ × DdWorld :=
  match env.reads k with
  | .error errno => (-errno, w.call (.read chunkSize (.error errno)))
  | .ok data =>
    let buf := data.take chunkSize
    let w := w.call (.read chunkSize (.ok buf))
    if buf.length ≠ chunkSize then (-EGENERAL, w)
    else
      match env.writes k with
      | .error errno => (-errno, w.call (.write buf (.error errno)))
      | .ok count =>
        let size := min count chunkSize
        let w := w.call (.write buf (.ok size))
        if size ≠ chunkSize then (-EGENERAL, w) else (0, w)

/-- The `while` loop, from the chunk `k` on; `none` when the fuel is used up. -/
def ddLoop (env : DdEnv) : ℕ → DdWorld → ℕ → ℕ → ℕ → Option (ℤ × DdWorld)
  | 0, _, _, _, _ => none
  | fuel + 1, w, k, totalSize, chunkSize =>
    if 0 < totalSize then
      let chunkSize := if chunkSize > totalSize then totalSize else chunkSize
      let (res, w) := ddCopyChunk env w k chunkSize
      if res ≠ 0 then some (res, w) else ddLoop env fuel w (k + 1) (totalSize - chunkSize) chunkSize
    else some (0, w)

/-- `ml_dd()`.  The loop is left by `goto out3` exactly if its value is not zero. -/
def mlDd (env : DdEnv) (fuel : ℕ) (files : Descriptors DdFile) (totalSize chunkSize : ℕ) : Option (ℤ × DdWorld) :=
  match env.openIn with
  | .error errno => some (-errno, ⟨files, [], 0, 0⟩)
  | .ok n =>
    let fdin := files.pick n
    let files := files.create .infile n
    match env.openOut with
    | .error errno => some (-errno, ⟨files.close fdin, [], 0, 0⟩)
    | .ok m =>
      let fdout := files.pick m
      let files := files.create .outfile m
      match env.malloc with
      | .error errno => some (-errno, ⟨(files.close fdout).close fdin, [], 0, 0⟩)
      | .ok _ => (ddLoop env fuel ⟨files, [], 1, 0⟩ 0 totalSize chunkSize).map fun (res, w) =>
        if res ≠ 0 then (res, (w.free.close fdout).close fdin) else (0, ((w.close fdin).close fdout).free)

/-! ## What is asked for -/

/-- As much was read or written as was to be. -/
def DdCall.Complete : DdCall → Prop
  | .read count (.ok data) => data.length = count
  | .write data (.ok count) => count = data.length
  | _ => False

/-- The calls that copy a piece. -/
def copyCalls (piece : List UInt8) : List DdCall := [.read piece.length (.ok piece), .write piece (.ok piece.length)]

/-- What is asked of a run of `ml_dd` that has ended; the files in `l` are other users'. -/
structure DdGood (l : List (ℕ × DdFile)) (totalSize chunkSize : ℕ) (res : ℤ) (w : DdWorld) : Prop where
  /-- all bytes were read and written, in order, in pieces of the chunk size at most -/
  copied : res = 0 → ∃ pieces : List (List UInt8), w.calls = pieces.flatMap copyCalls ∧
    (pieces.map List.length).sum = totalSize ∧ ∀ p ∈ pieces, p.length ≤ chunkSize
  /-- a read or a write that fails or is short is the last call -/
  atOnce : ∀ front c back, w.calls = front ++ c :: back → ¬c.Complete → back = [] ∧ res < 0
  files : w.files.Owns l
  buffer : w.frees = w.mallocs

/-- `calls` ends with a call that is not complete, the only one. -/
def Broken (calls : List DdCall) : Prop := ∃ front c, calls = front ++ [c] ∧ (∀ d ∈ front, d.Complete) ∧ ¬c.Complete

theorem copyCalls_complete {piece : List UInt8} {c : DdCall} (h : c ∈ copyCalls piece) : c.Complete := by
  unfold copyCalls at h
  simp only [List.mem_cons, List.not_mem_nil, or_false] at h
  rcases h with rfl | rfl
  · exact rfl
  · exact rfl

theorem Broken.append {calls calls' : List DdCall} (h : ∀ c ∈ calls, c.Complete) (h' : Broken calls') :
    Broken (calls ++ calls') := by
  obtain ⟨front, c, rfl, hfront, hc⟩ := h'
  refine ⟨calls ++ front, c, by rw [List.append_assoc], fun d hd => ?_, hc⟩
  rcases List.mem_append.mp hd with hd | hd
  · exact h d hd
  · exact hfront d hd

/-- Behind the call that is not complete there is none. -/
theorem Broken.atOnce {calls front back : List DdCall} {c : DdCall} (h : Broken calls) (he : calls = front ++ c :: back)
    (hc : ¬c.Complete) : back = [] := by
  obtain ⟨front', c', rfl, hfront', -⟩ := h
  rcases List.eq_nil_or_concat back with hback | ⟨back', d, hback⟩
  · exact hback
  · exfalso
    rw [hback, List.concat_eq_append, ← List.cons_append, ← List.append_assoc] at he
    obtain ⟨hfront, -⟩ := List.append_inj' he rfl
    exact hc (hfront' c (by rw [hfront]; simp))

/-! ## One chunk -/

section
variable {env : DdEnv} {w w' : DdWorld} {k totalSize chunkSize fuel : ℕ} {res : ℤ}

/-- A chunk is copied, or a call fails or is short and the value is negative. -/
theorem ddCopyChunk_cases (env : DdEnv) (w : DdWorld) (k chunkSize : ℕ) :
    (∃ piece : List UInt8, piece.length = chunkSize ∧
      ddCopyChunk env w k chunkSize = (0, { w with calls := w.calls ++ copyCalls piece })) ∨
    ∃ res calls, res < 0 ∧ Broken calls ∧ ddCopyChunk env w k chunkSize = (res, { w with calls := w.calls ++ calls }) := by
  unfold ddCopyChunk
  cases hread : env.reads k with
  | error errno => exact .inr ⟨_, [_], neg_errno_neg errno, ⟨[], _, rfl, by simp, id⟩, rfl⟩
  | ok data =>
    simp only
    by_cases hsize : (data.take chunkSize).length = chunkSize
    · -- the write follows a complete read
      have hbroken {c : DdCall} (hc : ¬c.Complete) :
          Broken [.read chunkSize (.ok (data.take chunkSize)), c] := by
        refine ⟨[.read chunkSize (.ok (data.take chunkSize))], c, rfl, fun d hd => ?_, hc⟩
        rw [List.mem_singleton.mp hd]
        exact hsize
      rw [if_neg (not_not.mpr hsize)]
      cases hwrite : env.writes k with
      | error errno =>
        exact .inr ⟨_, _, neg_errno_neg errno, hbroken id, by simp only [DdWorld.call, List.append_assoc]; rfl⟩
      | ok count =>
        by_cases hcount : min count chunkSize = chunkSize
        · refine .inl ⟨data.take chunkSize, hsize, ?_⟩
          simp only [hcount, ne_eq, not_true_eq_false, if_false, DdWorld.call, copyCalls, hsize, List.append_assoc]
          rfl
        · refine .inr ⟨-EGENERAL, _, by decide, hbroken (c := .write (data.take chunkSize) (.ok (min count chunkSize))) ?_, ?_⟩
          · intro hc
            exact hcount (hc.trans hsize)
          · simp only [ne_eq, hcount, not_false_eq_true, if_true, DdWorld.call, List.append_assoc]
            rfl
    · rw [if_pos hsize]
      exact .inr ⟨-EGENERAL, [.read chunkSize (.ok (data.take chunkSize))], by decide, ⟨[], _, rfl, by simp, hsize⟩, rfl⟩

/-! ## The loop -/

theorem ddLoop_succ (env : DdEnv) (fuel : ℕ) (w : DdWorld) (k : ℕ) {totalSize : ℕ} (h : 0 < totalSize) (chunkSize : ℕ) :
    ddLoop env (fuel + 1) w k totalSize chunkSize =
      if (ddCopyChunk env w k (min chunkSize totalSize)).1 ≠ 0 then some (ddCopyChunk env w k (min chunkSize totalSize))
      else ddLoop env fuel (ddCopyChunk env w k (min chunkSize totalSize)).2 (k + 1)
        (totalSize - min chunkSize totalSize) (min chunkSize totalSize) := by
  have hmin : (if chunkSize > totalSize then totalSize else chunkSize) = min chunkSize totalSize := by
    split <;> omega
  rw [ddLoop, if_pos h]
  simp only [hmin]

/-- All was copied, or a call was not complete and the value is negative. -/
theorem ddLoop_spec (h : ddLoop env fuel w k totalSize chunkSize = some (res, w')) : ∃ calls,
    w' = { w with calls := w.calls ++ calls } ∧
    ((res = 0 ∧ ∃ pieces : List (List UInt8), calls = pieces.flatMap copyCalls ∧
        (pieces.map List.length).sum = totalSize ∧ ∀ p ∈ pieces, p.length ≤ chunkSize) ∨
      (res < 0 ∧ Broken calls)) := by
  induction fuel generalizing w k totalSize chunkSize with
  | zero => cases h
  | succ fuel ih =>
    rcases Nat.eq_zero_or_pos totalSize with rfl | hpos
    · obtain ⟨rfl, rfl⟩ := Prod.mk.inj (Option.some.inj h)
      exact ⟨[], by rw [List.append_nil], .inl ⟨rfl, [], rfl, rfl, by simp⟩⟩
    · rw [ddLoop_succ env fuel w k hpos] at h
      rcases ddCopyChunk_cases env w k (min chunkSize totalSize) with ⟨piece, hlen, he⟩ | ⟨res₁, calls, hneg, hbroken, he⟩
      · rw [he, if_neg (not_not.mpr rfl)] at h
        obtain ⟨calls, rfl, hrest⟩ := ih h
        refine ⟨copyCalls piece ++ calls, by rw [List.append_assoc], ?_⟩
        rcases hrest with ⟨rfl, pieces, rfl, hsum, hle⟩ | ⟨hneg, hbroken⟩
        · refine .inl ⟨rfl, piece :: pieces, rfl, ?_, fun p hp => ?_⟩
          · rw [List.map_cons, List.sum_cons, hsum, hlen]
            omega
          · rcases List.mem_cons.mp hp with rfl | hp
            · omega
            · have := hle p hp
              omega
        · exact .inr ⟨hneg, hbroken.append fun c hc => copyCalls_complete hc⟩
      · rw [he, if_pos hneg.ne] at h
        obtain ⟨rfl, rfl⟩ := Prod.mk.inj (Option.some.inj h)
        exact ⟨calls, rfl, .inr ⟨hneg, hbroken⟩⟩

/-- With a chunk size that is not zero less is left after each chunk. -/
theorem ddLoop_terminates (hchunk : 0 < chunkSize) (hfuel : totalSize < fuel) :
    (ddLoop env fuel w k totalSize chunkSize).isSome = true := by
  induction fuel generalizing w k totalSize chunkSize with
  | zero => omega
  | succ fuel ih =>
    rcases Nat.eq_zero_or_pos totalSize with rfl | hpos
    · rfl
    · rw [ddLoop_succ env fuel w k hpos]
      split
      · rfl
      · exact ih (by omega) (by omega)

/-! ## Chunks of no bytes -/

/-- The read or the write of the chunk `k` fails. -/
def DdEnv.Fails (env : DdEnv) (k : ℕ) : Prop := (∃ errno, env.reads k = .error errno) ∨ ∃ errno, env.writes k = .error errno

/-- Nothing is asked to be read or written, so no call is short. -/
theorem ddCopyChunk_zero : (ddCopyChunk env w k 0).1 = 0 ↔ ¬env.Fails k := by
  unfold ddCopyChunk DdEnv.Fails
  cases hread : env.reads k with
  | error errno => simp [(neg_errno_neg errno).ne]
  | ok data =>
    cases hwrite : env.writes k with
    | error errno => simp [(neg_errno_neg errno).ne]
    | ok count => simp

/-- The loop goes on until a call fails. -/
theorem ddLoop_zero (hpos : 0 < totalSize) :
    (∃ fuel, (ddLoop env fuel w k totalSize 0).isSome = true) ↔ ∃ j, env.Fails (k + j) := by
  constructor
  · rintro ⟨fuel, h⟩
    induction fuel generalizing w k with
    | zero => cases h
    | succ fuel ih =>
      rw [ddLoop_succ env fuel w k hpos, Nat.zero_min, Nat.sub_zero] at h
      by_cases hfails : env.Fails k
      · exact ⟨0, hfails⟩
      · rw [if_neg (not_not.mpr (ddCopyChunk_zero.mpr hfails))] at h
        obtain ⟨j, hj⟩ := ih h
        exact ⟨j + 1, by rwa [Nat.add_assoc, Nat.add_comm 1] at hj⟩
  · rintro ⟨j, hj⟩
    induction j generalizing w k with
    | zero =>
      refine ⟨1, ?_⟩
      have hfails : (ddCopyChunk env w k 0).1 ≠ 0 := fun h => ddCopyChunk_zero.mp h hj
      rw [ddLoop_succ env 0 w k hpos, Nat.zero_min, if_pos hfails]
      rfl
    | succ j ih =>
      obtain ⟨fuel, h⟩ := ih (w := (ddCopyChunk env w k 0).2) (k := k + 1) (by rwa [Nat.add_assoc, Nat.add_comm 1])
      refine ⟨fuel + 1, ?_⟩
      rw [ddLoop_succ env fuel w k hpos, Nat.zero_min, Nat.sub_zero]
      split
      · rfl
      · exact h

end

/-! ## Main results -/

section
variable {env : DdEnv} {files : Descriptors DdFile} {l : List (ℕ × DdFile)} {totalSize chunkSize fuel : ℕ} {res : ℤ}
  {w : DdWorld}

/-- An early return, with nothing read or written. -/
theorem ddGood_early (hl : files.Owns l) (errno : ℕ+) (mallocs : ℕ) :
    DdGood l totalSize chunkSize (-errno) ⟨files, [], mallocs, mallocs⟩ where
  copied hzero := absurd hzero (neg_errno_neg errno).ne
  atOnce front c back he _ := absurd he (by simp)
  files := hl
  buffer := rfl

/-- Whatever `ml_dd` returns, it has copied what it says, and nothing is left open or allocated. -/
theorem mlDd_good (hl : files.Owns l) (h : mlDd env fuel files totalSize chunkSize = some (res, w)) :
    DdGood l totalSize chunkSize res w := by
  unfold mlDd at h
  cases hin : env.openIn with
  | error errno =>
    rw [hin] at h
    obtain ⟨rfl, rfl⟩ := Prod.mk.inj (Option.some.inj h)
    exact ddGood_early hl errno 0
  | ok n =>
    cases hout : env.openOut with
    | error errno =>
      rw [hin, hout] at h
      obtain ⟨rfl, rfl⟩ := Prod.mk.inj (Option.some.inj h)
      exact ddGood_early (close_create hl _ n) errno 0
    | ok m =>
      have hopen := owns_create (owns_create hl .infile n) .outfile m
      cases hmalloc : env.malloc with
      | error errno =>
        rw [hin, hout, hmalloc] at h
        obtain ⟨rfl, rfl⟩ := Prod.mk.inj (Option.some.inj h)
        exact ddGood_early (owns_close (owns_close hopen)) errno 0
      | ok _ =>
        rw [hin, hout, hmalloc] at h
        obtain ⟨⟨res₁, w₁⟩, hloop, he⟩ := Option.map_eq_some_iff.mp h
        obtain ⟨calls, rfl, hcalls⟩ := ddLoop_spec hloop
        rcases hcalls with ⟨rfl, hcopied⟩ | ⟨hneg, hbroken⟩
        · obtain ⟨rfl, rfl⟩ := Prod.mk.inj he
          refine ⟨fun _ => hcopied, fun front c back hcalls hc => ?_, owns_close (owns_close (hopen.of_perm (.swap ..))), rfl⟩
          obtain ⟨pieces, rfl, -, -⟩ := hcopied
          have hmem : c ∈ pieces.flatMap copyCalls := by
            have hcalls : pieces.flatMap copyCalls = front ++ c :: back := hcalls
            rw [hcalls]
            simp
          obtain ⟨p, -, hp⟩ := List.mem_flatMap.mp hmem
          exact absurd (copyCalls_complete hp) hc
        · simp only [if_pos hneg.ne] at he
          obtain ⟨rfl, rfl⟩ := Prod.mk.inj he
          exact ⟨fun hzero => absurd hzero hneg.ne, fun front c back hcalls hc => ⟨hbroken.atOnce hcalls hc, hneg⟩,
            owns_close (owns_close hopen), rfl⟩

/-- There is nothing to copy, the chunks are not empty, a file does not open or there is no memory, or a
call fails that reads or writes no bytes. -/
def DdEnv.Ends (env : DdEnv) (totalSize chunkSize : ℕ) : Prop :=
  totalSize = 0 ∨ chunkSize ≠ 0 ∨ (∃ errno, env.openIn = .error errno) ∨ (∃ errno, env.openOut = .error errno) ∨
    (∃ errno, env.malloc = .error errno) ∨ ∃ k, env.Fails k

theorem mlDd_terminates : (∃ fuel, (mlDd env fuel files totalSize chunkSize).isSome = true) ↔ env.Ends totalSize chunkSize := by
  unfold mlDd DdEnv.Ends
  cases hin : env.openIn with
  | error errno => simp
  | ok n =>
    cases hout : env.openOut with
    | error errno => simp
    | ok m =>
      cases hmalloc : env.malloc with
      | error errno => simp
      | ok _ =>
        simp only [Option.isSome_map, reduceCtorEq, exists_const, false_or]
        rcases Nat.eq_zero_or_pos totalSize with rfl | hpos
        · exact iff_of_true ⟨1, rfl⟩ (.inl rfl)
        · rcases Nat.eq_zero_or_pos chunkSize with rfl | hchunk
          · rw [ddLoop_zero hpos]
            simp [hpos.ne']
          · exact iff_of_true ⟨totalSize + 1, ddLoop_terminates hchunk (Nat.lt_succ_self _)⟩ (.inr (.inl hchunk.ne'))

/-- **What `ml_dd` does, and when it ends.**  It ends, with everything copied that was asked for or a
negative value at once and with all files closed and the buffer freed, if and only if there is
nothing to copy, the chunk size is not zero, or something fails. -/
theorem mlDd_iff (env : DdEnv) (totalSize chunkSize : ℕ) (hl : files.Owns l) :
    ((∃ fuel, (mlDd env fuel files totalSize chunkSize).isSome = true) ∧
      ∀ fuel res w, mlDd env fuel files totalSize chunkSize = some (res, w) → DdGood l totalSize chunkSize res w) ↔
    env.Ends totalSize chunkSize := by
  rw [mlDd_terminates]
  exact and_iff_left fun _ _ _ h => mlDd_good hl h

/-- Nothing fails, and every call takes what it is asked to. -/
def DdEnv.smooth : DdEnv where
  openIn := .ok 3
  openOut := .ok 4
  malloc := .ok ()
  reads _ := .ok (List.replicate 4 0)
  writes _ := .ok 4

/-- Five bytes in chunks of four. -/
theorem mlDd_five : (∃ fuel, (mlDd .smooth fuel ⟨[], []⟩ 5 4).isSome = true) ∧
    ∀ fuel res w, mlDd .smooth fuel ⟨[], []⟩ 5 4 = some (res, w) → DdGood [] 5 4 res w :=
  (mlDd_iff .smooth 5 4 owns_nil).mpr (.inr (.inl (by decide)))

/-- One byte in chunks of none is never copied. -/
theorem mlDd_chunks_of_none : ¬∃ fuel, (mlDd .smooth fuel ⟨[], []⟩ 1 0).isSome = true := by
  rw [mlDd_terminates]
  simp [DdEnv.Ends, DdEnv.Fails, DdEnv.smooth]

end

end Monolinux
