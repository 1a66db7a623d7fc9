import Monolinux.Kmsg.Reader
import Monolinux.Lib.FileWriter
import Monolinux.Lib.Run
import Monolinux.Lib.Terminal

/-!
# `ml_finalize_coredump`

For every process that crashes the kernel starts a handler with the core on its standard
input.  It looks for a slot, a directory of that number for which `lstat()` fails, makes it,
and writes `core`, `log.txt` and `info.txt` into it.  What `mkdir()` returns is ignored:
that a slot is the handler's own depends on no other one looking for a slot before it has
entered its own, and on `lstat()` not failing for a directory that exists (`Undisturbed`).

* `coredumps_kept`: then no two handlers are in a slot, nothing that was dumped before is
  touched, there are at most so many slots, and whatever fails, a core is a prefix of
  what was on standard input.
* `coredump_complete`: and a handler whose calls come to all they should leaves all of its files,
  or there were as many slots as there may be.
-/

namespace Monolinux

/-! ## What is written -/

/-- `open("/dev/kmsg", ...)`, and the reads up to one that returns nothing, which may have failed. -/
inductive KmsgOpen
  | failed (error : List UInt8)
  | opened (message : List UInt8) (reads : List KmsgRead) (failure : Option (List UInt8))

/-- What a handler reads: standard input and the files of `/proc` in pieces, as `read()` and `fread()` return them. -/
structure Crash where
  input : Block UInt8
  kmsg : KmsgOpen
  proc : List UInt8 → Option (Block UInt8)

def writeCore (input : Block UInt8) : List (Block UInt8) := [input]

/-- What each record is printed as. -/
def printedMessages : List UInt8 → List KmsgRead → Option (List (List UInt8))
  | _, [] => some []
  | message, r :: reads => do
    let (message, line) ← mlPrintKernelMessage r.textPos (placeRead message r.bytes)
    let lines ← printedMessages message reads
    some (line :: lines)

/-- `write_log()`; no result if a record makes it read behind its buffer. -/
def writeLogFile : KmsgOpen → Option (List (Block UInt8))
  | .failed error => some [[bytesOf "*** Failed to open /dev/kmsg with error '" ++ error ++ bytesOf "'. ***\n"]]
  | .opened message reads failure => do
    let lines ← printedMessages message reads
    some ((lines ++ (failure.map fun error =>
      bytesOf "*** Failed to read message with error " ++ error ++ bytesOf ". ***\n").toList).map fun line => [line])

/-- A file that cannot be opened is left out. -/
def mlPrintFile (file : Option (Block UInt8)) : List (Block UInt8) := file.toList

def writeInfoFile (proc : List UInt8 → Option (Block UInt8)) (path : List UInt8) : List (Block UInt8) :=
  [path ++ bytesOf ":\n\n"] :: mlPrintFile (proc path) ++ [[bytesOf "\n"]]

def infoPaths : List (List UInt8) :=
  [bytesOf "/proc/version", bytesOf "/proc/cmdline", bytesOf "/proc/uptime", bytesOf "/proc/loadavg",
   bytesOf "/proc/meminfo", bytesOf "/proc/interrupts", bytesOf "/proc/diskstats", bytesOf "/proc/partitions",
   bytesOf "/proc/mounts", bytesOf "/proc/cpuinfo", bytesOf "/proc/modules", bytesOf "/proc/ioports",
   bytesOf "/proc/iomem", bytesOf "/proc/stat", bytesOf "/proc/net/route", bytesOf "/proc/net/tcp",
   bytesOf "/proc/net/udp", bytesOf "/proc/net/netstat", bytesOf "/proc/net/sockstat", bytesOf "/proc/net/protocols"]

def writeInfo (proc : List UInt8 → Option (Block UInt8)) : List (Block UInt8) := infoPaths.flatMap (writeInfoFile proc)

/-- A crash with the log of the handler, which stays inside its buffer. -/
structure LoggedCrash extends Crash where
  log : List (Block UInt8)
  log_eq : writeLogFile kmsg = some log

/-- `write_core()`, `write_log()` and `write_info()`. -/
def LoggedCrash.files (c : LoggedCrash) : List (List UInt8 × List (Block UInt8)) :=
  [(bytesOf "core", writeCore c.input), (bytesOf "log.txt", c.log), (bytesOf "info.txt", writeInfo c.proc)]

/-! ## The handlers -/

/-- The files of a slot. -/
abbrev SlotFiles := List UInt8 → Option (List UInt8)

/-- Where a handler is. -/
inductive CoredumpPc
  | start
  /-- in `find_slot()`, about to call `lstat()` for the slot -/
  | finding (slot : ℕ)
  /-- about to call `mkdir()` -/
  | making (slot : ℕ)
  /-- about to call `chdir()` -/
  | entering (slot : ℕ)
  | writing (slot : ℕ) (w : Writer (List UInt8) UInt8)
  | exited (slot : Option ℕ)
  deriving DecidableEq

/-- The directories of the slots by their names. -/
abbrev SlotDirs := List UInt8 → Option SlotFiles

/-- The next call of a handler and what it comes to. -/
def mlFinalizeCoredump (c : LoggedCrash) (maximum : ℤ) (dirs : SlotDirs) (pc : CoredumpPc) (o : CallOutcome) :
    SlotDirs × CoredumpPc :=
  match pc with
  | .start => (dirs, if o = .full then .finding 0 else .exited none)
  | .finding slot =>
    if slot < maximum then
      (dirs, if o = .full ∧ (dirs (decimal slot)).isSome then .finding (slot + 1) else .making slot)
    else (dirs, .exited none)
  | .making slot =>
    (if o = .full ∧ dirs (decimal slot) = none then Function.update dirs (decimal slot) (some fun _ => none) else dirs,
      .entering slot)
  | .entering slot =>
    (dirs, if o = .full ∧ (dirs (decimal slot)).isSome then .writing slot ⟨none, c.files⟩ else .exited none)
  | .writing slot w =>
    if w.Finished then (dirs, .exited (some slot))
    else
      let (w, files) := w.step ((dirs (decimal slot)).getD fun _ => none) o
      (Function.update dirs (decimal slot) (some files), .writing slot w)
  | .exited slot => (dirs, .exited slot)

structure Coredumps (ι : Type*) where
  dirs : SlotDirs
  pc : ι → CoredumpPc

variable {ι : Type*} [DecidableEq ι]

/-- A step is a call of a handler. -/
def coredumps (crash : ι → LoggedCrash) (maximum : ℤ) (dirs : SlotDirs) : System (Coredumps ι) (ι × CallOutcome) where
  start := ⟨dirs, fun _ => .start⟩
  enabled s l := ∀ slot, s.pc l.1 ≠ .exited slot
  next s l :=
    let (dirs, pc) := mlFinalizeCoredump (crash l.1) maximum s.dirs (s.pc l.1) l.2
    ⟨dirs, Function.update s.pc l.1 pc⟩

/-- A handler has found a slot and has not entered it. -/
def CoredumpPc.Claiming : CoredumpPc → Prop
  | .making _ | .entering _ => True
  | _ => False

omit [DecidableEq ι] in
/-- `lstat()` does not fail for a slot that is there. -/
def CoredumpPc.Sees (dirs : SlotDirs) (pc : CoredumpPc) (o : CallOutcome) : Prop :=
  ∀ slot, pc = .finding slot → (dirs (decimal slot)).isSome → o = .full

/-- A handler only looks for a slot while no other one has found one that it has not entered, and sees the slots that are
there. -/
structure Undisturbed (s : Coredumps ι) (l : ι × CallOutcome) : Prop where
  alone : ∀ slot, s.pc l.1 = .finding slot → ∀ i, ¬(s.pc i).Claiming
  sees : (s.pc l.1).Sees s.dirs l.2

/-- The slot of a handler. -/
def CoredumpPc.slot? : CoredumpPc → Option ℕ
  | .making slot | .entering slot | .writing slot _ => some slot
  | .exited slot => slot
  | _ => none

/-! ## The log -/

theorem flatten_printedMessages (message : List UInt8) (reads : List KmsgRead) :
    (printedMessages message reads).map List.flatten = printMessages placeRead message reads := by
  induction reads generalizing message with
  | nil => rfl
  | cons r reads ih =>
    unfold printedMessages printMessages
    cases hprint : mlPrintKernelMessage r.textPos (placeRead message r.bytes) with
    | none => rfl
    | some result =>
      simp only [Option.bind_eq_bind, Option.bind_some, ← ih]
      cases printedMessages result.1 reads <;> rfl

/-- The file holds what `write_log()` writes. -/
theorem textOf_writeLogFile (message : List UInt8) (reads : List KmsgRead) (failure : Option (List UInt8)) :
    (writeLogFile (.opened message reads failure)).map Writer.textOf = writeLog message reads failure := by
  unfold writeLogFile writeLog
  dsimp only
  rw [← flatten_printedMessages]
  cases printedMessages message reads with
  | none => rfl
  | some lines =>
    simp only [Option.bind_eq_bind, Option.bind_some, Option.map_some, Writer.textOf_singles, List.flatten_append]
    cases failure <;> simp

/-! ## The names of the slots -/

theorem decimal_injective {n n' : ℕ} (h : decimal n = decimal n') : n = n' := by
  let t : Terminal := ⟨0, fun _ => 0, 0⟩
  have hread : Terminal.feed (t, .control none) (decimal n) = Terminal.feed (t, .control none) (decimal n') := by rw [h]
  rw [Terminal.feed_decimal, Terminal.feed_decimal] at hread
  simpa using hread

/-- A slot is an `int`: its name fits in `slot_dir`. -/
theorem slot_dir_fits {slot : ℕ} (h : slot ≤ 2147483647) : (decimal slot).length < 32 := by
  have hlength : (Nat.toDigits 10 slot).length ≤ 10 := (Nat.length_toDigits_le_iff (by decide) (by decide)).mpr (by omega)
  show ((Nat.toDigits 10 slot).map _).length < 32
  rw [List.length_map]
  omega

/-! ## What a call changes -/

section
variable {c : LoggedCrash} {maximum : ℤ} {dirs : SlotDirs} {pc : CoredumpPc} {o : CallOutcome}

/-- Only the handler's own slot. -/
theorem finalize_frame {name : List UInt8} (h : ∀ slot, pc.slot? = some slot → name ≠ decimal slot) :
    (mlFinalizeCoredump c maximum dirs pc o).1 name = dirs name := by
  cases pc with
  | start | entering | exited => rfl
  | finding slot =>
    unfold mlFinalizeCoredump
    dsimp only
    split <;> rfl
  | making slot =>
    unfold mlFinalizeCoredump
    dsimp only
    split
    · exact Function.update_of_ne (h slot rfl) ..
    · rfl
  | writing slot w =>
    unfold mlFinalizeCoredump
    dsimp only
    split
    · rfl
    · exact Function.update_of_ne (h slot rfl) ..

/-- No slot is removed. -/
theorem finalize_isSome {name : List UInt8} (h : (dirs name).isSome) :
    ((mlFinalizeCoredump c maximum dirs pc o).1 name).isSome := by
  by_cases hname : ∀ slot, pc.slot? = some slot → name ≠ decimal slot
  · rwa [finalize_frame hname]
  push Not at hname
  obtain ⟨slot, hslot, rfl⟩ := hname
  cases pc with
  | start | finding => cases hslot
  | entering | exited => exact h
  | making slot' =>
    unfold mlFinalizeCoredump
    dsimp only
    split
    · next hnone =>
      obtain rfl := Option.some_inj.mp hslot
      rw [hnone.2] at h
      cases h
    · exact h
  | writing slot' w =>
    obtain rfl := Option.some_inj.mp hslot
    unfold mlFinalizeCoredump
    dsimp only
    split
    · exact h
    · dsimp only
      rw [Function.update_self]
      rfl

/-- What is taken for a free slot is one. -/
theorem CoredumpPc.Sees.eq_none {slot : ℕ} (h : (CoredumpPc.finding slot).Sees dirs o)
    (hfound : ¬(o = .full ∧ (dirs (decimal slot)).isSome)) : dirs (decimal slot) = none := by
  by_contra hne
  have hsome : (dirs (decimal slot)).isSome := Option.isSome_iff_ne_none.mpr hne
  exact hfound ⟨h slot rfl hsome, hsome⟩

/-- **Where a handler's slot comes from**: it had it, or it has just found that there is none of that number. -/
theorem finalize_slot {slot : ℕ} (hsees : pc.Sees dirs o)
    (h : (mlFinalizeCoredump c maximum dirs pc o).2.slot? = some slot) :
    pc.slot? = some slot ∨ pc = .finding slot ∧ slot < maximum ∧ dirs (decimal slot) = none := by
  cases pc with
  | start =>
    unfold mlFinalizeCoredump at h
    dsimp only at h
    split at h <;> cases h
  | finding slot' =>
    right
    unfold mlFinalizeCoredump at h
    dsimp only at h
    split at h
    · next hmaximum =>
      dsimp only at h
      split at h
      · cases h
      · next hnone =>
        obtain rfl := Option.some_inj.mp h
        exact ⟨rfl, hmaximum, hsees.eq_none hnone⟩
    · cases h
  | making slot' => exact .inl h
  | entering slot' =>
    left
    unfold mlFinalizeCoredump at h
    dsimp only at h
    split at h
    · exact h
    · cases h
  | writing slot' w =>
    left
    unfold mlFinalizeCoredump at h
    dsimp only at h
    split at h <;> exact h
  | exited => exact .inl h

/-- It claims a slot since it has found one. -/
theorem finalize_claiming (h : (mlFinalizeCoredump c maximum dirs pc o).2.Claiming) :
    pc.Claiming ∨ ∃ slot, pc = .finding slot := by
  cases pc with
  | start =>
    unfold mlFinalizeCoredump at h
    dsimp only at h
    split at h <;> exact h.elim
  | finding slot => exact .inr ⟨slot, rfl⟩
  | making slot => exact .inl trivial
  | entering slot => exact .inl trivial
  | writing slot w =>
    unfold mlFinalizeCoredump at h
    dsimp only at h
    split at h <;> exact h.elim
  | exited => exact h.elim

/-- A handler that is in its slot, or has left it. -/
def CoredumpPc.Entered (pc : CoredumpPc) : Prop := ¬pc.Claiming ∧ ∃ slot, pc.slot? = some slot

/-- It enters a slot that there is. -/
theorem finalize_entered {slot : ℕ} (h : (mlFinalizeCoredump c maximum dirs pc o).2.Entered)
    (hslot : (mlFinalizeCoredump c maximum dirs pc o).2.slot? = some slot)
    (hentered : pc.Entered → (dirs (decimal slot)).isSome) : (dirs (decimal slot)).isSome := by
  cases pc with
  | start =>
    unfold mlFinalizeCoredump at hslot
    dsimp only at hslot
    split at hslot <;> cases hslot
  | finding slot' =>
    unfold mlFinalizeCoredump at h hslot
    dsimp only at h hslot
    split at hslot
    · next hmaximum =>
      rw [if_pos hmaximum] at h
      dsimp only at h hslot
      split at hslot
      · cases hslot
      · next hnone =>
        rw [if_neg hnone] at h
        exact absurd trivial h.1
    · cases hslot
  | making slot' => exact absurd trivial h.1
  | entering slot' =>
    unfold mlFinalizeCoredump at hslot
    dsimp only at hslot
    split at hslot
    · next hsome =>
      obtain rfl := Option.some_inj.mp hslot
      exact hsome.2
    · cases hslot
  | writing slot' w => exact hentered ⟨id, slot', rfl⟩
  | exited slot' => exact hentered ⟨id, slot, hslot⟩

/-- It looks for the next slot since there is one of each number before. -/
theorem finalize_finding {slot : ℕ} (h : (mlFinalizeCoredump c maximum dirs pc o).2 = .finding slot) :
    slot = 0 ∨ ∃ n, slot = n + 1 ∧ pc = .finding n ∧ (dirs (decimal n)).isSome := by
  cases pc with
  | start =>
    unfold mlFinalizeCoredump at h
    dsimp only at h
    split at h
    · left
      injection h with h
      exact h.symm
    · cases h
  | finding n =>
    unfold mlFinalizeCoredump at h
    dsimp only at h
    split at h
    · dsimp only at h
      split at h
      · next hsome =>
        right
        injection h with h
        exact ⟨n, h.symm, rfl, hsome.2⟩
      · cases h
    · cases h
  | making slot' => cases h
  | entering slot' =>
    unfold mlFinalizeCoredump at h
    dsimp only at h
    split at h <;> cases h
  | writing slot' w =>
    unfold mlFinalizeCoredump at h
    dsimp only at h
    split at h <;> cases h
  | exited slot' => cases h

end

/-! ## The slots are apart -/

/-- **What holds of the handlers** when none is disturbed. -/
structure Coredumps.Apart (maximum : ℤ) (dirs : SlotDirs) (s : Coredumps ι) : Prop where
  kept : ∀ name files, dirs name = some files → s.dirs name = some files
  bounded : ∀ i slot, (s.pc i).slot? = some slot → slot < maximum ∧ dirs (decimal slot) = none
  lower : ∀ i slot, (s.pc i).slot? = some slot ∨ s.pc i = .finding slot → ∀ n < slot, (s.dirs (decimal n)).isSome
  entered : ∀ i slot, (s.pc i).Entered → (s.pc i).slot? = some slot → (s.dirs (decimal slot)).isSome
  claiming : ∀ i j, (s.pc i).Claiming → (s.pc j).Claiming → i = j
  apart : ∀ i j slot, (s.pc i).slot? = some slot → (s.pc j).slot? = some slot → i = j

section
variable {crash : ι → LoggedCrash} {maximum : ℤ} {dirs : SlotDirs} {s : Coredumps ι}

omit [DecidableEq ι] in
theorem apart_start : (⟨dirs, fun _ => .start⟩ : Coredumps ι).Apart maximum dirs where
  kept _ _ h := h
  bounded _ _ h := by cases h
  lower _ _ h := by rcases h with h | h <;> cases h
  entered _ _ _ h := by cases h
  claiming _ _ h := h.elim
  apart _ _ _ h := by cases h

/-- **A step keeps the slots apart.** -/
theorem Coredumps.Apart.step (h : s.Apart maximum dirs) (l : ι × CallOutcome) (hl : Undisturbed s l) :
    ((coredumps crash maximum dirs).next s l).Apart maximum dirs := by
  obtain ⟨i, o⟩ := l
  have hself : ((coredumps crash maximum dirs).next s (i, o)).pc i = (mlFinalizeCoredump (crash i) maximum s.dirs (s.pc i) o).2 :=
    Function.update_self ..
  have hother {j : ι} (hj : j ≠ i) : ((coredumps crash maximum dirs).next s (i, o)).pc j = s.pc j :=
    Function.update_of_ne hj ..
  have hdirs : ((coredumps crash maximum dirs).next s (i, o)).dirs = (mlFinalizeCoredump (crash i) maximum s.dirs (s.pc i) o).1 :=
    rfl
  generalize (coredumps crash maximum dirs).next s (i, o) = s' at hself hother hdirs
  have hgrow {name : List UInt8} (hname : (s.dirs name).isSome) : (s'.dirs name).isSome := by
    rw [hdirs]
    exact finalize_isSome hname
  -- a slot that is found is in nobody's hands
  have hfree {j : ι} {slot : ℕ} (hfinding : s.pc i = .finding slot) (hnone : s.dirs (decimal slot) = none)
      (hj : (s.pc j).slot? = some slot) : False := by
    have hsome := h.entered j slot ⟨hl.alone slot hfinding j, slot, hj⟩ hj
    rw [hnone] at hsome
    cases hsome
  have hslot {slot : ℕ} (hi : (s'.pc i).slot? = some slot) :
      (s.pc i).slot? = some slot ∨ s.pc i = .finding slot ∧ slot < maximum ∧ s.dirs (decimal slot) = none := by
    rw [hself] at hi
    exact finalize_slot hl.sees hi
  have hapart {j : ι} {slot : ℕ} (hj : j ≠ i) (hi : (s'.pc i).slot? = some slot) : (s'.pc j).slot? ≠ some slot := by
    intro hj'
    rw [hother hj] at hj'
    rcases hslot hi with hi | ⟨hfinding, -, hnone⟩
    · exact hj (h.apart j i slot hj' hi)
    · exact hfree hfinding hnone hj'
  have hclaiming {j : ι} (hj : j ≠ i) (hi : (s'.pc i).Claiming) : ¬(s'.pc j).Claiming := by
    intro hj'
    rw [hother hj] at hj'
    rw [hself] at hi
    rcases finalize_claiming hi with hi | ⟨slot, hfinding⟩
    · exact hj (h.claiming j i hj' hi)
    · exact hl.alone slot hfinding j hj'
  constructor
  case kept =>
    intro name files hname
    rw [hdirs, finalize_frame, h.kept name files hname]
    rintro slot hi rfl
    rw [(h.bounded i slot hi).2] at hname
    cases hname
  case bounded =>
    intro j slot hj
    rcases eq_or_ne j i with rfl | hne
    · rcases hslot hj with hj | ⟨-, hmaximum, hnone⟩
      · exact h.bounded j slot hj
      · refine ⟨hmaximum, ?_⟩
        cases hstart : dirs (decimal slot) with
        | none => rfl
        | some files => cases (h.kept _ files hstart).symm.trans hnone
    · rw [hother hne] at hj
      exact h.bounded j slot hj
  case lower =>
    intro j slot hj n hn
    apply hgrow
    rcases eq_or_ne j i with rfl | hne
    · rcases hj with hj | hj
      · rcases hslot hj with hj | ⟨hfinding, -⟩
        · exact h.lower j slot (.inl hj) n hn
        · exact h.lower j slot (.inr hfinding) n hn
      · rw [hself] at hj
        rcases finalize_finding hj with rfl | ⟨k, rfl, hfinding, hsome⟩
        · exact absurd hn (Nat.not_lt_zero n)
        · rcases Nat.lt_succ_iff_lt_or_eq.mp hn with hn | rfl
          · exact h.lower j k (.inr hfinding) n hn
          · exact hsome
    · rw [hother hne] at hj
      exact h.lower j slot hj n hn
  case entered =>
    intro j slot hentered hj
    apply hgrow
    rcases eq_or_ne j i with rfl | hne
    · rw [hself] at hentered hj
      refine finalize_entered hentered hj fun hentered' => ?_
      rcases finalize_slot hl.sees hj with hj | ⟨hfinding, -⟩
      · exact h.entered j slot hentered' hj
      · rw [hfinding] at hentered'
        obtain ⟨_, _, hnone⟩ := hentered'
        cases hnone
    · rw [hother hne] at hentered hj
      exact h.entered j slot hentered hj
  case claiming =>
    intro j k hj hk
    rcases eq_or_ne j i with rfl | hne
    · by_contra hne
      exact hclaiming (Ne.symm hne) hj hk
    · rcases eq_or_ne k i with rfl | hne'
      · exact absurd hj (hclaiming hne hk)
      · rw [hother hne] at hj
        rw [hother hne'] at hk
        exact h.claiming j k hj hk
  case apart =>
    intro j k slot hj hk
    rcases eq_or_ne j i with rfl | hne
    · by_contra hne
      exact hapart (Ne.symm hne) hj hk
    · rcases eq_or_ne k i with rfl | hne'
      · exact absurd hj (hapart hne hk)
      · rw [hother hne] at hj
        rw [hother hne'] at hk
        exact h.apart j k slot hj hk

/-- The files in the slot of a handler. -/
def CoredumpPc.ownFiles (dirs : SlotDirs) (pc : CoredumpPc) : Option SlotFiles := pc.slot?.bind fun slot => dirs (decimal slot)

theorem run_apart {tr : List (ι × CallOutcome)} (hr : ((coredumps crash maximum dirs).restrict Undisturbed).Run tr s) :
    s.Apart maximum dirs :=
  hr.invariant _ apart_start fun _ l h hl => h.step l hl.2

/-- **What a handler keeps true of its slot** stays true, whatever the others do. -/
theorem run_own {i : ι} (P : CoredumpPc → Option SlotFiles → Prop) (C : CallOutcome → Prop) (hstart : P .start none)
    (hstep : ∀ dirs pc o, C o → pc.Sees dirs o → P pc (pc.ownFiles dirs) →
      P (mlFinalizeCoredump (crash i) maximum dirs pc o).2
        ((mlFinalizeCoredump (crash i) maximum dirs pc o).2.ownFiles (mlFinalizeCoredump (crash i) maximum dirs pc o).1))
    {tr : List (ι × CallOutcome)} (hr : ((coredumps crash maximum dirs).restrict Undisturbed).Run tr s)
    (hC : ∀ l ∈ tr, l.1 = i → C l.2) : P (s.pc i) ((s.pc i).ownFiles s.dirs) := by
  induction hr with
  | nil => exact hstart
  | @snoc tr s l hr hl ih =>
    obtain ⟨hC, hCl⟩ := List.forall_mem_append.mp hC
    specialize ih hC
    obtain ⟨j, o⟩ := l
    by_cases hj : i = j
    · subst hj
      have hself : (((coredumps crash maximum dirs).restrict Undisturbed).next s (i, o)).pc i =
          (mlFinalizeCoredump (crash i) maximum s.dirs (s.pc i) o).2 := Function.update_self ..
      rw [hself]
      exact hstep s.dirs (s.pc i) o (hCl _ (List.mem_singleton_self _) rfl) hl.2.sees ih
    · have hother : (((coredumps crash maximum dirs).restrict Undisturbed).next s (j, o)).pc i = s.pc i :=
        Function.update_of_ne hj ..
      have hsame : (s.pc i).ownFiles (((coredumps crash maximum dirs).restrict Undisturbed).next s (j, o)).dirs =
          (s.pc i).ownFiles s.dirs := by
        unfold CoredumpPc.ownFiles
        cases hslot : (s.pc i).slot? with
        | none => rfl
        | some slot =>
          refine finalize_frame fun slot' hslot' heq => hj ?_
          obtain rfl := decimal_injective heq
          exact (run_apart hr).apart i j slot hslot hslot'
      rw [hother, hsame]
      exact ih

/-! ## A core is never more than what was on standard input -/

/-- The core in its slot, whatever fails. -/
def CoredumpPc.CoreCut (input : List UInt8) : CoredumpPc → Option SlotFiles → Prop
  | .making _, own => own = none
  | .entering _, own => ∀ files ∈ own, files = fun _ => none
  | .writing _ w, own => ∃ files, own = some files ∧ Writer.Cut (bytesOf "core") input w files
  | .exited (some _), own => ∃ files, own = some files ∧ ∀ core ∈ files (bytesOf "core"), core <+: input
  | _, _ => True

theorem LoggedCrash.core_first (c : LoggedCrash) :
    ∀ output ∈ [(bytesOf "log.txt", c.log), (bytesOf "info.txt", writeInfo c.proc)], output.1 ≠ bytesOf "core" := by
  have hlog : bytesOf "log.txt" ≠ bytesOf "core" := by decide
  have hinfo : bytesOf "info.txt" ≠ bytesOf "core" := by decide
  exact List.forall_mem_cons.mpr ⟨hlog, List.forall_mem_singleton.mpr hinfo⟩

theorem coreCut_step (c : LoggedCrash) (dirs : SlotDirs) (pc : CoredumpPc) (o : CallOutcome) (hsees : pc.Sees dirs o)
    (h : pc.CoreCut c.input.flatten (pc.ownFiles dirs)) :
    (mlFinalizeCoredump c maximum dirs pc o).2.CoreCut c.input.flatten
      ((mlFinalizeCoredump c maximum dirs pc o).2.ownFiles (mlFinalizeCoredump c maximum dirs pc o).1) := by
  cases pc with
  | start =>
    unfold mlFinalizeCoredump
    dsimp only
    split <;> trivial
  | finding slot =>
    unfold mlFinalizeCoredump
    dsimp only
    split
    · dsimp only
      split
      · trivial
      · next hnone => exact hsees.eq_none hnone
    · trivial
  | making slot =>
    intro files hfiles
    unfold mlFinalizeCoredump at hfiles
    dsimp only at hfiles
    split at hfiles
    · have hmade : Function.update dirs (decimal slot) (some fun _ => none) (decimal slot) = some files := hfiles
      rw [Function.update_self] at hmade
      exact (Option.some_inj.mp hmade).symm
    · cases (show dirs (decimal slot) = none from h).symm.trans hfiles
  | entering slot =>
    unfold mlFinalizeCoredump
    dsimp only
    split
    · next hsome =>
      obtain ⟨files, hfiles⟩ := Option.isSome_iff_exists.mp hsome.2
      obtain rfl := h files hfiles
      exact ⟨_, hfiles, .next rfl rfl c.core_first⟩
    · trivial
  | writing slot w =>
    obtain ⟨files, hfiles, hcut⟩ := h
    have hown : dirs (decimal slot) = some files := hfiles
    unfold mlFinalizeCoredump
    dsimp only
    split
    · exact ⟨files, hfiles, hcut.isPrefix⟩
    · rw [hown]
      exact ⟨_, Function.update_self .., Writer.cut_step hcut o⟩
  | exited slot => exact h

/-! ## A complete dump -/

/-- The paths, and behind each of them what is in the file. -/
def infoText (proc : List UInt8 → Option (Block UInt8)) : List UInt8 :=
  infoPaths.flatMap fun path => path ++ [0x3a, 0x0a, 0x0a] ++ ((proc path).getD []).flatten ++ [0x0a]

theorem textOf_writeInfo (proc : List UInt8 → Option (Block UInt8)) : Writer.textOf (writeInfo proc) = infoText proc := by
  have hcolon : bytesOf ":\n\n" = [0x3a, 0x0a, 0x0a] := by decide
  have hnewline : bytesOf "\n" = [0x0a] := by decide
  unfold writeInfo infoText
  induction infoPaths with
  | nil => rfl
  | cons path paths ih =>
    rw [List.flatMap_cons, List.flatMap_cons, Writer.textOf_append, ih]
    refine congrArg (· ++ _) ?_
    unfold writeInfoFile mlPrintFile Writer.textOf
    rw [hcolon, hnewline]
    cases proc path <;> simp

/-- What should be in a slot. -/
def LoggedCrash.dump (c : LoggedCrash) : SlotFiles := fun name =>
  if name = bytesOf "info.txt" then some (infoText c.proc)
  else if name = bytesOf "log.txt" then some (Writer.textOf c.log)
  else if name = bytesOf "core" then some c.input.flatten
  else none

theorem remaining_files (c : LoggedCrash) : (⟨none, c.files⟩ : Writer _ _).remaining (fun _ => none) = c.dump := by
  funext name
  unfold Writer.remaining LoggedCrash.files LoggedCrash.dump
  have hcore : Writer.textOf (writeCore c.input) = c.input.flatten := by
    unfold Writer.textOf writeCore
    rw [List.flatten_singleton]
  simp only [List.foldl_cons, List.foldl_nil, Function.update_apply, hcore, textOf_writeInfo]

/-- A handler on its way to a complete dump. -/
def CoredumpPc.Dumps (c : LoggedCrash) : CoredumpPc → Option SlotFiles → Prop
  | .making _, own => own = none
  | .entering _, own => own = some fun _ => none
  | .writing _ w, own => ∃ files, own = some files ∧ w.remaining files = c.dump
  | .exited (some _), own => own = some c.dump
  | _, _ => True

theorem dumps_step (c : LoggedCrash) (dirs : SlotDirs) (pc : CoredumpPc) (o : CallOutcome) (ho : o = .full)
    (hsees : pc.Sees dirs o) (h : pc.Dumps c (pc.ownFiles dirs)) :
    (mlFinalizeCoredump c maximum dirs pc o).2.Dumps c
      ((mlFinalizeCoredump c maximum dirs pc o).2.ownFiles (mlFinalizeCoredump c maximum dirs pc o).1) := by
  subst ho
  cases pc with
  | start => trivial
  | finding slot =>
    unfold mlFinalizeCoredump
    dsimp only
    split
    · dsimp only
      split
      · trivial
      · next hnone => exact hsees.eq_none hnone
    · trivial
  | making slot =>
    have hnone : dirs (decimal slot) = none := h
    unfold mlFinalizeCoredump
    dsimp only
    rw [if_pos ⟨rfl, hnone⟩]
    exact Function.update_self ..
  | entering slot =>
    have hfiles : dirs (decimal slot) = some fun _ => none := h
    unfold mlFinalizeCoredump
    dsimp only
    rw [if_pos ⟨rfl, by rw [hfiles]; rfl⟩]
    exact ⟨_, hfiles, remaining_files c⟩
  | writing slot w =>
    obtain ⟨files, hfiles, hremaining⟩ := h
    have hown : dirs (decimal slot) = some files := hfiles
    unfold mlFinalizeCoredump
    dsimp only
    split
    · next hfinished =>
      rw [Writer.finished_remaining w files hfinished] at hremaining
      exact hfiles.trans (congrArg some hremaining)
    · rw [hown]
      exact ⟨_, Function.update_self .., (Writer.remaining_step w files).trans hremaining⟩
  | exited slot => exact h

/-- It only gives up if there are as many slots as there may be. -/
theorem run_full {i : ι} {tr : List (ι × CallOutcome)} (hr : ((coredumps crash maximum dirs).restrict Undisturbed).Run tr s)
    (hfull : ∀ l ∈ tr, l.1 = i → l.2 = .full) (hexited : s.pc i = .exited none) :
    ∀ n : ℕ, n < maximum → (s.dirs (decimal n)).isSome := by
  induction hr with
  | nil => cases hexited
  | @snoc tr s l hr hl ih =>
    obtain ⟨hfullFirst, hfullLast⟩ := List.forall_mem_append.mp hfull
    obtain ⟨j, o⟩ := l
    intro n hn
    apply finalize_isSome
    by_cases hj : i = j
    · subst hj
      obtain rfl : o = .full := hfullLast _ (List.mem_singleton_self _) rfl
      have hdumps := run_own (CoredumpPc.Dumps (crash i)) (· = .full) trivial (dumps_step (crash i)) hr hfullFirst
      have hlower := (run_apart hr).lower i
      have hexited : (mlFinalizeCoredump (crash i) maximum s.dirs (s.pc i) .full).2 = .exited none :=
        (Function.update_self ..).symm.trans hexited
      cases hpc : s.pc i with
      | start =>
        rw [hpc] at hexited
        cases hexited
      | finding slot =>
        rw [hpc] at hexited hlower
        unfold mlFinalizeCoredump at hexited
        dsimp only at hexited
        split at hexited
        · dsimp only at hexited
          split at hexited <;> cases hexited
        · next hmaximum => exact hlower slot (.inr rfl) n (by omega)
      | making slot =>
        rw [hpc] at hexited
        cases hexited
      | entering slot =>
        rw [hpc] at hexited hdumps
        have hfiles : s.dirs (decimal slot) = some fun _ => none := hdumps
        unfold mlFinalizeCoredump at hexited
        dsimp only at hexited
        rw [if_pos ⟨rfl, by rw [hfiles]; rfl⟩] at hexited
        cases hexited
      | writing slot w =>
        rw [hpc] at hexited
        unfold mlFinalizeCoredump at hexited
        dsimp only at hexited
        split at hexited <;> cases hexited
      | exited slot => exact absurd hpc (hl.1 slot)
    · have hother : (((coredumps crash maximum dirs).restrict Undisturbed).next s (j, o)).pc i = s.pc i :=
        Function.update_of_ne hj ..
      exact ih hfullFirst (hother.symm.trans hexited) n hn

end

/-! ## The dumps -/

section
variable {crash : ι → LoggedCrash} {maximum : ℤ} {dirs : SlotDirs} {s : Coredumps ι} {tr : List (ι × CallOutcome)}

/-- **Crash handlers that run at the same time** have a slot each, which was free and the first one of its kind, and
leave what was dumped before. -/
theorem coredumps_kept (hr : ((coredumps crash maximum dirs).restrict Undisturbed).Run tr s) :
    (∀ name files, dirs name = some files → s.dirs name = some files) ∧
    (∀ i slot, (s.pc i).slot? = some slot → slot < maximum ∧ dirs (decimal slot) = none ∧
      (∀ n < slot, (s.dirs (decimal n)).isSome) ∧ ∀ j, (s.pc j).slot? = some slot → j = i) ∧
    ∀ i slot, (s.pc i).Entered → (s.pc i).slot? = some slot → ∃ files, s.dirs (decimal slot) = some files ∧
      ∀ core, files (bytesOf "core") = some core → core <+: (crash i).input.flatten := by
  have hapart := run_apart hr
  refine ⟨hapart.kept, fun i slot hslot => ?_, fun i slot hentered hslot => ?_⟩
  · obtain ⟨hmaximum, hfree⟩ := hapart.bounded i slot hslot
    exact ⟨hmaximum, hfree, hapart.lower i slot (.inl hslot), fun j hj => hapart.apart j i slot hj hslot⟩
  · have hcut := run_own (CoredumpPc.CoreCut (crash i).input.flatten) (fun _ => True) trivial
      (fun dirs pc o _ => coreCut_step (crash i) dirs pc o) hr (fun _ _ _ => trivial)
    unfold CoredumpPc.ownFiles at hcut
    rw [hslot, Option.bind_some] at hcut
    generalize s.pc i = pc at hentered hslot hcut
    cases pc with
    | start | finding => cases hslot
    | making | entering => exact absurd trivial hentered.1
    | writing slot' w =>
      obtain ⟨files, hfiles, hcore⟩ := hcut
      exact ⟨files, hfiles, hcore.isPrefix⟩
    | exited slot' =>
      obtain rfl : slot' = some slot := hslot
      exact hcut

/-- A crash while there is neither a log nor `/proc`. -/
def earlyCrash : LoggedCrash where
  input := [[0x7f, 0x45], [0x4c, 0x46]]
  kmsg := .failed (bytesOf "No such file or directory")
  proc _ := none
  log := [[bytesOf "*** Failed to open /dev/kmsg with error 'No such file or directory'. ***\n"]]
  log_eq := by decide

/-- There is a first slot. -/
def oneSlot : SlotDirs := fun name => if name = decimal 0 then some fun _ => none else none

/-- Handlers of two crashes, for three slots. -/
def twoCrashes : System (Coredumps Bool) (Bool × CallOutcome) := coredumps (fun _ => earlyCrash) 3 oneSlot

instance (s : Coredumps Bool) (l : Bool × CallOutcome) : Decidable (twoCrashes.enabled s l) :=
  match h : s.pc l.1 with
  | .exited slot => isFalse fun hl => hl slot h
  | .start | .finding _ | .making _ | .entering _ | .writing _ _ => isTrue fun _ hexited => by cases h.symm.trans hexited

instance (pc : CoredumpPc) : Decidable pc.Claiming := by
  cases pc <;> unfold CoredumpPc.Claiming <;> infer_instance

instance (s : Coredumps Bool) (l : Bool × CallOutcome) : Decidable (Undisturbed s l) :=
  match h : s.pc l.1 with
  | .finding slot =>
    decidable_of_iff ((∀ i, ¬(s.pc i).Claiming) ∧ ((s.dirs (decimal slot)).isSome → l.2 = .full))
      ⟨fun hfree => ⟨fun _ _ => hfree.1, fun _ hslot => by
          obtain rfl := CoredumpPc.finding.inj (h.symm.trans hslot)
          exact hfree.2⟩,
        fun hl => ⟨hl.alone slot h, hl.sees slot h⟩⟩
  | .start | .making _ | .entering _ | .writing _ _ | .exited _ =>
    isTrue ⟨fun _ hfinding => (by cases h.symm.trans hfinding), fun _ hfinding => (by cases h.symm.trans hfinding)⟩

/-- One handler finds a slot and enters it, then the other one does; the second write of a core comes up short. -/
def turns : List (Bool × CallOutcome) :=
  List.replicate 5 (true, .full) ++ List.replicate 6 (false, .full) ++ List.replicate 2 (true, .full) ++ [(true, .short 1)]

theorem coredumps_kept_turns : ∃ s : Coredumps Bool, (s.pc true).slot? = some 1 ∧ (s.pc false).slot? = some 2 ∧
    ∃ files, s.dirs (decimal 1) = some files ∧ ∀ core, files (bytesOf "core") = some core → core <+: [0x7f, 0x45, 0x4c, 0x46] := by
  have hrun : (twoCrashes.restrict Undisturbed).Run turns (turns.foldl twoCrashes.next twoCrashes.start) :=
    (System.path_of_runs (by decide +kernel)).run
  have hslot : ((turns.foldl twoCrashes.next twoCrashes.start).pc true).slot? = some 1 := by decide +kernel
  exact ⟨_, hslot, by decide +kernel, (coredumps_kept hrun).2.2 true 1 ⟨by decide +kernel, 1, hslot⟩ hslot⟩

/-- Where both look for a slot before one of them has made it, they share it. -/
example : (([(true, .full), (true, .full), (false, .full), (true, .full), (false, .full), (false, .full)].foldl
    twoCrashes.next twoCrashes.start).pc true).slot? = some 1 ∧
    (([(true, .full), (true, .full), (false, .full), (true, .full), (false, .full), (false, .full)].foldl
      twoCrashes.next twoCrashes.start).pc false).slot? = some 1 := by decide +kernel

/-- Where `lstat()` fails for a slot that is there, the core in it is overwritten. -/
example :
    let dumped : SlotDirs := fun name => if name = decimal 0 then some fun _ => some [0x7f, 0x45] else none
    let handler : System (Coredumps Bool) _ := coredumps (fun _ => earlyCrash) 3 dumped
    ((([(true, .full), (true, .short 0), (true, .full), (true, .full), (true, .full)].foldl handler.next
      handler.start).dirs (decimal 0)).map (· (bytesOf "core"))) = some (some []) := by decide +kernel

/-- **A handler whose calls come to all they should** leaves a complete dump, or there was no slot left. -/
theorem coredump_complete (hr : ((coredumps crash maximum dirs).restrict Undisturbed).Run tr s) {i : ι}
    (hfull : ∀ l ∈ tr, l.1 = i → l.2 = .full) {slot : Option ℕ} (hexited : s.pc i = .exited slot) :
    match slot with
    | some slot => s.dirs (decimal slot) = some (crash i).dump
    | none => ∀ n : ℕ, n < maximum → (s.dirs (decimal n)).isSome := by
  cases slot with
  | none => exact run_full hr hfull hexited
  | some slot =>
    have hdumps := run_own (CoredumpPc.Dumps (crash i)) (· = .full) trivial (dumps_step (crash i)) hr hfull
    rwa [hexited] at hdumps

theorem coredump_complete_early : ∃ s : Coredumps Bool, s.pc true = .exited (some 1) ∧
    s.dirs (decimal 1) = some earlyCrash.dump := by
  have hreached : ∃ s : Coredumps Bool, (twoCrashes.restrict Undisturbed).Run (List.replicate 97 (true, .full)) s ∧
      s.pc true = .exited (some 1) := ⟨_, (System.path_of_runs (by decide +kernel)).run, by decide +kernel⟩
  obtain ⟨s, hrun, hexited⟩ := hreached
  refine ⟨s, hexited, coredump_complete hrun (fun l hl _ => ?_) hexited⟩
  rw [(List.mem_replicate.mp hl).2]

end

end Monolinux
