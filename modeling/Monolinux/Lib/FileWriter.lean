import Mathlib.Logic.Function.Basic
import Mathlib.Data.List.Infix
import Mathlib.Tactic.Common

/-!
# Files that are written piece by piece

A process writes files one behind the other.  The text of a file comes in blocks, and a
block in pieces, one for each `fwrite()`: where a piece comes up short, the rest of its
block is left out, and the next block goes on.  A file that cannot be opened is skipped.

* `remaining_step`: while no call comes up short, what the files will be in the end stays
  the same; so they end as they should (`finished_remaining`).
* `cut_step`: whatever comes up short, a file of one block holds a prefix of its text.
-/

namespace Monolinux

/-- What a call comes to. -/
inductive CallOutcome
  | full
  /-- It fails, or stops after `k` bytes. -/
  | short (k : ℕ)
  deriving DecidableEq, Repr

def CallOutcome.cut (o : CallOutcome) {β : Type*} (piece : List β) : List β :=
  match o with
  | full => piece
  | short k => piece.take k

variable {κ β : Type*}

/-- The pieces up to one that comes up short. -/
abbrev Block (β : Type*) := List (List β)

/-- The file that is open, with what is still to be written to it, and the files that come next. -/
structure Writer (κ β : Type*) where
  current : Option (κ × List (Block β))
  rest : List (κ × List (Block β))
  deriving DecidableEq

namespace Writer

variable [DecidableEq κ]

/-- The next call. -/
def step (w : Writer κ β) (files : κ → Option (List β)) (o : CallOutcome) : Writer κ β × (κ → Option (List β)) :=
  match w.current, w.rest with
  | none, [] => (w, files)
  | none, (file, blocks) :: rest => -- fopen
    match o with
    | .full => (⟨some (file, blocks), rest⟩, Function.update files file (some []))
    | .short _ => (⟨none, rest⟩, files)
  | some (_, []), rest => (⟨none, rest⟩, files) -- fclose
  | some (file, [] :: blocks), rest => (⟨some (file, blocks), rest⟩, files)
  | some (file, (piece :: block) :: blocks), rest => -- fwrite
    (⟨some (file, if (o.cut piece).length = piece.length then block :: blocks else blocks), rest⟩,
      Function.update files file ((files file).map (· ++ o.cut piece)))

def Finished (w : Writer κ β) : Prop := w.current = none ∧ w.rest = []

instance (w : Writer κ β) : Decidable w.Finished :=
  decidable_of_iff (w.current.isNone ∧ w.rest.isEmpty) (by simp [Finished])

/-- The text in blocks. -/
def textOf (blocks : List (Block β)) : List β := blocks.flatten.flatten

/-- The files when the rest of the calls have come to all they should. -/
def remaining (w : Writer κ β) (files : κ → Option (List β)) : κ → Option (List β) :=
  w.rest.foldl (fun files output => Function.update files output.1 (some (textOf output.2)))
    (match w.current with
    | none => files
    | some (file, blocks) => Function.update files file ((files file).map (· ++ textOf blocks)))

omit [DecidableEq κ] in
@[simp] theorem textOf_nil : textOf ([] : List (Block β)) = [] := rfl

omit [DecidableEq κ] in
@[simp] theorem textOf_cons_nil (blocks : List (Block β)) : textOf ([] :: blocks) = textOf blocks := rfl

omit [DecidableEq κ] in
@[simp] theorem textOf_cons_cons (piece : List β) (block : Block β) (blocks : List (Block β)) :
    textOf ((piece :: block) :: blocks) = piece ++ textOf (block :: blocks) := rfl

omit [DecidableEq κ] in
@[simp] theorem textOf_append (blocks blocks' : List (Block β)) : textOf (blocks ++ blocks') = textOf blocks ++ textOf blocks' := by
  unfold textOf
  rw [List.flatten_append, List.flatten_append]

omit [DecidableEq κ] in
theorem textOf_singles (pieces : List (List β)) : textOf (pieces.map fun piece => [piece]) = pieces.flatten := by
  induction pieces with
  | nil => rfl
  | cons piece pieces ih => rw [List.map_cons, textOf_cons_cons, textOf_cons_nil, ih, List.flatten_cons]

section
variable (files : κ → Option (List β)) (file : κ) (blocks : List (Block β)) (rest : List (κ × List (Block β)))

@[simp] theorem step_end (o : CallOutcome) : (⟨none, []⟩ : Writer κ β).step files o = (⟨none, []⟩, files) := rfl

@[simp] theorem step_open : (⟨none, (file, blocks) :: rest⟩ : Writer κ β).step files .full =
    (⟨some (file, blocks), rest⟩, Function.update files file (some [])) := rfl

@[simp] theorem step_skip (k : ℕ) : (⟨none, (file, blocks) :: rest⟩ : Writer κ β).step files (.short k) =
    (⟨none, rest⟩, files) := rfl

@[simp] theorem step_close (o : CallOutcome) : (⟨some (file, []), rest⟩ : Writer κ β).step files o = (⟨none, rest⟩, files) := by
  cases rest <;> rfl

@[simp] theorem step_block (o : CallOutcome) : (⟨some (file, [] :: blocks), rest⟩ : Writer κ β).step files o =
    (⟨some (file, blocks), rest⟩, files) := by
  cases rest <;> rfl

@[simp] theorem step_write (piece : List β) (block : Block β) (o : CallOutcome) :
    (⟨some (file, (piece :: block) :: blocks), rest⟩ : Writer κ β).step files o =
      (⟨some (file, if (o.cut piece).length = piece.length then block :: blocks else blocks), rest⟩,
        Function.update files file ((files file).map (· ++ o.cut piece))) := by
  cases rest <;> rfl

end

variable (w : Writer κ β) (files : κ → Option (List β))

/-- **A call that comes to all it should** changes nothing about the end. -/
theorem remaining_step : (w.step files .full).1.remaining (w.step files .full).2 = w.remaining files := by
  obtain ⟨current, rest⟩ := w
  rcases current with _ | ⟨file, _ | ⟨_ | ⟨piece, block⟩, blocks⟩⟩
  · rcases rest with _ | ⟨⟨file, blocks⟩, rest⟩
    · rfl
    · simp [remaining]
  · have hsame : Function.update files file ((files file).map (· ++ textOf [])) = files := by
      rw [Function.update_eq_self_iff]
      simp
    unfold remaining
    rw [step_close]
    dsimp only
    rw [hsame]
  · simp [remaining]
  · simp [remaining, CallOutcome.cut, Function.comp_def]

theorem finished_remaining (h : w.Finished) : w.remaining files = files := by
  obtain ⟨current, rest⟩ := w
  obtain ⟨rfl, rfl⟩ : current = none ∧ rest = [] := h
  rfl

/-! ## Files that are cut -/

/-- A file of one block is still to be opened, being written, or a prefix of its text for good. -/
inductive Cut (file : κ) (text : List β) : Writer κ β → (κ → Option (List β)) → Prop
  | next {files : κ → Option (List β)} {block : Block β} {rest : List (κ × List (Block β))} (hfile : files file = none)
      (htext : block.flatten = text) (hrest : ∀ output ∈ rest, output.1 ≠ file) :
      Cut file text ⟨none, (file, [block]) :: rest⟩ files
  | written {files : κ → Option (List β)} {block : Block β} {rest : List (κ × List (Block β))} {s : List β}
      (hfile : files file = some s) (htext : s ++ block.flatten = text) (hrest : ∀ output ∈ rest, output.1 ≠ file) :
      Cut file text ⟨some (file, [block]), rest⟩ files
  | past {files : κ → Option (List β)} {w : Writer κ β} (hfile : ∀ s ∈ files file, s <+: text)
      (hcurrent : ∀ output ∈ w.current, output.1 = file → output.2 = []) (hrest : ∀ output ∈ w.rest, output.1 ≠ file) :
      Cut file text w files

variable {w files} {file : κ} {text : List β}

omit [DecidableEq κ] in
theorem Cut.isPrefix (h : Cut file text w files) : ∀ s ∈ files file, s <+: text := by
  cases h with
  | next hfile => simp [hfile]
  | written hfile htext =>
    intro s hs
    obtain rfl := Option.some_inj.mp (hfile.symm.trans hs)
    exact ⟨_, htext⟩
  | past hfile => exact hfile

/-- Calls for other files. -/
theorem Cut.step_over (hfile : ∀ s ∈ files file, s <+: text) (hcurrent : ∀ output ∈ w.current, output.1 = file → output.2 = [])
    (hrest : ∀ output ∈ w.rest, output.1 ≠ file) (o : CallOutcome) : Cut file text (w.step files o).1 (w.step files o).2 := by
  obtain ⟨current, rest⟩ := w
  have hnone {rest : List (κ × List (Block β))} (hrest : ∀ output ∈ rest, output.1 ≠ file) : Cut file text ⟨none, rest⟩ files :=
    .past hfile (by simp) hrest
  -- a call for another file, which is open
  have hopen {other : κ} {blocks : List (Block β)} {rest : List (κ × List (Block β))} {files' : κ → Option (List β)}
      (hother : other ≠ file) (hsame : files' file = files file) (hrest : ∀ output ∈ rest, output.1 ≠ file) :
      Cut file text ⟨some (other, blocks), rest⟩ files' := by
    refine .past (hsame ▸ hfile) ?_ hrest
    intro output houtput heq
    obtain rfl := Option.some_inj.mp houtput
    exact absurd heq hother
  have hnonempty {other : κ} {block : Block β} {blocks : List (Block β)} (h : current = some (other, block :: blocks)) :
      other ≠ file := fun heq => List.cons_ne_nil _ _ (hcurrent _ h heq)
  rcases current with _ | ⟨other, _ | ⟨_ | ⟨piece, block⟩, blocks⟩⟩
  · rcases rest with _ | ⟨⟨other, blocks⟩, rest⟩
    · exact hnone hrest
    · obtain ⟨hother, hrest⟩ := List.forall_mem_cons.mp hrest
      cases o with
      | full =>
        rw [step_open]
        exact hopen hother (Function.update_of_ne (Ne.symm hother) ..) hrest
      | short k =>
        rw [step_skip]
        exact hnone hrest
  · rw [step_close]
    exact hnone hrest
  · rw [step_block]
    exact hopen (hnonempty rfl) rfl hrest
  · rw [step_write]
    exact hopen (hnonempty rfl) (Function.update_of_ne (Ne.symm (hnonempty rfl)) ..) hrest

/-- **What comes up short cuts the file.** -/
theorem cut_step (h : Cut file text w files) (o : CallOutcome) : Cut file text (w.step files o).1 (w.step files o).2 := by
  cases h with
  | @next _ block rest hfile htext hrest =>
    cases o with
    | full => exact .written (Function.update_self ..) htext hrest
    | short k => exact .past (by simp [hfile]) (by simp) hrest
  | @written _ block rest s hfile htext hrest =>
    -- the end of its block is the end of the file
    have hover {files' : κ → Option (List β)} {s' : List β} (hfile : files' file = some s') (hfront : s' <+: text) :
        Cut file text ⟨some (file, []), rest⟩ files' := by
      refine .past ?_ ?_ hrest
      · rw [hfile]
        simpa using hfront
      · intro output houtput _
        obtain rfl := Option.some_inj.mp houtput
        rfl
    rcases block with _ | ⟨piece, block⟩
    · rw [step_block]
      exact hover hfile ⟨_, htext⟩
    · have hwritten : Function.update files file ((files file).map (· ++ o.cut piece)) file = some (s ++ o.cut piece) := by
        rw [Function.update_self, hfile, Option.map_some]
      have hfront : o.cut piece <+: piece := by
        cases o with
        | full => exact List.prefix_rfl
        | short k => exact List.take_prefix _ _
      rw [step_write]
      by_cases hlength : (o.cut piece).length = piece.length
      · rw [if_pos hlength]
        refine .written hwritten ?_ hrest
        rw [hfront.eq_of_length hlength, List.append_assoc]
        exact htext
      · rw [if_neg hlength]
        obtain ⟨lost, hlost⟩ := hfront
        refine hover hwritten ⟨lost ++ block.flatten, ?_⟩
        rw [List.append_assoc, ← List.append_assoc _ lost, hlost]
        exact htext
  | past hfile hcurrent hrest => exact .step_over hfile hcurrent hrest o

end Writer

end Monolinux
