import Mathlib.Logic.Function.Basic
import Mathlib.Tactic.Common
import Monolinux.Lib.Linux
import Monolinux.Lib.Run

/-!
# Routines that make calls

A `Routine` makes a call, goes on with what the call returns, and so on until it is done.
`callers` runs any number of them at the same time over one kernel: each call is a step,
and what it comes to is up to the environment.

What a program may call at which time is told by a `Discipline`, a state that only the
program itself changes: `Follows`.  A program that is put together from others follows a
discipline if they do (`follows_bind`), and

* `callers_invariant`: an invariant of the kernel and of the states of all callers holds in
  every run, if no call that the discipline allows breaks it; `callers_path`: if it holds at
  some time, it holds from then on;
* `descriptors_keeps`: the open descriptors are those of the callers, each of its own.
-/

namespace Monolinux

/-- What a program does next: it is done, or makes a call and goes on with the response. -/
inductive Routine (κ : Type) (ρ : κ → Type) (α : Type)
  | done (a : α)
  | call (c : κ) (next : ρ c → Routine κ ρ α)

namespace Routine

variable {κ α β : Type} {ρ : κ → Type}

def bind : Routine κ ρ α → (α → Routine κ ρ β) → Routine κ ρ β
  | done a, f => f a
  | call c next, f => call c fun r => (next r).bind f

instance : Monad (Routine κ ρ) where
  pure := done
  bind := bind

def perform (c : κ) : Routine κ ρ (ρ c) := call c done

@[simp] theorem pure_eq (a : α) : (pure a : Routine κ ρ α) = done a := rfl

@[simp] theorem done_bind (a : α) (f : α → Routine κ ρ β) : (done a >>= f) = f a := rfl

@[simp] theorem call_bind (c : κ) (next : ρ c → Routine κ ρ α) (f : α → Routine κ ρ β) :
    (call c next >>= f) = call c fun r => next r >>= f := rfl

@[simp] theorem perform_bind (c : κ) (f : ρ c → Routine κ ρ β) : (perform c >>= f) = call c f := rfl

end Routine

/-- What may be called, and what that changes. -/
structure Discipline (κ : Type) (ρ : κ → Type) (γ : Type) where
  may : γ → κ → Prop
  after : γ → (c : κ) → ρ c → γ

section
variable {κ α β γ : Type} {ρ : κ → Type} {D : Discipline κ ρ γ}

/-- The program calls only what it may, and is done in a state as in `post`. -/
def Discipline.Follows (D : Discipline κ ρ γ) (post : γ → α → Prop) : γ → Routine κ ρ α → Prop
  | g, .done a => post g a
  | g, .call c next => D.may g c ∧ ∀ r, D.Follows post (D.after g c r) (next r)

@[simp] theorem follows_done {post : γ → α → Prop} {g : γ} {a : α} : D.Follows post g (.done a) ↔ post g a := Iff.rfl

@[simp] theorem follows_call {post : γ → α → Prop} {g : γ} {c : κ} {next : ρ c → Routine κ ρ α} :
    D.Follows post g (.call c next) ↔ D.may g c ∧ ∀ r, D.Follows post (D.after g c r) (next r) := Iff.rfl

/-- **One program behind the other.** -/
theorem follows_bind {mid : γ → α → Prop} {post : γ → β → Prop} {g : γ} {p : Routine κ ρ α} {f : α → Routine κ ρ β}
    (h : D.Follows mid g p) (hf : ∀ g a, mid g a → D.Follows post g (f a)) : D.Follows post g (p >>= f) := by
  induction p generalizing g with
  | done a => exact hf g a h
  | call c next ih => exact ⟨h.1, fun r => ih r (h.2 r)⟩

end

/-! ## Callers -/

/-- `ι` are the callers, `κ` their calls, and `q` what they have been asked for. -/
structure Callers (ι σ κ q α : Type) (ρ : κ → Type) where
  kernel : σ
  running : ι → Option (q × Routine κ ρ α)
  /-- The calls that were made, in order. -/
  calls : List (ι × (c : κ) × ρ c)
  /-- What was asked for and returned, in order. -/
  returned : List (ι × q × α)

/-- A caller begins, or goes on; then `o` is what its call comes to. -/
inductive CallersLabel (ι q ω : Type)
  | start (i : ι) (request : q)
  | step (i : ι) (o : ω)

variable {ι σ κ q α ω γ : Type} {ρ : κ → Type} [DecidableEq ι]

omit [DecidableEq ι] in
/-- What the callers have been asked for. -/
def Callers.asked (s : Callers ι σ κ q α ρ) (i : ι) : Option q := (s.running i).map Prod.fst

omit [DecidableEq ι] in
/-- What a caller calls next. -/
def Callers.about (s : Callers ι σ κ q α ρ) (i : ι) : Option (q × κ) :=
  match s.running i with
  | some (request, .call c _) => some (request, c)
  | _ => none

section
variable (handle : σ → (c : κ) → ω → σ × ρ c)

def Callers.step (s : Callers ι σ κ q α ρ) (i : ι) (o : ω) : Callers ι σ κ q α ρ :=
  match s.running i with
  | none => s
  | some (request, .done a) =>
    { s with running := Function.update s.running i none, returned := s.returned ++ [(i, request, a)] }
  | some (request, .call c next) =>
    { s with
      kernel := (handle s.kernel c o).1
      running := Function.update s.running i (some (request, next (handle s.kernel c o).2))
      calls := s.calls ++ [(i, ⟨c, (handle s.kernel c o).2⟩)] }

/-- `allowed` is what a caller may be asked for, while others have been asked for something. -/
def callers (code : q → Routine κ ρ α) (allowed : (ι → Option q) → q → Prop) (kernel : σ) :
    System (Callers ι σ κ q α ρ) (CallersLabel ι q ω) where
  start := ⟨kernel, fun _ => none, [], []⟩
  enabled s l :=
    match l with
    | .start i request => s.running i = none ∧ allowed s.asked request
    | .step i _ => s.running i ≠ none
  next s l :=
    match l with
    | .start i request => { s with running := Function.update s.running i (some (request, code request)) }
    | .step i o => s.step handle i o

end

/-- A caller goes on as its state tells it to. -/
def Agrees (D : Discipline κ ρ γ) (post : q → γ → α → Prop) : Option (q × Routine κ ρ α) → Option (q × γ) → Prop
  | none, none => True
  | some (request, p), some (request', g) => request = request' ∧ D.Follows (post request) g p
  | _, _ => False

/-- An invariant of the kernel, of the states of the callers (`none` where they are idle), of what was called and of what
was returned. -/
abbrev CallersInv (ι σ κ q α γ : Type) (ρ : κ → Type) :=
  σ → (ι → Option (q × γ)) → List (ι × (c : κ) × ρ c) → List (ι × q × α) → Prop

/-- No call that the discipline allows breaks the invariant. -/
structure Callers.Keeps (handle : σ → (c : κ) → ω → σ × ρ c) (allowed : (ι → Option q) → q → Prop) (D : Discipline κ ρ γ)
    (first : q → γ) (post : q → γ → α → Prop) (I : CallersInv ι σ κ q α γ ρ) : Prop where
  start : ∀ k g calls returned i request, I k g calls returned → g i = none → allowed (fun j => (g j).map Prod.fst) request →
    I k (Function.update g i (some (request, first request))) calls returned
  call : ∀ k g calls returned i request h c o, I k g calls returned → g i = some (request, h) → D.may h c →
    I (handle k c o).1 (Function.update g i (some (request, D.after h c (handle k c o).2)))
      (calls ++ [(i, ⟨c, (handle k c o).2⟩)]) returned
  done : ∀ k g calls returned i request h a, I k g calls returned → g i = some (request, h) → post request h a →
    I k (Function.update g i none) calls (returned ++ [(i, request, a)])

section
variable {handle : σ → (c : κ) → ω → σ × ρ c} {code : q → Routine κ ρ α} {allowed : (ι → Option q) → q → Prop} {kernel : σ}
  {D : Discipline κ ρ γ} {first : q → γ} {post : q → γ → α → Prop} {I : CallersInv ι σ κ q α γ ρ}
  {s : Callers ι σ κ q α ρ} {tr : List (CallersLabel ι q ω)}

omit [DecidableEq ι] in
theorem Agrees.map_fst {running : Option (q × Routine κ ρ α)} {g : Option (q × γ)} (h : Agrees D post running g) :
    running.map Prod.fst = g.map Prod.fst := by
  cases running <;> cases g <;> simp_all [Agrees]

omit [DecidableEq ι] in
/-- What a caller calls next it may call. -/
theorem Agrees.may {s : Callers ι σ κ q α ρ} {i : ι} {g : Option (q × γ)} (h : Agrees D post (s.running i) g) {request : q}
    {c : κ} (habout : s.about i = some (request, c)) : ∃ h, g = some (request, h) ∧ D.may h c := by
  unfold Callers.about at habout
  split at habout
  · next request' c' next hrunning =>
    obtain ⟨rfl, rfl⟩ := Prod.mk.inj (Option.some_inj.mp habout)
    rw [hrunning] at h
    cases g with
    | none => exact h.elim
    | some g =>
      obtain ⟨request'', g⟩ := g
      obtain ⟨rfl, hmay, -⟩ := h
      exact ⟨g, rfl, hmay⟩
  · cases habout

omit [DecidableEq ι] in
/-- The state of a caller that goes on. -/
theorem Agrees.some {request : q} {p : Routine κ ρ α} {g : Option (q × γ)} (h : Agrees D post (some (request, p)) g) :
    ∃ h, g = some (request, h) ∧ D.Follows (post request) h p := by
  cases g with
  | none => exact h.elim
  | some g =>
    obtain ⟨request', h'⟩ := g
    obtain ⟨rfl, hfollows⟩ := h
    exact ⟨h', rfl, hfollows⟩

/-- Only the caller that goes on is changed. -/
theorem agrees_update {running : ι → Option (q × Routine κ ρ α)} {g : ι → Option (q × γ)}
    (h : ∀ i, Agrees D post (running i) (g i)) {i : ι} {running' : Option (q × Routine κ ρ α)} {g' : Option (q × γ)}
    (h' : Agrees D post running' g') (j : ι) :
    Agrees D post (Function.update running i running' j) (Function.update g i g' j) := by
  by_cases hj : j = i
  · subst hj
    rw [Function.update_self, Function.update_self]
    exact h'
  · rw [Function.update_of_ne hj, Function.update_of_ne hj]
    exact h j

theorem of_update_some {β : Type} {g : ι → Option β} {i j : ι} {x y : β} (h : Function.update g i (some x) j = some y) :
    j = i ∧ y = x ∨ j ≠ i ∧ g j = some y := by
  by_cases hj : j = i
  · subst hj
    rw [Function.update_self] at h
    exact .inl ⟨rfl, (Option.some_inj.mp h).symm⟩
  · rw [Function.update_of_ne hj] at h
    exact .inr ⟨hj, h⟩

/-- What holds of all callers still does if it holds of the one that goes on. -/
theorem of_update_pair {P : q → γ → Prop} {g : ι → Option (q × γ)} (hg : ∀ i request h, g i = some (request, h) → P request h)
    {i : ι} {request : q} {h : γ} (hnew : P request h) (j : ι) (request' : q) (h' : γ)
    (hj : Function.update g i (some (request, h)) j = some (request', h')) : P request' h' := by
  rcases of_update_some hj with ⟨-, heq⟩ | ⟨-, hj⟩
  · cases heq
    exact hnew
  · exact hg j request' h' hj

theorem of_update_none {β : Type} {g : ι → Option β} {i j : ι} {y : β} (h : Function.update g i none j = some y) :
    g j = some y := by
  by_cases hj : j = i
  · subst hj
    rw [Function.update_self] at h
    cases h
  · rwa [Function.update_of_ne hj] at h

/-- Every step keeps the invariant. -/
theorem callers_step (hcode : ∀ request, D.Follows (post request) (first request) (code request))
    (hkeeps : Callers.Keeps handle allowed D first post I) {l : CallersLabel ι q ω}
    (h : ∃ g, I s.kernel g s.calls s.returned ∧ ∀ i, Agrees D post (s.running i) (g i))
    (he : (callers handle code allowed kernel).enabled s l) :
    ∃ g, I ((callers handle code allowed kernel).next s l).kernel g ((callers handle code allowed kernel).next s l).calls
      ((callers handle code allowed kernel).next s l).returned ∧
      ∀ i, Agrees D post (((callers handle code allowed kernel).next s l).running i) (g i) := by
  obtain ⟨g, hI, hagrees⟩ := h
  have hasked : s.asked = fun j => (g j).map Prod.fst := funext fun j => (hagrees j).map_fst
  cases l with
  | start i request =>
    obtain ⟨hidle, hallowed⟩ := he
    have hnone : g i = none := by
      have hmap := (hagrees i).map_fst
      rw [hidle] at hmap
      exact Option.map_eq_none_iff.mp hmap.symm
    rw [hasked] at hallowed
    exact ⟨_, hkeeps.start _ _ _ _ i request hI hnone hallowed, agrees_update hagrees ⟨rfl, hcode request⟩⟩
  | step i o =>
    have hi := hagrees i
    show ∃ g', I (s.step handle i o).kernel g' (s.step handle i o).calls (s.step handle i o).returned ∧
      ∀ j, Agrees D post ((s.step handle i o).running j) (g' j)
    unfold Callers.step
    cases hrunning : s.running i with
    | none => exact absurd hrunning he
    | some running =>
      obtain ⟨request, p⟩ := running
      rw [hrunning] at hi
      obtain ⟨h, hgi, hfollows⟩ := hi.some
      cases p with
      | done a => exact ⟨_, hkeeps.done _ _ _ _ i request h a hI hgi hfollows, agrees_update hagrees trivial⟩
      | call c next =>
        exact ⟨_, hkeeps.call _ _ _ _ i request h c o hI hgi hfollows.1, agrees_update hagrees ⟨rfl, hfollows.2 _⟩⟩

/-- **Invariants of callers.** -/
theorem callers_invariant (hcode : ∀ request, D.Follows (post request) (first request) (code request))
    (hkeeps : Callers.Keeps handle allowed D first post I) (hinit : I kernel (fun _ => none) [] [])
    (hr : (callers handle code allowed kernel).Run tr s) :
    ∃ g, I s.kernel g s.calls s.returned ∧ ∀ i, Agrees D post (s.running i) (g i) := by
  have hstart (i : ι) : Agrees D post ((callers handle code allowed kernel).start.running i) none := trivial
  exact hr.invariant (fun s => ∃ g, I s.kernel g s.calls s.returned ∧ ∀ i, Agrees D post (s.running i) (g i))
    ⟨fun _ => none, hinit, hstart⟩ fun _ _ h he => callers_step hcode hkeeps h he

/-- The same from some time on. -/
theorem callers_path (hcode : ∀ request, D.Follows (post request) (first request) (code request))
    (hkeeps : Callers.Keeps handle allowed D first post I)
    (h : ∃ g, I s.kernel g s.calls s.returned ∧ ∀ i, Agrees D post (s.running i) (g i)) {s' : Callers ι σ κ q α ρ}
    (p : (callers handle code allowed kernel).Path s tr s') :
    ∃ g, I s'.kernel g s'.calls s'.returned ∧ ∀ i, Agrees D post (s'.running i) (g i) := by
  induction p with
  | nil s => exact h
  | cons l he _ ih => exact ih (callers_step hcode hkeeps h he)

end

/-! ## Descriptors of callers -/

section
variable {ι σ κ q α ω γ δ : Type} {ρ : κ → Type} [DecidableEq ι]
  {handle : σ → (c : κ) → ω → σ × ρ c} {allowed : (ι → Option q) → q → Prop}
  {D : Discipline κ ρ γ} {first : q → γ} {post : q → γ → α → Prop} {fd : γ → Option ℕ}

/-- What a call does to the descriptors: nothing, or the caller, which had none, gets one, or it closes its own. -/
inductive FdStep (d d' : Descriptors δ) : Option ℕ → Option ℕ → Prop
  | keep {fd : Option ℕ} : d' = d → FdStep d d' fd fd
  | create (kind : δ) (n : ℕ) : d' = d.create kind n → FdStep d d' none (some (d.pick n))
  | close (n : ℕ) : d' = d.close n → FdStep d d' (some n) none

/-- The descriptor of each caller. -/
def fdOf (fd : γ → Option ℕ) (g : ι → Option (q × γ)) (i : ι) : Option ℕ := (g i).bind fun h => fd h.2

theorem fdOf_update (fd : γ → Option ℕ) (g : ι → Option (q × γ)) (i : ι) (x : Option (q × γ)) :
    fdOf fd (Function.update g i x) = Function.update (fdOf fd g) i (x.bind fun h => fd h.2) := by
  funext j
  by_cases hj : j = i
  · subst hj
    simp [fdOf]
  · simp [fdOf, hj]

omit [DecidableEq ι] in
theorem fdOf_some {g : ι → Option (q × γ)} {i : ι} {request : q} {h : γ} (hi : g i = some (request, h)) : fdOf fd g i = fd h := by
  unfold fdOf
  rw [hi]
  rfl

omit [DecidableEq ι] in
/-- Who calls nothing has none. -/
theorem Agrees.fdOf_none {running : ι → Option (q × Routine κ ρ α)} {g : ι → Option (q × γ)} {i : ι}
    {post : q → γ → α → Prop} (h : Agrees D post (running i) (g i)) (hidle : running i = none) : fdOf fd g i = none := by
  have hmap := h.map_fst
  rw [hidle] at hmap
  have hnone : g i = none := Option.map_eq_none_iff.mp hmap.symm
  unfold fdOf
  rw [hnone]
  rfl

/-- **Descriptors of callers.**  The open descriptors are those of the callers, each of its own, if a caller begins and
ends without one. -/
theorem descriptors_keeps (descriptors : σ → Descriptors δ) (fd : γ → Option ℕ) (allowed : (ι → Option q) → q → Prop)
    (hfirst : ∀ request, fd (first request) = none)
    (hcall : ∀ k g c o, D.may g c →
      FdStep (descriptors k) (descriptors (handle k c o).1) (fd g) (fd (D.after g c (handle k c o).2)))
    (hpost : ∀ request g a, post request g a → fd g = none) :
    Callers.Keeps handle allowed D first post
      fun k (g : ι → Option (q × γ)) _ _ => (descriptors k).OwnedBy (fdOf fd g) where
  start k g calls returned i request hI hi _ := by
    have hnone : fdOf fd g i = none := by
      unfold fdOf
      rw [hi]
      rfl
    have hsame : Function.update (fdOf fd g) i (fd (first request)) = fdOf fd g :=
      Function.update_eq_self_iff.mpr ((hfirst request).trans hnone.symm)
    rw [fdOf_update]
    show (descriptors k).OwnedBy (Function.update (fdOf fd g) i (fd (first request)))
    rw [hsame]
    exact hI
  call k g calls returned i request h c o hI hi hmay := by
    have hown : fdOf fd g i = fd h := fdOf_some hi
    have hstep := hcall k h c o hmay
    rw [fdOf_update]
    show (descriptors (handle k c o).1).OwnedBy (Function.update (fdOf fd g) i (fd (D.after h c (handle k c o).2)))
    generalize fd h = before at hown hstep
    generalize fd (D.after h c (handle k c o).2) = behind at hstep
    cases hstep with
    | keep heq =>
      have hsame : Function.update (fdOf fd g) i before = fdOf fd g := Function.update_eq_self_iff.mpr hown.symm
      rw [heq, hsame]
      exact hI
    | create kind n heq =>
      rw [heq]
      exact hI.create hown kind n
    | close n heq =>
      rw [heq]
      exact hI.close hown
  done k g calls returned i request h a hI hi hdone := by
    have hown : fdOf fd g i = none := (fdOf_some hi).trans (hpost request h a hdone)
    have hsame : Function.update (fdOf fd g) i none = fdOf fd g := Function.update_eq_self_iff.mpr hown.symm
    rw [fdOf_update]
    show (descriptors k).OwnedBy (Function.update (fdOf fd g) i none)
    rw [hsame]
    exact hI

end
end Monolinux
