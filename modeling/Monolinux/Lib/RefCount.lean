import Monolinux.Lib.Run
import Mathlib.Algebra.Order.BigOperators.Group.Finset

/-!
# A reference-counted object that is handed out

An owner hands an object to the holders in a list, one reference for each place in the
list.  It takes all references at once before it hands out the first (`share`); a holder
may drop its reference before the next holder has got one.  The thread that drops the
last reference calls the object's callback, if it has one, and frees it.

`RefInv` holds of every run (`refcount_run`): the count is the number of references,
holders get what the list says, and the object ends exactly when no reference is left,
once.
-/

namespace Monolinux

variable {κ : Type*}

/-- Where the owner is. -/
inductive Owner (κ : Type*)
  /-- the object is not allocated yet -/
  | none
  | owner
  /-- about to take the references for `todo` -/
  | sharing (todo : List κ)
  /-- the holders that have still to get theirs -/
  | giving (todo : List κ)
  /-- about to drop its own reference; nobody gets the object -/
  | dropping
  deriving DecidableEq

namespace Owner

/-- References the owner has. -/
def refs : Owner κ → ℕ
  | none => 0
  | owner => 1
  | sharing _ => 1
  | giving todo => todo.length
  | dropping => 1

/-- The holders that the owner has still to serve, of all in `plan`. -/
def todo (plan : List κ) : Owner κ → List κ
  | none => plan
  | owner => plan
  | sharing todo => todo
  | giving todo => todo
  | dropping => []

end Owner

structure RefHeader (κ : Type*) where
  count : ℤ
  plan : List κ
  callback : Bool

@[ext]
structure RefState (κ : Type*) where
  /-- the object in memory; `none` before it is allocated and after it is freed -/
  header : Option (RefHeader κ)
  owner : Owner κ
  /-- references that wait for their holder -/
  offered : κ → ℕ
  held : κ → ℕ
  /-- threads that have dropped the last reference and are about to call back -/
  calling : ℕ
  /-- threads that are about to free the object -/
  freeing : ℕ

inductive RefEvent (κ : Type*)
  | alloc (plan : List κ) (callback : Bool)
  | start
  | share
  | give (q : κ)
  | take (q : κ)
  | release (q : κ)
  | drop
  | callback
  | free
  deriving DecidableEq

namespace RefState

variable (s : RefState κ)

/-- Drops one reference. -/
def unref : RefState κ :=
  match s.header with
  | none => s
  | some h =>
    { s with
      header := some { h with count := h.count - 1 }
      calling := if h.count - 1 = 0 ∧ h.callback = true then s.calling + 1 else s.calling
      freeing := if h.count - 1 = 0 ∧ h.callback = false then s.freeing + 1 else s.freeing }

def begin : RefState κ :=
  match s.header with
  | none => s
  | some h => { s with owner := if h.plan = [] then .dropping else .sharing h.plan }

def share : RefState κ :=
  match s.owner with
  | .sharing todo =>
    { s with
      header := s.header.map fun h => { h with count := h.count + (todo.length - 1) }
      owner := .giving todo }
  | _ => s

end RefState

theorem RefState.begin_of_header {s : RefState κ} {h : RefHeader κ} (hh : s.header = some h) :
    s.begin = { s with owner := if h.plan = [] then .dropping else .sharing h.plan } := by
  unfold RefState.begin
  rw [hh]

variable [DecidableEq κ]

def refcount : System (RefState κ) (RefEvent κ) where
  start := ⟨none, .none, fun _ => 0, fun _ => 0, 0, 0⟩
  enabled
    | s, .alloc _ _ => s.owner = .none
    | s, .start => s.owner = .owner
    | s, .share => ∃ todo, s.owner = .sharing todo
    | s, .give q => ∃ rest, s.owner = .giving (q :: rest)
    | s, .take q => 0 < s.offered q
    | s, .release q => 0 < s.held q
    | s, .drop => s.owner = .dropping
    | s, .callback => 0 < s.calling
    | s, .free => 0 < s.freeing
  next
    | s, .alloc plan callback => { s with header := some ⟨1, plan, callback⟩, owner := .owner }
    | s, .start => s.begin
    | s, .share => s.share
    | s, .give q =>
      { s with owner := .giving (s.owner.todo []).tail, offered := Function.update s.offered q (s.offered q + 1) }
    | s, .take q =>
      { s with
        offered := Function.update s.offered q (s.offered q - 1)
        held := Function.update s.held q (s.held q + 1) }
    | s, .release q => { s with held := Function.update s.held q (s.held q - 1) }.unref
    | s, .drop => { s with owner := .giving [] }.unref
    | s, .callback => { s with calling := s.calling - 1, freeing := s.freeing + 1 }
    | s, .free => { s with header := none, freeing := s.freeing - 1 }

/-- References to the object, among the holders in `plan`. -/
def RefState.refs (plan : List κ) (s : RefState κ) : ℕ :=
  s.owner.refs + ∑ q ∈ plan.toFinset, (s.offered q + s.held q)

/-- What holds of an object that was allocated for `plan`. -/
structure RefInv (plan : List κ) (callback : Bool) (tr : List (RefEvent κ)) (s : RefState κ) : Prop where
  allocated : s.owner ≠ .none
  /-- every holder gets as many references as it has places in the plan -/
  given : ∀ q, tr.count (.give q) + (s.owner.todo plan).count q = plan.count q
  sharing : ∀ todo, s.owner = .sharing todo → todo ≠ []
  holders : ∀ q, 0 < s.offered q + s.held q → q ∈ plan
  header : ∀ h, s.header = some h → h = ⟨s.refs plan, plan, callback⟩
  gone : s.header = none ↔ 0 < tr.count .free
  ended : tr.count .free + s.calling + s.freeing = if s.refs plan = 0 then 1 else 0
  called : tr.count .callback + s.calling = if callback then tr.count .free + s.calling + s.freeing else 0

section
variable {plan : List κ} {callback : Bool} {tr : List (RefEvent κ)} {s s' : RefState κ}

theorem count_snoc_ne {l e : RefEvent κ} (h : l ≠ e) : (tr ++ [l]).count e = tr.count e := by simp [h]

theorem count_snoc_self {l : RefEvent κ} : (tr ++ [l]).count l = tr.count l + 1 := by simp

theorem RefInv.given_snoc (h : RefInv plan callback tr s) {l : RefEvent κ} (hl : ∀ q, l ≠ .give q) (q : κ) :
    (tr ++ [l]).count (.give q) + (s.owner.todo plan).count q = plan.count q := by
  rw [count_snoc_ne (hl q)]
  exact h.given q

/-- While there are references, the object is in memory and nobody is freeing it. -/
theorem RefInv.live (h : RefInv plan callback tr s) (hr : 0 < s.refs plan) :
    s.header = some ⟨s.refs plan, plan, callback⟩ ∧ tr.count .free = 0 ∧ s.calling = 0 ∧ s.freeing = 0 ∧
      tr.count .callback = 0 := by
  have hended := h.ended
  have hcalled := h.called
  rw [if_neg (by omega)] at hended
  have hzero : tr.count .callback + s.calling = 0 := by
    rw [hcalled]
    split <;> omega
  refine ⟨?_, by omega, by omega, by omega, by omega⟩
  cases hh : s.header with
  | none =>
    have := h.gone.mp hh
    omega
  | some x => rw [h.header x hh]

/-- A step that moves references but does not change how many there are. -/
theorem RefInv.move (h : RefInv plan callback tr s) {l : RefEvent κ} (hfree : l ≠ .free) (hcall : l ≠ .callback)
    (hheader : s'.header = s.header) (hcalling : s'.calling = s.calling) (hfreeing : s'.freeing = s.freeing)
    (hrefs : s'.refs plan = s.refs plan) (howner : s'.owner ≠ .none)
    (hgiven : ∀ q, (tr ++ [l]).count (.give q) + (s'.owner.todo plan).count q = plan.count q)
    (hsharing : ∀ todo, s'.owner = .sharing todo → todo ≠ [])
    (hholders : ∀ q, 0 < s'.offered q + s'.held q → q ∈ plan) : RefInv plan callback (tr ++ [l]) s' := by
  have hcf : (tr ++ [l]).count .free = tr.count .free := count_snoc_ne hfree
  have hcc : (tr ++ [l]).count .callback = tr.count .callback := count_snoc_ne hcall
  refine ⟨howner, hgiven, hsharing, hholders, ?_, ?_, ?_, ?_⟩
  · rw [hheader, hrefs]; exact h.header
  · rw [hheader, hcf]; exact h.gone
  · rw [hcf, hcalling, hfreeing, hrefs]; exact h.ended
  · rw [hcc, hcf, hcalling, hfreeing]; exact h.called

/-- A step that drops a reference. -/
theorem RefInv.unref (h : RefInv plan callback tr s) {l : RefEvent κ} (hfree : l ≠ .free) (hcall : l ≠ .callback)
    (hheader : s'.header = s.header) (hcalling : s'.calling = s.calling) (hfreeing : s'.freeing = s.freeing)
    (hrefs : s'.refs plan + 1 = s.refs plan) (howner : s'.owner ≠ .none)
    (hgiven : ∀ q, (tr ++ [l]).count (.give q) + (s'.owner.todo plan).count q = plan.count q)
    (hsharing : ∀ todo, s'.owner = .sharing todo → todo ≠ [])
    (hholders : ∀ q, 0 < s'.offered q + s'.held q → q ∈ plan) : RefInv plan callback (tr ++ [l]) s'.unref := by
  obtain ⟨hsome, hf, hc, hfr, hcb⟩ := h.live (by omega)
  have hcf := (count_snoc_ne hfree).trans hf
  have hcc := (count_snoc_ne hcall).trans hcb
  have hcount : ((s.refs plan : ℕ) : ℤ) - 1 = (s'.refs plan : ℕ) := by omega
  -- the count is zero exactly if this was the last reference
  have hun : s'.unref = { s' with
      header := some ⟨s'.refs plan, plan, callback⟩
      calling := if s'.refs plan = 0 ∧ callback = true then 1 else 0
      freeing := if s'.refs plan = 0 ∧ callback = false then 1 else 0 } := by
    unfold RefState.unref
    rw [hheader, hsome]
    simp only [hcount, hcalling, hfreeing, hc, hfr, Int.natCast_eq_zero, Nat.zero_add]
  have hrefs' : s'.unref.refs plan = s'.refs plan := by rw [hun]; rfl
  refine ⟨by rw [hun]; exact howner, by rw [hun]; exact hgiven, by rw [hun]; exact hsharing,
    by rw [hun]; exact hholders, ?_, ?_, ?_, ?_⟩
  · rw [hrefs', hun]
    intro x hx
    exact (Option.some.inj hx).symm
  · rw [hun, hcf]
    simp
  · rw [hrefs', hcf, hun]
    cases callback <;> by_cases h0 : s'.refs plan = 0 <;> simp [h0]
  · rw [hcc, hcf, hun]
    cases callback <;> simp

/-- A change at one holder changes the sum by as much. -/
theorem sum_change {Q : Finset κ} {f g : κ → ℕ} {q : κ} (hq : q ∈ Q) (hne : ∀ u, u ≠ q → g u = f u) :
    ∑ u ∈ Q, g u + f q = ∑ u ∈ Q, f u + g q := by
  have hrest : ∑ u ∈ Q.erase q, g u = ∑ u ∈ Q.erase q, f u :=
    Finset.sum_congr rfl fun u hu => hne u (Finset.ne_of_mem_erase hu)
  rw [← Finset.add_sum_erase Q g hq, ← Finset.add_sum_erase Q f hq, hrest]
  omega

theorem RefInv.refs_of_owner (h : RefInv plan callback tr s) (ho : 0 < s.owner.refs) :
    s.header = some ⟨s.refs plan, plan, callback⟩ := (h.live (Nat.add_pos_left ho _)).1

theorem refinv_start (h : RefInv plan callback tr s) (he : s.owner = .owner) :
    RefInv plan callback (tr ++ [.start]) s.begin := by
  have hsome := h.refs_of_owner (by rw [he]; exact Nat.one_pos)
  have hgiven := h.given
  rw [he] at hgiven
  have hbegin := RefState.begin_of_header hsome
  dsimp only at hbegin
  by_cases hp : plan = []
  · rw [if_pos hp] at hbegin
    rw [hbegin]
    refine h.move nofun nofun rfl rfl rfl (by unfold RefState.refs; rw [he]; rfl) nofun (fun q => ?_) nofun h.holders
    have := hgiven q
    simpa [Owner.todo, hp] using this
  · rw [if_neg hp] at hbegin
    rw [hbegin]
    refine h.move nofun nofun rfl rfl rfl (by unfold RefState.refs; rw [he]; rfl) nofun (fun q => ?_) (fun todo ht => ?_)
      h.holders
    · have := hgiven q
      simpa [Owner.todo] using this
    · cases ht
      exact hp

theorem refinv_share (h : RefInv plan callback tr s) {todo : List κ} (he : s.owner = .sharing todo) :
    RefInv plan callback (tr ++ [.share]) s.share := by
  have hpos : 0 < s.refs plan := Nat.add_pos_left (by rw [he]; exact Nat.one_pos) _
  obtain ⟨hsome, hf, hc, hfr, hcb⟩ := h.live hpos
  have hlen := List.length_pos_iff.mpr (h.sharing todo he)
  obtain ⟨r, hr⟩ : ∃ r, RefState.refs plan { s with owner := .giving todo } = r := ⟨_, rfl⟩
  have hsum : s.refs plan + todo.length = r + 1 := by
    rw [← hr]
    unfold RefState.refs
    rw [he]
    simp only [Owner.refs]
    omega
  have hshare : s.share = { s with header := some ⟨r, plan, callback⟩, owner := .giving todo } := by
    unfold RefState.share
    rw [he, hsome]
    simp only [Option.map_some]
    congr 3
    omega
  have hrefs : s.share.refs plan = r := by rw [hshare]; exact hr
  have hgiven := h.given
  rw [he] at hgiven
  refine ⟨by rw [hshare]; exact nofun, fun q => ?_, by rw [hshare]; exact nofun, by rw [hshare]; exact h.holders, ?_, ?_,
    ?_, ?_⟩
  · have := hgiven q
    rw [hshare]
    simpa [Owner.todo] using this
  · rw [hrefs, hshare]
    intro x hx
    exact (Option.some.inj hx).symm
  · rw [hshare]
    simp [hf]
  · rw [hrefs, if_neg (by omega), hshare]
    simp [hf, hc, hfr]
  · rw [hshare]
    simp [hf, hc, hfr, hcb]

theorem refinv_give (h : RefInv plan callback tr s) {q : κ} {rest : List κ} (he : s.owner = .giving (q :: rest)) :
    RefInv plan callback (tr ++ [.give q]) (refcount.next s (.give q)) := by
  have hgiven := h.given
  rw [he] at hgiven
  have hq : q ∈ plan := by
    have := hgiven q
    rw [Owner.todo, List.count_cons_self] at this
    exact List.count_pos_iff.mp (by omega)
  have hnext : refcount.next s (.give q) =
      { s with owner := .giving rest, offered := Function.update s.offered q (s.offered q + 1) } := by
    show { s with owner := .giving (s.owner.todo []).tail, offered := _ } = _
    rw [he]
    rfl
  rw [hnext]
  refine h.move nofun nofun rfl rfl rfl ?_ nofun (fun u => ?_) nofun (fun u hu => ?_)
  · have hsum := sum_change (List.mem_toFinset.mpr hq) (f := fun u => s.offered u + s.held u)
      (g := fun u => Function.update s.offered q (s.offered q + 1) u + s.held u)
      fun u hu => by rw [Function.update_of_ne hu]
    simp only [Function.update_self] at hsum
    unfold RefState.refs
    rw [he]
    simp only [Owner.refs, List.length_cons]
    omega
  · have := hgiven u
    rw [Owner.todo] at this ⊢
    by_cases huq : u = q
    · subst huq
      rw [List.count_cons_self] at this
      rw [List.count_append, List.count_singleton_self]
      omega
    · have hne : RefEvent.give u ≠ RefEvent.give q := fun hg => huq (RefEvent.give.inj hg)
      rw [List.count_cons_of_ne (Ne.symm huq)] at this
      rw [List.count_append, List.count_singleton, if_neg (by simpa using Ne.symm hne)]
      exact this
  · by_cases huq : u = q
    · exact huq ▸ hq
    · dsimp only at hu
      rw [Function.update_of_ne huq] at hu
      exact h.holders u hu

theorem refinv_take (h : RefInv plan callback tr s) {q : κ} (he : 0 < s.offered q) :
    RefInv plan callback (tr ++ [.take q]) (refcount.next s (.take q)) := by
  have hq : q ∈ plan := h.holders q (by omega)
  have hsum := sum_change (List.mem_toFinset.mpr hq) (f := fun u => s.offered u + s.held u)
    (g := fun u => Function.update s.offered q (s.offered q - 1) u + Function.update s.held q (s.held q + 1) u)
    fun u hu => by rw [Function.update_of_ne hu, Function.update_of_ne hu]
  simp only [Function.update_self] at hsum
  refine h.move nofun nofun rfl rfl rfl ?_ h.allocated (fun u => ?_) h.sharing (fun u hu => ?_)
  · show s.owner.refs + ∑ u ∈ plan.toFinset,
      (Function.update s.offered q (s.offered q - 1) u + Function.update s.held q (s.held q + 1) u) = s.owner.refs + _
    omega
  · exact h.given_snoc (l := .take q) (fun _ => nofun) u
  · by_cases huq : u = q
    · exact huq ▸ hq
    · have hu' : 0 < Function.update s.offered q (s.offered q - 1) u + Function.update s.held q (s.held q + 1) u := hu
      rw [Function.update_of_ne huq, Function.update_of_ne huq] at hu'
      exact h.holders u hu'

theorem refinv_release (h : RefInv plan callback tr s) {q : κ} (he : 0 < s.held q) :
    RefInv plan callback (tr ++ [.release q]) (refcount.next s (.release q)) := by
  have hq : q ∈ plan := h.holders q (by omega)
  have hsum := sum_change (List.mem_toFinset.mpr hq) (f := fun u => s.offered u + s.held u)
    (g := fun u => s.offered u + Function.update s.held q (s.held q - 1) u)
    fun u hu => by rw [Function.update_of_ne hu]
  simp only [Function.update_self] at hsum
  refine h.unref nofun nofun rfl rfl rfl ?_ h.allocated (fun u => ?_) h.sharing (fun u hu => ?_)
  · show s.owner.refs + ∑ u ∈ plan.toFinset, (s.offered u + Function.update s.held q (s.held q - 1) u) + 1 =
      s.owner.refs + _
    omega
  · exact h.given_snoc (l := .release q) (fun _ => nofun) u
  · by_cases huq : u = q
    · exact huq ▸ hq
    · dsimp only at hu
      rw [Function.update_of_ne huq] at hu
      exact h.holders u hu

theorem refinv_drop (h : RefInv plan callback tr s) (he : s.owner = .dropping) :
    RefInv plan callback (tr ++ [.drop]) (refcount.next s .drop) := by
  have hgiven := h.given
  rw [he] at hgiven
  refine h.unref nofun nofun rfl rfl rfl ?_ nofun (fun u => ?_) nofun h.holders
  · unfold RefState.refs
    rw [he]
    simp only [Owner.refs, List.length_nil]
    omega
  · have := hgiven u
    simpa [Owner.todo] using this

theorem refinv_callback (h : RefInv plan callback tr s) (he : 0 < s.calling) :
    RefInv plan callback (tr ++ [.callback]) (refcount.next s .callback) := by
  have hended := h.ended
  have hcalled := h.called
  have hcf : (tr ++ [RefEvent.callback]).count RefEvent.free = tr.count RefEvent.free := count_snoc_ne nofun
  have hcc : (tr ++ [RefEvent.callback]).count RefEvent.callback = _ := count_snoc_self
  refine ⟨h.allocated, fun q => h.given_snoc (l := .callback) (fun _ => nofun) q, h.sharing, h.holders, h.header,
    by rw [hcf]; exact h.gone, ?_, ?_⟩
  · rw [hcf]
    show _ + (s.calling - 1) + (s.freeing + 1) = if s.refs plan = 0 then 1 else 0
    omega
  · rw [hcf, hcc]
    show _ + (s.calling - 1) = if callback then _ + (s.calling - 1) + (s.freeing + 1) else 0
    cases callback with
    | true =>
      simp only [if_true] at hcalled ⊢
      omega
    | false =>
      simp only [Bool.false_eq_true, if_false] at hcalled
      omega

theorem refinv_free (h : RefInv plan callback tr s) (he : 0 < s.freeing) :
    RefInv plan callback (tr ++ [.free]) (refcount.next s .free) := by
  have hended := h.ended
  have hcalled := h.called
  have hcf : (tr ++ [RefEvent.free]).count RefEvent.free = _ := count_snoc_self
  have hcc : (tr ++ [RefEvent.free]).count RefEvent.callback = tr.count RefEvent.callback := count_snoc_ne nofun
  refine ⟨h.allocated, fun q => h.given_snoc (l := .free) (fun _ => nofun) q, h.sharing, h.holders, nofun, ?_, ?_, ?_⟩
  · rw [hcf]
    exact ⟨fun _ => Nat.succ_pos _, fun _ => rfl⟩
  · rw [hcf]
    show _ + 1 + s.calling + (s.freeing - 1) = if s.refs plan = 0 then 1 else 0
    omega
  · rw [hcf, hcc]
    show _ + s.calling = if callback then _ + 1 + s.calling + (s.freeing - 1) else 0
    cases callback with
    | true =>
      simp only [if_true] at hcalled ⊢
      omega
    | false =>
      simp only [Bool.false_eq_true, if_false] at hcalled ⊢
      exact hcalled

/-- **One step.** -/
theorem refinv_next (h : RefInv plan callback tr s) {l : RefEvent κ} (he : refcount.enabled s l) :
    RefInv plan callback (tr ++ [l]) (refcount.next s l) := by
  cases l with
  | alloc plan' callback' => exact absurd he h.allocated
  | start => exact refinv_start h he
  | share =>
    obtain ⟨todo, he⟩ := he
    exact refinv_share h he
  | give q =>
    obtain ⟨rest, he⟩ := he
    exact refinv_give h he
  | take q => exact refinv_take h he
  | release q => exact refinv_release h he
  | drop => exact refinv_drop h he
  | callback => exact refinv_callback h he
  | free => exact refinv_free h he

theorem refinv_alloc (plan : List κ) (callback : Bool) :
    RefInv plan callback [.alloc plan callback] (refcount.next refcount.start (.alloc plan callback)) where
  allocated := nofun
  given q := by simp [refcount, Owner.todo]
  sharing := nofun
  holders q hq := absurd hq (Nat.lt_irrefl 0)
  header x hx := by
    obtain rfl := Option.some.inj hx
    simp [refcount, RefState.refs, Owner.refs]
  gone := by simp [refcount]
  ended := by simp [refcount, RefState.refs, Owner.refs]
  called := by simp [refcount]

/-- **Every run** of an object that was allocated for `plan`. -/
theorem refcount_run (h : refcount.Run tr s) (ha : .alloc plan callback ∈ tr) : RefInv plan callback tr s := by
  suffices hrun : (tr = [] ∧ s = refcount.start) ∨
      ∃ plan callback, RefInv plan callback tr s ∧ ∀ p c, .alloc p c ∈ tr → p = plan ∧ c = callback by
    rcases hrun with ⟨rfl, -⟩ | ⟨plan', callback', hinv, honly⟩
    · cases ha
    · obtain ⟨rfl, rfl⟩ := honly _ _ ha
      exact hinv
  clear ha
  induction h with
  | nil => exact Or.inl ⟨rfl, rfl⟩
  | @snoc tr s l _ he ih =>
    right
    rcases ih with ⟨rfl, rfl⟩ | ⟨plan, callback, hinv, honly⟩
    · cases l with
      | alloc plan callback =>
        refine ⟨plan, callback, refinv_alloc plan callback, fun p c hm => ?_⟩
        cases List.mem_singleton.mp hm
        exact ⟨rfl, rfl⟩
      | share => exact nomatch he
      | give q => exact nomatch he
      | start => exact nomatch he
      | drop => exact nomatch he
      | _ => exact absurd he (Nat.lt_irrefl 0)
    · refine ⟨plan, callback, refinv_next hinv he, fun p c hm => ?_⟩
      rcases List.mem_append.mp hm with hm | hm
      · exact honly p c hm
      · cases List.mem_singleton.mp hm
        exact absurd he hinv.allocated

/-- A step needs a reference, or a thread that is about to end the object. -/
theorem RefInv.enabled_cases (h : RefInv plan callback tr s) {l : RefEvent κ} (he : refcount.enabled s l) :
    0 < s.refs plan ∨ 0 < s.calling ∨ 0 < s.freeing := by
  have howner : 0 < s.owner.refs → 0 < s.refs plan := fun ho => Nat.add_pos_left ho _
  have hholder : ∀ q, 0 < s.offered q + s.held q → 0 < s.refs plan := by
    intro q hq
    have hmem : q ∈ plan.toFinset := List.mem_toFinset.mpr (h.holders q hq)
    have hle := Finset.single_le_sum (f := fun q => s.offered q + s.held q) (fun _ _ => Nat.zero_le _) hmem
    have hle' : s.offered q + s.held q ≤ ∑ q ∈ plan.toFinset, (s.offered q + s.held q) := hle
    unfold RefState.refs
    omega
  cases l with
  | alloc plan' callback' => exact absurd he h.allocated
  | start =>
    have he' : s.owner = .owner := he
    exact Or.inl (howner (by rw [he']; exact Nat.one_pos))
  | share =>
    obtain ⟨todo, he'⟩ := he
    exact Or.inl (howner (by rw [he']; exact Nat.one_pos))
  | give q =>
    obtain ⟨rest, he'⟩ := he
    exact Or.inl (howner (by rw [he']; exact Nat.succ_pos _))
  | take q =>
    have he' : 0 < s.offered q := he
    exact Or.inl (hholder q (by omega))
  | release q =>
    have he' : 0 < s.held q := he
    exact Or.inl (hholder q (by omega))
  | drop =>
    have he' : s.owner = .dropping := he
    exact Or.inl (howner (by rw [he']; exact Nat.one_pos))
  | callback => exact Or.inr (Or.inl he)
  | free => exact Or.inr (Or.inr he)

/-- **Nothing happens to an object that was freed.** -/
theorem RefInv.over (h : RefInv plan callback tr s) (hf : 0 < tr.count .free) (l : RefEvent κ) :
    ¬ refcount.enabled s l := by
  intro he
  have hended := h.ended
  rcases h.enabled_cases he with hr | hr | hr
  · have := (h.live hr).2.1
    omega
  · split at hended <;> omega
  · split at hended <;> omega

end

end Monolinux
