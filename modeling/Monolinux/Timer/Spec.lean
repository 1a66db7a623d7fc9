import Monolinux.Timer.Handler

/-!
# What the operations do to the times left

`remaining h t` is the time left for `t`: the sum of the deltas from the head of
the list up to `t`.  Each operation of the code has one lemma here that gives its
result and the times after it:

  walks along the list     (`insertWalk_spec`, `removeWalk_spec`)
  start and stop           (`mlTimerHandlerTimerStart_spec`, `mlTimerHandlerTimerStop_remaining`)
  the loop of `tick`       (`fireExpired_spec`, by induction on the timers that are due)
  `tick`                   (`tick_spec`)

`Ok` holds at all times and `Ready` between ticks.  No delta wraps: every time left
is at most `maxTicks`, so a sum of deltas stays far below `2 ^ 32`, and the walks
subtract only what is there.
-/

namespace Monolinux

open DeltaList hiding insert remove

variable {τ : Type*} [DecidableEq τ]

/-- The delta list that the chain `l` stands for. -/
def deltasOf (timer : τ → Timer) (l : List τ) : List (τ × ℕ) := l.map fun t => (t, (timer t).delta.toNat)

/-- `f'` is `f` up to deltas. -/
def SameRest (f f' : τ → Timer) : Prop := ∀ t, f' t = { f t with delta := (f' t).delta }

theorem setDelta_self (f : τ → Timer) (t : τ) (d : UInt32) : (setDelta f t d t).delta = d := by
  simp [setDelta]

theorem setDelta_of_ne (f : τ → Timer) {t u : τ} (h : u ≠ t) (d : UInt32) : setDelta f t d u = f u :=
  Function.update_of_ne h _ _

omit [DecidableEq τ] in
theorem SameRest.refl (f : τ → Timer) : SameRest f f := fun _ => rfl

omit [DecidableEq τ] in
theorem SameRest.trans {f g h : τ → Timer} (hfg : SameRest f g) (hgh : SameRest g h) : SameRest f h := by
  intro t
  rw [hgh t, hfg t]

theorem sameRest_setDelta (f : τ → Timer) (t : τ) (d : UInt32) : SameRest f (setDelta f t d) := by
  intro u
  by_cases h : u = t
  · subst h; simp [setDelta]
  · rw [setDelta_of_ne f h]

theorem deltasOf_setDelta {f : τ → Timer} {t : τ} {l : List τ} (h : t ∉ l) (d : UInt32) :
    deltasOf (setDelta f t d) l = deltasOf f l := by
  apply List.map_congr_left
  intro u hu
  have hne : u ≠ t := fun he => h (he ▸ hu)
  rw [setDelta_of_ne f hne]

omit [DecidableEq τ] in
theorem keys_deltasOf (f : τ → Timer) (l : List τ) : keys (deltasOf f l) = l := by
  unfold keys deltasOf
  rw [List.map_map]
  exact List.map_id l

/-! ## The walks -/

/-- **Insertion in the chain is insertion in the delta list.** -/
theorem insertWalk_spec {tailDelta : UInt32} {t : τ} {f : τ → Timer} {l : List τ} (ht : t ∉ l) (hn : l.Nodup)
    (htail : (f t).delta ≤ tailDelta) :
    ∃ l' f', insertWalk tailDelta t f l = some (l', f') ∧
      deltasOf f' l' = DeltaList.insert t (f t).delta.toNat (deltasOf f l) ∧ SameRest f f' ∧
      ∀ u, u ≠ t → u ∉ l → f' u = f u := by
  induction l generalizing f with
  | nil =>
    refine ⟨[t], f, ?_, rfl, SameRest.refl f, fun _ _ _ => rfl⟩
    unfold insertWalk
    rw [if_neg (by rw [UInt32.not_lt]; exact htail)]
  | cons e rest ih =>
    have hne : t ≠ e := fun h => ht (h ▸ List.mem_cons_self)
    have htr : t ∉ rest := fun h => ht (List.mem_cons_of_mem _ h)
    obtain ⟨her, hnr⟩ := List.nodup_cons.mp hn
    unfold insertWalk
    by_cases hlt : (f e).delta < (f t).delta
    · rw [if_pos hlt]
      have hle : (f e).delta ≤ (f t).delta := UInt32.le_of_lt hlt
      have hsub : ((f t).delta - (f e).delta).toNat = (f t).delta.toNat - (f e).delta.toNat :=
        UInt32.toNat_sub_of_le _ _ hle
      obtain ⟨l', f', h1, h2, h3, h4⟩ := ih (f := setDelta f t ((f t).delta - (f e).delta)) htr hnr (by
        rw [setDelta_self, UInt32.le_iff_toNat_le, hsub]
        have := UInt32.le_iff_toNat_le.mp htail
        omega)
      have hfe : f' e = f e := by rw [h4 e (Ne.symm hne) her, setDelta_of_ne f (Ne.symm hne)]
      refine ⟨e :: l', f', by rw [h1]; rfl, ?_, (sameRest_setDelta f t _).trans h3, fun u hu hul => ?_⟩
      · have hlt' := UInt32.lt_iff_toNat_lt.mp hlt
        show (e, (f' e).delta.toNat) :: deltasOf f' l' = DeltaList.insert t _ ((e, (f e).delta.toNat) :: deltasOf f rest)
        rw [h2, setDelta_self, hsub, deltasOf_setDelta htr, hfe, DeltaList.insert, if_pos hlt']
      · rw [h4 u hu (fun h => hul (List.mem_cons_of_mem _ h)), setDelta_of_ne f hu]
    · rw [if_neg hlt]
      have hle : (f t).delta ≤ (f e).delta := UInt32.not_lt.mp hlt
      have hsub : ((f e).delta - (f t).delta).toNat = (f e).delta.toNat - (f t).delta.toNat :=
        UInt32.toNat_sub_of_le _ _ hle
      refine ⟨_, _, rfl, ?_, sameRest_setDelta f e _, fun u _ hul => ?_⟩
      · have hlt' : ¬ (f e).delta.toNat < (f t).delta.toNat := by
          rw [← UInt32.lt_iff_toNat_lt]; exact hlt
        show (t, _) :: (e, _) :: deltasOf _ rest = DeltaList.insert t _ ((e, (f e).delta.toNat) :: deltasOf f rest)
        rw [DeltaList.insert, if_neg hlt', setDelta_of_ne f hne, setDelta_self, hsub, deltasOf_setDelta her]
      · exact setDelta_of_ne f (fun h => hul (by rw [h]; exact List.mem_cons_self)) _

/-- **Removal from the chain is removal from the delta list**, if no time reaches `2 ^ 32`. -/
theorem removeWalk_spec {t : τ} {f : τ → Timer} {l : List τ} (hn : l.Nodup)
    (hlt : ∀ u r, due (deltasOf f l) u = some r → r < 2 ^ 32) :
    deltasOf (removeWalk t f l).2 (removeWalk t f l).1 = DeltaList.remove t (deltasOf f l) ∧
      SameRest f (removeWalk t f l).2 ∧ ∀ u, u ∉ l → (removeWalk t f l).2 u = f u := by
  induction l with
  | nil => exact ⟨rfl, SameRest.refl f, fun _ _ => rfl⟩
  | cons e rest ih =>
    obtain ⟨her, hnr⟩ := List.nodup_cons.mp hn
    have hrest : ∀ u r, due (deltasOf f rest) u = some r → r < 2 ^ 32 := by
      intro u r hr
      have hu : u ≠ e := by
        rintro rfl
        have := mem_keys_of_due hr
        rw [keys_deltasOf] at this
        exact her this
      have := hlt u ((f e).delta.toNat + r) (by
        show due ((e, _) :: deltasOf f rest) u = _
        rw [due, if_neg (Ne.symm hu), hr]
        rfl)
      omega
    unfold removeWalk
    by_cases he : e = t
    · rw [if_pos he]
      subst he
      cases rest with
      | nil =>
        refine ⟨?_, SameRest.refl f, fun _ _ => rfl⟩
        show [] = DeltaList.remove e [(e, _)]
        simp [DeltaList.remove, addHead]
      | cons n rest' =>
        obtain ⟨hnr', -⟩ := List.nodup_cons.mp hnr
        have hsum := hlt n ((f e).delta.toNat + (f n).delta.toNat) (by
          show due ((e, _) :: (n, _) :: deltasOf f rest') n = _
          have : e ≠ n := fun h => her (h ▸ List.mem_cons_self)
          simp [due, this])
        have hadd : ((f n).delta + (f e).delta).toNat = (f n).delta.toNat + (f e).delta.toNat := by
          rw [UInt32.toNat_add]
          exact Nat.mod_eq_of_lt (by omega)
        refine ⟨?_, sameRest_setDelta f n _, fun u hu => ?_⟩
        · show (n, _) :: deltasOf _ rest' = DeltaList.remove e ((e, _) :: (n, _) :: deltasOf f rest')
          rw [setDelta_self, hadd, deltasOf_setDelta hnr']
          simp [DeltaList.remove, addHead]
        · exact setDelta_of_ne f (fun h => hu (by simp [h])) _
    · rw [if_neg he]
      obtain ⟨h1, h2, h3⟩ := ih hnr hrest
      refine ⟨?_, h2, fun u hu => h3 u fun hm => hu (List.mem_cons_of_mem _ hm)⟩
      show (e, _) :: deltasOf _ _ = DeltaList.remove t ((e, _) :: deltasOf f rest)
      rw [DeltaList.remove, if_neg he, h1, h3 e her]

/-! ## The operations between ticks -/

namespace TimerHandler

/-- The delta list of the active timers. -/
def deltas (h : TimerHandler τ) : List (τ × ℕ) := deltasOf h.timer h.list

/-- Ticks left for `t`, if it is active: the sum of the deltas from the head up to `t`. -/
def remaining (h : TimerHandler τ) (t : τ) : Option ℕ := due h.deltas t

end TimerHandler

/-- The most ticks a timer is started or re-set with. -/
def maxTicks : ℕ := 42949673

/-- Holds at all times, also while a tick fires timers. -/
structure TimerHandler.Ok (h : TimerHandler τ) : Prop where
  nodup : h.list.Nodup
  tail : h.tailDelta = 0xffffffff
  due_le : ∀ t r, h.remaining t = some r → r ≤ maxTicks
  repeat_le : ∀ t ∈ h.list, (h.timer t).repeatTicks.toNat ≤ maxTicks

/-- Holds between ticks. -/
structure TimerHandler.Ready (h : TimerHandler τ) : Prop extends h.Ok where
  head_pos : HeadPos h.deltas

theorem mlTimerHandlerInit_ready (mem : τ → Timer) : (TimerHandler.mlTimerHandlerInit mem).Ready where
  nodup := List.nodup_nil
  tail := rfl
  due_le _ _ hr := nomatch hr
  repeat_le _ ht := absurd ht List.not_mem_nil
  head_pos := trivial

section
variable {f f' : τ → Timer}

omit [DecidableEq τ]

theorem SameRest.repeatTicks (h : SameRest f f') (t : τ) : (f' t).repeatTicks = (f t).repeatTicks := by rw [h t]

theorem SameRest.outstanding (h : SameRest f f') (t : τ) :
    (f' t).numberOfOutstandingTimeouts = (f t).numberOfOutstandingTimeouts := by rw [h t]

theorem SameRest.toIgnore (h : SameRest f f') (t : τ) :
    (f' t).numberOfTimeoutsToIgnore = (f t).numberOfTimeoutsToIgnore := by rw [h t]

theorem deltasOf_congr {l : List τ} (h : ∀ t ∈ l, (f' t).delta = (f t).delta) : deltasOf f' l = deltasOf f l :=
  List.map_congr_left fun t ht => by rw [h t ht]

end

omit [DecidableEq τ] in
theorem keys_deltas (h : TimerHandler τ) : keys h.deltas = h.list := keys_deltasOf h.timer h.list

theorem mem_list_iff {h : TimerHandler τ} {t : τ} : t ∈ h.list ↔ ∃ r, h.remaining t = some r := by
  rw [← keys_deltas]
  constructor
  · intro ht
    cases hr : due h.deltas t with
    | none => exact absurd ht (due_eq_none.mp hr)
    | some r => exact ⟨r, hr⟩
  · rintro ⟨r, hr⟩
    exact mem_keys_of_due hr

theorem timerListInsert_spec {h : TimerHandler τ} (hok : h.Ok) {t : τ} (ht : t ∉ h.list)
    (hd : (h.timer t).delta.toNat ≤ maxTicks) (hrep : (h.timer t).repeatTicks.toNat ≤ maxTicks) :
    ∃ h', h.timerListInsert t = some h' ∧ h'.Ok ∧ SameRest h.timer h'.timer ∧
      h'.deltas = DeltaList.insert t (h.timer t).delta.toNat h.deltas := by
  have htail : (h.timer t).delta ≤ h.tailDelta := by
    rw [hok.tail, UInt32.le_iff_toNat_le]
    exact Nat.le_trans hd (by decide)
  obtain ⟨l', f', h1, h2, h3, -⟩ := insertWalk_spec ht hok.nodup htail
  refine ⟨⟨l', h.tailDelta, f'⟩, by unfold TimerHandler.timerListInsert; rw [h1]; rfl, ?_, h3, h2⟩
  have hkeys : l' = keys (DeltaList.insert t (h.timer t).delta.toNat h.deltas) := by
    rw [← keys_deltasOf f' l', h2]
    rfl
  refine ⟨?_, hok.tail, fun u r hr => ?_, fun u hu => ?_⟩
  · show l'.Nodup
    rw [hkeys]
    exact nodup_insert (by rw [keys_deltas]; exact hok.nodup) (by rw [keys_deltas]; exact ht)
  · have hr' : due (DeltaList.insert t (h.timer t).delta.toNat h.deltas) u = some r := h2 ▸ hr
    by_cases hut : u = t
    · subst hut
      rw [due_insert_self (by rw [keys_deltas]; exact ht)] at hr'
      obtain rfl := Option.some.inj hr'
      exact hd
    · rw [due_insert_of_ne hut] at hr'
      exact hok.due_le u r hr'
  · show (f' u).repeatTicks.toNat ≤ maxTicks
    rw [h3.repeatTicks]
    have hu' : u ∈ l' := hu
    rw [hkeys, mem_keys_insert, keys_deltas] at hu'
    rcases hu' with rfl | hu'
    · exact hrep
    · exact hok.repeat_le u hu'

theorem timerListRemove_spec {h : TimerHandler τ} (hok : h.Ok) (t : τ) :
    (h.timerListRemove t).Ok ∧ SameRest h.timer (h.timerListRemove t).timer ∧
      (h.timerListRemove t).deltas = DeltaList.remove t h.deltas := by
  have hbound : ∀ u r, due (deltasOf h.timer h.list) u = some r → r < 2 ^ 32 := by
    intro u r hr
    exact Nat.lt_of_le_of_lt (hok.due_le u r hr) (by decide)
  obtain ⟨h1, h2, -⟩ := removeWalk_spec (t := t) hok.nodup hbound
  have hkeys : (h.timerListRemove t).list = h.list.erase t := by
    have hk : keys (h.timerListRemove t).deltas = keys (DeltaList.remove t h.deltas) := congrArg keys h1
    rwa [keys_remove, keys_deltas, keys_deltas] at hk
  refine ⟨⟨?_, hok.tail, fun u r hr => ?_, fun u hu => ?_⟩, h2, h1⟩
  · rw [hkeys]
    exact hok.nodup.erase t
  · have hr' : due (DeltaList.remove t h.deltas) u = some r := h1 ▸ hr
    by_cases hut : u = t
    · subst hut
      have hn : (keys h.deltas).Nodup := by rw [keys_deltas]; exact hok.nodup
      rw [due_remove_self hn] at hr'
      cases hr'
    · rw [due_remove_of_ne hut] at hr'
      exact hok.due_le u r hr'
  · rw [hkeys] at hu
    have hs : SameRest h.timer (h.timerListRemove t).timer := h2
    rw [hs.repeatTicks]
    exact hok.repeat_le u (List.mem_of_mem_erase hu)

/-- Ticks in `ms` milliseconds, as `ml_timer_handler_timer_start` computes them. -/
def ticks (ms : UInt32) : ℕ := (divCeil ms 100).toNat

theorem ticks_lt (ms : UInt32) : ticks ms < maxTicks := by
  unfold ticks divCeil maxTicks
  rw [UInt32.toNat_div, show (100 : UInt32).toNat = 100 from rfl]
  have hlt := (ms + 100 - 1).toNat_lt
  omega

theorem toNat_ticks_succ (ms : UInt32) : (divCeil ms 100 + 1).toNat = ticks ms + 1 := by
  have hlt := ticks_lt ms
  unfold maxTicks at hlt
  rw [UInt32.toNat_add]
  exact Nat.mod_eq_of_lt (by show ticks ms + 1 < _; omega)

/-- A change of records that the list does not look at. -/
theorem TimerHandler.Ok.congr {h : TimerHandler τ} (hok : h.Ok) {f : τ → Timer}
    (hd : ∀ u ∈ h.list, (f u).delta = (h.timer u).delta)
    (hr : ∀ u ∈ h.list, (f u).repeatTicks = (h.timer u).repeatTicks) :
    TimerHandler.Ok { h with timer := f } ∧ TimerHandler.deltas { h with timer := f } = h.deltas := by
  have hdel : TimerHandler.deltas { h with timer := f } = h.deltas := deltasOf_congr hd
  refine ⟨⟨hok.nodup, hok.tail, fun u r hu => ?_, fun u hu => ?_⟩, hdel⟩
  · unfold TimerHandler.remaining at hu
    rw [hdel] at hu
    exact hok.due_le u r hu
  · show (f u).repeatTicks.toNat ≤ maxTicks
    rw [hr u hu]
    exact hok.repeat_le u hu

/-- The record of `t` when `ml_timer_handler_timer_stop` has set its counter. -/
def stopped (f : τ → Timer) (t : τ) : τ → Timer :=
  Function.update f t { f t with numberOfTimeoutsToIgnore := (f t).numberOfOutstandingTimeouts }

theorem mlTimerHandlerTimerStop_spec {h : TimerHandler τ} (hok : h.Ok) (t : τ) :
    (h.mlTimerHandlerTimerStop t).Ok ∧ SameRest (stopped h.timer t) (h.mlTimerHandlerTimerStop t).timer ∧
      (h.mlTimerHandlerTimerStop t).deltas = DeltaList.remove t h.deltas := by
  have hsame : ∀ u, (stopped h.timer t u).delta = (h.timer u).delta ∧
      (stopped h.timer t u).repeatTicks = (h.timer u).repeatTicks := by
    intro u
    by_cases hu : u = t
    · subst hu; simp [stopped]
    · simp [stopped, hu]
  obtain ⟨hok', hdel⟩ := hok.congr (fun u _ => (hsame u).1) (fun u _ => (hsame u).2)
  obtain ⟨h1, h2, h3⟩ := timerListRemove_spec hok' t
  rw [hdel] at h3
  exact ⟨h1, h2, h3⟩

theorem not_mem_stop {h : TimerHandler τ} (hok : h.Ok) (t : τ) : t ∉ (h.mlTimerHandlerTimerStop t).list := by
  intro ht
  obtain ⟨r, hr⟩ := mem_list_iff.mp ht
  unfold TimerHandler.remaining at hr
  rw [(mlTimerHandlerTimerStop_spec hok t).2.2, due_remove_self] at hr
  · cases hr
  · rw [keys_deltas]
    exact hok.nodup

/-- The record of `t` when `ml_timer_handler_timer_start` has set its ticks. -/
def started (f : τ → Timer) (t : τ) (initial rep : UInt32) : τ → Timer :=
  Function.update f t
    { f t with
      initialTicks := divCeil initial 100
      repeatTicks := divCeil rep 100
      delta := divCeil initial 100 + 1 }

theorem insertStarted_spec {h : TimerHandler τ} (hok : h.Ok) {t : τ} (ht : t ∉ h.list) (initial rep : UInt32) :
    ∃ h', h.insertStarted t initial rep = some h' ∧ h'.Ok ∧ SameRest (started h.timer t initial rep) h'.timer ∧
      h'.deltas = DeltaList.insert t (ticks initial + 1) h.deltas := by
  have hother : ∀ u ∈ h.list, started h.timer t initial rep u = h.timer u := by
    intro u hu
    have hne : u ≠ t := fun he => ht (he ▸ hu)
    exact Function.update_of_ne hne _ _
  have hself : started h.timer t initial rep t = _ := Function.update_self _ _ _
  obtain ⟨hok', hdel⟩ := hok.congr (f := started h.timer t initial rep)
    (fun u hu => by rw [hother u hu]) (fun u hu => by rw [hother u hu])
  obtain ⟨h', h1, h2, h3, h4⟩ := timerListInsert_spec hok' (t := t) ht
    (by
      show (started h.timer t initial rep t).delta.toNat ≤ maxTicks
      rw [hself, toNat_ticks_succ]
      exact ticks_lt initial)
    (by
      show (started h.timer t initial rep t).repeatTicks.toNat ≤ maxTicks
      rw [hself]
      exact Nat.le_of_lt (ticks_lt rep))
  refine ⟨h', h1, h2, h3, ?_⟩
  rw [h4, hdel]
  show DeltaList.insert t (started h.timer t initial rep t).delta.toNat _ = _
  rw [hself, toNat_ticks_succ]

theorem mlTimerHandlerTimerStop_remaining {h : TimerHandler τ} (hr : h.Ready) (t : τ) :
    (h.mlTimerHandlerTimerStop t).Ready ∧
      (∀ u, ((h.mlTimerHandlerTimerStop t).timer u).repeatTicks = (h.timer u).repeatTicks) ∧
      (h.mlTimerHandlerTimerStop t).remaining = Function.update h.remaining t none := by
  obtain ⟨hok, hsame, hdel⟩ := mlTimerHandlerTimerStop_spec hr.toOk t
  refine ⟨⟨hok, by rw [hdel]; exact hr.head_pos.remove⟩, fun u => ?_, ?_⟩
  · rw [hsame.repeatTicks u]
    by_cases hu : u = t
    · subst hu; simp [stopped]
    · simp [stopped, hu]
  · ext1 u
    by_cases hu : u = t
    · subst hu
      rw [Function.update_self]
      cases hrem : (h.mlTimerHandlerTimerStop u).remaining u with
      | none => rfl
      | some r => exact absurd (mem_list_iff.mpr ⟨r, hrem⟩) (not_mem_stop hr.toOk u)
    · rw [Function.update_of_ne hu]
      unfold TimerHandler.remaining
      rw [hdel, due_remove_of_ne hu]

theorem mlTimerHandlerTimerStart_spec {h : TimerHandler τ} (hr : h.Ready) (t : τ) (initial rep : UInt32) :
    ∃ h', h.mlTimerHandlerTimerStart t initial rep = some h' ∧ h'.Ready ∧
      (h'.timer t).repeatTicks = divCeil rep 100 ∧
      (∀ u, u ≠ t → (h'.timer u).repeatTicks = (h.timer u).repeatTicks) ∧
      h'.remaining = Function.update h.remaining t (some (ticks initial + 1)) := by
  obtain ⟨hready, hrep, hrem⟩ := mlTimerHandlerTimerStop_remaining hr t
  have hnot := not_mem_stop hr.toOk t
  obtain ⟨h', h1, hok', hsame, hdel⟩ := insertStarted_spec hready.toOk hnot initial rep
  refine ⟨h', h1, ⟨hok', by rw [hdel]; exact hready.head_pos.insert (Nat.succ_pos _)⟩, ?_, fun u hu => ?_, ?_⟩
  · rw [hsame.repeatTicks]
    simp [started]
  · rw [hsame.repeatTicks, ← hrep u]
    simp [started, hu]
  · ext1 u
    unfold TimerHandler.remaining
    rw [hdel]
    by_cases hu : u = t
    · subst hu
      rw [Function.update_self, due_insert_self]
      rw [keys_deltas]
      exact hnot
    · rw [Function.update_of_ne hu, due_insert_of_ne hu]
      show (h.mlTimerHandlerTimerStop t).remaining u = _
      rw [hrem, Function.update_of_ne hu]
      rfl

/-! ## A tick -/

/-- The time a timer gets when it has fired, by its `repeat_ticks`. -/
def reload (rep : UInt32) : Option ℕ := if 0 < rep then some rep.toNat else none

theorem reload_ne_zero (rep : UInt32) : reload rep ≠ some 0 := by
  unfold reload
  split
  · next h =>
    intro h0
    have := UInt32.lt_iff_toNat_lt.mp h
    rw [Option.some.inj h0] at this
    exact absurd this (by decide)
  · exact nofun

theorem decrementHead_nil {h : TimerHandler τ} (hl : h.list = []) : h.decrementHead = h := by
  unfold TimerHandler.decrementHead
  rw [hl]

theorem decrementHead_spec {h : TimerHandler τ} (hr : h.Ready) :
    h.decrementHead.Ok ∧ SameRest h.timer h.decrementHead.timer ∧ h.decrementHead.list = h.list ∧
      ∀ t, h.decrementHead.remaining t = (h.remaining t).map (· - 1) := by
  obtain ⟨hok, hpos⟩ := hr
  cases hl : h.list with
  | nil =>
    have hsame := decrementHead_nil hl
    have hnone : ∀ t, h.remaining t = none := by
      intro t
      unfold TimerHandler.remaining TimerHandler.deltas
      rw [hl]
      rfl
    rw [hsame]
    exact ⟨hok, SameRest.refl _, hl, fun t => by rw [hnone t]; rfl⟩
  | cons e rest =>
    have hdec : h.decrementHead = { h with timer := setDelta h.timer e ((h.timer e).delta - 1) } := by
      unfold TimerHandler.decrementHead
      rw [hl]
    have her : e ∉ rest := by
      have := hok.nodup
      rw [hl] at this
      exact (List.nodup_cons.mp this).1
    have hcons : h.deltas = (e, (h.timer e).delta.toNat) :: deltasOf h.timer rest := by
      unfold TimerHandler.deltas
      rw [hl]
      rfl
    have hone : 0 < (h.timer e).delta.toNat := by
      rw [hcons] at hpos
      exact hpos
    have hsub : ((h.timer e).delta - 1).toNat = (h.timer e).delta.toNat - 1 :=
      UInt32.toNat_sub_of_le _ _ hone
    have hrest : SameRest h.timer h.decrementHead.timer := by
      rw [hdec]
      exact sameRest_setDelta _ _ _
    have hlist : h.decrementHead.list = h.list := by rw [hdec]
    have hdel : h.decrementHead.deltas = decHead h.deltas := by
      rw [hcons, hdec]
      unfold TimerHandler.deltas
      rw [hl]
      show (e, (setDelta h.timer e _ e).delta.toNat) :: deltasOf _ rest = (e, _ - 1) :: _
      rw [setDelta_self, hsub, deltasOf_setDelta her]
    have hrem : ∀ t, h.decrementHead.remaining t = (h.remaining t).map (· - 1) := by
      intro t
      unfold TimerHandler.remaining
      rw [hdel]
      exact due_decHead hpos t
    refine ⟨⟨by rw [hlist]; exact hok.nodup, by rw [hdec]; exact hok.tail, fun t r ht => ?_, fun t ht => ?_⟩,
      hrest, by rw [hlist, hl], hrem⟩
    · rw [hrem] at ht
      obtain ⟨r', hr', rfl⟩ := Option.map_eq_some_iff.mp ht
      have := hok.due_le t r' hr'
      omega
    · rw [hlist] at ht
      rw [hrest.repeatTicks]
      exact hok.repeat_le t ht

/-- The record of `e` when its message is on the way. -/
def expired (f : τ → Timer) (e : τ) : τ → Timer :=
  Function.update f e { f e with numberOfOutstandingTimeouts := (f e).numberOfOutstandingTimeouts + 1 }

theorem expire_spec {h : TimerHandler τ} (hok : h.Ok) {e : τ} {rest : List τ} (hl : h.list = e :: rest)
    (h0 : (h.timer e).delta = 0) :
    (h.expire e).Ok ∧ e ∉ (h.expire e).list ∧ (h.expire e).timer = expired h.timer e ∧
      h.remaining e = some 0 ∧ zeros (h.expire e).deltas + 1 = zeros h.deltas ∧
      ∀ t, t ≠ e → (h.expire e).remaining t = h.remaining t := by
  have hn := hok.nodup
  rw [hl] at hn
  obtain ⟨her, hnr⟩ := List.nodup_cons.mp hn
  have hlist : (h.expire e).list = rest := by
    unfold TimerHandler.expire
    rw [hl]
    rfl
  have hsame : ∀ t ∈ rest, expired h.timer e t = h.timer t := by
    intro t ht
    have hne : t ≠ e := fun he => her (he ▸ ht)
    exact Function.update_of_ne hne _ _
  have hdel : (h.expire e).deltas = deltasOf h.timer rest := by
    unfold TimerHandler.deltas
    rw [hlist]
    exact deltasOf_congr fun t ht => by rw [show (h.expire e).timer t = expired h.timer e t from rfl, hsame t ht]
  have hcons : h.deltas = (e, 0) :: (h.expire e).deltas := by
    rw [hdel]
    unfold TimerHandler.deltas
    rw [hl]
    show (e, (h.timer e).delta.toNat) :: _ = _
    rw [h0]
    rfl
  have hrem : ∀ t, t ≠ e → (h.expire e).remaining t = h.remaining t := by
    intro t ht
    unfold TimerHandler.remaining
    rw [hcons, due_drop_of_ne ht]
  refine ⟨⟨by rw [hlist]; exact hnr, hok.tail, fun t r ht => ?_, fun t ht => ?_⟩, by rw [hlist]; exact her, rfl, ?_, ?_,
    hrem⟩
  · have hte : t ≠ e := by
      rintro rfl
      exact her (hlist ▸ mem_list_iff.mpr ⟨r, ht⟩)
    rw [hrem t hte] at ht
    exact hok.due_le t r ht
  · rw [hlist] at ht
    show (expired h.timer e t).repeatTicks.toNat ≤ maxTicks
    rw [hsame t ht]
    exact hok.repeat_le t (by rw [hl]; exact List.mem_cons_of_mem _ ht)
  · unfold TimerHandler.remaining
    rw [hcons, due_head]
  · rw [hcons, zeros, if_pos rfl]

theorem resetPeriodic_spec {h : TimerHandler τ} (hok : h.Ok) {e : τ} (he : e ∉ h.list)
    (hrep : (h.timer e).repeatTicks.toNat ≤ maxTicks) :
    ∃ h', h.resetPeriodic e = some h' ∧ h'.Ok ∧ SameRest h.timer h'.timer ∧ zeros h'.deltas = zeros h.deltas ∧
      h'.remaining e = reload (h.timer e).repeatTicks ∧ ∀ t, t ≠ e → h'.remaining t = h.remaining t := by
  unfold TimerHandler.resetPeriodic reload
  by_cases hpos : 0 < (h.timer e).repeatTicks
  · rw [if_pos hpos, if_pos hpos]
    have hother : ∀ u ∈ h.list, setDelta h.timer e (h.timer e).repeatTicks u = h.timer u := by
      intro u hu
      have hne : u ≠ e := fun hue => he (hue ▸ hu)
      exact setDelta_of_ne _ hne _
    obtain ⟨hok', hdel⟩ := hok.congr (f := setDelta h.timer e (h.timer e).repeatTicks)
      (fun u hu => by rw [hother u hu]) (fun u hu => by rw [hother u hu])
    have hdelta := setDelta_self h.timer e (h.timer e).repeatTicks
    obtain ⟨h', h1, h2, h3, h4⟩ := timerListInsert_spec hok' (t := e) he
      (by show (setDelta h.timer e (h.timer e).repeatTicks e).delta.toNat ≤ _; rw [hdelta]; exact hrep)
      (by
        show (setDelta h.timer e (h.timer e).repeatTicks e).repeatTicks.toNat ≤ _
        rw [(sameRest_setDelta h.timer e _).repeatTicks]
        exact hrep)
    have h4' : h'.deltas = DeltaList.insert e (h.timer e).repeatTicks.toNat h.deltas := by
      rw [h4, hdel]
      show DeltaList.insert e (setDelta h.timer e (h.timer e).repeatTicks e).delta.toNat _ = _
      rw [hdelta]
    have hkeys : e ∉ keys h.deltas := by rw [keys_deltas]; exact he
    refine ⟨h', h1, h2, (sameRest_setDelta _ _ _).trans h3, ?_, ?_, fun t ht => ?_⟩
    · rw [h4', zeros_insert e (UInt32.lt_iff_toNat_lt.mp hpos)]
    · unfold TimerHandler.remaining
      rw [h4', due_insert_self hkeys]
    · unfold TimerHandler.remaining
      rw [h4', due_insert_of_ne ht]
  · rw [if_neg hpos, if_neg hpos]
    refine ⟨h, rfl, hok, SameRest.refl _, rfl, ?_, fun _ _ => rfl⟩
    cases hr : h.remaining e with
    | none => rfl
    | some r => exact absurd (mem_list_iff.mpr ⟨r, hr⟩) he

omit [DecidableEq τ] in
theorem deltas_cons {h : TimerHandler τ} {e : τ} {rest : List τ} (hl : h.list = e :: rest) :
    h.deltas = (e, (h.timer e).delta.toNat) :: deltasOf h.timer rest := by
  unfold TimerHandler.deltas
  rw [hl]
  rfl

omit [DecidableEq τ] in
/-- Between ticks, the head's delta is at least one; else the head is due now. -/
theorem headPos_iff {h : TimerHandler τ} :
    HeadPos h.deltas ↔ ∀ e rest, h.list = e :: rest → 0 < (h.timer e).delta := by
  cases hl : h.list with
  | nil =>
    unfold TimerHandler.deltas
    rw [hl]
    exact ⟨fun _ => nofun, fun _ => trivial⟩
  | cons e rest =>
    rw [deltas_cons hl]
    constructor
    · intro hpos e' rest' he
      obtain ⟨rfl, -⟩ := List.cons.inj he
      exact UInt32.lt_iff_toNat_lt.mpr hpos
    · intro hpos
      exact UInt32.lt_iff_toNat_lt.mp (hpos e rest rfl)

omit [DecidableEq τ] in
theorem head_zero {h : TimerHandler τ} (hpos : ¬ HeadPos h.deltas) :
    ∃ e rest, h.list = e :: rest ∧ (h.timer e).delta = 0 := by
  rw [headPos_iff] at hpos
  push Not at hpos
  obtain ⟨e, rest, hl, h0⟩ := hpos
  exact ⟨e, rest, hl, UInt32.le_zero_iff.mp (UInt32.not_lt.mp h0)⟩

theorem fireExpired_done {h : TimerHandler τ} (htail : h.tailDelta ≠ 0) (hpos : HeadPos h.deltas) (fuel : ℕ) :
    TimerHandler.fireExpired fuel h = some ([], h) := by
  unfold TimerHandler.fireExpired
  cases hl : h.list with
  | nil => exact if_neg htail
  | cons e rest =>
    have hne : (h.timer e).delta ≠ 0 := (UInt32.pos_iff_ne_zero).mp (headPos_iff.mp hpos e rest hl)
    exact if_neg hne

theorem fireExpired_cons {h : TimerHandler τ} {e : τ} {rest : List τ} (hl : h.list = e :: rest)
    (h0 : (h.timer e).delta = 0) (fuel : ℕ) :
    TimerHandler.fireExpired (fuel + 1) h = ((h.expire e).resetPeriodic e).bind fun h' =>
      (TimerHandler.fireExpired fuel h').map fun r => (e :: r.1, r.2) := by
  conv_lhs => unfold TimerHandler.fireExpired
  rw [hl]
  exact if_pos h0

/-- What the loop leaves behind: the timers in `fs` have fired. -/
structure Fired (h : TimerHandler τ) (fs : List τ) (h' : TimerHandler τ) : Prop where
  ready : h'.Ready
  nodup : fs.Nodup
  mem : ∀ t, t ∈ fs ↔ h.remaining t = some 0
  remaining : ∀ t, h'.remaining t =
    if h.remaining t = some 0 then reload (h.timer t).repeatTicks else h.remaining t
  repeatTicks : ∀ t, (h'.timer t).repeatTicks = (h.timer t).repeatTicks

theorem fireExpired_none {h : TimerHandler τ} (hok : h.Ok) (hpos : HeadPos h.deltas) (fuel : ℕ) :
    ∃ fs h', TimerHandler.fireExpired fuel h = some (fs, h') ∧ Fired h fs h' := by
  have htail : h.tailDelta ≠ 0 := by rw [hok.tail]; decide
  have hnz : ∀ t, h.remaining t ≠ some 0 := fun t h0 => absurd (hpos.due_pos h0) (Nat.lt_irrefl 0)
  exact ⟨[], h, fireExpired_done htail hpos fuel, ⟨hok, hpos⟩, List.nodup_nil,
    fun t => ⟨fun hm => absurd hm List.not_mem_nil, fun h0 => absurd h0 (hnz t)⟩,
    fun t => by rw [if_neg (hnz t)], fun _ => rfl⟩

/-- **The firing loop** ends with fuel for the timers that are due, and fires exactly these. -/
theorem fireExpired_spec {h : TimerHandler τ} (hok : h.Ok) {fuel : ℕ} (hf : zeros h.deltas ≤ fuel) :
    ∃ fs h', TimerHandler.fireExpired fuel h = some (fs, h') ∧ Fired h fs h' := by
  induction fuel generalizing h with
  | zero => exact fireExpired_none hok (zeros_eq_zero.mp (Nat.le_zero.mp hf)) 0
  | succ fuel ih =>
    by_cases hpos : HeadPos h.deltas
    · exact fireExpired_none hok hpos _
    obtain ⟨e, rest, hl, h0⟩ := head_zero hpos
    obtain ⟨hok₁, he, htimer, hdue, hz, hother⟩ := expire_spec hok hl h0
    have hrep₁ : ∀ t, ((h.expire e).timer t).repeatTicks = (h.timer t).repeatTicks := by
      intro t
      rw [htimer]
      by_cases ht : t = e
      · subst ht; simp [expired]
      · simp [expired, ht]
    obtain ⟨h₂, hreset, hok₂, hsame, hz₂, hself, hother₂⟩ := resetPeriodic_spec hok₁ he (by
      rw [hrep₁]
      exact hok.repeat_le e (by rw [hl]; exact List.mem_cons_self))
    rw [hrep₁] at hself
    have hrep₂ : ∀ t, (h₂.timer t).repeatTicks = (h.timer t).repeatTicks := fun t =>
      (hsame.repeatTicks t).trans (hrep₁ t)
    have hrem₂ : ∀ t, t ≠ e → h₂.remaining t = h.remaining t := fun t ht => (hother₂ t ht).trans (hother t ht)
    -- `e` is not due again, so the rest of the loop leaves it alone
    have hself₂ : h₂.remaining e ≠ some 0 := by rw [hself]; exact reload_ne_zero _
    obtain ⟨fs, h', hfire, hfired⟩ := ih hok₂ (by omega)
    refine ⟨e :: fs, h', ?_, hfired.ready, ?_, fun t => ?_, fun t => ?_, fun t => ?_⟩
    · rw [fireExpired_cons hl h0, hreset, Option.bind_some, hfire]
      rfl
    · exact List.nodup_cons.mpr ⟨fun hm => hself₂ ((hfired.mem e).mp hm), hfired.nodup⟩
    · rw [List.mem_cons, hfired.mem t]
      by_cases ht : t = e
      · subst ht; simp [hdue]
      · simp [ht, hrem₂ t ht]
    · rw [hfired.remaining t]
      by_cases ht : t = e
      · subst ht; rw [if_neg hself₂, if_pos hdue, hself]
      · rw [hrem₂ t ht, hrep₂ t]
    · exact (hfired.repeatTicks t).trans (hrep₂ t)

/-- Between ticks no time left is zero. -/
theorem TimerHandler.Ready.map_pred_eq_zero {h : TimerHandler τ} (hr : h.Ready) (t : τ) :
    (h.remaining t).map (· - 1) = some 0 ↔ h.remaining t = some 1 := by
  cases ht : h.remaining t with
  | none => simp
  | some r =>
    have hpos := hr.head_pos.due_pos ht
    simp only [Option.map_some, Option.some.injEq]
    omega

/-- What a tick does, by the times before it. -/
theorem tick_spec {h : TimerHandler τ} (hr : h.Ready) :
    ∃ fs h', h.tick = some (fs, h') ∧ h'.Ready ∧ fs.Nodup ∧ (∀ t, t ∈ fs ↔ h.remaining t = some 1) ∧
      (∀ t, h'.remaining t =
        if h.remaining t = some 1 then reload (h.timer t).repeatTicks else (h.remaining t).map (· - 1)) ∧
      ∀ t, (h'.timer t).repeatTicks = (h.timer t).repeatTicks := by
  obtain ⟨hok, hsame, hlist, hrem⟩ := decrementHead_spec hr
  have hone : ∀ t, h.decrementHead.remaining t = some 0 ↔ h.remaining t = some 1 := by
    intro t
    rw [hrem]
    exact hr.map_pred_eq_zero t
  have htick : h.tick = TimerHandler.fireExpired h.list.length h.decrementHead := by
    unfold TimerHandler.tick
    cases hl : h.list with
    | cons e rest => rfl
    | nil =>
      have hdec := decrementHead_nil hl
      have htail : h.tailDelta ≠ 0 := by rw [hr.tail]; decide
      rw [hdec]
      exact (fireExpired_done htail hr.head_pos _).symm
  have hfuel : zeros h.decrementHead.deltas ≤ h.list.length := by
    have hle := zeros_le_length h.decrementHead.deltas
    have hlen : h.decrementHead.deltas.length = h.list.length := by
      unfold TimerHandler.deltas deltasOf
      rw [List.length_map, hlist]
    omega
  obtain ⟨fs, h', hfire, hfired⟩ := fireExpired_spec hok hfuel
  refine ⟨fs, h', htick.trans hfire, hfired.ready, hfired.nodup, fun t => (hfired.mem t).trans (hone t), fun t => ?_,
    fun t => (hfired.repeatTicks t).trans (hsame.repeatTicks t)⟩
  rw [hfired.remaining t, hsame.repeatTicks t, hrem t]
  simp only [← hrem t, hone t]

end Monolinux
