import Mathlib.Data.List.Nodup
import Mathlib.Data.List.Perm.Basic
import Mediation.Support.Timers

/-!
# Every task fires once, on time and in order

The timers that wait are in no order, and a timer may be set that is due at
once. Still the timers fire in the order of their due times and handles over a
whole sequence of calls: what has fired was due by now, and what is set later
is due no earlier and has a larger handle.
-/

namespace Mediation

/-- A timer fires before another one: it is due earlier, or at the same time and was set first. -/
def Timer.Precedes {α : Type} (a b : Timer α) : Prop :=
  a.due < b.due ∨ (a.due = b.due ∧ a.handle < b.handle)

namespace Timers

variable {α : Type}

/-! ### One advance of the clock -/

theorem mem_waiting_advance {t : Timers α} {elapsed : Nat} {w : Timer α} :
    w ∈ (t.advance elapsed).waiting ↔ w ∈ t.waiting ∧ t.now + elapsed < w.due := by
  simp only [advance, List.mem_filter, Nat.not_le, decide_eq_true_eq]

theorem mem_dueAfter {t : Timers α} {elapsed : Nat} {w : Timer α} :
    w ∈ t.dueAfter elapsed ↔ w ∈ t.waiting ∧ w.due ≤ t.now + elapsed := by
  simp only [dueAfter, List.mem_mergeSort, List.mem_filter, decide_eq_true_eq]

theorem perm_advance (t : Timers α) (elapsed : Nat) :
    ((t.advance elapsed).waiting ++ t.dueAfter elapsed).Perm t.waiting := by
  have hdue : (t.dueAfter elapsed).Perm (t.waiting.filter fun w => w.due ≤ t.now + elapsed) :=
    List.mergeSort_perm _ _
  have hsplit := List.filter_append_perm (fun w : Timer α => decide (w.due ≤ t.now + elapsed))
    t.waiting
  refine (List.perm_append_comm.trans (hdue.append_right _)).trans ?_
  simpa only [advance, decide_not] using hsplit

/-- No two of the timers that wait have the same handle. -/
def Distinct (t : Timers α) : Prop := (t.waiting.map Timer.handle).Nodup

theorem Distinct.advance {t : Timers α} (h : t.Distinct) (elapsed : Nat) :
    (t.advance elapsed).Distinct :=
  h.sublist (List.Sublist.map _ List.filter_sublist)

/-- What is due fires in order. -/
theorem Distinct.pairwise_dueAfter {t : Timers α} (h : t.Distinct) (elapsed : Nat) :
    (t.dueAfter elapsed).Pairwise Timer.Precedes := by
  have hsorted : (t.dueAfter elapsed).Pairwise fun a b => a.before b = true := by
    refine List.pairwise_mergeSort ?_ ?_ _
    · intro a b c hab hbc
      simp only [Timer.before, Bool.or_eq_true, Bool.and_eq_true, decide_eq_true_eq] at *
      omega
    · intro a b
      simp only [Timer.before, Bool.or_eq_true, Bool.and_eq_true, decide_eq_true_eq]
      omega
  have hwaiting : (t.waiting.filter fun w => w.due ≤ t.now + elapsed).Pairwise
      fun a b => a.handle ≠ b.handle := (List.pairwise_map.mp h).filter _
  have hhandles : (t.dueAfter elapsed).Pairwise fun a b => a.handle ≠ b.handle :=
    hwaiting.perm (List.mergeSort_perm _ _).symm Ne.symm
  refine (hsorted.and hhandles).imp ?_
  rintro a b ⟨hbefore, hne⟩
  simp only [Timer.before, Bool.or_eq_true, Bool.and_eq_true, decide_eq_true_eq] at hbefore
  unfold Timer.Precedes
  omega

theorem advance_advance (t : Timers α) (a b : Nat) :
    (t.advance a).advance b = t.advance (a + b) := by
  simp only [advance, List.filter_filter, Nat.add_assoc, Timers.mk.injEq, true_and]
  refine List.filter_congr fun w _ => ?_
  rw [Bool.eq_iff_iff]
  simp only [Bool.and_eq_true, decide_eq_true_eq]
  omega

/-- Two advances fire what one advance by the sum fires, in the same order. -/
theorem Distinct.dueAfter_append {t : Timers α} (h : t.Distinct) (a b : Nat) :
    t.dueAfter a ++ (t.advance a).dueAfter b = t.dueAfter (a + b) := by
  refine List.Perm.eq_of_pairwise ?_ ?_ (h.pairwise_dueAfter (a + b)) ?_
  · intro v w _ _ hvw hwv
    unfold Timer.Precedes at hvw hwv
    omega
  · refine List.pairwise_append.mpr
      ⟨h.pairwise_dueAfter a, (h.advance a).pairwise_dueAfter b, fun v hv w hw => Or.inl ?_⟩
    have hdue := (mem_dueAfter.mp hv).2
    have hlater := (mem_waiting_advance.mp (mem_dueAfter.mp hw).1).2
    omega
  · -- together with what still waits, both sides are what waited at first
    have hsecond := (((t.advance a).perm_advance b).append_right (t.dueAfter a)).trans
      (t.perm_advance a)
    rw [advance_advance] at hsecond
    have hboth := hsecond.trans (t.perm_advance (a + b)).symm
    rw [List.append_assoc, List.perm_append_left_iff] at hboth
    exact List.perm_append_comm.trans hboth

/-! ### Calls -/

inductive Call (α : Type) where
  | schedule (delay : Nat) (task : α)
  | advance (elapsed : Nat)

def after (t : Timers α) : Call α → Timers α
  | .schedule delay task => t.schedule delay task
  | .advance elapsed => t.advance elapsed

/-- The timer that a call sets. -/
def set (t : Timers α) : Call α → List (Timer α)
  | .schedule delay task => [⟨t.now + delay, t.nextHandle, task⟩]
  | .advance _ => []

/-- The timers that a call fires, in order. -/
def fired (t : Timers α) : Call α → List (Timer α)
  | .schedule _ _ => []
  | .advance elapsed => t.dueAfter elapsed

def run (t : Timers α) (cs : List (Call α)) : Timers α := cs.foldl after t

/-- The calls of a run, each with the timers at that moment. -/
def trace : Timers α → List (Call α) → List (Timers α × Call α)
  | _, [] => []
  | t, c :: cs => (t, c) :: trace (t.after c) cs

def setBy (h : List (Timers α × Call α)) : List (Timer α) := h.flatMap fun x => x.1.set x.2

def firedBy (h : List (Timers α × Call α)) : List (Timer α) := h.flatMap fun x => x.1.fired x.2

theorem setBy_concat (h : List (Timers α × Call α)) (t : Timers α) (c : Call α) :
    setBy (h ++ [(t, c)]) = setBy h ++ t.set c := by
  rw [setBy, List.flatMap_append, List.flatMap_singleton]
  rfl

theorem firedBy_concat (h : List (Timers α × Call α)) (t : Timers α) (c : Call α) :
    firedBy (h ++ [(t, c)]) = firedBy h ++ t.fired c := by
  rw [firedBy, List.flatMap_append, List.flatMap_singleton]
  rfl

/-- The timers fit the calls so far: what was set has fired or waits, and what has fired
precedes both itself and what waits. -/
structure Fits (h : List (Timers α × Call α)) (t : Timers α) : Prop where
  perm : (firedBy h ++ t.waiting).Perm (setBy h)
  handles : (setBy h).map Timer.handle = List.range' 1 t.scheduled
  ordered : (firedBy h).Pairwise Timer.Precedes
  past : ∀ w ∈ firedBy h, w.due ≤ t.now
  ahead : ∀ v ∈ firedBy h, ∀ w ∈ t.waiting, v.Precedes w

namespace Fits
variable {h : List (Timers α × Call α)} {t : Timers α}

theorem nodup_handles (hfits : Fits h t) : ((setBy h).map Timer.handle).Nodup := by
  rw [hfits.handles]
  exact List.nodup_range'

theorem distinct (hfits : Fits h t) : t.Distinct := by
  have hall := (hfits.perm.map Timer.handle).nodup_iff.mpr hfits.nodup_handles
  rw [List.map_append] at hall
  exact (List.nodup_append.mp hall).2.1

theorem handle_le (hfits : Fits h t) {w : Timer α} (hw : w ∈ firedBy h) :
    w.handle ≤ t.scheduled := by
  have hset : w ∈ setBy h := hfits.perm.mem_iff.mp (List.mem_append_left _ hw)
  have hmem := List.mem_map_of_mem (f := Timer.handle) hset
  rw [hfits.handles, List.mem_range'_1] at hmem
  omega

theorem schedule (hfits : Fits h t) (delay : Nat) (task : α) :
    Fits (h ++ [(t, .schedule delay task)]) (t.schedule delay task) := by
  have hset : setBy (h ++ [(t, .schedule delay task)]) =
      setBy h ++ [⟨t.now + delay, t.nextHandle, task⟩] := setBy_concat h t _
  have hfired : firedBy (h ++ [(t, .schedule delay task)]) = firedBy h := by
    rw [firedBy_concat, fired, List.append_nil]
  constructor
  · rw [hset, hfired]
    simp only [Timers.schedule, ← List.append_assoc]
    exact hfits.perm.append_right _
  · rw [hset, List.map_append, hfits.handles]
    simp only [List.map_cons, List.map_nil, Timers.schedule, nextHandle, List.range'_concat,
      Nat.one_mul, Nat.add_comm]
  · rw [hfired]
    exact hfits.ordered
  · rw [hfired]
    exact hfits.past
  · rw [hfired]
    intro v hv w hw
    rcases List.mem_append.mp hw with hold | hnew
    · exact hfits.ahead v hv w hold
    · -- the new timer is due no earlier than now, and all handles so far are smaller
      obtain rfl := List.mem_singleton.mp hnew
      have hpast := hfits.past v hv
      have hhandle := hfits.handle_le hv
      simp only [Timer.Precedes, nextHandle]
      omega

theorem advance (hfits : Fits h t) (elapsed : Nat) :
    Fits (h ++ [(t, .advance elapsed)]) (t.advance elapsed) := by
  have hset : setBy (h ++ [(t, .advance elapsed)]) = setBy h := by
    rw [setBy_concat, set, List.append_nil]
  have hfired : firedBy (h ++ [(t, .advance elapsed)]) = firedBy h ++ t.dueAfter elapsed :=
    firedBy_concat h t _
  constructor
  · rw [hset, hfired, List.append_assoc]
    refine List.Perm.trans ?_ hfits.perm
    exact (List.perm_append_comm.trans (t.perm_advance elapsed)).append_left _
  · rw [hset]
    exact hfits.handles
  · rw [hfired]
    exact List.pairwise_append.mpr ⟨hfits.ordered, hfits.distinct.pairwise_dueAfter elapsed,
      fun v hv w hw => hfits.ahead v hv w (mem_dueAfter.mp hw).1⟩
  · rw [hfired]
    intro w hw
    rcases List.mem_append.mp hw with hold | hnew
    · exact Nat.le_add_right_of_le (hfits.past w hold)
    · exact (mem_dueAfter.mp hnew).2
  · rw [hfired]
    intro v hv w hw
    obtain ⟨hwaiting, hlater⟩ := mem_waiting_advance.mp hw
    rcases List.mem_append.mp hv with hold | hnew
    · exact hfits.ahead v hold w hwaiting
    · exact Or.inl (Nat.lt_of_le_of_lt (mem_dueAfter.mp hnew).2 hlater)

theorem after (hfits : Fits h t) (c : Call α) : Fits (h ++ [(t, c)]) (t.after c) := by
  cases c with
  | schedule delay task => exact hfits.schedule delay task
  | advance elapsed => exact hfits.advance elapsed

theorem run (hfits : Fits h t) (cs : List (Call α)) : Fits (h ++ t.trace cs) (t.run cs) := by
  induction cs generalizing h t with
  | nil =>
    rw [trace, List.append_nil]
    exact hfits
  | cons c cs ih =>
    have hrest := ih (hfits.after c)
    rw [List.append_assoc] at hrest
    exact hrest

end Fits

theorem fits_start : Fits [] (start : Timers α) where
  perm := List.Perm.refl _
  handles := rfl
  ordered := List.Pairwise.nil
  past := fun _ hw => nomatch hw
  ahead := fun _ hv => nomatch hv

/-- A timer that was set waits as long as no advance has brought the clock to its due time. -/
theorem mem_waiting_run {w : Timer α} (cs : List (Call α)) {t : Timers α}
    (hset : w.handle ≤ t.scheduled) :
    w ∈ (t.run cs).waiting ↔ w ∈ t.waiting ∧
      ∀ x ∈ t.trace cs, ∀ elapsed, x.2 = .advance elapsed → x.1.now + elapsed < w.due := by
  induction cs generalizing t with
  | nil =>
    refine ⟨fun hw => ⟨hw, fun x hx => ?_⟩, And.left⟩
    cases hx
  | cons c cs ih =>
    rw [trace, List.forall_mem_cons]
    cases c with
    | schedule delay task =>
      have hne : w ≠ ⟨t.now + delay, t.nextHandle, task⟩ := by
        rintro rfl
        simp only [nextHandle] at hset
        omega
      have hwaiting : w ∈ (t.schedule delay task).waiting ↔ w ∈ t.waiting := by
        simp only [schedule, List.mem_append, List.mem_singleton, hne, or_false]
      have hnone : ∀ elapsed, (Call.schedule delay task : Call α) = .advance elapsed →
          t.now + elapsed < w.due := fun _ h => nomatch h
      have hrest := ih (t := t.schedule delay task) (Nat.le_succ_of_le hset)
      rw [hwaiting] at hrest
      exact hrest.trans (and_congr_right fun _ => (and_iff_right hnone).symm)
    | advance elapsed =>
      have hfirst : (∀ n, (Call.advance elapsed : Call α) = .advance n → t.now + n < w.due) ↔
          t.now + elapsed < w.due := by
        refine ⟨fun h => h elapsed rfl, fun h n hn => ?_⟩
        cases hn
        exact h
      have hrest := ih (t := t.advance elapsed) hset
      rw [mem_waiting_advance, and_assoc] at hrest
      rw [hfirst]
      exact hrest

/-- Over any sequence of calls, each timer that is set fires once or still waits; it fires in
the first advance that brings the clock to its due time; and the timers fire in the order of
their due times and handles. Two advances in a row are one advance by the sum. -/
theorem fires_once_in_order (cs : List (Call α)) :
    let t := start.run cs
    let h := start.trace cs
    ((firedBy h ++ t.waiting).Perm (setBy h) ∧ ((setBy h).map Timer.handle).Nodup) ∧
    (firedBy h).Pairwise Timer.Precedes ∧
    (t.scheduled = (setBy h).length ∧ t.scheduled = (firedBy h).length + t.waiting.length) ∧
    (∀ delay task later elapsed,
      let w : Timer α := ⟨t.now + delay, t.nextHandle, task⟩
      let u := (t.schedule delay task).run later
      w ∈ u.dueAfter elapsed ↔ w.due ≤ u.now + elapsed ∧
        ∀ x ∈ (t.schedule delay task).trace later, ∀ n, x.2 = .advance n →
          x.1.now + n < w.due) ∧
    ∀ a b, t.dueAfter a ++ (t.advance a).dueAfter b = t.dueAfter (a + b) ∧
      (t.advance a).advance b = t.advance (a + b) := by
  intro t h
  have hfits : Fits h t := fits_start.run cs
  have hscheduled : (setBy h).length = t.scheduled := by
    have hlength := congrArg List.length hfits.handles
    rwa [List.length_map, List.length_range'] at hlength
  refine ⟨⟨hfits.perm, hfits.nodup_handles⟩, hfits.ordered, ⟨hscheduled.symm, ?_⟩, ?_,
    fun a b => ⟨hfits.distinct.dueAfter_append a b, t.advance_advance a b⟩⟩
  · rw [← hscheduled, ← hfits.perm.length_eq, List.length_append]
  · intro delay task later elapsed w u
    have hwaiting : w ∈ (t.schedule delay task).waiting :=
      List.mem_append_right _ (List.mem_singleton_self w)
    rw [mem_dueAfter, mem_waiting_run later (Nat.le_refl _), and_iff_right hwaiting, and_comm]

/-- A task that is set at time 1 and due at once fires in the next advance, by its due time. -/
example :
    (firedBy (start.trace [.schedule 2 "second", .schedule 1 "first", .advance 1,
      .schedule 0 "at once", .advance 5])).map Timer.task = ["first", "at once", "second"] := by
  cbv

end Timers

end Mediation
