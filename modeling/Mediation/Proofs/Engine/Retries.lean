import Mathlib.Data.List.Nodup
import Mediation.Proofs.Engine.Runs

/-!
# Retries and their timers

A retry is noted when its timer is set, and the note goes when the retry is
handled or its result is applied; the timer cannot be stopped. So notes and
timers get out of step, but only for results whose dispute is stored: a message
never has two timers, and every note has its timer.
-/

namespace Mediation

/-! ### Notes and timers -/

/-- The retries noted by an engine fit a list of timers: every note has its
timer, no message has two, and a timer without a note has a stored dispute. -/
structure Engine.Fits (D : ResultMessage → Prop) (e : Engine) (l : List (Timer ResultMessage)) :
    Prop where
  delivered : ∀ t ∈ l, D t.task
  closing : ∀ t ∈ l, t.task.result.chatMessage.isSome = true
  nodup : (l.map fun t => t.task.uid).Nodup
  noted : ∀ uid handle, e.retries.get? uid = some handle →
    ∃ t ∈ l, t.handle = handle ∧ t.task.uid = uid
  stored : ∀ t ∈ l, e.retries.get? t.task.uid = none → e.disputes.contains t.task.tradeId = true

namespace Engine.Fits
variable {D : ResultMessage → Prop} {e e' : Engine} {l l' : List (Timer ResultMessage)}

theorem perm (h : e.Fits D l) (hl : l.Perm l') : e.Fits D l' where
  delivered t ht := h.delivered t (hl.mem_iff.mpr ht)
  closing t ht := h.closing t (hl.mem_iff.mpr ht)
  nodup := (hl.map _).nodup_iff.mp h.nodup
  noted := by
    intro uid handle hnote
    obtain ⟨t, ht, htimer⟩ := h.noted uid handle hnote
    exact ⟨t, hl.mem_iff.mp ht, htimer⟩
  stored t ht := h.stored t (hl.mem_iff.mpr ht)

theorem keep (h : e.Fits D l) (hretries : e'.retries = e.retries)
    (hdisputes : ∀ id, e.disputes.contains id = true → e'.disputes.contains id = true) :
    e'.Fits D l where
  delivered := h.delivered
  closing := h.closing
  nodup := h.nodup
  noted := by
    rw [hretries]
    exact h.noted
  stored := by
    intro t ht hnote
    rw [hretries] at hnote
    exact hdisputes _ (h.stored t ht hnote)

/-- A timer is set for a message whose dispute is missing and which has no note. -/
theorem schedule (h : e.Fits D l)
    (hD : ∀ m n, D m → D n → m.uid = n.uid → m.tradeId = n.tradeId) {m : ResultMessage}
    (hm : D m) (hclosing : m.result.chatMessage.isSome = true)
    (hmissing : e.disputes.find? m.tradeId = none) (hnote : e.retries.get? m.uid = none)
    {due handle : Nat} (hretries : e'.retries = e.retries.insert m.uid handle)
    (hdisputes : e'.disputes = e.disputes) : e'.Fits D (⟨due, handle, m⟩ :: l) := by
  have hnew : ∀ t ∈ l, t.task.uid ≠ m.uid := by
    intro t ht huid
    have hstored := h.stored t ht (by rw [huid, hnote])
    rw [hD _ _ (h.delivered t ht) hm huid, DisputeStore.contains, hmissing] at hstored
    cases hstored
  constructor
  · intro t ht
    rcases List.mem_cons.mp ht with rfl | ht
    · exact hm
    · exact h.delivered t ht
  · intro t ht
    rcases List.mem_cons.mp ht with rfl | ht
    · exact hclosing
    · exact h.closing t ht
  · rw [List.map_cons, List.nodup_cons]
    refine ⟨?_, h.nodup⟩
    intro hmem
    obtain ⟨t, ht, huid⟩ := List.mem_map.mp hmem
    exact hnew t ht huid
  · intro uid handle' hget
    rw [hretries, Table.get?_insert] at hget
    split at hget
    next huid =>
      cases hget
      exact ⟨_, List.mem_cons_self .., rfl, huid.symm⟩
    next =>
      obtain ⟨t, ht, htimer⟩ := h.noted uid handle' hget
      exact ⟨t, List.mem_cons_of_mem _ ht, htimer⟩
  · intro t ht hget
    rw [hretries, Table.get?_insert] at hget
    rw [hdisputes]
    rcases List.mem_cons.mp ht with rfl | ht
    · rw [if_pos rfl] at hget
      cases hget
    · rw [if_neg (hnew t ht)] at hget
      exact h.stored t ht hget

/-- The note of a message goes: its timer has been handled, or its dispute is stored. -/
theorem clear (h : e.Fits D l) {uid : MessageUid} (hretries : e'.retries = e.retries.erase uid)
    (hdisputes : ∀ id, e.disputes.contains id = true → e'.disputes.contains id = true)
    (hcleared : ∀ t ∈ l, t.task.uid = uid → e'.disputes.contains t.task.tradeId = true) :
    e'.Fits D l where
  delivered := h.delivered
  closing := h.closing
  nodup := h.nodup
  noted := by
    intro uid' handle hget
    rw [hretries, Table.get?_erase] at hget
    split at hget
    next => cases hget
    next => exact h.noted uid' handle hget
  stored := by
    intro t ht hget
    by_cases huid : t.task.uid = uid
    · exact hcleared t ht huid
    · rw [hretries, Table.get?_erase, if_neg huid] at hget
      exact hdisputes _ (h.stored t ht hget)

/-- The retry of a timer is handled. -/
theorem handle {t : Timer ResultMessage} (h : e.Fits D (t :: l))
    (hretries : e'.retries = e.retries.erase t.task.uid)
    (hdisputes : ∀ id, e.disputes.contains id = true → e'.disputes.contains id = true) :
    e'.Fits D l where
  delivered s hs := h.delivered s (List.mem_cons_of_mem _ hs)
  closing s hs := h.closing s (List.mem_cons_of_mem _ hs)
  nodup := (List.nodup_cons.mp h.nodup).2
  noted := by
    intro uid handle hget
    rw [hretries, Table.get?_erase] at hget
    split at hget
    next => cases hget
    next hne =>
      obtain ⟨s, hs, hhandle, huid⟩ := h.noted uid handle hget
      rcases List.mem_cons.mp hs with rfl | hs
      · exact absurd huid.symm hne
      · exact ⟨s, hs, hhandle, huid⟩
  stored := by
    intro s hs hget
    have hne : s.task.uid ≠ t.task.uid := by
      intro huid
      exact (List.nodup_cons.mp h.nodup).1 (List.mem_map.mpr ⟨s, hs, huid⟩)
    rw [hretries, Table.get?_erase, if_neg hne] at hget
    exact hdisputes _ (h.stored s (List.mem_cons_of_mem _ hs) hget)

end Engine.Fits

/-! ### What an act does to the timers -/

namespace World

/-- The timers that wait, and those that have fired but are not handled. -/
def outstanding (w : World) : List (Timer ResultMessage) := w.engine.timers.waiting ++ w.fired

theorem serving_waits {w : World} {a : Stamp × Act}
    (h : ∀ r, w.request? a.2 = some r → r.attempt? = none) :
    (w.serving a).timers = w.engine.timers ∧ (w.serving a).retries = w.engine.retries ∧
      ∀ id, w.engine.disputes.contains id = true →
        (w.serving a).disputes.contains id = true := by
  rcases w.serving_cases a with ⟨-, hsame⟩ | ⟨r, hr, hserved⟩
  · rw [hsame]
    exact ⟨rfl, rfl, fun id hid => hid⟩
  · obtain ⟨htimers, hretries⟩ := hserved.waits (h r hr)
    exact ⟨htimers, hretries, fun id hid => hserved.contains hid⟩

section
variable {D : ResultMessage → Prop} {w : World} (h : w.engine.Fits D w.outstanding)
include h

theorem fits_ask_other {r : Request} (hr : r.attempt? = none) (stamp : Stamp) :
    (w.after (stamp, .ask r)).engine.Fits D (w.after (stamp, .ask r)).outstanding := by
  have hother : ∀ r', w.request? (.ask r) = some r' → r'.attempt? = none := by
    intro r' hr'
    cases hr'
    exact hr
  obtain ⟨htimers, hretries, hdisputes⟩ := serving_waits (a := (stamp, .ask r)) hother
  have hsame : (w.after (stamp, .ask r)).outstanding = w.outstanding := by
    simp only [outstanding, after, htimers]
  rw [hsame]
  exact h.keep hretries hdisputes

theorem fits_settle (stamp : Stamp) (o : PayoutOutcome) :
    (w.after (stamp, .settle o)).engine.Fits D (w.after (stamp, .settle o)).outstanding := by
  have hother : ∀ r, w.request? (.settle o) = some r → r.attempt? = none := by
    intro r hr
    rw [request?_settle hr]
    rfl
  obtain ⟨htimers, hretries, hdisputes⟩ := serving_waits (a := (stamp, .settle o)) hother
  have hsame : (w.after (stamp, .settle o)).outstanding = w.outstanding := by
    simp only [outstanding, after, htimers]
  rw [hsame]
  exact h.keep hretries hdisputes

theorem fits_deliver (hD : ∀ m n, D m → D n → m.uid = n.uid → m.tradeId = n.tradeId)
    {m : ResultMessage} (hm : D m) (stamp : Stamp) :
    (w.after (stamp, .ask (.event (.support (.disputeResult m))))).engine.Fits D
      (w.after (stamp, .ask (.event (.support (.disputeResult m))))).outstanding := by
  simp only [after, outstanding, serving, request?]
  have hattempt : Request.attempt? (.event (.support (.disputeResult m))) = some (m, .delivery) :=
    rfl
  rcases Engine.serve_attempt_cases hattempt stamp with
    ⟨-, hsame⟩ | ⟨hclosing, hmissing, hmissed⟩ | ⟨htakes, hstored, closing, acks, hclosing, hruled⟩
  · rw [hsame]
    exact h
  · rw [hmissed]
    simp only [Engine.missDispute]
    split
    next => exact h
    next hnote =>
      have hnone : w.engine.retries.get? m.uid = none := by
        simpa [Table.contains] using hnote
      have hscheduled : Engine.Fits D
          { w.engine with
            timers := w.engine.timers.schedule w.engine.config.retryDelay m
            retries := w.engine.retries.insert m.uid w.engine.timers.nextHandle }
          (⟨w.engine.timers.now + w.engine.config.retryDelay, w.engine.timers.nextHandle, m⟩ ::
            w.outstanding) :=
        h.schedule hD hm hclosing hmissing hnone rfl rfl
      refine hscheduled.perm ?_
      -- the new timer stands last among those that wait
      simp only [Timers.schedule, List.append_assoc]
      exact List.perm_middle.symm
  · rw [hruled]
    have hserved : Engine.Served w.engine (.event (.support (.disputeResult m)))
        { w.engine.ruling m closing with acks := acks } :=
      .ruled m .delivery closing acks hattempt htakes hclosing hstored
    have hcontains : ∀ id, w.engine.disputes.contains id = true →
        (w.engine.ruling m closing).disputes.contains id = true :=
      fun id hid => hserved.contains hid
    have htimers : (w.engine.ruling m closing).timers = w.engine.timers := by
      rw [Engine.ruling_eq]
    have hretries : (w.engine.ruling m closing).retries = w.engine.retries.erase m.uid := by
      rw [Engine.ruling_eq]
    simp only [htimers]
    refine h.clear hretries hcontains ?_
    intro t ht huid
    rw [hD _ _ (h.delivered t ht) hm huid]
    exact hcontains _ hstored

theorem fits_retry (stamp : Stamp) (t : Timer ResultMessage) :
    (w.after (stamp, .retry t)).engine.Fits D (w.after (stamp, .retry t)).outstanding := by
  simp only [after, outstanding, serving, request?]
  by_cases ht : t ∈ w.fired
  · simp only [if_pos ht]
    have hl : w.outstanding.Perm (t :: (w.engine.timers.waiting ++ w.fired.erase t)) :=
      ((List.perm_cons_erase ht).append_left _).trans List.perm_middle
    have hclosing := h.closing t (List.mem_append_right _ ht)
    have hserved := Engine.served w.engine stamp (.event (.deferred t.task))
    have hattempt : Request.attempt? (.event (.deferred t.task)) = some (t.task, .retry) := rfl
    rcases Engine.serve_attempt_cases hattempt stamp with
      ⟨hdropped | hdropped, -⟩ | ⟨-, -, hmissed⟩ | ⟨-, -, closing, acks, -, hruled⟩
    · cases hdropped
    · rw [hdropped] at hclosing
      cases hclosing
    · have htimers : (w.engine.serve stamp (.event (.deferred t.task))).1.timers =
          w.engine.timers := by rw [hmissed]; rfl
      rw [htimers]
      exact (h.perm hl).handle (by rw [hmissed]; rfl) (fun id hid => hserved.contains hid)
    · have htimers : (w.engine.serve stamp (.event (.deferred t.task))).1.timers =
          w.engine.timers := by
        rw [hruled, Engine.ruling_eq]
      rw [htimers]
      refine (h.perm hl).handle ?_ (fun id hid => hserved.contains hid)
      rw [hruled, Engine.ruling_eq]
  · simp only [if_neg ht, List.erase_of_not_mem ht]
    exact h

theorem fits_after (hD : ∀ m n, D m → D n → m.uid = n.uid → m.tradeId = n.tradeId) {a : Act}
    (hdeferred : ∀ m, a ≠ .ask (.event (.deferred m)))
    (hdelivered : ∀ m, a = .ask (.event (.support (.disputeResult m))) → D m) (stamp : Stamp) :
    (w.after (stamp, a)).engine.Fits D (w.after (stamp, a)).outstanding := by
  cases a with
  | ask r =>
    cases hr : r.attempt? with
    | none => exact fits_ask_other h hr stamp
    | some p =>
      obtain ⟨m, attempt⟩ := p
      cases attempt with
      | delivery =>
        obtain rfl : r = .event (.support (.disputeResult m)) := Request.eq_bring_of_attempt? hr
        exact fits_deliver h hD (hdelivered m rfl) stamp
      | retry =>
        obtain rfl : r = .event (.deferred m) := Request.eq_bring_of_attempt? hr
        exact absurd rfl (hdeferred m)
  | elapse millis =>
    have h' : Engine.Fits D { w.engine with timers := w.engine.timers.advance millis }
        w.outstanding := h.keep rfl (fun id hid => hid)
    refine h'.perm ?_
    -- what is due moves from the timers to the fired ones
    simp only [outstanding, after]
    refine ((w.engine.timers.perm_advance millis).symm.append_right w.fired).trans ?_
    rw [List.append_assoc]
    exact List.perm_append_comm.append_left _
  | retry t => exact fits_retry h stamp t
  | release error => exact h.keep rfl (fun id hid => hid)
  | take => exact h.keep rfl (fun id hid => hid)
  | settle o => exact fits_settle h stamp o

end

/-! ### What ends a timer -/

theorem waiting_serve (e : Engine) (stamp : Stamp) (r : Request) :
    (e.serve stamp r).1.timers.waiting = e.timers.waiting ∨
      ∃ m t, r = .bring m .delivery ∧
        (e.serve stamp r).1.timers.waiting = e.timers.waiting ++ [t] := by
  cases hr : r.attempt? with
  | none => exact Or.inl (congrArg Timers.waiting ((Engine.served e stamp r).waits hr).1)
  | some p =>
    obtain ⟨m, a⟩ := p
    rcases Engine.serve_attempt_cases hr stamp with
      ⟨-, hsame⟩ | ⟨-, -, hmissed⟩ | ⟨-, -, closing, acks, -, hruled⟩
    · exact Or.inl (by rw [hsame])
    · rw [hmissed]
      cases a with
      | retry => exact Or.inl rfl
      | delivery =>
        simp only [Engine.missDispute]
        split
        · exact Or.inl rfl
        · exact Or.inr ⟨m, _, Request.eq_bring_of_attempt? hr, rfl⟩
    · rw [hruled, Engine.ruling_eq]
      exact Or.inl rfl

theorem waiting_serving {w : World} {a : Stamp × Act} (h : ∀ r, a.2 ≠ .ask r) :
    (w.serving a).timers.waiting = w.engine.timers.waiting := by
  cases hr : w.request? a.2 with
  | none => rw [serving_of_none hr]
  | some r =>
    rw [serving_of_some hr]
    rcases waiting_serve w.engine a.1 r with hsame | ⟨m, t, rfl, -⟩
    · exact hsame
    · -- what is handed back to the engine is no delivery
      obtain ⟨stamp, a⟩ := a
      cases a with
      | ask r' => exact absurd rfl (h r')
      | retry t' => cases request?_retry hr
      | settle o => cases request?_settle hr
      | elapse millis => cases hr
      | release error => cases hr
      | take => cases hr

theorem mem_outstanding_after {w : World} {t : Timer ResultMessage} (ht : t ∈ w.outstanding)
    (stamp : Stamp) (a : Act) :
    t ∈ (w.after (stamp, a)).outstanding ∨ (a = .retry t ∧ t ∈ w.fired) := by
  simp only [outstanding, List.mem_append] at ht ⊢
  cases a with
  | ask r =>
    refine Or.inl (ht.imp_left fun hwaiting => ?_)
    rcases waiting_serve w.engine stamp r with hsame | ⟨m, s, -, hadded⟩
    · exact (congrArg (t ∈ ·) hsame).mpr hwaiting
    · exact (congrArg (t ∈ ·) hadded).mpr (List.mem_append_left _ hwaiting)
  | elapse millis =>
    have hmem := (w.engine.timers.perm_advance millis).mem_iff (a := t)
    rw [List.mem_append] at hmem
    simp only [after, List.mem_append]
    rcases ht with hwaiting | hfired
    · exact Or.inl ((hmem.mpr hwaiting).imp_right Or.inr)
    · exact Or.inl (Or.inr (Or.inl hfired))
  | retry s =>
    have hwaiting' : (w.serving (stamp, .retry s)).timers.waiting = w.engine.timers.waiting :=
      waiting_serving (fun r hr => by cases hr)
    simp only [after, hwaiting']
    rcases ht with hwaiting | hfired
    · exact Or.inl (Or.inl hwaiting)
    · by_cases hs : t = s
      · exact Or.inr ⟨by rw [hs], hfired⟩
      · exact Or.inl (Or.inr ((List.mem_erase_of_ne hs).mpr hfired))
  | release error => exact Or.inl ht
  | take => exact Or.inl ht
  | settle o =>
    have hwaiting' : (w.serving (stamp, .settle o)).timers.waiting = w.engine.timers.waiting :=
      waiting_serving (fun r hr => by cases hr)
    simp only [after, hwaiting']
    exact Or.inl ht

/-- A timer is outstanding until its retry is handled. -/
theorem outstanding_or_retried {w : World} {t : Timer ResultMessage} (ht : t ∈ w.outstanding)
    (as : List (Stamp × Act)) :
    t ∈ (w.run as).outstanding ∨
      ∃ pre stamp post, as = pre ++ (stamp, .retry t) :: post ∧ t ∈ (w.run pre).fired := by
  induction as generalizing w with
  | nil => exact Or.inl ht
  | cons a as ih =>
    obtain ⟨stamp, a⟩ := a
    rcases mem_outstanding_after ht stamp a with hafter | ⟨rfl, hfired⟩
    · rcases ih hafter with hlast | ⟨pre, stamp', post, rfl, hfired⟩
      · exact Or.inl hlast
      · exact Or.inr ⟨(stamp, a) :: pre, stamp', post, rfl, hfired⟩
    · exact Or.inr ⟨[], stamp, as, rfl, hfired⟩

/-- An act sets a timer for a message. -/
def Schedules (w : World) (a : Stamp × Act) (uid : MessageUid) : Prop :=
  ∃ t, (w.after a).engine.timers.waiting = w.engine.timers.waiting ++ [t] ∧ t.task.uid = uid

theorem Schedules.eq_ask {w : World} {a : Stamp × Act} {uid : MessageUid}
    (h : w.Schedules a uid) : ∃ r, a.2 = .ask r := by
  obtain ⟨t, hwaiting, -⟩ := h
  have hlonger : ∀ l : List (Timer ResultMessage), l.length ≤ w.engine.timers.waiting.length →
      (w.after a).engine.timers.waiting = l → ∃ r, a.2 = .ask r := by
    intro l hl hsame
    have hlength := congrArg List.length (hsame.symm.trans hwaiting)
    rw [List.length_append, List.length_singleton] at hlength
    omega
  obtain ⟨stamp, a⟩ := a
  cases a with
  | ask r => exact ⟨r, rfl⟩
  | elapse millis => exact hlonger _ (List.length_filter_le _ _) rfl
  | retry s => exact hlonger _ (Nat.le_refl _) (waiting_serving (fun r hr => by cases hr))
  | release error => exact hlonger _ (Nat.le_refl _) rfl
  | take => exact hlonger _ (Nat.le_refl _) rfl
  | settle o => exact hlonger _ (Nat.le_refl _) (waiting_serving (fun r hr => by cases hr))

/-! ### Runs -/

/-- A run in which every retry comes from a timer that has fired, and messages
with one uid are about one trade. -/
structure Orderly (as : List (Stamp × Act)) : Prop where
  retried : ∀ a ∈ as, ∀ m, a.2 ≠ .ask (.event (.deferred m))
  delivered : ∀ a ∈ as, ∀ b ∈ as, ∀ m n,
    a.2 = .ask (.event (.support (.disputeResult m))) →
    b.2 = .ask (.event (.support (.disputeResult n))) → m.uid = n.uid → m.tradeId = n.tradeId

theorem fits_run {e : Engine} (htimers : e.timers.waiting = []) (hretries : e.retries = .empty)
    {D : ResultMessage → Prop} (hD : ∀ m n, D m → D n → m.uid = n.uid → m.tradeId = n.tradeId)
    (as : List (Stamp × Act)) (hretried : ∀ a ∈ as, ∀ m, a.2 ≠ .ask (.event (.deferred m)))
    (hdelivered : ∀ a ∈ as, ∀ m, a.2 = .ask (.event (.support (.disputeResult m))) → D m) :
    ((start e).run as).engine.Fits D ((start e).run as).outstanding := by
  have hstart : (start e).engine.Fits D (start e).outstanding := by
    have hnone : (start e).outstanding = [] := by
      simp only [outstanding, start, htimers, List.append_nil]
    rw [hnone]
    constructor
    · intro t ht
      cases ht
    · intro t ht
      cases ht
    · exact List.nodup_nil
    · intro uid handle hget
      change e.retries.get? uid = some handle at hget
      rw [hretries, Table.get?_empty] at hget
      cases hget
    · intro t ht
      cases ht
  exact run_induction (P := fun w => w.engine.Fits D w.outstanding)
    (Q := fun a => (∀ m, a ≠ .ask (.event (.deferred m))) ∧
      ∀ m, a = .ask (.event (.support (.disputeResult m))) → D m)
    (fun w stamp a ha h => fits_after h hD ha.1 ha.2 stamp) as
    (fun a ha => ⟨hretried a ha, hdelivered a ha⟩) (start e) hstart

theorem Schedules.outstanding_eq {w : World} {a : Stamp × Act} {uid : MessageUid}
    (h : w.Schedules a uid) :
    ∃ t, t ∈ (w.after a).outstanding ∧ t.task.uid = uid ∧
      (w.after a).outstanding.Perm (t :: w.outstanding) := by
  obtain ⟨r, hr⟩ := h.eq_ask
  obtain ⟨t, hwaiting, huid⟩ := h
  have hfired : (w.after a).fired = w.fired := by
    simp only [after, hr]
  have hl : (w.after a).outstanding.Perm (t :: w.outstanding) := by
    simp only [outstanding, hwaiting, hfired, List.append_assoc]
    exact List.perm_middle
  exact ⟨t, hl.mem_iff.mpr (List.mem_cons_self ..), huid, hl⟩

/-- A message has one timer at most, and whatever is noted as a retry has its
timer; between two timers for a message the retry of the first is handled. -/
theorem run_retries_outstanding {e : Engine} (htimers : e.timers.waiting = [])
    (hretries : e.retries = .empty) {as : List (Stamp × Act)} (horderly : Orderly as) :
    (∀ uid, (((start e).run as).outstanding.filter fun t => t.task.uid = uid).length ≤ 1) ∧
    (∀ uid handle, ((start e).run as).engine.retries.get? uid = some handle →
      ∃ t ∈ ((start e).run as).outstanding, t.handle = handle ∧ t.task.uid = uid) ∧
    (((start e).run as).outstanding = [] → ((start e).run as).engine.retries = .empty) ∧
    (∀ pre a mid b post uid, as = pre ++ a :: mid ++ b :: post →
      ((start e).run pre).Schedules a uid → ((start e).run (pre ++ a :: mid)).Schedules b uid →
      ∃ mid₁ stamp t mid₂, mid = mid₁ ++ (stamp, .retry t) :: mid₂ ∧ t.task.uid = uid ∧
        t ∈ ((start e).run (pre ++ a :: mid₁)).fired) := by
  let D : ResultMessage → Prop := fun m =>
    ∃ a ∈ as, a.2 = .ask (.event (.support (.disputeResult m)))
  have hD : ∀ m n, D m → D n → m.uid = n.uid → m.tradeId = n.tradeId := by
    rintro m n ⟨a, ha, ham⟩ ⟨b, hb, hbn⟩
    exact horderly.delivered a ha b hb m n ham hbn
  have hfits : ∀ bs, bs ⊆ as →
      ((start e).run bs).engine.Fits D ((start e).run bs).outstanding := fun bs hbs =>
    fits_run htimers hretries hD bs (fun a ha => horderly.retried a (hbs ha))
      (fun a ha m ham => ⟨a, hbs ha, ham⟩)
  have hlast := hfits as (List.Subset.refl as)
  refine ⟨?_, hlast.noted, ?_, ?_⟩
  · intro uid
    have hcount := List.nodup_iff_count_le_one.mp hlast.nodup uid
    rw [List.count, List.countP_map, List.countP_eq_length_filter] at hcount
    exact hcount
  · intro hnone
    apply Table.ext_get?
    intro uid
    rw [Table.get?_empty, Option.eq_none_iff_forall_ne_some]
    intro handle hget
    obtain ⟨t, ht, -⟩ := hlast.noted uid handle hget
    rw [hnone] at ht
    cases ht
  · rintro pre a mid b post uid rfl hfirst hsecond
    obtain ⟨t, ht, htuid, -⟩ := hfirst.outstanding_eq
    have hmid : ∀ mid', (start e).run (pre ++ a :: mid') =
        (((start e).run pre).after a).run mid' := fun mid' => run_append _ pre (a :: mid')
    rcases outstanding_or_retried ht mid with hstill | ⟨mid₁, stamp, mid₂, rfl, hfired⟩
    · -- otherwise the message would have two timers once the second is set
      obtain ⟨s, -, hsuid, hl⟩ := hsecond.outstanding_eq
      have hsub : pre ++ a :: mid ++ [b] ⊆ pre ++ a :: mid ++ b :: post := by
        intro c hc
        rcases List.mem_append.mp hc with hc | hc
        · exact List.mem_append_left _ hc
        · rw [List.mem_singleton.mp hc]
          exact List.mem_append_right _ (List.mem_cons_self ..)
      have hboth := hfits (pre ++ a :: mid ++ [b]) hsub
      rw [run_concat] at hboth
      have hnodup := (hboth.perm hl).nodup
      rw [← hmid] at hstill
      rw [List.map_cons, List.nodup_cons] at hnodup
      exact absurd (List.mem_map.mpr ⟨t, hstill, htuid.trans hsuid.symm⟩) hnodup.1
    · exact ⟨mid₁, stamp, t, mid₂, rfl, htuid, by rw [hmid]; exact hfired⟩

end World

namespace Sample

def delivery (m : ResultMessage) : Stamp × Act :=
  (stamp, .ask (.event (.support (.disputeResult m))))

/-- The ruling for the buyer finds no dispute, its retry neither, and it comes once more. -/
def twiceInVain : List (Stamp × Act) :=
  [delivery forBuyer, (stamp, .elapse 2000), (stamp, .retry ⟨2000, 1, forBuyer⟩),
    delivery forBuyer]

theorem twiceInVain_orderly : World.Orderly twiceInVain := by
  constructor
  · intro a ha m hm
    simp only [twiceInVain, delivery, List.mem_cons, List.not_mem_nil, or_false] at ha
    rcases ha with rfl | rfl | rfl | rfl <;> cases hm
  · intro a ha b hb m n hm hn huid
    simp only [twiceInVain, delivery, List.mem_cons, List.not_mem_nil, or_false] at ha hb
    rcases ha with rfl | rfl | rfl | rfl <;> cases hm <;>
      rcases hb with rfl | rfl | rfl | rfl <;> cases hn <;> rfl

end Sample

namespace World

open Sample in
theorem run_retries_outstanding_twice :
    (∃ t ∈ ((start Sample.engine).run twiceInVain).outstanding, t.handle = 2 ∧
      t.task.uid = forBuyer.uid) ∧
    ∃ mid₁ stamp' t mid₂, [(stamp, .elapse 2000), (stamp, .retry ⟨2000, 1, forBuyer⟩)] =
        mid₁ ++ (stamp', .retry t) :: mid₂ ∧ t.task.uid = forBuyer.uid ∧
      t ∈ ((start Sample.engine).run ([] ++ delivery forBuyer :: mid₁)).fired := by
  have hrun := run_retries_outstanding (e := Sample.engine) rfl rfl twiceInVain_orderly
  have hnote : ((start Sample.engine).run twiceInVain).engine.retries.get? forBuyer.uid =
      some 2 := by decide +kernel
  have hfirst : ((start Sample.engine).run []).Schedules (delivery forBuyer) forBuyer.uid :=
    ⟨⟨2000, 1, forBuyer⟩, by decide +kernel, rfl⟩
  have hsecond : ((start Sample.engine).run ([] ++ delivery forBuyer ::
      [(stamp, .elapse 2000), (stamp, .retry ⟨2000, 1, forBuyer⟩)])).Schedules
        (delivery forBuyer) forBuyer.uid :=
    ⟨⟨4000, 2, forBuyer⟩, by decide +kernel, rfl⟩
  exact ⟨hrun.2.1 forBuyer.uid 2 hnote, hrun.2.2.2 [] _ _ _ [] forBuyer.uid rfl hfirst hsecond⟩

end World

end Mediation
