import Mathlib.Data.List.Perm.Basic
import Mathlib.Data.List.Nodup
import Mediation.Proofs.Engine.Runs

/-!
# Acceptances and their answers

With each acceptance a ticket is issued. Its completion is held or resolved,
its outcome queued or handled, and its caller answered then. A ledger of a run
notes each of these; what the engine keeps at any time fits the ledger.
-/

namespace Mediation

/-! ### Resolutions -/

/-- What a payout exchange can do with a completion. -/
inductive Resolution where
  | succeeded
  | failed (message : String)
  | dropped
  deriving DecidableEq

namespace Resolution

def error : Resolution → Option String
  | succeeded => none
  | failed message => some message
  | dropped => some lostCompletion

def ofRelease : Option String → Resolution
  | none => succeeded
  | some message => failed message

@[simp] theorem error_ofRelease (error : Option String) : (ofRelease error).error = error := by
  cases error <;> rfl

theorem error_eq_none {r : Resolution} : r.error = none ↔ r = succeeded := by
  cases r <;> simp [error]

theorem error_eq_some {r : Resolution} {message : String} :
    r.error = some message ↔ r = failed message ∨ (r = dropped ∧ message = lostCompletion) := by
  cases r <;> simp [error, eq_comm]

end Resolution

namespace PayoutDesk

/-- What the exchange does with a completion at once. -/
def resolution? (d : PayoutDesk) : Option Resolution :=
  if d.forgetful then some .dropped
  else match d.script with
    | .succeed => some .succeeded
    | .fail message => some (.failed message)
    | .hold => none

theorem outcome?_eq (d : PayoutDesk) (c : Completion) :
    d.outcome? c = d.resolution?.map fun r => c.resolve r.error := by
  simp only [outcome?, resolution?]
  split
  · rfl
  · cases d.script <;> rfl

theorem held_take (d : PayoutDesk) (step : PayoutStep) (t : Trade) (c : Completion) :
    (d.take step t c).held = if d.resolution?.isNone then d.held ++ [c] else d.held := by
  simp only [take, resolution?]
  split
  · rfl
  · cases d.script <;> rfl

end PayoutDesk

@[simp] theorem Completion.resolve_ticket (c : Completion) (error : Option String) :
    (c.resolve error).ticket = c.ticket := by
  cases error <;> rfl

@[simp] theorem Completion.resolve_error (c : Completion) (error : Option String) :
    (c.resolve error).error = error := by
  cases error <;> rfl

theorem Engine.accept_payouts {e e' : Engine} {id : TradeId} {caller ticket : Nat}
    (h : e.accept id caller = .ok (e', ticket)) :
    ticket = e.tickets + 1 ∧ e'.tickets = ticket ∧ e'.replies = e.replies ∧
      e'.acceptances = e.acceptances.insert ticket ⟨id, caller⟩ ∧
      e'.desk.held =
        (if e.desk.resolution?.isNone then e.desk.held ++ [⟨ticket, id⟩] else e.desk.held) ∧
      e'.outcomes = e.outcomes ++
        (e.desk.resolution?.map fun r => Completion.resolve ⟨ticket, id⟩ r.error).toList := by
  obtain ⟨d, r, t, step, -, -, -, rfl, rfl⟩ := accept_ok h
  refine ⟨rfl, rfl, rfl, rfl, PayoutDesk.held_take e.desk step _ _, ?_⟩
  rw [← PayoutDesk.outcome?_eq]
  rfl

/-! ### The ledger of a run -/

/-- The outcomes that are still to be handled. -/
def World.queued (w : World) : List PayoutOutcome := w.engine.outcomes ++ w.taken

theorem World.queued_of_outcomes {w w' : World} {os : List PayoutOutcome}
    (houtcomes : w'.engine.outcomes = w.engine.outcomes ++ os) (htaken : w'.taken = w.taken) :
    w'.queued.Perm (w.queued ++ os) := by
  rw [queued, queued, houtcomes, htaken, List.append_assoc, List.append_assoc]
  exact List.perm_append_comm.append_left _

/-- The tickets issued, what the exchange did with their completions, the
outcomes handled, and the answers under their tickets. -/
structure Ledger where
  issued : List (Nat × PendingAcceptance)
  resolved : List (Nat × Resolution)
  handled : List PayoutOutcome
  answers : List (Nat × Reply)

namespace Ledger

def issuing (w : World) : Act → List (Nat × PendingAcceptance)
  | .ask (.accept id caller) =>
    match w.engine.accept id caller with
    | .ok (_, ticket) => [(ticket, ⟨id, caller⟩)]
    | .error _ => []
  | _ => []

def resolving (w : World) : Act → List (Nat × Resolution)
  | .release error => w.engine.desk.held.map fun c => (c.ticket, .ofRelease error)
  | a => (issuing w a).flatMap fun i => (w.engine.desk.resolution?.map fun r => (i.1, r)).toList

def handling (w : World) : Act → List PayoutOutcome
  | .settle o => if o ∈ w.taken then [o] else []
  | _ => []

def answering (w : World) (a : Act) : List (Nat × Reply) :=
  (handling w a).filterMap fun o =>
    (w.engine.acceptances.get? o.ticket).map fun p => (o.ticket, ⟨p.caller, o.error⟩)

def note (l : Ledger) (x : World × Act) : Ledger where
  issued := l.issued ++ issuing x.1 x.2
  resolved := l.resolved ++ resolving x.1 x.2
  handled := l.handled ++ handling x.1 x.2
  answers := l.answers ++ answering x.1 x.2

def ofTrace (h : List (World × Act)) : Ledger := h.foldl note ⟨[], [], [], []⟩

theorem ofTrace_concat (h : List (World × Act)) (x : World × Act) :
    ofTrace (h ++ [x]) = (ofTrace h).note x := by
  rw [ofTrace, List.foldl_append]
  rfl

theorem note_of_idle (l : Ledger) {w : World} {a : Act} (hissuing : issuing w a = [])
    (hresolving : resolving w a = []) (hhandling : handling w a = []) : l.note (w, a) = l := by
  simp only [note, answering, hissuing, hresolving, hhandling, List.append_nil, List.filterMap_nil]

/-- A world fits a ledger. Every ticket is with a held completion or resolved,
every resolution is queued or handled, and a ticket is pending until then. -/
structure Fits (l : Ledger) (past : List Reply) (w : World) : Prop where
  held : (l.issued.map Prod.fst).Perm
    (w.engine.desk.held.map Completion.ticket ++ l.resolved.map Prod.fst)
  queued : (l.resolved.map fun r => (r.1, r.2.error)).Perm
    ((w.queued ++ l.handled).map fun o => (o.ticket, o.error))
  bound : ∀ i ∈ l.issued, i.1 ≤ w.engine.tickets
  nodup : (l.issued.map Prod.fst).Nodup
  pending : ∀ k p, w.engine.acceptances.get? k = some p ↔
    (k, p) ∈ l.issued ∧ k ∉ l.handled.map PayoutOutcome.ticket
  answered : l.answers.map (fun a => (a.1, a.2.error)) =
    l.handled.map fun o => (o.ticket, o.error)
  caller : ∀ a ∈ l.answers, ∃ p, (a.1, p) ∈ l.issued ∧ a.2.caller = p.caller
  replies : w.engine.replies = past ++ l.answers.map Prod.snd

namespace Fits
variable {l : Ledger} {past : List Reply} {w w' : World}

theorem resolved_tickets (h : l.Fits past w) : (l.resolved.map Prod.fst).Perm
    (w.queued.map PayoutOutcome.ticket ++ l.handled.map PayoutOutcome.ticket) := by
  have hfst := h.queued.map Prod.fst
  simpa only [List.map_map, Function.comp_def, List.map_append] using hfst

theorem tickets (h : l.Fits past w) : (l.issued.map Prod.fst).Perm
    ((w.engine.desk.held.map Completion.ticket ++ w.queued.map PayoutOutcome.ticket) ++
      l.handled.map PayoutOutcome.ticket) := by
  have hall := h.held.trans (h.resolved_tickets.append_left _)
  rwa [← List.append_assoc] at hall

theorem nodup_resolved (h : l.Fits past w) : (l.resolved.map Prod.fst).Nodup :=
  (List.nodup_append.mp (h.held.nodup_iff.mp h.nodup)).2.1

theorem nodup_answers (h : l.Fits past w) : (l.answers.map Prod.fst).Nodup := by
  have hsame : l.answers.map Prod.fst = l.handled.map PayoutOutcome.ticket := by
    have hfst := congrArg (List.map Prod.fst) h.answered
    simpa only [List.map_map, Function.comp_def] using hfst
  rw [hsame]
  exact (List.nodup_append.mp (h.tickets.nodup_iff.mp h.nodup)).2.1

theorem eq_of_issued (h : l.Fits past w) {k : Nat} {p q : PendingAcceptance}
    (hp : (k, p) ∈ l.issued) (hq : (k, q) ∈ l.issued) : p = q :=
  congrArg Prod.snd (List.inj_on_of_nodup_map h.nodup hp hq rfl)

theorem keys (h : l.Fits past w) : w.engine.acceptances.keys.Perm
    (w.engine.desk.held.map Completion.ticket ++ w.queued.map PayoutOutcome.ticket) := by
  obtain ⟨hopen, -, hdisjoint⟩ := List.nodup_append.mp (h.tickets.nodup_iff.mp h.nodup)
  refine (List.perm_ext_iff_of_nodup w.engine.acceptances.nodup_keys hopen).mpr fun k => ?_
  have hissued := h.tickets.mem_iff (a := k)
  rw [List.mem_append] at hissued
  rw [Table.mem_keys]
  constructor
  · rintro ⟨p, hp⟩
    obtain ⟨hp, hunhandled⟩ := (h.pending k p).mp hp
    exact (hissued.mp (List.mem_map_of_mem hp)).resolve_right hunhandled
  · intro hk
    obtain ⟨⟨j, p⟩, hp, hj⟩ := List.mem_map.mp (hissued.mpr (Or.inl hk))
    change j = k at hj
    subst hj
    exact ⟨p, (h.pending j p).mpr ⟨hp, fun hhandled => hdisjoint j hk j hhandled rfl⟩⟩

/-- The answer to a caller says what became of its completion, once that is handled. -/
theorem mem_answers (h : l.Fits past w) {k : Nat} {p : PendingAcceptance}
    (hp : (k, p) ∈ l.issued) (error : Option String) :
    (k, ⟨p.caller, error⟩) ∈ l.answers ↔
      (∃ r, (k, r) ∈ l.resolved ∧ r.error = error) ∧ k ∈ l.handled.map PayoutOutcome.ticket := by
  have hresolved : ∀ o ∈ l.handled, ∃ r, (o.ticket, r) ∈ l.resolved ∧ r.error = o.error := by
    intro o ho
    have hmem := h.queued.mem_iff.mpr
      (List.mem_map_of_mem (f := fun o => (o.ticket, o.error)) (List.mem_append_right w.queued ho))
    obtain ⟨⟨j, r⟩, hr, heq⟩ := List.mem_map.mp hmem
    obtain ⟨hticket, herror⟩ := Prod.mk.inj heq
    rw [← hticket]
    exact ⟨r, hr, herror⟩
  constructor
  · intro ha
    have hmem := List.mem_map_of_mem (f := fun a => (a.1, a.2.error)) ha
    rw [h.answered] at hmem
    obtain ⟨o, ho, heq⟩ := List.mem_map.mp hmem
    cases heq
    exact ⟨hresolved o ho, List.mem_map_of_mem ho⟩
  · rintro ⟨⟨r, hr, rfl⟩, hhandled⟩
    obtain ⟨o, ho, rfl⟩ := List.mem_map.mp hhandled
    obtain ⟨r', hr', herror⟩ := hresolved o ho
    have hsame : r' = r :=
      congrArg Prod.snd (List.inj_on_of_nodup_map h.nodup_resolved hr' hr rfl)
    have hmem := List.mem_map_of_mem (f := fun o => (o.ticket, o.error)) ho
    rw [← h.answered, ← herror, hsame] at hmem
    obtain ⟨⟨j, caller, error⟩, ha, heq⟩ := List.mem_map.mp hmem
    cases heq
    obtain ⟨q, hq, hcaller⟩ := h.caller _ ha
    rw [h.eq_of_issued hp hq, ← hcaller]
    exact ha

/-! ### What an act does to the ledger -/

/-- Completions are resolved: their outcomes join the queue. -/
theorem resolve (h : l.Fits past w) (cs : List Completion) (r : Resolution)
    (hheld : w.engine.desk.held.Perm (w'.engine.desk.held ++ cs))
    (hqueued : w'.queued.Perm (w.queued ++ cs.map fun c => c.resolve r.error))
    (hacceptances : w'.engine.acceptances = w.engine.acceptances)
    (htickets : w'.engine.tickets = w.engine.tickets)
    (hreplies : w'.engine.replies = w.engine.replies) :
    Fits { l with resolved := l.resolved ++ cs.map fun c => (c.ticket, r) } past w' where
  held := by
    refine List.perm_iff_count.mpr fun k => ?_
    have hissued := h.held.count_eq k
    have hmoved := (hheld.map Completion.ticket).count_eq k
    have hfst : (cs.map fun c => (c.ticket, r)).map Prod.fst = cs.map Completion.ticket := by
      rw [List.map_map]
      rfl
    simp only [List.map_append, hfst, List.count_append] at *
    omega
  queued := by
    refine List.perm_iff_count.mpr fun x => ?_
    have hresolved := h.queued.count_eq x
    have hmoved := (hqueued.map fun o => (o.ticket, o.error)).count_eq x
    simp only [List.map_append, List.map_map, Function.comp_def, List.count_append,
      Completion.resolve_ticket, Completion.resolve_error] at *
    omega
  bound := by
    rw [htickets]
    exact h.bound
  nodup := h.nodup
  pending := by
    rw [hacceptances]
    exact h.pending
  answered := h.answered
  caller := h.caller
  replies := by
    rw [hreplies]
    exact h.replies

theorem keep (h : l.Fits past w) (hacceptances : w'.engine.acceptances = w.engine.acceptances)
    (htickets : w'.engine.tickets = w.engine.tickets)
    (hreplies : w'.engine.replies = w.engine.replies)
    (hdesk : w'.engine.desk = w.engine.desk) (hqueued : w'.queued.Perm w.queued) :
    l.Fits past w' := by
  have hheld : w.engine.desk.held.Perm (w'.engine.desk.held ++ []) := by
    rw [hdesk, List.append_nil]
  have hqueued' : w'.queued.Perm
      (w.queued ++ [].map fun c : Completion => c.resolve Resolution.succeeded.error) := by
    rwa [List.map_nil, List.append_nil]
  have hfits := h.resolve [] .succeeded hheld hqueued' hacceptances htickets hreplies
  rwa [List.map_nil, List.append_nil] at hfits

/-- A ticket is issued, and its completion is held. -/
theorem issue (h : l.Fits past w) {c : Completion} {p : PendingAcceptance}
    (hticket : c.ticket = w.engine.tickets + 1)
    (hheld : w'.engine.desk.held = w.engine.desk.held ++ [c]) (hqueued : w'.queued = w.queued)
    (hacceptances : w'.engine.acceptances = w.engine.acceptances.insert c.ticket p)
    (htickets : w'.engine.tickets = c.ticket)
    (hreplies : w'.engine.replies = w.engine.replies) :
    Fits { l with issued := l.issued ++ [(c.ticket, p)] } past w' := by
  have hnew : c.ticket ∉ l.issued.map Prod.fst := by
    intro hmem
    obtain ⟨i, hi, hfst⟩ := List.mem_map.mp hmem
    have hle := h.bound i hi
    omega
  have hunhandled : c.ticket ∉ l.handled.map PayoutOutcome.ticket := by
    intro hmem
    exact hnew (h.tickets.mem_iff.mpr (List.mem_append_right _ hmem))
  constructor
  · refine List.perm_iff_count.mpr fun k => ?_
    have hissued := h.held.count_eq k
    simp only [hheld, List.map_append, List.count_append, List.map_cons, List.map_nil] at *
    omega
  · rw [hqueued]
    exact h.queued
  · intro i hi
    rw [htickets]
    rcases List.mem_append.mp hi with hi | hi
    · have hle := h.bound i hi
      omega
    · obtain rfl := List.mem_singleton.mp hi
      exact Nat.le_refl _
  · rw [List.map_append, List.map_singleton, List.nodup_append]
    refine ⟨h.nodup, List.nodup_singleton _, ?_⟩
    rintro k hk j hj rfl
    obtain rfl := List.mem_singleton.mp hj
    exact hnew hk
  · intro k q
    rw [hacceptances, Table.get?_insert, List.mem_append, List.mem_singleton]
    split
    next hk =>
      subst hk
      constructor
      · intro hq
        cases hq
        exact ⟨Or.inr rfl, hunhandled⟩
      · rintro ⟨hold | hlast, -⟩
        · exact absurd (List.mem_map_of_mem hold) hnew
        · cases hlast
          rfl
    next hk =>
      rw [h.pending]
      constructor
      · rintro ⟨hold, hwaits⟩
        exact ⟨Or.inl hold, hwaits⟩
      · rintro ⟨hold | hlast, hwaits⟩
        · exact ⟨hold, hwaits⟩
        · cases hlast
          exact absurd rfl hk
  · exact h.answered
  · intro a ha
    obtain ⟨q, hq, hcaller⟩ := h.caller a ha
    exact ⟨q, List.mem_append_left _ hq, hcaller⟩
  · rw [hreplies]
    exact h.replies

theorem pending_of_queued (h : l.Fits past w) {o : PayoutOutcome} (ho : o ∈ w.queued) :
    ∃ p, (o.ticket, p) ∈ l.issued ∧ w.engine.acceptances.get? o.ticket = some p := by
  have hissued : o.ticket ∈ l.issued.map Prod.fst := h.tickets.mem_iff.mpr
    (List.mem_append_left _ (List.mem_append_right _ (List.mem_map_of_mem ho)))
  obtain ⟨⟨k, p⟩, hp, hk⟩ := List.mem_map.mp hissued
  change k = o.ticket at hk
  subst hk
  refine ⟨p, hp, (h.pending _ p).mpr ⟨hp, ?_⟩⟩
  intro hhandled
  -- no ticket is both queued and handled
  have hdisjoint := (List.nodup_append.mp (h.tickets.nodup_iff.mp h.nodup)).2.2
  exact hdisjoint _ (List.mem_append_right _ (List.mem_map_of_mem ho)) _ hhandled rfl

/-- The outcome of a pending acceptance is handled, and its caller answered. -/
theorem settle (h : l.Fits past w) {o : PayoutOutcome} {p : PendingAcceptance}
    (hp : (o.ticket, p) ∈ l.issued) (hqueued : w.queued.Perm (o :: w'.queued))
    (hdesk : w'.engine.desk = w.engine.desk) (htickets : w'.engine.tickets = w.engine.tickets)
    (hacceptances : w'.engine.acceptances = w.engine.acceptances.erase o.ticket)
    (hreplies : w'.engine.replies = w.engine.replies ++ [⟨p.caller, o.error⟩]) :
    Fits { l with
      handled := l.handled ++ [o]
      answers := l.answers ++ [(o.ticket, ⟨p.caller, o.error⟩)] } past w' where
  held := by
    rw [hdesk]
    exact h.held
  queued := by
    refine List.perm_iff_count.mpr fun x => ?_
    have hresolved := h.queued.count_eq x
    have hmoved := (hqueued.map fun o => (o.ticket, o.error)).count_eq x
    simp only [List.map_append, List.map_cons, List.map_nil, List.count_append,
      List.count_cons, List.count_nil] at *
    omega
  bound := by
    rw [htickets]
    exact h.bound
  nodup := h.nodup
  pending := by
    intro k q
    rw [hacceptances, Table.get?_erase, List.map_append, List.map_singleton, List.mem_append,
      List.mem_singleton, not_or]
    split
    next hk => simp only [hk, not_true_eq_false, and_false, reduceCtorEq]
    next hk =>
      rw [h.pending]
      simp only [hk, not_false_eq_true, and_true]
  answered := by
    simp only [List.map_append, List.map_singleton, h.answered]
  caller := by
    intro a ha
    rcases List.mem_append.mp ha with ha | ha
    · exact h.caller a ha
    · rw [List.mem_singleton.mp ha]
      exact ⟨p, hp, rfl⟩
  replies := by
    simp only [hreplies, h.replies, List.map_append, List.map_singleton, List.append_assoc]

theorem after_accept (h : l.Fits past w) (stamp : Stamp) (id : TradeId) (caller : Nat) :
    (l.note (w, .ask (.accept id caller))).Fits past
      (w.after (stamp, .ask (.accept id caller))) := by
  cases hok : w.engine.accept id caller with
  | error err =>
    have hidle : l.note (w, .ask (.accept id caller)) = l := by
      apply note_of_idle <;> simp only [resolving, issuing, handling, hok, List.flatMap_nil]
    have hsame : w.after (stamp, .ask (.accept id caller)) = w := by
      simp only [World.after, World.serving, World.request?, Engine.serve, hok]
    rw [hidle, hsame]
    exact h
  | ok x =>
    obtain ⟨e', ticket⟩ := x
    have hafter : w.after (stamp, .ask (.accept id caller)) = { w with engine := e' } := by
      simp only [World.after, World.serving, World.request?, Engine.serve, hok]
    obtain ⟨hticket, htickets, hreplies, hacceptances, hheld, houtcomes⟩ :=
      Engine.accept_payouts hok
    rw [hafter]
    cases hresolution : w.engine.desk.resolution? with
    | none =>
      have hnote : l.note (w, .ask (.accept id caller)) =
          { l with issued := l.issued ++ [(ticket, ⟨id, caller⟩)] } := by
        simp [note, issuing, resolving, handling, answering, hok, hresolution]
      simp only [hresolution, Option.isNone_none, if_true, Option.map_none, Option.toList_none,
        List.append_nil] at hheld houtcomes
      rw [hnote]
      exact h.issue (c := ⟨ticket, id⟩) hticket hheld (congrArg (· ++ w.taken) houtcomes)
        hacceptances htickets hreplies
    | some r =>
      have hnote : l.note (w, .ask (.accept id caller)) =
          { l with
            issued := l.issued ++ [(ticket, ⟨id, caller⟩)]
            resolved := l.resolved ++ [(ticket, r)] } := by
        simp [note, issuing, resolving, handling, answering, hok, hresolution]
      simp only [hresolution, Option.isNone_some, Bool.false_eq_true, if_false, Option.map_some,
        Option.toList_some] at hheld houtcomes
      rw [hnote]
      -- as if the completion were held first and resolved then
      let held : World := { w with engine := { e' with
        desk := { w.engine.desk with held := w.engine.desk.held ++ [⟨ticket, id⟩] }
        outcomes := w.engine.outcomes } }
      have hissued : Fits { l with issued := l.issued ++ [(ticket, ⟨id, caller⟩)] } past held :=
        h.issue (c := ⟨ticket, id⟩) hticket rfl rfl hacceptances htickets hreplies
      have hresolved : held.engine.desk.held = e'.desk.held ++ [⟨ticket, id⟩] := by
        rw [hheld]
      exact hissued.resolve [⟨ticket, id⟩] r (List.Perm.of_eq hresolved)
        (World.queued_of_outcomes houtcomes rfl) rfl rfl rfl

theorem after_release (h : l.Fits past w) (stamp : Stamp) (error : Option String) :
    (l.note (w, .release error)).Fits past (w.after (stamp, .release error)) := by
  have hnote : l.note (w, .release error) =
      { l with resolved := l.resolved ++
          w.engine.desk.held.map fun c => (c.ticket, .ofRelease error) } := by
    simp only [note, issuing, resolving, handling, answering, List.append_nil, List.filterMap_nil]
  rw [hnote]
  refine h.resolve w.engine.desk.held (.ofRelease error) (List.Perm.refl _)
    (World.queued_of_outcomes ?_ rfl) rfl rfl rfl
  simp only [World.after, Engine.release, PayoutDesk.released, Resolution.error_ofRelease]

theorem after_settle (h : l.Fits past w) (stamp : Stamp) (o : PayoutOutcome) :
    (l.note (w, .settle o)).Fits past (w.after (stamp, .settle o)) := by
  by_cases ho : o ∈ w.taken
  · obtain ⟨p, hissued, hp⟩ := h.pending_of_queued (List.mem_append_right w.engine.outcomes ho)
    have hnote : l.note (w, .settle o) =
        { l with
          handled := l.handled ++ [o]
          answers := l.answers ++ [(o.ticket, ⟨p.caller, o.error⟩)] } := by
      simp [note, issuing, resolving, handling, answering, ho, hp]
    have hafter : w.after (stamp, .settle o) =
        { w with engine := w.engine.receiveOutcome o, taken := w.taken.erase o } := by
      simp only [World.after, World.serving, World.request?, if_pos ho, Engine.serve, Engine.handle]
    rw [hnote, hafter, Engine.receiveOutcome_of_pending hp]
    refine h.settle hissued ?_ rfl rfl rfl rfl
    exact ((List.perm_cons_erase ho).append_left _).trans List.perm_middle
  · have hidle : l.note (w, .settle o) = l :=
      note_of_idle l rfl rfl (if_neg ho)
    have hsame : w.after (stamp, .settle o) = w := by
      simp only [World.after, World.serving, World.request?, if_neg ho, List.erase_of_not_mem ho]
    rw [hidle, hsame]
    exact h

theorem keep_serving (h : l.Fits past w) {a : Stamp × Act}
    (haccept : ∀ id caller, w.request? a.2 ≠ some (.accept id caller))
    (houtcome : ∀ o, w.request? a.2 ≠ some (.event (.payoutCompleted o)))
    (hengine : w'.engine = w.serving a) (htaken : w'.taken = w.taken) : l.Fits past w' := by
  have hsame : w'.engine.acceptances = w.engine.acceptances ∧
      w'.engine.tickets = w.engine.tickets ∧ w'.engine.replies = w.engine.replies ∧
      w'.engine.desk = w.engine.desk ∧ w'.engine.outcomes = w.engine.outcomes := by
    rw [hengine]
    rcases w.serving_cases a with ⟨-, hsame⟩ | ⟨r, hr, hserved⟩
    · rw [hsame]
      exact ⟨rfl, rfl, rfl, rfl, rfl⟩
    · rcases hserved.payouts with ⟨o, p, rfl, -⟩ | ⟨id, caller, ticket, rfl, -⟩ |
        ⟨hacceptances, htickets, hreplies, hdesk, houtcomes, -⟩
      · exact absurd hr (houtcome o)
      · exact absurd hr (haccept id caller)
      · exact ⟨hacceptances, htickets, hreplies, hdesk, houtcomes⟩
  obtain ⟨hacceptances, htickets, hreplies, hdesk, houtcomes⟩ := hsame
  refine h.keep hacceptances htickets hreplies hdesk (List.Perm.of_eq ?_)
  rw [World.queued, World.queued, houtcomes, htaken]

theorem after_other (h : l.Fits past w) (stamp : Stamp) {r : Request}
    (haccept : ∀ id caller, r ≠ .accept id caller)
    (houtcome : ∀ o, r ≠ .event (.payoutCompleted o)) :
    (l.note (w, .ask r)).Fits past (w.after (stamp, .ask r)) := by
  have hissuing : issuing w (.ask r) = [] := by
    cases r with
    | accept id caller => exact absurd rfl (haccept id caller)
    | _ => rfl
  have hidle : l.note (w, .ask r) = l := by
    refine note_of_idle l hissuing ?_ rfl
    simp only [resolving, hissuing, List.flatMap_nil]
  rw [hidle]
  refine h.keep_serving (a := (stamp, .ask r)) ?_ ?_ rfl rfl
  · intro id caller hr
    exact haccept id caller (Option.some.inj hr)
  · intro o hr
    exact houtcome o (Option.some.inj hr)

theorem after_retry (h : l.Fits past w) (stamp : Stamp) (t : Timer ResultMessage) :
    (l.note (w, .retry t)).Fits past (w.after (stamp, .retry t)) := by
  have hidle : l.note (w, .retry t) = l := note_of_idle l rfl rfl rfl
  rw [hidle]
  refine h.keep_serving (a := (stamp, .retry t)) ?_ ?_ rfl rfl
  · intro id caller hr
    cases World.request?_retry hr
  · intro o hr
    cases World.request?_retry hr

theorem after_act (h : l.Fits past w) (stamp : Stamp) {a : Act}
    (hsink : ∀ o, a ≠ .ask (.event (.payoutCompleted o))) :
    (l.note (w, a)).Fits past (w.after (stamp, a)) := by
  cases a with
  | ask r =>
    by_cases haccept : ∃ id caller, r = .accept id caller
    · obtain ⟨id, caller, rfl⟩ := haccept
      exact h.after_accept stamp id caller
    · refine h.after_other stamp (fun id caller hr => haccept ⟨id, caller, hr⟩) ?_
      rintro o rfl
      exact hsink o rfl
  | elapse millis =>
    rw [note_of_idle l rfl rfl rfl]
    exact h.keep rfl rfl rfl rfl (List.Perm.refl _)
  | retry t => exact h.after_retry stamp t
  | release error => exact h.after_release stamp error
  | take =>
    rw [note_of_idle l rfl rfl rfl]
    have hqueued : (w.taken ++ w.engine.outcomes).Perm w.queued := List.perm_append_comm
    exact h.keep rfl rfl rfl rfl hqueued
  | settle o => exact h.after_settle stamp o

end Fits

theorem fits_run {e : Engine} (hacceptances : e.acceptances = .empty) (hheld : e.desk.held = [])
    (houtcomes : e.outcomes = []) (as : List (Stamp × Act))
    (hsink : ∀ a ∈ as, ∀ o, a.2 ≠ .ask (.event (.payoutCompleted o))) :
    (ofTrace ((World.start e).trace as)).Fits e.replies ((World.start e).run as) := by
  have hqueued : (World.start e).queued = [] := by
    rw [World.queued, World.start, houtcomes, List.nil_append]
  have hstart : (ofTrace []).Fits e.replies (World.start e) := by
    constructor
    · rw [World.start, hheld]
      exact List.Perm.refl _
    · rw [hqueued]
      exact List.Perm.refl _
    · intro i hi
      cases hi
    · exact List.nodup_nil
    · intro k p
      simp [World.start, hacceptances, ofTrace]
    · rfl
    · intro a ha
      cases ha
    · exact (List.append_nil _).symm
  refine World.run_trace_induction (R := fun h w => (ofTrace h).Fits e.replies w)
    (Q := fun a => ∀ o, a ≠ .ask (.event (.payoutCompleted o))) ?_ as hsink [] _ hstart
  intro h w stamp a ha hfits
  rw [ofTrace_concat]
  exact hfits.after_act stamp ha

end Ledger

namespace World

/-- No acceptance is lost or answered twice. The tickets that are pending are those of
the completions held and the outcomes queued, and the answer to a ticket, given when its
outcome is handled, is what the exchange made of its completion. -/
theorem run_acceptances_answered {e : Engine} (hacceptances : e.acceptances = .empty)
    (hheld : e.desk.held = []) (houtcomes : e.outcomes = []) {as : List (Stamp × Act)}
    (hsink : ∀ a ∈ as, ∀ o, a.2 ≠ .ask (.event (.payoutCompleted o))) :
    let w := (start e).run as
    let l := Ledger.ofTrace ((start e).trace as)
    (w.engine.acceptances.keys.Perm
        (w.engine.desk.held.map Completion.ticket ++ w.queued.map PayoutOutcome.ticket) ∧
      w.engine.acceptances.keys.Nodup) ∧
    (l.issued.map Prod.fst).Nodup ∧
    (∀ k p, w.engine.acceptances.get? k = some p ↔
      (k, p) ∈ l.issued ∧ k ∉ l.handled.map PayoutOutcome.ticket) ∧
    (w.engine.replies = e.replies ++ l.answers.map Prod.snd ∧ (l.answers.map Prod.fst).Nodup ∧
      ∀ a ∈ l.answers, ∃ p, (a.1, p) ∈ l.issued ∧ a.2.caller = p.caller) ∧
    (l.resolved.map Prod.fst).Nodup ∧
    ∀ k p, (k, p) ∈ l.issued →
      ((k, ⟨p.caller, none⟩) ∈ l.answers ↔
        (k, .succeeded) ∈ l.resolved ∧ k ∈ l.handled.map PayoutOutcome.ticket) ∧
      ∀ message, (k, ⟨p.caller, some message⟩) ∈ l.answers ↔
        ((k, .failed message) ∈ l.resolved ∨
          ((k, .dropped) ∈ l.resolved ∧ message = lostCompletion)) ∧
        k ∈ l.handled.map PayoutOutcome.ticket := by
  intro w l
  have hfits : l.Fits e.replies w := Ledger.fits_run hacceptances hheld houtcomes as hsink
  refine ⟨⟨hfits.keys, w.engine.acceptances.nodup_keys⟩, hfits.nodup, hfits.pending,
    ⟨hfits.replies, hfits.nodup_answers, hfits.caller⟩, hfits.nodup_resolved, ?_⟩
  intro k p hp
  constructor
  · simpa only [Resolution.error_eq_none, exists_eq_right] using hfits.mem_answers hp none
  · intro message
    rw [hfits.mem_answers hp (some message)]
    refine and_congr_left fun _ => ?_
    simp only [Resolution.error_eq_some]
    constructor
    · rintro ⟨r, hr, rfl | ⟨rfl, hmessage⟩⟩
      · exact Or.inl hr
      · exact Or.inr ⟨hr, hmessage⟩
    · rintro (hr | ⟨hr, hmessage⟩)
      · exact ⟨_, hr, Or.inl rfl⟩
      · exact ⟨_, hr, Or.inr ⟨rfl, hmessage⟩⟩

end World

namespace Sample

/-- The result of a trade is accepted twice; both payouts succeed, one has been answered. -/
def acceptedTwice : List (Stamp × Act) :=
  [(stamp, .ask (.event (.support (opening (some forBuyer.result))))),
    (stamp, .ask (.accept tradeId 7)), (stamp, .ask (.accept tradeId 8)),
    (stamp, .release none), (stamp, .take), (stamp, .settle ⟨1, tradeId, none⟩)]

theorem acceptedTwice_sink :
    ∀ a ∈ acceptedTwice, ∀ o, a.2 ≠ .ask (.event (.payoutCompleted o)) := by
  intro a ha o ho
  simp only [acceptedTwice, List.mem_cons, List.not_mem_nil, or_false] at ha
  rcases ha with rfl | rfl | rfl | rfl | rfl | rfl <;> cases ho

end Sample

namespace World

open Sample in
theorem run_acceptances_answered_once :
    ((start Sample.engine).run acceptedTwice).engine.acceptances.keys.Perm [2] ∧
      (1, ⟨7, none⟩) ∈ (Ledger.ofTrace ((start Sample.engine).trace acceptedTwice)).answers := by
  obtain ⟨⟨hkeys, -⟩, -, -, -, -, hanswers⟩ :=
    run_acceptances_answered (e := Sample.engine) rfl rfl rfl acceptedTwice_sink
  have hheld : ((start Sample.engine).run acceptedTwice).engine.desk.held = [] := by
    decide +kernel
  have hqueued : ((start Sample.engine).run acceptedTwice).queued = [⟨2, tradeId, none⟩] := by
    decide +kernel
  have hissued : (1, ⟨tradeId, 7⟩) ∈
      (Ledger.ofTrace ((start Sample.engine).trace acceptedTwice)).issued := by decide +kernel
  have hresolved : (1, Resolution.succeeded) ∈
      (Ledger.ofTrace ((start Sample.engine).trace acceptedTwice)).resolved := by decide +kernel
  have hhandled : 1 ∈ (Ledger.ofTrace ((start Sample.engine).trace acceptedTwice)).handled.map
      PayoutOutcome.ticket := by decide +kernel
  rw [hheld, hqueued] at hkeys
  exact ⟨hkeys, (hanswers 1 _ hissued).1.mpr ⟨hresolved, hhandled⟩⟩

end World

end Mediation
