import Mediation.Proofs.Engine.Case
import Mediation.Proofs.Engine.Requests

/-!
# What the sweep closes

Whether a trade is closed depends on nothing but its case, so that the sweep
does the same to each case, in whatever order it goes through the disputes: a
live trade that is paid, and whose mediation is open or over, becomes a closed
one, and nothing else changes. After that there is nothing left to close.
-/

namespace Mediation

/-! ### Closing the trade of a case -/

/-- A trade can end its mediation while that is open, or when it has ended. -/
theorem Trade.toOption_advance (t : Trade) :
    (t.advance .mediationClosed).toOption =
      if t.disputeState ∈ [.mediationRequested, .mediationStartedByPeer, .mediationClosed] then
        some { t with disputeState := .mediationClosed }
      else none := by
  obtain ⟨id, terms, phase, state, verdict, process, tx⟩ := t
  cases state <;> rfl

namespace Case

/-- The closed trade that the live one of a case becomes, if it is paid and can be closed. -/
def closing? (k : Case) : Option Trade :=
  match k.live, k.closed with
  | some t, none => if t.isPayoutPublished then (t.advance .mediationClosed).toOption else none
  | _, _ => none

/-- The case once its trade has been closed, or the case as it is. -/
def swept (k : Case) : Case :=
  match k.closing? with
  | none => k
  | some t => { k with live := none, closed := some t }

theorem closing?_eq_some_iff {k : Case} {u : Trade} :
    k.closing? = some u ↔ ∃ t, k.live = some t ∧ k.closed = none ∧ t.isPayoutPublished = true ∧
      t.disputeState ∈ [.mediationRequested, .mediationStartedByPeer, .mediationClosed] ∧
      u = { t with disputeState := .mediationClosed } := by
  obtain ⟨dispute, live, closed⟩ := k
  cases live with
  | none => simp [closing?]
  | some t =>
    cases closed with
    | some v => simp [closing?]
    | none =>
      simp only [closing?, Option.some.injEq, true_and, exists_eq_left',
        Option.ite_none_right_eq_some, t.toOption_advance]
      rw [eq_comm (a := u)]

theorem swept_of_none {k : Case} (h : k.closing? = none) : k.swept = k := by
  rw [swept, h]

theorem swept_of_some {k : Case} {t : Trade} (h : k.closing? = some t) :
    k.swept = { k with live := none, closed := some t } := by
  rw [swept, h]

theorem closing?_swept (k : Case) : k.swept.closing? = none := by
  cases h : k.closing? with
  | none => rw [swept_of_none h, h]
  | some t => rw [swept_of_some h, closing?]

theorem swept_swept (k : Case) : k.swept.swept = k.swept := swept_of_none k.closing?_swept

end Case

namespace Engine

theorem closePaidTrade?_eq (e : Engine) (id : TradeId) :
    e.closePaidTrade? id = (e.caseOf id).closing?.map fun t =>
      { e with registry := e.registry.withBook { e.registry.book with
        live := e.registry.book.live.erase id
        closed := e.registry.book.closed.insert id t } } := by
  cases hlive : e.registry.book.live.get? id with
  | none =>
    have hnone : (e.caseOf id).closing? = none := by
      simp only [Case.closing?, caseOf, hlive]
    have hclose : e.registry.book.closeTrade? id .mediationClosed = none := by
      simp only [Book.closeTrade?, hlive, ite_self]
    rw [hnone]
    simp only [closePaidTrade?, hclose, Option.map_none, ite_self]
    split <;> rfl
  | some t =>
    have hfind : e.registry.book.findTrade? id = some t := by
      rw [Book.findTrade?, hlive, Option.some_or]
    cases hclosed : e.registry.book.closed.get? id with
    | some u =>
      have hnone : (e.caseOf id).closing? = none := by
        simp only [Case.closing?, caseOf, hlive, hclosed]
      have hclose : e.registry.book.closeTrade? id .mediationClosed = none := by
        simp only [Book.closeTrade?, Book.isClosed, Table.contains, hclosed, Option.isSome_some,
          if_true]
      rw [hnone]
      simp only [closePaidTrade?, hfind, hclose, Option.map_none, ite_self]
    | none =>
      simp only [closePaidTrade?, hfind, Book.closeTrade?, Book.isClosed, Table.contains, hclosed,
        hlive, Option.isSome_none, Bool.false_eq_true, if_false, Case.closing?, caseOf]
      split
      next => cases t.advance .mediationClosed <;> rfl
      next => rfl

theorem caseOf_closePaidTrade? (e : Engine) (id j : TradeId) :
    ((e.closePaidTrade? id).getD e).caseOf j =
      if j = id then (e.caseOf j).swept else e.caseOf j := by
  rw [closePaidTrade?_eq]
  cases hclosing : (e.caseOf id).closing? with
  | none =>
    rw [Option.map_none, Option.getD_none]
    split
    next hj => rw [hj, Case.swept_of_none hclosing]
    next => rfl
  | some t =>
    rw [Option.map_some, Option.getD_some]
    split
    next hj =>
      subst hj
      rw [Case.swept_of_some hclosing]
      simp only [caseOf, Registry.withBook, Table.get?_erase_self, Table.get?_insert_self]
    next hj =>
      simp only [caseOf, Registry.withBook, Table.get?_erase_of_ne _ hj,
        Table.get?_insert_of_ne _ _ hj]

theorem isSome_closePaidTrade? (e : Engine) (id : TradeId) :
    (e.closePaidTrade? id).isSome = (e.caseOf id).closing?.isSome := by
  rw [closePaidTrade?_eq, Option.isSome_map]

theorem closePaidTrades_cons (e : Engine) (id : TradeId) (ids : List TradeId) :
    e.closePaidTrades (id :: ids) =
      let rest := ((e.closePaidTrade? id).getD e).closePaidTrades ids
      (rest.1, rest.2 + if (e.caseOf id).closing?.isSome then 1 else 0) := by
  rw [← isSome_closePaidTrade?]
  simp only [closePaidTrades]
  cases e.closePaidTrade? id <;> rfl

/-- Each trade is closed on its own, and counted if it is. -/
theorem closePaidTrades_spec {ids : List TradeId} (hids : ids.Nodup) (e : Engine) :
    (∀ j, (e.closePaidTrades ids).1.caseOf j =
      if j ∈ ids then (e.caseOf j).swept else e.caseOf j) ∧
    (e.closePaidTrades ids).2 = ids.countP fun id => (e.caseOf id).closing?.isSome := by
  induction ids generalizing e with
  | nil => exact ⟨fun j => (if_neg List.not_mem_nil).symm, rfl⟩
  | cons id ids ih =>
    obtain ⟨hid, hids⟩ := List.nodup_cons.mp hids
    have hfirst := e.caseOf_closePaidTrade? id
    obtain ⟨hcases, hcount⟩ := ih hids ((e.closePaidTrade? id).getD e)
    rw [closePaidTrades_cons]
    constructor
    · intro j
      dsimp only
      rw [hcases, hfirst]
      by_cases hj : j = id
      · subst hj
        simp only [hid, List.mem_cons, if_false, if_true, true_or]
      · simp only [hj, List.mem_cons, if_false, false_or]
    · -- the other trades are as they were when their turn comes
      rw [List.countP_cons]
      dsimp only
      rw [hcount]
      congr 1
      refine List.countP_congr fun j hj => ?_
      have hne : j ≠ id := fun heq => hid (heq ▸ hj)
      rw [hfirst, if_neg hne]

/-- The outcome of a payout that succeeded closes the trade of its acceptance, and no other. -/
theorem caseOf_receiveOutcome {e : Engine} {o : PayoutOutcome} {p : PendingAcceptance}
    (hp : e.acceptances.get? o.ticket = some p) (ho : o.error = none) (j : TradeId) :
    (e.receiveOutcome o).caseOf j =
      if j = p.tradeId then (e.caseOf j).swept else e.caseOf j := by
  rw [← caseOf_closePaidTrade?]
  simp only [receiveOutcome, hp, ho, closePaidTrade?_eq, caseOf]
  cases Case.closing? _ <;> rfl

/-! ### The sweep -/

theorem caseOf_cleanup (e : Engine) (id : TradeId) :
    e.cleanup.1.caseOf id =
      if e.disputes.contains id = true then (e.caseOf id).swept else e.caseOf id := by
  have hclosed := (closePaidTrades_spec e.disputes.disputes.nodup_keys e).1 id
  simp only [DisputeStore.mem_keys_iff_contains] at hclosed
  rw [← hclosed]
  simp only [cleanup]
  split <;> rfl

theorem cleanup_count (e : Engine) :
    e.cleanup.2 = e.disputes.disputes.keys.countP fun id => (e.caseOf id).closing?.isSome :=
  (closePaidTrades_spec e.disputes.disputes.nodup_keys e).2

theorem cleanup_of_none {e : Engine} (h : e.cleanup.2 = 0) : e.cleanup = (e, 0) := by
  have hcount : (e.closePaidTrades e.disputes.disputes.keys).2 = 0 := h
  simp only [cleanup, hcount, if_true, closePaidTrades_of_none hcount]

theorem registry_closePaidTrades (ids : List TradeId) (e : Engine) :
    (e.closePaidTrades ids).1.registry =
      { e.registry with
        book := { e.registry.book with
          live := (e.closePaidTrades ids).1.registry.book.live
          closed := (e.closePaidTrades ids).1.registry.book.closed } } := by
  induction ids generalizing e with
  | nil => rfl
  | cons id ids ih =>
    rw [closePaidTrades_cons, ih, closePaidTrade?_eq]
    cases (e.caseOf id).closing? <;> rfl

/-- The sweep changes live and closed trades, and asks for them to be stored if it closed any. -/
theorem cleanup_frame (e : Engine) :
    e.cleanup.1 =
      { e with registry := { e.registry with
        book := { e.registry.book with
          live := e.cleanup.1.registry.book.live
          closed := e.cleanup.1.registry.book.closed }
        requests := e.registry.requests + if 0 < e.cleanup.2 then 1 else 0 } } := by
  by_cases hnone : e.cleanup.2 = 0
  · rw [cleanup_of_none hnone]
    rfl
  · have hcleanup : e.cleanup = ((e.closePaidTrades e.disputes.disputes.keys).1.storeTrades,
        e.cleanup.2) := by
      have hcount : (e.closePaidTrades e.disputes.disputes.keys).2 ≠ 0 := hnone
      simp only [cleanup, hcount, if_false]
    rw [if_pos (Nat.pos_of_ne_zero hnone), hcleanup]
    simp only [storeTrades, Registry.requestStore]
    rw [closePaidTrades_eq, registry_closePaidTrades]

theorem cleanup_cleanup (e : Engine) : e.cleanup.1.cleanup = (e.cleanup.1, 0) := by
  apply cleanup_of_none
  rw [cleanup_count]
  refine List.countP_eq_zero.mpr fun id hid => ?_
  have hdisputes : e.cleanup.1.disputes = e.disputes := by
    rw [e.cleanup_eq]
  rw [hdisputes, DisputeStore.mem_keys_iff_contains] at hid
  rw [caseOf_cleanup, if_pos hid, Case.closing?_swept]
  exact Bool.false_ne_true

/-- A live trade that the sweep is to close: there is a dispute about it, it is paid, its
mediation is open or over, and no closed trade has its id. -/
structure Overdue (e : Engine) (id : TradeId) (t : Trade) : Prop where
  live : e.registry.book.live.get? id = some t
  disputed : e.disputes.contains id = true
  paid : t.payoutTx.isSome = true
  unclosed : e.registry.book.closed.get? id = none
  state : t.disputeState ∈
    [DisputeState.mediationRequested, .mediationStartedByPeer, .mediationClosed]

theorem Overdue.closing?_eq {e : Engine} {id : TradeId} {t : Trade} (h : e.Overdue id t) :
    (e.caseOf id).closing? = some { t with disputeState := .mediationClosed } :=
  Case.closing?_eq_some_iff.mpr ⟨t, h.live, h.unclosed, h.paid, h.state, rfl⟩

theorem exists_overdue_iff (e : Engine) (id : TradeId) :
    (∃ t, e.Overdue id t) ↔
      e.disputes.contains id = true ∧ (e.caseOf id).closing?.isSome = true := by
  rw [Option.isSome_iff_exists]
  constructor
  · rintro ⟨t, h⟩
    exact ⟨h.disputed, _, h.closing?_eq⟩
  · rintro ⟨hdisputed, u, hu⟩
    obtain ⟨t, hlive, hclosed, hpaid, hstate, -⟩ := Case.closing?_eq_some_iff.mp hu
    exact ⟨t, hlive, hdisputed, hpaid, hclosed, hstate⟩

theorem Overdue.swept {e : Engine} {id : TradeId} {t : Trade} (h : e.Overdue id t) :
    e.cleanup.1.caseOf id =
      ⟨e.disputes.find? id, none, some { t with disputeState := .mediationClosed }⟩ := by
  rw [caseOf_cleanup, if_pos h.disputed, Case.swept_of_some h.closing?_eq]
  rfl

theorem caseOf_cleanup_of_not_overdue {e : Engine} {id : TradeId} (h : ∀ t, ¬ e.Overdue id t) :
    e.cleanup.1.caseOf id = e.caseOf id := by
  rw [caseOf_cleanup]
  split
  next hdisputed =>
    have hnone : (e.caseOf id).closing?.isSome ≠ true := fun hsome =>
      not_exists.mpr h ((e.exists_overdue_iff id).mpr ⟨hdisputed, hsome⟩)
    exact Case.swept_of_none (Option.not_isSome_iff_eq_none.mp hnone)
  next => rfl

/-- The sweep closes the overdue trades and no others, counts them, and asks for the book to be
stored if there are any. It changes nothing else, and a second sweep changes nothing at all. -/
theorem cleanup_closes_overdue (e : Engine) :
    let swept := e.cleanup.1
    let book := swept.registry.book
    (∀ id t, e.Overdue id t → book.live.get? id = none ∧
      book.closed.get? id = some { t with disputeState := .mediationClosed }) ∧
    (∀ id, (∀ t, ¬ e.Overdue id t) → book.live.get? id = e.registry.book.live.get? id ∧
      book.closed.get? id = e.registry.book.closed.get? id) ∧
    (∃ ids : List TradeId, ids.Nodup ∧ (∀ id, id ∈ ids ↔ ∃ t, e.Overdue id t) ∧
      e.cleanup.2 = ids.length) ∧
    swept = { e with registry := { e.registry with
      book := { e.registry.book with live := book.live, closed := book.closed }
      requests := e.registry.requests + if 0 < e.cleanup.2 then 1 else 0 } } ∧
    swept.cleanup = (swept, 0) := by
  intro swept book
  refine ⟨fun id t h => ?_, fun id h => ?_, ?_, e.cleanup_frame, e.cleanup_cleanup⟩
  · exact ⟨congrArg Case.live h.swept, congrArg Case.closed h.swept⟩
  · have hsame := caseOf_cleanup_of_not_overdue h
    exact ⟨congrArg Case.live hsame, congrArg Case.closed hsame⟩
  · refine ⟨e.disputes.disputes.keys.filter fun id => (e.caseOf id).closing?.isSome,
      e.disputes.disputes.nodup_keys.filter _, fun id => ?_, ?_⟩
    · rw [List.mem_filter, DisputeStore.mem_keys_iff_contains, exists_overdue_iff]
    · rw [cleanup_count, List.countP_eq_length_filter]

end Engine

end Mediation
