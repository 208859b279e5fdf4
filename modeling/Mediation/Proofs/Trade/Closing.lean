import Mediation.Proofs.Engine.Conservation
import Mediation.Proofs.Trade.Calls

/-!
# Live or closed, unless added again

A trade that is closed leaves the live ones, and no call brings it back but
one: a trade may be added under the id of a closed one. Then the id is live and
closed, and stays so, since a trade whose id is closed is not closed again.
-/

namespace Mediation.Registry

theorem apart_after_addTrade {b : Book} {t : Trade} {id : TradeId} :
    (b.addTrade t).Apart id ↔ b.Apart id ∧ ¬ (t.id = id ∧ b.isClosed id = true) := by
  have hclosed : b.closed.get? id = none ↔ ¬ b.isClosed id = true := by
    rw [Book.isClosed, Table.contains, Option.not_isSome_iff_eq_none]
  unfold Book.Apart Book.addTrade
  rw [Table.get?_insert]
  split
  next hid =>
    rw [hclosed]
    simp only [hid, true_and, reduceCtorEq, false_or]
    exact ⟨fun h => ⟨.inr h, h⟩, And.right⟩
  next hid =>
    have hne : ¬ t.id = id := fun heq => hid heq.symm
    simp only [hne, false_and, not_false_eq_true, and_true]

theorem apart_after_closeTrade {b b' : Book} {i id : TradeId} {state : DisputeState}
    (h : b.closeTrade? i state = some b') : b'.Apart id ↔ b.Apart id := by
  obtain ⟨t, -, hnone, -, rfl⟩ := Book.closeTrade?_some h
  unfold Book.Apart
  rw [Table.get?_erase, Table.get?_insert]
  split
  next hid => exact ⟨fun _ => .inr (hid ▸ hnone), fun _ => .inl rfl⟩
  next => rfl

theorem Steady.apart_iff {b b' : Book} (h : Steady b b') (id : TradeId) :
    b'.Apart id ↔ b.Apart id := by
  unfold Book.Apart
  rw [h.closed, ← Option.not_isSome_iff_eq_none, h.live, Option.not_isSome_iff_eq_none]

/-- The call adds a trade under the id, which is closed. -/
def AddsAgain (id : TradeId) (x : Registry × Call) : Prop :=
  ∃ t, x.2 = .addTrade t ∧ t.id = id ∧ x.1.book.isClosed id = true

theorem apart_after_iff (r : Registry) (c : Call) (id : TradeId) :
    (r.after c).book.Apart id ↔ r.book.Apart id ∧ ¬ AddsAgain id (r, c) := by
  rcases r.after_cases c with ⟨hc, hsteady⟩ | ⟨t, rfl⟩ | ⟨i, state, b, rfl, hclose, hbook⟩
  · have hno : ¬ AddsAgain id (r, c) := by
      rintro ⟨t, ht, -⟩
      exact hc t ht
    rw [hsteady.apart_iff, and_iff_left hno]
  · rw [after, withBook, apart_after_addTrade]
    refine and_congr_right fun _ => not_congr ?_
    constructor
    · rintro ⟨hid, hclosed⟩
      exact ⟨t, rfl, hid, hclosed⟩
    · rintro ⟨u, hu, hid, hclosed⟩
      cases hu
      exact ⟨hid, hclosed⟩
  · have hno : ¬ AddsAgain id (r, .closeTrade i state) := by
      rintro ⟨t, ht, -⟩
      cases ht
    rw [hbook, apart_after_closeTrade hclose, and_iff_left hno]

/-- Over a run an id gets live and closed exactly if it is added again. -/
theorem apart_run_iff (r : Registry) (cs : List Call) (id : TradeId) :
    (r.run cs).book.Apart id ↔ r.book.Apart id ∧ ∀ x ∈ r.trace cs, ¬ AddsAgain id x := by
  induction cs generalizing r with
  | nil => exact (and_iff_left fun _ hx => nomatch hx).symm
  | cons c cs ih =>
    rw [trace, List.forall_mem_cons, ← and_assoc, ← apart_after_iff]
    exact ih (r.after c)

theorem isClosed_iff {b : Book} {id : TradeId} :
    b.isClosed id = true ↔ ∃ t, b.closed.get? id = some t := Option.isSome_iff_exists

theorem not_apart_iff {b : Book} {id : TradeId} :
    ¬ b.Apart id ↔ (∃ t, b.live.get? id = some t) ∧ b.isClosed id = true := by
  rw [Book.Apart, not_or, ← ne_eq, Option.ne_none_iff_exists', ← ne_eq, Option.ne_none_iff_exists',
    isClosed_iff]

/-- From the empty registry, no id is live and closed unless a trade is added under the id of a
closed one. As long as it is not, a closed trade is found and not updated. Once it is, the trade
that was added is found and updated, and it can no longer be closed. -/
theorem live_or_closed_unless_added_again (cs : List Call) (id : TradeId) :
    let start := ofTradeBook .empty
    let r := start.run cs
    (r.book.Apart id ↔ ∀ x ∈ start.trace cs, ¬ AddsAgain id x) ∧
    (r.book.isClosed id = true → r.book.Apart id →
      (∀ f, r.answer (.update id f) = .trade none ∧ r.after (.update id f) = r) ∧
      ∃ t, r.book.closed.get? id = some t ∧ r.answer (.findTrade id) = .trade (some t)) ∧
    (¬ r.book.Apart id →
      (∃ t, r.book.live.get? id = some t ∧ r.answer (.findTrade id) = .trade (some t) ∧
        ∀ f, r.answer (.update id f) = .trade (some (f t))) ∧
      ∀ later state, (r.run later).answer (.closeTrade id state) = .flag false) := by
  intro start r
  refine ⟨?_, fun hclosed hapart => ?_, fun hboth => ?_⟩
  · rw [apart_run_iff]
    exact and_iff_right (.inl rfl)
  · obtain ⟨t, ht⟩ := isClosed_iff.mp hclosed
    have hlive : r.book.live.get? id = none := by
      refine hapart.resolve_right fun hnone => ?_
      rw [ht] at hnone
      cases hnone
    refine ⟨fun f => ⟨?_, ?_⟩, t, ht, ?_⟩
    · rw [answer, hlive, Option.map_none]
    · have hsame : r.book.update id f = r.book := by
        refine r.book.update_eq_self id f fun u hu => ?_
        rw [hlive] at hu
        cases hu
      rw [after, update, hsame, withBook]
    · rw [answer, Book.findTrade?, hlive, ht, Option.none_or]
  · obtain ⟨⟨t, ht⟩, -⟩ := not_apart_iff.mp hboth
    refine ⟨⟨t, ht, ?_, fun f => ?_⟩, fun later state => ?_⟩
    · rw [answer, Book.findTrade?, ht, Option.some_or]
    · rw [answer, ht, Option.map_some]
    · have hstill : ¬ (r.run later).book.Apart id := fun h =>
        hboth ((apart_run_iff r later id).mp h).1
      have hclosed := (not_apart_iff.mp hstill).2
      rw [answer, Book.closeTrade?, if_pos hclosed, Option.isSome_none]

open Sample

/-- The sample trade is closed, and then added again as it was before. -/
def closedAndAddedAgain : List Call :=
  let requested := { trade with disputeState := .mediationRequested }
  [.addTrade requested, .closeTrade tradeId .mediationClosed, .addTrade requested]

/-- The trade is closed for good until it is added again, and then it cannot be closed. -/
theorem live_or_closed_unless_added_again_sample :
    let closed := (ofTradeBook .empty).run (closedAndAddedAgain.take 2)
    let again := (ofTradeBook .empty).run closedAndAddedAgain
    closed.answer (.update tradeId id) = .trade none ∧
      (∃ t, closed.answer (.findTrade tradeId) = .trade (some t)) ∧
      ∀ later state, (again.run later).answer (.closeTrade tradeId state) = .flag false := by
  intro closed again
  obtain ⟨-, hapart, -⟩ :=
    live_or_closed_unless_added_again (closedAndAddedAgain.take 2) tradeId
  obtain ⟨-, -, hboth⟩ := live_or_closed_unless_added_again closedAndAddedAgain tradeId
  have hclosed : closed.book.isClosed tradeId = true := by decide +kernel
  have hgone : closed.book.live.get? tradeId = none := by decide +kernel
  obtain ⟨hupdate, t, -, hfound⟩ := hapart hclosed (.inl hgone)
  have hagain : ¬ again.book.Apart tradeId :=
    not_apart_iff.mpr ⟨Option.isSome_iff_exists.mp (by decide +kernel), by decide +kernel⟩
  exact ⟨(hupdate id).1, ⟨t, hfound⟩, (hboth hagain).2⟩

theorem not_live_or_closed :
    let r := (ofTradeBook .empty).run closedAndAddedAgain
    let requested := { trade with disputeState := .mediationRequested }
    ¬ r.book.Apart tradeId ∧ r.answer (.isClosed tradeId) = .flag true ∧
      r.answer (.update tradeId id) = .trade (some requested) ∧
      r.answer (.findTrade tradeId) = .trade (some requested) ∧
      r.book.closed.get? tradeId = some { trade with disputeState := .mediationClosed } := by
  have hlive : ((ofTradeBook .empty).run closedAndAddedAgain).book.live.get? tradeId =
      some { trade with disputeState := .mediationRequested } := by
    decide +kernel
  have hclosed : ((ofTradeBook .empty).run closedAndAddedAgain).book.isClosed tradeId = true := by
    decide +kernel
  refine ⟨not_apart_iff.mpr ⟨⟨_, hlive⟩, hclosed⟩, ?_, ?_, ?_, by decide +kernel⟩
  · rw [answer, hclosed]
  · rw [answer, hlive, Option.map_some, id]
  · rw [answer, Book.findTrade?, hlive, Option.some_or]

end Mediation.Registry
