import Mediation.Proofs.Engine.Runs
import Mediation.Proofs.Trade.Calls

/-!
# Registries made from snapshots

A snapshot lists each entry once, in the order of the ids, and a registry that
is made from it has the book of the one it was taken of. So the two cannot be
told apart, whatever they are asked for from then on.
-/

namespace Mediation

/-- Closes a trade by taking it out of the live ones; one that cannot get to the state is
put back. -/
def Book.takeAndClose (b : Book) (id : TradeId) (state : DisputeState) : Book × Bool :=
  if b.isClosed id then (b, false)
  else
    match b.live.get? id with
    | none => (b, false)
    | some t =>
      let left := { b with live := b.live.erase id }
      match t.advance state with
      | .ok t => ({ left with closed := left.closed.insert id t }, true)
      | .error _ => ({ left with live := left.live.insert id t }, false)

theorem Book.takeAndClose_eq (b : Book) (id : TradeId) (state : DisputeState) :
    b.takeAndClose id state =
      ((b.closeTrade? id state).getD b, (b.closeTrade? id state).isSome) := by
  unfold takeAndClose closeTrade?
  split
  next => rfl
  next =>
    cases hlive : b.live.get? id with
    | none => rfl
    | some t =>
      dsimp only
      cases t.advance state with
      | ok u => rfl
      | error e =>
        have hput := Table.insert_erase b.live hlive
        simp only [hput, Option.getD_none, Option.isSome_none]

namespace Book.Filed

theorem pairwise_snapshot {b : Book} (h : b.Filed) :
    (b.snapshot.trades.map Trade.id).Pairwise (· < ·) ∧
      (b.snapshot.closedTrades.map Trade.id).Pairwise (· < ·) ∧
      (b.snapshot.openOffers.map OpenOffer.id).Pairwise (· < ·) :=
  ⟨h.live.pairwise_values, h.closed.pairwise_values, h.offers.pairwise_values⟩

end Book.Filed

namespace Registry

/-! ### Registries with one book -/

theorem after_congr {r r' : Registry} (h : r'.book = r.book) (c : Call) :
    (r'.after c).book = (r.after c).book ∧ r'.answer c = r.answer c ∧ r'.told c = r.told c := by
  obtain ⟨b, n, changes⟩ := r
  cases h
  cases c <;> exact ⟨rfl, rfl, rfl⟩

theorem run_congr {r r' : Registry} (h : r'.book = r.book) (cs : List Call) :
    (r'.run cs).book = (r.run cs).book ∧ r'.answers cs = r.answers cs ∧
      r'.notices cs = r.notices cs := by
  induction cs generalizing r r' with
  | nil => exact ⟨h, rfl, rfl⟩
  | cons c cs ih =>
    obtain ⟨hbook, hanswer, htold⟩ := after_congr h c
    obtain ⟨hrun, hanswers, hnotices⟩ := ih hbook
    refine ⟨hrun, ?_, ?_⟩
    · change r'.answer c :: (r'.after c).answers cs = r.answer c :: (r.after c).answers cs
      rw [hanswer, hanswers]
    · change r'.told c ++ (r'.after c).notices cs = r.told c ++ (r.after c).notices cs
      rw [htold, hnotices]

/-! ### Snapshots -/

/-- Whatever a registry has been asked for, its snapshot is in the order of the ids, with no
id twice in one list. The registry made from the snapshot answers as the original does, tells
its listeners the same and has the same snapshots, whatever they are asked for from then on.
And a closing that is refused leaves the snapshot as it was, also where the trade is taken out
and put back. -/
theorem snapshots_restore (b : TradeBook) (cs : List Call) (hcs : ∀ c ∈ cs, c.KeepsId) :
    let r := (ofTradeBook b).run cs
    let s := r.book.snapshot
    let restored := ofTradeBook s
    ((s.trades.map Trade.id).Pairwise (· < ·) ∧ (s.closedTrades.map Trade.id).Pairwise (· < ·) ∧
      (s.openOffers.map OpenOffer.id).Pairwise (· < ·)) ∧
    (restored.book.snapshot = s ∧ ∀ id,
      restored.answer (.findTrade id) = r.answer (.findTrade id) ∧
      restored.answer (.findOffer id) = r.answer (.findOffer id) ∧
      restored.answer (.isClosed id) = r.answer (.isClosed id)) ∧
    (∀ more, restored.answers more = r.answers more ∧ restored.notices more = r.notices more ∧
      (restored.run more).book.snapshot = (r.run more).book.snapshot) ∧
    (∀ id state, r.answer (.closeTrade id state) = .flag false →
      (r.after (.closeTrade id state)).book.snapshot = s ∧
      r.book.takeAndClose id state = (r.book, false)) ∧
    ∀ id, r.answer (.closeOffer id) = .flag false →
      (r.after (.closeOffer id)).book.snapshot = s := by
  intro r s restored
  have hfiled : r.book.Filed := filed_run_ofTradeBook b hcs
  have hbook : restored.book = r.book := hfiled.ofTradeBook_snapshot
  refine ⟨hfiled.pairwise_snapshot, ⟨congrArg Book.snapshot hbook, fun id => ?_⟩,
    fun more => ?_, fun id state hrefused => ?_, fun id hrefused => ?_⟩
  · exact ⟨(after_congr hbook _).2.1, (after_congr hbook _).2.1, (after_congr hbook _).2.1⟩
  · obtain ⟨hrun, hanswers, hnotices⟩ := run_congr hbook more
    exact ⟨hanswers, hnotices, congrArg Book.snapshot hrun⟩
  · have hnone : r.book.closeTrade? id state = none := by
      rw [answer, Answer.flag.injEq] at hrefused
      exact Option.not_isSome_iff_eq_none.mp (ne_true_of_eq_false hrefused)
    rw [after, Book.takeAndClose_eq, hnone]
    exact ⟨rfl, rfl⟩
  · have hnone : r.book.closeOffer? id = none := by
      rw [answer, Answer.flag.injEq] at hrefused
      exact Option.not_isSome_iff_eq_none.mp (ne_true_of_eq_false hrefused)
    rw [after, hnone]
    rfl

open Sample

def earlierId : TradeId := ⟨"T0", by decide⟩

/-- Stored lists that are out of order, with two trades of one id. -/
def unordered : TradeBook where
  trades := [trade, { trade with id := earlierId }, { trade with payoutTx := some ⟨"aa"⟩ }]
  closedTrades := []
  openOffers := [.create tradeId, .create earlierId]

/-- The earlier trade asks for a refund, and then its mediation cannot be closed. -/
def refundRequested : List Call :=
  [.update earlierId fun t => { t with disputeState := .refundRequested }, .closeOffer tradeId]

theorem snapshots_restore_unordered :
    let r := (ofTradeBook unordered).run refundRequested
    let s := r.book.snapshot
    (s.trades.map fun t => (t.id, t.payoutTx)) = [(earlierId, none), (tradeId, some ⟨"aa"⟩)] ∧
    (s.openOffers.map OpenOffer.id).Pairwise (· < ·) ∧
    (∀ more, (ofTradeBook s).answers more = r.answers more) ∧
    r.answer (.closeTrade earlierId .mediationClosed) = .flag false ∧
    (r.after (.closeTrade earlierId .mediationClosed)).book.snapshot = s := by
  intro r s
  have hkept : ∀ c ∈ refundRequested, c.KeepsId := by
    simp only [refundRequested, List.forall_mem_cons, List.not_mem_nil, false_implies,
      Call.KeepsId, implies_true, and_self]
  obtain ⟨⟨-, -, hoffers⟩, -, hmore, hrefused, -⟩ :=
    snapshots_restore unordered refundRequested hkept
  have hanswer : r.answer (.closeTrade earlierId .mediationClosed) = .flag false := by
    decide +kernel
  exact ⟨by decide +kernel, hoffers, fun more => (hmore more).1, hanswer, (hrefused _ _ hanswer).1⟩

end Registry

end Mediation
