import Mathlib.Data.List.Nodup
import Mediation.Proofs.Engine.Notifications
import Mediation.Proofs.Engine.Runs
import Mediation.Proofs.Trade.Calls

/-!
# The phases that listeners hear of

Each listener of a registry hears of every phase change, in the order in which
they happen. For one trade they lead from the phase that it had to the phase
that it has, each from where the one before it ended.
-/

namespace Mediation

/-- The changes lead from one phase to another, without a gap and without one that changes
nothing. Where there is no trade there is no phase, and no change. -/
def PhaseChange.Unbroken : Option TradePhase → List PhaseChange → Option TradePhase → Prop
  | p, [], q => p = q
  | p, c :: cs, q =>
    p = some c.previous ∧ c.previous ≠ c.trade.phase ∧ Unbroken (some c.trade.phase) cs q

theorem PhaseChange.Unbroken.append {p q s : Option TradePhase} {cs ds : List PhaseChange}
    (h : Unbroken p cs q) (h' : Unbroken q ds s) : Unbroken p (cs ++ ds) s := by
  induction cs generalizing p with
  | nil =>
    cases h
    exact h'
  | cons c cs ih => exact ⟨h.1, h.2.1, ih h.2.2⟩

/-- The phase of a trade, live or closed. -/
def Book.phase? (b : Book) (id : TradeId) : Option TradePhase := (b.findTrade? id).map Trade.phase

namespace Book
variable {b b' : Book} {id : TradeId} {t : Trade}

theorem phase?_of_live (h : b.live.get? id = some t) : b.phase? id = some t.phase := by
  rw [phase?, findTrade?, h, Option.some_or, Option.map_some]

theorem phase?_of_not_live (h : b.live.get? id = none) :
    b.phase? id = (b.closed.get? id).map Trade.phase := by
  rw [phase?, findTrade?, h, Option.none_or]

/-- A trade that is not live afterwards has kept its phase. -/
theorem unbroken_of_not_live (h : b'.live.get? id = none) (hphase : b.phase? id = b'.phase? id) :
    PhaseChange.Unbroken (b.phase? id) (b.change? b' id).toList (b'.phase? id) := by
  have hnone : b.change? b' id = none := by
    refine Still.change?_eq fun t' ht' => ?_
    rw [h] at ht'
    cases ht'
  rw [hnone]
  exact hphase

/-- A trade that is live before and after, or closed before and after. -/
theorem unbroken_of_kept (hlive : (b'.live.get? id).isSome = (b.live.get? id).isSome)
    (hclosed : b'.closed.get? id = b.closed.get? id) :
    PhaseChange.Unbroken (b.phase? id) (b.change? b' id).toList (b'.phase? id) := by
  cases h' : b'.live.get? id with
  | none =>
    rw [h', eq_comm, Option.isSome_none, ← Bool.not_eq_true, Option.not_isSome_iff_eq_none] at hlive
    refine unbroken_of_not_live h' ?_
    rw [phase?_of_not_live hlive, phase?_of_not_live h', hclosed]
  | some t' =>
    rw [h', eq_comm, Option.isSome_some, Option.isSome_iff_exists] at hlive
    obtain ⟨t, h⟩ := hlive
    rw [phase?_of_live h, phase?_of_live h', change?, h, h']
    dsimp only
    split
    next hphase => exact congrArg some hphase.symm
    next hphase => exact ⟨rfl, Ne.symm hphase, rfl⟩

theorem unbroken_of_closeTrade? {i : TradeId} {state : DisputeState}
    (h : b.closeTrade? i state = some b') (id : TradeId) :
    PhaseChange.Unbroken (b.phase? id) (b.change? b' id).toList (b'.phase? id) := by
  obtain ⟨t, hlive, -, -, rfl⟩ := closeTrade?_some h
  by_cases hid : id = i
  · subst hid
    have hgone : (b.live.erase id).get? id = none := Table.get?_erase_self b.live id
    refine unbroken_of_not_live hgone ?_
    rw [phase?_of_live hlive, phase?_of_not_live hgone, Table.get?_insert_self, Option.map_some]
  · exact unbroken_of_kept (congrArg Option.isSome (Table.get?_erase_of_ne b.live hid))
      (Table.get?_insert_of_ne b.closed _ hid)

end Book

namespace Registry

/-- The call adds no trade, and gives no trade another id or phase but by setting the phase or
recording a payout transaction. -/
def Call.KeepsPhase : Call → Prop
  | .addTrade _ => False
  | .update _ f => ∀ t, (f t).id = t.id ∧ (f t).phase = t.phase
  | _ => True

theorem Call.KeepsPhase.keepsId {c : Call} (h : c.KeepsPhase) : c.KeepsId := by
  cases c with
  | update id f => exact fun t => (h t).1
  | _ => trivial

/-! ### One call -/

variable {r : Registry} {c : Call}

theorem notifies_after (h : r.book.Filed) (hc : c.KeepsPhase) : Notifies r (r.after c) := by
  cases c with
  | addTrade t => exact hc.elim
  | setPhase id phase => exact (Quiet.refl r).setPhase h id phase
  | setPayoutTx id tx => exact (Quiet.refl r).setPayoutTx h id tx
  | update id f => exact (quiet_update r id fun t => (hc t).2).notifies
  | addOffer o => exact Quiet.notifies ⟨rfl, fun _ t ht => ⟨t, ht, rfl⟩⟩
  | closeOffer id =>
    rcases r.closeOffer_cases id with ⟨-, hsame⟩ | ⟨b, hclose, hafter⟩
    · rw [hsame]
      exact (Quiet.refl r).notifies
    · obtain ⟨o, -, -, rfl⟩ := Book.closeOffer?_some hclose
      rw [hafter]
      exact Quiet.notifies ⟨rfl, fun _ t ht => ⟨t, ht, rfl⟩⟩
  | closeTrade id state =>
    rcases r.closeTrade_cases id state with ⟨-, hsame⟩ | ⟨b, hclose, hafter⟩
    · rw [hsame]
      exact (Quiet.refl r).notifies
    · obtain ⟨u, -, -, -, rfl⟩ := Book.closeTrade?_some hclose
      rw [hafter]
      refine Quiet.notifies ⟨rfl, fun j t ht => ⟨t, ?_, rfl⟩⟩
      change (r.book.live.erase id).get? j = some t at ht
      rw [Table.get?_erase] at ht
      split at ht
      next => cases ht
      next => exact ht
  | _ => exact (Quiet.refl r).notifies

theorem told_eq_change? (h : r.book.Filed) (hc : c.KeepsPhase) (id : TradeId) :
    (r.told c).filter (fun x => x.trade.id = id) =
      (r.book.change? (r.after c).book id).toList := by
  obtain ⟨sent, hsent, hchange⟩ := notifies_after h hc
  rw [changes_after] at hsent
  rw [List.append_cancel_left hsent]
  exact hchange id

theorem unbroken_after (h : r.book.Filed) (hc : c.KeepsPhase) (id : TradeId) :
    PhaseChange.Unbroken (r.book.phase? id) ((r.told c).filter fun x => x.trade.id = id)
      ((r.after c).book.phase? id) := by
  rw [told_eq_change? h hc]
  rcases r.after_cases c with ⟨-, hsteady⟩ | ⟨t, rfl⟩ | ⟨i, state, b, rfl, hclose, hbook⟩
  · exact Book.unbroken_of_kept (hsteady.live id) (hsteady.closed ▸ rfl)
  · exact hc.elim
  · rw [hbook]
    exact Book.unbroken_of_closeTrade? hclose id

theorem not_live_after (hc : c.KeepsPhase) {id : TradeId} (h : r.book.live.get? id = none) :
    (r.after c).book.live.get? id = none := by
  rcases r.after_cases c with ⟨-, hsteady⟩ | ⟨t, rfl⟩ | ⟨i, state, b, rfl, hclose, hbook⟩
  · rwa [← Option.not_isSome_iff_eq_none, hsteady.live, Option.not_isSome_iff_eq_none]
  · exact hc.elim
  · obtain ⟨u, -, -, -, rfl⟩ := Book.closeTrade?_some hclose
    rw [hbook]
    change (r.book.live.erase i).get? id = none
    rw [Table.get?_erase, h, ite_self]

/-- What is told is the live trade as it is after the call. -/
theorem live_of_told {x : PhaseChange} (h : r.book.Filed) (hc : c.KeepsPhase)
    (hx : x ∈ r.told c) : (r.after c).book.live.get? x.trade.id = some x.trade := by
  have hown : x ∈ (r.book.change? (r.after c).book x.trade.id).toList := by
    rw [← told_eq_change? h hc]
    exact List.mem_filter.mpr ⟨hx, decide_eq_true rfl⟩
  rw [Option.mem_toList, Book.change?] at hown
  split at hown
  next t t' ht ht' =>
    split at hown
    next => cases hown
    next => rw [ht', ← Option.some.inj hown]
  next => cases hown

/-! ### A run -/

theorem unbroken_run (h : r.book.Filed) {cs : List Call} (hcs : ∀ c ∈ cs, c.KeepsPhase)
    (id : TradeId) :
    PhaseChange.Unbroken (r.book.phase? id) ((r.notices cs).filter fun x => x.trade.id = id)
      ((r.run cs).book.phase? id) := by
  induction cs generalizing r with
  | nil => rfl
  | cons c cs ih =>
    obtain ⟨hc, hrest⟩ := List.forall_mem_cons.mp hcs
    have hlater := ih (filed_after h hc.keepsId) hrest
    have happend := (unbroken_after h hc id).append hlater
    rw [← List.filter_append] at happend
    exact happend

/-- A trade that is not live stays so, and nothing is told of it. -/
theorem notices_of_not_live (h : r.book.Filed) {cs : List Call} (hcs : ∀ c ∈ cs, c.KeepsPhase)
    {id : TradeId} (hid : r.book.live.get? id = none) :
    (r.notices cs).filter (fun x => x.trade.id = id) = [] := by
  induction cs generalizing r with
  | nil => rfl
  | cons c cs ih =>
    obtain ⟨hc, hrest⟩ := List.forall_mem_cons.mp hcs
    have hfirst : (r.told c).filter (fun x => x.trade.id = id) = [] := by
      rw [told_eq_change? h hc, Book.change?, hid]
      rfl
    have hlater := ih (filed_after h hc.keepsId) hrest (not_live_after hc hid)
    rw [notices, trace, List.flatMap_cons, List.filter_append, hfirst]
    exact hlater

theorem live_of_told_run (h : r.book.Filed) {cs : List Call} (hcs : ∀ c ∈ cs, c.KeepsPhase) :
    ∀ x ∈ r.trace cs, ∃ sent, (x.1.after x.2).changes = x.1.changes ++ sent ∧
      ∀ c ∈ sent, (x.1.after x.2).book.live.get? c.trade.id = some c.trade := by
  induction cs generalizing r with
  | nil => exact fun _ hx => nomatch hx
  | cons c cs ih =>
    obtain ⟨hc, hrest⟩ := List.forall_mem_cons.mp hcs
    rw [trace, List.forall_mem_cons]
    exact ⟨⟨r.told c, changes_after r c, fun x hx => live_of_told h hc hx⟩,
      ih (filed_after h hc.keepsId) hrest⟩

/-! ### The payout transaction -/

theorem setPayoutTx_of_live {id : TradeId} {t : Trade} (h : r.book.live.get? id = some t)
    (tx : PayoutTx) :
    let paid : Trade := { t with phase := .payoutPublished, payoutTx := some tx }
    r.answer (.setPayoutTx id tx) = .flag true ∧
      (r.after (.setPayoutTx id tx)).book.live.get? id = some paid ∧
      (r.after (.setPayoutTx id tx)).changes =
        r.changes ++ if t.phase = .payoutPublished then [] else [⟨paid, t.phase⟩] := by
  intro paid
  have hrecorded : (r.book.setPayoutTx id tx).live.get? id =
      some { t with payoutTx := some tx } := by
    rw [Book.setPayoutTx, Book.update_live, if_pos rfl, h, Option.map_some]
  refine ⟨?_, ?_, ?_⟩
  · simp only [answer, isLive, withBook, Table.contains, h, hrecorded, Option.isSome_some,
      Bool.and_self]
  · change ((r.withBook (r.book.setPayoutTx id tx)).setPhase id _).book.live.get? id = some paid
    rw [setPhase_live, if_pos rfl, withBook, hrecorded, Option.map_some]
  · rw [changes_after, told, Book.phaseChange?, hrecorded]
    dsimp only
    split <;> rfl

/-! ### Listeners -/

/-- What a registry calls its listeners with: each change goes to all of them, from the first to
the last, before the next change. -/
def passed (n : Nat) (changes : List PhaseChange) : List (Nat × PhaseChange) :=
  changes.flatMap fun c => (List.range n).map fun k => (k, c)

def heardBy (k : Nat) (xs : List (Nat × PhaseChange)) : List PhaseChange :=
  (xs.filter fun x => x.1 = k).map Prod.snd

theorem heardBy_passed {k n : Nat} (hk : k < n) (changes : List PhaseChange) :
    heardBy k (passed n changes) = changes := by
  have honce : (List.range n).filter (fun j => j = k) = [k] := by
    rw [List.filter_eq, List.count_eq_one_of_mem List.nodup_range (List.mem_range.mpr hk)]
    rfl
  have hfirst (c : PhaseChange) : heardBy k ((List.range n).map fun j => (j, c)) = [c] := by
    rw [heardBy, List.filter_map, List.map_map]
    exact congrArg (List.map fun _ => c) honce
  induction changes with
  | nil => rfl
  | cons c cs ih =>
    rw [passed, List.flatMap_cons, heardBy, List.filter_append, List.map_append]
    exact congrArg₂ List.append (hfirst c) ih

/-- Every listener of a registry hears of the same changes. For each trade these lead from the
phase that it had when the calls began, live or closed, to the phase that it has, each from where
the one before it ended; there are none for a trade that was not live. The trade that a listener
is given is the live trade as it is at that moment. And recording the payout transaction of a
live trade succeeds in every phase and leads to payoutPublished, of which listeners hear unless
it was the phase before. -/
theorem phases_heard_unbroken (b : TradeBook) (before cs : List Call) (n : Nat)
    (hbefore : ∀ c ∈ before, c.KeepsId) (hcs : ∀ c ∈ cs, c.KeepsPhase) :
    let r := (ofTradeBook b).run before
    let changes := r.notices cs
    (r.run cs).changes = r.changes ++ changes ∧
    (∀ k < n, heardBy k (passed n changes) = changes) ∧
    (∀ id,
      PhaseChange.Unbroken (r.book.phase? id) (changes.filter fun x => x.trade.id = id)
        ((r.run cs).book.phase? id) ∧
      (r.book.live.get? id = none → changes.filter (fun x => x.trade.id = id) = [])) ∧
    (∀ x ∈ r.trace cs, ∃ sent, (x.1.after x.2).changes = x.1.changes ++ sent ∧
      ∀ c ∈ sent, (x.1.after x.2).book.live.get? c.trade.id = some c.trade) ∧
    ∀ id t tx, r.book.live.get? id = some t →
      let paid : Trade := { t with phase := .payoutPublished, payoutTx := some tx }
      r.answer (.setPayoutTx id tx) = .flag true ∧
      (r.after (.setPayoutTx id tx)).book.live.get? id = some paid ∧
      (r.after (.setPayoutTx id tx)).changes =
        r.changes ++ if t.phase = .payoutPublished then [] else [⟨paid, t.phase⟩] := by
  intro r changes
  have hfiled : r.book.Filed := filed_run_ofTradeBook b hbefore
  exact ⟨changes_run r cs, fun k hk => heardBy_passed hk changes,
    fun id => ⟨unbroken_run hfiled hcs id, notices_of_not_live hfiled hcs⟩,
    live_of_told_run hfiled hcs, fun id t tx ht => setPayoutTx_of_live ht tx⟩

open Sample

/-- The sample trade is paid out twice and closed, and then its phase is to be set. -/
def paidAndClosed : List Call :=
  [.setPhase tradeId .depositPublished, .setPhase tradeId .depositPublished,
    .setPayoutTx tradeId ⟨"aa"⟩,
    .update tradeId fun t => { t with disputeState := .mediationRequested },
    .setPayoutTx tradeId ⟨"bb"⟩, .closeTrade tradeId .mediationClosed, .setPhase tradeId .fiatSent]

/-- Two listeners hear of two changes, and the closed trade is in the phase to which the second
one leads. -/
theorem phases_heard_unbroken_closed :
    let r := (ofTradeBook .empty).run [.addTrade trade]
    let changes := r.notices paidAndClosed
    (∀ k < 2, heardBy k (passed 2 changes) = changes) ∧
    changes.map (fun x => (x.trade.id, x.previous, x.trade.phase)) =
      [(tradeId, .init, .depositPublished), (tradeId, .depositPublished, .payoutPublished)] ∧
    PhaseChange.Unbroken (some .init) (changes.filter fun x => x.trade.id = tradeId)
      (some .payoutPublished) ∧
    (r.run paidAndClosed).book.live.get? tradeId = none ∧
    r.answer (.setPayoutTx tradeId ⟨"aa"⟩) = .flag true := by
  intro r changes
  have hkept : ∀ c ∈ paidAndClosed, c.KeepsPhase := by
    simp only [paidAndClosed, List.forall_mem_cons, List.not_mem_nil, false_implies,
      Call.KeepsPhase, implies_true, and_self]
  obtain ⟨-, hheard, hunbroken, -, hpayout⟩ :=
    phases_heard_unbroken .empty [.addTrade trade] paidAndClosed 2
      (List.forall_mem_singleton.mpr trivial) hkept
  have hbegin : r.book.phase? tradeId = some .init := by decide +kernel
  have hend : (r.run paidAndClosed).book.phase? tradeId = some .payoutPublished := by
    decide +kernel
  have hlive : r.book.live.get? tradeId = some trade := by decide +kernel
  refine ⟨hheard, by decide +kernel, ?_, by decide +kernel, (hpayout tradeId trade _ hlive).1⟩
  rw [← hbegin, ← hend]
  exact (hunbroken tradeId).1

end Registry

end Mediation
