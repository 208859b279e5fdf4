import Mediation.Proofs.Engine.Scope
import Mediation.Proofs.Engine.Runs

/-!
# Trades are conserved, and closed trades are frozen

A trade is live or closed. Once it is closed it stays as it is; it is closed
only when it is paid, at the end of its mediation, and its dispute is stored.
Offers are neither added nor removed; one that is open is closed by a result
about an id that has no trade.
-/

namespace Mediation

/-! ### From one book to the next -/

namespace Book

/-- No trade with the id is both live and closed. -/
def Apart (b : Book) (id : TradeId) : Prop := b.live.get? id = none ∨ b.closed.get? id = none

theorem isSome_findTrade? (b : Book) (id : TradeId) : (b.findTrade? id).isSome = true ↔
    (b.live.get? id).isSome = true ∨ (b.closed.get? id).isSome = true := by
  rw [findTrade?, Option.isSome_or, Bool.or_eq_true]

/-- A book goes on as another one, in which trades of some ids (`disputed`) may have
been closed, and offers of some ids (`ruled`). -/
structure Carries (disputed ruled : TradeId → Prop) (b b' : Book) : Prop where
  found : ∀ id, (b'.findTrade? id).isSome = (b.findTrade? id).isSome
  apart : ∀ id, b.Apart id → b'.Apart id
  frozen : ∀ id t, b.closed.get? id = some t → b'.closed.get? id = some t
  entered : ∀ id t, b'.closed.get? id = some t → b.closed.get? id = some t ∨
    (disputed id ∧ t.disputeState = .mediationClosed ∧ t.isPayoutPublished = true)
  offers : ∀ id, b'.offers.get? id = b.offers.get? id ∨
    (ruled id ∧ b.findTrade? id = none ∧ ∃ o, b.offers.get? id = some o ∧
      o.state.isTerminal = false ∧ b'.offers.get? id = some { o with state := .closed })

namespace Carries
variable {disputed ruled : TradeId → Prop} {b b' b'' : Book}

theorem refl (disputed ruled : TradeId → Prop) (b : Book) : Carries disputed ruled b b where
  found _ := rfl
  apart _ h := h
  frozen _ _ h := h
  entered _ _ h := Or.inl h
  offers _ := Or.inl rfl

theorem trans (h : Carries disputed ruled b b') (h' : Carries disputed ruled b' b'') :
    Carries disputed ruled b b'' where
  found id := (h'.found id).trans (h.found id)
  apart id hid := h'.apart id (h.apart id hid)
  frozen id t ht := h'.frozen id t (h.frozen id t ht)
  entered := by
    intro id t ht
    rcases h'.entered id t ht with hold | hnew
    · exact h.entered id t hold
    · exact Or.inr hnew
  offers := by
    intro id
    rcases h.offers id with hsame | ⟨hruled, hnone, o, ho, hopen, hclosed⟩
    · rcases h'.offers id with hsame' | ⟨hruled, hnone, o, ho, hopen, hclosed⟩
      · exact Or.inl (hsame'.trans hsame)
      · have hfound := h.found id
        rw [hnone, Option.isSome_none] at hfound
        refine Or.inr ⟨hruled, Option.not_isSome_iff_eq_none.mp (by simp [← hfound]), o, ?_, hopen,
          hclosed⟩
        rw [← hsame, ho]
    · rcases h'.offers id with hsame' | ⟨-, -, o', ho', hopen', -⟩
      · exact Or.inr ⟨hruled, hnone, o, ho, hopen, hsame'.trans hclosed⟩
      · -- a closed offer is not closed again
        rw [hclosed] at ho'
        cases ho'
        cases hopen'

theorem mono {disputed' ruled' : TradeId → Prop} (h : Carries disputed ruled b b')
    (hdisputed : ∀ id, disputed id → disputed' id) (hruled : ∀ id, ruled id → ruled' id) :
    Carries disputed' ruled' b b' where
  found := h.found
  apart := h.apart
  frozen := h.frozen
  entered id t ht := (h.entered id t ht).imp_right fun hnew => ⟨hdisputed id hnew.1, hnew.2⟩
  offers id := (h.offers id).imp_right fun hnew => ⟨hruled id hnew.1, hnew.2⟩

theorem of_live (hlive : ∀ id, (b'.live.get? id).isSome = (b.live.get? id).isSome)
    (hclosed : b'.closed = b.closed) (hoffers : b'.offers = b.offers) :
    Carries disputed ruled b b' where
  found id := by
    simp only [findTrade?, Option.isSome_or, hlive, hclosed]
  apart id h := by
    rw [Apart, hclosed]
    refine h.imp_left fun hnone => ?_
    rw [← Option.not_isSome_iff_eq_none, hlive, hnone]
    decide
  frozen id t ht := by
    rw [hclosed]
    exact ht
  entered id t ht := by
    rw [hclosed] at ht
    exact Or.inl ht
  offers id := by
    rw [hoffers]
    exact Or.inl rfl

theorem update (b : Book) (id : TradeId) (f : Trade → Trade) :
    Carries disputed ruled b (b.update id f) := by
  refine of_live ?_ rfl rfl
  intro j
  rw [update_live]
  split
  · rw [Option.isSome_map]
  · rfl

theorem setPayoutTx (r : Registry) (id : TradeId) (tx : PayoutTx) :
    Carries disputed ruled r.book (r.setPayoutTx id tx).book :=
  (update r.book id _).trans (update _ id _)

/-- A result reaches a live trade, or closes an open offer. -/
theorem applyResult {id : TradeId} (hid : ruled id) (b : Book) (buyer seller : Coin) :
    Carries disputed ruled b (b.applyResult id buyer seller) where
  found j := by
    simp only [findTrade?, Option.isSome_or, applyResult_live, applyResult_closed]
    split
    · rw [Option.isSome_map]
    · rfl
  apart j h := by
    rw [Apart, applyResult_closed, applyResult_live]
    refine h.imp_left fun hnone => ?_
    rw [hnone, Option.map_none, ite_self]
  frozen j t ht := by
    rw [applyResult_closed]
    exact ht
  entered j t ht := by
    rw [applyResult_closed] at ht
    exact Or.inl ht
  offers j := by
    rcases b.applyResult_offers id j buyer seller with hsame | ⟨rfl, hnone, hclosed⟩
    · exact Or.inl hsame
    · exact Or.inr ⟨hid, hnone, hclosed⟩

end Carries

end Book

namespace Engine
open Book

theorem closePaidTrade?_carries {disputed ruled : TradeId → Prop} {e e' : Engine} {id : TradeId}
    (h : e.closePaidTrade? id = some e') (hid : disputed id) :
    Carries disputed ruled e.registry.book e'.registry.book := by
  obtain ⟨t, ht, hclosed, hpaid, -, rfl⟩ := closePaidTrade?_some h
  constructor
  · intro j
    simp only [Registry.withBook, findTrade?, Option.isSome_or, Table.get?_erase,
      Table.get?_insert]
    split
    next hj =>
      rw [hj, ht]
      rfl
    next => rfl
  · intro j hj
    simp only [Registry.withBook, Apart, Table.get?_erase, Table.get?_insert]
    split
    · exact Or.inl rfl
    · exact hj
  · intro j u hu
    simp only [Registry.withBook, Table.get?_insert]
    split
    next hj =>
      rw [hj, hclosed] at hu
      cases hu
    next => exact hu
  · intro j u hu
    simp only [Registry.withBook, Table.get?_insert] at hu
    split at hu
    next hj =>
      cases hu
      rw [hj]
      exact Or.inr ⟨hid, rfl, hpaid⟩
    next => exact Or.inl hu
  · intro j
    exact Or.inl rfl

theorem closePaidTrades_carries {disputed ruled : TradeId → Prop} (ids : List TradeId)
    (hids : ∀ id ∈ ids, disputed id) (e : Engine) :
    Carries disputed ruled e.registry.book (e.closePaidTrades ids).1.registry.book := by
  induction ids generalizing e with
  | nil => exact .refl _ _ _
  | cons id ids ih =>
    have hrest : ∀ j ∈ ids, disputed j := fun j hj => hids j (List.mem_cons_of_mem _ hj)
    unfold closePaidTrades
    split
    next => exact ih hrest e
    next e' h =>
      exact (closePaidTrade?_carries h (hids id (List.mem_cons_self ..))).trans (ih hrest e')

theorem cleanup_carries {ruled : TradeId → Prop} (e : Engine) :
    Carries (fun id => e.disputes.contains id = true) ruled e.registry.book
      e.cleanup.1.registry.book := by
  have hkeys : ∀ id ∈ e.disputes.disputes.keys, e.disputes.contains id = true := fun id =>
    (e.disputes.mem_keys_iff_contains id).mp
  have h : Carries (fun id => e.disputes.contains id = true) ruled e.registry.book
      (e.closePaidTrades e.disputes.disputes.keys).1.registry.book :=
    closePaidTrades_carries _ hkeys e
  simp only [cleanup]
  split
  · exact h
  · exact h

/-- Every pending acceptance is about a stored dispute. -/
def Backed (e : Engine) : Prop :=
  ∀ k p, e.acceptances.get? k = some p → e.disputes.contains p.tradeId = true

theorem Backed.congr {e e' : Engine} (h : e.Backed) (hacceptances : e'.acceptances = e.acceptances)
    (hdisputes : e'.disputes.disputes = e.disputes.disputes) : e'.Backed := by
  intro k p hp
  rw [hacceptances] at hp
  rw [DisputeStore.contains, DisputeStore.find?, hdisputes]
  exact h k p hp

theorem receiveOutcome_carries {ruled : TradeId → Prop} {e : Engine} (hbacked : e.Backed)
    (o : PayoutOutcome) :
    Carries (fun id => e.disputes.contains id = true) ruled e.registry.book
      (e.receiveOutcome o).registry.book := by
  unfold receiveOutcome
  split
  next => exact .refl _ _ _
  next p hp =>
    dsimp only
    split
    next => exact .refl _ _ _
    next =>
      cases hclose : closePaidTrade?
          { e with acceptances := e.acceptances.erase o.ticket } p.tradeId with
      | none => exact .refl _ _ _
      | some e' =>
        have hstored : e.disputes.contains p.tradeId = true := hbacked _ p hp
        have hclosed : Carries (fun id => e.disputes.contains id = true) ruled e.registry.book
            e'.registry.book :=
          closePaidTrade?_carries (e := { e with acceptances := e.acceptances.erase o.ticket })
            hclose hstored
        exact hclosed

theorem change_carries {disputed ruled : TradeId → Prop} (e : Engine) (id : TradeId)
    (u : TradeUpdate) :
    Carries disputed ruled e.registry.book (e.change id u).1.registry.book := by
  unfold change
  split
  next =>
    cases u with
    | phase phase => exact .update _ id _
    | payoutTx txid => exact .setPayoutTx e.registry id ⟨txid⟩
    | peerSignature signature => exact .update _ id _
  next => exact .refl _ _ _

/-- The book after a request: a trade that is closed has a stored dispute, and an offer that is
closed has the id of a result that is applied. -/
theorem Served.carries {e e' : Engine} {r : Request} (h : Served e r e') (hbacked : e.Backed) :
    Carries (fun id => e.disputes.contains id = true)
      (fun id => ∃ m, e.applied? r = some m ∧ m.tradeId = id) e.registry.book e'.registry.book := by
  cases h with
  | idle acks => exact .refl _ _ _
  | opened stamp d acks hr hnew =>
    dsimp only
    rw [addDispute_book]
    split
    · exact .refl _ _ _
    · exact .update _ _ _
  | said m acks hr hstored => exact .refl _ _ _
  | missed m a hr hclosing hmissing =>
    rw [missDispute_eq]
    exact .refl _ _ _
  | ruled m a closing acks hr htakes hclosing hstored =>
    dsimp only
    rw [ruling_book]
    exact .applyResult ⟨m, applied?_of_attempt? hr htakes hclosing hstored, rfl⟩ _ _ _
  | answered o p hr hp => exact receiveOutcome_carries hbacked o
  | accepted id caller ticket e' hr hok =>
    obtain ⟨d, res, t, step, -, -, -, -, rfl⟩ := accept_ok hok
    have haccepted : Carries (fun id => e.disputes.contains id = true)
        (fun id => ∃ m, e.applied? r = some m ∧ m.tradeId = id) e.registry.book
        (e.accepting id caller res).registry.book := .update _ id _
    rcases askPayout_registry (e.accepting id caller res) step (acceptedTrade t res) ⟨ticket, id⟩
      with hsame | hpaid
    · rw [hsame]
      exact haccepted
    · rw [hpaid]
      exact haccepted.trans (.setPayoutTx _ _ _)
  | rejected id hr => exact .update _ id _
  | swept hr => exact cleanup_carries e
  | changed id u hr => exact change_carries e id u

theorem Served.backed {e e' : Engine} {r : Request} (h : Served e r e') (hbacked : e.Backed) :
    e'.Backed := by
  intro k q hq
  apply h.contains
  rcases h.payouts with ⟨o, p, -, hp, rfl⟩ | ⟨id, caller, ticket, -, hok⟩ | ⟨hsame, -⟩
  · rw [receiveOutcome_of_pending hp, Table.get?_erase] at hq
    split at hq
    · cases hq
    · exact hbacked k q hq
  · obtain ⟨d, res, t, step, hd, -, -, -, rfl⟩ := accept_ok hok
    change (e.acceptances.insert (e.tickets + 1) ⟨id, caller⟩).get? k = some q at hq
    rw [Table.get?_insert] at hq
    split at hq
    · cases hq
      exact Option.isSome_iff_exists.mpr ⟨d, hd⟩
    · exact hbacked k q hq
  · rw [hsame] at hq
    exact hbacked k q hq

end Engine

namespace World
open Book

/-- The id of a result that an act applies. -/
def Rules (w : World) (a : Act) (id : TradeId) : Prop :=
  ∃ r m, w.request? a = some r ∧ w.engine.applied? r = some m ∧ m.tradeId = id

theorem after_carries {w : World} (hbacked : w.engine.Backed) (a : Stamp × Act) :
    Carries (fun id => w.engine.disputes.contains id = true) (w.Rules a.2)
      w.engine.registry.book (w.after a).engine.registry.book := by
  rcases w.after_engine a with ⟨r, hr, hserved⟩ | ⟨-, hsame⟩
  · refine (hserved.carries hbacked).mono (fun id hid => hid) ?_
    rintro id ⟨m, hm, hid⟩
    exact ⟨r, m, hr, hm, hid⟩
  · rw [hsame]
    exact .refl _ _ _

theorem after_backed {w : World} (hbacked : w.engine.Backed) (a : Stamp × Act) :
    (w.after a).engine.Backed := by
  rcases w.after_engine a with ⟨r, -, hserved⟩ | ⟨-, hsame⟩
  · exact hserved.backed hbacked
  · rw [hsame]
    exact hbacked

theorem after_contains {w : World} {id : TradeId} (hid : w.engine.disputes.contains id = true)
    (a : Stamp × Act) : (w.after a).engine.disputes.contains id = true := by
  rcases w.after_engine a with ⟨r, -, hserved⟩ | ⟨-, hsame⟩
  · exact hserved.contains hid
  · rw [hsame]
    exact hid

end World

/-! ### Runs -/

/-- An engine whose trades are live or closed, never both, and whose closed trades
are paid, at the end of their mediation, and have a stored dispute. -/
structure Engine.Sound (e : Engine) : Prop where
  apart : ∀ id, e.registry.book.Apart id
  closed : ∀ id t, e.registry.book.closed.get? id = some t →
    t.disputeState = .mediationClosed ∧ t.isPayoutPublished = true ∧
      e.disputes.contains id = true
  backed : e.Backed

namespace World
open Book

theorem after_sound {w : World} (h : w.engine.Sound) (a : Stamp × Act) :
    (w.after a).engine.Sound where
  apart id := (after_carries h.backed a).apart id (h.apart id)
  closed := by
    intro id t ht
    rcases (after_carries h.backed a).entered id t ht with hold | ⟨hstored, hstate, hpaid⟩
    · obtain ⟨hstate, hpaid, hstored⟩ := h.closed id t hold
      exact ⟨hstate, hpaid, after_contains hstored a⟩
    · exact ⟨hstate, hpaid, after_contains hstored a⟩
  backed := after_backed h.backed a

theorem run_sound {w : World} (h : w.engine.Sound) (as : List (Stamp × Act)) :
    (w.run as).engine.Sound :=
  run_induction (P := fun w => w.engine.Sound) (Q := fun _ => True)
    (fun _ stamp a _ hsound => after_sound hsound (stamp, a)) as (fun _ _ => trivial) w h

theorem run_carries {w : World} (h : w.engine.Sound) (as : List (Stamp × Act)) :
    Carries (fun _ => True) (fun _ => True) w.engine.registry.book
      (w.run as).engine.registry.book := by
  induction as generalizing w with
  | nil => exact .refl _ _ _
  | cons a as ih =>
    have hafter := (after_carries h.backed a).mono (fun _ _ => trivial) (fun _ _ => trivial)
    exact hafter.trans (ih (after_sound h a))

/-- Trades are conserved, closed trades stay as they are, and an offer that is not open stays
as it is; an open one is closed by a result about an id without a trade. -/
theorem run_trades_conserved {e : Engine} (hacceptances : e.acceptances = .empty)
    (hapart : ∀ id, e.registry.book.live.get? id = none ∨ e.registry.book.closed.get? id = none)
    (hclosed : ∀ id t, e.registry.book.closed.get? id = some t →
      t.disputeState = .mediationClosed ∧ t.payoutTx.isSome = true ∧
        e.disputes.contains id = true)
    (as bs : List (Stamp × Act)) (a : Stamp × Act) (id : TradeId) :
    let w := (start e).run as
    let book := w.engine.registry.book
    let later := (w.run bs).engine.registry.book
    let next := (w.after a).engine.registry.book
    (((book.live.get? id).isSome = true ∨ (book.closed.get? id).isSome = true) ↔
      ((e.registry.book.live.get? id).isSome = true ∨
        (e.registry.book.closed.get? id).isSome = true)) ∧
    (book.live.get? id = none ∨ book.closed.get? id = none) ∧
    (∀ t, book.closed.get? id = some t →
      (t.disputeState = .mediationClosed ∧ t.payoutTx.isSome = true ∧
        w.engine.disputes.contains id = true) ∧
      later.closed.get? id = some t ∧ later.live.get? id = none) ∧
    (book.offers.get? id).isSome = (e.registry.book.offers.get? id).isSome ∧
    (∀ o, book.offers.get? id = some o → o.state = .closed ∨ o.state = .canceled →
      later.offers.get? id = some o) ∧
    (next.offers.get? id = book.offers.get? id ∨
      (∃ o, book.offers.get? id = some o ∧ next.offers.get? id = some { o with state := .closed }) ∧
        book.live.get? id = none ∧ book.closed.get? id = none ∧
        ∃ r m, w.request? a.2 = some r ∧ w.engine.applied? r = some m ∧ m.tradeId = id) := by
  intro w book later next
  have hbacked : e.Backed := by
    intro k p hp
    rw [hacceptances] at hp
    cases hp
  have hstart : (start e).engine.Sound := ⟨hapart, hclosed, hbacked⟩
  have hsound : w.engine.Sound := run_sound hstart as
  have hfirst := run_carries hstart as
  have hrest := run_carries hsound bs
  refine ⟨?_, hsound.apart id, ?_, ?_, ?_, ?_⟩
  · have hfound : (book.findTrade? id).isSome = (e.registry.book.findTrade? id).isSome :=
      hfirst.found id
    rw [← isSome_findTrade?, ← isSome_findTrade?, hfound]
  · intro t ht
    have hfrozen := hrest.frozen id t ht
    refine ⟨hsound.closed id t ht, hfrozen, ?_⟩
    rcases (run_sound hsound bs).apart id with hlive | hnone
    · exact hlive
    · rw [hfrozen] at hnone
      cases hnone
  · rcases hfirst.offers id with hsame | ⟨-, -, o, ho, -, hclosed⟩
    · exact congrArg Option.isSome hsame
    · have hbefore : e.registry.book.offers.get? id = some o := ho
      have hafter : book.offers.get? id = some { o with state := .closed } := hclosed
      rw [hbefore, hafter, Option.isSome_some, Option.isSome_some]
  · intro o ho hstate
    rcases hrest.offers id with hsame | ⟨-, -, o', ho', hopen, -⟩
    · rw [hsame]
      exact ho
    · obtain rfl : o = o' := Option.some.inj (ho.symm.trans ho')
      rcases hstate with hstate | hstate <;> rw [hstate] at hopen <;> cases hopen
  · rcases (after_carries hsound.backed a).offers id with
      hsame | ⟨hruled, hnone, o, ho, -, hclosed⟩
    · exact Or.inl hsame
    · obtain ⟨hlive, hclosed'⟩ := Option.or_eq_none_iff.mp hnone
      exact Or.inr ⟨⟨o, ho, hclosed⟩, hlive, hclosed', hruled⟩

end World

namespace Sample

/-- The trade is mediated and paid, and then the sweep closes it. -/
def sweptAway : List (Stamp × Act) :=
  [(stamp, .ask (.event (.support (opening none)))),
    (stamp, .ask (.event (.support (.disputeResult forBuyer)))),
    (stamp, .ask (.update tradeId (.payoutTx "tx"))), (stamp, .ask .cleanup)]

/-- A change and another ruling come when the trade is closed. -/
def tooLate : List (Stamp × Act) :=
  [(stamp, .ask (.update tradeId (.phase .withdrawn))),
    (stamp, .ask (.event (.support (.disputeResult forSeller))))]

end Sample

namespace World

open Sample in
theorem run_trades_conserved_swept :
    ∃ t, ((start Sample.engine).run sweptAway).engine.registry.book.closed.get? tradeId = some t ∧
      t.payoutTx.isSome = true ∧
      (((start Sample.engine).run sweptAway).run tooLate).engine.registry.book.closed.get? tradeId =
        some t := by
  have hclosed : (((start Sample.engine).run sweptAway).engine.registry.book.closed.get?
      tradeId).isSome = true := by decide +kernel
  obtain ⟨t, ht⟩ := Option.isSome_iff_exists.mp hclosed
  have hnone : ∀ id t, Sample.engine.registry.book.closed.get? id = some t →
      t.disputeState = .mediationClosed ∧ t.payoutTx.isSome = true ∧
        Sample.engine.disputes.contains id = true := by
    intro id t ht
    cases ht
  obtain ⟨-, -, hfrozen, -⟩ := run_trades_conserved (e := Sample.engine) rfl (fun _ => Or.inr rfl)
    hnone sweptAway tooLate (stamp, .ask .barrier) tradeId
  obtain ⟨⟨-, hpaid, -⟩, hlater, -⟩ := hfrozen t ht
  exact ⟨t, ht, hpaid, hlater⟩

end World

end Mediation
