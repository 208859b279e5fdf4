import Mediation.Proofs.Engine.Acceptances
import Mediation.Proofs.Engine.Operations

/-!
# What the payout exchange is asked for

The exchange is asked once for each ticket, when a result is accepted and at no
other time. It is given the trade as the registry then has it, with the amounts
of the result that is attached to the dispute at that moment; and whoever
accepted the result waits under the ticket before the exchange does anything.
-/

namespace Mediation

namespace Engine

/-! ### One acceptance -/

/-- What an acceptance asks for (`c`), and the engine that asks for it (`asking`), before the
exchange has done anything. -/
structure Asks (e : Engine) (id : TradeId) (caller : Nat) (asking : Engine) (c : PayoutRequest) :
    Prop where
  trade : ∃ d r t, e.disputes.find? id = some d ∧ d.result = some r ∧
    e.registry.book.live.get? id = some t ∧
    c.trade = { t with
      verdict := .accepted
      process := { t.process with buyerPayout := r.buyerPayout, sellerPayout := r.sellerPayout } }
  step : c.step =
    if c.trade.process.peer.payoutSignature.isSome then .finalizeWithPeerSignature
    else .acceptAndSendSignature
  completion : c.completion = ⟨e.tickets + 1, id⟩
  live : asking.registry.book.live.get? id = some c.trade
  registered : asking.acceptances.get? c.completion.ticket = some ⟨id, caller⟩
  others : ∀ j, j ≠ id → asking.registry.book.live.get? j = e.registry.book.live.get? j
  frame : asking = { e with
    registry := { e.registry with
      book := { e.registry.book with live := asking.registry.book.live }
      requests := e.registry.requests + 1 }
    tickets := c.completion.ticket
    acceptances := e.acceptances.insert c.completion.ticket ⟨id, caller⟩ }

/-- An acceptance ends with the one request that it makes. -/
theorem accept_asks {e e' : Engine} {id : TradeId} {caller ticket : Nat}
    (h : e.accept id caller = .ok (e', ticket)) :
    ∃ asking c, e.Asks id caller asking c ∧ c.completion.ticket = ticket ∧
      e' = asking.askPayout c.step c.trade c.completion := by
  obtain ⟨d, r, t, hd, hres, ht, rfl, rfl⟩ := accept_eq_askPayout h
  have hlive := Book.update_live e.registry.book id
  refine ⟨e.accepting id caller r, ⟨_, acceptedTrade t r, ⟨e.tickets + 1, id⟩⟩, ?_, rfl, rfl⟩
  refine ⟨⟨d, r, t, hd, hres, ht, rfl⟩, rfl, rfl, ?_, Table.get?_insert_self .., ?_, rfl⟩
  · exact (hlive id _).trans (by rw [if_pos rfl, ht, Option.map_some])
  · intro j hj
    exact (hlive j _).trans (if_neg hj)

/-! ### Tickets and requests -/

/-- An engine goes on as another one that has issued some tickets, one after the other, and has
asked for a payout with each. -/
structure Issues (e : Engine) (ks : List Nat) (e' : Engine) : Prop where
  requests : ∃ cs : List PayoutRequest, e'.requests = e.requests ++ cs ∧
    cs.map (fun c => c.completion.ticket) = ks ∧
    (e.desk.forgetful = false →
      e'.desk.calls = e.desk.calls ++ cs.map fun c => ⟨c.step, c.trade.id⟩)
  consecutive : ks = List.range' (e.tickets + 1) ks.length
  tickets : e'.tickets = e.tickets + ks.length
  pending : ∀ k p, e'.acceptances.get? k = some p → k ∈ ks ∨ e.acceptances.get? k = some p
  forgetful : e'.desk.forgetful = e.desk.forgetful

namespace Issues
variable {e e' e'' : Engine}

theorem nil (hrequests : e'.requests = e.requests) (htickets : e'.tickets = e.tickets)
    (hcalls : e'.desk.calls = e.desk.calls) (hforgetful : e'.desk.forgetful = e.desk.forgetful)
    (hpending : ∀ k p, e'.acceptances.get? k = some p → e.acceptances.get? k = some p) :
    e.Issues [] e' where
  requests := ⟨[], by rw [hrequests, List.append_nil], rfl, fun _ => by
    rw [hcalls, List.map_nil, List.append_nil]⟩
  consecutive := rfl
  tickets := htickets
  pending k p hp := Or.inr (hpending k p hp)
  forgetful := hforgetful

theorem same (hrequests : e'.requests = e.requests) (htickets : e'.tickets = e.tickets)
    (hcalls : e'.desk.calls = e.desk.calls) (hforgetful : e'.desk.forgetful = e.desk.forgetful)
    (hacceptances : e'.acceptances = e.acceptances) : e.Issues [] e' :=
  nil hrequests htickets hcalls hforgetful (by rw [hacceptances]; exact fun _ _ hp => hp)

theorem append {ks js : List Nat} (h : e.Issues ks e') (h' : e'.Issues js e'') :
    e.Issues (ks ++ js) e'' where
  requests := by
    obtain ⟨cs, hcs, hks, hcalls⟩ := h.requests
    obtain ⟨ds, hds, hjs, hcalls'⟩ := h'.requests
    refine ⟨cs ++ ds, ?_, ?_, fun hmindful => ?_⟩
    · rw [hds, hcs, List.append_assoc]
    · rw [List.map_append, hks, hjs]
    · rw [hcalls' (h.forgetful.trans hmindful), hcalls hmindful, List.append_assoc,
        List.map_append]
  consecutive := by
    have hks := h.consecutive
    have hjs := h'.consecutive
    rw [h.tickets] at hjs
    rw [List.length_append, ← List.range'_append_1, ← hks, Nat.add_right_comm, ← hjs]
  tickets := by
    rw [h'.tickets, h.tickets, List.length_append, Nat.add_assoc]
  pending k p hp := by
    rcases h'.pending k p hp with hnew | hold
    · exact Or.inl (List.mem_append_right _ hnew)
    · exact (h.pending k p hold).imp_left (List.mem_append_left _)
  forgetful := h'.forgetful.trans h.forgetful

/-- A ticket that is issued now was neither issued before nor is it pending. -/
theorem fresh {ks : List Nat} (h : e.Issues ks e') {k : Nat} (hk : k = e'.tickets + 1) :
    k ∉ ks ∧ e.tickets < k ∧ ((∀ j p, e.acceptances.get? j = some p → j ≤ e.tickets) →
      e'.acceptances.get? k = none) := by
  have hcount := h.tickets
  have hnew : k ∉ ks := by
    rw [h.consecutive, List.mem_range'_1]
    omega
  refine ⟨hnew, by omega, fun hbound => Option.eq_none_iff_forall_ne_some.mpr fun p hp => ?_⟩
  rcases h.pending k p hp with hissued | hold
  · exact hnew hissued
  · have hle := hbound k p hold
    omega

end Issues

theorem Served.issues {e e' : Engine} {r : Request} (h : Served e r e') (hr : r.caller? = none) :
    e.Issues [] e' := by
  rcases h.payouts with ⟨o, p, -, hp, rfl⟩ | ⟨id, caller, ticket, rfl, -⟩ |
    ⟨hacceptances, htickets, -, hdesk, -, hrequests⟩
  · rw [receiveOutcome_of_pending hp]
    refine .nil rfl rfl rfl rfl fun k q hq => ?_
    rw [Table.get?_erase] at hq
    split at hq
    · cases hq
    · exact hq
  · cases hr
  · exact .same hrequests htickets (by rw [hdesk]) (by rw [hdesk]) hacceptances

theorem issues_accept {e e' : Engine} {id : TradeId} {caller ticket : Nat}
    (h : e.accept id caller = .ok (e', ticket)) : e.Issues [ticket] e' := by
  obtain ⟨asking, c, hasks, rfl, rfl⟩ := accept_asks h
  have hticket := congrArg Completion.ticket hasks.completion
  rw [hasks.frame]
  refine ⟨⟨[c], rfl, rfl, fun hmindful => ?_⟩, ?_, ?_, fun k p hp => ?_, ?_⟩
  · simp only [askPayout, PayoutDesk.take, hmindful, Bool.false_eq_true, if_false,
      List.map_singleton]
  · rw [hticket]
    rfl
  · exact hticket
  · change (e.acceptances.insert c.completion.ticket _).get? k = some p at hp
    rw [Table.get?_insert] at hp
    split at hp
    next hk => exact Or.inl (List.mem_singleton.mpr hk)
    next => exact Or.inr hp
  · simp only [askPayout, PayoutDesk.take]
    split <;> rfl

end Engine

/-! ### A run -/

namespace World

/-- The tickets that an operation has the engine issue. -/
def issued (w : World) : Operation → List Nat
  | .act _ a => (Ledger.issuing w a).map Prod.fst
  | .hand _ => []

/-- The tickets that are issued in a run, in this order. -/
def issuedIn (w : World) : List Operation → List Nat
  | [] => []
  | o :: os => w.issued o ++ (w.perform o).issuedIn os

theorem issues_serving {w : World} {stamp : Stamp} {a : Act}
    (hcaller : ∀ r, w.request? a = some r → r.caller? = none) :
    w.engine.Issues [] (w.serving (stamp, a)) := by
  rcases w.serving_cases (stamp, a) with ⟨-, hsame⟩ | ⟨r, hr, hserved⟩
  · rw [hsame]
    exact .same rfl rfl rfl rfl rfl
  · exact hserved.issues (hcaller r hr)

/-- An operation issues the tickets of the acceptances in it, and asks for a payout with each. -/
theorem issues_perform (w : World) (o : Operation) :
    w.engine.Issues (w.issued o) (w.perform o).engine := by
  cases o with
  | hand m =>
    obtain ⟨r, hr, hserved⟩ := w.engine.served_handed m
    exact hserved.issues hr
  | act stamp a =>
    cases a with
    | ask r =>
      by_cases hr : ∃ id caller, r = .accept id caller
      · obtain ⟨id, caller, rfl⟩ := hr
        cases hok : w.engine.accept id caller with
        | error err =>
          simp only [issued, Ledger.issuing, perform, after, serving, request?, Engine.serve, hok]
          exact .same rfl rfl rfl rfl rfl
        | ok x =>
          simp only [issued, Ledger.issuing, perform, after, serving, request?, Engine.serve, hok]
          exact Engine.issues_accept hok
      · -- nobody waits for the outcome of any other request
        have hcaller : r.caller? = none := by
          cases r <;> first | rfl | exact absurd ⟨_, _, rfl⟩ hr
        have hissued : w.issued (.act stamp (.ask r)) = [] := by
          cases r <;> first | rfl | cases hcaller
        rw [hissued]
        refine issues_serving (a := .ask r) fun r' hr' => ?_
        cases hr'
        exact hcaller
    | retry t =>
      refine issues_serving (a := .retry t) fun r hr => ?_
      rw [request?_retry hr]
      rfl
    | settle o =>
      refine issues_serving (a := .settle o) fun r hr => ?_
      rw [request?_settle hr]
      rfl
    | elapse millis => exact .same rfl rfl rfl rfl rfl
    | release error => exact .same rfl rfl rfl rfl rfl
    | take => exact .same rfl rfl rfl rfl rfl

theorem issues_operate (w : World) (os : List Operation) :
    w.engine.Issues (w.issuedIn os) (w.operate os).engine := by
  induction os generalizing w with
  | nil => exact .same rfl rfl rfl rfl rfl
  | cons o os ih => exact (w.issues_perform o).append (ih (w.perform o))

/-- The exchange is asked once for each ticket that is issued in a run, and the tickets are issued
one after the other. What is done next asks for nothing unless it issues a ticket. A result that is
accepted then asks once, with a fresh ticket, and the engine that asks has already registered who
waits for the outcome; it differs from the engine before by nothing but that, the trade and the
request to store it. -/
theorem payouts_asked_once (e : Engine) (os : List Operation) :
    let w := (start e).operate os
    let tickets := (start e).issuedIn os
    (∃ calls, w.engine.requests = e.requests ++ calls ∧
      calls.map (fun c => c.completion.ticket) = tickets ∧
      (e.desk.forgetful = false →
        w.engine.desk.calls = e.desk.calls ++ calls.map fun c => ⟨c.step, c.trade.id⟩)) ∧
    tickets = List.range' (e.tickets + 1) tickets.length ∧
    (∀ o, w.issued o = [] → (w.perform o).engine.requests = w.engine.requests) ∧
    ∀ stamp id caller e' ticket, w.engine.accept id caller = .ok (e', ticket) →
      (w.perform (.act stamp (.ask (.accept id caller)))).engine = e' ∧
      w.issued (.act stamp (.ask (.accept id caller))) = [ticket] ∧
      (ticket ∉ tickets ∧ e.tickets < ticket ∧
        ((∀ k p, e.acceptances.get? k = some p → k ≤ e.tickets) →
          w.engine.acceptances.get? ticket = none)) ∧
      ∃ asking c, w.engine.Asks id caller asking c ∧ c.completion.ticket = ticket ∧
        e' = asking.askPayout c.step c.trade c.completion ∧
        e'.requests = w.engine.requests ++ [c] := by
  intro w tickets
  have hrun : e.Issues tickets w.engine := (start e).issues_operate os
  refine ⟨hrun.requests, hrun.consecutive, fun o ho => ?_, ?_⟩
  · obtain ⟨cs, hcs, hnone, -⟩ := (w.issues_perform o).requests
    rw [ho, List.map_eq_nil_iff] at hnone
    rw [hcs, hnone, List.append_nil]
  · intro stamp id caller e' ticket hok
    obtain ⟨asking, c, hasks, rfl, rfl⟩ := Engine.accept_asks hok
    have hticket := congrArg Completion.ticket hasks.completion
    refine ⟨?_, ?_, hrun.fresh hticket, asking, c, hasks, rfl, rfl, ?_⟩
    · simp only [perform, after, serving, request?, Engine.serve, hok]
    · simp only [issued, Ledger.issuing, hok, List.map_singleton]
    · rw [hasks.frame]
      rfl

end World

namespace Sample

/-- The result is accepted, and then the signature of the peer comes. -/
def signedLater : List Operation :=
  [.act stamp (.ask (.event (.support (opening (some forBuyer.result))))),
    .act stamp (.ask (.accept tradeId 7)),
    .act stamp (.ask (.update tradeId (.peerSignature [1])))]

end Sample

open Sample in
/-- The result is accepted again when there is a signature: this time the payout is finalized. -/
theorem World.payouts_asked_once_signed_later :
    let w := (start Sample.engine).operate signedLater
    ∃ e' asking c, w.engine.accept tradeId 8 = .ok (e', 2) ∧
      w.engine.Asks tradeId 8 asking c ∧ c.step = .finalizeWithPeerSignature ∧
      c.trade.process.buyerPayout = forBuyer.result.buyerPayout ∧
      e'.requests.map (fun c => c.completion.ticket) = [1, 2] := by
  intro w
  obtain ⟨⟨calls, hcalls, htickets, -⟩, -, -, haccept⟩ :=
    payouts_asked_once Sample.engine signedLater
  have hissued : (start Sample.engine).issuedIn signedLater = [1] := by decide +kernel
  have hok : (w.engine.accept tradeId 8).isOk = true := by decide +kernel
  cases haccepted : w.engine.accept tradeId 8 with
  | error err =>
    rw [haccepted] at hok
    cases hok
  | ok x =>
    obtain ⟨e', ticket⟩ := x
    obtain ⟨-, -, -, asking, c, hasks, hticket, -, hrequests⟩ :=
      haccept stamp tradeId 8 e' ticket haccepted
    obtain ⟨d, r, t, hd, hr, ht, htrade⟩ := hasks.trade
    have hsigned : (w.engine.registry.book.live.get? tradeId).map
        (fun t => t.process.peer.payoutSignature.isSome) = some true := by decide +kernel
    have hruled : (w.engine.disputes.find? tradeId).bind Dispute.result = some forBuyer.result := by
      decide +kernel
    rw [ht] at hsigned
    rw [hd, Option.bind_some, hr] at hruled
    have hsecond : ticket = 2 := by
      rw [← hticket, hasks.completion]
      decide +kernel
    subst hsecond
    refine ⟨e', asking, c, rfl, hasks, ?_, ?_, ?_⟩
    · rw [hasks.step, htrade, if_pos (Option.some.inj hsigned)]
    · rw [htrade, Option.some.inj hruled]
    · rw [hrequests, List.map_append, hcalls, List.map_append, htickets, hissued]
      simp only [List.map_singleton, hticket]
      rfl

end Mediation
