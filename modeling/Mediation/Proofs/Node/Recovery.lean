import Mediation.Proofs.Node.Durability

/-!
# A crash between the two saves

A node saves its trade book before its disputes. If it stops in between, it is
started again with the book after a message and the disputes before it. What
the message does to the disputes does not depend on the book, and what it does
to the book is done once only, so that the message makes up for the disputes
that were lost when it comes again.
-/

namespace Mediation

/-! ### What a message does to the book it does once -/

theorem Trade.enterDispute_enterDispute (t : Trade) (s : DisputeState) :
    (t.enterDispute s).enterDispute s = t.enterDispute s := by
  by_cases h : t.disputeState = .noDispute
  · simp only [enterDispute, if_pos h, ite_self]
  · simp only [enterDispute, if_neg h]

theorem Book.enterDispute_enterDispute (b : Book) (id : TradeId) (s : DisputeState) :
    ((b.update id fun t => t.enterDispute s).update id fun t => t.enterDispute s) =
      b.update id fun t => t.enterDispute s := by
  apply update_eq_self
  intro t ht
  rw [update_live, if_pos rfl] at ht
  obtain ⟨u, -, rfl⟩ := Option.map_eq_some_iff.mp ht
  exact u.enterDispute_enterDispute s

namespace Engine

/-- The disputes of an engine are those of `e`, and its book is the one that `e`
has once it has served a request. -/
structure Torn (e : Engine) (stamp : Stamp) (r : Request) (f : Engine) : Prop where
  config : f.config = e.config
  address : f.address = e.address
  disputes : f.disputes.disputes = e.disputes.disputes
  book : f.registry.book = (e.serve stamp r).1.registry.book

/-- Two engines with the same disputes and the same book. -/
structure Matches (e f : Engine) : Prop where
  disputes : f.disputes.disputes = e.disputes.disputes
  book : f.registry.book = e.registry.book

theorem Matches.refl (e : Engine) : e.Matches e := ⟨rfl, rfl⟩

theorem matches_serve_result {e : Engine} {r : Request} {m : ResultMessage}
    (hr : r.result? = some m)
    (hidle : m.result.chatMessage = none ∨ e.disputes.find? m.tradeId = none) (stamp : Stamp) :
    e.Matches (e.serve stamp r).1 := by
  rcases serve_result_cases hr stamp (e := e) with
    ⟨-, hsame⟩ | ⟨-, a, hmissed⟩ | ⟨-, hstored, closing, hclosing, -⟩
  · rw [hsame]
    exact .refl e
  · rw [hmissed, missDispute_eq]
    exact ⟨rfl, rfl⟩
  · rcases hidle with hnone | hmissing
    · rw [hclosing] at hnone
      cases hnone
    · rw [DisputeStore.contains_of_none hmissing] at hstored
      cases hstored

namespace Torn
variable {e f : Engine} {stamp : Stamp} {r : Request}

theorem find? (h : e.Torn stamp r f) (id : TradeId) :
    f.disputes.find? id = e.disputes.find? id := by
  rw [DisputeStore.find?, DisputeStore.find?, h.disputes]

theorem contains (h : e.Torn stamp r f) (id : TradeId) :
    f.disputes.contains id = e.disputes.contains id := by
  rw [DisputeStore.contains, DisputeStore.contains, h.find?]

theorem takes (h : e.Torn stamp r f) : f.takes r = e.takes r := takes_congr h.config r

/-- A request that changes neither the disputes nor the book changes neither again. -/
theorem of_idle (h : e.Torn stamp r f) (hfirst : e.Matches (e.serve stamp r).1)
    (hagain : f.Matches (f.serve stamp r).1) : Matches (e.serve stamp r).1 (f.serve stamp r).1 where
  disputes := hagain.disputes.trans (h.disputes.trans hfirst.disputes.symm)
  book := hagain.book.trans h.book

theorem of_not_taken (h : e.Torn stamp r f) (htakes : e.takes r = false) :
    Matches (e.serve stamp r).1 (f.serve stamp r).1 := by
  apply h.of_idle
  · rw [serve_of_not_taken htakes]
    exact .refl e
  · rw [serve_of_not_taken (h.takes.trans htakes)]
    exact .refl f

theorem opening (h : e.Torn stamp r f) {d : Dispute} (hr : r.dispute? = some d) :
    Matches (e.serve stamp r).1 (f.serve stamp r).1 := by
  cases htakes : e.takes r with
  | false => exact h.of_not_taken htakes
  | true =>
    have htakes' : f.takes r = true := h.takes.trans htakes
    cases hd : e.disputes.find? d.tradeId with
    | some d' =>
      have hstored : e.disputes.contains d.tradeId = true := DisputeStore.contains_of_some hd
      apply h.of_idle
      · rw [serve_opening_of_stored hr hstored]
        exact ⟨rfl, rfl⟩
      · rw [serve_opening_of_stored hr ((h.contains _).trans hstored)]
        exact ⟨rfl, rfl⟩
    | none =>
      have hd' : f.disputes.find? d.tradeId = none := (h.find? _).trans hd
      refine ⟨DisputeStore.ext_find? fun j => ?_, ?_⟩
      · rw [find?_serve_opening hr htakes hd, find?_serve_opening hr htakes' hd', h.config,
          h.address, h.find?]
      · -- the trade has entered the dispute already, if it enters one
        have hbook := h.book
        rw [serve_opening hr htakes hd] at hbook ⊢
        rw [serve_opening hr htakes' hd']
        dsimp only at hbook ⊢
        rw [addDispute_book, h.config, hbook, addDispute_book]
        split
        next => rfl
        next s hs => exact Book.enterDispute_enterDispute _ _ _

theorem chat {m : ChatMessage} (h : e.Torn stamp (.event (.support (.chat m))) f) :
    Matches (e.serve stamp (.event (.support (.chat m)))).1
      (f.serve stamp (.event (.support (.chat m)))).1 := by
  cases htakes : e.takes (.event (.support (.chat m))) with
  | false => exact h.of_not_taken htakes
  | true =>
    obtain ⟨i, acks, hfirst⟩ := serve_chat htakes stamp
    obtain ⟨j, acks', hagain⟩ := serve_chat (h.takes.trans htakes) stamp
    have hbook := h.book
    rw [hfirst] at hbook ⊢
    rw [hagain]
    refine ⟨?_, hbook⟩
    simp only [DisputeStore.append, DisputeStore.update, h.disputes]

theorem result (h : e.Torn stamp r f) {m : ResultMessage} (hr : r.result? = some m) :
    Matches (e.serve stamp r).1 (f.serve stamp r).1 := by
  rcases serve_result_cases hr stamp (e := e) with
    ⟨hdropped | hdropped, -⟩ | ⟨hmissing, -⟩ | ⟨htakes, hstored, closing, hclosing, hruled⟩
  · exact h.of_not_taken hdropped
  · exact h.of_idle (matches_serve_result hr (Or.inl hdropped) stamp)
      (matches_serve_result hr (Or.inl hdropped) stamp)
  · exact h.of_idle (matches_serve_result hr (Or.inr hmissing) stamp)
      (matches_serve_result hr (Or.inr ((h.find? _).trans hmissing)) stamp)
  · have hagain := serve_result_of_stored hr (h.takes.trans htakes) hclosing
      ((h.contains _).trans hstored) stamp
    constructor
    · rw [hagain.disputes, hruled.disputes]
      exact DisputeStore.rule_congr h.disputes m closing
    · rw [hagain.book, h.book, hruled.book, Book.applyResult_applyResult]

/-- A support message that comes again brings the disputes to where the book is. -/
theorem support {m : SupportMessage} (h : e.Torn stamp (.event (.support m)) f) :
    Matches (e.serve stamp (.event (.support m))).1 (f.serve stamp (.event (.support m))).1 := by
  cases m with
  | openNewDispute m => exact h.opening rfl
  | peerOpenedDispute m => exact h.opening rfl
  | chat m => exact h.chat
  | disputeResult m => exact h.result rfl
  | unsupported =>
    apply h.of_idle
    · rw [serve_unsupported]
      exact .refl e
    · rw [serve_unsupported]
      exact .refl f

end Torn

end Engine

/-! ### A node that stops between its saves -/

namespace Node
variable {c : NodeConfig} {n : Node}

theorem Moves.config {m : Node} (h : n.Moves c m) :
    m.engine.config = n.engine.config ∧ m.engine.address = n.engine.address := by
  obtain ⟨e, he, hengine⟩ := h.engine_eq
  rw [hengine]
  rcases he with rfl | ⟨r, hserved⟩
  · exact ⟨rfl, rfl⟩
  · exact ⟨hserved.config, hserved.address⟩

theorem Reached.config (h : Reached c n) :
    n.engine.config = .withRetryDelay c.retryDelayMillis ∧ n.engine.address = c.address := by
  induction h with
  | boot around desk publishes d₀ d n h =>
    obtain ⟨d₁, book, disputes, s, -, -, rfl⟩ := boot_ok h
    exact ⟨rfl, rfl⟩
  | move n m h hmove ih => exact ⟨hmove.config.1.trans ih.1, hmove.config.2.trans ih.2⟩

theorem flushTrades_book (n : Node) :
    n.flushTrades.engine.registry.book = n.engine.registry.book := by
  rcases n.flushTrades_engine with htrades | htrades
  · rw [htrades]
  · rw [htrades]
    rfl

/-- Once the trades are saved, what the storage holds of the disputes is as old as it was. -/
theorem flushTrades_holds {s : Storage} {ds : DisputeStore} (hs : n.storage = some s)
    (hbacks : s.Backs c n.engine) (hds : s.HoldsDisputes ds)
    (hsaved : n.flushTrades.engine.registry.requests = 0) :
    ∃ t, n.flushTrades.storage = some t ∧ t.Sound c ∧ t.HoldsTrades n.engine.registry.book ∧
      t.HoldsDisputes ds := by
  obtain ⟨t, ht, hkept⟩ := durable_flushTrades ⟨s, hs, hbacks⟩
  have htrades := hkept.trades hsaved
  rw [flushTrades_book] at htrades
  refine ⟨t, ht, hkept.sound, htrades, ?_⟩
  unfold flushTrades at ht
  split at ht
  · cases hs.symm.trans ht
    exact hds
  · rw [hs] at ht
    cases ht
    exact hds.saveTrades n.engine

/-- The node once the engine has served a request and the trades were to be saved,
but not yet the disputes. -/
def halfway (n : Node) (r : Request) (a : Answer) (e : Engine) : Node :=
  let served := { n with
    engine := e
    handled := n.handled + 1
    refusals := n.refusals ++ (refusal? r a).toList }
  served.collect.feed.flushTrades

theorem finish_eq_flushDisputes (n : Node) (r : Request) (a : Answer) (e : Engine) :
    n.finish r a e = (n.halfway r a e).flushDisputes := rfl

theorem halfway_holds {s : Storage} {e : Engine} {ds : DisputeStore} (hs : n.storage = some s)
    (hbacks : s.Backs c e) (hds : s.HoldsDisputes ds) {r : Request} {a : Answer}
    (hsaved : (n.halfway r a e).engine.registry.requests = 0) :
    ∃ t, (n.halfway r a e).storage = some t ∧ t.Sound c ∧ t.HoldsTrades e.registry.book ∧
      t.HoldsDisputes ds := by
  have hfed : (s.feed e.registry.changes).HoldsDisputes ds := by
    unfold Storage.feed
    split <;> exact hds
  refine flushTrades_holds ?_ (backs_feed (backs_handedOn hbacks) e.registry.changes) hfed hsaved
  simp only [feed, collect, hs, Option.map_some]
  rfl

/-- An engine with the trade book after a support message and the disputes before it is in the
state after the message once the message has come again. This is the engine that a node is
started with when it stopped after the trades were saved and before the disputes were. -/
theorem redelivery_restores_disputes (e : Engine) (stamp : Stamp) (m : SupportMessage) :
    let r := Request.event (.support m)
    let e' := (e.serve stamp r).1
    (∀ registry disputes desk publishes, registry.book = e'.registry.book →
      disputes.disputes = e.disputes.disputes →
      let restarted := Engine.start e.config e.address registry disputes desk publishes
      (restarted.serve stamp r).1.disputes.disputes = e'.disputes.disputes ∧
        (restarted.serve stamp r).1.registry.book = e'.registry.book) ∧
    ∀ (c : NodeConfig) (n : Node), n.Reached c → n.engine = e → e.disputes.requests = 0 →
      let halfway := n.halfway r (e.serve stamp r).2 e'
      halfway.engine.registry.requests = 0 → ∀ left, halfway.storage = some left →
      ∀ around desk publishes, ∃ restarted : Node,
        boot c around desk publishes left.disk = (left.disk, .ok restarted) ∧
        restarted.engine.retries = .empty ∧
        (restarted.engine.serve stamp r).1.disputes.disputes = e'.disputes.disputes ∧
        (restarted.engine.serve stamp r).1.registry.book = e'.registry.book := by
  intro r e'
  have hstart : ∀ registry disputes desk publishes, registry.book = e'.registry.book →
      disputes.disputes = e.disputes.disputes →
      e'.Matches ((Engine.start e.config e.address registry disputes desk publishes).serve stamp
        r).1 := by
    intro registry disputes desk publishes hbook hdisputes
    have htorn : e.Torn stamp r
        (Engine.start e.config e.address registry disputes desk publishes) :=
      ⟨rfl, rfl, hdisputes, hbook⟩
    exact htorn.support
  refine ⟨?_, ?_⟩
  · intro registry disputes desk publishes hbook hdisputes
    have hsame := hstart registry disputes desk publishes hbook hdisputes
    exact ⟨hsame.disputes, hsame.book⟩
  · rintro c n hreached rfl hnone halfway hsaved left hleft around desk publishes
    obtain ⟨s, hs, hbacks⟩ := hreached.durable
    obtain ⟨t, ht, hsound, htrades, hdisputes⟩ :=
      halfway_holds hs (hbacks.serve stamp r) (hbacks.disputes hnone) hsaved
    cases hleft.symm.trans ht
    obtain ⟨registry, disputes, storage, hbook, hds, hboot⟩ :=
      boot_of_holds hsound htrades hdisputes around desk publishes
    have hsame := hstart registry disputes desk publishes hbook hds
    rw [hreached.config.1, hreached.config.2] at hsame
    exact ⟨_, hboot, rfl, hsame.disputes, hsame.book⟩

open Sample in
/-- The result comes to a dispute without it, and the opening to a node without the dispute. -/
theorem redelivery_restores_disputes_for_buyer :
    let e := Sample.engine.play [deliver (opening none)]
    let r := Request.event (.support (.disputeResult forBuyer))
    let o := Request.event (.support (opening none))
    let e' := (booted.engine.serve stamp o).1
    (((Engine.start e.config e.address ⟨(e.serve stamp r).1.registry.book, 0, []⟩
          ⟨e.disputes.disputes, 0⟩ (.ofScript .hold) false).serve stamp r).1.disputes.find?
        tradeId).bind Dispute.result = some forBuyer.result ∧
      ∃ left restarted, (booted.halfway o (booted.engine.serve stamp o).2 e').storage = some left ∧
        boot .default .none (.ofScript .hold) false left.disk = (left.disk, .ok restarted) ∧
        (restarted.engine.serve stamp o).1.disputes.contains tradeId = true := by
  intro e r o e'
  have hresult : ((e.serve stamp r).1.disputes.find? tradeId).bind Dispute.result =
      some forBuyer.result := by decide +kernel
  have hopened : e'.disputes.contains tradeId = true := by decide +kernel
  have hsaved : (booted.halfway o (booted.engine.serve stamp o).2 e').engine.registry.requests =
      0 := by decide +kernel
  have hleft : (booted.halfway o (booted.engine.serve stamp o).2 e').storage.isSome = true := by
    decide +kernel
  obtain ⟨left, hleft⟩ := Option.isSome_iff_exists.mp hleft
  obtain ⟨hagain, -⟩ := (redelivery_restores_disputes e stamp (.disputeResult forBuyer)).1
    ⟨(e.serve stamp r).1.registry.book, 0, []⟩ ⟨e.disputes.disputes, 0⟩ (.ofScript .hold) false
    rfl rfl
  obtain ⟨restarted, hboot, -, hdisputes, -⟩ :=
    (redelivery_restores_disputes booted.engine stamp (opening none)).2 .default booted
      reached_booted rfl rfl hsaved left hleft .none (.ofScript .hold) false
  refine ⟨?_, left, restarted, hleft, hboot, ?_⟩
  · rw [DisputeStore.find?, hagain]
    exact hresult
  · rw [DisputeStore.contains, DisputeStore.find?, hdisputes]
    exact hopened

end Node

end Mediation
