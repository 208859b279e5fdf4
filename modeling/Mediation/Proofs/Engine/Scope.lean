import Mediation.Proofs.Engine.Attachment

/-!
# The trade that a support message is about

A support message changes only what the engine holds about its trade, and what
is sent for it names that trade. There is one exception: the closing message of
a result goes to the dispute that it names itself, and so does the
acknowledgement of it.
-/

namespace Mediation

theorem OpenOffer.close_cases {o o' : OpenOffer} (h : o.close = .ok o') :
    o' = o ∨ (o.state.isTerminal = false ∧ o' = { o with state := .closed }) := by
  cases o with
  | mk id state =>
    cases state
    case closed =>
      cases h
      exact Or.inl rfl
    case canceled => cases h
    all_goals
      cases h
      exact Or.inr ⟨rfl, rfl⟩

/-- A result changes no offer but the one with its id, which it closes when the
id has no trade. -/
theorem Book.applyResult_offers (b : Book) (id j : TradeId) (buyer seller : Coin) :
    (b.applyResult id buyer seller).offers.get? j = b.offers.get? j ∨
      (j = id ∧ b.findTrade? id = none ∧
        ∃ o, b.offers.get? id = some o ∧ o.state.isTerminal = false ∧
          (b.applyResult id buyer seller).offers.get? j = some { o with state := .closed }) := by
  cases hfind : b.findTrade? id with
  | some t =>
    rw [applyResult_of_some hfind]
    exact Or.inl rfl
  | none =>
    rw [applyResult_of_none hfind]
    unfold closeOffer?
    split
    next => exact Or.inl rfl
    next o ho =>
      split
      next o' hclose =>
        rw [Option.getD_some, Table.get?_insert]
        by_cases hj : j = id
        · rw [if_pos hj]
          rcases OpenOffer.close_cases hclose with rfl | ⟨hstate, rfl⟩
          · rw [hj, ho]
            exact Or.inl rfl
          · exact Or.inr ⟨hj, rfl, o, ho, hstate, rfl⟩
        · rw [if_neg hj]
          exact Or.inl rfl
      next => exact Or.inl rfl

theorem Book.offers_applyResult (b : Book) (id : TradeId) (buyer seller : Coin) :
    (b.applyResult id buyer seller).offers.get? id =
      match b.findTrade? id with
      | some _ => b.offers.get? id
      | none => (b.offers.get? id).map fun o => o.close.toOption.getD o := by
  cases hfind : b.findTrade? id with
  | some t =>
    rw [applyResult_of_some hfind]
    rfl
  | none =>
    rw [applyResult_of_none hfind]
    unfold closeOffer?
    cases ho : b.offers.get? id with
    | none => exact ho
    | some o =>
      cases hclose : o.close with
      | ok o' =>
        simp only [hclose, Option.getD_some, Table.get?_insert_self, Option.map_some,
          Except.toOption]
      | error err =>
        simp only [hclose, Option.getD_none, Option.map_some, Except.toOption]
        exact ho

namespace Engine

/-! ### Acknowledgements -/

def ackFor (e : Engine) (uid : MessageUid) (id : TradeId) (recipient : PubKeyRing)
    (error : Option String) : AckMessage :=
  ⟨e.config.ackSource, uid, id, recipient, error.isNone, error⟩

def openingAck (e : Engine) (m : DisputeMessage) (recipient : PubKeyRing) : AckMessage :=
  e.ackFor m.uid m.dispute.tradeId recipient
    (if e.disputes.contains m.dispute.tradeId then some (disputeExists m.dispute.tradeId)
    else none)

/-- The acknowledgement that is sent for a support message past the gate. -/
def ack? (e : Engine) : SupportMessage → Option AckMessage
  | .openNewDispute m => some (e.openingAck m m.dispute.parties.trader)
  | .peerOpenedDispute m => some (e.openingAck m m.dispute.parties.agent)
  | .chat m => (e.disputes.find? m.tradeId).map fun d =>
      e.ackFor m.uid m.tradeId d.parties.agent none
  | .disputeResult m => m.result.chatMessage.bind fun closing =>
      (e.disputes.find? m.tradeId).map fun d =>
        e.ackFor closing.uid closing.tradeId d.parties.agent none
  | .unsupported => none

theorem acks_addDispute (e : Engine) (stamp : Stamp) (d : Dispute) (text : String)
    (state : Option DisputeState) : (e.addDispute stamp d text state).acks = e.acks := by
  rw [addDispute_eq]

theorem acks_receiveResult (e : Engine) (m : ResultMessage) (a : Attempt) :
    ((e.receiveResult m a).toOption.getD e).acks =
      e.acks ++ (e.ack? (.disputeResult m)).toList := by
  simp only [receiveResult, ack?]
  cases m.result.chatMessage with
  | none => exact (List.append_nil _).symm
  | some closing =>
    cases e.disputes.find? m.tradeId with
    | none =>
      change (e.missDispute m a).acks = _
      rw [missDispute_eq]
      exact (List.append_nil _).symm
    | some d =>
      simp only [Except.toOption, Option.getD_some]
      rw [applyToTrade_eq]
      rfl

theorem acks_serve_support {e : Engine} {m : SupportMessage}
    (htakes : e.takes (.event (.support m)) = true) (stamp : Stamp) :
    (e.serve stamp (.event (.support m))).1.acks = e.acks ++ (e.ack? m).toList := by
  have hgate : m.isFor e.config.supportType = true := htakes
  cases m with
  | openNewDispute m =>
    simp only [serve, handle, receive, hgate, if_true, receiveNewDispute]
    split
    next hd => simp only [sendAck, ack?, openingAck, hd, if_true, ackFor, Option.toList_some]
    next hd =>
      simp only [sendAck, ack?, openingAck, hd, Bool.false_eq_true, if_false, ackFor,
        Option.toList_some, acks_addDispute]
      rw [addDispute_eq]
  | peerOpenedDispute m =>
    simp only [serve, handle, receive, hgate, if_true, receivePeerDispute]
    split
    next hd => simp only [sendAck, ack?, openingAck, hd, if_true, ackFor, Option.toList_some]
    next hd =>
      simp only [sendAck, ack?, openingAck, hd, Bool.false_eq_true, if_false, ackFor,
        Option.toList_some, acks_addDispute]
      rw [addDispute_eq]
  | chat m =>
    simp only [serve, handle, receive, hgate, if_true, receiveChat, ack?]
    cases e.disputes.find? m.tradeId with
    | none => exact (List.append_nil _).symm
    | some d =>
      dsimp only
      split <;> rfl
  | disputeResult m =>
    rw [serve_attempt rfl htakes]
    exact acks_receiveResult e m .delivery
  | unsupported =>
    simp only [serve, handle, receive, hgate, if_true, ack?]
    exact (List.append_nil _).symm

/-! ### The rest of the engine -/

/-- Two engines hold the same about every trade but one, offers included. -/
structure AgreeExcept (id : TradeId) (e e' : Engine) : Prop where
  disputes : ∀ j, j ≠ id → e'.disputes.find? j = e.disputes.find? j
  live : ∀ j, j ≠ id → e'.registry.book.live.get? j = e.registry.book.live.get? j
  closed : ∀ j, j ≠ id → e'.registry.book.closed.get? j = e.registry.book.closed.get? j
  offers : ∀ j, j ≠ id → e'.registry.book.offers.get? j = e.registry.book.offers.get? j

theorem AgreeExcept.of_unchanged {id : TradeId} {e e' : Engine}
    (hdisputes : e'.disputes = e.disputes) (hregistry : e'.registry = e.registry) :
    AgreeExcept id e e' := by
  constructor <;> intro j hj <;> simp only [hdisputes, hregistry]

theorem agreeExcept_addDispute {e : Engine} {d : Dispute}
    (hnew : e.disputes.find? d.tradeId = none) (stamp : Stamp) (text : String)
    (state : Option DisputeState) :
    AgreeExcept d.tradeId e (e.addDispute stamp d text state) := by
  have hbook := addDispute_book e stamp d text state
  constructor
  · intro j hj
    rw [find?_addDispute hnew, if_neg hj]
  · intro j hj
    rw [hbook]
    cases state with
    | none => rfl
    | some s =>
      dsimp only
      rw [Book.update_live, if_neg hj]
  · intro j hj
    rw [hbook]
    cases state <;> rfl
  · intro j hj
    rw [hbook]
    cases state <;> rfl

theorem agreeExcept_ruling (e : Engine) {m : ResultMessage} {closing : ChatMessage}
    (hnames : closing.tradeId = m.tradeId) : AgreeExcept m.tradeId e (e.ruling m closing) := by
  have hbook := ruling_book e m closing
  constructor
  · intro j hj
    rw [ruling_eq, DisputeStore.find?_requestStore, DisputeStore.find?_rule, if_neg hj,
      DisputeStore.find?_append, if_neg (by rw [hnames]; exact hj)]
  · intro j hj
    rw [hbook, Book.applyResult_live, if_neg hj]
  · intro j hj
    rw [hbook, Book.applyResult_closed]
  · intro j hj
    rw [hbook]
    rcases Book.applyResult_offers e.registry.book m.tradeId j m.result.buyerPayout
      m.result.sellerPayout with hsame | ⟨hid, -⟩
    · exact hsame
    · exact absurd hid hj

theorem Ruled.mem_chat {e e' : Engine} {m : ResultMessage} {closing : ChatMessage}
    (h : Ruled e m closing e') (hnames : closing.tradeId = m.tradeId)
    (hstored : e.disputes.contains m.tradeId = true) :
    ∃ d, e'.disputes.find? m.tradeId = some d ∧ closing ∈ d.chat := by
  obtain ⟨d, hd⟩ := Option.isSome_iff_exists.mp hstored
  refine ⟨(d.addMessage closing).close.attach m.result, ?_, ?_⟩
  · rw [h.find?, if_pos rfl, DisputeStore.find?_append, if_pos hnames.symm, hd]
    rfl
  · exact d.mem_addMessage closing

/-! ### The trade of a support message -/

theorem tradeId?_of_dispute? {m : SupportMessage} {d : Dispute}
    (h : Request.dispute? (.event (.support m)) = some d) : m.tradeId? = some d.tradeId := by
  cases m with
  | openNewDispute m =>
    cases h
    rfl
  | peerOpenedDispute m =>
    cases h
    rfl
  | chat m => cases h
  | disputeResult m => cases h
  | unsupported => cases h

theorem eq_disputeResult_of_attempt? {m : SupportMessage} {n : ResultMessage} {a : Attempt}
    (h : Request.attempt? (.event (.support m)) = some (n, a)) : m = .disputeResult n := by
  have hbring := Request.eq_bring_of_attempt? h
  cases a with
  | delivery =>
    cases hbring
    rfl
  | retry => cases hbring

theorem applied?_of_attempt? {e : Engine} {r : Request} {m : ResultMessage} {a : Attempt}
    {closing : ChatMessage} (hr : r.attempt? = some (m, a)) (htakes : e.takes r = true)
    (hclosing : m.result.chatMessage = some closing)
    (hstored : e.disputes.contains m.tradeId = true) : e.applied? r = some m := by
  have hcond : (e.takes r && m.result.chatMessage.isSome && e.disputes.contains m.tradeId) =
      true := by
    rw [htakes, hclosing, hstored]
    rfl
  rw [applied?, Request.result?_of_attempt? hr, Option.filter_some, if_pos hcond]

/-- The result that a support message applies, if it does, has a closing message
that names a certain trade. -/
def ClosesIn (e : Engine) (id : TradeId) (m : SupportMessage) : Prop :=
  ∀ r closing, e.applied? (.event (.support m)) = some r → r.result.chatMessage = some closing →
    closing.tradeId = id

section Support
variable {e : Engine} {m : SupportMessage} {id : TradeId} (hid : m.tradeId? = some id)
include hid

theorem agreeExcept_serve_support (hcloses : e.ClosesIn id m) (stamp : Stamp) :
    AgreeExcept id e (e.serve stamp (.event (.support m))).1 := by
  have hserved := served e stamp (.event (.support m))
  generalize (e.serve stamp (.event (.support m))).1 = e' at hserved ⊢
  cases hserved with
  | idle acks => exact .of_unchanged rfl rfl
  | opened stamp d acks hr hnew =>
    obtain rfl : d.tradeId = id := Option.some.inj ((tradeId?_of_dispute? hr).symm.trans hid)
    have h := agreeExcept_addDispute hnew stamp (Request.greeting d (.event (.support m)))
      (Request.entry? e.config (.event (.support m)))
    exact ⟨h.disputes, h.live, h.closed, h.offers⟩
  | said n acks hr hstored =>
    cases hr
    obtain rfl : n.tradeId = id := Option.some.inj hid
    refine ⟨?_, fun j hj => rfl, fun j hj => rfl, fun j hj => rfl⟩
    intro j hj
    rw [DisputeStore.find?_requestStore, DisputeStore.find?_append, if_neg hj]
  | missed n a hr hclosing hmissing =>
    rw [missDispute_eq]
    exact .of_unchanged rfl rfl
  | ruled n a closing acks hr htakes hclosing hstored =>
    have hnames := hcloses n closing (applied?_of_attempt? hr htakes hclosing hstored) hclosing
    obtain rfl := eq_disputeResult_of_attempt? hr
    obtain rfl : n.tradeId = id := Option.some.inj hid
    have h := agreeExcept_ruling e hnames
    exact ⟨h.disputes, h.live, h.closed, h.offers⟩
  | answered o p hr hp => cases hr
  | accepted id caller ticket e' hr hok => cases hr
  | rejected id hr => cases hr
  | swept hr => cases hr
  | changed id u hr => cases hr

theorem acks_name (hcloses : e.ClosesIn id m) (stamp : Stamp) :
    ∃ sent, (e.serve stamp (.event (.support m))).1.acks = e.acks ++ sent ∧
      ∀ a ∈ sent, a.tradeId = id := by
  cases htakes : e.takes (.event (.support m)) with
  | false =>
    rw [serve_of_not_taken htakes]
    exact ⟨[], (List.append_nil _).symm, fun a ha => by cases ha⟩
  | true =>
    refine ⟨_, acks_serve_support htakes stamp, ?_⟩
    intro a ha
    have hack : e.ack? m = some a := by simpa using ha
    cases m with
    | openNewDispute m =>
      cases hack
      exact Option.some.inj hid
    | peerOpenedDispute m =>
      cases hack
      exact Option.some.inj hid
    | chat m =>
      obtain ⟨d, -, rfl⟩ := Option.map_eq_some_iff.mp hack
      exact Option.some.inj hid
    | disputeResult m =>
      obtain ⟨closing, hclosing, hmap⟩ := Option.bind_eq_some_iff.mp hack
      obtain ⟨d, hd, rfl⟩ := Option.map_eq_some_iff.mp hmap
      have hstored : e.disputes.contains m.tradeId = true := DisputeStore.contains_of_some hd
      exact hcloses m closing (applied?_of_attempt? rfl htakes hclosing hstored) hclosing
    | unsupported => cases hack

/-- A support message touches only the trade that it is about, exactly when the
closing message of the result that it applies, if it does, names that trade. -/
theorem serve_support_scoped_iff (stamp : Stamp) :
    (AgreeExcept id e (e.serve stamp (.event (.support m))).1 ∧
      (∃ sent, (e.serve stamp (.event (.support m))).1.acks = e.acks ++ sent ∧
        ∀ a ∈ sent, a.tradeId = id) ∧
      ∀ r closing, e.applied? (.event (.support m)) = some r →
        r.result.chatMessage = some closing →
        ∃ d, (e.serve stamp (.event (.support m))).1.disputes.find? id = some d ∧
          closing ∈ d.chat) ↔
      e.ClosesIn id m := by
  constructor
  · rintro ⟨-, ⟨sent, hacks, hnames⟩, -⟩ r closing happlied hclosing
    -- the acknowledgement of the closing message names what that names
    obtain ⟨hr, htakes, -, hstored⟩ := applied?_some happlied
    obtain ⟨a, ha⟩ := Request.attempt?_of_result? hr
    obtain rfl := eq_disputeResult_of_attempt? ha
    obtain ⟨d, hd⟩ := Option.isSome_iff_exists.mp hstored
    have hack : e.ack? (.disputeResult r) =
        some (e.ackFor closing.uid closing.tradeId d.parties.agent none) := by
      simp only [ack?, hclosing, hd, Option.bind_some, Option.map_some]
    rw [acks_serve_support htakes, hack, Option.toList_some] at hacks
    have hsent := List.append_cancel_left hacks
    exact hnames (e.ackFor closing.uid closing.tradeId d.parties.agent none)
      (by rw [← hsent]; exact List.mem_singleton_self _)
  · intro hcloses
    refine ⟨agreeExcept_serve_support hid hcloses stamp, acks_name hid hcloses stamp, ?_⟩
    intro r closing happlied hclosing
    have hnames := hcloses r closing happlied hclosing
    obtain ⟨hr, htakes, -, hstored⟩ := applied?_some happlied
    obtain ⟨a, ha⟩ := Request.attempt?_of_result? hr
    obtain rfl := eq_disputeResult_of_attempt? ha
    obtain rfl : r.tradeId = id := Option.some.inj hid
    exact (serve_result_of_stored hr htakes hclosing hstored stamp).mem_chat hnames hstored

end Support

end Engine

namespace Sample

def otherId : TradeId := ⟨"T2", by decide⟩

/-- Disputes about two trades. -/
def twoDisputes : Engine :=
  engine.play [deliver (opening none),
    deliver (.openNewDispute ⟨⟨5, by decide⟩, { dispute none with tradeId := otherId }, .default⟩)]

/-- The ruling for the buyer, with a closing message that names the other trade. -/
def astray : ResultMessage :=
  { forBuyer with result := { forBuyer.result with
    chatMessage := some { closing with tradeId := otherId } } }

end Sample

namespace Engine

open Sample in
theorem serve_support_scoped_for_buyer :
    AgreeExcept tradeId twoDisputes
        (twoDisputes.serve stamp (.event (.support (.disputeResult forBuyer)))).1 ∧
      ∃ d, (twoDisputes.serve stamp (.event (.support (.disputeResult forBuyer)))).1.disputes.find?
        tradeId = some d ∧ closing ∈ d.chat := by
  have hid : (SupportMessage.disputeResult forBuyer).tradeId? = some tradeId := rfl
  have happlied : twoDisputes.applied? (.event (.support (.disputeResult forBuyer))) =
      some forBuyer := by decide +kernel
  have hcloses : twoDisputes.ClosesIn tradeId (.disputeResult forBuyer) := by
    intro r c hr hc
    obtain rfl : forBuyer = r := Option.some.inj (happlied.symm.trans hr)
    cases hc
    rfl
  obtain ⟨hagree, -, hchat⟩ := (serve_support_scoped_iff hid stamp).mpr hcloses
  exact ⟨hagree, hchat forBuyer closing happlied rfl⟩

open Sample in
/-- A result about one trade may write into the dispute about another. -/
theorem not_serve_support_scoped :
    ¬ ∀ (e : Engine) (m : SupportMessage) (id : TradeId) (stamp : Stamp), m.tradeId? = some id →
      AgreeExcept id e (e.serve stamp (.event (.support m))).1 ∧
      (∃ sent, (e.serve stamp (.event (.support m))).1.acks = e.acks ++ sent ∧
        ∀ a ∈ sent, a.tradeId = id) ∧
      ∀ r closing, e.applied? (.event (.support m)) = some r →
        r.result.chatMessage = some closing →
        ∃ d, (e.serve stamp (.event (.support m))).1.disputes.find? id = some d ∧
          closing ∈ d.chat := by
  intro h
  have hid : (SupportMessage.disputeResult astray).tradeId? = some tradeId := rfl
  obtain ⟨hagree, -, -⟩ := h twoDisputes (.disputeResult astray) tradeId stamp hid
  have hother := hagree.disputes otherId (by decide)
  revert hother
  decide +kernel

end Engine

end Mediation
