import Mediation.Proofs.Engine.Case
import Mediation.Proofs.Engine.Scope

/-!
# Messages about different trades

What a support message does to its trade depends on nothing but what is held
about that trade, and it leaves what is held about the others alone. Two
messages about different trades can therefore be handled in either order. The
lists that all trades share are the same up to their order: the
acknowledgements, and the tasks of the timers, whose handles count the tasks
as they come.
-/

namespace Mediation

/-- What an engine holds about one trade: its case, and the offer with its id. -/
structure Dossier extends Case where
  offer : Option OpenOffer

def Engine.dossier (e : Engine) (id : TradeId) : Dossier where
  toCase := e.caseOf id
  offer := e.registry.book.offers.get? id

namespace Dossier

def opened (c : MediationConfig) (address : NodeAddress) (stamp : Stamp) (r : Request)
    (d : Dispute) (k : Dossier) : Dossier :=
  match k.dispute with
  | some _ => k
  | none =>
    { k with
      dispute := some
        (d.addMessage (.system stamp d.tradeId c.supportType address (r.greeting d)))
      live := k.live.map fun t => t.enter? (r.entry? c) }

def said (m : ChatMessage) (k : Dossier) : Dossier :=
  { k with dispute := k.dispute.map fun d => d.addMessage m }

/-- The dossier after a result: nothing happens without a dispute, and the offer is
closed if there is no trade. -/
def ruled (m : ResultMessage) (closing : ChatMessage) (k : Dossier) : Dossier :=
  match k.dispute with
  | none => k
  | some d =>
    { dispute := some ((d.addMessage closing).close.attach m.result)
      live := k.live.map fun t => t.applyResult m.result.buyerPayout m.result.sellerPayout
      closed := k.closed
      offer :=
        match k.live.or k.closed with
        | some _ => k.offer
        | none => k.offer.map fun o => o.close.toOption.getD o }

/-- The dossier of its trade once a message past the gate has been handled. -/
def after (c : MediationConfig) (address : NodeAddress) (stamp : Stamp) (k : Dossier) :
    SupportMessage → Dossier
  | .openNewDispute m => k.opened c address stamp (.event (.support (.openNewDispute m))) m.dispute
  | .peerOpenedDispute m =>
    k.opened c address stamp (.event (.support (.peerOpenedDispute m))) m.dispute
  | .chat m => k.said m
  | .disputeResult m => (m.result.chatMessage.map fun closing => k.ruled m closing).getD k
  | .unsupported => k

end Dossier

namespace SupportMessage

/-- Two messages about different trades with different ids. -/
structure Apart (m n : SupportMessage) : Prop where
  trades : ∀ id, m.tradeId? = some id → n.tradeId? ≠ some id
  uids : ∀ uid, m.uid? = some uid → n.uid? ≠ some uid

theorem Apart.symm {m n : SupportMessage} (h : m.Apart n) : n.Apart m where
  trades := fun id hn hm => h.trades id hm hn
  uids := fun uid hn hm => h.uids uid hm hn

/-- The closing message of a result names the trade of the result. -/
def ClosesOwn (m : SupportMessage) : Prop :=
  ∀ r closing, m = .disputeResult r → r.result.chatMessage = some closing →
    closing.tradeId = r.tradeId

/-- The result that a message brings with its closing message. -/
def ruling? : SupportMessage → Option ResultMessage
  | .disputeResult m => if m.result.chatMessage.isSome then some m else none
  | _ => none

theorem eq_of_ruling? {m : SupportMessage} {r : ResultMessage} (h : m.ruling? = some r) :
    m = .disputeResult r ∧ ∃ closing, r.result.chatMessage = some closing := by
  unfold ruling? at h
  split at h
  next n =>
    split at h
    next hclosing =>
      cases h
      exact ⟨rfl, Option.isSome_iff_exists.mp hclosing⟩
    next => cases h
  next => cases h

end SupportMessage

/-- The tasks that wait, with the times at which they are due. -/
def Timers.tasks {α : Type} (t : Timers α) : List (Nat × α) :=
  t.waiting.map fun w => (w.due, w.task)

namespace Engine

/-! ### The trade of a message -/

theorem AgreeExcept.dossier {e e' : Engine} {id j : TradeId} (h : AgreeExcept id e e')
    (hj : j ≠ id) : e'.dossier j = e.dossier j := by
  simp only [Engine.dossier, caseOf, h.disputes j hj, h.live j hj, h.closed j hj, h.offers j hj]

theorem dossier_serve_opening {e : Engine} {r : Request} {d : Dispute}
    (hr : r.dispute? = some d) (htakes : e.takes r = true) (stamp : Stamp) :
    (e.serve stamp r).1.dossier d.tradeId =
      (e.dossier d.tradeId).opened e.config e.address stamp r d := by
  cases hd : e.disputes.find? d.tradeId with
  | some d' =>
    have hstored : e.disputes.contains d.tradeId = true := DisputeStore.contains_of_some hd
    have hsame : (e.dossier d.tradeId).opened e.config e.address stamp r d =
        e.dossier d.tradeId := by
      simp only [Dossier.opened, dossier, caseOf, hd]
    rw [hsame, serve_opening_of_stored hr hstored stamp]
    rfl
  | none =>
    have hbook := addDispute_book e stamp d (r.greeting d) (r.entry? e.config)
    have hlive : (e.addDispute stamp d (r.greeting d) (r.entry? e.config)).registry.book.live.get?
          d.tradeId =
        (e.registry.book.live.get? d.tradeId).map fun t => t.enter? (r.entry? e.config) := by
      rw [hbook]
      cases r.entry? e.config with
      | none => exact Option.map_id'.symm
      | some s => exact (Book.update_live _ _ _ _).trans (if_pos rfl)
    have hrest : (e.addDispute stamp d (r.greeting d) (r.entry? e.config)).registry.book.closed =
          e.registry.book.closed ∧
        (e.addDispute stamp d (r.greeting d) (r.entry? e.config)).registry.book.offers =
          e.registry.book.offers := by
      rw [hbook]
      cases r.entry? e.config <;> exact ⟨rfl, rfl⟩
    rw [serve_opening hr htakes hd stamp]
    simp only [Dossier.opened, dossier, caseOf, hd, hlive, hrest, find?_addDispute hd, if_true]

theorem dossier_serve_chat {e : Engine} {m : ChatMessage}
    (htakes : e.takes (.event (.support (.chat m))) = true) (stamp : Stamp) :
    (e.serve stamp (.event (.support (.chat m)))).1.dossier m.tradeId =
      (e.dossier m.tradeId).said m := by
  obtain ⟨requests, acks, hsaid⟩ := serve_chat htakes stamp
  have hfind := e.disputes.find?_append m m.tradeId
  rw [if_pos rfl] at hfind
  rw [hsaid, Dossier.said]
  simp only [dossier, caseOf, ← hfind]
  rfl

theorem dossier_serve_result {e : Engine} {m : ResultMessage}
    (htakes : e.takes (.event (.support (.disputeResult m))) = true)
    (hcloses : (SupportMessage.disputeResult m).ClosesOwn) (stamp : Stamp) :
    (e.serve stamp (.event (.support (.disputeResult m)))).1.dossier m.tradeId =
      ((m.result.chatMessage.map fun closing => (e.dossier m.tradeId).ruled m closing).getD
        (e.dossier m.tradeId)) := by
  rcases serve_result_cases (r := .event (.support (.disputeResult m))) rfl stamp with
    ⟨hdropped, hsame⟩ | ⟨hmissing, a, hmissed⟩ | ⟨-, hstored, closing, hclosing, hruled⟩
  · rcases hdropped with hgate | hclosing
    · rw [htakes] at hgate
      cases hgate
    · rw [hsame, hclosing]
      rfl
  · have hruled : ∀ closing, (e.dossier m.tradeId).ruled m closing = e.dossier m.tradeId := by
      intro closing
      simp only [Dossier.ruled, dossier, caseOf, hmissing]
    have hsame : (e.missDispute m a).dossier m.tradeId = e.dossier m.tradeId := by
      rw [missDispute_eq]
      rfl
    rw [hmissed, hsame]
    cases m.result.chatMessage with
    | none => rfl
    | some closing => exact (hruled closing).symm
  · have hnames := hcloses m closing rfl hclosing
    obtain ⟨d, hd⟩ := Option.isSome_iff_exists.mp hstored
    have hfind : (e.serve stamp (.event (.support (.disputeResult m)))).1.disputes.find? m.tradeId =
        some ((d.addMessage closing).close.attach m.result) := by
      rw [hruled.find?, if_pos rfl, DisputeStore.find?_append, if_pos hnames.symm, hd]
      rfl
    rw [hclosing, Option.map_some, Option.getD_some]
    simp only [Dossier.ruled, dossier, caseOf, hfind, hd, hruled.book, Book.applyResult_live,
      if_true, Book.applyResult_closed, Book.offers_applyResult]
    rfl

/-! ### Retries and timers -/

theorem contains_retries_missDispute (e : Engine) (r : ResultMessage) (uid : MessageUid) :
    (e.missDispute r .delivery).retries.contains uid =
      if uid = r.uid then true else e.retries.contains uid := by
  unfold missDispute
  dsimp only
  split
  next hnoted =>
    split
    next huid => rw [huid, hnoted]
    next => rfl
  next =>
    rw [Table.contains, Table.get?_insert]
    split <;> rfl

section Support
variable {e : Engine} {m : SupportMessage} (htakes : e.takes (.event (.support m)) = true)
include htakes

/-- What a message makes of its trade is made of what was held about it. -/
theorem dossier_serve_support (hcloses : m.ClosesOwn) {id : TradeId} (hid : m.tradeId? = some id)
    (stamp : Stamp) :
    (e.serve stamp (.event (.support m))).1.dossier id =
      (e.dossier id).after e.config e.address stamp m := by
  cases m with
  | openNewDispute m =>
    cases hid
    exact dossier_serve_opening rfl htakes stamp
  | peerOpenedDispute m =>
    cases hid
    exact dossier_serve_opening rfl htakes stamp
  | chat m =>
    cases hid
    exact dossier_serve_chat htakes stamp
  | disputeResult m =>
    cases hid
    exact dossier_serve_result htakes hcloses stamp
  | unsupported => cases hid

/-- A message that brings no result leaves what is waited for alone; one that does
notes its id if the dispute is missing, and removes the note if it is stored. -/
theorem serve_support_waits (stamp : Stamp) :
    let e' := (e.serve stamp (.event (.support m))).1
    (m.ruling? = none ∧ e'.timers = e.timers ∧ e'.retries = e.retries) ∨
      (∃ r, m.ruling? = some r ∧ e.disputes.contains r.tradeId = false ∧
        e' = e.missDispute r .delivery) ∨
      ∃ r, m.ruling? = some r ∧ e.disputes.contains r.tradeId = true ∧
        e'.timers = e.timers ∧ e'.retries = e.retries.erase r.uid := by
  intro e'
  cases hm : m.ruling? with
  | none =>
    refine Or.inl ⟨rfl, ?_⟩
    cases ha : Request.attempt? (.event (.support m)) with
    | none => exact (served e stamp (.event (.support m))).waits ha
    | some p =>
      obtain rfl := eq_disputeResult_of_attempt? (a := p.2) ha
      have hclosing : p.1.result.chatMessage.isSome = false := by
        simpa [SupportMessage.ruling?] using hm
      rcases serve_attempt_cases ha stamp with
        ⟨-, hsame⟩ | ⟨hsome, -⟩ | ⟨-, -, closing, acks, hsome, -⟩
      · exact ⟨congrArg Engine.timers hsame, congrArg Engine.retries hsame⟩
      · rw [hclosing] at hsome
        cases hsome
      · rw [hsome] at hclosing
        cases hclosing
  | some r =>
    obtain ⟨rfl, closing, hclosing⟩ := SupportMessage.eq_of_ruling? hm
    refine Or.inr ?_
    rcases serve_attempt_cases (r := .event (.support (.disputeResult r))) rfl stamp with
      ⟨hgate | hnone, -⟩ | ⟨-, hmissing, hmissed⟩ | ⟨-, hstored, closing', acks, -, hruled⟩
    · rw [htakes] at hgate
      cases hgate
    · rw [hclosing] at hnone
      cases hnone
    · refine Or.inl ⟨r, rfl, ?_, hmissed⟩
      exact DisputeStore.contains_of_none hmissing
    · have h := ruled_ruling e r closing' acks
      rw [← hruled] at h
      exact Or.inr ⟨r, rfl, hstored, h.timers, h.retries⟩

theorem contains_retries_serve_support (stamp : Stamp) (uid : MessageUid) :
    (e.serve stamp (.event (.support m))).1.retries.contains uid =
      match m.ruling?.filter fun r => r.uid = uid with
      | some r => !e.disputes.contains r.tradeId
      | none => e.retries.contains uid := by
  rcases serve_support_waits htakes stamp with
    ⟨hm, -, hretries⟩ | ⟨r, hm, hmissing, hmissed⟩ | ⟨r, hm, hstored, -, hretries⟩
  · rw [hm, hretries, Option.filter_none]
  · rw [hm, hmissed, contains_retries_missDispute, Option.filter_some]
    by_cases huid : uid = r.uid
    · simp only [huid, decide_true, if_true, hmissing, Bool.not_false]
    · have hne : ¬ r.uid = uid := fun h => huid h.symm
      simp only [huid, hne, decide_false, if_false, Bool.false_eq_true]
  · rw [hm, hretries, Option.filter_some, Table.contains, Table.get?_erase]
    by_cases huid : uid = r.uid
    · simp only [huid, decide_true, if_true, hstored, Bool.not_true, Option.isSome_none]
    · have hne : ¬ r.uid = uid := fun h => huid h.symm
      simp only [huid, hne, decide_false, if_false, Bool.false_eq_true]
      rfl

/-- The retry that a message schedules. -/
def postponed? (e : Engine) (m : SupportMessage) : Option (Nat × ResultMessage) :=
  (m.ruling?.filter fun r => !e.disputes.contains r.tradeId && !e.retries.contains r.uid).map
    fun r => (e.timers.now + e.config.retryDelay, r)

theorem timers_serve_support (stamp : Stamp) :
    (e.serve stamp (.event (.support m))).1.timers.now = e.timers.now ∧
      (e.serve stamp (.event (.support m))).1.timers.tasks =
        e.timers.tasks ++ (e.postponed? m).toList := by
  rcases serve_support_waits htakes stamp with
    ⟨hm, htimers, -⟩ | ⟨r, hm, hmissing, hmissed⟩ | ⟨r, hm, hstored, htimers, -⟩
  · have hpostponed : e.postponed? m = none := by
      rw [postponed?, hm]
      rfl
    rw [htimers, hpostponed]
    exact ⟨rfl, (List.append_nil _).symm⟩
  · cases hnoted : e.retries.contains r.uid with
    | true =>
      have hpostponed : e.postponed? m = none := by
        simp [postponed?, hm, hnoted]
      have hsame : (e.missDispute r .delivery).timers = e.timers := by
        simp only [missDispute, hnoted, if_true]
      rw [hmissed, hsame, hpostponed]
      exact ⟨rfl, (List.append_nil _).symm⟩
    | false =>
      have hpostponed : e.postponed? m = some (e.timers.now + e.config.retryDelay, r) := by
        simp [postponed?, hm, hnoted, hmissing]
      have hscheduled : (e.missDispute r .delivery).timers =
          e.timers.schedule e.config.retryDelay r := by
        simp only [missDispute, hnoted, Bool.false_eq_true, if_false]
      rw [hmissed, hscheduled, hpostponed]
      exact ⟨rfl, List.map_append⟩
  · have hpostponed : e.postponed? m = none := by
      simp [postponed?, hm, hstored]
    rw [htimers, hpostponed]
    exact ⟨rfl, (List.append_nil _).symm⟩

end Support

/-! ### Two messages -/

theorem closesIn_of_closesOwn {m : SupportMessage} (h : m.ClosesOwn) (e : Engine) {id : TradeId}
    (hid : m.tradeId? = some id) : e.ClosesIn id m := by
  intro r closing happlied hclosing
  obtain ⟨a, ha⟩ := Request.attempt?_of_result? (applied?_some happlied).1
  obtain rfl := eq_disputeResult_of_attempt? ha
  rw [h r closing rfl hclosing]
  exact Option.some.inj hid

theorem dossier_serve_support_of_ne {e : Engine} {m : SupportMessage} (hcloses : m.ClosesOwn)
    {id : TradeId} (hid : m.tradeId? ≠ some id) (stamp : Stamp) :
    (e.serve stamp (.event (.support m))).1.dossier id = e.dossier id := by
  cases hm : m.tradeId? with
  | none =>
    have hnone : m = .unsupported := by
      cases m with
      | unsupported => rfl
      | _ => cases hm
    rw [hnone, serve_unsupported]
  | some j =>
    have hj : id ≠ j := fun h => hid (by rw [hm, h])
    exact (agreeExcept_serve_support hm (closesIn_of_closesOwn hcloses e hm) stamp).dossier hj

/-- Two engines are alike to a message: it finds in both the same of what it looks at. -/
structure Alike (m : SupportMessage) (e e' : Engine) : Prop where
  config : e'.config = e.config
  address : e'.address = e.address
  now : e'.timers.now = e.timers.now
  dossier : ∀ id, m.tradeId? = some id → e'.dossier id = e.dossier id
  noted : ∀ uid, m.uid? = some uid → e'.retries.contains uid = e.retries.contains uid

theorem contains_retries_of_ne {e : Engine} {m : SupportMessage}
    (htakes : e.takes (.event (.support m)) = true) {uid : MessageUid} (huid : m.uid? ≠ some uid)
    (stamp : Stamp) :
    (e.serve stamp (.event (.support m))).1.retries.contains uid = e.retries.contains uid := by
  rw [contains_retries_serve_support htakes]
  have hnone : (m.ruling?.filter fun r => r.uid = uid) = none := by
    refine Option.filter_eq_none_iff.mpr fun r hr => ?_
    obtain ⟨rfl, -⟩ := SupportMessage.eq_of_ruling? hr
    intro h
    exact huid (congrArg some (of_decide_eq_true h))
  rw [hnone]

theorem alike_serve_support {e : Engine} {m n : SupportMessage} (hapart : m.Apart n)
    (htakes : e.takes (.event (.support n)) = true) (hcloses : n.ClosesOwn) (stamp : Stamp) :
    Alike m e (e.serve stamp (.event (.support n))).1 where
  config := serve_config e stamp _
  address := (served e stamp (.event (.support n))).address
  now := (timers_serve_support htakes stamp).1
  dossier := fun id hid => dossier_serve_support_of_ne hcloses (hapart.trades id hid) stamp
  noted := fun uid huid => contains_retries_of_ne htakes (hapart.uids uid huid) stamp

namespace Alike
variable {m : SupportMessage} {e e' : Engine} (h : Alike m e e')
include h

theorem takes : e'.takes (.event (.support m)) = e.takes (.event (.support m)) :=
  takes_congr h.config _

theorem find? {id : TradeId} (hid : m.tradeId? = some id) :
    e'.disputes.find? id = e.disputes.find? id :=
  congrArg (fun k => k.toCase.dispute) (h.dossier id hid)

theorem contains {id : TradeId} (hid : m.tradeId? = some id) :
    e'.disputes.contains id = e.disputes.contains id := congrArg Option.isSome (h.find? hid)

theorem ack? : e'.ack? m = e.ack? m := by
  cases m with
  | openNewDispute m => simp only [Engine.ack?, openingAck, ackFor, h.config, h.contains rfl]
  | peerOpenedDispute m => simp only [Engine.ack?, openingAck, ackFor, h.config, h.contains rfl]
  | chat m => simp only [Engine.ack?, ackFor, h.config, h.find? rfl]
  | disputeResult m =>
    have hd : e'.disputes.find? m.tradeId = e.disputes.find? m.tradeId := h.find? rfl
    simp only [Engine.ack?, ackFor, h.config, hd]
  | unsupported => rfl

theorem postponed? : e'.postponed? m = e.postponed? m := by
  unfold Engine.postponed?
  cases hm : m.ruling? with
  | none => rfl
  | some r =>
    obtain ⟨rfl, -⟩ := SupportMessage.eq_of_ruling? hm
    have hd : e'.disputes.contains r.tradeId = e.disputes.contains r.tradeId := h.contains rfl
    have hnoted : e'.retries.contains r.uid = e.retries.contains r.uid := h.noted r.uid rfl
    simp only [Option.filter_some, hd, hnoted, h.now, h.config]

end Alike

/-- Two engines hold the same, apart from the order of what they have sent and of the
tasks that wait. -/
structure SameUpToOrder (e e' : Engine) : Prop where
  disputes : e'.disputes.disputes = e.disputes.disputes
  book : e'.registry.book = e.registry.book
  retries : ∀ uid, e'.retries.contains uid = e.retries.contains uid
  now : e'.timers.now = e.timers.now
  tasks : e'.timers.tasks.Perm e.timers.tasks
  acks : e'.acks.Perm e.acks

theorem disputes_eq_of_dossier {e e' : Engine} (h : ∀ id, e'.dossier id = e.dossier id) :
    e'.disputes.disputes = e.disputes.disputes :=
  DisputeStore.ext_find? fun id => congrArg (fun k => k.toCase.dispute) (h id)

theorem book_eq_of_dossier {e e' : Engine} (h : ∀ id, e'.dossier id = e.dossier id) :
    e'.registry.book = e.registry.book := by
  have hlive : e'.registry.book.live = e.registry.book.live :=
    Table.ext_get? fun id => congrArg (fun k => k.toCase.live) (h id)
  have hclosed : e'.registry.book.closed = e.registry.book.closed :=
    Table.ext_get? fun id => congrArg (fun k => k.toCase.closed) (h id)
  have hoffers : e'.registry.book.offers = e.registry.book.offers :=
    Table.ext_get? fun id => congrArg Dossier.offer (h id)
  calc e'.registry.book
      = ⟨e'.registry.book.live, e'.registry.book.closed, e'.registry.book.offers⟩ := rfl
    _ = e.registry.book := by rw [hlive, hclosed, hoffers]

section Two
variable {e : Engine} {m n : SupportMessage} (hapart : m.Apart n)
  (hm : e.takes (.event (.support m)) = true) (hn : e.takes (.event (.support n)) = true)
  (hmcloses : m.ClosesOwn) (hncloses : n.ClosesOwn) (s t : Stamp)
include hapart hm hn hmcloses hncloses

/-- A trade that the one message is not about holds in both orders what the other makes of it. -/
theorem dossier_serve_comm_of_ne {id : TradeId} (hid : n.tradeId? ≠ some id) :
    ((e.serve t (.event (.support n))).1.serve s (.event (.support m))).1.dossier id =
      ((e.serve s (.event (.support m))).1.serve t (.event (.support n))).1.dossier id := by
  have halike := alike_serve_support hapart hn hncloses t
  rw [dossier_serve_support_of_ne (e := (e.serve s (.event (.support m))).1) hncloses hid t]
  by_cases hmid : m.tradeId? = some id
  · rw [dossier_serve_support (halike.takes.trans hm) hmcloses hmid,
      dossier_serve_support hm hmcloses hmid, halike.config, halike.address, halike.dossier id hmid]
  · rw [dossier_serve_support_of_ne hmcloses hmid, dossier_serve_support_of_ne hmcloses hmid,
      dossier_serve_support_of_ne hncloses hid]

theorem retries_serve_comm_of_ne {uid : MessageUid} (huid : n.uid? ≠ some uid) :
    ((e.serve t (.event (.support n))).1.serve s (.event (.support m))).1.retries.contains uid =
      ((e.serve s (.event (.support m))).1.serve t (.event (.support n))).1.retries.contains
        uid := by
  have halike := alike_serve_support hapart hn hncloses t
  have hntakes := (alike_serve_support hapart.symm hm hmcloses s).takes.trans hn
  rw [contains_retries_of_ne hntakes huid,
    contains_retries_serve_support (halike.takes.trans hm), contains_retries_serve_support hm]
  cases hr : m.ruling?.filter fun r => r.uid = uid with
  | none => exact contains_retries_of_ne hn huid t
  | some r =>
    obtain ⟨rfl, -⟩ := SupportMessage.eq_of_ruling? (Option.eq_some_of_filter_eq_some hr)
    exact congrArg (!·) (halike.contains rfl)

/-- Messages about different trades can be handled in either order. -/
theorem serve_support_comm :
    SameUpToOrder ((e.serve s (.event (.support m))).1.serve t (.event (.support n))).1
      ((e.serve t (.event (.support n))).1.serve s (.event (.support m))).1 := by
  have hmalike := alike_serve_support hapart hn hncloses t
  have hnalike := alike_serve_support hapart.symm hm hmcloses s
  have hmtakes := hmalike.takes.trans hm
  have hntakes := hnalike.takes.trans hn
  have hdossier : ∀ id,
      ((e.serve t (.event (.support n))).1.serve s (.event (.support m))).1.dossier id =
        ((e.serve s (.event (.support m))).1.serve t (.event (.support n))).1.dossier id := by
    intro id
    by_cases hid : n.tradeId? = some id
    · exact (dossier_serve_comm_of_ne hapart.symm hn hm hncloses hmcloses t s
        (hapart.symm.trades id hid)).symm
    · exact dossier_serve_comm_of_ne hapart hm hn hmcloses hncloses s t hid
  have hmtimers := timers_serve_support hm s
  have hntimers := timers_serve_support hn t
  have hmlate := timers_serve_support hmtakes s
  have hnlate := timers_serve_support hntakes t
  refine ⟨disputes_eq_of_dossier hdossier, book_eq_of_dossier hdossier, ?_, ?_, ?_, ?_⟩
  · intro uid
    by_cases huid : n.uid? = some uid
    · exact (retries_serve_comm_of_ne hapart.symm hn hm hncloses hmcloses t s
        (hapart.symm.uids uid huid)).symm
    · exact retries_serve_comm_of_ne hapart hm hn hmcloses hncloses s t huid
  · rw [hmlate.1, hntimers.1, hnlate.1, hmtimers.1]
  · rw [hmlate.2, hntimers.2, hnlate.2, hmtimers.2, hmalike.postponed?, hnalike.postponed?,
      List.append_assoc, List.append_assoc]
    exact List.perm_append_comm.append_left _
  · rw [acks_serve_support hmtakes, acks_serve_support hn, acks_serve_support hntakes,
      acks_serve_support hm, hmalike.ack?, hnalike.ack?, List.append_assoc, List.append_assoc]
    exact List.perm_append_comm.append_left _

end Two

end Engine

namespace Sample

/-- A dispute about the one trade, and none about the other. -/
def oneDispute : Engine := engine.play [deliver (opening none)]

def otherResult : ResultMessage :=
  let r := result trade.terms.amount .zero
  ⟨⟨6, by decide⟩, .mediation,
    { r with tradeId := otherId, chatMessage := some { closing with tradeId := otherId } },
    .default⟩

end Sample

namespace Engine

open Sample in
theorem serve_support_comm_early :
    SameUpToOrder
      ((oneDispute.serve stamp (.event (.support (.disputeResult forBuyer)))).1.serve stamp
        (.event (.support (.disputeResult otherResult)))).1
      ((oneDispute.serve stamp (.event (.support (.disputeResult otherResult)))).1.serve stamp
        (.event (.support (.disputeResult forBuyer)))).1 := by
  have hapart : (SupportMessage.disputeResult forBuyer).Apart (.disputeResult otherResult) := by
    constructor
    · intro id hm hn
      cases hm
      exact absurd hn (by decide)
    · intro uid hm hn
      cases hm
      exact absurd hn (by decide)
  have hmcloses : (SupportMessage.disputeResult forBuyer).ClosesOwn := by
    intro r c hr hc
    cases hr
    cases hc
    rfl
  have hncloses : (SupportMessage.disputeResult otherResult).ClosesOwn := by
    intro r c hr hc
    cases hr
    cases hc
    rfl
  exact serve_support_comm hapart (by decide +kernel) (by decide +kernel) hmcloses hncloses
    stamp stamp

end Engine

end Mediation
