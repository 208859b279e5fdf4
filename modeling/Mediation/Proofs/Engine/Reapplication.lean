import Mediation.Proofs.Engine.Operations
import Mediation.Proofs.Engine.Retries
import Mediation.Proofs.Engine.Scope

/-!
# A result that has been applied

Once a result has been applied, its dispute is closed and holds the result and
its closing message, its trade is past mediation, and no retry is noted for its
message. All this stays, whatever is done later, unless another result is
applied to the trade: there is no second opening that would put the trade back
into mediation. The message can therefore come again at any time, and is only
acknowledged once more.
-/

namespace Mediation

theorem Trade.isMediationOpen_applyResult (t : Trade) (buyer seller : Coin) :
    (t.applyResult buyer seller).disputeState.isMediationOpen = false := by
  unfold applyResult
  split
  next => rfl
  next hopen => simpa using hopen

theorem Table.erase_eq_self {κ α : Type} [LT κ] [DecidableLT κ] [KeyOrder κ] [DecidableEq κ]
    {t : Table κ α} {k : κ} (h : t.get? k = none) : t.erase k = t := by
  apply ext_get?
  intro j
  rw [get?_erase]
  split
  next hj => rw [hj, h]
  next => rfl

/-! ### The case of the trade -/

theorem OpenOffer.isTerminal_close (o : OpenOffer) :
    (o.close.toOption.getD o).state.isTerminal = true := by
  obtain ⟨id, state⟩ := o
  cases state <;> rfl

theorem OpenOffer.close_of_isTerminal {o : OpenOffer} (h : o.state.isTerminal = true) :
    o.close.toOption.getD o = o := by
  obtain ⟨id, state⟩ := o
  cases state with
  | closed => rfl
  | canceled => rfl
  | _ => cases h

namespace Case

/-- The case of a trade to which a result has been applied. -/
structure Applied (m : ResultMessage) (closing : ChatMessage) (k : Case) : Prop where
  dispute : ∃ d, k.dispute = some d ∧ d.isClosed = true ∧ d.result = some m.result ∧
    closing ∈ d.chat
  live : ∀ t, k.live = some t → t.disputeState.isMediationOpen = false

def hasTrade (k : Case) : Bool := (k.live.or k.closed).isSome

section Step
variable {c : MediationConfig} {r : Request} {id : TradeId} {k l : Case}

theorem Step.hasTrade_eq (h : Step c r id k l) : l.hasTrade = k.hasTrade := by
  cases h with
  | opened d stamp sender text hr hd => simp only [hasTrade, Option.isSome_or, Option.isSome_map]
  | ruled d m hr hm => simp only [hasTrade, Option.isSome_or, Option.isSome_map]
  | _ => rfl

/-- The trade is changed, but not the state of its dispute. -/
theorem Applied.of_live {m : ResultMessage} {closing : ChatMessage} (h : k.Applied m closing)
    (hdispute : l.dispute = k.dispute)
    (hlive : ∀ u, l.live = some u → ∃ t, k.live = some t ∧ u.disputeState = t.disputeState) :
    l.Applied m closing := by
  refine ⟨hdispute ▸ h.dispute, fun u hu => ?_⟩
  obtain ⟨t, ht, hstate⟩ := hlive u hu
  rw [hstate]
  exact h.live t ht

/-- Nothing but another result undoes what a result has done. -/
theorem Step.applied {m : ResultMessage} {closing : ChatMessage}
    (hother : ∀ n, r.result? = some n → n.tradeId ≠ id) (h : Step c r id k l)
    (hk : k.Applied m closing) : l.Applied m closing := by
  cases h with
  | opened d stamp sender text hr hid =>
    obtain ⟨d, hd, -⟩ := hk.dispute
    cases hd
  | said d n hr hn =>
    obtain ⟨d, hd, hclosed, hresult, hmem⟩ := hk.dispute
    cases hd
    refine ⟨⟨d.addMessage n, rfl, ?_, ?_, ?_⟩, hk.live⟩
    · rw [Dispute.addMessage_isClosed, hclosed]
    · rw [Dispute.addMessage_result, hresult]
    · exact (d.chat_prefix_addMessage n).subset hmem
  | ruled d n hr hn => exact absurd hn (hother n hr)
  | accepted d t res hr hres => exact hk.of_live rfl fun u hu => ⟨t, rfl, by cases hu; rfl⟩
  | rejected t hr => exact hk.of_live rfl fun u hu => ⟨t, rfl, by cases hu; rfl⟩
  | moved t phase hr => exact hk.of_live rfl fun u hu => ⟨t, rfl, by cases hu; rfl⟩
  | signed t signature hr => exact hk.of_live rfl fun u hu => ⟨t, rfl, by cases hu; rfl⟩
  | paid t tx hr => exact hk.of_live rfl fun u hu => ⟨t, rfl, by cases hu; rfl⟩
  | settled t hpaid hstate => exact hk.of_live rfl fun u hu => by cases hu

theorem Steps.hasTrade_eq (h : Steps c r id k l) : l.hasTrade = k.hasTrade := by
  induction h with
  | refl => rfl
  | tail _ hstep ih => rw [hstep.hasTrade_eq, ih]

theorem Steps.applied {m : ResultMessage} {closing : ChatMessage}
    (hother : ∀ n, r.result? = some n → n.tradeId ≠ id) (h : Steps c r id k l)
    (hk : k.Applied m closing) : l.Applied m closing := by
  induction h with
  | refl => exact hk
  | tail _ hstep ih => exact hstep.applied hother ih

end Step

end Case

namespace Engine

/-! ### Offers -/

theorem offers_closePaidTrades (ids : List TradeId) (e : Engine) :
    (e.closePaidTrades ids).1.registry.book.offers = e.registry.book.offers := by
  induction ids generalizing e with
  | nil => rfl
  | cons j ids ih =>
    unfold closePaidTrades
    split
    next => exact ih e
    next e' h =>
      obtain ⟨t, -, -, -, -, rfl⟩ := closePaidTrade?_some h
      exact ih _

theorem offers_receiveOutcome (e : Engine) (o : PayoutOutcome) :
    (e.receiveOutcome o).registry.book.offers = e.registry.book.offers := by
  unfold receiveOutcome
  split
  next => rfl
  next pending hp =>
    dsimp only
    split
    next => rfl
    next =>
      cases hclose : closePaidTrade?
          { e with acceptances := e.acceptances.erase o.ticket } pending.tradeId with
      | none => rfl
      | some e' =>
        obtain ⟨t, -, -, -, -, rfl⟩ := closePaidTrade?_some hclose
        rfl

/-- Only a message with a result touches the offers. -/
theorem Served.offers {e e' : Engine} {r : Request} (h : Served e r e')
    (hr : r.attempt? = none) : e'.registry.book.offers = e.registry.book.offers := by
  cases h with
  | idle acks => rfl
  | opened stamp d acks hd hnew =>
    change (e.addDispute stamp d (r.greeting d) (r.entry? e.config)).registry.book.offers = _
    rw [addDispute_book]
    cases r.entry? e.config <;> rfl
  | said m acks hm hstored => rfl
  | missed m a hm hclosing hmissing =>
    rw [hr] at hm
    cases hm
  | ruled m a closing acks hm htakes hclosing hstored =>
    rw [hr] at hm
    cases hm
  | answered o p ho hp => exact offers_receiveOutcome e o
  | accepted id caller ticket e' ha hok =>
    obtain ⟨d, res, t, step, -, -, -, -, rfl⟩ := accept_ok hok
    rcases askPayout_registry (e.accepting id caller res) step (acceptedTrade t res) ⟨ticket, id⟩
      with hsame | hpaid
    · rw [hsame]
      rfl
    · rw [hpaid]
      rfl
  | rejected id hj => rfl
  | swept hs =>
    have h := offers_closePaidTrades e.disputes.disputes.keys e
    simp only [cleanup]
    split
    · exact h
    · exact h
  | changed id u hu =>
    unfold change
    split
    · cases u <;> rfl
    · rfl

/-! ### The engine -/

/-- A result has been applied, and what it did still stands. -/
structure Applied (m : ResultMessage) (closing : ChatMessage) (e : Engine) : Prop where
  case : (e.caseOf m.tradeId).Applied m closing
  offer : (e.caseOf m.tradeId).hasTrade = false →
    ∀ o, e.registry.book.offers.get? m.tradeId = some o → o.state.isTerminal = true
  note : e.retries.get? m.uid = none

namespace Applied
variable {m : ResultMessage} {closing : ChatMessage} {e e' : Engine}

theorem of_ruled (hnames : closing.tradeId = m.tradeId)
    (hstored : e.disputes.contains m.tradeId = true) (h : Ruled e m closing e') :
    e'.Applied m closing := by
  obtain ⟨d, hd⟩ := Option.isSome_iff_exists.mp hstored
  have hlive := Book.applyResult_live e.registry.book m.tradeId m.tradeId m.result.buyerPayout
    m.result.sellerPayout
  rw [if_pos rfl, ← h.book] at hlive
  refine ⟨⟨⟨(d.addMessage closing).close.attach m.result, ?_, rfl, rfl, d.mem_addMessage closing⟩,
    ?_⟩, ?_, ?_⟩
  · change e'.disputes.find? m.tradeId = _
    rw [h.find?, if_pos rfl, DisputeStore.find?_append, if_pos hnames.symm, hd]
    rfl
  · intro t ht
    rw [caseOf, hlive] at ht
    obtain ⟨u, -, rfl⟩ := Option.map_eq_some_iff.mp ht
    exact u.isMediationOpen_applyResult _ _
  · intro hnone o ho
    have hbefore : e.registry.book.findTrade? m.tradeId = none := by
      have hclosed : e'.registry.book.closed = e.registry.book.closed := by
        rw [h.book, Book.applyResult_closed]
      simpa [Case.hasTrade, caseOf, hlive, hclosed, Book.findTrade?] using hnone
    rw [h.book, Book.offers_applyResult, hbefore] at ho
    obtain ⟨o', -, rfl⟩ := Option.map_eq_some_iff.mp ho
    exact o'.isTerminal_close
  · rw [h.retries, Table.get?_erase_self]

theorem congr (h : e.Applied m closing) (hdisputes : e'.disputes = e.disputes)
    (hregistry : e'.registry = e.registry) (hretries : e'.retries = e.retries) :
    e'.Applied m closing := by
  have hcase : e'.caseOf m.tradeId = e.caseOf m.tradeId := by
    simp only [caseOf, hdisputes, hregistry]
  refine ⟨?_, ?_, ?_⟩
  · rw [hcase]
    exact h.case
  · rw [hcase, hregistry]
    exact h.offer
  · rw [hretries]
    exact h.note

theorem stored (h : e.Applied m closing) : e.disputes.contains m.tradeId = true := by
  obtain ⟨d, hd, -⟩ := h.case.dispute
  exact Option.isSome_iff_exists.mpr ⟨d, hd⟩

/-- A request that brings no other result about the trade. -/
theorem serve_other (h : e.Applied m closing) {r : Request}
    (hother : ∀ n, r.result? = some n → n.tradeId ≠ m.tradeId) {stamp : Stamp}
    (hoffers : (e.serve stamp r).1.registry.book.offers.get? m.tradeId =
      e.registry.book.offers.get? m.tradeId)
    (hnote : (e.serve stamp r).1.retries.get? m.uid = none) :
    (e.serve stamp r).1.Applied m closing := by
  have hsteps := serve_steps e stamp r m.tradeId
  refine ⟨hsteps.applied hother h.case, ?_, hnote⟩
  rw [hsteps.hasTrade_eq, hoffers]
  exact h.offer

theorem serve (h : e.Applied m closing) (hclosing : m.result.chatMessage = some closing)
    (hnames : closing.tradeId = m.tradeId) {r : Request}
    (happlied : ∀ n, e.applied? r = some n → n.tradeId = m.tradeId → n = m)
    (huid : ∀ n, r = .event (.support (.disputeResult n)) → n.uid = m.uid → n = m)
    (stamp : Stamp) : (e.serve stamp r).1.Applied m closing := by
  cases hr : r.attempt? with
  | none =>
    have hserved := served e stamp r
    refine h.serve_other ?_ ?_ ?_
    · intro n hn
      obtain ⟨a, ha⟩ := Request.attempt?_of_result? hn
      rw [hr] at ha
      cases ha
    · rw [hserved.offers hr]
    · rw [(hserved.waits hr).2]
      exact h.note
  | some p =>
    obtain ⟨n, a⟩ := p
    rcases serve_attempt_cases hr stamp with
      ⟨-, hsame⟩ | ⟨-, hmissing, hmissed⟩ | ⟨htakes, hstored, closing', acks, hclosing', hruled⟩
    · rw [hsame]
      exact h
    · have hne : n.tradeId ≠ m.tradeId := by
        intro hid
        have hstored := h.stored
        rw [← hid, DisputeStore.contains, hmissing] at hstored
        cases hstored
      have hnote : (e.missDispute n a).retries.get? m.uid = none := by
        cases a with
        | retry =>
          simp only [missDispute, Table.get?_erase, h.note, ite_self]
        | delivery =>
          have hnuid : ¬ m.uid = n.uid := by
            intro hm
            exact hne (by rw [huid n (Request.eq_bring_of_attempt? hr) hm.symm])
          unfold missDispute
          dsimp only
          split
          next => exact h.note
          next => rw [Table.get?_insert, if_neg hnuid, h.note]
      refine h.serve_other ?_ ?_ (by rw [hmissed, hnote])
      · intro n' hn'
        rw [Request.result?_of_attempt? hr] at hn'
        cases hn'
        exact hne
      · rw [hmissed, missDispute_eq]
    · have hsome := applied?_of_attempt? hr htakes hclosing' hstored
      have hafter := ruled_ruling e n closing' acks
      rw [← hruled] at hafter
      by_cases hid : n.tradeId = m.tradeId
      · obtain rfl := happlied n hsome hid
        obtain rfl : closing = closing' := Option.some.inj (hclosing.symm.trans hclosing')
        exact of_ruled hnames hstored hafter
      · refine h.serve_other ?_ ?_ ?_
        · intro n' hn'
          rw [Request.result?_of_attempt? hr] at hn'
          cases hn'
          exact hid
        · rw [hafter.book]
          rcases Book.applyResult_offers e.registry.book n.tradeId m.tradeId n.result.buyerPayout
            n.result.sellerPayout with hsame | ⟨heq, -⟩
          · exact hsame
          · exact absurd heq.symm hid
        · rw [hafter.retries, Table.get?_erase, h.note, ite_self]

/-! ### The message once more -/

theorem rule_eq (h : e.Applied m closing) (hnames : closing.tradeId = m.tradeId) :
    e.disputes.rule m closing = e.disputes := by
  obtain ⟨d, hd, hclosed, hresult, hmem⟩ := h.case.dispute
  have hstored : ∀ d', e.disputes.find? m.tradeId = some d' → d' = d := by
    intro d' hd'
    exact Option.some.inj (hd'.symm.trans hd)
  have hsaid : e.disputes.append closing = e.disputes := by
    refine DisputeStore.update_eq_self fun d' hd' => ?_
    rw [hnames] at hd'
    obtain rfl := hstored d' hd'
    exact Dispute.addMessage_of_hasMessage (List.contains_iff_mem.mpr hmem)
  have hclose : e.disputes.close m.tradeId = e.disputes := by
    refine DisputeStore.update_eq_self fun d' hd' => ?_
    obtain rfl := hstored d' hd'
    rw [Dispute.close, ← hclosed]
  have hattach : e.disputes.attach m.result = e.disputes := by
    refine DisputeStore.update_eq_self fun d' hd' => ?_
    obtain rfl := hstored d' hd'
    rw [Dispute.attach, ← hresult]
  rw [DisputeStore.rule, hsaid, hclose, hattach]

theorem applyResult_eq (h : e.Applied m closing) (buyer seller : Coin) :
    e.registry.book.applyResult m.tradeId buyer seller = e.registry.book := by
  have hlive : ∀ t, e.registry.book.live.get? m.tradeId = some t →
      t.applyResult buyer seller = t :=
    fun t ht => t.applyResult_of_not_open _ _ (h.case.live t ht)
  cases hfind : e.registry.book.findTrade? m.tradeId with
  | some t =>
    rw [Book.applyResult_of_some hfind]
    exact Book.update_eq_self _ _ _ hlive
  | none =>
    have hnone : (e.caseOf m.tradeId).hasTrade = false := by
      change (e.registry.book.findTrade? m.tradeId).isSome = false
      rw [hfind, Option.isSome_none]
    rw [Book.applyResult_of_none hfind]
    unfold Book.closeOffer?
    cases ho : e.registry.book.offers.get? m.tradeId with
    | none => rfl
    | some o =>
      have hsame := OpenOffer.close_of_isTerminal (h.offer hnone o ho)
      cases hclose : o.close with
      | error err => simp only [hclose, Option.getD_none]
      | ok o' =>
        rw [hclose] at hsame
        obtain rfl : o' = o := hsame
        simp only [hclose, Option.getD_some, Table.insert_eq_self _ _ _ ho]

/-- Applied once more, a result is acknowledged, and nothing else is done but to store
what is there. -/
theorem receiveResult_eq (h : e.Applied m closing) (hclosing : m.result.chatMessage = some closing)
    (hnames : closing.tradeId = m.tradeId) {d : Dispute}
    (hd : e.disputes.find? m.tradeId = some d) (a : Attempt) :
    ∃ k l, e.receiveResult m a = .ok { e with
      acks := e.acks ++
        [⟨e.config.ackSource, closing.uid, m.tradeId, d.parties.agent, true, none⟩]
      registry := { e.registry with requests := k }
      disputes := { e.disputes with requests := l } } := by
  have hregistry : (e.ruling m closing).registry =
      { e.registry with requests := (e.ruling m closing).registry.requests } := by
    have hbook := ruling_book e m closing
    rw [h.applyResult_eq] at hbook
    have hchanges : (e.ruling m closing).registry.changes = e.registry.changes :=
      changes_applyToTrade _ _ _ _
    calc (e.ruling m closing).registry
        = ⟨(e.ruling m closing).registry.book, (e.ruling m closing).registry.requests,
            (e.ruling m closing).registry.changes⟩ := rfl
      _ = ⟨e.registry.book, (e.ruling m closing).registry.requests, e.registry.changes⟩ := by
        rw [hbook, hchanges]
  have hruling := ruling_eq e m closing
  rw [h.rule_eq hnames, Table.erase_eq_self h.note, hregistry] at hruling
  have hreceived : e.receiveResult m a = .ok ((e.ruling m closing).sendAck closing.uid
      closing.tradeId d.parties.agent none) := by
    simp only [receiveResult, hclosing, hd]
    rfl
  rw [hreceived, hruling, hnames]
  exact ⟨_, _, rfl⟩

end Applied

end Engine

/-! ### Runs -/

namespace World

/-- Every timer that is outstanding is for a message that gets past the gate. -/
def Gated (w : World) : Prop :=
  ∀ t ∈ w.outstanding, w.engine.takes (.event (.support (.disputeResult t.task))) = true

theorem mem_waiting_serve {e : Engine} {stamp : Stamp} {r : Request} {t : Timer ResultMessage}
    (ht : t ∈ (e.serve stamp r).1.timers.waiting) :
    t ∈ e.timers.waiting ∨ e.takes (.event (.support (.disputeResult t.task))) = true := by
  cases htakes : e.takes r with
  | false =>
    rw [Engine.serve_of_not_taken htakes] at ht
    exact Or.inl ht
  | true =>
    cases hr : r.attempt? with
    | none =>
      rw [((Engine.served e stamp r).waits hr).1] at ht
      exact Or.inl ht
    | some p =>
      obtain ⟨n, a⟩ := p
      rcases Engine.serve_attempt_cases hr stamp with
        ⟨-, hsame⟩ | ⟨-, -, hmissed⟩ | ⟨-, -, closing, acks, -, hruled⟩
      · rw [hsame] at ht
        exact Or.inl ht
      · rw [hmissed] at ht
        cases a with
        | retry => exact Or.inl ht
        | delivery =>
          unfold Engine.missDispute at ht
          dsimp only at ht
          split at ht
          next => exact Or.inl ht
          next =>
            rcases List.mem_append.mp ht with hold | hnew
            · exact Or.inl hold
            · rw [List.mem_singleton.mp hnew]
              rw [Request.eq_bring_of_attempt? hr] at htakes
              exact Or.inr htakes
      · rw [hruled] at ht
        rw [Engine.ruling_eq] at ht
        exact Or.inl ht

theorem outstanding_after {w : World} {a : Stamp × Act} {t : Timer ResultMessage}
    (ht : t ∈ (w.after a).outstanding) :
    t ∈ w.outstanding ∨ t ∈ (w.serving a).timers.waiting := by
  obtain ⟨stamp, a⟩ := a
  rcases List.mem_append.mp ht with hwaiting | hfired
  · cases a with
    | ask r => exact Or.inr hwaiting
    | retry s => exact Or.inr hwaiting
    | settle o => exact Or.inr hwaiting
    | elapse millis =>
      exact Or.inl (List.mem_append_left _ (Timers.mem_waiting_advance.mp hwaiting).1)
    | release error => exact Or.inl (List.mem_append_left _ hwaiting)
    | take => exact Or.inl (List.mem_append_left _ hwaiting)
  · cases a with
    | ask r => exact Or.inl (List.mem_append_right _ hfired)
    | retry s => exact Or.inl (List.mem_append_right _ (List.mem_of_mem_erase hfired))
    | settle o => exact Or.inl (List.mem_append_right _ hfired)
    | elapse millis =>
      rcases List.mem_append.mp hfired with hold | hdue
      · exact Or.inl (List.mem_append_right _ hold)
      · exact Or.inl (List.mem_append_left _ (Timers.mem_dueAfter.mp hdue).1)
    | release error => exact Or.inl (List.mem_append_right _ hfired)
    | take => exact Or.inl (List.mem_append_right _ hfired)

theorem Gated.after {w : World} (h : w.Gated) (a : Stamp × Act) : (w.after a).Gated := by
  intro t ht
  rw [Engine.takes_congr (after_config w a)]
  rcases outstanding_after ht with hold | hserving
  · exact h t hold
  · rcases w.serving_cases a with ⟨-, hsame⟩ | ⟨r, hr, -⟩
    · rw [hsame] at hserving
      exact h t (List.mem_append_left _ hserving)
    · rw [serving_of_some hr] at hserving
      rcases mem_waiting_serve hserving with hwaiting | htakes
      · exact h t (List.mem_append_left _ hwaiting)
      · exact htakes

/-- A result that is applied in a run has got past the gate, with its first delivery at least. -/
theorem takes_of_applied? {w : World} (h : w.Gated) {a : Act} {r : Request} {m : ResultMessage}
    (hdeferred : a ≠ .ask (.event (.deferred m))) (hr : w.request? a = some r)
    (happlied : w.engine.applied? r = some m) :
    w.engine.takes (.event (.support (.disputeResult m))) = true := by
  obtain ⟨hresult, htakes, -, -⟩ := Engine.applied?_some happlied
  obtain ⟨attempt, hattempt⟩ := Request.attempt?_of_result? hresult
  obtain rfl := Request.eq_bring_of_attempt? hattempt
  cases attempt with
  | delivery => exact htakes
  | retry =>
    cases a with
    | ask r' =>
      cases hr
      exact absurd rfl hdeferred
    | retry t =>
      have hfired : t ∈ w.fired := by
        by_contra hnone
        rw [request?, if_neg hnone] at hr
        cases hr
      cases request?_retry hr
      exact h t (List.mem_append_right _ hfired)
    | settle o => cases request?_settle hr
    | elapse millis => cases hr
    | release error => cases hr
    | take => cases hr

section Applied
variable {m : ResultMessage} {closing : ChatMessage}
  (hclosing : m.result.chatMessage = some closing) (hnames : closing.tradeId = m.tradeId)
include hclosing hnames

/-- A message about the trade of an applied result, and one with its id, is that result. -/
def Only (m : ResultMessage) (w : World) (a : Act) : Prop :=
  (∀ r n, w.request? a = some r → w.engine.applied? r = some n → n.tradeId = m.tradeId → n = m) ∧
    ∀ n, a = .ask (.event (.support (.disputeResult n))) → n.uid = m.uid → n = m

theorem applied_after {w : World} (h : w.engine.Applied m closing) {a : Act}
    (honly : Only m w a) (stamp : Stamp) : (w.after (stamp, a)).engine.Applied m closing := by
  have hserving : (w.serving (stamp, a)).Applied m closing := by
    cases hr : w.request? a with
    | none =>
      rw [serving_of_none hr]
      exact h
    | some r =>
      rw [serving_of_some hr]
      refine h.serve hclosing hnames (fun n => honly.1 r n hr) ?_ stamp
      rintro n rfl huid
      cases a with
      | ask r' =>
        cases hr
        exact honly.2 n rfl huid
      | retry t => cases request?_retry hr
      | settle o => cases request?_settle hr
      | elapse millis => cases hr
      | release error => cases hr
      | take => cases hr
  cases a <;> exact hserving.congr rfl rfl rfl

theorem applied_run {w : World} (h : w.engine.Applied m closing) (as : List (Stamp × Act))
    (honly : ∀ x ∈ w.trace as, Only m x.1 x.2) : (w.run as).engine.Applied m closing := by
  induction as generalizing w with
  | nil => exact h
  | cons a as ih =>
    have hfirst := honly (w, a.2) (List.mem_cons_self ..)
    exact ih (applied_after hclosing hnames h hfirst a.1)
      fun x hx => honly x (List.mem_cons_of_mem _ hx)

end Applied

/-- A result that has been applied is harmless when its message comes again, however much
later: nothing is done but to acknowledge the closing message once more, and to store what
is there. -/
theorem run_result_again {e : Engine} {m : ResultMessage} {closing : ChatMessage}
    (hclosing : m.result.chatMessage = some closing) (hnames : closing.tradeId = m.tradeId)
    (htimers : ∀ t ∈ e.timers.waiting,
      e.takes (.event (.support (.disputeResult t.task))) = true)
    {as bs : List (Stamp × Act)} {a : Stamp × Act} {r : Request}
    (hr : ((start e).run as).request? a.2 = some r)
    (hdeferred : a.2 ≠ .ask (.event (.deferred m)))
    (happlied : ((start e).run as).engine.applied? r = some m)
    (honly : ∀ x ∈ ((start e).run (as ++ [a])).trace bs, Only m x.1 x.2) (stamp : Stamp) :
    let e' := ((start e).run (as ++ a :: bs)).engine
    ∃ d k l, e'.disputes.find? m.tradeId = some d ∧
      e'.serve stamp (.event (.support (.disputeResult m))) =
        ({ e' with
          acks := e'.acks ++
            [⟨e'.config.ackSource, closing.uid, m.tradeId, d.parties.agent, true, none⟩]
          registry := { e'.registry with requests := k }
          disputes := { e'.disputes with requests := l } }, .done) := by
  intro e'
  have hrun : (start e).run (as ++ a :: bs) = ((start e).run (as ++ [a])).run bs := by
    rw [← run_append, List.append_assoc]
    rfl
  have hgated : ((start e).run as).Gated := by
    refine run_induction (P := Gated) (Q := fun _ => True) (fun w stamp b _ hw => hw.after _) as
      (fun _ _ => trivial) (start e) ?_
    intro t ht
    rw [outstanding, start, List.append_nil] at ht
    exact htimers t ht
  -- what the result has done when it was applied first
  have hserving : (((start e).run as).serving a).Applied m closing := by
    obtain ⟨hresult, htakes, -, hstored⟩ := Engine.applied?_some happlied
    rw [serving_of_some hr]
    exact .of_ruled hnames hstored
      (Engine.serve_result_of_stored hresult htakes hclosing hstored a.1)
  have hfirst : ((start e).run (as ++ [a])).engine.Applied m closing := by
    rw [run_concat]
    obtain ⟨stamp, a⟩ := a
    cases a <;> exact hserving.congr rfl rfl rfl
  have hlast : e'.Applied m closing := by
    have h := applied_run hclosing hnames hfirst bs honly
    rw [← hrun] at h
    exact h
  have htakes : e'.takes (.event (.support (.disputeResult m))) = true := by
    have hconfig : e'.config = ((start e).run as).engine.config := by
      rw [run_config, run_config]
    rw [Engine.takes_congr hconfig]
    exact takes_of_applied? hgated hdeferred hr happlied
  have hgate : (SupportMessage.disputeResult m).isFor e'.config.supportType = true := htakes
  obtain ⟨d, hd⟩ := Option.isSome_iff_exists.mp hlast.stored
  obtain ⟨k, l, hreceived⟩ := hlast.receiveResult_eq hclosing hnames hd .delivery
  refine ⟨d, k, l, hd, ?_⟩
  simp only [Engine.serve, Engine.handle, Engine.receive, hgate, if_true, hreceived]

theorem Only.of_result? {m : ResultMessage} {w : World} {a : Act}
    (h : ∀ r, w.request? a = some r → ∀ n, r.result? = some n → n = m) : Only m w a := by
  constructor
  · intro r n hr happlied _
    exact h r hr n (Engine.applied?_some happlied).1
  · rintro n rfl -
    exact h _ rfl n rfl

theorem mem_trace {w : World} {as : List (Stamp × Act)} {x : World × Act} (hx : x ∈ w.trace as) :
    ∃ a ∈ as, a.2 = x.2 := by
  induction as generalizing w with
  | nil => cases hx
  | cons a as ih =>
    rcases List.mem_cons.mp hx with rfl | hrest
    · exact ⟨a, List.mem_cons_self .., rfl⟩
    · obtain ⟨b, hb, hbx⟩ := ih hrest
      exact ⟨b, List.mem_cons_of_mem _ hb, hbx⟩

end World

namespace Sample

/-- What may come between two deliveries of a ruling. -/
def meanwhile : List (Stamp × Act) :=
  [(stamp, .ask (.accept tradeId 7)), (stamp, .ask (.update tradeId (.payoutTx "tx"))),
    (stamp, .ask (.event (.support (opening none)))), delivery forBuyer, (stamp, .ask .cleanup)]

end Sample

namespace World

open Sample in
theorem run_result_again_meanwhile :
    let e' := ((start Sample.engine).run ([(stamp, .ask (.event (.support (opening none))))] ++
      delivery forBuyer :: meanwhile)).engine
    ∃ d k l, e'.disputes.find? forBuyer.tradeId = some d ∧
      e'.serve stamp (.event (.support (.disputeResult forBuyer))) =
        ({ e' with
          acks := e'.acks ++
            [⟨e'.config.ackSource, closing.uid, forBuyer.tradeId, d.parties.agent, true, none⟩]
          registry := { e'.registry with requests := k }
          disputes := { e'.disputes with requests := l } }, .done) := by
  have happlied : ((start Sample.engine).run
      [(stamp, .ask (.event (.support (opening none))))]).engine.applied?
        (.event (.support (.disputeResult forBuyer))) = some forBuyer := by decide +kernel
  have honly : ∀ x ∈ ((start Sample.engine).run
      ([(stamp, .ask (.event (.support (opening none))))] ++ [delivery forBuyer])).trace meanwhile,
        Only forBuyer x.1 x.2 := by
    intro x hx
    refine .of_result? fun r hr n hn => ?_
    obtain ⟨b, hb, hbx⟩ := mem_trace hx
    rw [← hbx] at hr
    simp only [meanwhile, delivery, List.mem_cons, List.not_mem_nil, or_false] at hb
    rcases hb with rfl | rfl | rfl | rfl | rfl <;> cases hr <;> cases hn
    rfl
  exact run_result_again rfl rfl (fun t ht => by cases ht) rfl (fun h => by cases h) happlied
    honly stamp

end World

end Mediation
