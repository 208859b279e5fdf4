import Mediation.Proofs.Engine.Growth
import Mediation.Proofs.Engine.Scope

/-!
# Acknowledgements, and the first opening

Each request sends one acknowledgement at most. An opening is told whether its
dispute was stored; a chat message and a result are acknowledged to the agent of
the dispute that is stored about their trade, and to nobody when there is none.

An opening is granted when it finds no dispute about its trade, so in a run the
first one about a trade is granted and no other; one that is refused changes
nothing.
-/

namespace Mediation

namespace Request

/-- A request asks for a dispute about a trade. -/
def Opens (r : Request) (id : TradeId) : Prop := ∃ d, r.dispute? = some d ∧ d.tradeId = id

/-- The message of a request that asks for a dispute by one. -/
def opening? : Request → Option DisputeMessage
  | .event (.support (.openNewDispute m)) => some m
  | .event (.support (.peerOpenedDispute m)) => some m
  | _ => none

theorem dispute?_cases {r : Request} {d : Dispute} (hr : r.dispute? = some d) :
    r = .openDispute d ∨ ∃ m, r.opening? = some m ∧ m.dispute = d := by
  unfold dispute? at hr
  split at hr
  next =>
    cases hr
    exact Or.inl rfl
  next m =>
    cases hr
    exact Or.inr ⟨m, rfl, rfl⟩
  next m =>
    cases hr
    exact Or.inr ⟨m, rfl, rfl⟩
  next => cases hr

theorem dispute?_of_opening? {r : Request} {m : DisputeMessage} (hr : r.opening? = some m) :
    r.dispute? = some m.dispute ∧ ∃ event, r = .event event := by
  unfold opening? at hr
  split at hr
  next =>
    cases hr
    exact ⟨rfl, _, rfl⟩
  next =>
    cases hr
    exact ⟨rfl, _, rfl⟩
  next => cases hr

end Request

/-- No request but one that asks for a dispute about a trade has one stored. -/
theorem Case.Steps.isSome_dispute {c : MediationConfig} {r : Request} {id : TradeId} {k l : Case}
    (h : Case.Steps c r id k l) (hopens : ¬ r.Opens id) :
    l.dispute.isSome = k.dispute.isSome := by
  induction h with
  | refl => rfl
  | tail _ hstep ih =>
    rw [← ih]
    cases hstep with
    | opened d stamp sender text hr hd => exact absurd ⟨d, hr, hd⟩ hopens
    | said d m hr hm => rfl
    | ruled d m hr hm => rfl
    | accepted d t res hr hres => rfl
    | rejected t hr => rfl
    | moved t phase hr => rfl
    | signed t signature hr => rfl
    | paid t tx hr => rfl
    | settled t hpaid hstate => rfl

namespace Engine

/-! ### One request -/

/-- The acknowledgement that is sent for a request. -/
def ackDue? (e : Engine) : Request → Option AckMessage
  | .event (.support m) => if e.takes (.event (.support m)) then e.ack? m else none
  | .event (.deferred m) => e.ack? (.disputeResult m)
  | _ => none

theorem acks_accept {e e' : Engine} {id : TradeId} {caller ticket : Nat}
    (h : e.accept id caller = .ok (e', ticket)) : e'.acks = e.acks := by
  obtain ⟨d, r, t, step, -, -, -, -, rfl⟩ := accept_ok h
  rfl

theorem acks_openDispute (e : Engine) (stamp : Stamp) (d : Dispute) :
    (e.openDispute stamp d).1.acks = e.acks := by
  unfold openDispute
  split
  · rfl
  · exact acks_addDispute e stamp d _ _

theorem acks_receiveOutcome (e : Engine) (o : PayoutOutcome) :
    (e.receiveOutcome o).acks = e.acks := by
  cases hp : e.acceptances.get? o.ticket with
  | none => simp only [receiveOutcome, hp]
  | some p => rw [receiveOutcome_of_pending hp]

theorem acks_serve (e : Engine) (stamp : Stamp) (r : Request) :
    (e.serve stamp r).1.acks = e.acks ++ (e.ackDue? r).toList := by
  -- most requests have no acknowledgement
  have hnone (h : (e.serve stamp r).1.acks = e.acks) :
      (e.serve stamp r).1.acks = e.acks ++ [] := h.trans (List.append_nil _).symm
  cases r with
  | event event =>
    cases event with
    | support m =>
      rw [ackDue?]
      split
      next hgate => exact acks_serve_support hgate stamp
      next hgate =>
        rw [Bool.not_eq_true] at hgate
        exact hnone (by rw [serve_of_not_taken hgate])
    | deferred m =>
      rw [serve_attempt (a := .retry) rfl rfl]
      exact acks_receiveResult e m .retry
    | payoutCompleted o => exact hnone (acks_receiveOutcome e o)
  | accept id caller =>
    refine hnone ?_
    rw [serve]
    split
    next e' ticket hok => exact acks_accept hok
    next => rfl
  | reject id =>
    refine hnone ?_
    rw [serve, reject]
    cases e.registry.book.live.get? id <;> rfl
  | openDispute d => exact hnone (acks_openDispute e stamp d)
  | cleanup =>
    refine hnone ?_
    change e.cleanup.1.acks = _
    rw [cleanup_eq]
  | update id u =>
    refine hnone ?_
    change (e.change id u).1.acks = _
    rw [change_eq]
  | barrier => exact hnone rfl

/-! ### Openings -/

/-- A request asks for a dispute about a trade, and gets past the gate. -/
def Hears (e : Engine) (id : TradeId) (r : Request) : Prop := e.takes r = true ∧ r.Opens id

/-- Who asks for a dispute is told that it was stored: by the answer, or by an
acknowledgement that says so. -/
def Grants (e : Engine) (stamp : Stamp) (r : Request) : Prop :=
  (e.serve stamp r).2 = .applied true ∨
    ∃ a, a.success = true ∧ (e.serve stamp r).1.acks = e.acks ++ [a]

theorem success_openingAck (e : Engine) (m : DisputeMessage) (recipient : PubKeyRing) :
    (e.openingAck m recipient).success = true ↔ e.disputes.find? m.dispute.tradeId = none := by
  cases hd : e.disputes.find? m.dispute.tradeId with
  | none => simp [openingAck, ackFor, DisputeStore.contains_of_none hd]
  | some d => simp [openingAck, ackFor, DisputeStore.contains_of_some hd]

theorem ackDue?_opening {e : Engine} {r : Request} {m : DisputeMessage}
    (hr : r.opening? = some m) (htakes : e.takes r = true) :
    ∃ recipient, e.ackDue? r = some (e.openingAck m recipient) := by
  unfold Request.opening? at hr
  split at hr
  next =>
    cases hr
    exact ⟨_, if_pos htakes⟩
  next =>
    cases hr
    exact ⟨_, if_pos htakes⟩
  next => cases hr

/-- The acknowledgement of an opening says whether its dispute is stored; where it
is not, nothing else has changed. -/
theorem acknowledged_opening {e : Engine} {r : Request} {m : DisputeMessage}
    (hr : r.opening? = some m) (htakes : e.takes r = true) (stamp : Stamp) :
    ∃ a, e.ackDue? r = some a ∧ a.uid = m.uid ∧ a.tradeId = m.dispute.tradeId ∧
      (a.success = true ↔ e.disputes.find? m.dispute.tradeId = none) ∧
      (a.success = false → (e.serve stamp r).1 = { e with acks := e.acks ++ [a] }) := by
  obtain ⟨recipient, hack⟩ := ackDue?_opening hr htakes
  refine ⟨_, hack, rfl, rfl, success_openingAck e m recipient, ?_⟩
  intro hfailure
  have hstored : e.disputes.find? m.dispute.tradeId ≠ none := by
    rw [Ne, ← success_openingAck e m recipient, hfailure]
    exact Bool.false_ne_true
  obtain ⟨d, hd⟩ := Option.ne_none_iff_exists'.mp hstored
  have hdispute := (Request.dispute?_of_opening? hr).1
  rw [serve_opening_of_stored hdispute (DisputeStore.contains_of_some hd) stamp, acks_serve, hack]
  rfl

theorem ackDue?_chat {e : Engine} {m : ChatMessage}
    (htakes : e.takes (.event (.support (.chat m))) = true) :
    e.ackDue? (.event (.support (.chat m))) = (e.disputes.find? m.tradeId).map fun d =>
      e.ackFor m.uid m.tradeId d.parties.agent none := if_pos htakes

theorem ackDue?_attempt {e : Engine} {r : Request} {m : ResultMessage} {a : Attempt}
    (hr : r.attempt? = some (m, a)) (htakes : e.takes r = true) :
    e.ackDue? r = e.ack? (.disputeResult m) := by
  obtain rfl := Request.eq_bring_of_attempt? hr
  cases a with
  | delivery => exact if_pos htakes
  | retry => rfl

/-- Nothing is acknowledged but openings, chat messages and results with a closing message. -/
theorem of_ackDue? {e : Engine} {r : Request} (h : (e.ackDue? r).isSome = true) :
    e.takes r = true ∧
      ((∃ m, r.opening? = some m) ∨ (∃ m, r = .event (.support (.chat m))) ∨
        ∃ m a, r.attempt? = some (m, a) ∧ m.result.chatMessage.isSome = true) := by
  have hclosing (m : ResultMessage) (hm : (e.ack? (.disputeResult m)).isSome = true) :
      m.result.chatMessage.isSome = true := by
    cases hc : m.result.chatMessage with
    | none => simp [ack?, hc] at hm
    | some closing => rfl
  unfold ackDue? at h
  split at h
  next m =>
    split at h
    next htakes =>
      refine ⟨htakes, ?_⟩
      cases m with
      | openNewDispute m => exact Or.inl ⟨m, rfl⟩
      | peerOpenedDispute m => exact Or.inl ⟨m, rfl⟩
      | chat m => exact Or.inr (Or.inl ⟨m, rfl⟩)
      | disputeResult m => exact Or.inr (Or.inr ⟨m, .delivery, rfl, hclosing m h⟩)
      | unsupported => cases h
    next => cases h
  next m => exact ⟨rfl, Or.inr (Or.inr ⟨m, .retry, rfl, hclosing m h⟩)⟩
  next => cases h

theorem serve_event_answer (e : Engine) (stamp : Stamp) (event : Event) (b : Bool) :
    (e.serve stamp (.event event)).2 ≠ .applied b := by
  cases h : e.handle stamp event with
  | ok e' => simp [serve, h]
  | error err => simp [serve, h]

/-- An opening past the gate is granted if no dispute about its trade is stored. -/
theorem grants_iff {e : Engine} {id : TradeId} {r : Request} (h : e.Hears id r) (stamp : Stamp) :
    e.Grants stamp r ↔ e.disputes.find? id = none := by
  obtain ⟨htakes, d, hr, rfl⟩ := h
  rw [Grants, acks_serve]
  rcases Request.dispute?_cases hr with rfl | ⟨m, hm, rfl⟩
  · -- no acknowledgement: the answer says it
    have hacks : e.acks ++ (e.ackDue? (.openDispute d)).toList = e.acks := List.append_nil _
    rw [hacks, serve, openDispute]
    cases hd : e.disputes.find? d.tradeId with
    | none => simp [DisputeStore.contains_of_none hd]
    | some d' => simp [DisputeStore.contains_of_some hd]
  · obtain ⟨-, event, rfl⟩ := Request.dispute?_of_opening? hm
    obtain ⟨recipient, hack⟩ := ackDue?_opening hm htakes
    rw [hack, ← success_openingAck e m recipient]
    constructor
    · rintro (hanswer | ⟨a, hsuccess, hsent⟩)
      · exact absurd hanswer (e.serve_event_answer stamp event true)
      · obtain rfl : e.openingAck m recipient = a := by simpa using hsent
        exact hsuccess
    · exact fun hsuccess => Or.inr ⟨_, hsuccess, rfl⟩

/-- An opening that is not granted changes nothing but the acknowledgements. -/
theorem serve_of_not_granted {e : Engine} {id : TradeId} {r : Request} (h : e.Hears id r)
    (stamp : Stamp) (hgrants : ¬ e.Grants stamp r) :
    (e.serve stamp r).1 = { e with acks := (e.serve stamp r).1.acks } := by
  have hstored := mt (grants_iff h stamp).mpr hgrants
  obtain ⟨-, d, hr, rfl⟩ := h
  obtain ⟨d', hd'⟩ := Option.ne_none_iff_exists'.mp hstored
  exact serve_opening_of_stored hr (DisputeStore.contains_of_some hd') stamp

/-- A dispute about a trade is stored after a request if one was, or if the
request asks for it and is heard. -/
theorem contains_serve_iff (e : Engine) (stamp : Stamp) (r : Request) (id : TradeId) :
    (e.serve stamp r).1.disputes.contains id = true ↔
      e.disputes.contains id = true ∨ e.Hears id r := by
  by_cases hopens : r.Opens id
  · cases htakes : e.takes r with
    | false => simp [serve_of_not_taken htakes, Hears, htakes]
    | true =>
      obtain ⟨d, hr, rfl⟩ := hopens
      have hhears : e.Hears d.tradeId r := ⟨htakes, d, hr, rfl⟩
      cases hd : e.disputes.find? d.tradeId with
      | none => simp [DisputeStore.contains, find?_serve_opening hr htakes hd, hhears]
      | some d' =>
        have hstored := DisputeStore.contains_of_some hd
        simp [(served e stamp r).contains hstored, hhears]
  · have hsame : (e.serve stamp r).1.disputes.contains id = e.disputes.contains id :=
      (e.serve_steps stamp r id).isSome_dispute hopens
    simp [hsame, Hears, hopens]

end Engine

/-! ### Runs -/

namespace World

/-- An operation asks for a dispute about a trade, and gets past the gate. -/
def Hears (w : World) (id : TradeId) : Operation → Prop
  | .act _ a => ∃ r, w.request? a = some r ∧ w.engine.Hears id r
  | .hand _ => False

/-- Who asks for a dispute by an operation is told that it was stored. -/
def Grants (w : World) : Operation → Prop
  | .act stamp a => ∃ r, w.request? a = some r ∧ w.engine.Grants stamp r
  | .hand _ => False

theorem contains_perform_iff (w : World) (o : Operation) (id : TradeId) :
    (w.perform o).engine.disputes.contains id = true ↔
      w.engine.disputes.contains id = true ∨ w.Hears id o := by
  cases o with
  | act stamp a =>
    rw [show w.perform (.act stamp a) = w.after (stamp, a) from rfl, after_disputes]
    cases hr : w.request? a with
    | none =>
      rw [serving_of_none (a := (stamp, a)) hr]
      simp [Hears, hr]
    | some r =>
      rw [serving_of_some (a := (stamp, a)) hr, Engine.contains_serve_iff]
      simp [Hears, hr]
  | hand m =>
    -- a message that is handed over does with the disputes what its retry would
    have hretry := w.engine.contains_serve_iff ⟨m.uid, .epoch⟩ (.event (.deferred m)) id
    rw [← w.engine.handed_disputes] at hretry
    refine hretry.trans (or_congr_right ⟨?_, False.elim⟩)
    rintro ⟨-, d, hd, -⟩
    cases hd

/-- Only what is asked for is heard as an opening. -/
theorem Hears.ask {w : World} {id : TradeId} {o : Operation} (h : w.Hears id o) :
    ∃ stamp r, o = .act stamp (.ask r) ∧ w.engine.Hears id r := by
  cases o with
  | hand m => exact h.elim
  | act stamp a =>
    obtain ⟨r, hr, hhears⟩ := h
    obtain ⟨d, hd, -⟩ := hhears.2
    cases a with
    | ask r' =>
      cases hr
      exact ⟨stamp, r, rfl, hhears⟩
    | retry t =>
      rw [request?_retry hr] at hd
      cases hd
    | settle o =>
      rw [request?_settle hr] at hd
      cases hd
    | elapse millis => cases hr
    | release error => cases hr
    | take => cases hr

theorem grants_iff {w : World} {id : TradeId} {o : Operation} (h : w.Hears id o) :
    w.Grants o ↔ w.engine.disputes.find? id = none := by
  obtain ⟨stamp, r, rfl, hhears⟩ := h.ask
  rw [← Engine.grants_iff hhears stamp]
  simp [Grants, request?]

theorem perform_of_not_granted {w : World} {id : TradeId} {o : Operation} (h : w.Hears id o)
    (hgrants : ¬ w.Grants o) :
    w.perform o = { w with engine := { w.engine with acks := (w.perform o).engine.acks } } := by
  obtain ⟨stamp, r, rfl, hhears⟩ := h.ask
  have hrefused : ¬ w.engine.Grants stamp r := fun hgrant => hgrants ⟨r, rfl, hgrant⟩
  have hserved := Engine.serve_of_not_granted hhears stamp hrefused
  change { w with engine := (w.engine.serve stamp r).1 } = _
  rw [hserved]
  rfl

/-- The operation at a place of a run is an opening about a trade that is heard. -/
def HearsAt (w : World) (os : List Operation) (id : TradeId) (i : Nat) : Prop :=
  ∃ o, os[i]? = some o ∧ (w.operate (os.take i)).Hears id o

def GrantsAt (w : World) (os : List Operation) (i : Nat) : Prop :=
  ∃ o, os[i]? = some o ∧ (w.operate (os.take i)).Grants o

theorem operate_take_succ (w : World) {os : List Operation} {i : Nat} {o : Operation}
    (ho : os[i]? = some o) :
    w.operate (os.take (i + 1)) = (w.operate (os.take i)).perform o := by
  rw [List.take_add_one, ho, Option.toList_some, operate_concat]

/-- A dispute about a trade is stored when there was one at the start, or once an
opening about the trade has been heard. -/
theorem contains_operate_iff (w : World) (os : List Operation) (id : TradeId) (n : Nat) :
    (w.operate (os.take n)).engine.disputes.contains id = true ↔
      w.engine.disputes.contains id = true ∨ ∃ i < n, w.HearsAt os id i := by
  induction n with
  | zero => simp [operate]
  | succ n ih =>
    have hstep : (w.operate (os.take (n + 1))).engine.disputes.contains id = true ↔
        (w.operate (os.take n)).engine.disputes.contains id = true ∨ w.HearsAt os id n := by
      cases ho : os[n]? with
      | none =>
        rw [List.take_add_one, ho, Option.toList_none, List.append_nil]
        simp [HearsAt, ho]
      | some o =>
        rw [operate_take_succ w ho, contains_perform_iff]
        simp [HearsAt, ho]
    rw [hstep, ih, Nat.exists_lt_succ_right, or_assoc]

variable {w : World} {os : List Operation} {id : TradeId} {i : Nat}

/-- An opening that is heard is granted if it is the first about its trade. -/
theorem grantsAt_iff (h : w.HearsAt os id i) :
    w.GrantsAt os i ↔ w.engine.disputes.find? id = none ∧ ∀ j < i, ¬ w.HearsAt os id j := by
  obtain ⟨o, ho, hhears⟩ := h
  have hgrants : w.GrantsAt os i ↔ (w.operate (os.take i)).Grants o := by
    simp [GrantsAt, ho]
  have hstored := not_congr (w.contains_operate_iff os id i)
  simp only [DisputeStore.contains, Option.not_isSome_iff_eq_none, not_or, not_exists,
    not_and] at hstored
  rw [hgrants, grants_iff hhears, hstored]

theorem operate_of_not_granted (h : w.HearsAt os id i) (hgrants : ¬ w.GrantsAt os i) :
    ∃ acks, w.operate (os.take (i + 1)) =
      { w.operate (os.take i) with
        engine := { (w.operate (os.take i)).engine with acks := acks } } := by
  obtain ⟨o, ho, hhears⟩ := h
  rw [operate_take_succ w ho]
  exact ⟨_, perform_of_not_granted hhears fun hgrant => hgrants ⟨o, ho, hgrant⟩⟩

end World

/-- Each request sends at most one acknowledgement, and of the openings about a
trade in a run the first one that is heard is granted, if no dispute is stored
about the trade, and no other. -/
theorem Engine.acknowledged_first_granted :
    (∀ (e : Engine) (stamp : Stamp) (r : Request),
      (e.serve stamp r).1.acks = e.acks ++ (e.ackDue? r).toList ∧
      (∀ m, r.opening? = some m → e.takes r = true →
        ∃ a, e.ackDue? r = some a ∧ a.uid = m.uid ∧ a.tradeId = m.dispute.tradeId ∧
          (a.success = true ↔ e.disputes.find? m.dispute.tradeId = none) ∧
          (a.success = false → (e.serve stamp r).1 = { e with acks := e.acks ++ [a] })) ∧
      (∀ m, r = .event (.support (.chat m)) → e.takes r = true →
        e.ackDue? r = (e.disputes.find? m.tradeId).map fun d =>
          e.ackFor m.uid m.tradeId d.parties.agent none) ∧
      (∀ m attempt closing, r.attempt? = some (m, attempt) → e.takes r = true →
        m.result.chatMessage = some closing →
        e.ackDue? r = (e.disputes.find? m.tradeId).map fun d =>
          e.ackFor closing.uid closing.tradeId d.parties.agent none) ∧
      ((e.ackDue? r).isSome = true → e.takes r = true ∧
        ((∃ m, r.opening? = some m) ∨ (∃ m, r = .event (.support (.chat m))) ∨
          ∃ m attempt, r.attempt? = some (m, attempt) ∧ m.result.chatMessage.isSome = true))) ∧
    ∀ (w : World) (os : List Operation) (id : TradeId),
      (∀ i, w.HearsAt os id i →
        (w.GrantsAt os i ↔ w.engine.disputes.find? id = none ∧ ∀ j < i, ¬ w.HearsAt os id j)) ∧
      (∀ i j, w.HearsAt os id i → w.GrantsAt os i → w.HearsAt os id j → w.GrantsAt os j →
        i = j) ∧
      ∀ i, w.HearsAt os id i → ¬ w.GrantsAt os i →
        ∃ acks, w.operate (os.take (i + 1)) =
          { w.operate (os.take i) with
            engine := { (w.operate (os.take i)).engine with acks := acks } } := by
  constructor
  · intro e stamp r
    refine ⟨acks_serve e stamp r, ?_, ?_, ?_, of_ackDue?⟩
    · exact fun m hr htakes => acknowledged_opening hr htakes stamp
    · rintro m rfl htakes
      exact ackDue?_chat htakes
    · intro m attempt closing hr htakes hclosing
      rw [ackDue?_attempt hr htakes, ack?, hclosing, Option.bind_some]
  · intro w os id
    refine ⟨fun i h => World.grantsAt_iff h, ?_, fun i h => World.operate_of_not_granted h⟩
    intro i j hi hgi hj hgj
    -- neither of two first openings can be before the other
    have hfirst := ((World.grantsAt_iff hi).mp hgi).2
    have hfirst' := ((World.grantsAt_iff hj).mp hgj).2
    rcases Nat.lt_trichotomy i j with hlt | heq | hlt
    · exact absurd hi (hfirst' i hlt)
    · exact heq
    · exact absurd hj (hfirst j hlt)

end Mediation
