import Mediation.Proofs.Engine.Operations
import Mediation.Proofs.Engine.Redelivery

/-!
# Stored disputes only go forward

No operation removes a stored dispute or puts another one in its place. What it
was opened with stays, its chat only gets longer, a closed dispute stays closed,
and the result attached to it changes only when a message with a result about
its trade is applied.
-/

namespace Mediation

/-! ### Additions to a chat -/

/-- A chat gains messages that are new to it, each with a property. -/
def Gains (P : ChatMessage → Prop) (chat chat' : List ChatMessage) : Prop :=
  ∃ added, chat' = chat ++ added ∧ added.Nodup ∧ ∀ m ∈ added, m ∉ chat ∧ P m

namespace Gains
variable {P Q : ChatMessage → Prop} {chat chat' chat'' : List ChatMessage}

theorem refl (P : ChatMessage → Prop) (chat : List ChatMessage) : Gains P chat chat :=
  ⟨[], (List.append_nil chat).symm, List.nodup_nil, fun _ hm => absurd hm List.not_mem_nil⟩

theorem trans (h : Gains P chat chat') (h' : Gains P chat' chat'') : Gains P chat chat'' := by
  obtain ⟨added, rfl, hnodup, hadded⟩ := h
  obtain ⟨more, rfl, hnodup', hmore⟩ := h'
  refine ⟨added ++ more, List.append_assoc _ _ _, ?_, ?_⟩
  · refine List.nodup_append.mpr ⟨hnodup, hnodup', ?_⟩
    rintro m hm n hn rfl
    exact (hmore m hn).1 (List.mem_append_right chat hm)
  · intro m hm
    rcases List.mem_append.mp hm with hfirst | hthen
    · exact hadded m hfirst
    · obtain ⟨hnew, hP⟩ := hmore m hthen
      exact ⟨fun hold => hnew (List.mem_append_left added hold), hP⟩

theorem mono (h : Gains P chat chat') (hPQ : ∀ m, P m → Q m) : Gains Q chat chat' := by
  obtain ⟨added, hchat, hnodup, hadded⟩ := h
  exact ⟨added, hchat, hnodup, fun m hm => ⟨(hadded m hm).1, hPQ m (hadded m hm).2⟩⟩

theorem addMessage (d : Dispute) {m : ChatMessage} (hm : P m) :
    Gains P d.chat (d.addMessage m).chat := by
  unfold Dispute.addMessage
  split
  next => exact .refl P d.chat
  next hnew =>
    have hnew : m ∉ d.chat := by simpa [Dispute.hasMessage] using hnew
    refine ⟨[m], rfl, List.nodup_singleton m, fun n hn => ?_⟩
    rw [List.mem_singleton.mp hn]
    exact ⟨hnew, hm⟩

/-- A message that was gained is there once, with the property. -/
theorem count_of_new (h : Gains P chat chat') {m : ChatMessage} (hm : m ∈ chat')
    (hnew : m ∉ chat) : chat'.count m = 1 ∧ P m := by
  obtain ⟨added, rfl, hnodup, hadded⟩ := h
  have hm : m ∈ added := (List.mem_append.mp hm).resolve_left hnew
  refine ⟨?_, (hadded m hm).2⟩
  rw [List.count_append, List.count_eq_zero_of_not_mem hnew, Nat.zero_add]
  exact List.count_eq_one_of_mem hnodup hm

end Gains

/-! ### From one dispute to the next -/

/-- A dispute goes on as another one. -/
structure Dispute.Onward (d d' : Dispute) : Prop where
  tradeId : d'.tradeId = d.tradeId
  supportType : d'.supportType = d.supportType
  isBuyer : d'.isBuyer = d.isBuyer
  parties : d'.parties = d.parties
  openingDate : d'.openingDate = d.openingDate
  chat : d.chat <+: d'.chat
  nodup : d.chat.Nodup → d'.chat.Nodup
  closed : d.isClosed = true → d'.isClosed = true
  result : d.result.isSome = true → d'.result.isSome = true

namespace Dispute

theorem addMessage_eq (d : Dispute) (m : ChatMessage) :
    d.addMessage m = { d with chat := (d.addMessage m).chat } := by
  unfold addMessage
  split <;> rfl

namespace Onward
variable {d d' d'' : Dispute}

theorem refl (d : Dispute) : d.Onward d where
  tradeId := rfl
  supportType := rfl
  isBuyer := rfl
  parties := rfl
  openingDate := rfl
  chat := List.prefix_rfl
  nodup h := h
  closed h := h
  result h := h

theorem trans (h : d.Onward d') (h' : d'.Onward d'') : d.Onward d'' where
  tradeId := h'.tradeId.trans h.tradeId
  supportType := h'.supportType.trans h.supportType
  isBuyer := h'.isBuyer.trans h.isBuyer
  parties := h'.parties.trans h.parties
  openingDate := h'.openingDate.trans h.openingDate
  chat := h.chat.trans h'.chat
  nodup hd := h'.nodup (h.nodup hd)
  closed hd := h'.closed (h.closed hd)
  result hd := h'.result (h.result hd)

theorem addMessage (d : Dispute) (m : ChatMessage) : d.Onward (d.addMessage m) where
  tradeId := d.addMessage_tradeId m
  supportType := by rw [addMessage_eq]
  isBuyer := by rw [addMessage_eq]
  parties := by rw [addMessage_eq]
  openingDate := by rw [addMessage_eq]
  chat := d.chat_prefix_addMessage m
  nodup h := nodup_addMessage h m
  closed h := (d.addMessage_isClosed m).trans h
  result h := by
    rw [addMessage_result]
    exact h

theorem rule (d : Dispute) (r : DisputeResult) : d.Onward (d.close.attach r) where
  tradeId := rfl
  supportType := rfl
  isBuyer := rfl
  parties := rfl
  openingDate := rfl
  chat := List.prefix_rfl
  nodup h := h
  closed _ := rfl
  result _ := rfl

end Onward

end Dispute

namespace Case
variable {c : MediationConfig} {r : Request} {id : TradeId} {k l : Case} {d : Dispute}

/-- A stored dispute goes forward; to its chat are added messages that the request brings. -/
theorem Step.onward (h : Step c r id k l) (hd : k.dispute = some d) :
    ∃ d', l.dispute = some d' ∧ d.Onward d' ∧
      Gains (fun m => r.Brings m ∧ m.tradeId = id) d.chat d'.chat := by
  cases h with
  | opened d' stamp sender text hr hid => cases hd
  | said d' m hr hm =>
    cases hd
    exact ⟨_, rfl, .addMessage d m, .addMessage d ⟨hr, hm⟩⟩
  | ruled d' m hr hm =>
    cases hd
    exact ⟨_, rfl, .rule d m.result, .refl _ _⟩
  | accepted d' t res hr hres => exact ⟨d, hd, .refl d, .refl _ _⟩
  | rejected t hr => exact ⟨d, hd, .refl d, .refl _ _⟩
  | moved t phase hr => exact ⟨d, hd, .refl d, .refl _ _⟩
  | signed t signature hr => exact ⟨d, hd, .refl d, .refl _ _⟩
  | paid t tx hr => exact ⟨d, hd, .refl d, .refl _ _⟩
  | settled t hpaid hstate => exact ⟨d, hd, .refl d, .refl _ _⟩

theorem Steps.onward (h : Steps c r id k l) (hd : k.dispute = some d) :
    ∃ d', l.dispute = some d' ∧ d.Onward d' ∧
      Gains (fun m => r.Brings m ∧ m.tradeId = id) d.chat d'.chat := by
  induction h with
  | refl => exact ⟨d, hd, .refl d, .refl _ _⟩
  | tail _ hstep ih =>
    obtain ⟨d', hd', honward, hgains⟩ := ih
    obtain ⟨d'', hd'', honward', hgains'⟩ := hstep.onward hd'
    exact ⟨d'', hd'', honward.trans honward', hgains.trans hgains'⟩

end Case

/-! ### Results that are applied -/

/-- The last result about a trade among some messages. -/
def lastResult? (id : TradeId) (ms : List ResultMessage) : Option DisputeResult :=
  (ms.filter fun m => m.tradeId = id).getLast?.map ResultMessage.result

theorem lastResult?_append (id : TradeId) (ms ns : List ResultMessage) :
    lastResult? id (ms ++ ns) = (lastResult? id ns).or (lastResult? id ms) := by
  simp only [lastResult?, List.filter_append, List.getLast?_append, Option.map_or]

theorem lastResult?_singleton (id : TradeId) (m : ResultMessage) :
    lastResult? id [m] = if id = m.tradeId then some m.result else none := by
  unfold lastResult?
  split
  next hid => simp only [hid, List.filter_cons, decide_true, if_true, List.filter_nil,
      List.getLast?_singleton, Option.map_some]
  next hid => simp only [Ne.symm hid, List.filter_cons, decide_false, Bool.false_eq_true, if_false,
      List.filter_nil, List.getLast?_nil, Option.map_none]

/-- What is attached to a stored dispute is the result that a request applies to
it, or else what was attached before. -/
theorem Engine.attached_of_stored {e : Engine} {id : TradeId} (hid : e.disputes.contains id = true)
    (stamp : Stamp) (r : Request) :
    (e.serve stamp r).1.attached id =
      (lastResult? id (e.applied? r).toList).or (e.attached id) := by
  cases happlied : e.applied? r with
  | some m =>
    rw [attached_of_applied happlied, Option.toList_some, lastResult?_singleton]
    split <;> rfl
  | none =>
    rw [Option.toList_none]
    cases hopened : e.opened? r with
    | none => exact attached_of_neither happlied hopened stamp id
    | some d =>
      rw [attached_of_opened hopened, if_neg]
      · rfl
      · -- the dispute that is opened is about another trade
        rintro rfl
        rw [DisputeStore.contains_of_none (opened?_some hopened).2.2] at hid
        cases hid

namespace World

/-- The result message that an operation applies to a stored dispute. A message
that is handed over has no gate to pass, as if its retry had fired. -/
def applied? (w : World) : Operation → Option ResultMessage
  | .act _ a => (w.request? a).bind w.engine.applied?
  | .hand m => w.engine.applied? (.event (.deferred m))

/-- The result messages that operations apply, in the order in which they do. -/
def applied : World → List Operation → List ResultMessage
  | _, [] => []
  | w, o :: os => (w.applied? o).toList ++ applied (w.perform o) os

theorem after_disputes (w : World) (a : Stamp × Act) :
    (w.after a).engine.disputes = (w.serving a).disputes := by
  obtain ⟨stamp, a⟩ := a
  cases a <;> rfl

theorem perform_attached {w : World} {id : TradeId}
    (hid : w.engine.disputes.contains id = true) (o : Operation) :
    (w.perform o).engine.attached id =
      (lastResult? id (w.applied? o).toList).or (w.engine.attached id) := by
  cases o with
  | act stamp a =>
    change ((w.after (stamp, a)).engine.disputes.find? id).bind Dispute.result = _
    rw [after_disputes]
    simp only [applied?]
    cases hr : w.request? a with
    | none =>
      rw [serving_of_none (a := (stamp, a)) hr]
      rfl
    | some r =>
      rw [serving_of_some (a := (stamp, a)) hr]
      exact Engine.attached_of_stored hid stamp r
  | hand m =>
    change ((w.engine.handed m).disputes.find? id).bind Dispute.result = _
    rw [w.engine.handed_disputes m ⟨m.uid, .epoch⟩]
    exact Engine.attached_of_stored hid _ _

theorem perform_onward {w : World} {id : TradeId} {d : Dispute}
    (hd : w.engine.disputes.find? id = some d) (o : Operation) :
    ∃ d', (w.perform o).engine.disputes.find? id = some d' ∧ d.Onward d' := by
  rcases w.perform_engine o with ⟨r, hserved⟩ | hsame
  · obtain ⟨d', hd', honward, -⟩ := (hserved.steps id).onward hd
    exact ⟨d', hd', honward⟩
  · rw [hsame]
    exact ⟨d, hd, .refl d⟩

/-- Whatever is done, a stored dispute stays stored and only goes forward; the
result attached to it is the last one applied to it, or else the one it had. -/
theorem operate_stored_dispute {w : World} {id : TradeId} {d : Dispute}
    (hd : w.engine.disputes.find? id = some d) (os : List Operation) :
    ∃ d', (w.operate os).engine.disputes.find? id = some d' ∧ d.Onward d' ∧
      d'.result = (lastResult? id (w.applied os)).or d.result := by
  induction os generalizing w d with
  | nil => exact ⟨d, hd, .refl d, rfl⟩
  | cons o os ih =>
    obtain ⟨d', hd', honward⟩ := perform_onward hd o
    obtain ⟨d'', hd'', honward', hlast⟩ := ih hd'
    have hstored : w.engine.disputes.contains id = true := DisputeStore.contains_of_some hd
    have hresult := perform_attached hstored o
    simp only [Engine.attached, hd, hd', Option.bind_some] at hresult
    refine ⟨d'', hd'', honward.trans honward', ?_⟩
    rw [hlast, hresult, applied, lastResult?_append, Option.or_assoc]

end World

namespace Sample

def opened : World := .start (engine.play [deliver (opening none)])

/-- A second opening with a result of its own is refused, a result that is handed
over is applied, and its closing message is not said again. -/
def contested : List Operation :=
  [.act stamp (.ask (.event (.support (opening (some forSeller.result))))), .hand forBuyer,
    .act stamp (.ask (.event (.support (.chat closing))))]

end Sample

namespace World

open Sample in
theorem operate_stored_dispute_contested :
    ∃ d d', opened.engine.disputes.find? tradeId = some d ∧
      (opened.operate contested).engine.disputes.find? tradeId = some d' ∧ d.Onward d' ∧
      d'.result = some forBuyer.result := by
  have hopened : (opened.engine.disputes.find? tradeId).isSome = true := by decide +kernel
  have happlied : opened.applied contested = [forBuyer] := by decide +kernel
  obtain ⟨d, hd⟩ := Option.isSome_iff_exists.mp hopened
  obtain ⟨d', hd', honward, hresult⟩ := operate_stored_dispute hd contested
  rw [happlied] at hresult
  exact ⟨d, d', hd, hd', honward, hresult⟩

end World

end Mediation
