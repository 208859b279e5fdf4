import Mediation.Proofs.Engine.Growth
import Mediation.Proofs.Engine.Scope

/-!
# Where the contents of a stored dispute come from

A dispute is stored with the chat and the result that it is opened with. From
then on each message is added once and belongs to the dispute, and the result
is one about its trade.
-/

namespace Mediation

namespace Case
variable {c : MediationConfig} {r : Request} {id : TradeId} {k l : Case}

theorem Step.dispute_none (hopens : r.dispute? = none) (h : Step c r id k l)
    (hk : k.dispute = none) : l.dispute = none := by
  cases h with
  | opened d stamp sender text hr hid =>
    rw [hopens] at hr
    cases hr
  | said d m hr hm => cases hk
  | ruled d m hr hm => cases hk
  | accepted d t res hr hres => cases hk
  | rejected t hr => exact hk
  | moved t phase hr => exact hk
  | signed t signature hr => exact hk
  | paid t tx hr => exact hk
  | settled t hpaid hstate => exact hk

theorem Steps.dispute_none (hopens : r.dispute? = none) (h : Steps c r id k l)
    (hk : k.dispute = none) : l.dispute = none := by
  induction h with
  | refl => exact hk
  | tail _ hstep ih => exact hstep.dispute_none hopens ih

end Case

namespace Engine

/-- A message that belongs to a trade: it is for a kind of support, or closes the
dispute of a result that some of the requests applied. -/
def Belongs (t : SupportType) (id : TradeId) (h : List (Engine × Request)) (m : ChatMessage) :
    Prop :=
  m.tradeId = id ∧
    (m.supportType = t ∨
      ∃ x ∈ h, ∃ n, x.1.applied? x.2 = some n ∧ n.result.chatMessage = some m)

theorem Belongs.mono {t : SupportType} {id : TradeId} {h h' : List (Engine × Request)}
    {m : ChatMessage} (hm : Belongs t id h m) (hsub : h ⊆ h') : Belongs t id h' m := by
  obtain ⟨hid, htype | ⟨x, hx, happlied⟩⟩ := hm
  · exact ⟨hid, Or.inl htype⟩
  · exact ⟨hid, Or.inr ⟨x, hsub hx, happlied⟩⟩

/-! ### One request -/

section Request
variable {e : Engine} {r : Request} {id : TradeId}

/-- What a message past the gate adds to a chat belongs to the trade of the chat. -/
theorem belongs_of_brings {m : ChatMessage} (htakes : e.takes r = true) (hm : r.Brings m)
    (hid : m.tradeId = id) (hresult : ∀ n, r.result? = some n → e.applied? r = some n) :
    Belongs e.config.supportType id [(e, r)] m := by
  rcases hm with rfl | ⟨n, hn, hclosing⟩
  · have hgate : (SupportMessage.chat m).isFor e.config.supportType = true := htakes
    exact ⟨hid, Or.inl (of_decide_eq_true hgate)⟩
  · exact ⟨hid, Or.inr ⟨(e, r), List.mem_singleton_self _, n, hresult n hn, hclosing⟩⟩

theorem serve_stored {d : Dispute} (hd : e.disputes.find? id = some d) (r : Request)
    (stamp : Stamp) : ∃ d', (e.serve stamp r).1.disputes.find? id = some d' ∧ d.Onward d' ∧
      Gains (Belongs e.config.supportType id [(e, r)]) d.chat d'.chat := by
  have hsame (h : (e.serve stamp r).1.disputes = e.disputes) :
      ∃ d', (e.serve stamp r).1.disputes.find? id = some d' ∧ d.Onward d' ∧
        Gains (Belongs e.config.supportType id [(e, r)]) d.chat d'.chat := by
    rw [h]
    exact ⟨d, hd, .refl d, .refl _ _⟩
  cases htakes : e.takes r with
  | false => exact hsame (by rw [serve_of_not_taken htakes])
  | true =>
    have hserved (h : ∀ n, r.result? = some n → e.applied? r = some n) :
        ∃ d', (e.serve stamp r).1.disputes.find? id = some d' ∧ d.Onward d' ∧
          Gains (Belongs e.config.supportType id [(e, r)]) d.chat d'.chat := by
      obtain ⟨d', hd', honward, hgains⟩ := (serve_steps e stamp r id).onward hd
      exact ⟨d', hd', honward, hgains.mono fun m hm => belongs_of_brings htakes hm.1 hm.2 h⟩
    cases hrules : r.result? with
    | none =>
      refine hserved fun n hn => ?_
      rw [hrules] at hn
      cases hn
    | some n =>
      cases happlied : e.applied? r with
      | none => exact hsame (disputes_of_unapplied hrules happlied stamp)
      | some n' =>
        refine hserved fun n hn => ?_
        rw [happlied, ← (applied?_some happlied).1, hn]

theorem find?_serve_eq_none (hid : e.disputes.find? id = none) (hopened : e.opened? r = none)
    (stamp : Stamp) : (e.serve stamp r).1.disputes.find? id = none := by
  cases hopens : r.dispute? with
  | some d =>
    rw [serve_of_unopened hopens hopened]
    exact hid
  | none => exact (serve_steps e stamp r id).dispute_none hopens hid

end Request

/-! ### A whole run -/

/-- What is stored about a trade is the one dispute that was opened about it, gone forward. -/
def Accounts (t : SupportType) (id : TradeId) (h : List (Engine × Request)) (e : Engine) : Prop :=
  (e.disputes.find? id = none ∧ openings id h = []) ∨
    ∃ d₀ d, e.disputes.find? id = some d ∧ openings id h = [d₀] ∧ d₀.Onward d ∧
      Gains (Belongs t id h) d₀.chat d.chat

theorem accounts_serve {id : TradeId} {h : List (Engine × Request)} {e : Engine}
    (haccounts : Accounts e.config.supportType id h e) (stamp : Stamp) (r : Request) :
    Accounts e.config.supportType id (h ++ [(e, r)]) (e.serve stamp r).1 := by
  rcases haccounts with ⟨hnone, hopenings⟩ | ⟨d₀, d, hd, hopenings, honward, hgains⟩
  · cases hopened : e.opened? r with
    | none =>
      refine Or.inl ⟨find?_serve_eq_none hnone hopened stamp, ?_⟩
      rw [openings, about_concat_of_none _ _ _ _ hopened]
      exact hopenings
    | some d =>
      obtain ⟨hr, htakes, hnew⟩ := opened?_some hopened
      have hfind := find?_serve_opening hr htakes hnew stamp id
      have hlist : openings id (h ++ [(e, r)]) = _ := about_concat_of_some _ _ _ _ hopened
      by_cases hid : id = d.tradeId
      · rw [if_pos hid] at hfind
        rw [if_pos hid.symm] at hlist
        have hgreeting : Belongs e.config.supportType id (h ++ [(e, r)])
            (.system stamp d.tradeId e.config.supportType e.address (r.greeting d)) :=
          ⟨hid.symm, Or.inl rfl⟩
        refine Or.inr ⟨d, _, hfind, ?_, .addMessage d _, .addMessage d hgreeting⟩
        rw [hlist]
        exact congrArg (· ++ [d]) hopenings
      · rw [if_neg hid] at hfind
        rw [if_neg (Ne.symm hid)] at hlist
        exact Or.inl ⟨hfind.trans hnone, hlist.trans hopenings⟩
  · obtain ⟨d', hd', honward', hgains'⟩ := serve_stored hd r stamp
    have hlist : openings id (h ++ [(e, r)]) = openings id h := by
      cases hopened : e.opened? r with
      | none => exact about_concat_of_none _ _ _ _ hopened
      | some d'' =>
        refine (about_concat_of_some _ _ _ _ hopened).trans (if_neg ?_)
        rintro rfl
        rw [(opened?_some hopened).2.2] at hd
        cases hd
    exact Or.inr ⟨d₀, d', hd', hlist.trans hopenings, honward.trans honward',
      (hgains.mono fun m hm => hm.mono (List.subset_append_left _ _)).trans
        (hgains'.mono fun m hm => hm.mono (List.subset_append_right _ _))⟩

theorem accounts_play {e : Engine} (hempty : e.disputes.disputes = .empty)
    (ts : List (Stamp × Turn)) (id : TradeId) :
    Accounts e.config.supportType id (e.log ts) (e.play ts) := by
  have hstart : Accounts e.config.supportType id [] e := by
    refine Or.inl ⟨?_, rfl⟩
    rw [DisputeStore.find?, hempty, Table.get?_empty]
  have hrun := play_log_induction
    (R := fun h f => f.config = e.config ∧ Accounts f.config.supportType id h f)
    (Q := fun _ => True) (fun h f hf w hw => trivial) (fun h f millis hf => hf)
    (fun h f stamp r hr hf => by
      refine ⟨(serve_config f stamp r).trans hf.1, ?_⟩
      rw [serve_config]
      exact accounts_serve hf.2 stamp r)
    ts (fun t ht r hr => trivial) [] e ⟨rfl, hstart⟩
  rw [hrun.1] at hrun
  exact hrun.2

/-- The chat of a stored dispute continues the one it was opened with, and no message stands in
it twice, if none did at first. Each message that has come to it is there once and belongs to its
trade, and its result is about its trade unless none has been applied. -/
theorem play_dispute_contents {e : Engine} (hempty : e.disputes.disputes = .empty)
    (ts : List (Stamp × Turn)) {id : TradeId} {d : Dispute}
    (hd : (e.play ts).disputes.find? id = some d) :
    d.tradeId = id ∧ ∃ d₀, openings id (e.log ts) = [d₀] ∧
      (d₀.chat.Nodup → d₀.chat <+: d.chat ∧ d.chat.Nodup) ∧
      (∀ m ∈ d.chat, m ∉ d₀.chat → d.chat.count m = 1 ∧ m.tradeId = d.tradeId ∧
        (m.supportType = e.config.supportType ∨
          ∃ x ∈ e.log ts, ∃ n, x.1.applied? x.2 = some n ∧ n.result.chatMessage = some m)) ∧
      ∀ res, d.result = some res → res.tradeId = d.tradeId ∨
        (applications id (e.log ts) = [] ∧ d₀.result = some res) := by
  rcases accounts_play hempty ts id with ⟨hnone, -⟩ | ⟨d₀, d', hd', hopenings, honward, hgains⟩
  · rw [hnone] at hd
    cases hd
  · cases hd'.symm.trans hd
    have hid : d.tradeId = id := by
      have hd₀ : d₀ ∈ openings id (e.log ts) := by
        rw [hopenings]
        exact List.mem_singleton_self d₀
      exact honward.tradeId.trans (mem_about _ _ _ hd₀).1
    refine ⟨hid, d₀, hopenings, fun hnodup => ⟨honward.chat, honward.nodup hnodup⟩, ?_, ?_⟩
    · rw [hid]
      exact fun m hm hnew => hgains.count_of_new hm hnew
    · intro res hres
      have hsource := attached_play hempty ts id
      rw [attached, hd, Option.bind_some, hres, source, hopenings, List.getLast?_singleton,
        Option.bind_some] at hsource
      rcases Option.or_eq_some_iff.mp hsource.symm with happlied | ⟨hnone, hopened⟩
      · obtain ⟨m, hlast, rfl⟩ := Option.map_eq_some_iff.mp happlied
        have hm : m.tradeId = id := (mem_about _ _ _ (List.mem_of_getLast? hlast)).1
        exact Or.inl (hm.trans hid.symm)
      · have hnil : applications id (e.log ts) = [] := by simpa using hnone
        exact Or.inr ⟨hnil, hopened⟩

/-- A property of the engine, the openings and the stored dispute about a trade, in every
run of requests past the gate from no disputes. -/
def Always (P : Engine → List Dispute → Dispute → Prop) : Prop :=
  ∀ (e : Engine) (ts : List (Stamp × Turn)), e.disputes.disputes = .empty →
    (∀ x ∈ e.log ts, x.1.takes x.2 = true) →
    ∀ id d, (e.play ts).disputes.find? id = some d → P e (openings id (e.log ts)) d

end Engine

namespace Sample

/-- A message about the other trade, and for another kind of support. -/
def foreign : ChatMessage := { closing with tradeId := otherId, supportType := .refund }

/-- The result for the seller, about the other trade, with such a closing message. -/
def elsewhere : DisputeResult :=
  { forSeller.result with tradeId := otherId, chatMessage := some foreign }

/-- A dispute is opened with the message and the result, and then another one,
to which the result is applied. -/
def misfiled : List (Stamp × Turn) :=
  [deliver (.peerOpenedDispute
      ⟨⟨7, by decide⟩, { dispute (some elsewhere) with chat := [foreign] }, .default⟩),
    deliver (.openNewDispute ⟨⟨8, by decide⟩, { dispute none with tradeId := otherId }, .default⟩),
    deliver (.disputeResult (ruling ⟨9, by decide⟩ elsewhere))]

/-- A dispute is opened with one message of its own twice. -/
def doubled : List (Stamp × Turn) :=
  [deliver (.peerOpenedDispute
      ⟨⟨7, by decide⟩, { dispute none with chat := [closing, closing] }, .default⟩)]

end Sample

namespace Engine

open Sample in
theorem play_dispute_contents_misfiled :
    ∃ d, (engine.play misfiled).disputes.find? otherId = some d ∧ d.tradeId = otherId ∧
      d.chat.Nodup ∧ (∀ m ∈ d.chat, m.tradeId = otherId) ∧
      ∀ res, d.result = some res → res.tradeId = otherId := by
  have hstored : ((engine.play misfiled).disputes.find? otherId).isSome = true := by
    decide +kernel
  have hopenings : openings otherId (engine.log misfiled) =
      [{ dispute none with tradeId := otherId }] := by decide +kernel
  obtain ⟨d, hd⟩ := Option.isSome_iff_exists.mp hstored
  obtain ⟨hid, d₀, hopened, hnodup, hadded, hresult⟩ :=
    play_dispute_contents rfl misfiled hd
  rw [hopenings, List.singleton_inj] at hopened
  subst hopened
  refine ⟨d, hd, hid, (hnodup List.nodup_nil).2, ?_, ?_⟩
  · intro m hm
    exact (hadded m hm List.not_mem_nil).2.1.trans hid
  · intro res hres
    rcases hresult res hres with hown | ⟨-, hnone⟩
    · exact hown.trans hid
    · cases hnone

open Sample in
/-- Not all that a stored dispute holds is its own: neither the chat and the result that it is
opened with, nor the kind of support of a closing message. And a message may stand twice in it. -/
theorem not_contents_own :
    ¬ Always (fun e _ d => d.chat.Nodup ∧
      (∀ m ∈ d.chat, m.tradeId = d.tradeId ∧ m.supportType = e.config.supportType) ∧
      ∀ res, d.result = some res → res.tradeId = d.tradeId) ∧
    ¬ Always (fun _ _ d => d.chat.Nodup) ∧
    ¬ Always (fun _ _ d => ∀ m ∈ d.chat, m.tradeId = d.tradeId) ∧
    ¬ Always (fun e os d => ∀ m ∈ d.chat, (∀ d₀ ∈ os, m ∉ d₀.chat) →
      m.supportType = e.config.supportType) ∧
    ¬ Always (fun _ _ d => ∀ res, d.result = some res → res.tradeId = d.tradeId) := by
  have hgate : ∀ x ∈ engine.log misfiled, x.1.takes x.2 = true := by decide +kernel
  have hgateDoubled : ∀ x ∈ engine.log doubled, x.1.takes x.2 = true := by decide +kernel
  have hfirst : ((engine.play misfiled).disputes.find? tradeId).map (fun d =>
      (d.tradeId, d.chat.contains foreign, d.result)) = some (tradeId, true, some elsewhere) := by
    decide +kernel
  have hsecond : ((engine.play misfiled).disputes.find? otherId).map (fun d =>
      d.chat.contains foreign) = some true := by decide +kernel
  have htwice : ((engine.play doubled).disputes.find? tradeId).map (fun d =>
      d.chat.count closing) = some 2 := by decide +kernel
  have hopenings : openings otherId (engine.log misfiled) =
      [{ dispute none with tradeId := otherId }] := by decide +kernel
  obtain ⟨d, hd, hfields⟩ := Option.map_eq_some_iff.mp hfirst
  obtain ⟨d', hd', hclosing⟩ := Option.map_eq_some_iff.mp hsecond
  obtain ⟨d'', hd'', hcount⟩ := Option.map_eq_some_iff.mp htwice
  simp only [Prod.mk.injEq, List.contains_iff_mem] at hfields hclosing
  obtain ⟨hid, hforeign, hresult⟩ := hfields
  have htrade : foreign.tradeId ≠ d.tradeId := by
    rw [hid]
    decide
  refine ⟨fun h => ?_, fun h => ?_, fun h => ?_, fun h => ?_, fun h => ?_⟩
  · exact htrade ((h engine misfiled rfl hgate tradeId d hd).2.1 foreign hforeign).1
  · have honce := List.nodup_iff_count_le_one.mp
      (h engine doubled rfl hgateDoubled tradeId d'' hd'') closing
    omega
  · exact htrade (h engine misfiled rfl hgate tradeId d hd foreign hforeign)
  · have htype := h engine misfiled rfl hgate otherId d' hd' foreign hclosing
    rw [hopenings] at htype
    revert htype
    decide
  · exact htrade (h engine misfiled rfl hgate tradeId d hd elsewhere hresult)

end Engine

end Mediation
