import Mediation.Proofs.Engine.Case
import Mediation.Proofs.Engine.Runs

/-!
# The dispute track and the trade track

A dispute is kept in the store and its trade in the book, and an operation may
touch one of them only. Under the default configuration, and as long as every
dispute that is opened is new, the two never contradict each other.
-/

namespace Mediation

namespace Case

/-- Dispute and live trade tell the same story. -/
structure Agrees (k : Case) : Prop where
  closed_iff : ∀ d, k.dispute = some d → (d.isClosed = true ↔ d.result.isSome = true)
  of_open : ∀ t, k.live = some t → t.disputeState.isMediationOpen = true →
    ∃ d, k.dispute = some d ∧ d.isClosed = false
  of_closed : ∀ t, k.live = some t → t.disputeState = .mediationClosed →
    ∃ d, k.dispute = some d ∧ d.isClosed = true ∧ d.result.isSome = true

theorem Agrees.of_no_dispute {k : Case} (h : k.Agrees) (hd : k.dispute = none) {t : Trade}
    (ht : k.live = some t) :
    t.disputeState.isMediationOpen = false ∧ t.disputeState ≠ .mediationClosed := by
  constructor
  · rw [Bool.eq_false_iff]
    intro hopen
    obtain ⟨d, hsome, -⟩ := h.of_open t ht hopen
    rw [hd] at hsome
    cases hsome
  · intro hclosed
    obtain ⟨d, hsome, -⟩ := h.of_closed t ht hclosed
    rw [hd] at hsome
    cases hsome

theorem Agrees.change {dispute : Option Dispute} {t t' : Trade} {closed : Option Trade}
    (h : Agrees ⟨dispute, some t, closed⟩) (hstate : t'.disputeState = t.disputeState) :
    Agrees ⟨dispute, some t', closed⟩ where
  closed_iff := h.closed_iff
  of_open := by
    intro u hu hopen
    cases hu
    rw [hstate] at hopen
    exact h.of_open t rfl hopen
  of_closed := by
    intro u hu hclosed
    cases hu
    rw [hstate] at hclosed
    exact h.of_closed t rfl hclosed

theorem enter?_state (t : Trade) (s : Option DisputeState) :
    (t.enter? s).disputeState = t.disputeState ∨ s = some (t.enter? s).disputeState := by
  cases s with
  | none => exact Or.inl rfl
  | some s =>
    simp only [Trade.enter?, Trade.enterDispute]
    split
    · exact Or.inr rfl
    · exact Or.inl rfl

theorem entry?_ne_closed (r : Request) : r.entry? .default ≠ some .mediationClosed := by
  unfold Request.entry?
  split <;> decide

theorem Step.agrees {r : Request} {id : TradeId} {k l : Case} (hfresh : r.Fresh)
    (h : Step .default r id k l) (hk : k.Agrees) : l.Agrees := by
  cases h with
  | opened d stamp sender text hr hd =>
    obtain ⟨hopen, hresult⟩ := hfresh d hr
    constructor
    · intro d' hd'
      cases hd'
      rw [Dispute.addMessage_isClosed, Dispute.addMessage_result, hopen, hresult]
      decide
    · intro t ht hstate
      exact ⟨_, rfl, by rw [Dispute.addMessage_isClosed, hopen]⟩
    · intro t ht hstate
      obtain ⟨u, hu, rfl⟩ := Option.map_eq_some_iff.mp ht
      rcases enter?_state u (r.entry? .default) with hsame | hentry
      · rw [hsame] at hstate
        exact absurd hstate (hk.of_no_dispute rfl hu).2
      · rw [hstate] at hentry
        exact absurd hentry (entry?_ne_closed r)
  | said d m hr hm =>
    constructor
    · intro d' hd'
      cases hd'
      rw [Dispute.addMessage_isClosed, Dispute.addMessage_result]
      exact hk.closed_iff d rfl
    · intro t ht hstate
      obtain ⟨d', hd', hopen⟩ := hk.of_open t ht hstate
      cases hd'
      exact ⟨_, rfl, by rw [Dispute.addMessage_isClosed, hopen]⟩
    · intro t ht hstate
      obtain ⟨d', hd', hd, hres⟩ := hk.of_closed t ht hstate
      cases hd'
      refine ⟨_, rfl, ?_, ?_⟩
      · rw [Dispute.addMessage_isClosed, hd]
      · rw [Dispute.addMessage_result]
        exact hres
  | ruled d m hr hm =>
    constructor
    · intro d' hd'
      cases hd'
      exact Iff.rfl
    · -- a mediation that was open is closed by the result
      intro t ht hstate
      obtain ⟨u, -, rfl⟩ := Option.map_eq_some_iff.mp ht
      by_cases hopen : u.disputeState.isMediationOpen = true
      · simp only [Trade.applyResult, hopen, if_true] at hstate
        cases hstate
      · rw [Trade.applyResult_of_not_open _ _ (by simpa using hopen)] at hstate
        exact absurd hstate hopen
    · intro t ht hstate
      exact ⟨_, rfl, rfl, rfl⟩
  | accepted d t res hr hres => exact hk.change rfl
  | rejected t hr => exact hk.change rfl
  | moved t phase hr => exact hk.change rfl
  | signed t signature hr => exact hk.change rfl
  | paid t tx hr => exact hk.change rfl
  | settled t hpaid hstate =>
    constructor
    · exact hk.closed_iff
    · intro u hu
      cases hu
    · intro u hu
      cases hu

theorem Steps.agrees {r : Request} {id : TradeId} {k l : Case} (hfresh : r.Fresh)
    (h : Steps .default r id k l) (hk : k.Agrees) : l.Agrees := by
  induction h with
  | refl => exact hk
  | tail _ hstep ih => exact hstep.agrees hfresh ih

end Case

namespace Engine

structure InStep (e : Engine) : Prop where
  config : e.config = .default
  agrees : ∀ id, (e.caseOf id).Agrees

theorem serve_inStep (e : Engine) (stamp : Stamp) (r : Request) (hfresh : r.Fresh)
    (h : e.InStep) : (e.serve stamp r).1.InStep := by
  constructor
  · rw [serve_config]
    exact h.config
  · intro id
    have hsteps := serve_steps e stamp r id
    rw [h.config] at hsteps
    exact hsteps.agrees hfresh (h.agrees id)

theorem inStep_of_start {e : Engine} (hconfig : e.config = .default)
    (hdisputes : e.disputes.disputes = .empty)
    (hlive : ∀ id t, e.registry.book.live.get? id = some t → t.disputeState = .noDispute) :
    e.InStep := by
  refine ⟨hconfig, fun id => ⟨?_, ?_, ?_⟩⟩
  · intro d hd
    have hnone : e.disputes.find? id = none := by
      rw [DisputeStore.find?, hdisputes, Table.get?_empty]
    rw [caseOf, hnone] at hd
    cases hd
  · intro t ht hstate
    rw [hlive id t ht] at hstate
    cases hstate
  · intro t ht hstate
    rw [hlive id t ht] at hstate
    cases hstate

/-- The two tracks agree in every reachable state. -/
theorem play_tracks_agree (e : Engine) (hconfig : e.config = .default)
    (hdisputes : e.disputes.disputes = .empty)
    (hlive : ∀ id t, e.registry.book.live.get? id = some t → t.disputeState = .noDispute)
    (ts : List (Stamp × Turn)) (hfresh : ∀ t ∈ ts, t.2.Fresh) (id : TradeId) :
    (∀ d, (e.play ts).disputes.find? id = some d →
      (d.isClosed = true ↔ d.result.isSome = true)) ∧
    (∀ t, (e.play ts).registry.book.live.get? id = some t →
      t.disputeState = .mediationRequested ∨ t.disputeState = .mediationStartedByPeer →
      ∃ d, (e.play ts).disputes.find? id = some d ∧ d.isClosed = false) ∧
    (∀ t, (e.play ts).registry.book.live.get? id = some t →
      t.disputeState = .mediationClosed →
      ∃ d, (e.play ts).disputes.find? id = some d ∧ d.isClosed = true ∧
        d.result.isSome = true) := by
  have hstart : e.InStep := inStep_of_start hconfig hdisputes hlive
  have hinv : (e.play ts).InStep :=
    play_induction (P := InStep) (fun e h w hw => Request.fresh_deferred w.task)
      (fun e millis h => ⟨h.config, h.agrees⟩)
      (fun e stamp r hr h => serve_inStep e stamp r hr h) ts hfresh e hstart
  have hagrees := hinv.agrees id
  refine ⟨hagrees.closed_iff, ?_, hagrees.of_closed⟩
  intro t ht hstate
  apply hagrees.of_open t ht
  rcases hstate with hstate | hstate <;> rw [hstate] <;> rfl

open Sample in
/-- Two results, the first of which overtakes its dispute, close both tracks. -/
theorem play_tracks_agree_overtaken :
    ∃ t d, (engine.play overtaken).registry.book.live.get? tradeId = some t ∧
      t.disputeState = .mediationClosed ∧
      (engine.play overtaken).disputes.find? tradeId = some d ∧
      d.isClosed = true ∧ d.result.isSome = true := by
  have hlive : ∀ id t, engine.registry.book.live.get? id = some t →
      t.disputeState = .noDispute := by
    intro id t ht
    change (Table.empty.insert tradeId trade).get? id = some t at ht
    rw [Table.get?_insert, Table.get?_empty] at ht
    split at ht
    next =>
      cases ht
      rfl
    next => cases ht
  have hagree := play_tracks_agree engine rfl rfl hlive overtaken overtaken_fresh tradeId
  have hstate : ((engine.play overtaken).registry.book.live.get? tradeId).map (·.disputeState) =
      some .mediationClosed := by decide +kernel
  obtain ⟨t, ht, hclosed⟩ := Option.map_eq_some_iff.mp hstate
  obtain ⟨d, hd, hsaid, hresult⟩ := hagree.2.2 t ht hclosed
  exact ⟨t, d, ht, hclosed, hd, hsaid, hresult⟩

end Engine

end Mediation
