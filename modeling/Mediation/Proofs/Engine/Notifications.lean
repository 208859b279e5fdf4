import Mediation.Proofs.Engine.Case
import Mediation.Proofs.Engine.Requests

/-!
# What listeners are told of a trade's phase

A request changes the phase of a trade at most once, and then a registry keeps
that change for its listeners: the trade as it is afterwards, and the phase it
had. The changes that are kept are those that the books before and after the
request show.
-/

namespace Mediation

/-- The change of phase that two books show of a trade which is live in both. -/
def Book.change? (b b' : Book) (id : TradeId) : Option PhaseChange :=
  match b.live.get? id, b'.live.get? id with
  | some t, some t' => if t'.phase = t.phase then none else some ⟨t', t.phase⟩
  | _, _ => none

/-- A live trade was live before, in the same phase. -/
def Book.Still (b b' : Book) (id : TradeId) : Prop :=
  ∀ t', b'.live.get? id = some t' → ∃ t, b.live.get? id = some t ∧ t.phase = t'.phase

theorem Book.Still.change?_eq {b b' : Book} {id : TradeId} (h : b.Still b' id) :
    b.change? b' id = none := by
  unfold change?
  split
  next t t' ht ht' =>
    obtain ⟨u, hu, hphase⟩ := h t' ht'
    rw [ht, Option.some.injEq] at hu
    subst hu
    exact if_pos hphase.symm
  next => rfl

theorem Book.change?_self (b : Book) (id : TradeId) : b.change? b id = none :=
  Book.Still.change?_eq fun t ht => ⟨t, ht, rfl⟩

/-- Each change begins with the phase to which the one before it led. -/
def PhaseChange.Chain : TradePhase → List PhaseChange → Prop
  | _, [] => True
  | p, c :: cs => c.previous = p ∧ Chain c.trade.phase cs

namespace Registry

/-- No phase has changed, and listeners are told nothing. -/
structure Quiet (r r' : Registry) : Prop where
  changes : r'.changes = r.changes
  still : ∀ id, r.book.Still r'.book id

theorem Quiet.refl (r : Registry) : Quiet r r := ⟨rfl, fun _ t ht => ⟨t, ht, rfl⟩⟩

theorem Quiet.trans {r r' r'' : Registry} (h : Quiet r r') (h' : Quiet r' r'') : Quiet r r'' := by
  refine ⟨h'.changes.trans h.changes, fun id t'' ht'' => ?_⟩
  obtain ⟨t', ht', hphase'⟩ := h'.still id t'' ht''
  obtain ⟨t, ht, hphase⟩ := h.still id t' ht'
  exact ⟨t, ht, hphase.trans hphase'⟩

/-- What listeners are told is what the books show. -/
def Notifies (r r' : Registry) : Prop :=
  ∃ sent, r'.changes = r.changes ++ sent ∧
    ∀ id, sent.filter (fun c => c.trade.id = id) = (r.book.change? r'.book id).toList

variable {r r' : Registry}

theorem Quiet.notifies (h : Quiet r r') : Notifies r r' := by
  refine ⟨[], by rw [h.changes, List.append_nil], fun id => ?_⟩
  rw [(h.still id).change?_eq]
  rfl

theorem quiet_update (r : Registry) (id : TradeId) {f : Trade → Trade}
    (hf : ∀ t, (f t).phase = t.phase) : Quiet r (r.update id f) := by
  refine ⟨rfl, fun j t' ht' => ?_⟩
  change (r.book.update id f).live.get? j = some t' at ht'
  rw [Book.update_live] at ht'
  split at ht'
  · obtain ⟨t, ht, rfl⟩ := Option.map_eq_some_iff.mp ht'
    exact ⟨t, ht, (hf t).symm⟩
  · exact ⟨t', ht', rfl⟩

theorem setPhase_live (r : Registry) (id j : TradeId) (phase : TradePhase) :
    (r.setPhase id phase).book.live.get? j =
      if j = id then (r.book.live.get? j).map fun t => { t with phase := phase }
      else r.book.live.get? j := Book.update_live r.book id j _

/-- After a quiet change a phase is set. -/
theorem Quiet.setPhase (h : Quiet r r') (hfiled : r'.book.Filed) (id : TradeId)
    (phase : TradePhase) : Notifies r (r'.setPhase id phase) := by
  have hother : ∀ j, j ≠ id → r.book.Still (r'.setPhase id phase).book j := by
    intro j hj t' ht'
    rw [setPhase_live, if_neg hj] at ht'
    exact h.still j t' ht'
  -- a trade that is not live, or has the phase already, changes nothing
  have hquiet (hnone : r'.book.phaseChange? id phase = none)
      (hid : r.book.Still (r'.setPhase id phase).book id) : Notifies r (r'.setPhase id phase) := by
    refine Quiet.notifies ⟨?_, fun j => ?_⟩
    · simp only [Registry.setPhase, hnone, Option.toList_none, List.append_nil, h.changes]
    · by_cases hj : j = id
      · exact hj ▸ hid
      · exact hother j hj
  cases hlive : r'.book.live.get? id with
  | none =>
    refine hquiet (by simp only [Book.phaseChange?, hlive]) fun t' ht' => ?_
    rw [setPhase_live, if_pos rfl, hlive] at ht'
    cases ht'
  | some t =>
    obtain ⟨t₀, ht₀, hphase₀⟩ := h.still id t hlive
    by_cases hphase : t.phase = phase
    · refine hquiet (by simp only [Book.phaseChange?, hlive, hphase, if_true]) fun t' ht' => ?_
      rw [setPhase_live, if_pos rfl, hlive] at ht'
      cases ht'
      exact ⟨t₀, ht₀, hphase₀.trans hphase⟩
    · have hchange : r'.book.phaseChange? id phase = some ⟨{ t with phase := phase }, t.phase⟩ := by
        simp only [Book.phaseChange?, hlive, hphase, if_false]
      have htrade : t.id = id := hfiled.live id t hlive
      refine ⟨[⟨{ t with phase := phase }, t.phase⟩], ?_, fun j => ?_⟩
      · simp only [Registry.setPhase, hchange, Option.toList_some, h.changes]
      · by_cases hj : j = id
        · subst hj
          have hafter : (r'.setPhase j phase).book.live.get? j =
              some { t with phase := phase } := by
            rw [setPhase_live, if_pos rfl, hlive, Option.map_some]
          have hne : phase ≠ t.phase := Ne.symm hphase
          simp [Book.change?, ht₀, hafter, hphase₀, hne, htrade]
        · have hne : t.id ≠ j := fun heq => hj (heq.symm.trans htrade)
          simp [(hother j hj).change?_eq, hne]

/-- The payout transaction is recorded, and then the phase is set. -/
theorem Quiet.setPayoutTx (h : Quiet r r') (hfiled : r'.book.Filed) (id : TradeId)
    (tx : PayoutTx) : Notifies r (r'.setPayoutTx id tx) := by
  have hquiet : Quiet r (r'.withBook (r'.book.setPayoutTx id tx)) :=
    h.trans (quiet_update r' id fun _ => rfl)
  have hpaid : (r'.book.setPayoutTx id tx).Filed := hfiled.update id fun _ => rfl
  exact hquiet.setPhase hpaid id .payoutPublished

end Registry

/-! ### Requests -/

/-- Whether a request may change the phase of a trade. -/
def Request.mayMove : Request → Bool
  | .accept _ _ | .update _ (.phase _) | .update _ (.payoutTx _) => true
  | _ => false

theorem Trade.applyResult_phase (t : Trade) (buyer seller : Coin) :
    (t.applyResult buyer seller).phase = t.phase := by
  unfold applyResult
  split <;> rfl

theorem Trade.enter?_phase (t : Trade) (s : Option DisputeState) :
    (t.enter? s).phase = t.phase := by
  cases s with
  | none => rfl
  | some s =>
    simp only [enter?, enterDispute]
    split <;> rfl

/-- No other request changes one. -/
theorem Case.Steps.phase {c : MediationConfig} {r : Request} {id : TradeId} {k l : Case}
    (h : Case.Steps c r id k l) (hr : r.mayMove = false) {t' : Trade} (ht' : l.live = some t') :
    ∃ t, k.live = some t ∧ t.phase = t'.phase := by
  induction h generalizing t' with
  | refl => exact ⟨t', ht', rfl⟩
  | tail _ hstep ih =>
    cases hstep with
    | opened d stamp sender text hd hid =>
      obtain ⟨t, ht, rfl⟩ := Option.map_eq_some_iff.mp ht'
      rw [Trade.enter?_phase]
      exact ih ht
    | said d m hm hid => exact ih ht'
    | ruled d m hm hid =>
      obtain ⟨t, ht, rfl⟩ := Option.map_eq_some_iff.mp ht'
      rw [Trade.applyResult_phase]
      exact ih ht
    | accepted d t res ha hres =>
      obtain ⟨caller, rfl⟩ := ha
      cases hr
    | rejected t ha =>
      cases ht'
      exact @ih t rfl
    | moved t phase ha =>
      rw [ha] at hr
      cases hr
    | signed t signature ha =>
      cases ht'
      exact @ih t rfl
    | paid t tx ha =>
      rcases ha with rfl | ⟨i, caller, rfl⟩ <;> cases hr
    | settled t hpaid hstate => cases ht'

/-- A trade that is not live does not come to life. -/
theorem Case.Steps.isSome_live {c : MediationConfig} {r : Request} {id : TradeId} {k l : Case}
    (h : Case.Steps c r id k l) (hl : l.live.isSome = true) : k.live.isSome = true := by
  induction h with
  | refl => exact hl
  | tail _ hstep ih =>
    refine ih ?_
    cases hstep with
    | opened d stamp sender text hd hid => exact Option.isSome_map .. ▸ hl
    | said d m hm hid => exact hl
    | ruled d m hm hid => exact Option.isSome_map .. ▸ hl
    | settled t hpaid hstate => cases hl
    | accepted | rejected | moved | signed | paid => rfl

namespace Engine

theorem changes_closePaidTrades (ids : List TradeId) (e : Engine) :
    (e.closePaidTrades ids).1.registry.changes = e.registry.changes := by
  induction ids generalizing e with
  | nil => rfl
  | cons id ids ih =>
    unfold closePaidTrades
    cases hclose : e.closePaidTrade? id with
    | none => exact ih e
    | some e' =>
      obtain ⟨t, -, -, -, -, rfl⟩ := closePaidTrade?_some hclose
      exact ih _

theorem changes_receiveOutcome (e : Engine) (o : PayoutOutcome) :
    (e.receiveOutcome o).registry.changes = e.registry.changes := by
  unfold receiveOutcome
  split
  next => rfl
  next pending hpending =>
    dsimp only
    split
    next => rfl
    next =>
      cases hclose : closePaidTrade?
          { e with acceptances := e.acceptances.erase o.ticket } pending.tradeId with
      | none => rfl
      | some e' =>
        obtain ⟨t, -, -, -, -, rfl⟩ := closePaidTrade?_some hclose
        rfl

theorem Served.quiet {e e' : Engine} {r : Request} (h : Served e r e') (hr : r.mayMove = false) :
    e.registry.Quiet e'.registry := by
  refine ⟨?_, fun id t' ht' => (h.steps id).phase hr ht'⟩
  cases h with
  | idle acks => rfl
  | opened stamp d acks hd hnew =>
    change (e.addDispute stamp d _ (r.entry? e.config)).registry.changes = _
    cases r.entry? e.config with
    | none => rfl
    | some s => exact changes_enterDispute _ d.tradeId s
  | said m acks hm hstored => rfl
  | missed m a hm hclosing hmissing => rw [missDispute_eq]
  | ruled m a closing acks hm htakes hclosing hstored =>
    exact changes_applyToTrade (e.applyToDispute m closing) _ _ _
  | answered o p ho hp => exact changes_receiveOutcome e o
  | accepted id caller ticket e' ha hok =>
    subst ha
    cases hr
  | rejected id ha => rfl
  | swept hs =>
    have hclosed := changes_closePaidTrades e.disputes.disputes.keys e
    simp only [cleanup]
    split <;> exact hclosed
  | changed id u hu =>
    subst hu
    cases u with
    | phase phase => cases hr
    | payoutTx txid => cases hr
    | peerSignature signature =>
      simp only [change]
      split <;> rfl

/-- A request that may change a phase changes nothing, or is an acceptance or an update. -/
theorem Served.of_mayMove {e e' : Engine} {r : Request} (h : Served e r e')
    (hr : r.mayMove = true) :
    e'.registry = e.registry ∨
      (∃ id caller ticket, e.accept id caller = .ok (e', ticket)) ∨
      ∃ id u, e' = (e.change id u).1 := by
  cases h with
  | idle acks => exact Or.inl rfl
  | accepted id caller ticket e' ha hok => exact Or.inr (Or.inl ⟨id, caller, ticket, hok⟩)
  | changed id u hu => exact Or.inr (Or.inr ⟨id, u, rfl⟩)
  | opened stamp d acks hd hnew =>
    unfold Request.dispute? at hd
    split at hd <;> first | cases hr | cases hd
  | said m acks hm hstored =>
    subst hm
    cases hr
  | missed m a hm hclosing hmissing =>
    obtain rfl := Request.eq_bring_of_attempt? hm
    cases a <;> cases hr
  | ruled m a closing acks hm htakes hclosing hstored =>
    obtain rfl := Request.eq_bring_of_attempt? hm
    cases a <;> cases hr
  | answered o p ho hp =>
    subst ho
    cases hr
  | rejected id ha =>
    subst ha
    cases hr
  | swept hs =>
    subst hs
    cases hr

theorem notifies_accept {e e' : Engine} {id : TradeId} {caller ticket : Nat}
    (hok : e.accept id caller = .ok (e', ticket)) (hfiled : e.registry.book.Filed) :
    e.registry.Notifies e'.registry := by
  obtain ⟨d, res, t, step, -, -, -, -, rfl⟩ := accept_ok hok
  have hupdate := Registry.quiet_update e.registry id (f := fun t => acceptedTrade t res)
    fun _ => rfl
  have haccepting : e.registry.Quiet (e.accepting id caller res).registry :=
    ⟨hupdate.changes, hupdate.still⟩
  have hfiled' : (e.accepting id caller res).registry.book.Filed := hfiled.update id fun _ => rfl
  rcases askPayout_registry (e.accepting id caller res) step (acceptedTrade t res) ⟨ticket, id⟩
    with hsame | hpaid
  · rw [hsame]
    exact haccepting.notifies
  · rw [hpaid]
    exact haccepting.setPayoutTx hfiled' _ _

theorem notifies_change {e : Engine} (hfiled : e.registry.book.Filed) (id : TradeId)
    (u : TradeUpdate) : e.registry.Notifies (e.change id u).1.registry := by
  have hsame := Registry.Quiet.refl e.registry
  simp only [change]
  split
  next =>
    cases u with
    | phase phase => exact hsame.setPhase hfiled id phase
    | payoutTx txid => exact hsame.setPayoutTx hfiled id ⟨txid⟩
    | peerSignature signature =>
      exact (Registry.quiet_update e.registry id
        (f := fun t => t.setPeerSignature signature) fun _ => rfl).notifies
  next => exact hsame.notifies

/-- Listeners are told what the books before and after a request show. -/
theorem Served.notifies {e e' : Engine} {r : Request} (h : Served e r e')
    (hfiled : e.registry.book.Filed) : e.registry.Notifies e'.registry := by
  cases hr : r.mayMove with
  | false => exact (h.quiet hr).notifies
  | true =>
    rcases h.of_mayMove hr with hsame | ⟨id, caller, ticket, hok⟩ | ⟨id, u, rfl⟩
    · rw [hsame]
      exact (Registry.Quiet.refl _).notifies
    · exact notifies_accept hok hfiled
    · exact notifies_change hfiled id u

end Engine

end Mediation
