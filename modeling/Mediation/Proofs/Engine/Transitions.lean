import Mediation.Proofs.Engine.Growth

/-!
# A trade walks along the dispute states

Whatever is done, the dispute state of a trade stays as it is or becomes one of
those that may follow it. The rank of a state grows with every change, so that
no state is entered a second time.
-/

namespace Mediation

/-! ### One step along the states -/

/-- The dispute state of a trade, if there is a trade, is the same or one that may follow. -/
def Advances (s s' : Option DisputeState) : Prop :=
  s' = s ∨ ∃ a b, s = some a ∧ s' = some b ∧ a.canBecome b = true

/-- Nothing has happened to the state, or the trade has reached the end of its mediation. -/
def Settles (s s' : Option DisputeState) : Prop :=
  s' = s ∨ ∃ a, s = some a ∧ s' = some .mediationClosed ∧ a.canBecome .mediationClosed = true

theorem Settles.advances {s s' : Option DisputeState} (h : Settles s s') : Advances s s' := by
  rcases h with hsame | ⟨a, ha, hclosed, hnext⟩
  · exact Or.inl hsame
  · exact Or.inr ⟨a, .mediationClosed, ha, hclosed, hnext⟩

theorem Settles.trans {s s' s'' : Option DisputeState} (h : Settles s s') (h' : Settles s' s'') :
    Settles s s'' := by
  rcases h with rfl | ⟨a, ha, hclosed, hnext⟩
  · exact h'
  · rcases h' with hsame | ⟨b, hb, -, hagain⟩
    · exact Or.inr ⟨a, ha, hsame.trans hclosed, hnext⟩
    · -- a mediation that is closed is not closed again
      rw [hclosed, Option.some.injEq] at hb
      subst hb
      cases hagain

/-- A state has stayed, or has been left for one of a higher rank. -/
def Climbs (s s' : Option DisputeState) : Prop :=
  s' = s ∨ ∃ a b, s = some a ∧ s' = some b ∧ a.rank < b.rank

theorem Advances.climbs {s s' : Option DisputeState} (h : Advances s s') : Climbs s s' := by
  rcases h with hsame | ⟨a, b, ha, hb, hnext⟩
  · exact Or.inl hsame
  · exact Or.inr ⟨a, b, ha, hb, DisputeState.rank_lt_of_canBecome hnext⟩

namespace Climbs
variable {s s' s'' : Option DisputeState}

theorem trans (h : Climbs s s') (h' : Climbs s' s'') : Climbs s s'' := by
  rcases h with rfl | ⟨a, b, ha, hb, hlt⟩
  · exact h'
  · rcases h' with hsame | ⟨b', c, hb', hc, hlt'⟩
    · exact Or.inr ⟨a, b, ha, hsame.trans hb, hlt⟩
    · rw [hb, Option.some.injEq] at hb'
      subst hb'
      exact Or.inr ⟨a, c, ha, hc, Nat.lt_trans hlt hlt'⟩

theorem antisymm (h : Climbs s s') (h' : Climbs s' s) : s' = s := by
  rcases h with hsame | ⟨a, b, ha, hb, hlt⟩
  · exact hsame
  · rcases h' with hsame | ⟨b', a', hb', ha', hlt'⟩
    · exact hsame.symm
    · rw [hb, Option.some.injEq] at hb'
      rw [ha, Option.some.injEq] at ha'
      subst hb' ha'
      omega

theorem disputed {a : DisputeState} (h : Climbs s s') (ha : s = some a) (hdisputed : a ≠ .noDispute) :
    ∃ b, s' = some b ∧ b ≠ .noDispute := by
  rcases h with hsame | ⟨a', b, -, hb, hlt⟩
  · exact ⟨a, hsame.trans ha, hdisputed⟩
  · refine ⟨b, hb, ?_⟩
    rintro rfl
    exact Nat.not_lt_zero _ hlt

end Climbs

/-! ### Books -/

/-- A trade enters a dispute in a state that may follow the state of no dispute. -/
structure MediationConfig.Enters (c : MediationConfig) : Prop where
  requested : DisputeState.noDispute.canBecome c.requestedState = true
  startedByPeer : DisputeState.noDispute.canBecome c.startedByPeerState = true

theorem MediationConfig.Enters.entry? {c : MediationConfig} (h : c.Enters) {r : Request}
    {s : DisputeState} (hs : r.entry? c = some s) :
    DisputeState.noDispute.canBecome s = true := by
  unfold Request.entry? at hs
  split at hs
  next =>
    cases hs
    exact h.requested
  next =>
    cases hs
    exact h.startedByPeer
  next => cases hs

namespace Book

/-- The dispute state of the trade with an id, live or closed. -/
def stateOf? (b : Book) (id : TradeId) : Option DisputeState :=
  (b.findTrade? id).map Trade.disputeState

theorem stateOf?_eq (b : Book) (id : TradeId) :
    b.stateOf? id = ((b.live.get? id).map Trade.disputeState).or
      ((b.closed.get? id).map Trade.disputeState) := by
  rw [stateOf?, findTrade?, Option.map_or]

theorem stateOf?_congr {b b' : Book} {id : TradeId} (hlive : b'.live.get? id = b.live.get? id)
    (hclosed : b'.closed.get? id = b.closed.get? id) : b'.stateOf? id = b.stateOf? id := by
  rw [stateOf?_eq, stateOf?_eq, hlive, hclosed]

theorem stateOf?_of_live {b : Book} {id : TradeId} {t : Trade} (h : b.live.get? id = some t) :
    b.stateOf? id = some t.disputeState := by
  rw [stateOf?_eq, h, Option.map_some, Option.some_or]

/-- Live trades with an id are changed, each along the states. -/
theorem advances_of_live {b b' : Book} {id : TradeId} {f : Trade → Trade}
    (hlive : ∀ j, b'.live.get? j = if j = id then (b.live.get? j).map f else b.live.get? j)
    (hclosed : b'.closed = b.closed)
    (hf : ∀ t, (f t).disputeState = t.disputeState ∨
      t.disputeState.canBecome (f t).disputeState = true) (j : TradeId) :
    Advances (b.stateOf? j) (b'.stateOf? j) := by
  have hj := hlive j
  cases ht : b.live.get? j with
  | none =>
    rw [ht, Option.map_none, ite_self, ← ht] at hj
    exact Or.inl (stateOf?_congr hj (by rw [hclosed]))
  | some t =>
    rw [ht, Option.map_some] at hj
    split at hj
    · rw [stateOf?_of_live ht, stateOf?_of_live hj]
      rcases hf t with hsame | hnext
      · exact Or.inl (by rw [hsame])
      · exact Or.inr ⟨_, _, rfl, rfl, hnext⟩
    · rw [stateOf?_of_live ht, stateOf?_of_live hj]
      exact Or.inl rfl

theorem stateOf?_update (b : Book) (id : TradeId) {f : Trade → Trade}
    (hf : ∀ t, (f t).disputeState = t.disputeState) (j : TradeId) :
    (b.update id f).stateOf? j = b.stateOf? j := by
  have hstate : Trade.disputeState ∘ f = Trade.disputeState := funext hf
  have hclosed : (b.update id f).closed = b.closed := rfl
  rw [stateOf?_eq, stateOf?_eq, update_live, hclosed]
  split
  · rw [Option.map_map, hstate]
  · rfl

theorem stateOf?_setPayoutTx (r : Registry) (id : TradeId) (tx : PayoutTx) (j : TradeId) :
    (r.setPayoutTx id tx).book.stateOf? j = r.book.stateOf? j := by
  have hphase := stateOf?_update (r.book.setPayoutTx id tx) id
    (f := fun t => { t with phase := .payoutPublished }) (fun _ => rfl) j
  have htx := stateOf?_update r.book id (f := fun t => { t with payoutTx := some tx })
    (fun _ => rfl) j
  exact hphase.trans htx

end Book

theorem Trade.enterDispute_advances (t : Trade) {s : DisputeState}
    (hs : DisputeState.noDispute.canBecome s = true) :
    (t.enterDispute s).disputeState = t.disputeState ∨
      t.disputeState.canBecome (t.enterDispute s).disputeState = true := by
  unfold enterDispute
  split
  next hstate =>
    rw [hstate]
    exact Or.inr hs
  next => exact Or.inl rfl

theorem Trade.applyResult_advances (t : Trade) (buyer seller : Coin) :
    (t.applyResult buyer seller).disputeState = t.disputeState ∨
      t.disputeState.canBecome (t.applyResult buyer seller).disputeState = true := by
  unfold applyResult
  split
  next hopen =>
    right
    change t.disputeState.canBecome .mediationClosed = true
    cases hstate : t.disputeState <;> rw [hstate] at hopen <;> revert hopen <;> decide
  next => exact Or.inl rfl

/-! ### Requests -/

namespace Engine
open Book

/-- A trade that is closed is at the end of its mediation, or was one step before it. -/
theorem closePaidTrade?_settles {e e' : Engine} {id : TradeId}
    (h : e.closePaidTrade? id = some e') (j : TradeId) :
    Settles (e.registry.book.stateOf? j) (e'.registry.book.stateOf? j) := by
  obtain ⟨t, ht, hclosed, -, hstate, rfl⟩ := closePaidTrade?_some h
  by_cases hj : j = id
  · subst hj
    have hafter : stateOf? (e.registry.withBook { e.registry.book with
        live := e.registry.book.live.erase j
        closed := e.registry.book.closed.insert j
          { t with disputeState := .mediationClosed } }).book j = some .mediationClosed := by
      simp only [stateOf?_eq, Registry.withBook, Table.get?_erase_self, Table.get?_insert_self,
        Option.map_none, Option.map_some, Option.none_or]
    rw [stateOf?_of_live ht, hafter]
    rcases hstate with hsame | hnext
    · exact Or.inl (by rw [hsame])
    · exact Or.inr ⟨_, rfl, rfl, hnext⟩
  · exact Or.inl (stateOf?_congr (Table.get?_erase_of_ne _ hj) (Table.get?_insert_of_ne _ _ hj))

theorem closePaidTrades_settles (ids : List TradeId) (e : Engine) (j : TradeId) :
    Settles (e.registry.book.stateOf? j) ((e.closePaidTrades ids).1.registry.book.stateOf? j) := by
  induction ids generalizing e with
  | nil => exact Or.inl rfl
  | cons id ids ih =>
    unfold closePaidTrades
    split
    next => exact ih e
    next e' h => exact (closePaidTrade?_settles h j).trans (ih e')

theorem cleanup_settles (e : Engine) (j : TradeId) :
    Settles (e.registry.book.stateOf? j) (e.cleanup.1.registry.book.stateOf? j) := by
  have h := closePaidTrades_settles e.disputes.disputes.keys e j
  simp only [cleanup]
  split
  · exact h
  · exact h

theorem receiveOutcome_settles (e : Engine) (o : PayoutOutcome) (j : TradeId) :
    Settles (e.registry.book.stateOf? j) ((e.receiveOutcome o).registry.book.stateOf? j) := by
  unfold receiveOutcome
  split
  next => exact Or.inl rfl
  next p hp =>
    dsimp only
    split
    next => exact Or.inl rfl
    next =>
      cases hclose : closePaidTrade?
          { e with acceptances := e.acceptances.erase o.ticket } p.tradeId with
      | none => exact Or.inl rfl
      | some e' => exact closePaidTrade?_settles hclose j

theorem accept_stateOf? {e e' : Engine} {id : TradeId} {caller ticket : Nat}
    (h : e.accept id caller = .ok (e', ticket)) (j : TradeId) :
    e'.registry.book.stateOf? j = e.registry.book.stateOf? j := by
  obtain ⟨d, r, t, step, -, -, -, -, rfl⟩ := accept_ok h
  have haccepting : (e.accepting id caller r).registry.book.stateOf? j =
      e.registry.book.stateOf? j :=
    stateOf?_update e.registry.book id (f := fun t => acceptedTrade t r) (fun _ => rfl) j
  rcases askPayout_registry (e.accepting id caller r) step (acceptedTrade t r) ⟨ticket, id⟩
    with hsame | hpaid
  · rw [hsame, haccepting]
  · rw [hpaid, stateOf?_setPayoutTx, haccepting]

theorem change_stateOf? (e : Engine) (id : TradeId) (u : TradeUpdate) (j : TradeId) :
    (e.change id u).1.registry.book.stateOf? j = e.registry.book.stateOf? j := by
  unfold change
  split
  next =>
    cases u with
    | phase phase =>
      exact stateOf?_update _ id (f := fun t => { t with phase := phase }) (fun _ => rfl) j
    | payoutTx txid => exact stateOf?_setPayoutTx e.registry id ⟨txid⟩ j
    | peerSignature signature =>
      exact stateOf?_update _ id (f := fun t => t.setPeerSignature signature) (fun _ => rfl) j
  next => rfl

theorem reject_stateOf? (e : Engine) (id j : TradeId) :
    ((e.updateTrade id fun t => { t with verdict := .rejected }).storeTrades).registry.book.stateOf?
      j = e.registry.book.stateOf? j :=
  stateOf?_update _ id (f := fun t => { t with verdict := .rejected }) (fun _ => rfl) j

theorem Served.advances {e e' : Engine} {r : Request} (h : Served e r e')
    (hentry : e.config.Enters) (j : TradeId) :
    Advances (e.registry.book.stateOf? j) (e'.registry.book.stateOf? j) := by
  cases h with
  | idle acks => exact Or.inl rfl
  | opened stamp d acks hr hnew =>
    dsimp only
    rw [addDispute_book]
    split
    next => exact Or.inl rfl
    next s hs =>
      exact advances_of_live (fun i => update_live _ _ i _) rfl
        (fun t => t.enterDispute_advances (hentry.entry? hs)) j
  | said m acks hr hstored => exact Or.inl rfl
  | missed m a hr hclosing hmissing =>
    rw [missDispute_eq]
    exact Or.inl rfl
  | ruled m a closing acks hr htakes hclosing hstored =>
    dsimp only
    rw [ruling_book]
    exact advances_of_live (fun i => applyResult_live _ _ i _ _) (applyResult_closed _ _ _ _)
      (fun t => t.applyResult_advances _ _) j
  | answered o p hr hp => exact (receiveOutcome_settles e o j).advances
  | accepted id caller ticket e' hr hok => exact Or.inl (accept_stateOf? hok j)
  | rejected id hr => exact Or.inl (reject_stateOf? e id j)
  | swept hr => exact (cleanup_settles e j).advances
  | changed id u hr => exact Or.inl (change_stateOf? e id u j)

end Engine

/-! ### Runs -/

namespace World

def disputeState? (w : World) (id : TradeId) : Option DisputeState :=
  w.engine.registry.book.stateOf? id

theorem perform_advances {w : World} (h : w.engine.config.Enters) (o : Operation) (id : TradeId) :
    Advances (w.disputeState? id) ((w.perform o).disputeState? id) := by
  rcases w.perform_engine o with ⟨r, hserved⟩ | hsame
  · exact hserved.advances h id
  · rw [disputeState?, disputeState?, hsame]
    exact Or.inl rfl

theorem operate_climbs {w : World} (h : w.engine.config.Enters) (os : List Operation)
    (id : TradeId) : Climbs (w.disputeState? id) ((w.operate os).disputeState? id) := by
  induction os generalizing w with
  | nil => exact Or.inl rfl
  | cons o os ih =>
    have hnext : (w.perform o).engine.config.Enters := by
      rw [perform_config]
      exact h
    exact (perform_advances h o id).climbs.trans (ih hnext)

/-- Each operation takes the dispute state of a trade one step along the states, or leaves it
as it is. A state that was left is not entered again, and a disputed trade stays disputed. -/
theorem operate_dispute_state {w : World} (h : w.engine.config.Enters) (id : TradeId)
    (os : List Operation) :
    (∀ o, Advances ((w.operate os).disputeState? id) ((w.operate (os ++ [o])).disputeState? id)) ∧
    (∀ ps qs, (w.operate (os ++ (ps ++ qs))).disputeState? id = (w.operate os).disputeState? id →
      (w.operate (os ++ ps)).disputeState? id = (w.operate os).disputeState? id) ∧
    ∀ s, (w.operate os).disputeState? id = some s → s ≠ .noDispute →
      ∀ ps, ∃ s', (w.operate (os ++ ps)).disputeState? id = some s' ∧ s' ≠ .noDispute := by
  have henters : ∀ ps, (w.operate ps).engine.config.Enters := by
    intro ps
    rw [operate_config]
    exact h
  refine ⟨?_, ?_, ?_⟩
  · intro o
    rw [operate_concat]
    exact perform_advances (henters os) o id
  · intro ps qs hback
    have hfirst := operate_climbs (henters os) ps id
    have hthen := operate_climbs (henters (os ++ ps)) qs id
    rw [← operate_append] at hfirst hthen
    rw [List.append_assoc, hback] at hthen
    exact hfirst.antisymm hthen
  · intro s hs hdisputed ps
    rw [operate_append]
    exact (operate_climbs (henters os) ps id).disputed hs hdisputed

open Sample in
/-- The state that the opening leads to is left for good when the result is applied. -/
theorem operate_dispute_state_contested :
    Advances ((start Sample.engine).disputeState? tradeId)
        (((start Sample.engine).operate
          [.act stamp (.ask (.event (.support (opening none))))]).disputeState? tradeId) ∧
      ∃ s, ((start Sample.engine).operate
          ([.act stamp (.ask (.event (.support (opening none))))] ++ contested)).disputeState?
            tradeId = some s ∧ s ≠ .noDispute := by
  have henters : (start Sample.engine).engine.config.Enters := ⟨by decide, by decide⟩
  have hopened : ((start Sample.engine).operate
      [.act stamp (.ask (.event (.support (opening none))))]).disputeState? tradeId =
        some .mediationStartedByPeer := by decide +kernel
  obtain ⟨hfirst, -, -⟩ := operate_dispute_state henters tradeId []
  obtain ⟨-, -, hdisputed⟩ := operate_dispute_state henters tradeId
    [.act stamp (.ask (.event (.support (opening none))))]
  exact ⟨hfirst _, hdisputed _ hopened (by decide) contested⟩

end World

end Mediation
