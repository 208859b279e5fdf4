import Mediation.Proofs.Engine.Serving

/-!
# Every change is to be stored

An engine counts the requests to store its trade book and its disputes. Whatever
it serves, it takes no request back, and what it changes it requests to be
stored. Trades, offers and disputes stay under their own ids, so that they are
found again when they are read as lists.
-/

namespace Mediation

/-! ### Entries under their ids -/

/-- Every trade and every offer of a book lies under its own id. -/
structure Book.Filed (b : Book) : Prop where
  live : b.live.Keyed Trade.id
  closed : b.closed.Keyed Trade.id
  offers : b.offers.Keyed OpenOffer.id

theorem OpenOffer.close_id {o o' : OpenOffer} (h : o.close = .ok o') : o'.id = o.id := by
  cases o with
  | mk id state => cases state <;> cases h <;> rfl

namespace Book

theorem filed_ofTradeBook (b : TradeBook) : (ofTradeBook b).Filed where
  live := Table.keyed_ofList _ _
  closed := Table.keyed_ofList _ _
  offers := Table.keyed_ofList _ _

/-- A book is made again from what is written of it. -/
theorem Filed.ofTradeBook_snapshot {b : Book} (h : b.Filed) : ofTradeBook b.snapshot = b := by
  simp only [ofTradeBook, snapshot, h.live.ofList_values, h.closed.ofList_values,
    h.offers.ofList_values]

theorem Filed.update {b : Book} (h : b.Filed) (id : TradeId) {f : Trade → Trade}
    (hf : ∀ t, (f t).id = t.id) : (b.update id f).Filed where
  live := h.live.modify id hf
  closed := h.closed
  offers := h.offers

theorem Filed.closeOffer? {b b' : Book} (h : b.Filed) {id : TradeId}
    (hclose : b.closeOffer? id = some b') : b'.Filed := by
  unfold Book.closeOffer? at hclose
  split at hclose
  next => cases hclose
  next o ho =>
    split at hclose
    next o' hclosed =>
      cases hclose
      have hid : o'.id = id := (OpenOffer.close_id hclosed).trans (h.offers id o ho)
      exact ⟨h.live, h.closed, h.offers.insert hid⟩
    next => cases hclose

theorem Filed.applyResult {b : Book} (h : b.Filed) (id : TradeId) (buyer seller : Coin) :
    (b.applyResult id buyer seller).Filed := by
  unfold Book.applyResult
  split
  next =>
    cases hclose : b.closeOffer? id with
    | none => exact h
    | some b' => exact h.closeOffer? hclose
  next => exact h.update id fun t => t.applyResult_id buyer seller

end Book

theorem Registry.filed_setPayoutTx {r : Registry} (h : r.book.Filed) (id : TradeId)
    (tx : PayoutTx) : (r.setPayoutTx id tx).book.Filed := by
  have hpaid : (r.book.setPayoutTx id tx).Filed := h.update id fun _ => rfl
  show ((r.book.setPayoutTx id tx).setPhase id .payoutPublished).Filed
  exact hpaid.update id fun _ => rfl

/-- Every dispute of a store lies under the id of its trade. -/
def DisputeStore.Filed (s : DisputeStore) : Prop := s.disputes.Keyed Dispute.tradeId

namespace DisputeStore

theorem filed_ofList (ds : List Dispute) : (ofList ds).Filed := Table.keyed_ofList _ _

/-- A store is made again from what is written of it. -/
theorem Filed.ofList_toList {s : DisputeStore} (h : s.Filed) :
    (ofList s.toList).disputes = s.disputes := Table.Keyed.ofList_values h

theorem Filed.add {s : DisputeStore} (h : s.Filed) (d : Dispute) : (s.add d).Filed := by
  unfold DisputeStore.add
  split
  · exact h
  · exact Table.Keyed.insert h rfl

theorem Filed.append {s : DisputeStore} (h : s.Filed) (m : ChatMessage) : (s.append m).Filed :=
  Table.Keyed.modify h _ fun d => d.addMessage_tradeId m

theorem Filed.rule {s : DisputeStore} (h : s.Filed) (m : ResultMessage) (closing : ChatMessage) :
    (s.rule m closing).Filed := by
  have hclosed : ((s.append closing).close m.tradeId).Filed :=
    Table.Keyed.modify (h.append closing) m.tradeId fun _ => rfl
  show (((s.append closing).close m.tradeId).attach m.result).Filed
  exact Table.Keyed.modify hclosed m.result.tradeId fun _ => rfl

end DisputeStore

/-! ### Requests to store -/

/-- What became of a registry is to be stored, or it is the book as it was and
nothing was to be stored before. -/
def Registry.Marks (r r' : Registry) : Prop :=
  r'.requests = 0 → r.requests = 0 ∧ r'.book = r.book

def DisputeStore.Marks (s s' : DisputeStore) : Prop :=
  s'.requests = 0 → s.requests = 0 ∧ s'.disputes = s.disputes

theorem Registry.Marks.refl (r : Registry) : Marks r r := fun h => ⟨h, rfl⟩

theorem Registry.marks_requestStore (r r' : Registry) : Marks r r'.requestStore :=
  fun h => absurd h (Nat.succ_ne_zero _)

theorem DisputeStore.Marks.refl (s : DisputeStore) : Marks s s := fun h => ⟨h, rfl⟩

theorem DisputeStore.marks_requestStore (s s' : DisputeStore) : Marks s s'.requestStore :=
  fun h => absurd h (Nat.succ_ne_zero _)

namespace Engine

/-- Trades, offers and disputes lie under their ids. -/
structure Filed (e : Engine) : Prop where
  book : e.registry.book.Filed
  disputes : e.disputes.Filed

/-- What an engine changed of its book and its disputes is to be stored. -/
structure Marks (e e' : Engine) : Prop where
  registry : e.registry.Marks e'.registry
  disputes : e.disputes.Marks e'.disputes

/-! ### Parts of an operation -/

theorem marks_enterDispute (e : Engine) (id : TradeId) (s : DisputeState) :
    e.registry.Marks (e.enterDispute id s).registry := by
  unfold enterDispute
  split
  · exact .refl _
  · split
    · exact Registry.marks_requestStore _ _
    · exact .refl _

theorem marks_addDispute (e : Engine) (stamp : Stamp) (d : Dispute) (text : String)
    (state : Option DisputeState) : e.Marks (e.addDispute stamp d text state) where
  registry := by
    cases state with
    | none => exact .refl _
    | some s => exact marks_enterDispute _ d.tradeId s
  disputes := by
    rw [addDispute_disputes]
    exact DisputeStore.marks_requestStore _ _

theorem marks_applyToTrade (e : Engine) (id : TradeId) (buyer seller : Coin) :
    e.registry.Marks (e.applyToTrade id buyer seller).registry := by
  unfold applyToTrade
  split
  · split
    · exact .refl _
    · exact Registry.marks_requestStore _ _
  · split
    · exact .refl _
    · split
      · exact Registry.marks_requestStore _ _
      · exact .refl _

theorem marks_ruling (e : Engine) (m : ResultMessage) (closing : ChatMessage) :
    e.Marks (e.ruling m closing) where
  registry := marks_applyToTrade (e.applyToDispute m closing) _ _ _
  disputes := DisputeStore.marks_requestStore _ _

theorem marks_receiveOutcome (e : Engine) (o : PayoutOutcome) :
    e.registry.Marks (e.receiveOutcome o).registry := by
  unfold receiveOutcome
  split
  next => exact .refl _
  next pending hpending =>
    dsimp only
    split
    next => exact .refl _
    next =>
      cases closePaidTrade?
          { e with acceptances := e.acceptances.erase o.ticket } pending.tradeId with
      | none => exact .refl _
      | some e' => exact Registry.marks_requestStore _ _

theorem closePaidTrades_of_none {ids : List TradeId} {e : Engine}
    (h : (e.closePaidTrades ids).2 = 0) : (e.closePaidTrades ids).1 = e := by
  induction ids with
  | nil => rfl
  | cons id ids ih =>
    unfold closePaidTrades at h ⊢
    cases hclose : e.closePaidTrade? id with
    | none =>
      rw [hclose] at h
      exact ih h
    | some e' =>
      rw [hclose] at h
      exact absurd h (Nat.succ_ne_zero _)

theorem marks_cleanup (e : Engine) : e.registry.Marks e.cleanup.1.registry := by
  unfold cleanup
  dsimp only
  split
  next hnone =>
    rw [closePaidTrades_of_none hnone]
    exact .refl _
  next => exact Registry.marks_requestStore _ _

theorem marks_accept {e e' : Engine} {id : TradeId} {caller ticket : Nat}
    (h : e.accept id caller = .ok (e', ticket)) : e'.registry.requests ≠ 0 := by
  obtain ⟨d, r, t, step, -, -, -, -, rfl⟩ := accept_ok h
  have hasked : ((e.accepting id caller r).askPayout step (acceptedTrade t r)
      ⟨ticket, id⟩).registry.requests = e.registry.requests + 1 := by
    rcases askPayout_registry (e.accepting id caller r) step (acceptedTrade t r) ⟨ticket, id⟩
      with hsame | hpaid
    · rw [hsame]
      rfl
    · rw [hpaid]
      rfl
  rw [hasked]
  exact Nat.succ_ne_zero _

theorem filed_closePaidTrade? {e e' : Engine} (h : e.registry.book.Filed) {id : TradeId}
    (hclose : e.closePaidTrade? id = some e') : e'.registry.book.Filed := by
  obtain ⟨t, hlive, -, -, -, rfl⟩ := closePaidTrade?_some hclose
  have hid : ({ t with disputeState := .mediationClosed } : Trade).id = id := h.live id t hlive
  exact ⟨h.live.erase id, h.closed.insert hid, h.offers⟩

theorem filed_closePaidTrades {e : Engine} (h : e.registry.book.Filed) (ids : List TradeId) :
    (e.closePaidTrades ids).1.registry.book.Filed := by
  induction ids generalizing e with
  | nil => exact h
  | cons id ids ih =>
    unfold closePaidTrades
    cases hclose : e.closePaidTrade? id with
    | none => exact ih h
    | some e' => exact ih (filed_closePaidTrade? h hclose)

theorem filed_cleanup {e : Engine} (h : e.registry.book.Filed) :
    e.cleanup.1.registry.book.Filed := by
  have hclosed := filed_closePaidTrades h e.disputes.disputes.keys
  unfold cleanup
  dsimp only
  split
  · exact hclosed
  · exact hclosed

theorem filed_receiveOutcome {e : Engine} (h : e.registry.book.Filed) (o : PayoutOutcome) :
    (e.receiveOutcome o).registry.book.Filed := by
  unfold receiveOutcome
  split
  next => exact h
  next pending hpending =>
    dsimp only
    split
    next => exact h
    next =>
      have hfiled : ({ e with acceptances := e.acceptances.erase o.ticket } :
          Engine).registry.book.Filed := h
      cases hclose : closePaidTrade?
          { e with acceptances := e.acceptances.erase o.ticket } pending.tradeId with
      | none => exact h
      | some e' =>
        have hclosed := filed_closePaidTrade? hfiled hclose
        exact hclosed

theorem filed_accept {e e' : Engine} {id : TradeId} {caller ticket : Nat}
    (h : e.registry.book.Filed) (hok : e.accept id caller = .ok (e', ticket)) :
    e'.registry.book.Filed := by
  obtain ⟨d, r, t, step, -, -, -, -, rfl⟩ := accept_ok hok
  have haccepting : (e.accepting id caller r).registry.book.Filed := h.update id fun _ => rfl
  rcases askPayout_registry (e.accepting id caller r) step (acceptedTrade t r) ⟨ticket, id⟩
    with hsame | hpaid
  · rw [hsame]
    exact haccepting
  · rw [hpaid]
    exact Registry.filed_setPayoutTx haccepting _ _

theorem filed_change {e : Engine} (h : e.registry.book.Filed) (id : TradeId) (u : TradeUpdate) :
    (e.change id u).1.registry.book.Filed := by
  unfold change
  split
  · cases u with
    | phase phase => exact h.update id fun _ => rfl
    | payoutTx txid => exact Registry.filed_setPayoutTx h id _
    | peerSignature signature => exact h.update id fun _ => rfl
  · exact h

/-! ### Requests of every kind -/

theorem Served.marks {e e' : Engine} {r : Request} (h : Served e r e') : e.Marks e' := by
  cases h with
  | idle acks => exact ⟨.refl _, .refl _⟩
  | opened stamp d acks hr hnew =>
    have hadded := marks_addDispute e stamp d (r.greeting d) (r.entry? e.config)
    exact ⟨hadded.registry, hadded.disputes⟩
  | said m acks hr hstored => exact ⟨.refl _, DisputeStore.marks_requestStore _ _⟩
  | missed m a hr hclosing hmissing =>
    rw [missDispute_eq]
    exact ⟨.refl _, .refl _⟩
  | ruled m a closing acks hr htakes hclosing hstored =>
    have hruled := marks_ruling e m closing
    exact ⟨hruled.registry, hruled.disputes⟩
  | answered o p hr hp =>
    refine ⟨marks_receiveOutcome e o, ?_⟩
    rw [receiveOutcome_of_pending hp]
    exact .refl _
  | accepted id caller ticket e' hr hok =>
    refine ⟨fun hnone => absurd hnone (marks_accept hok), ?_⟩
    obtain ⟨d, res, t, step, -, -, -, -, rfl⟩ := accept_ok hok
    exact .refl _
  | rejected id hr => exact ⟨Registry.marks_requestStore _ _, .refl _⟩
  | swept hr =>
    refine ⟨marks_cleanup e, ?_⟩
    rw [cleanup_eq]
    exact .refl _
  | changed id u hr =>
    unfold change
    split
    · exact ⟨Registry.marks_requestStore _ _, .refl _⟩
    · exact ⟨.refl _, .refl _⟩

theorem Served.filed {e e' : Engine} {r : Request} (h : Served e r e') (he : e.Filed) :
    e'.Filed := by
  cases h with
  | idle acks => exact ⟨he.book, he.disputes⟩
  | opened stamp d acks hr hnew =>
    refine ⟨?_, ?_⟩
    · change (e.addDispute stamp d _ _).registry.book.Filed
      rw [addDispute_book]
      split
      · exact he.book
      · exact he.book.update d.tradeId fun t => t.enterDispute_id _
    · change (e.addDispute stamp d _ _).disputes.Filed
      rw [addDispute_disputes]
      exact (he.disputes.add d).append _
  | said m acks hr hstored => exact ⟨he.book, he.disputes.append m⟩
  | missed m a hr hclosing hmissing =>
    rw [missDispute_eq]
    exact ⟨he.book, he.disputes⟩
  | ruled m a closing acks hr htakes hclosing hstored =>
    refine ⟨?_, ?_⟩
    · change (e.ruling m closing).registry.book.Filed
      rw [ruling_book]
      exact he.book.applyResult _ _ _
    · change (e.ruling m closing).disputes.Filed
      rw [ruling_eq]
      exact he.disputes.rule m closing
  | answered o p hr hp =>
    refine ⟨filed_receiveOutcome he.book o, ?_⟩
    rw [receiveOutcome_of_pending hp]
    exact he.disputes
  | accepted id caller ticket e' hr hok =>
    refine ⟨filed_accept he.book hok, ?_⟩
    obtain ⟨d, res, t, step, -, -, -, -, rfl⟩ := accept_ok hok
    exact he.disputes
  | rejected id hr => exact ⟨he.book.update id fun _ => rfl, he.disputes⟩
  | swept hr =>
    refine ⟨filed_cleanup he.book, ?_⟩
    rw [cleanup_eq]
    exact he.disputes
  | changed id u hr =>
    refine ⟨filed_change he.book id u, ?_⟩
    rw [change_eq]
    exact he.disputes

end Engine

end Mediation
