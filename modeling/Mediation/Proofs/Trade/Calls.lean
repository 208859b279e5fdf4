import Mediation.Proofs.Engine.Requests

/-!
# Calls of a registry

What a registry can be asked for, what it answers, and what it then tells its
listeners. A call leaves the same ids live and closed, or it adds a trade, or
it closes one; and where no update gives a trade another id, trades and offers
stay under their own ids.
-/

namespace Mediation.Registry

inductive Call where
  | addTrade (t : Trade)
  | addOffer (o : OpenOffer)
  | setPhase (id : TradeId) (phase : TradePhase)
  | setPayoutTx (id : TradeId) (tx : PayoutTx)
  | update (id : TradeId) (f : Trade → Trade)
  | closeOffer (id : TradeId)
  | closeTrade (id : TradeId) (state : DisputeState)
  | findTrade (id : TradeId)
  | findOffer (id : TradeId)
  | isClosed (id : TradeId)
  | snapshot
  | requestStore

inductive Answer where
  | trade (t : Option Trade)
  | offer (o : Option OpenOffer)
  | flag (b : Bool)
  | book (b : TradeBook)
  | done
  deriving DecidableEq

def after (r : Registry) : Call → Registry
  | .addTrade t => r.withBook (r.book.addTrade t)
  | .addOffer o => r.withBook (r.book.addOffer o)
  | .setPhase id phase => r.setPhase id phase
  | .setPayoutTx id tx => r.setPayoutTx id tx
  | .update id f => r.update id f
  | .closeOffer id => r.withBook ((r.book.closeOffer? id).getD r.book)
  | .closeTrade id state => r.withBook ((r.book.closeTrade? id state).getD r.book)
  | .requestStore => r.requestStore
  | .findTrade _ | .findOffer _ | .isClosed _ | .snapshot => r

/-- What is answered: for what is added, the entry in whose place it comes, and for an
update the trade as it is then. -/
def answer (r : Registry) : Call → Answer
  | .addTrade t => .trade (r.book.live.get? t.id)
  | .addOffer o => .offer (r.book.findOffer? o.id)
  | .setPhase id _ => .flag (r.isLive id)
  | .setPayoutTx id tx => .flag (r.isLive id && (r.withBook (r.book.setPayoutTx id tx)).isLive id)
  | .update id f => .trade ((r.book.live.get? id).map f)
  | .closeOffer id => .flag (r.book.closeOffer? id).isSome
  | .closeTrade id state => .flag (r.book.closeTrade? id state).isSome
  | .findTrade id => .trade (r.book.findTrade? id)
  | .findOffer id => .offer (r.book.findOffer? id)
  | .isClosed id => .flag (r.book.isClosed id)
  | .snapshot => .book r.book.snapshot
  | .requestStore => .done

/-- The phase changes of which listeners are told because of a call. -/
def told (r : Registry) : Call → List PhaseChange
  | .setPhase id phase => (r.book.phaseChange? id phase).toList
  | .setPayoutTx id tx => ((r.book.setPayoutTx id tx).phaseChange? id .payoutPublished).toList
  | _ => []

def run (r : Registry) (cs : List Call) : Registry := cs.foldl after r

/-- The calls of a run, each with the registry at that moment. -/
def trace : Registry → List Call → List (Registry × Call)
  | _, [] => []
  | r, c :: cs => (r, c) :: trace (r.after c) cs

def answers (r : Registry) (cs : List Call) : List Answer :=
  (r.trace cs).map fun x => x.1.answer x.2

def notices (r : Registry) (cs : List Call) : List PhaseChange :=
  (r.trace cs).flatMap fun x => x.1.told x.2

theorem changes_after (r : Registry) (c : Call) : (r.after c).changes = r.changes ++ r.told c := by
  cases c with
  | setPhase id phase => rfl
  | setPayoutTx id tx => rfl
  | _ => exact (List.append_nil _).symm

theorem changes_run (r : Registry) (cs : List Call) :
    (r.run cs).changes = r.changes ++ r.notices cs := by
  induction cs generalizing r with
  | nil => exact (List.append_nil _).symm
  | cons c cs ih =>
    have hrest := ih (r.after c)
    rw [changes_after, List.append_assoc] at hrest
    exact hrest

/-! ### What a call changes -/

/-- A closing is refused and changes nothing, or it leads to another book. -/
theorem withBook_getD_cases (r : Registry) (closed? : Option Book) :
    (closed? = none ∧ r.withBook (closed?.getD r.book) = r) ∨
      ∃ b, closed? = some b ∧ r.withBook (closed?.getD r.book) = r.withBook b := by
  cases closed? with
  | none => exact .inl ⟨rfl, rfl⟩
  | some b => exact .inr ⟨b, rfl, rfl⟩

theorem closeOffer_cases (r : Registry) (id : TradeId) :
    (r.book.closeOffer? id = none ∧ r.after (.closeOffer id) = r) ∨
      ∃ b, r.book.closeOffer? id = some b ∧ r.after (.closeOffer id) = r.withBook b :=
  r.withBook_getD_cases (r.book.closeOffer? id)

theorem closeTrade_cases (r : Registry) (id : TradeId) (state : DisputeState) :
    (r.book.closeTrade? id state = none ∧ r.after (.closeTrade id state) = r) ∨
      ∃ b, r.book.closeTrade? id state = some b ∧
        r.after (.closeTrade id state) = r.withBook b :=
  r.withBook_getD_cases (r.book.closeTrade? id state)

/-- The same ids are live, and the same trades are closed. -/
structure Steady (b b' : Book) : Prop where
  live : ∀ id, (b'.live.get? id).isSome = (b.live.get? id).isSome
  closed : b'.closed = b.closed

theorem Steady.refl (b : Book) : Steady b b := ⟨fun _ => rfl, rfl⟩

theorem Steady.trans {b b' b'' : Book} (h : Steady b b') (h' : Steady b' b'') : Steady b b'' :=
  ⟨fun id => (h'.live id).trans (h.live id), h'.closed.trans h.closed⟩

theorem steady_update (b : Book) (id : TradeId) (f : Trade → Trade) :
    Steady b (b.update id f) := by
  refine ⟨fun j => ?_, rfl⟩
  rw [Book.update_live]
  split
  · rw [Option.isSome_map]
  · rfl

/-- A call leaves the same ids live and closed, or it adds a trade, or it closes one. -/
theorem after_cases (r : Registry) (c : Call) :
    ((∀ t, c ≠ .addTrade t) ∧ Steady r.book (r.after c).book) ∨ (∃ t, c = .addTrade t) ∨
      ∃ id state b, c = .closeTrade id state ∧ r.book.closeTrade? id state = some b ∧
        (r.after c).book = b := by
  cases c with
  | addTrade t => exact .inr (.inl ⟨t, rfl⟩)
  | addOffer o => exact .inl ⟨fun _ => nofun, fun _ => rfl, rfl⟩
  | setPhase id phase => exact .inl ⟨fun _ => nofun, steady_update r.book id _⟩
  | setPayoutTx id tx =>
    exact .inl ⟨fun _ => nofun, (steady_update r.book id _).trans (steady_update _ id _)⟩
  | update id f => exact .inl ⟨fun _ => nofun, steady_update r.book id f⟩
  | closeOffer id =>
    refine .inl ⟨fun _ => nofun, ?_⟩
    rcases r.closeOffer_cases id with ⟨-, hsame⟩ | ⟨b, hclose, hafter⟩
    · rw [hsame]
      exact .refl r.book
    · obtain ⟨o, -, -, rfl⟩ := Book.closeOffer?_some hclose
      rw [hafter]
      exact ⟨fun _ => rfl, rfl⟩
  | closeTrade id state =>
    rcases r.closeTrade_cases id state with ⟨-, hsame⟩ | ⟨b, hclose, hafter⟩
    · rw [hsame]
      exact .inl ⟨fun _ => nofun, .refl r.book⟩
    · rw [hafter]
      exact .inr (.inr ⟨id, state, b, rfl, hclose, rfl⟩)
  | _ => exact .inl ⟨fun _ => nofun, .refl r.book⟩

/-! ### Entries under their ids -/

/-- The call gives no trade another id. -/
def Call.KeepsId : Call → Prop
  | .update _ f => ∀ t, (f t).id = t.id
  | _ => True

theorem filed_after {r : Registry} (h : r.book.Filed) {c : Call} (hc : c.KeepsId) :
    (r.after c).book.Filed := by
  cases c with
  | addTrade t => exact ⟨h.live.insert rfl, h.closed, h.offers⟩
  | addOffer o => exact ⟨h.live, h.closed, h.offers.insert rfl⟩
  | setPhase id phase => exact h.update id fun _ => rfl
  | setPayoutTx id tx => exact filed_setPayoutTx h id tx
  | update id f => exact h.update id hc
  | closeOffer id =>
    rcases r.closeOffer_cases id with ⟨-, hsame⟩ | ⟨b, hclose, hafter⟩
    · rw [hsame]
      exact h
    · rw [hafter]
      exact h.closeOffer? hclose
  | closeTrade id state =>
    rcases r.closeTrade_cases id state with ⟨-, hsame⟩ | ⟨b, hclose, hafter⟩
    · rw [hsame]
      exact h
    · obtain ⟨t, hlive, -, -, rfl⟩ := Book.closeTrade?_some hclose
      have hid : ({ t with disputeState := state } : Trade).id = id := h.live id t hlive
      rw [hafter]
      exact ⟨h.live.erase id, h.closed.insert hid, h.offers⟩
  | _ => exact h

theorem filed_run {r : Registry} (h : r.book.Filed) {cs : List Call}
    (hcs : ∀ c ∈ cs, c.KeepsId) : (r.run cs).book.Filed := by
  induction cs generalizing r with
  | nil => exact h
  | cons c cs ih =>
    obtain ⟨hc, hrest⟩ := List.forall_mem_cons.mp hcs
    exact ih (filed_after h hc) hrest

/-- A registry made of stored lists, once it has been called. -/
theorem filed_run_ofTradeBook (b : TradeBook) {cs : List Call} (hcs : ∀ c ∈ cs, c.KeepsId) :
    ((ofTradeBook b).run cs).book.Filed := filed_run (Book.filed_ofTradeBook b) hcs

end Mediation.Registry
