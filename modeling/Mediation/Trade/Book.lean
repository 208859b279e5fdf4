import Mediation.Trade.Basic

/-!
# The trade book

Live trades, closed trades and open offers by id. A disputed trade that is
closed moves from the live to the closed trades; it is still found there, but
neither changed nor closed again. A `Registry` is a book that also counts the
requests to store it and keeps the phase changes its listeners are to see.
-/

namespace Mediation

structure TradeBook where
  trades : List Trade
  closedTrades : List Trade
  openOffers : List OpenOffer
  deriving DecidableEq

def TradeBook.empty : TradeBook := ⟨[], [], []⟩

/-- A change of phase: the trade after it, and the phase before. -/
structure PhaseChange where
  trade : Trade
  previous : TradePhase

structure Book where
  live : Table TradeId Trade
  closed : Table TradeId Trade
  offers : Table TradeId OpenOffer

namespace Book

def empty : Book := ⟨.empty, .empty, .empty⟩

/-- The book of stored lists; of two entries with one id the later stays. -/
def ofTradeBook (b : TradeBook) : Book where
  live := Table.ofList Trade.id b.trades
  closed := Table.ofList Trade.id b.closedTrades
  offers := Table.ofList OpenOffer.id b.openOffers

def snapshot (b : Book) : TradeBook := ⟨b.live.values, b.closed.values, b.offers.values⟩

def findTrade? (b : Book) (id : TradeId) : Option Trade :=
  (b.live.get? id).or (b.closed.get? id)

def findOffer? (b : Book) (id : TradeId) : Option OpenOffer := b.offers.get? id

def isClosed (b : Book) (id : TradeId) : Bool := b.closed.contains id

/-- Adds a live trade, in place of one with its id. -/
def addTrade (b : Book) (t : Trade) : Book := { b with live := b.live.insert t.id t }

/-- Adds an offer, in place of one with its id. -/
def addOffer (b : Book) (o : OpenOffer) : Book := { b with offers := b.offers.insert o.id o }

def update (b : Book) (id : TradeId) (f : Trade → Trade) : Book :=
  { b with live := b.live.modify id f }

/-- The phase change that setting a phase of a live trade makes; none when it
has the phase already. -/
def phaseChange? (b : Book) (id : TradeId) (phase : TradePhase) : Option PhaseChange :=
  match b.live.get? id with
  | none => none
  | some t => if t.phase = phase then none else some ⟨{ t with phase := phase }, t.phase⟩

def setPhase (b : Book) (id : TradeId) (phase : TradePhase) : Book :=
  b.update id fun t => { t with phase := phase }

def setPayoutTx (b : Book) (id : TradeId) (tx : PayoutTx) : Book :=
  b.update id fun t => { t with payoutTx := some tx }

/-- The book in which an offer is closed; none when there is no such offer or it was canceled. -/
def closeOffer? (b : Book) (id : TradeId) : Option Book :=
  match b.offers.get? id with
  | none => none
  | some o =>
    match o.close with
    | .ok o => some { b with offers := b.offers.insert id o }
    | .error _ => none

/-- The book in which a live trade has moved to the closed ones with a dispute
state; none when the id is closed already, no live trade has it, or the trade
cannot get to the state. -/
def closeTrade? (b : Book) (id : TradeId) (state : DisputeState) : Option Book :=
  if b.isClosed id then none
  else
    match b.live.get? id with
    | none => none
    | some t =>
      match t.advance state with
      | .ok t => some { b with live := b.live.erase id, closed := b.closed.insert id t }
      | .error _ => none

end Book

/-! ### Registries -/

/-- A book, the number of requests to store it that have not been taken, and
the phase changes that have not been passed on to the listeners. -/
structure Registry where
  book : Book
  requests : Nat
  changes : List PhaseChange

namespace Registry

def ofTradeBook (b : TradeBook) : Registry := ⟨.ofTradeBook b, 0, []⟩

def requestStore (r : Registry) : Registry := { r with requests := r.requests + 1 }

def withBook (r : Registry) (b : Book) : Registry := { r with book := b }

def update (r : Registry) (id : TradeId) (f : Trade → Trade) : Registry :=
  r.withBook (r.book.update id f)

def isLive (r : Registry) (id : TradeId) : Bool := r.book.live.contains id

/-- Sets the phase of a live trade; listeners see it when it changes. -/
def setPhase (r : Registry) (id : TradeId) (phase : TradePhase) : Registry where
  book := r.book.setPhase id phase
  requests := r.requests
  changes := r.changes ++ (r.book.phaseChange? id phase).toList

/-- Records the payout transaction of a live trade, which ends in `payoutPublished`. -/
def setPayoutTx (r : Registry) (id : TradeId) (tx : PayoutTx) : Registry :=
  (r.withBook (r.book.setPayoutTx id tx)).setPhase id .payoutPublished

end Registry

end Mediation
