import Mediation.Support.Basic

/-!
# The store of disputes

Disputes by the id of their trade. A stored dispute is never replaced; it takes
chat messages, can be closed, and has a result attached. The store counts the
requests to write it out.
-/

namespace Mediation

inductive AppendOutcome where
  | appended
  | duplicate
  | noDispute
  deriving DecidableEq, Repr

structure DisputeStore where
  disputes : Table TradeId Dispute
  requests : Nat

namespace DisputeStore

def empty : DisputeStore := ⟨.empty, 0⟩

/-- The store of a list; of two disputes about one trade the later stays. -/
def ofList (ds : List Dispute) : DisputeStore := ⟨Table.ofList Dispute.tradeId ds, 0⟩

def toList (s : DisputeStore) : List Dispute := s.disputes.values

def find? (s : DisputeStore) (id : TradeId) : Option Dispute := s.disputes.get? id

def contains (s : DisputeStore) (id : TradeId) : Bool := (s.find? id).isSome

def update (s : DisputeStore) (id : TradeId) (f : Dispute → Dispute) : DisputeStore :=
  { s with disputes := s.disputes.modify id f }

/-- Stores a dispute unless there is one about its trade. -/
def add (s : DisputeStore) (d : Dispute) : DisputeStore :=
  if s.contains d.tradeId then s
  else { s with disputes := s.disputes.insert d.tradeId d }

def appendOutcome (s : DisputeStore) (m : ChatMessage) : AppendOutcome :=
  match s.find? m.tradeId with
  | none => .noDispute
  | some d => if d.hasMessage m then .duplicate else .appended

def append (s : DisputeStore) (m : ChatMessage) : DisputeStore :=
  s.update m.tradeId fun d => d.addMessage m

def close (s : DisputeStore) (id : TradeId) : DisputeStore := s.update id Dispute.close

def attach (s : DisputeStore) (r : DisputeResult) : DisputeStore :=
  s.update r.tradeId fun d => d.attach r

def requestStore (s : DisputeStore) : DisputeStore := { s with requests := s.requests + 1 }

/-! ### Lookup after each operation -/

theorem find?_add_of_ne (s : DisputeStore) (d : Dispute) {j : TradeId} (h : j ≠ d.tradeId) :
    (s.add d).find? j = s.find? j := by
  unfold add
  split
  · rfl
  · exact Table.get?_insert_of_ne s.disputes d h

theorem find?_add_self (s : DisputeStore) (d : Dispute) :
    (s.add d).find? d.tradeId = some ((s.find? d.tradeId).getD d) := by
  unfold add contains
  cases h : s.find? d.tradeId with
  | none =>
    simp only [Option.isSome_none, Bool.false_eq_true, if_false, Option.getD_none]
    exact Table.get?_insert_self s.disputes d.tradeId d
  | some e => simp [h]

@[simp] theorem find?_requestStore (s : DisputeStore) (id : TradeId) :
    s.requestStore.find? id = s.find? id := rfl

end DisputeStore

end Mediation
