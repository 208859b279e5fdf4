import Mediation.Proofs.Engine.Runs
import Mediation.Proofs.Json.Codec
import Mediation.Proofs.Timestamp
import Mediation.Replay.Json

/-!
# Formats lose nothing and admit nothing invalid

Every type of the protocol is read back from what it is written as: identifiers
and points in time from their texts, enumerations from their names, records and
tagged variants member by member. The main statement is about whole texts of
disputes, trade books, support messages, scenarios and reports
(`json_texts_round_trip`).
-/

namespace Mediation

/-! ### Texts of message ids -/

namespace MessageUid

theorem ofHyphenated?_append {a b c d e : List Char} (ha : a.length = 8) (hb : b.length = 4)
    (hc : c.length = 4) (hd : d.length = 4) (he : e.length = 12) :
    ofHyphenated? (a ++ '-' :: b ++ '-' :: c ++ '-' :: d ++ '-' :: e) =
      ofDigits? (a ++ b ++ c ++ d ++ e) := by
  match a, ha with
  | [_, _, _, _, _, _, _, _], _ =>
  match b, hb with
  | [_, _, _, _], _ =>
  match c, hc with
  | [_, _, _, _], _ =>
  match d, hd with
  | [_, _, _, _], _ =>
  simp [ofHyphenated?, he]

theorem mem_digits_ne {w n : Nat} : ∀ c ∈ Radix.digits w n, c ≠ '\x7b' ∧ c ≠ 'u' := by
  have key : ∀ d, d < 16 → Radix.digit d ≠ '\x7b' ∧ Radix.digit d ≠ 'u' := by decide
  intro c hc
  induction w generalizing n with
  | zero => cases hc
  | succ w ih =>
    rcases List.mem_append.mp hc with hc | hc
    · exact ih hc
    · rw [List.mem_singleton.mp hc]
      exact key _ (Nat.mod_lt _ (by decide))

theorem ofString?_text (u : MessageUid) : ofString? u.text = some u := by
  have hlength : (Radix.digits 32 u.bits).length = 32 := Radix.length_digits 32 u.bits
  have hne := mem_digits_ne (w := 32) (n := u.bits)
  have hnumber := Radix.number?_digits 32 u.bits u.bits_lt
  rw [ofString?, text, String.toList_ofList, chars]
  generalize Radix.digits 32 u.bits = ds at hlength hne hnumber ⊢
  have hh := ofHyphenated?_append (a := ds.take 8) (b := (ds.drop 8).take 4)
    (c := (ds.drop 12).take 4) (d := (ds.drop 16).take 4) (e := ds.drop 20)
    (by simp [hlength]) (by simp [hlength]) (by simp [hlength]) (by simp [hlength])
    (by simp [hlength])
  have hds : ds.take 8 ++ (ds.drop 8).take 4 ++ (ds.drop 12).take 4 ++ (ds.drop 16).take 4
      ++ ds.drop 20 = ds := by
    rw [← List.take_add, ← List.take_add, ← List.take_add, List.take_append_drop]
  have hdigits : ofDigits? ds = some u := by
    simp only [ofDigits?, if_pos hlength, hnumber, Option.bind_some, dif_pos u.bits_lt]
  rw [hds, hdigits] at hh
  cases ds with
  | nil => cases hlength
  | cons c ds =>
    obtain ⟨hbrace, hu⟩ := hne c (List.mem_cons_self ..)
    unfold ofChars?
    split
    next heq => exact absurd (List.cons.inj heq).1 hbrace
    next heq => exact absurd (List.cons.inj heq).1 hu
    next =>
      rw [if_neg, hh]
      simp only [List.length_append, List.length_cons, List.length_take, List.length_drop, hlength]
      decide

end MessageUid

open Decode

section

variable {n : Nat}

/-! ### Scalars with a text -/

theorem TradeId.coded (id : TradeId) : Coded tradeId n (.string id.text) id :=
  coded_parsed (by rw [TradeId.ofString?_text]; rfl)

theorem NodeAddress.coded (a : NodeAddress) : Coded nodeAddress n (.string a.text) a :=
  coded_parsed (by rw [NodeAddress.ofString?_text]; rfl)

theorem PubKeyRing.coded (k : PubKeyRing) : Coded pubKeyRing n (.string k.fingerprint) k :=
  coded_parsed (by rw [PubKeyRing.ofString?_fingerprint]; rfl)

theorem MessageUid.coded (u : MessageUid) : Coded messageUid n (.string u.text) u :=
  coded_parsed (by rw [MessageUid.ofString?_text]; rfl)

theorem Timestamp.coded (t : Timestamp) : Coded timestamp n (.string t.text) t :=
  coded_parsed (by rw [Timestamp.ofString?_text]; rfl)

theorem Coin.coded (c : Coin) : Coded coin n (.nat c.units) c := by
  have h := coded_count (n := n) c.units_lt
  refine ⟨h.fits, fun src => ?_⟩
  have hcoin : Coin.ofNat? c.units = some c := dif_pos c.units_lt
  simp only [coin, h.reads src, Except.bind, hcoin, Option.elim]

/-! ### Enumerations -/

theorem DisputeState.coded (s : DisputeState) : Coded DisputeState.decode n (.string s.name) s :=
  coded_enumeration (by cases s <;> decide) (by decide)

theorem Verdict.coded (v : Verdict) : Coded Verdict.decode n (.string v.name) v :=
  coded_enumeration (by cases v <;> decide) (by decide)

theorem TradePhase.coded (p : TradePhase) : Coded TradePhase.decode n (.string p.name) p :=
  coded_enumeration (by cases p <;> decide) (by decide)

theorem OfferState.coded (s : OfferState) : Coded OfferState.decode n (.string s.name) s :=
  coded_enumeration (by cases s <;> decide) (by decide)

theorem SupportType.coded (t : SupportType) : Coded SupportType.decode n (.string t.name) t :=
  coded_enumeration (by cases t <;> decide) (by decide)

theorem AckSource.coded (s : AckSource) : Coded AckSource.decode n (.string s.name) s :=
  coded_enumeration (by cases s <;> decide) (by decide)

theorem PayoutStep.coded (s : PayoutStep) : Coded PayoutStep.decode n (.string s.name) s :=
  coded_enumeration (by cases s <;> decide) (by decide)

/-! ### Trade books -/

theorem Price.coded (p : Price) : Coded Price.record.decode (n + 1) p.toJson p :=
  Record.Coded.object
    (Record.coded_map Price.mk (coded_int64 p.value)
      |>.field (coded_string p.currencyCode))
    (by decide)

theorem TradeTerms.coded (t : TradeTerms) : Coded TradeTerms.record.decode (n + 2) t.toJson t :=
  Record.Coded.object
    (Record.coded_map TradeTerms.mk t.takeOfferDate.coded
      |>.field (coded_boolean t.isBuyOffer)
      |>.field (coded_boolean t.isMyOffer)
      |>.field t.amount.coded
      |>.field t.price.coded
      |>.field (coded_optional coded_int64 (fun _ => Json.noConfusion) t.volume)
      |>.field t.makerFee.coded
      |>.field (coded_boolean t.isMakerFeeInBtc)
      |>.field t.makerTxFee.coded
      |>.field t.takerFee.coded
      |>.field (coded_boolean t.isTakerFeeInBtc)
      |>.field t.tradeTxFee.coded)
    (by decide)

theorem coded_bytes (bs : List UInt8) : Coded (listOf byte) (n + 1) (.bytes bs) bs :=
  coded_list fun b _ => coded_byte b

theorem TradingPeer.coded (p : TradingPeer) :
    Coded TradingPeer.record.decode (n + 2) p.toJson p :=
  Record.Coded.object
    (Record.coded_map TradingPeer.mk p.address.coded
      |>.field p.keyRing.coded
      |>.field (coded_optional coded_bytes (fun _ => Json.noConfusion) p.payoutSignature))
    (by decide)

theorem ProcessModel.coded (m : ProcessModel) :
    Coded ProcessModel.record.decode (n + 3) m.toJson m :=
  Record.Coded.object
    (Record.coded_map ProcessModel.mk m.buyerPayout.coded
      |>.field m.sellerPayout.coded
      |>.field m.peer.coded)
    (by decide)

theorem PayoutTx.coded (t : PayoutTx) : Coded PayoutTx.record.decode (n + 1) t.toJson t :=
  Record.Coded.object (Record.coded_map PayoutTx.mk (coded_string t.txid)) (by decide)

theorem Trade.coded (t : Trade) : Coded Trade.record.decode (n + 4) t.toJson t :=
  Record.Coded.object
    (Record.coded_map Trade.mk t.id.coded
      |>.field t.terms.coded
      |>.field t.phase.coded
      |>.field t.disputeState.coded
      |>.field t.verdict.coded
      |>.field t.process.coded
      |>.field (coded_optional PayoutTx.coded (fun _ => Json.noConfusion) t.payoutTx))
    (by decide)

theorem OpenOffer.coded (o : OpenOffer) : Coded OpenOffer.record.decode (n + 1) o.toJson o :=
  Record.Coded.object
    (Record.coded_map OpenOffer.mk o.id.coded
      |>.field o.state.coded)
    (by decide)

theorem TradeBook.coded (b : TradeBook) : Coded TradeBook.record.decode (n + 6) b.toJson b :=
  Record.Coded.object
    (Record.coded_map TradeBook.mk (coded_list fun t _ => t.coded)
      |>.field (coded_list fun t _ => t.coded)
      |>.field (coded_list fun o _ => o.coded))
    (by decide)

/-! ### Disputes and support messages -/

theorem ChatMessage.coded_members (m : ChatMessage) :
    ChatMessage.record.Coded n m.members m :=
  Record.coded_map ChatMessage.mk m.uid.coded
    |>.field m.tradeId.coded
    |>.field m.supportType.coded
    |>.field (coded_boolean m.senderIsTrader)
    |>.field m.sender.coded
    |>.field (coded_string m.text)
    |>.field m.date.coded
    |>.field (coded_boolean m.isSystem)

theorem ChatMessage.coded (m : ChatMessage) :
    Coded ChatMessage.record.decode (n + 1) m.toJson m :=
  m.coded_members.object (by decide)

theorem DisputeParties.coded (p : DisputeParties) :
    Coded DisputeParties.record.decode (n + 1) p.toJson p :=
  Record.Coded.object
    (Record.coded_map DisputeParties.mk p.trader.coded
      |>.field p.agent.coded
      |>.field (coded_optional NodeAddress.coded (fun _ => Json.noConfusion) p.agentAddress)
      |>.field p.peerAddress.coded)
    (by decide)

theorem DisputeResult.coded (r : DisputeResult) :
    Coded DisputeResult.record.decode (n + 2) r.toJson r :=
  Record.Coded.object
    (Record.coded_map DisputeResult.mk r.tradeId.coded
      |>.field (coded_optional ChatMessage.coded (fun _ => Json.noConfusion) r.chatMessage)
      |>.field r.buyerPayout.coded
      |>.field r.sellerPayout.coded
      |>.field (coded_string r.summaryNotes)
      |>.field r.closeDate.coded)
    (by decide)

theorem Dispute.coded (d : Dispute) : Coded Dispute.record.decode (n + 3) d.toJson d :=
  Record.Coded.object
    (Record.coded_map Dispute.mk d.tradeId.coded
      |>.field d.supportType.coded
      |>.field (coded_boolean d.isBuyer)
      |>.field d.parties.coded
      |>.field d.openingDate.coded
      |>.field (coded_list fun m _ => m.coded)
      |>.field (coded_boolean d.isClosed)
      |>.field (coded_optional DisputeResult.coded (fun _ => Json.noConfusion) d.result))
    (by decide)

theorem DisputeMessage.coded_members (m : DisputeMessage) :
    DisputeMessage.record.Coded (n + 3) m.members m :=
  Record.coded_map DisputeMessage.mk m.uid.coded
    |>.field m.dispute.coded
    |>.field m.sender.coded

theorem ResultMessage.coded_members (m : ResultMessage) :
    ResultMessage.record.Coded (n + 2) m.members m :=
  Record.coded_map ResultMessage.mk m.uid.coded
    |>.field m.supportType.coded
    |>.field m.result.coded
    |>.field m.sender.coded

theorem SupportMessage.coded (m : SupportMessage) :
    Coded SupportMessage.tagged.decode (n + 4) m.toJson m := by
  cases m with
  | openNewDispute m =>
    exact coded_tagged (fun _ => rfl) (m.coded_members.map openNewDispute) (by decide)
  | peerOpenedDispute m =>
    exact coded_tagged (fun _ => rfl) (m.coded_members.map peerOpenedDispute) (by decide)
  | chat m => exact coded_tagged (fun _ => rfl) (m.coded_members.map chat) (by decide)
  | disputeResult m =>
    exact coded_tagged (fun _ => rfl) (m.coded_members.map disputeResult) (by decide)
  | unsupported => exact coded_tagged (fun _ => rfl) (Record.coded_pure unsupported) (by decide)

/-! ### Scenarios -/

theorem PayoutScript.coded (p : PayoutScript) : Coded PayoutScript.decode (n + 1) p.toJson p := by
  cases p with
  | succeed => exact coded_choice_unit (by decide) (.head _)
  | fail message => exact coded_choice_text (by decide) (.tail _ (.head _)) message
  | hold => exact coded_choice_unit (by decide) (.tail _ (.tail _ (.head _)))

theorem ScenarioStep.coded (s : ScenarioStep) :
    Coded ScenarioStep.tagged.decode (n + 5) s.toJson s := by
  cases s with
  | deliver message =>
    exact coded_tagged (fun _ => rfl) (Record.coded_map deliver message.coded) (by decide)
  | advance millis =>
    exact coded_tagged (fun _ => rfl) (Record.coded_map advance (coded_word64 millis)) (by decide)
  | openDispute dispute =>
    exact coded_tagged (fun _ => rfl) (Record.coded_map openDispute dispute.coded) (by decide)
  | accept id => exact coded_tagged (fun _ => rfl) (Record.coded_map accept id.coded) (by decide)
  | reject id => exact coded_tagged (fun _ => rfl) (Record.coded_map reject id.coded) (by decide)
  | releasePayout error =>
    exact coded_tagged (fun _ => rfl)
      (Record.coded_map releasePayout
        (coded_optional coded_string (fun _ => Json.noConfusion) error))
      (by decide)
  | cleanup => exact coded_tagged (fun _ => rfl) (Record.coded_pure cleanup) (by decide)
  | setPhase id phase =>
    exact coded_tagged (fun _ => rfl)
      (Record.coded_map setPhase id.coded |>.field phase.coded) (by decide)
  | setPayoutTx id txid =>
    exact coded_tagged (fun _ => rfl)
      (Record.coded_map setPayoutTx id.coded |>.field (coded_string txid)) (by decide)
  | setPeerSignature id signature =>
    exact coded_tagged (fun _ => rfl)
      (Record.coded_map setPeerSignature id.coded |>.field (coded_bytes signature)) (by decide)

theorem Scenario.coded (s : Scenario) : Coded Scenario.record.decode (n + 7) s.toJson s :=
  Record.Coded.object
    (Record.coded_map Scenario.mk s.address.coded
      |>.field (coded_list fun t _ => t.coded)
      |>.field (coded_list fun o _ => o.coded)
      |>.field (coded_list fun d _ => d.coded)
      |>.field s.payout.coded
      |>.field (coded_boolean s.publishesOnFinalize)
      |>.field (coded_optional coded_word64 (fun _ => Json.noConfusion) s.retryDelay)
      |>.field (coded_list fun s _ => s.coded))
    (by decide)

/-! ### Reports -/

theorem AckMessage.coded (a : AckMessage) : Coded AckMessage.record.decode (n + 1) a.toJson a :=
  Record.Coded.object
    (Record.coded_map AckMessage.mk a.source.coded
      |>.field a.uid.coded
      |>.field a.tradeId.coded
      |>.field a.recipient.coded
      |>.field (coded_boolean a.success)
      |>.field (coded_optional coded_string (fun _ => Json.noConfusion) a.error))
    (by decide)

theorem PayoutCall.coded (c : PayoutCall) : Coded PayoutCall.record.decode (n + 1) c.toJson c :=
  Record.Coded.object
    (Record.coded_map PayoutCall.mk c.step.coded
      |>.field c.tradeId.coded)
    (by decide)

/-- Whether the counts of a report are numbers of 64 bits. -/
structure ReplayReport.CountsFit (r : ReplayReport) : Prop where
  pendingRetries : r.pendingRetries < 2 ^ 64
  pendingAcceptances : r.pendingAcceptances < 2 ^ 64
  steps : ∀ s ∈ r.steps, s.index < 2 ^ 64

theorem StepReport.coded {s : StepReport} (h : s.index < 2 ^ 64) :
    Coded StepReport.record.decode (n + 1) s.toJson s :=
  Record.Coded.object
    (Record.coded_map StepReport.mk (coded_count h)
      |>.field (coded_string s.action)
      |>.field (coded_string s.outcome))
    (by decide)

theorem ReplayReport.coded {r : ReplayReport} (h : r.CountsFit) :
    Coded ReplayReport.record.decode (n + 7) r.toJson r :=
  Record.Coded.object
    (Record.coded_map ReplayReport.mk r.trades.coded
      |>.field (coded_list fun d _ => d.coded)
      |>.field (coded_list fun a _ => a.coded)
      |>.field (coded_list fun c _ => c.coded)
      |>.field (coded_count h.pendingRetries)
      |>.field (coded_count h.pendingAcceptances)
      |>.field (coded_list fun s hs => StepReport.coded (h.steps s hs)))
    (by decide)

theorem StepReport.yields_record : StepReport.record.Yields fun s => s.index < 2 ^ 64 := by
  refine .field (.field (.field (Record.yields_pure ?_) yields_count) (yields_any _)) (yields_any _)
  exact fun _ hindex _ _ _ _ => hindex

theorem ReplayReport.yields_record : ReplayReport.record.Yields CountsFit := by
  refine .field ?_ (yields_list StepReport.yields_record.decode)
  refine .field (.field ?_ yields_count) yields_count
  refine .field (.field (.field (.field ?_ (yields_any _)) (yields_any _)) (yields_any _))
    (yields_any _)
  refine Record.yields_pure ?_
  exact fun _ _ _ _ _ _ _ _ _ hretries _ hacceptances _ hsteps => ⟨hretries, hacceptances, hsteps⟩

end

/-! ### Whole texts -/

/-- Valid values are read back from both of their texts, and whatever text is
read, its value is valid. -/
structure JsonFormat.Lossless (α : Type) [JsonFormat α] (Valid : α → Prop) : Prop where
  compact : ∀ a : α, Valid a → ofText? (toText a) = .ok a
  indented : ∀ a : α, Valid a → ofText? (write a).renderIndented = .ok a
  valid : ∀ text (a : α), ofText? text = .ok a → Valid a
  again : ∀ text (a : α), ofText? text = .ok a →
    ofText? (toText a) = .ok a ∧ ofText? (write a).renderIndented = .ok a

theorem JsonFormat.lossless_of_coded {α : Type} [JsonFormat α] {Valid : α → Prop} {n : Nat}
    (hn : n ≤ Json.maxDepth) (hcoded : ∀ a : α, Valid a → Coded JsonFormat.read n (write a) a)
    (hyields : Decode.Yields (JsonFormat.read (α := α)) Valid) : Lossless α Valid where
  compact a ha := (hcoded a ha).decodeText_render hn
  indented a ha := (hcoded a ha).decodeText_renderIndented hn
  valid _ _ ha := hyields.decodeText ha
  again _ a ha :=
    have hvalid := hyields.decodeText ha
    ⟨(hcoded a hvalid).decodeText_render hn, (hcoded a hvalid).decodeText_renderIndented hn⟩

/-- The formats lose nothing and admit nothing invalid. Identifiers hold only
texts that their constructors take as they are, so every value of the first four
types is valid; the counts of a report have to fit 64 bits. -/
theorem json_texts_round_trip :
    (∀ id : TradeId, TradeId.ofString? id.text = .ok id)
      ∧ (∀ a : NodeAddress, NodeAddress.ofString? a.text = .ok a)
      ∧ (∀ k : PubKeyRing, PubKeyRing.ofString? k.fingerprint = .ok k)
      ∧ JsonFormat.Lossless Dispute (fun _ => True)
      ∧ JsonFormat.Lossless TradeBook (fun _ => True)
      ∧ JsonFormat.Lossless SupportMessage (fun _ => True)
      ∧ JsonFormat.Lossless Scenario (fun _ => True)
      ∧ JsonFormat.Lossless ReplayReport ReplayReport.CountsFit :=
  ⟨TradeId.ofString?_text, NodeAddress.ofString?_text, PubKeyRing.ofString?_fingerprint,
    JsonFormat.lossless_of_coded (n := 3) (by decide) (fun d _ => d.coded) (yields_any _),
    JsonFormat.lossless_of_coded (n := 6) (by decide) (fun b _ => b.coded) (yields_any _),
    JsonFormat.lossless_of_coded (n := 4) (by decide) (fun m _ => m.coded) (yields_any _),
    JsonFormat.lossless_of_coded (n := 7) (by decide) (fun s _ => s.coded) (yields_any _),
    JsonFormat.lossless_of_coded (n := 7) (by decide) (fun _ h => ReplayReport.coded h)
      ReplayReport.yields_record.decode⟩

namespace Sample

/-- A report whose dispute was opened within a leap second. -/
def leapReport : ReplayReport where
  trades := ⟨[trade], [], []⟩
  disputes := [{ dispute (some forBuyer.result) with
    openingDate := ⟨1483228799, 1500000000, by decide⟩ }]
  acks := []
  payoutCalls := [⟨.acceptAndSendSignature, tradeId⟩]
  pendingRetries := 2
  pendingAcceptances := 1
  steps := [⟨0, "accept", "pending"⟩]

end Sample

open Sample in
theorem json_texts_round_trip_leap_second :
    leapReport.CountsFit
      ∧ leapReport.disputes.map (fun d => d.openingDate.text) = ["2016-12-31T23:59:60.500Z"]
      ∧ JsonFormat.ofText? (JsonFormat.toText leapReport) = .ok leapReport := by
  have hfit : leapReport.CountsFit := by
    refine ⟨by decide, by decide, fun s hs => ?_⟩
    rw [List.mem_singleton.mp hs]
    decide
  obtain ⟨-, -, -, -, -, -, -, hreport⟩ := json_texts_round_trip
  exact ⟨hfit, by decide +kernel, hreport.compact _ hfit⟩

end Mediation
