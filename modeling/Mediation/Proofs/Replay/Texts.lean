import Mediation.Replay.Basic

/-!
# The texts of outcomes

A report has the outcome of a step as a text. An outcome that is pending, or a
release, or an error is known by its text; so are the outcomes of an acceptance
that the payout exchange was called for.
-/

namespace Mediation

theorem first_append {c : Char} {t : String} (h : t.toList[0]? = some c) (u : String) :
    (t ++ u).toList[0]? = some c := by
  rw [String.toList_append, List.getElem?_append_left (List.getElem?_eq_some_iff.mp h).1, h]

/-- No text that starts with a number is that of an error. -/
theorem count_ne_error (count : Nat) (u m : String) : toString count ++ u ≠ "error: " ++ m := by
  intro heq
  obtain ⟨c, cs, hcons⟩ := List.exists_cons_of_ne_nil (Nat.toDigits_ne_nil (n := count) (b := 10))
  have hdigit : c.isDigit = true := by
    refine Nat.isDigit_of_mem_toDigits (b := 10) (n := count) (by decide) (by decide) ?_
    rw [hcons]
    exact List.mem_cons_self
  have hcount : (toString count).toList[0]? = some c := by
    rw [Nat.toString_eq_ofList_toDigits, String.toList_ofList, hcons]
    rfl
  have herror : "error: ".toList[0]? = some 'e' := by decide
  have hfirst := first_append hcount u
  rw [heq, first_append herror m] at hfirst
  cases hfirst
  cases hdigit

theorem message_first (e : MediationError) :
    ∃ c ∈ ['d', 'n', 't'], e.message.toList[0]? = some c := by
  cases e with
  | missingChatMessage uid id =>
    have hfirst : "dispute result message ".toList[0]? = some 'd' := by decide
    exact ⟨'d', by decide, first_append (first_append (first_append (first_append hfirst _) _) _) _⟩
  | noDisputeResult id =>
    have hfirst : "no dispute result available for trade ".toList[0]? = some 'n' := by decide
    exact ⟨'n', by decide, first_append hfirst _⟩
  | tradeNotFound id =>
    have hfirst : "trade ".toList[0]? = some 't' := by decide
    exact ⟨'t', by decide, first_append (first_append hfirst _) _⟩

namespace StepOutcome
variable {o : StepOutcome}

-- an error is told by its first character, and any other outcome by its last ones

theorem eq_pending_of_text (h : o.text = "pending") : o = .pending := by
  have hlast := congrArg (fun t : String => t.toList.reverse[0]?) h
  cases o with
  | pending => rfl
  | error m =>
    have hfirst := congrArg (fun t : String => t.toList[0]?) h
    simp [text, String.toList_append] at hfirst
  | applied b => cases b <;> simp [text] at hlast
  | _ => simp [text, String.toList_append] at hlast

theorem eq_released_of_text {count : Nat} (h : o.text = toString count ++ " released") :
    ∃ c, o = .released c := by
  have hlast := congrArg (fun t : String => t.toList.reverse[0]?) h
  have hthird := congrArg (fun t : String => t.toList.reverse[2]?) h
  have hfourth := congrArg (fun t : String => t.toList.reverse[3]?) h
  cases o with
  | released c => exact ⟨c, rfl⟩
  | error m => exact absurd h.symm (count_ne_error count " released" m)
  | ok => simp [text, String.toList_append] at hlast
  | applied b => cases b <;> simp [text, String.toList_append] at hlast
  | pending => simp [text, String.toList_append] at hlast
  | fired c => simp [text, String.toList_append] at hthird
  | closed c => simp [text, String.toList_append] at hfourth

theorem eq_error_of_text {m : String} (h : o.text = "error: " ++ m) : o = .error m := by
  have hfirst := congrArg (fun t : String => t.toList[0]?) h
  cases o with
  | error m' =>
    have hlist := congrArg String.toList h
    rw [text, String.toList_append, String.toList_append] at hlist
    exact congrArg error (String.toList_injective (List.append_cancel_left hlist))
  | ok => simp [text, String.toList_append] at hfirst
  | applied b => cases b <;> simp [text, String.toList_append] at hfirst
  | pending => simp [text, String.toList_append] at hfirst
  | fired c => exact absurd h (count_ne_error c " fired" m)
  | released c => exact absurd h (count_ne_error c " released" m)
  | closed c => exact absurd h (count_ne_error c " closed" m)

end StepOutcome

/-! ### Replies -/

theorem AcceptanceReply.outcome_failed (m : String) :
    (failed m).outcome = .error (payoutFailure m) := rfl

theorem AcceptanceReply.outcome_refused (e : MediationError) :
    (refused e).outcome = .error e.message := rfl

theorem AcceptanceReply.outcome_ne_pending (reply : AcceptanceReply) :
    reply.outcome ≠ .pending := by
  cases reply <;> exact fun h => nomatch h

theorem AcceptanceReply.outcome_ne_released (reply : AcceptanceReply) (count : Nat) :
    reply.outcome ≠ .released count := by
  cases reply <;> exact fun h => nomatch h

theorem MediationError.message_ne_abandoned (e : MediationError) : e.message ≠ abandoned := by
  intro heq
  obtain ⟨c, hc, hfirst⟩ := message_first e
  have habandoned : abandoned.toList[0]? = some 'a' := by decide
  rw [heq, habandoned] at hfirst
  cases hfirst
  exact absurd hc (by decide)

theorem payoutFailure_first (m : String) : (payoutFailure m).toList[0]? = some 'm' := by
  have hfirst : "mediated payout failed: ".toList[0]? = some 'm' := by decide
  exact first_append hfirst m

theorem payoutFailure_ne_abandoned (m : String) : payoutFailure m ≠ abandoned := by
  intro heq
  have hfirst := payoutFailure_first m
  have habandoned : abandoned.toList[0]? = some 'a' := by decide
  rw [heq, habandoned] at hfirst
  cases hfirst

theorem AcceptanceReply.outcome_ne_abandoned (reply : AcceptanceReply) :
    reply.outcome ≠ .error abandoned := by
  intro heq
  cases reply with
  | paid => cases heq
  | failed m =>
    rw [outcome_failed, StepOutcome.error.injEq] at heq
    exact payoutFailure_ne_abandoned m heq
  | refused e =>
    rw [outcome_refused, StepOutcome.error.injEq] at heq
    exact e.message_ne_abandoned heq

/-- Whether the outcome of an accept step says that the payout exchange was called: it
is paid, or pending, or the payout has failed. -/
def payoutCalled (outcome : String) : Bool :=
  outcome = "ok" || outcome = "pending" ||
    "error: mediated payout failed: ".toList.isPrefixOf outcome.toList

theorem payoutCalled_refused (e : MediationError) :
    payoutCalled (AcceptanceReply.refused e).outcome.text = false := by
  have htext : (AcceptanceReply.refused e).outcome.text = "error: " ++ e.message := rfl
  have hpending : "error: " ++ e.message ≠ "pending" := fun heq =>
    (AcceptanceReply.refused e).outcome_ne_pending (StepOutcome.eq_pending_of_text heq)
  have hok : "error: " ++ e.message ≠ "ok" := fun heq => by
    cases StepOutcome.eq_error_of_text (o := .ok) heq.symm
  have hprefix : ¬"error: mediated payout failed: ".toList <+: ("error: " ++ e.message).toList := by
    intro hle
    have hsplit : "error: mediated payout failed: " = "error: " ++ "mediated payout failed: " := rfl
    rw [hsplit, String.toList_append, String.toList_append, List.prefix_append_right_inj] at hle
    obtain ⟨c, hc, hfirst⟩ := message_first e
    have hm : "mediated payout failed: ".toList[0]? = some 'm' := by decide
    obtain ⟨cs, hcs⟩ := hle
    rw [← hcs, List.getElem?_append_left (by decide), hm] at hfirst
    cases hfirst
    exact absurd hc (by decide)
  rw [htext, payoutCalled, decide_eq_false hok, decide_eq_false hpending,
    Bool.eq_false_iff.mpr fun h => hprefix (List.isPrefixOf_iff_prefix.mp h)]
  rfl

theorem payoutCalled_replied (error : Option String) :
    payoutCalled (error.elim AcceptanceReply.paid .failed).outcome.text = true := by
  cases error with
  | none => rfl
  | some m =>
    have hsplit : "error: mediated payout failed: " = "error: " ++ "mediated payout failed: " := rfl
    have htext : (AcceptanceReply.failed m).outcome.text =
        "error: mediated payout failed: " ++ m := by
      rw [hsplit, String.append_assoc]
      rfl
    have hprefix : "error: mediated payout failed: ".toList <+:
        (AcceptanceReply.failed m).outcome.text.toList :=
      ⟨m.toList, by rw [htext, String.toList_append]⟩
    rw [Option.elim_some, payoutCalled, List.isPrefixOf_iff_prefix.mpr hprefix, Bool.or_true]

end Mediation
