import Mathlib.Data.List.Infix
import Prims.Lib.Simulation

/-!
# Messages that are sent with retries

A sender sends messages one after the other. A message that is not taken is sent again as long as a
policy allows it, and the sender gives up otherwise. A policy stops to allow retries at some limit,
so the sender ends after a bounded number of replies, whatever they are. What was taken until then
are the first messages, in order and each once.

## Main definitions

* `Interaction.answer`: a program that is told some answers, with the transcript
* `RetryPolicy`: which failures are retried
* `sendWithRetries`, `sendAll`: the sender of one message, and of several
* `Sent`: what a transcript says about the messages

## Main results

* `sent_sendAll`: what a sender has sent after any replies
-/

section Answers

variable {Q A α : Type}

/-- What is left of a program after some answers, and the questions with their answers. -/
def Interaction.answer : Interaction Q A α → List A → Interaction Q A α × List (Q × A)
  | program, [] => (program, [])
  | .done a, _ :: _ => (.done a, [])
  | .ask q next, a :: answers =>
    (((next a).answer answers).1, (q, a) :: ((next a).answer answers).2)

theorem Interaction.answer_nil (program : Interaction Q A α) :
    program.answer [] = (program, []) := by
  cases program <;> rfl

theorem Interaction.answer_done (a : α) (answers : List A) :
    (Interaction.done a : Interaction Q A α).answer answers = (.done a, []) := by
  cases answers <;> rfl

end Answers

/-- **A policy** for failures: which are retried after how many attempts. It allows none from a
limit on. -/
structure RetryPolicy (ε : Type) where
  allows : ε → ℕ → Bool
  limit : ℕ
  lt_limit : ∀ {e : ε} {attempts : ℕ}, allows e attempts = true → attempts < limit

section Sending

variable {M ε : Type} (policy : RetryPolicy ε)

/-- Send a message until it is taken, or until its failure is not retried. -/
def sendWithRetries (message : M) (attempts : ℕ) : Interaction M (Except ε Unit) (Except ε Unit) :=
  .ask message fun reply => match reply with
    | .ok () => .done (.ok ())
    | .error e =>
      if h : policy.allows e attempts then sendWithRetries message (attempts + 1)
      else .done (.error e)
termination_by policy.limit - attempts
decreasing_by
  have := policy.lt_limit h
  omega

/-- Send messages one after the other. -/
def sendAll : List M → Interaction M (Except ε Unit) (Except ε Unit)
  | [] => .done (.ok ())
  | message :: messages => (sendWithRetries policy message 0).bind fun result =>
    match result with
    | .ok () => sendAll messages
    | .error e => .done (.error e)

/-- A message is on its way after some attempts, and others come after it. -/
def resume (message : M) (attempts : ℕ) (messages : List M) :
    Interaction M (Except ε Unit) (Except ε Unit) :=
  (sendWithRetries policy message attempts).bind fun result =>
    match result with
    | .ok () => sendAll policy messages
    | .error e => .done (.error e)

variable {policy}

/-- What a reply does to a message that is on its way. -/
theorem resume_eq (message : M) (attempts : ℕ) (messages : List M) :
    resume policy message attempts messages = .ask message fun reply => match reply with
      | .ok () => sendAll policy messages
      | .error e =>
        if policy.allows e attempts then resume policy message (attempts + 1) messages
        else .done (.error e) := by
  rw [resume, sendWithRetries, Interaction.bind]
  congr
  funext reply
  cases reply with
  | ok _ => rfl
  | error e =>
    by_cases hallows : policy.allows e attempts
    · simp only [hallows, dif_pos, if_pos]
      rfl
    · simp only [hallows, dif_neg, if_neg, Bool.false_eq_true, not_false_eq_true]
      rfl

/-- The messages that were taken, in order. -/
def accepted (transcript : List (M × Except ε Unit)) : List M :=
  transcript.filterMap fun entry => match entry.2 with
    | .ok () => some entry.1
    | .error _ => none

/-- **What a transcript says about the messages**: the first ones were taken, in order and each
once; all of them exactly when the sender has ended well; and the sender ends within a bound. -/
structure Sent (messages : List M) (bound : ℕ) (replies : List (Except ε Unit))
    (rest : Interaction M (Except ε Unit) (Except ε Unit))
    (transcript : List (M × Except ε Unit)) : Prop where
  inOrder : accepted transcript <+: messages
  complete : rest = .done (.ok ()) ↔ accepted transcript = messages
  bounded : transcript.length ≤ bound
  ends : bound ≤ replies.length → ∃ result, rest = .done result

theorem sent_nil (replies : List (Except ε Unit)) :
    Sent ([] : List M) 0 replies (Interaction.done (.ok ())) [] :=
  ⟨List.nil_prefix, iff_of_true rfl rfl, Nat.le_refl 0, fun _ => ⟨_, rfl⟩⟩

/-- A message is on its way. -/
theorem sent_resume (message : M) {attempts : ℕ} (hattempts : attempts ≤ policy.limit)
    (messages : List M) (replies : List (Except ε Unit)) :
    Sent (message :: messages)
      (policy.limit - attempts + 1 + (policy.limit + 1) * messages.length) replies
      ((resume policy message attempts messages).answer replies).1
      ((resume policy message attempts messages).answer replies).2 := by
  induction replies generalizing message attempts messages with
  | nil =>
    rw [Interaction.answer_nil]
    refine ⟨List.nil_prefix, iff_of_false ?_ ?_, Nat.zero_le _, fun h => ?_⟩
    · rw [resume_eq]
      rintro ⟨⟩
    · rintro ⟨⟩
    · rw [List.length_nil] at h
      omega
  | cons reply replies ih =>
    rw [resume_eq, Interaction.answer]
    cases reply with
    | ok _ =>
      cases messages with
      | nil =>
        have hdone : (sendAll policy ([] : List M)).answer replies = (.done (.ok ()), []) := by
          rw [sendAll, Interaction.answer_done]
        dsimp only
        rw [hdone]
        refine ⟨List.prefix_refl _, iff_of_true rfl rfl, ?_, fun _ => ⟨_, rfl⟩⟩
        rw [List.length_singleton]
        omega
      | cons next messages =>
        have hnext := ih next (Nat.zero_le policy.limit) messages
        show Sent _ _ _ ((resume policy next 0 messages).answer replies).1
          ((message, .ok ()) :: ((resume policy next 0 messages).answer replies).2)
        refine ⟨(List.prefix_cons_inj message).mpr hnext.inOrder, ?_, ?_, fun h => ?_⟩
        · rw [hnext.complete]
          show _ ↔ message :: accepted _ = _
          rw [List.cons.injEq, and_iff_right rfl]
        · have hbound := hnext.bounded
          rw [List.length_cons, List.length_cons, Nat.mul_succ]
          omega
        · apply hnext.ends
          rw [List.length_cons, List.length_cons, Nat.mul_succ] at h
          omega
    | error e =>
      dsimp only
      by_cases hallows : policy.allows e attempts
      · have hlt := policy.lt_limit hallows
        have hnext := ih message (show attempts + 1 ≤ policy.limit from hlt) messages
        rw [if_pos hallows]
        refine ⟨hnext.inOrder, hnext.complete, ?_, fun h => ?_⟩
        · have hbound := hnext.bounded
          rw [List.length_cons]
          omega
        · apply hnext.ends
          rw [List.length_cons] at h
          omega
      · rw [if_neg hallows, Interaction.answer_done]
        refine ⟨List.nil_prefix, iff_of_false ?_ ?_, ?_, fun _ => ⟨_, rfl⟩⟩
        · rintro ⟨⟩
        · rintro ⟨⟩
        · rw [List.length_singleton]
          omega

/-- **What a sender has sent** after any replies: the first messages, in order and each once. It
ends after at most as many replies as the limit allows for all messages. -/
theorem sent_sendAll (messages : List M) (replies : List (Except ε Unit)) :
    Sent messages ((policy.limit + 1) * messages.length) replies
      ((sendAll policy messages).answer replies).1
      ((sendAll policy messages).answer replies).2 := by
  cases messages with
  | nil =>
    rw [sendAll, Interaction.answer_done]
    exact sent_nil replies
  | cons message messages =>
    have h := sent_resume message (Nat.zero_le policy.limit) messages replies
    have hbound : policy.limit - 0 + 1 + (policy.limit + 1) * messages.length =
        (policy.limit + 1) * (message :: messages).length := by
      rw [List.length_cons, Nat.mul_succ]
      omega
    rw [hbound] at h
    exact h

end Sending
