import Mathlib.Data.List.Induction
import Prims.Lib.Merkle

/-!
# Hash chains

Every entry of a log is hashed together with the digest of the log before it, and with its number.
Where the number, the digest and the entry can be read off the message that is hashed, the digest of
a log determines the log, its length included, unless there is a collision.

## Main definitions

* `HashChain.digest`: the digest of a log
* `HashChain.messages`: what is hashed for it

## Main results

* `HashChain.digest_injective`: logs with one digest are equal
-/

namespace HashChain

variable {M α β : Type} (hash : M → α) (message : ℕ → α → β → M)

/-- The digest after some more entries, from the number of entries so far and their digest. -/
def digest : ℕ → α → List β → α
  | _, d, [] => d
  | i, d, b :: log => digest (i + 1) (hash (message i d b)) log

/-- What is hashed for these entries. -/
def messages : ℕ → α → List β → List M
  | _, _, [] => []
  | i, d, b :: log => message i d b :: messages (i + 1) (hash (message i d b)) log

variable {hash message}

theorem digest_concat (i : ℕ) (d : α) (log : List β) (b : β) :
    digest hash message i d (log ++ [b]) =
      hash (message (i + log.length) (digest hash message i d log) b) := by
  induction log generalizing i d with
  | nil => rfl
  | cons b' log ih =>
    rw [List.cons_append, digest, ih, digest, List.length_cons, Nat.add_assoc, Nat.add_comm 1]

theorem messages_concat (i : ℕ) (d : α) (log : List β) (b : β) :
    messages hash message i d (log ++ [b]) = messages hash message i d log ++
      [message (i + log.length) (digest hash message i d log) b] := by
  induction log generalizing i d with
  | nil => rfl
  | cons b' log ih =>
    rw [List.cons_append, messages, ih, messages, digest, List.length_cons, List.cons_append,
      Nat.add_assoc, Nat.add_comm 1]

/-- **The digest of a log determines the log**, unless there is a collision. The messages need to be
readable for numbers below a bound only. -/
theorem digest_injective {start : α} {bound : ℕ}
    (hread : ∀ i < bound, ∀ j < bound, ∀ d d' b b',
      message i d b = message j d' b' → i = j ∧ d = d' ∧ b = b')
    {log log' : List β} (hne : log ≠ []) (hne' : log' ≠ []) (hlength : log.length ≤ bound)
    (hlength' : log'.length ≤ bound)
    (hcol : ¬ Collision hash (messages hash message 0 start log ++
      messages hash message 0 start log'))
    (heq : digest hash message 0 start log = digest hash message 0 start log') : log = log' := by
  induction log using List.reverseRecOn generalizing log' with
  | nil => exact absurd rfl hne
  | append_singleton log b ih =>
    obtain ⟨log', b', rfl⟩ : ∃ init last, log' = init ++ [last] :=
      ⟨_, _, (List.dropLast_append_getLast hne').symm⟩
    rw [List.length_append, List.length_singleton] at hlength hlength'
    rw [messages_concat, messages_concat] at hcol
    rw [digest_concat, digest_concat, Nat.zero_add, Nat.zero_add] at heq
    have hmessage : message log.length (digest hash message 0 start log) b =
        message log'.length (digest hash message 0 start log') b' :=
      eq_of_hash_eq hcol (by simp) (by simp) heq
    obtain ⟨hnumber, hdigest, rfl⟩ := hread _ hlength _ hlength' _ _ _ _ hmessage
    rcases eq_or_ne log [] with rfl | hlog
    · rw [List.eq_nil_of_length_eq_zero hnumber.symm]
    · have hlog' : log' ≠ [] := by
        rintro rfl
        exact hlog (List.eq_nil_of_length_eq_zero hnumber)
      have hsub : ¬ Collision hash (messages hash message 0 start log ++
          messages hash message 0 start log') := by
        refine fun h => hcol (h.mono fun m hm => ?_)
        rcases List.mem_append.mp hm with hm | hm
        · exact List.mem_append_left _ (List.mem_append_left _ hm)
        · exact List.mem_append_right _ (List.mem_append_left _ hm)
      rw [ih hlog hlog' (Nat.le_of_succ_le hlength) (Nat.le_of_succ_le hlength') hsub hdigest]

end HashChain
