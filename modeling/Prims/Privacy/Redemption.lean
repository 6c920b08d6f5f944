import Prims.Privacy.Conversion

/-!
# Redemption of a deposit

The owner of the spending key for which a note was made withdraws it with the proof that the tree
of notes makes for it. The withdrawal undoes the deposit: the account and the root of the tree are
what they were before.

## Main results

* `deposit_redeemed`: a deposit followed by its withdrawal
-/

namespace Prims

section Redemption

variable {P : Primitives}

/-- What was taken from a balance can be added to it again. -/
theorem checkedAdd_sub {balance amount : UInt64} (h : amount ≤ balance) :
    (balance - amount).checkedAdd amount = some balance := by
  rw [UInt64.checkedAdd_eq_some, UInt64.toNat_sub_of_le _ _ h]
  exact (Nat.sub_add_cancel (UInt64.le_iff_toNat_le.mp h)).symm

/-- What was added at the end of a list is what leaves it, where there was none before. -/
theorem erase_concat {α : Type} [BEq α] [LawfulBEq α] {l : List α} {a : α} (h : a ∉ l) :
    (l ++ [a]).erase a = l := by
  rw [List.erase_append_right _ h, List.erase_cons_head, List.append_nil]

/-- The hint that a withdrawal leaves is the one before the deposit. -/
theorem hint_of_redemption {account : Account} {hint : Bytes}
    (hconsistent : account.anonymousState.viewingHint.isSome ↔
      account.anonymousState.noteCommitments ≠ [])
    (hhint : account.anonymousState.viewingHint = none ∨
      account.anonymousState.viewingHint = some hint) :
    (if account.anonymousState.noteCommitments = [] then none else some hint) =
      account.anonymousState.viewingHint := by
  rcases hhint with hnone | hsome
  · rw [hnone] at hconsistent ⊢
    simp_all
  · rw [hsome] at hconsistent ⊢
    simp_all

end Redemption

/-- **Redeeming undoes shielding**: let a deposit for the owner of a spending key succeed with a
commitment that neither the account tracks nor the list holds. Then the tree of the grown list makes
a proof for the place of the commitment, and the withdrawal with that proof returns the account and
the root from before the deposit. -/
theorem deposit_redeemed (P : Primitives) (account : Account) (request : PublicToAnonRequest)
    (spendingPrivateKey : Bytes32) (existing : List Bytes32) (result : PublicToAnonConversion)
    (hconsistent : account.anonymousState.viewingHint.isSome ↔
      account.anonymousState.noteCommitments ≠ [])
    (hrecipient : request.recipientPublicKey = deriveNoteRecipientPublicKey P spendingPrivateKey)
    (hdeposit : convertPublicToAnon P account request existing = .ok result)
    (huntracked : result.viewableNote.note.commitment.toList ∉
      account.anonymousState.noteCommitments)
    (hfresh : result.viewableNote.note.commitment ∉ existing) :
    let commitment := result.viewableNote.note.commitment
    ∃ proof, NoteMerkleTree.generateProof P ⟨existing ++ [commitment]⟩
        ((existing ++ [commitment]).idxOf commitment) = .ok proof ∧
      ∀ shardId, convertAnonToPublic P result.account
          ⟨request.amount, spendingPrivateKey, request.blinding, proof, shardId⟩
          (existing ++ [commitment]) =
        .ok ⟨account, commitment, NoteMerkleTree.root P ⟨existing⟩⟩ := by
  intro commitment
  obtain ⟨hbalance, hnote, hint, hhint, haccount, -⟩ := convertPublicToAnon_eq_ok hdeposit
  rw [hrecipient] at hnote
  have hmem : commitment ∈ existing ++ [commitment] := by simp
  have hindex : (existing ++ [commitment]).idxOf commitment <
      (NoteMerkleTree.leaves ⟨existing ++ [commitment]⟩).length := List.idxOf_lt_length_of_mem hmem
  have hproof := NoteMerkleTree.generateProof_of_lt (P := P) hindex
  refine ⟨_, hproof, fun shardId => convertAnonToPublic_eq_ok.mpr ?_⟩
  refine ⟨result.viewableNote.note, account.balance, hnote, List.getElem_idxOf _, ?_, ?_, hmem, ?_,
    ?_⟩
  · exact decide_eq_true (root_of_generateProof hproof)
  · rw [haccount]
    simp
  · rw [haccount]
    exact checkedAdd_sub hbalance
  · have htree : (existing ++ [commitment]).erase commitment = existing := erase_concat hfresh
    rw [htree, haccount]
    simp only [erase_concat huntracked, hint_of_redemption hconsistent hhint]
    rfl

/-- The deposit of the note of value 7. -/
def sampleDeposit : PublicToAnonRequest :=
  ⟨7, sampleNote.recipientPublicKey, .replicate 32 9, sampleNote.blinding, 0⟩

/-- The sample account deposits the note next to one of another account, and redeems it. -/
theorem sampleDeposit_redeemed : ∃ result proof,
    convertPublicToAnon noSignatures sampleAccount sampleDeposit [sampleOutputCommitment] =
        .ok result ∧
      convertAnonToPublic noSignatures result.account
          ⟨7, sampleInput.spendingPrivateKey, sampleNote.blinding, proof, none⟩
          [sampleOutputCommitment, sampleCommitment] =
        .ok ⟨sampleAccount, sampleCommitment,
          NoteMerkleTree.root noSignatures ⟨[sampleOutputCommitment]⟩⟩ := by
  have hok : (convertPublicToAnon noSignatures sampleAccount sampleDeposit
      [sampleOutputCommitment]).isOk = true := by decide +kernel
  cases hdeposit : convertPublicToAnon noSignatures sampleAccount sampleDeposit
      [sampleOutputCommitment] with
  | error e => rw [hdeposit] at hok; cases hok
  | ok result =>
    have hcommitment : result.viewableNote.note.commitment = sampleCommitment :=
      (convertPublicToAnon_ok hdeposit).2.1.trans (List.singleton_inj.mp sampleNote_commitment)
    obtain ⟨proof, -, hredeemed⟩ := deposit_redeemed noSignatures sampleAccount sampleDeposit
      sampleInput.spendingPrivateKey [sampleOutputCommitment] result (by decide)
      (congrArg NoteOpening.recipientPublicKey sampleInput_opening).symm hdeposit
      (by simp [sampleAccount]) (by rw [hcommitment]; decide)
    rw [hcommitment] at hredeemed
    exact ⟨result, proof, rfl, hredeemed none⟩

end Prims
