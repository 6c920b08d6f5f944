import Prims.Blockchain.Validation
import Prims.Lib.LinkedChain

/-!
# Chains of accepted blocks

Every block of a chain is validated against the hash of the header before it. The hash of the last
header then determines all headers of the chain and, as far as the headers do, all transactions: two
chains that are accepted from one hash and end in one hash have the same headers, and their blocks
have the same transactions wherever they have as many. Heights and timestamps are not compared with
those of the parent, so the chain is all that orders the blocks.

## Main definitions

* `validateChain`: blocks that are validated one after the other
* `SameContents`: blocks with one header, and one list of transactions if they have as many

## Main results

* `validateChain_eq_ok`: an accepted chain is linked, and each of its blocks is accepted
* `accepted_chain_binds`: what the hash of the last header determines
-/

namespace Prims

open Bincode

section Chain

variable (P : Primitives)

/-- The hash that the next block has to name. -/
def headerHash (block : Block) : Bytes := (hashBlockHeader P block.header).toList

/-- The validator on blocks that come one after the other: each is validated against the hash of the
header before it. The result is the hash of the last header. -/
def validateChain (previousHash : Bytes) (blocks : List Block) :
    Except BlockValidationError Bytes :=
  blocks.foldlM (fun previousHash block => do
    validateBlock P block previousHash
    return headerHash P block) previousHash

/-- What is hashed for some blocks: their headers, and the transactions under their roots. -/
def chainMessages (blocks : List Block) : List Bytes :=
  blocks.flatMap fun block =>
    serialize block.header :: merkleMessages P block.transactions

/-- Blocks that a header hash does not tell apart. -/
structure SameContents (a b : Block) : Prop where
  header : a.header = b.header
  transactions : a.transactions.length = b.transactions.length → a.transactions = b.transactions

variable {P} {start : Bytes} {blocks blocks' : List Block}

/-- **An accepted chain** is linked, and each of its blocks is accepted on its own. -/
theorem validateChain_eq_ok {tip : Bytes} :
    validateChain P start blocks = .ok tip ↔
      Linked (fun block => block.header.previousHash) (headerHash P) start blocks ∧
        (∀ block ∈ blocks, validateBlock P block block.header.previousHash = .ok ()) ∧
        tipOf (headerHash P) start blocks = tip := by
  induction blocks generalizing start with
  | nil => simp [validateChain, Linked, tipOf, pure, Except.pure]
  | cons block blocks ih =>
    have hstep : validateChain P start (block :: blocks) =
        validateBlock P block start >>= fun _ => validateChain P (headerHash P block) blocks := by
      rw [validateChain, List.foldlM_cons, bind_assoc]
      rfl
    rw [hstep, Except.bind_eq_ok]
    simp only [ih, Linked, List.forall_mem_cons]
    constructor
    · rintro ⟨_, hblock, hlinked, hvalid, htip⟩
      obtain ⟨-, hprevious, -⟩ := validateBlock_ok.mp hblock
      exact ⟨⟨hprevious, hlinked⟩, ⟨by rwa [hprevious], hvalid⟩, htip⟩
    · rintro ⟨⟨rfl, hlinked⟩, ⟨hblock, hvalid⟩, htip⟩
      exact ⟨(), hblock, hlinked, hvalid, htip⟩

theorem fits_header_of_validateBlock {block : Block} {previousHash : Bytes}
    (h : validateBlock P block previousHash = .ok ()) : Codec.Fits block.header := by
  have hsize := (validateBlock_ok.mp h).1
  have hfits : Codec.Fits block := by
    apply Codec.fits_of_length
    have : maxBlockSizeBytes < 2 ^ 64 := by decide
    omega
  exact hfits.1

/-- Accepted blocks with one header hash have the same contents, unless there is a collision. -/
theorem sameContents_of_headerHash_eq {a b : Block}
    (ha : validateBlock P a a.header.previousHash = .ok ())
    (hb : validateBlock P b b.header.previousHash = .ok ())
    (hcol : ¬ Collision P.sha256 (chainMessages P [a, b]))
    (hhash : headerHash P a = headerHash P b) : SameContents a b := by
  have hmessages : chainMessages P [a, b] =
      serialize a.header :: (merkleMessages P a.transactions ++
        serialize b.header :: merkleMessages P b.transactions) := by
    simp [chainMessages]
  rw [hmessages] at hcol
  have hheader : a.header = b.header := by
    apply serialize_injective (fits_header_of_validateBlock ha) (fits_header_of_validateBlock hb)
    exact eq_of_hash_eq hcol (by simp) (by simp) (Subtype.ext hhash)
  refine ⟨hheader, fun hlength => ?_⟩
  have hroot : calculateMerkleRoot P a.transactions = calculateMerkleRoot P b.transactions := by
    apply Subtype.ext
    have hleft := (validateBlock_ok.mp ha).2.2.1
    have hright := (validateBlock_ok.mp hb).2.2.1
    rw [hheader] at hleft
    exact hleft.symm.trans hright
  refine calculateMerkleRoot_injective (fits_of_validateBlock ha) (fits_of_validateBlock hb)
    hlength (fun hmerkle => hcol (hmerkle.mono fun m hm => ?_)) hroot
  rcases List.mem_append.mp hm with hm | hm <;> simp [hm]

theorem chainMessages_pair_subset {a b : Block} (ha : a ∈ blocks) (hb : b ∈ blocks') :
    chainMessages P [a, b] ⊆ chainMessages P (blocks ++ blocks') := by
  intro m hm
  obtain ⟨block, hblock, hm⟩ := List.mem_flatMap.mp hm
  refine List.mem_flatMap.mpr ⟨block, ?_, hm⟩
  rcases List.mem_cons.mp hblock with rfl | hblock
  · exact List.mem_append_left _ ha
  · rw [List.mem_singleton.mp hblock]
    exact List.mem_append_right _ hb

end Chain

/-- **The hash of the last header** of an accepted chain binds the chain. Two chains that are
accepted from one hash and end in one hash have the same headers one by one, and the same
transactions in all blocks that have as many, unless there is a collision or the header of a block
has the hash that the chains start from. -/
theorem accepted_chain_binds (P : Primitives) (genesis tip : Bytes) (blocks blocks' : List Block)
    (h : validateChain P genesis blocks = .ok tip)
    (h' : validateChain P genesis blocks' = .ok tip) :
    List.Forall₂ SameContents blocks blocks' ∨
      Collision P.sha256 (chainMessages P (blocks ++ blocks')) ∨
      ∃ block ∈ blocks ++ blocks', headerHash P block = genesis := by
  obtain ⟨hlinked, hvalid, htip⟩ := validateChain_eq_ok.mp h
  obtain ⟨hlinked', hvalid', htip'⟩ := validateChain_eq_ok.mp h'
  by_cases hcol : Collision P.sha256 (chainMessages P (blocks ++ blocks'))
  · exact .inr (.inl hcol)
  · by_cases hgenesis : ∃ block ∈ blocks ++ blocks', headerHash P block = genesis
    · exact .inr (.inr hgenesis)
    · refine .inl (hlinked.forall₂_of_tipOf_eq hlinked'
        (fun block hblock hhash => hgenesis ⟨block, hblock, hhash⟩) ?_ (htip.trans htip'.symm))
      intro a ha b hb hhash
      have hpair : ¬ Collision P.sha256 (chainMessages P [a, b]) :=
        fun hpair => hcol (hpair.mono (chainMessages_pair_subset ha hb))
      have hsame := sameContents_of_headerHash_eq (hvalid a ha) (hvalid' b hb) hpair hhash
      exact ⟨hsame, congrArg BlockHeader.previousHash hsame.header⟩

/-- The two sample blocks end in one hash, though one repeats a transaction of the other. -/
theorem sample_chains_bind :
    let tip := headerHash headerSignature sampleBlock
    validateChain headerSignature (List.replicate 32 7) [sampleBlock] = .ok tip ∧
      validateChain headerSignature (List.replicate 32 7) [repeatedBlock] = .ok tip ∧
      (List.Forall₂ SameContents [sampleBlock] [repeatedBlock] ∨
        Collision headerSignature.sha256
          (chainMessages headerSignature ([sampleBlock] ++ [repeatedBlock])) ∨
        ∃ block ∈ [sampleBlock] ++ [repeatedBlock],
          headerHash headerSignature block = List.replicate 32 7) := by
  obtain ⟨hsample, hrepeated⟩ := validateBlock_sampleBlock
  have hleft : validateChain headerSignature (List.replicate 32 7) [sampleBlock] =
      .ok (headerHash headerSignature sampleBlock) :=
    validateChain_eq_ok.mpr ⟨⟨rfl, trivial⟩, List.forall_mem_singleton.mpr hsample, rfl⟩
  have hright : validateChain headerSignature (List.replicate 32 7) [repeatedBlock] =
      .ok (headerHash headerSignature sampleBlock) :=
    validateChain_eq_ok.mpr ⟨⟨rfl, trivial⟩, List.forall_mem_singleton.mpr hrepeated, rfl⟩
  exact ⟨hleft, hright, accepted_chain_binds headerSignature _ _ _ _ hleft hright⟩

end Prims
