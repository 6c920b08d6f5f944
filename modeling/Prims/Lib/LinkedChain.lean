import Mathlib.Data.List.Forall2
import Mathlib.Data.List.Induction

/-!
# Chains of entries that name their parent

Every entry of a chain names its parent by an identifier, and it has an identifier of its own. Where
entries with one identifier are alike and name one parent, the identifier of the last entry
determines the chain up to likeness, as long as no entry has the identifier that the chain starts
from.

## Main definitions

* `Linked`: every entry names the one before it
* `tipOf`: the identifier of the last entry

## Main results

* `linked_append`: a chain goes on at its tip
* `Linked.forall₂_of_tipOf_eq`: chains with one tip are alike, entry by entry
-/

section Linked

variable {α β : Type} (parent ident : β → α)

/-- Every entry names the one before it, and the first one names `start`. -/
def Linked : α → List β → Prop
  | _, [] => True
  | start, b :: chain => parent b = start ∧ Linked (ident b) chain

/-- The identifier of the last entry, or of the start. -/
def tipOf (start : α) (chain : List β) : α := chain.foldl (fun _ b => ident b) start

variable {parent ident} {start : α}

theorem tipOf_append (chain chain' : List β) :
    tipOf ident start (chain ++ chain') = tipOf ident (tipOf ident start chain) chain' :=
  List.foldl_append

theorem tipOf_concat (chain : List β) (b : β) : tipOf ident start (chain ++ [b]) = ident b := by
  rw [tipOf_append]
  rfl

/-- A chain goes on at its tip. -/
theorem linked_append {chain chain' : List β} :
    Linked parent ident start (chain ++ chain') ↔
      Linked parent ident start chain ∧
        Linked parent ident (tipOf ident start chain) chain' := by
  induction chain generalizing start with
  | nil => exact (and_iff_right trivial).symm
  | cons b chain ih => rw [List.cons_append, Linked, Linked, ih, and_assoc]; rfl

/-- What holds of the start and of every identifier holds of every parent that is named. -/
theorem Linked.forall_parent {q : α → Prop} {chain : List β}
    (h : Linked parent ident start chain) (hstart : q start) (hident : ∀ b ∈ chain, q (ident b)) :
    ∀ b ∈ chain, q (parent b) := by
  induction chain generalizing start with
  | nil => exact fun b hb => absurd hb List.not_mem_nil
  | cons b chain ih =>
    obtain ⟨rfl, hlinked⟩ := h
    rw [List.forall_mem_cons] at hident ⊢
    exact ⟨hstart, ih hlinked hident.1 hident.2⟩

/-- **Chains with one tip are alike**, entry by entry. -/
theorem Linked.forall₂_of_tipOf_eq {r : β → β → Prop} {chain chain' : List β}
    (h : Linked parent ident start chain) (h' : Linked parent ident start chain')
    (hstart : ∀ b ∈ chain ++ chain', ident b ≠ start)
    (halike : ∀ b ∈ chain, ∀ b' ∈ chain', ident b = ident b' → r b b' ∧ parent b = parent b')
    (htip : tipOf ident start chain = tipOf ident start chain') : List.Forall₂ r chain chain' := by
  induction chain using List.reverseRecOn generalizing chain' with
  | nil =>
    rcases chain'.eq_nil_or_concat with rfl | ⟨chain', b', rfl⟩
    · exact .nil
    · rw [List.concat_eq_append, tipOf_concat] at htip
      exact absurd htip.symm (hstart b' (by simp))
  | append_singleton chain b ih =>
    rw [tipOf_concat] at htip
    rcases chain'.eq_nil_or_concat with rfl | ⟨chain', b', rfl⟩
    · exact absurd htip (hstart b (by simp))
    · rw [List.concat_eq_append] at h' hstart halike htip ⊢
      rw [tipOf_concat] at htip
      obtain ⟨hbefore, hparent, -⟩ := linked_append.mp h
      obtain ⟨hbefore', hparent', -⟩ := linked_append.mp h'
      obtain ⟨hb, hsame⟩ := halike b (by simp) b' (by simp) htip
      -- the last entries name one parent, which is the tip of both chains before them
      have htip' : tipOf ident start chain = tipOf ident start chain' :=
        hparent.symm.trans (hsame.trans hparent')
      refine List.rel_append (ih hbefore hbefore' (fun c hc => hstart c ?_)
        (fun c hc c' hc' => halike c ?_ c' ?_) htip') (.cons hb .nil)
      · rcases List.mem_append.mp hc with hc | hc <;> simp [hc]
      · exact List.mem_append_left _ hc
      · exact List.mem_append_left _ hc'

end Linked
