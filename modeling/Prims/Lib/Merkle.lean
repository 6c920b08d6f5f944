import Mathlib.Logic.Function.Basic
import Mathlib.Data.List.Nodup
import Mathlib.Data.Nat.Log
import Mathlib.Tactic.Use

/-!
# Merkle trees with a repeated last node

A tree is built level by level: neighbours are joined, and a last node without a neighbour is
joined with itself. The digest of a node is the hash of a message that pairs the two digests
below it. The shape of the tree is not part of the digest, so a root says nothing about the
number of leaves; it binds the leaves among lists of one length, and a path to the root starts
at a leaf.

Hash functions have collisions, so each result is stated for a hash function without a collision
among the messages that were hashed.

## Main definitions

* `Collision hash messages`: two different messages among `messages` with one digest
* `nextLevel`, `reduce`, `root`: the tree over a list of digests
* `messages`: what is hashed on the way to the root
* `climb`, `path`: the digest at the end of a path, and the path of a digest of the level

## Main results

* `reduce_injective`: lists of one length with one root are equal
* `length_path`, `climb_path`: the path of a digest has one sibling for each level, and ends at the
  root
* `mem_nodes_of_climb`: a path that ends in the tree starts in it
-/

/-! ## Collisions -/

section Collision

variable {M α : Type} {hash : M → α}

/-- Two different messages of the list with one digest. -/
def Collision (hash : M → α) (messages : List M) : Prop :=
  ∃ m ∈ messages, ∃ m' ∈ messages, m ≠ m' ∧ hash m = hash m'

instance [DecidableEq M] [DecidableEq α] (hash : M → α) (messages : List M) :
    Decidable (Collision hash messages) :=
  inferInstanceAs (Decidable (∃ m ∈ messages, ∃ m' ∈ messages, m ≠ m' ∧ hash m = hash m'))

theorem Collision.mono {messages messages' : List M} (h : Collision hash messages)
    (hsub : messages ⊆ messages') : Collision hash messages' := by
  obtain ⟨m, hm, m', hm', hne, heq⟩ := h
  exact ⟨m, hsub hm, m', hsub hm', hne, heq⟩

/-- Without a collision, a digest determines its message. -/
theorem eq_of_hash_eq {messages : List M} (h : ¬ Collision hash messages) {m m' : M}
    (hm : m ∈ messages) (hm' : m' ∈ messages) (heq : hash m = hash m') : m = m' := by
  by_contra hne
  exact h ⟨m, hm, m', hm', hne, heq⟩

/-- Without a collision, the digests of a list determine the list. -/
theorem map_injective_of_not_collision {messages l l' : List M} (h : ¬ Collision hash messages)
    (hl : l ⊆ messages) (hl' : l' ⊆ messages) (heq : l.map hash = l'.map hash) : l = l' := by
  induction l generalizing l' with
  | nil =>
    cases l' with
    | nil => rfl
    | cons m' l' => cases heq
  | cons m l ih =>
    cases l' with
    | nil => cases heq
    | cons m' l' =>
      rw [List.cons_subset] at hl hl'
      obtain ⟨hhead, htail⟩ := List.cons.inj heq
      rw [eq_of_hash_eq h hl.1 hl'.1 hhead, ih hl.2 hl'.2 htail]

/-- A table of digests without repetition shows that there is no collision. -/
theorem not_collision_of_table {messages : List M} (table : List (M × α))
    (htable : ∀ entry ∈ table, hash entry.1 = entry.2) (hnodup : (table.map Prod.snd).Nodup)
    (hsub : messages ⊆ table.map Prod.fst) : ¬ Collision hash messages := by
  rintro ⟨m, hm, m', hm', hne, heq⟩
  obtain ⟨entry, hentry, rfl⟩ := List.mem_map.mp (hsub hm)
  obtain ⟨entry', hentry', rfl⟩ := List.mem_map.mp (hsub hm')
  rw [htable entry hentry, htable entry' hentry'] at heq
  exact hne (congrArg Prod.fst (List.inj_on_of_nodup_map hnodup hentry hentry' heq))

end Collision

namespace Merkle

variable {M α : Type} (hash : M → α) (pair : α → α → M)

/-! ## Levels -/

/-- The messages of one level: neighbours are paired, a last odd digest with itself. -/
def pairs : List α → List M
  | [] => []
  | [a] => [pair a a]
  | a :: b :: level => pair a b :: pairs level

/-- The digests of the level above. -/
def nextLevel (level : List α) : List α := (pairs pair level).map hash

/-- Build levels until at most one digest is left, at most `fuel` times. -/
def reduce : ℕ → List α → List α
  | 0, level => level
  | fuel + 1, level =>
    if 1 < level.length then reduce fuel (nextLevel hash pair level) else level

/-- The root over a list of digests; an empty tree has the root `empty`. The list has as many
digests as its tree has levels, or more, so the fuel is enough. -/
def root (empty : α) (level : List α) : α :=
  (reduce hash pair level.length level).headD empty

/-- The messages hashed on the way to the root. -/
def messages : ℕ → List α → List M
  | 0, _ => []
  | fuel + 1, level =>
    if 1 < level.length then
      pairs pair level ++ messages fuel (nextLevel hash pair level)
    else []

/-- The digests of all levels. -/
def nodes : ℕ → List α → List α
  | 0, level => level
  | fuel + 1, level =>
    if 1 < level.length then level ++ nodes fuel (nextLevel hash pair level) else level

variable {hash pair}

theorem length_pairs (level : List α) : (pairs pair level).length = (level.length + 1) / 2 := by
  fun_induction pairs pair level with
  | case1 => simp
  | case2 a => simp
  | case3 a b level ih =>
    simp only [List.length_cons, ih]
    omega

@[simp] theorem length_nextLevel (level : List α) :
    (nextLevel hash pair level).length = (level.length + 1) / 2 := by
  rw [nextLevel, List.length_map, length_pairs]

/-- With as much fuel as there are digests, one digest is left of a non-empty list. -/
theorem length_reduce {fuel : ℕ} {level : List α} (hfuel : level.length ≤ fuel)
    (hne : level ≠ []) : (reduce hash pair fuel level).length = 1 := by
  have hpos : 0 < level.length := List.length_pos_iff.mpr hne
  induction fuel generalizing level with
  | zero => omega
  | succ fuel ih =>
    rw [reduce]
    split
    · next hlen =>
      apply ih
      · rw [length_nextLevel]
        omega
      · apply List.ne_nil_of_length_pos
        rw [length_nextLevel]
        omega
      · rw [length_nextLevel]
        omega
    · omega

theorem reduce_eq_root (empty : α) {level : List α} (hne : level ≠ []) :
    reduce hash pair level.length level = [root hash pair empty level] := by
  have hlen : (reduce hash pair level.length level).length = 1 := length_reduce (Nat.le_refl _) hne
  obtain ⟨a, ha⟩ := List.length_eq_one_iff.mp hlen
  rw [root, ha]
  rfl

/-! ## Binding -/

/-- Lists of one length with the same pairs are equal. -/
theorem pairs_injective (hpair : Function.Injective2 pair) {level level' : List α}
    (hlen : level.length = level'.length) (h : pairs pair level = pairs pair level') :
    level = level' := by
  fun_induction pairs pair level generalizing level' with
  | case1 => exact (List.length_eq_zero_iff.mp hlen.symm).symm
  | case2 a =>
    obtain ⟨a', rfl⟩ := List.length_eq_one_iff.mp hlen.symm
    rw [pairs, List.cons.injEq] at h
    rw [(hpair h.1).1]
  | case3 a b level ih =>
    match level', hlen with
    | a' :: b' :: level', hlen =>
      rw [pairs, List.cons.injEq] at h
      obtain ⟨rfl, rfl⟩ := hpair h.1
      rw [ih (by simpa using hlen) h.2]

/-- **Binding at one length**: without a collision, two lists of one length with the same root are
equal. -/
theorem reduce_injective (hpair : Function.Injective2 pair) {hashed : List M}
    (hcol : ¬ Collision hash hashed) {fuel : ℕ} {level level' : List α}
    (hlen : level.length = level'.length) (hsub : messages hash pair fuel level ⊆ hashed)
    (hsub' : messages hash pair fuel level' ⊆ hashed)
    (h : reduce hash pair fuel level = reduce hash pair fuel level') : level = level' := by
  induction fuel generalizing level level' with
  | zero => exact h
  | succ fuel ih =>
    rw [messages] at hsub hsub'
    rw [reduce, reduce] at h
    by_cases hlong : 1 < level.length
    · rw [if_pos hlong] at hsub h
      rw [if_pos (hlen ▸ hlong)] at hsub' h
      rw [List.append_subset] at hsub hsub'
      -- the levels above agree, so their messages agree, so the levels themselves do
      have hnext : nextLevel hash pair level = nextLevel hash pair level' := by
        apply ih _ hsub.2 hsub'.2 h
        rw [length_nextLevel, length_nextLevel, hlen]
      exact pairs_injective hpair hlen
        (map_injective_of_not_collision hcol hsub.1 hsub'.1 hnext)
    · rwa [if_neg hlong, if_neg (hlen ▸ hlong)] at h

/-- `reduce_injective` for the roots of two lists. -/
theorem root_injective (hpair : Function.Injective2 pair) {empty : α} {level level' : List α}
    (hlen : level.length = level'.length)
    (hcol : ¬ Collision hash (messages hash pair level.length level ++
      messages hash pair level'.length level'))
    (h : root hash pair empty level = root hash pair empty level') : level = level' := by
  by_cases hne : level = []
  · subst hne
    exact (List.length_eq_zero_iff.mp hlen.symm).symm
  · have hne' : level' ≠ [] := by
      rintro rfl
      exact hne (List.length_eq_zero_iff.mp hlen)
    apply reduce_injective hpair hcol hlen (List.subset_append_left _ _)
    · rw [hlen]
      exact List.subset_append_right _ _
    -- both roots are computed with the fuel of their own list, which is the same
    · conv_rhs => rw [hlen]
      rw [reduce_eq_root empty hne, reduce_eq_root empty hne', h]

/-! ## Paths -/

variable (hash pair)

/-- The digest at the end of a path: at each step the digest so far is joined with a sibling, on
the left when the index is even. -/
def climb (digest : α) (index : ℕ) : List α → α
  | [] => digest
  | sibling :: siblings =>
    climb (if index % 2 = 0 then hash (pair digest sibling) else hash (pair sibling digest))
      (index / 2) siblings

/-- The messages hashed along a path. -/
def climbMessages (digest : α) (index : ℕ) : List α → List M
  | [] => []
  | sibling :: siblings =>
    let message := if index % 2 = 0 then pair digest sibling else pair sibling digest
    message :: climbMessages (hash message) (index / 2) siblings

/-- The neighbour of a digest in its level; a last digest without one is its own neighbour. -/
def sibling (empty : α) (level : List α) (index : ℕ) : α :=
  level.getD (if index % 2 = 0 then index + 1 else index - 1) (level.getD index empty)

/-- The siblings on the way from a digest to the root, at most `fuel` of them. -/
def path (empty : α) : ℕ → ℕ → List α → List α
  | 0, _, _ => []
  | fuel + 1, index, level =>
    if 1 < level.length then
      sibling empty level index :: path empty fuel (index / 2) (nextLevel hash pair level)
    else []

variable {hash pair}

theorem climb_cons (digest : α) (index : ℕ) (sibling : α) (siblings : List α) :
    climb hash pair digest index (sibling :: siblings) =
      climb hash pair
        (hash (if index % 2 = 0 then pair digest sibling else pair sibling digest))
        (index / 2) siblings := by
  rw [climb]
  split <;> rfl

/-- **A path has one sibling for each level** below the root, when there is fuel for every
level. -/
theorem length_path (empty : α) {fuel index : ℕ} {level : List α} (hfuel : level.length ≤ fuel) :
    (path hash pair empty fuel index level).length = Nat.clog 2 level.length := by
  induction fuel generalizing index level with
  | zero =>
    rw [Nat.le_zero.mp hfuel]
    rfl
  | succ fuel ih =>
    rw [path]
    by_cases hlong : 1 < level.length
    · have hnext : (nextLevel hash pair level).length ≤ fuel := by
        rw [length_nextLevel]
        omega
      rw [if_pos hlong, List.length_cons, ih hnext, length_nextLevel,
        Nat.clog_of_two_le (by decide) hlong]
      rfl
    · rw [if_neg hlong, Nat.clog_of_right_le_one (not_lt.mp hlong), List.length_nil]

theorem sibling_cons_cons (empty a b : α) (level : List α) (index : ℕ) :
    sibling empty (a :: b :: level) (index + 2) = sibling empty level index := by
  unfold sibling
  by_cases hparity : index % 2 = 0
  · rw [if_pos (by omega), if_pos hparity]
    rfl
  · have hindex : index + 2 - 1 = index - 1 + 2 := by omega
    rw [if_neg (by omega), if_neg hparity, hindex]
    rfl

/-- The pair above a digest joins it with its sibling. -/
theorem getElem?_pairs (empty : α) {level : List α} {index : ℕ} (h : index < level.length) :
    (pairs pair level)[index / 2]? =
      some (if index % 2 = 0 then pair (level.getD index empty) (sibling empty level index)
        else pair (sibling empty level index) (level.getD index empty)) := by
  fun_induction pairs pair level generalizing index with
  | case1 => cases h
  | case2 a =>
    obtain rfl : index = 0 := by simpa using h
    rfl
  | case3 a b level ih =>
    match index with
    | 0 => rfl
    | 1 => rfl
    | index + 2 =>
      have hindex : index < level.length := by simpa using h
      rw [Nat.add_div_right _ (by decide), Nat.add_mod_right, sibling_cons_cons,
        List.getElem?_cons_succ, ih hindex]
      rfl

/-- **The path of a digest climbs to the root**, when there is fuel for every level. -/
theorem climb_path (empty : α) {fuel index : ℕ} {level : List α} (hfuel : level.length ≤ fuel)
    (h : index < level.length) :
    climb hash pair (level.getD index empty) index (path hash pair empty fuel index level) =
      (reduce hash pair fuel level).headD empty := by
  induction fuel generalizing index level with
  | zero => omega
  | succ fuel ih =>
    rw [path, reduce]
    by_cases hlong : 1 < level.length
    · rw [if_pos hlong, if_pos hlong, climb_cons]
      have hnext : (nextLevel hash pair level).length ≤ fuel := by
        rw [length_nextLevel]
        omega
      have hindex : index / 2 < (nextLevel hash pair level).length := by
        rw [length_nextLevel]
        omega
      have habove : (nextLevel hash pair level).getD (index / 2) empty =
          hash (if index % 2 = 0 then pair (level.getD index empty) (sibling empty level index)
            else pair (sibling empty level index) (level.getD index empty)) := by
        rw [List.getD_eq_getElem?_getD, nextLevel, List.getElem?_map, getElem?_pairs empty h]
        rfl
      rw [← ih hnext hindex, habove]
    · obtain ⟨a, rfl⟩ := List.length_eq_one_iff.mp (by omega : level.length = 1)
      obtain rfl : index = 0 := by simpa using h
      rw [if_neg hlong, if_neg hlong]
      rfl

theorem reduce_subset_nodes (fuel : ℕ) (level : List α) :
    reduce hash pair fuel level ⊆ nodes hash pair fuel level := by
  induction fuel generalizing level with
  | zero => exact List.Subset.refl _
  | succ fuel ih =>
    rw [reduce, nodes]
    split
    · exact List.Subset.trans (ih _) (List.subset_append_right _ _)
    · exact List.Subset.refl _

theorem root_mem_nodes (empty : α) {level : List α} (hne : level ≠ []) :
    root hash pair empty level ∈ nodes hash pair level.length level := by
  apply reduce_subset_nodes
  rw [reduce_eq_root empty hne]
  exact List.mem_singleton_self _

theorem mem_of_mem_pairs {level : List α} {m : M} (h : m ∈ pairs pair level) :
    ∃ a ∈ level, ∃ b ∈ level, m = pair a b := by
  fun_induction pairs pair level with
  | case1 => cases h
  | case2 a =>
    obtain rfl := List.mem_singleton.mp h
    exact ⟨a, List.mem_singleton_self a, a, List.mem_singleton_self a, rfl⟩
  | case3 a b level ih =>
    rcases List.mem_cons.mp h with rfl | h
    · exact ⟨a, by simp, b, by simp, rfl⟩
    · obtain ⟨x, hx, y, hy, rfl⟩ := ih h
      exact ⟨x, by simp [hx], y, by simp [hy], rfl⟩

/-- A digest of the tree is one of the given digests, or the hash of a pair of digests of the
tree. -/
theorem mem_nodes_cases {fuel : ℕ} {level : List α} {digest : α}
    (h : digest ∈ nodes hash pair fuel level) :
    digest ∈ level ∨ ∃ a ∈ nodes hash pair fuel level, ∃ b ∈ nodes hash pair fuel level,
      pair a b ∈ messages hash pair fuel level ∧ digest = hash (pair a b) := by
  induction fuel generalizing level with
  | zero => exact .inl h
  | succ fuel ih =>
    rw [nodes] at h ⊢
    rw [messages]
    split at h
    · next hlen =>
      rw [if_pos hlen, if_pos hlen]
      rcases List.mem_append.mp h with h | h
      · exact .inl h
      · right
        rcases ih h with h | ⟨a, ha, b, hb, hm, rfl⟩
        · obtain ⟨m, hm, rfl⟩ := List.mem_map.mp h
          obtain ⟨a, ha, b, hb, rfl⟩ := mem_of_mem_pairs hm
          exact ⟨a, List.mem_append_left _ ha, b, List.mem_append_left _ hb,
            List.mem_append_left _ hm, rfl⟩
        · exact ⟨a, List.mem_append_right _ ha, b, List.mem_append_right _ hb,
            List.mem_append_right _ hm, rfl⟩
    · exact .inl h

/-- **A path that ends in the tree starts in it**: without a collision, and when no digest of the
bottom level is the hash of a pair, every path to a digest of the tree starts at one. -/
theorem mem_nodes_of_climb (hpair : Function.Injective2 pair) {hashed : List M}
    (hcol : ¬ Collision hash hashed) {fuel : ℕ} {level : List α}
    (hsub : messages hash pair fuel level ⊆ hashed)
    (hbottom : ∀ a b, pair a b ∈ hashed → hash (pair a b) ∉ level)
    {digest : α} {index : ℕ} {siblings : List α}
    (hpath : climbMessages hash pair digest index siblings ⊆ hashed)
    (h : climb hash pair digest index siblings ∈ nodes hash pair fuel level) :
    digest ∈ nodes hash pair fuel level := by
  induction siblings generalizing digest index with
  | nil => exact h
  | cons sibling siblings ih =>
    rw [climb_cons] at h
    rw [climbMessages, List.cons_subset] at hpath
    have hnode := ih hpath.2 h
    have hmem := hpath.1
    have key : ∀ x y, pair x y ∈ hashed → hash (pair x y) ∈ nodes hash pair fuel level →
        x ∈ nodes hash pair fuel level ∧ y ∈ nodes hash pair fuel level := by
      intro x y hxy hn
      rcases mem_nodes_cases hn with hn | ⟨a, ha, b, hb, hm, heq⟩
      · exact absurd hn (hbottom x y hxy)
      · obtain ⟨rfl, rfl⟩ := hpair (eq_of_hash_eq hcol hxy (hsub hm) heq)
        exact ⟨ha, hb⟩
    split at hmem
    · next he =>
      rw [if_pos he] at hnode
      exact (key _ _ hmem hnode).1
    · next he =>
      rw [if_neg he] at hnode
      exact (key _ _ hmem hnode).2

end Merkle
