import Mathlib.Algebra.Group.Nat.Defs
import Mathlib.Data.List.Infix
import Prims.Lib.Merkle

/-!
# What the root of a Merkle tree binds

A list of any length has a Merkle tree. When the messages of leaves and of inner nodes differ, the
digest of a tree determines the tree, whatever its shape. The list is then read from the leaves of
its tree, which are the list with the ends of its levels repeated. So the root binds a list up to
this repetition: two lists with one root have the same members, and one starts with the other.

The repetition is itself a Merkle tree, the one that joins lists where the digests are hashed.

## Main definitions

* `Tree`, `Tree.digest`, `Tree.messages`: trees, and what is hashed for them
* `treeOf`: the tree over a list
* `padded`: the list with the ends of its levels repeated

## Main results

* `root_map`: a map that respects the joining of nodes respects roots
* `Tree.digest_injective`: a digest determines its tree
* `root_eq_iff_padded_eq`: when two lists have one root
-/

namespace Merkle

/-! ## Roots under a map -/

section Map

variable {α β M N : Type} {hash : M → α} {pair : α → α → M} {hash' : N → β} {pair' : β → β → N}
  {f : α → β}

/-- The pairs of neighbours, and what is made of each. -/
theorem pairs_map_eq (f : β → α) (level : List β) :
    pairs pair (level.map f) =
      (pairs Prod.mk level).map fun entry => pair (f entry.1) (f entry.2) := by
  fun_induction pairs Prod.mk level with
  | case1 => rfl
  | case2 a => rfl
  | case3 a b level ih => simp [pairs, ih]

theorem nextLevel_map (hf : ∀ a b, f (hash (pair a b)) = hash' (pair' (f a) (f b)))
    (level : List α) :
    nextLevel hash' pair' (level.map f) = (nextLevel hash pair level).map f := by
  have hpairs : pairs pair (level.map id) =
      (pairs Prod.mk level).map fun entry => pair entry.1 entry.2 := pairs_map_eq id level
  rw [List.map_id] at hpairs
  rw [nextLevel, nextLevel, pairs_map_eq, hpairs, List.map_map, List.map_map, List.map_map]
  refine List.map_congr_left fun entry _ => ?_
  exact (hf entry.1 entry.2).symm

theorem reduce_map (hf : ∀ a b, f (hash (pair a b)) = hash' (pair' (f a) (f b))) (fuel : ℕ)
    (level : List α) :
    reduce hash' pair' fuel (level.map f) = (reduce hash pair fuel level).map f := by
  induction fuel generalizing level with
  | zero => rfl
  | succ fuel ih =>
    simp only [reduce, List.length_map]
    split
    · rw [nextLevel_map hf, ih]
    · rfl

/-- **A map that respects the joining of nodes respects roots.** -/
theorem root_map (hf : ∀ a b, f (hash (pair a b)) = hash' (pair' (f a) (f b))) (empty : α)
    (level : List α) :
    root hash' pair' (f empty) (level.map f) = f (root hash pair empty level) := by
  rw [root, root, List.length_map, reduce_map hf]
  cases reduce hash pair level.length level <;> rfl

/-- What holds of the digests of a level, and of a node when it holds of the nodes below, holds of
the root. -/
theorem root_induction {p : ℕ → α → Prop} (empty : α)
    (hpair : ∀ depth a b, p depth a → p depth b → p (depth + 1) (hash (pair a b)))
    {level : List α} (hne : level ≠ []) (hlevel : ∀ a ∈ level, p 0 a) :
    ∃ depth, p depth (root hash pair empty level) := by
  have hreduce : ∀ fuel depth (level : List α), (∀ a ∈ level, p depth a) →
      ∃ depth', ∀ a ∈ reduce hash pair fuel level, p depth' a := by
    intro fuel
    induction fuel with
    | zero => exact fun depth level h => ⟨depth, h⟩
    | succ fuel ih =>
      intro depth level h
      rw [reduce]
      split
      · refine ih (depth + 1) _ fun digest hdigest => ?_
        obtain ⟨m, hm, rfl⟩ := List.mem_map.mp hdigest
        obtain ⟨a, ha, b, hb, rfl⟩ := mem_of_mem_pairs hm
        exact hpair depth a b (h a ha) (h b hb)
      · exact ⟨depth, h⟩
  obtain ⟨depth, hdepth⟩ := hreduce level.length 0 level hlevel
  refine ⟨depth, hdepth _ ?_⟩
  rw [reduce_eq_root empty hne]
  exact List.mem_singleton_self _

end Map

/-! ## Trees -/

/-- A binary tree with its contents in the leaves. -/
inductive Tree (γ : Type) where
  | leaf (content : γ)
  | node (left right : Tree γ)
  deriving DecidableEq, Repr

namespace Tree

variable {γ : Type}

def leaves : Tree γ → List γ
  | .leaf content => [content]
  | .node left right => left.leaves ++ right.leaves

/-- All leaves are as deep as this. -/
def Perfect : ℕ → Tree γ → Prop
  | 0, .leaf _ => True
  | depth + 1, .node left right => left.Perfect depth ∧ right.Perfect depth
  | _, _ => False

theorem length_leaves {depth : ℕ} {t : Tree γ} (h : t.Perfect depth) :
    t.leaves.length = 2 ^ depth := by
  induction t generalizing depth with
  | leaf content =>
    cases depth with
    | zero => rfl
    | succ depth => exact h.elim
  | node left right ihl ihr =>
    cases depth with
    | zero => exact h.elim
    | succ depth =>
      rw [leaves, List.length_append, ihl h.1, ihr h.2, Nat.pow_succ]
      omega

/-- A tree whose leaves are equally deep is determined by its leaves. -/
theorem Perfect.eq_of_leaves_eq {depth : ℕ} {t t' : Tree γ} (h : t.Perfect depth)
    (h' : t'.Perfect depth) (heq : t.leaves = t'.leaves) : t = t' := by
  induction depth generalizing t t' with
  | zero =>
    match t, t', h, h' with
    | .leaf content, .leaf content', _, _ => exact congrArg _ (List.singleton_inj.mp heq)
  | succ depth ih =>
    match t, t', h, h' with
    | .node left right, .node left' right', h, h' =>
      have hlength : left.leaves.length = left'.leaves.length := by
        rw [length_leaves h.1, length_leaves h'.1]
      obtain ⟨hleft, hright⟩ := List.append_inj heq hlength
      rw [ih h.1 h'.1 hleft, ih h.2 h'.2 hright]

theorem Perfect.depth_eq {depth depth' : ℕ} {t t' : Tree γ} (h : t.Perfect depth)
    (h' : t'.Perfect depth') (heq : t.leaves = t'.leaves) : depth = depth' := by
  have hlength := congrArg List.length heq
  rw [length_leaves h, length_leaves h'] at hlength
  exact Nat.pow_right_injective (Nat.le_refl 2) hlength

section Digest

variable {M α : Type} (hash : M → α) (leafMessage : γ → M) (pair : α → α → M)

def digest : Tree γ → α
  | .leaf content => hash (leafMessage content)
  | .node left right => hash (pair left.digest right.digest)

/-- What is hashed for a tree. -/
def messages : Tree γ → List M
  | .leaf content => [leafMessage content]
  | .node left right => pair (left.digest hash leafMessage pair)
      (right.digest hash leafMessage pair) :: (left.messages ++ right.messages)

variable {hash leafMessage pair}

/-- **A digest determines its tree**, without a collision, when no leaf has the message of an inner
node. -/
theorem digest_injective (hleaf : Function.Injective leafMessage)
    (hpair : Function.Injective2 pair) (hkinds : ∀ c a b, leafMessage c ≠ pair a b)
    {hashed : List M} (hcol : ¬ Collision hash hashed) {t t' : Tree γ}
    (ht : t.messages hash leafMessage pair ⊆ hashed)
    (ht' : t'.messages hash leafMessage pair ⊆ hashed)
    (h : t.digest hash leafMessage pair = t'.digest hash leafMessage pair) : t = t' := by
  induction t generalizing t' with
  | leaf content =>
    cases t' with
    | leaf content' =>
      exact congrArg leaf (hleaf (eq_of_hash_eq hcol (ht (by simp [messages]))
        (ht' (by simp [messages])) h))
    | node left' right' =>
      exact absurd (eq_of_hash_eq hcol (ht (by simp [messages])) (ht' (by simp [messages])) h)
        (hkinds _ _ _)
  | node left right ihl ihr =>
    cases t' with
    | leaf content' =>
      exact absurd (eq_of_hash_eq hcol (ht (by simp [messages])) (ht' (by simp [messages])) h)
        (hkinds _ _ _).symm
    | node left' right' =>
      simp only [messages, List.cons_subset, List.append_subset] at ht ht'
      obtain ⟨hleft, hright⟩ := hpair (eq_of_hash_eq hcol ht.1 ht'.1 h)
      rw [ihl ht.2.1 ht'.2.1 hleft, ihr ht.2.2 ht'.2.2 hright]

end Digest

end Tree

/-! ## The tree over a list -/

section TreeOf

variable {γ M α : Type} {hash : M → α} {leafMessage : γ → M} {pair : α → α → M}

/-- The tree over a list with at least one member. -/
def treeOf (content : γ) (contents : List γ) : Tree γ :=
  root id Tree.node (.leaf content) ((content :: contents).map .leaf)

/-- The list with the ends of its levels repeated: the tree that joins lists. -/
def padded (contents : List γ) : List γ :=
  root id (· ++ ·) [] (contents.map fun content => [content])

theorem leaves_treeOf (content : γ) (contents : List γ) :
    (treeOf content contents).leaves = padded (content :: contents) := by
  have hmap : root id (· ++ ·) (Tree.leaves (.leaf content))
      (((content :: contents).map Tree.leaf).map Tree.leaves) =
        (root id Tree.node (.leaf content) ((content :: contents).map .leaf)).leaves :=
    root_map (f := Tree.leaves) (fun _ _ => rfl) _ _
  rw [treeOf, ← hmap, List.map_map, padded, root, root]
  -- the list is not empty, so the root of the empty list does not matter
  have hne : ((content :: contents).map fun content => [content]) ≠ [] := List.cons_ne_nil _ _
  have hsingle := @reduce_eq_root _ _ id (· ++ ·) [] _ hne
  have hleaves : (Tree.leaves ∘ Tree.leaf : γ → List γ) = fun content => [content] := rfl
  rw [hleaves, hsingle]
  rfl

theorem exists_perfect_treeOf (content : γ) (contents : List γ) :
    ∃ depth, (treeOf content contents).Perfect depth := by
  refine root_induction _ (fun depth a b ha hb => ⟨ha, hb⟩) (List.cons_ne_nil _ _) ?_
  intro t ht
  obtain ⟨c, -, rfl⟩ := List.mem_map.mp ht
  trivial

/-- The root over the digests of the leaves is the digest of the tree. -/
theorem root_eq_digest_treeOf (empty : α) (content : γ) (contents : List γ) :
    root hash pair empty ((content :: contents).map (hash ∘ leafMessage)) =
      (treeOf content contents).digest hash leafMessage pair := by
  have hmap : root hash pair (Tree.digest hash leafMessage pair (.leaf content))
      (((content :: contents).map Tree.leaf).map (Tree.digest hash leafMessage pair)) =
        (root id Tree.node (.leaf content) ((content :: contents).map .leaf)).digest hash
          leafMessage pair :=
    root_map (f := Tree.digest hash leafMessage pair) (fun _ _ => rfl) _ _
  rw [treeOf, ← hmap, List.map_map, root, root]
  have hne : (content :: contents).map (hash ∘ leafMessage) ≠ [] := List.cons_ne_nil _ _
  have hsingle := @reduce_eq_root _ _ hash pair empty _ hne
  have hdigest : (Tree.digest hash leafMessage pair ∘ Tree.leaf) = hash ∘ leafMessage := rfl
  rw [hdigest, hsingle]
  rfl

/-- A tree of the next level joins two neighbours. -/
theorem mem_nextLevel_node {trees : List (Tree γ)} {t : Tree γ}
    (h : t ∈ nextLevel id Tree.node trees) :
    ∃ entry ∈ pairs Prod.mk trees, t = .node entry.1 entry.2 := by
  have hpairs : pairs Tree.node (trees.map id) =
      (pairs Prod.mk trees).map fun entry => Tree.node entry.1 entry.2 := pairs_map_eq id trees
  rw [List.map_id] at hpairs
  rw [nextLevel, List.map_id, hpairs] at h
  obtain ⟨entry, hentry, rfl⟩ := List.mem_map.mp h
  exact ⟨entry, hentry, rfl⟩

/-- The trees that are left have the messages of the trees there were, and those of the levels that
were built over them. -/
theorem messages_reduce_subset (fuel : ℕ) (trees : List (Tree γ)) :
    ∀ t ∈ reduce id Tree.node fuel trees, t.messages hash leafMessage pair ⊆
      trees.flatMap (Tree.messages hash leafMessage pair) ++
        Merkle.messages hash pair fuel (trees.map (Tree.digest hash leafMessage pair)) := by
  induction fuel generalizing trees with
  | zero =>
    intro t ht m hm
    exact List.mem_append_left _ (List.mem_flatMap.mpr ⟨t, ht, hm⟩)
  | succ fuel ih =>
    intro t ht m hm
    simp only [reduce, Merkle.messages, List.length_map] at ht ⊢
    split at ht
    · next hlong =>
      rw [if_pos hlong]
      have hmem := ih _ t ht hm
      rw [← nextLevel_map (f := Tree.digest hash leafMessage pair) fun _ _ => rfl] at hmem
      rcases List.mem_append.mp hmem with hmem | hmem
      -- a node of the next level has its own message, and those of two trees of this level
      · obtain ⟨s, hs, hm⟩ := List.mem_flatMap.mp hmem
        obtain ⟨entry, hentry, rfl⟩ := mem_nextLevel_node hs
        rcases List.mem_cons.mp hm with rfl | hm
        · refine List.mem_append_right _ (List.mem_append_left _ ?_)
          rw [pairs_map_eq]
          exact List.mem_map_of_mem hentry
        · obtain ⟨a, ha, b, hb, rfl⟩ := mem_of_mem_pairs hentry
          refine List.mem_append_left _ (List.mem_flatMap.mpr ?_)
          rcases List.mem_append.mp hm with hm | hm
          · exact ⟨a, ha, hm⟩
          · exact ⟨b, hb, hm⟩
      · exact List.mem_append_right _ (List.mem_append_right _ hmem)
    · exact List.mem_append_left _ (List.mem_flatMap.mpr ⟨t, ht, hm⟩)

theorem messages_treeOf_subset (content : γ) (contents : List γ) :
    (treeOf content contents).messages hash leafMessage pair ⊆
      (content :: contents).map leafMessage ++ Merkle.messages hash pair (contents.length + 1)
        ((content :: contents).map (hash ∘ leafMessage)) := by
  have hmem : treeOf content contents ∈
      reduce id Tree.node (contents.length + 1) ((content :: contents).map .leaf) := by
    have hne : (content :: contents).map Tree.leaf ≠ [] := List.cons_ne_nil _ _
    have hsingle := @reduce_eq_root _ _ id Tree.node (.leaf content) _ hne
    rw [List.length_map, List.length_cons] at hsingle
    rw [hsingle]
    exact List.mem_singleton_self _
  have hsub := @messages_reduce_subset _ _ _ hash leafMessage pair _ _ _ hmem
  have hdigest : (Tree.digest hash leafMessage pair ∘ Tree.leaf) = hash ∘ leafMessage := rfl
  have hleaves : ((content :: contents).map Tree.leaf).flatMap
      (Tree.messages hash leafMessage pair) = (content :: contents).map leafMessage := by
    rw [List.flatMap_map]
    exact List.flatMap_pure_eq_map leafMessage _
  rwa [List.map_map, hdigest, hleaves] at hsub

/-! ## Padding -/

/-- Joining the neighbours of a level repeats its end, or nothing. -/
theorem flatten_pairs_append (level : List (List γ)) :
    ∃ rest, (pairs (· ++ ·) level).flatten = level.flatten ++ rest ∧ rest ⊆ level.flatten := by
  fun_induction pairs (· ++ ·) level with
  | case1 => exact ⟨[], rfl, List.nil_subset _⟩
  | case2 a => exact ⟨a, by simp, by simp⟩
  | case3 a b level ih =>
    obtain ⟨rest, heq, hsub⟩ := ih
    refine ⟨rest, by simp [heq], ?_⟩
    simp only [List.flatten_cons]
    exact fun c hc => List.mem_append_right _ (List.mem_append_right _ (hsub hc))

theorem flatten_reduce_append (fuel : ℕ) (level : List (List γ)) :
    ∃ rest, (reduce id (· ++ ·) fuel level).flatten = level.flatten ++ rest ∧
      rest ⊆ level.flatten := by
  induction fuel generalizing level with
  | zero => exact ⟨[], by simp [reduce], List.nil_subset _⟩
  | succ fuel ih =>
    rw [reduce]
    split
    · obtain ⟨rest, heq, hsub⟩ := flatten_pairs_append level
      obtain ⟨rest', heq', hsub'⟩ := ih (nextLevel id (· ++ ·) level)
      rw [nextLevel, List.map_id, heq] at heq' hsub'
      refine ⟨rest ++ rest', by rw [nextLevel, List.map_id, heq', List.append_assoc], ?_⟩
      intro c hc
      rcases List.mem_append.mp hc with hc | hc
      · exact hsub hc
      · exact (List.mem_append.mp (hsub' hc)).elim id fun hc => hsub hc
    · exact ⟨[], by simp, List.nil_subset _⟩

/-- **Padding repeats members**: it starts with the list, and adds no member. -/
theorem exists_padded_eq_append (contents : List γ) :
    ∃ rest, padded contents = contents ++ rest ∧ rest ⊆ contents := by
  obtain ⟨rest, heq, hsub⟩ := flatten_reduce_append contents.length
    (contents.map fun content => [content])
  have hflatten : (contents.map fun content => [content]).flatten = contents := by
    rw [← List.flatMap_def]
    exact List.flatMap_singleton' contents
  rw [hflatten] at heq hsub
  refine ⟨rest, ?_, hsub⟩
  rw [← heq, padded]
  cases contents with
  | nil => rfl
  | cons content contents =>
    have hne : ((content :: contents).map fun content => [content]) ≠ [] := List.cons_ne_nil _ _
    have hsingle := @reduce_eq_root _ _ id (· ++ ·) [] _ hne
    rw [List.length_map] at hsingle
    rw [hsingle]
    exact (List.append_nil _).symm

example : padded [1, 2, 3, 4, 5, 6] = [1, 2, 3, 4, 5, 6, 5, 6] := by decide

theorem prefix_padded (contents : List γ) : contents <+: padded contents := by
  obtain ⟨rest, heq, -⟩ := exists_padded_eq_append contents
  exact ⟨rest, heq.symm⟩

@[simp] theorem mem_padded {contents : List γ} {content : γ} :
    content ∈ padded contents ↔ content ∈ contents := by
  obtain ⟨rest, heq, hsub⟩ := exists_padded_eq_append contents
  rw [heq, List.mem_append]
  exact ⟨fun h => h.elim id fun h => hsub h, .inl⟩

theorem padded_eq_nil {contents : List γ} : padded contents = [] ↔ contents = [] := by
  constructor
  · intro h
    exact List.prefix_nil.mp (h ▸ prefix_padded contents)
  · rintro rfl
    rfl

/-! ## Binding -/

/-- Lists that are padded alike have one tree. -/
theorem treeOf_eq_iff {content content' : γ} {contents contents' : List γ} :
    treeOf content contents = treeOf content' contents' ↔
      padded (content :: contents) = padded (content' :: contents') := by
  rw [← leaves_treeOf, ← leaves_treeOf]
  refine ⟨congrArg _, fun hleaves => ?_⟩
  obtain ⟨depth, hdepth⟩ := exists_perfect_treeOf content contents
  obtain ⟨depth', hdepth'⟩ := exists_perfect_treeOf content' contents'
  obtain rfl := hdepth.depth_eq hdepth' hleaves
  exact hdepth.eq_of_leaves_eq hdepth' hleaves

variable (hash leafMessage pair) in
/-- What is hashed for the root of a list. -/
def rootMessages (emptyMessage : M) (contents : List γ) : List M :=
  if contents.isEmpty then [emptyMessage]
  else contents.map leafMessage ++
    Merkle.messages hash pair contents.length (contents.map (hash ∘ leafMessage))

theorem messages_treeOf_subset_rootMessages (emptyMessage : M) (content : γ) (contents : List γ) :
    (treeOf content contents).messages hash leafMessage pair ⊆
      rootMessages hash leafMessage pair emptyMessage (content :: contents) :=
  messages_treeOf_subset content contents

/-- The digest of a tree is not that of the empty tree. -/
theorem digest_ne_empty {hashed : List M} (hcol : ¬ Collision hash hashed) {emptyMessage : M}
    (hemptyLeaf : ∀ c, emptyMessage ≠ leafMessage c) (hemptyPair : ∀ a b, emptyMessage ≠ pair a b)
    (hempty : emptyMessage ∈ hashed) {t : Tree γ}
    (ht : t.messages hash leafMessage pair ⊆ hashed) :
    hash emptyMessage ≠ t.digest hash leafMessage pair := by
  intro h
  cases t with
  | leaf content => exact hemptyLeaf _ (eq_of_hash_eq hcol hempty (ht (by simp [Tree.messages])) h)
  | node left right =>
    exact hemptyPair _ _ (eq_of_hash_eq hcol hempty (ht (by simp [Tree.messages])) h)

/-- Lists that are padded alike have one root. -/
theorem root_eq_of_padded_eq (empty : α) {contents contents' : List γ}
    (h : padded contents = padded contents') :
    root hash pair empty (contents.map (hash ∘ leafMessage)) =
      root hash pair empty (contents'.map (hash ∘ leafMessage)) := by
  rcases contents with - | ⟨content, contents⟩
  · rw [padded_eq_nil.mp h.symm]
  · rcases contents' with - | ⟨content', contents'⟩
    · exact absurd (padded_eq_nil.mp h) (List.cons_ne_nil _ _)
    · rw [root_eq_digest_treeOf, root_eq_digest_treeOf, treeOf_eq_iff.mpr h]

/-- **When two lists have one root**: without a collision, and when the messages of the empty tree,
of the leaves and of the inner nodes differ, if and only if they are padded alike. -/
theorem root_eq_iff_padded_eq (hleaf : Function.Injective leafMessage)
    (hpair : Function.Injective2 pair) (hkinds : ∀ c a b, leafMessage c ≠ pair a b)
    {emptyMessage : M} (hemptyLeaf : ∀ c, emptyMessage ≠ leafMessage c)
    (hemptyPair : ∀ a b, emptyMessage ≠ pair a b) {contents contents' : List γ}
    (hcol : ¬ Collision hash (rootMessages hash leafMessage pair emptyMessage contents ++
      rootMessages hash leafMessage pair emptyMessage contents')) :
    root hash pair (hash emptyMessage) (contents.map (hash ∘ leafMessage)) =
        root hash pair (hash emptyMessage) (contents'.map (hash ∘ leafMessage)) ↔
      padded contents = padded contents' := by
  refine ⟨fun h => ?_, root_eq_of_padded_eq _⟩
  rcases contents with - | ⟨content, contents⟩ <;>
    rcases contents' with - | ⟨content', contents'⟩
  · rfl
  · rw [root_eq_digest_treeOf] at h
    refine absurd h (digest_ne_empty hcol hemptyLeaf hemptyPair ?_ ?_)
    · exact List.mem_append_left _ (List.mem_singleton_self _)
    · exact fun m hm => List.mem_append_right _
        (messages_treeOf_subset_rootMessages emptyMessage _ _ hm)
  · rw [root_eq_digest_treeOf] at h
    refine absurd h.symm (digest_ne_empty hcol hemptyLeaf hemptyPair ?_ ?_)
    · exact List.mem_append_right _ (List.mem_singleton_self _)
    · exact fun m hm => List.mem_append_left _
        (messages_treeOf_subset_rootMessages emptyMessage _ _ hm)
  · rw [root_eq_digest_treeOf, root_eq_digest_treeOf] at h
    rw [← treeOf_eq_iff]
    refine Tree.digest_injective hleaf hpair hkinds hcol ?_ ?_ h
    · exact fun m hm => List.mem_append_left _
        (messages_treeOf_subset_rootMessages emptyMessage _ _ hm)
    · exact fun m hm => List.mem_append_right _
        (messages_treeOf_subset_rootMessages emptyMessage _ _ hm)

end TreeOf

end Merkle
