import Mathlib.Data.List.Forall2
import Prims.Lib.Circuit

/-!
# Rules for synthesis

Synthesis only adds to a system: variables and equations that are there stay. Two kinds of
statement about a step follow from this, each with one rule for every way to build a step.

A step is complete when the values it gives to the variables solve the equations it adds. What a
variable is worth is stated for every assignment that agrees with the values given so far, so it
stays true as the system grows.

Two steps run in lockstep when they allocate the same variables and return the same result from
systems with the same variables. Whether they add the same equations is a condition of its own,
because a step may look at the values.

## Main definitions

* `ConstraintSystem.Grows`, `Assignment.Agrees`: later systems, and what they leave as it is
* `BytesVar.Reads`, `UInt64Var.Reads`: what a variable is worth
* `Complete`: the values solve the equations
* `ConstraintSystem.Same`, `Lockstep`: one system, and two steps that add to it alike

## Main results

* `Complete.bind`, `Complete.mapM`: steps in sequence, and a step for every element of a list
* `Complete.satisfies`: the values that were given satisfy the system
* `Lockstep.bind`, `Lockstep.mapM`: the same for two steps
* `Lockstep.same_iff`: when two runs emit one system
-/

namespace Circuit

/-! ## Growing systems -/

/-- The second system was reached from the first by allocating variables. -/
structure ConstraintSystem.Grows (cs cs' : ConstraintSystem) : Prop where
  inputs : cs.inputs <+: cs'.inputs
  witnesses : cs.witnesses <+: cs'.witnesses

theorem ConstraintSystem.Grows.refl (cs : ConstraintSystem) : cs.Grows cs :=
  ⟨List.prefix_rfl, List.prefix_rfl⟩

theorem ConstraintSystem.Grows.trans {cs cs' cs'' : ConstraintSystem} (h : cs.Grows cs')
    (h' : cs'.Grows cs'') : cs.Grows cs'' :=
  ⟨h.inputs.trans h'.inputs, h.witnesses.trans h'.witnesses⟩

/-- The assignment keeps the values that were given to the variables. -/
structure Assignment.Agrees (a : Assignment) (cs : ConstraintSystem) : Prop where
  input : ∀ (i : ℕ) (b : UInt8), cs.inputs[i]? = some b → a.input i = b
  witness : ∀ (i : ℕ) (b : UInt8), cs.witnesses[i]? = some b → a.witness i = b

theorem ConstraintSystem.assignment_agrees (cs : ConstraintSystem) : cs.assignment.Agrees cs where
  input i b h := by
    change cs.inputs.getD i 0 = b
    rw [List.getD_eq_getElem?_getD, h, Option.getD_some]
  witness i b h := by
    change cs.witnesses.getD i 0 = b
    rw [List.getD_eq_getElem?_getD, h, Option.getD_some]

/-- A place of a prefix is a place of the list. -/
theorem getElem?_of_isPrefix {l l' : Bytes} (h : l <+: l') {i : ℕ} {b : UInt8}
    (hb : l[i]? = some b) : l'[i]? = some b := by
  obtain ⟨t, rfl⟩ := h
  have hi : i < l.length := (List.getElem?_eq_some_iff.mp hb).1
  rw [List.getElem?_append_left hi, hb]

theorem Assignment.Agrees.of_grows {a : Assignment} {cs cs' : ConstraintSystem}
    (h : a.Agrees cs') (hgrows : cs.Grows cs') : a.Agrees cs where
  input i b hb := h.input i b (getElem?_of_isPrefix hgrows.inputs hb)
  witness i b hb := h.witness i b (getElem?_of_isPrefix hgrows.witnesses hb)

/-- Values at consecutive places, read one by one. -/
theorem map_range_eq {value : ℕ → UInt8} {l bytes : Bytes}
    (h : ∀ i b, (l ++ bytes)[i]? = some b → value i = b) :
    (List.range bytes.length).map (fun i => value (l.length + i)) = bytes := by
  apply List.ext_getElem
  · simp
  · intro i hi hi'
    rw [List.getElem_map, List.getElem_range]
    apply h
    rw [List.getElem?_append_right (Nat.le_add_right _ _), Nat.add_sub_cancel_left,
      List.getElem?_eq_getElem hi']

/-! ## Completeness -/

section Complete

variable (hash : Bytes → Bytes32)

/-- Under every assignment that keeps the values, the variable is worth these bytes. -/
def BytesVar.Reads (cs : ConstraintSystem) (x : BytesVar) (bytes : Bytes) : Prop :=
  ∀ a : Assignment, a.Agrees cs → x.eval hash a = bytes

/-- Under every assignment that keeps the values, the variable is worth this word. -/
def UInt64Var.Reads (cs : ConstraintSystem) (x : UInt64Var) (word : UInt64) : Prop :=
  ∀ a : Assignment, a.Agrees cs → x.eval hash a = word

/-- Every assignment that keeps the values solves the equations. -/
def ConstraintSystem.Solved (cs : ConstraintSystem) : Prop :=
  ∀ a : Assignment, a.Agrees cs → a.Satisfies hash cs

/-- The step adds variables, and equations that their values solve; `post` holds of its result
and of the system it leaves. -/
structure Complete {α : Type} (cs : ConstraintSystem) (step : Synthesis α)
    (post : α → ConstraintSystem → Prop) : Prop where
  grows : cs.Grows (step cs).2
  solved : cs.Solved hash → (step cs).2.Solved hash
  post : post (step cs).1 (step cs).2

variable {hash} {cs cs' : ConstraintSystem}

theorem BytesVar.Reads.mono {x : BytesVar} {bytes : Bytes} (h : x.Reads hash cs bytes)
    (hgrows : cs.Grows cs') : x.Reads hash cs' bytes :=
  fun a ha => h a (ha.of_grows hgrows)

theorem UInt64Var.Reads.mono {x : UInt64Var} {word : UInt64} (h : x.Reads hash cs word)
    (hgrows : cs.Grows cs') : x.Reads hash cs' word :=
  fun a ha => h a (ha.of_grows hgrows)

theorem BytesVar.Reads.constant (bytes : Bytes) : (constant bytes).Reads hash cs bytes :=
  fun _ _ => rfl

theorem BytesVar.Reads.append {x y : BytesVar} {bytes bytes' : Bytes} (hx : x.Reads hash cs bytes)
    (hy : y.Reads hash cs bytes') : (append x y).Reads hash cs (bytes ++ bytes') := by
  intro a ha
  rw [BytesVar.eval, hx a ha, hy a ha]

theorem BytesVar.Reads.digest {x : BytesVar} {bytes : Bytes} (hx : x.Reads hash cs bytes) :
    (BytesVar.hash x).Reads hash cs (hash bytes).toList := by
  intro a ha
  rw [BytesVar.eval, hx a ha]

theorem UInt64Var.Reads.ofBytes {x : BytesVar} {word : UInt64}
    (hx : x.Reads hash cs (leBytes 8 word.toNat)) : (ofBytes x).Reads hash cs word := by
  intro a ha
  have hlt : word.toNat < 256 ^ 8 := word.toNat_lt
  rw [UInt64Var.eval, hx a ha, leNat_leBytes, Nat.mod_eq_of_lt hlt, UInt64.ofNat_toNat]

variable {α β : Type}

/-- The addition gadget on operands with known values. -/
theorem UInt64Var.Reads.wrappingAddMany {word : β → UInt64} {l : List β}
    {operands : List UInt64Var}
    (h : List.Forall₂ (fun b x => x.Reads hash cs (word b)) l operands) :
    (wrappingAddMany operands).Reads hash cs (.ofNat (l.map fun b => (word b).toNat).sum) := by
  intro a ha
  have hvalues : operands.map (fun x => x.value hash a) = l.map fun b => (word b).toNat := by
    induction h with
    | nil => rfl
    | cons hx _ ih => rw [List.map_cons, List.map_cons, ih, UInt64Var.value, hx a ha]
  apply UInt64.toNat_inj.mp
  rw [UInt64.toNat_ofNat', ← hvalues]
  exact value_wrappingAddMany operands

theorem Complete.pure {x : α} {post : α → ConstraintSystem → Prop} (h : post x cs) :
    Complete hash cs (Pure.pure x) post :=
  ⟨.refl cs, id, h⟩

/-- **Steps in sequence.** -/
theorem Complete.bind {step : Synthesis α} {next : α → Synthesis β}
    {mid : α → ConstraintSystem → Prop} {post : β → ConstraintSystem → Prop}
    (h : Complete hash cs step mid)
    (hnext : ∀ x cs', cs.Grows cs' → mid x cs' → Complete hash cs' (next x) post) :
    Complete hash cs (step >>= next) post := by
  have h' := hnext _ _ h.grows h.post
  exact ⟨h.grows.trans h'.grows, fun hsolved => h'.solved (h.solved hsolved), h'.post⟩

/-- A system that grows and gets no equation stays solved. -/
theorem ConstraintSystem.Solved.of_grows (h : cs.Solved hash) (hgrows : cs.Grows cs')
    (hconstraints : cs'.constraints = cs.constraints) : cs'.Solved hash := by
  intro a ha c hc
  rw [hconstraints] at hc
  exact h a (ha.of_grows hgrows) c hc

theorem Complete.newInput (bytes : Bytes) :
    Complete hash cs (newInput bytes) fun x cs' => x.Reads hash cs' bytes := by
  have hgrows : cs.Grows { cs with inputs := cs.inputs ++ bytes } :=
    ⟨List.prefix_append _ _, List.prefix_rfl⟩
  exact ⟨hgrows, fun hsolved => hsolved.of_grows hgrows rfl, fun a ha => map_range_eq ha.input⟩

theorem Complete.newWitness (bytes : Bytes) :
    Complete hash cs (newWitness bytes) fun x cs' => x.Reads hash cs' bytes := by
  have hgrows : cs.Grows { cs with witnesses := cs.witnesses ++ bytes } :=
    ⟨List.prefix_rfl, List.prefix_append _ _⟩
  exact ⟨hgrows, fun hsolved => hsolved.of_grows hgrows rfl, fun a ha => map_range_eq ha.witness⟩

/-- An equation may be added when it holds under every assignment that keeps the values. -/
theorem Complete.enforce {constraint : Constraint}
    (h : ∀ a : Assignment, a.Agrees cs → constraint.Holds hash a) :
    Complete hash cs (enforce constraint) fun _ _ => True := by
  have hgrows : cs.Grows { cs with constraints := cs.constraints ++ [constraint] } :=
    ⟨List.prefix_rfl, List.prefix_rfl⟩
  refine ⟨hgrows, ?_, trivial⟩
  intro hsolved a ha c hc
  rcases List.mem_append.mp hc with hc | hc
  · exact hsolved a (ha.of_grows hgrows) c hc
  · rw [List.mem_singleton.mp hc]
    exact h a (ha.of_grows hgrows)

theorem Complete.enforce_equalBytes {x y : BytesVar} {bytes : Bytes} (hx : x.Reads hash cs bytes)
    (hy : y.Reads hash cs bytes) :
    Complete hash cs (Circuit.enforce (.equalBytes x y)) fun _ _ => True :=
  enforce fun a ha => (hx a ha).trans (hy a ha).symm

theorem Complete.enforce_equalUInt64 {x y : UInt64Var} {word : UInt64}
    (hx : x.Reads hash cs word) (hy : y.Reads hash cs word) :
    Complete hash cs (Circuit.enforce (.equalUInt64 x y)) fun _ _ => True :=
  enforce fun a ha => (hx a ha).trans (hy a ha).symm

/-- **A step for every element of a list**: what holds of a result when it is made holds of it in
the end, so the results are stated for the system that the whole list leaves. -/
theorem Complete.mapM {step : β → Synthesis α} {post : β → α → ConstraintSystem → Prop}
    (hmono : ∀ b x cs' cs'', cs'.Grows cs'' → post b x cs' → post b x cs'') (l : List β)
    (h : ∀ b ∈ l, ∀ cs', cs.Grows cs' → Complete hash cs' (step b) (post b)) :
    Complete hash cs (l.mapM step) fun xs cs' => List.Forall₂ (fun b x => post b x cs') l xs := by
  induction l generalizing cs with
  | nil => exact .pure .nil
  | cons b l ih =>
    rw [List.mapM_cons]
    refine (h b List.mem_cons_self cs (.refl cs)).bind fun x cs₁ hgrows₁ hx => ?_
    have hrest : ∀ b' ∈ l, ∀ cs', cs₁.Grows cs' → Complete hash cs' (step b') (post b') :=
      fun b' hb' cs' hgrows => h b' (List.mem_cons_of_mem _ hb') cs' (hgrows₁.trans hgrows)
    refine (ih hrest).bind fun xs cs₂ hgrows₂ hxs => .pure ?_
    exact .cons (hmono b x cs₁ cs₂ hgrows₂ hx) hxs

/-- **The values that were given satisfy the system.** -/
theorem Complete.satisfies {step : Synthesis α} {post : α → ConstraintSystem → Prop}
    (h : Complete hash {} step post) : (step {}).2.assignment.Satisfies hash (step {}).2 := by
  apply h.solved _ _ (ConstraintSystem.assignment_agrees _)
  intro a _ c hc
  exact absurd hc List.not_mem_nil

end Complete

/-! ## Two runs -/

/-- One system: the same variables, and the same equations over them. -/
structure ConstraintSystem.Same (cs cs' : ConstraintSystem) : Prop where
  inputs : cs.inputs.length = cs'.inputs.length
  witnesses : cs.witnesses.length = cs'.witnesses.length
  constraints : cs.constraints = cs'.constraints

/-- The same variables, and as many equations. -/
structure ConstraintSystem.Aligned (cs cs' : ConstraintSystem) : Prop where
  inputs : cs.inputs.length = cs'.inputs.length
  witnesses : cs.witnesses.length = cs'.witnesses.length
  constraints : cs.constraints.length = cs'.constraints.length

/-- From aligned systems, the steps return one result and leave aligned systems; they add the same
equations if and only if the condition holds. -/
structure Lockstep {α : Type} (step step' : Synthesis α) (condition : Prop) : Prop where
  result : ∀ cs cs', cs.Aligned cs' → (step cs).1 = (step' cs').1
  aligned : ∀ cs cs', cs.Aligned cs' → (step cs).2.Aligned (step' cs').2
  constraints : ∀ cs cs', cs.Aligned cs' →
    ((step cs).2.constraints = (step' cs').2.constraints ↔
      cs.constraints = cs'.constraints ∧ condition)

section Lockstep

variable {α β γ : Type} {p q : Prop}

theorem Lockstep.congr {step step' : Synthesis α} (h : Lockstep step step' p) (hpq : p ↔ q) :
    Lockstep step step' q :=
  ⟨h.result, h.aligned, fun cs cs' hcs => by rw [h.constraints cs cs' hcs, hpq]⟩

theorem Lockstep.pure (x : α) : Lockstep (Pure.pure x) (Pure.pure x) True :=
  ⟨fun _ _ _ => rfl, fun _ _ hcs => hcs, fun _ _ _ => (and_iff_left trivial).symm⟩

/-- **Steps in sequence** add the same equations when each of them does. The second steps need to
agree on the results of the first only. -/
theorem Lockstep.bind {step step' : Synthesis α} {next next' : α → Synthesis β}
    (h : Lockstep step step' p)
    (hnext : ∀ cs, Lockstep (next (step cs).1) (next' (step cs).1) q) :
    Lockstep (step >>= next) (step' >>= next') (p ∧ q) := by
  -- the second step of the other run gets the result of the first step of this one
  have hsecond : ∀ cs cs', cs.Aligned cs' →
      (step' >>= next') cs' = next' (step cs).1 (step' cs').2 := by
    intro cs cs' hcs
    rw [h.result cs cs' hcs]
    rfl
  refine ⟨?_, ?_, ?_⟩
  all_goals
    intro cs cs' hcs
    rw [hsecond cs cs' hcs]
  · exact (hnext cs).result _ _ (h.aligned cs cs' hcs)
  · exact (hnext cs).aligned _ _ (h.aligned cs cs' hcs)
  · rw [← and_assoc, ← h.constraints cs cs' hcs]
    exact (hnext cs).constraints _ _ (h.aligned cs cs' hcs)

/-- As many public variables on both sides, and then the rest. -/
theorem Lockstep.newInput_bind {bytes bytes' : Bytes} (hlen : bytes.length = bytes'.length)
    {next next' : BytesVar → Synthesis β}
    (hnext : ∀ start, Lockstep (next (.input start bytes.length))
      (next' (.input start bytes.length)) q) :
    Lockstep (newInput bytes >>= next) (newInput bytes' >>= next') q := by
  have hstep : Lockstep (newInput bytes) (newInput bytes') True := by
    refine ⟨?_, ?_, fun _ _ _ => (and_iff_left trivial).symm⟩
    · intro cs cs' hcs
      exact congrArg₂ BytesVar.input hcs.inputs hlen
    · intro cs cs' hcs
      refine ⟨?_, hcs.witnesses, hcs.constraints⟩
      change (cs.inputs ++ bytes).length = (cs'.inputs ++ bytes').length
      rw [List.length_append, List.length_append, hcs.inputs, hlen]
  exact (hstep.bind fun cs => hnext cs.inputs.length).congr (and_iff_right trivial)

/-- As many private variables on both sides, and then the rest. -/
theorem Lockstep.newWitness_bind {bytes bytes' : Bytes} (hlen : bytes.length = bytes'.length)
    {next next' : BytesVar → Synthesis β}
    (hnext : ∀ start, Lockstep (next (.witness start bytes.length))
      (next' (.witness start bytes.length)) q) :
    Lockstep (newWitness bytes >>= next) (newWitness bytes' >>= next') q := by
  have hstep : Lockstep (newWitness bytes) (newWitness bytes') True := by
    refine ⟨?_, ?_, fun _ _ _ => (and_iff_left trivial).symm⟩
    · intro cs cs' hcs
      exact congrArg₂ BytesVar.witness hcs.witnesses hlen
    · intro cs cs' hcs
      refine ⟨hcs.inputs, ?_, hcs.constraints⟩
      change (cs.witnesses ++ bytes).length = (cs'.witnesses ++ bytes').length
      rw [List.length_append, List.length_append, hcs.witnesses, hlen]
  exact (hstep.bind fun cs => hnext cs.witnesses.length).congr (and_iff_right trivial)

/-- One equation on each side, and then the rest. -/
theorem Lockstep.enforce_bind {constraint constraint' : Constraint}
    {next next' : Unit → Synthesis β} (hnext : Lockstep (next ()) (next' ()) q) :
    Lockstep (enforce constraint >>= next) (enforce constraint' >>= next')
      (constraint = constraint' ∧ q) := by
  have hstep : Lockstep (enforce constraint) (enforce constraint')
      (constraint = constraint') := by
    refine ⟨fun _ _ _ => rfl, ?_, ?_⟩
    · intro cs cs' hcs
      refine ⟨hcs.inputs, hcs.witnesses, ?_⟩
      change (cs.constraints ++ [constraint]).length = (cs'.constraints ++ [constraint']).length
      rw [List.length_append, List.length_append, hcs.constraints]
      rfl
    · intro cs cs' hcs
      exact List.append_singleton_inj
  exact hstep.bind fun _ => hnext

/-- The same equation on both sides, and then the rest. -/
theorem Lockstep.enforce_self_bind {constraint : Constraint} {next next' : Unit → Synthesis β}
    (hnext : Lockstep (next ()) (next' ()) q) :
    Lockstep (enforce constraint >>= next) (enforce constraint >>= next') q :=
  (Lockstep.enforce_bind hnext).congr (and_iff_right rfl)

/-- **A step for every element of a list**, on both sides. -/
theorem Lockstep.mapM {step : β → Synthesis α} {step' : γ → Synthesis α} {r : β → γ → Prop}
    {l : List β} {l' : List γ}
    (h : List.Forall₂ (fun b c => Lockstep (step b) (step' c) (r b c)) l l') :
    Lockstep (l.mapM step) (l'.mapM step') (List.Forall₂ r l l') := by
  induction h with
  | nil => exact (Lockstep.pure []).congr (iff_of_true trivial .nil)
  | cons hstep _ ih =>
    rw [List.mapM_cons, List.mapM_cons, List.forall₂_cons]
    refine hstep.bind fun cs => ?_
    refine Lockstep.congr (ih.bind (q := True) fun cs' => ?_) (and_iff_left trivial)
    exact .pure _

/-- **Two runs emit one system** if and only if the condition of their lockstep holds. -/
theorem Lockstep.same_iff {step step' : Synthesis α} (h : Lockstep step step' p) :
    (step {}).2.Same (step' {}).2 ↔ p := by
  have hempty : ConstraintSystem.Aligned {} {} := ⟨rfl, rfl, rfl⟩
  obtain ⟨hinputs, hwitnesses, -⟩ := h.aligned {} {} hempty
  have hconstraints := h.constraints {} {} hempty
  rw [eq_self_iff_true, true_and] at hconstraints
  rw [← hconstraints]
  exact ⟨fun hsame => hsame.constraints, fun heq => ⟨hinputs, hwitnesses, heq⟩⟩

end Lockstep

end Circuit
