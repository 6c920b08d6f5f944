import Mathlib.Algebra.NeZero
import Prims.Lib.Simulation
import Prims.Lib.Synthesis

/-!
# Instances and proof systems

The verifier of a proof does not run the circuit. It is given the values of the public variables as
elements of a field, in the order in which the circuit allocates them. What a step of synthesis
publishes follows from what its parts publish, so the instance of a circuit is read off its steps.

A public byte is eight elements, one for each bit. How a library lays them out is a parameter: all
that is used of it is their number, and that different bytes have different elements.

A proof system makes keys for a constraint system, proofs with one key, and checks them with the
other. It is a parameter as well: its laws say what a caller relies on.

## Main definitions

* `Publishes`: the public bytes that a step allocates
* `ByteEncoding`, `ConstraintSystem.fieldElements`: the elements of a byte, and of an instance
* `ByteEncoding.bits`: the encoding with the least significant bit first
* `ProofSystem`, `ProofSystem.Lawful`: proof systems and their laws
* `ProofSystem.transparent`: the one whose proofs are the private values

## Main results

* `Publishes.bind`, `Publishes.mapM`: steps in sequence, and a step for every element of a list
* `ByteEncoding.flatMap_injective`: the elements determine the public bytes
-/

namespace Circuit

/-! ## What a step publishes -/

/-- The step allocates these public bytes, in this order. -/
def Publishes {α : Type} (step : Synthesis α) (bytes : Bytes) : Prop :=
  ∀ cs, (step cs).2.inputs = cs.inputs ++ bytes

section Publishes

variable {α β : Type} {step : Synthesis α} {bytes bytes' : Bytes}

theorem Publishes.pure (x : α) : Publishes (Pure.pure x) [] :=
  fun cs => (List.append_nil cs.inputs).symm

theorem Publishes.newInput (bytes : Bytes) : Publishes (newInput bytes) bytes :=
  fun _ => rfl

theorem Publishes.newWitness (bytes : Bytes) : Publishes (newWitness bytes) [] :=
  fun cs => (List.append_nil cs.inputs).symm

theorem Publishes.enforce (constraint : Constraint) : Publishes (enforce constraint) [] :=
  fun cs => (List.append_nil cs.inputs).symm

theorem Publishes.congr (h : Publishes step bytes) (heq : bytes = bytes') :
    Publishes step bytes' :=
  heq ▸ h

/-- **Steps in sequence.** -/
theorem Publishes.bind (h : Publishes step bytes) {next : α → Synthesis β}
    (hnext : ∀ x, Publishes (next x) bytes') : Publishes (step >>= next) (bytes ++ bytes') := by
  intro cs
  refine (hnext (step cs).1 (step cs).2).trans ?_
  rw [h cs, List.append_assoc]

/-- A step that publishes nothing, and then the rest. -/
theorem Publishes.silent_bind (h : Publishes step []) {next : α → Synthesis β}
    (hnext : ∀ x, Publishes (next x) bytes) : Publishes (step >>= next) bytes :=
  h.bind hnext

/-- **A step for every element of a list.** -/
theorem Publishes.mapM {step : β → Synthesis α} {published : β → Bytes} (l : List β)
    (h : ∀ b ∈ l, Publishes (step b) (published b)) :
    Publishes (l.mapM step) (l.flatMap published) := by
  induction l with
  | nil => exact .pure []
  | cons b l ih =>
    rw [List.mapM_cons, List.flatMap_cons]
    refine (h b List.mem_cons_self).bind fun x => ?_
    have hrest := ih fun b' hb' => h b' (List.mem_cons_of_mem _ hb')
    exact (hrest.bind fun xs => .pure _).congr (List.append_nil _)

/-- What a system publishes that is synthesized from nothing. -/
theorem Publishes.inputs_eq (h : Publishes step bytes) : (step {}).2.inputs = bytes :=
  h {}

end Publishes

/-! ## Elements -/

/-- **An encoding of bytes** as elements of a field: the values of the variables that a library
allocates for a byte, one for each bit. -/
structure ByteEncoding (F : Type) where
  byteElements : UInt8 → List F
  length_byteElements : ∀ byte, (byteElements byte).length = 8
  byteElements_injective : Function.Injective byteElements

/-- The values of the public variables of a system, after the constant one. -/
def ConstraintSystem.fieldElements {F : Type} (encoding : ByteEncoding F) (cs : ConstraintSystem) :
    List F :=
  cs.inputs.flatMap encoding.byteElements

namespace ByteEncoding

variable {F : Type} (encoding : ByteEncoding F)

theorem length_flatMap (bytes : Bytes) :
    (bytes.flatMap encoding.byteElements).length = 8 * bytes.length := by
  induction bytes with
  | nil => rfl
  | cons byte bytes ih =>
    rw [List.flatMap_cons, List.length_append, encoding.length_byteElements, ih, List.length_cons]
    omega

/-- **The elements determine the public bytes.** -/
theorem flatMap_injective :
    Function.Injective fun bytes : Bytes => bytes.flatMap encoding.byteElements := by
  intro bytes bytes' h
  replace h : bytes.flatMap encoding.byteElements = bytes'.flatMap encoding.byteElements := h
  induction bytes generalizing bytes' with
  | nil =>
    have hlength := congrArg List.length h
    rw [encoding.length_flatMap, encoding.length_flatMap, List.length_nil] at hlength
    exact (List.length_eq_zero_iff.mp (by omega)).symm
  | cons byte bytes ih =>
    cases bytes' with
    | nil =>
      have hlength := congrArg List.length h
      rw [encoding.length_flatMap, encoding.length_flatMap, List.length_cons, List.length_nil]
        at hlength
      omega
    | cons byte' bytes' =>
      rw [List.flatMap_cons, List.flatMap_cons] at h
      obtain ⟨hbyte, hbytes⟩ := List.append_inj h
        ((encoding.length_byteElements byte).trans (encoding.length_byteElements byte').symm)
      rw [encoding.byteElements_injective hbyte, ih hbytes]

end ByteEncoding

/-! ## The least significant bit first -/

section Bits

variable {F : Type} [Zero F] [One F]

/-- The element of a bit. -/
def bitElement (bit : Bool) : F := if bit then 1 else 0

/-- The elements of a byte, the least significant bit first. -/
def bitElements (byte : UInt8) : List F :=
  (List.range 8).map fun i => bitElement (byte.toNat.testBit i)

@[simp] theorem length_bitElements (byte : UInt8) : (bitElements byte : List F).length = 8 := by
  simp [bitElements]

variable [DecidableEq F]

/-- The byte of some elements. -/
def byteOfElements (elements : List F) : UInt8 :=
  UInt8.ofNat (elements.foldr (fun element n => (if element = 1 then 1 else 0) + 2 * n) 0)

/-- The bytes of some elements, eight for each byte. -/
def bytesOfElements : ℕ → List F → Bytes
  | 0, _ => []
  | count + 1, elements =>
    byteOfElements (elements.take 8) :: bytesOfElements count (elements.drop 8)

variable [NeZero (1 : F)]

theorem byteOfElements_bitElements (byte : UInt8) :
    byteOfElements (bitElements byte : List F) = byte := by
  have hbit : ∀ bit : Bool, (if (bitElement bit : F) = 1 then 1 else 0) = bit.toNat := by
    intro bit
    cases bit
    · exact if_neg (NeZero.ne (1 : F)).symm
    · exact if_pos rfl
  have hfold : (bitElements byte : List F).foldr
      (fun element n => (if element = 1 then 1 else 0) + 2 * n) 0 =
        ((List.range 8).map fun i => byte.toNat.testBit i).foldr
          (fun bit n => bit.toNat + 2 * n) 0 := by
    simp only [bitElements, List.foldr_map, hbit]
  rw [byteOfElements, hfold]
  have hbyte : ∀ n < 256, UInt8.ofNat (((List.range 8).map fun i => n.testBit i).foldr
      (fun bit n => bit.toNat + 2 * n) 0) = UInt8.ofNat n := by
    decide +kernel
  rw [hbyte _ byte.toNat_lt, UInt8.ofNat_toNat]

variable (F) in
/-- The encoding that has the least significant bit first. -/
def ByteEncoding.bits : ByteEncoding F where
  byteElements := bitElements
  length_byteElements := length_bitElements
  byteElements_injective :=
    Function.LeftInverse.injective (g := byteOfElements) byteOfElements_bitElements

/-- **The public bytes are read back** from their bits. -/
theorem bytesOfElements_fieldElements (cs : ConstraintSystem) :
    bytesOfElements cs.inputs.length (cs.fieldElements (.bits F)) = cs.inputs := by
  rw [ConstraintSystem.fieldElements]
  induction cs.inputs with
  | nil => rfl
  | cons byte bytes ih =>
    rw [List.length_cons, bytesOfElements, List.flatMap_cons]
    show byteOfElements ((bitElements byte ++ _).take 8) ::
      bytesOfElements bytes.length ((bitElements byte ++ _).drop 8) = _
    rw [List.take_left' (length_bitElements byte), List.drop_left' (length_bitElements byte),
      byteOfElements_bitElements, ih]

end Bits

/-! ## Proof systems -/

/-- **A proof system** over a field: what its library offers, with the elements of a public byte,
the states of its random number generator, and the reading and writing of proofs. -/
structure ProofSystem (F : Type) where
  encoding : ByteEncoding F
  ProvingKey : Type
  VerifyingKey : Type
  PreparedVerifyingKey : Type
  Proof : Type
  Rng : Type
  Error : Type
  generateParameters : ConstraintSystem → Procedure Error Rng ProvingKey
  vk : ProvingKey → VerifyingKey
  prepareVerifyingKey : VerifyingKey → PreparedVerifyingKey
  createProof : ProvingKey → ConstraintSystem → Procedure Error Rng Proof
  verifyProof : PreparedVerifyingKey → Proof → List F → Except Error Bool
  serializeCompressed : Proof → Except Error Bytes
  deserializeCompressed : Bytes → Except Error Proof

/-- **What a caller relies on**: a proof of a satisfied system, made with the key of that system, is
made and verified; an instance of another length than the key has is an error; and a proof is read
back from its bytes. -/
structure ProofSystem.Lawful {F : Type} (G : ProofSystem F) (hash : Bytes → Bytes32) : Prop where
  complete : ∀ setup seed pk rest, (G.generateParameters setup).run seed = (.ok pk, rest) →
    ∀ cs : ConstraintSystem, setup.Same cs → cs.assignment.Satisfies hash cs → ∀ rng,
      ∃ proof rng', (G.createProof pk cs).run rng = (.ok proof, rng') ∧
        G.verifyProof (G.prepareVerifyingKey (G.vk pk)) proof (cs.fieldElements G.encoding) =
          .ok true
  malformed : ∀ setup seed pk rest, (G.generateParameters setup).run seed = (.ok pk, rest) →
    ∀ proof elements, elements.length ≠ 8 * setup.inputs.length →
      ∃ e, G.verifyProof (G.prepareVerifyingKey (G.vk pk)) proof elements = .error e
  serialized : ∀ proof, ∃ bytes, G.serializeCompressed proof = .ok bytes ∧
    G.deserializeCompressed bytes = .ok proof

/-- Check the values of the private variables against an instance. -/
def transparentVerify {F : Type} [Zero F] [One F] [DecidableEq F] (hash : Bytes → Bytes32)
    (setup : ConstraintSystem) (proof : Bytes) (elements : List F) : Except Unit Bool :=
  if elements.length = 8 * setup.inputs.length then
    let cs : ConstraintSystem :=
      { inputs := bytesOfElements setup.inputs.length elements, witnesses := proof }
    .ok (decide (cs.assignment.Satisfies hash setup))
  else .error ()

theorem transparentVerify_eq_ok {F : Type} [Zero F] [One F] [DecidableEq F] [NeZero (1 : F)]
    {hash : Bytes → Bytes32} {setup cs : ConstraintSystem} (hsame : setup.Same cs)
    (hsatisfies : cs.assignment.Satisfies hash cs) :
    transparentVerify hash setup cs.witnesses (cs.fieldElements (.bits F)) = .ok true := by
  have hlength : (cs.fieldElements (.bits F)).length = 8 * setup.inputs.length := by
    rw [ConstraintSystem.fieldElements, ByteEncoding.length_flatMap, hsame.inputs]
  have hread : bytesOfElements setup.inputs.length (cs.fieldElements (.bits F)) = cs.inputs := by
    rw [hsame.inputs]
    exact bytesOfElements_fieldElements cs
  rw [transparentVerify, if_pos hlength]
  refine congrArg _ (decide_eq_true ?_)
  rw [hread]
  intro c hc
  exact hsatisfies c (hsame.constraints ▸ hc)

/-- The proof system whose proofs are the values of the private variables. -/
def ProofSystem.transparent (F : Type) [Zero F] [One F] [DecidableEq F] [NeZero (1 : F)]
    (hash : Bytes → Bytes32) : ProofSystem F where
  encoding := .bits F
  ProvingKey := ConstraintSystem
  VerifyingKey := ConstraintSystem
  PreparedVerifyingKey := ConstraintSystem
  Proof := Bytes
  Rng := Unit
  Error := Unit
  generateParameters setup := pure setup
  vk := id
  prepareVerifyingKey := id
  createProof _ cs := pure cs.witnesses
  verifyProof := transparentVerify hash
  serializeCompressed := .ok
  deserializeCompressed := .ok

theorem ProofSystem.transparent_lawful (F : Type) [Zero F] [One F] [DecidableEq F]
    [NeZero (1 : F)] (hash : Bytes → Bytes32) : (transparent F hash).Lawful hash where
  complete setup seed pk rest hkeys cs hsame hsatisfies rng := by
    obtain ⟨rfl, -⟩ : setup = pk ∧ seed = rest := by
      obtain ⟨hkey, hrest⟩ := Prod.mk.inj hkeys
      exact ⟨Except.ok.inj hkey, hrest⟩
    exact ⟨cs.witnesses, rng, rfl, transparentVerify_eq_ok hsame hsatisfies⟩
  malformed setup seed pk rest hkeys proof elements hlength := by
    obtain rfl : setup = pk := Except.ok.inj (Prod.mk.inj hkeys).1
    exact ⟨(), if_neg hlength⟩
  serialized proof := ⟨proof, rfl, rfl⟩

end Circuit
