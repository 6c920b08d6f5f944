import Prims.Blockchain.Types
import Prims.Lib.Except
import Prims.Lib.Sha256

/-!
# Cryptographic primitives and signed transactions

The program takes SHA-256 and Ed25519 from libraries. The development takes them as parameters:
`Primitives` is any hash function with 32-byte digests and any signature scheme with keys of 32
bytes and signatures of 64, and every result holds for all of them. `Primitives.recorded` runs
SHA-256 itself and accepts exactly the signatures of a given record, for the examples.

## Main definitions

* `Primitives`: the hash function and the signature scheme
* `unsignedTransactionBytes`, `signTransaction`, `verifyTransaction`: the functions of
  `crypto/mod.rs`
-/

namespace Prims

open Bincode

/-- **The primitives** the program takes from its libraries. -/
structure Primitives where
  /-- The SHA-256 digest of a message. -/
  sha256 : Bytes → Bytes32
  /-- Whether `VerifyingKey::from_bytes` accepts the key. -/
  validKey : Bytes32 → Bool
  /-- Whether the signature of the message verifies under the key. -/
  verify : Bytes32 → Bytes → Bytes64 → Bool
  /-- The verifying key of a signing key. -/
  publicKey : Bytes32 → Bytes32
  /-- The signature of a message under a signing key. -/
  sign : Bytes32 → Bytes → Bytes64

/-- A signature that was made: the key pair, the message and the signature. -/
structure SignatureRecord where
  secretKey : Bytes32
  publicKey : Bytes32
  message : Bytes
  signature : Bytes64

/-- SHA-256, with the signatures of a record and no others. -/
def Primitives.recorded (records : List SignatureRecord) : Primitives where
  sha256 := Sha256.hash
  validKey key := records.any fun r => r.publicKey = key
  verify key message signature := records.any fun r =>
    r.publicKey = key ∧ r.message = message ∧ r.signature = signature
  publicKey secretKey :=
    ((records.find? fun r => r.secretKey = secretKey).map SignatureRecord.publicKey).getD
      (List.Vector.replicate 32 0)
  sign secretKey message :=
    ((records.find? fun r => r.secretKey = secretKey ∧ r.message = message).map
      SignatureRecord.signature).getD (List.Vector.replicate 64 0)

/-- The errors of `verify_transaction`. -/
inductive SignatureError where
  | invalidKey
  | invalidSignatureLength
  deriving DecidableEq, Repr

variable (P : Primitives)

/-- The signed bytes: the transaction with its signature cleared. -/
def unsignedTransactionBytes (transaction : Transaction) : Bytes :=
  serialize { transaction with signature := [] }

def signTransaction (transaction : Transaction) (secretKey : Bytes32) : Bytes :=
  (P.sign secretKey (unsignedTransactionBytes transaction)).toList

def verifyTransaction (transaction : Transaction) (publicKey : Bytes32) :
    Except SignatureError Bool :=
  if P.validKey publicKey then
    match transaction.signature.toVector? 64 with
    | none => .error .invalidSignatureLength
    | some signature =>
      .ok (P.verify publicKey (unsignedTransactionBytes transaction) signature)
  else .error .invalidKey

end Prims
