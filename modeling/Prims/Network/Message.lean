import Prims.Lib.Bincode

/-!
# Messages of the network

The messages of `network/message.rs` and their binary format. The network has records of its own
for transactions, blocks and votes: a transaction is an identifier and a payload, and nothing says
what the payload is.

## Main definitions

* `Network.Message`, `Network.Message.fromBytes`, `Network.Message.toBytes`

## Main results

* `Network.Message.fromBytes_toBytes`: a message that is written is read back
-/

namespace Prims.Network

open Bincode

structure Transaction where
  id : String
  payload : Bytes
  deriving DecidableEq, Repr

instance : Codec Transaction :=
  Codec.ofEquiv (β := String × Bytes)
    { toFun t := (t.id, t.payload)
      invFun := fun (id, payload) => ⟨id, payload⟩ }

structure Block where
  height : UInt64
  hash : String
  transactions : List Transaction
  deriving DecidableEq, Repr

instance : Codec Block :=
  Codec.ofEquiv (β := UInt64 × String × List Transaction)
    { toFun b := (b.height, b.hash, b.transactions)
      invFun := fun (height, hash, transactions) => ⟨height, hash, transactions⟩ }

structure Vote where
  height : UInt64
  blockHash : Bytes
  voter : Bytes
  approve : Bool
  signature : Bytes
  deriving DecidableEq, Repr

instance : Codec Vote :=
  Codec.ofEquiv (β := UInt64 × Bytes × Bytes × Bool × Bytes)
    { toFun v := (v.height, v.blockHash, v.voter, v.approve, v.signature)
      invFun := fun (height, blockHash, voter, approve, signature) =>
        ⟨height, blockHash, voter, approve, signature⟩ }

inductive Message where
  | ping
  | pong
  | newTransaction (transaction : Transaction)
  | newBlock (block : Block)
  | getBlocks (height : UInt64)
  | blocks (list : List Block)
  | vote (vote : Vote)
  deriving DecidableEq, Repr

namespace Message

/-- The bytes of the field of a variant; all but the first two have one. -/
def body : Message → Bytes
  | .ping | .pong => []
  | .newTransaction tx => serialize tx
  | .newBlock b => serialize b
  | .getBlocks h => serialize h
  | .blocks l => serialize l
  | .vote v => serialize v

def decodeBody : UInt32 → Bytes → Except DecodeError (Message × Bytes)
  | 0, bs => .ok (.ping, bs)
  | 1, bs => .ok (.pong, bs)
  | 2, bs => (Codec.decode bs).map fun p => (.newTransaction p.1, p.2)
  | 3, bs => (Codec.decode bs).map fun p => (.newBlock p.1, p.2)
  | 4, bs => (Codec.decode bs).map fun p => (.getBlocks p.1, p.2)
  | 5, bs => (Codec.decode bs).map fun p => (.blocks p.1, p.2)
  | 6, bs => (Codec.decode bs).map fun p => (.vote p.1, p.2)
  | t, _ => .error (.invalidTag t.toNat)

def tag : Message → UInt32
  | .ping => 0
  | .pong => 1
  | .newTransaction _ => 2
  | .newBlock _ => 3
  | .getBlocks _ => 4
  | .blocks _ => 5
  | .vote _ => 6

/-- The field of a variant is short enough for the format. -/
def FitsBody : Message → Prop
  | .ping | .pong => True
  | .newTransaction tx => Codec.Fits tx
  | .newBlock b => Codec.Fits b
  | .getBlocks h => Codec.Fits h
  | .blocks l => Codec.Fits l
  | .vote v => Codec.Fits v

theorem decodeBody_body {message : Message} (h : message.FitsBody) (rest : Bytes) :
    decodeBody message.tag (message.body ++ rest) = .ok (message, rest) := by
  cases message with
  | ping => rfl
  | pong => rfl
  | newTransaction tx => exact decode_field Message.newTransaction h rest
  | newBlock b => exact decode_field Message.newBlock h rest
  | getBlocks height => exact decode_field Message.getBlocks h rest
  | blocks l => exact decode_field Message.blocks h rest
  | vote v => exact decode_field Message.vote h rest

theorem decodeBody_sound {t : UInt32} {bs rest : Bytes} {message : Message}
    (h : decodeBody t bs = .ok (message, rest)) :
    t = message.tag ∧ bs = message.body ++ rest ∧ message.FitsBody := by
  unfold decodeBody at h
  split at h
  -- the first two variants have no field, and the last case is an unknown tag
  case h_1 | h_2 =>
    obtain ⟨rfl, rfl⟩ := Prod.mk.inj (Except.ok.inj h)
    exact ⟨rfl, rfl, trivial⟩
  case h_8 => cases h
  all_goals
    obtain ⟨field, rfl, hbytes, hfits⟩ := decode_field_sound h
    exact ⟨rfl, hbytes, hfits⟩

theorem fitsBody_of_length {message : Message} (h : message.body.length < 2 ^ 64) :
    message.FitsBody := by
  cases message with
  | ping => trivial
  | pong => trivial
  | newTransaction tx => exact Codec.fits_of_length (a := tx) h
  | newBlock b => exact Codec.fits_of_length (a := b) h
  | getBlocks height => exact Codec.fits_of_length (a := height) h
  | blocks l => exact Codec.fits_of_length (a := l) h
  | vote v => exact Codec.fits_of_length (a := v) h

def variants : Variants Message where
  tag := tag
  body := body
  decodeBody := decodeBody
  Fits := FitsBody
  decodeBody_body := decodeBody_body
  decodeBody_sound := decodeBody_sound
  fits_of_length := fitsBody_of_length

end Message

instance : Codec Message := Codec.ofVariants Message.variants

def Message.toBytes (message : Message) : Bytes := serialize message

def Message.fromBytes (bytes : Bytes) : Except DecodeError Message := deserialize bytes

/-- **A message that is written is read back**, when its parts are shorter than `2 ^ 64`. -/
theorem Message.fromBytes_toBytes {message : Message} (h : Codec.Fits message) :
    Message.fromBytes message.toBytes = .ok message :=
  deserialize_serialize h

end Prims.Network
