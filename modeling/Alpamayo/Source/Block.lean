import Mathlib.Data.Prod.Lex
import Mathlib.Tactic.Common

/-!
This file contains the block that the sources build and the storage keeps.
-/

namespace Alpamayo

/-- The largest slot number of the source's 64-bit type. -/
def maxSlot : Nat := 18446744073709551615

abbrev UnixTimestamp := Int

/-- The number has 64 bits with a sign. -/
def IsInt64 (number : Int) : Prop := -9223372036854775808 ≤ number ∧ number ≤ 9223372036854775807

abbrev Bytes := List UInt8

/-- A signature stands for the number that its bytes spell. -/
structure Signature where
  value : Nat
  deriving DecidableEq

/-- The default signature has only zero bytes. -/
def Signature.default : Signature := ⟨0⟩

/-- An address stands for the number that its bytes spell. -/
structure Pubkey where
  value : Nat
  deriving DecidableEq

abbrev Path := String

/-- An eight-byte hash is the key of an index record. -/
abbrev HashedKey := BitVec 64

/-- The hash of the source gives the keys of the index records. -/
structure HashedKeys where
  signatureKey : Signature → HashedKey
  addressHash : Pubkey → HashedKey

/-- The rows of an address lie next to each other, ordered by slot. -/
abbrev SfaKey := Nat ×ₗ Nat

/-- The key has the bytes of the address hash before the big-endian bytes of the slot. -/
def SfaKey.concat (addressHash : HashedKey) (slot : Nat) : SfaKey := toLex (addressHash.toNat, slot)

/-- A transaction error stands for its serialized bytes. -/
abbrev TransactionError := Bytes

/-- The record gives the place of one transaction in the encoded block. -/
structure BlockTransactionOffset where
  key : HashedKey
  offset : Nat
  size : Nat
  err : Option TransactionError
  index : Nat
  deriving DecidableEq

/-- The transaction keeps the fields that the storage reads. -/
structure TransactionWithBinary where
  signature : Signature
  err : Option TransactionError
  protobuf : Bytes
  index : Nat
  deriving DecidableEq

/-- The status is one entry of an address row. -/
structure SignatureStatus where
  signature : Signature
  err : Option TransactionError
  memo : Option String
  transactionIndex : Nat
  isTokenOwner : Bool
  tokenBalanceChanged : Bool
  deriving DecidableEq

/-- The row collects the statuses of one address in one block. -/
structure SignaturesForAddress where
  key : SfaKey
  addressHash : HashedKey
  signatures : List SignatureStatus
  deriving DecidableEq

/-- The two maps are listed in their iteration order. -/
structure BlockWithBinary where
  blockhash : String
  parentSlot : Nat
  blockTime : Option UnixTimestamp
  blockHeight : Option Nat
  protobuf : Bytes
  txsOffset : List BlockTransactionOffset
  transactions : List TransactionWithBinary
  sfa : List (Pubkey × SignaturesForAddress)
  deriving DecidableEq

/-- This lookup reads the row of one address. -/
def BlockWithBinary.getSfa (block : BlockWithBinary) (address : Pubkey) :
    Option SignaturesForAddress := block.sfa.lookup address

/-- This lookup reads the transaction of one signature. -/
def BlockWithBinary.getTransaction (block : BlockWithBinary) (signature : Signature) :
    Option TransactionWithBinary :=
  block.transactions.find? fun transaction => transaction.signature = signature

/-- The enumeration names the two ends of the store. -/
inductive VecSide where
  | back
  | front
  deriving DecidableEq

end Alpamayo
