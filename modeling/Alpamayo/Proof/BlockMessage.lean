import Alpamayo.General.WireMessage
import Alpamayo.Proof.BlockEncoding

/-!
This file shows that an encoded block decodes to its fields and has the length that was counted.
-/

namespace Alpamayo

/-- A number below the bound is written in decimal digits, and an absent one as an empty text. -/
def decodeDecimal (bound : Nat) (text : String) : Option (Option Nat) :=
  if text.isEmpty then some none
  else
    let value := Nat.ofDigitChars 10 text.toList 0
    if text.toList.all Char.isDigit && value < bound then some (some value) else none

/-- The digits of a number give the number. -/
theorem decodeDecimal_toString {bound value : Nat} (small : value < bound) :
    decodeDecimal bound (toString value) = some (some value) := by
  have digits : (toString value).toList = Nat.toDigits 10 value := Nat.toList_repr
  have nonempty : (toString value).isEmpty = false := by simp
  have all : (Nat.toDigits 10 value).all Char.isDigit = true := by
    rw [List.all_eq_true]
    intro digit member
    exact Nat.isDigit_of_mem_toDigits (by decide) (by decide) member
  rw [decodeDecimal, nonempty, digits, all, Nat.ofDigitChars_ten_toDigits]
  simp [small]

namespace Reward

/-- An unknown code has no reward type. -/
def rewardTypeOfI32 : Int → Option (Option RewardType)
  | 0 => some none
  | 1 => some (some .fee)
  | 2 => some (some .rent)
  | 3 => some (some .staking)
  | 4 => some (some .voting)
  | 5 => some (some .deactivatedStake)
  | 6 => some (some .vatDebit)
  | _ => none

theorem rewardTypeOfI32_rewardTypeAsI32 (rewardType : Option RewardType) :
    rewardTypeOfI32 (rewardTypeAsI32 rewardType) = some rewardType := by
  cases rewardType with
  | none => rfl
  | some known => cases known <;> rfl

theorem rewardTypeAsI32_mem (rewardType : Option RewardType) :
    0 ≤ rewardTypeAsI32 rewardType ∧ rewardTypeAsI32 rewardType < 7 := by
  cases rewardType with
  | none => decide
  | some known => cases known <;> decide

/-- The reward is read from the fields of its message. -/
def ofFields (fields : List Wire.Field) : Option Reward := do
  let pubkey ← Wire.readString 1 fields
  let lamports ← Wire.readInt64 2 fields
  let postBalance ← Wire.readUint64 3 fields
  let rewardType ← (Wire.readInt32 4 fields).bind rewardTypeOfI32
  let commission ← (Wire.readString 5 fields).bind (decodeDecimal 256)
  let commissionBps ← (Wire.readString 6 fields).bind (decodeDecimal 65536)
  some ⟨pubkey, lamports, postBalance, rewardType, commission.map UInt8.ofNat, commissionBps⟩

/-- An absent number is an empty text. -/
def decimalText (value : Option Nat) : String := value.elim "" toString

theorem decodeDecimal_decimalText {bound : Nat} {value : Option Nat}
    (small : ∀ number ∈ value, number < bound) :
    decodeDecimal bound (decimalText value) = some value := by
  cases value with
  | none => rfl
  | some number => exact decodeDecimal_toString (small number rfl)

/-- The fields that the encoder writes. -/
def fields (reward : Reward) : List Wire.Field :=
  Wire.repeated 1 (Wire.stringValues reward.pubkey) ++
  Wire.repeated 2 (Wire.int64Values reward.lamports) ++
  Wire.repeated 3 (Wire.uint64Values reward.postBalance) ++
  Wire.repeated 4 (Wire.int64Values (rewardTypeAsI32 reward.rewardType)) ++
  Wire.repeated 5 (Wire.stringValues (decimalText (reward.commission.map UInt8.toNat))) ++
  Wire.repeated 6 (Wire.stringValues (decimalText reward.commissionBps))

theorem encodeRaw_eq (reward : Reward) : reward.encodeRaw = Wire.encodeFields reward.fields := by
  rw [fields]
  simp only [Wire.encodeFields_append, Wire.encodeFields_stringValues,
    Wire.encodeFields_int64Values, Wire.encodeFields_uint64Values]
  rw [encodeRaw]
  congr 1
  · congr 1
    · congr 1
      cases reward.rewardType with
      | none => rfl
      | some known => cases known <;> rfl
    · cases reward.commission with
      | none => rfl
      | some commission => simp [decimalText]
  · cases reward.commissionBps with
    | none => rfl
    | some commissionBps => simp [decimalText]

/-- The count of a text agrees with its encoding. -/
theorem length_encodeString_eq (tag : Nat) (text : String) :
    bytesEncodedLen tag text.toUTF8.toList = (Wire.encodeString tag text).length := by
  rw [Wire.length_encodeString, bytesEncodedLen, Wire.length_utf8]
  rfl

theorem length_encodeRaw (reward : Reward) : reward.encodeRaw.length = reward.encodedLen := by
  rw [encodeRaw, encodedLen]
  simp only [List.length_append, length_encodeString_eq]
  congr 1
  · congr 1
    · congr 1
      · congr 1
        · congr 1
          · split <;> simp
          · split <;> simp
        · split <;> simp
      · split <;> simp
    · cases reward.commission <;> rfl
  · cases reward.commissionBps <;> rfl

/-- The values fit the types of the source. -/
structure Fits (reward : Reward) : Prop where
  lamports : -9223372036854775808 ≤ reward.lamports ∧ reward.lamports < 9223372036854775808
  postBalance : reward.postBalance < 2 ^ 64
  commissionBps : ∀ number ∈ reward.commissionBps, number < 65536

theorem ofFields_fields {reward : Reward} (fits : reward.Fits) :
    ofFields reward.fields = some reward := by
  have pubkey : Wire.readString 1 reward.fields = some reward.pubkey :=
    Wire.readString_eq (by simp [fields])
  have lamports : Wire.readInt64 2 reward.fields = some reward.lamports :=
    Wire.readInt64_eq fits.lamports.1 fits.lamports.2 (by simp [fields])
  have postBalance : Wire.readUint64 3 reward.fields = some reward.postBalance :=
    Wire.readUint64_eq (by simp [fields])
  have code : Wire.readInt32 4 reward.fields = some (rewardTypeAsI32 reward.rewardType) := by
    have range := rewardTypeAsI32_mem reward.rewardType
    exact Wire.readInt32_eq (by omega) (by omega) (by simp [fields])
  have commission : Wire.readString 5 reward.fields =
      some (decimalText (reward.commission.map UInt8.toNat)) :=
    Wire.readString_eq (by simp [fields])
  have commissionBps : Wire.readString 6 reward.fields = some (decimalText reward.commissionBps) :=
    Wire.readString_eq (by simp [fields])
  have byte : ∀ number ∈ reward.commission.map UInt8.toNat, number < 256 := by
    intro number member
    obtain ⟨commission, -, rfl⟩ := Option.map_eq_some_iff.mp member
    exact commission.toNat_lt
  rw [ofFields, pubkey, lamports, postBalance, code, commission, commissionBps, Option.bind_some,
    Option.bind_some, Option.bind_some, rewardTypeOfI32_rewardTypeAsI32,
    decodeDecimal_decimalText byte, decodeDecimal_decimalText fits.commissionBps]
  have same : (reward.commission.map UInt8.toNat).map UInt8.ofNat = reward.commission := by
    cases reward.commission <;> simp
  simp [same]

theorem fields_plain {reward : Reward} (fits : reward.Fits) :
    ∀ field ∈ reward.fields, field.Plain := by
  simp only [fields, List.forall_mem_append]
  refine ⟨⟨⟨⟨⟨?_, ?_⟩, ?_⟩, ?_⟩, ?_⟩, ?_⟩
  · exact Wire.plain_repeated (by decide) (by decide) (Wire.plain_stringValues _)
  · exact Wire.plain_repeated (by decide) (by decide) (Wire.plain_int64Values _)
  · exact Wire.plain_repeated (by decide) (by decide) (Wire.plain_uint64Values fits.postBalance)
  · exact Wire.plain_repeated (by decide) (by decide) (Wire.plain_int64Values _)
  · exact Wire.plain_repeated (by decide) (by decide) (Wire.plain_stringValues _)
  · exact Wire.plain_repeated (by decide) (by decide) (Wire.plain_stringValues _)

/-- The reward is read from the bytes of its message. -/
def decode (bytes : Bytes) : Option Reward := (Wire.decodeFields bytes).bind ofFields

/-- A reward comes back from its encoding. -/
theorem decode_encodeFields {reward : Reward} (fits : reward.Fits)
    (valid : ∀ field ∈ reward.fields, field.Valid) :
    decode (Wire.encodeFields reward.fields) = some reward := by
  rw [decode, Wire.decodeFields_encodeFields valid, Option.bind_some, ofFields_fields fits]

end Reward

/-- The values of the fields of a block. -/
structure BlockMessage where
  previousBlockhash : String
  blockhash : String
  parentSlot : Nat
  transactions : List Bytes
  rewards : List Reward
  blockTime : Option UnixTimestamp
  blockHeight : Option Nat
  numPartitions : Option Nat

/-- The block is read by the rules of the wire format. -/
def BlockMessage.decode (bytes : Bytes) : Option BlockMessage := do
  let fields ← Wire.decodeFields bytes
  let previousBlockhash ← Wire.readString 1 fields
  let blockhash ← Wire.readString 2 fields
  let parentSlot ← Wire.readUint64 3 fields
  let transactions ← Wire.readRepeated 4 fields
  let rewards ← (Wire.readRepeated 5 fields).bind (List.mapM Reward.decode)
  let blockTime ← Wire.readMessage (Wire.readInt64 1) 6 fields
  let blockHeight ← Wire.readMessage (Wire.readUint64 1) 7 fields
  let numPartitions ← Wire.readMessage (Wire.readUint64 1) 8 fields
  some ⟨previousBlockhash, blockhash, parentSlot, transactions, rewards, blockTime, blockHeight,
    numPartitions⟩

namespace ConfirmedBlockProtoRef

/-- A block message has the encodings of the transactions. -/
def message (self : ConfirmedBlockProtoRef) : BlockMessage where
  previousBlockhash := self.previousBlockhash
  blockhash := self.blockhash
  parentSlot := self.parentSlot
  transactions := self.transactions.map fun tx => tx.protobuf
  rewards := self.rewards
  blockTime := self.blockTime
  blockHeight := self.blockHeight
  numPartitions := self.numPartitions

/-- The messages of one field, each by its fields. -/
def nested (tag : Nat) (messages : List (List Wire.Field)) : List Wire.Field :=
  Wire.repeated tag ((messages.map Wire.encodeFields).map Wire.FieldValue.lengthDelimited)

/-- The fields that the encoder writes. -/
def fields (self : ConfirmedBlockProtoRef) : List Wire.Field :=
  Wire.repeated 1 (Wire.stringValues self.previousBlockhash) ++
  Wire.repeated 2 (Wire.stringValues self.blockhash) ++
  Wire.repeated 3 (Wire.uint64Values self.parentSlot) ++
  Wire.repeated 4 ((self.transactions.map fun tx => tx.protobuf).map .lengthDelimited) ++
  (nested 5 (self.rewards.map Reward.fields) ++
  nested 6 (self.blockTime.toList.map fun time => Wire.repeated 1 (Wire.int64Values time)) ++
  nested 7 (self.blockHeight.toList.map fun height => Wire.repeated 1 (Wire.uint64Values height)) ++
  nested 8 (self.numPartitions.toList.map fun count => Wire.repeated 1 (Wire.uint64Values count)))

theorem encodeTransactions_fst (buf : Bytes) (transactions : List BuiltTransaction) :
    (encodeTransactions buf transactions).1 = buf ++ Wire.encodeFields
      (Wire.repeated 4 ((transactions.map fun tx => tx.protobuf).map .lengthDelimited)) := by
  rw [Wire.encodeFields_contents]
  induction transactions generalizing buf with
  | nil => simp [encodeTransactions]
  | cons tx rest ih =>
      rw [encodeTransactions]
      simp [ih, Wire.encodeBytes]

theorem footer_eq (self : ConfirmedBlockProtoRef) :
    self.footer = Wire.encodeFields
      (nested 5 (self.rewards.map Reward.fields) ++
      nested 6 (self.blockTime.toList.map fun time => Wire.repeated 1 (Wire.int64Values time)) ++
      nested 7 (self.blockHeight.toList.map fun height => Wire.repeated 1 (Wire.uint64Values height)) ++
      nested 8 (self.numPartitions.toList.map fun count =>
        Wire.repeated 1 (Wire.uint64Values count))) := by
  have reward : ∀ reward : Reward, Wire.encodeMessage 5 reward.encodedLen reward.encodeRaw =
      Wire.encodeBytes 5 (Wire.encodeFields reward.fields) := by
    intro reward
    rw [← Reward.length_encodeRaw, Reward.encodeRaw_eq]
    rfl
  simp only [nested, Wire.encodeFields_append, Wire.encodeFields_contents]
  rw [footer]
  congr 1
  · congr 1
    · congr 1
      · simp [reward, List.flatMap_map]
      · cases self.blockTime with
        | none => rfl
        | some time => simp [Wire.encodeFields_int64Values, Wire.int64Message]
    · cases self.blockHeight with
      | none => rfl
      | some height => simp [Wire.encodeFields_uint64Values, Wire.uint64Message]
  · cases self.numPartitions with
    | none => rfl
    | some count => simp [Wire.encodeFields_uint64Values, Wire.uint64Message]

/-- The buffer is the encoding of the fields. -/
theorem encodeWithTxOffsets_fst (self : ConfirmedBlockProtoRef) :
    self.encodeWithTxOffsets.1 = Wire.encodeFields self.fields := by
  have header : self.header = Wire.encodeFields
      (Wire.repeated 1 (Wire.stringValues self.previousBlockhash) ++
      Wire.repeated 2 (Wire.stringValues self.blockhash) ++
      Wire.repeated 3 (Wire.uint64Values self.parentSlot)) := by
    simp only [Wire.encodeFields_append, Wire.encodeFields_stringValues,
      Wire.encodeFields_uint64Values]
    rfl
  change (encodeTransactions self.header self.transactions).1 ++ self.footer = _
  rw [encodeTransactions_fst, header, footer_eq, fields]
  simp only [Wire.encodeFields_append]

/-- The values fit the types of the source, and so does the number of bytes. -/
structure Fits (block : ConfirmedBlockProtoRef) : Prop where
  parentSlot : block.parentSlot < 2 ^ 64
  rewards : ∀ reward ∈ block.rewards, reward.Fits
  blockTime : ∀ time ∈ block.blockTime, -9223372036854775808 ≤ time ∧ time < 9223372036854775808
  blockHeight : ∀ height ∈ block.blockHeight, height < 2 ^ 64
  numPartitions : ∀ count ∈ block.numPartitions, count < 2 ^ 64
  length : block.encodedLen < 2 ^ 64

theorem length_header (self : ConfirmedBlockProtoRef) : self.header.length =
    (if self.previousBlockhash.isEmpty then 0
      else bytesEncodedLen 1 self.previousBlockhash.toUTF8.toList) +
    (if self.blockhash.isEmpty then 0 else bytesEncodedLen 2 self.blockhash.toUTF8.toList) +
    (if self.parentSlot = 0 then 0 else Wire.encodedLenUint64 3 self.parentSlot) := by
  rw [header]
  simp only [List.length_append, Reward.length_encodeString_eq]
  congr 1
  · congr 1
    · split <;> rfl
    · split <;> rfl
  · split <;> simp

theorem length_transactions (transactions : List BuiltTransaction) :
    (transactions.flatMap fun tx => Wire.encodeBytes 4 tx.protobuf).length =
      Wire.keyLen 4 * transactions.length + (transactions.map fun tx =>
        tx.protobuf.length + Wire.encodedLenVarint tx.protobuf.length).sum :=
  Wire.length_flatMap_repeated (fun tx => Wire.length_encodeBytes 4 tx.protobuf) transactions

theorem length_rewards (rewards : List Reward) :
    (rewards.flatMap fun reward =>
      Wire.encodeMessage 5 reward.encodedLen reward.encodeRaw).length =
      Wire.keyLen 5 * rewards.length + (rewards.map fun reward =>
        reward.encodedLen + Wire.encodedLenVarint reward.encodedLen).sum := by
  apply Wire.length_flatMap_repeated
  intro reward
  rw [Wire.length_encodeMessage, Reward.length_encodeRaw]

theorem length_footer (self : ConfirmedBlockProtoRef) : self.footer.length =
    (Wire.keyLen 5 * self.rewards.length + (self.rewards.map fun reward =>
      reward.encodedLen + Wire.encodedLenVarint reward.encodedLen).sum) +
    (self.blockTime.elim 0 fun timestamp =>
      Wire.encodedLenBytes 6 (Wire.int64Message timestamp).length) +
    (self.blockHeight.elim 0 fun blockHeight =>
      Wire.encodedLenBytes 7 (Wire.uint64Message blockHeight).length) +
    (self.numPartitions.elim 0 fun numPartitions =>
      Wire.encodedLenBytes 8 (Wire.uint64Message numPartitions).length) := by
  rw [footer, List.length_append, List.length_append, List.length_append, length_rewards]
  congr 1
  · congr 1
    · congr 1
      cases self.blockTime <;> simp
    · cases self.blockHeight <;> simp
  · cases self.numPartitions <;> simp

/-- The two functions of a block agree on its length. -/
theorem encodedLen_eq (self : ConfirmedBlockProtoRef) :
    self.encodedLen = self.encodeWithTxOffsets.1.length := by
  change _ = ((encodeTransactions self.header self.transactions).1 ++ self.footer).length
  rw [encodeTransactions_fst, Wire.encodeFields_contents, List.flatMap_map, List.length_append,
    List.length_append, length_header, length_transactions, length_footer, encodedLen]
  simp only [Nat.add_assoc]
  cases self.blockTime <;> cases self.blockHeight <;> cases self.numPartitions <;> rfl

theorem nested_plain {tag : Nat} (positive : 0 < tag) (small : tag < 2 ^ 29)
    (messages : List (List Wire.Field)) : ∀ field ∈ nested tag messages, field.Plain :=
  Wire.plain_repeated positive small (Wire.plain_contents _)

theorem fields_plain {block : ConfirmedBlockProtoRef} (fits : block.Fits) :
    ∀ field ∈ block.fields, field.Plain := by
  simp only [fields, List.forall_mem_append]
  refine ⟨⟨⟨⟨?_, ?_⟩, ?_⟩, ?_⟩, ⟨⟨?_, ?_⟩, ?_⟩, ?_⟩
  · exact Wire.plain_repeated (by decide) (by decide) (Wire.plain_stringValues _)
  · exact Wire.plain_repeated (by decide) (by decide) (Wire.plain_stringValues _)
  · exact Wire.plain_repeated (by decide) (by decide) (Wire.plain_uint64Values fits.parentSlot)
  · exact Wire.plain_repeated (by decide) (by decide) (Wire.plain_contents _)
  · exact nested_plain (by decide) (by decide) _
  · exact nested_plain (by decide) (by decide) _
  · exact nested_plain (by decide) (by decide) _
  · exact nested_plain (by decide) (by decide) _

/-- The fields of an inner message are short enough when the message is. -/
theorem nested_valid {tag : Nat} {messages : List (List Wire.Field)}
    (valid : ∀ field ∈ nested tag messages, field.Valid)
    (plain : ∀ message ∈ messages, ∀ field ∈ message, field.Plain) :
    ∀ message ∈ messages, ∀ field ∈ message, field.Valid := by
  intro message member
  have content : Wire.FieldValue.lengthDelimited (Wire.encodeFields message) ∈
      (messages.map Wire.encodeFields).map Wire.FieldValue.lengthDelimited :=
    List.mem_map_of_mem (List.mem_map_of_mem member)
  exact Wire.valid_of_plain (valid _ (List.mem_map_of_mem content)).value (plain message member)

/-- An optional message comes back from its only field. -/
theorem readMessage_nested {A : Type} {read : List Wire.Field → Option A} {tag : Nat}
    {fields : List Wire.Field} {value : Option A} (message : A → List Wire.Field)
    (found : Wire.occurrences tag fields = ((value.toList.map message).map
      Wire.encodeFields).map Wire.FieldValue.lengthDelimited)
    (valid : ∀ field ∈ nested tag (value.toList.map message), field.Valid)
    (plain : ∀ content ∈ value, ∀ field ∈ message content, field.Plain)
    (reads : ∀ content ∈ value, read (message content) = some content) :
    Wire.readMessage read tag fields = some value := by
  cases value with
  | none => exact Wire.readMessage_none read found
  | some content =>
      have inner := nested_valid valid (by simpa using plain content rfl) (message content) (by simp)
      rw [Wire.readMessage_some read inner found, reads content rfl, Option.map_some]

theorem mapM_decode {rewards : List Reward} (fits : ∀ reward ∈ rewards, reward.Fits)
    (valid : ∀ message ∈ rewards.map Reward.fields, ∀ field ∈ message, field.Valid) :
    ((rewards.map Reward.fields).map Wire.encodeFields).mapM Reward.decode = some rewards := by
  induction rewards with
  | nil => rfl
  | cons reward rewards ih =>
      rw [List.map_cons, List.forall_mem_cons] at valid
      rw [List.forall_mem_cons] at fits
      rw [List.map_cons, List.map_cons, List.mapM_cons,
        Reward.decode_encodeFields fits.1 valid.1, ih fits.2 valid.2]
      rfl

/-- The buffer decodes to the values of the block. -/
theorem decode_encodeWithTxOffsets {block : ConfirmedBlockProtoRef} (fits : block.Fits) :
    BlockMessage.decode block.encodeWithTxOffsets.1 = some block.message := by
  have length := fits.length
  rw [encodedLen_eq, encodeWithTxOffsets_fst] at length
  have valid := Wire.valid_of_plain length (fields_plain fits)
  have parts := valid
  simp only [fields, List.forall_mem_append] at parts
  obtain ⟨-, ⟨⟨rewardsValid, timeValid⟩, heightValid⟩, countValid⟩ := parts
  have previousBlockhash : Wire.readString 1 block.fields = some block.previousBlockhash :=
    Wire.readString_eq (by simp [fields, nested])
  have blockhash : Wire.readString 2 block.fields = some block.blockhash :=
    Wire.readString_eq (by simp [fields, nested])
  have parentSlot : Wire.readUint64 3 block.fields = some block.parentSlot :=
    Wire.readUint64_eq (by simp [fields, nested])
  have transactions : Wire.readRepeated 4 block.fields =
      some (block.transactions.map fun tx => tx.protobuf) :=
    Wire.readRepeated_eq _ (by simp [fields, nested])
  have rewardBytes : Wire.readRepeated 5 block.fields =
      some ((block.rewards.map Reward.fields).map Wire.encodeFields) :=
    Wire.readRepeated_eq _ (by simp [fields, nested])
  have rewards : ((block.rewards.map Reward.fields).map Wire.encodeFields).mapM Reward.decode =
      some block.rewards := by
    apply mapM_decode fits.rewards
    apply nested_valid rewardsValid
    intro message member
    obtain ⟨reward, inside, rfl⟩ := List.mem_map.mp member
    exact Reward.fields_plain (fits.rewards reward inside)
  have blockTime : Wire.readMessage (Wire.readInt64 1) 6 block.fields = some block.blockTime := by
    apply readMessage_nested _ (by simp [fields, nested]) timeValid
    · intro time member
      exact Wire.plain_repeated (by decide) (by decide) (Wire.plain_int64Values time)
    · intro time member
      have range := fits.blockTime time member
      exact Wire.readInt64_eq range.1 range.2 (by simp)
  have blockHeight : Wire.readMessage (Wire.readUint64 1) 7 block.fields =
      some block.blockHeight := by
    apply readMessage_nested _ (by simp [fields, nested]) heightValid
    · intro height member
      exact Wire.plain_repeated (by decide) (by decide)
        (Wire.plain_uint64Values (fits.blockHeight height member))
    · intro height member
      exact Wire.readUint64_eq (by simp)
  have numPartitions : Wire.readMessage (Wire.readUint64 1) 8 block.fields =
      some block.numPartitions := by
    apply readMessage_nested _ (by simp [fields, nested]) countValid
    · intro count member
      exact Wire.plain_repeated (by decide) (by decide)
        (Wire.plain_uint64Values (fits.numPartitions count member))
    · intro count member
      exact Wire.readUint64_eq (by simp)
  rw [encodeWithTxOffsets_fst, BlockMessage.decode, Wire.decodeFields_encodeFields valid]
  simp only [Option.bind_eq_bind, Option.bind_some, previousBlockhash, blockhash, parentSlot,
    transactions, rewardBytes, rewards, blockTime, blockHeight, numPartitions]
  rfl

/-- The encoding has the values of the block, its offsets and the lengths that were counted. -/
structure EncodesFields (block : ConfirmedBlockProtoRef) : Prop where
  decodes : BlockMessage.decode block.encodeWithTxOffsets.1 = some block.message
  selects : List.Forall₂ (fun record tx => record.Selects block.encodeWithTxOffsets.1 tx)
    block.encodeWithTxOffsets.2 block.transactions
  length : block.encodedLen = block.encodeWithTxOffsets.1.length
  rewards : ∀ reward ∈ block.rewards, reward.encodedLen = reward.encodeRaw.length

/-- Every block whose values fit their types is encoded with its fields. -/
theorem encodesFields (block : ConfirmedBlockProtoRef) (fits : block.Fits) :
    block.EncodesFields where
  decodes := decode_encodeWithTxOffsets fits
  selects := encodeWithTxOffsets_selects block
  length := encodedLen_eq block
  rewards := fun reward _ => reward.length_encodeRaw.symm

/-- The block has one transaction, one reward and every optional field. -/
def sample : ConfirmedBlockProtoRef where
  previousBlockhash := "a"
  blockhash := ""
  parentSlot := 300
  transactions := [⟨⟨Signature.default, none, [1, 2, 3], 0⟩, 5, false, []⟩]
  rewards := [⟨"c", -5, 0, some .fee, some 7, some 700⟩]
  blockTime := some (-1)
  blockHeight := some 0
  numPartitions := some 1

theorem encodesFields_sample : sample.EncodesFields :=
  encodesFields sample
    { parentSlot := by decide
      rewards := by
        intro reward member
        obtain rfl := List.mem_singleton.mp member
        exact ⟨by decide, by decide, by simp⟩
      blockTime := by simp [sample]
      blockHeight := by simp [sample]
      numPartitions := by simp [sample]
      length := by
        simp only [sample, encodedLen, Reward.encodedLen, bytesEncodedLen, Wire.length_utf8,
          List.map_cons, List.map_nil]
        decide }

end ConfirmedBlockProtoRef

end Alpamayo
