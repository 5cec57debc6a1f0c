import Alpamayo.Proof.StatusesAnswered
import Alpamayo.Rpc.SignatureStatuses

/-!
This file shows how the call `getSignatureStatuses` completes the statuses of the reader.
-/

namespace Alpamayo

/-- The first occurrences are looked up, and each signature has a place in the answer. -/
theorem length_createResult (signatures : List Signature) (found : HashMap Signature TransactionStatus) :
    (createResult signatures found).length = signatures.length := by
  induction signatures generalizing found with
  | nil => rfl
  | cons first rest ih => rw [createResult, List.length_cons, ih, List.length_cons]

/-- An answered list has a place for each signature. -/
theorem Reader.length_answer {reader : Reader} {rows : TransactionRows} {keys : HashedKeys}
    {expired late search : Bool} {signatures : List Signature}
    {statuses : List (Option TransactionStatus)}
    (answer : reader.processSignatureStatuses rows keys expired late search signatures =
      .signatures statuses) : statuses.length = signatures.length := by
  rw [processSignatureStatuses] at answer
  split at answer
  · cases answer
  · simp only at answer
    split at answer
    · cases answer
      exact length_createResult _ _
    · split at answer
      · cases answer
      · split at answer
        · cases answer
        · cases answer
          exact length_createResult _ _

namespace RpcRequestSignatureStatuses

variable {signatures : List Signature} {statuses signaturesUpstream : List (Option TransactionStatus)}

/-- The upstream's list is too short exactly if a missing status has no place in it. -/
theorem fillStatuses_eq_none_iff {index : Nat} (inside : index ≤ signaturesUpstream.length) :
    fillStatuses signaturesUpstream index statuses = none ↔
      signaturesUpstream.length < index + statuses.countP Option.isNone := by
  induction statuses generalizing index with
  | nil => simp [fillStatuses, inside]
  | cons status statuses ih =>
      cases status with
      | some status =>
          rw [fillStatuses, Option.map_eq_none_iff, ih inside, List.countP_cons_of_neg (by simp)]
      | none =>
          rw [fillStatuses, List.countP_cons_of_pos (by simp)]
          cases known : signaturesUpstream[index]? with
          | none =>
              have last := List.getElem?_eq_none_iff.mp known
              simp only [true_iff]
              omega
          | some status =>
              have more := (List.getElem?_eq_some_iff.mp known).1
              simp only [Option.map_eq_none_iff]
              rw [ih more]
              omega

/-- The upstream is asked for as many signatures as statuses are missing. -/
theorem length_signaturesHistory (same : signatures.length = statuses.length) :
    (signaturesHistory signatures statuses).length = statuses.countP Option.isNone := by
  rw [signaturesHistory, List.length_map, ← List.countP_eq_length_filter]
  induction signatures generalizing statuses with
  | nil =>
      rw [List.length_eq_zero_iff.mp same.symm]
      rfl
  | cons signature signatures ih =>
      cases statuses with
      | nil => cases same
      | cons status statuses =>
          rw [List.zip_cons_cons, List.countP_cons, List.countP_cons, ih (Nat.succ.inj same)]

/-- The statuses of the missing signatures come to the places of their signatures. -/
theorem fillStatuses_map (statusOf : Signature → Option TransactionStatus)
    (before : List (Option TransactionStatus)) (same : signatures.length = statuses.length) :
    fillStatuses (before ++ (signaturesHistory signatures statuses).map statusOf) before.length
        statuses =
      some (List.zipWith (fun signature status => status.or (statusOf signature))
        signatures statuses) := by
  induction statuses generalizing signatures before with
  | nil =>
      rw [List.length_eq_zero_iff.mp same]
      rfl
  | cons status statuses ih =>
      cases signatures with
      | nil => cases same
      | cons signature signatures =>
          have shorter : signatures.length = statuses.length := Nat.succ.inj same
          cases status with
          | some status =>
              have rest : signaturesHistory (signature :: signatures) (some status :: statuses) =
                  signaturesHistory signatures statuses := rfl
              rw [fillStatuses, rest, ih before shorter]
              rfl
          | none =>
              have rest : signaturesHistory (signature :: signatures) (none :: statuses) =
                  signature :: signaturesHistory signatures statuses := rfl
              have moved : before ++ statusOf signature ::
                  (signaturesHistory signatures statuses).map statusOf =
                    before ++ [statusOf signature] ++
                      (signaturesHistory signatures statuses).map statusOf := by
                rw [List.append_assoc, List.singleton_append]
              rw [fillStatuses, rest, List.map_cons, List.getElem?_append_right le_rfl, Nat.sub_self]
              show (fillStatuses (before ++ statusOf signature :: _) (before.length + 1) statuses).map
                (statusOf signature :: ·) = _
              have length : before.length + 1 = (before ++ [statusOf signature]).length := by
                rw [List.length_append, List.length_singleton]
              rw [moved, length, ih (before ++ [statusOf signature]) shorter]
              rfl

/-- The slot of the commitment has reached the least context slot. -/
theorem checkContext_eq_ok_iff {slots : ContextSlots} {commitment : CommitmentLevel}
    {least : Option Nat} : checkContext slots commitment least = .ok () ↔
      ∀ slot ∈ least, slot ≤ slots.load commitment := by
  cases least with
  | none => simp [checkContext]
  | some slot => simp [checkContext]

/-- The parser accepts exactly these requests. -/
theorem parse_eq_ok_iff {verifySignature : String → Except String Signature}
    {gssTransactionHistory upstreamDisabled : Bool} {slots : ContextSlots}
    {signatureStrs : List String} {config : Option RpcSignatureStatusConfig}
    {request : RpcRequestSignatureStatuses} :
    parse verifySignature gssTransactionHistory slots upstreamDisabled signatureStrs config =
        .ok request ↔
      signatureStrs.length ≤ maxGetSignatureStatusesQueryItems ∧
        readSignatures verifySignature signatureStrs = .ok request.signatures ∧
        ((config.getD .default).searchTransactionHistory = true → gssTransactionHistory = true) ∧
        (∀ least ∈ (config.getD .default).minContextSlot, least ≤ slots.load
          ((config.getD .default).commitment.getD .processed)) ∧
        request = ⟨upstreamDisabled, request.signatures,
          (config.getD .default).searchTransactionHistory,
          (config.getD .default).commitment.getD .processed⟩ := by
  unfold parse
  by_cases many : maxGetSignatureStatusesQueryItems < signatureStrs.length
  · rw [if_pos many]
    simp [Nat.not_le.mpr many]
  · rw [if_neg many]
    cases reads : readSignatures verifySignature signatureStrs with
    | error error => simp
    | ok signatures =>
        by_cases allowed : (config.getD .default).searchTransactionHistory = true →
            gssTransactionHistory = true
        · have passes : ((config.getD .default).searchTransactionHistory &&
              !gssTransactionHistory) = false := by
            cases searches : (config.getD .default).searchTransactionHistory with
            | false => rfl
            | true =>
                rw [allowed searches]
                rfl
          simp only [passes, Bool.false_eq_true, if_false]
          rw [← checkContext_eq_ok_iff]
          cases checkContext slots ((config.getD .default).commitment.getD .processed)
              (config.getD .default).minContextSlot with
          | error error => simp [Except.map]
          | ok done =>
              simp only [Except.map, Except.ok.injEq, Nat.not_lt.mp many, true_and]
              constructor
              · intro same
                rw [← same]
                exact ⟨rfl, fun searches => allowed searches, rfl⟩
              · intro known
                rw [known.2.2, known.1]
        · rw [Classical.not_imp, Bool.not_eq_true] at allowed
          simp [allowed.1, allowed.2]

/-- The upstream knows what it answers for each signature of a list. -/
def Knows (upstream : UpstreamStatuses) (statusOf : Signature → Option TransactionStatus) : Prop :=
  ∀ signatures answered, upstream signatures = .ok (.ok answered) → answered = signatures.map statusOf

/-- The upstream answers at least one status for each signature of a list. -/
def AnswersEnough (upstream : UpstreamStatuses) : Prop :=
  ∀ signatures answered, upstream signatures = .ok (.ok answered) → signatures.length ≤ answered.length

/-- The upstream takes part in the call. -/
def asksUpstream (self : RpcRequestSignatureStatuses) (upstream : Option UpstreamStatuses) : Bool :=
  upstream.isSome && self.searchTransactionHistory && !self.upstreamDisabled

/-- What the reader answers at a place, as far as it has reached the commitment. -/
def localStatus (self : RpcRequestSignatureStatuses)
    (satisfiesCommitment : TransactionStatus → CommitmentLevel → Bool) (reader : Reader)
    (rows : TransactionRows) (keys : HashedKeys) (index : Nat) (signature : Signature) :
    Option TransactionStatus :=
  (if signature ∈ self.signatures.take index then none
    else reader.statusOf rows keys self.searchTransactionHistory signature).filter fun status =>
      satisfiesCommitment status self.commitment

variable {self : RpcRequestSignatureStatuses}
  {satisfiesCommitment : TransactionStatus → CommitmentLevel → Bool} {slots : ContextSlots}
  {upstream : Option UpstreamStatuses} {statusOf : Signature → Option TransactionStatus}

/-- The statuses that have reached the commitment. -/
def visible (self : RpcRequestSignatureStatuses)
    (satisfiesCommitment : TransactionStatus → CommitmentLevel → Bool)
    (found : List (Option TransactionStatus)) : List (Option TransactionStatus) :=
  found.map fun status => status.filter fun status => satisfiesCommitment status self.commitment

/-- Without an upstream the visible statuses are the answer. -/
theorem process_none {found : List (Option TransactionStatus)} :
    self.process satisfiesCommitment slots none (.signatures found) =
      .statuses (slots.load self.commitment) (self.visible satisfiesCommitment found) := rfl

/-- With an upstream the missing statuses are asked for if the call may ask. -/
theorem process_some {client : UpstreamStatuses} {found : List (Option TransactionStatus)} :
    self.process satisfiesCommitment slots (some client) (.signatures found) =
      if self.asksUpstream (some client) &&
          (self.visible satisfiesCommitment found).any Option.isNone then
        self.fetchUpstream slots client (self.visible satisfiesCommitment found)
      else .statuses (slots.load self.commitment) (self.visible satisfiesCommitment found) := rfl

/-- A visible status is the answer at its place, and the upstream fills the others. -/
theorem process_statuses {found : List (Option TransactionStatus)}
    (same : self.signatures.length = found.length)
    (knows : ∀ client ∈ upstream, Knows client statusOf) {contextSlot : Nat}
    (answer : self.process satisfiesCommitment slots upstream (.signatures found) =
      .statuses contextSlot statuses) :
    contextSlot = slots.load self.commitment ∧
      statuses = List.zipWith (fun signature status =>
        status.or (if self.asksUpstream upstream then statusOf signature else none))
          self.signatures (self.visible satisfiesCommitment found) := by
  have length : self.signatures.length = (self.visible satisfiesCommitment found).length := by
    rw [visible, List.length_map, same]
  have plain (other : Signature → Option TransactionStatus)
      (unused : ∀ status ∈ self.visible satisfiesCommitment found, ∀ signature,
        status.or (other signature) = status) :
      self.visible satisfiesCommitment found = List.zipWith (fun signature status =>
        status.or (other signature)) self.signatures (self.visible satisfiesCommitment found) := by
    apply List.ext_getElem?
    intro index
    rw [List.getElem?_zipWith]
    cases here : (self.visible satisfiesCommitment found)[index]? with
    | none => cases self.signatures[index]? <;> rfl
    | some status =>
        have inside : index < self.signatures.length := by
          rw [length]
          exact (List.getElem?_eq_some_iff.mp here).1
        rw [List.getElem?_eq_getElem inside]
        exact congrArg some (unused status (List.mem_of_getElem? here) _).symm
  cases upstream with
  | none =>
      rw [process_none] at answer
      cases answer
      constructor
      · rfl
      · apply plain
        intro status _ signature
        exact Option.or_none
  | some client =>
      rw [process_some] at answer
      split at answer
      · rename_i asked
        rw [Bool.and_eq_true] at asked
        unfold fetchUpstream at answer
        split at answer
        · cases answer
        · cases answer
        · rename_i answered reply
          obtain rfl := knows client rfl _ _ reply
          have filled := fillStatuses_map statusOf [] length
          rw [List.nil_append, List.length_nil] at filled
          rw [filled] at answer
          cases answer
          rw [asked.1]
          exact ⟨rfl, rfl⟩
      · rename_i notAsked
        cases answer
        constructor
        · rfl
        · apply plain
          intro status member signature
          cases needs : self.asksUpstream (some client) with
          | false => exact Option.or_none
          | true =>
              cases status with
              | some status => rfl
              | none =>
                  apply absurd _ notAsked
                  rw [needs, Bool.true_and, List.any_eq_true]
                  exact ⟨none, member, rfl⟩

/-- The call panics exactly if the upstream's list is shorter than the missing statuses. -/
theorem process_panicked_iff {found : List (Option TransactionStatus)} {reason : String} :
    self.process satisfiesCommitment slots upstream (.signatures found) = .panicked reason ↔
      reason = "index out of bounds" ∧ self.asksUpstream upstream = true ∧
        ∃ client ∈ upstream, ∃ answered,
          client (signaturesHistory self.signatures (self.visible satisfiesCommitment found)) =
            .ok (.ok answered) ∧
          answered.length < (self.visible satisfiesCommitment found).countP Option.isNone := by
  cases upstream with
  | none => simp [process_none]
  | some client =>
      rw [process_some]
      simp only [Option.mem_def, Option.some.injEq, exists_eq_left']
      have short (answered : List (Option TransactionStatus)) :
          fillStatuses answered 0 (self.visible satisfiesCommitment found) = none ↔
            answered.length < (self.visible satisfiesCommitment found).countP Option.isNone := by
        rw [fillStatuses_eq_none_iff (Nat.zero_le _), Nat.zero_add]
      split
      · rename_i asked
        rw [Bool.and_eq_true] at asked
        rw [asked.1, fetchUpstream]
        split
        · rename_i reply
          simp [reply]
        · rename_i reply
          simp [reply]
        · rename_i answered reply
          simp only [reply, Except.ok.injEq, exists_eq_left', true_and, ← short]
          cases fillStatuses answered 0 (self.visible satisfiesCommitment found) with
          | none => simp [eq_comm]
          | some filled => simp
      · rename_i notAsked
        simp only [reduceCtorEq, false_iff]
        intro known
        obtain ⟨-, needs, answered, -, fewer⟩ := known
        apply notAsked
        rw [needs, Bool.true_and, List.any_eq_true]
        exact List.countP_pos_iff.mp (Nat.zero_lt_of_lt fewer)

/-- The answer of the reader is completed by what the upstream knows. -/
theorem process_statuses_each {reader : Reader} {rows : TransactionRows} {keys : HashedKeys}
    {expired late : Bool} {contextSlot : Nat} {statuses : List (Option TransactionStatus)} (knows : ∀ client ∈ upstream, Knows client statusOf)
    (answer : self.process satisfiesCommitment slots upstream (reader.processSignatureStatuses rows keys
      expired late self.searchTransactionHistory self.signatures) = .statuses contextSlot statuses) :
    contextSlot = slots.load self.commitment ∧ statuses.length = self.signatures.length ∧
      ∀ index signature, self.signatures[index]? = some signature → statuses[index]? =
        some ((self.localStatus satisfiesCommitment reader rows keys index signature).or
          (if self.asksUpstream upstream then statusOf signature else none)) := by
  cases answered : reader.processSignatureStatuses rows keys expired late
      self.searchTransactionHistory self.signatures with
  | timeout =>
      rw [answered] at answer
      cases answer
  | readError error =>
      rw [answered] at answer
      cases answer
  | signatures found =>
      rw [answered] at answer
      have same := (Reader.length_answer answered).symm
      obtain ⟨context, zipped⟩ := process_statuses same knows answer
      refine ⟨context, ?_, fun index signature known => ?_⟩
      · rw [zipped, List.length_zipWith, visible, List.length_map, ← same, Nat.min_self]
      · rw [zipped, List.getElem?_zipWith, known, visible, List.getElem?_map,
          Reader.answer_get answered known]
        rfl

/-- An upstream that answers enough statuses causes no panic. -/
theorem process_ne_panicked {reader : Reader} {rows : TransactionRows} {keys : HashedKeys}
    {expired late : Bool} (enough : ∀ client ∈ upstream, AnswersEnough client) (reason : String) :
    self.process satisfiesCommitment slots upstream (reader.processSignatureStatuses rows keys expired
      late self.searchTransactionHistory self.signatures) ≠ .panicked reason := by
  intro panicked
  cases answered : reader.processSignatureStatuses rows keys expired late
      self.searchTransactionHistory self.signatures with
  | timeout =>
      rw [answered] at panicked
      cases panicked
  | readError error =>
      rw [answered] at panicked
      cases panicked
  | signatures found =>
      rw [answered] at panicked
      obtain ⟨-, -, client, isClient, list, reply, fewer⟩ := process_panicked_iff.mp panicked
      have asked := enough client isClient _ _ reply
      rw [length_signaturesHistory] at asked
      · exact Nat.lt_irrefl _ (Nat.lt_of_lt_of_le fewer asked)
      · rw [visible, List.length_map, Reader.length_answer answered]

/-- An accepted request has at most as many signatures as the call allows and searches the history only
where it may. Each signature of its answer has its own status of the reader if this has reached the
commitment, and otherwise what the upstream knows about it. The call panics at no upstream that answers
enough statuses. -/
theorem answersEach (verifySignature : String → Except String Signature)
    (gssTransactionHistory upstreamDisabled : Bool) (before after : ContextSlots)
    (signatureStrs : List String) (config : Option RpcSignatureStatusConfig)
    (self : RpcRequestSignatureStatuses)
    (parsed : parse verifySignature gssTransactionHistory before upstreamDisabled signatureStrs config =
      .ok self)
    (satisfiesCommitment : TransactionStatus → CommitmentLevel → Bool)
    (upstream : Option UpstreamStatuses) (reader : Reader) (rows : TransactionRows)
    (keys : HashedKeys) (expired late : Bool) :
    (signatureStrs.length ≤ maxGetSignatureStatusesQueryItems ∧
      (self.searchTransactionHistory = true → gssTransactionHistory = true) ∧
      ∀ least ∈ (config.getD .default).minContextSlot, least ≤ before.load self.commitment) ∧
    (∀ statusOf : Signature → Option TransactionStatus, (∀ client ∈ upstream, Knows client statusOf) →
      ∀ contextSlot statuses,
      self.process satisfiesCommitment after upstream (reader.processSignatureStatuses rows keys expired
        late self.searchTransactionHistory self.signatures) = .statuses contextSlot statuses →
      contextSlot = after.load self.commitment ∧ statuses.length = self.signatures.length ∧
        ∀ index signature, self.signatures[index]? = some signature → statuses[index]? =
          some ((self.localStatus satisfiesCommitment reader rows keys index signature).or
            (if self.asksUpstream upstream then statusOf signature else none))) ∧
    ((∀ client ∈ upstream, AnswersEnough client) →
      ∀ reason, self.process satisfiesCommitment after upstream (reader.processSignatureStatuses rows
        keys expired late self.searchTransactionHistory self.signatures) ≠ .panicked reason) := by
  refine ⟨?_, ?_, ?_⟩
  · obtain ⟨few, -, allowed, reached, same⟩ := parse_eq_ok_iff.mp parsed
    rw [same]
    exact ⟨few, allowed, reached⟩
  · intro statusOf knows contextSlot statuses answer
    exact process_statuses_each knows answer
  · intro enough reason
    exact process_ne_panicked enough reason

/-- This status is old. -/
def oldStatus : TransactionStatus := ⟨5, none, .ok (), none, some .finalized⟩

/-- The request asks for two signatures. -/
def twoSignatures : RpcRequestSignatureStatuses := ⟨false, [⟨1⟩, ⟨3⟩], true, .confirmed⟩

/-- The upstream has the old status for every signature. -/
def oldUpstream : UpstreamStatuses := fun signatures =>
  .ok (.ok (signatures.map fun _ => some oldStatus))

theorem oldUpstream_knows : ∀ client ∈ some oldUpstream, Knows client fun _ => some oldStatus := by
  intro client isClient signatures answered reply
  cases isClient
  cases reply
  rfl

theorem oldUpstream_enough : ∀ client ∈ some oldUpstream, AnswersEnough client := by
  intro client isClient signatures answered reply
  cases isClient
  cases reply
  rw [List.length_map]

/-- The reader knows the first signature, and the upstream the second one; the call does
not panic. -/
theorem answersEach_missing :
    twoSignatures.process (fun _ _ => true) ⟨11, 10, 9⟩ (some oldUpstream)
        (Reader.statusesReader.processSignatureStatuses Reader.finalizedRows Reader.signatureKeys false
          false true [⟨1⟩, ⟨3⟩]) =
      .statuses 10 [some Reader.confirmedStatus, some oldStatus] ∧
    [some Reader.confirmedStatus, some oldStatus][1]? =
      some ((twoSignatures.localStatus (fun _ _ => true) Reader.statusesReader Reader.finalizedRows
        Reader.signatureKeys 1 ⟨3⟩).or (some oldStatus)) ∧
    ∀ reason, twoSignatures.process (fun _ _ => true) ⟨11, 10, 9⟩ (some oldUpstream)
        (Reader.statusesReader.processSignatureStatuses Reader.finalizedRows Reader.signatureKeys false
          false true [⟨1⟩, ⟨3⟩]) ≠ .panicked reason := by
  have answer : twoSignatures.process (fun _ _ => true) ⟨11, 10, 9⟩ (some oldUpstream)
      (Reader.statusesReader.processSignatureStatuses Reader.finalizedRows Reader.signatureKeys false
        false true [⟨1⟩, ⟨3⟩]) =
    .statuses 10 [some Reader.confirmedStatus, some oldStatus] := rfl
  obtain ⟨-, each, calm⟩ := answersEach (fun text => .ok ⟨text.length⟩) true false ⟨10, 9, 8⟩
    ⟨11, 10, 9⟩ ["a", "abc"] (some ⟨true, some .confirmed, none⟩) twoSignatures rfl (fun _ _ => true)
    (some oldUpstream) Reader.statusesReader Reader.finalizedRows Reader.signatureKeys false false
  refine ⟨answer, ?_, calm oldUpstream_enough⟩
  exact (each (fun _ => some oldStatus) oldUpstream_knows 10 _ answer).2.2 1 ⟨3⟩ rfl

end RpcRequestSignatureStatuses

end Alpamayo
