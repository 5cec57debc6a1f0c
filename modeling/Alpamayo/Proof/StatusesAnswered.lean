import Alpamayo.Storage.ReadStatuses

/-!
This file compares the answer for a list of signatures with the answers for its elements.
-/

namespace Alpamayo

/-- A status is taken by the first occurrence of its signature. -/
theorem createResult_get {signatures : List Signature} {found : HashMap Signature TransactionStatus}
    {index : Nat} {signature : Signature} (known : signatures[index]? = some signature) :
    (createResult signatures found)[index]? =
      some (if signature ∈ signatures.take index then none else found.get signature) := by
  induction signatures generalizing found index with
  | nil => cases known
  | cons first rest ih =>
      rw [createResult]
      cases index with
      | zero =>
          cases known
          simp
      | succ index =>
          rw [List.getElem?_cons_succ] at known ⊢
          rw [ih known, List.take_succ_cons, HashMap.get_remove]
          congr 1
          by_cases same : signature = first
          · simp [same]
          · simp [same]

namespace Reader

variable {reader : Reader} {rows : TransactionRows} {keys : HashedKeys} {expired late search : Bool}
  {signatures pending : List Signature} {signature : Signature}
  {found : HashMap Signature TransactionStatus}
  {history : List (Signature × TransactionIndexValue)} {statuses : List (Option TransactionStatus)}

/-- The finalized record of the signature in the history. -/
def historyStatus (reader : Reader) (rows : TransactionRows) (keys : HashedKeys)
    (signature : Signature) : Option TransactionStatus :=
  match rows.get (keys.signatureKey signature) with
  | some (.ok value) =>
      if value.slot ≤ reader.storageProcessed.finalizedSlot then some value.toStatus else none
  | _ => none

/-- The status that the reader and the database have for the signature. -/
def statusOf (reader : Reader) (rows : TransactionRows) (keys : HashedKeys) (search : Bool)
    (signature : Signature) : Option TransactionStatus :=
  (reader.storageProcessed.getSignatureStatus signature).or
    (if search then reader.historyStatus rows keys signature else none)

theorem get_addRecent (reader : Reader) (found : HashMap Signature TransactionStatus)
    (first signature : Signature) : (reader.addRecent found first).get signature =
      if signature = first then
        (reader.storageProcessed.getSignatureStatus first).or (found.get signature)
      else found.get signature := by
  rw [addRecent]
  cases reader.storageProcessed.getSignatureStatus first with
  | none => simp
  | some status => rw [HashMap.get_insert, Option.some_or]

theorem get_foldl_addRecent (reader : Reader) (signatures : List Signature)
    (found : HashMap Signature TransactionStatus) (signature : Signature) :
    (signatures.foldl reader.addRecent found).get signature = if signature ∈ signatures then
      (reader.storageProcessed.getSignatureStatus signature).or (found.get signature)
    else found.get signature := by
  induction signatures generalizing found with
  | nil => rfl
  | cons first rest ih =>
      rw [List.foldl_cons, ih, get_addRecent]
      by_cases same : signature = first
      · subst same
        simp only [if_true, List.mem_cons, true_or, ← Option.or_assoc, Option.or_self, ite_self]
      · simp [same]

theorem get_addFinalized (reader : Reader) (found : HashMap Signature TransactionStatus)
    (entry : Signature × TransactionIndexValue) (signature : Signature) :
    (reader.addFinalized found entry).get signature =
      if signature = entry.1 ∧ entry.2.slot ≤ reader.storageProcessed.finalizedSlot then
        some entry.2.toStatus
      else found.get signature := by
  rw [addFinalized]
  split
  · rename_i finalized
    rw [HashMap.get_insert]
    simp [finalized]
  · rename_i later
    rw [if_neg fun both => later both.2]

/-- The history adds its finalized records. -/
theorem get_foldl_addFinalized (read : spawnSignatureStatuses rows keys pending = .ok history) :
    (history.foldl reader.addFinalized found).get signature = if signature ∈ pending then
      (reader.historyStatus rows keys signature).or (found.get signature)
    else found.get signature := by
  induction pending generalizing history found with
  | nil =>
      cases read
      rfl
  | cons first rest ih =>
      rw [spawnSignatureStatuses] at read
      cases row : rows.get (keys.signatureKey first) with
      | none =>
          rw [row] at read
          rw [ih read]
          by_cases same : signature = first
          · subst same
            simp [historyStatus, row]
          · simp [same]
      | some value =>
          rw [row] at read
          cases value with
          | error error => cases read
          | ok value =>
              cases later : spawnSignatureStatuses rows keys rest with
              | error error =>
                  simp only [later] at read
                  cases read
              | ok others =>
                  simp only [later] at read
                  cases read
                  rw [List.foldl_cons, ih later, get_addFinalized]
                  by_cases same : signature = first
                  · subst same
                    by_cases finalized : value.slot ≤ reader.storageProcessed.finalizedSlot
                    · simp [historyStatus, row, finalized]
                    · simp [historyStatus, row, finalized]
                  · simp [same]

/-- What is not found in memory is read when the history is searched. -/
theorem mem_historySignatures : signature ∈ reader.historySignatures search signatures ↔
    search = true ∧ signature ∈ signatures ∧
      reader.storageProcessed.getSignatureStatus signature = none := by
  rw [historySignatures]
  cases search with
  | true => simp
  | false => simp

/-- The list of an answer takes the status of each element. -/
theorem answer_get (answer : reader.processSignatureStatuses rows keys expired late search signatures =
    .signatures statuses) {index : Nat} (known : signatures[index]? = some signature) :
    statuses[index]? = some (if signature ∈ signatures.take index then none
      else reader.statusOf rows keys search signature) := by
  have member : signature ∈ signatures := List.mem_of_getElem? known
  have recent : (reader.recentStatuses signatures).get signature =
      reader.storageProcessed.getSignatureStatus signature := by
    rw [recentStatuses, get_foldl_addRecent, if_pos member, HashMap.get_empty, Option.or_none]
  rw [processSignatureStatuses] at answer
  split at answer
  · cases answer
  · simp only at answer
    split at answer
    · rename_i nothing
      cases answer
      rw [createResult_get known, recent, statusOf]
      congr 2
      cases search with
      | false => simp
      | true =>
          have absent : signature ∉ reader.historySignatures true signatures := by
            rw [List.isEmpty_iff] at nothing
            rw [nothing]
            exact List.not_mem_nil
          rw [mem_historySignatures] at absent
          cases inMemory : reader.storageProcessed.getSignatureStatus signature with
          | some status => rfl
          | none => exact absurd ⟨rfl, member, inMemory⟩ absent
    · split at answer
      · cases answer
      · split at answer
        · cases answer
        · rename_i history read
          cases answer
          rw [createResult_get known, get_foldl_addFinalized read, recent, statusOf]
          congr 2
          cases inMemory : reader.storageProcessed.getSignatureStatus signature with
          | some status =>
              have absent : signature ∉ reader.historySignatures search signatures := by
                rw [mem_historySignatures, inMemory]
                rintro ⟨-, -, ⟨⟩⟩
              rw [if_neg absent, Option.some_or]
          | none =>
              cases search with
              | false => simp [historySignatures]
              | true =>
                  rw [if_pos (mem_historySignatures.mpr ⟨rfl, member, inMemory⟩)]
                  simp

/-- The rows of a list can be read when those of a longer one can. -/
theorem spawnSignatureStatuses_single (read : spawnSignatureStatuses rows keys pending = .ok history)
    (member : signature ∈ pending) :
    ∃ alone, spawnSignatureStatuses rows keys [signature] = .ok alone := by
  induction pending generalizing history with
  | nil => cases member
  | cons first rest ih =>
      rw [spawnSignatureStatuses] at read
      cases row : rows.get (keys.signatureKey first) with
      | none =>
          rw [row] at read
          obtain rfl | later := List.mem_cons.mp member
          · exact ⟨[], by rw [spawnSignatureStatuses, row]; rfl⟩
          · exact ih read later
      | some value =>
          rw [row] at read
          cases value with
          | error error => cases read
          | ok value =>
              cases others : spawnSignatureStatuses rows keys rest with
              | error error =>
                  simp only [others] at read
                  cases read
              | ok other =>
                  obtain rfl | later := List.mem_cons.mp member
                  · exact ⟨[(signature, value)], by rw [spawnSignatureStatuses, row]; rfl⟩
                  · exact ih others later

/-- A request for one element of an answered list is answered. -/
theorem answer_single (answer : reader.processSignatureStatuses rows keys expired late search
    signatures = .signatures statuses) (member : signature ∈ signatures) :
    reader.processSignatureStatuses rows keys expired late search [signature] =
      .signatures [reader.statusOf rows keys search signature] := by
  have answered : ∃ status, reader.processSignatureStatuses rows keys expired late search
      [signature] = .signatures [status] := by
    rw [processSignatureStatuses] at answer ⊢
    split at answer
    · cases answer
    · rename_i onTime
      rw [if_neg onTime]
      simp only at answer ⊢
      cases single : (reader.historySignatures search [signature]).isEmpty with
      | true => exact ⟨(reader.recentStatuses [signature]).get signature, rfl⟩
      | false =>
          obtain ⟨other, isOther⟩ := List.isEmpty_eq_false_iff_exists_mem.mp single
          obtain ⟨searched, isSingle, absent⟩ := mem_historySignatures.mp isOther
          obtain rfl := List.mem_singleton.mp isSingle
          have pending : other ∈ reader.historySignatures search signatures :=
            mem_historySignatures.mpr ⟨searched, member, absent⟩
          have one : reader.historySignatures search [other] = [other] := by
            simp [historySignatures, searched, absent]
          split at answer
          · rename_i nothing
            rw [List.isEmpty_iff] at nothing
            rw [nothing] at pending
            cases pending
          · split at answer
            · cases answer
            · rename_i inTime
              split at answer
              · cases answer
              · rename_i history read
                obtain ⟨alone, isAlone⟩ := spawnSignatureStatuses_single read pending
                rw [if_neg (by decide), if_neg inTime, one, isAlone]
                exact ⟨_, rfl⟩
  obtain ⟨status, single⟩ := answered
  have first : [status][0]? = some (if signature ∈ [signature].take 0 then none
      else reader.statusOf rows keys search signature) := answer_get single rfl
  rw [List.take_zero, if_neg List.not_mem_nil] at first
  rw [single, Option.some.inj first]

/-- Neither the memory of the reader nor a finalized record of a searched history knows the
signature. -/
def Unknown (reader : Reader) (rows : TransactionRows) (keys : HashedKeys) (search : Bool)
    (signature : Signature) : Prop :=
  reader.storageProcessed.signatureStatuses.get signature = none ∧ (search = true →
    ∀ value, rows.get (keys.signatureKey signature) = some (.ok value) →
      reader.storageProcessed.finalizedSlot < value.slot)

theorem statusOf_eq_none_iff : reader.statusOf rows keys search signature = none ↔
    reader.Unknown rows keys search signature := by
  rw [statusOf, Option.or_eq_none_iff, Unknown, StorageProcessed.getSignatureStatus,
    Option.map_eq_none_iff]
  apply and_congr_right
  intro _
  cases search with
  | false => simp
  | true =>
      rw [if_pos rfl, historyStatus]
      cases row : rows.get (keys.signatureKey signature) with
      | none => simp
      | some value =>
          cases value with
          | error error => simp
          | ok value => simp

/-- The element of an answered list is that of the request for its signature alone exactly if the
signature does not occur before it or is unknown. -/
theorem answers_pointwise_iff (reader : Reader) (rows : TransactionRows) (keys : HashedKeys)
    (expired late search : Bool) (signatures : List Signature)
    (statuses : List (Option TransactionStatus))
    (answer : reader.processSignatureStatuses rows keys expired late search signatures =
      .signatures statuses) (index : Nat) (signature : Signature)
    (known : signatures[index]? = some signature) :
    (∃ status, statuses[index]? = some status ∧
      reader.processSignatureStatuses rows keys expired late search [signature] =
        .signatures [status]) ↔
      signature ∉ signatures.take index ∨ reader.Unknown rows keys search signature := by
  rw [answer_get answer known, answer_single answer (List.mem_of_getElem? known),
    ← statusOf_eq_none_iff]
  by_cases earlier : signature ∈ signatures.take index
  · simp only [earlier, if_true, not_true, false_or, Option.some.injEq, exists_eq_left',
      ReadResultSignatureStatuses.signatures.injEq, List.cons.injEq, and_true]
  · simp [earlier]

section repeated

/-- The reader knows the signature 1 as confirmed and the database the signature 2 as finalized. -/
def statusesReader : Reader where
  blocks := ⟨⟨1, fun _ => StoredBlock.newConfirmed 9 (some 7) none 0 0 1, ⟨0, Nat.one_pos⟩, ⟨0, Nat.one_pos⟩⟩,
    SortedMap.empty⟩
  confirmedInProcess := none
  storageProcessed := { StorageProcessed.default with
    confirmedSlot := 10
    confirmedHeight := 8
    finalizedSlot := 9
    finalizedHeight := 7
    signatureStatuses := HashMap.empty.insert ⟨1⟩ ⟨10, 8, none⟩ }

def signatureKeys : HashedKeys := ⟨fun signature => BitVec.ofNat 64 signature.value, fun _ => 0⟩

def finalizedRows : TransactionRows := HashMap.empty.insert 2 (.ok ⟨9, 100, 50, none, 3⟩)

def confirmedStatus : TransactionStatus := ⟨10, some 1, .ok (), none, some .confirmed⟩

def finalizedStatus : TransactionStatus := ⟨9, none, .ok (), none, some .finalized⟩

/-- The second signature of this list is answered as alone. -/
theorem answers_pointwise_iff_second :
    statusesReader.processSignatureStatuses finalizedRows signatureKeys false false true [⟨2⟩] =
      .signatures [some finalizedStatus] := by
  obtain ⟨status, second, alone⟩ := (answers_pointwise_iff statusesReader finalizedRows signatureKeys
    false false true [⟨1⟩, ⟨2⟩] [some confirmedStatus, some finalizedStatus] rfl 1 ⟨2⟩ rfl).mpr
      (Or.inl (by decide))
  cases second
  exact alone

/-- The second occurrence of a signature is answered without its status. -/
theorem answers_pointwise_false : ¬ ∀ (reader : Reader) (rows : TransactionRows) (keys : HashedKeys)
    (expired late search : Bool) (signatures : List Signature)
    (statuses : List (Option TransactionStatus))
    (_ : reader.processSignatureStatuses rows keys expired late search signatures =
      .signatures statuses) (index : Nat) (signature : Signature)
    (_ : signatures[index]? = some signature),
    ∃ status, statuses[index]? = some status ∧
      reader.processSignatureStatuses rows keys expired late search [signature] =
        .signatures [status] := by
  intro pointwise
  obtain ⟨status, second, alone⟩ := pointwise statusesReader finalizedRows signatureKeys false false
    true [⟨1⟩, ⟨1⟩] [some confirmedStatus, none] rfl 1 ⟨1⟩ rfl
  cases second
  cases alone

end repeated

end Reader

end Alpamayo
