import Alpamayo.Proof.TransactionReads

/-!
This file shows that the pages of an address list every match once.
-/

namespace Alpamayo

/-- The token of a page that ends with the entry. -/
def TfaEntry.cursor (entry : TfaEntry) : GtfaCursor :=
  ⟨entry.signature.slot, entry.transactionIndex⟩

/-- The last of more elements replaces an earlier value. -/
theorem getLast?_cons_or {A B : Type} (first : A) (list : List A) (value : A → B)
    (earlier : Option B) : ((first :: list).getLast?.map value).or earlier =
      (list.getLast?.map value).or (some (value first)) := by
  rw [List.getLast?_cons]
  cases list.getLast? <;> rfl

/-- No sign and no colon is a digit. -/
theorem ne_of_mem_toDigits {value : Nat} {digit other : Char} (noDigit : other.isDigit = false)
    (member : digit ∈ Nat.toDigits 10 value) : digit ≠ other := by
  rintro rfl
  rw [Nat.isDigit_of_mem_toDigits (by decide) (by decide) member] at noDigit
  cases noDigit

/-- The digits of a 64-bit number give the number. -/
theorem parseUnsigned_toDigits {value : Nat} (small : value ≤ maxSlot) :
    parseUnsigned (Nat.toDigits 10 value) = some value := by
  have all : (Nat.toDigits 10 value).all Char.isDigit = true := by
    rw [List.all_eq_true]
    exact fun digit member => Nat.isDigit_of_mem_toDigits (by decide) (by decide) member
  have nonempty : (Nat.toDigits 10 value).isEmpty = false :=
    List.isEmpty_eq_false_iff.mpr Nat.toDigits_ne_nil
  have noSign : ∀ rest, Nat.toDigits 10 value ≠ '+' :: rest := by
    intro rest same
    have member : '+' ∈ Nat.toDigits 10 value := by
      rw [same]
      exact List.mem_cons_self
    exact ne_of_mem_toDigits (by decide) member rfl
  rw [parseUnsigned]
  · rw [all, nonempty, Nat.ofDigitChars_ten_toDigits]
    simp [small]
  · exact noSign

namespace GtfaCursor

theorem toList_encode (cursor : GtfaCursor) : cursor.encode.toList =
    Nat.toDigits 10 cursor.slot ++ ':' :: Nat.toDigits 10 cursor.transactionIndex := by
  simp [encode]
  rfl

/-- A token comes back when its numbers have 64 bits. -/
theorem decode_encode {cursor : GtfaCursor} (slot : cursor.slot ≤ maxSlot)
    (transactionIndex : cursor.transactionIndex ≤ maxSlot) :
    decode cursor.encode = .ok cursor := by
  have noColon : ∀ digit ∈ Nat.toDigits 10 cursor.slot, decide (digit ≠ ':') = true :=
    fun digit member => decide_eq_true (ne_of_mem_toDigits (by decide) member)
  rw [decode, toList_encode, List.span_eq_takeWhile_dropWhile]
  rw [List.takeWhile_append_of_pos noColon, List.dropWhile_append_of_pos noColon]
  simp [parseUnsigned_toDigits slot, parseUnsigned_toDigits transactionIndex]

end GtfaCursor

namespace RpcRequestTransactionsForAddress

variable {Decoded Encoded EncodeError : Type} {request : RpcRequestTransactionsForAddress}
  {positions : Option GtfaSignaturePositionFilter} {state : GtfaState} {reads : GtfaReads}
  {codec : TransactionCodec Decoded Encoded EncodeError} {signatureText : Signature → String}
  {entries before later : List TfaEntry}

/-- A pass keeps the accepted entries that the page has room for, and it moves the cursors over what
it has seen. -/
structure TakesBatch (request : RpcRequestTransactionsForAddress)
    (positions : Option GtfaSignaturePositionFilter) (room : Nat) (entries : List TfaEntry)
    (first last : GtfaBatch) : Prop where
  pending : last.pending = first.pending ++ (entries.filter (request.accepts positions)).take room
  reachedLimit : last.reachedLimit = decide (room ≤ (entries.filter (request.accepts positions)).length)
  pageCursor : last.pageCursor =
    (((entries.filter (request.accepts positions)).take room).getLast?.map TfaEntry.cursor).or
      first.pageCursor
  storageCursor : last.reachedLimit = false →
    last.storageCursor = (entries.getLast?.map TfaEntry.position).or first.storageCursor

theorem takeBatch_takes {collected room : Nat} {batch : GtfaBatch}
    (running : batch.reachedLimit = false)
    (space : collected + batch.pending.length + room = request.limit) (positive : 0 < room) :
    request.TakesBatch positions room entries batch
      (request.takeBatch positions collected entries batch) := by
  induction entries generalizing batch room with
  | nil =>
      have unfilled : ¬ room ≤ 0 := by omega
      exact ⟨by simp [takeBatch], by simp [takeBatch, running, unfilled], by simp [takeBatch],
        by simp [takeBatch]⟩
  | cons entry rest ih =>
      rw [takeBatch]
      cases accepted : request.accepts positions entry with
      | false =>
          rw [if_neg (by decide)]
          have later : request.TakesBatch positions room rest
              { batch with storageCursor := some entry.position }
              (request.takeBatch positions collected rest
                { batch with storageCursor := some entry.position }) := ih running space positive
          have same : (entry :: rest).filter (request.accepts positions) =
              rest.filter (request.accepts positions) := List.filter_cons_of_neg (by simp [accepted])
          refine ⟨?_, ?_, ?_, ?_⟩
          · rw [same]
            exact later.pending
          · rw [same]
            exact later.reachedLimit
          · rw [same]
            exact later.pageCursor
          · intro more
            rw [getLast?_cons_or]
            exact later.storageCursor more
      | true =>
          have same : (entry :: rest).filter (request.accepts positions) =
              entry :: rest.filter (request.accepts positions) :=
            List.filter_cons_of_pos (by simp [accepted])
          rw [if_pos rfl]
          simp only [List.length_append, List.length_singleton]
          split
          · rename_i full
            have one : room = 1 := by omega
            refine ⟨?_, ?_, ?_, ?_⟩
            · simp [same, one]
            · simp [same, one]
            · simp [same, one, TfaEntry.cursor]
            · rintro ⟨⟩
          · rename_i more
            obtain ⟨room, rfl⟩ := Nat.exists_eq_add_one.mpr positive
            have later : request.TakesBatch positions room rest
                ⟨some entry.position, some entry.cursor, batch.pending ++ [entry], false⟩
                (request.takeBatch positions collected rest
                  ⟨some entry.position, some entry.cursor, batch.pending ++ [entry], false⟩) := by
              apply ih rfl
              · simp only [List.length_append, List.length_singleton]
                omega
              · omega
            have next : ({ batch with
                storageCursor := some (entry.signature.slot, entry.transactionIndex)
                pending := batch.pending ++ [entry]
                pageCursor := some ⟨entry.signature.slot, entry.transactionIndex⟩ } : GtfaBatch) =
                ⟨some entry.position, some entry.cursor, batch.pending ++ [entry], false⟩ := by
              rw [running]
              rfl
            rw [next]
            refine ⟨?_, ?_, ?_, ?_⟩
            · rw [later.pending, same, List.take_succ_cons, List.append_assoc,
                List.singleton_append]
            · rw [later.reachedLimit, same, List.length_cons]
              simp
            · rw [later.pageCursor, same, List.take_succ_cons, getLast?_cons_or]
            · intro unfilled
              rw [later.storageCursor unfilled, getLast?_cons_or]

theorem buildAll_map {A : Type} {image : TfaEntry → A}
    {build : TfaEntry → Except (GtfaEntryError EncodeError) A}
    (builds : ∀ entry ∈ entries, build entry = .ok (image entry)) :
    buildAll (entries.map build) = .ok (entries.map image) := by
  induction entries with
  | nil => rfl
  | cons entry rest ih =>
      rw [List.forall_mem_cons] at builds
      rw [List.map_cons, builds.1, buildAll, ih builds.2]
      rfl

/-- A read from any place of the range returns the entries behind it. -/
def Serves (request : RpcRequestTransactionsForAddress)
    (positions : Option GtfaSignaturePositionFilter) (reads : GtfaReads) (entries : List TfaEntry) :
    Prop :=
  ∀ before later limit, 0 < limit → entries = before ++ later →
    reads.transactions (request.readRequest positions (before.getLast?.map TfaEntry.position) limit) =
      .transactions (later.take limit) (decide (later.length < limit))

theorem le_requestLimit (request : RpcRequestTransactionsForAddress) (state : GtfaState)
    (remaining : Nat) : remaining ≤ request.requestLimit state remaining := by
  rw [requestLimit]
  split
  · exact Nat.le_max_right _ _
  · exact Nat.le_refl _

/-- The answer of a page with room for a number of further entries. -/
def pageResult (image : TfaEntry → GtfaEntry Encoded) (data : List (GtfaEntry Encoded)) (room : Nat)
    (accepted : List TfaEntry) : GtfaResult Encoded EncodeError :=
  .success (data ++ (accepted.take room).map image)
    (if room ≤ accepted.length then
      (accepted.take room).getLast?.map fun entry => entry.cursor.encode
    else none)

/-- A page that is not full goes on with the entries of the next read. -/
theorem pageResult_append {image : TfaEntry → GtfaEntry Encoded} {data : List (GtfaEntry Encoded)}
    {room : Nat} {first second : List TfaEntry} (short : first.length < room) :
    (pageResult image (data ++ first.map image) (room - first.length) second :
      GtfaResult Encoded EncodeError) = pageResult image data room (first ++ second) := by
  have whole : (first ++ second).take room = first ++ second.take (room - first.length) := by
    rw [List.take_append, List.take_of_length_le (Nat.le_of_lt short)]
  have full : room - first.length ≤ second.length ↔ room ≤ (first ++ second).length := by
    rw [List.length_append]
    omega
  rw [pageResult, pageResult, whole, List.map_append, List.append_assoc]
  congr 1
  by_cases enough : room ≤ (first ++ second).length
  · rw [if_pos enough, if_pos (full.mpr enough), List.getLast?_append]
    cases last : (second.take (room - first.length)).getLast? with
    | some entry => rfl
    | none =>
        rw [List.getLast?_eq_none_iff, List.take_eq_nil_iff] at last
        rw [List.length_append] at enough
        obtain none | rfl := last
        · omega
        · simp only [List.length_nil] at enough
          omega
  · rw [if_neg enough, if_neg (mt full.mp enough)]

/-- A full page ends with the last accepted entry. -/
theorem finish_full {image : TfaEntry → GtfaEntry Encoded} {data : List (GtfaEntry Encoded)}
    {room : Nat} {accepted : List TfaEntry} (positive : 0 < room) (full : room ≤ accepted.length)
    {page : GtfaLoop Encoded} (reached : page.reachedLimit = true)
    (built : page.data = data ++ (accepted.take room).map image) {earlier : Option GtfaCursor}
    (cursor : page.pageCursor =
      ((accepted.take room).getLast?.map TfaEntry.cursor).or earlier) :
    (finish page : GtfaResult Encoded EncodeError) = pageResult image data room accepted := by
  rw [finish, pageResult, reached, built, cursor, if_pos full]
  cases last : (accepted.take room).getLast? with
  | some entry => simp
  | none =>
      rw [List.getLast?_eq_none_iff, List.take_eq_nil_iff] at last
      obtain none | rfl := last
      · omega
      · simp only [List.length_nil] at full
        omega

/-- One round of the loop whose read and entries do not fail. -/
theorem processLoop_step {rounds remaining : Nat} {page : GtfaLoop Encoded}
    (unfilled : request.limit - page.data.length = remaining) (positive : remaining ≠ 0)
    {finished : Bool} (answer : reads.transactions (request.readRequest positions
      page.storageCursor (request.requestLimit state remaining)) = .transactions entries finished)
    {last : GtfaBatch} (batch : request.takeBatch positions page.data.length entries
      ⟨page.storageCursor, page.pageCursor, [], false⟩ = last)
    {more : List (GtfaEntry Encoded)}
    (built : buildAll (last.pending.map (request.buildEntry reads codec signatureText)) =
      .ok more) :
    request.processLoop state reads codec signatureText positions (rounds + 1) page =
      if last.reachedLimit || finished || entries.isEmpty then
        some (finish ⟨last.storageCursor, last.pageCursor, finished, page.data ++ more,
          last.reachedLimit⟩)
      else request.processLoop state reads codec signatureText positions rounds
        ⟨last.storageCursor, last.pageCursor, finished, page.data ++ more, last.reachedLimit⟩ := by
  rw [processLoop, unfilled, if_neg positive, answer]
  simp only [batch, built]

/-- The loop lists the next accepted entries of the range, and its token names the last one of a full
page. -/
theorem processLoop_eq {image : TfaEntry → GtfaEntry Encoded}
    (serves : request.Serves positions reads entries)
    (builds : ∀ entry ∈ entries, request.accepts positions entry = true →
      request.buildEntry reads codec signatureText entry = .ok (image entry))
    {rounds : Nat} (enough : later.length < rounds) (split : entries = before ++ later)
    {page : GtfaLoop Encoded} (cursor : page.storageCursor = before.getLast?.map TfaEntry.position)
    {room : Nat} (positive : 0 < room) (space : page.data.length + room = request.limit) :
    request.processLoop state reads codec signatureText positions rounds page =
      some (pageResult image page.data room (later.filter (request.accepts positions))) := by
  induction rounds generalizing before later page room with
  | zero => omega
  | succ rounds ih =>
      have remaining : request.limit - page.data.length = room := by omega
      have limit := request.le_requestLimit state room
      let count := request.requestLimit state room
      let seen := later.take count
      let kept := seen.filter (request.accepts positions)
      let first : GtfaBatch := ⟨before.getLast?.map TfaEntry.position, page.pageCursor, [], false⟩
      let last := request.takeBatch positions page.data.length seen first
      have batch : request.TakesBatch positions room seen first last :=
        takeBatch_takes rfl (by simpa [first] using space) positive
      have pending : last.pending = kept.take room := batch.pending
      have member : ∀ entry ∈ kept.take room, entry ∈ entries ∧
          request.accepts positions entry = true := by
        intro entry inside
        obtain ⟨listed, accepted⟩ := List.mem_filter.mp (List.mem_of_mem_take inside)
        refine ⟨?_, accepted⟩
        rw [split]
        exact List.mem_append_right before (List.mem_of_mem_take listed)
      have built : buildAll (last.pending.map (request.buildEntry reads codec signatureText)) =
          .ok ((kept.take room).map image) := by
        rw [pending]
        exact buildAll_map fun entry inside =>
          builds entry (member entry inside).1 (member entry inside).2
      have rest : later.filter (request.accepts positions) =
          kept ++ (later.drop count).filter (request.accepts positions) := by
        rw [← List.filter_append, List.take_append_drop]
      have answer : reads.transactions (request.readRequest positions page.storageCursor
          (request.requestLimit state room)) = .transactions seen (decide (later.length < count)) := by
        rw [cursor]
        exact serves before later count (by omega) split
      have isLast : request.takeBatch positions page.data.length seen
          ⟨page.storageCursor, page.pageCursor, [], false⟩ = last := by rw [cursor]
      rw [processLoop_step remaining (by omega) answer isLast built]
      cases reached : last.reachedLimit with
      | true =>
          have full : room ≤ kept.length := by
            have known := batch.reachedLimit
            rw [reached] at known
            simpa using known.symm
          have enough : room ≤ (later.filter (request.accepts positions)).length := by
            rw [rest, List.length_append]
            omega
          have same : (later.filter (request.accepts positions)).take room = kept.take room := by
            rw [rest, List.take_append_of_le_length full]
          rw [Bool.true_or, Bool.true_or, if_pos rfl]
          congr 1
          apply finish_full positive enough rfl
          · rw [same]
          · rw [same]
            exact batch.pageCursor
      | false =>
          have short : kept.length < room := by
            have known := batch.reachedLimit
            rw [reached] at known
            simpa using known.symm
          have whole : kept.take room = kept := List.take_of_length_le (Nat.le_of_lt short)
          rw [whole]
          by_cases ended : later.length < count
          · have all : seen = later := List.take_of_length_le (Nat.le_of_lt ended)
            have none : ¬ room ≤ kept.length := by omega
            have same : later.filter (request.accepts positions) = kept := by rw [← all]
            rw [decide_eq_true ended, Bool.or_true, Bool.true_or, if_pos rfl, same, finish, pageResult,
              whole, if_neg none]
            rfl
          · have length : seen.length = count := by
              rw [List.length_take]
              omega
            have nonempty : seen.isEmpty = false := by
              rw [List.isEmpty_eq_false_iff_exists_mem]
              exact List.exists_mem_of_length_pos (by omega)
            have moved : last.storageCursor = (before ++ seen).getLast?.map TfaEntry.position := by
              rw [batch.storageCursor reached, List.getLast?_append]
              cases seen.getLast? <;> rfl
            have next := ih (by rw [List.length_drop]; omega)
              (show entries = (before ++ seen) ++ later.drop count by
                rw [List.append_assoc, List.take_append_drop, split])
              (show (⟨last.storageCursor, last.pageCursor, decide (later.length < count),
                page.data ++ kept.map image, false⟩ : GtfaLoop Encoded).storageCursor = _ from moved)
              (show 0 < room - kept.length by omega)
              (by simp only [List.length_append, List.length_map]; omega)
            rw [decide_eq_false ended, nonempty]
            rw [decide_eq_false ended] at next
            simp only [Bool.or_self, Bool.false_eq_true, ↓reduceIte]
            rw [next, pageResult_append short, ← rest]

/-- A call whose token names an entry of the range answers with the next accepted entries. -/
theorem process_eq {image : TfaEntry → GtfaEntry Encoded}
    (serves : request.Serves positions reads entries)
    (resolved : (request.resolvePositions reads :
      Except (GtfaResult Encoded EncodeError) _) = .ok positions)
    (builds : ∀ entry ∈ entries, request.accepts positions entry = true →
      request.buildEntry reads codec signatureText entry = .ok (image entry))
    (small : ∀ entry ∈ entries, entry.transactionIndex < 4294967296) (positive : 0 < request.limit)
    {rounds : Nat} (enough : later.length < rounds) (split : entries = before ++ later)
    (token : request.paginationToken = before.getLast?.map TfaEntry.cursor) :
    request.process state reads codec signatureText rounds =
      some (pageResult image [] request.limit (later.filter (request.accepts positions))) := by
  have cursor : (request.paginationToken.map fun cursor =>
      (cursor.slot, cursor.transactionIndex % 4294967296)) =
        before.getLast?.map TfaEntry.position := by
    rw [token, Option.map_map]
    apply Option.map_congr
    intro entry last
    have inside : entry ∈ entries := by
      rw [split]
      exact List.mem_append_left later (List.mem_of_getLast? last)
    simp [TfaEntry.cursor, TfaEntry.position, Nat.mod_eq_of_lt (small entry inside)]
  rw [process, resolved]
  simp only [cursor]
  exact processLoop_eq serves builds enough split rfl positive (by simp)

/-- The client repeats the request with the returned token until there is none. -/
def collectPages (state : GtfaState) (reads : GtfaReads)
    (codec : TransactionCodec Decoded Encoded EncodeError) (signatureText : Signature → String)
    (address : String) (rounds : Nat) : Nat → GtfaOptions → Option (List (GtfaEntry Encoded))
  | 0, _ => none
  | pages + 1, options =>
      match parse state address options with
      | .error _ => none
      | .ok request =>
          match request.process state reads codec signatureText rounds with
          | some (.success data none) => some data
          | some (.success data (some token)) =>
              (collectPages state reads codec signatureText address rounds pages
                { options with paginationToken := some token }).map fun more => data ++ more
          | _ => none

/-- The number of accepted entries up to an accepted one fills a page. -/
theorem exists_split_filter (test : TfaEntry → Bool) {room : Nat}
    (full : room + 1 ≤ (later.filter test).length) : ∃ seen entry rest,
      later = seen ++ entry :: rest ∧
        (later.filter test).take (room + 1) = seen.filter test ++ [entry] ∧
        (later.filter test).drop (room + 1) = rest.filter test := by
  induction later generalizing room with
  | nil => simp at full
  | cons first rest ih =>
      cases kept : test first with
      | false =>
          rw [List.filter_cons_of_neg (by simp [kept])] at full ⊢
          obtain ⟨seen, entry, left, rfl, taken, dropped⟩ := ih full
          refine ⟨first :: seen, entry, left, rfl, ?_, dropped⟩
          rw [taken, List.filter_cons_of_neg (by simp [kept])]
      | true =>
          rw [List.filter_cons_of_pos kept] at full ⊢
          cases room with
          | zero => exact ⟨[], first, rest, rfl, by simp, by simp⟩
          | succ room =>
              obtain ⟨seen, entry, left, rfl, taken, dropped⟩ := ih (by simpa using full)
              refine ⟨first :: seen, entry, left, rfl, ?_, ?_⟩
              · rw [List.take_succ_cons, taken, List.filter_cons_of_pos kept, List.cons_append]
              · rw [List.drop_succ_cons, dropped]

/-- An accepted limit is positive. -/
theorem verifyLimit_pos {details : GtfaTransactionDetails} {limit : Option Nat} {accepted : Nat}
    (verified : verifyLimit state details limit = .ok accepted) : 0 < accepted := by
  cases details with
  | signatures =>
      simp only [verifyLimit] at verified
      split at verified
      · cases verified
      · cases verified
        omega
  | full =>
      simp only [verifyLimit] at verified
      split at verified
      · cases verified
      · cases verified
        omega

theorem bind_eq_ok_iff {A B E : Type} {first : Except E A} {next : A → Except E B} {last : B} :
    (first >>= next) = .ok last ↔ ∃ value, first = .ok value ∧ next value = .ok last := by
  cases first with
  | error error => simp [bind, Except.bind]
  | ok value => simp [bind, Except.bind]

theorem parse_limit_pos {address : String} {options : GtfaOptions}
    (accepted : parse state address options = .ok request) : 0 < request.limit := by
  simp only [parse, bind_eq_ok_iff] at accepted
  obtain ⟨_, -, limit, verified, _, -, _, -, _, -, _, -, same⟩ := accepted
  cases same
  exact verifyLimit_pos verified

theorem parse_first {address : String} {options : GtfaOptions}
    (accepted : parse state address { options with paginationToken := none } = .ok request) :
    request.paginationToken = none := by
  simp only [parse, bind_eq_ok_iff] at accepted
  obtain ⟨_, -, _, -, token, noToken, _, -, _, -, _, -, same⟩ := accepted
  cases same
  exact (Except.ok.inj noToken).symm

/-- The token of a page only changes the cursor of the request. -/
theorem parse_token {address : String} {options : GtfaOptions} {cursor : GtfaCursor}
    (accepted : parse state address { options with paginationToken := none } = .ok request)
    (decoded : GtfaCursor.decode cursor.encode = .ok cursor) :
    parse state address { options with paginationToken := some cursor.encode } =
      .ok { request with paginationToken := some cursor } := by
  simp only [parse, bind_eq_ok_iff] at accepted ⊢
  obtain ⟨pubkey, isPubkey, limit, verified, _, -, checked, isChecked, context, inContext, filter,
    isFilter, same⟩ := accepted
  cases same
  refine ⟨pubkey, isPubkey, limit, verified, some cursor, ?_, checked, isChecked, context, inContext,
    filter, isFilter, rfl⟩
  rw [Option.mapM_some, decoded]
  rfl

/-- The entries of the first range that pass the filters. -/
def matchingEntries (request : RpcRequestTransactionsForAddress) (reader : Reader) (db : Rocksdb)
    (keys : HashedKeys) (positions : Option GtfaSignaturePositionFilter) : List TfaEntry :=
  ((reader.rangeEntries db keys (request.readRequest positions none request.limit)).map
    reader.timedEntry).filter (request.accepts positions)

/-- The pages from any place of the range list the accepted entries behind it. -/
theorem collectPages_eq {image : TfaEntry → GtfaEntry Encoded} {address : String}
    {options : GtfaOptions}
    (accepted : parse state address { options with paginationToken := none } = .ok request)
    (serves : ∀ token, { request with paginationToken := token }.Serves positions reads entries)
    (resolved : (request.resolvePositions reads :
      Except (GtfaResult Encoded EncodeError) _) = .ok positions)
    (builds : ∀ entry ∈ entries, request.accepts positions entry = true →
      request.buildEntry reads codec signatureText entry = .ok (image entry))
    (small : ∀ entry ∈ entries,
      entry.signature.slot ≤ maxSlot ∧ entry.transactionIndex < 4294967296)
    {rounds pages : Nat} (enough : entries.length < rounds)
    (split : entries = before ++ later)
    (many : (later.filter (request.accepts positions)).length < pages) :
    collectPages state reads codec signatureText address rounds pages
        { options with paginationToken :=
          (before.getLast?.map fun entry => entry.cursor.encode) } =
      some ((later.filter (request.accepts positions)).map image) := by
  induction pages generalizing before later with
  | zero => omega
  | succ pages ih =>
      have parsed : parse state address { options with paginationToken :=
          (before.getLast?.map fun entry => entry.cursor.encode) } =
          .ok { request with paginationToken := before.getLast?.map TfaEntry.cursor } := by
        cases last : before.getLast? with
        | none =>
            have same : { request with paginationToken := none } = request := by
              rw [← parse_first accepted]
            rw [Option.map_none, Option.map_none, same]
            exact accepted
        | some entry =>
            have inside : entry ∈ entries := by
              rw [split]
              exact List.mem_append_left later (List.mem_of_getLast? last)
            obtain ⟨slot, index⟩ := small entry inside
            apply parse_token accepted
            apply GtfaCursor.decode_encode
            · exact slot
            · change entry.transactionIndex ≤ 18446744073709551615
              omega
      have positive : 0 < request.limit := parse_limit_pos accepted
      have rest : later.length < rounds := by
        rw [split, List.length_append] at enough
        omega
      have answer : process { request with paginationToken := before.getLast?.map TfaEntry.cursor }
          state reads codec signatureText rounds =
          some (pageResult image [] request.limit (later.filter (request.accepts positions))) :=
        process_eq (serves (before.getLast?.map TfaEntry.cursor)) resolved builds
          (fun entry member => (small entry member).2) positive rest split rfl
      rw [collectPages, parsed]
      simp only [answer, pageResult, List.nil_append]
      by_cases full : request.limit ≤ (later.filter (request.accepts positions)).length
      · obtain ⟨room, limit⟩ := Nat.exists_eq_add_one.mpr positive
        rw [limit] at full
        obtain ⟨seen, entry, left, same, taken, dropped⟩ :=
          exists_split_filter (request.accepts positions) full
        have moved : entries = (before ++ seen ++ [entry]) ++ left := by
          rw [split, same]
          simp
        have fewer : (left.filter (request.accepts positions)).length < pages := by
          rw [← dropped, List.length_drop]
          omega
        have more := ih moved fewer
        rw [List.getLast?_concat, Option.map_some] at more
        rw [limit, if_pos full, taken, List.getLast?_concat, Option.map_some]
        simp only
        rw [more, Option.map_some, ← List.map_append, ← taken, ← dropped, List.take_append_drop]
      · rw [if_neg full, List.take_of_length_le (by omega)]

/-- The slots and indices of the address have their machine types. -/
def FitsTypes (db : Rocksdb) (addressHash : HashedKey) : Prop :=
  ∀ row ∈ db.sfaIndex.entries, (ofLex row.1).1 = addressHash.toNat →
    (ofLex row.1).2 ≤ maxSlot ∧ ∀ item ∈ row.2, item.transactionIndex < 4294967296

section stored

variable {reader : Reader} {db : Rocksdb} {keys : HashedKeys} {expired : Nat → Bool}
  {transaction : Signature → ReadResultTransaction}

/-- The reads of a settled storage serve the range of the first request. -/
theorem serves_range (settled : reader.Settled db (keys.addressHash request.address))
    (onTime : ∀ stage, expired stage = false) :
    request.Serves positions (reader.gtfaReads db keys expired transaction)
      ((reader.rangeEntries db keys (request.readRequest positions none request.limit)).map
        reader.timedEntry) := by
  intro before later limit positive split
  obtain ⟨first, last, stored, rfl, rfl⟩ := List.map_eq_append_iff.mp split
  have cursor : (first.map reader.timedEntry).getLast?.map TfaEntry.position =
      first.getLast?.map TfaEntry.position := by
    rw [List.getLast?_map, Option.map_map]
    apply Option.map_congr
    intro entry _
    exact Reader.timedEntry_position reader entry
  rw [cursor, ← List.map_take, List.length_map]
  exact Reader.processTransactionsForAddress_eq settled onTime positive stored rfl

theorem rangeEntries_small (small : FitsTypes db (keys.addressHash request.address)) :
    ∀ entry ∈ (reader.rangeEntries db keys (request.readRequest positions none request.limit)).map
      reader.timedEntry, entry.signature.slot ≤ maxSlot ∧ entry.transactionIndex < 4294967296 := by
  intro entry member
  obtain ⟨stored, inside, rfl⟩ := List.mem_map.mp member
  obtain ⟨row, isRow, same, listed⟩ := Reader.mem_scanOrder (List.mem_filter.mp inside).1
  obtain ⟨slot, indices⟩ := small row isRow same
  obtain ⟨slotOf, item, isItem, rfl⟩ := Rocksdb.mem_ofRow listed
  rw [Reader.timedEntry_slot, Reader.timedEntry_transactionIndex]
  exact ⟨slot, indices item isItem⟩

/-- No position is listed twice. -/
theorem matchingEntries_nodup (settled : reader.Settled db (keys.addressHash request.address)) :
    ((request.matchingEntries reader db keys positions).map TfaEntry.position).Nodup := by
  have positionsOf : ((reader.rangeEntries db keys
      (request.readRequest positions none request.limit)).map reader.timedEntry).map
        TfaEntry.position = (reader.rangeEntries db keys
          (request.readRequest positions none request.limit)).map TfaEntry.position := by
    rw [List.map_map]
    apply List.map_congr_left
    intro entry _
    exact Reader.timedEntry_position reader entry
  have distinct : ((reader.rangeEntries db keys
      (request.readRequest positions none request.limit)).map TfaEntry.position).Nodup := by
    rw [List.Nodup, List.pairwise_map]
    refine (Rocksdb.scanned_ordered settled.falls).imp ?_
    intro first second after same
    rw [same, follows_irrefl] at after
    cases after
  rw [← positionsOf] at distinct
  exact distinct.sublist (List.filter_sublist.map TfaEntry.position)

/-- Following the tokens from the first page lists every matching entry once, in the order of the
scan; every page and the listing end after these numbers of rounds and pages. -/
theorem collectPages_matchingEntries (state : GtfaState) (address : String) (options : GtfaOptions)
    (firstPage : options.paginationToken = none) (request : RpcRequestTransactionsForAddress)
    (accepted : parse state address options = .ok request) (reader : Reader) (db : Rocksdb)
    (keys : HashedKeys) (settled : reader.Settled db (keys.addressHash request.address))
    (small : FitsTypes db (keys.addressHash request.address)) (expired : Nat → Bool)
    (onTime : ∀ stage, expired stage = false) (transaction : Signature → ReadResultTransaction)
    (codec : TransactionCodec Decoded Encoded EncodeError) (signatureText : Signature → String)
    (positions : Option GtfaSignaturePositionFilter)
    (resolved : (request.resolvePositions (reader.gtfaReads db keys expired transaction) :
      Except (GtfaResult Encoded EncodeError) _) = .ok positions)
    (image : TfaEntry → GtfaEntry Encoded)
    (builds : ∀ entry ∈ request.matchingEntries reader db keys positions,
      request.buildEntry (reader.gtfaReads db keys expired transaction) codec signatureText entry =
        .ok (image entry)) (rounds pages : Nat)
    (enough : (reader.rangeEntries db keys
      (request.readRequest positions none request.limit)).length < rounds)
    (many : (request.matchingEntries reader db keys positions).length < pages) :
    collectPages state (reader.gtfaReads db keys expired transaction) codec signatureText address
        rounds pages options =
      some ((request.matchingEntries reader db keys positions).map image) ∧
    ((request.matchingEntries reader db keys positions).map TfaEntry.position).Nodup := by
  refine ⟨?_, matchingEntries_nodup settled⟩
  have same : { options with paginationToken := none } = options := by rw [← firstPage]
  have serves : ∀ token, { request with paginationToken := token }.Serves positions
      (reader.gtfaReads db keys expired transaction)
      ((reader.rangeEntries db keys (request.readRequest positions none request.limit)).map
        reader.timedEntry) := by
    intro token
    exact serves_range settled onTime
  have listed : collectPages state (reader.gtfaReads db keys expired transaction) codec signatureText
      address rounds pages { options with paginationToken :=
        (([] : List TfaEntry).getLast?.map fun entry => entry.cursor.encode) } =
      some ((request.matchingEntries reader db keys positions).map image) :=
    collectPages_eq (by rw [same]; exact accepted) serves resolved
      (fun entry member accepts => builds entry (List.mem_filter.mpr ⟨member, accepts⟩))
      (rangeEntries_small small) (by rw [List.length_map]; exact enough) rfl many
  rw [List.getLast?_nil, Option.map_none, same] at listed
  exact listed

end stored

section twoPages

/-- The address has two transactions in slot 10. -/
def pagedDb : Rocksdb := { Rocksdb.empty with
  sfaIndex := SortedMap.empty.insert (SfaKey.concat 0 10)
    [⟨⟨2⟩, none, none, 5, false, false⟩, ⟨⟨1⟩, none, none, 3, false, false⟩] }

/-- Slot 10 is finalized, and it is the only one of the ring. -/
def pagedReader : Reader where
  blocks := ⟨⟨1, fun _ => StoredBlock.newConfirmed 10 (some 7) none 0 0 1, ⟨0, Nat.one_pos⟩, ⟨0, Nat.one_pos⟩⟩,
    SortedMap.empty⟩
  confirmedInProcess := none
  storageProcessed := { StorageProcessed.default with confirmedSlot := 10, finalizedSlot := 10 }

/-- Every text is an address and a signature. -/
def pagedState : GtfaState :=
  ⟨1000, 100, fun _ => 10, fun _ => .ok ⟨0⟩, fun _ => .ok Signature.default⟩

/-- A page has one transaction. -/
def pagedOptions : GtfaOptions := { limit := some 1 }

def pagedRequest : RpcRequestTransactionsForAddress :=
  ⟨⟨0⟩, .signatures, true, 1, none, .finalized, none, .none, none, none, none, none, none⟩

theorem pagedReader_settled : pagedReader.Settled pagedDb 0 where
  idle := by
    intro slot block known
    cases known
  falls := by
    intro row member _
    obtain rfl := List.mem_singleton.mp member
    decide
  live := by
    intro row member _
    obtain rfl := List.mem_singleton.mp member
    exact ⟨StoredBlock.newConfirmed 10 (some 7) none 0 0 1, by decide⟩

theorem pagedDb_fits : FitsTypes pagedDb 0 := by
  intro row member _
  obtain rfl := List.mem_singleton.mp member
  decide

/-- Two pages list both transactions, and the third one is empty. -/
theorem collectPages_matchingEntries_two :
    collectPages pagedState (pagedReader.gtfaReads pagedDb Rocksdb.sameKeys (fun _ => false)
        fun _ => .timeout)
      (⟨fun _ => .error "", fun _ => .error ()⟩ : TransactionCodec Unit Unit Unit) (fun _ => "")
      "" 3 3 pagedOptions =
      some ((pagedRequest.matchingEntries pagedReader pagedDb Rocksdb.sameKeys none).map
        fun entry => .signature entry.signature (some entry.transactionIndex)) ∧
    ((pagedRequest.matchingEntries pagedReader pagedDb Rocksdb.sameKeys none).map
      TfaEntry.position).Nodup :=
  collectPages_matchingEntries pagedState "" pagedOptions rfl pagedRequest rfl pagedReader pagedDb
    Rocksdb.sameKeys pagedReader_settled pagedDb_fits (fun _ => false) (fun _ => rfl)
    (fun _ => .timeout) ⟨fun _ => .error "", fun _ => .error ()⟩ (fun _ => "") none rfl
    (fun entry => .signature entry.signature (some entry.transactionIndex)) (fun _ _ => rfl) 3 3
    (by decide) (by decide)

example : (pagedRequest.matchingEntries pagedReader pagedDb Rocksdb.sameKeys none).map
    TfaEntry.position = [(10, 5), (10, 3)] := by
  decide

end twoPages

end RpcRequestTransactionsForAddress

end Alpamayo
