import AddressExchange.Proofs.Wire

/-!
# The grammar of messages

Which byte strings are messages, said without the readers: rows of text, a version, a date and items.
The readers accept these and no others. What they refuse, they refuse for the first fault there is,
in the order of the rows.
-/

namespace AddressExchange.Wire

/-! ## Rows -/

/-- Are the bytes the text of the rows? A line end stands between each two and none inside one. -/
structure IsRows (bs : Bytes) (rows : List String) : Prop where
  ne_nil : rows ≠ []
  notMem : ∀ row ∈ rows, '\n' ∉ row.toList
  bytes : bs = Text.utf8 ("\n".intercalate rows)

theorem notMem_of_mem_splitOn {c : Char} {cs piece : List Char} (h : piece ∈ cs.splitOn c) :
    c ∉ piece := by
  induction cs generalizing piece with
  | nil =>
    rw [List.splitOn_nil, List.mem_singleton] at h
    subst h
    exact List.not_mem_nil
  | cons d cs ih =>
    rw [List.splitOn_cons_eq_if_modifyHead] at h
    split at h
    · rcases List.mem_cons.mp h with rfl | h
      · exact List.not_mem_nil
      · exact ih h
    · next hd =>
      -- The character joins the first piece.
      obtain ⟨first, rest, hsplit⟩ := List.exists_cons_of_ne_nil (List.splitOn_ne_nil c cs)
      rw [hsplit] at h ih
      rcases List.mem_cons.mp h with rfl | h
      · intro hc
        rcases List.mem_cons.mp hc with rfl | hc
        · exact hd (beq_self_eq_true _)
        · exact ih List.mem_cons_self hc
      · exact ih (List.mem_cons_of_mem _ h)

theorem notMem_of_mem_rowsOf {s row : String} (h : row ∈ rowsOf s) : Protocol.rowEnd ∉ row.toList := by
  obtain ⟨piece, hpiece, rfl⟩ := List.mem_map.mp h
  rw [String.toList_ofList]
  exact notMem_of_mem_splitOn hpiece

theorem rowsOf_ne_nil (s : String) : rowsOf s ≠ [] := by
  intro h
  exact List.splitOn_ne_nil _ _ (List.map_eq_nil_iff.mp h)

/-- The bytes of a text are those of its rows. -/
theorem isRows_rowsOf (s : String) : IsRows (Text.utf8 s) (rowsOf s) where
  ne_nil := rowsOf_ne_nil s
  notMem _ h := notMem_of_mem_rowsOf h
  bytes := by
    congr 1
    apply String.toList_injective
    rw [String.toList_intercalate, rowsOf, List.map_map]
    have hid : String.toList ∘ String.ofList = id := funext fun _ => String.toList_ofList
    rw [hid, List.map_id]
    exact (List.intercalate_splitOn '\n').symm

/-- Rows are found again in their text. -/
theorem IsRows.rowsOf_eq {bs : Bytes} {rows : List String} (h : IsRows bs rows) :
    rowsOf ("\n".intercalate rows) = rows := by
  have hpieces : ∀ piece ∈ rows.map String.toList, '\n' ∉ piece := by
    intro piece hpiece
    obtain ⟨row, hrow, rfl⟩ := List.mem_map.mp hpiece
    exact h.notMem row hrow
  have hne : rows.map String.toList ≠ [] := fun he => h.ne_nil (List.map_eq_nil_iff.mp he)
  have hsplit := List.splitOn_intercalate '\n' hpieces hne
  rw [rowsOf, String.toList_intercalate]
  show (List.splitOn '\n' (List.intercalate ['\n'] _)).map String.ofList = rows
  rw [hsplit, List.map_map]
  have hid : String.ofList ∘ String.toList = id := funext fun _ => String.ofList_toList
  rw [hid, List.map_id]

theorem IsRows.decodeFrame {bs : Bytes} {rows : List String} (h : IsRows bs rows) :
    decodeFrame bs = ofRows rows := by
  rw [Wire.decodeFrame, h.bytes, Text.decode_utf8]
  exact congrArg ofRows h.rowsOf_eq

/-! ## Dates -/

/-- Is the row a date? It holds the word that there is none, or the literal of a number of milliseconds
that an instant has. -/
inductive IsDate : String → Option Instant → Prop where
  | absent : IsDate "not-present" none
  | millis {row : String} {n : Int} (h : Text.IsInt64 row n) (low : -8334601228800000 ≤ n)
      (high : n ≤ 8210266876799999) : IsDate row (some (.atMillis n low high))

theorem not_isInt64_noDate (n : Int) : ¬ Text.IsInt64 Protocol.noDate n := by
  intro h
  rw [← Text.int64?_eq_some, int64?_noDate] at h
  cases h

theorem readDate_of_isInt64 {row : String} {n : Int} (h : Text.IsInt64 row n) :
    readDate row = (Instant.ofMillis n).map some := by
  have hne : row ≠ Protocol.noDate := by
    rintro rfl
    exact not_isInt64_noDate n h
  rw [readDate, if_neg hne, Text.int64?_eq_some.mpr h]

theorem readDate_of_not_isInt64 {row : String} (hne : row ≠ "not-present")
    (h : ∀ n, ¬ Text.IsInt64 row n) : readDate row = .error (.malformed (.dateRow row)) := by
  have hnone : Text.int64? row = none := by
    refine Option.eq_none_iff_forall_ne_some.mpr fun n hn => ?_
    exact h n (Text.int64?_eq_some.mp hn)
  have hne' : row ≠ Protocol.noDate := hne
  rw [readDate, if_neg hne', hnone]

theorem IsDate.readDate {row : String} {date : Option Instant} (h : IsDate row date) :
    readDate row = .ok date := by
  cases h with
  | absent => rfl
  | millis h low high =>
    rw [readDate_of_isInt64 h, Instant.ofMillis_eq_ok.mpr ⟨low, high, rfl⟩]
    rfl

/-! ## Frames -/

/-- Are the bytes a frame? The first row is the version, the second a date, and the others the items,
of which empty ones do not count. -/
inductive IsFrame : Bytes → Frame → Prop where
  | intro {bs : Bytes} {first second : String} {rest : List String} {date : Option Instant}
      (rows : IsRows bs (first :: second :: rest)) (version : Text.IsInt64 first 1)
      (present : IsDate second date) : IsFrame bs ⟨date, rest.filter (· ≠ "")⟩

/-- The first fault of bytes that are no frame. -/
inductive IsFault : Bytes → Failure → Prop where
  | notText {bs : Bytes} (h : ∀ s, bs ≠ Text.utf8 s) :
      IsFault bs (.malformed (.notText (Text.Utf8.fault 0 0 bs)))
  | version {bs : Bytes} {first : String} {rest : List String} (rows : IsRows bs (first :: rest))
      (h : ¬ Text.IsInt64 first 1) : IsFault bs (.versionMismatch 1 first)
  | noDate {bs : Bytes} {first : String} (rows : IsRows bs [first])
      (version : Text.IsInt64 first 1) : IsFault bs (.malformed .noDateRow)
  | date {bs : Bytes} {first second : String} {rest : List String}
      (rows : IsRows bs (first :: second :: rest)) (version : Text.IsInt64 first 1)
      (present : second ≠ "not-present") (h : ∀ n, ¬ Text.IsInt64 second n) :
      IsFault bs (.malformed (.dateRow second))
  | range {bs : Bytes} {first second : String} {rest : List String} {n : Int}
      (rows : IsRows bs (first :: second :: rest)) (version : Text.IsInt64 first 1)
      (millis : Text.IsInt64 second n) (h : n < -8334601228800000 ∨ 8210266876799999 < n) :
      IsFault bs (.malformed (.instant n))

theorem ofRows_of_isInt64 {first : String} (rest : List String) (h : Text.IsInt64 first 1) :
    ofRows (first :: rest) = match rest with
      | [] => .error (.malformed .noDateRow)
      | row :: items => (readDate row).map fun date => ⟨date, items.filter (· ≠ "")⟩ := by
  have hv : ¬ Text.int64? first ≠ some (Protocol.version : Int) :=
    not_not_intro (Text.int64?_eq_some.mpr h)
  rw [ofRows, List.headD_cons, if_neg hv]
  rfl

theorem ofRows_of_not_isInt64 {first : String} (rest : List String) (h : ¬ Text.IsInt64 first 1) :
    ofRows (first :: rest) = .error (.versionMismatch 1 first) := by
  have hv : Text.int64? first ≠ some (Protocol.version : Int) :=
    fun he => h (Text.int64?_eq_some.mp he)
  rw [ofRows, List.headD_cons, if_pos hv]
  rfl

theorem IsFrame.decodeFrame {bs : Bytes} {frame : Frame} (h : IsFrame bs frame) :
    decodeFrame bs = .ok frame := by
  cases h with
  | intro rows version present =>
    rw [rows.decodeFrame, ofRows_of_isInt64 _ version]
    dsimp only
    rw [present.readDate]
    rfl

theorem IsFault.decodeFrame {bs : Bytes} {e : Failure} (h : IsFault bs e) :
    decodeFrame bs = .error e := by
  cases h with
  | notText h => rw [Wire.decodeFrame, Text.decode_eq_error h]
  | version rows h => rw [rows.decodeFrame, ofRows_of_not_isInt64 _ h]
  | noDate rows version => rw [rows.decodeFrame, ofRows_of_isInt64 _ version]
  | date rows version present h =>
    rw [rows.decodeFrame, ofRows_of_isInt64 _ version]
    dsimp only
    rw [readDate_of_not_isInt64 present h]
    rfl
  | range rows version millis h =>
    rw [rows.decodeFrame, ofRows_of_isInt64 _ version]
    dsimp only
    rw [readDate_of_isInt64 millis, Instant.ofMillis_of_lt h]
    rfl

/-- Every byte string is a frame or has a first fault. -/
theorem isFrame_or_isFault (bs : Bytes) : (∃ frame, IsFrame bs frame) ∨ ∃ e, IsFault bs e := by
  by_cases htext : ∃ s, bs = Text.utf8 s
  · obtain ⟨s, rfl⟩ := htext
    have hrows := isRows_rowsOf s
    generalize rowsOf s = rows at hrows
    match rows with
    | [] => exact absurd rfl hrows.ne_nil
    | first :: rest =>
      by_cases hversion : Text.IsInt64 first 1
      · match rest with
        | [] => exact .inr ⟨_, .noDate hrows hversion⟩
        | second :: rest =>
          by_cases habsent : second = "not-present"
          · subst habsent
            exact .inl ⟨_, .intro hrows hversion .absent⟩
          · by_cases hmillis : ∃ n, Text.IsInt64 second n
            · obtain ⟨n, hn⟩ := hmillis
              by_cases hrange : n < -8334601228800000 ∨ 8210266876799999 < n
              · exact .inr ⟨_, .range hrows hversion hn hrange⟩
              · exact .inl ⟨_, .intro hrows hversion (.millis hn (by omega) (by omega))⟩
            · exact .inr ⟨_, .date hrows hversion habsent (not_exists.mp hmillis)⟩
      · exact .inr ⟨_, .version hrows hversion⟩
  · exact .inr ⟨_, .notText (not_exists.mp htext)⟩

theorem decodeFrame_eq_ok {bs : Bytes} {frame : Frame} :
    decodeFrame bs = .ok frame ↔ IsFrame bs frame := by
  constructor
  · intro h
    rcases isFrame_or_isFault bs with ⟨frame', hframe⟩ | ⟨e, hfault⟩
    · rw [hframe.decodeFrame] at h
      cases h
      exact hframe
    · rw [hfault.decodeFrame] at h
      cases h
  · exact IsFrame.decodeFrame

theorem decodeFrame_eq_error {bs : Bytes} {e : Failure} :
    decodeFrame bs = .error e ↔ IsFault bs e := by
  constructor
  · intro h
    rcases isFrame_or_isFault bs with ⟨frame, hframe⟩ | ⟨e', hfault⟩
    · rw [hframe.decodeFrame] at h
      cases h
    · rw [hfault.decodeFrame] at h
      cases h
      exact hfault
  · exact IsFault.decodeFrame

/-! ## Messages -/

/-- Are the bytes a request? They are a frame with two items, which spell the id and the key; only
the key may have blanks around it. -/
inductive IsRequest : Bytes → Request → Prop where
  | intro {bs : Bytes} {date : Option Instant} {idRow keyRow : String} {digits : List Char}
      {id : PayerId} {key : PublicKey} (frame : IsFrame bs ⟨date, [idRow, keyRow]⟩)
      (spellsId : Hex.Spells idRow.toList id.bytes) (padded : Text.IsPadded keyRow.toList digits)
      (spellsKey : Hex.Spells digits key.bytes) : IsRequest bs (.make id date key)

theorem decodeResponse_eq (bs : Bytes) :
    decodeResponse bs = (decodeFrame bs).map fun frame => .make frame.date frame.items := by
  rw [decodeResponse]
  cases decodeFrame bs <;> rfl

theorem IsFrame.decodeRequest {bs : Bytes} {frame : Frame} (h : IsFrame bs frame) :
    decodeRequest bs = requestOfFrame frame := by
  rw [Wire.decodeRequest, h.decodeFrame]
  rfl

theorem IsFault.decodeRequest {bs : Bytes} {e : Failure} (h : IsFault bs e) :
    decodeRequest bs = .error e := by
  rw [Wire.decodeRequest, h.decodeFrame]
  rfl

theorem requestOfFrame_eq_ok {frame : Frame} {q : Request} :
    requestOfFrame frame = .ok q ↔ ∃ idRow keyRow id key, frame.items = [idRow, keyRow] ∧
      PayerId.ofHex idRow = .ok id ∧ PublicKey.ofHex keyRow = .ok key ∧
        q = .make id frame.date key := by
  constructor
  · intro h
    unfold requestOfFrame at h
    split at h
    · next idRow keyRow hitems =>
      cases hid : PayerId.ofHex idRow with
      | error e =>
        rw [hid] at h
        cases h
      | ok id =>
        cases hkey : PublicKey.ofHex keyRow with
        | error e =>
          rw [hid, hkey] at h
          cases h
        | ok key =>
          rw [hid, hkey] at h
          cases h
          exact ⟨idRow, keyRow, id, key, hitems, hid, hkey, rfl⟩
    · cases h
  · rintro ⟨idRow, keyRow, id, key, hitems, hid, hkey, rfl⟩
    rw [requestOfFrame, hitems]
    dsimp only
    rw [hid, hkey]
    rfl

/-- Whatever is wrong with the items of a request, it is malformed. -/
theorem requestOfFrame_eq_error {frame : Frame} {e : Failure} (h : requestOfFrame frame = .error e) :
    ∃ why, e = .malformed why := by
  unfold requestOfFrame at h
  split at h
  · next idRow keyRow hitems =>
    cases hid : PayerId.ofHex idRow with
    | error e' =>
      rw [hid] at h
      cases h
      exact PayerId.ofHex_eq_error hid
    | ok id =>
      rw [hid] at h
      cases hkey : PublicKey.ofHex keyRow with
      | error e' =>
        rw [hkey] at h
        cases h
        exact ⟨_, rfl⟩
      | ok key =>
        rw [hkey] at h
        cases h
  · cases h
    exact ⟨_, rfl⟩

theorem decodeRequest_eq_ok {bs : Bytes} {q : Request} :
    decodeRequest bs = .ok q ↔ IsRequest bs q := by
  constructor
  · intro h
    rcases isFrame_or_isFault bs with ⟨frame, hframe⟩ | ⟨e, hfault⟩
    · rw [hframe.decodeRequest] at h
      obtain ⟨idRow, keyRow, id, key, hitems, hid, hkey, rfl⟩ := requestOfFrame_eq_ok.mp h
      obtain ⟨digits, hpadded, hspells⟩ := PublicKey.ofHex_eq_ok.mp hkey
      obtain ⟨date, items⟩ := frame
      subst hitems
      exact .intro hframe (PayerId.ofHex_eq_ok.mp hid) hpadded hspells
    · rw [hfault.decodeRequest] at h
      cases h
  · intro h
    cases h with
    | intro frame spellsId padded spellsKey =>
      have hid := PayerId.ofHex_eq_ok.mpr spellsId
      have hkey := PublicKey.ofHex_eq_ok.mpr ⟨_, padded, spellsKey⟩
      rw [frame.decodeRequest]
      exact requestOfFrame_eq_ok.mpr ⟨_, _, _, _, rfl, hid, hkey, rfl⟩

theorem decodeRequest_eq_error {bs : Bytes} {e : Failure} (h : decodeRequest bs = .error e) :
    IsFault bs e ∨ (∃ frame, IsFrame bs frame) ∧ ∃ why, e = .malformed why := by
  rcases isFrame_or_isFault bs with ⟨frame, hframe⟩ | ⟨e', hfault⟩
  · rw [hframe.decodeRequest] at h
    exact .inr ⟨⟨frame, hframe⟩, requestOfFrame_eq_error h⟩
  · rw [hfault.decodeRequest] at h
    cases h
    exact .inl hfault

/-- Are the characters so many hexadecimal digits? -/
def IsHex (size : Nat) (cs : List Char) : Prop := cs.length = size ∧ ∀ c ∈ cs, Hex.IsDigit c

theorem isHex_replicate {c : Char} (h : Hex.IsDigit c) (size : Nat) :
    IsHex size (List.replicate size c) := by
  refine ⟨List.length_replicate, fun d hd => ?_⟩
  rwa [(List.mem_replicate.mp hd).2]

/-- A request with an id and a key is one with forty digits and 2368 digits. -/
theorem exists_isRequest {bs : Bytes} :
    (∃ q, IsRequest bs q) ↔ ∃ date idRow keyRow digits, IsFrame bs ⟨date, [idRow, keyRow]⟩ ∧
      IsHex 40 idRow.toList ∧ Text.IsPadded keyRow.toList digits ∧ IsHex 2368 digits := by
  constructor
  · rintro ⟨q, h⟩
    cases h with
    | @intro date idRow keyRow digits id key frame spellsId padded spellsKey =>
      have hid : idRow.toList.length = 40 := by
        rw [spellsId.length, id.length_eq]
        rfl
      have hkey : digits.length = 2368 := by
        rw [spellsKey.length, key.length_eq]
        rfl
      exact ⟨date, idRow, keyRow, digits, frame, ⟨hid, spellsId.isDigit⟩, padded, hkey,
        spellsKey.isDigit⟩
  · rintro ⟨date, idRow, keyRow, digits, frame, ⟨hid, hidDigits⟩, padded, hkey, hkeyDigits⟩
    obtain ⟨id, hidLength, hidSpells⟩ := Hex.exists_spells (n := 20) hid hidDigits
    obtain ⟨key, hkeyLength, hkeySpells⟩ := Hex.exists_spells (n := 1184) hkey hkeyDigits
    exact ⟨.make ⟨id, hidLength⟩ date ⟨key, hkeyLength⟩, .intro frame hidSpells padded hkeySpells⟩

/-! ## Main result -/

/-- A response is read of every frame and of nothing else, and a request of the frames with two items
of which the first is forty hexadecimal digits and the second, blanks around it aside, 2368. What is
no frame fails with its first fault, whichever message is looked for, and a frame that is no request
is malformed. -/
theorem accepted_exactly (bs : Bytes) :
    (∀ r, decodeResponse bs = .ok r ↔ ∃ frame, IsFrame bs frame ∧ r = .make frame.date frame.items) ∧
      (∀ e, decodeResponse bs = .error e ↔ IsFault bs e) ∧
      (∀ q, decodeRequest bs = .ok q ↔ IsRequest bs q) ∧
      ((∃ q, decodeRequest bs = .ok q) ↔ ∃ date idRow keyRow digits,
        IsFrame bs ⟨date, [idRow, keyRow]⟩ ∧ IsHex 40 idRow.toList ∧
          Text.IsPadded keyRow.toList digits ∧ IsHex 2368 digits) ∧
      (∀ e, IsFault bs e → decodeRequest bs = .error e) ∧
      ∀ e, decodeRequest bs = .error e →
        IsFault bs e ∨ (∃ frame, IsFrame bs frame) ∧ ∃ why, e = .malformed why := by
  refine ⟨fun r => ?_, fun e => ?_, fun q => decodeRequest_eq_ok, ?_,
    fun e h => h.decodeRequest, fun e h => decodeRequest_eq_error h⟩
  · simp only [decodeResponse_eq, ← decodeFrame_eq_ok]
    cases decodeFrame bs <;> simp [Except.map, eq_comm]
  · rw [decodeResponse_eq, ← decodeFrame_eq_error]
    cases decodeFrame bs <;> simp [Except.map]
  · rw [← exists_isRequest]
    exact exists_congr fun q => decodeRequest_eq_ok

/-- A literal with a sign and a zero in front is a version, blank rows hold no item, and upper case
digits with blanks around them are a key. Another version is refused before anything else. -/
theorem accepted_exactly_rows :
    decodeResponse (Text.utf8 ("\n".intercalate ["+01", "-1500", "", "Address", ""])) =
        .ok (.make (some (.atMillis (-1500) (by decide) (by decide))) ["Address"]) ∧
      (∃ q, decodeRequest (Text.utf8 ("\n".intercalate ["1", "not-present",
        String.ofList (List.replicate 40 'A'), String.ofList (' ' :: List.replicate 2368 'f')])) =
          .ok q) ∧
      decodeRequest (Text.utf8 ("\n".intercalate ["2", "?"])) = .error (.versionMismatch 1 "2") := by
  have hliteral {row : String} {n : Int} (h : Text.int64? row = some n) : Text.IsInt64 row n :=
    Text.int64?_eq_some.mp h
  refine ⟨?_, ?_, ?_⟩
  · have hrows : IsRows _ ["+01", "-1500", "", "Address", ""] := ⟨nofun, by decide, rfl⟩
    have hdate : IsDate "-1500" (some (.atMillis (-1500) (by decide) (by decide))) :=
      .millis (hliteral (by decide +kernel)) _ _
    exact ((accepted_exactly _).1 _).mpr ⟨_, .intro hrows (hliteral (by decide +kernel)) hdate, rfl⟩
  · have hids : IsHex 40 (List.replicate 40 'A') := isHex_replicate (by decide) 40
    have hkeys : IsHex 2368 (List.replicate 2368 'f') := isHex_replicate (by decide) 2368
    have hnot {size : Nat} {cs : List Char} (h : IsHex size cs) : '\n' ∉ cs := fun hc =>
      absurd (h.2 _ hc) (by decide)
    generalize List.replicate 40 'A' = idDigits at hids
    generalize List.replicate 2368 'f' = keyDigits at hkeys
    generalize htext : Text.utf8 _ = bs
    have hrows : IsRows bs ["1", "not-present", String.ofList idDigits,
        String.ofList (' ' :: keyDigits)] := ⟨nofun, by simp [hnot hids, hnot hkeys], htext.symm⟩
    have hframe : IsFrame bs ⟨none, [String.ofList idDigits, String.ofList (' ' :: keyDigits)]⟩ := by
      have hitems := IsFrame.intro hrows (hliteral (by decide +kernel)) .absent
      have hne : idDigits ≠ [] := by
        rintro rfl
        exact absurd hids.1 (by decide)
      simpa [hne] using hitems
    refine (accepted_exactly bs).2.2.2.1.mpr
      ⟨none, _, _, keyDigits, hframe, ?_, ⟨[' '], [], ?_⟩, hkeys⟩
    · rwa [String.toList_ofList]
    · simp [Text.isBlank]
  · have hrows : IsRows _ ["2", "?"] := ⟨nofun, by decide, rfl⟩
    have hother : ¬ Text.IsInt64 "2" 1 := fun h =>
      absurd (Text.int64?_eq_some.mpr h) (by decide +kernel)
    exact (accepted_exactly _).2.2.2.2.1 _ (.version hrows hother)

end AddressExchange.Wire
