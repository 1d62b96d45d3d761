import AddressExchange.Wire
import AddressExchange.Proofs.Hex
import AddressExchange.Proofs.Time.Instant

/-!
# Messages survive the wire

What is read of a frame that was written is its date in milliseconds and its items, cut at line
ends. A request therefore comes back with its date rounded down, and so does a response each of
whose addresses fills one row.
-/

namespace AddressExchange.Wire

/-! ## Rows -/

/-- Fills the text exactly one row, and not an empty one? -/
def IsRow (s : String) : Prop := s ≠ "" ∧ Protocol.rowEnd ∉ s.toList

theorem rowsOf_of_notMem {s : String} (h : Protocol.rowEnd ∉ s.toList) : rowsOf s = [s] := by
  rw [rowsOf, List.splitOn_eq_singleton h]
  simp

/-- Rows that were written are read back, each cut at the line ends inside it. Behind the last one
stands an empty row. -/
theorem rowsOf_rowsText (rows : List String) : rowsOf (rowsText rows) = rows.flatMap rowsOf ++ [""] := by
  rw [rowsOf, rowsText, String.toList_ofList]
  induction rows with
  | nil => rfl
  | cons row rows ih =>
    -- The line end behind the first row parts it from the others.
    have hsplit : (row.toList ++ [Protocol.rowEnd] ++
        rows.flatMap fun row => row.toList ++ [Protocol.rowEnd]).splitOn Protocol.rowEnd =
          row.toList.splitOn Protocol.rowEnd ++
            (rows.flatMap fun row => row.toList ++ [Protocol.rowEnd]).splitOn Protocol.rowEnd := by
      rw [List.append_assoc, List.singleton_append, List.splitOn_append_cons_self]
    rw [List.flatMap_cons, hsplit, List.map_append, ih, List.flatMap_cons, List.append_assoc]
    rfl

/-! ## Frames -/

theorem int64?_noDate : Text.int64? Protocol.noDate = none := by decide +kernel

/-- Dates come back in milliseconds. -/
theorem readDate_dateRow {date : Option Instant} (h : ∀ t ∈ date, t.isLeap = false) :
    readDate (dateRow date) = .ok (date.map Instant.floorMillis) := by
  cases date with
  | none => rfl
  | some t =>
    have hi := Text.int64?_toString t.toMillis_bounds
    have hne : toString t.toMillis ≠ Protocol.noDate := by
      intro he
      rw [he, int64?_noDate] at hi
      exact absurd hi nofun
    rw [dateRow, readDate, if_neg hne, hi]
    simp only [Instant.ofMillis_toMillis (h t rfl)]
    rfl

theorem rowEnd_notMem_dateRow (date : Option Instant) : Protocol.rowEnd ∉ (dateRow date).toList := by
  cases date with
  | none => decide +kernel
  | some t =>
    rw [dateRow, Text.toList_toString_int]
    intro h
    -- It would be a digit, as a sign it is none.
    have hd : Protocol.rowEnd ∈ Nat.toDigits 10 t.toMillis.natAbs := by
      split at h
      · exact (List.mem_cons.mp h).resolve_left (by decide)
      · exact h
    exact absurd (Text.isDigit_of_mem_toDigits hd) (by decide)

/-- A frame of the current version comes back with its date in milliseconds and its items cut at
line ends, the empty pieces dropped. -/
theorem decodeFrame_encodeFrame {date : Option Instant} (h : ∀ t ∈ date, t.isLeap = false)
    (items : List String) :
    decodeFrame (encodeFrame Protocol.version date items) =
      .ok ⟨date.map Instant.floorMillis, (items.flatMap rowsOf).filter (· ≠ "")⟩ := by
  -- The first two rows are single, the items are cut, and the last row is empty.
  have hrows : rowsOf (rowsText (toString Protocol.version :: dateRow date :: items)) =
      toString Protocol.version :: dateRow date :: (items.flatMap rowsOf ++ [""]) := by
    rw [rowsOf_rowsText, List.flatMap_cons, List.flatMap_cons,
      rowsOf_of_notMem (rowEnd_notMem_dateRow date), rowsOf_of_notMem (by decide +kernel)]
    simp
  have hversion : Text.int64? (toString Protocol.version) = some (Protocol.version : Int) := by
    decide +kernel
  rw [decodeFrame, encodeFrame, Text.decode_utf8]
  simp only [hrows, ofRows, List.headD_cons, List.drop_one, List.tail_cons]
  rw [if_neg (not_not_intro hversion), readDate_dateRow h, List.filter_append]
  simp [Except.map]

theorem flatMap_rowsOf {items : List String} (h : ∀ s ∈ items, IsRow s) :
    (items.flatMap rowsOf).filter (· ≠ "") = items := by
  have hf : items.flatMap rowsOf = items := by
    rw [List.flatMap_congr fun s hs => rowsOf_of_notMem (h s hs).2, List.flatMap_singleton']
  rw [hf, List.filter_eq_self]
  intro s hs
  simp [(h s hs).1]

/-! ## Messages -/

theorem isRow_encode {bs : Bytes} (h : bs ≠ []) : IsRow (Hex.encode bs) := by
  refine ⟨Hex.encode_ne_empty h, fun hm => ?_⟩
  exact absurd (Hex.isBlank_of_mem_encode hm) (by decide)

/-- The Matcher reads the request that the payer wrote, its date in milliseconds. -/
theorem decodeRequest_encodeRequest {date : Option Instant} (h : ∀ t ∈ date, t.isLeap = false)
    (id : PayerId) (key : PublicKey) :
    decodeRequest (encodeRequest (.make id date key)) =
      .ok (.make id (date.map Instant.floorMillis) key) := by
  have hid : id.bytes ≠ [] := by
    intro he
    have := id.length_eq
    simp [he, Protocol.payerIdSize] at this
  have hkey : key.bytes ≠ [] := by
    intro he
    have := key.length_eq
    simp [he, Protocol.publicKeySize] at this
  have hitems : ∀ s ∈ [id.toHex, key.toHex], IsRow s := by
    intro s hs
    simp only [List.mem_cons, List.not_mem_nil, or_false] at hs
    rcases hs with rfl | rfl
    · exact isRow_encode hid
    · exact isRow_encode hkey
  have hframe := decodeFrame_encodeFrame h [id.toHex, key.toHex]
  rw [flatMap_rowsOf hitems] at hframe
  have hv : (Request.make id date key).version.toNat = Protocol.version := rfl
  simp only [decodeRequest, encodeRequest, hv]
  rw [show (Request.make id date key).date = date from rfl,
    show (Request.make id date key).payerId = id from rfl,
    show (Request.make id date key).replyKey = key from rfl, hframe]
  simp [bind, Except.bind, requestOfFrame]

/-- A date in milliseconds has at most nineteen digits and a sign. -/
theorem length_dateRow_le (date : Option Instant) : (dateRow date).toList.length ≤ 20 := by
  cases date with
  | none => decide
  | some t =>
    have hbounds := t.toMillis_bounds
    have hdigits : (Nat.toDigits 10 t.toMillis.natAbs).length ≤ 19 :=
      (Nat.length_toDigits_le_iff (by decide) (by decide)).mpr (by omega)
    rw [dateRow, Text.toList_toString_int]
    split
    · exact Nat.succ_le_succ hdigits
    · exact Nat.le_succ_of_le hdigits

theorem length_hex (bs : Bytes) : (Hex.encode bs).toList.length = 2 * bs.length := by
  rw [Hex.encode, String.toList_ofList]
  induction bs with
  | nil => rfl
  | cons b bs ih =>
    rw [List.flatMap_cons, List.length_append, ih, List.length_cons]
    simp only [List.length_cons, List.length_nil]
    omega

/-- A request is short, whoever asks and with whatever date. -/
theorem length_encodeRequest_le (id : PayerId) (date : Option Instant) (key : PublicKey) :
    (encodeRequest (.make id date key)).length ≤ 9732 := by
  have hid : id.toHex.toList.length = 40 := (length_hex id.bytes).trans (by rw [id.length_eq]; rfl)
  have hkey : key.toHex.toList.length = 2368 :=
    (length_hex key.bytes).trans (by rw [key.length_eq]; rfl)
  have hdate := length_dateRow_le date
  have hversion : (toString Protocol.version).toList.length = 1 := by decide +kernel
  refine (Text.length_utf8_le _).trans ?_
  have hv : (Request.make id date key).version.toNat = Protocol.version := rfl
  rw [rowsText, String.toList_ofList, hv]
  simp only [Request.make, List.flatMap_cons, List.flatMap_nil, List.length_append, List.length_cons,
    List.length_nil, hid, hkey, hversion]
  omega

theorem length_rowsText_cons (row : String) (rows : List String) :
    (Text.utf8 (rowsText (row :: rows))).length =
      row.utf8ByteSize + 1 + (Text.utf8 (rowsText rows)).length := by
  have hend : (String.utf8EncodeChar Protocol.rowEnd).length = 1 := by decide
  have hrows : Text.utf8 (rowsText (row :: rows)) =
      Text.utf8 row ++ String.utf8EncodeChar Protocol.rowEnd ++ Text.utf8 (rowsText rows) := by
    rw [Text.utf8_eq_flatMap, Text.utf8_eq_flatMap, Text.utf8_eq_flatMap, rowsText, rowsText,
      String.toList_ofList, String.toList_ofList, List.flatMap_cons, List.flatMap_append,
      List.flatMap_append, List.flatMap_singleton]
  rw [hrows, List.length_append, List.length_append, hend, Text.length_utf8]

theorem length_rowsText_le {rows : List String} {n : Nat} (h : ∀ row ∈ rows, row.utf8ByteSize ≤ n) :
    (Text.utf8 (rowsText rows)).length ≤ rows.length * (n + 1) := by
  induction rows with
  | nil => exact Nat.zero_le _
  | cons row rows ih =>
    have hrow := h row List.mem_cons_self
    have hrows := ih fun r hr => h r (List.mem_cons_of_mem row hr)
    rw [length_rowsText_cons, List.length_cons, Nat.succ_mul]
    omega

/-- A response is hardly longer than its addresses: in front of them stand the row of the version and
that of the date. -/
theorem length_encodeResponse_le (date : Option Instant) {addresses : List String} {n : Nat}
    (h : ∀ a ∈ addresses, a.utf8ByteSize ≤ n) :
    (encodeResponse (.make date addresses)).length ≤ 83 + addresses.length * (n + 1) := by
  have hversion : (toString Protocol.version).utf8ByteSize = 1 := by decide +kernel
  have hv : (Response.make date addresses).version.toNat = Protocol.version := rfl
  have hdate : (dateRow date).utf8ByteSize ≤ 4 * 20 := by
    rw [← Text.length_utf8]
    exact (Text.length_utf8_le _).trans (Nat.mul_le_mul_left 4 (length_dateRow_le date))
  have haddresses := length_rowsText_le h
  rw [encodeResponse, encodeFrame, length_rowsText_cons, length_rowsText_cons, hv, hversion]
  simp only [Response.make]
  omega

/-- The payer reads the response that the Matcher wrote, its date in milliseconds, if each address
fills one row. -/
theorem decodeResponse_encodeResponse {date : Option Instant} {addresses : List String}
    (hd : ∀ t ∈ date, t.isLeap = false) (ha : ∀ a ∈ addresses, IsRow a) :
    decodeResponse (encodeResponse (.make date addresses)) =
      .ok (.make (date.map Instant.floorMillis) addresses) := by
  have hframe := decodeFrame_encodeFrame hd addresses
  rw [flatMap_rowsOf ha] at hframe
  have hv : (Response.make date addresses).version.toNat = Protocol.version := rfl
  simp only [decodeResponse, encodeResponse, hv]
  rw [show (Response.make date addresses).replayDate = date from rfl,
    show (Response.make date addresses).addresses = addresses from rfl, hframe]
  rfl

end AddressExchange.Wire
