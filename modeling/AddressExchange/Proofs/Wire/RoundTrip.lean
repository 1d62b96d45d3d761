import AddressExchange.Cipher.Labelled
import AddressExchange.Proofs.Wire.Grammar

/-!
# What the wire keeps

Dates lose what is finer than a millisecond, and addresses the line ends inside them; nothing else is
lost between the writer and the reader. What was read has lost that already, so it is read again as
it is, however it was first written.
-/

namespace AddressExchange.Wire

/-! ## Dates -/

theorem map_floorMillis_eq_self {date : Option Instant} :
    date.map Instant.floorMillis = date ↔ ∀ t ∈ date, t.nanos % 1000000 = 0 := by
  cases date with
  | none => simp
  | some t => simp [Instant.floorMillis_eq_self]

/-- Dates that are read are in milliseconds, outside leap seconds. -/
theorem IsDate.millis_or_none {row : String} {date : Option Instant} (h : IsDate row date) :
    (∀ t ∈ date, t.isLeap = false) ∧ date.map Instant.floorMillis = date := by
  cases h with
  | absent => simp
  | millis h low high =>
    have hmillis : (Instant.atMillis _ low high).nanos % 1000000 = 0 := Nat.mul_mod_left _ _
    simp [Instant.isLeap_atMillis, Instant.floorMillis_eq_self.mpr hmillis]

/-! ## Items -/

/-- Items come back as they were if each of them fills one row, and only then. -/
theorem filter_flatMap_rowsOf {items : List String} :
    (items.flatMap rowsOf).filter (· ≠ "") = items ↔ ∀ s ∈ items, IsRow s := by
  constructor
  · intro h s hs
    rw [← h] at hs
    obtain ⟨hs, hne⟩ := List.mem_filter.mp hs
    obtain ⟨text, -, hrow⟩ := List.mem_flatMap.mp hs
    exact ⟨of_decide_eq_true hne, notMem_of_mem_rowsOf hrow⟩
  · exact flatMap_rowsOf

theorem IsFrame.isRow {bs : Bytes} {frame : Frame} (h : IsFrame bs frame) :
    ∀ s ∈ frame.items, IsRow s := by
  cases h with
  | intro rows version present =>
    intro s hs
    obtain ⟨hs, hne⟩ := List.mem_filter.mp hs
    exact ⟨of_decide_eq_true hne,
      rows.notMem s (List.mem_cons_of_mem _ (List.mem_cons_of_mem _ hs))⟩

theorem IsFrame.millis_or_none {bs : Bytes} {frame : Frame} (h : IsFrame bs frame) :
    (∀ t ∈ frame.date, t.isLeap = false) ∧ frame.date.map Instant.floorMillis = frame.date := by
  cases h with
  | intro rows version present => exact present.millis_or_none

/-! ## Messages -/

/-- What comes back of a response: its date rounded down to the millisecond, and its addresses cut at
line ends, without the empty pieces. -/
def received (r : Response) : Response :=
  .make (r.replayDate.map Instant.floorMillis) ((r.addresses.flatMap rowsOf).filter (· ≠ ""))

theorem decodeResponse_encodeResponse_eq {r : Response} (hv : r.version = 1)
    (hd : ∀ t ∈ r.replayDate, t.isLeap = false) :
    decodeResponse (encodeResponse r) = .ok (received r) := by
  have hframe := decodeFrame_encodeFrame hd r.addresses
  rw [decodeResponse_eq, encodeResponse, hv]
  exact congrArg (Except.map fun frame : Frame => Response.make frame.date frame.items) hframe

theorem received_eq_self {r : Response} (hv : r.version = 1) :
    received r = r ↔ (∀ t ∈ r.replayDate, t.nanos % 1000000 = 0) ∧ ∀ a ∈ r.addresses, IsRow a := by
  rw [← map_floorMillis_eq_self, ← filter_flatMap_rowsOf]
  obtain ⟨version, replayDate, addresses⟩ := r
  cases hv
  simp [received, Response.make, Protocol.version]

theorem decodeRequest_encodeRequest_eq {q : Request} (hv : q.version = 1)
    (hd : ∀ t ∈ q.date, t.isLeap = false) :
    decodeRequest (encodeRequest q) = .ok { q with date := q.date.map Instant.floorMillis } := by
  obtain ⟨version, id, date, key⟩ := q
  cases hv
  exact decodeRequest_encodeRequest hd id key

theorem decodeResponse_eq_ok {bs : Bytes} {r : Response} :
    decodeResponse bs = .ok r ↔ ∃ frame, IsFrame bs frame ∧ .make frame.date frame.items = r := by
  simp only [decodeResponse_eq, ← decodeFrame_eq_ok]
  cases decodeFrame bs <;> simp [Except.map]

/-- A response that was read is read again when it is written. -/
theorem decodeResponse_again {bs : Bytes} {r : Response} (h : decodeResponse bs = .ok r) :
    decodeResponse (encodeResponse r) = .ok r := by
  obtain ⟨frame, hframe, rfl⟩ := decodeResponse_eq_ok.mp h
  rw [decodeResponse_encodeResponse hframe.millis_or_none.1 hframe.isRow, hframe.millis_or_none.2]

/-- A request that was read is read again when it is written, whatever the case of its digits was. -/
theorem decodeRequest_again {bs : Bytes} {q : Request} (h : decodeRequest bs = .ok q) :
    decodeRequest (encodeRequest q) = .ok q := by
  cases decodeRequest_eq_ok.mp h with
  | @intro date idRow keyRow digits id key frame _ _ _ =>
    obtain ⟨hplain, hmillis⟩ := frame.millis_or_none
    rw [decodeRequest_encodeRequest hplain id key]
    exact congrArg (fun date => Except.ok (Request.make id date key)) hmillis

/-! ## Main result -/

/-- A response comes back with its date rounded down and its addresses cut at line ends, so it is the
same exactly if its date is in milliseconds and each address fills one row. A request comes back with
its date rounded down. What was read of any bytes comes back as it is. -/
theorem kept_by_wire :
    (∀ r : Response, r.version = 1 → (∀ t ∈ r.replayDate, t.isLeap = false) →
      decodeResponse (encodeResponse r) = .ok (received r) ∧
        (decodeResponse (encodeResponse r) = .ok r ↔
          (∀ t ∈ r.replayDate, t.nanos % 1000000 = 0) ∧
            ∀ a ∈ r.addresses, a ≠ "" ∧ '\n' ∉ a.toList)) ∧
      (∀ q : Request, q.version = 1 → (∀ t ∈ q.date, t.isLeap = false) →
        decodeRequest (encodeRequest q) = .ok { q with date := q.date.map Instant.floorMillis }) ∧
      (∀ bs r, decodeResponse bs = .ok r → decodeResponse (encodeResponse r) = .ok r) ∧
      ∀ bs q, decodeRequest bs = .ok q → decodeRequest (encodeRequest q) = .ok q := by
  refine ⟨fun r hv hd => ?_, fun q hv hd => decodeRequest_encodeRequest_eq hv hd,
    fun bs r h => decodeResponse_again h, fun bs q h => decodeRequest_again h⟩
  have hback := decodeResponse_encodeResponse_eq hv hd
  refine ⟨hback, ?_⟩
  rw [hback, Except.ok.injEq]
  exact received_eq_self hv

/-- An address with a line end inside it comes back as two, an empty one does not come back, and half
a millisecond is lost. What came back comes back again. -/
theorem kept_by_wire_cut :
    let written := Response.make (some (.early 5 1500000)) ["ab\ncd", ""]
    let read := Response.make (some (.early 5 1000000)) ["ab", "cd"]
    decodeResponse (encodeResponse written) = .ok read ∧
      decodeResponse (encodeResponse written) ≠ .ok written ∧
      decodeResponse (encodeResponse read) = .ok read ∧
      ∃ q, decodeRequest (encodeRequest (.make (.filled 7) (some (.early 5 1500000))
        (KeyPair.filled 1).publicKey)) = .ok q ∧ decodeRequest (encodeRequest q) = .ok q := by
  intro written read
  have hplain : ∀ t ∈ written.replayDate, t.isLeap = false := by simp [written, Response.make]
  obtain ⟨hread, hsame⟩ := kept_by_wire.1 written rfl hplain
  have hcut : received written = read := by decide +kernel
  rw [hcut] at hread
  refine ⟨hread, fun h => ?_, kept_by_wire.2.2.1 _ _ hread, ?_⟩
  · exact (hsame.mp h).2 "" (by simp [written, Response.make]) |>.1 rfl
  · have hrequest := kept_by_wire.2.1 (.make (.filled 7) (some (.early 5 1500000))
      (KeyPair.filled 1).publicKey) rfl (by simp [Request.make])
    exact ⟨_, hrequest, kept_by_wire.2.2.2 _ _ hrequest⟩

end AddressExchange.Wire
