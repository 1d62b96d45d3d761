import AddressExchange.Failure
import AddressExchange.Proofs.Text.Blank
import AddressExchange.Proofs.Text.Literal
import Mathlib.Data.FinEnum

/-!
# Hexadecimal text is read back

A text spells bytes if it is their text in lower case. It is read as the bytes that it spells, so the
text of a byte string is read back as the byte string. It consists of digits alone: it has no blank
to trim and no line feed that would end its row.
-/

namespace AddressExchange.Hex

/-! ## Digits -/

/-- Is the character a hexadecimal digit? -/
def IsDigit (c : Char) : Prop :=
  ('0' ≤ c ∧ c ≤ '9') ∨ ('a' ≤ c ∧ c ≤ 'f') ∨ ('A' ≤ c ∧ c ≤ 'F')

instance (c : Char) : Decidable (IsDigit c) := inferInstanceAs (Decidable (_ ∨ _))

/-- The byte that stands for the digit of a number. -/
def digitByte (n : UInt8) : UInt8 := (digit n).val.toUInt8

private theorem digit_spec : ∀ n : UInt8, n < 16 →
    (digit n).toNat < 128 ∧ (digit n).toLower = digit n ∧ value? (digitByte n) = some n := by
  decide +kernel

private theorem value?_all : ∀ b : UInt8, (value? b).all fun n =>
    n < 16 ∧ IsDigit (Char.ofUInt8 b) ∧ Text.isBlank (Char.ofUInt8 b) = false ∧
      String.utf8EncodeChar (Char.ofUInt8 b) = [b] ∧ (Char.ofUInt8 b).toLower = digit n := by
  decide +kernel

private theorem value?_toLower : ∀ k : Fin 128,
    value? (Char.ofNat k).toLower.val.toUInt8 = value? (.ofNat k) := by
  decide +kernel

private theorem isSome_value? : ∀ k : Fin 128, IsDigit (Char.ofNat k) →
    (value? (.ofNat k)).isSome := by
  decide +kernel

/-- The byte stands for the character, a digit with a value. -/
structure Stands (b n : UInt8) (c : Char) : Prop where
  lt : n < 16
  isDigit : IsDigit c
  isBlank : Text.isBlank c = false
  utf8 : String.utf8EncodeChar c = [b]
  toLower : c.toLower = digit n

theorem stands_of_value? {b n : UInt8} (h : value? b = some n) : Stands b n (Char.ofUInt8 b) := by
  have hall := value?_all b
  rw [h] at hall
  obtain ⟨hlt, hdigit, hblank, hutf8, hlower⟩ := of_decide_eq_true hall
  exact ⟨hlt, hdigit, hblank, hutf8, hlower⟩

private theorem ofUInt8_ofNat {c : Char} (h : c.toNat < 128) : Char.ofUInt8 (.ofNat c.toNat) = c := by
  apply Char.toNat_inj.mp
  show (UInt8.ofNat c.toNat).toUInt32.toNat = c.toNat
  rw [UInt8.toNat_toUInt32, UInt8.toNat_ofNat_of_lt' (Nat.lt_trans h (by decide))]

/-- The byte that stands for what becomes a digit in lower case has the value of the digit. -/
theorem value?_of_toLower {c : Char} {n : UInt8} (hn : n < 16) (h : c.toLower = digit n) :
    ∃ b, Char.ofUInt8 b = c ∧ value? b = some n := by
  obtain ⟨hlt, -, hvalue⟩ := digit_spec n hn
  -- Lower case changes letters only, so the character is of ASCII.
  have hc : c.toNat < 128 := by
    unfold Char.toLower at h
    split at h
    · next hc => exact Nat.lt_of_le_of_lt hc.2 (by decide)
    · exact h ▸ hlt
  have hlower := value?_toLower ⟨c.toNat, hc⟩
  rw [Char.ofNat_toNat, h] at hlower
  exact ⟨.ofNat c.toNat, ofUInt8_ofNat hc, hlower.symm.trans hvalue⟩

theorem value?_of_isDigit {c : Char} (h : IsDigit c) :
    ∃ b n, Char.ofUInt8 b = c ∧ value? b = some n := by
  have hc : c.toNat < 128 := by
    rcases h with h | h | h
    all_goals exact Nat.lt_of_le_of_lt h.2 (by decide)
  have hsome := isSome_value? ⟨c.toNat, hc⟩
  rw [Char.ofNat_toNat] at hsome
  obtain ⟨n, hn⟩ := Option.isSome_iff_exists.mp (hsome h)
  exact ⟨.ofNat c.toNat, n, ofUInt8_ofNat hc, hn⟩

theorem isBlank_of_isDigit {c : Char} (h : IsDigit c) : Text.isBlank c = false := by
  obtain ⟨b, n, rfl, hvalue⟩ := value?_of_isDigit h
  exact (stands_of_value? hvalue).isBlank

/-! ## Halves of a byte -/

private theorem halves_lt : ∀ b : UInt8, b >>> 4 < 16 ∧ b &&& 15 < 16 := by
  decide +kernel

private theorem join_halves : ∀ b : UInt8, (b >>> 4) <<< 4 ||| (b &&& 15) = b := by
  decide +kernel

private theorem halves_join_ofNat : ∀ a b : Fin 16,
    (UInt8.ofNat a <<< 4 ||| UInt8.ofNat b) >>> 4 = UInt8.ofNat a ∧
      (UInt8.ofNat a <<< 4 ||| UInt8.ofNat b) &&& 15 = UInt8.ofNat b := by
  decide +kernel

private theorem halves_join {a b : UInt8} (ha : a < 16) (hb : b < 16) :
    (a <<< 4 ||| b) >>> 4 = a ∧ (a <<< 4 ||| b) &&& 15 = b := by
  have h := halves_join_ofNat ⟨a.toNat, ha⟩ ⟨b.toNat, hb⟩
  simpa only [UInt8.ofNat_toNat] using h

/-! ## Spelling -/

/-- Do the characters spell the bytes? In lower case they are the text of the bytes. -/
def Spells (cs : List Char) (bs : Bytes) : Prop := cs.map Char.toLower = (encode bs).toList

theorem toList_encode_cons (b : UInt8) (bs : Bytes) :
    (encode (b :: bs)).toList = digit (b >>> 4) :: digit (b &&& 15) :: (encode bs).toList := by
  simp [encode]

theorem encode_ne_empty {bs : Bytes} (h : bs ≠ []) : encode bs ≠ "" := by
  obtain ⟨b, bs, rfl⟩ := List.exists_cons_of_ne_nil h
  simp [encode]

theorem spells_nil : Spells [] [] := rfl

/-- Each byte is spelled by digits that have the values of its halves. -/
theorem spells_cons {cs : List Char} {b : UInt8} {bs : Bytes} :
    Spells cs (b :: bs) ↔ ∃ high low rest, cs = Char.ofUInt8 high :: Char.ofUInt8 low :: rest ∧
      value? high = some (b >>> 4) ∧ value? low = some (b &&& 15) ∧ Spells rest bs := by
  rw [Spells, toList_encode_cons]
  constructor
  · intro h
    obtain ⟨_, _, rfl, hlower, htail⟩ := List.map_eq_cons_iff.mp h
    obtain ⟨high, rfl, hhigh⟩ := value?_of_toLower (halves_lt b).1 hlower
    obtain ⟨_, rest, rfl, hlower', hrest⟩ := List.map_eq_cons_iff.mp htail
    obtain ⟨low, rfl, hlow⟩ := value?_of_toLower (halves_lt b).2 hlower'
    exact ⟨high, low, rest, rfl, hhigh, hlow, hrest⟩
  · rintro ⟨high, low, rest, rfl, hhigh, hlow, hrest⟩
    rw [List.map_cons, List.map_cons, (stands_of_value? hhigh).toLower,
      (stands_of_value? hlow).toLower, hrest]

theorem Spells.cons {high low a b : UInt8} {cs : List Char} {bs : Bytes}
    (hhigh : value? high = some a) (hlow : value? low = some b) (h : Spells cs bs) :
    Spells (Char.ofUInt8 high :: Char.ofUInt8 low :: cs) ((a <<< 4 ||| b) :: bs) := by
  obtain ⟨ha, hb⟩ := halves_join (stands_of_value? hhigh).lt (stands_of_value? hlow).lt
  exact spells_cons.mpr ⟨high, low, cs, rfl, ha.symm ▸ hhigh, hb.symm ▸ hlow, h⟩

theorem Spells.isDigit {cs : List Char} {bs : Bytes} (h : Spells cs bs) : ∀ c ∈ cs, IsDigit c := by
  induction bs generalizing cs with
  | nil =>
    rw [List.map_eq_nil_iff.mp h]
    exact nofun
  | cons b bs ih =>
    obtain ⟨high, low, rest, rfl, hhigh, hlow, hrest⟩ := spells_cons.mp h
    intro c hc
    rcases List.mem_cons.mp hc with rfl | hc
    · exact (stands_of_value? hhigh).isDigit
    · rcases List.mem_cons.mp hc with rfl | hc
      · exact (stands_of_value? hlow).isDigit
      · exact ih hrest c hc

theorem Spells.length {cs : List Char} {bs : Bytes} (h : Spells cs bs) :
    cs.length = 2 * bs.length := by
  induction bs generalizing cs with
  | nil => rw [List.map_eq_nil_iff.mp h, List.length_nil, List.length_nil]
  | cons b bs ih =>
    obtain ⟨_, _, rest, rfl, -, -, hrest⟩ := spells_cons.mp h
    rw [List.length_cons, List.length_cons, List.length_cons, ih hrest, Nat.mul_succ]

/-- The text of bytes spells them. -/
theorem spells_encode (bs : Bytes) : Spells (encode bs).toList bs := by
  induction bs with
  | nil => exact spells_nil
  | cons b bs ih =>
    have hhigh := (digit_spec _ (halves_lt b).1).2.1
    have hlow := (digit_spec _ (halves_lt b).2).2.1
    rw [Spells] at ih ⊢
    rw [toList_encode_cons, List.map_cons, List.map_cons, hhigh, hlow, ih]

theorem isBlank_of_mem_encode {bs : Bytes} {c : Char} (h : c ∈ (encode bs).toList) :
    Text.isBlank c = false :=
  isBlank_of_isDigit ((spells_encode bs).isDigit c h)

/-- Digits, two for each byte, spell some bytes. -/
theorem exists_spells {cs : List Char} {n : Nat} (hlength : cs.length = 2 * n)
    (h : ∀ c ∈ cs, IsDigit c) : ∃ bs, bs.length = n ∧ Spells cs bs := by
  induction n generalizing cs with
  | zero =>
    rw [List.eq_nil_of_length_eq_zero hlength]
    exact ⟨[], rfl, spells_nil⟩
  | succ n ih =>
    match cs with
    | [] | [_] => cases hlength
    | high :: low :: rest =>
      obtain ⟨bs, hbs, hrest⟩ := ih (Nat.succ.inj (Nat.succ.inj hlength)) fun c hc =>
        h c (List.mem_cons_of_mem _ (List.mem_cons_of_mem _ hc))
      obtain ⟨_, a, rfl, ha⟩ := value?_of_isDigit (h high List.mem_cons_self)
      obtain ⟨_, b, rfl, hb⟩ := value?_of_isDigit (h low (List.mem_cons_of_mem _ List.mem_cons_self))
      exact ⟨_, congrArg (· + 1) hbs, hrest.cons ha hb⟩

/-! ## What is read -/

/-- Two digits are read as a byte. -/
inductive Read : Bytes → Bytes → Prop where
  | nil : Read [] []
  | cons {high low a b : UInt8} {ds bs : Bytes} (hhigh : value? high = some a)
      (hlow : value? low = some b) (h : Read ds bs) : Read (high :: low :: ds) ((a <<< 4 ||| b) :: bs)

theorem Read.even {ds bs : Bytes} (h : Read ds bs) : ds.length % 2 = 0 := by
  induction h with
  | nil => rfl
  | cons _ _ _ ih => rw [List.length_cons, List.length_cons, Nat.add_assoc, Nat.add_mod_right, ih]

theorem Read.pairs {ds bs : Bytes} (h : Read ds bs) (index : Nat) (done : Bytes) :
    pairs index done ds = .ok (done.reverse ++ bs) := by
  induction h generalizing index done with
  | nil => simp [Hex.pairs]
  | cons hhigh hlow _ ih =>
    simp only [Hex.pairs, hhigh, hlow]
    rw [ih, List.reverse_cons, List.append_assoc, List.singleton_append]

theorem read_of_pairs {index : Nat} {done ds r : Bytes} (heven : ds.length % 2 = 0)
    (h : pairs index done ds = .ok r) : ∃ bs, Read ds bs := by
  fun_induction pairs index done ds with
  | case1 | case2 => cases h
  | case3 index done high low ds a hhigh b hlow ih =>
    rw [List.length_cons, List.length_cons, Nat.add_assoc, Nat.add_mod_right] at heven
    obtain ⟨bs, hbs⟩ := ih heven h
    exact ⟨_, .cons ‹_› ‹_› hbs⟩
  | case4 ds _ _ hshort =>
    match ds with
    | [] => exact ⟨[], .nil⟩
    | [_] => exact absurd heven nofun
    | high :: low :: ds => exact (hshort high low ds rfl).elim

theorem decodeBytes_eq_ok {ds bs : Bytes} : decodeBytes ds = .ok bs ↔ Read ds bs := by
  constructor
  · intro h
    unfold decodeBytes at h
    split at h
    · next heven =>
      obtain ⟨bs', hread⟩ := read_of_pairs heven h
      rw [hread.pairs 0 []] at h
      cases h
      exact hread
    · cases h
  · intro h
    rw [decodeBytes, if_pos h.even, h.pairs]
    rfl

/-- Bytes that are read are those of characters that spell what is read. -/
theorem Read.spells {ds bs : Bytes} (h : Read ds bs) :
    ∃ cs, ds = Text.utf8 (String.ofList cs) ∧ Spells cs bs := by
  induction h with
  | nil => exact ⟨[], rfl, spells_nil⟩
  | cons hhigh hlow _ ih =>
    obtain ⟨cs, rfl, hcs⟩ := ih
    refine ⟨_, ?_, hcs.cons hhigh hlow⟩
    rw [Text.utf8_ofList, Text.utf8_ofList, List.flatMap_cons, List.flatMap_cons,
      (stands_of_value? hhigh).utf8, (stands_of_value? hlow).utf8]
    rfl

theorem read_of_spells {cs : List Char} {bs : Bytes} (h : Spells cs bs) :
    Read (cs.flatMap String.utf8EncodeChar) bs := by
  induction bs generalizing cs with
  | nil =>
    rw [List.map_eq_nil_iff.mp h]
    exact .nil
  | cons b bs ih =>
    obtain ⟨high, low, rest, rfl, hhigh, hlow, hrest⟩ := spells_cons.mp h
    have hread := Read.cons hhigh hlow (ih hrest)
    rw [join_halves] at hread
    rwa [List.flatMap_cons, List.flatMap_cons, (stands_of_value? hhigh).utf8,
      (stands_of_value? hlow).utf8]

/-- A text is read as the bytes that it spells, and not read if it spells none. -/
theorem decode_eq_ok {s : String} {bs : Bytes} : decode s = .ok bs ↔ Spells s.toList bs := by
  have hread : decode s = .ok bs ↔ Read (Text.utf8 s) bs := decodeBytes_eq_ok
  rw [hread]
  constructor
  · intro h
    obtain ⟨cs, hutf8, hcs⟩ := h.spells
    -- Texts with the same bytes are the same.
    have hs : s = String.ofList cs := by
      have := congrArg Text.Utf8.decode? hutf8
      rwa [Text.decode?_utf8, Text.decode?_utf8, Option.some.injEq] at this
    rwa [hs, String.toList_ofList]
  · intro h
    rw [Text.utf8_eq_flatMap]
    exact read_of_spells h

@[simp] theorem decode_encode (bs : Bytes) : decode (encode bs) = .ok bs :=
  decode_eq_ok.mpr (spells_encode bs)

/-- There are no blanks among digits. -/
theorem trim_encode (bs : Bytes) : Text.trim (encode bs) = encode bs :=
  Text.trim_eq_self fun c hc => isBlank_of_isDigit ((spells_encode bs).isDigit c hc)

end AddressExchange.Hex

namespace AddressExchange

/-- An id is read from the texts that spell its bytes. -/
theorem PayerId.ofHex_eq_ok {s : String} {id : PayerId} :
    ofHex s = .ok id ↔ Hex.Spells s.toList id.bytes := by
  rw [← Hex.decode_eq_ok]
  constructor
  · intro h
    unfold ofHex ofBytes at h
    split at h
    · next hs =>
      split at h
      · cases h
        exact hs
      · cases h
    · cases h
  · intro h
    rw [ofHex, h]
    exact dif_pos id.length_eq

@[simp] theorem PayerId.ofHex_toHex (id : PayerId) : PayerId.ofHex id.toHex = .ok id :=
  ofHex_eq_ok.mpr (Hex.spells_encode id.bytes)

theorem PayerId.ofHex_eq_error {s : String} {e : Failure} (h : ofHex s = .error e) :
    ∃ why, e = .malformed why := by
  unfold ofHex ofBytes at h
  split at h
  · split at h
    · cases h
    · cases h
      exact ⟨_, rfl⟩
  · cases h
    exact ⟨_, rfl⟩

/-- A key is read from the texts that spell its bytes, with blanks around them. -/
theorem PublicKey.ofHex_eq_ok {s : String} {k : PublicKey} :
    ofHex s = .ok k ↔ ∃ digits, Text.IsPadded s.toList digits ∧ Hex.Spells digits k.bytes := by
  have hdecode : ofHex s = .ok k ↔ Hex.decode (Text.trim s) = .ok k.bytes := by
    constructor
    · intro h
      unfold ofHex ofBytes at h
      split at h
      · next hs =>
        split at h
        · cases h
          exact hs
        · cases h
      · cases h
    · intro h
      rw [ofHex, h]
      exact dif_pos k.length_eq
  rw [hdecode, Hex.decode_eq_ok]
  constructor
  · intro h
    exact ⟨_, Text.isPadded_trim s, h⟩
  · rintro ⟨digits, hpadded, h⟩
    -- Digits are no blanks, so trimming stops at them.
    have htrim := (Text.trim_eq fun c hc => Hex.isBlank_of_isDigit (h.isDigit c hc)).mpr hpadded
    rwa [htrim]

@[simp] theorem PublicKey.ofHex_toHex (k : PublicKey) : PublicKey.ofHex k.toHex = .ok k :=
  ofHex_eq_ok.mpr ⟨_, Text.isPadded_self _, Hex.spells_encode k.bytes⟩

@[simp] theorem SecretKey.ofHex_toHex (k : SecretKey) : SecretKey.ofHex k.toHex = .ok k := by
  rw [ofHex, toHex, Hex.trim_encode, Hex.decode_encode]
  exact dif_pos k.length_eq

end AddressExchange
