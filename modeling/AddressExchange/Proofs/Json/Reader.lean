import AddressExchange.Json.Reader
import AddressExchange.Proofs.Json.Numeral
import AddressExchange.Proofs.Time.Rfc3339

/-!
# Values of JSON are read back

A reader reads a value back if it does so in either style, after any blanks, and whatever stands
behind the value in a list or object. Readers of items make readers of lists. A value that a reader
refuses is refused in the same places.
-/

namespace AddressExchange.Json

/-- Does a reader read a value as `a`, whatever is around it? -/
def Reads {α : Type} (read : Reader α) (v : Value) (a : α) : Prop :=
  ∀ style blanks rest, (∀ b ∈ blanks, isBlank b = true) → Delimited rest →
    read (blanks ++ (v.write style ++ rest)) = .ok (a, rest)

/-- Does a reader refuse a value, whatever is around it? -/
def Refuses {α : Type} (read : Reader α) (v : Value) : Prop :=
  ∀ style blanks rest, (∀ b ∈ blanks, isBlank b = true) → Delimited rest →
    ∃ e, read (blanks ++ (v.write style ++ rest)) = .error e

theorem Reads.eq {α : Type} {read : Reader α} {v : Value} {a : α} (h : Reads read v a) (style : Style)
    {rest : Bytes} (hr : Delimited rest) : read (v.write style ++ rest) = .ok (a, rest) :=
  h style [] rest (fun _ hb => absurd hb List.not_mem_nil) hr

/-- A text that is a value and nothing else is read back. -/
theorem Reads.parse {α : Type} {read : Reader α} {v : Value} {a : α} (h : Reads read v a)
    (style : Style) : parse read (v.write style) = .ok a := by
  have hread : read (v.write style ++ []) = .ok (a, []) := h.eq style nofun
  rw [List.append_nil] at hread
  rw [Json.parse, whole, hread]
  rfl

theorem Refuses.parse {α : Type} {read : Reader α} {v : Value} (h : Refuses read v)
    (style : Style) : ∃ place, parse read (v.write style) = .error place := by
  obtain ⟨e, he⟩ := h style [] [] (fun _ hb => absurd hb List.not_mem_nil) nofun
  rw [List.nil_append, List.append_nil] at he
  rw [Json.parse, whole, he]
  exact ⟨_, rfl⟩

/-! ## The first byte of a value -/

/-- Can a value begin with the byte? -/
def isStart (b : UInt8) : Bool :=
  isDigit b || b = 0x2d || b = 0x22 || b = 0x5b || b = 0x7b || b = 0x6e || b = 0x74 || b = 0x66

theorem isStart_spec : ∀ b : UInt8, isStart b = true →
    isBlank b = false ∧ b ≠ 0x5d ∧ b ≠ 0x7d ∧ b ≠ 0x2c := by
  decide +kernel

theorem write_head (style : Style) (v : Value) :
    ∃ b bs, v.write style = b :: bs ∧ isStart b = true := by
  cases v with
  | null => exact ⟨_, _, rfl, by decide +kernel⟩
  | bool b => cases b <;> exact ⟨_, _, rfl, by decide +kernel⟩
  | number n =>
    obtain ⟨b, bs, hb, hhead⟩ := ascii_integer_head n
    refine ⟨b, bs, by rw [Value.write, hb], ?_⟩
    rw [isStart, Bool.or_comm (isDigit b), hhead]
    rfl
  | text s => exact ⟨_, _, by rw [Value.write, quote], by decide⟩
  | list vs =>
    rw [Value.write]
    unfold enclose
    split <;> exact ⟨_, _, rfl, by decide⟩
  | object ms =>
    rw [Value.write]
    unfold enclose
    split <;> exact ⟨_, _, rfl, by decide⟩

/-- Blanks in front of a value are skipped up to it. -/
theorem skipBlanks_write {blanks : Bytes} (h : ∀ b ∈ blanks, isBlank b = true) (style : Style)
    (v : Value) (rest : Bytes) :
    skipBlanks (blanks ++ (v.write style ++ rest)) = v.write style ++ rest := by
  obtain ⟨b, bs, hb, hstart⟩ := write_head style v
  rw [skipBlanks_append h, hb, List.cons_append, skipBlanks_cons (isStart_spec b hstart).1]

/-! ## Scalars -/

theorem reads_integer {n low high : Int} (hlow : low ≤ n) (hhigh : n ≤ high)
    (hleast : -9223372036854775808 ≤ n) (hgreatest : n < UInt64.size) (expected : String) :
    Reads (integer low high expected) (.number n) n := by
  intro style blanks rest hb hr
  have hskip := skipBlanks_write hb style (.number n) rest
  rw [Value.write] at hskip ⊢
  obtain ⟨m, hnumeral, hint⟩ := numeral_integer .endInValue hleast hgreatest hr
  obtain ⟨b, bs, hbs, hhead⟩ := ascii_integer_head n
  rw [hbs, List.cons_append] at hnumeral hskip
  simp only [hbs, List.cons_append, integer, hskip, hhead, if_true, hnumeral, bind, Except.bind, hint]
  rw [if_pos (by simp [hlow, hhigh])]

theorem reads_natural {n high : Nat} (h : n ≤ high) (hn : n < UInt64.size) (expected : String) :
    Reads (natural high expected) (.number n) n := by
  intro style blanks rest hb hr
  have hinteger : Reads (integer 0 high expected) (.number n) n :=
    reads_integer (Int.natCast_nonneg n) (Int.ofNat_le.mpr h) (by omega) (Int.ofNat_lt.mpr hn) expected
  simp only [natural, hinteger style blanks rest hb hr, bind, Except.bind, Int.toNat_natCast]

theorem reads_text (s expected : String) : Reads (text expected) (.text s) s := by
  intro style blanks rest hb hr
  have hskip := skipBlanks_write hb style (.text s) rest
  rw [Value.write, quote_append] at hskip ⊢
  simp only [text, hskip]
  exact stringTail_quote s rest

theorem reads_instant (t : Instant) : Reads instant (.text (Rfc3339.text t)) t := by
  intro style blanks rest hb hr
  have htext := reads_text (Rfc3339.text t) "an RFC 3339 formatted date and time string" style blanks
    rest hb hr
  simp only [instant, htext, bind, Except.bind, Rfc3339.read_text]

private theorem reads_count {n : Int} (low : -9223372036854775808 ≤ n)
    (high : n ≤ 18446744073709551615) (expected : String) :
    Reads (integer (-9223372036854775808) 18446744073709551615 expected) (.number n) n :=
  reads_integer low high low (Int.lt_add_one_of_le high) expected

/-- A number of milliseconds is read as its instant. -/
theorem reads_millis {n : Int} {t : Instant} (low : -9223372036854775808 ≤ n)
    (high : n ≤ 18446744073709551615) (h : Instant.ofMillis? n = some t) :
    Reads millis (.number n) t := by
  intro style blanks rest hb hr
  simp only [millis, reads_count low high _ style blanks rest hb hr, bind, Except.bind, h]

/-- If there is no such instant, it is refused. -/
theorem refuses_millis {n : Int} (low : -9223372036854775808 ≤ n)
    (high : n ≤ 18446744073709551615) (h : Instant.ofMillis? n = none) :
    Refuses millis (.number n) := by
  intro style blanks rest hb hr
  simp only [millis, reads_count low high _ style blanks rest hb hr, bind, Except.bind, h]
  exact ⟨_, rfl⟩

/-! ### Values that may be null -/

theorem reads_null {α : Type} (read : Reader α) : Reads (nullable read) .null none := by
  intro style blanks rest hb hr
  have hskip := skipBlanks_write hb style .null rest
  unfold nullable
  rw [hskip]
  rfl

/-- A value that is never written with the first letter of `null` goes to the reader as it is. -/
theorem nullable_write {α : Type} (read : Reader α) {v : Value}
    (hv : ∀ style bs, v.write style ≠ 0x6e :: bs) {blanks : Bytes}
    (hb : ∀ b ∈ blanks, isBlank b = true) (style : Style) (rest : Bytes) :
    nullable read (blanks ++ (v.write style ++ rest)) =
      (read (v.write style ++ rest)).map fun (a, rest) => (some a, rest) := by
  have hskip := skipBlanks_write hb style v rest
  obtain ⟨b, bs, hbs, -⟩ := write_head style v
  have hne : b ≠ 0x6e := by
    rintro rfl
    exact hv style bs hbs
  unfold nullable
  rw [hskip, hbs, List.cons_append]
  split
  · next heq => exact absurd (List.cons.inj heq).1 hne
  · cases read (b :: (bs ++ rest)) <;> rfl

theorem reads_some {α : Type} {read : Reader α} {v : Value} {a : α} (h : Reads read v a)
    (hv : ∀ style bs, v.write style ≠ 0x6e :: bs) : Reads (nullable read) v (some a) := by
  intro style blanks rest hb hr
  rw [nullable_write read hv hb, h.eq style hr]
  rfl

theorem refuses_some {α : Type} {read : Reader α} {v : Value} (h : Refuses read v)
    (hv : ∀ style bs, v.write style ≠ 0x6e :: bs) : Refuses (nullable read) v := by
  intro style blanks rest hb hr
  obtain ⟨e, he⟩ := h style [] rest (fun _ hb => absurd hb List.not_mem_nil) hr
  rw [List.nil_append] at he
  rw [nullable_write read hv hb, he]
  exact ⟨e, rfl⟩

/-- A value that may be absent is read back if it is never written with the first letter of
`null`. -/
theorem reads_nullable {α : Type} {read : Reader α} {f : α → Value} (h : ∀ a, Reads read (f a) a)
    (hf : ∀ style a bs, (f a).write style ≠ 0x6e :: bs) (o : Option α) :
    Reads (nullable read) (.ofOption f o) o := by
  cases o with
  | none => exact reads_null read
  | some a => exact reads_some (h a) fun style => hf style a

/-- Numbers are not written with a letter. -/
theorem write_number_ne (n : Int) (style : Style) (bs : Bytes) :
    (Value.number n).write style ≠ 0x6e :: bs := by
  obtain ⟨b, tail, hb, hhead⟩ := ascii_integer_head n
  rw [Value.write, hb]
  intro heq
  rw [(List.cons.inj heq).1] at hhead
  exact absurd hhead (by decide)

/-! ## Lists -/

/-- The bytes behind an item of a list or object: the other items and the closing bracket. -/
def following (style : Style) (right : UInt8) (items : List Bytes) (rest : Bytes) : Bytes :=
  items.flatMap (fun item => 0x2c :: (style.deeper.lineBreak ++ item)) ++
    (style.lineBreak ++ right :: rest)

theorem enclose_cons (style : Style) (left right : UInt8) (item : Bytes) (items : List Bytes)
    (rest : Bytes) :
    enclose style left right (item :: items) ++ rest =
      left :: (style.deeper.lineBreak ++ (item ++ following style right items rest)) := by
  simp [enclose, joinWith, following, List.flatMap_map]

/-- Each item has at least the comma in front of it, and the bracket stands behind all. -/
theorem length_lt_following (style : Style) (right : UInt8) (items : List Bytes) (rest : Bytes) :
    items.length < (following style right items rest).length := by
  rw [following, List.length_append, List.length_append, List.length_cons]
  have hitems : items.length ≤
      (items.flatMap fun item => 0x2c :: (style.deeper.lineBreak ++ item)).length := by
    induction items with
    | nil => exact Nat.le_refl 0
    | cons item items ih =>
      rw [List.flatMap_cons, List.length_append, List.length_cons, List.length_cons]
      omega
  omega

theorem isBlank_of_mem_lineBreak {style : Style} {b : UInt8} (h : b ∈ style.lineBreak) :
    isBlank b = true := by
  cases style with
  | compact => exact absurd h List.not_mem_nil
  | indented depth =>
    cases List.mem_cons.mp h with
    | inl heq => rw [heq]; rfl
    | inr h => rw [List.eq_of_mem_replicate h]; rfl

theorem delimited_following (style : Style) {right : UInt8} (h : right ∈ [0x5d, 0x7d])
    (items : List Bytes) (rest : Bytes) : Delimited (following style right items rest) := by
  intro b hb
  cases items with
  | cons item items =>
    obtain rfl : 0x2c = b := Option.some.inj hb
    decide
  | nil =>
    cases style with
    | compact =>
      obtain rfl : right = b := Option.some.inj hb
      rcases List.mem_cons.mp h with rfl | h
      · decide
      · rw [List.mem_singleton.mp h]
        decide
    | indented depth =>
      obtain rfl : 10 = b := Option.some.inj hb
      decide

theorem nextItem_end (first : Bool) (style : Style) (rest : Bytes) :
    nextItem first (style.lineBreak ++ 0x5d :: rest) = .ok (.done rest) := by
  rw [nextItem, skipBlanks_append fun _ => isBlank_of_mem_lineBreak, skipBlanks_cons (by decide)]
  rfl

theorem nextItem_first (style : Style) (v : Value) (rest : Bytes) :
    nextItem true (style.lineBreak ++ (v.write style ++ rest)) = .ok (.more (v.write style ++ rest)) := by
  obtain ⟨b, bs, hb, hstart⟩ := write_head style v
  obtain ⟨-, hbracket, -⟩ := isStart_spec b hstart
  rw [nextItem, skipBlanks_write (fun _ => isBlank_of_mem_lineBreak), hb, List.cons_append]
  split
  · next heq => cases heq
  · next heq => exact absurd (List.cons.inj heq).1 hbracket
  · next heq => cases heq; rfl

theorem nextItem_more (style : Style) (v : Value) (rest : Bytes) :
    nextItem false (0x2c :: (style.lineBreak ++ (v.write style ++ rest))) =
      .ok (.more (v.write style ++ rest)) := by
  obtain ⟨b, bs, hb, hstart⟩ := write_head style v
  obtain ⟨-, hbracket, -⟩ := isStart_spec b hstart
  rw [nextItem, skipBlanks_cons (by decide)]
  split
  · next heq => cases heq
  · next heq => exact absurd (List.cons.inj heq).1 (by decide)
  next heq =>
  cases heq
  rw [if_neg Bool.false_ne_true, if_pos rfl,
    skipBlanks_write (fun _ => isBlank_of_mem_lineBreak), hb, List.cons_append]
  split
  · next heq => cases heq
  · next heq => exact absurd (List.cons.inj heq).1 hbracket
  · rfl

theorem items_following {α : Type} {read : Reader α} {f : α → Value} {as : List α}
    (h : ∀ a ∈ as, Reads read (f a) a) {done : List α} (hdone : done ≠ []) (style : Style) {fuel : Nat}
    (hfuel : as.length < fuel) (rest : Bytes) :
    items read done fuel (following style 0x5d (Value.writeAll style.deeper (as.map f)) rest) =
      .ok (done.reverse ++ as, rest) := by
  have hfirst : done.isEmpty = false := by simpa using hdone
  -- One turn for each item and one for the bracket, so the fuel does not run out.
  induction as generalizing done fuel with
  | nil =>
    obtain ⟨fuel, rfl⟩ : ∃ n, fuel = n + 1 := ⟨fuel - 1, by omega⟩
    have hend := nextItem_end false style rest
    simp only [items, hfirst, following, List.map_nil, Value.writeAll, List.flatMap_nil,
      List.nil_append, hend, bind, Except.bind, List.append_nil]
  | cons a as ih =>
    obtain ⟨fuel, rfl⟩ : ∃ n, fuel = n + 1 := ⟨fuel - 1, by omega⟩
    have hread := (h a List.mem_cons_self).eq style.deeper (delimited_following style
      List.mem_cons_self (Value.writeAll style.deeper (as.map f)) rest)
    have hnext := nextItem_more style.deeper (f a)
      (following style 0x5d (Value.writeAll style.deeper (as.map f)) rest)
    have hcons : following style 0x5d (Value.writeAll style.deeper ((a :: as).map f)) rest =
        0x2c :: (style.deeper.lineBreak ++ ((f a).write style.deeper ++
          following style 0x5d (Value.writeAll style.deeper (as.map f)) rest)) := by
      simp [following, Value.writeAll]
    have hrest := ih (fun a ha => h a (List.mem_cons_of_mem _ ha)) (List.cons_ne_nil a done)
      (Nat.lt_of_succ_lt_succ hfuel) rfl
    simp only [items, hfirst, hcons, hnext, bind, Except.bind, hread, hrest]
    simp

theorem length_writeAll (style : Style) (vs : List Value) :
    (Value.writeAll style vs).length = vs.length := by
  induction vs with
  | nil => rw [Value.writeAll]; rfl
  | cons v vs ih => rw [Value.writeAll, List.length_cons, List.length_cons, ih]

/-- A list is read back if all its items are. -/
theorem reads_list {α : Type} {read : Reader α} {f : α → Value} {as : List α}
    (h : ∀ a ∈ as, Reads read (f a) a) : Reads (list read) (.list (as.map f)) as := by
  intro style blanks rest hb hr
  have hskip := skipBlanks_write hb style (.list (as.map f)) rest
  rw [Value.write] at hskip ⊢
  unfold list
  rw [hskip]
  cases as with
  | nil => rfl
  | cons a as =>
    rw [List.map_cons, Value.writeAll, enclose_cons]
    have hread := (h a List.mem_cons_self).eq style.deeper (delimited_following style
      List.mem_cons_self (Value.writeAll style.deeper (as.map f)) rest)
    have hfirst := nextItem_first style.deeper (f a)
      (following style 0x5d (Value.writeAll style.deeper (as.map f)) rest)
    -- The bytes bound the turns: one for each item, and one for the bracket.
    have hlength : as.length < (style.deeper.lineBreak ++ ((f a).write style.deeper ++
        following style 0x5d (Value.writeAll style.deeper (as.map f)) rest)).length := by
      have := length_lt_following style 0x5d (Value.writeAll style.deeper (as.map f)) rest
      rw [length_writeAll, List.length_map] at this
      rw [List.length_append, List.length_append]
      omega
    have hitems := items_following (fun a ha => h a (List.mem_cons_of_mem _ ha))
      (List.cons_ne_nil a []) style hlength rest
    simp only [items, List.isEmpty_nil, hfirst, bind, Except.bind, hread]
    exact hitems

end AddressExchange.Json
