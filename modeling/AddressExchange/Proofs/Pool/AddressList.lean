import AddressExchange.Pool.AddressList
import AddressExchange.Proofs.Pool.Snapshot
import AddressExchange.Proofs.Text.Lines
import AddressExchange.Proofs.Text.Literal

/-!
# The grammar of address lists

Which texts list which entries, said without the reader: by their lines, and of a line by its fields.
The reader accepts these texts and no others. Another text is refused for the first line that is
neither silent nor a row, and nothing of it is listed.
-/

namespace AddressExchange.AddressList

open Text (AllBlank IsFields IsInt64 IsLines)

/-! ## Lines -/

/-- Does a line not count? It is blank, or a hash sign is its first character that is no blank. -/
inductive IsSilent : List Char → Prop where
  | blank {cs : List Char} (h : AllBlank cs) : IsSilent cs
  | comment {before rest : List Char} (h : AllBlank before) : IsSilent (before ++ '#' :: rest)

/-- Is a field an instant? It is the literal of a number of milliseconds that an instant has. -/
inductive IsInstant : String → Instant → Prop where
  | millis {field : String} {n : Int} (number : IsInt64 field n) (low : -8334601228800000 ≤ n)
      (high : n ≤ 8210266876799999) : IsInstant field (.atMillis n low high)

/-- What is wrong with a field that is no instant, in the line of a number. -/
inductive IsBadInstant (line : Nat) : String → Failure → Prop where
  | noNumber {field : String} (h : ∀ n, ¬ IsInt64 field n) :
      IsBadInstant line field (.pool (.lineTime line))
  | range {field : String} {n : Int} (number : IsInt64 field n)
      (h : n < -8334601228800000 ∨ 8210266876799999 < n) :
      IsBadInstant line field (.malformed (.instant n))

/-- Is a line that counts the row of an entry? It holds an address, and an instant or nothing. -/
inductive IsRow (default : Instant) (s : String) : Entry → Prop where
  | bare {address : String} (counts : ¬ IsSilent s.toList) (fields : IsFields s.toList [address]) :
      IsRow default s ⟨address, default⟩
  | dated {address field : String} {t : Instant} (counts : ¬ IsSilent s.toList)
      (fields : IsFields s.toList [address, field]) (instant : IsInstant field t) :
      IsRow default s ⟨address, t⟩

/-- What is wrong with a line that counts and is no row, if it has a number. -/
inductive IsFault (line : Nat) (s : String) : Failure → Prop where
  | fields {fs : List String} (counts : ¬ IsSilent s.toList) (fields : IsFields s.toList fs)
      (h : fs.length ≠ 1 ∧ fs.length ≠ 2) : IsFault line s (.pool (.lineFields line))
  | instant {address field : String} {e : Failure} (counts : ¬ IsSilent s.toList)
      (fields : IsFields s.toList [address, field]) (bad : IsBadInstant line field e) :
      IsFault line s e

/-- The hash sign is no blank, so trimming does not take it away. -/
theorem isSilent_iff {s : String} :
    IsSilent s.toList ↔ ((Text.trim s).isEmpty || (Text.trim s).startsWith "#") = true := by
  have hhash : Text.isBlank '#' = false := by decide
  have hblank : (Text.trim s).isEmpty = true ↔ AllBlank s.toList := by
    rw [String.isEmpty_iff, ← String.toList_eq_nil_iff,
      Text.trim_eq fun c hc => absurd hc List.not_mem_nil]
    constructor
    · rintro ⟨before, after, hs, hbefore, hafter⟩
      rw [hs, List.append_nil]
      exact List.forall_mem_append.mpr ⟨hbefore, hafter⟩
    · exact fun h => ⟨s.toList, [], by simp, h, nofun⟩
  rw [Bool.or_eq_true, hblank, String.startsWith_string_iff]
  constructor
  · intro h
    generalize hs : s.toList = cs at h
    cases h with
    | blank h => exact .inl h
    | @comment before rest h =>
      have htrim : (Text.trim s).toList = Text.trimEnd ('#' :: rest) := by
        rw [Text.trim, String.toList_ofList, hs, Text.trimStart_append h, Text.trimStart_cons hhash]
      rw [htrim]
      exact .inr (Text.prefix_trimEnd hhash rest)
  · rintro (h | ⟨rest, hrest⟩)
    · exact .blank h
    · obtain ⟨before, after, hs, hbefore, -⟩ := Text.isPadded_trim s
      rw [hs, ← hrest, List.append_assoc, List.append_assoc]
      exact .comment hbefore

section Line

variable {default : Instant} {line : Nat} {s : String} {e : Entry} {f : Failure}

theorem readInstant_eq_ok {field : String} {t : Instant} :
    readInstant line field = .ok t ↔ IsInstant field t := by
  constructor
  · intro h
    unfold readInstant at h
    split at h
    · next n hn =>
      obtain ⟨low, high, rfl⟩ := Instant.ofMillis_eq_ok.mp h
      exact .millis (Text.int64?_eq_some.mp hn) low high
    · cases h
  · rintro ⟨number, low, high⟩
    rw [readInstant, Text.int64?_eq_some.mpr number]
    exact Instant.ofMillis_eq_ok.mpr ⟨low, high, rfl⟩

theorem readInstant_eq_error {field : String} :
    readInstant line field = .error f ↔ IsBadInstant line field f := by
  constructor
  · intro h
    unfold readInstant at h
    split at h
    · next n hn =>
      have hrange : n < -8334601228800000 ∨ 8210266876799999 < n := by
        by_contra hin
        obtain ⟨low, high⟩ : -8334601228800000 ≤ n ∧ n ≤ 8210266876799999 := by omega
        rw [Instant.ofMillis_eq_ok.mpr ⟨low, high, rfl⟩] at h
        cases h
      rw [Instant.ofMillis_of_lt hrange] at h
      cases h
      exact .range (Text.int64?_eq_some.mp hn) hrange
    · next hn =>
      cases h
      refine .noNumber fun n hnumber => ?_
      rw [Text.int64?_eq_some.mpr hnumber] at hn
      cases hn
  · rintro (h | ⟨number, hrange⟩)
    · have hnone : Text.int64? field = none :=
        Option.eq_none_iff_forall_ne_some.mpr fun n hn => h n (Text.int64?_eq_some.mp hn)
      rw [readInstant, hnone]
    · rw [readInstant, Text.int64?_eq_some.mpr number]
      exact Instant.ofMillis_of_lt hrange

theorem readLine_of_silent (h : IsSilent s.toList) : readLine default line s = .ok none := by
  rw [readLine, if_pos (isSilent_iff.mp h)]

/-- A line that counts is read by its fields. -/
theorem readLine_of_counts (h : ¬ IsSilent s.toList) :
    readLine default line s =
      match Text.fieldsOf s.toList with
      | [address] => .ok (some ⟨address, default⟩)
      | [address, field] => (readInstant line field).map fun t => some ⟨address, t⟩
      | _ => .error (.pool (.lineFields line)) := by
  rw [readLine, if_neg (mt isSilent_iff.mpr h), Text.fields_eq, Text.fieldsOf_trim]
  rfl

theorem readLine_eq_none : readLine default line s = .ok none ↔ IsSilent s.toList := by
  refine ⟨fun h => ?_, readLine_of_silent⟩
  by_contra hcounts
  rw [readLine_of_counts hcounts] at h
  split at h
  · cases h
  · next address field _ => cases hfield : readInstant line field <;> rw [hfield] at h <;> cases h
  · cases h

theorem readLine_eq_some : readLine default line s = .ok (some e) ↔ IsRow default s e := by
  constructor
  · intro h
    have hcounts : ¬ IsSilent s.toList := by
      intro hsilent
      rw [readLine_of_silent hsilent] at h
      cases h
    rw [readLine_of_counts hcounts] at h
    split at h
    · next hfields =>
      cases h
      exact .bare hcounts (Text.fieldsOf_eq_iff.mp hfields)
    · next address field hfields =>
      cases hfield : readInstant line field with
      | error f =>
        rw [hfield] at h
        cases h
      | ok t =>
        rw [hfield] at h
        cases h
        exact .dated hcounts (Text.fieldsOf_eq_iff.mp hfields) (readInstant_eq_ok.mp hfield)
    · cases h
  · rintro (⟨hcounts, hfields⟩ | ⟨hcounts, hfields, hinstant⟩)
    · rw [readLine_of_counts hcounts, hfields.eq]
    · rw [readLine_of_counts hcounts, hfields.eq]
      dsimp only
      rw [readInstant_eq_ok.mpr hinstant]
      rfl

theorem readLine_eq_error : readLine default line s = .error f ↔ IsFault line s f := by
  constructor
  · intro h
    have hcounts : ¬ IsSilent s.toList := by
      intro hsilent
      rw [readLine_of_silent hsilent] at h
      cases h
    rw [readLine_of_counts hcounts] at h
    split at h
    · cases h
    · next address field hfields =>
      cases hfield : readInstant line field with
      | ok t =>
        rw [hfield] at h
        cases h
      | error f' =>
        rw [hfield] at h
        cases h
        exact .instant hcounts (Text.fieldsOf_eq_iff.mp hfields) (readInstant_eq_error.mp hfield)
    · next hone htwo =>
      cases h
      refine .fields hcounts (Text.isFields_fieldsOf _) ⟨fun hlength => ?_, fun hlength => ?_⟩
      · obtain ⟨a, ha⟩ := List.length_eq_one_iff.mp hlength
        exact hone a ha
      · obtain ⟨a, b, hab⟩ := List.length_eq_two.mp hlength
        exact htwo a b hab
  · rintro (⟨hcounts, hfields, hone, htwo⟩ | ⟨hcounts, hfields, hbad⟩)
    · rw [readLine_of_counts hcounts, hfields.eq]
      split
      · exact absurd rfl hone
      · exact absurd rfl htwo
      · rfl
    · rw [readLine_of_counts hcounts, hfields.eq]
      dsimp only
      rw [readInstant_eq_error.mpr hbad]
      rfl

end Line

/-! ## Texts -/

/-- Do the lines list the entries? Each of them is silent or the row of the next entry. -/
inductive Lists (default : Instant) : List String → List Entry → Prop where
  | nil : Lists default [] []
  | silent {s : String} {ls : List String} {es : List Entry} (h : IsSilent s.toList)
      (hrest : Lists default ls es) : Lists default (s :: ls) es
  | row {s : String} {e : Entry} {ls : List String} {es : List Entry} (h : IsRow default s e)
      (hrest : Lists default ls es) : Lists default (s :: ls) (e :: es)

/-- Is this what is wrong with lines of which the first has a number? All in front of one line list
entries, and that line has the fault. -/
inductive IsFirstFault (default : Instant) (start : Nat) : List String → Failure → Prop where
  | intro {front back : List String} {s : String} {es : List Entry} {f : Failure}
      (hfront : Lists default front es) (fault : IsFault (start + front.length) s f) :
      IsFirstFault default start (front ++ s :: back) f

/-- The entries of lines of which the first has a number. -/
def parseLines (default : Instant) (start : Nat) (ls : List String) :
    Except Failure (List Entry) := do
  let entries ← (ls.zipIdx start).mapM fun (s, line) => readLine default line s
  .ok (entries.filterMap id)

theorem parse_eq (text : String) (default : Instant) :
    parse text default = parseLines default 1 (Text.lines text) := rfl

section Texts

variable {default : Instant} {start line : Nat} {ls ls' : List String} {es : List Entry}
  {f : Failure}

theorem parseLines_cons (default : Instant) (start : Nat) (s : String) (ls : List String) :
    parseLines default start (s :: ls) = (do
      let e ← readLine default start s
      let es ← parseLines default (start + 1) ls
      return e.toList ++ es) := by
  rw [parseLines, parseLines, List.zipIdx_cons, List.mapM_cons]
  dsimp only
  cases readLine default start s with
  | error f => rfl
  | ok e =>
    generalize (ls.zipIdx (start + 1)).mapM (fun (s, line) => readLine default line s) = rest
    cases rest with
    | error f => rfl
    | ok entries => cases e <;> rfl

/-- The first line gives what the reader makes of it, whatever number it has. -/
theorem lists_cons (line : Nat) {s : String} :
    Lists default (s :: ls) es ↔
      ∃ e rest, readLine default line s = .ok e ∧ Lists default ls rest ∧ es = e.toList ++ rest := by
  constructor
  · rintro (_ | ⟨h, hrest⟩ | ⟨h, hrest⟩)
    · exact ⟨none, _, readLine_eq_none.mpr h, hrest, rfl⟩
    · exact ⟨some _, _, readLine_eq_some.mpr h, hrest, rfl⟩
  · rintro ⟨e, rest, he, hrest, rfl⟩
    cases e with
    | none => exact .silent (readLine_eq_none.mp he) hrest
    | some e => exact .row (readLine_eq_some.mp he) hrest

theorem parseLines_eq_ok : parseLines default start ls = .ok es ↔ Lists default ls es := by
  induction ls generalizing start es with
  | nil => exact ⟨fun h => Except.ok.inj h ▸ .nil, fun h => by cases h; rfl⟩
  | cons s ls ih =>
    rw [parseLines_cons, bind_eq_ok]
    constructor
    · rintro ⟨e, he, h⟩
      obtain ⟨others, hothers, h⟩ := bind_eq_ok.mp h
      cases h
      exact (lists_cons start).mpr ⟨e, others, he, ih.mp hothers, rfl⟩
    · intro h
      obtain ⟨e, others, he, hothers, rfl⟩ := (lists_cons start).mp h
      exact ⟨e, he, bind_eq_ok.mpr ⟨others, ih.mpr hothers, rfl⟩⟩

/-- The first line that cannot be read ends the work. -/
theorem parseLines_eq_error :
    parseLines default start ls = .error f ↔ IsFirstFault default start ls f := by
  constructor
  · intro h
    induction ls generalizing start with
    | nil => cases h
    | cons s ls ih =>
      rw [parseLines_cons] at h
      cases hs : AddressList.readLine default start s with
      | error f' =>
        rw [hs] at h
        cases h
        exact .intro .nil (readLine_eq_error.mp hs)
      | ok e =>
        rw [hs] at h
        cases hrest : parseLines default (start + 1) ls with
        | ok es =>
          simp only [hrest] at h
          cases h
        | error f' =>
          simp only [hrest] at h
          cases h
          cases ih hrest with
          | @intro front back s' es f hfront fault =>
            rw [← List.cons_append]
            refine .intro ((lists_cons start).mpr ⟨e, es, hs, hfront, rfl⟩) ?_
            rwa [List.length_cons, Nat.add_comm front.length, ← Nat.add_assoc]
  · intro h
    cases h with
    | @intro front back s es f hfront fault =>
      induction front generalizing start es with
      | nil =>
        rw [List.length_nil, Nat.add_zero] at fault
        rw [List.nil_append, parseLines_cons, readLine_eq_error.mpr fault]
        rfl
      | cons x front ih =>
        obtain ⟨e, rest, he, hrest, -⟩ := (lists_cons start).mp hfront
        rw [List.length_cons, Nat.add_comm front.length, ← Nat.add_assoc] at fault
        rw [List.cons_append, parseLines_cons, he]
        simp only [ih hrest fault, bind, Except.bind]

/-! ## Joined texts -/

theorem lists_append :
    Lists default (ls ++ ls') es ↔
      ∃ front back, Lists default ls front ∧ Lists default ls' back ∧ es = front ++ back := by
  induction ls generalizing es with
  | nil =>
    constructor
    · exact fun h => ⟨[], es, .nil, h, rfl⟩
    · rintro ⟨front, back, ⟨⟩, hback, rfl⟩
      exact hback
  | cons s ls ih =>
    rw [List.cons_append, lists_cons 0]
    constructor
    · rintro ⟨e, rest, he, hrest, rfl⟩
      obtain ⟨front, back, hfront, hback, rfl⟩ := ih.mp hrest
      refine ⟨e.toList ++ front, back, (lists_cons 0).mpr ⟨e, front, he, hfront, rfl⟩, hback, ?_⟩
      rw [List.append_assoc]
    · rintro ⟨front, back, hfront, hback, rfl⟩
      obtain ⟨e, rest, he, hrest, rfl⟩ := (lists_cons 0).mp hfront
      exact ⟨e, rest ++ back, he, ih.mpr ⟨rest, back, hrest, hback, rfl⟩, List.append_assoc _ _ _⟩

/-- Lines that are trimmed alike list the same. -/
theorem lists_congr {s s' : String} (h : Text.trim s = Text.trim s') :
    Lists default (s :: ls) es ↔ Lists default (s' :: ls) es := by
  have hread : readLine default 0 s = readLine default 0 s' := by
    rw [readLine, readLine, h]
  rw [lists_cons 0, lists_cons 0, hread]

theorem lists_empty_cons : Lists default ("" :: ls) es ↔ Lists default ls es := by
  have hread : readLine default 0 "" = .ok none := readLine_of_silent (.blank nofun)
  rw [lists_cons 0, hread]
  constructor
  · rintro ⟨e, rest, ⟨⟩, hrest, rfl⟩
    exact hrest
  · exact fun h => ⟨none, es, rfl, h, rfl⟩

/-- A line feed between two texts adds no line that counts, and it ends none early: the lines of the
first text stay what they are, but for a carriage return at the end. -/
theorem lists_join (s t : String) :
    Lists default (Text.lines (s ++ "\n" ++ t)) es ↔
      Lists default (Text.lines s ++ Text.lines t) es := by
  induction s using Text.lines_induction generalizing es with
  | last s h =>
    rw [Text.lines_append h, lists_congr (Text.trim_dropReturn s), Text.lines_of_notMem h]
    split
    · next hs => rw [hs, List.nil_append, lists_empty_cons]
    · rfl
  | feed line rest h ih =>
    have htext : line ++ "\n" ++ rest ++ "\n" ++ t = line ++ "\n" ++ (rest ++ "\n" ++ t) := by
      simp only [String.append_assoc]
    rw [htext, Text.lines_append h, Text.lines_append h, List.cons_append, lists_cons 0, lists_cons 0]
    simp only [ih]

/-! ## Other instants -/

/-- Whether a line is a row, and its address, do not depend on the instant of rows without one. -/
theorem IsRow.with_default {s : String} {e : Entry} (h : IsRow default s e) (other : Instant) :
    ∃ e', IsRow other s e' ∧ e'.address = e.address := by
  cases h with
  | bare counts fields => exact ⟨_, .bare counts fields, rfl⟩
  | dated counts fields instant => exact ⟨_, .dated counts fields instant, rfl⟩

theorem Lists.with_default (h : Lists default ls es) (other : Instant) :
    ∃ es', Lists other ls es' ∧ es'.map (·.address) = es.map (·.address) := by
  induction h with
  | nil => exact ⟨[], .nil, rfl⟩
  | silent h _ ih =>
    obtain ⟨es', hes', haddresses⟩ := ih
    exact ⟨es', .silent h hes', haddresses⟩
  | row h _ ih =>
    obtain ⟨es', hes', haddresses⟩ := ih
    obtain ⟨e', he', haddress⟩ := h.with_default other
    exact ⟨e' :: es', .row he' hes', by rw [List.map_cons, List.map_cons, haddress, haddresses]⟩

/-- A text that is accepted is so with any default, and has the same addresses. -/
theorem parse_with_default {text : String} (h : parse text default = .ok es) (other : Instant) :
    ∃ es', parse text other = .ok es' ∧ es'.map (·.address) = es.map (·.address) := by
  rw [parse_eq, parseLines_eq_ok] at h
  obtain ⟨es', hes', haddresses⟩ := h.with_default other
  exact ⟨es', parseLines_eq_ok.mpr hes', haddresses⟩

end Texts

/-- A text is accepted just if each of its lines is silent or a row, and it has the entries of its rows
in their order. Any other text is refused for the first line that is neither, with the number of that
line where its fields are too few or too many, or its instant is no number. Two texts with a line feed
between them are accepted just if both are, and have the entries of the first one and then those of the
second. -/
theorem parse_by_lines (default : Instant) :
    (∀ text es, parse text default = .ok es ↔
      ∃ ls, IsLines text ls ∧ Lists default ls es) ∧
    (∀ text f, parse text default = .error f ↔
      ∃ ls, IsLines text ls ∧ IsFirstFault default 1 ls f) ∧
    ∀ s t es, parse (s ++ "\n" ++ t) default = .ok es ↔
      ∃ front back, parse s default = .ok front ∧ parse t default = .ok back ∧
        es = front ++ back := by
  refine ⟨fun text es => ?_, fun text f => ?_, fun s t es => ?_⟩
  · simp only [parse_eq, parseLines_eq_ok, ← Text.lines_eq_iff, exists_eq_left']
  · simp only [parse_eq, parseLines_eq_error, ← Text.lines_eq_iff, exists_eq_left']
  · simp only [parse_eq, parseLines_eq_ok]
    rw [lists_join, lists_append]

end AddressExchange.AddressList
