import AddressExchange.Proofs.Text.Blank

/-!
# Lines and fields

Which texts have given lines, and which have given fields, said without the functions that cut them.
The functions find just these.
-/

namespace AddressExchange.Text

/-! ## Lines -/

/-- Do the lines make up the text? A line feed ends each of them, or a carriage return with a line
feed; the last one may do without, and then it is not empty and keeps a carriage return. -/
inductive IsLines : String → List String → Prop where
  | empty : IsLines "" []
  | last {line : String} (hne : line ≠ "") (h : '\n' ∉ line.toList) : IsLines line [line]
  | feed {line rest : String} {lines : List String} (h : '\n' ∉ line.toList)
      (hreturn : line.toList.getLast? ≠ some '\r') (hrest : IsLines rest lines) :
      IsLines (line ++ "\n" ++ rest) (line :: lines)
  | returnFeed {line rest : String} {lines : List String} (h : '\n' ∉ line.toList)
      (hrest : IsLines rest lines) : IsLines (line ++ "\r\n" ++ rest) (line :: lines)

/-- A text has no line feed, or there is a text behind its first one. -/
theorem lines_induction {P : String → Prop} (last : ∀ s, '\n' ∉ s.toList → P s)
    (feed : ∀ line rest, '\n' ∉ line.toList → P rest → P (line ++ "\n" ++ rest)) (s : String) :
    P s := by
  -- The rest is shorter, as it lacks the line feed.
  induction hn : s.toList.length using Nat.strong_induction_on generalizing s with
  | _ n ih =>
    by_cases h : '\n' ∈ s.toList
    · obtain ⟨front, back, hs, hfront⟩ := List.eq_append_cons_of_mem h
      have heq : s = String.ofList front ++ "\n" ++ String.ofList back :=
        String.ext (by simp [hs])
      rw [heq]
      refine feed _ _ (by rwa [String.toList_ofList]) (ih back.length ?_ _ (by simp))
      rw [← hn, hs, List.length_append, List.length_cons]
      omega
    · exact last s h

theorem dropReturn_concat (cs : List Char) : dropReturn (cs ++ ['\r']) = cs := by
  simp [dropReturn]

theorem dropReturn_eq_self {cs : List Char} (h : cs.getLast? ≠ some '\r') : dropReturn cs = cs := by
  unfold dropReturn
  split
  · next hlast => exact absurd hlast h
  · rfl

/-- A carriage return is a blank, so it does not count where blanks at the end do not. -/
theorem trim_dropReturn (s : String) : trim (String.ofList (dropReturn s.toList)) = trim s := by
  by_cases h : s.toList.getLast? = some '\r'
  · obtain ⟨front, hfront⟩ := List.getLast?_eq_some_iff.mp h
    have hs : s = String.ofList front ++ String.ofList ['\r'] := String.ext (by simp [hfront])
    have hreturn : ∀ c ∈ ['\r'], isBlank c = true := List.forall_mem_singleton.mpr rfl
    rw [hfront, dropReturn_concat, hs, trim_append hreturn]
  · rw [dropReturn_eq_self h, String.ofList_toList]

theorem lines_of_notMem {s : String} (h : '\n' ∉ s.toList) :
    lines s = if s = "" then [] else [s] := by
  rw [lines, List.splitOn_eq_singleton h]
  by_cases hs : s = ""
  · subst hs
    rfl
  · have hne : s.toList.isEmpty = false := by simpa using hs
    simp [hne, hs]

/-- The first line is what stands in front of the first line feed, without a carriage return. -/
theorem lines_append {line : String} (h : '\n' ∉ line.toList) (rest : String) :
    lines (line ++ "\n" ++ rest) = String.ofList (dropReturn line.toList) :: lines rest := by
  have htext : (line ++ "\n" ++ rest).toList = line.toList ++ '\n' :: rest.toList := by simp
  rw [lines, lines, htext, List.splitOn_append_cons_self_of_not_mem h, List.reverse_cons]
  cases hrest : (rest.toList.splitOn '\n').reverse with
  | nil => exact absurd (List.reverse_eq_nil_iff.mp hrest) (List.splitOn_ne_nil _ _)
  | cons last ended =>
    simp only [List.cons_append, List.map_append, List.map_cons, List.map_nil, List.reverse_append,
      List.reverse_cons, List.reverse_nil, List.nil_append]
    split <;> simp

theorem isLines_lines (s : String) : IsLines s (lines s) := by
  induction s using lines_induction with
  | last s h =>
    rw [lines_of_notMem h]
    split
    · next hs => exact hs ▸ .empty
    · next hs => exact .last hs h
  | feed line rest h ih =>
    rw [lines_append h]
    by_cases hreturn : line.toList.getLast? = some '\r'
    · obtain ⟨front, hfront⟩ := List.getLast?_eq_some_iff.mp hreturn
      have hline : line ++ "\n" ++ rest = String.ofList front ++ "\r\n" ++ rest :=
        String.ext (by simp [hfront])
      rw [hline, hfront, dropReturn_concat]
      refine .returnFeed (fun hmem => h ?_) ih
      rw [String.toList_ofList] at hmem
      exact hfront ▸ List.mem_append_left _ hmem
    · rw [dropReturn_eq_self hreturn, String.ofList_toList]
      exact .feed h hreturn ih

theorem IsLines.eq {s : String} {ls : List String} (h : IsLines s ls) : lines s = ls := by
  induction h with
  | empty => rfl
  | last hne h => rw [lines_of_notMem h, if_neg hne]
  | feed h hreturn _ ih => rw [lines_append h, dropReturn_eq_self hreturn, String.ofList_toList, ih]
  | @returnFeed line rest lines h _ ih =>
    have hline : line ++ "\r\n" ++ rest = line ++ "\r" ++ "\n" ++ rest := String.ext (by simp)
    rw [hline, lines_append (by simpa using h), ih]
    simp [dropReturn_concat]

/-- A text has just one list of lines. -/
theorem lines_eq_iff {s : String} {ls : List String} : lines s = ls ↔ IsLines s ls :=
  ⟨fun h => h ▸ isLines_lines s, IsLines.eq⟩

/-! ## Fields -/

/-- Is there nothing but blanks? -/
def AllBlank (cs : List Char) : Prop := ∀ c ∈ cs, isBlank c = true

/-- Are the fields the pieces of the text between blanks? Each is as long as it can be. -/
inductive IsFields : List Char → List String → Prop where
  | blank {cs : List Char} (h : AllBlank cs) : IsFields cs []
  | last {before : List Char} {field : String} (hbefore : AllBlank before) (hne : field ≠ "")
      (h : ∀ c ∈ field.toList, isBlank c = false) : IsFields (before ++ field.toList) [field]
  | field {before rest : List Char} {field : String} {c : Char} {fields : List String}
      (hbefore : AllBlank before) (hne : field ≠ "") (h : ∀ c ∈ field.toList, isBlank c = false)
      (hc : isBlank c = true) (hrest : IsFields rest fields) :
      IsFields (before ++ field.toList ++ c :: rest) (field :: fields)

/-- The fields of the characters of a text. -/
def fieldsOf (cs : List Char) : List String :=
  ((cs.splitOnP isBlank).filter (!·.isEmpty)).map String.ofList

theorem fields_eq (s : String) : fields s = fieldsOf s.toList := rfl

theorem fieldsOf_nil : fieldsOf [] = [] := rfl

/-- A blank parts the fields in front of it from those behind it. -/
theorem fieldsOf_append {c : Char} (hc : isBlank c = true) (front back : List Char) :
    fieldsOf (front ++ c :: back) = fieldsOf front ++ fieldsOf back := by
  rw [fieldsOf, List.splitOnP_append_cons _ _ hc, List.filter_append, List.map_append]
  rfl

theorem fieldsOf_blanks_append {before : List Char} (h : AllBlank before) (cs : List Char) :
    fieldsOf (before ++ cs) = fieldsOf cs := by
  induction before with
  | nil => rfl
  | cons c before ih =>
    have hc := fieldsOf_append (h c List.mem_cons_self) [] (before ++ cs)
    rw [fieldsOf_nil, List.nil_append, List.nil_append] at hc
    rw [List.cons_append, hc, ih fun d hd => h d (List.mem_cons_of_mem c hd)]

theorem fieldsOf_append_blanks {after : List Char} (h : AllBlank after) (cs : List Char) :
    fieldsOf (cs ++ after) = fieldsOf cs := by
  cases after with
  | nil => rw [List.append_nil]
  | cons c after =>
    have hafter : AllBlank after := fun d hd => h d (List.mem_cons_of_mem c hd)
    have hnil := fieldsOf_blanks_append hafter []
    rw [List.append_nil, fieldsOf_nil] at hnil
    rw [fieldsOf_append (h c List.mem_cons_self), hnil, List.append_nil]

/-- A text without blanks is one field. -/
theorem fieldsOf_word {field : String} (hne : field ≠ "") (h : ∀ c ∈ field.toList, isBlank c = false) :
    fieldsOf field.toList = [field] := by
  have hempty : field.toList.isEmpty = false := by simpa using hne
  rw [fieldsOf, List.splitOnP_eq_singleton h]
  simp [hempty]

theorem IsFields.eq {cs : List Char} {fs : List String} (h : IsFields cs fs) : fieldsOf cs = fs := by
  induction h with
  | @blank cs h =>
    have hcs := fieldsOf_blanks_append h []
    rwa [List.append_nil] at hcs
  | last hbefore hne h => rw [fieldsOf_blanks_append hbefore, fieldsOf_word hne h]
  | field hbefore hne h hc _ ih =>
    rw [List.append_assoc, fieldsOf_blanks_append hbefore, fieldsOf_append hc, fieldsOf_word hne h, ih]
    rfl

/-- There is no field, or a first one with blanks in front; it ends at the next blank. -/
theorem exists_first_field (cs : List Char) :
    AllBlank cs ∨ ∃ (before : List Char) (field : String) (tail : List Char),
      cs = before ++ field.toList ++ tail ∧ AllBlank before ∧ field ≠ "" ∧
      (∀ c ∈ field.toList, isBlank c = false) ∧
      (tail = [] ∨ ∃ c rest, tail = c :: rest ∧ isBlank c = true) := by
  induction cs with
  | nil => exact .inl nofun
  | cons c cs ih =>
    by_cases hc : isBlank c = true
    · rcases ih with hall | ⟨before, field, tail, rfl, hbefore, hfield⟩
      · exact .inl (List.forall_mem_cons.mpr ⟨hc, hall⟩)
      · exact .inr ⟨c :: before, field, tail, rfl, List.forall_mem_cons.mpr ⟨hc, hbefore⟩, hfield⟩
    · let word := cs.takeWhile (!isBlank ·)
      refine .inr ⟨[], String.ofList (c :: word), cs.dropWhile (!isBlank ·), ?_, nofun, ?_, ?_, ?_⟩
      · rw [List.nil_append, String.toList_ofList, List.cons_append, List.takeWhile_append_dropWhile]
      · exact fun hempty => List.cons_ne_nil _ _ (String.ofList_injective hempty)
      · rw [String.toList_ofList]
        refine List.forall_mem_cons.mpr ⟨by simpa using hc, fun d hd => ?_⟩
        simpa using List.mem_takeWhile_imp hd
      · cases htail : cs.dropWhile (!isBlank ·) with
        | nil => exact .inl rfl
        | cons d rest =>
          have hne : cs.dropWhile (!isBlank ·) ≠ [] := htail ▸ List.cons_ne_nil d rest
          have hd := List.head_dropWhile_not (!isBlank ·) hne
          simp only [htail, List.head_cons, Bool.not_eq_false'] at hd
          exact .inr ⟨d, rest, rfl, hd⟩

theorem exists_isFields (cs : List Char) : ∃ fs, IsFields cs fs := by
  induction hn : cs.length using Nat.strong_induction_on generalizing cs with
  | _ n ih =>
    rcases exists_first_field cs with hall | ⟨before, field, tail, rfl, hbefore, hne, h, htail⟩
    · exact ⟨[], .blank hall⟩
    · rcases htail with rfl | ⟨c, rest, rfl, hc⟩
      · rw [List.append_nil]
        exact ⟨[field], .last hbefore hne h⟩
      · obtain ⟨fs, hfs⟩ := ih rest.length (by simp [← hn]; omega) rest rfl
        exact ⟨field :: fs, .field hbefore hne h hc hfs⟩

/-- A text has just one list of fields. -/
theorem fieldsOf_eq_iff {cs : List Char} {fs : List String} : fieldsOf cs = fs ↔ IsFields cs fs := by
  constructor
  · rintro rfl
    obtain ⟨fs, hfs⟩ := exists_isFields cs
    rwa [hfs.eq]
  · exact IsFields.eq

theorem isFields_fieldsOf (cs : List Char) : IsFields cs (fieldsOf cs) := fieldsOf_eq_iff.mp rfl

/-- Blanks around a text give it no other fields. -/
theorem fieldsOf_trim (s : String) : fieldsOf (trim s).toList = fieldsOf s.toList := by
  obtain ⟨before, after, hs, hbefore, hafter⟩ := isPadded_trim s
  rw [hs, fieldsOf_append_blanks hafter, fieldsOf_blanks_append hbefore]

end AddressExchange.Text
