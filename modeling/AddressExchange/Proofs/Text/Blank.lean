import AddressExchange.Text.Blank
import Mathlib.Data.List.TakeWhile

/-!
# Texts without blanks

Trimming leaves a text alone that has no blank in it, and takes such a text out of the blanks around
it.
-/

namespace AddressExchange.Text

theorem trimStart_cons {c : Char} (h : isBlank c = false) (cs : List Char) :
    trimStart (c :: cs) = c :: cs :=
  List.dropWhile_cons_of_neg (by simp [h])

theorem trimStart_eq_self {cs : List Char} (h : ∀ c ∈ cs, isBlank c = false) :
    trimStart cs = cs := by
  cases cs with
  | nil => rfl
  | cons c cs => exact trimStart_cons (h c List.mem_cons_self) cs

theorem trimStart_append {before : List Char} (h : ∀ c ∈ before, isBlank c = true) (cs : List Char) :
    trimStart (before ++ cs) = trimStart cs :=
  List.dropWhile_append_of_pos h

theorem trimEnd_append {after : List Char} (h : ∀ c ∈ after, isBlank c = true) (cs : List Char) :
    trimEnd (cs ++ after) = trimEnd cs := by
  have hr : ∀ c ∈ after.reverse, isBlank c = true := fun c hc => h c (List.mem_reverse.mp hc)
  rw [trimEnd, List.reverse_append, List.dropWhile_append_of_pos hr]
  rfl

theorem trimEnd_eq_self {cs : List Char} (h : ∀ c ∈ cs, isBlank c = false) : trimEnd cs = cs := by
  -- The end is trimmed as the start of the text read backwards.
  have hr : trimStart cs.reverse = cs.reverse :=
    trimStart_eq_self fun c hc => h c (List.mem_reverse.mp hc)
  rw [trimStart] at hr
  rw [trimEnd, hr, List.reverse_reverse]

/-- Trimming at the end leaves a first character that is no blank. -/
theorem prefix_trimEnd {c : Char} (h : isBlank c = false) (cs : List Char) :
    [c] <+: trimEnd (c :: cs) := by
  rw [trimEnd, List.reverse_cons, List.dropWhile_append]
  split <;> simp [h]

/-- Blanks behind a text go first when it is trimmed. -/
theorem trim_append {after : List Char} (h : ∀ c ∈ after, isBlank c = true) (s : String) :
    trim (s ++ String.ofList after) = trim s := by
  have hstart : trimEnd (trimStart (s.toList ++ after)) = trimEnd (trimStart s.toList) := by
    rw [trimStart, List.dropWhile_append]
    split
    · next hempty =>
      -- The text itself is blank.
      have hs : trimStart s.toList = [] := List.isEmpty_iff.mp hempty
      have hafter : after.dropWhile isBlank = [] := List.dropWhile_eq_nil_iff.mpr h
      rw [hs, hafter]
    · exact trimEnd_append h _
  rw [trim, trim, String.toList_append, String.toList_ofList, hstart]

theorem trim_eq_self {s : String} (h : ∀ c ∈ s.toList, isBlank c = false) : trim s = s := by
  rw [trim, trimStart_eq_self h, trimEnd_eq_self h, String.ofList_toList]

/-! ## Blanks around a text -/

/-- Are the characters those in the middle with blanks around them? -/
def IsPadded (cs middle : List Char) : Prop :=
  ∃ before after, cs = before ++ middle ++ after ∧
    (∀ c ∈ before, isBlank c = true) ∧ ∀ c ∈ after, isBlank c = true

theorem isPadded_self (cs : List Char) : IsPadded cs cs :=
  ⟨[], [], by simp, nofun, nofun⟩

/-- Trimming takes away nothing but blanks. -/
theorem isPadded_trim (s : String) : IsPadded s.toList (trim s).toList := by
  let rest := trimStart s.toList
  refine ⟨s.toList.takeWhile isBlank, (rest.reverse.takeWhile isBlank).reverse, ?_, ?_, ?_⟩
  · have hend : trimEnd rest ++ (rest.reverse.takeWhile isBlank).reverse = rest := by
      rw [trimEnd, ← List.reverse_append, List.takeWhile_append_dropWhile, List.reverse_reverse]
    rw [trim, String.toList_ofList, List.append_assoc, hend]
    exact List.takeWhile_append_dropWhile.symm
  · intro c hc
    exact List.mem_takeWhile_imp hc
  · intro c hc
    exact List.mem_takeWhile_imp (List.mem_reverse.mp hc)

/-- Trimming leaves a text without blanks exactly where that text has blanks around it. -/
theorem trim_eq {s : String} {middle : List Char} (h : ∀ c ∈ middle, isBlank c = false) :
    (trim s).toList = middle ↔ IsPadded s.toList middle := by
  constructor
  · rintro rfl
    exact isPadded_trim s
  · rintro ⟨before, after, hs, hbefore, hafter⟩
    rw [trim, String.toList_ofList, hs, List.append_assoc, trimStart_append hbefore]
    cases middle with
    | nil =>
      rw [List.nil_append, ← List.append_nil after, trimStart_append hafter]
      rfl
    | cons c middle =>
      -- What begins the middle is no blank, so nothing more goes at the start.
      rw [List.cons_append, trimStart_cons (h c List.mem_cons_self), ← List.cons_append,
        trimEnd_append hafter, trimEnd_eq_self h]

end AddressExchange.Text
