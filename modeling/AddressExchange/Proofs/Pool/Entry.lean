import AddressExchange.Pool.Entry
import AddressExchange.Proofs.Pool.Search
import AddressExchange.Proofs.Text.Blank
import AddressExchange.Proofs.Time.Instant
import AddressExchange.Proofs.Wire

/-!
# Addresses and the order of entries

What counts as an address is left alone by the check, and fills one row of the wire format. Entries
are sorted by their instants and keep their order where these are the same.
-/

namespace AddressExchange

/-! ## Addresses -/

namespace Address

/-- A text holds an address if what is left of it without the blanks around it is not empty, not too
long and free of blanks and control characters. -/
theorem check_eq_ok {s address : String} :
    check s = .ok address ↔
      address = Text.trim s ∧ address ≠ "" ∧ address.utf8ByteSize ≤ addressSizeLimit ∧
        ∀ c ∈ address.toList, Text.isBlank c = false ∧ Text.isControl c = false := by
  rw [check]
  constructor
  · intro h
    split at h
    · cases h
    next hempty =>
    split at h
    · cases h
    next hlong =>
    split at h
    · cases h
    next hblank =>
    obtain rfl := Except.ok.inj h
    refine ⟨rfl, by simpa using hempty, by omega, fun c hc => ?_⟩
    simpa using fun hbad => hblank (List.any_eq_true.mpr ⟨c, hc, hbad⟩)
  · rintro ⟨rfl, hempty, hlong, hblank⟩
    rw [if_neg (by simpa using hempty), if_neg (by omega), if_neg]
    rw [List.any_eq_true]
    rintro ⟨c, hc, hbad⟩
    simp [hblank c hc] at hbad

/-- An address is the address that it holds. -/
theorem check_check {s address : String} (h : check s = .ok address) :
    check address = .ok address := by
  obtain ⟨-, hempty, hlong, hblank⟩ := check_eq_ok.mp h
  have ht : Text.trim address = address := Text.trim_eq_self fun c hc => (hblank c hc).1
  exact check_eq_ok.mpr ⟨ht.symm, hempty, hlong, hblank⟩

theorem isRow_of_check {s address : String} (h : check s = .ok address) : Wire.IsRow address := by
  obtain ⟨-, hempty, -, hblank⟩ := check_eq_ok.mp h
  refine ⟨hempty, fun hm => ?_⟩
  exact absurd (hblank _ hm).1 (by decide)

end Address

/-! ## The order of entries -/

namespace Entry

/-- Are the entries in the order of their instants? -/
def Ordered (es : List Entry) : Prop := es.Pairwise fun a b => a.activatedAt ≤ b.activatedAt

theorem ordered_iff {es : List Entry} : Ordered es ↔ es.Pairwise fun a b => a.notAfter b = true := by
  simp [Ordered, notAfter]

theorem notAfter_trans (a b c : Entry) (hab : a.notAfter b = true) (hbc : b.notAfter c = true) :
    a.notAfter c = true := by
  simp only [notAfter, decide_eq_true_eq] at *
  exact Std.le_trans hab hbc

theorem notAfter_total (a b : Entry) : (a.notAfter b || b.notAfter a) = true := by
  simp only [notAfter, Bool.or_eq_true, decide_eq_true_eq]
  exact Std.le_total

theorem sort_perm (es : List Entry) : (sort es).Perm es := List.mergeSort_perm es notAfter

@[simp] theorem mem_sort {es : List Entry} {e : Entry} : e ∈ sort es ↔ e ∈ es :=
  (sort_perm es).mem_iff

theorem ordered_sort (es : List Entry) : Ordered (sort es) :=
  ordered_iff.mpr (List.pairwise_mergeSort notAfter_trans notAfter_total es)

theorem sort_eq_self {es : List Entry} (h : Ordered es) : sort es = es :=
  List.mergeSort_of_pairwise (ordered_iff.mp h)

theorem Ordered.le_last {es : List Entry} (h : Ordered es) {e last : Entry} (he : e ∈ es)
    (hlast : es.getLast? = some last) : e.activatedAt ≤ last.activatedAt := by
  have heq : es.getLast (List.ne_nil_of_mem he) = last :=
    Option.some.inj ((List.getLast?_eq_some_getLast _).symm.trans hlast)
  exact heq ▸ h.rel_getLast_of_rel_getLast_getLast he (Std.le_refl _)

/-! ## Placing an entry -/

/-- Puts an entry behind all that come no later. -/
def place (e : Entry) (es : List Entry) : List Entry :=
  es.filter (·.notAfter e) ++ e :: es.filter (!·.notAfter e)

theorem place_perm (e : Entry) (es : List Entry) : (place e es).Perm (e :: es) :=
  List.perm_middle.trans ((List.filter_append_perm _ es).cons e)

@[simp] theorem mem_place {e x : Entry} {es : List Entry} : x ∈ place e es ↔ x = e ∨ x ∈ es := by
  rw [(place_perm e es).mem_iff, List.mem_cons]

theorem Ordered.place {es : List Entry} (h : Ordered es) (e : Entry) : Ordered (e.place es) := by
  refine List.pairwise_append.mpr ⟨h.filter _, List.pairwise_cons.mpr ⟨?_, h.filter _⟩, ?_⟩
  -- All behind come after the entry.
  · intro b hb
    have hb := (List.mem_filter.mp hb).2
    simp only [notAfter, Bool.not_eq_true', decide_eq_false_iff_not, Std.not_le] at hb
    exact Std.le_of_lt hb
  -- All in front come no later than it, and so no later than those behind.
  · intro a ha b hb
    have ha := (List.mem_filter.mp ha).2
    simp only [notAfter, decide_eq_true_eq] at ha
    cases List.mem_cons.mp hb with
    | inl heq => exact heq ▸ ha
    | inr hb =>
      have hb := (List.mem_filter.mp hb).2
      simp only [notAfter, Bool.not_eq_true', decide_eq_false_iff_not, Std.not_le] at hb
      exact Std.le_trans ha (Std.le_of_lt hb)

/-- An entry that nothing comes after is put at the end. -/
theorem place_eq_append {e : Entry} {es : List Entry} (h : ∀ x ∈ es, x.activatedAt ≤ e.activatedAt) :
    place e es = es ++ [e] := by
  have hall : ∀ x ∈ es, x.notAfter e = true := fun x hx => decide_eq_true (h x hx)
  rw [Entry.place, List.filter_eq_self.mpr hall, List.filter_eq_nil_iff.mpr]
  intro x hx
  simp [hall x hx]

end Entry

end AddressExchange
