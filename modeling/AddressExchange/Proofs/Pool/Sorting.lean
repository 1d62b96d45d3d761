import AddressExchange.Proofs.Pool.Entry

/-!
# Sorting is stable

Sorted entries of one instant stand in the order that they had before. Together with the order of
the instants this leaves one list only, so placing each new entry behind all that come no later is
the same as sorting all of them anew.
-/

namespace AddressExchange.Entry

/-- The entries of one instant, in their order. -/
def ofInstant (t : Instant) (es : List Entry) : List Entry := es.filter fun e => e.activatedAt = t

variable {t : Instant} {e x : Entry} {es fs : List Entry}

@[simp] theorem mem_ofInstant : x ∈ ofInstant t es ↔ x ∈ es ∧ x.activatedAt = t := by
  simp [ofInstant]

@[simp] theorem ofInstant_append : ofInstant t (es ++ fs) = ofInstant t es ++ ofInstant t fs := by
  simp [ofInstant]

theorem ofInstant_cons :
    ofInstant t (e :: es) =
      if e.activatedAt = t then e :: ofInstant t es else ofInstant t es := by
  simp [ofInstant, List.filter_cons]

/-- Sorting keeps the order of entries of one instant. -/
theorem ofInstant_sort (t : Instant) (es : List Entry) :
    ofInstant t (sort es) = ofInstant t es := by
  -- Entries of one instant are in order however they stand, so a stable sort leaves them so.
  have hsame : (ofInstant t es).Pairwise fun a b => a.notAfter b = true := by
    refine List.pairwise_iff_forall_sublist.mpr fun {a b} hab => ?_
    have ha := (mem_ofInstant.mp (hab.subset List.mem_cons_self)).2
    have hb := (mem_ofInstant.mp (hab.subset (List.mem_cons_of_mem a List.mem_cons_self))).2
    simp [notAfter, ha, hb, Std.le_refl]
  have hsub : (ofInstant t es).Sublist (sort es) :=
    List.sublist_mergeSort notAfter_trans notAfter_total hsame List.filter_sublist
  have hfilter : (ofInstant t es).Sublist (ofInstant t (sort es)) := by
    simpa [ofInstant] using hsub.filter fun e => e.activatedAt = t
  have hlength : (ofInstant t (sort es)).length = (ofInstant t es).length :=
    ((sort_perm es).filter _).length_eq
  exact (hfilter.eq_of_length hlength.symm).symm

theorem mem_iff_of_ofInstant (h : ∀ t, ofInstant t es = ofInstant t fs) (x : Entry) :
    x ∈ es ↔ x ∈ fs := by
  have hx : x ∈ ofInstant x.activatedAt es ↔ x ∈ ofInstant x.activatedAt fs := by
    rw [h]
  simpa using hx

/-- Lists in order are the same if they have the same entries of each instant in the same order. -/
theorem Ordered.ext (hes : Ordered es) (hfs : Ordered fs)
    (h : ∀ t, ofInstant t es = ofInstant t fs) : es = fs := by
  induction es generalizing fs with
  | nil =>
    cases fs with
    | nil => rfl
    | cons f fs =>
      exact absurd ((mem_iff_of_ofInstant h f).mpr List.mem_cons_self) List.not_mem_nil
  | cons e es ih =>
    cases fs with
    | nil => exact absurd ((mem_iff_of_ofInstant h e).mp List.mem_cons_self) List.not_mem_nil
    | cons f fs =>
      obtain ⟨he, hes'⟩ := List.pairwise_cons.mp hes
      obtain ⟨hf, hfs'⟩ := List.pairwise_cons.mp hfs
      -- Each of the first entries is in the other list, so neither comes after the other.
      have hef : e.activatedAt ≤ f.activatedAt := by
        cases List.mem_cons.mp ((mem_iff_of_ofInstant h f).mpr List.mem_cons_self) with
        | inl heq => exact heq ▸ Std.le_refl _
        | inr hmem => exact he f hmem
      have hfe : f.activatedAt ≤ e.activatedAt := by
        cases List.mem_cons.mp ((mem_iff_of_ofInstant h e).mp List.mem_cons_self) with
        | inl heq => exact heq ▸ Std.le_refl _
        | inr hmem => exact hf e hmem
      have ht : f.activatedAt = e.activatedAt := Std.le_antisymm hfe hef
      have hfirst := h e.activatedAt
      rw [ofInstant_cons, ofInstant_cons, if_pos rfl, if_pos ht] at hfirst
      obtain ⟨rfl, -⟩ := List.cons.inj hfirst
      refine congrArg (e :: ·) (ih hes' hfs' fun t => ?_)
      have hrest := h t
      rw [ofInstant_cons, ofInstant_cons] at hrest
      split at hrest
      · exact (List.cons.inj hrest).2
      · exact hrest

/-- An entry is placed behind those of its instant. -/
theorem ofInstant_place (t : Instant) (e : Entry) (es : List Entry) :
    ofInstant t (place e es) = ofInstant t (es ++ [e]) := by
  have hsplit (holds : Entry → Bool) (h : ∀ x, x.activatedAt = t → holds x = true) :
      ofInstant t (es.filter holds) = ofInstant t es ∧
        ofInstant t (es.filter (!holds ·)) = [] := by
    simp only [ofInstant, List.filter_filter, List.filter_eq_nil_iff]
    refine ⟨List.filter_congr fun x _ => ?_, fun x _ => ?_⟩
    · by_cases hx : x.activatedAt = t <;> simp [hx, h]
    · by_cases hx : x.activatedAt = t <;> simp [hx, h]
  rw [place, ofInstant_append, ofInstant_append, ofInstant_cons, ofInstant_cons]
  -- Entries of the instant are all in front of the entry, or all behind it.
  by_cases ht : t ≤ e.activatedAt
  · obtain ⟨hfront, hback⟩ := hsplit (·.notAfter e) fun x hx => by simp [notAfter, hx, ht]
    rw [hfront, hback]
    rfl
  · have hne : e.activatedAt ≠ t := fun heq => ht (heq ▸ Std.le_refl _)
    obtain ⟨hback, hfront⟩ := hsplit (!·.notAfter e) fun x hx => by simp [notAfter, hx, ht]
    simp only [Bool.not_not] at hfront
    rw [hfront, hback, if_neg hne, if_neg hne]
    simp [ofInstant]

/-- Placing an entry among sorted ones is sorting it with them. -/
theorem sort_concat (es : List Entry) (e : Entry) : sort (es ++ [e]) = place e (sort es) := by
  refine (ordered_sort _).ext ((ordered_sort es).place e) fun t => ?_
  rw [ofInstant_sort, ofInstant_place, ofInstant_append, ofInstant_append, ofInstant_sort]

/-- What is sorted already may be sorted again together with more. -/
theorem sort_sort_append (es fs : List Entry) : sort (sort es ++ fs) = sort (es ++ fs) := by
  refine (ordered_sort _).ext (ordered_sort _) fun t => ?_
  simp only [ofInstant_sort, ofInstant_append]

/-- Sorting is placing one entry after another. -/
theorem sort_eq_foldl (es : List Entry) : sort es = es.foldl (fun fs e => place e fs) [] := by
  induction es using List.reverseRecOn with
  | nil => exact sort_eq_self .nil
  | append_singleton es e ih => rw [sort_concat, List.foldl_concat, ih]

end AddressExchange.Entry
