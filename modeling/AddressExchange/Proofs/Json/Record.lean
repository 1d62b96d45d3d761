import AddressExchange.Json.Record
import AddressExchange.Proofs.Json.Reader

/-!
# Records are read back

A record that is written as an object of all its members, in their order and under their names, is
read back if each member is, and refused if the first one is.
-/

namespace AddressExchange.Json

/-! ## Names and colons -/

theorem colon_append (style : Style) : ∃ blanks, (∀ b ∈ blanks, isBlank b = true) ∧
    ∀ rest, colon (style.colon ++ rest) = .ok (blanks ++ rest) := by
  cases style with
  | compact => exact ⟨[], fun _ hb => absurd hb List.not_mem_nil, fun _ => rfl⟩
  | indented depth =>
    refine ⟨[0x20], fun b hb => ?_, fun _ => rfl⟩
    rw [List.mem_singleton.mp hb]
    rfl

theorem nextName_end (first : Bool) (style : Style) (rest : Bytes) :
    nextName first (style.lineBreak ++ 0x7d :: rest) = .ok (.done rest) := by
  rw [nextName, skipBlanks_append fun _ => isBlank_of_mem_lineBreak, skipBlanks_cons (by decide)]
  rfl

theorem nextName_first (style : Style) (rest : Bytes) :
    nextName true (style.lineBreak ++ 0x22 :: rest) = .ok (.more rest) := by
  rw [nextName, skipBlanks_append fun _ => isBlank_of_mem_lineBreak, skipBlanks_cons (by decide)]
  rfl

theorem nextName_more (style : Style) (rest : Bytes) :
    nextName false (0x2c :: (style.lineBreak ++ 0x22 :: rest)) = .ok (.more rest) := by
  rw [nextName, skipBlanks_cons (by decide)]
  split
  · next heq => cases heq
  · next heq => exact absurd (List.cons.inj heq).1 (by decide)
  next heq =>
  cases heq
  rw [if_neg Bool.false_ne_true, if_pos rfl, skipBlanks_append fun _ => isBlank_of_mem_lineBreak,
    skipBlanks_cons (by decide)]
  rfl

namespace Members

/-! ## Members that were read -/

/-- Are values written under the names of the members, in their order, and each read back? -/
inductive Reads : {α σ : Type} → Members α σ → α → List (String × Value) → Prop
  | none : Reads .none () []
  | more {α β σ : Type} {m : Member α} {ms : Members β σ} {a : α} {b : β} {v : Value}
      {vs : List (String × Value)} (h : Json.Reads m.read v a) (hs : Reads ms b vs) :
      Reads (.more m ms) (a, b) ((m.name, v) :: vs)

/-- The names of the members. -/
def names {α σ : Type} : Members α σ → List String
  | none => []
  | more m ms => m.name :: ms.names

/-- The first members hold their values, and the others none. -/
def filled {α σ : Type} : Members α σ → α → Nat → σ
  | none, _, _ => ()
  | more _ ms, _, 0 => (Option.none, ms.empty)
  | more _ ms, (a, b), k + 1 => (some a, ms.filled b k)

variable {α σ : Type} {ms : Members α σ} {a : α} {vs : List (String × Value)}

theorem Reads.map_fst (h : Reads ms a vs) : vs.map (·.1) = ms.names := by
  induction h with
  | none => rfl
  | more h hs ih => exact congrArg _ ih

theorem filled_zero (ms : Members α σ) (a : α) : ms.filled a 0 = ms.empty := by
  cases ms <;> rfl

theorem finish_filled (h : Reads ms a vs) {k : Nat} (hk : vs.length ≤ k) :
    ms.finish (ms.filled a k) = .ok a := by
  induction h generalizing k with
  | none => rfl
  | @more α β σ m ms a b v vs h hs ih =>
    cases k with
    | zero => cases hk
    | succ k =>
      -- A slot that holds a value is not filled with what stands for an absent member.
      have hslot : (some a <|> m.absent) = some a := rfl
      rw [filled, finish]
      simp only [hslot, ih (Nat.le_of_succ_le_succ hk)]
      rfl

/-- The next member finds its place. -/
theorem place_filled (h : Reads ms a vs) (hnames : (vs.map (·.1)).Nodup) {k : Nat} {name : String}
    {v : Value} (hv : vs[k]? = some (name, v)) (style : Style) {rest : Bytes}
    (hr : Delimited rest) :
    ms.place name (style.colon ++ (v.write style ++ rest)) (ms.filled a k) =
      .ok (some (ms.filled a (k + 1), rest)) := by
  induction h generalizing k with
  | none => cases hv
  | @more α β σ m ms a b w vs h hs ih =>
    -- The member at `k` is this one, or one of those behind it, which have other names.
    cases k with
    | zero =>
      obtain ⟨rfl, rfl⟩ : m.name = name ∧ w = v := by simpa using hv
      obtain ⟨blanks, hb, hcolon⟩ := colon_append style
      have hread := h style blanks rest hb hr
      rw [filled, place, if_pos rfl]
      simp only [Option.isSome_none, hcolon, bind, Except.bind, hread]
      rw [filled, filled_zero]
      rfl
    | succ k =>
      have hv' : vs[k]? = some (name, v) := by simpa using hv
      have hne : m.name ≠ name := by
        rintro rfl
        rw [List.map_cons, List.nodup_cons] at hnames
        exact hnames.1 (List.mem_map.mpr ⟨_, List.mem_of_getElem? hv', rfl⟩)
      have hplace := ih (List.nodup_cons.mp hnames).2 hv'
      rw [filled, place, if_neg hne, hplace]
      rfl

/-! ## Whole records -/

/-- What stands for a member, from its name on. -/
theorem writeMembers_append (style : Style) (name : String) (v : Value) (rest : Bytes) :
    quote name ++ (style.colon ++ v.write style) ++ rest =
      0x22 :: ((Text.utf8 name).flatMap escapeByte ++
        0x22 :: (style.colon ++ (v.write style ++ rest))) := by
  rw [List.append_assoc, List.append_assoc, quote_append]

theorem length_writeMembers (style : Style) (vs : List (String × Value)) :
    (Value.writeMembers style vs).length = vs.length := by
  induction vs with
  | nil => rw [Value.writeMembers]; rfl
  | cons v vs ih => rw [Value.writeMembers, List.length_cons, List.length_cons, ih]

private theorem brace_mem : (0x7d : UInt8) ∈ [0x5d, 0x7d] := by decide

/-- With `k` members behind it, the reader takes the others and the brace. -/
theorem object_following (h : Reads ms a vs) (hnames : (vs.map (·.1)).Nodup) (style : Style)
    {k fuel : Nat} (hk : k ≤ vs.length) (hfuel : vs.length < k + fuel) (rest : Bytes) :
    ms.object false (ms.filled a k) fuel
        (following style 0x7d (Value.writeMembers style.deeper (vs.drop k)) rest) =
      .ok (a, rest) := by
  -- Each turn takes one member; the fuel is what the members behind `k` need at most.
  induction fuel generalizing k with
  | zero => omega
  | succ fuel ih =>
    rw [object]
    cases hv : vs[k]? with
    | none =>
      have hlength : vs.length ≤ k := List.getElem?_eq_none_iff.mp hv
      have hend := nextName_end false style rest
      rw [List.drop_of_length_le hlength, Value.writeMembers]
      simp only [following, List.flatMap_nil, List.nil_append, hend, bind, Except.bind,
        finish_filled h hlength]
    | some nv =>
      obtain ⟨name, v⟩ := nv
      obtain ⟨hlt, hget⟩ := List.getElem?_eq_some_iff.mp hv
      have hdelimited := delimited_following style brace_mem
        (Value.writeMembers style.deeper (vs.drop (k + 1))) rest
      have hplace := place_filled h hnames hv style.deeper hdelimited
      have hcons : following style 0x7d (Value.writeMembers style.deeper (vs.drop k)) rest =
          0x2c :: (style.deeper.lineBreak ++ (quote name ++ (style.deeper.colon ++
            v.write style.deeper) ++ following style 0x7d
              (Value.writeMembers style.deeper (vs.drop (k + 1))) rest)) := by
        rw [List.drop_eq_getElem_cons hlt, hget, Value.writeMembers]
        simp [following]
      rw [hcons, writeMembers_append, nextName_more]
      simp only [bind, Except.bind, stringTail_quote, hplace]
      exact ih hlt (by omega)

/-- A record is read back if all its members are. -/
theorem reads_record (h : Reads ms a vs) (hnames : ms.names.Nodup) (expected : String) :
    Json.Reads (ms.reader expected) (.object vs) a := by
  rw [← h.map_fst] at hnames
  intro style blanks rest hb hr
  have hskip := skipBlanks_write hb style (.object vs) rest
  rw [Value.write] at hskip ⊢
  unfold reader
  rw [hskip]
  cases vs with
  | nil =>
    cases h
    rfl
  | cons nv vs =>
    obtain ⟨name, v⟩ := nv
    rw [Value.writeMembers, enclose_cons, writeMembers_append]
    have hdelimited := delimited_following style brace_mem (Value.writeMembers style.deeper vs) rest
    have hplace := place_filled (k := 0) h hnames rfl style.deeper hdelimited
    -- The bytes bound the turns: one for each member, and one for the brace.
    have hlength := length_lt_following style 0x7d (Value.writeMembers style.deeper vs) rest
    rw [length_writeMembers] at hlength
    have hfuel : (vs.length + 1) < 1 + (style.deeper.lineBreak ++ 0x22 ::
        ((Text.utf8 name).flatMap escapeByte ++ 0x22 :: (style.deeper.colon ++
          (v.write style.deeper ++
            following style 0x7d (Value.writeMembers style.deeper vs) rest)))).length := by
      simp only [List.length_append, List.length_cons]
      omega
    have hobject := object_following (k := 1) h hnames style (by simp) hfuel rest
    rw [filled_zero] at hplace
    show ms.object true ms.empty _ _ = _
    rw [object, nextName_first]
    simp only [bind, Except.bind, stringTail_quote, hplace]
    exact hobject

/-- A record is refused if its first member is. -/
theorem refuses_record {β τ : Type} {m : Member β} {ms : Members α τ} {v : Value}
    (h : Refuses m.read v) (vs : List (String × Value)) (expected : String) :
    Refuses ((Members.more m ms).reader expected) (.object ((m.name, v) :: vs)) := by
  intro style blanks rest hb hr
  have hskip := skipBlanks_write hb style (.object ((m.name, v) :: vs)) rest
  rw [Value.write] at hskip ⊢
  unfold reader
  rw [hskip, Value.writeMembers, enclose_cons, writeMembers_append]
  have hdelimited := delimited_following style brace_mem (Value.writeMembers style.deeper vs) rest
  obtain ⟨blanks', hb', hcolon⟩ := colon_append style.deeper
  obtain ⟨e, he⟩ := h style.deeper blanks' _ hb' hdelimited
  refine ⟨e, ?_⟩
  show (Members.more m ms).object true (Members.more m ms).empty _ _ = _
  rw [object, nextName_first]
  simp only [bind, Except.bind, stringTail_quote, empty, place, if_pos, Option.isSome_none,
    Bool.false_eq_true, if_false, hcolon, he]

end Members

end AddressExchange.Json
