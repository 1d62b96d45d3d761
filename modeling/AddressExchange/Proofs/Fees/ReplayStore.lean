import AddressExchange.Fees.ReplayStore
import AddressExchange.Proofs.Files.Tree
import AddressExchange.Proofs.Json.Record
import AddressExchange.Proofs.Time.Instant

/-!
# Replay dates in the files of one directory

A file that was saved is read as its date, in milliseconds. A save writes to a file beside the one of the
store, at a name that is made from the store's, and moves that file: what was at the other name is gone
afterwards, even if it was the date of another store. All other files stay as they are. So stores are
registers that do not know of each other, as long as none has the name that another one is saved through.
-/

namespace AddressExchange.ReplayStore

/-! ## The content of a file -/

/-- What a date is read as that was written. -/
inductive ReadAs : Option Instant → Except Failure (Option Instant) → Prop where
  | absent : ReadAs none (.ok none)
  | rounded {t : Instant} (h : t.IsPlain) : ReadAs (some t) (.ok (some t.floorMillis))
  /-- Milliseconds are not counted in leap seconds: one is read as the second behind it. -/
  | leap {t u : Instant} (h : t.isLeap = true) (hseconds : u.seconds = t.seconds + 1)
      (hnanos : u.nanos = (t.nanos - 1000000000) / 1000000 * 1000000) :
      ReadAs (some t) (.ok (some u))
  /-- There is no second behind the last one. -/
  | last {t : Instant} (h : t.isLeap = true) (hlast : t.seconds = 8210266876799)
      (place : Json.Place) : ReadAs (some t) (.error (.json place))

/-- Outside leap seconds a date is read rounded down. -/
theorem ReadAs.eq_of_isPlain {t : Instant} {answer : Except Failure (Option Instant)}
    (h : ReadAs (some t) answer) (ht : t.IsPlain) : answer = .ok (some t.floorMillis) := by
  cases h with
  | rounded => rfl
  | leap hleap | last hleap => cases ht.symm.trans hleap

theorem reads_toJson {date found : Option Instant}
    (h : Json.Reads (Json.nullable Json.millis) (.ofOption (fun t => .number t.toMillis) date) found) :
    Json.Reads reader (toJson date) found := by
  have hrecord : Json.Reads (Json.Members.reader "ReplayDateFile"
      (.more (.required "replay_date" (Json.nullable Json.millis)) .none)) (toJson date) (found, ()) :=
    Json.Members.reads_record (.more h .none) (by decide) _
  intro style blanks rest hb hr
  simp only [reader, hrecord style blanks rest hb hr, bind, Except.bind]

theorem refuses_toJson {date : Option Instant}
    (h : Json.Refuses (Json.nullable Json.millis) (.ofOption (fun t => .number t.toMillis) date)) :
    Json.Refuses reader (toJson date) := by
  have hrecord : Json.Refuses (Json.Members.reader "ReplayDateFile"
      (.more (.required "replay_date" (Json.nullable Json.millis)) .none)) (toJson date) :=
    Json.Members.refuses_record h [] _
  intro style blanks rest hb hr
  obtain ⟨e, he⟩ := hrecord style blanks rest hb hr
  simp only [reader, he, bind, Except.bind]
  exact ⟨e, rfl⟩

theorem readAs_compact (date : Option Instant) :
    ReadAs date ((Json.parse reader (toJson date).compact).mapError .json) := by
  match date with
  | none =>
    rw [Json.Value.compact, (reads_toJson (Json.reads_null _)).parse]
    exact .absent
  | some t =>
    obtain ⟨hlow, hhigh⟩ := t.toMillis_bounds
    have hread {u : Instant} (hu : Instant.ofMillis? t.toMillis = some u) :
        Json.Reads reader (toJson (some t)) (some u) :=
      reads_toJson (Json.reads_some (Json.reads_millis hlow (by omega) hu) (Json.write_number_ne _))
    have hrefused (hu : Instant.ofMillis? t.toMillis = none) :
        Json.Refuses reader (toJson (some t)) :=
      refuses_toJson (Json.refuses_some (Json.refuses_millis hlow (by omega) hu)
        (Json.write_number_ne _))
    rw [Json.Value.compact]
    cases hleap : t.isLeap with
    | false =>
      rw [(hread (Instant.ofMillis?_toMillis hleap)).parse]
      exact .rounded hleap
    | true =>
      have hmillis := Instant.ofMillis?_toMillis_of_isLeap hleap
      cases hu : Instant.ofMillis? t.toMillis with
      | none =>
        obtain ⟨place, hplace⟩ := (hrefused hu).parse .compact
        rw [hplace]
        -- The part of the second is in range, so the second is not.
        refine .last hleap ?_ place
        have := t.seconds_ge
        have := t.seconds_le
        have := t.nanos_lt
        rw [hu, Instant.of?] at hmillis
        split at hmillis
        · cases hmillis
        · omega
      | some u =>
        rw [(hread hu).parse]
        rw [hu, Instant.of?] at hmillis
        split at hmillis
        · cases hmillis
          exact .leap hleap rfl rfl
        · cases hmillis

/-! ## Loading -/

/-- What is loaded when a path leads to a node, to nothing, or on a way that has a fault. -/
def found : Except FileFault (Option Node) → Except Failure (Option Instant)
  | .ok none | .error .notFound => .ok none
  | .error e => .error (.file e)
  | .ok (some .directory) => .error (.file .isDirectory)
  | .ok (some (.file content _)) => (Json.parse reader content).mapError .json

/-- Loading changes no file. -/
theorem run_load (path : Path) (fs : Files) :
    (load path).run fs = (found (fs.resolve path), fs) := by
  have hthere : (Disk.isThere path).filing.run fs = ((fs.isThere path).mapError .file, fs) := rfl
  have hread : (Disk.read path).filing.run fs = ((fs.contentOf path).mapError .file, fs) := rfl
  rw [load, run_bind, hthere, Files.isThere]
  cases hx : fs.resolve path with
  | error e => cases e <;> rfl
  | ok x =>
    match x with
    | none => rfl
    | some .directory =>
      simp only [Except.mapError, Option.isSome_some, if_true, run_bind, hread, Files.contentOf, hx]
      rfl
    | some (.file content _) =>
      simp only [Except.mapError, Option.isSome_some, if_true, run_bind, hread, Files.contentOf, hx]
      simp only [found, bind, Except.bind]
      cases Json.parse reader content <;> rfl

/-! ## Saving -/

/-- The name that a store of a name is saved through. -/
def temporaryName (name : String) : String := Path.replaceExtension "tmp" name

theorem temporaryPath_concat (directory : Path) (name : String) :
    temporaryPath (directory ++ [name]) = directory ++ [temporaryName name] := by
  rw [temporaryPath, Path.withExtension, List.getLast?_concat, List.dropLast_concat]
  rfl

variable {fs fs' fs₁ start : Files} {directory through target : Path} {name : String}
  {date : Option Instant} {content : Bytes}

/-! ### The directory -/

/-- Was a directory made, unless it is the one where all paths begin? -/
def Readied (fs : Files) (directory : Path) (fs₁ : Files) : Prop :=
  if directory = [] then fs₁ = fs else (Disk.makeDirectories directory).run fs = (.ok (), fs₁)

theorem Readied.ok (h : fs.Rooted) (hready : Readied fs directory fs₁) :
    fs₁.Rooted ∧ fs₁.node? directory = some .directory ∧ ∀ q, fs.KeepsAt directory fs₁ q := by
  rw [Readied] at hready
  split at hready
  · next hnil =>
    rw [hready, hnil]
    exact ⟨h, if_pos (.inl rfl), fun q => .inl rfl⟩
  · obtain ⟨hrooted, hdirectory, -⟩ := Disk.makeDirectories_ok h hready
    exact ⟨hrooted, hdirectory, Disk.makeDirectories_keepsAt h hready⟩

theorem readied_of_calm (hcalm : Disk.Calm fs) (hfree : ¬ fs.Obstructed directory) :
    ∃ fs₁, Readied fs directory fs₁ ∧ Disk.Calm fs₁ := by
  by_cases hnil : directory = []
  · exact ⟨fs, by rw [Readied, if_pos hnil], hcalm⟩
  · obtain ⟨fs₁, hmake, hcalm₁⟩ :=
      (Disk.makeDirectories_of_calm hcalm directory).resolve_right fun hfound => hfree hfound.1
    exact ⟨fs₁, by rw [Readied, if_neg hnil, hmake], hcalm₁⟩

/-! ### The file -/

/-- Writes a file at one path and moves it to another one. -/
def writeThrough (through target : Path) (content : Bytes) : Disk Unit := do
  Disk.write through content
  Disk.rename through target

theorem writeThrough_ok (h : fs.Rooted)
    (hrun : (writeThrough through target content).run fs = (.ok (), fs')) :
    fs'.Rooted ∧ (∃ ownerOnly, fs'.node? target = some (.file content ownerOnly)) ∧
      (through ≠ target → fs'.node? through = none) ∧
      ∀ q, q ≠ through → q ≠ target → fs'.node? q = fs.node? q := by
  rw [writeThrough, run_bind] at hrun
  split at hrun
  · next hwrite =>
    obtain ⟨htouches, ownerOnly, hfile⟩ := Disk.write_ok h hwrite
    obtain ⟨hrooted, htarget, hgone, helse⟩ := Disk.rename_ok htouches.rooted hfile hrun
    exact ⟨hrooted, ⟨ownerOnly, htarget⟩, hgone,
      fun q hq hq' => (helse q hq hq').trans (htouches.elsewhere q hq)⟩
  · cases hrun

/-- A calm disk does it in a directory, but not where there are directories at the two names. -/
theorem writeThrough_of_calm (h : fs.Rooted) (hcalm : Disk.Calm fs)
    (hdirectory : fs.node? directory = some .directory) {step step' : String}
    (hthrough : fs.node? (directory ++ [step]) ≠ some .directory)
    (htarget : fs.node? (directory ++ [step']) ≠ some .directory) (content : Bytes) :
    ∃ fs', (writeThrough (directory ++ [step]) (directory ++ [step']) content).run fs = (.ok (), fs') ∧
      Disk.Calm fs' := by
  obtain ⟨fs₁, hwrite, hcalm₁⟩ :=
    (Disk.write_of_calm (h.resolve_child hdirectory step) hcalm content).resolve_right
      fun hfound => hthrough hfound.1
  obtain ⟨htouches, ownerOnly, hfile⟩ := Disk.write_ok h hwrite
  have hdirectory₁ : fs₁.node? directory = some .directory := htouches.rooted _ _ _ hfile
  have htarget₁ : fs₁.node? (directory ++ [step']) ≠ some .directory := by
    by_cases heq : directory ++ [step'] = directory ++ [step]
    · rw [heq, hfile]
      exact nofun
    · rwa [htouches.elsewhere _ heq]
  rw [writeThrough, run_bind, hwrite]
  exact Disk.rename_of_calm (htouches.rooted.resolve_eq hfile)
    (htouches.rooted.resolve_child hdirectory₁ step') htarget₁ hcalm₁

/-! ### Both -/

theorem filing_eq_ok {op : Disk Unit} :
    op.filing.run fs = (.ok (), fs') ↔ op.run fs = (.ok (), fs') := by
  have hfiling : op.filing.run fs = ((op.run fs).1.mapError .file, (op.run fs).2) := rfl
  rw [hfiling]
  rcases op.run fs with ⟨_ | _, _⟩
  · exact iff_of_false nofun nofun
  · constructor <;> rintro ⟨⟩ <;> rfl

theorem save_eq_ok : (save (directory ++ [name]) date).run fs = (.ok (), fs') ↔
    ∃ fs₁, Readied fs directory fs₁ ∧
      (writeThrough (directory ++ [temporaryName name]) (directory ++ [name])
        (toJson date).compact).run fs₁ = (.ok (), fs') := by
  rw [save, temporaryPath_concat, Path.parent, List.dropLast_concat, filing_eq_ok]
  by_cases hnil : directory = []
  · simp only [Readied, if_pos hnil, exists_eq_left, if_neg (not_not_intro hnil)]
    rfl
  · simp only [Readied, if_neg hnil, if_pos hnil]
    constructor
    · intro hrun
      rw [run_bind] at hrun
      split at hrun
      · next hmake => exact ⟨_, hmake, hrun⟩
      · cases hrun
    · rintro ⟨fs₁, hmake, hwrite⟩
      rw [run_bind, hmake]
      exact hwrite

/-- What a save leaves behind. -/
structure Saves (fs : Files) (directory : Path) (name : String) (date : Option Instant) (fs' : Files) :
    Prop where
  rooted : fs'.Rooted
  own : ∃ ownerOnly,
    fs'.node? (directory ++ [name]) = some (.file (toJson date).compact ownerOnly)
  temporary : temporaryName name ≠ name → fs'.node? (directory ++ [temporaryName name]) = none
  elsewhere : ∀ q, q ≠ directory ++ [name] → q ≠ directory ++ [temporaryName name] →
    fs.KeepsAt directory fs' q

theorem save_ok (h : fs.Rooted) (hrun : (save (directory ++ [name]) date).run fs = (.ok (), fs')) :
    Saves fs directory name date fs' := by
  obtain ⟨fs₁, hready, hwrite⟩ := save_eq_ok.mp hrun
  obtain ⟨hrooted₁, -, hkeeps⟩ := hready.ok h
  obtain ⟨hrooted, hown, hgone, helse⟩ := writeThrough_ok hrooted₁ hwrite
  refine ⟨hrooted, hown, fun hne => hgone fun heq => hne ?_, fun q hq hq' => ?_⟩
  · simpa using heq
  · exact (hkeeps q).trans (.inl (helse q hq' hq))

/-- A calm disk lets a save be done, if there are no files in the way of the directory and no directories
at the two names. -/
theorem save_of_calm (h : fs.Rooted) (hcalm : Disk.Calm fs) (hfree : ¬ fs.Obstructed directory)
    (hown : fs.node? (directory ++ [name]) ≠ some .directory)
    (htemporary : fs.node? (directory ++ [temporaryName name]) ≠ some .directory)
    (date : Option Instant) :
    ∃ fs', (save (directory ++ [name]) date).run fs = (.ok (), fs') ∧ Disk.Calm fs' := by
  obtain ⟨fs₁, hready, hcalm₁⟩ := readied_of_calm hcalm hfree
  obtain ⟨hrooted₁, hdirectory, hkeeps⟩ := hready.ok h
  have hsame (step : String) : fs₁.node? (directory ++ [step]) = fs.node? (directory ++ [step]) :=
    (hkeeps _).node?_eq (Files.not_prefix_concat directory step)
  obtain ⟨fs', hwrite, hcalm'⟩ := writeThrough_of_calm hrooted₁ hcalm₁ hdirectory
    (hsame _ ▸ htemporary) (hsame _ ▸ hown) (toJson date).compact
  exact ⟨fs', save_eq_ok.mpr ⟨fs₁, hready, hwrite⟩, hcalm'⟩

/-! ## Operations on stores -/

/-- What was done with a store. -/
inductive Event where
  | loaded (name : String) (answer : Except Failure (Option Instant))
  | saved (name : String) (date : Option Instant)

/-- A load, or a save that was done. -/
inductive Step (directory : Path) (fs : Files) : Event → Files → Prop where
  | load {name : String} {answer : Except Failure (Option Instant)} {fs' : Files}
      (h : (load (directory ++ [name])).run fs = (answer, fs')) :
      Step directory fs (.loaded name answer) fs'
  | save {name : String} {date : Option Instant} {fs' : Files}
      (h : (save (directory ++ [name]) date).run fs = (.ok (), fs')) :
      Step directory fs (.saved name date) fs'

/-- Loads and saves of the stores of a directory one after the other; the log has the last one first. -/
inductive Run (directory : Path) (start : Files) : List Event → Files → Prop where
  | start : Run directory start [] start
  | next {log : List Event} {event : Event} {fs fs' : Files} (h : Run directory start log fs)
      (hstep : Step directory fs event fs') : Run directory start (event :: log) fs'

/-- What the file of a store holds, if there is one. It is gone if another store was saved through its
name. -/
def held (name : String) : List Event → Option (Option Instant)
  | [] => none
  | .loaded _ _ :: log => held name log
  | .saved other date :: log =>
    if other = name then some date
    else if temporaryName other = name then none
    else held name log

/-- The date that was last saved in a store. -/
def lastSaved (name : String) : List Event → Option Instant
  | [] => none
  | .loaded _ _ :: log => lastSaved name log
  | .saved other date :: log => if other = name then date else lastSaved name log

/-- A store that no other one is saved through holds the date that was last saved in it. -/
theorem held_eq_lastSaved {log : List Event}
    (h : ∀ other date, .saved other date ∈ log → temporaryName other = name → other = name) :
    (held name log).join = lastSaved name log := by
  induction log with
  | nil => rfl
  | cons event log ih =>
    have hlog := ih fun other date hmem => h other date (List.mem_cons_of_mem _ hmem)
    cases event with
    | loaded other answer => exact hlog
    | saved other date =>
      rw [held, lastSaved]
      split
      · rfl
      · next hne =>
        rw [if_neg (mt (h other date List.mem_cons_self) hne), hlog]

/-! ## What a run leaves -/

/-- Is the file of a store as it is told? -/
inductive Holds : Option (Option Instant) → Option Node → Prop where
  | absent : Holds none none
  | file (date : Option Instant) (ownerOnly : Bool) :
      Holds (some date) (some (.file (toJson date).compact ownerOnly))

theorem Holds.ne_directory {content : Option (Option Instant)} {node : Option Node}
    (h : Holds content node) : node ≠ some .directory := by
  cases h <;> exact nofun

/-- The files of the stores are as the log tells, and all else is as it was. -/
structure Keeps (directory : Path) (start : Files) (log : List Event) (fs : Files) : Prop where
  rooted : fs.Rooted
  free : ¬ fs.Obstructed directory
  files : ∀ name, start.node? (directory ++ [name]) = none →
    Holds (held name log) (fs.node? (directory ++ [name]))
  elsewhere : ∀ q, (∀ name date, .saved name date ∈ log →
    q ≠ directory ++ [name] ∧ q ≠ directory ++ [temporaryName name]) → start.KeepsAt directory fs q

namespace Keeps

variable {log : List Event}

theorem begin (h : start.Rooted) (hfree : ¬ start.Obstructed directory) :
    Keeps directory start [] start where
  rooted := h
  free := hfree
  files _ hnone := hnone ▸ .absent
  elsewhere _ _ := .inl rfl

theorem readAs (h : Keeps directory start log fs) (hnone : start.node? (directory ++ [name]) = none) :
    ReadAs (held name log).join (found (fs.resolve (directory ++ [name]))) := by
  have hfile := h.files name hnone
  generalize hnode : fs.node? (directory ++ [name]) = node at hfile
  generalize held name log = content at hfile
  cases hfile with
  | absent =>
    -- Without a file the directory may be missing as well.
    rcases Files.resolve_of_free h.free name with hresolve | hresolve <;> rw [hresolve]
    · rw [hnode]
      exact .absent
    · exact .absent
  | file date ownerOnly =>
    rw [h.rooted.resolve_eq hnode]
    exact readAs_compact date

theorem save (h : Keeps directory start log fs) (hsaves : Saves fs directory name date fs') :
    Keeps directory start (.saved name date :: log) fs' where
  rooted := hsaves.rooted
  free := by
    rintro ⟨q, hq, content, ownerOnly, hfile⟩
    have hne (name : String) : q ≠ directory ++ [name] := by
      rintro rfl
      exact Files.not_prefix_concat directory name hq
    exact h.free ⟨q, hq, content, ownerOnly, (hsaves.elsewhere q (hne _) (hne _)).file.mp hfile⟩
  files other hnone := by
    rw [held]
    split
    · next heq =>
      obtain ⟨ownerOnly, hown⟩ := hsaves.own
      rw [← heq, hown]
      exact .file date ownerOnly
    split
    · next hne heq =>
      rw [← heq, hsaves.temporary fun hsame => hne (hsame.symm.trans heq)]
      exact .absent
    · next hne hne' =>
      have hkeeps := hsaves.elsewhere (directory ++ [other]) (by simpa using Ne.symm hne)
        (by simpa using Ne.symm hne')
      rw [hkeeps.node?_eq (Files.not_prefix_concat directory other)]
      exact h.files other hnone
  elsewhere q hq := by
    obtain ⟨hown, htemporary⟩ := hq name date List.mem_cons_self
    exact (h.elsewhere q fun other date hmem => hq other date (List.mem_cons_of_mem _ hmem)).trans
      (hsaves.elsewhere q hown htemporary)

theorem load (h : Keeps directory start log fs) (name : String)
    (answer : Except Failure (Option Instant)) :
    Keeps directory start (.loaded name answer :: log) fs where
  rooted := h.rooted
  free := h.free
  files other hnone := h.files other hnone
  elsewhere q hq := h.elsewhere q fun other date hmem => hq other date (List.mem_cons_of_mem _ hmem)

theorem step (h : Keeps directory start log fs) {event : Event}
    (hstep : Step directory fs event fs') : Keeps directory start (event :: log) fs' := by
  cases hstep with
  | load hload =>
    rw [run_load] at hload
    cases hload
    exact h.load _ _
  | save hsave => exact h.save (save_ok h.rooted hsave)

theorem run (h : start.Rooted) (hfree : ¬ start.Obstructed directory)
    (hrun : Run directory start log fs) : Keeps directory start log fs := by
  induction hrun with
  | start => exact begin h hfree
  | next _ hstep ih => exact ih.step hstep

end Keeps

/-! ## Runs -/

namespace Run

variable {log : List Event}

/-- Whatever was done was done after what was done before it. -/
theorem split {later earlier : List Event} {event : Event}
    (hrun : Run directory start (later ++ event :: earlier) fs) :
    ∃ before after, Run directory start earlier before ∧ Step directory before event after := by
  induction later generalizing fs with
  | nil =>
    cases hrun with
    | next hbefore hstep => exact ⟨_, _, hbefore, hstep⟩
  | cons _ later ih =>
    cases hrun with
    | next hbefore _ => exact ih hbefore

/-- A store can be loaded at any time. -/
theorem load (hrun : Run directory start log fs) (name : String) :
    Run directory start (.loaded name (found (fs.resolve (directory ++ [name]))) :: log) fs :=
  hrun.next (.load (run_load _ fs))

/-- On a calm disk it can be saved at any time, if at first there was nothing at its two names. -/
theorem save (hrun : Run directory start log fs) (h : start.Rooted)
    (hfree : ¬ start.Obstructed directory) (hcalm : Disk.Calm fs) (name : String)
    (hown : start.node? (directory ++ [name]) = none)
    (htemporary : start.node? (directory ++ [temporaryName name]) = none) (date : Option Instant) :
    ∃ fs', Run directory start (.saved name date :: log) fs' ∧ Disk.Calm fs' := by
  have hkeeps := Keeps.run h hfree hrun
  obtain ⟨fs', hsave, hcalm'⟩ := save_of_calm hkeeps.rooted hcalm hkeeps.free
    (hkeeps.files name hown).ne_directory (hkeeps.files _ htemporary).ne_directory date
  exact ⟨fs', hrun.next (.save hsave), hcalm'⟩

end Run

/-- A store that another one is saved through loses its date. -/
theorem exists_run_lost (h : start.Rooted) (hfree : ¬ start.Obstructed directory)
    (hcalm : Disk.Calm start) {name other : String} (hthrough : temporaryName other = name)
    (hne : other ≠ name)
    (hnone : ∀ used ∈ [name, other, temporaryName name], start.node? (directory ++ [used]) = none)
    (date date' : Option Instant) :
    ∃ fs, Run directory start [.loaded name (.ok none), .saved other date', .saved name date] fs := by
  simp only [List.forall_mem_cons, List.not_mem_nil, false_imp_iff, implies_true] at hnone
  obtain ⟨hname, hother, htemporary, -⟩ := hnone
  obtain ⟨fs₁, hrun₁, hcalm₁⟩ := Run.start.save h hfree hcalm name hname htemporary date
  obtain ⟨fs₂, hrun₂, -⟩ := hrun₁.save h hfree hcalm₁ other hother (hthrough ▸ hname) date'
  have hread := (Keeps.run h hfree hrun₂).readAs hname
  rw [held, if_neg hne, if_pos hthrough] at hread
  have hlost : found (fs₂.resolve (directory ++ [name])) = .ok none := by
    generalize found (fs₂.resolve (directory ++ [name])) = answer at hread
    cases hread
    rfl
  exact ⟨fs₂, hlost ▸ hrun₂.load name⟩

/-- Stores of a directory, where no file is in the way of it. After any loads and completed saves, each
load of a store that had no file at first gave the date that its file held: the one last saved in it, if
no other store was saved through its name since then, and else none. So a store that no other one is saved
through always gave the date last saved in it. A save leaves nothing at the name that it goes through.
Whatever is neither the file of a store that was saved nor at the name that one was saved through is as it
was, but for directories that were missing on the way. Wherever a store is saved through the name of
another one, the other one may lose its date. -/
theorem registers_unless_saved_through (h : start.Rooted) (hfree : ¬ start.Obstructed directory) :
    (∀ log fs, Run directory start log fs →
      (∀ later earlier name answer, log = later ++ .loaded name answer :: earlier →
        start.node? (directory ++ [name]) = none →
          ReadAs (held name earlier).join answer ∧
          ((∀ other date, .saved other date ∈ earlier → temporaryName other = name → other = name) →
            ReadAs (lastSaved name earlier) answer)) ∧
      (∀ name date earlier, log = .saved name date :: earlier → temporaryName name ≠ name →
        fs.node? (directory ++ [temporaryName name]) = none) ∧
      ∀ q, (∀ name date, .saved name date ∈ log →
        q ≠ directory ++ [name] ∧ q ≠ directory ++ [temporaryName name]) →
          start.KeepsAt directory fs q) ∧
    ∀ name other, temporaryName other = name → other ≠ name → Disk.Calm start →
      (∀ used ∈ [name, other, temporaryName name], start.node? (directory ++ [used]) = none) →
      ∀ date date', ∃ fs,
        Run directory start [.loaded name (.ok none), .saved other date', .saved name date] fs := by
  refine ⟨fun log fs hrun => ⟨fun later earlier name answer hlog hnone => ?_,
    fun name date earlier hlog hne => ?_, (Keeps.run h hfree hrun).elsewhere⟩,
    fun name other hthrough hne hcalm hnone => exists_run_lost h hfree hcalm hthrough hne hnone⟩
  · subst hlog
    obtain ⟨before, after, hbefore, hstep⟩ := hrun.split
    have hread := (Keeps.run h hfree hbefore).readAs hnone
    cases hstep with
    | load hload =>
      rw [run_load] at hload
      cases hload
      exact ⟨hread, fun hown => held_eq_lastSaved hown ▸ hread⟩
  · subst hlog
    cases hrun with
    | next hbefore hstep =>
      cases hstep with
      | save hsave => exact (save_ok (Keeps.run h hfree hbefore).rooted hsave).temporary hne

/-- Two stores of a directory, beside a note. -/
theorem registers_unless_saved_through_two :
    let t : Instant := .early 1 500600000
    let start : Files := { nodes := [(["d"], .directory), (["d", "note"], .file [1] false)] }
    ∃ answer fs, Run ["d"] start
        [.loaded "a.json" answer, .saved "b.json" none, .saved "a.json" (some t)] fs ∧
      answer = .ok (some t.floorMillis) ∧ fs.node? ["d", "note"] = some (.file [1] false) := by
  intro t start
  have hrooted : start.Rooted := Files.rooted_of_nodes (by decide)
  have hfree : ¬ start.Obstructed ["d"] := hrooted.free (by decide)
  have ha : temporaryName "a.json" = "a.tmp" := by decide +kernel
  have hb : temporaryName "b.json" = "b.tmp" := by decide +kernel
  obtain ⟨fs₁, hrun₁, hcalm₁⟩ := Run.start.save hrooted hfree nofun "a.json" (by decide)
    (by rw [ha]; decide) (some t)
  obtain ⟨fs₂, hrun₂, -⟩ := hrun₁.save hrooted hfree hcalm₁ "b.json" (by decide)
    (by rw [hb]; decide) none
  have hrun := hrun₂.load "a.json"
  obtain ⟨hloads, -, helse⟩ := (registers_unless_saved_through hrooted hfree).1 _ _ hrun
  refine ⟨_, fs₂, hrun, (hloads [] _ _ _ rfl (by decide)).1.eq_of_isPlain (by decide), ?_⟩
  refine (helse ["d", "note"] fun name date hmem => ?_).file.mpr (by decide)
  obtain ⟨rfl, -⟩ | ⟨rfl, -⟩ : name = "b.json" ∧ date = none ∨ name = "a.json" ∧ date = some t := by
    simpa using hmem
  · rw [hb]
    decide
  · rw [ha]
    decide

/-- Saving one store takes the date of another one away, or a file that is none of a store. -/
theorem other_file_removed :
    (∃ fs, Run [] {} [.loaded "a.tmp" (.ok none), .saved "a.json" (some (.early 2 0)),
        .saved "a.tmp" (some (.early 1 0))] fs) ∧
    ¬ ReadAs (lastSaved "a.tmp" [.saved "a.json" (some (.early 2 0)),
        .saved "a.tmp" (some (.early 1 0))]) (.ok none) ∧
    ∃ fs, Run [] { nodes := [(["a.tmp"], .file [1] false)] } [.saved "a.json" (some (.early 2 0))] fs ∧
      fs.node? ["a.tmp"] = none := by
  have hthrough : temporaryName "a.json" = "a.tmp" := by decide +kernel
  have hother : temporaryName "a.tmp" = "a.tmp" := by decide +kernel
  have hempty : ({} : Files).Rooted := Files.rooted_of_nodes nofun
  refine ⟨exists_run_lost hempty (hempty.free rfl) nofun hthrough (by decide) ?_ _ _, nofun, ?_⟩
  · rw [hother]
    decide
  · let start : Files := { nodes := [(["a.tmp"], .file [1] false)] }
    have hrooted : start.Rooted := Files.rooted_of_nodes (by decide)
    obtain ⟨fs, hsave, -⟩ : ∃ fs, (save ([] ++ ["a.json"]) (some (.early 2 0))).run start =
        (.ok (), fs) ∧ Disk.Calm fs :=
      save_of_calm hrooted nofun (hrooted.free rfl) (by decide) (by rw [hthrough]; decide) _
    have hgone := (save_ok hrooted hsave).temporary (by rw [hthrough]; decide)
    rw [hthrough] at hgone
    exact ⟨fs, .next .start (.save hsave), hgone⟩

end AddressExchange.ReplayStore
