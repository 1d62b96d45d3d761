import AddressExchange.Cipher.Labelled
import AddressExchange.CommandLine.Keygen
import AddressExchange.Proofs.CommandLine.Session
import AddressExchange.Proofs.Hex

/-!
# Writing key files

A key pair is written in steps, and no step is taken back. What ends the work before the file of the
public key is opened leaves both files as they were. After that the file has the new public key, or a
beginning of it, whatever becomes of the secret key. One refusal does not end the work: the content of
the secret key is handed over last, and that the disk did not take it is not heard.
-/

namespace AddressExchange

/-! ## Paths -/

namespace Path

/-- The steps of a text that count. -/
def steps (cs : List Char) : Path :=
  ((cs.splitOn '/').map String.ofList).filter fun step => step ≠ "" && step ≠ "."

theorem ofText_eq (s : String) :
    ofText s = if s.startsWith "/" then root :: steps s.toList else steps s.toList := rfl

theorem steps_append (front back : List Char) :
    steps (front ++ '/' :: back) = steps front ++ steps back := by
  rw [steps, List.splitOn_append_cons_self, List.map_append, List.filter_append]
  rfl

/-- A name is one step. -/
theorem steps_name {name : String} (hname : '/' ∉ name.toList) (hne : name ≠ "")
    (hdot : name ≠ ".") : steps name.toList = [name] := by
  rw [steps, List.splitOn_eq_singleton hname]
  simp [hne, hdot]

theorem startsWith_append {s : String} (hs : s ≠ "") (t : String) :
    (s ++ t).startsWith "/" = s.startsWith "/" := by
  obtain ⟨c, cs, hcs⟩ := List.exists_cons_of_ne_nil (mt String.toList_eq_nil_iff.mp hs)
  rw [Bool.eq_iff_iff, String.startsWith_string_iff, String.startsWith_string_iff,
    String.toList_append, hcs]
  simp

end Path

namespace CommandLine

/-- A name in a directory is one step further. -/
theorem ofText_joinPath (directory : String) {name : String} (hname : '/' ∉ name.toList)
    (hne : name ≠ "") (hdot : name ≠ ".") :
    Path.ofText (joinPath directory name) = Path.ofText directory ++ [name] := by
  have hsteps := Path.steps_name hname hne hdot
  by_cases hempty : directory = ""
  · have hstart : ¬ name.startsWith "/" = true := by
      rw [String.startsWith_string_iff]
      rintro ⟨rest, hrest⟩
      exact hname (hrest ▸ List.mem_append_left _ List.mem_cons_self)
    have hjoin : joinPath directory name = name := by
      subst hempty
      exact String.empty_append
    have htop : Path.ofText directory = [] := by
      subst hempty
      decide +kernel
    rw [hjoin, Path.ofText_eq, if_neg hstart, hsteps, htop, List.nil_append]
  · have hisEmpty : directory.isEmpty = false := by simpa using hempty
    by_cases hend : directory.endsWith '/' = true
    · -- There is a slash already, and nothing behind it.
      obtain ⟨front, hfront⟩ : ∃ front, directory.toList = front ++ ['/'] := by
        rw [String.endsWith_char_eq_getLast?] at hend
        exact List.getLast?_eq_some_iff.mp (by simpa using hend)
      have hjoin : joinPath directory name = directory ++ name := by
        rw [joinPath, hend, Bool.or_true, if_pos rfl]
      have hdirectory : Path.steps directory.toList = Path.steps front := by
        rw [hfront, Path.steps_append]
        exact List.append_nil _
      have hboth : Path.steps (directory ++ name).toList = Path.steps front ++ [name] := by
        rw [String.toList_append, hfront, List.append_assoc, List.singleton_append,
          Path.steps_append, hsteps]
      rw [hjoin, Path.ofText_eq, Path.ofText_eq, Path.startsWith_append hempty, hboth, hdirectory]
      split <;> rfl
    · have hjoin : joinPath directory name = directory ++ ("/" ++ name) := by
        rw [joinPath, hisEmpty, Bool.false_or, if_neg hend, ← String.append_assoc]
        rfl
      have hboth : Path.steps (directory ++ ("/" ++ name)).toList =
          Path.steps directory.toList ++ [name] := by
        have htext : (directory ++ ("/" ++ name)).toList = directory.toList ++ '/' :: name.toList := by
          simp
        rw [htext, Path.steps_append, hsteps]
      rw [hjoin, Path.ofText_eq, Path.ofText_eq, Path.startsWith_append hempty, hboth]
      split <;> rfl

namespace KeyFiles

open Session (Ends)

variable {d : Desk} {fs : Files} {directory path : String} {force : Bool} {pair : KeyPair} {p : Path}
  {content : Bytes}

/-! ## The secret key -/

/-- A file that is removed is gone or, if that is refused, as it was. -/
theorem removeOld_ends (h : d.files.Rooted) :
    (removeOld p).Ends d
      (fun _ fs => d.files.Touches p fs ∧ (fs.node? p = d.files.node? p ∨ fs.node? p = none) ∧
        fs.trouble = d.files.trouble.drop 1)
      (fun fs => d.files.Touches p fs ∧ fs.node? p = d.files.node? p) := by
  refine (Session.ends_files (Disk.remove p)).bind fun result d' hrun => ?_
  have htrouble := Disk.trouble_change hrun
  have hrefused {e : FileFault} (he : result = .error e) :
      d.files.Touches p d'.files ∧ d'.files.node? p = d.files.node? p := by
    subst he
    have hnodes := Disk.nodes_of_change_error hrun
    exact ⟨h.touches_of_nodes hnodes p, Files.node?_congr hnodes p⟩
  split
  · obtain ⟨htouches, hgone⟩ := Disk.remove_ok h hrun
    exact Session.ends_pure ⟨htouches, .inr hgone, htrouble⟩
  · obtain ⟨htouches, hsame⟩ := hrefused rfl
    exact Session.ends_pure ⟨htouches, .inl hsame, htrouble⟩
  · exact Session.ends_complain (hrefused rfl)

/-- The file of a secret key is new, and has a beginning of the key: all of it, unless the disk refuses
that. If the work ends early, the file is as it was, gone, or a new one with a beginning of the key. -/
theorem writeSecret_ends (h : d.files.Rooted) :
    (writeSecret path content).Ends d
      (fun _ fs => d.files.Touches (.ofText path) fs ∧
        ∃ n, fs.node? (.ofText path) = some (.file (content.take n) true) ∧
          (¬ Disk.Refuses d.files 2 → content.take n = content))
      (fun fs => d.files.Touches (.ofText path) fs ∧
        (fs.node? (.ofText path) = d.files.node? (.ofText path) ∨ fs.node? (.ofText path) = none ∨
          ∃ n, fs.node? (.ofText path) = some (.file (content.take n) true))) := by
  refine ((removeOld_ends h).imp (fun _ _ h => h) fun _ hkept => ⟨hkept.1, .inl hkept.2⟩).bind
    fun _ d₁ ⟨h₁, hnode₁, htrouble₁⟩ => ?_
  refine Ends.bind (Ends.because (Session.ends_disk (Q := fun _ fs =>
    d.files.Touches (.ofText path) fs ∧ fs.node? (.ofText path) = some (.file [] true) ∧
      fs.trouble = d.files.trouble.drop 2)
    (fun _ fs hrun => ?_) fun e fs hrun => ?_) _) fun _ d₂ ⟨h₂, hnode₂, htrouble₂⟩ => ?_
  · obtain ⟨htouches, hnode⟩ := Disk.openNewPrivate_ok h₁.rooted hrun
    refine ⟨h₁.trans htouches, hnode, ?_⟩
    rw [Disk.trouble_change hrun, htrouble₁, List.drop_drop]
  · have hnodes := Disk.nodes_of_change_error hrun
    refine ⟨h₁.congr hnodes, ?_⟩
    rw [Files.node?_congr hnodes]
    exact hnode₁.imp_right .inl
  refine Ends.bind (Session.ends_disk (Q := fun _ fs => d.files.Touches (.ofText path) fs ∧
      ∃ n, fs.node? (.ofText path) = some (.file (content.take n) true) ∧
        (¬ Disk.Refuses d.files 2 → content.take n = content))
    (fun _ fs hrun => ?_) fun e fs hrun => ?_) fun _ d₃ ⟨h₃, n, hnode₃, hwhole⟩ => ?_
  · obtain ⟨htouches, n, hnode, hwhole⟩ := Disk.handOver_ok h₂.rooted hnode₂ hrun
    exact ⟨h₂.trans htouches, n, hnode, fun hnot => hwhole (mt (Disk.refuses_of_drop htrouble₂).mp hnot)⟩
  · -- What is handed over is not refused then.
    cases congrArg Prod.fst hrun
  refine Session.ends_disk (fun _ fs hrun => ?_) fun e fs hrun => ?_
  · have hnodes := Disk.nodes_of_sync_ok hrun
    exact ⟨h₃.congr hnodes, n, (Files.node?_congr hnodes _).trans hnode₃, hwhole⟩
  · have hnodes := Disk.nodes_of_change_error hrun
    exact ⟨h₃.congr hnodes, .inr (.inr ⟨n, (Files.node?_congr hnodes _).trans hnode₃⟩)⟩

/-! ## Key files that are there -/

/-- Is there something at a path, as far as one can see? -/
def there (fs : Files) (p : Path) : Bool := (fs.isThere p).toOption.getD false

theorem node?_of_there (h : there fs p = true) : fs.node? p ≠ none := by
  intro hnone
  rw [there, Files.isThere] at h
  cases hx : fs.resolve p with
  | error e => cases e <;> simp [hx, Except.toOption] at h
  | ok x =>
    obtain rfl : none = x := hnone.symm.trans (Files.node?_of_resolve hx)
    simp [hx, Except.toOption] at h

theorem run_isThere (p : Path) (d : Desk) : (isThere p).run d = (.ok (there d.files p), d) := by
  have hlook : (Session.atDesk (Desk.onFiles (Disk.isThere p))).run d =
      (.ok (d.files.isThere p), d) := rfl
  rw [isThere, run_bind, hlook, there]
  cases d.files.isThere p <;> rfl

theorem run_guard (directory : String) (force : Bool) (d : Desk) :
    (guard directory force).run d =
      if !force && (there d.files (.ofText (joinPath directory publicKeyFile)) ||
          there d.files (.ofText (joinPath directory secretKeyFile))) then
        (.error ⟨s!"Key files already exist in {directory} (use --force to overwrite)", []⟩, d)
      else (.ok (), d) := by
  cases force with
  | true => rfl
  | false =>
    rw [guard, if_neg Bool.false_ne_true]
    simp only [run_bind, run_isThere, Bool.not_false, Bool.true_and]
    split <;> rfl

/-! ## Both keys -/

/-- Where the public key is written. -/
def publicPath (directory : String) : Path := Path.ofText directory ++ [publicKeyFile]

/-- Where the secret key is written. -/
def secretPath (directory : String) : Path := Path.ofText directory ++ [secretKeyFile]

theorem ofText_public (directory : String) :
    Path.ofText (joinPath directory publicKeyFile) = publicPath directory :=
  ofText_joinPath directory (by decide) (by decide) (by decide)

theorem ofText_secret (directory : String) :
    Path.ofText (joinPath directory secretKeyFile) = secretPath directory :=
  ofText_joinPath directory (by decide) (by decide) (by decide)

theorem publicPath_ne_secretPath (directory : String) :
    publicPath directory ≠ secretPath directory := by
  intro h
  have hname : [publicKeyFile] = [secretKeyFile] := List.append_cancel_left h
  exact absurd hname (by decide)

/-- A pair that may not be replaced is kept, and nothing is changed. -/
theorem guard_ends (directory : String) (force : Bool) (d : Desk) :
    (guard directory force).Ends d (fun _ fs => fs = d.files) fun fs =>
      fs = d.files ∧ force = false ∧
        (d.files.node? (publicPath directory) ≠ none ∨
          d.files.node? (secretPath directory) ≠ none) := by
  have hrun := run_guard directory force d
  rw [ofText_public, ofText_secret] at hrun
  split at hrun <;> rw [Ends, hrun]
  next hblocked =>
    rw [Bool.and_eq_true, Bool.not_eq_true', Bool.or_eq_true] at hblocked
    exact ⟨rfl, hblocked.1, hblocked.2.imp node?_of_there node?_of_there⟩

/-- What the file of the public key holds. -/
def publicText (pair : KeyPair) : Bytes := Text.utf8 pair.publicKey.toHex

/-- What the file of the secret key holds. -/
def secretText (pair : KeyPair) : Bytes := Text.utf8 pair.secretKey.toHex

/-- Does the file of the public key hold it? -/
structure HoldsPublic (pair : KeyPair) (directory : String) (fs : Files) : Prop where
  rooted : fs.Rooted
  publicKey : ∃ ownerOnly, fs.node? (publicPath directory) = some (.file (publicText pair) ownerOnly)

/-- Do both files hold their keys? -/
structure Complete (pair : KeyPair) (directory : String) (fs : Files) : Prop
    extends HoldsPublic pair directory fs where
  secretKey : fs.node? (secretPath directory) = some (.file (secretText pair) true)

/-- Does the disk refuse the content of the secret key? Before it the directories are made, the file of
the public key is opened and written, the old secret key is removed, and its new file is opened. -/
def RefusesSecret (fs : Files) : Prop := Disk.Refuses fs 5

/-- What is at both paths after work that went through: the public key, and the secret one as far as the
disk took it. -/
structure Written (pair : KeyPair) (directory : String) (before after : Files) : Prop
    extends HoldsPublic pair directory after where
  secretKey : ∃ n, after.node? (secretPath directory) =
      some (.file ((secretText pair).take n) true) ∧
    (¬ RefusesSecret before → (secretText pair).take n = secretText pair)

theorem Written.complete {before after : Files} (h : Written pair directory before after)
    (htakes : ¬ RefusesSecret before) : Complete pair directory after := by
  obtain ⟨n, hnode, hwhole⟩ := h.secretKey
  rw [hwhole htakes] at hnode
  exact { h with secretKey := hnode }

/-- What may be at both paths after work that ended early. -/
inductive Broken (pair : KeyPair) (directory : String) (before after : Files) : Prop where
  /-- The file of the public key was not opened. -/
  | untouched (publicKey : after.node? (publicPath directory) = before.node? (publicPath directory))
      (secretKey : after.node? (secretPath directory) = before.node? (secretPath directory))
  /-- A beginning of the public key was written, or all of it, and the old secret key is still there. -/
  | replaced {n : Nat} {ownerOnly : Bool}
      (publicKey : after.node? (publicPath directory) =
        some (.file ((publicText pair).take n) ownerOnly))
      (secretKey : after.node? (secretPath directory) = before.node? (secretPath directory))
  /-- The public key was written, and the old secret key was removed. -/
  | removed {ownerOnly : Bool}
      (publicKey : after.node? (publicPath directory) = some (.file (publicText pair) ownerOnly))
      (secretKey : after.node? (secretPath directory) = none)
  /-- The public key was written, and a beginning of the secret key in a new file. -/
  | begun {ownerOnly : Bool} {n : Nat}
      (publicKey : after.node? (publicPath directory) = some (.file (publicText pair) ownerOnly))
      (secretKey : after.node? (secretPath directory) =
        some (.file ((secretText pair).take n) true))

/-- What keeps a calm disk from writing the public key. -/
inductive Hindered (fs : Files) (directory : String) (force : Bool) : Prop where
  | kept (notForced : force = false)
      (there : fs.node? (publicPath directory) ≠ none ∨ fs.node? (secretPath directory) ≠ none)
  | obstructed (file : fs.Obstructed (.ofText directory))
  | occupied (publicKey : fs.node? (publicPath directory) = some .directory)

/-- Each step leaves one of the states that are allowed. -/
theorem write_ends (h : d.files.Rooted) (directory : String) (force : Bool) (pair : KeyPair) :
    (write directory force pair).Ends d (fun _ fs => Written pair directory d.files fs)
      (Broken pair directory d.files) := by
  have hguard : (guard directory force).Ends d (fun _ fs => fs = d.files)
      (Broken pair directory d.files) :=
    (guard_ends directory force d).imp (fun _ _ h => h) fun _ hkept =>
      .untouched (by rw [hkept.1]) (by rw [hkept.1])
  rw [write, ofText_public]
  refine hguard.bind fun _ d₀ h₀ => ?_
  -- The directories are made; the files are where they were.
  refine Ends.bind (Session.ends_disk (Q := fun _ fs => fs.Rooted ∧
      fs.node? (publicPath directory) = d.files.node? (publicPath directory) ∧
      fs.node? (secretPath directory) = d.files.node? (secretPath directory) ∧
      fs.trouble = d.files.trouble.drop 1)
    (fun _ fs hrun => ?_) fun e fs hrun => ?_) fun _ d₁ ⟨h₁, hpublic₁, hsecret₁, htrouble₁⟩ => ?_
  · rw [h₀] at hrun
    obtain ⟨hrooted, -, helse⟩ := Disk.makeDirectories_ok h hrun
    exact ⟨hrooted, helse _ (Files.not_prefix_concat _ _), helse _ (Files.not_prefix_concat _ _),
      Disk.trouble_change hrun⟩
  · rw [h₀] at hrun
    have hnodes := Disk.nodes_of_change_error hrun
    exact .untouched (Files.node?_congr hnodes _) (Files.node?_congr hnodes _)
  have hne : secretPath directory ≠ publicPath directory := (publicPath_ne_secretPath directory).symm
  -- The public key is written.
  refine Ends.bind (Session.ends_disk (Q := fun _ fs => HoldsPublic pair directory fs ∧
      fs.node? (secretPath directory) = d.files.node? (secretPath directory) ∧
      fs.trouble = d.files.trouble.drop 3)
    (fun _ fs hrun => ?_) fun e fs hrun => ?_)
    fun _ d₂ ⟨⟨h₂, ownerOnly, hpublic₂⟩, hsecret₂, htrouble₂⟩ => ?_
  · obtain ⟨htouches, hnode⟩ := Disk.write_ok h₁ hrun
    refine ⟨⟨htouches.rooted, hnode⟩, (htouches.elsewhere _ hne).trans hsecret₁, ?_⟩
    rw [Disk.trouble_write hrun, htrouble₁, List.drop_drop]
  · obtain ⟨htouches, hnode⟩ := Disk.write_error h₁ hrun
    have hsecret := (htouches.elsewhere _ hne).trans hsecret₁
    rcases hnode with hsame | ⟨n, ownerOnly, hnode⟩
    · exact .untouched (hsame.trans hpublic₁) hsecret
    · exact .replaced hnode hsecret
  -- The secret key is written, and that leaves the public key alone.
  refine (writeSecret_ends h₂).imp (fun _ fs ⟨htouches, hnode⟩ => ?_) fun fs ⟨htouches, hnode⟩ => ?_
  all_goals
    rw [ofText_secret] at htouches hnode
    have hpublic := (htouches.elsewhere _ hne.symm).trans hpublic₂
  · obtain ⟨n, hnode, hwhole⟩ := hnode
    exact ⟨⟨htouches.rooted, ownerOnly, hpublic⟩, n, hnode,
      fun hnot => hwhole (mt (Disk.refuses_of_drop htrouble₂).mp hnot)⟩
  · rcases hnode with hsame | hgone | ⟨n, hnode⟩
    · rw [← List.take_length (l := publicText pair)] at hpublic
      exact .replaced hpublic (hsame.trans hsecret₂)
    · exact .removed hpublic hgone
    · exact .begun hpublic hnode

/-! ## Calm disks -/

theorem removeOld_ends_of_calm (h : d.files.Rooted) (hcalm : Disk.Calm d.files) {x : Option Node}
    (hx : d.files.resolve p = .ok x) (hdirectory : x ≠ some .directory) :
    (removeOld p).Ends d
      (fun _ fs => d.files.Touches p fs ∧ fs.node? p = none ∧ Disk.Calm fs) fun _ => False := by
  refine (Session.ends_files (Disk.remove p)).bind fun result d' hrun => ?_
  rcases Disk.remove_of_calm hx hdirectory hcalm with ⟨fs, hok, hcalm'⟩ | ⟨rfl, fs, herror, hcalm'⟩
  · obtain ⟨rfl, hfiles⟩ := Prod.mk.inj (hrun.symm.trans hok)
    obtain ⟨htouches, hgone⟩ := Disk.remove_ok h hrun
    exact Session.ends_pure ⟨htouches, hgone, hfiles ▸ hcalm'⟩
  · obtain ⟨rfl, hfiles⟩ := Prod.mk.inj (hrun.symm.trans herror)
    have hnodes := Disk.nodes_of_change_error hrun
    have hnone := Files.node?_of_resolve hx
    refine Session.ends_pure ⟨h.touches_of_nodes hnodes p, ?_, hfiles ▸ hcalm'⟩
    exact (Files.node?_congr hnodes p).trans hnone

theorem writeSecret_ends_of_calm (h : d.files.Rooted) (hcalm : Disk.Calm d.files) {front : Path}
    {name : String} (hpath : Path.ofText path = front ++ [name])
    (hfront : d.files.node? front = some .directory)
    (hnode : d.files.node? (front ++ [name]) ≠ some .directory) :
    (writeSecret path content).Ends d (fun _ _ => True) fun _ => False := by
  rw [writeSecret, hpath]
  have hx := h.resolve_child hfront name
  refine (removeOld_ends_of_calm h hcalm hx hnode).bind fun _ d₁ ⟨h₁, hgone, hcalm₁⟩ => ?_
  have hfront₁ : d₁.files.node? front = some .directory := by
    rw [h₁.elsewhere front (by simp), hfront]
  have hx₁ := h₁.rooted.resolve_child hfront₁ name
  rw [hgone] at hx₁
  obtain ⟨fs₂, hopen, hcalm₂⟩ := Disk.openNewPrivate_of_calm hx₁ hcalm₁
  have hopened : (Session.disk (Disk.openNewPrivate (front ++ [name]))).Ends d₁
      (fun _ fs => Disk.Calm fs) fun _ => False := Session.ends_disk_of_ok hopen hcalm₂
  refine (hopened.because _).bind fun _ d₂ hcalm₂ => ?_
  obtain ⟨fs₃, hhand, hcalm₃⟩ := Disk.handOver_of_calm hcalm₂ (front ++ [name]) content
  have hhanded : (Session.disk (Disk.handOver (front ++ [name]) content)).Ends d₂
      (fun _ fs => Disk.Calm fs) fun _ => False := Session.ends_disk_of_ok hhand hcalm₃
  refine hhanded.bind fun _ d₃ hcalm₃ => ?_
  obtain ⟨fs₄, hsync, -⟩ := Disk.sync_of_calm hcalm₃
  exact Session.ends_disk_of_ok hsync trivial

/-- On a calm disk it is all or nothing, unless the secret key has the name of a directory. -/
theorem write_ends_of_calm (h : d.files.Rooted) (directory : String) (force : Bool)
    (pair : KeyPair) (hcalm : Disk.Calm d.files)
    (hsecret : d.files.node? (secretPath directory) ≠ some .directory) :
    (write directory force pair).Ends d (fun _ _ => True) fun fs =>
      Hindered d.files directory force ∧
        fs.node? (publicPath directory) = d.files.node? (publicPath directory) ∧
        fs.node? (secretPath directory) = d.files.node? (secretPath directory) := by
  rw [write, ofText_public]
  refine ((guard_ends directory force d).imp (fun _ _ h => h)
    fun fs ⟨hsame, hforce, hthere⟩ => ⟨.kept hforce hthere, by rw [hsame], by rw [hsame]⟩).bind
    fun _ d₀ h₀ => ?_
  rw [← h₀] at h hcalm hsecret ⊢
  -- The directories are made.
  rcases Disk.makeDirectories_of_calm hcalm (.ofText directory) with
    ⟨fs₁, hmake, hcalm₁⟩ | ⟨hfile, e, fs₁, hmake, hnodes⟩
  swap
  · refine Ends.bind (Q := fun _ _ => False) (Session.ends_disk_of_error hmake ?_)
      fun _ _ hfalse => hfalse.elim
    exact ⟨.obstructed hfile, Files.node?_congr hnodes _, Files.node?_congr hnodes _⟩
  obtain ⟨hrooted₁, hdirectory₁, helse₁⟩ := Disk.makeDirectories_ok h hmake
  have hpublic₁ := helse₁ (publicPath directory) (Files.not_prefix_concat _ _)
  have hsecret₁ := helse₁ (secretPath directory) (Files.not_prefix_concat _ _)
  refine Ends.bind (Session.ends_disk_of_ok (Q := fun _ fs => fs = fs₁) hmake rfl) fun _ d₁ h₁ => ?_
  rw [← h₁] at hcalm₁ hrooted₁ hdirectory₁ hpublic₁ hsecret₁
  -- The public key is written into the directory.
  have hx₁ := hrooted₁.resolve_child hdirectory₁ publicKeyFile
  rcases Disk.write_of_calm hx₁ hcalm₁ (publicText pair) with
    ⟨fs₂, hwrite, hcalm₂⟩ | ⟨hdirectory, e, fs₂, hwrite, hnodes⟩
  swap
  · refine Ends.bind (Q := fun _ _ => False) (Session.ends_disk_of_error hwrite ?_)
      fun _ _ hfalse => hfalse.elim
    exact ⟨.occupied (hpublic₁.symm.trans hdirectory), (Files.node?_congr hnodes _).trans hpublic₁,
      (Files.node?_congr hnodes _).trans hsecret₁⟩
  obtain ⟨htouches₂, -⟩ := Disk.write_ok hrooted₁ hwrite
  refine Ends.bind (Session.ends_disk_of_ok (Q := fun _ fs => fs = fs₂) hwrite rfl)
    fun _ d₂ h₂ => ?_
  rw [← h₂] at htouches₂ hcalm₂
  -- The directory and the old secret key are as they were, so the secret key can be written.
  have hdirectory₂ := (htouches₂.elsewhere (.ofText directory) (by simp)).trans hdirectory₁
  have hsecret₂ := (htouches₂.elsewhere (secretPath directory)
    (publicPath_ne_secretPath directory).symm).trans hsecret₁
  refine (writeSecret_ends_of_calm htouches₂.rooted hcalm₂ (ofText_secret directory) hdirectory₂
    (hsecret₂.symm ▸ hsecret)).imp (fun _ _ h => h) fun _ hfalse => hfalse.elim

/-! ## Reading back -/

theorem run_readPublic (h : HoldsPublic pair directory d.files) :
    (readPublic (joinPath directory publicKeyFile)).run d = (.ok pair.publicKey, d) := by
  obtain ⟨ownerOnly, hnode⟩ := h.publicKey
  have htext : (Disk.readText (publicPath directory)).run d.files =
      (.ok pair.publicKey.toHex, d.files) := Disk.run_readText (h.rooted.resolve_eq hnode)
  have htrim : Text.trim pair.publicKey.toHex = pair.publicKey.toHex := Hex.trim_encode _
  rw [readPublic, run_bind, Session.run_because, ofText_public, Session.run_disk, htext]
  dsimp only
  rw [htrim, PublicKey.ofHex_toHex]
  rfl

theorem run_readSecret (h : Complete pair directory d.files) :
    (Disk.readText (secretPath directory)).run d.files = (.ok pair.secretKey.toHex, d.files) :=
  Disk.run_readText (h.rooted.resolve_eq h.secretKey)

/-! ## Outcomes -/

/-- What is there is not replaced unless that is asked for, and then nothing is done. -/
theorem run_write_of_there (h : d.files.Rooted) (directory : String) (pair : KeyPair)
    (hthere : d.files.node? (publicPath directory) ≠ none ∨
      d.files.node? (secretPath directory) ≠ none) :
    ∃ c, (write directory false pair).run d = (.error c, d) := by
  have hfound {p : Path} (hp : d.files.node? p ≠ none) : there d.files p = true := by
    obtain ⟨n, hn⟩ := Option.ne_none_iff_exists'.mp hp
    rw [there, Files.isThere, h.resolve_eq hn]
    rfl
  have hsome : (there d.files (publicPath directory) || there d.files (secretPath directory)) = true :=
    (Bool.or_eq_true _ _).mpr (hthere.imp hfound hfound)
  rw [write, run_bind, run_guard, ofText_public, ofText_secret, hsome]
  exact ⟨_, rfl⟩

/-- Work that goes through leaves the public key, to be read back, and the secret key as well if the disk
does not refuse its content. Work that ends early leaves one of the states that are allowed. It ends at
once if there are key files that it may not replace. On a calm disk, where the secret key has not the
name of a directory, it goes through with both keys or changes neither file. -/
theorem complete_or_broken (h : d.files.Rooted) (directory : String) (force : Bool)
    (pair : KeyPair) :
    (match (write directory force pair).run d with
      | (.ok (), d') =>
        HoldsPublic pair directory d'.files ∧
          (readPublic (joinPath directory publicKeyFile)).run d' = (.ok pair.publicKey, d') ∧
          (¬ RefusesSecret d.files → Complete pair directory d'.files ∧
            ∃ text, (Disk.readText (.ofText (joinPath directory secretKeyFile))).run d'.files =
              (.ok text, d'.files) ∧ SecretKey.ofHex text = .ok pair.secretKey)
      | (.error _, d') => Broken pair directory d.files d'.files) ∧
    (force = false →
      d.files.node? (publicPath directory) ≠ none ∨ d.files.node? (secretPath directory) ≠ none →
      ∃ c, (write directory force pair).run d = (.error c, d)) ∧
    (Disk.Calm d.files → d.files.node? (secretPath directory) ≠ some .directory →
      (∃ d', (write directory force pair).run d = (.ok (), d') ∧ Complete pair directory d'.files) ∨
        Hindered d.files directory force ∧
          ∃ c d', (write directory force pair).run d = (.error c, d') ∧
            d'.files.node? (publicPath directory) = d.files.node? (publicPath directory) ∧
            d'.files.node? (secretPath directory) = d.files.node? (secretPath directory)) := by
  have hends := write_ends h directory force pair
  refine ⟨?_, ?_, fun hcalm hsecret => ?_⟩
  · unfold Ends at hends
    cases hrun : (write directory force pair).run d with
    | mk result d' =>
      rw [hrun] at hends
      cases result with
      | error c => exact hends
      | ok _ =>
        rw [ofText_secret]
        refine ⟨hends.toHoldsPublic, run_readPublic hends.toHoldsPublic, fun htakes => ?_⟩
        have hboth := hends.complete htakes
        exact ⟨hboth, _, run_readSecret hboth, SecretKey.ofHex_toHex _⟩
  · rintro rfl hthere
    exact run_write_of_there h directory pair hthere
  · have hcalmly := write_ends_of_calm h directory force pair hcalm hsecret
    unfold Ends at hends hcalmly
    cases hrun : (write directory force pair).run d with
    | mk result d' =>
      rw [hrun] at hends hcalmly
      cases result with
      | error c => exact .inr ⟨hcalmly.1, c, d', rfl, hcalmly.2⟩
      | ok _ => exact .inl ⟨d', rfl, hends.complete (hcalm.not_refuses 5)⟩

/-- A directory with an old key pair. -/
def oldPair : Files :=
  { nodes := [(["keys"], .directory), (["keys", "matcher.pub"], .file [112] false),
      (["keys", "matcher.key"], .file [115] true)] }

theorem ofText_keys : Path.ofText "keys" = ["keys"] := by decide +kernel

theorem publicPath_keys : publicPath "keys" = ["keys", "matcher.pub"] := by
  rw [publicPath, ofText_keys]
  rfl

theorem secretPath_keys : secretPath "keys" = ["keys", "matcher.key"] := by
  rw [secretPath, ofText_keys]
  rfl

/-- With force the old pair is replaced, without it nothing is done. -/
theorem complete_or_broken_oldPair :
    (∃ d', (write "keys" true (.filled 1)).run { files := oldPair } = (.ok (), d') ∧
      Complete (.filled 1) "keys" d'.files) ∧
    ∃ c, (write "keys" false (.filled 1)).run { files := oldPair } =
      (.error c, { files := oldPair }) := by
  have hrooted : oldPair.Rooted := Files.rooted_of_nodes (by decide)
  obtain ⟨-, -, hcalm⟩ :=
    complete_or_broken (d := { files := oldPair }) hrooted "keys" true (.filled 1)
  obtain ⟨-, hblocked, -⟩ :=
    complete_or_broken (d := { files := oldPair }) hrooted "keys" false (.filled 1)
  rw [publicPath_keys, secretPath_keys] at hblocked
  have hsecret : oldPair.node? (secretPath "keys") ≠ some .directory := by
    rw [secretPath_keys]
    decide
  have hfree : ¬ Hindered oldPair "keys" true := by
    rintro (⟨hforce, -⟩ | ⟨q, hq, content, ownerOnly, hfile⟩ | hpublic)
    · cases hforce
    · rw [ofText_keys] at hq
      rcases List.prefix_cons_iff.mp hq with rfl | ⟨r, rfl, hr⟩
      · cases hfile
      · rw [List.prefix_nil.mp hr] at hfile
        cases hfile
    · rw [publicPath_keys] at hpublic
      cases hpublic
  constructor
  · exact (hcalm nofun hsecret).resolve_right fun hhindered => hfree hhindered.1
  · exact hblocked rfl (.inl (by decide))

/-- A directory in which there is nothing but a directory of the name of the secret key. -/
def occupied : Files :=
  { nodes := [(["keys"], .directory), (["keys", "matcher.key"], .directory)] }

theorem run_write_occupied (pair : KeyPair) :
    (write "keys" true pair).run { files := occupied } =
      (.error { message := FileFault.isDirectory.message },
        { files := { nodes :=
          (["keys", "matcher.pub"], .file (publicText pair) false) :: occupied.nodes } }) := by
  rw [write, writeSecret, ofText_keys, ofText_public, ofText_secret, publicPath_keys, secretPath_keys]
  rfl

/-- The secret key is refused when the public key has been written. -/
theorem public_key_left :
    ∃ c d', (write "keys" true (.filled 1)).run { files := occupied } = (.error c, d') ∧
      occupied.node? (publicPath "keys") = none ∧
      d'.files.node? (publicPath "keys") = some (.file (publicText (.filled 1)) false) := by
  refine ⟨_, _, run_write_occupied (.filled 1), ?_, ?_⟩ <;> rw [publicPath_keys]
  · decide
  · rfl

/-- A disk that lets a few operations pass, and takes of the content that comes then only the first
bytes. -/
def passing (count : Nat) (e : FileFault) (n : Nat) (nodes : List (Path × Node)) : Files :=
  { nodes, trouble := List.replicate count none ++ [some e], torn := [n] }

/-- The old key pair on a disk that refuses the content of the secret key. -/
def refusing (e : FileFault) (n : Nat) : Files := passing 5 e n oldPair.nodes

/-- The directory with the new public key, and no secret one. -/
def publicAlone (pair : KeyPair) : List (Path × Node) :=
  [(["keys", "matcher.pub"], .file (publicText pair) false), (["keys"], .directory)]

theorem run_write_refusing (pair : KeyPair) (e : FileFault) (n : Nat) :
    (write "keys" true pair).run { files := refusing e n } =
      (.ok (), { files := { nodes :=
        (["keys", "matcher.key"], .file ((secretText pair).take n) true) :: publicAlone pair } }) := by
  let stage (count : Nat) (nodes : List (Path × Node)) : Desk := { files := passing count e n nodes }
  let withOld : List (Path × Node) :=
    publicAlone pair ++ [(["keys", "matcher.key"], .file [115] true)]
  let withEmpty : List (Path × Node) := (["keys", "matcher.key"], .file [] true) :: publicAlone pair
  have hguarded : (guard "keys" true).run (stage 5 oldPair.nodes) = (.ok (), stage 5 oldPair.nodes) :=
    rfl
  have hmade : (Session.disk (Disk.makeDirectories ["keys"])).run (stage 5 oldPair.nodes) =
      (.ok (), stage 4 oldPair.nodes) := rfl
  have hwritten : (Session.disk (Disk.write ["keys", "matcher.pub"] (publicText pair))).run
      (stage 4 oldPair.nodes) = (.ok (), stage 2 withOld) := rfl
  have hremoved : (removeOld ["keys", "matcher.key"]).run (stage 2 withOld) =
      (.ok (), stage 1 (publicAlone pair)) := rfl
  have hopened : (Session.disk (Disk.openNewPrivate ["keys", "matcher.key"])).run
      (stage 1 (publicAlone pair)) = (.ok (), stage 0 withEmpty) := rfl
  have hhanded : (Session.disk (Disk.handOver ["keys", "matcher.key"] (secretText pair))).run
      (stage 0 withEmpty) = (.ok (), { files := { nodes :=
        (["keys", "matcher.key"], .file ((secretText pair).take n) true) :: publicAlone pair } }) := rfl
  have hstart : ({ files := refusing e n } : Desk) = stage 5 oldPair.nodes := rfl
  rw [write, writeSecret, hstart, ofText_keys, ofText_public, ofText_secret, publicPath_keys,
    secretPath_keys, ← publicText, ← secretText]
  simp only [run_bind, Session.run_because, hguarded, hmade, hwritten, hremoved, hopened, hhanded]
  rfl

/-- The work goes through there, with a beginning of the secret key that may be of any length. -/
theorem secret_cut_short (pair : KeyPair) (e : FileFault) (n : Nat) :
    RefusesSecret (refusing e n) ∧
      ∃ d', (write "keys" true pair).run { files := refusing e n } = (.ok (), d') ∧
        d'.files.node? (secretPath "keys") = some (.file ((secretText pair).take n) true) := by
  refine ⟨⟨e, rfl⟩, _, run_write_refusing pair e n, ?_⟩
  rw [secretPath_keys]
  rfl

end KeyFiles

end CommandLine

end AddressExchange
