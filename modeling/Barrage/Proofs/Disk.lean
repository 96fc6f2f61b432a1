import Barrage.Export.Disk
import Barrage.Proofs.Build
import Mathlib.Tactic.SplitIfs

/-!
# Files on a disk

A disk is known by its four operations, which may fail for reasons of their own.
`Disk.Lawful` says what they do to the files that paths lead to.  An operation that fails
does not change the file that it was to replace.  What is written under the temporary
path of a path is kept aside: it does not show at the path before it is renamed.

A directory keeps these laws (`Directory.lawful`).  Two facts are behind that.  A path is
followed through folders only, and no operation makes or removes a folder, so a path
leads to the same place all the time (`Directory.SameFolders.leadsTo`).  And the
temporary path of a path ends in another name, so it leads to another place
(`Directory.leadsTo_temporary`).
-/

namespace Barrage

/-- What the operations of a disk do to the files at paths.  There may be no file at a
path. -/
structure Disk.Lawful {σ : Type} (disk : Disk (StateM σ)) (file : σ → String → Option String) :
    Prop where
  /-- Reading changes no file. -/
  read (path other : String) (s : σ) : file (disk.read path s).2 other = file s other
  /-- A text that was written is there. -/
  write_ok {path text : String} {s s' : σ} (h : disk.write path text s = (.ok (), s')) :
    file s' path = some text
  /-- Writing under the temporary path, with success or not, does not change the file. -/
  write_aside (path text : String) (s : σ) :
    file (disk.write (Path.temporary path) text s).2 path = file s path
  /-- A file that was renamed is at its new path. -/
  rename_ok {source target : String} {s s' : σ}
    (h : disk.rename source target s = (.ok (), s')) : file s' target = file s source
  /-- A renaming that fails does not change the file that was to be replaced. -/
  rename_error {source target : String} {e : DiskError} {s s' : σ}
    (h : disk.rename source target s = (.error e, s')) : file s' target = file s target
  /-- Removing the temporary file, with success or not, does not change the file. -/
  remove_aside (path : String) (s : σ) :
    file (disk.remove (Path.temporary path) s).2 path = file s path

/-! ## Temporary paths -/

namespace Path

theorem split_ne_nil (cs : List Char) : names.split cs ≠ [] := by
  cases cs with
  | nil => simp [names.split]
  | cons c cs =>
      rw [names.split]
      split
      · simp
      · split <;> simp

theorem split_append_slash (as bs : List Char) :
    names.split (as ++ '/' :: bs) = names.split as ++ names.split bs := by
  induction as with
  | nil => simp [names.split]
  | cons a as ih =>
      rw [List.cons_append, names.split, names.split, ih]
      by_cases ha : a = '/'
      · simp [ha]
      · rcases hparts : names.split as with _ | ⟨part, parts⟩
        · exact absurd hparts (split_ne_nil as)
        · simp [ha]

theorem split_of_notMem {cs : List Char} (h : '/' ∉ cs) : names.split cs = [String.ofList cs] := by
  induction cs with
  | nil => rfl
  | cons c cs ih =>
      rw [List.mem_cons, not_or] at h
      obtain ⟨hc, hcs⟩ := h
      rw [names.split, if_neg (Ne.symm hc), ih hcs]
      simp [Char.toString]

theorem slash_notMem_of_mem_split {cs : List Char} {name : String}
    (h : name ∈ names.split cs) : '/' ∉ name.toList := by
  induction cs generalizing name with
  | nil => simp_all [names.split]
  | cons c cs ih =>
      rw [names.split] at h
      split at h
      next =>
        rcases List.mem_cons.1 h with rfl | h
        · simp
        · exact ih h
      next hc =>
        rcases hparts : names.split cs with _ | ⟨part, parts⟩
        · exact absurd hparts (split_ne_nil cs)
        · rw [hparts] at h ih
          rcases List.mem_cons.1 h with rfl | h
          · have hpart := ih List.mem_cons_self
            simp [Char.toString, hpart, Ne.symm hc]
          · exact ih (List.mem_cons_of_mem _ h)

/-- A name that is put after a folder is the last name. -/
theorem getLast?_names_append (folder : String) {name : String} (h : '/' ∉ name.toList) :
    (names (append folder name)).getLast? = some name := by
  have hname : names.split name.toList = [name] := by simp [split_of_notMem h]
  unfold append names
  split
  next hfolder =>
    rcases hfolder with rfl | hslash
    · simp [hname]
    · obtain ⟨cs, hcs⟩ := List.getLast?_eq_some_iff.1 hslash
      rw [String.toList_append, hcs, List.append_assoc, List.singleton_append,
        split_append_slash, hname]
      simp
  next =>
    have hchars : (folder ++ "/" ++ name).toList = folder.toList ++ '/' :: name.toList := by simp
    rw [hchars, split_append_slash, hname]
    simp

/-- The path ends in a name that a file can have. -/
structure EndsIn (path name : String) : Prop where
  last : (names path).getLast? = some name
  ne_empty : name ≠ ""
  ne_dot : name ≠ "."
  ne_dots : name ≠ ".."

theorem EndsIn.split? {path name : String} (h : EndsIn path name) :
    ∃ folder, split? path = some (folder, name) := by
  have hbusy : ¬ isIdle name := by simp [isIdle, h.ne_empty, h.ne_dot]
  obtain ⟨front, hfront⟩ := List.getLast?_eq_some_iff.1 h.last
  unfold Path.split?
  cases front with
  | nil =>
      rw [hfront]
      exact ⟨"", by simp [trimEnd, hbusy, h.ne_dots]⟩
  | cons first front =>
      have htrim : trimEnd (front ++ [name]) = front ++ [name] := by
        simp [trimEnd, hbusy]
      rw [hfront, List.cons_append]
      simp [htrim, h.ne_dots]

theorem EndsIn.temporary {path name : String} (h : EndsIn path name) :
    (names (temporary path)).getLast? = some (name ++ ".tmp") := by
  obtain ⟨folder, hsplit⟩ := h.split?
  have hname : '/' ∉ name.toList := slash_notMem_of_mem_split (List.mem_of_getLast? h.last)
  rw [Path.temporary, hsplit]
  refine getLast?_names_append folder ?_
  simp [hname]

/-- The names without the empty ones at the end. -/
def bare (path : String) : List String := ((names path).reverse.dropWhile (· = "")).reverse

theorem bare_of_last {path name : String} (h : (names path).getLast? = some name)
    (hname : name ≠ "") : bare path = names path := by
  obtain ⟨front, hfront⟩ := List.getLast?_eq_some_iff.1 h
  simp [bare, hfront, hname]

theorem ne_empty_of_bare {path name : String} (h : (bare path).getLast? = some name) :
    name ≠ "" := by
  rintro rfl
  have hhead := List.head?_dropWhile_not (fun name : String => decide (name = ""))
    (names path).reverse
  rw [bare, List.getLast?_reverse] at h
  rw [h] at hhead
  simp at hhead

end Path

/-! ## Places of a directory -/

namespace Directory

variable {d d' : Directory} {place other : List String} {path text : String}

theorem lookup_filter_ne (h : other ≠ place) (entries : List (List String × Entry)) :
    (entries.filter fun e => e.1 ≠ place).lookup other = entries.lookup other := by
  induction entries with
  | nil => rfl
  | cons e entries ih =>
      obtain ⟨key, entry⟩ := e
      by_cases hkey : key = place
      · have hother : (other == key) = false := by simpa [hkey] using h
        rw [List.filter_cons_of_neg (by simpa using hkey), List.lookup_cons, hother, ih]
      · rw [List.filter_cons_of_pos (by simpa using hkey), List.lookup_cons, List.lookup_cons, ih]

theorem entry?_erase_of_ne (h : other ≠ place) : entry? (d.erase place) other = d.entry? other := by
  unfold entry? erase
  rw [lookup_filter_ne h]

theorem entry?_erase_self (h : place ≠ []) : entry? (d.erase place) place = none := by
  unfold entry?
  rw [if_neg h, List.lookup_eq_none_iff]
  intro e he
  have hne : e.1 ≠ place := by simpa using (List.mem_filter.1 he).2
  simpa using hne.symm

theorem entry?_put_self (h : place ≠ []) : entry? (d.put place text) place = some (.file text) := by
  unfold entry? put
  simp [h]

theorem entry?_put_of_ne (h : other ≠ place) :
    entry? (d.put place text) other = d.entry? other := by
  rw [← entry?_erase_of_ne (d := d) h]
  have hother : (other == place) = false := by simpa using h
  unfold entry? put
  rw [List.lookup_cons, hother]

/-- The top is a folder. -/
theorem ne_nil_of_not_folder (h : d.entry? place ≠ some .folder) : place ≠ [] := by
  rintro rfl
  exact h rfl

/-- Two directories have the same folders. -/
def SameFolders (d d' : Directory) : Prop :=
  ∀ place, d'.entry? place = some .folder ↔ d.entry? place = some .folder

theorem SameFolders.trans {d'' : Directory} (h : SameFolders d d') (h' : SameFolders d' d'') :
    SameFolders d d'' := fun place => (h' place).trans (h place)

/-- The folders stay if all changes at one place, where there is none before and after. -/
theorem sameFolders_of_place (h : d.entry? place ≠ some .folder)
    (h' : d'.entry? place ≠ some .folder)
    (hothers : ∀ other, other ≠ place → d'.entry? other = d.entry? other) : SameFolders d d' := by
  intro other
  by_cases hother : other = place
  · subst hother
    exact iff_of_false h' h
  · rw [hothers other hother]

theorem sameFolders_erase (h : d.entry? place ≠ some .folder) : SameFolders d (d.erase place) := by
  refine sameFolders_of_place h ?_ fun _ hother => entry?_erase_of_ne hother
  simp [entry?_erase_self (ne_nil_of_not_folder h)]

theorem sameFolders_put (h : d.entry? place ≠ some .folder) :
    SameFolders d (d.put place text) := by
  refine sameFolders_of_place h ?_ fun _ hother => entry?_put_of_ne hother
  simp [entry?_put_self (ne_nil_of_not_folder h)]

/-! ## Following paths -/

theorem enter_eq_ok {place' : List String} {name : String} :
    d.enter place name = .ok place' ↔
      if Path.isIdle name then place = place'
      else if name = ".." then place.dropLast = place'
      else ¬ 255 < name.utf8ByteSize ∧ d.entry? (place ++ [name]) = some .folder ∧
        place ++ [name] = place' := by
  unfold enter
  split_ifs with _ _ hsize
  · simp
  · simp
  · simp [hsize]
  · rcases d.entry? (place ++ [name]) with _ | _ | _ <;> simp [hsize]

theorem SameFolders.enter (h : SameFolders d d') {place' : List String} {name : String} :
    d'.enter place name = .ok place' ↔ d.enter place name = .ok place' := by
  rw [enter_eq_ok, enter_eq_ok, h]

theorem SameFolders.enters (h : SameFolders d d') {names : List String} {place' : List String} :
    names.foldlM d'.enter place = .ok place' ↔ names.foldlM d.enter place = .ok place' := by
  induction names generalizing place with
  | nil => rfl
  | cons name names ih =>
      simp only [List.foldlM_cons, Except.bind_eq_ok, h.enter, ih]

/-- What the text of a path alone says about the name of a file that it leads to. -/
structure Names (path name : String) (slash : Bool) : Prop where
  chars : ¬ path.toList.contains (Char.ofNat 0)
  nonempty : path ≠ ""
  size : ¬ 4095 < path.utf8ByteSize
  last : (Path.bare path).getLast? = some name
  ne_dot : name ≠ "."
  ne_dots : name ≠ ".."
  name_size : ¬ 255 < name.utf8ByteSize
  slash_eq : slash = decide ((Path.bare path).length < (Path.names path).length)

theorem follow_eq_ok {folder : List String} {name : String} {slash : Bool} :
    d.follow path = .ok ⟨folder, some name, slash⟩ ↔
      Names path name slash ∧ (Path.bare path).dropLast.foldlM d.enter [] = .ok folder := by
  have hbare : ((Path.names path).reverse.dropWhile (· = "")).reverse = Path.bare path := rfl
  unfold follow
  simp only [Except.guard_eq_ok, Except.bind_eq_ok, hbare]
  constructor
  · rintro ⟨hchars, hnonempty, hsize, folder', hfolder, hspot⟩
    split at hspot
    next => cases hspot
    next => cases hspot
    next => cases hspot
    next last hdot hdots hlast =>
      obtain ⟨hlong, hspot⟩ := Except.guard_eq_ok.1 hspot
      cases hspot
      exact ⟨⟨hchars, hnonempty, hsize, hlast, by simpa using hdot, by simpa using hdots, hlong,
        rfl⟩, hfolder⟩
  · rintro ⟨⟨hchars, hnonempty, hsize, hlast, hdot, hdots, hlong, rfl⟩, hfolder⟩
    refine ⟨hchars, hnonempty, hsize, folder, hfolder, ?_⟩
    rw [hlast]
    split
    next h => cases h
    next h =>
      cases h
      exact absurd rfl hdot
    next h =>
      cases h
      exact absurd rfl hdots
    next h =>
      cases h
      exact Except.guard_eq_ok.2 ⟨hlong, rfl⟩

/-- The path leads to the place, as the path of a file. -/
def LeadsTo (d : Directory) (path : String) (place : List String) : Prop :=
  ∃ folder name, d.follow path = .ok ⟨folder, some name, false⟩ ∧ place = folder ++ [name]

theorem SameFolders.leadsTo (h : SameFolders d d') :
    d'.LeadsTo path place ↔ d.LeadsTo path place := by
  simp only [LeadsTo, follow_eq_ok, h.enters]

/-- Without a slash at the end, no name was left out. -/
theorem Names.endsIn {name : String} (h : Names path name false) : Path.EndsIn path name := by
  have hbare : Path.bare path = Path.names path := by
    have hlength := h.slash_eq
    simp only [Bool.false_eq, decide_eq_false_iff_not, Nat.not_lt] at hlength
    have hsublist : (Path.bare path).Sublist (Path.names path) := by
      simpa [Path.bare] using (List.dropWhile_sublist (l := (Path.names path).reverse)
        fun name => decide (name = "")).reverse
    exact hsublist.eq_of_length_le hlength
  exact ⟨hbare ▸ h.last, Path.ne_empty_of_bare h.last, h.ne_dot, h.ne_dots⟩

/-- The temporary path of a path leads to another place. -/
theorem leadsTo_temporary (h : d.LeadsTo path place)
    (h' : d.LeadsTo (Path.temporary path) other) : place ≠ other := by
  obtain ⟨folder, name, hfollow, rfl⟩ := h
  obtain ⟨folder', name', hfollow', rfl⟩ := h'
  have hnames := (follow_eq_ok.1 hfollow).1
  have hlast := hnames.endsIn.temporary
  have hlonger : name.length < (name ++ ".tmp").length := by
    rw [String.length_append]
    exact Nat.lt_add_of_pos_right (by decide)
  -- Whatever the folder of the temporary path is, its last name is longer.
  have hname' : name' = name ++ ".tmp" := by
    have hnonempty : name ++ ".tmp" ≠ "" := by
      intro hempty
      simp [hempty] at hlonger
    have hlast' := (follow_eq_ok.1 hfollow').1.last
    rw [Path.bare_of_last hlast hnonempty, hlast] at hlast'
    exact (Option.some.inj hlast').symm
  intro heq
  have hsame : name = name' := by simpa using (List.append_inj' heq rfl).2
  rw [← hname', ← hsame] at hlonger
  exact Nat.lt_irrefl _ hlonger

/-! ## The operations of a directory -/

theorem readFile_eq_ok : d.readFile path = .ok text ↔
    ∃ place, d.LeadsTo path place ∧ d.entry? place = some (.file text) := by
  unfold readFile
  simp only [Except.bind_eq_ok]
  constructor
  · rintro ⟨⟨folder, _ | name, slash⟩, hfollow, h⟩
    · cases h
    · dsimp only at h
      split at h
      next => cases h
      next => cases h
      next hentry =>
        cases slash with
        | true => cases h
        | false =>
            cases h
            exact ⟨_, ⟨folder, name, hfollow, rfl⟩, hentry⟩
  · rintro ⟨_, ⟨folder, name, hfollow, rfl⟩, hentry⟩
    refine ⟨_, hfollow, ?_⟩
    simp [hentry]

theorem writeFile_eq_ok (h : d.writeFile path text = .ok d') :
    ∃ place, d.LeadsTo path place ∧ d.entry? place ≠ some .folder ∧ d' = d.put place text := by
  obtain ⟨⟨folder, _ | name, slash⟩, hfollow, h⟩ := Except.bind_eq_ok.1 h
  · cases h
  · dsimp only at h
    split at h
    next => cases h
    next => cases h
    next => cases h
    next hfolder =>
      cases h
      exact ⟨_, ⟨folder, name, hfollow, rfl⟩, hfolder, rfl⟩

theorem renameFile_eq_ok {source target : String} (h : d.renameFile source target = .ok d') :
    ∃ place other text, d.LeadsTo source place ∧ d.entry? place = some (.file text) ∧
      d.LeadsTo target other ∧ d.entry? other ≠ some .folder ∧
      d' = (d.erase place).put other text := by
  obtain ⟨⟨folder, _ | old, slash⟩, hsource, h⟩ := Except.bind_eq_ok.1 h
  · obtain ⟨_, -, h⟩ := Except.bind_eq_ok.1 h
    cases h
  obtain ⟨⟨folder', _ | new, slash'⟩, htarget, h⟩ := Except.bind_eq_ok.1 h
  · cases h
  dsimp only at h
  split at h
  next text hentry =>
    obtain ⟨hslashes, hput⟩ := Except.guard_eq_ok.1 h
    rw [not_or, Bool.not_eq_true, Bool.not_eq_true] at hslashes
    obtain ⟨rfl, rfl⟩ := hslashes
    split at hput
    next => cases hput
    next hfolder =>
      cases hput
      exact ⟨_, _, text, ⟨folder, old, hsource, rfl⟩, hentry, ⟨folder', new, htarget, rfl⟩,
        hfolder, rfl⟩
  next => cases h
  next => cases h

theorem removeFile_eq_ok (h : d.removeFile path = .ok d') :
    ∃ place text, d.LeadsTo path place ∧ d.entry? place = some (.file text) ∧
      d' = d.erase place := by
  obtain ⟨⟨folder, _ | name, slash⟩, hfollow, h⟩ := Except.bind_eq_ok.1 h
  · cases h
  · dsimp only at h
    split at h
    next text hentry =>
      cases slash with
      | true => cases h
      | false =>
          cases h
          exact ⟨_, text, ⟨folder, name, hfollow, rfl⟩, hentry, rfl⟩
    next => cases h
    next => cases h

/-- The text of the file at a path. -/
def file (d : Directory) (path : String) : Option String := (d.readFile path).toOption

theorem file_eq_some : d.file path = some text ↔
    ∃ place, d.LeadsTo path place ∧ d.entry? place = some (.file text) := by
  rw [← readFile_eq_ok, file]
  cases d.readFile path with
  | error e => simp [Except.toOption]
  | ok text => simp [Except.toOption]

/-- A file stays as it is if its place does. -/
theorem SameFolders.file (h : SameFolders d d')
    (hplace : ∀ place, d.LeadsTo path place → d'.entry? place = d.entry? place) :
    d'.file path = d.file path := by
  refine Option.ext fun text => ?_
  rw [file_eq_some, file_eq_some]
  refine exists_congr fun place => ?_
  rw [h.leadsTo]
  exact and_congr_right fun hleads => by rw [hplace place hleads]

theorem attempt_eq_ok {f : Directory → Except DiskError Directory}
    (h : attempt f d = (.ok (), d')) : f d = .ok d' := by
  unfold attempt at h
  split at h
  next hf =>
    cases h
    exact hf
  next => cases h

theorem attempt_eq_error {f : Directory → Except DiskError Directory} {e : DiskError}
    (h : attempt f d = (.error e, d')) : d' = d := by
  unfold attempt at h
  split at h
  next => cases h
  next =>
    cases h
    rfl

/-- A directory is a lawful disk. -/
theorem lawful : disk.Lawful file where
  read _ _ _ := rfl
  write_ok {path text d d'} h := by
    have hwrite := attempt_eq_ok (f := (·.writeFile path text)) h
    obtain ⟨place, hleads, hfolder, rfl⟩ := writeFile_eq_ok hwrite
    exact file_eq_some.2 ⟨place, (sameFolders_put hfolder).leadsTo.2 hleads,
      entry?_put_self (ne_nil_of_not_folder hfolder)⟩
  write_aside path text d := by
    rcases hrun : disk.write (Path.temporary path) text d with ⟨e | _, d'⟩
    · rw [attempt_eq_error (f := (·.writeFile (Path.temporary path) text)) hrun]
    · have hwrite := attempt_eq_ok (f := (·.writeFile (Path.temporary path) text)) hrun
      obtain ⟨place, hleads, hfolder, rfl⟩ := writeFile_eq_ok hwrite
      exact (sameFolders_put hfolder).file fun _ hleads' =>
        entry?_put_of_ne (leadsTo_temporary hleads' hleads)
  rename_ok {source target d d'} h := by
    have hrename := attempt_eq_ok (f := (·.renameFile source target)) h
    obtain ⟨place, other, text, hsource, hentry, htarget, hfolder, rfl⟩ := renameFile_eq_ok hrename
    -- The file is taken from one place and put in another, and neither is a folder.
    have herase : SameFolders d (d.erase place) := sameFolders_erase (by simp [hentry])
    have hput : SameFolders (d.erase place) ((d.erase place).put other text) :=
      sameFolders_put (mt (herase other).1 hfolder)
    rw [file_eq_some.2 ⟨place, hsource, hentry⟩]
    exact file_eq_some.2 ⟨other, (herase.trans hput).leadsTo.2 htarget,
      entry?_put_self (ne_nil_of_not_folder hfolder)⟩
  rename_error {source target e d d'} h := by
    rw [attempt_eq_error (f := (·.renameFile source target)) h]
  remove_aside path d := by
    rcases hrun : disk.remove (Path.temporary path) d with ⟨e | _, d'⟩
    · rw [attempt_eq_error (f := (·.removeFile (Path.temporary path))) hrun]
    · have hremove := attempt_eq_ok (f := (·.removeFile (Path.temporary path))) hrun
      obtain ⟨place, text, hleads, hentry, rfl⟩ := removeFile_eq_ok hremove
      exact (sameFolders_erase (by simp [hentry])).file fun _ hleads' =>
        entry?_erase_of_ne (leadsTo_temporary hleads' hleads)

end Directory

end Barrage
