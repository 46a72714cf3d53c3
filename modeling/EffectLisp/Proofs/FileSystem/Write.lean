import EffectLisp.FileSystem
import EffectLisp.Proofs.Result

/-!
# Writing a file

A write that succeeds puts a file where the path leads and touches nothing else.  The
directories stay, and so do all other files, so whatever a path names it names after the
write as well, and the path that was written to names the new file.
-/

namespace EffectLisp

/-- The bytes of a file that had others before a write. -/
def WriteMode.result (mode : WriteMode) (old : ByteArray) (content : String) : ByteArray :=
  match mode with
  | .truncate => content.toUTF8
  | .append => old ++ content.toUTF8

namespace FileSystem

/-- The bytes of the file at a place; a missing file has none. -/
def bytesAt (fs : FileSystem) (place : Place) : ByteArray :=
  match fs.find? place with
  | some (.file content _) => content
  | _ => .empty

/-- The place that a path names. -/
def placeOf? (fs : FileSystem) (path : String) : Option Place :=
  (fs.resolve path).toOption.map (·.1)

section Insert

variable {place other : Place} {entry : Entry}

theorem find?_insert_self (fs : FileSystem) (named : place ≠ []) (entry : Entry) :
    (fs.insert place entry).find? place = some entry := by
  rw [find?, if_neg named, insert]
  induction fs.entries with
  | nil => simp [insertInto]
  | cons old entries induction =>
      rw [insertInto]
      split
      · simp
      · next different => simpa [different] using induction

theorem find?_insert_of_ne (fs : FileSystem) (entry : Entry) (different : other ≠ place) :
    (fs.insert place entry).find? other = fs.find? other := by
  rw [find?, find?, insert]
  congr 2
  induction fs.entries with
  | nil => simp [insertInto, different.symm]
  | cons old entries induction =>
      rw [insertInto]
      split
      · next same =>
          have ne : old.1 ≠ other := fun eq => different (eq.symm.trans same)
          simp [different.symm, ne]
      · rw [List.find?_cons, List.find?_cons, induction]

/-- Of two entries that are put at one place the second stays. -/
theorem insert_insert (fs : FileSystem) (place : Place) (first second : Entry) :
    (fs.insert place first).insert place second = fs.insert place second := by
  simp only [insert]
  congr 1
  induction fs.entries with
  | nil => simp [insertInto]
  | cons old entries induction =>
      rw [insertInto]
      split
      · next same => simp [insertInto, same]
      · next different => simp [insertInto, different, induction]

end Insert

/-- A later state of the store: directories stay where they are, and files do with their
modes. -/
structure Grows (fs later : FileSystem) : Prop where
  workingDirectory : later.workingDirectory = fs.workingDirectory
  directory : ∀ place, fs.find? place = some .directory → later.find? place = some .directory
  file : ∀ place content readOnly, fs.find? place = some (.file content readOnly) →
    ∃ bytes, later.find? place = some (.file bytes readOnly)

namespace Grows

variable {fs middle later : FileSystem}

theorem refl (fs : FileSystem) : Grows fs fs :=
  ⟨rfl, fun _ => id, fun _ content _ found => ⟨content, found⟩⟩

theorem trans (first : Grows fs middle) (second : Grows middle later) : Grows fs later where
  workingDirectory := second.workingDirectory.trans first.workingDirectory
  directory place found := second.directory place (first.directory place found)
  file place content readOnly found := by
    obtain ⟨bytes, kept⟩ := first.file place content readOnly found
    exact second.file place bytes readOnly kept

variable (grows : Grows fs later)

include grows

theorem isSome_find? {place : Place} (found : (fs.find? place).isSome = true) :
    (later.find? place).isSome = true := by
  obtain ⟨entry, entered⟩ := Option.isSome_iff_exists.mp found
  cases entry with
  | directory => rw [grows.directory place entered, Option.isSome_some]
  | file content readOnly =>
      obtain ⟨bytes, kept⟩ := grows.file place content readOnly entered
      rw [kept, Option.isSome_some]

theorem follow {place next : Place} {name : String}
    (followed : fs.follow place name = .ok next) : later.follow place name = .ok next := by
  have kept : (fs.find? (place ++ [name])).isSome = true →
      (later.find? (place ++ [name])).isSome = true := grows.isSome_find?
  unfold FileSystem.follow at followed ⊢
  split at followed
  · next directory =>
      simp only [grows.directory place directory]
      grind
  · cases followed
  · cases followed

theorem walk {place next : Place} {names : List String}
    (walked : fs.walk place names = .ok next) : later.walk place names = .ok next := by
  induction names generalizing place with
  | nil => exact walked
  | cons name names induction =>
      rw [FileSystem.walk] at walked ⊢
      cases followed : fs.follow place name with
      | error reason =>
          rw [followed] at walked
          cases walked
      | ok middle =>
          rw [followed] at walked
          rw [grows.follow followed]
          exact induction walked

end Grows

theorem walk_append (fs : FileSystem) (place : Place) (front back : List String) :
    fs.walk place (front ++ back) = fs.walk place front >>= (fs.walk · back) := by
  induction front generalizing place with
  | nil => rfl
  | cons name front induction =>
      rw [List.cons_append, walk, walk, bind_assoc]
      exact congrArg _ (funext induction)

/-- A path names what stands where its names lead to; with a slash at the end only a
directory. -/
theorem resolve_eq_ok_iff
    {fs : FileSystem} {path : String} {place : Place} {entry : Entry} :
    fs.resolve path = .ok (place, entry) ↔
      ∃ parts, pathOf path = .ok parts ∧
        fs.walk (fs.origin parts) parts.names = .ok place ∧
        fs.find? place = some entry ∧ (parts.trailing = true → entry = .directory) := by
  constructor
  · intro resolved
    obtain ⟨parts, parsed, resolved⟩ := bind_eq_ok resolved
    obtain ⟨last, walked, resolved⟩ := bind_eq_ok resolved
    refine ⟨parts, parsed, ?_⟩
    split at resolved
    · cases resolved
    · next found =>
        cases resolved
        exact ⟨walked, found, fun _ => rfl⟩
    · next found =>
        split at resolved
        · cases resolved
        · next file =>
            cases resolved
            exact ⟨walked, found, fun directory => absurd directory file⟩
  · rintro ⟨parts, parsed, walked, found, fits⟩
    simp only [resolve, parsed, walked, found, bind, Except.bind]
    cases entry with
    | directory => rfl
    | file content readOnly =>
        have file : ¬parts.trailing = true := nofun ∘ fits
        exact if_neg file

/-- The names of a path but the last lead to a directory, and the last is one that a file
can have. -/
structure Leads (fs : FileSystem) (path : String) (directory : Place) (name : String) :
    Prop where
  walked : ∃ parts, pathOf path = .ok parts ∧ parts.trailing = false ∧
    parts.names.getLast? = some name ∧
    fs.walk (fs.origin parts) parts.names.dropLast = .ok directory
  around : fs.find? directory = some .directory
  notDot : name ≠ "."
  notDots : name ≠ ".."
  short : name.utf8ByteSize ≤ longestName

/-- What is opened for writing is a file or nothing in the directory that the path leads
to. -/
theorem exists_leads_of_target
    {fs : FileSystem} {path : String} {place : Place} {old : Option (ByteArray × Bool)}
    (opened : fs.target path = .ok (place, old)) :
    ∃ directory name, fs.Leads path directory name ∧ place = directory ++ [name] ∧
      fs.find? place = old.map fun file => .file file.1 file.2 := by
  obtain ⟨parts, parsed, opened⟩ := bind_eq_ok opened
  obtain ⟨directory, walked, opened⟩ := bind_eq_ok opened
  cases last : parts.names.getLast? with
  | none =>
      rw [last] at opened
      cases opened
  | some name =>
      rw [last] at opened
      simp only at opened
      split at opened
      · next around =>
          split at opened
          · cases opened
          · next ordinary =>
              simp only [Bool.or_eq_true, decide_eq_true_eq, not_or,
                Bool.not_eq_true] at ordinary
              obtain ⟨⟨trailing, notDot⟩, notDots⟩ := ordinary
              split at opened
              · cases opened
              · next short =>
                  have leads : fs.Leads path directory name :=
                    ⟨⟨parts, parsed, trailing, last, walked⟩, around, notDot, notDots,
                      Nat.le_of_not_lt short⟩
                  refine ⟨directory, name, leads, ?_⟩
                  split at opened
                  · cases opened
                  · next entered =>
                      cases opened
                      exact ⟨rfl, entered⟩
                  · next missing =>
                      cases opened
                      exact ⟨rfl, missing⟩
      · cases opened
      · cases opened

theorem placeOf?_eq_some_iff {fs : FileSystem} {path : String} {place : Place} :
    fs.placeOf? path = some place ↔ ∃ entry, fs.resolve path = .ok (place, entry) := by
  rw [placeOf?]
  cases fs.resolve path with
  | error reason => simp [Except.toOption]
  | ok named =>
      obtain ⟨other, entry⟩ := named
      simp [Except.toOption]

theorem origin_eq_of_grows {fs later : FileSystem} (grows : Grows fs later) (parts : Path) :
    later.origin parts = fs.origin parts := by
  rw [origin, origin, grows.workingDirectory]

/-- What a path names it names for good. -/
theorem Grows.placeOf?_eq
    {fs later : FileSystem} (grows : Grows fs later) {path : String} {place : Place}
    (named : fs.placeOf? path = some place) : later.placeOf? path = some place := by
  obtain ⟨entry, resolved⟩ := placeOf?_eq_some_iff.mp named
  obtain ⟨parts, parsed, walked, found, fits⟩ := resolve_eq_ok_iff.mp resolved
  have walked_later := grows.walk walked
  rw [← origin_eq_of_grows grows] at walked_later
  apply placeOf?_eq_some_iff.mpr
  cases entry with
  | directory =>
      have kept := grows.directory place found
      exact ⟨.directory,
        resolve_eq_ok_iff.mpr ⟨parts, parsed, walked_later, kept, fun _ => rfl⟩⟩
  | file content readOnly =>
      obtain ⟨bytes, kept⟩ := grows.file place content readOnly found
      have fits_later (trailing : parts.trailing = true) :
          Entry.file bytes readOnly = .directory := absurd (fits trailing) nofun
      exact ⟨.file bytes readOnly,
        resolve_eq_ok_iff.mpr ⟨parts, parsed, walked_later, kept, fits_later⟩⟩

/-- A path that is opened for writing names the file there, now or later. -/
theorem Grows.resolve_of_target
    {fs later : FileSystem} (grows : Grows fs later) {path : String} {place : Place}
    {old : Option (ByteArray × Bool)} {content : ByteArray} {readOnly : Bool}
    (opened : fs.target path = .ok (place, old))
    (found : later.find? place = some (.file content readOnly)) :
    later.resolve path = .ok (place, .file content readOnly) := by
  obtain ⟨directory, name, leads, rfl, -⟩ := exists_leads_of_target opened
  obtain ⟨parts, parsed, trailing, last, walked⟩ := leads.walked
  obtain ⟨front, names⟩ := List.getLast?_eq_some_iff.mp last
  rw [names, List.dropLast_concat] at walked
  have followed : later.follow directory name = .ok (directory ++ [name]) := by
    have inside : (later.find? (directory ++ [name])).isSome = true := by
      rw [found, Option.isSome_some]
    simp only [FileSystem.follow, grows.directory directory leads.around]
    rw [if_neg leads.notDot, if_neg leads.notDots, if_neg (Nat.not_lt_of_le leads.short),
      if_pos inside]
  refine resolve_eq_ok_iff.mpr ⟨parts, parsed, ?_, found, by simp [trailing]⟩
  rw [names, walk_append, origin_eq_of_grows grows, grows.walk walked]
  change (later.follow directory name >>= (later.walk · [])) = _
  rw [followed]
  rfl

/-- A file that is opened keeps its mode; one that was missing is made and may be written. -/
theorem exists_of_openFile
    {fs opened : FileSystem} {path : String} {options : OpenOptions} {file : OpenFile}
    (opens : fs.openFile path options = .ok (file, opened)) :
    ∃ old, fs.target path = .ok (file.place, old) ∧ file.append = options.append ∧
      opened = fs.insert file.place
        (.file (keptBytes options (fs.bytesAt file.place)) ((old.map (·.2)).getD false)) := by
  unfold openFile at opens
  split at opens
  · cases opens
  · obtain ⟨⟨place, old⟩, leads, opens⟩ := bind_eq_ok opens
    obtain ⟨-, -, -, -, before⟩ := exists_leads_of_target leads
    refine ⟨old, ?_⟩
    cases old with
    | none =>
        simp only at opens
        split at opens
        · cases opens
          exact ⟨leads, rfl, by simp [bytesAt, before, keptBytes]⟩
        · cases opens
    | some found =>
        cases opens
        exact ⟨leads, rfl, by simp [bytesAt, before]⟩

theorem writeAll_insert
    (fs : FileSystem) {file : OpenFile} (named : file.place ≠ []) (bytes : ByteArray)
    (readOnly : Bool) (content : String) :
    (fs.insert file.place (.file bytes readOnly)).writeAll file content =
      fs.insert file.place (.file (file.written bytes content) readOnly) := by
  rw [writeAll, find?_insert_self fs named]
  exact insert_insert fs file.place _ _

/-- What is written to a file that was opened for a write comes to the content that the write
asks for. -/
theorem written_keptBytes
    {file : OpenFile} {mode : WriteMode} (same : file.append = mode.options.append)
    (bytes : ByteArray) (content : String) :
    file.written (keptBytes mode.options bytes) content = mode.result bytes content := by
  cases mode with
  | truncate =>
      have nothing : ByteArray.empty.extract content.toUTF8.size 0 = .empty := by
        simp [ByteArray.extract_eq_empty_iff]
      rw [OpenFile.written, same]
      change content.toUTF8 ++ ByteArray.empty.extract content.toUTF8.size 0 = content.toUTF8
      rw [nothing, ByteArray.append_empty]
  | append =>
      rw [OpenFile.written, same]
      rfl

theorem grows_of_elsewhere
    {fs after : FileSystem} {place : Place} {bytes : ByteArray}
    (writable : fs.find? place = none ∨ ∃ old, fs.find? place = some (.file old false))
    (found : after.find? place = some (.file bytes false))
    (elsewhere : ∀ other, other ≠ place → after.find? other = fs.find? other)
    (workingDirectory : after.workingDirectory = fs.workingDirectory) : Grows fs after where
  workingDirectory := workingDirectory
  directory other before := by
    by_cases same : other = place
    · subst same
      rcases writable with missing | ⟨old, file⟩
      · cases missing.symm.trans before
      · cases file.symm.trans before
    · rw [elsewhere other same, before]
  file other content readOnly before := by
    by_cases same : other = place
    · subst same
      rcases writable with missing | ⟨old, file⟩
      · cases missing.symm.trans before
      · cases file.symm.trans before
        exact ⟨bytes, found⟩
    · exact ⟨content, (elsewhere other same).trans before⟩

/-- One file has been given other bytes, and everything else is as before.  The file could be
written, or was missing, and it is what the path names. -/
structure Replaces (fs : FileSystem) (path : String) (place : Place) (bytes : ByteArray)
    (after : FileSystem) : Prop where
  named : after.resolve path = .ok (place, .file bytes false)
  writable : fs.find? place = none ∨ ∃ old, fs.find? place = some (.file old false)
  elsewhere : ∀ other, other ≠ place → after.find? other = fs.find? other
  workingDirectory : after.workingDirectory = fs.workingDirectory
  sealed : after.sealed = fs.sealed

namespace Replaces

variable {fs after : FileSystem} {path : String} {place : Place} {bytes : ByteArray}
  (replaces : fs.Replaces path place bytes after)

include replaces

theorem find?_eq : after.find? place = some (.file bytes false) := by
  obtain ⟨-, -, -, found, -⟩ := resolve_eq_ok_iff.mp replaces.named
  exact found

theorem placeOf?_eq : after.placeOf? path = some place :=
  placeOf?_eq_some_iff.mpr ⟨_, replaces.named⟩

theorem grows : Grows fs after :=
  grows_of_elsewhere replaces.writable replaces.find?_eq replaces.elsewhere
    replaces.workingDirectory

theorem bytesAt_self : after.bytesAt place = bytes := by
  rw [bytesAt, replaces.find?_eq]

theorem bytesAt_of_ne {other : Place} (different : other ≠ place) :
    after.bytesAt other = fs.bytesAt other := by
  rw [bytesAt, bytesAt, replaces.elsewhere other different]

end Replaces

/-- Of what is not read-only and has been opened for a write, the text that is then written
replaces the content, or extends it, and nothing else has changed since before it was
opened. -/
theorem replaces_of_openFile
    {fs opened : FileSystem} {path : String} {mode : WriteMode} {file : OpenFile}
    (free : fs.isReadOnly path = false)
    (opens : fs.openFile path mode.options = .ok (file, opened)) (content : String) :
    fs.Replaces path file.place (mode.result (fs.bytesAt file.place) content)
      (opened.writeAll file content) := by
  obtain ⟨old, leads, append, rfl⟩ := exists_of_openFile opens
  obtain ⟨directory, name, -, joined, before⟩ := exists_leads_of_target leads
  have named : file.place ≠ [] := by simp [joined]
  have notReadOnly : ∀ found ∈ old, found.2 = false := by
    rintro found rfl
    have resolved := (Grows.refl fs).resolve_of_target leads before
    rwa [isReadOnly, resolved] at free
  have mode_kept : (old.map (·.2)).getD false = false := by
    cases old with
    | none => rfl
    | some found => exact notReadOnly found rfl
  have writable : fs.find? file.place = none ∨
      ∃ bytes, fs.find? file.place = some (.file bytes false) := by
    cases old with
    | none => exact .inl before
    | some found =>
        exact .inr ⟨found.1, by rw [before, Option.map_some, notReadOnly found rfl]⟩
  rw [writeAll_insert fs named, mode_kept, written_keptBytes append]
  have found := find?_insert_self fs named
    (.file (mode.result (fs.bytesAt file.place) content) false)
  have elsewhere (other : Place) (different : other ≠ file.place) :=
    find?_insert_of_ne fs (.file (mode.result (fs.bytesAt file.place) content) false) different
  have grows := grows_of_elsewhere writable found elsewhere rfl
  exact ⟨grows.resolve_of_target leads found, writable, elsewhere, rfl, rfl⟩

end FileSystem

end EffectLisp
