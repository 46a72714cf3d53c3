import EffectLisp.Proofs.FileSystem.Write
import EffectLisp.Session

/-!
# Steps on a store of files

What programs do with files, one step after the other, and what a store does for them.
A step that fails changes nothing, and one that succeeds writes or reads one file.  So the
bytes of a file are those it had at first with all writes to it applied in turn, and its
text is what was put there last and everything that has been appended since.
-/

namespace EffectLisp

/-- A use of a file. -/
inductive FileStep where
  | put (path content : String)
  | append (path content : String)
  | slurp (path : String)
  | fileExists (path : String)
  deriving DecidableEq, Repr

namespace FileStep

/-- The path, the mode and the content of a write. -/
def write? : FileStep → Option (String × WriteMode × String)
  | put path content => some (path, .truncate, content)
  | append path content => some (path, .append, content)
  | _ => none

/-- What a store does for a step and what comes of it. -/
inductive Does : FileStep → FileSystem → Outcome → FileSystem → Prop where
  | fails (step : FileStep) (fs : FileSystem) (reason : Fault) :
      Does step fs (.fault reason) fs
  | writes {step : FileStep} {fs after : FileSystem} (path content : String)
      (mode : WriteMode) (place : Place) :
      step.write? = some (path, mode, content) →
      fs.Replaces path place (mode.result (fs.bytesAt place) content) after →
      Does step fs (.value (.string content)) after
  | reads {fs : FileSystem} {path text : String} :
      fs.readText path = .ok text →
      Does (.slurp path) fs (.value (.string text)) fs
  | probes (fs : FileSystem) (path : String) :
      Does (.fileExists path) fs (.value (.bool (fs.exists? path))) fs

/-- What a store does for steps in turn and what comes of each. -/
inductive DoAll : List FileStep → FileSystem → List Outcome → FileSystem → Prop where
  | nil (fs : FileSystem) : DoAll [] fs [] fs
  | cons {step : FileStep} {steps : List FileStep} {fs middle after : FileSystem}
      {outcome : Outcome} {outcomes : List Outcome} :
      Does step fs outcome middle →
      DoAll steps middle outcomes after →
      DoAll (step :: steps) fs (outcome :: outcomes) after

/-- The write of a step that succeeded, if it was to the file that is now at a place. -/
def writeTo? (now : FileSystem) (place : Place) (step : FileStep) :
    Outcome → Option (WriteMode × String)
  | .value _ =>
      match step.write? with
      | some (path, mode, content) =>
          if now.placeOf? path = some place then some (mode, content) else none
      | none => none
  | .fault _ => none

/-- The writes of steps that succeeded to the file that is now at a place, in order. -/
def writesTo (now : FileSystem) (place : Place) (steps : List (FileStep × Outcome)) :
    List (WriteMode × String) :=
  steps.filterMap fun step => writeTo? now place step.1 step.2

end FileStep

namespace FileSystem

open FileStep

/-- The bytes of a file after writes. -/
def bytesAfter (old : ByteArray) (writes : List (WriteMode × String)) : ByteArray :=
  writes.foldl (fun bytes write => write.1.result bytes write.2) old

/-- A text is what was put last into a file and everything appended later, or what was in the
file at first and everything appended if nothing was put there. -/
structure TextAfter (old : ByteArray) (writes : List (WriteMode × String)) (text : String) :
    Prop where
  put : ∀ front content back, writes = front ++ (.truncate, content) :: back →
    (∀ write ∈ back, write.1 = .append) →
    text = content ++ String.join (back.map (·.2))
  noPut : (∀ write ∈ writes, write.1 = .append) →
    text.toUTF8 = old ++ (String.join (writes.map (·.2))).toUTF8

theorem bytesAfter_append
    (old : ByteArray) (front back : List (WriteMode × String)) :
    bytesAfter old (front ++ back) = bytesAfter (bytesAfter old front) back :=
  List.foldl_append

theorem bytesAfter_of_appends
    {writes : List (WriteMode × String)} (appends : ∀ write ∈ writes, write.1 = .append)
    (old : ByteArray) :
    bytesAfter old writes = old ++ (String.join (writes.map (·.2))).toUTF8 := by
  induction writes generalizing old with
  | nil => simp [bytesAfter]
  | cons write writes induction =>
      obtain ⟨first, later⟩ := List.forall_mem_cons.mp appends
      have appended : bytesAfter old (write :: writes) =
          bytesAfter (old ++ write.2.toUTF8) writes := by
        rw [bytesAfter, List.foldl_cons, first]
        rfl
      rw [appended, induction later]
      simp [ByteArray.append_assoc]

theorem textAfter_of_bytes
    {old : ByteArray} {writes : List (WriteMode × String)} {text : String}
    (bytes : text.toUTF8 = bytesAfter old writes) : TextAfter old writes text := by
  constructor
  · rintro front content back rfl appends
    -- What there was before a put does not matter.
    have put : bytesAfter old (front ++ (.truncate, content) :: back) =
        bytesAfter content.toUTF8 back := by
      rw [bytesAfter_append]
      rfl
    rw [put, bytesAfter_of_appends appends] at bytes
    apply String.toByteArray_inj.mp
    simpa using bytes
  · intro appends
    rw [bytes, bytesAfter_of_appends appends]

theorem toUTF8_of_fromUTF8?
    {bytes : ByteArray} {text : String} (decoded : String.fromUTF8? bytes = some text) :
    text.toUTF8 = bytes := by
  unfold String.fromUTF8? at decoded
  split at decoded
  · cases decoded
    rfl
  · cases decoded

theorem exists_place_of_readText
    {fs : FileSystem} {path text : String} (read : fs.readText path = .ok text) :
    ∃ place readOnly, fs.resolve path = .ok (place, .file text.toUTF8 readOnly) := by
  obtain ⟨⟨place, entry⟩, resolved, read⟩ := bind_eq_ok read
  cases entry with
  | directory => cases read
  | file content readOnly =>
      simp only at read
      split at read
      · next decoded =>
          cases read
          rw [toUTF8_of_fromUTF8? decoded]
          exact ⟨place, readOnly, resolved⟩
      · cases read

end FileSystem

namespace FileStep

open FileSystem

variable {fs after now : FileSystem}

theorem Does.grows
    {step : FileStep} {outcome : Outcome} (does : Does step fs outcome after) :
    Grows fs after := by
  cases does with
  | writes path content mode place asked replaces => exact replaces.grows
  | _ => exact .refl fs

theorem DoAll.grows
    {steps : List FileStep} {outcomes : List Outcome} (done : DoAll steps fs outcomes after) :
    Grows fs after := by
  induction done with
  | nil => exact .refl _
  | cons does _ induction => exact does.grows.trans induction

theorem Does.bytesAt_eq
    {step : FileStep} {outcome : Outcome} (does : Does step fs outcome after)
    (grows : Grows after now) (place : Place) :
    after.bytesAt place =
      bytesAfter (fs.bytesAt place) (writeTo? now place step outcome).toList := by
  cases does with
  | fails => rfl
  | reads => rfl
  | probes => rfl
  | writes path content mode written asked replaces =>
      have named := grows.placeOf?_eq replaces.placeOf?_eq
      simp only [writeTo?, asked, named, Option.some.injEq]
      split
      · next same =>
          subst same
          exact replaces.bytesAt_self
      · next different => exact replaces.bytesAt_of_ne (Ne.symm different)

theorem writesTo_cons
    (now : FileSystem) (place : Place) (step : FileStep) (outcome : Outcome)
    (rest : List (FileStep × Outcome)) :
    writesTo now place ((step, outcome) :: rest) =
      (writeTo? now place step outcome).toList ++ writesTo now place rest := by
  rw [writesTo, List.filterMap_cons]
  split
  · next none => rw [none]; rfl
  · next write some => rw [some]; rfl

theorem DoAll.bytesAt_eq
    {steps : List FileStep} {outcomes : List Outcome} (done : DoAll steps fs outcomes after)
    (grows : Grows after now) (place : Place) :
    after.bytesAt place =
      bytesAfter (fs.bytesAt place) (writesTo now place (steps.zip outcomes)) := by
  induction done with
  | nil => rfl
  | cons does later induction =>
      rw [List.zip_cons_cons, writesTo_cons, bytesAfter_append,
        ← does.bytesAt_eq (later.grows.trans grows), induction grows]

/-- A file that is read-only keeps its content. -/
theorem DoAll.find?_of_readOnly
    {steps : List FileStep} {outcomes : List Outcome} (done : DoAll steps fs outcomes after)
    {place : Place} {content : ByteArray} (locked : fs.find? place = some (.file content true)) :
    after.find? place = some (.file content true) := by
  induction done with
  | nil => exact locked
  | cons does _ induction =>
      apply induction
      cases does with
      | writes path content mode written asked replaces =>
          have elsewhere : place ≠ written := by
            rintro rfl
            rcases replaces.writable with missing | ⟨old, file⟩
            · cases missing.symm.trans locked
            · cases file.symm.trans locked
          rw [replaces.elsewhere place elsewhere, locked]
      | _ => exact locked

/-- What a file that can be read holds after some steps. -/
theorem DoAll.exists_textAfter
    {steps : List FileStep} {outcomes : List Outcome} (done : DoAll steps fs outcomes after)
    {path text : String} (read : after.readText path = .ok text) :
    ∃ place, after.placeOf? path = some place ∧
      TextAfter (fs.bytesAt place) (writesTo after place (steps.zip outcomes)) text := by
  obtain ⟨place, readOnly, resolved⟩ := exists_place_of_readText read
  obtain ⟨-, -, -, found, -⟩ := resolve_eq_ok_iff.mp resolved
  have bytes := done.bytesAt_eq (.refl after) place
  rw [bytesAt, found] at bytes
  exact ⟨place, placeOf?_eq_some_iff.mpr ⟨_, resolved⟩, textAfter_of_bytes bytes⟩

end FileStep

end EffectLisp
