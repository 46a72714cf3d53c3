import EffectLisp.Config
import EffectLisp.Proofs.Toml.Keys

/-!
# Settings of a file

A file gives its settings key by key, and each key reaches one field.  Because no key stands
twice in a file, a field ends as its own key says, or as it was before the file.  A single
value of the wrong kind makes the whole file useless, and so does a depth of zero.
-/

namespace EffectLisp.Config

/-- The value is of the kind that its key asks for; a key that is no setting takes any. -/
structure Fits (key : String) (v : Toml.Value) : Prop where
  maxDepth : key = "max_depth" → ∃ n : Nat, v = .integer n
  historyFile : key = "history_file" → ∃ path, v = .string path
  prelude : key = "prelude" → ∃ path, v = .string path
  banner : key = "banner" → ∃ shown, v = .boolean shown

/-- The settings differ at most in what the key sets. -/
structure SameBut (key : String) (config result : Config) : Prop where
  maxDepth : key ≠ "max_depth" → result.maxDepth = config.maxDepth
  historyFile : key ≠ "history_file" → result.historyFile = config.historyFile
  prelude : key ≠ "prelude" → result.prelude = config.prelude
  banner : key ≠ "banner" → result.banner = config.banner

section Key

variable {config result : Config} {key : String} {v : Toml.Value}

theorem set_maxDepth (config : Config) (n : Nat) :
    set config "max_depth" (.integer n) = some { config with maxDepth := n } := by
  simp [set]

theorem maxDepth_of_set {n : Nat} (taken : set config "max_depth" (.integer n) = some result) :
    result.maxDepth = n := by
  rw [set_maxDepth] at taken
  cases taken
  rfl

theorem historyFile_of_set
    {path : String} (taken : set config "history_file" (.string path) = some result) :
    result.historyFile = some path := by
  cases taken
  rfl

theorem prelude_of_set
    {path : String} (taken : set config "prelude" (.string path) = some result) :
    result.prelude = some path := by
  cases taken
  rfl

theorem banner_of_set
    {shown : Bool} (taken : set config "banner" (.boolean shown) = some result) :
    result.banner = shown := by
  cases taken
  rfl

/-- A value that fits is taken over, whatever was set before. -/
theorem Fits.exists_set (fits : Fits key v) (config : Config) :
    ∃ result, set config key v = some result := by
  unfold set
  split
  · obtain ⟨n, same⟩ := fits.maxDepth rfl
    cases same
    exact ⟨_, set_maxDepth config n⟩
  · exact ⟨_, rfl⟩
  · exact ⟨_, rfl⟩
  · exact ⟨_, rfl⟩
  · next other =>
      obtain ⟨n, same⟩ := fits.maxDepth rfl
      exact absurd same (other n)
  · next other =>
      obtain ⟨path, same⟩ := fits.historyFile rfl
      exact absurd same (other path)
  · next other =>
      obtain ⟨path, same⟩ := fits.prelude rfl
      exact absurd same (other path)
  · next other =>
      obtain ⟨shown, same⟩ := fits.banner rfl
      exact absurd same (other shown)
  · exact ⟨_, rfl⟩

theorem fits_of_set (taken : set config key v = some result) : Fits key v := by
  unfold set at taken
  split at taken
  · next n =>
      split at taken
      · cases taken
      · next natural =>
          have same := Int.toNat_of_nonneg (Int.not_lt.mp natural)
          exact ⟨fun _ => ⟨n.toNat, by rw [same]⟩, by simp, by simp, by simp⟩
  · exact ⟨by simp, fun _ => ⟨_, rfl⟩, by simp, by simp⟩
  · exact ⟨by simp, by simp, fun _ => ⟨_, rfl⟩, by simp⟩
  · exact ⟨by simp, by simp, by simp, fun _ => ⟨_, rfl⟩⟩
  -- a setting with a value of another kind
  iterate 4 cases taken
  · next notDepth notHistory notPrelude notBanner _ _ _ _ =>
      exact ⟨fun named => (notDepth named).elim, fun named => (notHistory named).elim,
        fun named => (notPrelude named).elim, fun named => (notBanner named).elim⟩

theorem sameBut_of_set (taken : set config key v = some result) :
    SameBut key config result := by
  unfold set at taken
  split at taken
  · split at taken
    · cases taken
    · cases taken
      exact ⟨fun different => absurd rfl different, fun _ => rfl, fun _ => rfl, fun _ => rfl⟩
  · cases taken
    exact ⟨fun _ => rfl, fun different => absurd rfl different, fun _ => rfl, fun _ => rfl⟩
  · cases taken
    exact ⟨fun _ => rfl, fun _ => rfl, fun different => absurd rfl different, fun _ => rfl⟩
  · cases taken
    exact ⟨fun _ => rfl, fun _ => rfl, fun _ => rfl, fun different => absurd rfl different⟩
  iterate 4 cases taken
  · cases taken
    exact ⟨fun _ => rfl, fun _ => rfl, fun _ => rfl, fun _ => rfl⟩

end Key

/-- The settings with the keys of a file taken over, one after the other. -/
def takeOver (entries : List (String × Toml.Value)) (config : Config) : Option Config :=
  entries.foldlM (fun config entry => set config entry.1 entry.2) config

section Entries

variable {config result : Config} {entries : List (String × Toml.Value)}

theorem takeOver_cons (entry : String × Toml.Value) :
    takeOver (entry :: entries) config =
      (set config entry.1 entry.2).bind (takeOver entries) :=
  List.foldlM_cons

theorem exists_takeOver_iff :
    (∃ result, takeOver entries config = some result) ↔
      ∀ entry ∈ entries, Fits entry.1 entry.2 := by
  induction entries generalizing config with
  | nil => exact ⟨fun _ _ member => absurd member List.not_mem_nil, fun _ => ⟨config, rfl⟩⟩
  | cons entry entries ih =>
      rw [List.forall_mem_cons]
      constructor
      · rintro ⟨result, taken⟩
        rw [takeOver_cons] at taken
        obtain ⟨middle, first, others⟩ := Option.bind_eq_some_iff.mp taken
        exact ⟨fits_of_set first, ih.mp ⟨result, others⟩⟩
      · rintro ⟨fits, others⟩
        obtain ⟨middle, first⟩ := fits.exists_set config
        rw [takeOver_cons, first]
        exact ih.mpr others

section Field

variable {α : Type} {field : Config → α} {name : String}
  (own : ∀ {key config result}, SameBut key config result → key ≠ name →
    field result = field config)

include own

theorem field_of_not_mem
    (missing : ∀ v, (name, v) ∉ entries) (taken : takeOver entries config = some result) :
    field result = field config := by
  induction entries generalizing config with
  | nil => cases taken; rfl
  | cons entry entries ih =>
      rw [takeOver_cons] at taken
      obtain ⟨middle, first, others⟩ := Option.bind_eq_some_iff.mp taken
      have different : entry.1 ≠ name := by
        rintro rfl
        exact missing entry.2 List.mem_cons_self
      calc field result
          = field middle := ih (fun v member => missing v (List.mem_cons_of_mem _ member)) others
        _ = field config := own (sameBut_of_set first) different

/-- A field ends as its key sets it, because no later key is the same. -/
theorem field_of_mem
    (distinct : (entries.map Prod.fst).Nodup) {v : Toml.Value} {x : α}
    (sets : ∀ {config result}, set config name v = some result → field result = x)
    (member : (name, v) ∈ entries) (taken : takeOver entries config = some result) :
    field result = x := by
  induction entries generalizing config with
  | nil => cases member
  | cons entry entries ih =>
      rw [takeOver_cons] at taken
      obtain ⟨middle, first, others⟩ := Option.bind_eq_some_iff.mp taken
      rw [List.map_cons, List.nodup_cons] at distinct
      rcases List.mem_cons.mp member with rfl | later
      · have missing : ∀ v, (name, v) ∉ entries :=
          fun _ again => distinct.1 (List.mem_map.mpr ⟨_, again, rfl⟩)
        calc field result
            = field middle := field_of_not_mem own missing others
          _ = x := sets first
      · exact ih distinct.2 later others

end Field

theorem fits_of_takeOver
    (taken : takeOver entries config = some result) :
    ∀ entry ∈ entries, Fits entry.1 entry.2 :=
  exists_takeOver_iff.mp ⟨result, taken⟩

theorem mem_of_maxDepth_ne
    (distinct : (entries.map Prod.fst).Nodup)
    (taken : takeOver entries config = some result)
    (changed : result.maxDepth ≠ config.maxDepth) :
    ("max_depth", .integer result.maxDepth) ∈ entries := by
  obtain ⟨v, member⟩ : ∃ v, ("max_depth", v) ∈ entries := Classical.not_forall_not.mp
    fun missing => changed (field_of_not_mem SameBut.maxDepth missing taken)
  obtain ⟨n, rfl⟩ := (fits_of_takeOver taken _ member).maxDepth rfl
  rw [field_of_mem SameBut.maxDepth distinct maxDepth_of_set member taken]
  exact member

/-- The depth without a file is positive, so a depth of zero comes from the file. -/
theorem maxDepth_eq_zero_iff
    {home : Option String} (distinct : (entries.map Prod.fst).Nodup)
    (taken : takeOver entries (default home) = some result) :
    result.maxDepth = 0 ↔ ("max_depth", .integer 0) ∈ entries := by
  constructor
  · intro zero
    have changed : result.maxDepth ≠ (default home).maxDepth := by
      rw [zero]
      exact nofun
    have member := mem_of_maxDepth_ne distinct taken changed
    rwa [zero] at member
  · exact fun member =>
      field_of_mem SameBut.maxDepth distinct (maxDepth_of_set (n := 0)) member taken

end Entries

/-- A text that is used as a configuration file, with what its keys stand for. -/
structure Accepted (parse : Toml.Parser) (text : String)
    (entries : List (String × Toml.Value)) : Prop where
  read : parse text = some entries
  fits : ∀ entry ∈ entries, Fits entry.1 entry.2
  /-- The file does not ask for a depth of zero. -/
  usable : ("max_depth", .integer 0) ∉ entries

theorem ofText_eq_ok_iff
    {parse : Toml.Parser} (distinct : parse.DistinctKeys) {home : Option String}
    {text : String} {config : Config} :
    ofText parse home text = .ok config ↔
      ∃ entries, Accepted parse text entries ∧
        takeOver entries (default home) = some config := by
  constructor
  · intro used
    unfold ofText at used
    split at used
    · cases used
    · next entries read =>
        split at used
        · cases used
        · next taken =>
            split at used
            · cases used
            · next positive =>
                cases used
                have taken : takeOver entries (default home) = some config := taken
                have zero := maxDepth_eq_zero_iff (distinct _ _ read) taken
                exact ⟨entries, ⟨read, fits_of_takeOver taken, positive ∘ zero.mpr⟩, taken⟩
  · rintro ⟨entries, ⟨read, -, usable⟩, taken⟩
    have zero := maxDepth_eq_zero_iff (distinct _ _ read) taken
    unfold ofText
    split
    · next unread => cases read.symm.trans unread
    · next same =>
        cases read.symm.trans same
        split
        · next failed => cases taken.symm.trans failed
        · next again =>
            cases taken.symm.trans again
            exact if_neg (usable ∘ zero.mp)

end EffectLisp.Config
