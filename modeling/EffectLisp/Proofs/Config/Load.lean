import EffectLisp.Machine
import EffectLisp.Proofs.Config.File
import EffectLisp.Proofs.Number.Spelling

/-!
# Where the settings of a run come from

The environment stands over the file and the file over the defaults.  A file that cannot be
read or used, and a variable with an unusable value, count as not being there.
-/

namespace EffectLisp.Config

/-- Decimal digits, before which a plus may stand, spell a number that fits into 64 bits. -/
def Spells (text : String) (n : Nat) : Prop :=
  ∃ digits, digits ≠ [] ∧ Number.AllDigits digits ∧
    (text.toList = digits ∨ text.toList = '+' :: digits) ∧
    Nat.ofDigitChars 10 digits 0 = n ∧ n < 2 ^ 64

/-- The characters without a plus in front. -/
def afterPlus : List Char → List Char
  | '+' :: chars => chars
  | chars => chars

theorem afterPlus_eq_iff
    {chars digits : List Char} (allDigits : Number.AllDigits digits) :
    afterPlus chars = digits ↔ chars = digits ∨ chars = '+' :: digits := by
  constructor
  · intro stripped
    unfold afterPlus at stripped
    split at stripped
    · exact .inr (stripped ▸ rfl)
    · exact .inl stripped
  · rintro (rfl | rfl)
    · unfold afterPlus
      split
      · exact absurd (allDigits '+' List.mem_cons_self) (by decide)
      · rfl
    · rfl

theorem wordOf?_eq_some_iff {text : String} {n : Nat} :
    wordOf? text = some n ↔ Spells text n := by
  have unfolded : wordOf? text =
      if afterPlus text.toList = [] || !(afterPlus text.toList).all Char.isDigit then none
      else if Number.digitsValue (afterPlus text.toList) < 2 ^ 64 then
        some (Number.digitsValue (afterPlus text.toList))
      else none := rfl
  rw [unfolded, Number.digitsValue_eq_ofDigitChars]
  constructor
  · intro spelled
    split at spelled
    · cases spelled
    · next digits =>
        split at spelled
        · next fits =>
            simp only [Bool.or_eq_true, decide_eq_true_eq, Bool.not_eq_true', not_or,
              Bool.not_eq_false, List.all_eq_true] at digits
            obtain ⟨nonempty, allDigits⟩ := digits
            exact ⟨_, nonempty, allDigits, (afterPlus_eq_iff allDigits).mp rfl,
              Option.some.inj spelled, Option.some.inj spelled ▸ fits⟩
        · cases spelled
  · rintro ⟨digits, nonempty, allDigits, written, rfl, fits⟩
    rw [(afterPlus_eq_iff allDigits).mpr written, if_neg, if_pos fits]
    simp only [Bool.or_eq_true, decide_eq_true_eq, Bool.not_eq_true', not_or,
      Bool.not_eq_false, List.all_eq_true]
    exact ⟨nonempty, allDigits⟩

/-- The environment asks for the depth; zero counts as no depth. -/
def AsksForDepth (env : Environment) (n : Nat) : Prop :=
  ∃ text, env.maxDepth = some text ∧ Spells text n ∧ 0 < n

theorem maxDepth_override_of_asks
    {config : Config} {env : Environment} {n : Nat} (asks : AsksForDepth env n) :
    (config.override env).maxDepth = n := by
  obtain ⟨text, given, spells, positive⟩ := asks
  rw [override, given]
  simp only [Option.bind_some, wordOf?_eq_some_iff.mpr spells]
  exact if_neg (Nat.ne_of_gt positive)

theorem maxDepth_override
    {config : Config} {env : Environment} (silent : ∀ n, ¬AsksForDepth env n) :
    (config.override env).maxDepth = config.maxDepth := by
  rw [override]
  simp only
  split
  · next depth spelled =>
      obtain ⟨text, given, spelled⟩ := Option.bind_eq_some_iff.mp spelled
      split
      · rfl
      · next nonzero =>
          have asks : AsksForDepth env depth :=
            ⟨text, given, wordOf?_eq_some_iff.mp spelled, Nat.pos_of_ne_zero nonzero⟩
          exact absurd asks (silent depth)
  · rfl

/-- The text of the file at a path, if there is one that can be read. -/
def textAt {m : Type → Type} [Monad m] (host : Host m) : Option String → m (Option String)
  | none => pure none
  | some path => do
      if ← host.exists? path then
        pure (← host.readText path).toOption
      else pure none

/-- The settings without the environment: those of a text that can be used, or else the
defaults. -/
def ofText? (parse : Toml.Parser) (home text? : Option String) : Config :=
  (text?.bind fun text => (ofText parse home text).toOption).getD (default home)

theorem load_eq
    {m : Type → Type} [Monad m] [LawfulMonad m] (host : Host m) (env : Environment)
    (parse : Toml.Parser) :
    load host env parse =
      (fun text? => (ofText? parse env.home text?).override env) <$>
        textAt host (path env) := by
  unfold load
  cases path env with
  | none => simp [textAt, ofText?]
  | some path =>
      simp only [textAt, ofFile, map_bind, bind_assoc]
      congr 1
      funext found
      cases found with
      | false => simp [ofText?]
      | true =>
          simp only [if_true, bind_assoc, map_bind, map_pure]
          congr 1
          funext result
          cases result with
          | error error => simp [Except.toOption, ofText?]
          | ok text =>
              simp only [pure_bind, ofText?, Except.toOption, Option.bind_some]
              cases ofText parse env.home text <;> rfl

/-- A text that can be used gives the key the value. -/
def Gives (parse : Toml.Parser) (text? : Option String) (key : String) (v : Toml.Value) : Prop :=
  ∃ text entries, text? = some text ∧ Accepted parse text entries ∧ (key, v) ∈ entries

/-- The keys that a run takes from a text; there are none if the text cannot be used. -/
structure Taken (parse : Toml.Parser) (home text? : Option String)
    (entries : List (String × Toml.Value)) : Prop where
  gives : ∀ {key v}, Gives parse text? key v ↔ (key, v) ∈ entries
  distinct : (entries.map Prod.fst).Nodup
  usable : ("max_depth", .integer 0) ∉ entries
  taken : takeOver entries (default home) = some (ofText? parse home text?)

section Parser

variable {parse : Toml.Parser}

theorem Accepted.unique
    {text : String} {entries others : List (String × Toml.Value)}
    (first : Accepted parse text entries) (second : Accepted parse text others) : entries = others :=
  Option.some.inj (first.read.symm.trans second.read)

variable (distinct : parse.DistinctKeys)

include distinct

theorem Accepted.exists_ofText
    {text : String} {entries : List (String × Toml.Value)}
    (accepted : Accepted parse text entries) (home : Option String) :
    ∃ config, ofText parse home text = .ok config := by
  obtain ⟨config, taken⟩ := exists_takeOver_iff.mpr accepted.fits
  exact ⟨config, (ofText_eq_ok_iff distinct).mpr ⟨entries, accepted, taken⟩⟩

theorem ofText?_of_rejected
    {text? : Option String}
    (rejected : ∀ text entries, text? = some text → ¬Accepted parse text entries)
    (home : Option String) : ofText? parse home text? = default home := by
  cases text? with
  | none => rfl
  | some text =>
      cases used : ofText parse home text with
      | error error => simp [ofText?, used, Except.toOption]
      | ok config =>
          obtain ⟨entries, accepted, -⟩ := (ofText_eq_ok_iff distinct).mp used
          exact absurd accepted (rejected text entries rfl)

theorem exists_taken (home text? : Option String) :
    ∃ entries, Taken parse home text? entries := by
  by_cases accepts : ∃ text entries, text? = some text ∧ Accepted parse text entries
  · obtain ⟨text, entries, rfl, accepted⟩ := accepts
    obtain ⟨config, used⟩ := accepted.exists_ofText distinct home
    obtain ⟨same, again, taken⟩ := (ofText_eq_ok_iff distinct).mp used
    obtain rfl : entries = same := accepted.unique again
    refine ⟨entries, ⟨fun gives => ?_, fun member => ⟨text, entries, rfl, accepted, member⟩⟩,
      distinct _ _ accepted.read, accepted.usable, ?_⟩
    · obtain ⟨_, others, given, other, member⟩ := gives
      cases given
      rwa [accepted.unique other]
    · rw [taken, ofText?, Option.bind_some, used]
      rfl
  · have rejected : ∀ text entries, text? = some text → ¬Accepted parse text entries :=
      fun text entries given accepted => accepts ⟨text, entries, given, accepted⟩
    refine ⟨[], ⟨fun gives => ?_, fun member => absurd member List.not_mem_nil⟩,
      List.nodup_nil, List.not_mem_nil, ?_⟩
    · obtain ⟨text, entries, given, accepted, -⟩ := gives
      exact absurd accepted (rejected text entries given)
    · rw [ofText?_of_rejected distinct rejected]
      rfl

end Parser

section Taken

variable {parse : Toml.Parser} {home text? : Option String} {entries : List (String × Toml.Value)}
  (taken : Taken parse home text? entries)

include taken

theorem Taken.maxDepth_pos : 0 < (ofText? parse home text?).maxDepth :=
  Nat.pos_of_ne_zero (taken.usable ∘ (maxDepth_eq_zero_iff taken.distinct taken.taken).mp)

section Field

variable {α : Type} {field : Config → α} {name : String}
  (own : ∀ {key config result}, SameBut key config result → key ≠ name →
    field result = field config)

include own

theorem Taken.field_of_gives
    {v : Toml.Value} {x : α}
    (sets : ∀ {config result}, set config name v = some result → field result = x)
    (given : Gives parse text? name v) : field (ofText? parse home text?) = x :=
  field_of_mem own taken.distinct sets (taken.gives.mp given) taken.taken

/-- A field stays as it is by default if the text gives its key no value of the right kind. -/
theorem Taken.field_of_missing
    {β : Type} {wrap : β → Toml.Value} (kind : ∀ {v}, Fits name v → ∃ x, v = wrap x)
    (missing : ∀ x, ¬Gives parse text? name (wrap x)) :
    field (ofText? parse home text?) = field (default home) := by
  refine field_of_not_mem own ?_ taken.taken
  intro v member
  obtain ⟨x, rfl⟩ := kind (fits_of_takeOver taken.taken _ member)
  exact missing x (taken.gives.mpr member)

end Field

theorem Taken.banner_eq_true_iff :
    (ofText? parse home text?).banner = true ↔ Gives parse text? "banner" (.boolean true) := by
  constructor
  · intro shown
    by_contra unsaid
    have missing : ∀ given, ¬Gives parse text? "banner" (.boolean given) := by
      intro given gives
      have same := taken.field_of_gives SameBut.banner banner_of_set gives
      obtain rfl : given = true := same.symm.trans shown
      exact unsaid gives
    have kept := taken.field_of_missing SameBut.banner (fun fits => fits.banner rfl) missing
    rw [shown] at kept
    cases kept
  · exact taken.field_of_gives SameBut.banner banner_of_set

end Taken

/-- The settings of a run in an environment that has found the text of a file, or none. -/
structure Settled (parse : Toml.Parser) (env : Environment) (text? : Option String)
    (config : Config) : Prop where
  positive : 0 < config.maxDepth
  depth_of_env : ∀ n, AsksForDepth env n → config.maxDepth = n
  depth_of_file : (∀ n, ¬AsksForDepth env n) →
    ∀ n : Nat, Gives parse text? "max_depth" (.integer n) → config.maxDepth = n
  depth_of_default : (∀ n, ¬AsksForDepth env n) →
    (∀ n : Nat, ¬Gives parse text? "max_depth" (.integer n)) → config.maxDepth = 400
  banner : config.banner = true ↔
    env.banner = some "1" ∨ Gives parse text? "banner" (.boolean true)
  history_of_file : ∀ path, Gives parse text? "history_file" (.string path) →
    config.historyFile = some path
  history_of_default : (∀ path, ¬Gives parse text? "history_file" (.string path)) →
    config.historyFile = env.home.map (FileSystem.join · ".kern_history")
  prelude_of_file : ∀ path, Gives parse text? "prelude" (.string path) →
    config.prelude = some path
  prelude_of_default : (∀ path, ¬Gives parse text? "prelude" (.string path)) →
    config.prelude = env.home.map (FileSystem.join · ".kernrc")

theorem settled_override
    {parse : Toml.Parser} (distinct : parse.DistinctKeys) (env : Environment)
    (text? : Option String) :
    Settled parse env text? ((ofText? parse env.home text?).override env) := by
  obtain ⟨entries, taken⟩ := exists_taken distinct env.home text?
  constructor
  case positive =>
    by_cases asks : ∃ n, AsksForDepth env n
    · obtain ⟨n, asks⟩ := asks
      rw [maxDepth_override_of_asks asks]
      exact asks.choose_spec.2.2
    · rw [maxDepth_override (not_exists.mp asks)]
      exact taken.maxDepth_pos
  case depth_of_env => exact fun n asks => maxDepth_override_of_asks asks
  case depth_of_file =>
    intro silent n given
    rw [maxDepth_override silent]
    exact taken.field_of_gives SameBut.maxDepth maxDepth_of_set given
  case depth_of_default =>
    intro silent missing
    rw [maxDepth_override silent]
    exact taken.field_of_missing SameBut.maxDepth (fun fits => fits.maxDepth rfl) missing
  case banner =>
    rw [← taken.banner_eq_true_iff, override, Bool.or_eq_true, decide_eq_true_eq, or_comm]
  case history_of_file =>
    exact fun path => taken.field_of_gives SameBut.historyFile historyFile_of_set
  case history_of_default =>
    exact taken.field_of_missing SameBut.historyFile fun fits => fits.historyFile rfl
  case prelude_of_file =>
    exact fun path => taken.field_of_gives SameBut.prelude prelude_of_set
  case prelude_of_default =>
    exact taken.field_of_missing SameBut.prelude fun fits => fits.prelude rfl

/-- What a source gives is settled where the source gives something, and if there is nothing
from it by what comes next. -/
theorem eq_of_source
    {α β : Type} {gives : β → Prop} {setting : β → α} {first second : α}
    (firstGiven : ∀ x, gives x → first = setting x)
    (secondGiven : ∀ x, gives x → second = setting x)
    (next : (∀ x, ¬gives x) → first = second) : first = second := by
  by_cases given : ∃ x, gives x
  · obtain ⟨x, given⟩ := given
    rw [firstGiven x given, secondGiven x given]
  · exact next (not_exists.mp given)

/-- Every field comes from one place, so nothing about the settings is left open. -/
theorem Settled.unique
    {parse : Toml.Parser} {env : Environment} {text? : Option String}
    {config other : Config} (first : Settled parse env text? config)
    (second : Settled parse env text? other) :
    config = other := by
  have depth : config.maxDepth = other.maxDepth := by
    refine eq_of_source first.depth_of_env second.depth_of_env fun silent => ?_
    refine eq_of_source (first.depth_of_file silent) (second.depth_of_file silent) ?_
    intro missing
    rw [first.depth_of_default silent missing, second.depth_of_default silent missing]
  have history : config.historyFile = other.historyFile := by
    refine eq_of_source first.history_of_file second.history_of_file fun missing => ?_
    rw [first.history_of_default missing, second.history_of_default missing]
  have prelude : config.prelude = other.prelude := by
    refine eq_of_source first.prelude_of_file second.prelude_of_file fun missing => ?_
    rw [first.prelude_of_default missing, second.prelude_of_default missing]
  have banner : config.banner = other.banner :=
    Bool.eq_iff_iff.mpr (first.banner.trans second.banner.symm)
  cases config
  cases other
  rw [mk.injEq]
  exact ⟨depth, history, prelude, banner⟩

/-- A run settles on a positive depth and on settings that come from the right place, and a
file that cannot be used is as good as none.  Of what reads the file it matters only that it
gives no key two values. -/
theorem load_settles
    {m : Type → Type} [Monad m] [LawfulMonad m] (host : Host m) (env : Environment)
    {parse : Toml.Parser} (distinct : parse.DistinctKeys) :
    ∃ settle : Option String → Config,
      load host env parse = settle <$> textAt host (path env) ∧
      (∀ text?, Settled parse env text? (settle text?)) ∧
      ∀ text?, (∀ text entries, text? = some text → ¬Accepted parse text entries) →
        settle text? = settle none := by
  refine ⟨_, load_eq host env parse, settled_override distinct env, ?_⟩
  intro text? rejected
  rw [ofText?_of_rejected distinct rejected]
  rfl

/-- A depth of zero in the environment gives way to the file, and a depth of zero in the file
makes the file useless. -/
theorem load_settles_zero :
    let env : Environment := ⟨some "/home/kay", none, some "0", some "yes"⟩
    let text := "max_depth = 64\nprelude = \"start\"\n"
    let useless := "max_depth = 0\nbanner = true\n"
    LawfulMonad (StateM Machine) ∧ Toml.Parser.DistinctKeys Toml.parse ∧
      ∃ settle : Option String → Config,
        load Machine.host env Toml.parse = settle <$> textAt Machine.host (path env) ∧
          settle (some text) =
            ⟨64, some "/home/kay/.kern_history", some "start", false⟩ ∧
          settle (some useless) = settle none ∧
          settle none =
            ⟨400, some "/home/kay/.kern_history", some "/home/kay/.kernrc", false⟩ := by
  intro env text useless
  have distinct := Toml.parse_distinctKeys
  obtain ⟨settle, loaded, settled, rejected⟩ := load_settles Machine.host env distinct
  have settles (text? : Option String) :
      settle text? = (ofText? Toml.parse env.home text?).override env :=
    (settled text?).unique (settled_override distinct env text?)
  have refused :
      ∀ text entries, some useless = some text → ¬Accepted Toml.parse text entries := by
    intro text entries same accepted
    cases same
    obtain ⟨config, used⟩ := accepted.exists_ofText distinct none
    have failed : (ofText Toml.parse none useless).toOption = none := by decide +kernel
    rw [used] at failed
    cases failed
  refine ⟨inferInstance, distinct, settle, loaded, ?_, rejected _ refused, ?_⟩
  · rw [settles]
    decide +kernel
  · rw [settles]
    decide +kernel

end EffectLisp.Config
