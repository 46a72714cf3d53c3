import EffectLisp.Proofs.Eval.Call
import EffectLisp.Proofs.Session.LastExchange

/-!
# Arguments are checked before requests are made

A call of a primitive goes through three stages: the number of its arguments, their
shapes from left to right, and the requests.  A call that is refused at one stage does
not come to the next.  `Primitive.checks` says what each argument is checked for, and
`Primitive.Asks` which exchanges a call comes to that is not refused.
-/

namespace EffectLisp

open Interaction (Path)

/-- Whether a value has a shape. -/
def Shape.fits : Shape → Value → Bool
  | .string, .string _ | .path, .string _ | .content, .string _ | .url, .string _ => true
  | .number, .number _ => true
  | .list, .list _ => true
  | .nonEmptyList, .list (_ :: _) => true
  | .listOrString, .list _ | .listOrString, .string _ => true
  | .callable, .callable _ | .operator, .callable _ => true
  | .readableSymbol, .symbol name => Datum.isReadableSymbol name
  | .serializable, v => v.isSerializable
  | _, _ => false

namespace Primitive

/-- The shapes that the argument at a position is checked for, in the order of the
checks. -/
def checks : Primitive → Nat → List Shape
  | slurp, _ | fileExists, _ | parseText, _ | concat, _ | lines, _ => [.string]
  | put, 0 | append, 0 => [.path]
  | put, _ | append, _ => [.content]
  | wslurp, _ => [.url]
  | add, _ | subtract, _ | multiply, _ | divide, _ | less, _ | greater, _ => [.number]
  | head, _ | tail, _ => [.list, .nonEmptyList]
  | isNull, _ | cons, 1 => [.list]
  | length, _ => [.listOrString]
  | cons, _ | equal, _ | list, _ | showValue, _ | evalValue, _ => []

/-- The first of its shapes that an argument lacks. -/
def lacks? (p : Primitive) (position : Nat) (v : Value) : Option Shape :=
  (p.checks position).find? fun shape => !shape.fits v

/-- No argument lacks a shape. -/
def Takes (p : Primitive) (args : List Value) : Prop :=
  ∀ position v, args[position]? = some v → p.lacks? position v = none

/-- The leftmost argument that lacks a shape, and the shape. -/
def Refuses (p : Primitive) (args : List Value) (shape : Shape) (v : Value) : Prop :=
  ∃ before after,
    args = before ++ v :: after ∧ p.Takes before ∧ p.lacks? before.length v = some shape

/-- The primitives that make requests. -/
def effectful : List Primitive :=
  [slurp, put, append, fileExists, wslurp]

/-- The request of a call that makes one and no other. -/
def onlyRequest? : Primitive → List Value → Option Effect
  | put, [.string path, .string content] => some (.write path content .truncate)
  | append, [.string path, .string content] => some (.write path content .append)
  | fileExists, [.string path] => some (.probe path)
  | wslurp, [.string url] => some (.fetch url)
  | _, _ => none

/-- The exchanges of a call with arguments that are taken. -/
inductive Asks : Primitive → List Value → List Exchange → Prop where
  | once {p : Primitive} {args : List Value} {effect : Effect} (reply : Reply) :
      p.onlyRequest? args = some effect → Asks p args [⟨effect, reply⟩]
  /-- What exists is read. -/
  | slurp_found (path : String) (reply : Reply) :
      Asks slurp [.string path]
        [⟨.probe path, .value (.bool true)⟩, ⟨.read path, reply⟩]
  /-- Upon any other answer to the probe nothing is read. -/
  | slurp_missing (path : String) (reply : Reply) :
      reply ≠ .value (.bool true) →
      Asks slurp [.string path] [⟨.probe path, reply⟩]
  | nothing {p : Primitive} (args : List Value) :
      p ∉ effectful → Asks p args []

section Refusal

variable {p : Primitive} {shape : Shape} {v : Value}

theorem Refuses.of_singleton {w : Value} (refused : p.Refuses [w] shape v) :
    v = w ∧ p.lacks? 0 w = some shape := by
  obtain ⟨before, after, split, -, lacking⟩ := refused
  cases before with
  | nil =>
      cases split
      exact ⟨rfl, lacking⟩
  | cons first before => simp at split

theorem Refuses.of_pair {u w : Value} (refused : p.Refuses [u, w] shape v) :
    v = u ∧ p.lacks? 0 u = some shape ∨
      v = w ∧ p.lacks? 0 u = none ∧ p.lacks? 1 w = some shape := by
  obtain ⟨before, after, split, taken, lacking⟩ := refused
  cases before with
  | nil =>
      cases split
      exact .inl ⟨rfl, lacking⟩
  | cons first before =>
      cases before with
      | nil =>
          cases split
          exact .inr ⟨rfl, taken 0 _ rfl, lacking⟩
      | cons second before => simp at split

theorem Takes.snoc
    {before : List Value} (taken : p.Takes before) (fits : p.lacks? before.length v = none) :
    p.Takes (before ++ [v]) := by
  intro position w found
  rcases Nat.lt_or_ge position before.length with within | beyond
  · rw [List.getElem?_append_left within] at found
    exact taken position w found
  · rw [List.getElem?_append_right beyond] at found
    obtain ⟨last, same⟩ := List.getElem?_eq_some_iff.mp found
    have position_eq : position = before.length := by
      simp only [List.length_singleton] at last
      omega
    subst position_eq
    simp only [List.getElem_singleton] at same
    rwa [← same]

theorem takes_or_refuses
    {before : List Value} (taken : p.Takes before) (rest : List Value) :
    p.Takes (before ++ rest) ∨ ∃ shape v, p.Refuses (before ++ rest) shape v := by
  induction rest generalizing before with
  | nil =>
      left
      rwa [List.append_nil]
  | cons v rest induction =>
      cases lacking : p.lacks? before.length v with
      | none =>
          rw [List.append_cons]
          exact induction (taken.snoc lacking)
      | some shape => exact .inr ⟨shape, v, before, rest, rfl, taken, lacking⟩

/-- Of the arguments that lack a shape one is the leftmost. -/
theorem exists_refused_of_not_takes
    {args : List Value} (misfit : ¬p.Takes args) : ∃ shape v, p.Refuses args shape v := by
  have none : p.Takes [] := nofun
  exact (takes_or_refuses none args).resolve_left misfit

/-- What is gathered from values one by one fails with the first that fails. -/
theorem gathered_eq_fail
    {α : Type} (one : Value → Evaluation α) {all : List Value → Evaluation (List α)}
    (each : ∀ w ws, all (w :: ws) = one w >>= fun a => all ws >>= fun as => pure (a :: as))
    {before after : List Value} {f : Fault}
    (taken : ∀ w ∈ before, ∃ a, one w = pure a) (refused : one v = Run.fail f) :
    all (before ++ v :: after) = Run.fail f := by
  induction before with
  | nil =>
      rw [List.nil_append, each, refused]
      rfl
  | cons w before induction =>
      obtain ⟨a, same⟩ := taken w (by simp)
      have rest := induction fun u member => taken u (by simp [member])
      rw [List.cons_append, each, same, rest]
      rfl

theorem numbersOf_of_refused
    {before after : List Value}
    (taken : ∀ w ∈ before, Shape.number.fits w = true) (lacking : Shape.number.fits v = false) :
    numbersOf (before ++ v :: after) = Run.fail (.typeMismatch .number v) := by
  apply gathered_eq_fail numberOf (fun _ _ => rfl)
  · intro w member
    have fits := taken w member
    cases w <;> cases fits
    exact ⟨_, rfl⟩
  · cases v <;> cases lacking <;> rfl

theorem textsOf_of_refused
    {before after : List Value}
    (taken : ∀ w ∈ before, Shape.string.fits w = true) (lacking : Shape.string.fits v = false) :
    textsOf (before ++ v :: after) = Run.fail (.typeMismatch .string v) := by
  apply gathered_eq_fail (textOf .string) (fun _ _ => rfl)
  · intro w member
    have fits := taken w member
    cases w <;> cases fits
    exact ⟨_, rfl⟩
  · cases v <;> cases lacking <;> rfl

/-- Where every argument is checked for one and the same shape. -/
theorem Refuses.uniform
    {args : List Value} (only : Shape) (checked : ∀ position, p.checks position = [only])
    (refused : p.Refuses args shape v) :
    shape = only ∧ ∃ before after,
      args = before ++ v :: after ∧ (∀ w ∈ before, only.fits w = true) ∧
        only.fits v = false := by
  have lacks (position : Nat) (w : Value) :
      p.lacks? position w = if only.fits w then none else some only := by
    rw [lacks?, checked]
    cases fits : only.fits w <;> simp [fits]
  obtain ⟨before, after, split, taken, lacking⟩ := refused
  rw [lacks] at lacking
  split at lacking
  · cases lacking
  · next misfit =>
      cases lacking
      refine ⟨rfl, before, after, split, ?_, Bool.eq_false_iff.mpr misfit⟩
      intro w member
      obtain ⟨position, found⟩ := List.mem_iff_getElem?.mp member
      have fitting := taken position w found
      rw [lacks] at fitting
      split at fitting
      · assumption
      · cases fitting

/-- The arguments are refused by the leftmost that lacks a shape. -/
theorem run_of_refused
    {args : List Value} (accepted : p.arity.accepts args.length = true)
    (refused : p.Refuses args shape v) :
    p.run args = Run.fail (.typeMismatch shape v) := by
  cases p with
  | slurp | fileExists | wslurp | parseText | isNull | length | lines =>
      obtain ⟨w, rfl⟩ := Arity.eq_singleton accepted
      obtain ⟨rfl, lacking⟩ := refused.of_singleton
      cases v <;> cases lacking <;> rfl
  | head | tail =>
      obtain ⟨w, rfl⟩ := Arity.eq_singleton accepted
      obtain ⟨rfl, lacking⟩ := refused.of_singleton
      cases v with
      | list items =>
          cases items with
          | nil =>
              cases lacking
              rfl
          | cons item items => cases lacking
      | _ =>
          cases lacking
          rfl
  | put | append | less | greater | cons =>
      obtain ⟨u, w, rfl⟩ := Arity.eq_pair accepted
      rcases refused.of_pair with ⟨rfl, lacking⟩ | ⟨rfl, taken, lacking⟩
      · cases v <;> cases lacking <;> rfl
      · cases u <;> cases taken <;> cases v <;> cases lacking <;> rfl
  | add | multiply | subtract | divide =>
      obtain ⟨rfl, before, after, rfl, taken, lacking⟩ :=
        refused.uniform .number (fun _ => rfl)
      rw [run, numbersOf_of_refused taken lacking]
      rfl
  | concat =>
      obtain ⟨rfl, before, after, rfl, taken, lacking⟩ :=
        refused.uniform .string (fun _ => rfl)
      rw [run, textsOf_of_refused taken lacking]
      rfl
  | showValue | evalValue | equal | list =>
      obtain ⟨before, after, -, -, lacking⟩ := refused
      cases lacking

end Refusal

end Primitive

namespace Run

variable {σ α β : Type}

/-- The run comes to its result or fault without a request. -/
def Quiet (run : Run σ α) : Prop :=
  ∃ given : Except Fault α, run = ofExcept given

namespace Quiet

theorem pure (a : α) : Quiet (Pure.pure a : Run σ α) :=
  ⟨.ok a, rfl⟩

theorem fail (f : Fault) : Quiet (Run.fail f : Run σ α) :=
  ⟨.error f, rfl⟩

theorem bind
    {first : Run σ α} {next : α → Run σ β} (quiet : Quiet first)
    (later : ∀ a, Quiet (next a)) : Quiet (first >>= next) := by
  obtain ⟨given, rfl⟩ := quiet
  cases given with
  | ok a => exact later a
  | error f => exact fail f

theorem exists_trace_iff
    {run : Run σ α} (quiet : Quiet run) {state : σ} {exchanges : List Exchange} :
    (∃ result final, Trace run state exchanges result final) ↔ exchanges = [] := by
  obtain ⟨given, rfl⟩ := quiet
  simp only [trace_ofExcept_iff]
  constructor
  · rintro ⟨_, _, none, -⟩
    exact none
  · intro none
    exact ⟨_, _, none, rfl, rfl⟩

end Quiet

/-- What follows without a request adds no exchange. -/
theorem exists_trace_bind_iff
    {first : Run σ α} {next : α → Run σ β} (quiet : ∀ a, Quiet (next a)) {state : σ}
    {exchanges : List Exchange} :
    (∃ result final, Trace (first >>= next) state exchanges result final) ↔
      ∃ result final, Trace first state exchanges result final := by
  constructor
  · rintro ⟨result, final, trace⟩
    rcases trace_bind_iff.mp trace with
      ⟨a, middle, front, back, rfl, asked, later⟩ | ⟨stop, rfl, asked⟩
    · rw [(quiet a).exists_trace_iff.mp ⟨_, _, later⟩, List.append_nil]
      exact ⟨_, _, asked⟩
    · exact ⟨_, _, asked⟩
  · rintro ⟨stop | a, final, asked⟩
    · exact ⟨_, _, trace_bind_iff.mpr (.inr ⟨stop, rfl, asked⟩)⟩
    · have quietly : ∃ result last, Trace (next a) final [] result last :=
        (quiet a).exists_trace_iff.mpr rfl
      obtain ⟨result, last, later⟩ := quietly
      refine ⟨result, last, trace_bind_iff.mpr
        (.inl ⟨a, final, exchanges, [], ?_, asked, later⟩)⟩
      exact (List.append_nil exchanges).symm

end Run

namespace Primitive

open Run (Quiet Trace)

theorem quiet_textOf (expected : Shape) (v : Value) : Quiet (textOf expected v) := by
  cases v with
  | string text => exact .pure text
  | _ => exact .fail _

theorem quiet_numberOf (v : Value) : Quiet (numberOf v) := by
  cases v with
  | number x => exact .pure x
  | _ => exact .fail _

theorem quiet_itemsOf (v : Value) : Quiet (itemsOf v) := by
  cases v with
  | list items => exact .pure items
  | _ => exact .fail _

theorem quiet_lengthOf (v : Value) : Quiet (lengthOf v) := by
  cases v with
  | list | string => exact .pure _
  | _ => exact .fail _

theorem quiet_numbersOf (vs : List Value) : Quiet (numbersOf vs) := by
  induction vs with
  | nil => exact .pure []
  | cons v vs induction =>
      refine (quiet_numberOf v).bind fun x => ?_
      exact induction.bind fun xs => .pure (x :: xs)

theorem quiet_textsOf (vs : List Value) : Quiet (textsOf vs) := by
  induction vs with
  | nil => exact .pure []
  | cons v vs induction =>
      refine (quiet_textOf .string v).bind fun text => ?_
      exact induction.bind fun texts => .pure (text :: texts)

section Requests

variable {p : Primitive} {args : List Value}

theorem quiet_run
    (notEval : p ≠ evalValue) (silent : p ∉ effectful)
    (accepted : p.arity.accepts args.length = true) : Quiet (p.run args) := by
  cases p with
  | slurp | put | append | fileExists | wslurp => exact absurd (by decide) silent
  | evalValue => exact absurd rfl notEval
  | showValue =>
      obtain ⟨v, rfl⟩ := Arity.eq_singleton accepted
      exact Quiet.bind ⟨_, rfl⟩ fun text => .pure _
  | parseText =>
      obtain ⟨text, rfl⟩ := Arity.eq_singleton accepted
      exact (quiet_textOf .string text).bind fun text => ⟨_, rfl⟩
  | add | multiply | subtract | divide =>
      exact (quiet_numbersOf args).bind fun xs => .pure _
  | equal =>
      obtain ⟨v, w, rfl⟩ := Arity.eq_pair accepted
      exact .pure _
  | less | greater =>
      obtain ⟨v, w, rfl⟩ := Arity.eq_pair accepted
      refine (quiet_numberOf v).bind fun x => ?_
      exact (quiet_numberOf w).bind fun y => .pure _
  | list => exact .pure _
  | head | tail =>
      obtain ⟨v, rfl⟩ := Arity.eq_singleton accepted
      refine (quiet_itemsOf v).bind fun items => ?_
      cases items with
      | nil => exact .fail _
      | cons first rest => exact .pure _
  | cons =>
      obtain ⟨v, rest, rfl⟩ := Arity.eq_pair accepted
      exact (quiet_itemsOf rest).bind fun items => .pure _
  | length =>
      obtain ⟨v, rfl⟩ := Arity.eq_singleton accepted
      exact (quiet_lengthOf v).bind fun count => .pure _
  | isNull =>
      obtain ⟨v, rfl⟩ := Arity.eq_singleton accepted
      exact (quiet_itemsOf v).bind fun items => .pure _
  | concat => exact (quiet_textsOf args).bind fun texts => .pure _
  | lines =>
      obtain ⟨text, rfl⟩ := Arity.eq_singleton accepted
      exact (quiet_textOf .string text).bind fun text => .pure _

theorem exists_trace_perform_iff
    {σ : Type} {effect : Effect} {state : σ} {exchanges : List Exchange} :
    (∃ result final, Trace (Run.perform effect) state exchanges result final) ↔
      ∃ reply, exchanges = [⟨effect, reply⟩] := by
  simp only [Run.trace_perform_iff]
  constructor
  · rintro ⟨_, _, reply, asked, -⟩
    exact ⟨reply, asked⟩
  · rintro ⟨reply, asked⟩
    exact ⟨_, _, reply, asked, rfl, rfl⟩

theorem exists_trace_probe_iff
    {path : String} {serial : Nat} {exchanges : List Exchange} :
    (∃ result final, Trace (probe path) serial exchanges result final) ↔
      ∃ reply, exchanges = [⟨.probe path, reply⟩] := by
  simp only [trace_probe_iff]
  constructor
  · rintro ⟨_, _, reply, asked, -⟩
    exact ⟨reply, asked⟩
  · rintro ⟨reply, asked⟩
    exact ⟨_, _, reply, asked, rfl, rfl⟩

theorem exists_trace_fileExists_iff
    {path : String} {serial : Nat} {exchanges : List Exchange} :
    (∃ result final,
        Trace (run fileExists [.string path]) serial exchanges result final) ↔
      ∃ reply, exchanges = [⟨.probe path, reply⟩] := by
  have probes : run fileExists [.string path] =
      probe path >>= fun found => pure (.bool found) := rfl
  rw [probes, Run.exists_trace_bind_iff (fun _ => .pure _), exists_trace_probe_iff]

theorem reply_of_trace_probe
    {path : String} {serial final : Nat} {exchanges : List Exchange} {found : Bool}
    (asked : Trace (probe path) serial exchanges (.ok found) final) :
    exchanges = [⟨.probe path, .value (.bool found)⟩] := by
  obtain ⟨reply, rfl, -, answer⟩ := trace_probe_iff.mp asked
  rcases reply with v | f | payload
  · cases v with
    | bool b =>
        cases answer
        rfl
    | _ => cases answer
  · cases answer
  · cases answer

theorem exists_trace_slurp_iff
    {path : String} {serial : Nat} {exchanges : List Exchange} :
    (∃ result final, Trace (run slurp [.string path]) serial exchanges result final) ↔
      Asks slurp [.string path] exchanges := by
  have reads : run slurp [.string path] = readFile path := rfl
  rw [reads, readFile]
  constructor
  · rintro ⟨result, final, trace⟩
    rcases Run.trace_bind_iff.mp trace with
      ⟨found, middle, front, back, rfl, asked, later⟩ | ⟨stop, rfl, asked⟩
    · rw [reply_of_trace_probe asked]
      cases found with
      | false =>
          obtain ⟨rfl, -, -⟩ := Run.trace_fail_iff.mp later
          exact .slurp_missing path _ nofun
      | true =>
          obtain ⟨given, rfl, -, -⟩ := Run.trace_perform_iff.mp later
          exact .slurp_found path given
    · obtain ⟨reply, rfl, -, answer⟩ := trace_probe_iff.mp asked
      apply Asks.slurp_missing path reply
      rintro rfl
      cases answer
  · intro asks
    cases asks with
    | slurp_found _ given =>
        refine ⟨given.answer, serial, Run.trace_bind_iff.mpr
          (.inl ⟨true, serial, [_], [_], rfl, ?_, ?_⟩)⟩
        · exact trace_probe_iff.mpr ⟨_, rfl, rfl, rfl⟩
        · exact Run.trace_perform_iff.mpr ⟨_, rfl, rfl, rfl⟩
    | slurp_missing _ reply different =>
        have probed : ∃ result final,
            Run.Trace (probe path) serial [⟨.probe path, reply⟩] result final :=
          exists_trace_probe_iff.mpr ⟨reply, rfl⟩
        obtain ⟨stop | found, final, asked⟩ := probed
        · exact ⟨_, _, Run.trace_bind_iff.mpr (.inr ⟨stop, rfl, asked⟩)⟩
        · cases found with
          | false =>
              refine ⟨.error (.fault (.io ("slurp: file not found: " ++ path) path)), final,
                Run.trace_bind_iff.mpr (.inl ⟨false, final, [_], [], rfl, asked, ?_⟩)⟩
              exact Run.trace_fail_iff.mpr ⟨rfl, rfl, rfl⟩
          | true =>
              cases reply_of_trace_probe asked
              exact absurd rfl different
    | nothing _ silent => exact absurd (by decide) silent
    | once _ only => cases only

theorem asks_iff_of_onlyRequest
    {effect : Effect} (only : p.onlyRequest? args = some effect)
    {exchanges : List Exchange} :
    p.Asks args exchanges ↔ ∃ reply, exchanges = [⟨effect, reply⟩] := by
  constructor
  · intro asks
    cases asks with
    | once reply same =>
        cases only.symm.trans same
        exact ⟨reply, rfl⟩
    | slurp_found | slurp_missing => cases only
    | nothing _ silent =>
        cases p with
        | put | append | fileExists | wslurp => exact absurd (by decide) silent
        | _ => cases only
  · rintro ⟨reply, rfl⟩
    exact .once reply only

/-- The primitives that make one request whatever it is answered. -/
theorem exists_onlyRequest
    (asking : p ∈ effectful) (other : p ≠ slurp)
    (accepted : p.arity.accepts args.length = true) (taken : p.Takes args) :
    ∃ effect, p.onlyRequest? args = some effect ∧
      ∀ serial exchanges,
        (∃ result final, Trace (p.run args) serial exchanges result final) ↔
          ∃ reply, exchanges = [⟨effect, reply⟩] := by
  cases p with
  | slurp => exact absurd rfl other
  | put | append =>
      obtain ⟨v, w, rfl⟩ := Arity.eq_pair accepted
      have path := taken 0 v rfl
      have content := taken 1 w rfl
      cases v <;> cases path
      cases w <;> cases content
      exact ⟨_, rfl, fun serial exchanges => exists_trace_perform_iff⟩
  | fileExists =>
      obtain ⟨v, rfl⟩ := Arity.eq_singleton accepted
      have path := taken 0 v rfl
      cases v <;> cases path
      exact ⟨_, rfl, fun serial exchanges => exists_trace_fileExists_iff⟩
  | wslurp =>
      obtain ⟨v, rfl⟩ := Arity.eq_singleton accepted
      have url := taken 0 v rfl
      cases v <;> cases url
      exact ⟨_, rfl, fun serial exchanges => exists_trace_perform_iff⟩
  | _ => exact absurd asking (by decide)

/-- A call that is taken makes the requests of its primitive, whatever the replies. -/
theorem exists_trace_run_iff
    (notEval : p ≠ evalValue) (accepted : p.arity.accepts args.length = true)
    (taken : p.Takes args) {serial : Nat} {exchanges : List Exchange} :
    (∃ result final, Trace (p.run args) serial exchanges result final) ↔
      p.Asks args exchanges := by
  by_cases asking : p ∈ effectful
  · by_cases slurps : p = slurp
    · subst slurps
      obtain ⟨v, rfl⟩ := Arity.eq_singleton accepted
      have path := taken 0 v rfl
      cases v <;> cases path
      exact exists_trace_slurp_iff
    · obtain ⟨effect, only, traces⟩ := exists_onlyRequest asking slurps accepted taken
      rw [traces, asks_iff_of_onlyRequest only]
  · rw [(quiet_run notEval asking accepted).exists_trace_iff]
    constructor
    · rintro rfl
      exact .nothing args asking
    · intro asks
      cases asks with
      | once _ only =>
          cases p with
          | put | append | fileExists | wslurp => exact absurd (by decide) asking
          | _ => cases only
      | slurp_found | slurp_missing => exact absurd (by decide) asking
      | nothing => rfl

end Requests

end Primitive

namespace Eval

/-- A call of a primitive but `eval` with a number of arguments that it does not take
fails for that.  Otherwise, if an argument lacks a shape that it is checked for, the call
fails for the leftmost such argument.  Where it fails so it makes no request.  Otherwise
its exchanges are those of its primitive, whatever the replies are.  What `show` cannot
write is not told by shapes. -/
theorem checked_before_requests
    (ctx : Context) {p : Primitive} (notEval : p ≠ .evalValue) (args : List Value) :
    (p.arity.accepts args.length = false →
      apply ctx (.primitive p) args = Run.fail (.arity p.name p.arity args.length)) ∧
    (p.arity.accepts args.length = true → ¬p.Takes args →
      ∃ shape v, p.Refuses args shape v ∧
        apply ctx (.primitive p) args = Run.fail (.typeMismatch shape v)) ∧
    (p.arity.accepts args.length = true → p.Takes args →
      ∀ serial exchanges,
        (∃ result final,
            Path (apply ctx (.primitive p) args serial) exchanges (result, final)) ↔
          p.Asks args exchanges) := by
  refine ⟨?_, ?_, ?_⟩
  · intro refused
    rw [apply_eq_application, application, checkArity, refused]
    rfl
  · intro accepted misfit
    obtain ⟨shape, v, refused⟩ := Primitive.exists_refused_of_not_takes misfit
    rw [apply_primitive ctx notEval accepted]
    exact ⟨shape, v, refused, Primitive.run_of_refused accepted refused⟩
  · intro accepted taken serial exchanges
    rw [apply_primitive ctx notEval accepted]
    exact Primitive.exists_trace_run_iff notEval accepted taken

/-- A path that is none is named before a content that is none, and a probe that is
answered by a list is the only request of its call. -/
theorem checked_before_requests_put_slurp :
    let asked : Exchange := ⟨.probe "f", .value (.list [])⟩
    apply .root (.primitive .put) [.bool true] = Run.fail (.arity "put" (.exactly 2) 1) ∧
      apply .root (.primitive .put) [.bool true, .list []] =
        Run.fail (.typeMismatch .path (.bool true)) ∧
      ∃ result final,
        Path (apply .root (.primitive .slurp) [.string "f"] 0) [asked] (result, final) := by
  intro asked
  have put := checked_before_requests .root (p := .put) nofun
  have slurp := checked_before_requests .root (p := .slurp) nofun [.string "f"]
  refine ⟨(put [.bool true]).1 rfl, ?_, ?_⟩
  · have misfit : ¬Primitive.put.Takes [.bool true, .list []] := by
      intro taken
      cases taken 0 _ rfl
    obtain ⟨shape, v, refused, fails⟩ := (put [.bool true, .list []]).2.1 rfl misfit
    rcases refused.of_pair with ⟨rfl, lacking⟩ | ⟨-, taken, -⟩
    · cases lacking
      exact fails
    · cases taken
  · have taken : Primitive.slurp.Takes [.string "f"] := by
      intro position v found
      cases position with
      | zero =>
          cases found
          rfl
      | succ position => cases found
    exact (slurp.2.2 rfl taken 0 [asked]).mpr (.slurp_missing "f" _ nofun)

end Eval

end EffectLisp
