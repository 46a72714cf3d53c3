import EffectLisp.Fault

/-!
# Effects

Evaluation touches the world only by requests, one at a time, each answered
before it goes on.  A computation is therefore a tree: it is done, or it makes
a request and goes on by what the reply is.  Whoever answers the requests is a
bridge: a file system, a table in memory, or the operating system.
-/

namespace EffectLisp

/-- What a write does with the content a file has already. -/
inductive WriteMode where
  | truncate
  | append
  deriving DecidableEq, Repr

inductive Effect where
  /-- The text of a whole file. -/
  | read (path : String)
  /-- Put text into a file; the answer is the text. -/
  | write (path content : String) (mode : WriteMode)
  /-- Whether a path exists. -/
  | probe (path : String)
  /-- The text behind a URL. -/
  | fetch (url : String)
  deriving DecidableEq, Repr

/-- The path or URL a request is about. -/
def Effect.resource : Effect → String
  | .read path | .write path _ _ | .probe path => path
  | .fetch url => url

inductive Reply where
  | value (v : Value)
  | fault (f : Fault)
  /-- The bridge broke down. -/
  | panic (payload : Payload)

/-- A computation that makes requests on its way to a result. -/
inductive Interaction (α : Type) where
  | done (result : α)
  | request (effect : Effect) (resume : Reply → Interaction α)

namespace Interaction

variable {α β : Type}

/-- Go on with the result of a computation. -/
def bind : Interaction α → (α → Interaction β) → Interaction β
  | done result, next => next result
  | request effect resume, next => request effect fun reply => (resume reply).bind next

instance : Monad Interaction where
  pure := done
  bind := bind

/-- Answer the requests of a computation one after the other. -/
def answer {m : Type → Type} [Monad m] (reply : Effect → m Reply) : Interaction α → m α
  | done result => Pure.pure result
  | request effect resume => reply effect >>= fun r => (resume r).answer reply

@[simp]
theorem bind_done (result : α) (next : α → Interaction β) :
    (done result).bind next = next result := rfl

@[simp]
theorem bind_request (effect : Effect) (resume : Reply → Interaction α)
    (next : α → Interaction β) :
    (request effect resume).bind next =
      request effect fun reply => (resume reply).bind next := rfl

theorem bind_pure (x : Interaction α) : x.bind done = x := by
  induction x with
  | done result => rfl
  | request effect resume induction => simp [induction]

theorem bind_assoc {γ : Type} (x : Interaction α) (f : α → Interaction β)
    (g : β → Interaction γ) :
    (x.bind f).bind g = x.bind fun result => (f result).bind g := by
  induction x with
  | done result => rfl
  | request effect resume induction => simp [induction]

instance : LawfulMonad Interaction :=
  LawfulMonad.mk' Interaction bind_pure (fun _ _ => rfl) bind_assoc

end Interaction

/-- A deterministic bridge: from its own state and a request it makes a reply
and its next state. -/
structure Bridge (σ : Type) where
  perform : Effect → σ → Reply × σ

structure Exchange where
  effect : Effect
  reply : Reply

/-- What became of a computation: the exchanges in order, the result, and the
bridge's last state. -/
@[ext]
structure Played (α σ : Type) where
  exchanges : List Exchange
  result : α
  world : σ

/-- Run a computation on a bridge in a state. -/
def Bridge.play {α σ : Type} (bridge : Bridge σ) (world : σ) : Interaction α → Played α σ
  | .done result => ⟨[], result, world⟩
  | .request effect resume =>
      let (reply, next) := bridge.perform effect world
      let rest := bridge.play next (resume reply)
      ⟨⟨effect, reply⟩ :: rest.exchanges, rest.result, rest.world⟩

end EffectLisp
