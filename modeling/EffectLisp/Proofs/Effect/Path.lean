import EffectLisp.Effect

/-!
# Paths through a computation

A path is what happens when each request of a computation gets some reply: the
exchanges in order and the result they lead to.  The paths are what the bridges
play, so what holds of every path holds on every bridge.
-/

namespace EffectLisp

namespace Interaction

variable {α β : Type}

/-- The exchanges and the result of a computation under some replies. -/
inductive Path : Interaction α → List Exchange → α → Prop where
  | done (result : α) : Path (.done result) [] result
  | request (effect : Effect) {resume : Reply → Interaction α} (reply : Reply)
      {exchanges : List Exchange} {result : α} :
      Path (resume reply) exchanges result →
      Path (.request effect resume) (⟨effect, reply⟩ :: exchanges) result

@[simp] theorem path_done_iff
    {exchanges : List Exchange} {result other : α} :
    Path (.done result) exchanges other ↔ exchanges = [] ∧ other = result := by
  constructor
  · intro path
    cases path
    exact ⟨rfl, rfl⟩
  · intro given
    obtain ⟨rfl, rfl⟩ := given
    exact .done other

theorem path_request_iff
    {effect : Effect} {resume : Reply → Interaction α} {exchanges : List Exchange}
    {result : α} :
    Path (.request effect resume) exchanges result ↔
      ∃ reply later,
        exchanges = ⟨effect, reply⟩ :: later ∧ Path (resume reply) later result := by
  constructor
  · intro path
    cases path with
    | request _ reply later => exact ⟨reply, _, rfl, later⟩
  · intro given
    obtain ⟨reply, later, rfl, path⟩ := given
    exact .request effect reply path

/-- A path through a sequence is a path through its first part and one through
the rest. -/
theorem path_bind_iff
    {x : Interaction α} {next : α → Interaction β} {exchanges : List Exchange}
    {result : β} :
    Path (x.bind next) exchanges result ↔
      ∃ front middle back,
        exchanges = front ++ back ∧ Path x front middle ∧
          Path (next middle) back result := by
  constructor
  · intro path
    induction x generalizing exchanges with
    | done middle => exact ⟨[], middle, exchanges, rfl, .done middle, path⟩
    | request effect resume induction =>
        rw [bind_request, path_request_iff] at path
        obtain ⟨reply, later, rfl, path⟩ := path
        obtain ⟨front, middle, back, rfl, first, second⟩ := induction reply path
        exact ⟨_ :: front, middle, back, rfl, .request effect reply first, second⟩
  · intro given
    obtain ⟨front, middle, back, rfl, first, second⟩ := given
    induction first with
    | done => exact second
    | request effect reply _ induction => exact .request effect reply (induction second)

/-- A sequence that makes no request in its second part. -/
theorem path_map_iff
    {x : Interaction α} {f : α → β} {exchanges : List Exchange} {result : β} :
    Path (x.bind fun a => .done (f a)) exchanges result ↔
      ∃ a, Path x exchanges a ∧ result = f a := by
  rw [path_bind_iff]
  constructor
  · intro given
    obtain ⟨front, a, back, rfl, first, second⟩ := given
    cases second
    rw [List.append_nil]
    exact ⟨a, first, rfl⟩
  · intro given
    obtain ⟨a, first, rfl⟩ := given
    exact ⟨exchanges, a, [], by simp, first, .done (f a)⟩

/-- What a bridge plays is a path. -/
theorem path_play {σ : Type} (bridge : Bridge σ) (world : σ) (x : Interaction α) :
    Path x (bridge.play world x).exchanges (bridge.play world x).result := by
  induction x generalizing world with
  | done result => exact .done result
  | request effect resume induction => exact .request effect _ (induction _ _)

/-- If a bridge gives only good replies, then those of what it plays are good. -/
theorem forall_reply_play
    {σ : Type} {bridge : Bridge σ} {good : Reply → Prop}
    (always : ∀ effect world, good (bridge.perform effect world).1) (world : σ)
    (x : Interaction α) :
    ∀ exchange ∈ (bridge.play world x).exchanges, good exchange.reply := by
  induction x generalizing world with
  | done result => exact nofun
  | request effect resume induction =>
      exact List.forall_mem_cons.mpr ⟨always effect world, induction _ _⟩

/-- The bridge that gives prepared replies, and breaks down after the last. -/
def prepared : Bridge (List Reply) where
  perform
    | _, [] => (.panic .other, [])
    | _, reply :: replies => (reply, replies)

theorem prepared_perform (effect : Effect) (reply : Reply) (replies : List Reply) :
    prepared.perform effect (reply :: replies) = (reply, replies) := rfl

/-- A path is played by the bridge that has its replies prepared. -/
theorem Path.play_eq
    {x : Interaction α} {exchanges : List Exchange} {result : α}
    (path : Path x exchanges result) :
    prepared.play (exchanges.map Exchange.reply) x = ⟨exchanges, result, []⟩ := by
  induction path with
  | done => rfl
  | request effect reply _ induction =>
      simp only [List.map_cons, Bridge.play, prepared_perform, induction]

/-- From a state to a state the bridge gives the replies of the exchanges. -/
inductive Answers {σ : Type} (bridge : Bridge σ) : σ → List Exchange → σ → Prop where
  | nil (world : σ) : Answers bridge world [] world
  | cons {effect : Effect} {reply : Reply} {world next last : σ}
      {exchanges : List Exchange} :
      bridge.perform effect world = (reply, next) →
      Answers bridge next exchanges last →
      Answers bridge world (⟨effect, reply⟩ :: exchanges) last

/-- A path is played by the bridges that give its replies. -/
theorem Path.play_eq_of_answers
    {x : Interaction α} {exchanges : List Exchange} {result : α}
    (path : Path x exchanges result) {σ : Type} {bridge : Bridge σ} {world last : σ}
    (answers : Answers bridge world exchanges last) :
    bridge.play world x = ⟨exchanges, result, last⟩ := by
  induction path generalizing world with
  | done =>
      cases answers
      rfl
  | request effect reply _ induction =>
      cases answers with
      | cons performed later => simp only [Bridge.play, performed, induction later]

/-- What is played is answered by the bridge. -/
theorem answers_play {σ : Type} (bridge : Bridge σ) (world : σ) (x : Interaction α) :
    Answers bridge world (bridge.play world x).exchanges (bridge.play world x).world := by
  induction x generalizing world with
  | done result => exact .nil world
  | request effect resume induction => exact .cons rfl (induction _ _)

/-- A sequence is played by playing its second part after the first. -/
theorem play_bind
    {σ : Type} (bridge : Bridge σ) (world : σ) (x : Interaction α)
    (next : α → Interaction β) :
    bridge.play world (x.bind next) =
      { exchanges := (bridge.play world x).exchanges ++
          (bridge.play (bridge.play world x).world
            (next (bridge.play world x).result)).exchanges
        result := (bridge.play (bridge.play world x).world
          (next (bridge.play world x).result)).result
        world := (bridge.play (bridge.play world x).world
          (next (bridge.play world x).result)).world } := by
  induction x generalizing world with
  | done result => rfl
  | request effect resume induction =>
      simp only [bind_request, Bridge.play, induction, List.cons_append]

end Interaction

end EffectLisp
