import EffectLisp.Effect

/-!
# A bridge in memory

Files and the texts behind URLs are tables in memory.  Each kind of request can
be given a rule that decides the reply instead of the tables, so that a bridge
that fails, breaks down or answers nonsense can be played through.  Every
request is kept in a log.
-/

namespace EffectLisp

inductive EffectKind where
  | probe
  | read
  | write
  | append
  | fetch
  deriving DecidableEq, Repr

/-- The kind of a request; the two modes of writing count apart. -/
def Effect.kind : Effect → EffectKind
  | .probe _ => .probe
  | .read _ => .read
  | .write _ _ .truncate => .write
  | .write _ _ .append => .append
  | .fetch _ => .fetch

/-- The files, the URLs, the rules and the log of a bridge in memory. -/
structure Memory where
  files : List (String × String)
  urls : List (String × String)
  rules : List (EffectKind × Reply)
  /-- The requests so far, the latest first. -/
  log : List Effect

namespace Memory

/-- The text under a name in a table. -/
def find? (table : List (String × String)) (name : String) : Option String :=
  (table.find? (·.1 = name)).map (·.2)

/-- The table with a text under a name, in place if the name is there. -/
def insert (name text : String) : List (String × String) → List (String × String)
  | [] => [(name, text)]
  | entry :: entries =>
      if entry.1 = name then (name, text) :: entries else entry :: insert name text entries

/-- The memory with a file's content replaced or extended. -/
def store (memory : Memory) (path content : String) : WriteMode → Memory
  | .truncate => { memory with files := insert path content memory.files }
  | .append =>
      let old := (find? memory.files path).getD ""
      { memory with files := insert path (old ++ content) memory.files }

/-- The reply of the tables. -/
def answer (memory : Memory) : Effect → Reply × Memory
  | .probe path => (.value (.bool (find? memory.files path).isSome), memory)
  | .read path =>
      match find? memory.files path with
      | some text => (.value (.string text), memory)
      | none => (.fault (.io ("memory: no file " ++ path) path), memory)
  | .write path content mode => (.value (.string content), memory.store path content mode)
  | .fetch url =>
      match find? memory.urls url with
      | some text => (.value (.string text), memory)
      | none => (.fault (.io ("offline: " ++ url) url), memory)

/-- Log the request; a rule for its kind decides the reply, or else the tables. -/
def perform (effect : Effect) (memory : Memory) : Reply × Memory :=
  let memory := { memory with log := effect :: memory.log }
  match memory.rules.find? (·.1 = effect.kind) with
  | some rule => (rule.2, memory)
  | none => memory.answer effect

def bridge : Bridge Memory := ⟨perform⟩

end Memory

end EffectLisp
