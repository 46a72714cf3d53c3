/-!
# Tables of a configuration file

A file in TOML is a table of keys.  While it is read, a table knows how it came
to be: by a header, by being on the way to a deeper header, or by a key with
dots.  What may still be added to it depends on that, and so does whether a
header may name it.  `Node.values` forgets this when the file is at its end.
-/

namespace EffectLisp.Toml

inductive Value where
  | string (text : String)
  | integer (n : Int)
  | float (x : Float)
  | boolean (b : Bool)
  /-- A date, a time, or both, as it is written. -/
  | dateTime (text : String)
  | array (items : List Value)
  | table (entries : List (String × Value))

/-- How a table came to be. -/
inductive Origin where
  /-- Named by a header, or the table of the file itself. -/
  | header
  /-- On the way to a table that a header names. -/
  | passed
  /-- Made by a key with dots. -/
  | dotted
  deriving DecidableEq, Repr

/-- What a key stands for while a file is read. -/
inductive Node where
  | value (v : Value)
  | table (origin : Origin) (entries : List (String × Node))
  /-- The tables of one header with double brackets, the latest first. -/
  | tables (elements : List (List (String × Node)))

/-- The keys of a table with what they stand for, in order. -/
abbrev Entries := List (String × Node)

namespace Entries

/-- What a key stands for. -/
def find? (entries : Entries) (key : String) : Option Node :=
  (List.find? (·.1 = key) entries).map (·.2)

/-- The entries with a key standing for something else, in place. -/
def replace (entries : Entries) (key : String) (node : Node) : Entries :=
  entries.map fun entry => if entry.1 = key then (key, node) else entry

def add (entries : Entries) (key : String) (node : Node) : Entries :=
  entries ++ [(key, node)]

/-- Change the table that a path leads to, where `here` is how the table it
starts from came to be.  Missing tables on the way are made with the origin
`made`.  A header passes through every table, a key with dots only through
tables that no header has named, and neither passes through a value. -/
def update (made : Origin) (change : Origin → Entries → Option Entries) :
    List String → Origin → Entries → Option Entries
  | [], here, entries => change here entries
  | key :: path, _, entries =>
      match find? entries key with
      | none => do
          let inner ← update made change path made []
          pure (add entries key (.table made inner))
      | some (.value _) => none
      | some (.tables []) => none
      | some (.tables (last :: others)) => do
          let inner ← update made change path .header last
          pure (replace entries key (.tables (inner :: others)))
      | some (.table origin inner) =>
          if made = .dotted && origin = .header then none
          else do
            let inner ← update made change path origin inner
            pure (replace entries key (.table origin inner))

/-- Give a key of the path's last table a value.  The table is the one where
the path starts, or one that keys with dots have made. -/
def put (path : List String) (v : Value) (entries : Entries) : Option Entries :=
  match path.getLast? with
  | none => none
  | some key =>
      update .dotted
        (fun origin entries =>
          if decide (origin = .dotted) = path.dropLast.isEmpty then none
          else if (find? entries key).isSome then none
          else some (add entries key (.value v)))
        path.dropLast .header entries

/-- Open the table that a header names. -/
def openTable (path : List String) (entries : Entries) : Option Entries :=
  match path.getLast? with
  | none => none
  | some key =>
      update .passed
        (fun _ entries =>
          match find? entries key with
          | none => some (add entries key (.table .header []))
          | some (.table .passed inner) => some (replace entries key (.table .header inner))
          | some _ => none)
        path.dropLast .header entries

/-- Open one more table under a header with double brackets. -/
def openElement (path : List String) (entries : Entries) : Option Entries :=
  match path.getLast? with
  | none => none
  | some key =>
      update .passed
        (fun _ entries =>
          match find? entries key with
          | none => some (add entries key (.tables [[]]))
          | some (.tables elements) => some (replace entries key (.tables ([] :: elements)))
          | some _ => none)
        path.dropLast .header entries

/-- Give a key a value inside the table that the latest header has opened. -/
def putInside (header path : List String) (v : Value) (entries : Entries) : Option Entries :=
  update .passed (fun _ entries => put path v entries) header .header entries

end Entries

mutual

/-- The value that a node has become. -/
def Node.toValue : Node → Value
  | .value v => v
  | .table _ entries => .table (Node.values entries)
  | .tables elements => .array (Node.elementValues elements).reverse

/-- The values of a table's keys. -/
def Node.values : List (String × Node) → List (String × Value)
  | [] => []
  | (key, node) :: entries => (key, node.toValue) :: Node.values entries

/-- The tables of a header with double brackets as values. -/
def Node.elementValues : List (List (String × Node)) → List Value
  | [] => []
  | entries :: elements => .table (Node.values entries) :: Node.elementValues elements

end

end EffectLisp.Toml
