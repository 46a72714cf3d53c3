import EffectLisp.FileSystem

/-!
# A model of an operating system

A machine has a store of files and keeps the lines that are written to its two
streams.  It has no network, so every fetch fails.  A program that runs on any
host runs on a machine as a pure function.
-/

namespace EffectLisp

/-- A line of output and the stream it goes to. -/
abbrev Line := Stream × String

/-- The files of a machine and the lines written so far, the latest first. -/
structure Machine where
  files : FileSystem
  said : List Line

namespace Machine

def host : Host (StateM Machine) where
  Handle := FileSystem.OpenFile
  exists? path := do pure ((← get).files.exists? path)
  isReadOnly path := do pure ((← get).files.isReadOnly path)
  readText path := do pure ((← get).files.readText path)
  openFile path options := do
    let machine ← get
    match machine.files.openFile path options with
    | .ok (file, files) =>
        set { machine with files }
        pure (.ok file)
    | .error error => pure (.error error)
  writeAll file content := do
    modify fun machine => { machine with files := machine.files.writeAll file content }
    pure (.ok ())
  fetch _ := pure (.error "there is no network")
  say stream text := modify fun machine => { machine with said := (stream, text) :: machine.said }

def bridge : Bridge Machine := host.bridge

/-- The text that went to a stream, every line ended by a line feed. -/
def textOf (machine : Machine) (stream : Stream) : String :=
  String.join ((machine.said.reverse.filter (·.1 = stream)).map (·.2 ++ "\n"))

end Machine

end EffectLisp
