import EffectLisp.Machine
import EffectLisp.Proofs.FileSystem.Write

/-!
# Hosts that serve a store of files

On a host whose files are a store that nobody else changes, every request is answered by
the store.  Opening a file can fail on such a host for any reason and so can reading one,
but a write to a file that is open succeeds.  So a write that is refused leaves the store
as it was, and one that is answered changes one file.
-/

namespace EffectLisp

namespace Host

/-- What is written to the handle in the world is written to the file. -/
def Writes {ω : Type} (host : Host (StateM ω)) (files : ω → FileSystem)
    (handle : host.Handle) (world : ω) (file : FileSystem.OpenFile) : Prop :=
  ∀ content, ∃ after,
    (host.writeAll handle content).run world = pure (.ok (), after) ∧
      files after = (files world).writeAll file content

/-- The files of the host are a store that nobody else changes. -/
structure Serves {ω : Type} (host : Host (StateM ω)) (files : ω → FileSystem) : Prop where
  exists? : ∀ path world, ∃ after,
    (host.exists? path).run world = pure ((files world).exists? path, after) ∧
      files after = files world
  isReadOnly : ∀ path world, ∃ after,
    (host.isReadOnly path).run world = pure ((files world).isReadOnly path, after) ∧
      files after = files world
  readText : ∀ path world, ∃ result after,
    (host.readText path).run world = pure (result, after) ∧ files after = files world ∧
      ∀ text, result = .ok text → (files world).readText path = .ok text
  openFile : ∀ path options world, ∃ result after,
    (host.openFile path options).run world = pure (result, after) ∧
      ((∃ error, result = .error error ∧ files after = files world) ∨
        ∃ handle file, result = .ok handle ∧
          (files world).openFile path options = .ok (file, files after) ∧
          host.Writes files handle after file)
  fetch : ∀ url world, files ((host.fetch url).run world).2 = files world

namespace Serves

variable {ω : Type} {host : Host (StateM ω)} {files : ω → FileSystem}
  (serves : host.Serves files)

include serves

theorem perform_probe (path : String) (world : ω) :
    ∃ after, host.bridge.perform (.probe path) world =
        (.value (.bool ((files world).exists? path)), after) ∧
      files after = files world := by
  obtain ⟨after, found, kept⟩ := serves.exists? path world
  refine ⟨after, ?_, kept⟩
  simp only [bridge, reply, StateT.run_bind, found, pure_bind]
  rfl

theorem perform_read (path : String) (world : ω) :
    ∃ reply after, host.bridge.perform (.read path) world = (reply, after) ∧
      files after = files world ∧
      ((∃ text, reply = .value (.string text) ∧ (files world).readText path = .ok text) ∨
        ∃ error : FileError,
          reply = .fault (.io ("cannot read " ++ path ++ ": " ++ error.text) path)) := by
  obtain ⟨result, after, read, kept, same⟩ := serves.readText path world
  simp only [bridge, Host.reply, StateT.run_bind, read, pure_bind]
  cases result with
  | ok text => exact ⟨_, after, rfl, kept, .inl ⟨text, rfl, same text rfl⟩⟩
  | error error => exact ⟨_, after, rfl, kept, .inr ⟨error, rfl⟩⟩

/-- A write either is refused and changes nothing, or gives one file, the one that the path
names, its new content. -/
theorem perform_write (path content : String) (mode : WriteMode) (world : ω) :
    ∃ reply after, host.bridge.perform (.write path content mode) world = (reply, after) ∧
      ((∃ message, reply = .fault (.io message path) ∧ files after = files world) ∨
        reply = .value (.string content) ∧ ∃ place,
          (files world).Replaces path place
            (mode.result ((files world).bytesAt place) content) (files after)) := by
  obtain ⟨checked, asked, kept⟩ := serves.isReadOnly path world
  simp only [bridge, Host.reply, Host.write, StateT.run_bind, asked, pure_bind]
  cases locked : (files world).isReadOnly path with
  | true => exact ⟨_, checked, rfl, .inl ⟨_, rfl, kept⟩⟩
  | false =>
      obtain ⟨result, middle, opened, what⟩ := serves.openFile path mode.options checked
      rw [kept] at what
      simp only [Bool.false_eq_true, if_false, StateT.run_bind, opened, pure_bind]
      rcases what with ⟨error, rfl, unchanged⟩ | ⟨handle, file, rfl, opens, writes⟩
      · exact ⟨_, middle, rfl, .inl ⟨_, rfl, unchanged⟩⟩
      · obtain ⟨after, wrote, stored⟩ := writes content
        simp only [StateT.run_bind, wrote, pure_bind]
        refine ⟨_, after, rfl, .inr ⟨rfl, file.place, ?_⟩⟩
        rw [stored]
        exact FileSystem.replaces_of_openFile locked opens content

end Serves

end Host

/-- A machine serves its files. -/
theorem Machine.host_serves : host.Serves files := by
  constructor
  · exact fun path machine => ⟨machine, rfl, rfl⟩
  · exact fun path machine => ⟨machine, rfl, rfl⟩
  · exact fun path machine => ⟨_, machine, rfl, rfl, fun _ => id⟩
  · intro path options machine
    cases opens : machine.files.openFile path options with
    | ok opened =>
        obtain ⟨file, files⟩ := opened
        have writes : host.Writes Machine.files file { machine with files } file :=
          fun content => ⟨_, rfl, rfl⟩
        refine ⟨.ok file, { machine with files }, ?_, .inr ⟨file, file, rfl, rfl, writes⟩⟩
        simp [host, opens]
    | error error =>
        refine ⟨.error error, machine, ?_, .inl ⟨error, rfl, rfl⟩⟩
        simp [host, opens]
  · exact fun url machine => rfl

end EffectLisp
