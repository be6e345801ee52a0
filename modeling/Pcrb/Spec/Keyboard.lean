import Pcrb.Spec.Console
import Pcrb.Spec.Firmware

/-!
# The firmware with its keyboard

`Spec.Firmware` takes a line of `cli_task` in one step. Here `cli_task` reads it key by key
into its line buffer, as `Spec.Console` has it, while the other tasks go on.
-/

namespace Pcrb

/-- The firmware, with `line` and `pos` of `cli_task`. -/
structure Keyed where
  firmware : State
  editor : Editor

/-- What `fgetc` returns, or a step as before. -/
inductive KeyLabel
  | key (key : Key)
  | task (l : Label)

/-- A turn of the loop of `cli_task`, up to the call of `run`. The buffer is cleared behind `run`
only, but nothing reads it until then. -/
def keyStep (k : Keyed) (key : Key) : Option (Keyed × List Event) :=
  if k.firmware.init.created .cli = true ∧ k.firmware.cli = .prompt then
    match (k.editor.turn [] key).handed with
    | none => some ({ k with editor := (k.editor.turn [] key).editor }, [])
    | some line => (firmware.step k.firmware (.cli line)).map fun r =>
      (⟨r.1, (k.editor.turn [] key).editor⟩, r.2)
  else none

/-- A step other than that of `cli_task` at its prompt, which waits for a key. -/
def taskStep (k : Keyed) (l : Label) : Option (Keyed × List Event) :=
  (firmware.step k.firmware l).map fun r => ({ k with firmware := r.1 }, r.2)

def keyboard : Lts.System Keyed KeyLabel Event where
  init k := firmware.init k.firmware ∧ k.editor = Editor.initial
  step k
    | .key key => keyStep k key
    | .task (.cli line) => if k.firmware.cli = .prompt then none else taskStep k (.cli line)
    | .task l => taskStep k l

end Pcrb
