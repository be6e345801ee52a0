import Mathlib.Logic.Function.Basic
import Pcrb.Spec.Network
import Pcrb.Spec.Status

/-!
# The console (`cli_task.cpp`)

`commandPass` is `command` on its own, with the device and the output buffer at hand, and
`runPrints` what `run` prints behind it. The rest is the loop of `cli_task`: its line
buffer, and the terminal that it echoes to.
-/

namespace Pcrb

/-- Where `command` stands: the buffer, the sends to `switch_comms` so far, the device, and
whether it has ended early, by an exception or a reset. -/
structure Pass where
  output : Bytes
  sends : List UInt32
  device : Device
  ended : Bool

/-- A message goes to the start of the buffer. -/
def Pass.format (info : StatusInfo) (o : Pass) (message : Message) : Pass :=
  { o with output := formatMessage info bufferSize o.output message }

/-- One action of `command`. -/
def CliAction.run (info : StatusInfo) (o : Pass) (action : CliAction) : Pass :=
  if o.ended then o
  else match action with
    | .format message => o.format info message
    | .formatSense => o.format info (.sense o.device.pcState)
    | .formatBootSelect => o.format info (.bootSelect (getBootSelect o.device.ram))
    | .formatSetBootSelect select =>
      o.format info (.setBootSelect select (getBootSelect o.device.ram))
    | .setBootSelect select =>
      { o with device := { o.device with ram := Pcrb.setBootSelect o.device.ram select } }
    | .toggle time =>
      { o with
        sends := o.sends ++ [time]
        device := { o.device with queue := (o.device.queue.send time).1 } }
    | .use _ => o
    | .reset => { o with ended := true }
    | .throw => { o with ended := true }

/-- `command`, given the buffer as the line before left it. -/
def commandPass (info : StatusInfo) (dev : Device) (output : Bytes) (line : List UInt8) : Pass :=
  (command line).foldl (CliAction.run info) ⟨output, [], dev, false⟩

/-- The text that `printf("%s", buffer.data())` prints. -/
def bufferText (output : Bytes) : List UInt8 := cString (output.read 0 bufferSize)

/-- What `run` prints, if `command` comes back. -/
def runPrints (info : StatusInfo) (dev : Device) (output : Bytes) (line : List UInt8) :
    Option (List UInt8) :=
  let o := commandPass info dev output line
  if o.ended then none else some (bufferText o.output)

/-! ### The line editor -/

/-- What `fgetc` returns. -/
inductive Key
  | eof
  | char (c : UInt8)
deriving DecidableEq

/-- `line`, as the memory around its first byte, and `pos`. -/
structure Editor where
  line : ℤ → UInt8
  pos : ℤ

/-- `sizeof(line)`. -/
def lineSize : ℕ := 33

/-- A turn of the loop: the state afterwards, the indices into `line` that it used, the line
that it handed to `run`, and what it printed. -/
structure Turn where
  editor : Editor
  indices : List ℤ
  handed : Option (List UInt8)
  printed : List UInt8

namespace Editor

/-- The buffer as it is defined. -/
def initial : Editor := ⟨fun _ => 0, 0⟩

/-- The string at the start of `line`. -/
def lineText (line : ℤ → UInt8) : List UInt8 :=
  cString ((List.range lineSize).map fun i : ℕ => line (i : ℤ))

/-- The indices below a bound. -/
def below (n : ℕ) : List ℤ := (List.range n).map fun i : ℕ => (i : ℤ)

/-- `line[pos] = '\0'`, `run`, `memset` and `pos = 0`; `run` reads up to the first zero. -/
def submit (e : Editor) (answer : List UInt8) : Turn :=
  let line := Function.update e.line e.pos 0
  { editor := ⟨fun i => if 0 ≤ i ∧ i < lineSize then 0 else line i, 0⟩
    indices := e.pos :: below ((lineText line).length + 1) ++ below lineSize
    handed := some (lineText line)
    printed := ascii "\r\n" ++ answer ++ ascii "> " }

/-- A turn of the loop; `answer` is what `run` prints, should it be called. -/
def turn (e : Editor) (answer : List UInt8) : Key → Turn
  | .eof => ⟨e, [], none, ascii "WTF, we got an EOF?\r\n"⟩
  | .char c =>
    if c = 13 then e.submit answer
    else if c = 8 then
      if 0 < e.pos then ⟨{ e with pos := e.pos - 1 }, [], none, [8, 32, 8]⟩
      else ⟨e, [], none, []⟩
    -- `pos` is converted to `size_t`
    else if e.pos % 2 ^ 32 < lineSize - 1 then
      ⟨⟨Function.update e.line e.pos c, e.pos + 1⟩, [e.pos], none, [c]⟩
    else ⟨e, [], none, []⟩

end Editor

/-- The current line of the terminal, and the column of its cursor. -/
structure Terminal where
  line : List UInt8
  column : ℕ

namespace Terminal

/-- An empty line. -/
def blank : Terminal := ⟨[], 0⟩

/-- One character. -/
def put (t : Terminal) (b : UInt8) : Terminal :=
  if b = 8 then { t with column := t.column - 1 }
  else if b = 13 then { t with column := 0 }
  else if b = 10 then { t with line := List.replicate t.column 32 }
  else ⟨t.line.take t.column ++ b :: t.line.drop (t.column + 1), t.column + 1⟩

def puts (t : Terminal) (bytes : List UInt8) : Terminal := bytes.foldl put t

end Terminal

/-- `cli_task` with its terminal, and how many lines it has run. -/
structure Session where
  editor : Editor
  terminal : Terminal
  runs : ℕ

namespace Session

/-- At the first prompt. -/
def initial : Session := ⟨Editor.initial, Terminal.blank.puts (ascii "> "), 0⟩

/-- A turn of the loop; `answers n` is what the `n`-th run prints. -/
def step (answers : ℕ → List UInt8) (s : Session) (key : Key) : Session :=
  let t := s.editor.turn (answers s.runs) key
  { editor := t.editor
    terminal := s.terminal.puts t.printed
    runs := s.runs + if t.handed.isSome then 1 else 0 }

def after (answers : ℕ → List UInt8) (keys : List Key) : Session :=
  keys.foldl (step answers) initial

end Session

end Pcrb
