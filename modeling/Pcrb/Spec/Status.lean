import Mathlib.Data.List.TakeWhile
import Pcrb.Spec.Cli

/-!
# The output of the command line (`cli_task.cpp`)

`command` formats what it has to say into one span of characters. All messages but the
status report are one `snprintf`; the report appends a text for each line it prints, and
`appendText` is one such call with its unsigned arithmetic.
-/

namespace Pcrb

/-- What `%s` prints: the characters in front of the terminating zero. -/
def cString (chars : List UInt8) : List UInt8 := chars.takeWhile fun b => b != 0

/-- A string ends at its first zero. -/
theorem cString_append_zero (chars rest : List UInt8) :
    cString (chars ++ 0 :: rest) = cString chars := by
  unfold cString
  induction chars with
  | nil => rfl
  | cons b chars ih =>
    rw [List.cons_append, List.takeWhile_cons, List.takeWhile_cons, ih]

theorem cString_eq_self {chars : List UInt8} (h : (0 : UInt8) ∉ chars) : cString chars = chars := by
  apply List.takeWhile_eq_self_iff.2
  intro b hb
  rw [bne_iff_ne]
  rintro rfl
  exact h hb

/-- A digit of `%X`. -/
def hexDigit (d : ℕ) : UInt8 := UInt8.ofNat (if d < 10 then 48 + d else 55 + d)

/-- `%0*X`, for a positive width. -/
def renderHex (width n : ℕ) : List UInt8 :=
  let digits := (Nat.digits 16 n).reverse.map hexDigit
  List.replicate (width - digits.length) 48 ++ digits

/-- `%d`. -/
def renderInt (n : Int32) : List UInt8 :=
  if n < 0 then 45 :: Decimal.render n.toInt.natAbs else Decimal.render n.toInt.natAbs

/-- The fields of `TaskStatus_t` that the report prints. -/
structure TaskStatus where
  pcTaskName : List UInt8
  usStackHighWaterMark : UInt32
  ulRunTimeCounter : UInt32
  uxCurrentPriority : UInt32
deriving Inhabited

/-- What the report asks the device for. `defaultInstance` is the text of `%p`, which the
library chooses; `logSize` is the size of the log when its line is printed, and `log` the
entries that the loop behind it comes to. -/
structure StatusInfo where
  ipAddress : List UInt8
  defaultInstance : List UInt8
  netifUp : Bool
  netifFlags : UInt8
  wifiState : Int32
  rssi : Int32
  pmState : UInt32
  ticks : UInt32
  freeHeap : UInt32
  tasks : List TaskStatus
  uniqueId : List UInt8
  logSize : ℕ
  log : List (List UInt8)
deriving Inhabited

/-- The texts of one task. -/
def taskTexts (status : TaskStatus) : List (List UInt8) :=
  [ascii "  task name: " ++ cString status.pcTaskName ++ ascii "\r\n",
   ascii "    task mark: " ++ Decimal.render status.usStackHighWaterMark.toNat ++ ascii "\r\n",
   ascii "    task counter: " ++ Decimal.render status.ulRunTimeCounter.toNat ++ ascii "\r\n",
   ascii "    task priority: " ++ Decimal.render status.uxCurrentPriority.toNat ++ ascii "\r\n"]

/-- The text of one entry of the log. -/
def logText (i : ℕ) (entry : List UInt8) : List UInt8 :=
  ascii "log " ++ Decimal.render i ++ ascii ": " ++ cString entry ++ ascii "\r\n"

/-- What the report prints in front of the log, one text for each `snprintf`. -/
def headTexts (info : StatusInfo) : List (List UInt8) :=
  [ascii "IP Address: " ++ cString info.ipAddress ++ ascii "\r\n",
   ascii "default instance: 0x" ++ info.defaultInstance ++ ascii "\r\n",
   ascii "NETIF is up? " ++ ascii (if info.netifUp then "yes" else "no") ++ ascii "\r\n",
   ascii "NETIF flags: 0x" ++ renderHex 2 info.netifFlags.toNat ++ ascii "\r\n",
   ascii "Wifi state: " ++ renderInt info.wifiState ++ ascii "\r\n",
   ascii "  RSSI: " ++ renderInt info.rssi ++ ascii "\r\n",
   ascii "power mode: 0x" ++ renderHex 8 info.pmState.toNat ++ ascii "\r\n",
   ascii "ticks: " ++ Decimal.render info.ticks.toNat ++ ascii "\r\n",
   ascii "FreeRTOS Heap Free: " ++ Decimal.render info.freeHeap.toNat ++ ascii "\r\n",
   ascii "Tasks active: " ++ Decimal.render info.tasks.length ++ ascii "\r\n"] ++
  info.tasks.flatMap taskTexts ++
  [ascii "unique id: " ++ cString info.uniqueId ++ ascii "\r\n",
   ascii "log size: " ++ Decimal.render info.logSize ++ ascii "\r\n"]

/-- The whole report. -/
def statusTexts (info : StatusInfo) : List (List UInt8) := headTexts info ++ info.log.mapIdx logText

/-- How far the report is: the memory from `output.data()` on, and the running total of what
`snprintf` returned, of which `amount` holds the value modulo 2^32. -/
structure Report where
  output : Bytes
  total : ℕ

namespace Report

/-- `amount`. -/
def amount (r : Report) : ℕ := r.total % 2 ^ 32

/-- `output.size() - amount`. -/
def room (size : ℕ) (r : Report) : ℕ := (size + 2 ^ 32 - r.amount) % 2 ^ 32

/-- `amount += snprintf(output.data() + amount, output.size() - amount, ...)`. -/
def appendText (size : ℕ) (r : Report) (formatted : List UInt8) : Report :=
  let p := snprintf r.output r.amount (r.room size) formatted
  ⟨p.1, r.total + p.2⟩

/-- A sequence of such calls, from the start of the span. -/
def afterTexts (size : ℕ) (output : Bytes) (texts : List (List UInt8)) : Report :=
  texts.foldl (appendText size) ⟨output, 0⟩

end Report

/-- The size of the buffer that `cli_task` keeps for `run`. -/
def bufferSize : ℕ := 32 * 1024

/-- A message, formatted into a span of `size` characters. -/
def formatMessage (info : StatusInfo) (size : ℕ) (output : Bytes) : Message → Bytes
  | .status => (Report.afterTexts size output (statusTexts info)).output
  | message => (snprintf output 0 size (message.text [])).1

end Pcrb
