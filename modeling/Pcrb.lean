import Pcrb.Lib.Lts
import Pcrb.Lib.Simulation
import Pcrb.Lib.Liveness
import Pcrb.Lib.Fifo
import Pcrb.Lib.Bytes
import Pcrb.Lib.Decimal
import Pcrb.Lib.Fat12
import Pcrb.Lib.Buffer
import Pcrb.Lib.Tagged
import Pcrb.Spec.Libc
import Pcrb.Spec.Disk
import Pcrb.Spec.Request
import Pcrb.Spec.Network
import Pcrb.Spec.Cli
import Pcrb.Spec.Status
import Pcrb.Spec.Console
import Pcrb.Spec.Switch
import Pcrb.Spec.Firmware
import Pcrb.Spec.Button
import Pcrb.Spec.Socket
import Pcrb.Spec.Server
import Pcrb.Spec.Descriptors
import Pcrb.Spec.Reset
import Pcrb.Spec.Ntp
import Pcrb.Spec.Client
import Pcrb.Spec.Host
import Pcrb.Spec.Protocol
import Pcrb.Spec.Keyboard
import Pcrb.Spec.Networked
import Pcrb.Proof.Steps
import Pcrb.Proof.Conservation
import Pcrb.Proof.BootCfg
import Pcrb.Proof.RamDisk
import Pcrb.Proof.Confined
import Pcrb.Proof.Framing
import Pcrb.Proof.Fragments
import Pcrb.Proof.Grammar
import Pcrb.Proof.Lines
import Pcrb.Proof.FrontEnds
import Pcrb.Proof.Report
import Pcrb.Proof.Reprint
import Pcrb.Proof.Printed
import Pcrb.Proof.Editing
import Pcrb.Proof.Pulses
import Pcrb.Proof.Acknowledge
import Pcrb.Proof.Startup
import Pcrb.Proof.Pin
import Pcrb.Proof.Handle
import Pcrb.Proof.Ownership
import Pcrb.Proof.Listen
import Pcrb.Proof.Strings
import Pcrb.Proof.BoardId
import Pcrb.Proof.Reboot
import Pcrb.Proof.Ntp
import Pcrb.Proof.Button
import Pcrb.Proof.Service
import Pcrb.Proof.Waiting
import Pcrb.Proof.Response
import Pcrb.Proof.Served
import Pcrb.Proof.Fairness
import Pcrb.Proof.Sessions
import Pcrb.Proof.Selection
import Pcrb.Proof.Host
import Pcrb.Proof.BootText
import Pcrb.Proof.Race
import Pcrb.Proof.Client
import Pcrb.Proof.OpenSockets
import Pcrb.Proof.Pressable
import Pcrb.Proof.Passes
import Pcrb.Proof.Keyboard
import Pcrb.Proof.Networked
