import TimeSwitch.Bench.Link
import TimeSwitch.Bench.Pin
import TimeSwitch.Bench.Script
import TimeSwitch.Device.Console
import TimeSwitch.Device.SettingsFile
import TimeSwitch.Proofs.Device.Conversation
import TimeSwitch.Proofs.Formula.Parsing
import TimeSwitch.Proofs.Wire.Decoding
import TimeSwitch.Proofs.Wire.Encoding
import TimeSwitch.Proofs.Alarm.Events
import TimeSwitch.Proofs.Alarm.Recurrences
import TimeSwitch.Proofs.Device.Ticking
import TimeSwitch.Proofs.Device.Histories
import TimeSwitch.Proofs.Device.Alike
import TimeSwitch.Proofs.Device.Rebooting
import TimeSwitch.Proofs.Calendar.Seconds
import TimeSwitch.Proofs.Wire.CarriedAlarm
import TimeSwitch.Proofs.Device.Driving
import TimeSwitch.Proofs.Wire.Discipline
import TimeSwitch.Proofs.Wire.LineReports
import TimeSwitch.Proofs.Device.StoredTriggers
import TimeSwitch.Proofs.Alarm.EverySecond
import TimeSwitch.Proofs.Device.Timers
import TimeSwitch.Proofs.Device.ClockRoundTrip
import TimeSwitch.Proofs.Device.Activations
import TimeSwitch.Proofs.Wire.Failures
import TimeSwitch.Proofs.Wire.SingleLines
import TimeSwitch.Proofs.Formula.CallOrder
import TimeSwitch.Proofs.Formula.LeftmostFault
import TimeSwitch.Proofs.Alarm.RepeatedTicks
import TimeSwitch.Proofs.Alarm.AnyOrder
import TimeSwitch.Proofs.Alarm.ActiveWindow
import TimeSwitch.Proofs.Alarm.HourlyFirings
import TimeSwitch.Proofs.Device.RunningClock
import TimeSwitch.Proofs.Calendar.Ordering
import TimeSwitch.Proofs.Formula.Sessions
import TimeSwitch.Proofs.Formula.ProperTree
import TimeSwitch.Proofs.Wire.FieldOperations
import TimeSwitch.Proofs.Device.CheckedEntries
import TimeSwitch.Proofs.Device.FailingLink
import TimeSwitch.Proofs.Formula.LongestMatch
