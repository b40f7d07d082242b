import Mh1903.Frame.Board
import Mh1903.Frame.Nor
import Mh1903.Frame.Good
import Mh1903.Driver.Range
import Mh1903.Driver.Erase
import Mh1903.Driver.Write
import Mh1903.Frame.ReadBack
import Mh1903.Verify.Image
import Mh1903.Verify.Exact
import Mh1903.Verify.Copied
import Mh1903.Boot.Vectors
import Mh1903.Copy.Failure
import Mh1903.Boot.Session
import Mh1903.Boot.Launch
import Mh1903.Boot.Once
import Mh1903.Boot.Fallback
import Mh1903.Copy.Chunk
import Mh1903.Copy.Fetch
import Mh1903.Copy.Stream
import Mh1903.Copy.Plain
import Mh1903.Copy.Spared
import Mh1903.Copy.Cursor
import Mh1903.Copy.Setup
import Mh1903.Copy.Deliver
import Mh1903.Copy.Passes
import Mh1903.Copy.Bounds
import Mh1903.Copy.Faults
import Mh1903.Copy.Willing
import Mh1903.Copy.Safety
import Mh1903.Copy.InBounds
import Mh1903.Copy.Refusal
import Mh1903.Verify.Checksum
import Mh1903.Driver.Watchdog
import Mh1903.Driver.Delay
import Mh1903.Driver.Pwm
import Mh1903.Copy.Record
import Mh1903.Copy.Ends
import Mh1903.Gpio.Pins
import Mh1903.Model.PinIrq
import Mh1903.Gpio.Irq
import Mh1903.Library.Schedule
import Mh1903.Library.Frames
import Mh1903.Gpio.Edges
import Mh1903.Gpio.Owners
import Mh1903.Library.Files
import Mh1903.Model.Merge
import Mh1903.Tools.FactoryImage
import Mh1903.Gpio.Names
import Mh1903.Model.Shell
import Mh1903.Boot.Prompt
import Mh1903.Model.Devices
import Mh1903.Device.Clock
import Mh1903.Device.Port
import Mh1903.Copy.Clone
import Mh1903.Copy.Reassembly
import Mh1903.Copy.Sound
import Mh1903.Boot.Survival
import Mh1903.Fastlz.RoundTrip
import Mh1903.Boot.Delivery
