import Esp32Embroidery.Lib.Machine
import Esp32Embroidery.Lib.Linearization
import Esp32Embroidery.Lib.BoundedQueue
import Esp32Embroidery.Spi.Payload
import Esp32Embroidery.Spi.Master
import Esp32Embroidery.Spi.Slave
import Esp32Embroidery.Spi.SlaveBuffers
import Esp32Embroidery.Spi.SlaveOrder
import Esp32Embroidery.Spi.SlaveStatus
import Esp32Embroidery.Lib.StopAndWait
import Esp32Embroidery.Spi.Link
import Esp32Embroidery.Spi.Delivery
import Esp32Embroidery.Lib.CArith
import Esp32Embroidery.Motor.Adrc
import Esp32Embroidery.Motor.LinearMotor
import Esp32Embroidery.Motor.SharedSpindle
import Esp32Embroidery.Motor.Stop
import Esp32Embroidery.Motor.Voltage
import Esp32Embroidery.Buf.FrameRing
import Esp32Embroidery.Serial.RxRing
import Esp32Embroidery.Serial.RxRefinement
import Esp32Embroidery.Bluetooth.Session
import Esp32Embroidery.Bluetooth.PollTx
import Esp32Embroidery.Bluetooth.Isolation
import Esp32Embroidery.Custom.Mcode
import Esp32Embroidery.Lib.IdleRing
import Esp32Embroidery.I2s.PassRing
import Esp32Embroidery.I2s.StepPulse
import Esp32Embroidery.I2s.Bounds
import Esp32Embroidery.I2s.Schedule
import Esp32Embroidery.Lib.Coalesce
import Esp32Embroidery.Shaper.DualAxis
import Esp32Embroidery.Shaper.Waits
import Esp32Embroidery.Shaper.Steps
import Esp32Embroidery.Lib.ShiftRegister
import Esp32Embroidery.Tmc.Datagram
import Esp32Embroidery.Tmc.I2cBridge
import Esp32Embroidery.Tmc.DaisyChain
import Esp32Embroidery.Board.PowerLoss
import Esp32Embroidery.Net.Services
import Esp32Embroidery.Net.Wifi
import Esp32Embroidery.Net.WifiServices
import Esp32Embroidery.Net.WifiAddress
import Esp32Embroidery.Net.Enet
import Esp32Embroidery.Net.PollChain
import Esp32Embroidery.Shaper.Interleaving
import Esp32Embroidery.Lib.PhaseAccumulator
import Esp32Embroidery.Lib.RealArith
import Esp32Embroidery.Shaper.Dda
import Esp32Embroidery.Shaper.DdaSteps
import Esp32Embroidery.Shaper.DdaTiming
import Esp32Embroidery.Motor.Ramp
import Esp32Embroidery.Custom.RpmCommand
import Esp32Embroidery.Motor.AdrcZones
import Esp32Embroidery.Lib.Observer
import Esp32Embroidery.Motor.ObserverBound
import Esp32Embroidery.I2s.FillTermination
import Esp32Embroidery.I2s.PulseWait
import Esp32Embroidery.Board.AnalogInputs
import Esp32Embroidery.Board.AnalogOutputs
import Esp32Embroidery.Lib.Scanf
import Esp32Embroidery.Net.Bssid
import Esp32Embroidery.Lib.Region
import Esp32Embroidery.Usb.TxBuffer
import Esp32Embroidery.Serial.Realtime
import Esp32Embroidery.Board.Nvs
import Esp32Embroidery.Tmc.StatusByte
import Esp32Embroidery.Board.HomingLeds
import Esp32Embroidery.Board.NeoPixel
import Esp32Embroidery.Board.Timers
import Esp32Embroidery.Board.TimerDivider
import Esp32Embroidery.Lib.BinaryDigits
import Esp32Embroidery.Littlefs.CtzIndex
import Esp32Embroidery.Littlefs.BlockDevice
import Esp32Embroidery.Littlefs.BlockRead
import Esp32Embroidery.Littlefs.BlockFlush
import Esp32Embroidery.Littlefs.BlockProg
import Esp32Embroidery.Littlefs.BlockRuns
import Esp32Embroidery.Littlefs.BlockRefine
import Esp32Embroidery.Littlefs.CtzList
import Esp32Embroidery.Littlefs.CtzExtend
import Esp32Embroidery.Littlefs.Alloc
import Esp32Embroidery.Board.Debounce
