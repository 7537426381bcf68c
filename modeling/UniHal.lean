import UniHal.Foundations.Execution
import UniHal.Foundations.PatternScan
import UniHal.Io.Buffer
import UniHal.Io.ReceiveSync
import UniHal.Io.SyncMatching
import UniHal.Io.SyncSoundness
import UniHal.Can.Fdcan.Element
import UniHal.Can.Fdcan.MessageRam
import UniHal.Can.Fdcan.Queue
import UniHal.Can.Bxcan.Mailbox
import UniHal.Can.ReceiveAgreement
import UniHal.Can.Bxcan.Filter
import UniHal.Can.Fdcan.Filter
import UniHal.Can.FilterAgreement
import UniHal.Can.Fdcan.ErrorState
import UniHal.Can.Receive
import UniHal.Can.ReceiveConservation
import UniHal.Can.Bxcan.RxFifo
import UniHal.Can.Fdcan.RxFifo
import UniHal.Can.ReceiveCounters
import UniHal.Can.Transmit
import UniHal.Can.Fdcan.Transmit
import UniHal.Can.Fdcan.TransmitCall
import UniHal.Can.Fdcan.TransmitOwnership
import UniHal.Can.Bxcan.Transmit
import UniHal.Can.Bxcan.TransmitCall
import UniHal.Can.Bxcan.TransmitOwnership
import UniHal.Can.Fdcan.TransmitBlocking
import UniHal.Can.Bxcan.TransmitBlocking
import UniHal.Can.Fdcan.TransmitCompletion
import UniHal.Can.Bxcan.TransmitCompletion
import UniHal.Can.TransmitContract
import UniHal.Foundations.CircularBuffer
import UniHal.Io.RingBacked
import UniHal.Io.Fifo
import UniHal.Io.Tunnel
import UniHal.Foundations.Interleaving
import UniHal.Uart.Transmitter
import UniHal.Uart.Stm32h7.Driver
import UniHal.Uart.Stm32l4.Driver
import UniHal.Uart.Stream
import UniHal.Uart.StreamIntegrity
import UniHal.Uart.Progress
import UniHal.Uart.Stm32h7.Progress
import UniHal.Uart.Stm32h7.Live
import UniHal.Uart.Stm32h7.NoStall
import UniHal.Uart.Stm32l4.NoStorm
import UniHal.Uart.Stm32l4.Progress
import UniHal.Uart.Stm32l4.Live
import UniHal.Uart.Pausing
import UniHal.Uart.Stm32h7.Quiesce
import UniHal.Uart.Stm32l4.Quiesce
import UniHal.Uart.Quiesce
import UniHal.Foundations.RegisterBank
import UniHal.Foundations.Staging
import UniHal.Foundations.LimitTable
import UniHal.Foundations.Polling
import UniHal.Rcc.Periph
import UniHal.Rcc.Stm32l4.ClockGates
import UniHal.Rcc.Stm32l4.GateStore
import UniHal.Rcc.Stm32l4.DriverInit
import UniHal.Rcc.Stm32l4.Reinit
import UniHal.Rcc.Stm32h7.ClockGates
import UniHal.Rcc.Stm32h7.GateStore
import UniHal.Rcc.Stm32h7.Pll
import UniHal.Rcc.Stm32h7.FlashLatency
import UniHal.Rcc.Stm32l4.Pll
import UniHal.Rcc.Stm32l4.FlashLatency
import UniHal.Rcc.Stm32l4.NmiTermination
import UniHal.Foundations.BestScan
import UniHal.Can.BitTiming
import UniHal.Can.TimingSearch
import UniHal.Can.Fdcan.BitTiming
import UniHal.Can.Init
import UniHal.Can.TimingRegisters
import UniHal.Foundations.BitDivision
import UniHal.Crc.Unit
import UniHal.Crc.Driver
import UniHal.Crc.Contexts
import UniHal.Foundations.CivilCalendar
import UniHal.Rtc.Calendar
import UniHal.Rtc.BackupAccess
import UniHal.Foundations.WrappingCounter
import UniHal.Tim.Capture
import UniHal.Tim.CaptureRun
import UniHal.Tim.Measurement
import UniHal.Tim.Overcapture
import UniHal.Foundations.RoundedDivision
import UniHal.Tim.Frequency
import UniHal.Foundations.ByteStore
import UniHal.Flash.Ranges
import UniHal.Flash.EraseSector
import UniHal.I2c.Timing
import UniHal.I2c.TimingRange
import UniHal.I2c.MemTransfer
import UniHal.Spi.Stm32h7.Driver
import UniHal.Spi.Stm32h7.BusyExclusion
import UniHal.Spi.Stm32h7.EndsOnce
import UniHal.Gpio.Exti
import UniHal.Gpio.EdgeDelivery
import UniHal.Foundations.CheckedInt
import UniHal.Adc.Temperature
import UniHal.Foundations.PacedSampling
import UniHal.Dwt.TimedLoops
import UniHal.Spi.Stm32h7.FifoDepth
import UniHal.Uart.Reception
import UniHal.Uart.TunnelAccounts
import UniHal.ClockMap.PllOutputs
import UniHal.Foundations.ConditionalGroups
import UniHal.Foundations.Characters
import UniHal.ClockMap.Preprocess
import UniHal.ClockMap.Conditions
import UniHal.Foundations.Brackets
import UniHal.ClockMap.ConditionSyntax
import UniHal.ClockMap.ConditionReading
import UniHal.ClockMap.ConditionPatterns
import UniHal.ClockMap.ConditionEvaluation
import UniHal.Foundations.OpenDrainBus
import UniHal.I2c.Recovery
import UniHal.Flash.Contents
import UniHal.Foundations.FieldBank
import UniHal.Adc.Acquisition
import UniHal.ClockMap.CommandLine
import UniHal.Can.Wire
import UniHal.Foundations.SharedRing
import UniHal.Io.RttStdio
import UniHal.Io.RttStdioConveys
import UniHal.Foundations.BinaryPolynomial
import UniHal.Crc.Remainder
import UniHal.Foundations.Broadcast
import UniHal.Can.ReceiveTrace
import UniHal.Can.Network
import UniHal.Can.NetworkDelivery
import UniHal.ClockMap.Comments
import UniHal.Foundations.LeftmostMatches
import UniHal.ClockMap.Designated
import UniHal.Uart.Cable
