import SpiFpga.Clocked.Machine
import SpiFpga.Clocked.Waveform
import SpiFpga.Clocked.Divider
import SpiFpga.Clocked.ShiftRegister
import SpiFpga.Master.Module
import SpiFpga.Master.BusLines
import SpiFpga.Master.Start
import SpiFpga.Master.Frame
import SpiFpga.Master.Steady
import SpiFpga.Master.Duplex
import SpiFpga.Master.Timing
import SpiFpga.Master.Phase
import SpiFpga.Master.History
import SpiFpga.Master.Bounds
import SpiFpga.Clocked.TwoDividers
import SpiFpga.Master.DelayChange
import SpiFpga.Master.LatestFrame
import SpiFpga.Top.Lockstep
import SpiFpga.Top.Completion
import SpiFpga.Top.Link
import SpiFpga.Top.Client
import SpiFpga.Top.Driver
import SpiFpga.Top.HelloWorld
import SpiFpga.Master.Loopback
import SpiFpga.Top.Termination
import SpiFpga.Top.Exchange
import SpiFpga.Top.Channels
import SpiFpga.Top.ResetController
import SpiFpga.Top.Board
import SpiFpga.Bus.Decoder
import SpiFpga.Top.AddressMap
import SpiFpga.Clocked.Observer
import SpiFpga.Clocked.SlavePort
import SpiFpga.Master.SlaveFrame
import SpiFpga.Dsp.Sampler
import SpiFpga.Top.Sampling
import SpiFpga.Top.Together
import SpiFpga.Bus.RoundRobin
import SpiFpga.Top.Arbitrator
import SpiFpga.Top.CommandMux
