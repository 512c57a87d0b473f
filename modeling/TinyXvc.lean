import TinyXvc.JtagSplitter
import TinyXvc.Mempool
import TinyXvc.Lib.Tap
import TinyXvc.JtagSplitter.Decoding
import TinyXvc.JtagSplitter.Tracking
import TinyXvc.FtdiGeneric.Bits
import TinyXvc.FtdiGeneric.Buffer
import TinyXvc.FtdiGeneric.Driver
import TinyXvc.FtdiGeneric.Requests
import TinyXvc.Lib.Mpsse
import TinyXvc.FtdiGeneric.Link
import TinyXvc.FtdiGeneric.Append
import TinyXvc.FtdiGeneric.Commands
import TinyXvc.FtdiGeneric.Operations
import TinyXvc.FtdiGeneric.Pairing
import TinyXvc.FtdiGeneric.Contract
import TinyXvc.FtdiGeneric.PoolUse
import TinyXvc.FtdiGeneric.PoolLimit
import TinyXvc.FtdiGeneric.Residue
import TinyXvc.FtdiGeneric.Failures
import TinyXvc.Lib.Framing
import TinyXvc.Lib.Marked
import TinyXvc.Log
import TinyXvc.Log.Spec
import TinyXvc.Log.Termination
import TinyXvc.DriverWrapper
import TinyXvc.DriverWrapper.Enforcement
import TinyXvc.FtdiGeneric.TckPeriod
import TinyXvc.FtdiGeneric.TckRounding
import TinyXvc.JtagSplitter.Cutting
import TinyXvc.JtagSplitter.LoopBounds
import TinyXvc.JtagSplitter.Rejection
import TinyXvc.Lib.Transducer
import TinyXvc.FtdiGeneric.Transparency
import TinyXvc.Lib.CStrings
import TinyXvc.Profile
import TinyXvc.Profile.Parsing
import TinyXvc.BitVector
import TinyXvc.BitVector.Formatting
import TinyXvc.BitVector.Agreement
import TinyXvc.Lib.Align
import TinyXvc.Mempool.Words
import TinyXvc.Mempool.Soundness
import TinyXvc.Mempool.Runs
import TinyXvc.DriverWrapper.Forwarding
import TinyXvc.DriverWrapper.Timing
import TinyXvc.Log.Caching
import TinyXvc.FtdiGeneric.Config
import TinyXvc.FtdiGeneric.ConfigLoading
import TinyXvc.Server.Listening
import TinyXvc.FtdiGeneric.Cells
import TinyXvc.FtdiGeneric.DeviceList
import TinyXvc.FtdiGeneric.Encoding
import TinyXvc.FtdiGeneric.Representation
import TinyXvc.FtdiGeneric.Lists
import TinyXvc.FtdiGeneric.Refinement
import TinyXvc.FtdiGeneric.Selection
import TinyXvc.Lib.Resend
import TinyXvc.FtdiGeneric.Delivery
import TinyXvc.FtdiGeneric.Recovery
import TinyXvc.FtdiGeneric.CutCall
import TinyXvc.FtdiGeneric.Resync
import TinyXvc.FtdiGeneric.Lifecycle
import TinyXvc.FtdiGeneric.Handle
import TinyXvc.Lib.Sampling
import TinyXvc.Player
import TinyXvc.Player.Playback
import TinyXvc.Lib.CommandStream
import TinyXvc.Lib.LittleEndian
import TinyXvc.Server.Conformance
import TinyXvc.Server.Framing
import TinyXvc.Lib.Scan
import TinyXvc.Server.Wrapped
import TinyXvc.Server.Cable
import TinyXvc.Server.Loopback
import TinyXvc.Server.Life
import TinyXvc.Server.Faults
import TinyXvc.Server.Sessions
import TinyXvc.Server.Holdings
import TinyXvc.Server.Healthy
import TinyXvc.FtdiGeneric.Blindness
import TinyXvc.Server.StaleBits
import TinyXvc.Server.StaleRuns
import TinyXvc.Server.Whole
