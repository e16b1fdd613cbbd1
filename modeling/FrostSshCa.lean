import FrostSshCa.Lib.Run
import FrostSshCa.Lib.Refine
import FrostSshCa.Lib.Count
import FrostSshCa.Lib.Amortised
import FrostSshCa.Lib.Channel
import FrostSshCa.Lib.Rounds
import FrostSshCa.Lib.Lines
import FrostSshCa.Lib.Copy
import FrostSshCa.Lib.Intervals
import FrostSshCa.Wire.Frame
import FrostSshCa.Wire.Bundle
import FrostSshCa.Wire.Hex
import FrostSshCa.Wire.CString
import FrostSshCa.Wire.HexDecoders
import FrostSshCa.Wire.Base64
import FrostSshCa.Wire.Codec
import FrostSshCa.Wire.Transport
import FrostSshCa.Wire.PubKeys
import FrostSshCa.Wire.Ceremony
import FrostSshCa.Core.Stdin
import FrostSshCa.Core.Main
import FrostSshCa.Core.Protocol
import FrostSshCa.Core.Requests
import FrostSshCa.Core.Stubs
import FrostSshCa.Core.Answers
import FrostSshCa.Core.Signing
import FrostSshCa.Core.Readback
import FrostSshCa.Coordinator.Spec
import FrostSshCa.Coordinator.Abort
import FrostSshCa.Coordinator.Parked
import FrostSshCa.Coordinator.Link
import FrostSshCa.Coordinator.Record
import FrostSshCa.Coordinator.Event
import FrostSshCa.Coordinator.Cast
import FrostSshCa.Coordinator.Round1
import FrostSshCa.Coordinator.Outbox
import FrostSshCa.Coordinator.Roster
import FrostSshCa.Coordinator.Outgoing
import FrostSshCa.Coordinator.Attempts
import FrostSshCa.Coordinator.Blacklist
import FrostSshCa.Coordinator.Formation
import FrostSshCa.Coordinator.Prepare
import FrostSshCa.Coordinator.Reports
import FrostSshCa.Coordinator.Shares
import FrostSshCa.Coordinator.Table
import FrostSshCa.Coordinator.Apart
import FrostSshCa.Coordinator.Eager
import FrostSshCa.Coordinator.Ledger
import FrostSshCa.Coordinator.Opened
import FrostSshCa.Coordinator.Buffers
import FrostSshCa.Coordinator.Copies
import FrostSshCa.Coordinator.Isolation
import FrostSshCa.Coordinator.CaKey
import FrostSshCa.Coordinator.Requests
import FrostSshCa.Coordinator.Blocks
import FrostSshCa.Coordinator.Warrant
import FrostSshCa.Coordinator.Traffic
import FrostSshCa.Coordinator.Expiry
import FrostSshCa.Coordinator.Blame
import FrostSshCa.Coordinator.Robust
import FrostSshCa.Coordinator.Progress
import FrostSshCa.Coordinator.Exit
import FrostSshCa.Coordinator.Options
import FrostSshCa.Coordinator.Loop
import FrostSshCa.Coordinator.Serve
import FrostSshCa.Signer.Frame
import FrostSshCa.Signer.Spec
import FrostSshCa.Signer.Nonce
import FrostSshCa.Signer.Authentic
import FrostSshCa.Signer.Armed
import FrostSshCa.Signer.Turn
import FrostSshCa.Signer.Persist
import FrostSshCa.Signer.Modes
import FrostSshCa.Signer.Tables
import FrostSshCa.System.State
import FrostSshCa.System.Fresh
import FrostSshCa.System.Serving
import FrostSshCa.System.Attribution
import FrostSshCa.System.Misfiled
import FrostSshCa.System.Consent
import FrostSshCa.System.Standing
import FrostSshCa.System.Ceremony
import FrostSshCa.System.Rounds
import FrostSshCa.System.Dealing
import FrostSshCa.Analysis.MergeIntervals
import FrostSshCa.Issue.Valid
