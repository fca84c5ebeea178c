import PicoBridge.Lib.Machine
import PicoBridge.Lib.OneShot
import PicoBridge.Lib.Register
import PicoBridge.Lib.Clock
import PicoBridge.Lib.NorFlash
import PicoBridge.Lib.Lockstep
import PicoBridge.Lib.Procedure
import PicoBridge.Lib.Noise
import PicoBridge.Lib.KeySchedule
import PicoBridge.Lib.Framing
import PicoBridge.Lib.Pull
import PicoBridge.Lib.Unwinding
import PicoBridge.Lib.Utf8
import PicoBridge.Lib.Layout
import PicoBridge.Lib.Base64
import PicoBridge.Lib.Json
import PicoBridge.Lib.Dict
import PicoBridge.Lib.Pattern
import PicoBridge.Lib.Cursor
import PicoBridge.Lib.Tlv
import PicoBridge.Lib.Checksum
import PicoBridge.Core.Bridge
import PicoBridge.Core.Steps
import PicoBridge.Core.Job
import PicoBridge.Core.Strokes
import PicoBridge.Core.Decode
import PicoBridge.Core.Typing
import PicoBridge.Core.Unambiguous
import PicoBridge.Core.Atomic
import PicoBridge.Core.Bounds
import PicoBridge.Usb.Drain
import PicoBridge.Usb.Release
import PicoBridge.Usb.Delivery
import PicoBridge.Usb.Stall
import PicoBridge.Usb.Origin
import PicoBridge.Usb.Deadline
import PicoBridge.Usb.Busy
import PicoBridge.Store.Record
import PicoBridge.Store.Roster
import PicoBridge.Store.WellFormed
import PicoBridge.Store.Flash
import PicoBridge.Store.Commit
import PicoBridge.Store.FirstBoot
import PicoBridge.Store.Reboot
import PicoBridge.Noise.Crypto
import PicoBridge.Noise.Responder
import PicoBridge.Noise.Initiator
import PicoBridge.Noise.Transport
import PicoBridge.Noise.History
import PicoBridge.Noise.Stages
import PicoBridge.Noise.Agreement
import PicoBridge.Noise.Identity
import PicoBridge.Noise.Bundle
import PicoBridge.Radio.Config
import PicoBridge.Radio.Codec
import PicoBridge.Radio.Corruption
import PicoBridge.Radio.Http
import PicoBridge.Radio.Grammar
import PicoBridge.Radio.Dhcp
import PicoBridge.Device.Dispatch
import PicoBridge.Device.Effect
import PicoBridge.Device.Policy
import PicoBridge.Device.Frame
import PicoBridge.Device.Revoke
import PicoBridge.Device.Authority
import PicoBridge.Device.Roles
import PicoBridge.Device.Session
import PicoBridge.Device.Rosters
import PicoBridge.Device.Outsider
import PicoBridge.Device.Forgery
import PicoBridge.Device.Packets
import PicoBridge.Device.Enrol
import PicoBridge.Device.Provision
import PicoBridge.Device.Credentials
import PicoBridge.Device.Staging
import PicoBridge.Device.Pairing
import PicoBridge.Link.Net
import PicoBridge.Link.Stream
import PicoBridge.Link.Lifetime
import PicoBridge.Link.Ble
import PicoBridge.Link.Reassembly
import PicoBridge.Link.Agree
import PicoBridge.Link.Commands
import PicoBridge.Link.Retry
import PicoBridge.Link.Exchange
import PicoBridge.Link.Transports
import PicoBridge.Link.Insertion
import PicoBridge.Link.Output
import PicoBridge.Link.Receive
import PicoBridge.Link.Lockout
import PicoBridge.Link.Radio
import PicoBridge.Link.Backoff
import PicoBridge.Link.Fleet
import PicoBridge.Link.Diagnostics
import PicoBridge.Noise.Nonces
import PicoBridge.Main.Loop
import PicoBridge.Main.Refinement
import PicoBridge.Main.Provenance
import PicoBridge.Main.Stranger
