import Projector.Base.File
import Projector.Base.Framing
import Projector.Base.Loop
import Projector.Base.Memory
import Projector.Base.Protocol
import Projector.Base.Raster
import Projector.Base.Reader
import Projector.Base.Response
import Projector.Base.Run
import Projector.Base.Simulation
import Projector.Base.Writes
import Projector.Bitmap.Converter
import Projector.Bitmap.Gray
import Projector.Bitmap.Info
import Projector.Bitmap.Lines
import Projector.Bitmap.Pipeline
import Projector.Bitmap.Rewrite
import Projector.Bitmap.RoundTrip
import Projector.Echo
import Projector.Fb.Painting
import Projector.Fb.Pixel
import Projector.Server.Address
import Projector.Server.Alone
import Projector.Server.Buffer
import Projector.Server.Capacity
import Projector.Server.Client
import Projector.Server.Cutting
import Projector.Server.Decoding
import Projector.Server.Delivery
import Projector.Server.Departure
import Projector.Server.Drain
import Projector.Server.Effect
import Projector.Server.Election
import Projector.Server.Floor
import Projector.Server.Follow
import Projector.Server.Frame
import Projector.Server.Grant
import Projector.Server.Handover
import Projector.Server.Identity
import Projector.Server.Interleaving
import Projector.Server.Isolation
import Projector.Server.Iteration
import Projector.Server.Lengths
import Projector.Server.ListCount
import Projector.Server.Listing
import Projector.Server.Loop
import Projector.Server.Main
import Projector.Server.Names
import Projector.Server.Observer
import Projector.Server.Outgoing
import Projector.Server.Parsing
import Projector.Server.Picture
import Projector.Server.Presentation
import Projector.Server.Program
import Projector.Server.Projection
import Projector.Server.Realisation
import Projector.Server.Reassembly
import Projector.Server.Receive
import Projector.Server.Reduction
import Projector.Server.Refusal
import Projector.Server.Request
import Projector.Server.Rounds
import Projector.Server.Safety
import Projector.Server.Screen
import Projector.Server.Sending
import Projector.Server.Sessions
import Projector.Server.State
import Projector.Server.Streaming
import Projector.Server.Table
import Projector.Server.Threads
import Projector.Server.Torn
import Projector.Server.UserList
