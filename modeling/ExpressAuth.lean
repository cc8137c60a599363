import ExpressAuth.Library.Runs
import ExpressAuth.JavaScript
import ExpressAuth.Redis
import ExpressAuth.Routes
import ExpressAuth.AdminTool
import ExpressAuth.Server
import ExpressAuth.Serial
import ExpressAuth.Proofs.Segments
import ExpressAuth.Proofs.ServerInvariants
import ExpressAuth.Proofs.Isolation
import ExpressAuth.Proofs.SerialEffects
import ExpressAuth.Proofs.Records
import ExpressAuth.Proofs.Authorisation
import ExpressAuth.Proofs.ResetLinks
import ExpressAuth.Proofs.Flow
import ExpressAuth.Proofs.Authentication
import ExpressAuth.Proofs.Credentials
import ExpressAuth.Proofs.VerifyLinks
import ExpressAuth.Proofs.Line
import ExpressAuth.Proofs.OneUser
import ExpressAuth.Proofs.MailChange
import ExpressAuth.Proofs.ResetOnce
import ExpressAuth.Proofs.ConfirmedReset
import ExpressAuth.Proofs.SerialRuns
import ExpressAuth.Proofs.LinkLifetimes
import ExpressAuth.Proofs.Existence
import ExpressAuth.Proofs.Activation
import ExpressAuth.Proofs.Guard
import ExpressAuth.Proofs.Bursts
import ExpressAuth.Proofs.NullToken
import ExpressAuth.Proofs.Registration
import ExpressAuth.Library.LazyPattern
import ExpressAuth.Proofs.CommandLine
import ExpressAuth.Proofs.Hashing
import ExpressAuth.Router
import ExpressAuth.Proofs.Links
import ExpressAuth.Library.PosixPath
import ExpressAuth.Proofs.MailFiles
import ExpressAuth.Library.Decimal
import ExpressAuth.Redis.Util
import ExpressAuth.Library.Framing
import ExpressAuth.NodeRedis.Parser
import ExpressAuth.Proofs.Numbers
import ExpressAuth.Proofs.CommandStream
import ExpressAuth.Proofs.Replies
import ExpressAuth.Proofs.ReplyStream
import ExpressAuth.Library.Ring
import ExpressAuth.NodeRedis.Deque
import ExpressAuth.Proofs.CommandQueue
import ExpressAuth.Library.Simulation
import ExpressAuth.NodeRedis.Client
import ExpressAuth.Proofs.ReplyBytes
import ExpressAuth.Proofs.Sending
import ExpressAuth.Proofs.Wire
import ExpressAuth.Proofs.Answers
import ExpressAuth.Proofs.IssuedLinks
