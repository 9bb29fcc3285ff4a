import Ground.Chat.Routed
import Ground.Dns.Answered
import Ground.Dns.Classify
import Ground.Dns.Delimit
import Ground.Dns.Fabricate
import Ground.Dns.Packet
import Ground.Edge.Paid
import Ground.Executor.Handover
import Ground.Executor.Result
import Ground.Executor.Sleep
import Ground.Io.Directions
import Ground.Io.HangUp
import Ground.Io.Served
import Ground.Net.Incoming
import Ground.Net.Tcp
import Ground.Net.Unix
import Ground.Reentry.Poison
import Ground.Stream.Work
import Ground.System.Distinct
import Ground.System.Refused
import Ground.System.Replace
