import Spamass.Framing
import Spamass.Emailz.Socket
import Spamass.Emailz.ReadLine
import Spamass.Emailz.ReadCommand
import Spamass.Emailz.HandleRead
import Spamass.Emailz.Dialogue
import Spamass.Emailz.LineLoop
import Spamass.Emailz.Splitting
import Spamass.Emailz.Fragments
import Spamass.Emailz.EndOfMail
import Spamass.Emailz.Transport
import Spamass.Emailz.StartTls
import Spamass.App.Text
import Spamass.App.Mail
import Spamass.Emailz.Talk
import Spamass.App.Ledger
import Spamass.App.Recipients
import Spamass.App.Delivery
import Spamass.App.Calls
import Spamass.App.Lifetime
import Spamass.Bisect
import Spamass.Geo.Regions
import Spamass.Geo.Lookup
import Spamass.App.Search
import Spamass.App.Inbox
import Spamass.Emailz.Schedule
import Spamass.Emailz.TlsFlags
import Spamass.Emailz.Closing
import Spamass.Emailz.DataPhase
import Spamass.Emailz.Conservation
import Spamass.Emailz.Replies
import Spamass.App.Transactions
import Spamass.Web.SearchPage
import Spamass.Web.Links
import Spamass.App.Markers
import Spamass.Web.Snapshot
import Spamass.Emailz.ShortestLine
import Spamass.Geo.Gaps
import Spamass.App.Handing
import Spamass.FixedWidth
import Spamass.App.Decimals
import Spamass.App.Serials
import Spamass.Web.Encoding
import Spamass.Emailz.Accepts
import Spamass.App.RecordName
import Spamass.Web.Columns
import Spamass.App.RecordPath
import Spamass.Geo.Reload
import Spamass.Web.MailPath
import Spamass.Emailz.LineBuffer
import Spamass.Emailz.CommandLine
import Spamass.Emailz.Keywords
import Spamass.App.PathArgument
import Spamass.App.HeaderRun
import Spamass.Web.MailSize
import Spamass.App.Transparency
import Spamass.Stripped
import Spamass.Web.Subject
import Spamass.Base64
import Spamass.Emailz.AuthPlain
import Spamass.App.Idle
import Spamass.Emailz.SslInput
import Spamass.Geo.Hostip
import Spamass.Geo.Geocode
import Spamass.Web.Answers
import Spamass.Json.Tokeniser
import Spamass.Json.Restart
import Spamass.Json.StreamParser
import Spamass.Json.Document
import Spamass.Json.Parsing
import Spamass.Chunked
import Spamass.Http.Connection
import Spamass.Http.Body
import Spamass.Http.Wire
import Spamass.Http.Exchange
import Spamass.Http.Client
import Spamass.Http.Searches
import Spamass.Site.Server
import Spamass.Site.Pages
import Spamass.Site.Outcome
import Spamass.Site.Keeping
import Spamass.Json.StreamWriter
import Spamass.Json.Written
import Spamass.Json.RoundTrip
