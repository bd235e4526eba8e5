import FireCtrl.Lib.Table
import FireCtrl.Lib.Run
import FireCtrl.Lib.Prog
import FireCtrl.Lib.Keyset
import FireCtrl.Lib.Bfs
import FireCtrl.Lib.Levels
import FireCtrl.Lib.Dfs
import FireCtrl.Lib.JoinSet
import FireCtrl.Lib.Retry
import FireCtrl.Lib.Semaphore
import FireCtrl.Lib.Cidr
import FireCtrl.Lib.Sql
import FireCtrl.Json
import FireCtrl.Models
import FireCtrl.Codec
import FireCtrl.Queue.Database
import FireCtrl.Queue.Spec
import FireCtrl.Queue.History
import FireCtrl.Queue.Invariant
import FireCtrl.Effects
import FireCtrl.Worker
import FireCtrl.Api
import FireCtrl.Pages
import FireCtrl.System.Model
import FireCtrl.Delete
import FireCtrl.System.Locks
import FireCtrl.System.Stalls
import FireCtrl.System.Protocol
import FireCtrl.System.Ownership
import FireCtrl.System.Status
import FireCtrl.System.Writers
import FireCtrl.System.FailOver
import FireCtrl.System.Errors
import FireCtrl.System.Representation
import FireCtrl.System.Cancel
import FireCtrl.System.Ongoing
import FireCtrl.System.Stored
import FireCtrl.System.Retry
import FireCtrl.System.Counters
import FireCtrl.Pool
import FireCtrl.Monitor
import FireCtrl.Settling
import FireCtrl.Shutdown
import FireCtrl.Scraper
import FireCtrl.Crawl
import FireCtrl.Rounds
import FireCtrl.Sitemap
import FireCtrl.SitemapWalk
import FireCtrl.Robots
import FireCtrl.Webhook
import FireCtrl.Lib.Text
import FireCtrl.Lib.Words
import FireCtrl.Lib.Decimal
import FireCtrl.ExtractJson
import FireCtrl.Cursor
import FireCtrl.Execution
import FireCtrl.Joins
import FireCtrl.Extraction
import FireCtrl.ExtractJob
import FireCtrl.Llm
import FireCtrl.Search
import FireCtrl.System.Envelopes
import FireCtrl.Queue.Statements
import FireCtrl.Formats
import FireCtrl.Html
import FireCtrl.Batch
import FireCtrl.Lib.Distinct
import FireCtrl.Map
import FireCtrl.Submit
import FireCtrl.Queue.Drain
import FireCtrl.Queue.Waiting
import FireCtrl.Events
import FireCtrl.System.Timed
import FireCtrl.System.Permits
import FireCtrl.System.Progress
import FireCtrl.System.Polling
import FireCtrl.Routes
import FireCtrl.System.Accepted
import FireCtrl.System.Delivered
import FireCtrl.Lib.Loader
import FireCtrl.Settings
import FireCtrl.System.Asked
