import WebCrawl.ServerHandover
import WebCrawl.ServerWakeup
import WebCrawl.ThreadCount
import WebCrawl.Outcome
import WebCrawl.LinkExtraction
import WebCrawl.CrawlCompletion
import WebCrawl.RequestDecoding
import WebCrawl.ContentProcessing
import WebCrawl.AnswerDecoding
import WebCrawl.IndexExtension
import WebCrawl.AnswerTruncation
import WebCrawl.PageDelivery
import WebCrawl.ServerAccounting
import WebCrawl.ServedPaths
import WebCrawl.SavedPaths
import WebCrawl.PathDistribution
import WebCrawl.WorkerMessages
import WebCrawl.PrivatePipes
import WebCrawl.ShutdownExit
import WebCrawl.ShutdownQueue
import WebCrawl.CrawlWakeup
import WebCrawl.QueueRefinement
import WebCrawl.ExtremeResults
import WebCrawl.UnendedPages
import WebCrawl.ContentSafety
import WebCrawl.RequestLines
import WebCrawl.AnswerSafety
import WebCrawl.IndexInvariant
import WebCrawl.BufferLimits
import WebCrawl.TextNumbering
import WebCrawl.PathsFile
import WebCrawl.CommandLoop
import WebCrawl.IncomingLinks
import WebCrawl.SiteTermination
import WebCrawl.DirectoryCreation
import WebCrawl.LineSplitting
import WebCrawl.TransferCalls
import WebCrawl.CrawlTermination
import WebCrawl.SiteMirror
import WebCrawl.SearchProgress
import WebCrawl.CreatedSite
import WebCrawl.IndexQueries
import WebCrawl.PathSharing
import WebCrawl.ServerDraining
import WebCrawl.ServerControl
import WebCrawl.IndexNodes
import WebCrawl.SiteSharing
import WebCrawl.WholeCrawler
