import LeadLag.Execution.Clock
import LeadLag.Account.PaperLedger
import LeadLag.Account.StopProceeds
import LeadLag.Account.Shares
import LeadLag.Account.MaxLoss
import LeadLag.Paper.Position
import LeadLag.Paper.MaxLoss
import LeadLag.Orders.Cooldown
import LeadLag.Orders.BucketOrders
import LeadLag.Orders.EdgePersist
import LeadLag.Orders.EntryWindow
import LeadLag.Quotes.BucketQuotes
import LeadLag.Quotes.PositionQuotes
import LeadLag.Feeds.MarketTokens
import LeadLag.Spot.BucketSigma
import LeadLag.TokenFeed.Rollover
import LeadLag.TokenFeed.Labels
import LeadLag.TokenFeed.Subscription
import LeadLag.TokenFeed.TopOfBook
import LeadLag.Gamma.AllOrNothing
import LeadLag.Gamma.LiveBucket
import LeadLag.Account.Affordability
import LeadLag.Orders.SameCall
import LeadLag.PolyWs.Malformed
import LeadLag.Daemon.Lockstep
import LeadLag.Pool.Conservation
import LeadLag.Pool.WaitIdle
import LeadLag.Pipeline.StrikeTiming
import LeadLag.Rtds.Strike
import LeadLag.Rtds.RowLocal
import LeadLag.Rtds.FailedReconnect
import LeadLag.Execution.PostAmounts
import LeadLag.Execution.Replies
import LeadLag.Account.FillPrice
import LeadLag.Account.StopTotals
import LeadLag.Gamma.Alignment
import LeadLag.Gamma.Rejects
import LeadLag.Gamma.BucketScan
import LeadLag.Resample.LivePipeline
import LeadLag.Resample.CarryForward
import LeadLag.Resample.Termination
import LeadLag.Sim.SingleToken
import LeadLag.AsyncWriter.NothingLost
import LeadLag.Spot.TheoDomain
import LeadLag.PolyWs.Announced
import LeadLag.Tail.WholeLines
import LeadLag.Book.BestLevels
import LeadLag.Gamma.IsoInstant
import LeadLag.Events.Shutdown
import LeadLag.Spot.Restart
import LeadLag.Dashboard.RunnerTrades
import LeadLag.Logger.Numbers
import LeadLag.Daemon.Posted
import LeadLag.Daemon.Process
import LeadLag.Live.Trader
