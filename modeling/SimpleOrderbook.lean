import SimpleOrderbook.StopTriggers
import SimpleOrderbook.Delivery
import SimpleOrderbook.AonSides
import SimpleOrderbook.Refinement
import SimpleOrderbook.Growth
import SimpleOrderbook.AsyncCallbacks
import SimpleOrderbook.ResourceManager
import SimpleOrderbook.Coverage
import SimpleOrderbook.Queries
import SimpleOrderbook.StopWindows
import SimpleOrderbook.Fronts
import SimpleOrderbook.AonWindows
import SimpleOrderbook.TrailingSets
import SimpleOrderbook.CacheChains
import SimpleOrderbook.Dispatcher
import SimpleOrderbook.Finality
import SimpleOrderbook.Pulls
import SimpleOrderbook.PriceLimits
