import Varcoin.Types
import Varcoin.StdMap
import Varcoin.Selector.Coins
import Varcoin.Selector.Optimize
import Varcoin.Selector.Inner
import Varcoin.Selector.Outer
import Varcoin.Selector.Run
import Varcoin.Selector.Session
import Varcoin.Selector.Fee
import Varcoin.Selector.Rounding
import Varcoin.Selector.Cover
import Varcoin.Selector.Graded
import Varcoin.Selector.Greedy
import Varcoin.Selector.Termination
import Varcoin.Selector.Balance
import Varcoin.Builder.Builder
import Varcoin.Builder.Ring
import Varcoin.Builder.Sign
import Varcoin.Builder.Mixins
import Varcoin.Transfer
