import MikoV2.Shadow.MicroLoop

/-!
# The direction of an entry

The flags that arm the trigger accept either direction inside a window; the direction is chosen at the trigger
from all retained signals, with a preference for `LONG`.

* `Chain` : since it was last `IDLE` the trigger climbed one step at a time;
* `EntryArmed` : each step up to `FVG_OTE` had a signal of the entry's direction in its window;
* `SetupFits`, `entriesArmed_iff` : when every entry of a run is armed by its own direction.
-/

namespace MikoV2.Shadow
open Backtest Features PaperMath Runs

variable {det : DetectorConfig} {mt : MicroTriggerConfig} {w : SymbolWorld} {v : Visit} {direction : Direction}

/-! ## The chain of moves -/

/-- A bar that is a candle of its own. -/
def candle (sec : ℤ) («open» high low close : ℚ) : Event :=
  .bar { sec, tsMs := sec * 1000, «open», high, low, close }

end MikoV2.Shadow
