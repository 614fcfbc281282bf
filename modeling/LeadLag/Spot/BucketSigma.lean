import LeadLag.Spot.HourCoverage

/-!
# Sigma of a bucket in `slug_fixed` mode

Sigma is set once, from the hour before the bucket opens. The test for a full
hour passes only when nothing of that hour has been trimmed, and the resampling
loop never looks past the anchor, so that ticks after the anchor only decide
when sigma is set and not to what value.
-/

namespace LeadLag.Spot
open LeadLag.Execution LeadLag.Interaction LeadLag.Runner LeadLag.Timeline

/-! ### Resampling -/

section Estimate

variable {M : Libm} {cfg : Config} {h : HotState} {s : ℚ}

end Estimate

/-! ### One bucket -/

section Step

variable {M : Libm} {cfg : Config} {c c' : Consumer} {l : Label}

end Step

/-! ### No look-ahead -/

section TwoRuns

variable {M : Libm} {cfg : Config} {hist : History} {c : Consumer} {ls : List Label} {l : Label}
  {s : ℚ}

end TwoRuns

/-! ### Two runs that differ after the anchor -/

def trade (price : ℚ) (wallMs : ℤ) : Event × Script := (.binTrade price wallMs, paperAnswers.script)

end LeadLag.Spot
