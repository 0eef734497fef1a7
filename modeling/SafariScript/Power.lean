/-!
# Powers

Powers of natural numbers are those of the core library. A module that opens this scope means them
by `^`, whatever other powers the modules around it know.
-/

namespace SafariScript.Power

attribute [scoped instance (high)] instPowNat

end SafariScript.Power
