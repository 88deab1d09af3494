import AcceleratorScheduler.CommandLine
import Mathlib.Data.List.Induction

/-! What arguments mean. They are read to their end exactly if they are words written one after the
other, a word being a flag with its operand, and then give what these words ask for. All others are
such words up to the place where reading stops, and what stands there is what the error names. -/
namespace AcceleratorScheduler.CommandLine

namespace Word

end Word

/-- A flag that follows a request for a path is a path. -/
example : parseArgs ["--demo", "--config", "--help"] =
    .ok { demo := true, config := some "--help" } := rfl

end AcceleratorScheduler.CommandLine
