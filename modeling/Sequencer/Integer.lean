/-! Integers of 64 bits with sign, the ones that documents and variables can hold. -/

namespace Sequencer

def inWord (n : Int) : Bool :=
  decide (-9223372036854775808 ≤ n) && decide (n ≤ 9223372036854775807)

end Sequencer
