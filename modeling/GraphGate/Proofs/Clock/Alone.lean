import GraphGate.Proofs.Clock.Timeline

/-! A task that has the clock for itself: the clock moves by its pauses and by nothing else. -/
namespace GraphGate

variable {σ α : Type}

namespace Clock

variable {now turns due call : Nat} {world : World σ}

end Clock

end GraphGate
