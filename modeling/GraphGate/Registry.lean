import GraphGate.Table

/-! Services: tables of methods under their ids. -/
namespace GraphGate

structure Registry (ρ : Type) where
  services : Table (Table ρ)
  /-- Ids that count as present although nothing is found under them. -/
  announced : List String

namespace Registry

variable {ρ : Type}

def empty : Registry ρ := ⟨[], []⟩

/-- A later service takes the place of an earlier one of its id. -/
def register (registry : Registry ρ) (id : String) (service : Table ρ) : Registry ρ :=
  { registry with services := registry.services.put id service }

def has (registry : Registry ρ) (id : String) : Bool :=
  registry.announced.contains id || registry.services.has id

def get? (registry : Registry ρ) (id : String) : Option (Table ρ) :=
  Table.get? id registry.services

end Registry

end GraphGate
