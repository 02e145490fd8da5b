import ClassUniverse.Proofs.Universe.Changes
import ClassUniverse.Workspace

/-!
# The universe of a workspace

What happens to the universe of a workspace happens by the calls of the universe.  After each of
them the descriptors that nobody holds are let go.
-/

namespace ClassUniverse

/-- Who holds the descriptors of some classes and some members. -/
def Holders.classes : Holders → List ClassId
  | everything => []
  | these classes _ => classes

namespace Workspace

variable {w : Workspace} {id : ClassId}

/-- The classes of the stored hierarchy. -/
def treeClasses (w : Workspace) : List ClassId :=
  (w.hierarchy.map fun h => h.value.classes.values).getD []

/-- The workspace after a call of its universe. -/
def change (w : Workspace) (c : Call) : Workspace := { w with core := c.run w.core }.letGo

/-! ## Letting go -/

/-- Letting go changes the universe alone. -/
theorem letGo_eq (w : Workspace) : w.letGo = { w with core := w.letGo.core } := by
  unfold letGo
  split <;> rfl

/-- The universe lets go of what neither the registry nor the stored hierarchy nor anybody outside
holds. -/
theorem core_letGo {classes : List ClassId} {members : List Nat}
    (held : w.holders = .these classes members) :
    ∃ released, w.letGo.core = w.core.letGo (w.treeClasses ++ classes) released := by
  have released : (w.core.catalog.ids.filter fun id => !(w.core.catalog.ids.filter fun id =>
      (w.heldClasses ++ classes).contains id && w.core.catalog.isLive id).contains id) =
      w.core.catalog.ids.filter fun id =>
        !((w.core.registry.ids ++ (w.treeClasses ++ classes)).contains id &&
          w.core.catalog.isLive id) := by
    apply List.filter_congr
    intro id hm
    simp [heldClasses, treeClasses, hm]
  unfold letGo Universe.letGo
  rw [held]
  dsimp only
  rw [released]
  exact ⟨_, rfl⟩

theorem registry_letGo (w : Workspace) : w.letGo.core.registry = w.core.registry := by
  unfold letGo
  split <;> rfl

theorem isWellFormed_letGo (wf : w.core.IsWellFormed) : w.letGo.core.IsWellFormed := by
  cases held : w.holders with
  | everything =>
      unfold letGo
      rw [held]
      exact wf
  | these classes members =>
      obtain ⟨released, core⟩ := core_letGo held
      rw [core]
      exact wf.letGo _ _

theorem isWellFormed_change (wf : w.core.IsWellFormed) (c : Call) :
    (w.change c).core.IsWellFormed :=
  isWellFormed_letGo (w := { w with core := c.run w.core }) (c.isWellFormed_run wf)

theorem changes_letGo (w : Workspace) : w.letGo.changes = w.changes := by
  unfold changes
  rw [registry_letGo]

theorem changes_change (w : Workspace) (c : Call) :
    (w.change c).changes = (c.run w.core).registry.changes :=
  changes_letGo { w with core := c.run w.core }

theorem changes_le_change (wf : w.core.IsWellFormed) (c : Call) :
    w.changes ≤ (w.change c).changes := by
  rw [changes_change]
  exact c.changes_le wf

/-! ## Slots -/

section Slots

variable {α : Type} {slot : Option (Stamped α)} {x : Stamped α}

theorem current_eq_some_iff :
    w.current slot = some x ↔ slot = some x ∧ x.changes = w.changes := by
  simp [current, Option.filter_eq_some_iff]

theorem current_eq_none_iff : w.current slot = none ↔ ∀ x ∈ slot, x.changes ≠ w.changes := by
  simp [current, Option.filter_eq_none_iff]

end Slots

end Workspace

end ClassUniverse
