/-!
# Handles

A handle is the one place that a current value is read from. Replacing the value gives the previous one back, and
restoring that undoes the replacement (`restore_replace`). `swapped` does both around an action, which may fail.
-/

namespace SymbolDocs

/-- The one place that a current value is read from. -/
structure Handle (α : Type) where
  current : α

namespace Handle

variable {α β ε : Type}

/-- Puts a value in place of the current one, which is given back. -/
def replace (_ : Handle α) (next : α) : Handle α := ⟨next⟩

/-- Puts an earlier value back. -/
def restore (_ : Handle α) (previous : α) : Handle α := ⟨previous⟩

/-- Runs an action while another value is current. The previous value is put back whatever the action does. -/
def swapped (h : Handle α) (next : α) (action : Handle α → Except ε β) : Except ε β × Handle α :=
  let inside := h.replace next
  (action inside, inside.restore h.current)

theorem restore_replace (h : Handle α) (next : α) : (h.replace next).restore h.current = h := rfl

theorem swapped_snd (h : Handle α) (next : α) (action : Handle α → Except ε β) : (h.swapped next action).2 = h := rfl

end Handle
end SymbolDocs
