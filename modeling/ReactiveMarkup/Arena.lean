/-!
# Arenas

Things that have an identity: an arena holds them by their number, which is the order of their
creation and never changes. Everything that can be shared, compared for identity or referred to from
two sides lives in one.
-/

namespace ReactiveMarkup

/-- Things by their number. -/
structure Arena (α : Type) where
  cells : Array α

namespace Arena

variable {α : Type}

/-- The arena without things. -/
def empty : Arena α := ⟨#[]⟩

instance : Inhabited (Arena α) := ⟨empty⟩

/-- How many things there are; also the number of the next one. -/
def size (arena : Arena α) : Nat := arena.cells.size

def get? (arena : Arena α) (id : Nat) : Option α := arena.cells[id]?

/-- Puts a new thing under the next number. -/
def push (arena : Arena α) (cell : α) : Arena α := ⟨arena.cells.push cell⟩

/-- Changes the thing of a number. -/
def modify (arena : Arena α) (id : Nat) (f : α → α) : Arena α := ⟨arena.cells.modify id f⟩

def ids (arena : Arena α) : List Nat := List.range arena.size

@[simp] theorem size_push (arena : Arena α) (cell : α) :
    (arena.push cell).size = arena.size + 1 := by
  simp [push, size]

@[simp] theorem size_modify (arena : Arena α) (id : Nat) (f : α → α) :
    (arena.modify id f).size = arena.size := by
  simp [modify, size]

theorem get?_push (arena : Arena α) (cell : α) (id : Nat) :
    (arena.push cell).get? id = if id = arena.size then some cell else arena.get? id :=
  Array.getElem?_push

theorem get?_modify (arena : Arena α) (id other : Nat) (f : α → α) :
    (arena.modify id f).get? other =
      if id = other then (arena.get? other).map f else arena.get? other :=
  Array.getElem?_modify

end Arena

/-- Runs a step over a list, with a state that each step hands to the next, and collects what the
steps give. -/
def mapAccum {σ α β : Type} (step : σ → α → σ × β) : σ → List α → σ × List β
  | state, [] => (state, [])
  | state, item :: rest =>
    let (state, result) := step state item
    let (state, results) := mapAccum step state rest
    (state, result :: results)

end ReactiveMarkup
