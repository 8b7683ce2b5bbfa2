import Wordstream.Value

/-!
# Arenas

An arena holds the cells of one kind. A reference is the place of its cell; cells are added and
overwritten, never removed. Outside of an arena every cell is the default one, until it is written.

## Main results

* `Arena.get_alloc`, `Arena.get_set` — reading behind an allocation, behind a write
* `Arena.Has.alloc`, `Arena.Has.set` — cells are never removed
-/

namespace Wordstream

/-- The cells of one kind. -/
structure Arena (kind : Entity) (α : Type) where
  cells : Array α

namespace Arena

variable {kind : Entity} {α : Type}

/-- The arena without cells. -/
def empty : Arena kind α := ⟨#[]⟩

/-- The reference that the next allocation will give. -/
def next (arena : Arena kind α) : Ref kind := ⟨arena.cells.size⟩

/-- Add a cell; its reference is `next`. -/
def alloc (arena : Arena kind α) (cell : α) : Arena kind α := ⟨arena.cells.push cell⟩

/-- The cell at a reference. -/
def get [Inhabited α] (arena : Arena kind α) (ref : Ref kind) : α :=
  arena.cells.getD ref.index default

/-- Overwrite the cell at a reference. An arena that does not reach it grows that far. -/
def set [Inhabited α] (arena : Arena kind α) (ref : Ref kind) (cell : α) : Arena kind α :=
  if ref.index < arena.cells.size then ⟨arena.cells.setIfInBounds ref.index cell⟩
  else ⟨(arena.cells ++ Array.replicate (ref.index - arena.cells.size) default).push cell⟩

/-- Whether a reference points to a cell of the arena. -/
def Has (arena : Arena kind α) (ref : Ref kind) : Prop := ref.index < arena.cells.size

/-- An allocation adds one cell and leaves the others. -/
@[simp]
theorem get_alloc [Inhabited α] (arena : Arena kind α) (cell : α) (ref : Ref kind) :
    (arena.alloc cell).get ref = if ref = arena.next then cell else arena.get ref := by
  obtain ⟨index⟩ := ref
  simp only [get, alloc, next, Array.getD_eq_getD_getElem?, Array.getElem?_push, Ref.mk.injEq]
  split <;> rfl

/-- A write changes the cell it is made to, and no other. -/
@[simp]
theorem get_set [Inhabited α] (arena : Arena kind α) (ref other : Ref kind) (cell : α) :
    (arena.set ref cell).get other = if other = ref then cell else arena.get other := by
  obtain ⟨i⟩ := ref
  obtain ⟨j⟩ := other
  simp only [get, set, Array.getD_eq_getD_getElem?, Ref.mk.injEq]
  split
  · grind
  · grind

/-- What the next allocation will give points to no cell yet. -/
theorem get_next [Inhabited α] (arena : Arena kind α) : arena.get arena.next = default := by
  simp [get, next]

/-- A reference at which there is anything points to a cell. -/
theorem has_of_get_ne [Inhabited α] {arena : Arena kind α} {ref : Ref kind}
    (h : arena.get ref ≠ default) : arena.Has ref := by
  unfold Has
  refine Decidable.byContradiction fun beyond => h ?_
  simp only [get, Array.getD, beyond, dite_false]

/-- A reference that points to a cell is not the next one. -/
theorem Has.ne_next {arena : Arena kind α} {ref : Ref kind} (h : arena.Has ref) :
    ref ≠ arena.next := by
  rintro rfl
  exact Nat.lt_irrefl _ h

/-- An allocation removes no cell. -/
theorem Has.alloc {arena : Arena kind α} {ref : Ref kind} (h : arena.Has ref) (cell : α) :
    (arena.alloc cell).Has ref := by
  have size_eq : (arena.alloc cell).cells.size = arena.cells.size + 1 := Array.size_push ..
  unfold Has at h ⊢
  omega

/-- An allocation adds no more than one cell. -/
theorem has_of_alloc {arena : Arena kind α} {ref : Ref kind} {cell : α}
    (h : (arena.alloc cell).Has ref) (old : ref ≠ arena.next) : arena.Has ref := by
  have size_eq : (arena.alloc cell).cells.size = arena.cells.size + 1 := Array.size_push ..
  have index_ne : ref.index ≠ arena.cells.size := fun same => old (congrArg Ref.mk same)
  unfold Has at h ⊢
  omega

/-- An allocation gives a cell. -/
theorem has_alloc_next (arena : Arena kind α) (cell : α) : (arena.alloc cell).Has arena.next := by
  have size_eq : (arena.alloc cell).cells.size = arena.cells.size + 1 := Array.size_push ..
  unfold Has
  rw [size_eq]
  exact Nat.lt_succ_self _

/-- A write removes no cell. -/
theorem Has.set [Inhabited α] {arena : Arena kind α} {other : Ref kind} (h : arena.Has other)
    (ref : Ref kind) (cell : α) : (arena.set ref cell).Has other := by
  unfold Has at h ⊢
  unfold Arena.set
  split
  · simpa using h
  · simp only [Array.size_push, Array.size_append, Array.size_replicate]
    omega

/-- A write to a cell adds none. -/
theorem has_of_set [Inhabited α] {arena : Arena kind α} {ref other : Ref kind} {cell : α}
    (has : arena.Has ref) (h : (arena.set ref cell).Has other) : arena.Has other := by
  unfold Has at has h ⊢
  simpa [Arena.set, if_pos has] using h

/-- A write to a cell leaves it at that which the next allocation will give. -/
theorem Has.next_set [Inhabited α] {arena : Arena kind α} {ref : Ref kind} (h : arena.Has ref)
    (cell : α) : (arena.set ref cell).next = arena.next := by
  unfold Has at h
  simp [Arena.set, if_pos h, next]

/-- Of two writes to a cell the second is what counts. -/
theorem Has.set_set [Inhabited α] {arena : Arena kind α} {ref : Ref kind} (h : arena.Has ref)
    (first second : α) : (arena.set ref first).set ref second = arena.set ref second := by
  unfold Has at h
  simp [Arena.set, if_pos h]

/-- Writing what is there already changes nothing. -/
theorem Has.set_get [Inhabited α] {arena : Arena kind α} {ref : Ref kind} (h : arena.Has ref) :
    arena.set ref (arena.get ref) = arena := by
  unfold Has at h
  rw [Arena.set, if_pos h, get, Array.getD_eq_getD_getElem?, Array.getElem?_eq_getElem h]
  exact congrArg Arena.mk (by simp [Array.setIfInBounds, h])

/-- Whether a reference points to a cell can be told from the next one. -/
theorem Has.of_next {arena other : Arena kind α} {ref : Ref kind} (h : arena.Has ref)
    (same : other.next = arena.next) : other.Has ref := by
  have size_eq : other.cells.size = arena.cells.size := congrArg Ref.index same
  unfold Has at h ⊢
  omega

/-- There is a cell where one was written. -/
theorem has_set [Inhabited α] (arena : Arena kind α) (ref : Ref kind) (cell : α) :
    (arena.set ref cell).Has ref := by
  unfold Has Arena.set
  split
  · simpa
  · simp only [Array.size_push, Array.size_append, Array.size_replicate]
    omega

end Arena

end Wordstream
