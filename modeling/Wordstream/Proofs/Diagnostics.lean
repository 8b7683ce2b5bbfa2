import Wordstream.Source.Diagnostic

/-!
# Collections of diagnostics

A collection keeps the first diagnostics and counts them all. What pushing a list stores is said
once: as many of the list as there is room for, behind what is stored already. Everything else
about collections comes from this and from the count.

A later collection may itself have dropped diagnostics, and `extend` adds what it stored and what
it only counted separately. A fresh collection has at least as much room as any other, so what it
dropped would not have been stored behind earlier diagnostics either. It makes no difference,
therefore, whether diagnostics are collected at once or in passes.

## Main results

* `Diagnostics.stored_foldl_push` — what is stored after a list was pushed
* `Diagnostics.extend_foldl_push` — to merge a pass is to push what it pushed
* `Diagnostics.foldl_extend_passes` — passes that are merged store and count what one pass does
-/

namespace Wordstream.Diagnostics

/-! ### Pushing -/

/-- Of the diagnostics that are pushed, as many are stored as there is room for. -/
theorem stored_foldl_push (found : Diagnostics) (more : List Diagnostic) :
    (more.foldl push found).stored =
      found.stored ++ more.take (capacity - found.stored.length) := by
  induction more generalizing found with
  | nil => simp
  | cons d more ih =>
    rw [List.foldl_cons, ih]
    by_cases room : found.stored.length < capacity
    · -- The first takes one place, and the others are left with one less.
      have stored : (found.push d).stored = found.stored ++ [d] := if_pos room
      have places : capacity - found.stored.length =
          capacity - (found.push d).stored.length + 1 := by
        rw [stored, List.length_append, List.length_singleton]
        omega
      rw [places, List.take_succ_cons, stored, List.append_assoc, List.singleton_append]
    · have stored : (found.push d).stored = found.stored := if_neg room
      have places : capacity - found.stored.length = 0 := by omega
      rw [stored, places, List.take_zero, List.take_zero]

/-- Pushing a list, all at once. -/
theorem foldl_push_eq (found : Diagnostics) (more : List Diagnostic) :
    more.foldl push found =
      ⟨found.stored ++ more.take (capacity - found.stored.length), found.total + more.length⟩ := by
  rw [← stored_foldl_push, ← total_foldl_push]

/-- A fresh collection to which a list was pushed holds the start of the list and its length. -/
theorem foldl_push_empty (all : List Diagnostic) :
    all.foldl push empty = ⟨all.take capacity, all.length⟩ := by
  rw [foldl_push_eq]
  simp [empty]

theorem mem_stored_foldl_push {found : Diagnostics} {more : List Diagnostic} {d : Diagnostic}
    (mem : d ∈ (more.foldl push found).stored) : d ∈ found.stored ∨ d ∈ more := by
  rw [stored_foldl_push] at mem
  exact (List.mem_append.1 mem).imp_right List.mem_of_mem_take

theorem mem_stored_push {found : Diagnostics} {d e : Diagnostic}
    (mem : d ∈ (found.push e).stored) : d ∈ found.stored ∨ d = e :=
  (@mem_stored_foldl_push found [e] d mem).imp_right List.mem_singleton.1

/-! ### Merging -/

theorem stored_extend (found later : Diagnostics) :
    (found.extend later).stored =
      found.stored ++ later.stored.take (capacity - found.stored.length) :=
  stored_foldl_push found later.stored

theorem total_extend (found later : Diagnostics) :
    (found.extend later).total =
      found.total + later.stored.length + (later.total - later.stored.length) :=
  congrArg (· + _) (total_foldl_push found later.stored)

/-- Together nothing is stored but what either stored. -/
theorem mem_stored_extend {found later : Diagnostics} {d : Diagnostic}
    (mem : d ∈ (found.extend later).stored) : d ∈ found.stored ∨ d ∈ later.stored :=
  mem_stored_foldl_push mem

/-- Together nothing was found just when neither found anything. -/
theorem any_extend_eq_false {found later : Diagnostics} (none : (found.extend later).any = false) :
    found.any = false ∧ later.any = false := by
  have total : (found.extend later).total = 0 := Nat.eq_zero_of_not_pos (of_decide_eq_false none)
  rw [total_extend] at total
  constructor
  · simp only [any, decide_eq_false_iff_not]
    omega
  · simp only [any, decide_eq_false_iff_not]
    omega

/-! ### How many are stored -/

/-- All diagnostics are stored as long as there is room. -/
def Kept (found : Diagnostics) : Prop := found.stored.length = min found.total capacity

theorem Kept.foldl_push {found : Diagnostics} (kept : found.Kept) (more : List Diagnostic) :
    (more.foldl push found).Kept := by
  unfold Kept at kept ⊢
  rw [stored_foldl_push, total_foldl_push, List.length_append, List.length_take]
  omega

theorem Kept.extend {found later : Diagnostics} (kept : found.Kept) (after : later.Kept) :
    (found.extend later).Kept := by
  -- If the later ones were not all stored, they alone fill the room.
  unfold Kept at kept after ⊢
  rw [stored_extend, total_extend, List.length_append, List.length_take]
  omega

/-- Diagnostics of which none was dropped, because there are not too many. -/
structure Complete (found : Diagnostics) : Prop where
  stored : found.stored.length = found.total
  few : found.total ≤ capacity

theorem Complete.push {found : Diagnostics} (complete : found.Complete)
    (room : found.full = false) (d : Diagnostic) : (found.push d).Complete := by
  have fewer : found.total < capacity := by simpa [full] using room
  have kept : found.stored.length < capacity := complete.stored ▸ fewer
  refine ⟨?_, fewer⟩
  rw [Diagnostics.push, if_pos kept, List.length_append, complete.stored]
  rfl

/-! ### Passes -/

/-- To merge a pass that was collected on its own is to push what the pass pushed, whatever was
found before. -/
theorem extend_foldl_push (found : Diagnostics) (pass : List Diagnostic) :
    found.extend (pass.foldl push empty) = pass.foldl push found := by
  -- There is never more room behind `found` than there was in the fresh collection.
  have room : min (capacity - found.stored.length) capacity = capacity - found.stored.length :=
    Nat.min_eq_left (Nat.sub_le _ _)
  -- What the fresh collection dropped is the difference between its count and its length.
  have counted : (pass.take capacity).length + (pass.length - (pass.take capacity).length) =
      pass.length := Nat.add_sub_cancel' (List.length_take_le' capacity pass)
  rw [foldl_push_empty, extend]
  dsimp only
  rw [foldl_push_eq, foldl_push_eq, List.take_take, room, Nat.add_assoc, counted]

/-- Collecting diagnostics in passes is collecting them at once. Whatever the passes are, to fill
a fresh collection with each and to merge these in order gives the collection that is filled with
the diagnostics of all passes, one pass after the other: it stores the first twenty of them and
counts them all. -/
theorem foldl_extend_passes (passes : List (List Diagnostic)) :
    passes.foldl (fun all pass => all.extend (pass.foldl push empty)) empty =
        passes.flatten.foldl push empty ∧
      (passes.flatten.foldl push empty).stored = passes.flatten.take 20 ∧
      (passes.flatten.foldl push empty).total = passes.flatten.length := by
  refine ⟨?_, ?_, ?_⟩
  · simp only [extend_foldl_push, List.foldl_flatten]
  · rw [foldl_push_empty]
    rfl
  · rw [foldl_push_empty]

end Wordstream.Diagnostics
