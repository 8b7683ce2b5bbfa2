import Wordstream.Proofs.Demand

/-!
# Frames on the stack

Every call that is entered is left, so an evaluation that ends leaves the stack as high, the calls
as deep and the bases of all definitions as they were. In its midst the calls that it has entered
stand on top of those that were active before, and there are never more of them than the limit
allows.

The active calls tile the stack: the oldest starts at its bottom, each starts where the one before
it ends, and the newest ends at the top. The base of a definition is where its newest call starts.

## Main results

* `Machine.Evolves.sameFrames`, `Machine.Passes.entered` — calls are entered and left in pairs
* `Reachable.framed` — active calls tile the stack in every state that can be reached
* `Demand.keeps_frames` — whatever is asked of a machine keeps the account of its calls
-/

namespace Wordstream

namespace Machine

/-! ## Calls that are entered and left -/

/-- The active calls and what keeps account of them are the same in both machines. -/
structure SameFrames (m m' : Machine) : Prop where
  config : m'.config = m.config
  calls : m'.calls = m.calls
  depth : m'.depth = m.depth
  size : m'.stack.size = m.stack.size
  base (ref : Ref .frame) : (m'.frames.get ref).base = (m.frames.get ref).base

/-- A machine that stands on the same ground has the same frames. -/
theorem sameFrames_of_footing {m m' : Machine} (h : m'.footing = m.footing) :
    m.SameFrames m' := by
  simp only [footing, Footing.mk.injEq] at h
  obtain ⟨config, stack, depth, calls, frames, _⟩ := h
  exact ⟨config, calls, depth, by rw [stack], fun ref => by rw [frames]⟩

theorem SameFrames.trans {m m' m'' : Machine} (first : m.SameFrames m')
    (second : m'.SameFrames m'') : m.SameFrames m'' where
  config := second.config.trans first.config
  calls := second.calls.trans first.calls
  depth := second.depth.trans first.depth
  size := second.size.trans first.size
  base ref := (second.base ref).trans (first.base ref)

/-- A call that is left after what keeps frames has left no trace among them. -/
theorem SameFrames.leave {m m' : Machine} {ref : Ref .frame} {args : List Value}
    (h : (m.enter ref args).SameFrames m') : m.SameFrames m'.leave := by
  -- The newest call of `m'` is the one that was entered, so its own frame is taken off.
  have calls : m'.calls = ⟨ref, m.stack.size, (m.frames.get ref).base⟩ :: m.calls := h.calls
  have depth : m'.depth = m.depth + 1 := h.depth
  have size : m'.stack.size = m.stack.size + m.width ref := by rw [h.size, size_enter]
  rw [leave_of_calls calls]
  refine ⟨h.config, rfl, ?_, ?_, fun other => ?_⟩
  · change m'.depth - 1 = m.depth
    omega
  · change (m'.stack.shrink m.stack.size).size = m.stack.size
    rw [Array.size_shrink]
    omega
  · change ((m'.setBase ref (m.frames.get ref).base).frames.get other).base = _
    rw [get_setBase]
    split
    · next same => rw [same]
    · next different =>
      rw [h.base other, get_enter, if_neg different]

/-- A course of events keeps frames. -/
theorem Evolves.sameFrames {m m' : Machine} (h : m.Evolves m') : m.SameFrames m' := by
  induction h with
  | quiet same => exact sameFrames_of_footing same
  | define m arity names body =>
    refine ⟨rfl, rfl, rfl, rfl, fun ref => ?_⟩
    rw [Arena.get_alloc]
    split
    · next new =>
      -- What is not defined yet counts as having its base at the bottom.
      rw [new, Arena.get_next]
      rfl
    · rfl
  | store m place value => exact ⟨rfl, rfl, rfl, Array.size_setIfInBounds, fun _ => rfl⟩
  | scene m => exact ⟨rfl, rfl, rfl, rfl, fun _ => rfl⟩
  | call ref args _ _ ih => exact ih.leave
  | play scene activation _ ih => exact ⟨ih.config, ih.calls, ih.depth, ih.size, ih.base⟩
  | trans _ _ first second => exact first.trans second

/-- In the midst of a course of events the calls that were entered stand on top of those that were
active before. They have been counted, each when there was room for it. -/
theorem Passes.entered {m m' : Machine} (h : m.Passes m') :
    m'.config = m.config ∧ ∃ entered, m'.calls = entered ++ m.calls ∧
      m'.depth = m.depth + entered.length ∧
      (entered = [] ∨ m'.depth ≤ m.config.maxCallDepth) := by
  -- On the calls that are active still; each was entered at the end of a course of events.
  induction h with
  | ended evolved =>
    have same := evolved.sameFrames
    exact ⟨same.config, [], same.calls, same.depth, .inl rfl⟩
  | @calling m₀ m₁ m₂ ref args before room _ ih =>
    have same := before.sameFrames
    obtain ⟨config, entered, calls, depth, within⟩ := ih
    have config₁ : (m₁.enter ref args).config = m₀.config := same.config
    have depth₁ : (m₁.enter ref args).depth = m₀.depth + 1 := congrArg (· + 1) same.depth
    have calls₁ : (m₁.enter ref args).calls =
        ⟨ref, m₁.stack.size, (m₁.frames.get ref).base⟩ :: m₀.calls := congrArg _ same.calls
    refine ⟨config.trans config₁,
      entered ++ [⟨ref, m₁.stack.size, (m₁.frames.get ref).base⟩], ?_, ?_, .inr ?_⟩
    · rw [calls, calls₁, List.append_assoc]
      rfl
    · rw [depth, depth₁, List.length_append, List.length_singleton]
      omega
    · rw [config₁] at within
      rcases within with rfl | within
      · rw [same.config, same.depth] at room
        rw [depth, depth₁]
        exact room
      · exact within
  | playing scene activation before _ ih =>
    have same := before.sameFrames
    obtain ⟨config, entered, calls, depth, within⟩ := ih
    have config₁ := config.trans same.config
    refine ⟨config₁, entered, calls.trans (congrArg _ same.calls),
      depth.trans (congrArg (· + _) same.depth), within.imp_right fun bound => ?_⟩
    rw [← same.config]
    exact bound

end Machine

/-! ## How calls lie on the stack -/

/-- Calls tile the stack up to a height: the newest ends there, each of the others ends where the
next newer one starts, and the oldest starts at the bottom. -/
def Tiled (width : Ref .frame → Nat) : List Call → Nat → Prop
  | [], top => top = 0
  | call :: calls, top =>
    top = call.start + width call.definition ∧ Tiled width calls call.start

/-- Where the newest call of a definition starts; the bottom if it has none. -/
def startOf (ref : Ref .frame) : List Call → Nat
  | [] => 0
  | call :: calls => if call.definition = ref then call.start else startOf ref calls

/-- Every call has displaced the start of the next older call of the same definition. -/
def Linked : List Call → Prop
  | [] => True
  | call :: calls => call.previous = startOf call.definition calls ∧ Linked calls

namespace Tiled

variable {width width' : Ref .frame → Nat} {calls : List Call} {top : Nat}

/-- Tiling depends on the widths of active definitions only. -/
theorem congr (h : Tiled width calls top)
    (same : ∀ call ∈ calls, width' call.definition = width call.definition) :
    Tiled width' calls top := by
  induction calls generalizing top with
  | nil => exact h
  | cons call calls ih =>
    obtain ⟨height, below⟩ := h
    refine ⟨?_, ih below fun other member => same other (List.mem_cons_of_mem _ member)⟩
    rw [same call List.mem_cons_self]
    exact height

/-- Every call ends at the top or below it. -/
theorem end_le (h : Tiled width calls top) {call : Call} (member : call ∈ calls) :
    call.start + width call.definition ≤ top := by
  induction calls generalizing top with
  | nil => cases member
  | cons newest calls ih =>
    obtain ⟨height, below⟩ := h
    rcases List.mem_cons.1 member with rfl | member
    · exact Nat.le_of_eq height.symm
    · have below_newest := ih below member
      omega

/-- Every place below the top belongs to a call. -/
theorem exists_owner (h : Tiled width calls top) {place : Nat} (within : place < top) :
    ∃ call ∈ calls, call.start ≤ place ∧ place < call.start + width call.definition := by
  induction calls generalizing top with
  | nil =>
    rw [h] at within
    exact absurd within (Nat.not_lt_zero place)
  | cons newest calls ih =>
    obtain ⟨height, below⟩ := h
    by_cases older : place < newest.start
    · obtain ⟨call, member, owned⟩ := ih below older
      exact ⟨call, List.mem_cons_of_mem _ member, owned⟩
    · exact ⟨newest, List.mem_cons_self, Nat.le_of_not_lt older, height ▸ within⟩

/-- An older call ends where a newer one starts, or below that. -/
theorem pairwise (h : Tiled width calls top) :
    calls.Pairwise fun newer older => older.start + width older.definition ≤ newer.start := by
  induction calls generalizing top with
  | nil => exact .nil
  | cons newest calls ih =>
    obtain ⟨_, below⟩ := h
    exact .cons (fun older member => below.end_le member) (ih below)

end Tiled

/-- A definition without active calls starts at the bottom. -/
theorem startOf_of_absent {ref : Ref .frame} {calls : List Call}
    (absent : ∀ call ∈ calls, call.definition ≠ ref) : startOf ref calls = 0 := by
  induction calls with
  | nil => rfl
  | cons newest calls ih =>
    rw [startOf, if_neg (absent newest List.mem_cons_self)]
    exact ih fun call member => absent call (List.mem_cons_of_mem _ member)

/-- A definition with active calls starts where its newest call does. -/
theorem exists_newest {ref : Ref .frame} {calls : List Call}
    (active : ∃ call ∈ calls, call.definition = ref) :
    ∃ newer call older, calls = newer ++ call :: older ∧ call.definition = ref ∧
      (∀ other ∈ newer, other.definition ≠ ref) ∧ startOf ref calls = call.start := by
  induction calls with
  | nil =>
    obtain ⟨call, member, _⟩ := active
    cases member
  | cons newest calls ih =>
    by_cases same : newest.definition = ref
    · exact ⟨[], newest, calls, rfl, same, fun _ member => absurd member List.not_mem_nil,
        if_pos same⟩
    · obtain ⟨call, member, named⟩ := active
      have older : call ∈ calls := by
        rcases List.mem_cons.1 member with rfl | older
        · exact absurd named same
        · exact older
      obtain ⟨newer, found, rest, split, named, others, start⟩ := ih ⟨call, older, named⟩
      refine ⟨newest :: newer, found, rest, by rw [split]; rfl, named, ?_, ?_⟩
      · intro other member
        rcases List.mem_cons.1 member with rfl | member
        · exact same
        · exact others other member
      · rw [startOf, if_neg same, start]

namespace Machine

/-! ## The invariant of active calls -/

/-- The active calls are counted within the limit, they tile the stack, the base of every definition
is where its newest call starts, and each call keeps the base that it has displaced. -/
structure Framed (m : Machine) : Prop where
  counted : m.depth = m.calls.length
  limited : m.depth ≤ m.config.maxCallDepth
  tiled : Tiled m.width m.calls m.stack.size
  linked : Linked m.calls
  based (ref : Ref .frame) : (m.frames.get ref).base = startOf ref m.calls
  known : ∀ call ∈ m.calls, m.frames.Has call.definition

namespace Framed

/-- A machine without active calls and with a flat stack is framed. -/
theorem ofConfig (config : Config) : (Machine.ofConfig config).Framed where
  counted := rfl
  limited := Nat.zero_le _
  tiled := rfl
  linked := trivial
  based _ := rfl
  known _ member := absurd member List.not_mem_nil

/-- Only the ground on which a machine stands matters. -/
theorem of_footing {m m' : Machine} (h : m.Framed) (same : m'.footing = m.footing) :
    m'.Framed := by
  simp only [footing, Footing.mk.injEq] at same
  obtain ⟨config, stack, depth, calls, frames, _⟩ := same
  have width : m'.width = m.width := by
    funext ref
    rw [Machine.width, frames, Machine.width]
  constructor
  · rw [depth, calls, h.counted]
  · rw [depth, config]
    exact h.limited
  · rw [width, calls, stack]
    exact h.tiled
  · rw [calls]
    exact h.linked
  · intro ref
    rw [frames, calls, h.based]
  · rw [frames, calls]
    exact h.known

/-- A new definition has no active calls, so it changes nothing about them. -/
theorem define {m : Machine} (h : m.Framed) (arity : Nat) (names : List String) (body : Code) :
    { m with frames := m.frames.alloc ⟨arity, names, body, 0⟩ : Machine }.Framed where
  counted := h.counted
  limited := h.limited
  tiled := by
    -- The new definition is at a place where no active call has its own.
    refine h.tiled.congr fun call member => ?_
    simp only [width, Arena.get_alloc, if_neg (h.known call member).ne_next]
  linked := h.linked
  based ref := by
    rw [Arena.get_alloc]
    split
    · next new =>
      rw [← h.based ref, new, Arena.get_next]
      rfl
    · exact h.based ref
  known call member := (h.known call member).alloc _

/-- Writing to the stack leaves its height as it is. -/
theorem store {m : Machine} (h : m.Framed) (place : Nat) (value : Value) :
    { m with stack := m.stack.setIfInBounds place value : Machine }.Framed where
  counted := h.counted
  limited := h.limited
  tiled := by
    rw [Array.size_setIfInBounds]
    exact h.tiled
  linked := h.linked
  based := h.based
  known := h.known

/-- Scenes have nothing to do with frames. -/
theorem scenes {m : Machine} (h : m.Framed) (scenes : Arena .scene (Option (Ref .activation)))
    (turns : List Turn) (activations : Arena .activation Activation) :
    { m with scenes := scenes, turns := turns, activations := activations : Machine }.Framed :=
  ⟨h.counted, h.limited, h.tiled, h.linked, h.based, h.known⟩

/-- A call that there is room for goes on top of the others. -/
theorem enter {m : Machine} (h : m.Framed) (room : m.depth < m.config.maxCallDepth)
    (ref : Ref .frame) (args : List Value) : (m.enter ref args).Framed where
  counted := congrArg (· + 1) h.counted
  limited := room
  tiled := by
    have width : (m.enter ref args).width = m.width := width_setBase m ref m.stack.size
    rw [width, size_enter]
    exact ⟨rfl, h.tiled⟩
  linked := ⟨h.based ref, h.linked⟩
  based other := by
    rw [get_enter]
    change _ = if ref = other then m.stack.size else startOf other m.calls
    by_cases same : other = ref
    · rw [if_pos same, if_pos same.symm]
    · rw [if_neg same, if_neg (Ne.symm same), h.based other]
  known call member := by
    rcases List.mem_cons.1 member with rfl | member
    · exact Arena.has_set ..
    · exact (h.known call member).set ..

/-- Leaving the newest call uncovers the others. -/
theorem leave {m : Machine} (h : m.Framed) : m.leave.Framed := by
  match calls : m.calls with
  | [] =>
    have unchanged : m.leave = m := by
      unfold Machine.leave
      rw [calls]
    rw [unchanged]
    exact h
  | call :: rest =>
    obtain ⟨counted, limited, tiled, linked, based, known⟩ := h
    rw [calls] at counted tiled linked based known
    obtain ⟨height, below⟩ := tiled
    obtain ⟨displaced, older⟩ := linked
    rw [leave_of_calls calls]
    constructor
    · change m.depth - 1 = rest.length
      rw [counted]
      rfl
    · exact Nat.le_trans (Nat.sub_le _ _) limited
    · have width : (m.setBase call.definition call.previous).width = m.width := width_setBase ..
      change Tiled (m.setBase call.definition call.previous).width rest (m.stack.shrink _).size
      rw [width, Array.size_shrink, height, Nat.min_eq_left (Nat.le_add_right _ _)]
      exact below
    · exact older
    · -- The base that was displaced is where the next older call of the definition starts.
      intro ref
      change ((m.setBase call.definition call.previous).frames.get ref).base = startOf ref rest
      rw [get_setBase]
      by_cases same : ref = call.definition
      · rw [if_pos same, same]
        exact displaced
      · rw [if_neg same, based ref, startOf, if_neg (Ne.symm same)]
    · intro other member
      exact (known other (List.mem_cons_of_mem _ member)).set ..

end Framed

/-- A course of events keeps active calls framed. -/
theorem Evolves.framed {m m' : Machine} (h : m.Evolves m') (before : m.Framed) : m'.Framed := by
  induction h with
  | quiet same => exact before.of_footing same
  | define m arity names body => exact before.define arity names body
  | store m place value => exact before.store place value
  | scene m => exact before.scenes _ _ _
  | call ref args room _ ih => exact (ih (before.enter room ref args)).leave
  | play scene activation _ ih => exact (ih (before.scenes _ _ _)).scenes _ _ _
  | trans _ _ first second => exact second (first before)

/-- So does the beginning of one. -/
theorem Passes.framed {m m' : Machine} (h : m.Passes m') (before : m.Framed) : m'.Framed := by
  induction h with
  | ended evolved => exact evolved.framed before
  | calling ref args evolved room _ ih => exact ih ((evolved.framed before).enter room ref args)
  | playing scene activation evolved _ ih => exact ih ((evolved.framed before).scenes _ _ _)

end Machine

/-- The active calls of every machine that can be reached are framed. -/
theorem Reachable.framed {host : Host} (hosted : host.IsConfined) {m : Machine}
    (h : Reachable host m) : m.Framed := by
  obtain ⟨config, passes⟩ := h.passes hosted
  exact passes.framed (.ofConfig config)

/-! ## Whole runs -/

/-- When the body of a call has ended, the newest active call is that call, and leaving it counts it
off. -/
theorem runFrame_leaves_own_call {engine : Engine} (h : engine.IsConfined) {ref : Ref .frame}
    {args : List Value} {m after : Machine} {result : Except Failure Value}
    (ran : runFrame engine ref args m = (some result, after)) :
    (result = .error (.callDepthExceeded m.config.maxCallDepth) ∧ after = m) ∨
      ∃ inside, engine.execute (m.frames.get ref).body (m.enter ref args) = (some result, inside) ∧
        inside.calls = ⟨ref, m.stack.size, (m.frames.get ref).base⟩ :: m.calls ∧
        after = inside.leave ∧ inside.depth = m.depth + 1 ∧ after.depth + 1 = inside.depth := by
  rw [runFrame_apply] at ran
  split at ran
  · cases ran
    exact .inl ⟨rfl, rfl⟩
  · match body : engine.execute (m.frames.get ref).body (m.enter ref args) with
    | (none, inside) =>
      rw [body] at ran
      cases ran
    | (some result', inside) =>
      rw [body] at ran
      cases ran
      have same : (m.enter ref args).SameFrames inside := ((h.execute _).evolves body).sameFrames
      have depth : inside.depth = m.depth + 1 := same.depth
      refine .inr ⟨inside, rfl, same.calls, rfl, depth, ?_⟩
      rw [same.leave.depth, depth]

/-- Whatever is asked of a machine, in any state, the calls that it enters are left however it ends:
the stack is as high, the count as great and the base of every definition where it was before. Where
it is interrupted, the calls that it has entered stand on those that were active and are counted;
from a state that can be reached, all active calls are counted and their number is within the limit.
The call that is left when a body has ended is always the one that was entered for it, so counting
it off takes exactly one away. -/
theorem Demand.keeps_frames {host : Host} (hosted : host.IsConfined) (stop : Machine → Bool)
    (fuel : Nat) {α : Type} (demand : Demand α) (m : Machine) {ended : Option α} {m' : Machine}
    (ran : demand.run (.interrupted host stop fuel) fuel m = (ended, m')) :
    (ended.isSome → m'.stack.size = m.stack.size ∧ m'.depth = m.depth ∧
      ∀ ref, (m'.frames.get ref).base = (m.frames.get ref).base) ∧
    (∃ entered, m'.calls = entered ++ m.calls ∧ m'.depth = m.depth + entered.length ∧
      (entered = [] ∨ m'.depth ≤ m.config.maxCallDepth)) ∧
    (Reachable host m → m'.depth = m'.calls.length ∧ m'.depth ≤ m'.config.maxCallDepth) ∧
    ∀ (ref : Ref .frame) (args : List Value) (result : Except Failure Value) (after : Machine),
      runFrame (.interrupted host stop fuel) ref args m = (some result, after) →
      (result = .error (.callDepthExceeded m.config.maxCallDepth) ∧ after = m) ∨
        ∃ inside, (Engine.interrupted host stop fuel).execute (m.frames.get ref).body
            (m.enter ref args) = (some result, inside) ∧
          inside.calls = ⟨ref, m.stack.size, (m.frames.get ref).base⟩ :: m.calls ∧
          after = inside.leave ∧ inside.depth = m.depth + 1 ∧ after.depth + 1 = inside.depth := by
  have engineConfined := Engine.isConfined_interrupted hosted stop fuel
  have confined := demand.confined engineConfined fuel
  have after_eq : (demand.run (.interrupted host stop fuel) fuel m).2 = m' := by rw [ran]
  refine ⟨fun done => ?_, ?_, fun reached => ?_, fun ref args result after left => ?_⟩
  · obtain ⟨value, rfl⟩ := Option.isSome_iff_exists.1 done
    have same := (confined.evolves ran).sameFrames
    exact ⟨same.size, same.depth, same.base⟩
  · have passes := confined.passes m
    rw [after_eq] at passes
    exact passes.entered.2
  · have framed := (reached.demand demand stop fuel).framed hosted
    rw [after_eq] at framed
    exact ⟨framed.counted, framed.limited⟩
  · exact runFrame_leaves_own_call engineConfined left

/-- A word that means nothing, in the body of a call within another call: the evaluation fails, and
both calls have been left. -/
theorem Demand.keeps_frames_of_unbound_word :
    let run := (Demand.evaluate "proc: native [params body] :core/proc
        f: proc [x] [nothing] g: proc [y z] [f y] g \"a\" \"b\"").run
      (.interrupted toolkit (fun _ => false) 20) 20 .stocked
    run.1.map Except.toBool = some false ∧ run.2.stack.size = 0 ∧ run.2.depth = 0 := by
  intro run
  have failed : run.1.map Except.toBool = some false := by decide +kernel
  have ended : run.1.isSome := by
    rw [← Option.isSome_map, failed]
    rfl
  have kept := (Demand.keeps_frames isConfined_toolkit (fun _ => false) 20 (.evaluate _) .stocked
    (Prod.eta run).symm).1 ended
  exact ⟨failed, kept.1, kept.2.1⟩

end Wordstream
