import Wordstream.Proofs.Line
import Wordstream.Proofs.Round

/-!
# Parts that are piped together

Suspensions that were not resumed are piped together in some grouping. Whatever the grouping, the
output of each part is forwarded to a relay of its own, which will feed the next part; what differs
are the suspensions of the pipes.

## Main results

* `Grouping.ends_join` — parts that can be piped together are
-/

namespace Wordstream

/-! ## One pipe -/

/-- A machine in which two suspensions have just been piped together. -/
def Machine.piped (m : Machine) (left right : Ref .suspension) : Machine :=
  { m with
    channels := (m.channels.alloc .fresh).set (m.suspension left).out
      (.idle (.forward m.channels.next) .empty)
    suspensions := m.suspensions.alloc ⟨.created, some (.pipe left right m.channels.next),
      (m.suspension right).out, (m.suspension left).acceptsInput, none⟩ }

/-- Suspensions that were not resumed are piped together if the right one takes input. -/
theorem ends_pipe {engine : Nat → Engine}
    (handsOver : ∀ fuel ref, (engine (fuel + 1)).deliver ref = deliverAll (engine fuel) ref)
    {left right : Ref .suspension} {m : Machine} (accepts : (m.suspension right).acceptsInput)
    (created_left : (m.suspension left).phase = .created)
    (created_right : (m.suspension right).phase = .created)
    (has : m.channels.Has (m.suspension left).out)
    (fresh : m.channel (m.suspension left).out = .fresh) :
    Ends (fun fuel => pipe (engine fuel) left right) m (.ok m.suspensions.next)
      (m.piped left right) := by
  let out := (m.suspension left).out
  let linked : Channel := .idle (.forward m.channels.next) .empty
  let m₁ := (m.newChannel.2).setChannel out linked
  have has₁ : (m.channels.alloc .fresh).Has out := has.alloc _
  have fresh₁ : m.newChannel.2.channel out = .fresh := by
    change (m.channels.alloc .fresh).get out = _
    rw [Arena.get_alloc, if_neg has.ne_next]
    exact fresh
  -- Nothing was kept, so the listener is set free at once.
  have attached : Ends (fun fuel => subscribe (engine fuel) out (.forward m.channels.next))
      m.newChannel.2 (.ok ()) m₁ := by
    refine .of_succ (.of_eq fun fuel => ?_)
    have free : (m.newChannel.2.channel out).attach? (.forward m.channels.next) = some linked := by
      rw [fresh₁]
      rfl
    have released : (engine (fuel + 1)).deliver out m₁ = (some (), m₁) := by
      have here : m₁.channel out = linked := by simp [m₁]
      rw [handsOver, deliverAll_apply, here]
      change (some (), { m₁ with channels := m₁.channels.set out linked }) = _
      rw [show m₁.channels.set out linked = m₁.channels from has₁.set_set linked linked]
    rw [subscribe_apply, free]
    dsimp only
    rw [released]
    rfl
  have made : Ends (fun fuel => (subscribe (engine fuel) out (.forward m.channels.next) >>= fun _ =>
      allocate fun m' => m'.newSuspension ⟨.created, some (.pipe left right m.channels.next),
        (m.suspension right).out, (m.suspension left).acceptsInput, none⟩ : Run Machine _))
      m.newChannel.2 (.ok m.suspensions.next) (m.piped left right) :=
    attached.andThen (.of_eq fun _ => rfl)
  refine .congr (fun fuel => ?_) made
  change (ite _ _ (ite _ _ _) : Run Machine (Ref .suspension)) m = _
  rw [if_neg (by simp [accepts]), if_neg (by simp [created_left, created_right])]
  rfl

/-! ## Many parts -/

/-- How suspensions are to be piped together. -/
inductive Grouping where
  | one (ref : Ref .suspension)
  | pair (left right : Grouping)

namespace Grouping

/-- The suspensions that are to be piped, in order. -/
def refs : Grouping → List (Ref .suspension)
  | one ref => [ref]
  | pair left right => left.refs ++ right.refs

/-- Pipe suspensions together. -/
def join (engine : Engine) : Grouping → Run Machine (Ref .suspension)
  | one ref => pure ref
  | pair left right => do
    let first ← left.join engine
    let second ← right.join engine
    pipe engine first second

end Grouping

/-- The output of each part but the last is forwarded to a relay, and nothing was written yet. -/
inductive Relayed (m : Machine) : List Part → List (Ref .channel) → Prop where
  | one (x : Part) : Relayed m [x] []
  | cons (x y : Part) (rest : List Part) (relay : Ref .channel) (relays : List (Ref .channel))
    (forwards : m.channel x.out = .idle (.forward relay) .empty)
    (relayed : m.channel relay = .fresh)
    (linked : Relayed m (y :: rest) relays) : Relayed m (x :: y :: rest) (relay :: relays)

namespace Relayed

variable {m m' : Machine} {parts more : List Part} {relays others : List (Ref .channel)}

theorem length_eq (linked : Relayed m parts relays) : parts.length = relays.length + 1 := by
  induction linked with
  | one x => rfl
  | cons x y rest relay relays _ _ _ ih => rw [List.length_cons, ih, List.length_cons]

/-- Parts are linked until something is done to what links them. -/
theorem of_channel_eq (linked : Relayed m parts relays)
    (outs : ∀ x ∈ parts.dropLast, m'.channel x.out = m.channel x.out)
    (same : ∀ relay ∈ relays, m'.channel relay = m.channel relay) : Relayed m' parts relays := by
  induction linked with
  | one x => exact .one x
  | cons x y rest relay relays forwards relayed _ ih =>
    rw [List.dropLast_cons_cons, List.forall_mem_cons] at outs
    rw [List.forall_mem_cons] at same
    exact .cons x y rest relay relays (outs.1.trans forwards) (same.1.trans relayed)
      (ih outs.2 same.2)

/-- Relayed parts and linked parts behind a relay. -/
theorem append {relay : Ref .channel} (left : Relayed m parts relays)
    (forwards : ∀ x ∈ parts.getLast?, m.channel x.out = .idle (.forward relay) .empty)
    (relayed : m.channel relay = .fresh) (right : Relayed m more others) :
    Relayed m (parts ++ more) (relays ++ relay :: others) := by
  induction left with
  | one x =>
    cases right with
    | one y => exact .cons x y [] relay [] (forwards x rfl) relayed (.one y)
    | cons y z rest =>
      exact .cons x y _ relay _ (forwards x rfl) relayed (.cons y z rest _ _ ‹_› ‹_› ‹_›)
  | cons x y rest first relays here kept _ ih =>
    exact .cons x y (rest ++ more) first _ here kept (ih fun last there => forwards last there)

end Relayed

/-- Parts that can be piped together: none was resumed, all but the first take input, and nothing
was written to any output but the last, nor does anybody listen there. -/
structure Joinable (m : Machine) (parts : List Part) : Prop where
  offers : ∀ x ∈ parts, m.Offers x.ref x.out x.work none
  accepts : ∀ x ∈ parts.tail, (m.suspension x.ref).acceptsInput
  refs : (parts.map Part.ref).Nodup
  outs : (parts.map Part.out).Nodup
  has : ∀ x ∈ parts, m.channels.Has x.out
  fresh : ∀ x ∈ parts.dropLast, m.channel x.out = .fresh

theorem Joinable.has_of_mem_out {m : Machine} {parts : List Part} (joinable : Joinable m parts)
    {c : Ref .channel} (member : c ∈ parts.map Part.out) : m.channels.Has c := by
  obtain ⟨x, there, rfl⟩ := List.mem_map.1 member
  exact joinable.has x there

/-- The first of parts that can be piped together can be. -/
theorem Joinable.of_append_left {m : Machine} {l r : List Part} (joinable : Joinable m (l ++ r)) :
    Joinable m l where
  offers x member := joinable.offers x (List.mem_append_left _ member)
  accepts x member := by
    refine joinable.accepts x ?_
    cases l with
    | nil => cases member
    | cons y rest => exact List.mem_append_left _ member
  refs := (List.nodup_append.1 (List.map_append ▸ joinable.refs)).1
  outs := (List.nodup_append.1 (List.map_append ▸ joinable.outs)).1
  has x member := joinable.has x (List.mem_append_left _ member)
  fresh x member := by
    refine joinable.fresh x ?_
    cases r with
    | nil => rwa [List.append_nil]
    | cons y rest =>
      rw [List.dropLast_append_of_ne_nil (List.cons_ne_nil _ _)]
      exact List.mem_append_left _ (List.dropLast_subset _ member)

/-- Channels and suspensions are added, and of those that there were only some channels change. -/
structure Machine.Gains (m : Machine) (outs : List (Ref .channel)) (m' : Machine) : Prop where
  channel (c : Ref .channel) : m.channels.Has c → c ∉ outs → m'.channel c = m.channel c
  has_channel (c : Ref .channel) : m.channels.Has c → m'.channels.Has c
  suspension (ref : Ref .suspension) :
    m.suspensions.Has ref → m'.suspension ref = m.suspension ref
  has_suspension (ref : Ref .suspension) : m.suspensions.Has ref → m'.suspensions.Has ref
  rest : { m' with channels := m.channels, suspensions := m.suspensions } = m

namespace Machine.Gains

variable {m m' m'' : Machine} {outs more : List (Ref .channel)}

theorem trans (first : m.Gains outs m') (second : m'.Gains outs m'') : m.Gains outs m'' where
  channel c has apart :=
    (second.channel c (first.has_channel c has) apart).trans (first.channel c has apart)
  has_channel c has := second.has_channel c (first.has_channel c has)
  suspension ref has :=
    (second.suspension ref (first.has_suspension ref has)).trans (first.suspension ref has)
  has_suspension ref has := second.has_suspension ref (first.has_suspension ref has)
  rest := by rw [← first.rest, ← second.rest]

theorem mono (h : m.Gains outs m') (subset : outs ⊆ more) : m.Gains more m' where
  channel c has apart := h.channel c has fun member => apart (subset member)
  has_channel := h.has_channel
  suspension := h.suspension
  has_suspension := h.has_suspension
  rest := h.rest

/-- A pipe adds a relay and a suspension, and forwards the output of the left side. -/
theorem of_piped (left right : Ref .suspension) :
    m.Gains [(m.suspension left).out] (m.piped left right) where
  channel c has apart := by
    change ((m.channels.alloc .fresh).set _ _).get c = _
    rw [Arena.get_set, if_neg (fun same => apart (by simp [same])), Arena.get_alloc,
      if_neg has.ne_next]
    rfl
  has_channel _ has := (has.alloc _).set _ _
  suspension ref has := by
    change (m.suspensions.alloc _).get ref = _
    rw [Arena.get_alloc, if_neg has.ne_next]
    rfl
  has_suspension _ has := has.alloc _
  rest := rfl

end Machine.Gains

/-- How parts begin that have some inputs. -/
def Begins (begins : Nat → Progress) (i : Nat) (parts : List Part)
    (inputs : List (Option (Ref .channel))) : Prop :=
  ∀ j x input, parts[j]? = some x → inputs[j]? = some input → begins (i + j) = .ready x.work input

theorem Begins.of_append {begins : Nat → Progress} {i : Nat} {parts more : List Part}
    {inputs others : List (Option (Ref .channel))} (same : parts.length = inputs.length)
    (h : Begins begins i (parts ++ more) (inputs ++ others)) :
    Begins begins i parts inputs ∧ Begins begins (i + parts.length) more others := by
  constructor
  · intro j x input there given
    refine h j x input ?_ ?_
    · rw [List.getElem?_append_left (List.getElem?_eq_some_iff.1 there).1, there]
    · rw [List.getElem?_append_left (List.getElem?_eq_some_iff.1 given).1, given]
  · intro j x input there given
    rw [Nat.add_assoc]
    refine h _ x input ?_ ?_
    · rw [List.getElem?_append_right (Nat.le_add_right _ _), Nat.add_sub_cancel_left, there]
    · rw [same, List.getElem?_append_right (Nat.le_add_right _ _), Nat.add_sub_cancel_left, given]

/-- Parts that were piped together: the plan, the relays between the parts, and how the machine has
changed. -/
structure Joined (m : Machine) (parts : List Part) (plan : Plan) (relays : List (Ref .channel))
    (m' : Machine) : Prop where
  parts_eq : plan.parts = parts
  linked : Relayed m' parts relays
  ready (begins : Nat → Progress) (i : Nat) (input : Option (Ref .channel))
    (h : Begins begins i parts (input :: relays.map some))
    (accepts : input.isSome → ∀ x ∈ parts.head?, (m.suspension x.ref).acceptsInput) :
    plan.Ready begins i input m'
  created : (m'.suspension plan.ref).phase = .created
  out : (m'.suspension plan.ref).out = plan.out
  accepts : ∀ x ∈ parts.head?,
    (m'.suspension plan.ref).acceptsInput = (m.suspension x.ref).acceptsInput
  refs : plan.refs.Nodup
  ref_new : ∀ ref ∈ plan.refs, ref ∈ parts.map Part.ref ∨ ¬ m.suspensions.Has ref
  has_ref : ∀ ref ∈ plan.refs, m'.suspensions.Has ref
  relays_nodup : relays.Nodup
  relay_new : ∀ relay ∈ relays, ¬ m.channels.Has relay ∧ m'.channels.Has relay
  gains : m.Gains (parts.dropLast.map Part.out) m'

/-- There is a suspension where one can be resumed. -/
theorem Machine.Offers.has {m : Machine} {ref : Ref .suspension} {out : Ref .channel} {work : Work}
    {input : Option (Ref .channel)} (offers : m.Offers ref out work input) :
    m.suspensions.Has ref := by
  refine Classical.byContradiction fun outside => ?_
  have absent : m.suspension ref = default := by
    unfold Arena.Has at outside
    simp [Machine.suspension, Arena.get, outside]
  have created := offers.phase
  rw [absent] at created
  cases created

namespace Joined

variable {m m₁ m₂ : Machine} {l r : List Part} {left right : Plan} {rl rr : List (Ref .channel)}

/-- A part by itself. -/
theorem one {x : Part} (joinable : Joinable m [x]) : Joined m [x] (.part x) [] m where
  parts_eq := rfl
  linked := .one x
  ready begins i input h accepts := by
    have offers := joinable.offers x (List.mem_singleton_self _)
    exact ⟨h 0 x input rfl rfl, offers.phase, offers.work, offers.out, fun some =>
      accepts some x rfl⟩
  created := (joinable.offers x (List.mem_singleton_self _)).phase
  out := (joinable.offers x (List.mem_singleton_self _)).out
  accepts y first := by rw [Option.some.inj first]; rfl
  refs := by simp [Plan.refs]
  ref_new ref member := .inl member
  has_ref ref member := by
    rw [List.mem_singleton.1 member]
    exact (joinable.offers x (List.mem_singleton_self _)).has
  relays_nodup := List.nodup_nil
  relay_new _ nothing := by cases nothing
  gains := ⟨fun _ _ _ => rfl, fun _ => id, fun _ _ => rfl, fun _ => id, rfl⟩

section Pipe

variable (joined_left : Joined m l left rl m₁) (joinable : Joinable m (l ++ r))

include joined_left

theorem head?_append : (l ++ r).head? = l.head? := by
  have nonempty : l ≠ [] := joined_left.parts_eq ▸ left.parts_ne_nil
  obtain ⟨x, rest, rfl⟩ := List.exists_cons_of_ne_nil nonempty
  rfl

include joinable

/-- The output of the left side belongs to its last part, and only to that. -/
theorem left_out : left.out ∈ l.map Part.out ∧ left.out ∉ l.dropLast.map Part.out ∧
    left.out ∉ r.map Part.out := by
  have nonempty : l ≠ [] := joined_left.parts_eq ▸ left.parts_ne_nil
  have last : (l.getLast nonempty).out = left.out :=
    left.out_of_getLast?
      (by rw [joined_left.parts_eq]; exact List.getLast?_eq_some_getLast nonempty)
  obtain ⟨nodup, -, apart⟩ := List.nodup_append.1 (List.map_append ▸ joinable.outs)
  have member : left.out ∈ l.map Part.out := last ▸ List.mem_map_of_mem (List.getLast_mem nonempty)
  refine ⟨member, fun among => ?_, fun among => apart _ member _ among rfl⟩
  rw [← List.dropLast_concat_getLast nonempty, List.map_append, List.nodup_append] at nodup
  exact nodup.2.2 _ among _ (List.mem_map_of_mem (List.mem_singleton_self _)) last.symm

/-- Who is on the right takes input. -/
theorem accepts_right {x : Part} (member : x ∈ r) : (m₁.suspension x.ref).acceptsInput := by
  have nonempty : l ≠ [] := joined_left.parts_eq ▸ left.parts_ne_nil
  have offers := joinable.offers x (List.mem_append_right _ member)
  rw [joined_left.gains.suspension x.ref offers.has]
  refine joinable.accepts x ?_
  rw [List.tail_append_of_ne_nil nonempty]
  exact List.mem_append_right _ member

/-- When the left side has been piped, the right side still can be. -/
theorem joinable_right : Joinable m₁ r where
  offers x member := by
    have offers := joinable.offers x (List.mem_append_right _ member)
    exact offers.of_eq (joined_left.gains.suspension x.ref offers.has)
  accepts x member := joined_left.accepts_right joinable (List.mem_of_mem_tail member)
  refs := (List.nodup_append.1 (List.map_append ▸ joinable.refs)).2.1
  outs := (List.nodup_append.1 (List.map_append ▸ joinable.outs)).2.1
  has x member :=
    joined_left.gains.has_channel x.out (joinable.has x (List.mem_append_right _ member))
  fresh x member := by
    have x_mem : x ∈ r := List.dropLast_subset _ member
    have apart := (List.nodup_append.1 (List.map_append ▸ joinable.outs)).2.2
    rw [joined_left.gains.channel x.out (joinable.has x (List.mem_append_right _ x_mem))]
    · refine joinable.fresh x ?_
      rw [List.dropLast_append_of_ne_nil (List.ne_nil_of_mem x_mem)]
      exact List.mem_append_right _ member
    · intro among
      obtain ⟨y, y_mem, same⟩ := List.mem_map.1 among
      exact apart _ (List.mem_map_of_mem (List.dropLast_subset _ y_mem)) _
        (List.mem_map_of_mem x_mem) same

variable (joined_right : Joined m₁ r right rr m₂)

include joined_right

omit joinable in
/-- What changes when the two sides are piped. -/
theorem gains_piped : m₂.Gains [left.out] (m₂.piped left.ref right.ref) := by
  have same := joined_right.gains.suspension left.ref (joined_left.has_ref _ left.ref_mem)
  rw [← joined_left.out, ← same]
  exact .of_piped left.ref right.ref

omit joinable in
/-- What changes when the right side is piped and then the two sides. -/
theorem gains_pipe :
    m₁.Gains (left.out :: r.dropLast.map Part.out) (m₂.piped left.ref right.ref) :=
  (joined_right.gains.mono (List.subset_cons_self _ _)).trans
    ((joined_left.gains_piped joined_right).mono (by simp))

/-- The parts of the left side are linked as they were. -/
theorem linked_left : Relayed (m₂.piped left.ref right.ref) l rl := by
  have gains := joined_left.gains_pipe joined_right
  obtain ⟨out_mem, out_last, -⟩ := joined_left.left_out joinable
  refine joined_left.linked.of_channel_eq (fun x member => ?_) fun relay member => ?_
  · have x_mem : x.out ∈ l.map Part.out := List.mem_map_of_mem (List.dropLast_subset _ member)
    refine gains.channel x.out ?_ fun among => ?_
    · exact joined_left.gains.has_channel _
        (joinable.has x (List.mem_append_left _ (List.dropLast_subset _ member)))
    · rcases List.mem_cons.1 among with same | among
      · exact out_last (same ▸ List.mem_map_of_mem member)
      · have apart := (List.nodup_append.1 (List.map_append ▸ joinable.outs)).2.2
        exact apart _ x_mem _ (List.map_subset _ (List.dropLast_subset _) among) rfl
  · -- The relays are new, so they are not among the outputs of the parts.
    obtain ⟨new, has⟩ := joined_left.relay_new relay member
    refine gains.channel relay has fun among => new ?_
    rcases List.mem_cons.1 among with rfl | among
    · exact joinable.has_of_mem_out (List.map_append ▸ List.mem_append_left _ out_mem)
    · exact joinable.has_of_mem_out (List.map_append ▸ List.mem_append_right _
        (List.map_subset _ (List.dropLast_subset _) among))

/-- The parts of the right side are linked as they were. -/
theorem linked_right : Relayed (m₂.piped left.ref right.ref) r rr := by
  have gains := joined_left.gains_piped joined_right
  obtain ⟨out_mem, -, out_apart⟩ := joined_left.left_out joinable
  have out_has : m₁.channels.Has left.out := joined_left.gains.has_channel _
    (joinable.has_of_mem_out (List.map_append ▸ List.mem_append_left _ out_mem))
  refine joined_right.linked.of_channel_eq (fun x member => ?_) fun relay member => ?_
  · have x_mem := List.dropLast_subset _ member
    refine gains.channel x.out ?_ fun among => ?_
    · exact joined_right.gains.has_channel _ (joined_left.gains.has_channel _
        (joinable.has x (List.mem_append_right _ x_mem)))
    · exact out_apart (List.mem_singleton.1 among ▸ List.mem_map_of_mem x_mem)
  · obtain ⟨new, has⟩ := joined_right.relay_new relay member
    exact gains.channel relay has fun among => new (List.mem_singleton.1 among ▸ out_has)

/-- The parts of both sides are linked, with a new relay between the sides. -/
theorem linked_pipe : Relayed (m₂.piped left.ref right.ref) (l ++ r)
    (rl ++ m₂.channels.next :: rr) := by
  have same := joined_right.gains.suspension left.ref (joined_left.has_ref _ left.ref_mem)
  have out_eq : (m₂.suspension left.ref).out = left.out := by rw [same, joined_left.out]
  have out_has : m₂.channels.Has left.out :=
    joined_right.gains.has_channel _ (joined_left.gains.has_channel _ (joinable.has_of_mem_out
      (List.map_append ▸ List.mem_append_left _ (joined_left.left_out joinable).1)))
  refine (joined_left.linked_left joinable joined_right).append (fun x last => ?_) ?_
    (joined_left.linked_right joinable joined_right)
  · have last : x.out = left.out := left.out_of_getLast? (joined_left.parts_eq ▸ last)
    change ((m₂.channels.alloc .fresh).set _ _).get x.out = _
    rw [Arena.get_set, if_pos (last.trans out_eq.symm)]
  · change ((m₂.channels.alloc .fresh).set _ _).get m₂.channels.next = _
    rw [Arena.get_set, out_eq, if_neg (Ne.symm out_has.ne_next), Arena.get_alloc, if_pos rfl]

/-- Both sides have suspensions of their own, and the pipe has another. -/
theorem refs_pipe :
    (Plan.pipe m₂.suspensions.next left right m₂.channels.next).refs.Nodup := by
  have has_left (ref) (member : ref ∈ left.refs) : m₂.suspensions.Has ref :=
    joined_right.gains.has_suspension ref (joined_left.has_ref ref member)
  refine List.nodup_cons.2 ⟨fun member => ?_, List.nodup_append.2
    ⟨joined_left.refs, joined_right.refs, fun ref in_left other in_right same => ?_⟩⟩
  · rcases List.mem_append.1 member with member | member
    · exact (has_left _ member).ne_next rfl
    · exact (joined_right.has_ref _ member).ne_next rfl
  · subst same
    rcases joined_right.ref_new ref in_right with known | new
    · obtain ⟨x, x_mem, rfl⟩ := List.mem_map.1 known
      rcases joined_left.ref_new _ in_left with also | new
      · exact (List.nodup_append.1 (List.map_append ▸ joinable.refs)).2.2 _ also _ known rfl
      · exact new (joinable.offers x (List.mem_append_right _ x_mem)).has
    · exact new (joined_left.has_ref ref in_left)

omit joinable in
/-- The relays of both sides and the new one are all different. -/
theorem relays_pipe : (rl ++ m₂.channels.next :: rr).Nodup := by
  have has_left (relay) (member : relay ∈ rl) : m₂.channels.Has relay :=
    joined_right.gains.has_channel relay (joined_left.relay_new relay member).2
  refine List.nodup_append.2 ⟨joined_left.relays_nodup, List.nodup_cons.2
    ⟨fun member => ?_, joined_right.relays_nodup⟩, fun relay in_left other in_rest same => ?_⟩
  · exact (joined_right.relay_new _ member).2.ne_next rfl
  · subst same
    rcases List.mem_cons.1 in_rest with rfl | in_right
    · exact (has_left _ in_left).ne_next rfl
    · exact (joined_right.relay_new relay in_right).1 (joined_left.relay_new relay in_left).2

omit joinable in
/-- The suspension of the pipe. -/
theorem suspension_pipe : (m₂.piped left.ref right.ref).suspension m₂.suspensions.next =
    ⟨.created, some (.pipe left.ref right.ref m₂.channels.next), right.out,
      (m₁.suspension left.ref).acceptsInput, none⟩ := by
  change (m₂.suspensions.alloc _).get _ = _
  rw [Arena.get_alloc, if_pos rfl, joined_right.out,
    joined_right.gains.suspension left.ref (joined_left.has_ref _ left.ref_mem)]

/-- The suspension of the pipe can be resumed, and so can those of both sides. -/
theorem ready_pipe (begins : Nat → Progress) (i : Nat) (input : Option (Ref .channel))
    (h : Begins begins i (l ++ r) (input :: (rl ++ m₂.channels.next :: rr).map some))
    (accepts : input.isSome → ∀ x ∈ (l ++ r).head?, (m.suspension x.ref).acceptsInput) :
    (Plan.pipe m₂.suspensions.next left right m₂.channels.next).Ready begins i input
      (m₂.piped left.ref right.ref) := by
  have nonempty : l ≠ [] := joined_left.parts_eq ▸ left.parts_ne_nil
  rw [joined_left.head?_append] at accepts
  have lengths : l.length = (input :: rl.map some).length := by
    rw [joined_left.linked.length_eq, List.length_cons, List.length_map]
  rw [List.map_append, List.map_cons, ← List.cons_append] at h
  obtain ⟨begins_left, begins_right⟩ := h.of_append lengths
  have size_eq : left.size = l.length := by rw [← left.length_parts, joined_left.parts_eq]
  have suspension := joined_left.suspension_pipe joined_right
  refine ⟨⟨?_, ?_, ?_, fun given => ?_⟩,
    (joined_left.ready begins i input begins_left accepts).of_eq
    fun ref member => ?_, Plan.Ready.of_eq (m := m₂) ?_ fun ref member => ?_⟩
  · rw [suspension]
  · rw [suspension]
  · rw [suspension]
  · rw [suspension]
    obtain ⟨x, first⟩ := Option.isSome_iff_exists.1 (List.isSome_head?.2 nonempty)
    exact (joined_left.accepts x first).trans (accepts given x first)
  · exact (joined_left.gains_pipe joined_right).suspension ref (joined_left.has_ref ref member)
  · rw [size_eq]
    refine joined_right.ready begins _ _ begins_right fun _ x first => ?_
    exact joined_left.accepts_right joinable (List.mem_of_mem_head? first)
  · exact (joined_left.gains_piped joined_right).suspension ref (joined_right.has_ref ref member)

/-- Both sides are piped together. -/
theorem pipe : Joined m (l ++ r) (.pipe m₂.suspensions.next left right m₂.channels.next)
    (rl ++ m₂.channels.next :: rr) (m₂.piped left.ref right.ref) where
  parts_eq := by rw [Plan.parts, joined_left.parts_eq, joined_right.parts_eq]
  linked := joined_left.linked_pipe joinable joined_right
  ready := joined_left.ready_pipe joinable joined_right
  created := by rw [Plan.ref, joined_left.suspension_pipe joined_right]
  out := by rw [Plan.ref, joined_left.suspension_pipe joined_right]; rfl
  accepts x first := by
    rw [joined_left.head?_append] at first
    rw [Plan.ref, joined_left.suspension_pipe joined_right]
    exact joined_left.accepts x first
  refs := joined_left.refs_pipe joinable joined_right
  ref_new ref member := by
    have older (has : m.suspensions.Has ref) : m₂.suspensions.Has ref :=
      joined_right.gains.has_suspension ref (joined_left.gains.has_suspension ref has)
    rw [Plan.refs, List.mem_cons, List.mem_append] at member
    rw [List.map_append, List.mem_append]
    -- The suspension of the pipe is new, and so were those within its sides.
    rcases member with rfl | member | member
    · exact .inr fun has => (older has).ne_next rfl
    · exact (joined_left.ref_new ref member).imp_left .inl
    · exact (joined_right.ref_new ref member).imp .inr
        fun new has => new (joined_left.gains.has_suspension ref has)
  has_ref ref member := by
    rw [Plan.refs, List.mem_cons, List.mem_append] at member
    rcases member with rfl | member | member
    · exact Arena.has_alloc_next ..
    · exact (joined_left.gains_pipe joined_right).has_suspension ref
        (joined_left.has_ref ref member)
    · exact (joined_left.gains_piped joined_right).has_suspension ref
        (joined_right.has_ref ref member)
  relays_nodup := joined_left.relays_pipe joined_right
  relay_new relay member := by
    rw [List.mem_append, List.mem_cons] at member
    -- The relay of the pipe stands between those of its sides.
    rcases member with member | rfl | member
    · obtain ⟨new, has⟩ := joined_left.relay_new relay member
      exact ⟨new, (joined_left.gains_pipe joined_right).has_channel relay has⟩
    · refine ⟨fun has => ?_, (Arena.has_alloc_next ..).set _ _⟩
      exact (joined_right.gains.has_channel _ (joined_left.gains.has_channel _ has)).ne_next rfl
    · obtain ⟨new, has⟩ := joined_right.relay_new relay member
      exact ⟨fun older => new (joined_left.gains.has_channel relay older),
        (joined_left.gains_piped joined_right).has_channel relay has⟩
  gains := by
    have nonempty : r ≠ [] := joined_right.parts_eq ▸ right.parts_ne_nil
    rw [List.dropLast_append_of_ne_nil nonempty, List.map_append]
    refine (joined_left.gains.mono ?_).trans ((joined_left.gains_pipe joined_right).mono ?_)
    · exact fun _ member => List.mem_append_left _
        (List.map_subset _ (List.dropLast_subset _) member)
    · exact List.cons_subset.2 ⟨List.mem_append_left _ (joined_left.left_out joinable).1,
        List.subset_append_right _ _⟩

/-- Piping both sides together comes to an end. -/
theorem ends_piped {engine : Nat → Engine}
    (handsOver : ∀ fuel ref, (engine (fuel + 1)).deliver ref = deliverAll (engine fuel) ref) :
    Ends (fun fuel => Wordstream.pipe (engine fuel) left.ref right.ref) m₂
      (.ok m₂.suspensions.next) (m₂.piped left.ref right.ref) := by
  obtain ⟨out_mem, out_last, out_apart⟩ := joined_left.left_out joinable
  have nonempty : r ≠ [] := joined_right.parts_eq ▸ right.parts_ne_nil
  have out_has := joinable.has_of_mem_out (List.map_append ▸ List.mem_append_left _ out_mem)
  have out_has₁ := joined_left.gains.has_channel _ out_has
  have same := joined_right.gains.suspension left.ref (joined_left.has_ref _ left.ref_mem)
  have out_eq : (m₂.suspension left.ref).out = left.out := by rw [same, joined_left.out]
  refine ends_pipe handsOver ?_ (by rw [same, joined_left.created]) joined_right.created ?_ ?_
  · obtain ⟨x, first⟩ := Option.isSome_iff_exists.1 (List.isSome_head?.2 nonempty)
    rw [joined_right.accepts x first]
    exact joined_left.accepts_right joinable (List.mem_of_mem_head? first)
  · rw [out_eq]
    exact joined_right.gains.has_channel _ out_has₁
  · rw [out_eq, joined_right.gains.channel _ out_has₁ fun among =>
        out_apart (List.map_subset _ (List.dropLast_subset _) among),
      joined_left.gains.channel _ out_has out_last]
    obtain ⟨x, x_mem, out_x⟩ := List.mem_map.1 out_mem
    rw [← out_x]
    refine joinable.fresh x ?_
    rw [List.dropLast_append_of_ne_nil nonempty]
    exact List.mem_append_left _ x_mem

end Pipe

end Joined

/-- Parts that can be piped together are, in any grouping. -/
theorem Grouping.ends_join {engine : Nat → Engine}
    (handsOver : ∀ fuel ref, (engine (fuel + 1)).deliver ref = deliverAll (engine fuel) ref)
    {grouping : Grouping} {parts : List Part} (same : grouping.refs = parts.map Part.ref)
    {m : Machine} (joinable : Joinable m parts) :
    ∃ plan relays m', Ends (fun fuel => grouping.join (engine fuel)) m (.ok plan.ref) m' ∧
      Joined m parts plan relays m' := by
  induction grouping generalizing parts m with
  | one ref =>
    obtain ⟨x, rest, rfl, rfl, nothing⟩ := List.map_eq_cons_iff.1 same.symm
    obtain rfl := List.map_eq_nil_iff.1 nothing
    exact ⟨.part x, [], m, .of_eq fun _ => rfl, .one joinable⟩
  | pair left right left_ih right_ih =>
    obtain ⟨l, r, rfl, same_left, same_right⟩ := List.map_eq_append_iff.1 same.symm
    obtain ⟨left_plan, rl, m₁, ended_left, joined_left⟩ :=
      left_ih same_left.symm joinable.of_append_left
    obtain ⟨right_plan, rr, m₂, ended_right, joined_right⟩ :=
      right_ih same_right.symm (joined_left.joinable_right joinable)
    have piped := joined_left.ends_piped joinable joined_right handsOver
    have joined : Ends (fun fuel => (left.join (engine fuel) >>= fun first =>
        right.join (engine fuel) >>= fun second => pipe (engine fuel) first second :
          Run Machine (Ref .suspension))) m (.ok m₂.suspensions.next)
        (m₂.piped left_plan.ref right_plan.ref) :=
      ended_left.andThen (ended_right.andThen piped)
    exact ⟨.pipe m₂.suspensions.next left_plan right_plan m₂.channels.next, _, _, joined,
      joined_left.pipe joinable joined_right⟩

end Wordstream
