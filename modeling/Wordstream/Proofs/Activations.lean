import Wordstream.Proofs.Custody

/-!
# Who runs the body of an activation

All activations of a streaming procedure share its body, and the body finds its activation on the
scene of the procedure. An activation is kept by one party at a time: by the suspension of its
call, by the task that this is resumed to, or by the stage that works for the task. A stage
listens to one channel and is handed nothing else while it is busy with a signal; so nobody enters
an activation whose body is running, and whoever is on a scene was put there last.

## Main results

* `Machine.Sole.mount`, `Machine.Sole.dismount` — an activation comes on its scene and leaves it
  again
* `Machine.Sole.off` — who is handed a signal is not on scene
-/

namespace Wordstream

/-- Who keeps an activation. -/
inductive Keeper where
  | suspension (ref : Ref .suspension)
  | task (ref : Ref .task)
  | stage (ref : Ref .stage)

namespace Machine

/-- Who keeps an activation: a suspension whose work is its body, a task that is to run that, a
stage whose steps are runs of it. One task may be past that, because it has just made its
stage. -/
def KeptBy (m : Machine) (past : Option (Ref .task)) (activation : Ref .activation) : Keeper → Prop
  | .suspension ref => (m.suspension ref).phase = .created ∧
      (m.suspension ref).work = some (.body activation)
  | .task ref => past ≠ some ref ∧ ∃ input, (m.task ref).progress = .ready (.body activation) input
  | .stage ref => m.stages.Has ref ∧ (m.stages.get ref).step = .body activation

/-- The output of who keeps an activation. -/
def outOf (m : Machine) : Keeper → Ref .channel
  | .suspension ref => (m.suspension ref).out
  | .task ref => (m.task ref).out
  | .stage ref => (m.stages.get ref).out

/-- Whether a keeper may be running a body: a task may, and a stage that is in the middle of
something. -/
def MayRun (m : Machine) : Keeper → Prop
  | .suspension _ => False
  | .task _ => True
  | .stage ref => m.Engaged ref

/-- The body of an activation may be running. -/
def Played (m : Machine) (past : Option (Ref .task)) (activation : Ref .activation) : Prop :=
  ∃ keeper, m.KeptBy past activation keeper ∧ m.MayRun keeper

/-- The newest run on a scene. -/
def newest? (m : Machine) (scene : Ref .scene) : Option Turn := m.turns.find? (·.scene = scene)

/-- Whether the body of an activation is not running. -/
def Off (m : Machine) (activation : Ref .activation) : Prop :=
  ∀ turn ∈ m.turns, turn.activation ≠ activation

/-- Activations are not mixed up: on each scene is who came there last; no body is run for an
activation while it is running for it already; the input of an activation is what this run was
started for; an activation that is off has the slots that its last run has left; and no two have
one output. -/
structure Unmixed (m : Machine) : Prop where
  scene (scene : Ref .scene) : m.scenes.get scene = (m.newest? scene).map Turn.activation
  once : (m.turns.map Turn.activation).Nodup
  given {turn : Turn} (on : turn ∈ m.turns) :
    (m.activations.get turn.activation).scene = turn.scene ∧
      (m.activations.get turn.activation).input = turn.value
  left {activation : Ref .activation} (off : m.Off activation) :
    (m.activations.get activation).left = (m.activations.get activation).slots
  apart {activation other : Ref .activation} (has : m.activations.Has activation)
    (has' : m.activations.Has other)
    (same : (m.activations.get activation).out = (m.activations.get other).out) : activation = other

/-- Each activation has one keeper, which has the same output, and its body runs only if the
keeper may be running it. A stage listens to one channel at most. -/
structure Sole (past : Option (Ref .task)) (m : Machine) : Prop extends Unmixed m where
  outlet {activation : Ref .activation} (has : m.activations.Has activation) :
    m.channels.Has (m.activations.get activation).out
  kept {activation : Ref .activation} {keeper : Keeper} (keeps : m.KeptBy past activation keeper) :
    m.activations.Has activation ∧ m.outOf keeper = (m.activations.get activation).out
  unique {activation : Ref .activation} {keeper other : Keeper}
    (keeps : m.KeptBy past activation keeper) (keeps' : m.KeptBy past activation other) :
    keeper = other
  single {x y : Ref .channel} {stage : Ref .stage}
    (hears : (m.channel x).listener? = some (.stage stage))
    (hears' : (m.channel y).listener? = some (.stage stage)) : x = y
  stage {x : Ref .channel} {stage : Ref .stage}
    (hears : (m.channel x).listener? = some (.stage stage)) : m.stages.Has stage
  played {turn : Turn} (on : turn ∈ m.turns) : m.Played past turn.activation

/-- Who listens goes on listening, who is busy is busy again in the end, and so is every body that
was running; stages keep their steps, and tasks are left alone. -/
structure Spares (m m' : Machine) : Prop where
  listener {x : Ref .channel} {listener : Listener}
    (hears : (m.channel x).listener? = some listener) : (m'.channel x).listener? = some listener
  busy (x : Ref .channel) : (m'.channel x).isBusy = (m.channel x).isBusy
  turns : m'.turns = m.turns
  stage {stage : Ref .stage} (has : m.stages.Has stage) :
    m'.stages.Has stage ∧ (m'.stages.get stage).step = (m.stages.get stage).step
  task {task : Ref .task} (has : m.tasks.Has task) : m'.tasks.Has task ∧ m'.task task = m.task task

namespace Spares

variable {m m' m'' : Machine}

theorem refl (m : Machine) : m.Spares m :=
  ⟨id, fun _ => rfl, rfl, fun has => ⟨has, rfl⟩, fun has => ⟨has, rfl⟩⟩

theorem trans (first : m.Spares m') (second : m'.Spares m'') : m.Spares m'' where
  listener hears := second.listener (first.listener hears)
  busy x := (second.busy x).trans (first.busy x)
  turns := second.turns.trans first.turns
  stage has := ⟨(second.stage (first.stage has).1).1,
    (second.stage (first.stage has).1).2.trans (first.stage has).2⟩
  task has := ⟨(second.task (first.task has).1).1,
    (second.task (first.task has).1).2.trans (first.task has).2⟩

/-- Setting the same listener free before and after makes no difference. -/
theorem release (h : m.Spares m') (c : Ref .channel) : (m.released c).Spares (m'.released c) where
  listener hears := by
    rw [listener?_released] at hears ⊢
    exact h.listener hears
  busy x := by rw [isBusy_released, isBusy_released, h.busy]
  turns := h.turns
  stage := h.stage
  task := h.task

/-- A body that may be running may be running still. -/
theorem played (h : m.Spares m') {past : Option (Ref .task)} {activation : Ref .activation}
    (played : m.Played past activation) : m'.Played past activation := by
  obtain ⟨keeper, keeps, mayRun⟩ := played
  refine ⟨keeper, ?_⟩
  cases keeper with
  | suspension ref => cases mayRun
  | task ref =>
    obtain ⟨apart, input, ready⟩ := keeps
    have has : m.tasks.Has ref := has_of_progress (by rw [ready]; nofun)
    exact ⟨⟨apart, input, by rw [(h.task has).2, ready]⟩, trivial⟩
  | stage ref =>
    obtain ⟨x, hears, busy⟩ := mayRun
    exact ⟨⟨(h.stage keeps.1).1, (h.stage keeps.1).2.trans keeps.2⟩, x, h.listener hears,
      (h.busy x).trans busy⟩

end Spares

/-! ## Scenes -/

/-- The part of a machine that says who is on which scene, and what activations there are. -/
def cast (m : Machine) :
    Arena .scene (Option (Ref .activation)) × List Turn × Arena .activation Activation :=
  (m.scenes, m.turns, m.activations)

theorem Unmixed.of_cast {m m' : Machine} (h : m.Unmixed) (same : m'.cast = m.cast) :
    m'.Unmixed := by
  obtain ⟨scenes, rest⟩ := Prod.mk.inj same
  obtain ⟨turns, activations⟩ := Prod.mk.inj rest
  refine ⟨fun scene => ?_, ?_, fun on => ?_, fun off => ?_, fun has has' same => ?_⟩
  · rw [scenes, newest?, turns]
    exact h.scene scene
  · rw [turns]
    exact h.once
  · rw [activations]
    exact h.given (turns ▸ on)
  · unfold Off at off
    rw [turns] at off
    rw [activations]
    exact h.left off
  · rw [activations] at has has' same
    exact h.apart has has' same

/-- Who is on a scene has its body running. -/
theorem Unmixed.on {m : Machine} (h : m.Unmixed) {scene : Ref .scene} {activation : Ref .activation}
    (on : m.scenes.get scene = some activation) :
    ∃ turn ∈ m.turns, turn.activation = activation ∧ m.newest? scene = some turn := by
  rw [h.scene] at on
  obtain ⟨turn, newest, same⟩ := Option.map_eq_some_iff.1 on
  exact ⟨turn, List.mem_of_find?_eq_some newest, same, newest⟩

namespace Sole

variable {past past' : Option (Ref .task)} {m m' : Machine}

/-- An activation whose body is running is one of the machine. -/
theorem has (h : m.Sole past) {turn : Turn} (on : turn ∈ m.turns) :
    m.activations.Has turn.activation := by
  obtain ⟨_, keeps, _⟩ := h.played on
  exact (h.kept keeps).1

/-- The parties change and the cast stays. Each keeper takes the place of one that there was, and
is that or the only one. -/
theorem reassign (h : m.Sole past) (cast : m'.cast = m.cast)
    (channels : ∀ {x}, m.channels.Has x → m'.channels.Has x)
    (stages : ∀ {stage}, m.stages.Has stage → m'.stages.Has stage)
    (hears : ∀ {x stage}, (m'.channel x).listener? = some (.stage stage) →
      (m.channel x).listener? = some (.stage stage))
    (keeps : ∀ {activation keeper}, m'.KeptBy past' activation keeper →
      ∃ former, m.KeptBy past activation former ∧ m'.outOf keeper = m.outOf former ∧
        (former = keeper ∨ ∀ other, m'.KeptBy past' activation other → other = keeper))
    (played : ∀ {turn}, turn ∈ m.turns → m'.Played past' turn.activation) : m'.Sole past' := by
  have activations : m'.activations = m.activations := congrArg (·.2.2) cast
  have turns : m'.turns = m.turns := congrArg (·.2.1) cast
  refine ⟨h.toUnmixed.of_cast cast, fun has => ?_, fun kept => ?_, fun kept kept' => ?_,
    fun heard heard' => h.single (hears heard) (hears heard'),
    fun heard => stages (h.stage (hears heard)), fun on => played (turns ▸ on)⟩
  · rw [activations] at has ⊢
    exact channels (h.outlet has)
  · obtain ⟨former, before, out, _⟩ := keeps kept
    rw [activations, out]
    exact h.kept before
  · -- If neither keeper is the only one, both were keepers before.
    obtain ⟨former, before, _, rfl | only⟩ := keeps kept
    · obtain ⟨former', before', _, rfl | only⟩ := keeps kept'
      · exact h.unique before before'
      · exact only _ kept
    · exact (only _ kept').symm

/-- Parties are lost and the cast stays. -/
theorem thin (h : m.Sole past) (cast : m'.cast = m.cast)
    (channels : ∀ {x}, m.channels.Has x → m'.channels.Has x)
    (stages : ∀ {stage}, m.stages.Has stage → m'.stages.Has stage)
    (hears : ∀ {x stage}, (m'.channel x).listener? = some (.stage stage) →
      (m.channel x).listener? = some (.stage stage))
    (keeps : ∀ {activation keeper}, m'.KeptBy past' activation keeper →
      m.KeptBy past activation keeper ∧ m'.outOf keeper = m.outOf keeper)
    (played : ∀ {turn}, turn ∈ m.turns → m'.Played past' turn.activation) : m'.Sole past' :=
  h.reassign cast channels stages hears
    (fun kept => ⟨_, (keeps kept).1, (keeps kept).2, .inl rfl⟩) played

/-- What is done concerns neither the cast and its keepers nor who listens and who is busy. -/
theorem beside (h : m.Sole past) (cast : m'.cast = m.cast)
    (channels : ∀ {x}, m.channels.Has x → m'.channels.Has x)
    (listener : ∀ x, (m'.channel x).listener? = (m.channel x).listener?)
    (busy : ∀ x, (m'.channel x).isBusy = (m.channel x).isBusy) (stages : m'.stages = m.stages)
    (suspensions : m'.suspensions = m.suspensions) (tasks : m'.tasks = m.tasks) :
    m'.Sole past ∧ m.Spares m' := by
  have task_eq (task : Ref .task) : m'.task task = m.task task := by rw [Machine.task, tasks]; rfl
  have suspension_eq (ref : Ref .suspension) : m'.suspension ref = m.suspension ref := by
    rw [suspension, suspensions]; rfl
  have spares : m.Spares m' := by
    refine ⟨fun {x _} hears => (listener x).trans hears, busy, congrArg (·.2.1) cast, fun has => ?_,
      fun has => ?_⟩
    · rw [stages]
      exact ⟨has, rfl⟩
    · rw [tasks]
      exact ⟨has, task_eq _⟩
  refine ⟨h.thin cast channels (fun has => stages ▸ has)
    (fun {x _} hears => (listener x).symm.trans hears)
    (fun {_ keeper} keeps => ?_) fun on => spares.played (h.played on), spares⟩
  -- Whoever keeps an activation has kept it before, with the same output.
  cases keeper with
  | suspension ref =>
    change (m'.suspension ref).phase = _ ∧ (m'.suspension ref).work = _ at keeps
    rw [suspension_eq] at keeps
    exact ⟨keeps, congrArg Suspension.out (suspension_eq ref)⟩
  | task ref =>
    change _ ∧ ∃ _, (m'.task ref).progress = _ at keeps
    rw [task_eq] at keeps
    exact ⟨keeps, congrArg TaskState.out (task_eq ref)⟩
  | stage ref =>
    change m'.stages.Has ref ∧ (m'.stages.get ref).step = _ at keeps
    rw [stages] at keeps
    exact ⟨keeps, congrArg (fun stages => (stages.get ref).out) stages⟩

/-- What concerns neither the cast nor signals. -/
theorem aside (h : m.Sole past) (cast : m'.cast = m.cast) (plumbing : m'.plumbing = m.plumbing) :
    m'.Sole past ∧ m.Spares m' := by
  have channels : m'.channels = m.channels := congrArg Plumbing.channels plumbing
  have channel_eq (x : Ref .channel) : m'.channel x = m.channel x := by rw [channel, channels]; rfl
  exact h.beside cast (fun has => channels ▸ has) (fun x => by rw [channel_eq])
    (fun x => by rw [channel_eq]) (congrArg Plumbing.stages plumbing)
    (congrArg Plumbing.suspensions plumbing) (congrArg Plumbing.tasks plumbing)

/-- Activations change, but for who they are and what they are given; those that are off do not. -/
theorem recast (h : m.Sole past) {activations : Arena .activation Activation}
    (has : ∀ {ref}, activations.Has ref ↔ m.activations.Has ref)
    (same : ∀ ref, (activations.get ref).out = (m.activations.get ref).out)
    (given : ∀ {turn}, turn ∈ m.turns →
      (activations.get turn.activation).scene = (m.activations.get turn.activation).scene ∧
      (activations.get turn.activation).input = (m.activations.get turn.activation).input)
    (left : ∀ {ref}, m.Off ref → (activations.get ref).left = (activations.get ref).slots) :
    Sole past { m with activations := activations } where
  scene := h.scene
  once := h.once
  given on := ⟨(given on).1.trans (h.given on).1, (given on).2.trans (h.given on).2⟩
  left off := left off
  apart one other same_out := by
    rw [same, same] at same_out
    exact h.apart (has.1 one) (has.1 other) same_out
  outlet known := by
    rw [same]
    exact h.outlet (has.1 known)
  kept keeps := by
    rw [same]
    exact ⟨has.2 (h.kept keeps).1, (h.kept keeps).2⟩
  unique := h.unique
  single := h.single
  stage := h.stage
  played := h.played

/-- What evaluation does by itself: it writes to the slots of who is on a scene, and makes new
scenes. -/
theorem stir {strict : Prop} (h : m.Sole past) (stirs : m.Stirs strict m') :
    m'.Sole past ∧ m.Spares m' := by
  induction stirs with
  | @aside m m' bearings holdings _ =>
    have footing := footing_of_bearings bearings
    have scenes : m'.scenes = m.scenes := congrArg Footing.scenes footing
    have turns : m'.turns = m.turns := congrArg Footing.turns footing
    have activations : m'.activations = m.activations := congrArg Prod.snd holdings
    exact h.aside (by rw [cast, scenes, turns, activations]; rfl) (plumbing_of_bearings bearings)
  | assign | dictionary | define | store => exact h.aside rfl rfl
  | @cell m scene ref on index value =>
    -- Only an activation whose body is running can be written to, so those that are off are not.
    obtain ⟨turn, onStage, rfl, _⟩ := h.toUnmixed.on on
    have get_eq (other : Ref .activation) := Arena.get_set m.activations turn.activation other
      { m.activations.get turn.activation with
        slots := (m.activations.get turn.activation).slots.set index value }
    refine ⟨h.recast ⟨Arena.has_of_set (h.has onStage), fun has => has.set ..⟩ (fun other => ?_)
      (fun _ => ?_) fun {other} off => ?_,
      ⟨id, fun _ => rfl, rfl, fun has => ⟨has, rfl⟩, fun has => ⟨has, rfl⟩⟩⟩
    · rw [get_eq]
      split
      · next same => rw [same]
      · rfl
    · rw [get_eq]
      split
      · next same => rw [same]; exact ⟨rfl, rfl⟩
      · exact ⟨rfl, rfl⟩
    · rw [get_eq, if_neg fun same => off turn onStage same.symm]
      exact h.left off
  | scene m =>
    have fresh (scene : Ref .scene) : (m.scenes.alloc none).get scene = m.scenes.get scene := by
      rw [Arena.get_alloc]
      split
      · next new => exact new ▸ m.scenes.get_next.symm
      · rfl
    exact ⟨{ h with scene := fun scene => (fresh scene).trans (h.scene scene) },
      ⟨id, fun _ => rfl, rfl, fun has => ⟨has, rfl⟩, fun has => ⟨has, rfl⟩⟩⟩
  | trans _ _ first second =>
    obtain ⟨h, spares⟩ := first h
    obtain ⟨h, spares'⟩ := second h
    exact ⟨h, spares.trans spares'⟩

/-! ## Coming on scene -/

/-- An activation that is off gets a value. -/
theorem give (h : m.Sole past) {ref : Ref .activation} (known : m.activations.Has ref)
    (off : m.Off ref) (value : Value) :
    Sole past
      { m with activations := m.activations.set ref ((m.activations.get ref).give value) } := by
  have get_eq (other : Ref .activation) :=
    Arena.get_set m.activations ref other ((m.activations.get ref).give value)
  refine h.recast ⟨Arena.has_of_set known, fun has => has.set ..⟩ (fun other => ?_) (fun on => ?_)
    fun {other} off' => ?_
  · rw [get_eq]
    split
    · next same => rw [same]; rfl
    · rfl
  · rw [get_eq, if_neg (off _ on)]
    exact ⟨rfl, rfl⟩
  · rw [get_eq]
    split
    · next same => exact h.left (same ▸ off')
    · exact h.left off'

/-- An activation that is off comes on its scene. -/
theorem mount (h : m.Sole past) {ref : Ref .activation} (off : m.Off ref)
    (played : m.Played past ref) : (m.mount (m.activations.get ref).scene ref).Sole past where
  scene scene := by
    change (m.scenes.set (m.activations.get ref).scene (some ref)).get scene =
      Option.map _ (List.find? _ (_ :: m.turns))
    rw [Arena.get_set, List.find?_cons]
    split
    · next same => simp [same]
    · -- Another scene has the newest turn of its own still.
      next other =>
      rw [h.scene, decide_eq_false (Ne.symm other)]
      rfl
  once := List.nodup_cons.2 ⟨fun mem => by
    obtain ⟨turn, on, same⟩ := List.mem_map.1 mem
    exact off turn on same, h.once⟩
  given on := by
    rcases List.mem_cons.1 on with rfl | on
    · exact ⟨rfl, rfl⟩
    · exact h.given on
  left off' := h.left fun turn on => off' turn (List.mem_cons_of_mem _ on)
  apart := h.apart
  outlet := h.outlet
  kept := h.kept
  unique := h.unique
  single := h.single
  stage := h.stage
  played on := by
    rcases List.mem_cons.1 on with rfl | on
    · exact played
    · exact h.played on

/-- An activation leaves its scene, which is given back to who was there when it came. -/
theorem dismount (h : m'.Sole past) (before : m.Unmixed) {turn : Turn}
    (turns : m'.turns = turn :: m.turns) :
    (m'.dismount turn.scene turn.activation (m.scenes.get turn.scene)).Sole past := by
  have tail : m'.turns.tail = m.turns := congrArg List.tail turns
  have on {other : Turn} (mem : other ∈ m.turns) : other ∈ m'.turns :=
    turns ▸ List.mem_cons_of_mem _ mem
  have known := h.has (turns ▸ List.mem_cons_self)
  have once := h.once
  rw [turns, List.map_cons, List.nodup_cons] at once
  have get_eq (other : Ref .activation) := Arena.get_set m'.activations turn.activation other
    (m'.activations.get turn.activation).rest
  have out_eq (other : Ref .activation) : ((m'.activations.set turn.activation
      (m'.activations.get turn.activation).rest).get other).out =
      (m'.activations.get other).out := by
    rw [get_eq]
    split
    · next same => rw [same]; rfl
    · rfl
  have off_of {activation : Ref .activation}
      (off : ∀ other ∈ m.turns, other.activation ≠ activation)
      (apart : activation ≠ turn.activation) : m'.Off activation := fun other mem => by
    rw [turns] at mem
    rcases List.mem_cons.1 mem with rfl | mem
    · exact apart.symm
    · exact off other mem
  refine ⟨⟨fun scene => ?_, ?_, fun {other} mem => ?_, fun {activation} off => ?_,
    fun {activation other} has has' same => ?_⟩, fun {activation} has => ?_,
    fun {activation keeper} keeps => ?_,
    h.unique, h.single, h.stage, fun mem => h.played (on (tail ▸ mem))⟩
  · -- Who was on the scene before is the newest of those that are left.
    change (m'.scenes.set turn.scene _).get scene = Option.map _ (m'.turns.tail.find? _)
    rw [Arena.get_set, tail]
    split
    · next same => rw [same]; exact before.scene turn.scene
    · next other =>
      rw [h.scene, newest?, turns, List.find?_cons, decide_eq_false (Ne.symm other)]
  · change (m'.turns.tail.map _).Nodup
    rw [tail]
    exact once.2
  · have mem : other ∈ m.turns := tail ▸ mem
    have apart : other.activation ≠ turn.activation := fun same =>
      once.1 (List.mem_map.2 ⟨other, mem, same⟩)
    change ((m'.activations.set _ _).get _).scene = _ ∧ ((m'.activations.set _ _).get _).input = _
    rw [get_eq, if_neg apart]
    exact h.given (on mem)
  · change ((m'.activations.set _ _).get _).left = ((m'.activations.set _ _).get _).slots
    rw [get_eq]
    split
    · rfl
    · next apart =>
      exact h.left
        (off_of (fun other mem => off other (show other ∈ m'.turns.tail from tail.symm ▸ mem))
          apart)
  · change ((m'.activations.set _ _).get _).out = ((m'.activations.set _ _).get _).out at same
    rw [out_eq, out_eq] at same
    exact h.apart (Arena.has_of_set known has) (Arena.has_of_set known has') same
  · change m'.channels.Has ((m'.activations.set _ _).get _).out
    rw [out_eq]
    exact h.outlet (Arena.has_of_set known has)
  · obtain ⟨has, out⟩ := h.kept keeps
    refine ⟨has.set .., out.trans ?_⟩
    change _ = ((m'.activations.set _ _).get _).out
    rw [out_eq]

/-! ## Channels -/

/-- A signal is written. -/
theorem accept (h : m.Sole past) (c : Ref .channel) (signal : Signal) :
    (m.setChannel c ((m.channel c).accept signal)).Sole past ∧
      m.Spares (m.setChannel c ((m.channel c).accept signal)) := by
  refine h.beside rfl (fun has => has.set c _) (fun x => ?_) (fun x => ?_) rfl rfl rfl
  · rw [channel_setChannel]
    split
    · next at_c => rw [at_c, Channel.listener?_accept]
    · rfl
  · rw [channel_setChannel]
    split
    · next at_c => rw [at_c, Channel.isBusy_accept]
    · rfl

/-- A listener is attached, which is no stage or one that listens nowhere. -/
theorem attach (h : m.Sole past) {c : Ref .channel} {listener : Listener} {channel : Channel}
    (free : (m.channel c).attach? listener = some channel)
    (stage : ∀ stage, listener = .stage stage →
      m.stages.Has stage ∧ ∀ x, (m.channel x).listener? ≠ some (.stage stage)) :
    (m.setChannel c channel).Sole past ∧ m.Spares (m.setChannel c channel) := by
  obtain ⟨nobody, rfl⟩ := Channel.of_attach? free
  generalize attached_def :
    ({ m.channel c with attachment := .listening listener false } : Channel) = attached
  have idle : (m.channel c).isBusy = false := by
    unfold Channel.listener? at nobody
    unfold Channel.isBusy
    cases attachment : (m.channel c).attachment with
    | buffering => rfl
    | listening =>
      rw [attachment] at nobody
      cases nobody
  have spares : m.Spares (m.setChannel c attached) := by
    refine ⟨fun {x _} hears => ?_, fun x => ?_, rfl, fun has => ⟨has, rfl⟩, fun has => ⟨has, rfl⟩⟩
    · rw [channel_setChannel, if_neg, hears]
      rintro rfl
      rw [nobody] at hears
      cases hears
    · rw [channel_setChannel]
      split
      · next at_c => rw [at_c, idle, ← attached_def]; rfl
      · rfl
  -- Who listens has listened before, or is the one that was attached.
  have listener_of {x : Ref .channel} {other : Listener}
      (hears : ((m.setChannel c attached).channel x).listener? = some other) :
      (m.channel x).listener? = some other ∨ x = c ∧ listener = other := by
    rw [channel_setChannel] at hears
    split at hears
    · next at_c =>
      rw [← attached_def] at hears
      exact .inr ⟨at_c, Option.some.inj hears⟩
    · exact .inl hears
  refine ⟨{ h with
    outlet := fun has => (h.outlet has).set c attached
    single := fun {x y s} hears hears' => ?_
    stage := fun hears => ?_
    played := fun on => spares.played (h.played on) }, spares⟩
  · rcases listener_of hears with old | ⟨rfl, new⟩ <;>
      rcases listener_of hears' with old' | ⟨rfl, new'⟩
    · exact h.single old old'
    · exact absurd old ((stage s new').2 x)
    · exact absurd old' ((stage s new).2 y)
    · rfl
  · rcases listener_of hears with old | ⟨_, new⟩
    · exact h.stage old
    · exact (stage _ new).1

/-- A listener is set free, if the bodies that are running are none of its. -/
theorem release (h : m.Sole past) {c : Ref .channel}
    (played : ∀ {turn}, turn ∈ m.turns → (m.released c).Played past turn.activation) :
    (m.released c).Sole past :=
  h.thin rfl (fun has => has.set c _) id
    (fun {x _} hears => (m.listener?_released c x).symm.trans hears)
    (fun {_ keeper} keeps => by cases keeper <;> exact ⟨keeps, rfl⟩) played

/-- A listener gets busy, or stays so. -/
theorem engage {c : Ref .channel} (h : (m.released c).Sole past) {channel : Channel}
    (listener : channel.listener? = (m.channel c).listener?) (busy : channel.isBusy) :
    (m.setChannel c channel).Sole past := by
  have hears_iff (x : Ref .channel) : ((m.setChannel c channel).channel x).listener? =
      ((m.released c).channel x).listener? := by
    rw [listener?_released, channel_setChannel]
    split
    · next at_c => rw [listener, at_c]
    · rfl
  refine h.thin rfl (fun {x} has => ?_) id (fun {x _} hears => (hears_iff x).symm.trans hears)
    (fun {_ keeper} keeps => by cases keeper <;> exact ⟨keeps, rfl⟩) fun {turn} on => ?_
  · have size : (m.channels.set c channel).cells.size =
        (m.channels.set c (m.channel c).release).cells.size := by
      unfold Arena.set
      split <;> simp
    unfold Arena.Has at has ⊢
    exact size ▸ has
  · -- A stage that may be running still may: its channel is busy, or gets busy just now.
    obtain ⟨keeper, keeps, mayRun⟩ := h.played on
    refine ⟨keeper, by cases keeper <;> exact keeps, ?_⟩
    cases keeper with
    | suspension | task => exact mayRun
    | stage ref =>
      obtain ⟨x, hears, at_work⟩ := mayRun
      refine ⟨x, (hears_iff x).trans hears, ?_⟩
      rw [channel_setChannel]
      split
      · exact busy
      · next other => rwa [isBusy_released, if_neg other] at at_work

/-- A stage that is handed a signal is off, since its keeper counts as free. -/
theorem off {c : Ref .channel} (h : (m.released c).Sole past) {stage : Ref .stage}
    {activation : Ref .activation} (hears : (m.channel c).listener? = some (.stage stage))
    (step : (m.stages.get stage).step = .body activation) : m.Off activation := by
  rintro turn on rfl
  have hears_free := (m.listener?_released c c).trans hears
  obtain ⟨keeper, keeps, mayRun⟩ := h.played on
  obtain rfl : keeper = .stage stage := h.unique keeps ⟨h.stage hears_free, step⟩
  obtain ⟨x, hears', busy⟩ := mayRun
  rw [isBusy_released, if_pos (h.single hears' hears_free)] at busy
  cases busy

/-- A stage gets its result. -/
theorem finishStage (h : m.Sole past) {stage : Ref .stage} (has : m.stages.Has stage)
    (result : Option Result) (woken : Bool) :
    Sole past { m with
      stages := m.stages.set stage { m.stages.get stage with result := result }
      woken := woken } ∧
    m.Spares { m with
      stages := m.stages.set stage { m.stages.get stage with result := result }
      woken := woken } := by
  have get_eq (other : Ref .stage) :=
    Arena.get_set m.stages stage other { m.stages.get stage with result := result }
  -- Its step and its output stay, and with them what it keeps.
  have same (other : Ref .stage) :
      ((m.stages.set stage { m.stages.get stage with result := result }).get other).step =
        (m.stages.get other).step ∧
      ((m.stages.set stage { m.stages.get stage with result := result }).get other).out =
        (m.stages.get other).out := by
    rw [get_eq]
    split
    · next at_stage => rw [at_stage]; exact ⟨rfl, rfl⟩
    · exact ⟨rfl, rfl⟩
  have spares : m.Spares { m with
      stages := m.stages.set stage { m.stages.get stage with result := result }
      woken := woken } :=
    ⟨id, fun _ => rfl, rfl, fun {other} has => ⟨has.set .., (same other).1⟩, fun has => ⟨has, rfl⟩⟩
  refine ⟨h.thin rfl id (fun has => has.set ..) id (fun {_ keeper} keeps => ?_)
    fun on => spares.played (h.played on), spares⟩
  cases keeper with
  | stage other =>
    exact ⟨⟨Arena.has_of_set has keeps.1, (same other).1.symm.trans keeps.2⟩, (same other).2⟩
  | _ => exact ⟨keeps, rfl⟩

/-! ## Suspensions and tasks -/

/-- There is a suspension more that keeps no activation, and maybe a channel. -/
theorem suspend (h : m.Sole past) (suspension : Suspension)
    (alien : ∀ activation, suspension.work ≠ some (.body activation)) :
    (m.newSuspension suspension).2.Sole past ∧ m.Spares (m.newSuspension suspension).2 := by
  have spares : m.Spares (m.newSuspension suspension).2 :=
    ⟨id, fun _ => rfl, rfl, fun has => ⟨has, rfl⟩, fun has => ⟨has, rfl⟩⟩
  refine ⟨h.thin rfl id id id (fun {activation keeper} keeps => ?_)
    fun on => spares.played (h.played on), spares⟩
  cases keeper with
  | suspension ref =>
    have get_eq := Arena.get_alloc m.suspensions suspension ref
    change ((m.suspensions.alloc suspension).get ref).phase = _ ∧
      ((m.suspensions.alloc suspension).get ref).work = _ at keeps
    change _ ∧ ((m.suspensions.alloc suspension).get ref).out = _
    split at get_eq
    · rw [get_eq] at keeps
      exact absurd keeps.2 (alien activation)
    · rw [get_eq] at keeps ⊢
      exact ⟨keeps, rfl⟩
  | _ => exact ⟨keeps, rfl⟩

theorem newChannel (h : m.Sole past) : m.newChannel.2.Sole past ∧ m.Spares m.newChannel.2 :=
  h.beside rfl (fun has => has.alloc .fresh) (fun x => by rw [channel_newChannel])
    (fun x => by rw [channel_newChannel]) rfl rfl rfl

/-- There is an activation more, with a channel of its own and a suspension that keeps it. -/
theorem suspendBody (h : m.Sole past) {activation : Activation} {acceptsInput : Bool}
    (out : activation.out = m.channels.next) (left : activation.left = activation.slots)
    (cast : m'.cast = (m.scenes, m.turns, m.activations.alloc activation))
    (channels : m'.channels = m.newChannel.2.channels)
    (suspensions : m'.suspensions = m.suspensions.alloc
      ⟨.created, some (.body m.activations.next), m.channels.next, acceptsInput, none⟩)
    (stages : m'.stages = m.stages) (tasks : m'.tasks = m.tasks) :
    m'.Sole past ∧ m.Spares m' := by
  obtain ⟨scenes, rest⟩ := Prod.mk.inj cast
  obtain ⟨turns, activations⟩ := Prod.mk.inj rest
  have channel_eq (x : Ref .channel) : m'.channel x = m.channel x := by
    rw [← channel_newChannel m, channel, channels]
    rfl
  have task_eq (task : Ref .task) : m'.task task = m.task task := by rw [Machine.task, tasks]; rfl
  have get_eq (ref : Ref .activation) : m'.activations.get ref =
      if ref = m.activations.next then activation else m.activations.get ref := by
    rw [activations, Arena.get_alloc]
  have old {ref : Ref .activation} (has : m.activations.Has ref) :
      m'.activations.get ref = m.activations.get ref := by rw [get_eq, if_neg has.ne_next]
  have suspension_eq (ref : Ref .suspension) : m'.suspension ref = if ref = m.suspensions.next then
      ⟨.created, some (.body m.activations.next), m.channels.next, acceptsInput, none⟩
      else m.suspension ref := by
    rw [suspension, suspensions, Arena.get_alloc]
    rfl
  have spares : m.Spares m' := by
    refine ⟨fun {x _} hears => by rwa [channel_eq], fun x => by rw [channel_eq], turns,
      fun has => ?_, fun has => ?_⟩
    · rw [stages]
      exact ⟨has, rfl⟩
    · rw [tasks]
      exact ⟨has, task_eq _⟩
  have has_of {ref : Ref .activation} (has : m'.activations.Has ref) :
      ref = m.activations.next ∨ m.activations.Has ref := by
    rw [activations] at has
    exact (Decidable.em _).imp_right fun other => Arena.has_of_alloc has other
  -- No activation that there was had the new channel for its output.
  have fresh {ref : Ref .activation} (has : m.activations.Has ref) :
      (m.activations.get ref).out ≠ activation.out := by
    rw [out]
    exact (h.outlet has).ne_next
  have keeps_of {ref : Ref .activation} {keeper : Keeper} (keeps : m'.KeptBy past ref keeper) :
      (m.KeptBy past ref keeper ∧ m'.outOf keeper = m.outOf keeper) ∨
        ref = m.activations.next ∧ keeper = .suspension m.suspensions.next := by
    cases keeper with
    | suspension s =>
      change (m'.suspension s).phase = _ ∧ (m'.suspension s).work = _ at keeps
      change (_ ∧ (m'.suspension s).out = _) ∨ _
      rw [suspension_eq] at keeps ⊢
      split at keeps
      · next new => exact .inr ⟨(Work.body.inj (Option.some.inj keeps.2)).symm, congrArg _ new⟩
      · next other =>
        rw [if_neg other]
        exact .inl ⟨keeps, rfl⟩
    | task t =>
      change _ ∧ ∃ _, (m'.task t).progress = _ at keeps
      rw [task_eq] at keeps
      exact .inl ⟨keeps, congrArg TaskState.out (task_eq t)⟩
    | stage s =>
      change m'.stages.Has s ∧ (m'.stages.get s).step = _ at keeps
      rw [stages] at keeps
      exact .inl ⟨keeps, congrArg (fun stages => (stages.get s).out) stages⟩
  refine ⟨⟨⟨fun scene => ?_, ?_, fun {turn} on => ?_, fun {ref} off => ?_,
    fun {ref other} has has' same => ?_⟩,
    fun {ref} has => ?_, fun {ref keeper} keeps => ?_, fun {ref keeper other} keeps keeps' => ?_,
    fun hears hears' => ?_, fun hears => ?_, fun on => ?_⟩, spares⟩
  · rw [scenes, newest?, turns]
    exact h.scene scene
  · rw [turns]
    exact h.once
  · rw [turns] at on
    rw [old (h.has on)]
    exact h.given on
  · unfold Off at off
    rw [turns] at off
    rw [get_eq]
    split
    · exact left
    · exact h.left off
  · rcases has_of has with rfl | known <;> rcases has_of has' with rfl | known'
    · rfl
    · rw [get_eq, if_pos rfl, old known'] at same
      exact absurd same.symm (fresh known')
    · rw [old known, get_eq, if_pos rfl] at same
      exact absurd same (fresh known)
    · rw [old known, old known'] at same
      exact h.apart known known' same
  · rw [channels]
    rcases has_of has with rfl | known
    · rw [get_eq, if_pos rfl, out]
      exact Arena.has_alloc_next ..
    · rw [old known]
      exact (h.outlet known).alloc .fresh
  · rcases keeps_of keeps with ⟨before, same⟩ | ⟨rfl, rfl⟩
    · obtain ⟨known, its⟩ := h.kept before
      rw [old known, same, activations]
      exact ⟨known.alloc _, its⟩
    · change m'.activations.Has _ ∧ (m'.suspension _).out = _
      rw [suspension_eq, if_pos rfl, get_eq, if_pos rfl, out, activations]
      exact ⟨Arena.has_alloc_next .., rfl⟩
  · -- Nobody kept an activation that was not there.
    rcases keeps_of keeps with ⟨before, _⟩ | ⟨rfl, rfl⟩ <;>
      rcases keeps_of keeps' with ⟨before', _⟩ | ⟨new, rfl⟩
    · exact h.unique before before'
    · exact absurd new (h.kept before).1.ne_next
    · exact absurd rfl (h.kept before').1.ne_next
    · rfl
  · rw [channel_eq] at hears hears'
    exact h.single hears hears'
  · rw [channel_eq] at hears
    rw [stages]
    exact h.stage hears
  · rw [turns] at on
    exact spares.played (h.played on)

/-- A suspension is resumed: its task takes its place. -/
theorem startTask (h : m.Sole past) {ref : Ref .suspension} {work : Work}
    (input : Option (Ref .channel)) (created : (m.suspension ref).phase = .created)
    (pending : (m.suspension ref).work = some work) :
    (m.startTask ref work input).2.Sole past ∧ m.Spares (m.startTask ref work input).2 := by
  have task_eq (task : Ref .task) : (m.startTask ref work input).2.task task =
      if task = m.tasks.next then ⟨ref, (m.suspension ref).out, .ready work input, ⟨work, input⟩⟩
      else m.task task :=
    Arena.get_alloc ..
  have suspension_eq (other : Ref .suspension) : (m.startTask ref work input).2.suspension other =
      if other = ref then { m.suspension ref with phase := .resuming, work := none }
      else m.suspension other := Arena.get_set ..
  have spares : m.Spares (m.startTask ref work input).2 :=
    ⟨id, fun _ => rfl, rfl, fun has => ⟨has, rfl⟩, fun has =>
      ⟨has.alloc _, by rw [task_eq, if_neg has.ne_next]⟩⟩
  -- The task stands for the suspension, which keeps nothing any more.
  have keeps_of {activation : Ref .activation} {keeper : Keeper}
      (keeps : (m.startTask ref work input).2.KeptBy past activation keeper) :
      (m.KeptBy past activation keeper ∧ keeper ≠ .suspension ref ∧
        (m.startTask ref work input).2.outOf keeper = m.outOf keeper) ∨
      keeper = .task m.tasks.next ∧ m.KeptBy past activation (.suspension ref) := by
    cases keeper with
    | suspension other =>
      change ((m.startTask ref work input).2.suspension other).phase = _ ∧
        ((m.startTask ref work input).2.suspension other).work = _ at keeps
      change (_ ∧ _ ∧ ((m.startTask ref work input).2.suspension other).out = _) ∨ _
      rw [suspension_eq] at keeps ⊢
      split at keeps
      · exact absurd keeps.1 nofun
      · next apart =>
        rw [if_neg apart]
        exact .inl ⟨keeps, fun same => apart (Keeper.suspension.inj same), rfl⟩
    | task task =>
      obtain ⟨apart, given, ready⟩ := keeps
      change (_ ∧ _ ∧ ((m.startTask ref work input).2.task task).out = _) ∨ _
      rw [task_eq] at ready ⊢
      split at ready
      · next new =>
        obtain ⟨rfl, _⟩ := Progress.ready.inj ready
        exact .inr ⟨congrArg _ new, created, pending⟩
      · next other =>
        rw [if_neg other]
        exact .inl ⟨⟨apart, given, ready⟩, nofun, rfl⟩
    | stage stage => exact .inl ⟨keeps, nofun, rfl⟩
  refine ⟨h.reassign rfl id id id (fun {activation keeper} keeps => ?_)
    fun on => spares.played (h.played on), spares⟩
  rcases keeps_of keeps with ⟨before, _, out⟩ | ⟨rfl, before⟩
  · exact ⟨keeper, before, out, .inl rfl⟩
  · refine ⟨_, before, ?_, .inr fun other keeps' => ?_⟩
    · change ((m.startTask ref work input).2.task m.tasks.next).out = _
      rw [task_eq, if_pos rfl]
      rfl
    · rcases keeps_of keeps' with ⟨before', apart, _⟩ | ⟨rfl, _⟩
      · exact absurd (h.unique before' before) apart
      · rfl

end Sole

end Machine

end Wordstream
