import Wordstream.Proofs.Fuel

/-!
# Expressions and what they denote

There is no parser for expressions: what belongs together comes about as values are read from
code, an operand first and then one operator after the other, while a function reads its own
arguments from the same code. All the same, what is written by the grammar of expressions is read
as that expression, and gives what it denotes: operators are applied strictly from left to right,
and each argument is a whole expression.

An expression is a matter of the machine that reads it, in which its words name functions that
compute a value and do nothing else. Nothing but the last result of the machine changes as it is
read.

## Main results

* `Consumes.andThen` — what is read in sequence stands in sequence
* `Expression.consumes` — an expression is read as what it denotes
* `Expression.read_denotes` — and nothing of what follows it is read
-/

namespace Wordstream

/-! ## Symbols -/

/-- A machine with another last result. -/
abbrev Machine.withResult (m : Machine) (value : Value) : Machine := { m with result := value }

/-- What a symbol that is bound in some way stands for in a machine. -/
def Binding.meaning (m : Machine) (symbol : String) : Binding → Except Failure Value
  | .dictionary ref => ((m.dictionary ref).get? symbol).elim (.error (.unboundReference symbol)) .ok
  | .frameSlot frame index =>
    (m.stack[(m.frames.get frame).base + index]?).elim (.error (outsideCall symbol)) .ok
  | .cell scene index =>
    (m.scenes.get scene).elim (.error (.malformedUse s!"{symbol} used outside its procedure body"))
      fun activation => ((m.activations.get activation).slots[index]?).elim
        (.error (.malformedUse s!"no slot for {symbol}")) .ok
  | .input scene =>
    (m.scenes.get scene).elim (.error (.malformedUse s!"{symbol} used outside its procedure body"))
      fun activation => .ok (m.activations.get activation).input
  | .output procedure => .ok (.procedure procedure)

/-- Reading through a binding gives what the symbol stands for, and changes nothing. -/
theorem Binding.get_apply (binding : Binding) (symbol : String) (m : Machine) :
    binding.get symbol m = (some (binding.meaning m symbol), m) := by
  have look (next : Machine → Run Machine Value) : (MonadState.get >>= next) m = next m m := rfl
  cases binding with
  | dictionary ref =>
    rw [getDictionary_apply, meaning]
    cases (m.dictionary ref).get? symbol <;> rfl
  | frameSlot frame index =>
    rw [get, look, meaning]
    dsimp only
    cases m.stack[(m.frames.get frame).base + index]? <;> rfl
  | cell scene index =>
    rw [get, look, meaning]
    dsimp only
    rw [Run.bind_apply, onScene_apply]
    cases m.scenes.get scene with
    | none => rfl
    | some activation =>
      dsimp only [Option.elim]
      cases (m.activations.get activation).slots[index]? <;> rfl
  | input scene =>
    rw [get, look, meaning]
    dsimp only
    rw [Run.bind_apply, onScene_apply]
    cases m.scenes.get scene <;> rfl
  | output procedure => rfl

/-- What the symbol of a site stands for in a machine. -/
def Site.meaning (m : Machine) (site : Site) : Except Failure Value :=
  (site.get m).1.getD (.error (.unboundReference site.symbol))

/-- What a symbol stands for is a matter of its binding. -/
theorem Site.meaning_eq (m : Machine) (site : Site) :
    site.meaning m = (m.binding? site.slot).elim (.error (.unboundReference site.symbol))
      (Binding.meaning m site.symbol) := by
  rw [meaning, get, Run.bind_apply, Site.binding_apply]
  cases m.binding? site.slot with
  | none => rfl
  | some binding =>
    dsimp only [Option.elim]
    rw [Binding.get_apply]
    rfl

theorem Site.get_apply (site : Site) (m : Machine) : site.get m = (some (site.meaning m), m) := by
  rw [Site.meaning_eq, get, Run.bind_apply, Site.binding_apply]
  cases m.binding? site.slot with
  | none => rfl
  | some binding => exact Binding.get_apply binding site.symbol m

theorem Site.get_withResult (site : Site) (m : Machine) (last : Value) :
    site.get (m.withResult last) = (some (site.meaning m), m.withResult last) := by
  have same : Binding.meaning (m.withResult last) site.symbol = Binding.meaning m site.symbol :=
    funext fun binding => by cases binding <;> rfl
  rw [Site.get_apply, Site.meaning_eq, Site.meaning_eq, same]
  rfl

/-! ## Words -/

/-- A function that computes a value in a machine, whatever its last result was, and does nothing
else. -/
structure PureFunction (host : Host) (m : Machine) where
  native : Native
  value : List Value → Except Failure Value
  computes (last : Value) (args : List Value) :
    Ends (fun fuel => (Engine.ofFuel host fuel).call native args) (m.withResult last) (value args)
      (m.withResult last)

/-- A word that stands before the arguments of a function. -/
structure NativeWord (host : Host) (m : Machine) (arity : Nat) where
  site : Site
  id : Nat
  function : PureFunction host m
  names : site.meaning m = .ok (.procedure (.leading id (.native arity function.native)))
  plain : isOperator .plain site.symbol = false

/-- A word that stands between the operands of a function. -/
structure OperatorWord (host : Host) (m : Machine) where
  site : Site
  id : Nat
  function : PureFunction host m
  names : site.meaning m = .ok (.procedure (.operator id (.native function.native)))
  marked : isOperator .plain site.symbol = true

/-- A word as an item of code. -/
def Site.item (site : Site) (kind : WordKind) : Item := .word kind site.symbol site.slot

/-- Whether an item of code is an operator. -/
def Item.isOperator : Item → Bool
  | .word kind symbol _ => Wordstream.isOperator kind symbol
  | _ => false

/-- Code that does not begin with an operator. -/
def Fenced (items : List Item) : Prop := ∀ item ∈ items.head?, item.isOperator = false

theorem Fenced.nil : Fenced [] := fun _ given => by cases given

/-! ## The grammar -/

mutual

/-- What stands for a value by itself. -/
inductive Primary (host : Host) (m : Machine) : Type
  | literal (value : Literal)
  | block (id : CodeId) (items : List Item)
  | quote (site : Site)
  | get (site : Site)
  | paren (id : CodeId) (inner : Expression host m)
  | call (word : NativeWord host m 0)

/-- Operands with operators between them. -/
inductive Operands (host : Host) (m : Machine) : Type
  | first (operand : Primary host m)
  | more (before : Operands host m) (operator : OperatorWord host m) (operand : Primary host m)

/-- The last operand, which may be a call that has arguments. -/
inductive Final (host : Host) (m : Machine) : Type
  | plain (operand : Primary host m)
  | call {others : Nat} (word : NativeWord host m (others + 1))
      (args : Arguments host m (others + 1))

/-- Operands with operators between them, the last of which may be a call that has arguments. -/
inductive Expression (host : Host) (m : Machine) : Type
  | alone (final : Final host m)
  | after (before : Operands host m) (operator : OperatorWord host m) (final : Final host m)

/-- A number of arguments. -/
inductive Arguments (host : Host) (m : Machine) : Nat → Type
  | nil : Arguments host m 0
  | cons {others : Nat} (first : Expression host m) (rest : Arguments host m others) :
      Arguments host m (others + 1)

end

variable {host : Host} {m : Machine}

mutual

/-- How it is written. -/
def Primary.items : Primary host m → List Item
  | .literal value => [.literal value]
  | .block id items => [.group .square id items]
  | .quote site => [site.item .quote]
  | .get site => [site.item .get]
  | .paren id inner => [.group .round id inner.items]
  | .call word => [word.site.item .plain]

def Operands.items : Operands host m → List Item
  | .first operand => operand.items
  | .more before operator operand => before.items ++ operator.site.item .plain :: operand.items

def Final.items : Final host m → List Item
  | .plain operand => operand.items
  | .call word args => word.site.item .plain :: args.items

def Expression.items : Expression host m → List Item
  | .alone final => final.items
  | .after before operator final => before.items ++ operator.site.item .plain :: final.items

def Arguments.items {n : Nat} : Arguments host m n → List Item
  | .nil => []
  | .cons first rest => first.items ++ rest.items

end

mutual

/-- What it denotes: a value, or the first failure from left to right. -/
def Primary.denote : Primary host m → Except Failure Value
  | .literal value => .ok value.value
  | .block id items => .ok (.block ⟨id, items⟩)
  | .quote site => .ok (.text site.symbol)
  | .get site => site.meaning m
  | .paren _ inner => inner.denote
  | .call word => word.function.value []

/-- Operators are applied from left to right, and none before another. -/
def Operands.denote : Operands host m → Except Failure Value
  | .first operand => operand.denote
  | .more before operator operand => do
    let left ← before.denote
    let right ← operand.denote
    operator.function.value [left, right]

def Final.denote : Final host m → Except Failure Value
  | .plain operand => operand.denote
  | .call word args => do
    let values ← args.denote
    word.function.value values

def Expression.denote : Expression host m → Except Failure Value
  | .alone final => final.denote
  | .after before operator final => do
    let left ← before.denote
    let right ← final.denote
    operator.function.value [left, right]

/-- Each argument is a whole expression. -/
def Arguments.denote {n : Nat} : Arguments host m n → Except Failure (List Value)
  | .nil => .ok []
  | .cons first rest => do
    let value ← first.denote
    let values ← rest.denote
    pure (value :: values)

end

/-- A result that is no suspension. -/
def IsSteady (result : Except Failure Value) : Prop :=
  ∀ value, result = .ok value → value.isSuspension = false

mutual

/-- Neither it nor what is evaluated for it gives a suspension. -/
def Primary.Steady : Primary host m → Prop
  | .paren _ inner => inner.Steady
  | .get site => IsSteady (site.meaning m)
  | .call word => IsSteady (word.function.value [])
  | .literal _ | .block _ _ | .quote _ => True

def Operands.Steady : Operands host m → Prop
  | .first operand => operand.Steady
  | .more before operator operand => before.Steady ∧ ∀ left, before.denote = .ok left →
      operand.Steady ∧ ∀ right, operand.denote = .ok right →
      IsSteady (operator.function.value [left, right])

def Final.Steady : Final host m → Prop
  | .plain operand => operand.Steady
  | .call word args => args.Steady ∧ ∀ values, args.denote = .ok values →
      IsSteady (word.function.value values)

def Expression.Steady : Expression host m → Prop
  | .alone final => final.Steady
  | .after before operator final => before.Steady ∧ ∀ left, before.denote = .ok left →
      final.Steady ∧ ∀ right, final.denote = .ok right →
      IsSteady (operator.function.value [left, right])

def Arguments.Steady {n : Nat} : Arguments host m n → Prop
  | .nil => True
  | .cons first rest => first.Steady ∧ ∀ value, first.denote = .ok value → rest.Steady

end

/-! ## Reading in sequence -/

/-- Reading takes the items that it is for and gives a result, whatever the last result of the
machine was and however far the cursor is; it changes nothing but these two. If it fails, some of
the items may be left, and none of what follows has been taken. -/
def Consumes {α : Type} (m : Machine) (run : Nat → Run Reader α) (items rest : List Item)
    (result : Except Failure α) : Prop :=
  ∀ last position, ∃ taken left last', items = taken ++ left ∧
    (∀ value, result = .ok value → left = []) ∧
    Ends run ⟨m.withResult last, ⟨position, items ++ rest⟩⟩ result
      ⟨m.withResult last', ⟨position + taken.length, left ++ rest⟩⟩

namespace Consumes

variable {α β : Type} {items more rest : List Item}

/-- What takes no items and leaves the machine as it is but for its last result. -/
theorem of_ends {run : Nat → Run Reader α} {result : Except Failure α}
    (h : ∀ last position, ∃ last', Ends run ⟨m.withResult last, ⟨position, rest⟩⟩ result
      ⟨m.withResult last', ⟨position, rest⟩⟩) : Consumes m run [] rest result := by
  intro last position
  obtain ⟨last', ends⟩ := h last position
  exact ⟨[], [], last', rfl, fun _ _ => rfl, ends⟩

theorem done (value : α) : Consumes m (fun _ => pure value) [] rest (.ok value) :=
  of_ends fun last _ => ⟨last, .of_eq fun _ => rfl⟩

/-- What is read in sequence stands in sequence, and the first failure is that of the whole. -/
theorem andThen {first : Nat → Run Reader α} {next : Nat → α → Run Reader β}
    {given : Except Failure α} {after : α → Except Failure β}
    (h : Consumes m first items (more ++ rest) given)
    (h' : ∀ value, given = .ok value →
      Consumes m (fun fuel => next fuel value) more rest (after value)) :
    Consumes m (fun fuel => (first fuel >>= next fuel : Run Reader β)) (items ++ more) rest
      (given >>= after) := by
  intro last position
  obtain ⟨taken, left, last', rfl, whole, ends⟩ := h last position
  cases given with
  | error failure =>
    refine ⟨taken, left ++ more, last', List.append_assoc .., nofun, ?_⟩
    rw [List.append_assoc, List.append_assoc left]
    exact ends.andThen_error
  | ok value =>
    obtain rfl := whole value rfl
    obtain ⟨taken', left', last'', rfl, whole', ends'⟩ :=
      h' value rfl last' (position + taken.length)
    refine ⟨taken ++ taken', left', last'', by simp, whole', ?_⟩
    rw [List.append_nil, List.length_append, ← Nat.add_assoc]
    rw [List.append_nil] at ends
    rw [List.append_assoc]
    exact ends.andThen ends'

/-- What is read as before, and then something is done that takes no items. -/
theorem thenDo {first : Nat → Run Reader α} {next : Nat → α → Run Reader β}
    {given : Except Failure α} {after : α → Except Failure β}
    (h : Consumes m first items rest given)
    (h' : ∀ value, given = .ok value →
      Consumes m (fun fuel => next fuel value) [] rest (after value)) :
    Consumes m (fun fuel => (first fuel >>= next fuel : Run Reader β)) items rest
      (given >>= after) := by
  have both : Consumes m _ (items ++ []) rest (given >>= after) := andThen h h'
  rwa [List.append_nil] at both

/-- What is seen of the cursor is what is to be read and what follows. -/
theorem look (run : Nat → List Item → Run Reader α) {result : Except Failure α}
    (h : Consumes m (fun fuel => run fuel (items ++ rest)) items rest result) :
    Consumes m
      (fun fuel => (get >>= fun reader => run fuel reader.cursor.rest : Run Reader α)) items rest
      result := h

theorem of_succ {run : Nat → Run Reader α} {result : Except Failure α}
    (h : Consumes m (fun fuel => run (fuel + 1)) items rest result) :
    Consumes m run items rest result := by
  intro last position
  obtain ⟨taken, left, last', split, whole, ends⟩ := h last position
  exact ⟨taken, left, last', split, whole, ends.of_succ⟩

/-- One item is taken, and reading goes on behind it. -/
theorem past {item : Item} {run run' : Nat → Run Reader α} {result : Except Failure α}
    (same : ∀ fuel last position,
      run fuel ⟨m.withResult last, ⟨position, item :: (items ++ rest)⟩⟩ =
      run' fuel ⟨m.withResult last, ⟨position + 1, items ++ rest⟩⟩)
    (h : Consumes m run' items rest result) : Consumes m run (item :: items) rest result := by
  intro last position
  obtain ⟨taken, left, last', rfl, whole, ends⟩ := h last (position + 1)
  refine ⟨item :: taken, left, last', rfl, whole, ?_⟩
  have moved : position + (item :: taken).length = position + 1 + taken.length := by
    rw [List.length_cons]
    omega
  rw [moved]
  exact ends.congr fun fuel => same fuel last position

/-- The item under the cursor is taken and evaluated. -/
theorem fetch {item : Item} {result : Except Failure Value}
    (h : Consumes m (fun fuel => evaluateItem (.ofFuel host fuel) item) items rest result) :
    Consumes m (fun fuel => fetch (.ofFuel host fuel)) (item :: items) rest result :=
  past (fun _ _ _ => fetch_apply ..) h

theorem siteGet (site : Site) : Consumes m (fun _ => onMachine site.get) [] rest (site.meaning m) :=
  of_ends fun last _ => ⟨last, .onMachine (.of_eq fun _ => site.get_withResult m last) _⟩

theorem call (function : PureFunction host m) (args : List Value) :
    Consumes m (fun fuel => onMachine ((Engine.ofFuel host fuel).call function.native args)) [] rest
      (function.value args) :=
  of_ends fun last _ => ⟨last, (function.computes last args).onMachine _⟩

theorem keepResult (value : Value) : Consumes m (fun _ => keepResult value) [] rest (.ok value) :=
  of_ends fun _ _ => ⟨value, .of_eq fun _ => rfl⟩

/-- A value that is no suspension is used as it is. -/
theorem autoResume {value : Value} (steady : value.isSuspension = false) :
    Consumes m (fun _ => onMachine (autoResume value)) [] rest (.ok value) := by
  cases value with
  | suspension ref => cases steady
  | _ => exact done _

/-- Doing something that takes no items and gives a value comes before the rest. -/
theorem ahead {first : Nat → Run Reader α} {next : Nat → α → Run Reader β} {value : α}
    {result : Except Failure β} (h : Consumes m first [] (items ++ rest) (.ok value))
    (h' : Consumes m (fun fuel => next fuel value) items rest result) :
    Consumes m (fun fuel => (first fuel >>= next fuel : Run Reader β)) items rest result := by
  have both : Consumes m _ ([] ++ items) rest (.ok value >>= fun _ => result) :=
    h.andThen fun value' same => by
      cases same
      exact h'
  exact both

/-- A symbol that stands for a value is looked up. -/
theorem named {site : Site} {value : Value} {next : Nat → Value → Run Reader α}
    {result : Except Failure α} (names : site.meaning m = .ok value)
    (h : Consumes m (fun fuel => next fuel value) items rest result) :
    Consumes m (fun fuel => (onMachine site.get >>= next fuel : Run Reader α)) items rest result :=
  ahead (names ▸ siteGet site) h

/-- An operand is read if it is no suspension. -/
theorem readOperand {result : Except Failure Value} (steady : IsSteady result)
    (h : Consumes m (fun fuel => Wordstream.fetch (.ofFuel host fuel)) items rest result) :
    Consumes m (fun fuel => readOperand (.ofFuel host fuel)) items rest result := by
  have read : Consumes m (fun fuel => Wordstream.readOperand (.ofFuel host fuel)) items rest
      (result >>= .ok) :=
    h.thenDo fun value given => (autoResume (steady value given)).ahead (keepResult value)
  cases result <;> exact read

/-- A function reads its arguments and is called. -/
theorem nativeWord {arity : Nat} {values : Except Failure (List Value)}
    (word : NativeWord host m arity)
    (h : Consumes m (fun fuel => readArgs (.ofFuel host fuel) arity) items rest values) :
    Consumes m (fun fuel => Wordstream.fetch (.ofFuel host fuel))
      (word.site.item .plain :: items) rest (values >>= word.function.value) := by
  have performed : Consumes m (fun fuel => invoke (.ofFuel host fuel)
      (.procedure (.leading word.id (.native arity word.function.native)))) items rest
      (values >>= word.function.value) := h.thenDo fun args _ => call word.function args
  exact fetch (named word.names performed)

/-- An operator is applied to the value on its left and the operand on its right. -/
theorem applyOperator {left : Value} {right : Except Failure Value} (word : OperatorWord host m)
    (h : Consumes m (fun fuel => Wordstream.readOperand (.ofFuel host fuel)) items rest right) :
    Consumes m (fun fuel => applyOperator (.ofFuel host fuel) word.site left) items rest
      (right >>= fun value => word.function.value [left, value]) := by
  have operand : Consumes m (fun fuel => (Engine.ofFuel host fuel).read .operand) items rest
      right :=
    of_succ h
  exact named word.names (operand.thenDo fun value _ => call word.function [left, value])

/-- An operator is applied, and then those that follow it. -/
theorem readOperators_cons {left : Value} {right : Except Failure Value}
    (word : OperatorWord host m)
    {after : Value → Except Failure Value} {item : Item} {bound : List Item}
    (h : Consumes m (fun fuel => Wordstream.readOperand (.ofFuel host fuel)) items
      (more ++ rest) right)
    (steady : ∀ value, right = .ok value → IsSteady (word.function.value [left, value]))
    (h' : ∀ value result, right = .ok value → word.function.value [left, value] = .ok result →
      Consumes m (fun fuel => readOperators (.ofFuel host fuel) bound result) more rest
        (after result)) :
    Consumes m (fun fuel => readOperators (.ofFuel host fuel) (item :: bound) left)
      (word.site.item .plain :: (items ++ more)) rest
      (right >>= fun value => word.function.value [left, value] >>= after) := by
  -- The operator is applied, its result is used and kept, and reading goes on with it.
  have applied : Consumes m
      (fun fuel => (Wordstream.applyOperator (.ofFuel host fuel) word.site left >>=
        fun value => onMachine (Wordstream.autoResume value) >>= fun value =>
        Wordstream.keepResult value >>= readOperators (.ofFuel host fuel) bound :
          Run Reader Value)) (items ++ more) rest
      ((right >>= fun value => word.function.value [left, value]) >>= after) := by
    refine (applyOperator word h).andThen fun result given => ?_
    cases right with
    | error failure => cases given
    | ok value =>
      exact (autoResume (steady value rfl result given)).ahead
        ((keepResult result).ahead (h' value result rfl given))
  rw [bind_assoc] at applied
  refine past (fun fuel last position => ?_) applied
  change (if isOperator .plain word.site.symbol then _ else pure left : Run Reader Value) _ = _
  rw [word.marked]
  rfl

/-- What is no operator is left. -/
theorem readOperators_nil (fenced : Fenced rest) (bound : List Item) (value : Value) :
    Consumes m (fun fuel => readOperators (.ofFuel host fuel) bound value) [] rest (.ok value) := by
  refine of_ends fun last position => ⟨last, .of_eq fun fuel => ?_⟩
  cases bound with
  | nil => rfl
  | cons _ bound =>
    cases rest with
    | nil => rfl
    | cons item rest =>
      cases item with
      | word kind symbol slot =>
        have plain : isOperator kind symbol = false := fenced _ rfl
        change (if isOperator kind symbol then _ else pure value : Run Reader Value) _ = _
        rw [plain]
        rfl
      | _ => rfl

/-- An operand is read, and then the operators that follow. -/
theorem readWhole {given : Except Failure Value} {after : Value → Except Failure Value}
    (h : Consumes m (fun fuel => Wordstream.readOperand (.ofFuel host fuel)) items
      (more ++ rest) given)
    (h' : ∀ value, given = .ok value → Consumes m
      (fun fuel => readOperators (.ofFuel host fuel) (more ++ rest) value) more rest
      (after value)) :
    Consumes m (fun fuel => readWhole (.ofFuel host fuel)) (items ++ more) rest (given >>= after) :=
  h.andThen fun value same =>
    look (fun fuel rest => readOperators (.ofFuel host fuel) rest value) (h' value same)

/-- Code in parentheses is read to its end. -/
theorem paren {item : Item} {result : Except Failure Value} (id : CodeId)
    (h : Consumes m (fun fuel => Wordstream.readWhole (.ofFuel host fuel))
      (item :: items) [] result) :
    Consumes m (fun fuel => evaluateItem (.ofFuel host fuel) (.group .round id (item :: items)))
      [] rest result := by
  intro last position
  obtain ⟨taken, left, last', split, whole, ends⟩ := h last 0
  refine ⟨[], [], last', rfl, fun _ _ => rfl, ?_⟩
  -- Nothing is left when the expression has been read, however many values there might have been.
  have atEnd (value : Value) (bound position : Nat) :
      Ends (fun fuel => readToEnd (.ofFuel host fuel) bound value)
      ⟨m.withResult last', ⟨position, []⟩⟩ (.ok value) ⟨m.withResult last', ⟨position, []⟩⟩ :=
    .of_eq fun _ => by cases bound <;> rfl
  have whole' : Ends (fun fuel => (Engine.ofFuel host fuel).read .whole) _ result _ := .of_succ ends
  have read : Ends (fun fuel => readToEnd (.ofFuel host fuel) (item :: items).length .none)
      ⟨m.withResult last, ⟨0, item :: items⟩⟩ result
      ⟨m.withResult last', ⟨0 + taken.length, left⟩⟩ := by
    rw [List.append_nil, List.append_nil] at whole'
    cases result with
    | error failure => exact whole'.andThen_error
    | ok value =>
      cases whole value rfl
      exact whole'.andThen (atEnd value _ _)
  have executed : Ends (fun fuel => (Engine.ofFuel host fuel).execute ⟨id, item :: items⟩)
      (m.withResult last) result (m.withResult last') := .of_succ read.withCursor
  exact executed.onMachine _

end Consumes

/-! ## Reading expressions -/

/-- Code that begins with something other than an operator. -/
def Opens (items : List Item) : Prop := ∃ item rest, items = item :: rest ∧ item.isOperator = false

theorem Opens.append {items : List Item} (h : Opens items) (more : List Item) :
    Opens (items ++ more) := by
  obtain ⟨item, rest, rfl, plain⟩ := h
  exact ⟨item, rest ++ more, rfl, plain⟩

theorem Opens.fenced {items : List Item} (h : Opens items) : Fenced items := by
  obtain ⟨item, rest, rfl, plain⟩ := h
  intro first given
  cases given
  exact plain

theorem NativeWord.opens {arity : Nat} (word : NativeWord host m arity) (rest : List Item) :
    Opens (word.site.item .plain :: rest) := ⟨_, rest, rfl, word.plain⟩

theorem Primary.opens : (operand : Primary host m) → Opens operand.items
  | .literal _ | .block _ _ | .quote _ | .get _ | .paren _ _ => ⟨_, _, by rw [Primary.items], rfl⟩
  | .call word => by
    rw [Primary.items]
    exact word.opens []

theorem Operands.opens : (before : Operands host m) → Opens before.items
  | .first operand => by
    rw [Operands.items]
    exact operand.opens
  | .more before _ _ => by
    rw [Operands.items]
    exact before.opens.append _

theorem Final.opens : (final : Final host m) → Opens final.items
  | .plain operand => by
    rw [Final.items]
    exact operand.opens
  | .call word args => by
    rw [Final.items]
    exact word.opens args.items

theorem Expression.opens : (expression : Expression host m) → Opens expression.items
  | .alone final => by
    rw [Expression.items]
    exact final.opens
  | .after before _ _ => by
    rw [Expression.items]
    exact before.opens.append _

/-- Arguments that are followed by no operator begin with none. -/
theorem Arguments.fenced {n : Nat} {rest : List Item} (fenced : Fenced rest) :
    (args : Arguments host m n) → Fenced (args.items ++ rest)
  | .nil => by
    rw [Arguments.items]
    exact fenced
  | .cons first _ => by
    rw [Arguments.items, List.append_assoc]
    exact (first.opens.append _).fenced

theorem IsSteady.bind {α : Type} {given : Except Failure α} {after : α → Except Failure Value}
    (h : ∀ value, given = .ok value → IsSteady (after value)) : IsSteady (given >>= after) := by
  cases given with
  | error failure => nofun
  | ok value => exact h value rfl

mutual

theorem Primary.isSteady : (operand : Primary host m) → operand.Steady → IsSteady operand.denote
  | .literal value, _ => by
    rw [Primary.denote]
    rintro _ ⟨⟩
    cases value <;> rfl
  | .block id items, _ => by
    rw [Primary.denote]
    rintro _ ⟨⟩
    rfl
  | .quote site, _ => by
    rw [Primary.denote]
    rintro _ ⟨⟩
    rfl
  | .get site, steady => by
    rw [Primary.Steady] at steady
    rwa [Primary.denote]
  | .paren _ inner, steady => by
    rw [Primary.Steady] at steady
    rw [Primary.denote]
    exact inner.isSteady steady
  | .call word, steady => by
    rw [Primary.Steady] at steady
    rwa [Primary.denote]

theorem Final.isSteady : (final : Final host m) → final.Steady → IsSteady final.denote
  | .plain operand, steady => by
    rw [Final.Steady] at steady
    rw [Final.denote]
    exact operand.isSteady steady
  | .call word args, steady => by
    rw [Final.Steady] at steady
    rw [Final.denote]
    exact .bind steady.2

theorem Expression.isSteady :
    (expression : Expression host m) → expression.Steady → IsSteady expression.denote
  | .alone final, steady => by
    rw [Expression.Steady] at steady
    rw [Expression.denote]
    exact final.isSteady steady
  | .after before operator final, steady => by
    rw [Expression.Steady] at steady
    rw [Expression.denote]
    exact .bind fun left given => .bind (steady.2 left given).2

end

mutual

/-- An operand is taken whatever follows it. -/
theorem Primary.fetches (rest : List Item) : (operand : Primary host m) → operand.Steady →
    Consumes m (fun fuel => fetch (.ofFuel host fuel)) operand.items rest operand.denote
  | .literal value, _ => by
    rw [Primary.items, Primary.denote]
    exact .fetch (.done _)
  | .block id items, _ => by
    rw [Primary.items, Primary.denote]
    exact .fetch (.done _)
  | .quote site, _ => by
    rw [Primary.items, Primary.denote]
    exact .fetch (.done _)
  | .get site, _ => by
    rw [Primary.items, Primary.denote]
    exact .fetch (.siteGet site)
  | .paren id inner, steady => by
    rw [Primary.Steady] at steady
    rw [Primary.items, Primary.denote]
    have read := inner.consumes .nil steady
    obtain ⟨item, items, same, _⟩ := inner.opens
    rw [same] at read ⊢
    exact .fetch (.paren id read)
  | .call word, _ => by
    rw [Primary.items, Primary.denote]
    exact .nativeWord word (.done [])

/-- Operands with operators between them are read, and then what follows them. -/
theorem Operands.consumes {more rest : List Item} {after : Value → Except Failure Value} :
    (before : Operands host m) → before.Steady →
    (∀ left, before.denote = .ok left → ∀ bound : List Item, (more ++ rest).length ≤ bound.length →
      Consumes m (fun fuel => readOperators (.ofFuel host fuel) bound left) more rest
        (after left)) →
    Consumes m (fun fuel => readWhole (.ofFuel host fuel)) (before.items ++ more) rest
      (before.denote >>= after)
  | .first operand, steady, goesOn => by
    rw [Operands.Steady] at steady
    rw [Operands.denote] at goesOn ⊢
    rw [Operands.items]
    exact .readWhole (.readOperand (operand.isSteady steady) (operand.fetches _ steady))
      fun left given => goesOn left given _ (Nat.le_refl _)
  | .more before operator operand, steady, goesOn => by
    rw [Operands.Steady] at steady
    rw [Operands.denote] at goesOn ⊢
    rw [Operands.items, bind_assoc, List.append_assoc]
    -- Operators are applied as they come, so what was read so far is the left operand of the next
    -- one.
    refine before.consumes steady.1 fun left given bound enough => ?_
    obtain ⟨steady, steady'⟩ := steady.2 left given
    cases bound with
    | nil => cases enough
    | cons item bound =>
      rw [bind_assoc]
      refine .readOperators_cons operator
        (.readOperand (operand.isSteady steady) (operand.fetches _ steady))
        steady' fun right value right_eq value_eq => ?_
      refine goesOn value ?_ bound ?_
      · rw [given]
        change (operand.denote >>= _) = _
        rw [right_eq]
        exact value_eq
      · simp only [List.cons_append, List.append_assoc, List.length_cons,
          List.length_append] at enough ⊢
        omega

/-- The last operand is taken if no operator follows: its last argument would go on with it. -/
theorem Final.fetches {rest : List Item} (fenced : Fenced rest) :
    (final : Final host m) → final.Steady →
    Consumes m (fun fuel => fetch (.ofFuel host fuel)) final.items rest final.denote
  | .plain operand, steady => by
    rw [Final.Steady] at steady
    rw [Final.items, Final.denote]
    exact operand.fetches rest steady
  | .call word args, steady => by
    rw [Final.Steady] at steady
    rw [Final.items, Final.denote]
    exact .nativeWord word (args.consumes fenced steady.1)

/-- An expression is read as what it denotes if no operator follows. -/
theorem Expression.consumes {rest : List Item} (fenced : Fenced rest) :
    (expression : Expression host m) → expression.Steady →
    Consumes m (fun fuel => readWhole (.ofFuel host fuel)) expression.items rest expression.denote
  | .alone final, steady => by
    rw [Expression.Steady] at steady
    rw [Expression.items, Expression.denote]
    have read : Consumes m (fun fuel => readWhole (.ofFuel host fuel)) (final.items ++ []) rest
        (final.denote >>= pure) :=
      .readWhole (.readOperand (final.isSteady steady) (final.fetches fenced steady))
        fun value _ => .readOperators_nil fenced _ value
    rwa [List.append_nil, bind_pure] at read
  | .after before operator final, steady => by
    rw [Expression.Steady] at steady
    rw [Expression.items, Expression.denote]
    refine before.consumes steady.1 fun left given bound enough => ?_
    obtain ⟨steady, steady'⟩ := steady.2 left given
    cases bound with
    -- The items that are left bound the number of operators, and one follows.
    | nil => cases enough
    | cons item bound =>
      have read : Consumes m (fun fuel => readOperators (.ofFuel host fuel) (item :: bound) left)
          (operator.site.item .plain :: (final.items ++ [])) rest
          (final.denote >>= fun right => operator.function.value [left, right] >>= pure) :=
        .readOperators_cons operator
          (.readOperand (final.isSteady steady) (final.fetches fenced steady))
          steady' fun _ value _ _ => .readOperators_nil fenced bound value
      simpa only [List.append_nil, bind_pure] using read

/-- Arguments are read one after the other. -/
theorem Arguments.consumes {n : Nat} {rest : List Item} (fenced : Fenced rest) :
    (args : Arguments host m n) → args.Steady →
    Consumes m (fun fuel => readArgs (.ofFuel host fuel) n) args.items rest args.denote
  | .nil, _ => by
    rw [Arguments.items, Arguments.denote]
    exact .done []
  | .cons first others, steady => by
    rw [Arguments.Steady] at steady
    rw [Arguments.items, Arguments.denote]
    -- Behind the first argument there is another one or the end of the call, and no operator
    -- either way.
    have whole : Consumes m (fun fuel => (Engine.ofFuel host fuel).read .whole) first.items
        (others.items ++ rest) first.denote :=
          .of_succ (first.consumes (others.fenced fenced) steady.1)
    exact whole.andThen fun value given =>
      (others.consumes fenced (steady.2 value given)).thenDo fun values _ => .done _

end

/-! ## The last result -/

section Result

variable {engine : Engine} {value given : Value} {reader reader' : Reader}

theorem result_of_readOperand (ended : readOperand engine reader = (some (.ok value), reader')) :
    reader'.machine.result = value := by
  obtain ⟨_, _, _, ended⟩ := Run.of_bind ended
  obtain ⟨_, _, _, ended⟩ := Run.of_bind ended
  cases ended
  rfl

/-- Operators leave their result as the last one. -/
theorem result_of_readOperators {bound : List Item} (kept : reader.machine.result = given)
    (ended : readOperators engine bound given reader = (some (.ok value), reader')) :
    reader'.machine.result = value := by
  have stops {given : Value} {reader : Reader} (kept : reader.machine.result = given)
      (ended : (pure given : Run Reader Value) reader = (some (.ok value), reader')) :
      reader'.machine.result = value := by
    cases ended
    exact kept
  induction bound generalizing given reader with
  | nil => exact stops kept ended
  | cons _ bound ih =>
    obtain ⟨m, position, items⟩ := reader
    cases items with
    | nil => exact stops kept ended
    | cons item items =>
      cases item with
      | word kind symbol slot =>
        change (if isOperator kind symbol then _ else pure given : Run Reader Value) _ = _ at ended
        split at ended
        · obtain ⟨_, _, _, ended⟩ := Run.of_bind ended
          obtain ⟨_, _, _, ended⟩ := Run.of_bind ended
          obtain ⟨_, _, _, ended⟩ := Run.of_bind ended
          -- Whatever the operator has done, its value is kept as the result before the next one.
          obtain ⟨_, _, keeps, ended⟩ := Run.of_bind ended
          cases keeps
          refine ih ?_ ended
          rfl
        · exact stops kept ended
      | _ => exact stops kept ended

theorem result_of_readWhole (ended : readWhole engine reader = (some (.ok value), reader')) :
    reader'.machine.result = value := by
  obtain ⟨_, _, read, ended⟩ := Run.of_bind ended
  exact result_of_readOperators (result_of_readOperand read) ended

end Result

/-! ## Agreement -/

/-- An expression that is not followed by an operator, and for which no suspension comes up, is
read from its first item to its last and gives the value that it denotes, which is the last result
from then on. If it denotes a failure, reading fails in that way before it has come past the
expression. Nothing else changes. -/
theorem Expression.read_denotes (expression : Expression host m) (steady : expression.Steady)
    {rest : List Item} (fenced : Fenced rest) (position : Nat) :
    (∀ value, expression.denote = .ok value →
      Ends (fun fuel => (Engine.ofFuel host fuel).read .whole)
        ⟨m, ⟨position, expression.items ++ rest⟩⟩
        (.ok value) ⟨m.withResult value, ⟨position + expression.items.length, rest⟩⟩) ∧
    (∀ failure, expression.denote = .error failure →
      ∃ taken left last, expression.items = taken ++ left ∧
        Ends (fun fuel => (Engine.ofFuel host fuel).read .whole)
          ⟨m, ⟨position, expression.items ++ rest⟩⟩
          (.error failure) ⟨m.withResult last, ⟨position + taken.length, left ++ rest⟩⟩) := by
  obtain ⟨taken, left, last, split, whole, ends⟩ :=
    expression.consumes fenced steady m.result position
  refine ⟨fun value denotes => ?_, fun failure denotes => ?_⟩
  · obtain rfl := whole value denotes
    rw [List.append_nil] at split
    rw [denotes, ← split] at ends
    obtain ⟨bound, ended⟩ := ends
    obtain rfl : last = value := result_of_readWhole (ended bound (Nat.le_refl _))
    exact .of_succ ⟨bound, ended⟩
  · rw [denotes] at ends
    exact ⟨taken, left, last, split, .of_succ ends⟩

/-! ## An expression at work -/

/-- A text as it is, and any other value as a mark. -/
def Value.spelled : Value → String
  | .text content => content
  | _ => "?"

/-- A call, spelled out. -/
def spell (name : String) (args : List Value) : Except Failure Value :=
  .ok (.text (name ++ "(" ++ String.intercalate "," (args.map Value.spelled) ++ ")"))

/-- A host whose functions spell out their calls. -/
def spellingHost : Host :=
  { Host.none with native := fun _ name args => settleWith (spell name args) }

/-- A machine in which a word and an operator name such functions. -/
def Machine.spelling : Machine :=
  { ((Machine.ofConfig .standard).define "join"
      (.procedure (.leading 0 (.native 2 ⟨0, .host "join"⟩)))).define "+"
      (.procedure (.operator 1 (.native ⟨1, .host "+"⟩))) with
    slots := #[some (.dictionary ⟨0⟩)] }

def spellingFunction (id : Nat) (name : String) : PureFunction spellingHost .spelling where
  native := ⟨id, .host name⟩
  value := spell name
  computes _ _ := .of_succ (.of_eq fun _ => rfl)

def joinWord : NativeWord spellingHost .spelling 2 where
  site := ⟨"join", ⟨0⟩⟩
  id := 0
  function := spellingFunction 0 "join"
  names := by rfl
  plain := by decide

def plusWord : OperatorWord spellingHost .spelling where
  site := ⟨"+", ⟨0⟩⟩
  id := 1
  function := spellingFunction 1 "+"
  names := by rfl
  marked := by decide

def spelledLiteral (text : String) : Primary spellingHost .spelling := .literal (.text text)

/-- The expression `"a" + ("b" + "c") + join "d" + "e" "f"`. -/
def spelledSum : Expression spellingHost .spelling :=
  .after
    (.more (.first (spelledLiteral "a")) plusWord
      (.paren ⟨0⟩ (.after (.first (spelledLiteral "b")) plusWord (.plain (spelledLiteral "c")))))
    plusWord
    (.call joinWord
      (.cons (.after (.first (spelledLiteral "d")) plusWord (.plain (spelledLiteral "e")))
      (.cons (.alone (.plain (spelledLiteral "f"))) .nil)))

theorem isSteady_spell (name : String) (args : List Value) : IsSteady (spell name args) := by
  rintro _ ⟨⟩
  rfl

/-- Operators are applied from left to right, unless there are parentheses, and arguments take the
operators that follow them. -/
theorem Expression.read_denotes_of_spelledSum :
    Ends (fun fuel => (Engine.ofFuel spellingHost fuel).read .whole)
      ⟨.spelling, ⟨0, spelledSum.items ++ [.literal (.text "next")]⟩⟩
      (.ok (.text "+(+(a,+(b,c)),join(+(d,e),f))"))
      ⟨Machine.spelling.withResult (.text "+(+(a,+(b,c)),join(+(d,e),f))"),
        ⟨9, [.literal (.text "next")]⟩⟩ := by
  have steady : spelledSum.Steady := by
    simp [spelledSum, spelledLiteral, plusWord, joinWord, spellingFunction, Expression.Steady,
      Operands.Steady, Final.Steady, Arguments.Steady, Primary.Steady, isSteady_spell]
  have fenced : Fenced [.literal (.text "next")] := by
    rintro _ ⟨⟩
    rfl
  exact (spelledSum.read_denotes steady fenced 0).1 _ (by rfl)

end Wordstream
