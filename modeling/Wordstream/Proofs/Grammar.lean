import Mathlib.Data.List.Forall2
import Wordstream.Proofs.Nesting

/-!
# The grammar of nested tokens

A list of tokens nests without errors when its brackets are balanced, not too many of them are open
at once, and no path has an empty segment. The nodes then have every token in its place: written
out again, groups with their brackets, they are the tokens one by one.

A group is read as a sequence of its own. So a sequence that reports nothing has read a forest, and
then the bracket that closes it or the end of the text.

## Main results

* `Node.Forest.reads` — a forest is read
* `Node.Parser.Reads.exists_forest` — what reports nothing is a forest
* `Node.ofTokens_eq_iff` — nesting without errors is being a forest
* `Node.ofTokens_grammar` — what nests without errors, and that every token is kept
-/

namespace Wordstream.Node

/-! ### Forests -/

/-- The node of a token that is neither a bracket nor the end. -/
def leaf? (token : Token) : Option Node :=
  match token.kind with
  | .number value => some (.number value token.span)
  | .text value => some (.text value token.span)
  | .refinement name => some (.refinement name token.span)
  | .word kind symbol => (ofWord kind symbol token.span).toOption
  | .opening _ | .closing _ | .endOfText => none

/-- A list of tokens stands for a list of nodes in which groups are nested at most `depth` deep. -/
inductive Forest : (depth : Nat) → List Token → List Node → Prop
  | nil {depth : Nat} : Forest depth [] []
  | leaf {depth : Nat} {token : Token} {node : Node} {tokens : List Token} {nodes : List Node}
      (stands : leaf? token = some node) (more : Forest depth tokens nodes) :
      Forest depth (token :: tokens) (node :: nodes)
  | group {depth : Nat} {bracket : Bracket} {opened closed : Span} {inside rest : List Token}
      {items nodes : List Node} (inner : Forest depth inside items)
      (more : Forest (depth + 1) rest nodes) :
      Forest (depth + 1)
        (⟨.opening bracket, opened⟩ :: (inside ++ ⟨.closing bracket, closed⟩ :: rest))
        (.group bracket items (opened.merge closed) :: nodes)

theorem Forest.append {depth : Nat} {tokens tokens' : List Token} {nodes nodes' : List Node}
    (front : Forest depth tokens nodes) (rear : Forest depth tokens' nodes') :
    Forest depth (tokens ++ tokens') (nodes ++ nodes') := by
  induction front with
  | nil => exact rear
  | leaf stands _ ih => exact .leaf stands (ih rear)
  | group inner _ _ ih =>
    simpa only [List.cons_append, List.append_assoc] using Forest.group inner (ih rear)

/-- No token of a forest marks the end. -/
theorem Forest.notEnd {depth : Nat} {tokens : List Token} {nodes : List Node}
    (forest : Forest depth tokens nodes) : ∀ token ∈ tokens, token.kind.isEnd = false := by
  induction forest with
  | nil => simp
  | @leaf _ token _ _ _ stands _ ih =>
    refine List.forall_mem_cons.2 ⟨?_, ih⟩
    cases kind : token.kind <;> simp_all [leaf?, TokenKind.isEnd]
  | group _ _ insideEnds restEnds =>
    simpa [TokenKind.isEnd, or_imp, forall_and] using ⟨insideEnds, restEnds⟩

/-! ### Reading forests -/

theorem role_eq_item_iff {token : Token} {node : Node} :
    role token = .item (.ok node) ↔ leaf? token = some node := by
  obtain ⟨kind, span⟩ := token
  cases kind with
  | word kind symbol =>
    cases made : ofWord kind symbol span <;> simp [role, leaf?, made, Except.toOption]
  | _ => simp [role, leaf?]

/-- A forest in front adds its nodes to the sequence. -/
theorem Forest.reads {source : SourceText} {last : Span} {depth : Nat} {tokens : List Token}
    {nodes : List Node} (forest : Forest depth tokens nodes) {closer : Option Bracket}
    {opened : Span}
    {items : List Node} {rest : List Token} {level : Nat} {found : Diagnostics} {r : Parsed}
    (room : found.full = false) (within : level + depth = maxDepth)
    (more : Parser.Reads source last closer opened (nodes.reverse ++ items)
      ⟨rest, level, found⟩ r) :
    Parser.Reads source last closer opened items ⟨tokens ++ rest, level, found⟩ r := by
  induction forest generalizing closer opened items rest level r with
  | nil => exact more
  | leaf stands _ ih =>
    exact .item room (role_eq_item_iff.2 stands) (ih within (by simpa using more))
  | @group depth bracket start closed inside behind nodes _ _ _ insideIh restIh =>
    have inner : Parser.Reads source last (some bracket) start []
        ⟨inside ++ ⟨.closing bracket, closed⟩ :: (behind ++ rest), level + 1, found⟩
        ⟨nodes, closed, ⟨behind ++ rest, level + 1, found⟩⟩ := by
      refine insideIh (by omega) ?_
      have closes := @Parser.Reads.closed source last bracket start (nodes.reverse ++ [])
        ⟨.closing bracket, closed⟩ (behind ++ rest) (level + 1) found room rfl
      simpa using closes
    have shallow : level < maxDepth := by omega
    have group := @Parser.Reads.group source last closer bracket opened items
      ⟨.opening bracket, start⟩ _ level found _ r room rfl shallow inner
      (restIh within (by simpa using more))
    simpa using group

/-- What a sequence that reports nothing ends with: the bracket that closes it, or the end of the
text. -/
def Parser.Closes (last : Span) : Option Bracket → List Token → Parsed → Prop
  | some bracket, left, r => left = ⟨.closing bracket, r.close⟩ :: r.behind.rest
  | none, left, r => left = r.behind.rest ∧ Parser.AtEnd last left r.close

/-- A sequence that reports nothing is a forest, and then what it ends with. -/
theorem Parser.Reads.exists_forest {source : SourceText} {last : Span} {closer : Option Bracket}
    {opened : Span} {items : List Node} {p : Parser} {r : Parsed}
    (reads : Parser.Reads source last closer opened items p r)
    (clean : r.behind.found.total = 0) (within : p.depth ≤ maxDepth) :
    ∃ inside nodes left, p.rest = inside ++ left ∧ Forest (maxDepth - p.depth) inside nodes ∧
      r.nodes = items.reverse ++ nodes ∧ r.behind.found = p.found ∧ Closes last closer left r := by
  induction reads with
  | @full closer opened items p full =>
    simp [Diagnostics.full_eq_false_of_total clean] at full
  | @ended closer opened items p place room atEnd =>
    cases closer with
    | some bracket => exact absurd clean (Nat.succ_ne_zero _)
    | none => exact ⟨[], [], p.rest, rfl, .nil, by simp, rfl, rfl, atEnd⟩
  | @closed bracket opened items token rest depth found room closes =>
    obtain ⟨kind, span⟩ := token
    obtain rfl := role_eq_closing_iff.1 closes
    exact ⟨[], [], _, rfl, .nil, by simp, rfl, rfl⟩
  -- Each of these has reported something, and reports are never taken back.
  | stray _ _ _ more | deep _ _ _ more | flawed _ _ more =>
    exact absurd clean (Nat.ne_of_gt (Nat.lt_of_lt_of_le (Nat.succ_pos _) more.total_le))
  | @item closer opened items token rest depth found node r room stands more ih =>
    obtain ⟨inside, nodes, left, rfl, forest, result, same, closes⟩ := ih clean within
    exact ⟨token :: inside, node :: nodes, left, rfl, .leaf (role_eq_item_iff.1 stands) forest,
      by simpa using result, same, closes⟩
  | @group closer bracket opened items token rest depth found g r room opens shallow inner more
      innerIh furtherIh =>
    obtain ⟨kind, span⟩ := token
    obtain rfl := role_eq_opening_iff.1 opens
    have restored : g.behind.depth - 1 = depth := by
      rw [inner.depth_eq]
      rfl
    -- What was reported inside the group would still be there behind it.
    have innerClean : g.behind.found.total = 0 := Nat.le_zero.1 (clean ▸ more.total_le)
    obtain ⟨inside, nodes, _, rfl, forest, result, same, rfl⟩ := innerIh innerClean shallow
    simp only [restored] at furtherIh
    obtain ⟨behind, nodes', left, rest, forest', result', same', closes⟩ := furtherIh clean within
    have deeper : maxDepth - depth = maxDepth - (depth + 1) + 1 := by omega
    simp only [deeper] at forest' ⊢
    have whole := @Forest.group _ bracket span g.close _ _ _ _ forest forest'
    refine ⟨_, _, left, ?_, whole, ?_, same'.trans same, closes⟩
    · simp [← rest]
    · simpa [result] using result'

/-- What comes behind the tokens of a text: the mark of the end, or nothing. -/
def Trailing (ending : List Token) : Prop :=
  ∀ token ∈ ending.head?, token.kind.isEnd

/-- A list of tokens has one place where the mark of the end comes or nothing more does. -/
theorem eq_of_trailing {tokens tokens' ending ending' : List Token}
    (same : tokens ++ ending = tokens' ++ ending')
    (inner : ∀ token ∈ tokens, token.kind.isEnd = false)
    (inner' : ∀ token ∈ tokens', token.kind.isEnd = false) (ends : Trailing ending)
    (ends' : Trailing ending') : tokens = tokens' := by
  have front : ∀ {tokens ending : List Token}, (∀ token ∈ tokens, token.kind.isEnd = false) →
      Trailing ending → (tokens ++ ending).takeWhile (fun token => !token.kind.isEnd) = tokens := by
    intro tokens ending inner ends
    rw [List.takeWhile_append_of_pos (by simpa using inner)]
    cases ending with
    | nil => simp
    | cons mark rest => simp [ends mark rfl]
  rw [← front inner ends, same, front inner' ends']

/-- Tokens that nest without errors stand for the nodes that are read. -/
theorem forest_of_clean {source : SourceText} {tokens ending : List Token}
    (inner : ∀ token ∈ tokens, token.kind.isEnd = false) (ends : Trailing ending)
    (clean : (ofTokens source (tokens ++ ending)).2.any = false) :
    Forest maxDepth tokens (ofTokens source (tokens ++ ending)).1 ∧
      (ofTokens source (tokens ++ ending)).2 = .empty := by
  have nothing : (ofTokens source (tokens ++ ending)).2.total = 0 := by
    simpa [Diagnostics.any] using clean
  obtain ⟨last, reads⟩ : ∃ last, Parser.Reads source last none (Span.point Position.start) []
      ⟨tokens ++ ending, 0, .empty⟩ (Parser.parse source (tokens ++ ending)) :=
    ⟨_, Parser.reads_sequence ..⟩
  obtain ⟨inside, nodes, left, split, forest, result, same, -, atEnd⟩ :=
    reads.exists_forest nothing (Nat.zero_le _)
  have stops : Trailing left := by
    rcases atEnd.eq_nil_or_mark with rfl | ⟨mark, rest, rfl, ended⟩
    · exact fun _ mem => by cases mem
    · rintro token first
      obtain rfl := Option.some.inj first
      exact TokenKind.isEnd_iff.2 ended
  obtain rfl := eq_of_trailing split inner forest.notEnd ends stops
  refine ⟨?_, same⟩
  rw [show (ofTokens source (tokens ++ ending)).1 = nodes from result.trans (List.nil_append _)]
  exact forest

/-- Nesting without errors is being a forest. -/
theorem ofTokens_eq_iff {source : SourceText} {tokens ending : List Token} {nodes : List Node}
    (inner : ∀ token ∈ tokens, token.kind.isEnd = false) (ends : Trailing ending) :
    ofTokens source (tokens ++ ending) = (nodes, .empty) ↔ Forest maxDepth tokens nodes := by
  constructor
  · intro nested
    have read := (forest_of_clean inner ends (by rw [nested]; rfl)).1
    rwa [nested] at read
  · intro forest
    have reads : ∀ last, Parser.Reads source last none (Span.point Position.start) []
        ⟨tokens ++ ending, 0, .empty⟩ ⟨nodes, ending.head?.elim last Token.span,
          ⟨ending, 0, .empty⟩⟩ := by
      intro last
      refine forest.reads rfl (by rfl) ?_
      have atEnd : Parser.AtEnd last ending (ending.head?.elim last Token.span) := by
        cases ending with
        | nil => exact .nil
        | cons mark rest =>
          exact .mark (role_eq_ended_iff.2 (TokenKind.isEnd_iff.1 (ends mark rfl)))
      have ended := @Parser.Reads.ended source last none (Span.point Position.start)
        (nodes.reverse ++ []) ⟨ending, 0, .empty⟩ _ rfl atEnd
      simpa [Parser.reportMissing] using ended
    simp only [ofTokens, Parser.parse, (reads _).eq_sequence]

/-! ### Balanced brackets -/

/-- Every bracket that opens a group is closed by the one that belongs to it. -/
inductive Balanced : List TokenKind → Prop
  | nil : Balanced []
  | single {kind : TokenKind} {rest : List TokenKind} (opens : ∀ bracket, kind ≠ .opening bracket)
      (closes : ∀ bracket, kind ≠ .closing bracket) (more : Balanced rest) : Balanced (kind :: rest)
  | group {bracket : Bracket} {inside rest : List TokenKind} (inner : Balanced inside)
      (more : Balanced rest) : Balanced (.opening bracket :: (inside ++ .closing bracket :: rest))

/-- How many groups a stretch of tokens opens. -/
def openings (kinds : List TokenKind) : Nat :=
  kinds.countP fun | .opening _ => true | _ => false

/-- How many groups a stretch of tokens closes. -/
def closings (kinds : List TokenKind) : Nat :=
  kinds.countP fun | .closing _ => true | _ => false

/-- At no place more than `depth` brackets are open. -/
def Shallow (depth : Nat) (kinds : List TokenKind) : Prop :=
  ∀ front, front <+: kinds → openings front ≤ closings front + depth

/-- A path has no empty segment: a word with a separator behind its first character has something
on either side of each separator. -/
def Segmented (symbol : String) : Prop :=
  (∃ c ∈ symbol.toList.tail, isSeparator c) → [] ∉ symbol.toList.splitOnP isSeparator

theorem segments_eq_splitOnP (cs : List Char) : segments cs = cs.splitOnP isSeparator := by
  induction cs with
  | nil => rfl
  | cons c rest ih =>
    rw [segments, List.splitOnP_cons_eq_if_modifyHead, ih]
    cases cut : rest.splitOnP isSeparator with
    | nil => exact absurd cut (List.splitOnP_ne_nil _ _)
    | cons segment more => rfl

theorem isPath_iff {symbol : String} : isPath symbol ↔ ∃ c ∈ symbol.toList.tail, isSeparator c := by
  simp [isPath]

/-- A word gives a node just when it is no path with an empty segment. -/
theorem exists_ofWord_iff (kind : WordKind) (symbol : String) (span : Span) :
    (∃ node, ofWord kind symbol span = .ok node) ↔ Segmented symbol := by
  unfold ofWord Segmented
  rw [← isPath_iff, segments_eq_splitOnP]
  by_cases path : isPath symbol
  · by_cases empty : [] ∈ symbol.toList.splitOnP isSeparator
    · simp [path, empty]
    · simp [path, empty]
  · simp [path]

/-- As many groups are closed as are opened. -/
theorem Balanced.openings_eq {kinds : List TokenKind} (balanced : Balanced kinds) :
    openings kinds = closings kinds := by
  induction balanced with
  | nil => rfl
  | @single kind _ opens closes _ ih =>
    cases kind with
    | opening bracket => exact absurd rfl (opens bracket)
    | closing bracket => exact absurd rfl (closes bracket)
    | _ => simpa [openings, closings] using ih
  | group _ _ insideIh restIh =>
    simp only [openings, closings, List.countP_cons, List.countP_append] at insideIh restIh ⊢
    simp only [insideIh, restIh]
    simp
    omega

theorem shallow_single_iff {depth : Nat} {kind : TokenKind} {rest : List TokenKind}
    (opens : ∀ bracket, kind ≠ .opening bracket) (closes : ∀ bracket, kind ≠ .closing bracket) :
    Shallow depth (kind :: rest) ↔ Shallow depth rest := by
  have same : ∀ front, openings (kind :: front) = openings front ∧
      closings (kind :: front) = closings front := by
    intro front
    cases kind with
    | opening bracket => exact absurd rfl (opens bracket)
    | closing bracket => exact absurd rfl (closes bracket)
    | _ => simp [openings, closings]
  constructor
  · intro shallow front stretch
    have bound := shallow (kind :: front) (List.cons_prefix_cons.2 ⟨rfl, stretch⟩)
    rwa [(same front).1, (same front).2] at bound
  · intro shallow front stretch
    rcases List.prefix_cons_iff.1 stretch with rfl | ⟨front, rfl, further⟩
    · simp [openings]
    · rw [(same front).1, (same front).2]
      exact shallow front further

/-- A stretch at the start of two lists in a row ends in the first or goes on in the second. -/
theorem prefix_append_cases {front a b : List TokenKind} (stretch : front <+: a ++ b) :
    front <+: a ∨ ∃ more, front = a ++ more ∧ more <+: b := by
  rcases List.prefix_or_prefix_of_prefix stretch (List.prefix_append a b) with within | ⟨more, rfl⟩
  · exact Or.inl within
  · exact Or.inr ⟨more, rfl, (List.prefix_append_right_inj a).1 stretch⟩

/-- A group takes one of the brackets that may be open. -/
theorem shallow_group_iff {depth : Nat} {bracket : Bracket} {inside rest : List TokenKind}
    (inner : Balanced inside) :
    Shallow (depth + 1) (.opening bracket :: (inside ++ .closing bracket :: rest)) ↔
      Shallow depth inside ∧ Shallow (depth + 1) rest := by
  have opened : ∀ front, openings (.opening bracket :: front) = openings front + 1 ∧
      closings (.opening bracket :: front) = closings front := by simp [openings, closings]
  -- Inside the group as much is closed as opened, so it adds the same to both sides.
  have whole : ∀ front,
      openings (.opening bracket :: (inside ++ .closing bracket :: front)) =
        openings inside + openings front + 1 ∧
      closings (.opening bracket :: (inside ++ .closing bracket :: front)) =
        openings inside + closings front + 1 := by
    intro front
    have even := inner.openings_eq
    simp only [openings, closings] at even
    simp [openings, closings, even]
    omega
  constructor
  · intro shallow
    refine ⟨fun front stretch => ?_, fun front stretch => ?_⟩
    · have bound := shallow (.opening bracket :: front) (List.cons_prefix_cons.2
        ⟨rfl, stretch.trans (List.prefix_append _ _)⟩)
      rw [(opened front).1, (opened front).2] at bound
      omega
    · have bound := shallow (.opening bracket :: (inside ++ .closing bracket :: front))
        (List.cons_prefix_cons.2 ⟨rfl, (List.prefix_append_right_inj inside).2
          (List.cons_prefix_cons.2 ⟨rfl, stretch⟩)⟩)
      rw [(whole front).1, (whole front).2] at bound
      omega
  · rintro ⟨insideBound, restBound⟩ front stretch
    -- The stretch ends before the group, inside it, at its closing bracket or behind it.
    rcases List.prefix_cons_iff.1 stretch with rfl | ⟨front, rfl, further⟩
    · simp [openings]
    rcases prefix_append_cases further with within | ⟨more, rfl, behind⟩
    · rw [(opened front).1, (opened front).2]
      have bound := insideBound front within
      omega
    rcases List.prefix_cons_iff.1 behind with rfl | ⟨more, rfl, outside⟩
    · rw [List.append_nil, (opened inside).1, (opened inside).2]
      have bound := insideBound inside (List.prefix_refl _)
      omega
    · rw [(whole more).1, (whole more).2]
      have bound := restBound more outside
      omega

theorem not_shallow_zero {bracket : Bracket} {rest : List TokenKind} :
    ¬ Shallow 0 (.opening bracket :: rest) := fun shallow => by
  have bound := shallow [.opening bracket] (List.cons_prefix_cons.2 ⟨rfl, List.nil_prefix⟩)
  simp [openings, closings] at bound

/-! ### Forests are what balanced tokens stand for -/

/-- A leaf is no bracket. -/
theorem kind_of_leaf? {token : Token} {node : Node} (stands : leaf? token = some node) :
    (∀ bracket, token.kind ≠ .opening bracket) ∧ ∀ bracket, token.kind ≠ .closing bracket := by
  constructor <;> intro bracket kind <;> simp [leaf?, kind] at stands

theorem Forest.balanced {depth : Nat} {tokens : List Token} {nodes : List Node}
    (forest : Forest depth tokens nodes) : Balanced (tokens.map Token.kind) := by
  induction forest with
  | nil => exact .nil
  | leaf stands _ ih => exact .single (kind_of_leaf? stands).1 (kind_of_leaf? stands).2 ih
  | group _ _ insideIh restIh => simpa using Balanced.group insideIh restIh

theorem Forest.shallow {depth : Nat} {tokens : List Token} {nodes : List Node}
    (forest : Forest depth tokens nodes) : Shallow depth (tokens.map Token.kind) := by
  induction forest with
  | nil =>
    intro front stretch
    rw [List.prefix_nil.1 stretch]
    exact Nat.zero_le _
  | leaf stands _ ih =>
    exact (shallow_single_iff (kind_of_leaf? stands).1 (kind_of_leaf? stands).2).2 ih
  | group inner _ insideIh restIh =>
    simpa using (shallow_group_iff inner.balanced).2 ⟨insideIh, restIh⟩

theorem Forest.segmented {depth : Nat} {tokens : List Token} {nodes : List Node}
    (forest : Forest depth tokens nodes) :
    ∀ kind symbol, .word kind symbol ∈ tokens.map Token.kind → Segmented symbol := by
  induction forest with
  | nil => simp
  | @leaf _ token _ _ _ stands _ ih =>
    intro kind symbol mem
    rcases List.mem_cons.1 mem with same | mem
    · refine (exists_ofWord_iff kind symbol token.span).1 ?_
      simp only [leaf?, ← same] at stands
      cases made : ofWord kind symbol token.span with
      | error problem => simp [made, Except.toOption] at stands
      | ok node => exact ⟨node, rfl⟩
    · exact ih kind symbol mem
  | group _ _ insideIh restIh =>
    intro kind symbol mem
    simp only [List.map_cons, List.map_append, List.mem_cons, List.mem_append, reduceCtorEq,
      false_or] at mem
    exact mem.elim (insideIh kind symbol) (restIh kind symbol)

/-- A token that is no bracket stands for a node, if it is no path with an empty segment. -/
theorem exists_leaf? {token : Token} (opens : ∀ bracket, token.kind ≠ .opening bracket)
    (closes : ∀ bracket, token.kind ≠ .closing bracket) (notEnd : token.kind.isEnd = false)
    (word : ∀ kind symbol, token.kind = .word kind symbol → Segmented symbol) :
    ∃ node, leaf? token = some node := by
  obtain ⟨kind, span⟩ := token
  cases kind with
  | opening bracket => exact absurd rfl (opens bracket)
  | closing bracket => exact absurd rfl (closes bracket)
  | endOfText => cases notEnd
  | word kind symbol =>
    obtain ⟨node, made⟩ := (exists_ofWord_iff kind symbol span).2 (word kind symbol rfl)
    exact ⟨node, by simp [leaf?, made, Except.toOption]⟩
  | number | text | refinement => exact ⟨_, rfl⟩

/-- Balanced tokens stand for nodes. -/
theorem Balanced.exists_forest {kinds : List TokenKind} (balanced : Balanced kinds) {depth : Nat}
    {tokens : List Token} (same : tokens.map Token.kind = kinds) (shallow : Shallow depth kinds)
    (words : ∀ kind symbol, .word kind symbol ∈ kinds → Segmented symbol)
    (notEnd : ∀ token ∈ tokens, token.kind.isEnd = false) : ∃ nodes, Forest depth tokens nodes := by
  induction balanced generalizing depth tokens with
  | nil => exact ⟨[], List.map_eq_nil_iff.1 same ▸ .nil⟩
  | single opens closes _ ih =>
    obtain ⟨token, tokens, rfl, rfl, rfl⟩ := List.map_eq_cons_iff.1 same
    obtain ⟨tokenEnd, notEnd⟩ := List.forall_mem_cons.1 notEnd
    obtain ⟨node, stands⟩ := exists_leaf? opens closes tokenEnd
      fun kind symbol eq => words kind symbol (eq ▸ List.mem_cons_self)
    obtain ⟨nodes, more⟩ := ih rfl ((shallow_single_iff opens closes).1 shallow)
      (fun kind symbol mem => words kind symbol (List.mem_cons_of_mem _ mem)) notEnd
    exact ⟨node :: nodes, .leaf stands more⟩
  | @group bracket inside rest inner _ insideIh restIh =>
    obtain ⟨opening, behind, rfl, openKind, behindKinds⟩ := List.map_eq_cons_iff.1 same
    obtain ⟨insideTokens, behind, rfl, rfl, restKinds⟩ := List.map_eq_append_iff.1 behindKinds
    obtain ⟨closing, restTokens, rfl, closeKind, rfl⟩ := List.map_eq_cons_iff.1 restKinds
    obtain ⟨kind, opened⟩ := opening
    obtain ⟨kind', closed⟩ := closing
    cases openKind
    cases closeKind
    cases depth with
    | zero => exact absurd shallow not_shallow_zero
    | succ depth =>
      obtain ⟨insideShallow, restShallow⟩ := (shallow_group_iff inner).1 shallow
      -- What is between the brackets may nest one level less; what follows may nest as before.
      obtain ⟨items, insideForest⟩ := insideIh rfl insideShallow
        (fun kind symbol mem => words kind symbol (by simp [mem]))
        (fun token mem => notEnd token (by simp [mem]))
      obtain ⟨nodes, restForest⟩ := restIh rfl restShallow
        (fun kind symbol mem => words kind symbol (by simp [mem]))
        (fun token mem => notEnd token (by simp [mem]))
      exact ⟨_, .group insideForest restForest⟩

/-! ### Every token is kept -/

/-- What a forest is written with: brackets, and nodes that have none below them. -/
inductive Piece where
  | opening (bracket : Bracket)
  | closing (bracket : Bracket)
  | leaf (node : Node)

mutual

/-- A node written out, a group with its brackets around what is in it. -/
def flatten : Node → List Piece
  | group bracket items _ => .opening bracket :: (flattenAll items ++ [.closing bracket])
  | node => [.leaf node]

/-- Nodes written out one after the other. -/
def flattenAll : List Node → List Piece
  | [] => []
  | node :: rest => flatten node ++ flattenAll rest

end

/-- A piece says what a token says. A path says what the word says that it was cut from. -/
inductive Piece.Says : Piece → TokenKind → Prop
  | opening (bracket : Bracket) : Says (.opening bracket) (.opening bracket)
  | closing (bracket : Bracket) : Says (.closing bracket) (.closing bracket)
  | number (value : Float) (span : Span) : Says (.leaf (.number value span)) (.number value)
  | text (value : String) (span : Span) : Says (.leaf (.text value span)) (.text value)
  | refinement (name : String) (span : Span) :
      Says (.leaf (.refinement name span)) (.refinement name)
  | word (kind : WordKind) {symbol : String} (span : Span)
      (whole : ∀ c ∈ symbol.toList.tail, ¬ isSeparator c) :
      Says (.leaf (.word kind symbol span)) (.word kind symbol)
  | path (kind : WordKind) {symbol : String} (span : Span)
      (divided : ∃ c ∈ symbol.toList.tail, isSeparator c) :
      Says (.leaf (.path kind ((symbol.toList.splitOnP isSeparator).map String.ofList) span))
        (.word kind symbol)

/-- A leaf says what its token says. -/
theorem says_of_leaf? {token : Token} {node : Node} (stands : leaf? token = some node) :
    flatten node = [.leaf node] ∧ (Piece.leaf node).Says token.kind := by
  obtain ⟨kind, span⟩ := token
  cases kind with
  | opening | closing | endOfText => cases stands
  | number | text | refinement =>
    cases stands
    exact ⟨rfl, by constructor⟩
  | word kind symbol =>
    by_cases path : isPath symbol
    · by_cases empty : (segments symbol.toList).any List.isEmpty
      · simp [leaf?, ofWord, path, empty, Except.toOption] at stands
      · simp only [leaf?, ofWord, path, empty, Except.toOption, if_true] at stands
        cases stands
        rw [segments_eq_splitOnP]
        exact ⟨rfl, .path kind span (isPath_iff.1 path)⟩
    · simp only [leaf?, ofWord, path, Except.toOption] at stands
      cases stands
      exact ⟨rfl, .word kind span fun c mem divides => path (isPath_iff.2 ⟨c, mem, divides⟩)⟩

/-- The nodes of a forest, written out, say what the tokens say, one by one. -/
theorem Forest.says_flattenAll {depth : Nat} {tokens : List Token} {nodes : List Node}
    (forest : Forest depth tokens nodes) :
    List.Forall₂ Piece.Says (flattenAll nodes) (tokens.map Token.kind) := by
  induction forest with
  | nil => exact .nil
  | leaf stands _ ih =>
    rw [flattenAll, (says_of_leaf? stands).1]
    exact .cons (says_of_leaf? stands).2 ih
  | group _ _ insideIh restIh =>
    simp only [flattenAll, flatten, List.cons_append, List.append_assoc, List.map_cons,
      List.map_append]
    exact .cons (.opening _) (List.rel_append insideIh (.cons (.closing _) restIh))

/-- The tokens of a list whose end is marked at most by its last token are those before the mark. -/
theorem exists_ending {tokens : List Token}
    (last : ∀ token ∈ tokens.dropLast, token.kind.isEnd = false) :
    ∃ inner ending, tokens = inner ++ ending ∧ Trailing ending ∧
      (∀ token ∈ inner, token.kind.isEnd = false) ∧
      (tokens.map Token.kind).filter (fun kind => !kind.isEnd) = inner.map Token.kind := by
  have kept : ∀ inner : List Token, (∀ token ∈ inner, token.kind.isEnd = false) →
      (inner.map Token.kind).filter (fun kind => !kind.isEnd) = inner.map Token.kind := by
    intro inner none
    rw [List.filter_eq_self]
    simpa using none
  rcases List.eq_nil_or_concat' tokens with rfl | ⟨front, token, rfl⟩
  · exact ⟨[], [], rfl, nofun, nofun, rfl⟩
  · rw [List.dropLast_concat] at last
    cases mark : token.kind.isEnd with
    | true => exact ⟨front, [token], rfl, by simpa [Trailing] using mark, last, by
        simp [mark, kept front last]⟩
    | false =>
      have all : ∀ t ∈ front ++ [token], t.kind.isEnd = false := by
        simpa [or_imp, forall_and] using ⟨last, mark⟩
      exact ⟨front ++ [token], [], by simp, nofun, all, kept _ all⟩

/-- A list of tokens, with the mark of the end at most as its last one, nests without errors just
when its brackets are balanced, never more than sixty-four are open, and no path has an empty
segment. The nodes, written out, then say what the tokens say, one by one and in order. -/
theorem ofTokens_grammar (source : SourceText) (tokens : List Token)
    (last : ∀ token ∈ tokens.dropLast, token.kind.isEnd = false) :
    let kinds := (tokens.map Token.kind).filter fun kind => !kind.isEnd
    ((ofTokens source tokens).2.any = false ↔
      Balanced kinds ∧ Shallow 64 kinds ∧
        ∀ kind symbol, .word kind symbol ∈ kinds → Segmented symbol) ∧
    ((ofTokens source tokens).2.any = false →
      List.Forall₂ Piece.Says (flattenAll (ofTokens source tokens).1) kinds) := by
  obtain ⟨inner, ending, rfl, ends, notEnd, kinds⟩ := exists_ending last
  rw [kinds]
  refine ⟨⟨fun clean => ?_, fun ⟨balanced, shallow, words⟩ => ?_⟩, fun clean => ?_⟩
  · have forest := (forest_of_clean notEnd ends clean).1
    exact ⟨forest.balanced, forest.shallow, forest.segmented⟩
  · obtain ⟨nodes, forest⟩ := balanced.exists_forest rfl shallow words notEnd
    rw [(ofTokens_eq_iff notEnd ends).2 forest]
    rfl
  · exact (forest_of_clean notEnd ends clean).1.says_flattenAll

/-- The tokens of `a.b: [x (1)]` and the mark of the end. -/
def sampleTokens : List Token :=
  [.word .set "a.b", .opening .square, .word .plain "x", .opening .round, .text "1",
    .closing .round,
    .closing .square, .endOfText].map fun kind => ⟨kind, Span.point Position.start⟩

theorem ofTokens_grammar_of_sample :
    (∀ token ∈ sampleTokens.dropLast, token.kind.isEnd = false) ∧
      (ofTokens ⟨"sample", []⟩ sampleTokens).2.any = false ∧
      Balanced ((sampleTokens.map Token.kind).filter fun kind => !kind.isEnd) ∧
      List.Forall₂ Piece.Says (flattenAll (ofTokens ⟨"sample", []⟩ sampleTokens).1)
        ((sampleTokens.map Token.kind).filter fun kind => !kind.isEnd) := by
  have last : ∀ token ∈ sampleTokens.dropLast, token.kind.isEnd = false := by decide
  have clean : (ofTokens ⟨"sample", []⟩ sampleTokens).2.any = false := by decide +kernel
  obtain ⟨accepts, kept⟩ := ofTokens_grammar ⟨"sample", []⟩ sampleTokens last
  exact ⟨last, clean, (accepts.1 clean).1, kept clean⟩

end Wordstream.Node
