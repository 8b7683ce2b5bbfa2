import Wordstream.Proofs.Composition

/-!
# Spans nest

The spans of nodes are put together from those of tokens: a leaf has the span of its token, and a
group reaches from its opening bracket to its closing one. In a text that can be read, tokens
follow each other in reading order, so the nodes of a list do too, and what is in a group lies
between its brackets.

A group anywhere in the tree is the forest of the tokens between two brackets that belong
together. What is shown of the top level therefore holds within every group.

## Main results

* `Token.Tiles.bracket` — a bracket is a token of one character
* `Node.Forest.of_mem_preorders` — every group stands between two brackets that belong together
* `Node.merge_brackets` — the span of a group, and that what is in it lies strictly inside
* `Node.Forest.precedes` — the nodes of a list follow each other
* `Node.parse_spans` — the spans of a text that can be read nest
-/

namespace Wordstream

/-! ### Reading order -/

theorem Position.before_of_not_before_of_before {a b c : Position} (ab : ¬ b.before a)
    (bc : b.before c) : a.before c := by
  rw [before_iff] at *
  omega

namespace Span

/-- A span starts no later than it ends. -/
def Proper (span : Span) : Prop := ¬ span.last.before span.first

/-- One span lies before another: they have no place in common, and both ends of the second are
further on. -/
structure Precedes (a b : Span) : Prop where
  first : a.first.before b.first
  last : a.last.before b.last
  disjoint : ∀ place, ¬ (a.covers place ∧ b.covers place)

/-- One span lies inside of another and reaches neither of its ends. -/
structure Within (inner outer : Span) : Prop where
  first : outer.first.before inner.first
  last : inner.last.before outer.last

variable {a b : Span}

/-- A span that ends before another starts precedes it. -/
theorem precedes_of_before (properA : a.Proper) (properB : b.Proper)
    (apart : a.last.before b.first) : a.Precedes b where
  first := Position.before_of_not_before_of_before properA apart
  last := Position.before_of_before_of_not_before apart properB
  disjoint place both := by
    obtain ⟨inA, inB⟩ := both
    have late := Position.before_of_before_of_not_before apart (covers_iff.1 inB).1
    exact (covers_iff.1 inA).2 late

/-- Two spans in a row are covered from the start of the one to the end of the other. -/
theorem merge_eq (properA : a.Proper) (properB : b.Proper) (apart : a.last.before b.first) :
    a.merge b = ⟨a.first, b.last⟩ := by
  obtain ⟨first, last, -⟩ := precedes_of_before properA properB apart
  have later : ¬ b.first.before a.first := fun back =>
    Position.before_irrefl _ (Position.before_trans first back)
  rw [merge, if_neg later, if_pos last]

end Span

/-! ### Brackets -/

/-- The bracket that a token is. -/
def TokenKind.bracket? : TokenKind → Option String
  | .opening bracket => some bracket.opening
  | .closing bracket => some bracket.closing
  | _ => none

namespace Lexeme

/-- A bracket is a lexeme of one character. -/
theorem read_bracket {c : Char} {cs tail : List Char} {kind : TokenKind} {text : String}
    (reads : read c cs = sound tail kind) (bracket : kind.bracket? = some text) :
    tail = [] ∧ text.toList = [c] := by
  have written := written_of_token (congrArg Lexeme.token reads)
  rw [reads] at written
  cases kind with
  | opening b | closing b =>
    cases bracket
    cases b <;> cases written <;> exact ⟨rfl, rfl⟩
  | _ => cases bracket

end Lexeme

namespace Token

/-- Tokens that follow each other in reading order. -/
structure InOrder (tokens : List Token) : Prop where
  apart : tokens.Pairwise fun a b => a.span.last.before b.span.first
  proper : ∀ token ∈ tokens, token.span.Proper

theorem InOrder.sublist {tokens tokens' : List Token} (order : InOrder tokens)
    (fewer : tokens'.Sublist tokens) : InOrder tokens' :=
  ⟨order.apart.sublist fewer, fun token mem => order.proper token (fewer.subset mem)⟩

namespace Tiles

variable {here : Position} {cs : List Char} {lexed : List Token} (tiles : Tiles here cs lexed)
  (pos : 0 < here.column)
include tiles pos

/-- The tokens of a text follow each other. -/
theorem inOrder : InOrder lexed := by
  refine ⟨tiles.pairwise_before pos, fun token mem => ?_⟩
  obtain ⟨before, lexeme, after, -, stands⟩ := tiles.standsFor token mem
  rw [stands.span, Span.upTo_eq (Position.column_pos_after pos before) stands.nonempty stands.line]
  exact Position.not_after_before _ _

/-- A bracket is a token of one character, which stands at the place of the token. -/
theorem bracket {token : Token} (mem : token ∈ lexed) {text : String}
    (bracket : token.kind.bracket? = some text) :
    ∃ before c after, cs = before ++ c :: after ∧ text.toList = [c] ∧
      token.span = Span.point (here.after before) ∧ c ≠ '\n' := by
  induction tiles with
  | gap => cases mem
  | @lexeme here gap tail rest c kind lexed skips reads notEnd more ih =>
    rcases List.mem_cons.1 mem with rfl | mem
    · have stands := @standsFor_lexeme here _ _ _ _ _ skips reads notEnd
      obtain ⟨rfl, one⟩ := Lexeme.read_bracket reads bracket
      refine ⟨gap, c, rest, by simp, one, ?_, by simpa using stands.line⟩
      exact Span.upTo_eq (Position.column_pos_after pos gap) stands.nonempty stands.line
    · obtain ⟨before, d, after, rfl, one, span, line⟩ :=
        ih (Position.column_pos_after (Position.column_pos_after pos gap) _) mem
      refine ⟨gap ++ c :: tail ++ before, d, after, by simp, one, ?_, line⟩
      simpa [Position.after_append] using span

end Tiles

/-- What a text has at the place of a bracket is that bracket. -/
theorem Tiles.slice_bracket {source : SourceText} {lexed : List Token}
    (tiles : Tiles Position.start source.chars lexed) {kind : TokenKind} {span : Span}
    (mem : ⟨kind, span⟩ ∈ lexed) {text : String} (bracket : kind.bracket? = some text) :
    ∃ place, span = Span.point place ∧ (Span.point place).slice source.chars = text.toList := by
  obtain ⟨before, c, after, split, one, point, line⟩ := tiles.bracket Nat.zero_lt_one mem bracket
  have column : 0 < (Position.start.after before).column :=
    Position.column_pos_after Nat.zero_lt_one before
  have last : [c].getLast? ≠ some '\n' := by simpa using line
  refine ⟨_, point, ?_⟩
  have sliced := @Span.slice_placed _ column [c] (List.cons_ne_nil c []) last before after
    Position.start rfl
  rw [Span.upTo_eq column (List.cons_ne_nil c []) last, ← List.append_cons, ← split] at sliced
  exact sliced.trans one.symm

end Token

/-! ### Nodes -/

namespace Node

theorem span_of_leaf? {token : Token} {node : Node} (stands : leaf? token = some node) :
    node.span = token.span := by
  obtain ⟨kind, span⟩ := token
  cases kind with
  | opening | closing | endOfText => cases stands
  | number | text | refinement =>
    cases stands
    rfl
  | word kind symbol =>
    simp only [leaf?, ofWord] at stands
    split at stands
    · split at stands <;> cases stands
      rfl
    · cases stands
      rfl

/-- A leaf is no group. -/
theorem preorder_of_leaf? {token : Token} {node : Node} (stands : leaf? token = some node)
    (level : Nat) : preorder level node = [(level, node)] := by
  cases node with
  | group bracket items span =>
    have leaf := (says_of_leaf? stands).1
    simp [flatten] at leaf
  | word | path | number | text | refinement => rfl

variable {depth : Nat} {tokens : List Token} {nodes : List Node}

/-- A group anywhere in a forest stands between two brackets that belong together: the tokens
between them are a forest of their own, and its nodes are those of the group. -/
theorem Forest.of_mem_preorders (forest : Forest depth tokens nodes) {level level' : Nat}
    {bracket : Bracket} {items : List Node} {span : Span}
    (mem : (level', .group bracket items span) ∈ preorders level nodes) :
    ∃ before inside after opened closed depth',
      tokens = before ++ ⟨.opening bracket, opened⟩ ::
        (inside ++ ⟨.closing bracket, closed⟩ :: after) ∧
        Forest depth' inside items ∧ span = opened.merge closed := by
  -- The tokens in front of the brackets and behind them are put together on the way back.
  induction forest generalizing level with
  | nil => cases mem
  | @leaf _ token node tokens nodes stands more ih =>
    rw [preorders, preorder_of_leaf? stands] at mem
    rcases List.mem_cons.1 mem with same | mem
    · have leaf := (says_of_leaf? stands).1
      rw [← (Prod.mk.inj same).2] at leaf
      simp [flatten] at leaf
    · obtain ⟨before, inside, after, opened, closed, depth', split, found⟩ := ih mem
      exact ⟨token :: before, inside, after, opened, closed, depth', by rw [split]; rfl, found⟩
  | @group depth bracket' opened closed inside rest items' nodes inner more insideIh restIh =>
    rw [preorders, preorder, List.cons_append, List.mem_cons, List.mem_append] at mem
    rcases mem with same | mem | mem
    · cases same
      exact ⟨[], inside, rest, opened, closed, depth, rfl, inner, rfl⟩
    · obtain ⟨before, inside', after, opened', closed', depth', rfl, found⟩ := insideIh mem
      exact ⟨⟨.opening bracket', opened⟩ :: before, inside', after ++ ⟨.closing bracket', closed⟩ ::
        rest, opened', closed', depth', by simp, found⟩
    · obtain ⟨before, inside', after, opened', closed', depth', rfl, found⟩ := restIh mem
      exact ⟨⟨.opening bracket', opened⟩ :: (inside ++ ⟨.closing bracket', closed⟩ :: before),
        inside', after, opened', closed', depth', by simp, found⟩

/-- What comes behind a group. -/
theorem sublist_behind (opened : Token) (inside : List Token) (closed : Token) (rest : List Token) :
    rest.Sublist (opened :: (inside ++ closed :: rest)) :=
  ((List.sublist_cons_self _ _).trans (List.sublist_append_right _ _)).cons _

section InOrder

variable (order : Token.InOrder tokens)
include order

/-- The brackets of a group and what is between them. -/
theorem merge_brackets {before inside after : List Token} {opened closed : Token}
    (split : tokens = before ++ opened :: (inside ++ closed :: after)) :
    opened.span.merge closed.span = ⟨opened.span.first, closed.span.last⟩ ∧
      Span.Proper ⟨opened.span.first, closed.span.last⟩ ∧
      ∀ token ∈ inside, token.span.Within ⟨opened.span.first, closed.span.last⟩ := by
  subst split
  have properOpened := order.proper opened (by simp)
  have properClosed := order.proper closed (by simp)
  obtain ⟨-, behind, -⟩ := List.pairwise_append.1 order.apart
  obtain ⟨openedBefore, behind⟩ := List.pairwise_cons.1 behind
  obtain ⟨-, -, insideBefore⟩ := List.pairwise_append.1 behind
  have apart := openedBefore closed (by simp)
  refine ⟨Span.merge_eq properOpened properClosed apart, fun back => ?_, fun token mem => ?_⟩
  · have precedes := Span.precedes_of_before properOpened properClosed apart
    exact properOpened (Position.before_trans precedes.last back)
  · exact ⟨Position.before_of_not_before_of_before properOpened
      (openedBefore token (by simp [mem])),
      Position.before_of_before_of_not_before (insideBefore token mem closed (by simp))
      properClosed⟩

/-- A node reaches from the start of one of its tokens to the end of another. -/
theorem Forest.exists_ends (forest : Forest depth tokens nodes) :
    ∀ node ∈ nodes, node.span.Proper ∧ ∃ first ∈ tokens, ∃ last ∈ tokens,
      node.span = ⟨first.span.first, last.span.last⟩ := by
  induction forest with
  | nil => simp
  | @leaf _ token node tokens nodes stands more ih =>
    refine List.forall_mem_cons.2 ⟨?_, fun node mem => ?_⟩
    · rw [span_of_leaf? stands]
      exact ⟨order.proper token List.mem_cons_self, token, List.mem_cons_self, token,
        List.mem_cons_self, rfl⟩
    · obtain ⟨proper, first, firstMem, last, lastMem, ends⟩ :=
        ih (order.sublist (List.sublist_cons_self _ _)) node mem
      exact ⟨proper, first, List.mem_cons_of_mem _ firstMem, last,
        List.mem_cons_of_mem _ lastMem, ends⟩
  | @group depth bracket opened closed inside rest items nodes inner more insideIh restIh =>
    obtain ⟨merged, proper, -⟩ := @merge_brackets _ order [] inside rest _ _ rfl
    refine List.forall_mem_cons.2 ⟨?_, fun node mem => ?_⟩
    · refine ⟨merged ▸ proper, ⟨.opening bracket, opened⟩, by simp, ⟨.closing bracket, closed⟩,
        by simp, ?_⟩
      exact merged
    · have fewer := sublist_behind ⟨.opening bracket, opened⟩ inside ⟨.closing bracket, closed⟩ rest
      obtain ⟨proper, first, firstMem, last, lastMem, ends⟩ := restIh (order.sublist fewer) node mem
      exact ⟨proper, first, fewer.subset firstMem, last, fewer.subset lastMem, ends⟩

/-- The nodes of a list follow each other. -/
theorem Forest.precedes (forest : Forest depth tokens nodes) :
    nodes.Pairwise fun a b => a.span.Precedes b.span := by
  have proper := fun node mem => (forest.exists_ends order node mem).1
  -- It is enough that each node ends before the next ones start: the rest is a matter of proper
  -- spans.
  suffices apart : nodes.Pairwise fun a b => a.span.last.before b.span.first from
    apart.imp_of_mem fun memA memB => Span.precedes_of_before (proper _ memA) (proper _ memB)
  clear proper
  induction forest with
  | nil => exact .nil
  | @leaf _ token node tokens nodes stands more ih =>
    have later := order.sublist (List.sublist_cons_self token tokens)
    refine List.pairwise_cons.2 ⟨fun node' mem => ?_, ih later⟩
    obtain ⟨-, first, firstMem, last, -, ends⟩ := more.exists_ends later node' mem
    rw [span_of_leaf? stands, ends]
    exact (List.pairwise_cons.1 order.apart).1 first firstMem
  | @group depth bracket opened closed inside rest items nodes inner more insideIh restIh =>
    obtain ⟨merged, -, -⟩ := @merge_brackets _ order [] inside rest _ _ rfl
    have behind := (List.pairwise_append.1 (List.pairwise_cons.1 order.apart).2).2.1
    have fewer := sublist_behind ⟨.opening bracket, opened⟩ inside ⟨.closing bracket, closed⟩ rest
    refine List.pairwise_cons.2 ⟨fun node mem => ?_, restIh (order.sublist fewer)⟩
    obtain ⟨-, first, firstMem, last, -, ends⟩ := more.exists_ends (order.sublist fewer) node mem
    change (opened.merge closed).last.before node.span.first
    rw [merged, ends]
    exact (List.pairwise_cons.1 behind).1 first firstMem

end InOrder

/-- The spans of a text that can be read nest. The nodes of the top level follow each other. A
group anywhere below starts at its opening bracket and ends at the closing one that belongs to it,
the tokens between the two being balanced; the nodes in it lie strictly between its brackets, and
they follow each other too. -/
theorem parse_spans (source : SourceText) (nodes : List Node) (parsed : parse source = .ok nodes) :
    nodes.Pairwise (fun a b => a.span.Precedes b.span) ∧
    ∀ level bracket items span, (level, .group bracket items span) ∈ preorders 0 nodes →
      (Span.point span.first).slice source.chars = bracket.opening.toList ∧
      (Span.point span.last).slice source.chars = bracket.closing.toList ∧
      (∃ before inside after opened closed, (Token.scan source).1 =
          before ++ ⟨.opening bracket, opened⟩ :: (inside ++ ⟨.closing bracket, closed⟩ :: after) ∧
        Balanced (inside.map Token.kind) ∧ span = ⟨opened.first, closed.last⟩) ∧
      (∀ child ∈ items, child.span.Within span) ∧
      items.Pairwise (fun a b => a.span.Precedes b.span) := by
  obtain ⟨lexed, tiles, forest⟩ := parse_eq_ok_iff.1 parsed
  have order := tiles.inOrder Nat.zero_lt_one
  refine ⟨forest.precedes order, fun level bracket items span mem => ?_⟩
  obtain ⟨before, inside, after, opened, closed, depth, split, inner, merged⟩ :=
    forest.of_mem_preorders mem
  obtain ⟨ends, -, between⟩ := merge_brackets order split
  have scanned : (Token.scan source).1 =
      lexed ++ [Token.endAt (Position.start.after source.chars)] :=
    congrArg Prod.fst (tiles.tokens_eq source rfl)
  have fewer : inside.Sublist lexed := by
    rw [split]
    exact ((List.sublist_append_left _ _).cons _).trans (List.sublist_append_right _ _)
  -- Each bracket is a token of one character, and the group reaches from one to the other.
  obtain ⟨first, rfl, firstSlice⟩ := @Token.Tiles.slice_bracket _ _ tiles (.opening bracket) opened
    (by simp [split]) _ rfl
  obtain ⟨last, rfl, lastSlice⟩ := @Token.Tiles.slice_bracket _ _ tiles (.closing bracket) closed
    (by simp [split]) _ rfl
  obtain rfl : span = ⟨first, last⟩ := merged.trans ends
  refine ⟨firstSlice, lastSlice, ?_, fun child mem => ?_, inner.precedes (order.sublist fewer)⟩
  · refine ⟨before, inside, after ++ [Token.endAt (Position.start.after source.chars)],
      .point first, .point last, ?_, inner.balanced, rfl⟩
    rw [scanned, split]
    simp
  · obtain ⟨-, a, memA, b, memB, reach⟩ := inner.exists_ends (order.sublist fewer) child mem
    rw [reach]
    exact ⟨(between a memA).first, (between b memB).last⟩

/-- The groups of a tree, with their depths and spans. -/
def groupSpans (nodes : List Node) : List (Nat × Bracket × Span) :=
  (preorders 0 nodes).filterMap fun
    | (level, .group bracket _ span) => some (level, bracket, span)
    | _ => none

theorem exists_of_mem_groupSpans {nodes : List Node} {level : Nat} {bracket : Bracket} {span : Span}
    (mem : (level, bracket, span) ∈ groupSpans nodes) :
    ∃ items, (level, .group bracket items span) ∈ preorders 0 nodes := by
  obtain ⟨entry, there, found⟩ := List.mem_filterMap.1 mem
  split at found
  · cases found
    exact ⟨_, there⟩
  · cases found

/-- A text over three lines: a group within another, and in it a text that goes over a line feed
behind a letter beyond ASCII. -/
def nestedText : SourceText := .ofString "nested" "x [a\n (\"é\n\" b)]()"

/-- The inner group lies between its brackets, on two lines, and what is in it strictly between
them. -/
theorem parse_spans_of_nestedText :
    ∃ nodes items, parse nestedText = .ok nodes ∧
      (1, .group .round items ⟨⟨2, 2⟩, ⟨3, 4⟩⟩) ∈ preorders 0 nodes ∧
      nodes.Pairwise (fun a b => a.span.Precedes b.span) ∧
      (Span.point ⟨2, 2⟩).slice nestedText.chars = ['('] ∧
      (Span.point ⟨3, 4⟩).slice nestedText.chars = [')'] ∧
      ∀ child ∈ items, child.span.Within ⟨⟨2, 2⟩, ⟨3, 4⟩⟩ := by
  have groups : (parse nestedText).toOption.map groupSpans =
      some [(0, .square, ⟨⟨1, 3⟩, ⟨3, 5⟩⟩), (1, .round, ⟨⟨2, 2⟩, ⟨3, 4⟩⟩),
        (0, .round, ⟨⟨3, 6⟩, ⟨3, 7⟩⟩)] := by decide +kernel
  cases parsed : parse nestedText with
  | error found =>
    rw [parsed] at groups
    cases groups
  | ok nodes =>
    rw [parsed] at groups
    have spans := Option.some.inj groups
    obtain ⟨items, mem⟩ : ∃ items, (1, .group .round items ⟨⟨2, 2⟩, ⟨3, 4⟩⟩) ∈ preorders 0 nodes :=
      exists_of_mem_groupSpans (by rw [spans]; simp)
    obtain ⟨follow, nested⟩ := parse_spans nestedText nodes parsed
    obtain ⟨opening, closing, -, within, -⟩ := nested _ _ _ _ mem
    exact ⟨nodes, items, rfl, mem, follow, opening, closing, within⟩

end Node

end Wordstream
