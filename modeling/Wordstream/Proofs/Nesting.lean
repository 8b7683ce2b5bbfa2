import Wordstream.Node.Nest
import Wordstream.Proofs.Diagnostics

/-!
# Reading sequences

How a sequence of tokens is read, as rules: one for each thing that the next token can be.
Whatever the tokens are, reading them ends, and it ends with no more groups open than it started
with. A group that would be nested too deep is never entered, so the nodes are no deeper than is
allowed, and nothing is reported once too much is wrong.

## Main results

* `Node.Parser.reads_sequence` — a sequence is read by the rules
* `Node.Parser.Reads.depth_eq` — the count of open groups is restored
* `Node.Parser.Reads.height_le` — what is read is no deeper than is allowed
* `Node.Parser.parse_bounded` — reading any list of tokens keeps to the limits
-/

namespace Wordstream.Node

theorem role_eq_ended_iff {token : Token} : role token = .ended ↔ token.kind = .endOfText := by
  cases kind : token.kind <;> simp [role, kind]

theorem role_eq_opening_iff {token : Token} {bracket : Bracket} :
    role token = .opening bracket ↔ token.kind = .opening bracket := by
  cases kind : token.kind <;> simp [role, kind]

theorem role_eq_closing_iff {token : Token} {bracket : Bracket} :
    role token = .closing bracket ↔ token.kind = .closing bracket := by
  cases kind : token.kind <;> simp [role, kind]

/-! ### Depth -/

mutual

/-- How deep groups are nested in a node, itself included. -/
def height : Node → Nat
  | group _ items _ => heights items + 1
  | _ => 0

/-- How deep groups are nested in a list of nodes. -/
def heights : List Node → Nat
  | [] => 0
  | node :: rest => max node.height (heights rest)

end

theorem heights_le_iff {nodes : List Node} {bound : Nat} :
    heights nodes ≤ bound ↔ ∀ node ∈ nodes, node.height ≤ bound := by
  induction nodes with
  | nil => simp [heights]
  | cons node rest ih => rw [heights, Nat.max_le, ih, List.forall_mem_cons]

/-- A word is a path with an empty segment, a path, or no path at all. -/
theorem ofWord_cases (kind : WordKind) (symbol : String) (span : Span) :
    ofWord kind symbol span = .error (.emptySegment symbol) ∨
      (∃ parts, ofWord kind symbol span = .ok (.path kind parts span)) ∨
      ofWord kind symbol span = .ok (.word kind symbol span) := by
  unfold ofWord
  dsimp only
  split
  · split
    · exact Or.inl rfl
    · exact Or.inr (Or.inl ⟨_, rfl⟩)
  · exact Or.inr (Or.inr rfl)

/-- An item has no group in it. -/
theorem height_of_role {token : Token} {node : Node} (stands : role token = .item (.ok node)) :
    node.height = 0 := by
  obtain ⟨kind, span⟩ := token
  cases kind with
  | word kind symbol =>
    have made : ofWord kind symbol span = .ok node := by simpa [role] using stands
    rcases ofWord_cases kind symbol span with empty | ⟨parts, path⟩ | word
    · cases made.symm.trans empty
    · cases made.symm.trans path
      rfl
    · cases made.symm.trans word
      rfl
  | number | text | refinement =>
    cases stands
    rfl
  | opening | closing | endOfText => cases stands

/-- An item that stands for no node is a path with an empty segment. -/
theorem eq_emptySegment_of_role {token : Token} {problem : Problem}
    (fails : role token = .item (.error problem)) :
    ∃ kind symbol, token.kind = .word kind symbol ∧ problem = .emptySegment symbol := by
  obtain ⟨kind, span⟩ := token
  cases kind with
  | word kind symbol =>
    have made : ofWord kind symbol span = .error problem := by simpa [role] using fails
    rcases ofWord_cases kind symbol span with empty | ⟨parts, path⟩ | word
    · cases made.symm.trans empty
      exact ⟨kind, symbol, rfl, rfl⟩
    · cases made.symm.trans path
    · cases made.symm.trans word
  | number | text | refinement | opening | closing | endOfText => cases fails

namespace Parser

/-! ### The rules -/

/-- The tokens that are left are at the end of the text: a mark says so, or there are none, and
then the text ends at `last`. -/
inductive AtEnd (last : Span) : List Token → Span → Prop
  | mark {token : Token} {rest : List Token} (ended : role token = .ended) :
      AtEnd last (token :: rest) token.span
  | nil : AtEnd last [] last

theorem AtEnd.eq_nil_or_mark {last place : Span} {tokens : List Token}
    (atEnd : AtEnd last tokens place) :
    tokens = [] ∨ ∃ mark rest, tokens = mark :: rest ∧ mark.kind = .endOfText := by
  cases atEnd with
  | mark ended => exact Or.inr ⟨_, _, rfl, role_eq_ended_iff.1 ended⟩
  | nil => exact Or.inl rfl

/-- How a sequence is read. The rules speak of the bracket that closes it, where it was opened,
the nodes read so far, the parser, and what comes of it. -/
inductive Reads (source : SourceText) (last : Span) :
    Option Bracket → Span → List Node → Parser → Parsed → Prop
  /-- Too much is wrong to read on. -/
  | full {closer : Option Bracket} {opened : Span} {items : List Node} {p : Parser}
      (full : p.found.full) : Reads source last closer opened items p ⟨items.reverse, opened, p⟩
  /-- The text ends. -/
  | ended {closer : Option Bracket} {opened : Span} {items : List Node} {p : Parser} {place : Span}
      (room : p.found.full = false) (atEnd : AtEnd last p.rest place) :
      Reads source last closer opened items p
        ⟨items.reverse, place, p.reportMissing source closer opened⟩
  /-- The sequence is closed. -/
  | closed {bracket : Bracket} {opened : Span} {items : List Node} {token : Token}
      {rest : List Token} {depth : Nat} {found : Diagnostics} (room : found.full = false)
      (closes : role token = .closing bracket) :
      Reads source last (some bracket) opened items ⟨token :: rest, depth, found⟩
        ⟨items.reverse, token.span, ⟨rest, depth, found⟩⟩
  /-- A closing bracket that does not belong here is left out. -/
  | stray {closer : Option Bracket} {bracket : Bracket} {opened : Span} {items : List Node}
      {token : Token} {rest : List Token} {depth : Nat} {found : Diagnostics} {r : Parsed}
      (room : found.full = false) (closes : role token = .closing bracket)
      (other : closer ≠ some bracket)
      (more : Reads source last closer opened items (report source ⟨rest, depth, found⟩
        (.unexpectedClose bracket.closing) token.span) r) :
      Reads source last closer opened items ⟨token :: rest, depth, found⟩ r
  /-- A group that is nested too deep is left out. -/
  | deep {closer : Option Bracket} {bracket : Bracket} {opened : Span} {items : List Node}
      {token : Token} {rest : List Token} {depth : Nat} {found : Diagnostics} {r : Parsed}
      (room : found.full = false) (opens : role token = .opening bracket) (deep : maxDepth ≤ depth)
      (more : Reads source last closer opened items (report source
        ⟨behindGroup 1 rest, depth, found⟩ (.nestedTooDeep maxDepth) token.span) r) :
      Reads source last closer opened items ⟨token :: rest, depth, found⟩ r
  /-- A group is read as a sequence of its own. -/
  | group {closer : Option Bracket} {bracket : Bracket} {opened : Span} {items : List Node}
      {token : Token} {rest : List Token} {depth : Nat} {found : Diagnostics} {inside r : Parsed}
      (room : found.full = false) (opens : role token = .opening bracket)
      (shallow : depth < maxDepth)
      (inner : Reads source last (some bracket) token.span [] ⟨rest, depth + 1, found⟩ inside)
      (more : Reads source last closer opened
        (.group bracket inside.nodes (token.span.merge inside.close) :: items)
        ⟨inside.behind.rest, inside.behind.depth - 1, inside.behind.found⟩ r) :
      Reads source last closer opened items ⟨token :: rest, depth, found⟩ r
  /-- An item stands for a node. -/
  | item {closer : Option Bracket} {opened : Span} {items : List Node} {token : Token}
      {rest : List Token} {depth : Nat} {found : Diagnostics} {node : Node} {r : Parsed}
      (room : found.full = false) (stands : role token = .item (.ok node))
      (more : Reads source last closer opened (node :: items) ⟨rest, depth, found⟩ r) :
      Reads source last closer opened items ⟨token :: rest, depth, found⟩ r
  /-- An item that stands for no node is left out. -/
  | flawed {closer : Option Bracket} {opened : Span} {items : List Node} {token : Token}
      {rest : List Token} {depth : Nat} {found : Diagnostics} {problem : Problem} {r : Parsed}
      (room : found.full = false) (fails : role token = .item (.error problem))
      (more : Reads source last closer opened items (report source ⟨rest, depth, found⟩ problem
        token.span) r) :
      Reads source last closer opened items ⟨token :: rest, depth, found⟩ r

/-- A sequence is read by the rules. -/
theorem reads_sequence (source : SourceText) (last : Span) (closer : Option Bracket) (opened : Span)
    (items : List Node) (p : Parser) :
    Reads source last closer opened items p (sequence source last closer opened items p).1 := by
  fun_induction sequence source last closer opened items p with
  | case1 closer opened items p full => exact .full full
  | case2 closer opened items depth found room => exact .ended (Bool.eq_false_iff.2 room) .nil
  | case3 closer opened items token rest depth found ended room =>
    exact .ended (Bool.eq_false_iff.2 room) (.mark ended)
  | case4 opened items token rest depth found bracket closes room =>
    exact .closed (Bool.eq_false_iff.2 room) closes
  | case5 closer opened items token rest depth found bracket closes other more room ih =>
    exact .stray (Bool.eq_false_iff.2 room) closes other ih
  | case6 closer opened items token rest depth found bracket opens deep more room ih =>
    exact .deep (Bool.eq_false_iff.2 room) opens deep ih
  | case7 closer opened items token rest depth found bracket opens shallow inside node more room
      inner _ further =>
    exact .group (Bool.eq_false_iff.2 room) opens (Nat.lt_of_not_le shallow) inner further
  | case8 closer opened items token rest depth found node stands more room ih =>
    exact .item (Bool.eq_false_iff.2 room) stands ih
  | case9 closer opened items token rest depth found problem fails more room ih =>
    exact .flawed (Bool.eq_false_iff.2 room) fails ih

section Limits

variable {source : SourceText} {last : Span} {closer : Option Bracket} {opened : Span}
  {items : List Node} {p : Parser} {r : Parsed}

/-- The rules leave no choice: what they give is what is read. -/
theorem Reads.eq_sequence (reads : Reads source last closer opened items p r) :
    (sequence source last closer opened items p).1 = r := by
  induction reads with
  | full full => rw [sequence.eq_def, if_pos full]
  | @ended closer opened items p place room atEnd =>
    obtain ⟨rest, depth, found⟩ := p
    cases atEnd with
    | mark ended => simp_all [sequence]
    | nil => simp_all [sequence]
  | closed room closes => simp [sequence, room, closes]
  | stray room closes other _ ih => simp [sequence, room, closes, other, ih]
  | deep room opens deep _ ih => simp [sequence, room, opens, deep, ih]
  | group room opens shallow _ _ inner further =>
    -- What the rules give for the group is put into the rest of the sequence.
    subst inner further
    simp [sequence, room, opens, Nat.not_le.2 shallow]
  | item room stands _ ih => simp [sequence, room, stands, ih]
  | flawed room fails _ ih => simp [sequence, room, fails, ih]

@[simp]
theorem depth_reportMissing : (p.reportMissing source closer opened).depth = p.depth := by
  cases closer <;> rfl

/-! ### What reading keeps to -/

/-- As many groups are open behind a sequence as before it. -/
theorem Reads.depth_eq (reads : Reads source last closer opened items p r) :
    r.behind.depth = p.depth := by
  induction reads with
  | full => rfl
  | ended => exact depth_reportMissing
  | closed => rfl
  | stray _ _ _ _ ih | deep _ _ _ _ ih | item _ _ _ ih | flawed _ _ _ ih => exact ih
  | group _ _ _ _ _ inner further =>
    rw [further, inner]
    rfl

/-- What is left behind a sequence is left of the tokens before it. -/
theorem behindGroup_isSuffix (opened : Nat) (tokens : List Token) :
    behindGroup opened tokens <:+ tokens := by
  fun_induction behindGroup opened tokens with
  | case1 => exact List.suffix_refl _
  | case2 _ _ _ _ _ ih | case4 _ _ _ _ _ _ ih | case6 _ _ _ _ _ ih =>
    exact ih.trans (List.suffix_cons _ _)
  | case3 | case5 => exact List.suffix_cons _ _

theorem Reads.isSuffix (reads : Reads source last closer opened items p r) :
    r.behind.rest <:+ p.rest := by
  induction reads with
  | full => exact List.suffix_refl _
  | ended => exact ⟨[], rest_reportMissing ..⟩
  | closed => exact List.suffix_cons _ _
  | stray _ _ _ _ ih | item _ _ _ ih | flawed _ _ _ ih => exact ih.trans (List.suffix_cons _ _)
  | deep _ _ _ _ ih =>
    exact ih.trans ((behindGroup_isSuffix _ _).trans (List.suffix_cons _ _))
  | group _ _ _ _ _ inner further => exact further.trans (inner.trans (List.suffix_cons _ _))

/-- The sequence at the top level is read until too much is wrong or the text ends. -/
theorem Reads.full_or_atEnd (reads : Reads source last closer opened items p r)
    (top : closer = none) : r.behind.found.full ∨ AtEnd last r.behind.rest r.close := by
  induction reads with
  | full full => exact Or.inl full
  | ended _ atEnd => exact Or.inr (by rwa [rest_reportMissing])
  | closed => cases top
  | stray _ _ _ _ ih | deep _ _ _ _ ih | item _ _ _ ih | flawed _ _ _ ih => exact ih top
  | group _ _ _ _ _ _ further => exact further top

/-- Reading only adds to what was found. -/
theorem Reads.total_le (reads : Reads source last closer opened items p r) :
    p.found.total ≤ r.behind.found.total := by
  induction reads with
  | full | closed => exact Nat.le_refl _
  | @ended closer opened items p place room atEnd =>
    cases closer with
    | none => exact Nat.le_refl _
    | some bracket => exact Nat.le_succ _
  | stray _ _ _ _ ih | deep _ _ _ _ ih | flawed _ _ _ ih => exact Nat.le_trans (Nat.le_succ _) ih
  | group _ _ _ _ _ inner further => exact Nat.le_trans inner further
  | item _ _ _ ih => exact ih

/-- Nothing is reported once too much is wrong, so every diagnostic is stored. -/
theorem Reads.complete (reads : Reads source last closer opened items p r)
    (complete : p.found.Complete) : r.behind.found.Complete := by
  induction reads with
  | full => exact complete
  | @ended closer opened items p place room atEnd =>
    cases closer with
    | none => exact complete
    | some bracket => exact complete.push room _
  | closed => exact complete
  | stray room _ _ _ ih | deep room _ _ _ ih | flawed room _ _ ih => exact ih (complete.push room _)
  | group _ _ _ _ _ inner further => exact further (inner complete)
  | item _ _ _ ih => exact ih complete

/-- What is read is no deeper than is allowed. Within a group, less is left of what is allowed. -/
theorem Reads.height_le (reads : Reads source last closer opened items p r)
    (within : p.depth ≤ maxDepth) (bounded : ∀ node ∈ items, node.height + p.depth ≤ maxDepth) :
    ∀ node ∈ r.nodes, node.height + p.depth ≤ maxDepth := by
  induction reads with
  | full | ended | closed => simpa using bounded
  | stray _ _ _ _ ih | deep _ _ _ _ ih | flawed _ _ _ ih => exact ih within bounded
  | item _ stands _ ih =>
    refine ih within (List.forall_mem_cons.2 ⟨?_, bounded⟩)
    rw [height_of_role stands, Nat.zero_add]
    exact within
  | @group closer bracket opened items token rest depth found inside r room opens shallow inner more
      innerIh furtherIh =>
    -- The group takes one level of what is allowed, and behind it the count is what it was.
    have restored : inside.behind.depth - 1 = depth := by
      rw [inner.depth_eq]
      rfl
    have insideBound := innerIh shallow (by simp)
    have groupBound : heights inside.nodes + 1 + depth ≤ maxDepth := by
      have each : ∀ node ∈ inside.nodes, node.height ≤ maxDepth - (depth + 1) :=
        fun node mem => Nat.le_sub_of_add_le (insideBound node mem)
      have all := heights_le_iff.2 each
      simp only at within
      omega
    simp only [restored] at furtherIh
    exact furtherIh within (List.forall_mem_cons.2 ⟨groupBound, bounded⟩)

end Limits

/-- Reading any list of tokens comes to an end and keeps to the limits. The nodes are nested at
most sixty-four deep, at most twenty problems are reported in all and none of them is dropped, and
no group is counted as open at the end. What is left unread is a last stretch of the tokens, and
there is a reason not to read it: too much is wrong, there is nothing, or it starts with a mark of
the end. -/
theorem parse_bounded (source : SourceText) (tokens : List Token) :
    (∀ node ∈ (parse source tokens).nodes, node.height ≤ 64) ∧
    (parse source tokens).behind.found.total ≤ 20 ∧
    (parse source tokens).behind.found.stored.length = (parse source tokens).behind.found.total ∧
    (parse source tokens).behind.depth = 0 ∧
    (parse source tokens).behind.rest <:+ tokens ∧
    ((parse source tokens).behind.found.full ∨ (parse source tokens).behind.rest = [] ∨
      ∃ mark rest, (parse source tokens).behind.rest = mark :: rest ∧ mark.kind = .endOfText) := by
  obtain ⟨last, reads⟩ : ∃ last, Reads source last none (Span.point Position.start) []
      ⟨tokens, 0, .empty⟩ (parse source tokens) := ⟨_, reads_sequence ..⟩
  have complete := reads.complete ⟨rfl, Nat.zero_le _⟩
  exact ⟨reads.height_le (Nat.zero_le _) (by simp), complete.few, complete.stored, reads.depth_eq,
    reads.isSuffix, (reads.full_or_atEnd rfl).imp_right AtEnd.eq_nil_or_mark⟩

/-- Of seventy open brackets the first sixty-four become groups. -/
example : heights (parse ⟨"open", []⟩ (List.replicate 70 ⟨.opening .round, default⟩)).nodes =
    64 := by
  decide +kernel

end Parser

end Wordstream.Node
