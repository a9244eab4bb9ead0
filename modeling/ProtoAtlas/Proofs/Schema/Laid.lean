/-
# How nodes lie on tokens

A node lies on the tokens it was read from (`Node.Laid`): its span runs from the first to
the last of them, its names and types are written on stretches of them that follow each
other (`Row`), and behind these the nodes inside it lie on stretches that follow each other.

What a node has on the tokens read so far is its draft (`Node.Draft`).  It grows by tokens
that are only passed, by names and then by options in brackets, and is complete once the
members and the span of the node are known.
-/

import ProtoAtlas.Proofs.Schema.Node

namespace ProtoAtlas

/-! ### Names on tokens -/

namespace Token

/-- Identifiers and dots, with an identifier last. -/
structure IsPath (v : List Token) : Prop where
  kinds : ∀ t ∈ v, t.kind = .identifier ∨ t.kind = .dot
  last : ∃ t, v.getLast? = some t ∧ t.kind = .identifier

end Token

/-- A text is written in a way on some tokens. -/
def Spelling.Fits : Spelling → List Token → Text → Prop
  | .word, v, name => ∃ t, v = [t] ∧ t.kind = .identifier ∧ name = t.text
  | .path, v, name => Token.IsPath v ∧ name = v.flatMap Token.text
  | .other, _, _ => True

/-- A name is written on a stretch of some tokens. -/
def Spelled (w : List Token) (p : Spelling × Name) : Prop :=
  ∃ v, v <:+: w ∧ Token.Covers v p.2.span ∧ p.1.Fits v p.2.text

theorem Spelled.mono {v w : List Token} {p : Spelling × Name} (h : Spelled v p) (sub : v <:+: w) :
    Spelled w p := by
  obtain ⟨u, hu, covers, fits⟩ := h
  exact ⟨u, hu.trans sub, covers, fits⟩

theorem Spelled.ne_nil {w : List Token} {p : Spelling × Name} (h : Spelled w p) : w ≠ [] := by
  rintro rfl
  obtain ⟨u, hu, covers, -⟩ := h
  obtain ⟨t, head, -⟩ := covers.first
  rw [List.infix_nil.1 hu] at head
  cases head

theorem spelled_word {t : Token} (h : t.kind = .identifier) :
    Spelled [t] (.word, ⟨t.text, t.span⟩) :=
  ⟨[t], List.infix_rfl, Token.covers_singleton t, t, rfl, h, rfl⟩

/-! ### Rows -/

/-- Things that lie on stretches of some tokens, one behind the other. -/
inductive Row {α : Type} (P : List Token → α → Prop) : List Token → List α → Prop
  | nil (w : List Token) : Row P w []
  | cons (u : List Token) {v w : List Token} {a : α} {as : List α} (here : P v a)
      (rest : Row P w as) : Row P (u ++ (v ++ w)) (a :: as)

namespace Row

variable {α β : Type} {P : List Token → α → Prop} {Q : List Token → β → Prop}
variable {v w : List Token} {as bs : List α}

theorem skip (u : List Token) (h : Row P w as) : Row P (u ++ w) as := by
  cases h with
  | nil => exact .nil _
  | cons u' here rest =>
    rw [← List.append_assoc]
    exact .cons (u ++ u') here rest

theorem single {a : α} (h : P v a) : Row P v [a] := by
  have one : Row P ([] ++ (v ++ [])) [a] := .cons [] h (.nil [])
  rwa [List.nil_append, List.append_nil] at one

theorem append (h : Row P v as) (h' : Row P w bs) : Row P (v ++ w) (as ++ bs) := by
  induction h with
  | nil v => exact h'.skip v
  | cons u here _ ih =>
    rw [List.append_assoc, List.append_assoc, List.cons_append]
    exact .cons u here ih

theorem pass (h : Row P v as) (w : List Token) : Row P (v ++ w) as := by
  have both := h.append (.nil w)
  rwa [List.append_nil] at both

theorem map {g : α → β} (h : Row (fun v a => Q v (g a)) w as) : Row Q w (as.map g) := by
  induction h with
  | nil w => exact .nil w
  | cons u here _ ih => exact .cons u here ih

theorem imp {P' : List Token → α → Prop} (h : Row P w as)
    (hP : ∀ a ∈ as, ∀ v, P v a → P' v a) : Row P' w as := by
  induction h with
  | nil w => exact .nil w
  | cons u here _ ih =>
    exact .cons u (hP _ List.mem_cons_self _ here) (ih fun a ha => hP a (List.mem_cons_of_mem _ ha))

/-- Rows that follow each other are one row. -/
theorem flatten {g : α → List β} (h : Row (fun v a => Row Q v (g a)) w as) :
    Row Q w (as.flatMap g) := by
  induction h with
  | nil w => exact .nil w
  | cons u here _ ih =>
    rw [List.flatMap_cons]
    exact (here.append ih).skip u

theorem of_mem {a : α} (h : Row P w as) (ha : a ∈ as) : ∃ v, v <:+: w ∧ P v a := by
  induction h with
  | nil => cases ha
  | @cons u v w a' as here _ ih =>
    rcases List.mem_cons.1 ha with rfl | ha
    · exact ⟨v, ⟨u, w, List.append_assoc ..⟩, here⟩
    · obtain ⟨v', sub, there⟩ := ih ha
      exact ⟨v', sub.trans ⟨u ++ v, [], by simp⟩, there⟩

end Row

/-! ### Nodes on tokens -/

namespace Node

/-- A node lies on the tokens it was read from. -/
inductive Laid : List Token → Node → Prop
  | mk {v w : List Token} {n : Node} (covers : Token.Covers (v ++ w) n.span)
      (names : Row Spelled v n.spellings) (inner : Row Laid w n.children) : Laid (v ++ w) n

namespace Laid

variable {w : List Token} {n : Node}

theorem covers (h : Laid w n) : Token.Covers w n.span := by
  obtain ⟨covers, -, -⟩ := h
  exact covers

theorem names (h : Laid w n) : Row Spelled w n.spellings := by
  obtain ⟨-, names, -⟩ := h
  exact names.pass _

theorem inner (h : Laid w n) : Row Laid w n.children := by
  obtain ⟨-, -, inner⟩ := h
  exact inner.skip _

theorem spelled (h : Laid w n) {p : Spelling × Name} (hp : p ∈ n.spellings) : Spelled w p := by
  obtain ⟨v, sub, spelled⟩ := h.names.of_mem hp
  exact spelled.mono sub

end Laid

/-- The names and the options in brackets that a node has on the tokens read so far.  These
options have no comments. -/
inductive Draft : List Token → List (Spelling × Name) → List OptionDecl → Prop
  | mk {v w : List Token} {names : List (Spelling × Name)} {options : List OptionDecl}
      (spelled : Row Spelled v names) (laid : Row Laid w (options.map OptionDecl.node))
      (silent : ∀ o ∈ options, o.info.comments = none) : Draft (v ++ w) names options

namespace Draft

variable {u v : List Token} {names : List (Spelling × Name)} {options : List OptionDecl}

theorem start : Draft u [] [] := by
  have draft : Draft (u ++ []) [] [] := ⟨.nil u, .nil [], nofun⟩
  rwa [List.append_nil] at draft

/-- Tokens are passed. -/
theorem pass (h : Draft u names options) (v : List Token) : Draft (u ++ v) names options := by
  obtain ⟨spelled, laid, silent⟩ := h
  rw [List.append_assoc]
  exact ⟨spelled, laid.pass v, silent⟩

/-- A name is read. -/
theorem name (h : Draft u names []) {p : Spelling × Name} (next : Spelled v p) :
    Draft (u ++ v) (names ++ [p]) [] := by
  cases h with
  | @mk u w _ _ spelled _ _ =>
    have draft : Draft (u ++ w ++ v ++ []) (names ++ [p]) [] :=
      ⟨(spelled.pass w).append (.single next), .nil [], nofun⟩
    rwa [List.append_nil] at draft

/-- Options in brackets are read. -/
theorem brackets (h : Draft u names []) (row : Row Laid v (options.map OptionDecl.node))
    (silent : ∀ o ∈ options, o.info.comments = none) : Draft (u ++ v) names options := by
  cases h with
  | @mk u w _ _ spelled _ _ =>
    rw [List.append_assoc]
    exact ⟨spelled, row.skip w, silent⟩

theorem silent (h : Draft u names options) : ∀ o ∈ options, o.info.comments = none := by
  obtain ⟨-, -, silent⟩ := h
  exact silent

/-- The members are read, and the node is complete. -/
theorem laid (h : Draft u names options) {members : List Node} (row : Row Laid v members)
    {n : Node} {first last : Token} (head : (u ++ v).head? = some first)
    (final : (u ++ v).getLast? = some last) (span : n.span = ⟨first.span.start, last.span.stop⟩)
    (spellings : n.spellings = names)
    (children : n.children = options.map OptionDecl.node ++ members) : Laid (u ++ v) n := by
  obtain ⟨spelled, laid, -⟩ := h
  rw [List.append_assoc] at head final ⊢
  refine .mk ⟨⟨first, head, by rw [span]⟩, ⟨last, final, by rw [span]⟩⟩ ?_ ?_
  · rwa [spellings]
  · rw [children]
    exact laid.append row

/-- A node without members is complete. -/
theorem laid_plain (h : Draft u names options) {n : Node} {first last : Token}
    (head : u.head? = some first) (final : u.getLast? = some last)
    (span : n.span = ⟨first.span.start, last.span.stop⟩) (spellings : n.spellings = names)
    (children : n.children = options.map OptionDecl.node) : Laid u n := by
  rw [← List.append_nil u] at head final ⊢
  rw [← List.append_nil (options.map _)] at children
  exact h.laid (.nil []) head final span spellings children

end Draft

end Node
end ProtoAtlas
