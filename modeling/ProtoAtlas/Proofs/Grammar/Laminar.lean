/-
# The spans of a file are laminar

The nodes of a file lie on stretches of its tokens, one inside the other or one behind the
other, and the tokens of a text are sorted by place.  So the spans of the nodes nest as the
nodes do, and nodes side by side do not overlap (`SchemaFile.parse_laminar`).

This holds of every text: a statement that is passed over takes tokens like any other, and
a block that is left open ends with the last token of the text.
-/

import ProtoAtlas.Proofs.Grammar.TracedRules
import ProtoAtlas.Proofs.Source.Slice

namespace ProtoAtlas

/-- A span over tokens of a text lies inside the span of the text. -/
theorem TokenStream.inside_ofText {t : Text} {w : List Token} {s : Span}
    (h : w <:+: (ofText t).tokens) (covers : Token.Covers w s) : s.Inside (Span.ofText t) := by
  have ne : w ≠ [] := by
    rintro rfl
    obtain ⟨first, head, -⟩ := covers.first
    cases head
  obtain ⟨before, inner, after, split, -, -, -, covers'⟩ := exists_segments h ne
  rw [covers.unique covers']
  refine ⟨Position.zero_le _, ?_⟩
  have whole := Segment.flatten_segments t
  rw [split, List.flatMap_append] at whole
  rw [Span.ofText, ← whole, Position.after_append]
  exact Position.le_after _ _

theorem Text.slice_ofText (t : Text) : t.slice (Span.ofText t) = t := by
  have whole := slice_between [] t []
  rwa [List.nil_append, List.append_nil] at whole

namespace Node

/-- Nodes inside a span, given in source order and in lists: they lie inside the span and
follow each other, and the lists hold some of them, in source order and without overlap. -/
structure Nested (outer : Span) (nodes : List Node) (lists : List (List Node)) : Prop where
  inside : ∀ n ∈ nodes, n.span.Inside outer
  ordered : nodes.Pairwise Before
  listed : ∀ l ∈ lists, l ⊆ nodes
  arranged : Arranged lists

/-- **The nodes of a row follow each other.** -/
theorem pairwise_before {w : List Token} {ns : List Node} (row : Row Laid w ns)
    (sorted : Token.Sorted w) : ns.Pairwise Before := by
  induction row with
  | nil => exact List.Pairwise.nil
  | @cons u v w n ns here rest ih =>
    have behind : Token.Sorted (v ++ w) := sorted.sublist (List.sublist_append_right u _)
    have last : Token.Sorted w := behind.sublist (List.sublist_append_right v w)
    refine List.Pairwise.cons (fun n' hn' => ?_) (ih last)
    obtain ⟨v', sub, there⟩ := rest.of_mem hn'
    exact here.covers.stop_le_start there.covers
      (behind.sublist (List.Sublist.append_left sub.sublist v))

/-- What a node that lies on sorted tokens has inside it. -/
theorem Laid.nested {w : List Token} {n : Node} (h : Laid w n) (sorted : Token.Sorted w) :
    Nested n.span n.children n.childLists := by
  have ordered := pairwise_before h.inner sorted
  refine ⟨fun c hc => ?_, ordered, n.sorts_childLists.subset, arranged_childLists ordered⟩
  obtain ⟨v, sub, inner⟩ := h.inner.of_mem hc
  exact h.covers.inside sorted inner.covers sub.subset

theorem Laid.inside_of_mem_spellings {w : List Token} {n : Node} (h : Laid w n)
    (sorted : Token.Sorted w) {p : Spelling × Name} (hp : p ∈ n.spellings) :
    p.2.span.Inside n.span := by
  obtain ⟨v, sub, covers, -⟩ := h.spelled hp
  exact h.covers.inside sorted covers sub.subset

end Node

namespace SchemaFile

/-- **The spans of a file are laminar.**  The file spans its whole text, up to the token at
the end.  Every node has a proper span inside the file, which holds the names and types
written in the node and the nodes inside it; and these, like the nodes at the top of the
file, do not overlap and stand in source order. -/
theorem parse_laminar (uri source : Text) :
    (parse uri source).span = ⟨Position.zero, (TokenStream.ofText source).finish.span.start⟩ ∧
    source.slice (parse uri source).span = source ∧
    Node.Nested (parse uri source).span (parse uri source).children
      (parse uri source).childLists ∧
    ∀ n, (parse uri source).HasNode n →
      n.span.start < n.span.stop ∧ n.span.Inside (parse uri source).span ∧
      (∀ p ∈ n.spellings, p.2.span.Inside n.span) ∧
      Node.Nested n.span n.children n.childLists := by
  have span : (parse uri source).span = Span.ofText source := by
    unfold parse
    dsimp only
    split <;> rfl
  have sorted := TokenStream.sorted_tokens source
  rw [span]
  refine ⟨rfl, source.slice_ofText, ?_, fun n has => ?_⟩
  · have row := row_children uri source
    have ordered := Node.pairwise_before row sorted
    refine ⟨fun n hn => ?_, ordered, (sorts_childLists _).subset, arranged_childLists ordered⟩
    obtain ⟨w, sub, laid⟩ := row.of_mem hn
    exact TokenStream.inside_ofText sub laid.covers
  · obtain ⟨w, sub, laid⟩ := has.exists_laid
    have stretch := sorted.sublist sub.sublist
    exact ⟨laid.covers.proper stretch, TokenStream.inside_ofText sub laid.covers,
      fun p hp => laid.inside_of_mem_spellings stretch hp, laid.nested stretch⟩

/-- A block that is left open, with a field in it that cannot be read and one that can. -/
def openBlock : Text := "message A \x7b int32 = 0;\n int32 c = 1 [d = e];"

theorem openBlock_is_laminar :
    ∃ m c o, (parse "a.proto" openBlock).HasNode m ∧ c ∈ m.children ∧ o ∈ c.children ∧
      m.span = ⟨⟨0, 0⟩, ⟨1, 21⟩⟩ ∧ c.span = ⟨⟨1, 1⟩, ⟨1, 21⟩⟩ ∧ o.span = ⟨⟨1, 14⟩, ⟨1, 19⟩⟩ ∧
      m.span.Inside (parse "a.proto" openBlock).span ∧ c.span.Inside m.span ∧
      o.span.Inside c.span := by
  have spans : (parse "a.proto" openBlock).children.map (fun m => (m.span, m.children.map fun c =>
      (c.span, c.children.map Node.span))) =
      [(⟨⟨0, 0⟩, ⟨1, 21⟩⟩, [(⟨⟨1, 1⟩, ⟨1, 21⟩⟩, [⟨⟨1, 14⟩, ⟨1, 19⟩⟩])])] := by decide +kernel
  obtain ⟨m, hm, inner⟩ := List.map_eq_singleton_iff.1 spans
  obtain ⟨span, inner⟩ := Prod.mk.inj inner
  obtain ⟨c, hc, inner⟩ := List.map_eq_singleton_iff.1 inner
  obtain ⟨span', inner⟩ := Prod.mk.inj inner
  obtain ⟨o, ho, span''⟩ := List.map_eq_singleton_iff.1 inner
  obtain ⟨-, -, -, laminar⟩ := parse_laminar "a.proto" openBlock
  have has : (parse "a.proto" openBlock).HasNode m := by
    refine .top ?_
    rw [hm]
    exact List.mem_singleton_self m
  have member : c ∈ m.children := by rw [hc]; exact List.mem_singleton_self c
  have option : o ∈ c.children := by rw [ho]; exact List.mem_singleton_self o
  obtain ⟨-, inside, -, nested⟩ := laminar m has
  obtain ⟨-, -, -, nested'⟩ := laminar c (.inside has member)
  exact ⟨m, c, o, has, member, option, span, span', span'', inside, nested.inside c member,
    nested'.inside o option⟩

end SchemaFile
end ProtoAtlas
