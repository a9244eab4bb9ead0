/-
# Comments document one declaration each

A reader has a stock of comments: the one it keeps, and those in front of the tokens that
are left (`Reader.comments`).  A declaration that claims a comment takes it out of the
stock.  A field and a group claim their comment behind their label and their type or keyword,
all others right behind their first token.  A declaration without a comment in front takes
the one behind its last token, so the stock is only kept where no token has one behind it.

So the comments of a file are comments in front of its tokens, each given to one node
(`SchemaFile.subperm_comments`).
-/

import ProtoAtlas.Proofs.Grammar.TracedRules

namespace ProtoAtlas

/-- The comments in front of tokens are all of them but those that say nothing. -/
theorem Token.leadings_sublist (ts : List Token) :
    (leadings ts).Sublist (ts.filterMap (·.leading)) := by
  induction ts with
  | nil => exact List.Sublist.refl _
  | cons t ts ih =>
    rw [leadings_cons, List.filterMap_cons]
    cases t.leading with
    | none => exact ih
    | some text =>
      cases text with
      | nil => exact ih.cons _
      | cons c cs => exact ih.cons_cons _

namespace SchemaFile

theorem comments_nodes (f : SchemaFile) :
    f.nodes.filterMap (·.info.comments) = f.children.flatMap Node.comments := by
  rw [nodes_eq, List.filterMap_flatMap]
  rfl

/-- **The comments of a file are comments in front of its tokens**, each given once. -/
theorem subperm_comments (uri source : Text)
    (quiet : ∀ t ∈ (TokenStream.ofText source).tokens, t.trailing = none) :
    ((parse uri source).nodes.filterMap (·.info.comments)).Subperm
      (Token.leadings (TokenStream.ofText source).tokens) := by
  obtain ⟨last, gives, ended, -⟩ := exists_gives uri source
  obtain ⟨w, spends, -⟩ := gives.lays
  have all : (TokenStream.ofText source).tokens = w := by
    have rest := spends.passes.rest
    rwa [ended, List.append_nil] at rest
  rw [comments_nodes]
  exact (List.sublist_append_left _ _).subperm.trans (spends.comments (all ▸ quiet))

/-- **A leading comment documents at most one declaration.**  If no token of a text has a
comment behind it and the comments in front of its tokens are distinct, then no two nodes of
its file have the same comment, and each comment of a node stands in front of a token. -/
theorem leading_comments_document_once (uri source : Text)
    (quiet : ∀ t ∈ (TokenStream.ofText source).tokens, t.trailing = none)
    (distinct : ((TokenStream.ofText source).tokens.filterMap (·.leading)).Nodup) :
    ((parse uri source).nodes.filterMap (·.info.comments)).Nodup ∧
    ∀ n, (parse uri source).HasNode n → ∀ comment, n.info.comments = some comment →
      ∃ t ∈ (TokenStream.ofText source).tokens, t.leading = some comment := by
  have once := subperm_comments uri source quiet
  have leading := Token.leadings_sublist (TokenStream.ofText source).tokens
  constructor
  · obtain ⟨l, perm, sub⟩ := once
    exact perm.nodup_iff.1 (distinct.sublist (sub.trans leading))
  · intro n has comment documented
    have mem : comment ∈ (parse uri source).nodes.filterMap (·.info.comments) :=
      List.mem_filterMap.2 ⟨n, mem_nodes_iff.2 has, documented⟩
    exact List.mem_filterMap.1 (leading.subset (once.subset mem))

/-- A message with a comment that stands in front of a faulty statement. -/
def commented : Text :=
  "// a\nmessage A \x7b\n // b\n = ;\n int32 c = 1;\n /* d */\n enum E \x7b \x7d \x7d"

theorem commented_documents_once :
    (∀ t ∈ (TokenStream.ofText commented).tokens, t.trailing = none) ∧
    ((TokenStream.ofText commented).tokens.filterMap (·.leading)).Nodup ∧
    ((parse "a.proto" commented).nodes.filterMap (·.info.comments)).Nodup ∧
    ∃ m c, (parse "a.proto" commented).HasNode m ∧ c ∈ m.children ∧
      m.info.comments = some ("a" : Text) ∧ c.info.comments = some ("b" : Text) ∧
      ∃ t ∈ (TokenStream.ofText commented).tokens, t.leading = some ("b" : Text) := by
  have quiet : ∀ t ∈ (TokenStream.ofText commented).tokens, t.trailing = none := by
    decide +kernel
  have distinct : ((TokenStream.ofText commented).tokens.filterMap (·.leading)).Nodup := by
    decide +kernel
  have comments : (parse "a.proto" commented).children.map (fun m => (m.info.comments,
      m.children.map fun c => c.info.comments)) =
      [(some ("a" : Text), [some ("b" : Text), some ("d" : Text)])] := by decide +kernel
  obtain ⟨once, documents⟩ := leading_comments_document_once "a.proto" commented quiet distinct
  obtain ⟨m, hm, inner⟩ := List.map_eq_singleton_iff.1 comments
  obtain ⟨first, inner⟩ := Prod.mk.inj inner
  obtain ⟨c, rest, hc, second, -⟩ := List.map_eq_cons_iff.1 inner
  have has : (parse "a.proto" commented).HasNode m := by
    refine .top ?_
    rw [hm]
    exact List.mem_singleton_self m
  have member : c ∈ m.children := by rw [hc]; exact List.mem_cons_self
  exact ⟨quiet, distinct, once, m, c, has, member, first, second,
    documents c (.inside has member) _ second⟩

end SchemaFile
end ProtoAtlas
